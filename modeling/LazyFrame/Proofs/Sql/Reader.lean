import LazyFrame.Proofs.Sql.Lexer
import LazyFrame.Proofs.Sql.Terms

/-!
# Reading terms back

`Term.ofText?` reads a text as a term. It knows no precedence and needs none: an operand is a single
thing or stands in parentheses, so a term is an operand with at most one operator on it. The reader
goes over the tokens from left to right and looks ahead by one token, so a text is read in one way
only.

What a term is printed of is read as this very term (`Term.Phrased.ofText?_text`). The induction
follows the pieces and carries two facts (`Term.Recovered`): the pieces are read back as a term in
front of a closing parenthesis or the end, and between the parentheses they need as an operand in
front of anything that does not make a longer operand of them.
-/

namespace LazyFrame

/-! ## The reader -/

/-- The operator of a token. -/
def BinaryOp.ofToken? (t : Token) : Option BinaryOp :=
  (named.map (·.2)).find? fun op => op.piece.token .sqlite = t

/-- The function of a word. -/
def AggregateFn.ofWord? (cs : List Char) : Option AggregateFn :=
  (named.map (·.2)).find? fun fn => fn.symbol.toList = cs

namespace Term

/-- What reads a term from the front of a list of tokens, and gives what stands behind. -/
abbrev Reader := List Token → Option (Term × List Token)

/-- Reads a term and the parenthesis that closes it. -/
def closed (inner : Reader) : Reader := fun ts =>
  match inner ts with
  | some (t, .symbol [')'] :: rest) => some (t, rest)
  | _ => none

/-- The name of a token, bare or quoted. -/
def nameOf? : Token → Option String
  | .word cs | .quoted cs => some (String.ofList cs)
  | _ => none

/-- Reads what begins with a word: a column behind its alias, an aggregate, or a literal. -/
def behindWord (inner : Reader) (cs : List Char) : Reader
  | .symbol ['.'] :: t :: rest => (nameOf? t).map fun name =>
    (.column (String.ofList cs) name, rest)
  | .symbol ['('] :: rest =>
    match AggregateFn.ofWord? cs, closed inner rest, rest with
    | some fn, some (t, rest), _ => some (.aggregate fn t, rest)
    | some .count, none, .symbol ['*'] :: .symbol [')'] :: rest => some (.countRows, rest)
    | _, _, _ => none
  | rest => if String.ofList cs ∈ constants then some (.literal (String.ofList cs), rest) else none

/-- Reads an operand: a term in parentheses, or what needs none. -/
def operand (inner : Reader) : Reader
  | .symbol ['('] :: rest => closed inner rest
  | .symbol ['-'] :: .number cs :: rest => some (.literal ("-" ++ String.ofList cs), rest)
  | .number cs :: rest => some (.literal (String.ofList cs), rest)
  | .text cs :: rest => some (.literal (String.ofList (Dialect.enclose '\'' cs)), rest)
  | .word cs :: rest => behindWord inner cs rest
  | _ => none

/-- Reads what follows an operand: the end of the term, a test for NULL, or an operator and another
operand. -/
def behindOperand (inner : Reader) (t : Term) : Reader
  | [] => some (t, [])
  | .symbol [')'] :: rest => some (t, .symbol [')'] :: rest)
  | .word ['I', 'S'] :: .word ['N', 'U', 'L', 'L'] :: rest => some (.unary .isNull t, rest)
  | .word ['I', 'S'] :: .word ['N', 'O', 'T'] :: .word ['N', 'U', 'L', 'L'] :: rest =>
    some (.unary .notNull t, rest)
  | first :: rest =>
    match BinaryOp.ofToken? first, operand inner rest with
    | some op, some (r, rest) => some (.binary op t r, rest)
    | _, _ => none

/-- Reads a term, given what reads those in parentheses. -/
def whole (inner : Reader) : Reader
  | .word ['N', 'O', 'T'] :: rest => (operand inner rest).map fun r => (.unary .not r.1, r.2)
  | .symbol ['-'] :: .symbol ['('] :: rest => (closed inner rest).map fun r =>
    (.unary .neg r.1, r.2)
  | .symbol ['-'] :: .word cs :: rest => (behindWord inner cs rest).map fun r =>
    (.unary .neg r.1, r.2)
  | ts => (operand inner ts).bind fun r => behindOperand inner r.1 r.2

/-- Reads a term whose parentheses are nested less than `depth` times. -/
def read : Nat → Reader
  | 0 => fun _ => none
  | depth + 1 => whole (read depth)

/-- The term of a text. There are never more parentheses than tokens. -/
def ofText? (text : String) : Option Term := do
  let tokens ← Lexer.lex text.toList
  match read (tokens.length + 1) tokens with
  | some (t, []) => some t
  | _ => none

end Term

/-! ## Tokens of operators, functions and names -/

/-- An operator is read back from its token. -/
theorem BinaryOp.ofToken?_token (op : BinaryOp) (d : Dialect) :
    ofToken? (op.piece.token d) = some op := by
  cases op <;> rfl

/-- An aggregate is read back from its word. -/
theorem AggregateFn.ofWord?_symbol (fn : AggregateFn) : ofWord? fn.symbol.toList = some fn := by
  cases fn <;> rfl

namespace Term

/-- A name is read back from its token. -/
theorem nameOf?_name (d : Dialect) (name : String) :
    nameOf? ((Piece.name name).token d) = some name := by
  rw [Piece.token]
  split
  · exact congrArg some String.ofList_toList
  · exact congrArg some String.ofList_toList

/-! ## What may stand behind -/

/-- Behind a term: nothing, or the parenthesis that closes it. -/
def Ends (rest : List Token) : Prop := rest = [] ∨ ∃ behind, rest = .symbol [')'] :: behind

/-- Behind an operand: neither of the tokens that make a column or an aggregate of a word. -/
def Follows (rest : List Token) : Prop := .symbol ['.'] ∉ rest.head? ∧ .symbol ['('] ∉ rest.head?

variable {d : Dialect} {t : Term} {ps : List Piece} {rest behind : List Token} {inner : Reader}

/-- What begins with neither a dot nor a parenthesis may follow a word. -/
theorem follows_cons {first : Token} (hdot : first ≠ .symbol ['.'])
    (hopen : first ≠ .symbol ['(']) : Follows (first :: rest) :=
  ⟨fun h => hdot (Option.some.inj h), fun h => hopen (Option.some.inj h)⟩

/-- What may end a term may follow a word. -/
theorem Ends.follows (h : Ends rest) : Follows rest := by
  rcases h with rfl | ⟨behind, rfl⟩
  · exact ⟨nofun, nofun⟩
  · exact follows_cons (by decide) (by decide)

/-- An operator may follow a word. -/
theorem follows_operator (op : BinaryOp) : Follows (op.piece.token d :: rest) := by
  have hop : ∀ other : Token, BinaryOp.ofToken? other = none → op.piece.token d ≠ other := by
    rintro _ hnone rfl
    rw [BinaryOp.ofToken?_token] at hnone
    cases hnone
  exact follows_cons (hop _ rfl) (hop _ rfl)

/-! ## Reading one token after the other -/

/-- A term in parentheses is closed behind it. -/
theorem closed_of_eq (h : inner rest = some (t, .symbol [')'] :: behind)) : closed inner rest =
    some (t, behind) := by
  rw [closed, h]
  rfl

/-- A word with a dot is the owner of a column. -/
theorem behindWord_column (owner name : String) :
    behindWord inner owner.toList (.symbol ['.'] :: (Piece.name name).token d :: rest) =
      some (.column owner name, rest) := by
  rw [behindWord, nameOf?_name, String.ofList_toList]
  rfl

/-- A word that is a constant is that literal. -/
theorem behindWord_constant {s : String} (h : s ∈ constants) (hrest : Follows rest) :
    behindWord inner s.toList rest = some (.literal s, rest) := by
  unfold behindWord
  split
  · exact absurd rfl hrest.1
  · exact absurd rfl hrest.2
  · rw [String.ofList_toList, if_pos h]

/-- A word that is an aggregate has its operand in parentheses. -/
theorem behindWord_aggregate (fn : AggregateFn) (h : closed inner rest = some (t, behind)) :
    behindWord inner fn.symbol.toList (.symbol ['('] :: rest) = some (.aggregate fn t, behind) := by
  have hword := AggregateFn.ofWord?_symbol fn
  simp only [behindWord, hword, h]

/-- A constant is an operand. -/
theorem operand_constant {text : String} (h : Constant text ps) (hrest : Follows rest) :
    operand inner (ps.map (Piece.token d) ++ rest) = some (.literal text, rest) := by
  have hnumber : ∀ s : String, String.ofList s.toList = s := fun s => String.ofList_toList
  cases h with
  | word h => exact behindWord_constant h hrest
  | text s => rfl
  | number h =>
    show some (Term.literal (String.ofList _), rest) = _
    rw [hnumber]
  | @minus s h =>
    show some (Term.literal ("-" ++ String.ofList s.toList), rest) = _
    rw [hnumber]

/-- An operand stands alone where a term may end. -/
theorem behindOperand_of_ends (h : Ends rest) : behindOperand inner t rest = some (t, rest) := by
  rcases h with rfl | ⟨behind, rfl⟩
  · rfl
  · rfl

/-- An operand with an operator behind it has another operand behind that. -/
theorem behindOperand_operator (op : BinaryOp) :
    behindOperand inner t (op.piece.token d :: rest) = (operand inner rest).map fun r =>
      (.binary op t r.1, r.2) := by
  -- no token of an operator ends a term or begins a test for NULL
  have hread : behindOperand inner t (op.piece.token d :: rest) =
      match BinaryOp.ofToken? (op.piece.token d), operand inner rest with
      | some op, some (r, rest) => some (.binary op t r, rest)
      | _, _ => none := by
    cases op <;> rfl
  rw [hread, BinaryOp.ofToken?_token]
  cases operand inner rest <;> rfl

/-- A term that begins with a word begins with an operand, unless the word is NOT. -/
theorem whole_word {cs : List Char} (h : cs ≠ "NOT".toList) : whole inner (.word cs :: rest) =
    (operand inner (.word cs :: rest)).bind fun r => behindOperand inner r.1 r.2 := by
  unfold whole
  split
  · next heq => exact absurd (Token.word.inj (List.cons.inj heq).1) h
  · next heq => cases heq
  · next heq => cases heq
  · rfl

/-- Where an operand stands, the term does not begin with an operator. -/
theorem Phrased.whole_grouped (h : t.Phrased ps) :
    whole inner ((grouped t.isCompound ps).map (Piece.token d) ++ rest) =
      (operand inner ((grouped t.isCompound ps).map (Piece.token d) ++ rest)).bind fun r =>
        behindOperand inner r.1 r.2 := by
  cases h with
  | @column n hn name =>
    refine whole_word fun heq => ?_
    obtain ⟨c, cs, hword, hc, _⟩ := Alias.word_eq_cons hn
    rw [hword] at heq
    cases heq
    cases hc
  | literal h =>
    cases h with
    | word h =>
      refine whole_word fun heq => ?_
      rw [String.toList_inj.mp heq] at h
      revert h
      decide
    | text s => rfl
    | number h => rfl
    | minus h => rfl
  | binary | not | neg | isNull | notNull => rfl
  | aggregate fn h => cases fn <;> rfl
  | countRows => rfl

/-! ## Reading a term back -/

/-- These pieces are read as this term in front of an end, and between the parentheses they need as
an operand. -/
structure Recovered (d : Dialect) (t : Term) (ps : List Piece) : Prop where
  whole {depth : Nat} {rest : List Token} (hdepth : ps.length ≤ depth) (hrest : Ends rest) :
    whole (read depth) (ps.map (Piece.token d) ++ rest) = some (t, rest)
  operand {depth : Nat} {rest : List Token} (hdepth : (grouped t.isCompound ps).length ≤ depth)
    (hrest : Follows rest) :
    operand (read depth) ((grouped t.isCompound ps).map (Piece.token d) ++ rest) = some (t, rest)

/-- Parentheses take nothing away. -/
theorem length_le_grouped (needed : Bool) (ps : List Piece) :
    ps.length ≤ (grouped needed ps).length := by
  unfold grouped
  split
  · simp only [List.length_cons, List.length_append]
    omega
  · exact Nat.le_refl _

/-- Pieces in front of the parenthesis that closes them. -/
theorem closed_of_whole (h : ∀ {depth rest}, ps.length ≤ depth → Ends rest →
    whole (read depth) (ps.map (Piece.token d) ++ rest) = some (t, rest)) {depth : Nat} (hdepth :
    ps.length < depth) (rest : List Token) :
    closed (read depth) ((ps ++ [Piece.symbol [')']]).map (Piece.token d) ++ rest) =
      some (t, rest) := by
  obtain ⟨depth, rfl⟩ := Nat.exists_eq_succ_of_ne_zero (Nat.ne_zero_of_lt hdepth)
  rw [List.map_append, List.append_assoc]
  exact closed_of_eq (h (Nat.le_of_lt_succ hdepth) (.inr ⟨rest, rfl⟩))

namespace Recovered

/-- What needs parentheses is an operand in them. -/
theorem of_whole (hcompound : t.isCompound = true)
    (h : ∀ {depth rest}, ps.length ≤ depth → Ends rest →
      Term.whole (read depth) (ps.map (Piece.token d) ++ rest) = some (t, rest)) :
    Recovered d t ps := by
  refine ⟨h, fun {depth rest} hdepth _ => ?_⟩
  rw [hcompound, grouped, if_pos rfl] at hdepth ⊢
  rw [List.length_cons, List.length_append] at hdepth
  have hdepth' : ps.length < depth := by omega
  exact closed_of_whole h hdepth' rest

/-- What needs none is a term as it is an operand. -/
theorem of_operand (hsimple : t.isCompound = false) (ht : t.Phrased ps)
    (h : ∀ {depth rest}, ps.length ≤ depth →
    Follows rest → Term.operand (read depth) (ps.map (Piece.token d) ++ rest) = some (t, rest)) :
    Recovered d t ps := by
  have hgrouped : grouped t.isCompound ps = ps := by
    rw [hsimple]
    rfl
  refine ⟨fun {depth rest} hdepth hrest => ?_, fun hdepth hrest => ?_⟩
  · have hwhole := @Phrased.whole_grouped d t ps rest (read depth) ht
    rw [hgrouped, h hdepth hrest.follows] at hwhole
    exact hwhole.trans (behindOperand_of_ends hrest)
  · rw [hgrouped] at hdepth ⊢
    exact h hdepth hrest

/-- A term that begins with an operand goes on behind it. -/
theorem whole_operand (h : Recovered d t ps) (ht : t.Phrased ps) {depth : Nat}
    (hdepth : (grouped t.isCompound ps).length ≤ depth) (hrest : Follows rest) :
    Term.whole (read depth) ((grouped t.isCompound ps).map (Piece.token d) ++ rest) =
      behindOperand (read depth) t rest := by
  have hwhole := @Phrased.whole_grouped d t ps rest (read depth) ht
  rw [h.operand hdepth hrest] at hwhole
  exact hwhole

end Recovered

/-- What a term is printed of is read as this term, by induction over what it is printed of. -/
theorem Phrased.recovered (h : t.Phrased ps) : Recovered d t ps := by
  induction h with
  | @column n hn name =>
    refine .of_operand rfl (.column hn name) fun {depth rest} _ _ => ?_
    exact @behindWord_column d rest (read depth) (Alias.word n) name
  | literal h => exact .of_operand rfl (.literal h) fun _ hrest => operand_constant h hrest
  | @binary op l r ls rs hl hr ihl ihr =>
    refine .of_whole rfl fun {depth rest} hdepth hrest => ?_
    rw [List.length_append, List.length_cons] at hdepth
    rw [List.map_append, List.append_assoc, List.map_cons, List.cons_append,
      ihl.whole_operand hl (by omega) (follows_operator op), behindOperand_operator,
      ihr.operand (by omega) hrest.follows]
    rfl
  | @not t ps h ih =>
    refine .of_whole rfl fun {depth rest} hdepth hrest => ?_
    show (Term.operand (read depth)
      ((grouped t.isCompound ps).map (Piece.token d) ++ rest)).map _ = _
    rw [ih.operand (Nat.le_of_succ_le hdepth) hrest.follows]
    rfl
  | @neg t ps h ih =>
    refine .of_whole rfl fun {depth rest} hdepth hrest => ?_
    cases hcolumn : t.isColumn with
    | true =>
      cases h with
      | @column n hn name =>
        show (behindWord (read depth) (Alias.word n).toList
          (.symbol ['.'] :: (Piece.name name).token d :: rest)).map _ = _
        rw [behindWord_column]
        rfl
      | literal | binary | not | neg | isNull | notNull | aggregate | countRows => cases hcolumn
    | false =>
      rw [hcolumn, List.length_cons] at hdepth
      have hlength : ps.length ≤ (grouped (!false) ps).length := length_le_grouped _ ps
      show (closed (read depth)
        ((ps ++ [Piece.symbol [')']]).map (Piece.token d) ++ rest)).map _ = _
      rw [closed_of_whole ih.whole (Nat.lt_of_lt_of_le (Nat.lt_succ_of_le hlength) hdepth) rest]
      rfl
  | @isNull t ps h ih =>
    refine .of_whole rfl fun {depth rest} hdepth hrest => ?_
    have hrest' :
        Follows ([Piece.word "IS".toList, .word "NULL".toList].map (Piece.token d) ++ rest) :=
      follows_cons nofun nofun
    rw [List.length_append] at hdepth
    rw [List.map_append, List.append_assoc,
      ih.whole_operand h (Nat.le_of_add_right_le hdepth) hrest']
    rfl
  | @notNull t ps h ih =>
    refine .of_whole rfl fun {depth rest} hdepth hrest => ?_
    have hrest' : Follows
        ([Piece.word "IS".toList, .word "NOT".toList, .word "NULL".toList].map
          (Piece.token d) ++ rest) :=
      follows_cons nofun nofun
    rw [List.length_append] at hdepth
    rw [List.map_append, List.append_assoc,
      ih.whole_operand h (Nat.le_of_add_right_le hdepth) hrest']
    rfl
  | @aggregate fn t ps h ih =>
    refine .of_operand rfl (.aggregate fn h) fun {depth rest} hdepth _ => ?_
    rw [List.length_cons, List.length_cons, List.length_append] at hdepth
    have hdepth' : ps.length < depth := by omega
    exact behindWord_aggregate fn (closed_of_whole ih.whole hdepth' rest)
  | countRows =>
    -- an asterisk is no term, however deep
    refine .of_operand rfl .countRows fun {depth rest} hdepth _ => ?_
    cases depth with
    | zero => cases hdepth
    | succ depth => rfl

/-- The text of a term is read as this term. -/
theorem Phrased.ofText?_text (h : t.Phrased ps) : ofText? (t.text d) = some t := by
  have hlex : Lexer.lex (t.text d).toList = some (ps.map (Piece.token d)) := h.spelledAs.lex_eq
  have hlength : ps.length ≤ (ps.map (Piece.token d)).length :=
    Nat.le_of_eq (List.length_map _).symm
  have hread : read ((ps.map (Piece.token d)).length + 1) (ps.map (Piece.token d)) =
      some (t, []) := by
    have hwhole := (h.recovered (d := d)).whole hlength (.inl rfl)
    rwa [List.append_nil] at hwhole
  rw [ofText?, hlex, Option.bind_eq_bind, Option.bind_some, hread]

-- parentheses say which operator binds closer, and nothing else does
example : ofText? "(1 + -2) * 3" =
    some (.binary .mul (.binary .add (.literal "1") (.literal "-2")) (.literal "3")) := by
  decide +kernel

example : ofText? "1 + -2 * 3" = none := by decide +kernel

end Term

end LazyFrame
