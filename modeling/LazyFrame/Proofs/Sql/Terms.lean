import LazyFrame.Proofs.Sql.Scope
import LazyFrame.Proofs.Sql.Spelling

/-!
# The pieces of a term

A term of an expression that builders make is printed piece by piece (`Term.Phrased`): an operand
that is made by an operator stands between parentheses, a negation also puts them around everything
else that is no column, and a literal is one token, or two if it begins with a minus sign. These
pieces are what the text of the term is read as (`Phrased.spelledAs`), for every end of a column or
a literal and every beginning behind it lets the lexer tell them apart.

What an expression and its term have to do with each other is said once by `Expr.Resolves`, and so
is which pieces of the term come from the expression (`Expr.Resolves.exists_phrased`).
-/

namespace LazyFrame

open Lexer (Reads Before anything steps)

/-! ## Terms of expressions -/

namespace Expr

/-- The term of an expression of builders in a scope. -/
inductive Resolves (scope : Scope) : Expr → Term → Prop where
  | column {r : Relation} {name owner : String} (howner : scope.owner r = .ok owner)
    (hname : r.exposes name = true) :
    Resolves scope (.column r name) (.column owner name)
  | literal {v : Value} {text : String} (htext : Dialect.literal v = .ok text) :
    Resolves scope (.literal v) (.literal text)
  | binary (op : BinaryOp) {l r : Expr} {tl tr : Term} (hl : Resolves scope l tl)
    (hr : Resolves scope r tr) :
    Resolves scope (.binary op l r) (.binary op tl tr)
  | unary (op : UnaryOp) {e : Expr} {t : Term} (h : Resolves scope e t) :
    Resolves scope (.unary op e) (.unary op t)
  | aggregate (fn : AggregateFn) {e : Expr} {t : Term} (h : Resolves scope e t) :
    Resolves scope (.aggregate fn e) (.aggregate fn t)
  | countRows : Resolves scope .countRows .countRows

/-- What an expression that was built is resolved to has its columns found in the scope. -/
theorem resolves_of_resolve {scope : Scope} {e : Expr} {t : Term} (hbuilt : e.isBuilt = true)
    (ht : e.resolve scope = .ok t) : e.Resolves scope t := by
  induction e generalizing t with
  | column r name =>
    obtain ⟨owner, howner, ht⟩ := Attempt.bind_eq_ok.mp ht
    split at ht
    next hname =>
      cases ht
      exact .column howner hname
    next => cases ht
  | literal v =>
    obtain ⟨text, htext, ht⟩ := Attempt.bind_eq_ok.mp ht
    cases ht
    exact .literal htext
  | binary op l r ihl ihr =>
    obtain ⟨hl, hr⟩ := (Bool.and_eq_true ..).mp hbuilt
    obtain ⟨tl, htl, ht⟩ := Attempt.bind_eq_ok.mp ht
    obtain ⟨tr, htr, ht⟩ := Attempt.bind_eq_ok.mp ht
    cases ht
    exact .binary op (ihl hl htl) (ihr hr htr)
  | unary op e ih =>
    obtain ⟨t', ht', ht⟩ := Attempt.bind_eq_ok.mp ht
    cases ht
    exact .unary op (ih hbuilt ht')
  | aggregate fn e ih =>
    obtain ⟨t', ht', ht⟩ := Attempt.bind_eq_ok.mp ht
    cases ht
    exact .aggregate fn (ih hbuilt ht')
  | countRows =>
    cases ht
    exact .countRows
  | given v => cases hbuilt

/-- The literal texts and the column names of an expression, from left to right. -/
def chosen : Expr → List Piece
  | column _ name => [.name name]
  | literal value => value.chosen
  | binary _ left right => left.chosen ++ right.chosen
  | unary _ operand => operand.chosen
  | aggregate _ operand => operand.chosen
  | countRows => []
  | given _ => []

end Expr

/-! ## Texts and their pieces -/

/-- In front of these characters the text is read as these pieces. -/
def SpelledAs (d : Dialect) (follow : Char → Bool) (text : String) (pieces : List Piece) : Prop :=
  Reads follow text.toList (pieces.map (Piece.token d))

namespace SpelledAs

variable {d : Dialect} {follow follow' : Char → Bool} {s t sep : String} {a b ps : List Piece}

/-- A text that may stand before some characters may stand before fewer. -/
theorem mono (h : SpelledAs d follow s a) (hsub : ∀ c, follow' c = true → follow c = true) :
    SpelledAs d follow' s a :=
  Reads.mono h hsub

/-- A text of the printer itself that is read in a fixed number of steps. -/
theorem fixed (n : Nat)
    (h : ∀ rest, steps n (s.toList ++ rest) = some (ps.map (Piece.token d), rest)) :
    SpelledAs d anything s ps :=
  .of_steps n h

/-- Two texts in a row are spelled as their pieces in a row. -/
theorem append (h : SpelledAs d follow s a) (h' : SpelledAs d follow' t b)
    (hfit : ∀ rest, Before follow' rest → Before follow (t.toList ++ rest)) :
    SpelledAs d follow' (s ++ t) (a ++ b) := by
  rw [SpelledAs, String.toList_append, List.map_append]
  exact Reads.append h h' hfit

/-- A part behind one that lets anything follow. -/
theorem behind (h : SpelledAs d anything s a) (h' : SpelledAs d follow t b) :
    SpelledAs d follow (s ++ t) (a ++ b) :=
  h.append h' fun _ _ => Lexer.before_anything _

/-- A part in front of one that lets it end. -/
theorem closed (h : SpelledAs d follow s a) (h' : SpelledAs d follow' t b)
    (hopens : Opens follow t) : SpelledAs d follow' (s ++ t) (a ++ b) :=
  h.append h' fun rest _ => hopens.before rest

/-- What is spelled as some pieces spells those of them that somebody chose. -/
theorem spelled (h : SpelledAs d follow s ps) (hclosed : Piece.semicolon ∉ ps) :
    Spelled d follow s (ps.filter Piece.isChosen) :=
  ⟨ps, h, rfl, hclosed⟩

end SpelledAs

/-! ## What a term is printed of -/

/-- The piece of an operator: a word or a symbol. -/
def BinaryOp.piece : BinaryOp → Piece
  | .and => .word BinaryOp.and.symbol.toList
  | .or => .word BinaryOp.or.symbol.toList
  | op => .symbol op.symbol.toList

namespace Term

/-- The words that are literals. -/
def constants : List String := ["NULL", "TRUE", "FALSE"]

/-- Pieces in parentheses, or as they are. -/
def grouped (needed : Bool) (ps : List Piece) : List Piece :=
  if needed then .symbol ['('] :: (ps ++ [.symbol [')']]) else ps

/-- The text of a literal and its pieces. -/
inductive Constant : String → List Piece → Prop where
  | word {s : String} (h : s ∈ constants) : Constant s [.word s.toList]
  | text (s : String) : Constant (String.ofList (Dialect.enclose '\'' s.toList)) [.literal s]
  | number {s : String} (h : IsNumeral s.toList) : Constant s [.number s.toList]
  | minus {s : String} (h : IsNumeral s.toList) :
    Constant ("-" ++ s) [.symbol ['-'], .number s.toList]

/-- A term and the pieces it is printed of. -/
inductive Phrased : Term → List Piece → Prop where
  | column {n : Nat} (hn : 0 < n) (name : String) :
    Phrased (.column (Alias.word n) name) [.word (Alias.word n).toList, .symbol ['.'], .name name]
  | literal {text : String} {ps : List Piece} (h : Constant text ps) : Phrased (.literal text) ps
  | binary (op : BinaryOp) {l r : Term} {ls rs : List Piece} (hl : Phrased l ls)
    (hr : Phrased r rs) :
    Phrased (.binary op l r) (grouped l.isCompound ls ++ op.piece :: grouped r.isCompound rs)
  | not {t : Term} {ps : List Piece} (h : Phrased t ps) :
    Phrased (.unary .not t) (.word "NOT".toList :: grouped t.isCompound ps)
  | neg {t : Term} {ps : List Piece} (h : Phrased t ps) :
    Phrased (.unary .neg t) (.symbol ['-'] :: grouped (!t.isColumn) ps)
  | isNull {t : Term} {ps : List Piece} (h : Phrased t ps) :
    Phrased (.unary .isNull t) (grouped t.isCompound ps ++ [.word "IS".toList, .word "NULL".toList])
  | notNull {t : Term} {ps : List Piece} (h : Phrased t ps) :
    Phrased (.unary .notNull t)
      (grouped t.isCompound ps ++ [.word "IS".toList, .word "NOT".toList, .word "NULL".toList])
  | aggregate (fn : AggregateFn) {t : Term} {ps : List Piece} (h : Phrased t ps) :
    Phrased (.aggregate fn t) (.word fn.symbol.toList :: .symbol ['('] :: (ps ++ [.symbol [')']]))
  | countRows : Phrased .countRows
      [.word AggregateFn.count.symbol.toList, .symbol ['('], .symbol ['*'], .symbol [')']]

end Term

/-! ## Its text is read as these pieces -/

section Fixed

variable {d : Dialect}

theorem spelledAs_open : SpelledAs d anything "(" [.symbol ['(']] := .fixed 1 fun _ => rfl

theorem spelledAs_close : SpelledAs d anything ")" [.symbol [')']] := .fixed 1 fun _ => rfl

theorem spelledAs_dot : SpelledAs d anything "." [.symbol ['.']] := .fixed 1 fun _ => rfl

theorem spelledAs_minus : SpelledAs d (· ≠ '-') "-" [.symbol ['-']] := Lexer.reads_minus

/-- A word is spelled as itself. -/
theorem spelledAs_word {s : String} {c : Char} {cs : List Char} (hs : s.toList = c :: cs)
    (hc : Lexer.isWordStart c = true) (hcs : ∀ e ∈ cs, Lexer.isWordPart e = true) :
    SpelledAs d (fun e => !Lexer.isWordPart e) s [.word s.toList] := by
  rw [SpelledAs, hs]
  exact Lexer.reads_word hc hcs

/-- An alias is spelled as itself. -/
theorem spelledAs_alias {n : Nat} (hn : 0 < n) :
    SpelledAs d (fun e => !Lexer.isWordPart e) (Alias.word n) [.word (Alias.word n).toList] := by
  obtain ⟨c, cs, hword, hc, hcs⟩ := Alias.word_eq_cons hn
  refine spelledAs_word hword ?_ fun e he => ?_
  · simp [Lexer.isWordStart_eq, hc]
  · simp [Lexer.isWordPart, Lexer.isWordStart_eq, hcs e he]

/-- An identifier is spelled as its name. -/
theorem spelledAs_identifier (name : String) :
    SpelledAs d endsName (d.identifier name) [.name name] :=
  reads_identifier name

/-- An operator is spelled between blanks. -/
theorem spelledAs_operator (op : BinaryOp) :
    SpelledAs d anything (" " ++ op.symbol ++ " ") [op.piece] := by
  refine .fixed 3 fun rest => ?_
  cases op <;> rfl

/-- An aggregate is spelled with the parenthesis behind it. -/
theorem spelledAs_function (fn : AggregateFn) :
    SpelledAs d anything (fn.symbol ++ "(") [.word fn.symbol.toList, .symbol ['(']] := by
  refine .fixed 2 fun rest => ?_
  cases fn <;> rfl

/-- A text in parentheses where they are needed. -/
theorem SpelledAs.grouped {s : String} {ps : List Piece} (h : SpelledAs d isBreak s ps)
    (needed : Bool) :
    SpelledAs d isBreak (Term.parenthesised needed s) (Term.grouped needed ps) := by
  unfold Term.parenthesised Term.grouped
  split
  · have hclose : SpelledAs d isBreak ")" [.symbol [')']] := spelledAs_close.mono fun _ _ => rfl
    have htext := spelledAs_open.behind (h.closed hclose rfl)
    rwa [← String.append_assoc] at htext
  · exact h

end Fixed

namespace Term

variable {d : Dialect} {t : Term} {text : String} {ps : List Piece}

/-- A constant is spelled as its pieces. -/
theorem Constant.spelledAs (h : Constant text ps) : SpelledAs d isBreak text ps := by
  have hword : ∀ {s : String} {c : Char} {cs : List Char}, s.toList = c :: cs →
      Lexer.isWordStart c = true →
      cs.all Lexer.isWordPart = true → SpelledAs d isBreak s [.word s.toList] := fun hs hc hcs =>
    (spelledAs_word hs hc (List.all_eq_true.mp hcs)).mono (of_isBreak (by decide))
  have hnumeral : ∀ {s : String}, IsNumeral s.toList →
      SpelledAs d isBreak s [.number s.toList] := fun h =>
    (Lexer.reads_numeral h).mono (of_isBreak (by decide))
  cases h with
  | word h =>
    simp only [constants, List.mem_cons, List.not_mem_nil, or_false] at h
    rcases h with rfl | rfl | rfl
    · exact hword rfl rfl (by decide)
    · exact hword rfl rfl (by decide)
    · exact hword rfl rfl (by decide)
  | text s =>
    rw [SpelledAs, String.toList_ofList]
    exact (Lexer.reads_text _).mono (of_isBreak (by decide))
  | number h => exact hnumeral h
  | minus h => exact spelledAs_minus.closed (hnumeral h) (h.opens rfl)

namespace Phrased

/-- A column begins with the alias of its relation. -/
theorem opens_of_isColumn (h : Phrased t ps) (hcolumn : t.isColumn = true) {c : Char}
    (hc : c.isLower = false) : Opens (· ≠ c) (t.text d) := by
  cases h with
  | column hn name =>
    obtain ⟨first, rest, hword, hfirst, _⟩ := Alias.word_eq_cons hn
    have hopens : Opens (· ≠ c) (Alias.word _) := opens_of_head hword hfirst hc
    exact (hopens.append _).append _
  | literal | binary | not | neg | isNull | notNull | aggregate | countRows => cases hcolumn

/-- An operand does not begin with an equals sign. -/
theorem opens_operandText (h : Phrased t ps) : Opens (· ≠ '=') (t.operandText d) := by
  have hopen : Opens (· ≠ '=') "(" := rfl
  cases h with
  | column hn name => exact opens_of_isColumn (.column hn name) rfl rfl
  | literal h =>
    cases h with
    | word h =>
      have hword : ∀ s ∈ constants, Opens (· ≠ '=') s := by simp [constants, Opens]
      exact hword _ h
    | text s => simp [Opens, operandText, parenthesised, isCompound, text, Dialect.enclose]
    | number h => exact h.opens rfl
    | minus h =>
      have hminus : Opens (· ≠ '=') "-" := rfl
      exact hminus.append _
  | binary | not | neg | isNull | notNull => exact (hopen.append _).append _
  | aggregate fn h =>
    have hsymbol : Opens (· ≠ '=') fn.symbol := by
      cases fn <;> rfl
    exact ((hsymbol.append _).append _).append _
  | countRows =>
    have hsymbol : Opens (· ≠ '=') AggregateFn.count.symbol := rfl
    exact hsymbol.append _

/-- The text of a term is read as its pieces. -/
theorem spelledAs (h : Phrased t ps) : SpelledAs d isBreak (t.text d) ps := by
  induction h with
  | column hn name =>
    have hname : SpelledAs d isBreak (d.identifier name) [.name name] :=
      (spelledAs_identifier name).mono (of_isBreak (by decide))
    exact (spelledAs_alias hn).closed spelledAs_dot rfl |>.behind hname
  | literal h => exact h.spelledAs
  | @binary op l r ls rs hl hr ihl ihr =>
    have hblank : Opens isBreak " " := rfl
    have hjoined :=
      (ihl.grouped l.isCompound).closed ((spelledAs_operator op).behind (ihr.grouped r.isCompound))
      (((hblank.append _).append _).append _)
    rwa [← String.append_assoc, ← String.append_assoc, ← String.append_assoc] at hjoined
  | @not t ps h ih =>
    have hnot : SpelledAs d anything "NOT " [.word "NOT".toList] := .fixed 2 fun _ => rfl
    exact hnot.behind (ih.grouped t.isCompound)
  | @neg t ps h ih =>
    refine spelledAs_minus.closed (ih.grouped (!t.isColumn)) ?_
    -- a second minus sign would open a comment
    cases hcolumn : t.isColumn with
    | true => exact h.opens_of_isColumn hcolumn rfl
    | false =>
      have hopen : Opens (· ≠ '-') "(" := rfl
      exact (hopen.append _).append _
  | @isNull t ps h ih =>
    have hnull : SpelledAs d isBreak "NULL" [.word "NULL".toList] :=
      (Constant.word (by decide)).spelledAs
    have his : SpelledAs d anything " IS " [.word "IS".toList] := .fixed 3 fun _ => rfl
    exact (ih.grouped t.isCompound).closed (his.behind hnull) rfl
  | @notNull t ps h ih =>
    have hnull : SpelledAs d isBreak "NULL" [.word "NULL".toList] :=
      (Constant.word (by decide)).spelledAs
    have his : SpelledAs d anything " IS NOT " [.word "IS".toList, .word "NOT".toList] :=
      .fixed 5 fun _ => rfl
    exact (ih.grouped t.isCompound).closed (his.behind hnull) rfl
  | aggregate fn h ih =>
    have hclose : SpelledAs d isBreak ")" [.symbol [')']] := spelledAs_close.mono fun _ _ => rfl
    have htext := (spelledAs_function fn).behind (ih.closed hclose rfl)
    rwa [← String.append_assoc] at htext
  | countRows =>
    have hcount : SpelledAs d anything (AggregateFn.count.symbol ++ "(*)")
        [.word AggregateFn.count.symbol.toList, .symbol ['('], .symbol ['*'], .symbol [')']] :=
      .fixed 4 fun _ => rfl
    exact hcount.mono fun _ _ => rfl

/-- There is no semicolon in a term. -/
theorem semicolon_not_mem (h : Phrased t ps) : Piece.semicolon ∉ ps := by
  have hgrouped : ∀ {ps : List Piece}, Piece.semicolon ∉ ps →
      ∀ needed, Piece.semicolon ∉ grouped needed ps := by
    intro ps hps needed
    unfold grouped
    split
    · simp [Piece.semicolon] at hps ⊢
      exact hps
    · exact hps
  -- names and texts are pieces of their own, whatever characters are in them
  induction h with
  | column hn name => simp [Piece.semicolon]
  | literal h => cases h <;> simp [Piece.semicolon]
  | binary op hl hr ihl ihr =>
    have hop : Piece.semicolon ≠ op.piece := by
      cases op <;> decide
    rw [List.mem_append, List.mem_cons, not_or, not_or]
    exact ⟨hgrouped ihl _, hop, hgrouped ihr _⟩
  | not h ih | neg h ih =>
    rw [List.mem_cons, not_or]
    exact ⟨by decide, hgrouped ih _⟩
  | isNull h ih | notNull h ih =>
    rw [List.mem_append, not_or]
    exact ⟨hgrouped ih _, by decide⟩
  | aggregate fn h ih =>
    rw [List.mem_cons, List.mem_cons, List.mem_append, not_or, not_or, not_or]
    exact ⟨Piece.noConfusion, by decide, ih, by decide⟩
  | countRows => decide

end Phrased

end Term

/-! ## Which pieces come from the expression -/

/-- A signed number is a constant in which nobody chose anything. -/
theorem IsSigned.exists_constant {text : String} (h : IsSigned text) :
    ∃ ps, Term.Constant text ps ∧ ps.filter Piece.isChosen = [] := by
  cases h with
  | plain h => exact ⟨_, .number h, rfl⟩
  | minus h => exact ⟨_, .minus h, rfl⟩

namespace Expr

/-- The text of a literal is a constant with the pieces that its value brings along. -/
theorem exists_constant {v : Value} {text : String} (h : Dialect.literal v = .ok text) :
    ∃ ps, Term.Constant text ps ∧ ps.filter Piece.isChosen = v.chosen := by
  -- a value that is refused has no text at all
  cases hw : v.isWritten with
  | false => exact absurd h (Dialect.not_literal_of_asText hw)
  | true =>
    cases v with
    | null =>
      cases h
      exact ⟨_, .word (by decide), rfl⟩
    | text s =>
      cases h
      exact ⟨_, .text s, rfl⟩
    | bool b =>
      cases h
      cases b with
      | false => exact ⟨_, .word (by decide), rfl⟩
      | true => exact ⟨_, .word (by decide), rfl⟩
    | integer n =>
      cases h
      exact (Number.isSigned_int n).exists_constant
    | number n =>
      cases n with
      | nan | infinity _ => cases hw
      | negZero | finite _ =>
        cases h
        exact (Number.isSigned_text rfl).exists_constant
    | missing | half _ | instant _ | list _ | record _ => cases hw

/-- What grouping adds is not of the expression. -/
theorem filter_grouped (needed : Bool) (ps : List Piece) :
    (Term.grouped needed ps).filter Piece.isChosen = ps.filter Piece.isChosen := by
  unfold Term.grouped
  split
  · simp [Piece.isChosen]
  · rfl

/-- The term of an expression is printed of pieces, and those that come from a plan are those of the
expression. -/
theorem Resolves.exists_phrased {scope : Scope} (hscope : scope.Worded) {e : Expr} {t : Term}
    (h : e.Resolves scope t) : ∃ ps, t.Phrased ps ∧ ps.filter Piece.isChosen = e.chosen := by
  induction h with
  | column howner hname =>
    obtain ⟨n, hn, rfl⟩ := hscope.owner howner
    exact ⟨_, .column hn _, rfl⟩
  | literal htext =>
    obtain ⟨ps, hps, hchosen⟩ := exists_constant htext
    exact ⟨ps, .literal hps, hchosen⟩
  | binary op hl hr ihl ihr =>
    obtain ⟨ls, hls, hlchosen⟩ := ihl
    obtain ⟨rs, hrs, hrchosen⟩ := ihr
    refine ⟨_, .binary op hls hrs, ?_⟩
    -- the operator is of the grammar, and the brackets around it too
    have hop : op.piece.isChosen = false := by
      cases op <;> rfl
    rw [List.filter_append, List.filter_cons, hop, filter_grouped, filter_grouped,
      hlchosen, hrchosen]
    rfl
  | unary op h ih =>
    obtain ⟨ps, hps, hchosen⟩ := ih
    cases op with
    | not => exact ⟨_, .not hps, (filter_grouped _ ps).trans hchosen⟩
    | neg => exact ⟨_, .neg hps, (filter_grouped _ ps).trans hchosen⟩
    | isNull =>
      refine ⟨_, .isNull hps, ?_⟩
      rw [List.filter_append, filter_grouped, hchosen]
      exact List.append_nil _
    | notNull =>
      refine ⟨_, .notNull hps, ?_⟩
      rw [List.filter_append, filter_grouped, hchosen]
      exact List.append_nil _
  | aggregate fn h ih =>
    obtain ⟨ps, hps, hchosen⟩ := ih
    refine ⟨_, .aggregate fn hps, ?_⟩
    have hinside : (ps ++ [Piece.symbol [')']]).filter Piece.isChosen =
        ps.filter Piece.isChosen := by
      rw [List.filter_append]
      exact List.append_nil _
    exact hinside.trans hchosen
  | countRows => exact ⟨_, .countRows, rfl⟩

end Expr

end LazyFrame
