import Mathlib.Data.List.Forall2
import LazyFrame.Sql.Resolve
import LazyFrame.Proofs.Sql.Reads
import LazyFrame.Proofs.Sql.Writable

/-!
# Names and numbers as tokens

A statement is made of what every statement of its kind says and of what a plan chooses: texts of
literals, and names of columns, outputs and tables. A `Piece` is a token together with where it
comes from, and `Piece.token` is the token that stands for it: a chosen text is a text whatever is
in it, and a chosen name is a quoted identifier unless it may stay bare.

`Spelled` says that a part of a statement is read as tokens of pieces, which of them are chosen, and
that there is no semicolon among them. It is put together along the concatenations of the printer
(`Spelled.joined`), beginning with what a dialect prints: identifiers, tables, numbers and windows.
All of them may stand in front of a blank, a comma, a closing parenthesis, an equals sign or the
final semicolon (`isBreak`). Nothing else is ever printed behind them but the dots of a table name,
in front of which an identifier ends, too (`endsName`).
-/

namespace LazyFrame

open Lexer (Reads Before anything steps)

/-! ## Pieces -/

/-- A token and where it comes from: the statement itself, a literal text of the plan or a name of
the plan. -/
inductive Piece where
  | word (cs : List Char)
  | number (cs : List Char)
  | symbol (cs : List Char)
  | literal (s : String)
  | name (n : String)
  deriving DecidableEq

namespace Piece

/-- The token of a piece. -/
def token (d : Dialect) : Piece → Token
  | word cs => .word cs
  | number cs => .number cs
  | symbol cs => .symbol cs
  | literal s => .text s.toList
  | name n => if d.isBare n.toList then .word n.toList else .quoted n.toList

/-- Whether a piece comes from the plan. -/
def isChosen : Piece → Bool
  | literal _ | name _ => true
  | _ => false

/-- The piece that closes a statement. -/
def semicolon : Piece := .symbol [';']

/-- Whether a piece may stand anywhere in a statement and is not of the plan. -/
def isOwn (p : Piece) : Bool := !p.isChosen && p ≠ semicolon

/-- No piece is a comment. -/
theorem token_ne_comment (d : Dialect) (p : Piece) : p.token d ≠ .comment := by
  cases p with
  | name n =>
    rw [token]
    split <;> exact Token.noConfusion
  | word | number | symbol | literal => exact Token.noConfusion

/-- No piece but the semicolon itself is read as one. -/
theorem eq_semicolon {d : Dialect} {p : Piece} (h : p.token d = .symbol [';']) : p = semicolon := by
  cases p with
  | symbol cs => exact congrArg symbol (Token.symbol.inj h)
  | name n =>
    rw [token] at h
    split at h <;> cases h
  | word | number | literal => cases h

end Piece

/-! ## Spelled parts -/

/-- Characters that stand behind what a dialect prints. -/
def breaks : List Char := [' ', ')', ',', ';', '=']

/-- Whether a character is one of them. -/
def isBreak (c : Char) : Bool := breaks.contains c

/-- What holds of all breaks. -/
theorem of_isBreak {p : Char → Bool} (h : breaks.all p = true) (c : Char)
    (hc : isBreak c = true) : p c = true :=
  List.all_eq_true.mp h c (by simpa [isBreak] using hc)

/-- In front of these characters the text is read as pieces of which these are chosen, without a
semicolon. -/
def Spelled (d : Dialect) (follow : Char → Bool) (text : String) (chosen : List Piece) : Prop :=
  ∃ pieces : List Piece, Reads follow text.toList (pieces.map (Piece.token d)) ∧
    pieces.filter Piece.isChosen = chosen ∧ Piece.semicolon ∉ pieces

/-- The text begins with one of these characters. -/
def Opens (follow : Char → Bool) (text : String) : Prop := text.toList.head?.any follow = true

/-- What a text opens with stands before all that follows it. -/
theorem Opens.before {follow : Char → Bool} {text : String} (h : Opens follow text)
    (rest : List Char) : Before follow (text.toList ++ rest) := by
  unfold Opens at h
  cases htext : text.toList with
  | nil => simp [htext] at h
  | cons c cs =>
    rw [List.cons_append, Lexer.before_cons]
    simpa [htext] using h

/-- A character of some kind is none that is not of this kind. -/
theorem opens_of_head {p : Char → Bool} {s : String} {c : Char} {cs : List Char}
    (hs : s.toList = c :: cs) (hc : p c = true) {e : Char} (he : p e = false) :
    Opens (· ≠ e) s := by
  have hne : c ≠ e := by
    intro heq
    rw [heq, he] at hc
    cases hc
  simpa [Opens, hs] using hne

namespace Spelled

variable {d : Dialect} {follow follow' : Char → Bool} {s t sep : String} {a b : List Piece}

/-- A text that may stand before some characters may stand before fewer. -/
theorem mono (h : Spelled d follow s a) (hsub : ∀ c, follow' c = true → follow c = true) :
    Spelled d follow' s a := by
  obtain ⟨pieces, hreads, hrest⟩ := h
  exact ⟨pieces, hreads.mono hsub, hrest⟩

/-- The empty text spells nothing. -/
theorem empty : Spelled d follow "" [] := ⟨[], Reads.nil, rfl, List.not_mem_nil⟩

/-- One chosen piece. -/
theorem chosen {p : Piece} (hp : p.isChosen = true) (h : Reads follow s.toList [p.token d]) :
    Spelled d follow s [p] := by
  refine ⟨[p], h, by rw [List.filter_cons_of_pos hp, List.filter_nil], fun hmem => ?_⟩
  rw [← List.mem_singleton.mp hmem] at hp
  cases hp

/-- Nothing chosen. -/
theorem own {pieces : List Piece} (h : Reads follow s.toList (pieces.map (Piece.token d)))
    (hown : pieces.all Piece.isOwn = true) : Spelled d follow s [] := by
  have hown' : ∀ p ∈ pieces, p.isChosen = false ∧ p ≠ Piece.semicolon := by
    simpa [Piece.isOwn] using hown
  refine ⟨pieces, h, List.filter_eq_nil_iff.mpr fun p hp => ?_, fun hmem => (hown' _ hmem).2 rfl⟩
  rw [(hown' p hp).1]
  exact Bool.false_ne_true

/-- A text of the printer itself that is read in a fixed number of steps. -/
theorem fixed (n : Nat) (pieces : List Piece)
    (h : ∀ rest, steps n (s.toList ++ rest) = some (pieces.map (Piece.token d), rest))
    (hown : pieces.all Piece.isOwn = true) : Spelled d anything s [] :=
  own (.of_steps n h) hown

/-- Two texts in a row spell their pieces in a row, if the first may stand before the second. -/
theorem append (h : Spelled d follow s a) (h' : Spelled d follow' t b)
    (hfit : ∀ rest, Before follow' rest → Before follow (t.toList ++ rest)) :
    Spelled d follow' (s ++ t) (a ++ b) := by
  obtain ⟨pieces, hreads, hfilter, hclosed⟩ := h
  obtain ⟨pieces', hreads', hfilter', hclosed'⟩ := h'
  refine ⟨pieces ++ pieces', ?_, by rw [List.filter_append, hfilter, hfilter'], ?_⟩
  · rw [String.toList_append, List.map_append]
    exact hreads.append hreads' hfit
  · rw [List.mem_append, not_or]
    exact ⟨hclosed, hclosed'⟩

/-- A part behind a text of the printer that lets anything follow. -/
theorem behind (hsep : Spelled d anything sep []) (h : Spelled d follow t b) :
    Spelled d follow (sep ++ t) b :=
  hsep.append h fun _ _ => Lexer.before_anything _

/-- A part in front of a text of the printer that lets it end. -/
theorem closed (h : Spelled d follow s a) (hsep : Spelled d follow' sep [])
    (hopens : Opens follow sep) : Spelled d follow' (s ++ sep) a := by
  have happend := h.append hsep fun rest _ => hopens.before rest
  rwa [List.append_nil] at happend

/-- Two parts around a text of the printer. -/
theorem joined (h : Spelled d follow s a) (hsep : Spelled d anything sep [])
    (hopens : Opens follow sep) (h' : Spelled d follow' t b) :
    Spelled d follow' (s ++ sep ++ t) (a ++ b) :=
  (h.closed hsep hopens).append h' fun _ _ => Lexer.before_anything _

/-- Any number of parts with the same text of the printer between them. -/
theorem intercalate {texts : List String} {chosen : List (List Piece)}
    (hsep : Spelled d anything sep []) (hopens : Opens follow sep)
    (h : List.Forall₂ (fun a s => Spelled d follow s a) chosen texts) :
    Spelled d follow (sep.intercalate texts) chosen.flatten := by
  induction h with
  | nil => exact empty
  | @cons a s chosen texts hfirst hrest ih =>
    cases hrest with
    | nil =>
      rw [String.intercalate_singleton, List.flatten_singleton]
      exact hfirst
    | cons _ _ =>
      rw [String.intercalate_cons_cons, List.flatten_cons]
      exact hfirst.joined hsep hopens ih

end Spelled

/-! ## Punctuation -/

section Punctuation

variable {d : Dialect} {s : String} {a : List Piece}

theorem spelled_dot : Spelled d anything "." [] :=
  .fixed 1 [.symbol ['.']] (fun _ => rfl) (by decide)

theorem spelled_open :
    Spelled d anything "(" [] := .fixed 1 [.symbol ['(']] (fun _ => rfl) (by decide)

theorem spelled_close :
    Spelled d anything ")" [] := .fixed 1 [.symbol [')']] (fun _ => rfl) (by decide)

theorem spelled_as : Spelled d anything " AS " [] :=
  .fixed 3 [.word "AS".toList] (fun _ => rfl) (by decide)

/-- A closing parenthesis behind a part. -/
theorem Spelled.enclosed (h : Spelled d isBreak s a) : Spelled d isBreak (s ++ ")") a :=
  h.closed (spelled_close.mono fun _ _ => rfl) rfl

/-- A text in parentheses where they are needed. -/
theorem Spelled.parenthesised (h : Spelled d isBreak s a) (needed : Bool) :
    Spelled d isBreak (Term.parenthesised needed s) a := by
  unfold Term.parenthesised
  split
  · exact (spelled_open.behind h).enclosed
  · exact h

end Punctuation

/-! ## Names -/

section Names

variable {d : Dialect}

/-- A word of the printer itself. -/
theorem spelled_word {s : String} {c : Char} {cs : List Char} (hs : s.toList = c :: cs)
    (hc : Lexer.isWordStart c = true) (hcs : ∀ e ∈ cs, Lexer.isWordPart e = true) :
    Spelled d (fun e => !Lexer.isWordPart e) s [] := by
  have hreads :
      Reads (fun e => !Lexer.isWordPart e) s.toList
        ([Piece.word (c :: cs)].map (Piece.token d)) := by
    rw [hs]
    exact Lexer.reads_word hc hcs
  exact .own hreads rfl

/-- Characters in front of which an identifier ends, quoted or not. -/
def endsName (c : Char) : Bool := !Lexer.isWordPart c && c ≠ '"'

/-- A character that starts a bare name starts a word. -/
theorem Dialect.isWordStart_of_isStart {c : Char} (h : Dialect.isStart c = true) :
    Lexer.isWordStart c = true := by
  simp only [Dialect.isStart, Bool.or_eq_true] at h
  rcases h with (h | h) | h <;> simp [Lexer.isWordStart_eq, h]

/-- A lower-case start is a start. -/
theorem Dialect.isStart_of_isLowerStart {c : Char} (h : Dialect.isLowerStart c = true) :
    Dialect.isStart c = true := by
  simp only [Dialect.isLowerStart, Bool.or_eq_true] at h
  rcases h with h | h <;> simp [Dialect.isStart, h]

/-- A bare name is a word: a start, and only parts of words behind it. -/
theorem Dialect.exists_cons_of_isWord {start : Char → Bool}
    (hstart : ∀ c, start c = true → Dialect.isStart c = true) {cs : List Char}
    (h : Dialect.isWord start cs = true) :
    ∃ c rest, cs = c :: rest ∧ Lexer.isWordStart c = true ∧
      ∀ e ∈ rest, Lexer.isWordPart e = true := by
  cases cs with
  | nil => cases h
  | cons c rest =>
    simp only [Dialect.isWord, Bool.and_eq_true, List.all_eq_true, Bool.or_eq_true] at h
    refine ⟨c, rest, rfl, Dialect.isWordStart_of_isStart (hstart c h.1), fun e he => ?_⟩
    rcases h.2 e he with h | h
    · simp [Lexer.isWordPart, Dialect.isWordStart_of_isStart (hstart e h)]
    · simp [Lexer.isWordPart, h]

/-- What a dialect leaves bare is a word for the lexer, too. -/
theorem Dialect.exists_cons_of_isBare {cs : List Char} (h : d.isBare cs = true) :
    ∃ c rest, cs = c :: rest ∧ Lexer.isWordStart c = true ∧
      ∀ e ∈ rest, Lexer.isWordPart e = true := by
  cases d with
  | sqlite => exact exists_cons_of_isWord (fun _ => id) (Bool.and_eq_true_iff.mp h).1
  | postgres =>
    exact exists_cons_of_isWord (fun _ => isStart_of_isLowerStart) (Bool.and_eq_true_iff.mp h).1

/-- An identifier is the one token of its name. -/
theorem reads_identifier (name : String) :
    Reads endsName (d.identifier name).toList [(Piece.name name).token d] := by
  rw [Dialect.identifier, String.toList_ofList, Dialect.identifierChars, Piece.token]
  by_cases hbare : d.isBare name.toList = true
  · obtain ⟨c, cs, hname, hc, hcs⟩ := Dialect.exists_cons_of_isBare hbare
    rw [if_pos hbare, if_pos hbare, hname]
    exact (Lexer.reads_word hc hcs).mono fun e he => (Bool.and_eq_true_iff.mp he).1
  · rw [if_neg hbare, if_neg hbare]
    exact (Lexer.reads_quoted _).mono fun e he => (Bool.and_eq_true_iff.mp he).2

/-- An identifier spells the name that it is made of, bare or quoted. -/
theorem spelled_identifier (name : String) : Spelled d endsName (d.identifier name) [.name name] :=
  .chosen rfl (reads_identifier name)

/-- The names in a table name: of PostgreSQL, those between its dots. -/
def Dialect.tableNames (d : Dialect) (name : String) : List Piece :=
  match d with
  | sqlite => [.name name]
  | postgres => (name.toList.splitOn '.').map fun cs => .name (String.ofList cs)

/-- The parts of a table name are what lies between its dots. -/
theorem Dialect.parts_eq_splitOn (cs : List Char) : Dialect.parts cs = cs.splitOn '.' := by
  induction cs with
  | nil => rfl
  | cons c rest ih =>
    rw [List.splitOn, List.splitOnP_cons_eq_if_modifyHead, ← List.splitOn, ← ih]
    by_cases hc : c = '.'
    · rw [hc, parts]
      rfl
    · rw [parts.eq_3 _ _ hc, if_neg (by simpa using hc)]
      cases hrest : parts rest with
      | nil => exact absurd (ih.symm.trans hrest) (List.splitOnP_ne_nil _ _)
      | cons first others => rfl

/-- Identifiers with a dot between them are the tokens of their names. -/
theorem spelled_joinDots : ∀ {names : List (List Char)}, names ≠ [] →
    Spelled d endsName (String.ofList (Dialect.joinDots (names.map d.identifierChars)))
      (names.map fun cs => .name (String.ofList cs))
  | [], hne => absurd rfl hne
  | [cs], _ => by
    have hname := @spelled_identifier d (String.ofList cs)
    rwa [Dialect.identifier, String.toList_ofList] at hname
  | cs :: cs' :: rest, _ => by
    have hfirst := @spelled_identifier d (String.ofList cs)
    rw [Dialect.identifier, String.toList_ofList] at hfirst
    have hrest := spelled_joinDots (List.cons_ne_nil cs' rest)
    have htext : String.ofList (Dialect.joinDots ((cs :: cs' :: rest).map d.identifierChars)) =
        String.ofList (d.identifierChars cs) ++ "." ++
          String.ofList (Dialect.joinDots ((cs' :: rest).map d.identifierChars)) := by
      show String.ofList (d.identifierChars cs ++ (['.'] ++ _)) = _
      rw [String.ofList_append, String.ofList_append, ← String.append_assoc]
    rw [htext]
    exact hfirst.joined spelled_dot rfl hrest

/-- A table is one identifier for each of its names. -/
theorem spelled_table (name : String) : Spelled d endsName (d.table name) (d.tableNames name) := by
  cases d with
  | sqlite => exact spelled_identifier name
  | postgres =>
    rw [Dialect.table, Dialect.parts_eq_splitOn]
    exact spelled_joinDots (List.splitOnP_ne_nil _ _)

end Names

/-! ## Numbers and literals -/

section Literals

variable {d : Dialect}

theorem spelled_minus : Spelled d (· ≠ '-') "-" [] :=
  have hreads : Reads (· ≠ '-') "-".toList ([Piece.symbol ['-']].map (Piece.token d)) :=
    Lexer.reads_minus
  .own hreads (by decide)

theorem spelled_equals : Spelled d (· ≠ '=') "=" [] :=
  have hreads : Reads (· ≠ '=') "=".toList ([Piece.symbol ['=']].map (Piece.token d)) :=
    Lexer.reads_equals
  .own hreads (by decide)

/-- A numeral starts with a digit. -/
theorem IsNumeral.exists_cons {cs : List Char} (h : IsNumeral cs) :
    ∃ c rest, cs = c :: rest ∧ c.isDigit = true := by
  obtain @⟨whole, fraction, exponent, hne, hwhole, _, _⟩ := h
  obtain ⟨c, ds, rfl⟩ := List.exists_cons_of_ne_nil hne
  exact ⟨c, ds ++ fraction ++ exponent, rfl, hwhole c (List.mem_cons_self ..)⟩

/-- A numeral begins with none of the characters that are no digits. -/
theorem IsNumeral.opens {s : String} (h : IsNumeral s.toList) {e : Char} (he : e.isDigit = false) :
    Opens (· ≠ e) s := by
  obtain ⟨c, rest, hs, hc⟩ := h.exists_cons
  exact opens_of_head hs hc he

/-- A numeral spells no piece that anybody chose. -/
theorem spelled_numeral {s : String} (h : IsNumeral s.toList) : Spelled d Lexer.endsNumber s [] :=
  have hreads : Reads Lexer.endsNumber s.toList ([Piece.number s.toList].map (Piece.token d)) :=
    Lexer.reads_numeral h
  .own hreads rfl

/-- A number is a numeral, behind a minus sign if it is negative. -/
theorem spelled_signed {s : String} (h : IsSigned s) : Spelled d isBreak s [] := by
  have hends : ∀ c, isBreak c = true → Lexer.endsNumber c = true := of_isBreak (by decide)
  cases h with
  | plain h => exact (spelled_numeral h).mono hends
  | minus h =>
    have hnumeral : Spelled d isBreak _ [] := (spelled_numeral h).mono hends
    exact spelled_minus.append hnumeral fun rest _ => (h.opens rfl).before rest

/-- A word of the printer in front of a break. -/
theorem spelled_keyword {s : String} {c : Char} {cs : List Char} (hs : s.toList = c :: cs)
    (hc : Lexer.isWordStart c = true) (hcs : cs.all Lexer.isWordPart = true) :
    Spelled d isBreak s [] :=
  (spelled_word hs hc (List.all_eq_true.mp hcs)).mono (of_isBreak (by decide))

/-- A number spells none either. -/
theorem spelled_number (n : Number) : Spelled d isBreak n.text [] := by
  cases n with
  | nan => exact spelled_keyword rfl rfl (by decide)
  | infinity negative =>
    have hword : Spelled d isBreak "Infinity" [] := spelled_keyword rfl rfl (by decide)
    cases negative with
    | false => exact hword
    | true =>
      have hopens : Opens (· ≠ '-') "Infinity" := rfl
      exact spelled_minus.append hword fun rest _ => hopens.before rest
  | negZero | finite _ => exact spelled_signed (Number.isSigned_text rfl)

/-- What a literal chooses: a text. -/
def Value.chosen : Value → List Piece
  | .text s => [.literal s]
  | _ => []

end Literals

/-! ## Windows -/

/-- A clause at the end of a SELECT: what may stand behind it may stand in front of it, since it is
empty or begins with a blank. -/
def Trailing (d : Dialect) (text : String) (chosen : List Piece) : Prop :=
  Spelled d isBreak text chosen ∧ ∀ rest, Before isBreak rest → Before isBreak (text.toList ++ rest)

section Windows

variable {d : Dialect} {s t : String} {a b : List Piece}

/-- A text opens as its front does. -/
theorem Opens.append {follow : Char → Bool} (h : Opens follow s) (t : String) :
    Opens follow (s ++ t) := by
  unfold Opens at h ⊢
  rw [String.toList_append]
  cases hs : s.toList with
  | nil => simp [hs] at h
  | cons c cs => simpa [hs] using h

namespace Trailing

theorem empty : Trailing d "" [] := ⟨Spelled.empty, fun _ h => h⟩

/-- A text that opens with a break may trail any other. -/
theorem of_opens (h : Spelled d isBreak s a) (hopens : Opens isBreak s) : Trailing d s a :=
  ⟨h, fun rest _ => hopens.before rest⟩

/-- What trails one text and what trails another trail as one. -/
theorem append (h : Trailing d s a) (h' : Trailing d t b) : Trailing d (s ++ t) (a ++ b) := by
  refine ⟨h.1.append h'.1 h'.2, fun rest hrest => ?_⟩
  rw [String.toList_append, List.append_assoc]
  exact h.2 _ (h'.2 rest hrest)

/-- A part behind a text of the printer that begins with a blank. -/
theorem clause {sep : String} (hsep : Spelled d anything sep []) (hopens : Opens isBreak sep)
    (h : Spelled d isBreak s a) : Trailing d (sep ++ s) a :=
  .of_opens (hsep.behind h) (hopens.append s)

end Trailing

/-- A text with something that trails it is spelled in front of a break. -/
theorem Spelled.trailed (h : Spelled d isBreak s a) (h' : Trailing d t b) :
    Spelled d isBreak (s ++ t) (a ++ b) :=
  h.append h'.1 h'.2

theorem trailing_limit {s : String} (h : Spelled d isBreak s []) : Trailing d (" LIMIT " ++ s) [] :=
  .clause (.fixed 3 [.word "LIMIT".toList] (fun _ => rfl) (by decide)) rfl h

theorem trailing_noLimit : Trailing d " LIMIT -1" [] := by
  have htext : " LIMIT -1" = " LIMIT " ++ toString (-1 : Int) := rfl
  rw [htext]
  exact trailing_limit (spelled_signed (Number.isSigned_int (-1)))

theorem trailing_offset {offset : Option Bound} (h : ∀ b ∈ offset, b.IsCount) :
    Trailing d (Dialect.offsetText offset) [] := by
  cases offset with
  | none => exact .empty
  | some b =>
    obtain ⟨n, rfl⟩ := h b rfl
    unfold Dialect.offsetText
    dsimp only
    split
    · exact .clause (.fixed 3 [.word "OFFSET".toList] (fun _ => rfl) (by decide)) rfl
        (spelled_number n)
    · exact .empty

/-- A window of numbers chooses nothing. -/
theorem trailing_window {limit offset : Option Bound} (hlimit : ∀ b ∈ limit, b.IsCount)
    (hoffset : ∀ b ∈ offset, b.IsCount) : Trailing d (d.window limit offset) [] := by
  have hoffset' : Trailing d (Dialect.offsetText offset) [] := trailing_offset hoffset
  cases limit with
  | some b =>
    obtain ⟨n, rfl⟩ := hlimit b rfl
    cases d with
    | sqlite => exact (trailing_limit (spelled_number n)).append hoffset'
    | postgres => exact (trailing_limit (spelled_number n)).append hoffset'
  | none =>
    cases d with
    | postgres => exact hoffset'
    | sqlite =>
      cases offset with
      | none => exact .empty
      | some b => exact trailing_noLimit.append hoffset'

end Windows

end LazyFrame
