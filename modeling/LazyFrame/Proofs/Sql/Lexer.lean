/-!
# The tokens of a statement

Before anything else a database cuts a statement into tokens (`Lexer.lex`): words, quoted
identifiers, texts, numbers, operators and punctuation. Quotes and comments are what matters about
it: inside of quotes every character stands for itself, except that two quotes stand for one, and
outside of them `--` and `/*` open a comment.

Every step of the lexer leaves a proper end of what it was given (`Lexer.scan_suffix`), so it gets
through every text. It gives no tokens only for a text with a quote or a block comment left open, or
with a character outside of quotes that no token has.
-/

namespace LazyFrame

/-- A token. A quoted identifier and a text are decoded: they are without their outer quotes, and
two quotes inside of them are one. -/
inductive Token where
  | word (cs : List Char)
  | quoted (cs : List Char)
  | text (cs : List Char)
  | number (cs : List Char)
  | symbol (cs : List Char)
  | comment
  deriving DecidableEq

namespace Lexer

/-! ## Single tokens -/

/-- A letter, an underscore or any character beyond ASCII. -/
def isWordStart (c : Char) : Bool := c.isAlpha || c = '_' || 128 ≤ c.toNat

theorem isWordStart_eq (c : Char) :
    isWordStart c = (c.isUpper || c.isLower || c = '_' || 128 ≤ c.toNat) := rfl

/-- What a word goes on with. -/
def isWordPart (c : Char) : Bool := isWordStart c || c.isDigit || c = '$'

/-- Decodes up to the closing quote; the opening one is read already. Beside the content is what
stands behind. -/
def readQuoted (quote : Char) : List Char → Option (List Char × List Char)
  | [] => none
  | c :: rest =>
    if c = quote then
      match rest with
      | [] => some ([], [])
      | d :: behind =>
        if d = quote then (readQuoted quote behind).map fun r => (quote :: r.1, r.2)
          else some ([], d :: behind)
    else (readQuoted quote rest).map fun r => (c :: r.1, r.2)

/-- What stands behind the end of a block comment. -/
def skipBlock : List Char → Option (List Char)
  | [] => none
  | c :: rest => if c = '*' ∧ rest.head? = some '/' then some rest.tail else skipBlock rest

/-- The fraction of a number, empty if there is no point, and what stands behind. -/
def readFraction : List Char → List Char × List Char
  | [] => ([], [])
  | c :: rest =>
    if c = '.' then (c :: rest.takeWhile Char.isDigit, rest.dropWhile Char.isDigit)
      else ([], c :: rest)

/-- A sign, if there is one, and what stands behind. -/
def readSign : List Char → List Char × List Char
  | [] => ([], [])
  | c :: rest => if c = '+' ∨ c = '-' then ([c], rest) else ([], c :: rest)

/-- The exponent of a number, empty if there are no digits of one, and what stands behind. -/
def readExponent : List Char → List Char × List Char
  | [] => ([], [])
  | c :: rest =>
    let (sign, behind) := readSign rest
    if (c = 'e' ∨ c = 'E') ∧ (behind.takeWhile Char.isDigit).isEmpty = false then
      (c :: (sign ++ behind.takeWhile Char.isDigit), behind.dropWhile Char.isDigit)
    else ([], c :: rest)

/-- A number that begins with a digit, and what stands behind. -/
def readNumber (c : Char) (rest : List Char) : List Char × List Char :=
  let (fraction, behind) := readFraction (rest.dropWhile Char.isDigit)
  let (exponent, behind) := readExponent behind
  (c :: (rest.takeWhile Char.isDigit ++ fraction ++ exponent), behind)

/-- Punctuation, and operators that no longer one begins with. -/
def marks : List Char := ['(', ')', ',', '.', ';', '+', '*', '%']

/-- The other operators of one character. -/
def singles : List Char := ['=', '<', '>', '-', '/']

/-- Operators of two characters. -/
def doubles : List (Char × Char) :=
  [('<', '='), ('>', '='), ('<', '>'), ('!', '='), ('=', '='), ('|', '|')]

/-- An operator or a comment that begins with `c`. -/
def readOperator (c : Char) : List Char → Option (Token × List Char)
  | [] => if singles.contains c then some (.symbol [c], []) else none
  | d :: behind =>
    if c = '-' ∧ d = '-' then some (.comment, behind.dropWhile (· ≠ '\n'))
    else if c = '/' ∧ d = '*' then (skipBlock behind).map fun behind => (.comment, behind)
    else if doubles.contains (c, d) then some (.symbol [c, d], behind)
    else if singles.contains c then some (.symbol [c], d :: behind)
    else none

/-- What begins with `c`: a token or a blank, and what stands behind. -/
def scan (c : Char) (rest : List Char) : Option (Option Token × List Char) :=
  if c.isWhitespace then some (none, rest)
  else if c = '\'' then (readQuoted c rest).map fun r => (some (.text r.1), r.2)
  else if c = '"' then (readQuoted c rest).map fun r => (some (.quoted r.1), r.2)
  else if isWordStart c then
    some (some (.word (c :: rest.takeWhile isWordPart)), rest.dropWhile isWordPart)
  else if c.isDigit then some (some (.number (readNumber c rest).1), (readNumber c rest).2)
  else if marks.contains c then some (some (.symbol [c]), rest)
  else (readOperator c rest).map fun r => (some r.1, r.2)

/-! ## All tokens -/

section Quoted

variable {quote c : Char} {rest : List Char}

/-- A quote that is doubled is one inside. -/
theorem readQuoted_twice :
    readQuoted quote (quote :: quote :: rest) = (readQuoted quote rest).map fun r =>
      (quote :: r.1, r.2) := by
  rw [readQuoted, if_pos rfl, if_pos rfl]

/-- A quote before anything else closes. -/
theorem readQuoted_close (h : c ≠ quote) :
    readQuoted quote (quote :: c :: rest) = some ([], c :: rest) := by
  rw [readQuoted, if_pos rfl, if_neg h]

/-- Anything else stands for itself inside. -/
theorem readQuoted_inside (h : c ≠ quote) :
    readQuoted quote (c :: rest) = (readQuoted quote rest).map fun r => (c :: r.1, r.2) := by
  cases rest with
  | nil => exact if_neg h
  | cons d rest => rw [readQuoted, if_neg h]

/-- Reading what is quoted leaves an end of the text. -/
theorem readQuoted_suffix {content behind : List Char} {cs : List Char}
    (h : readQuoted quote cs = some (content, behind)) : behind <:+ cs := by
  induction cs using readQuoted.induct quote generalizing content behind with
  | case1 => cases h
  | case2 =>
    rw [readQuoted, if_pos rfl] at h
    cases h
    exact List.nil_suffix
  | case3 rest ih =>
    rw [readQuoted_twice] at h
    obtain ⟨r, hr, h⟩ := Option.map_eq_some_iff.mp h
    cases h
    have hrest : r.2 <:+ rest := ih hr
    exact (hrest.trans (List.suffix_cons ..)).trans (List.suffix_cons ..)
  | case4 d rest hd =>
    rw [readQuoted_close hd] at h
    cases h
    exact List.suffix_cons ..
  | case5 c rest hc ih =>
    rw [readQuoted_inside hc] at h
    obtain ⟨r, hr, h⟩ := Option.map_eq_some_iff.mp h
    cases h
    have hrest : r.2 <:+ rest := ih hr
    exact hrest.trans (List.suffix_cons ..)

end Quoted

/-- So does skipping a comment. -/
theorem skipBlock_suffix {cs behind : List Char} (h : skipBlock cs = some behind) :
    behind <:+ cs := by
  induction cs with
  | nil => cases h
  | cons c rest ih =>
    rw [skipBlock] at h
    split at h
    · cases h
      exact (List.tail_suffix rest).trans (List.suffix_cons ..)
    · exact (ih h).trans (List.suffix_cons ..)

/-- So does reading a fraction. -/
theorem readFraction_suffix (cs : List Char) : (readFraction cs).2 <:+ cs := by
  cases cs with
  | nil => exact List.suffix_rfl
  | cons c rest =>
    rw [readFraction]
    split
    · exact (List.dropWhile_suffix _).trans (List.suffix_cons ..)
    · exact List.suffix_rfl

/-- So does reading a sign. -/
theorem readSign_suffix (cs : List Char) : (readSign cs).2 <:+ cs := by
  cases cs with
  | nil => exact List.suffix_rfl
  | cons c rest =>
    rw [readSign]
    split
    · exact List.suffix_cons ..
    · exact List.suffix_rfl

/-- So does reading an exponent. -/
theorem readExponent_suffix (cs : List Char) : (readExponent cs).2 <:+ cs := by
  cases cs with
  | nil => exact List.suffix_rfl
  | cons c rest =>
    have hdigits : (readSign rest).2.dropWhile Char.isDigit <:+ rest :=
      (List.dropWhile_suffix _).trans (readSign_suffix rest)
    simp only [readExponent]
    split
    · exact hdigits.trans (List.suffix_cons ..)
    · exact List.suffix_rfl

/-- So does reading a number. -/
theorem readNumber_suffix (c : Char) (rest : List Char) : (readNumber c rest).2 <:+ rest :=
  ((readExponent_suffix _).trans (readFraction_suffix _)).trans (List.dropWhile_suffix _)

/-- So does reading an operator. -/
theorem readOperator_suffix {c : Char} {rest behind : List Char} {t : Token}
    (h : readOperator c rest = some (t, behind)) : behind <:+ rest := by
  cases rest with
  | nil =>
    rw [readOperator] at h
    split at h <;> cases h
    exact List.suffix_rfl
  | cons d rest =>
    rw [readOperator] at h
    split at h
    · cases h
      exact (List.dropWhile_suffix _).trans (List.suffix_cons ..)
    split at h
    · obtain ⟨r, hr, h⟩ := Option.map_eq_some_iff.mp h
      cases h
      exact (skipBlock_suffix hr).trans (List.suffix_cons ..)
    split at h
    · cases h
      exact List.suffix_cons ..
    split at h <;> cases h
    exact List.suffix_rfl

/-- So does reading any token. -/
theorem scan_suffix {c : Char} {rest behind : List Char} {t? : Option Token}
    (h : scan c rest = some (t?, behind)) : behind <:+ rest := by
  -- one case for each kind of token; what is left of the text is always an end of it
  unfold scan at h
  split at h
  · cases h
    exact List.suffix_rfl
  split at h
  · obtain ⟨r, hr, h⟩ := Option.map_eq_some_iff.mp h
    cases h
    exact readQuoted_suffix hr
  split at h
  · obtain ⟨r, hr, h⟩ := Option.map_eq_some_iff.mp h
    cases h
    exact readQuoted_suffix hr
  split at h
  · cases h
    exact List.dropWhile_suffix _
  split at h
  · cases h
    exact readNumber_suffix c rest
  split at h
  · cases h
    exact List.suffix_rfl
  · obtain ⟨r, hr, h⟩ := Option.map_eq_some_iff.mp h
    cases h
    exact readOperator_suffix hr

/-- The tokens of a text; `none` if a quote or a comment is left open or a character is in no
token. -/
def lex : List Char → Option (List Token)
  | [] => some []
  | c :: rest =>
    match _h : scan c rest with
    | none => none
    | some (t?, behind) => (lex behind).map (t?.toList ++ ·)
termination_by cs => cs.length
decreasing_by exact Nat.lt_succ_of_le (scan_suffix _h).length_le

theorem lex_nil : lex [] = some [] := by
  rw [lex]

/-- A text is its first token and then those of what is left. -/
theorem lex_cons {c : Char} {rest behind : List Char} {t? : Option Token}
    (h : scan c rest = some (t?, behind)) :
    lex (c :: rest) = (lex behind).map (t?.toList ++ ·) := by
  rw [lex]
  split
  · next hnone =>
    rw [h] at hnone
    cases hnone
  · next hsome =>
    rw [h] at hsome
    cases hsome
    rfl

end Lexer

end LazyFrame
