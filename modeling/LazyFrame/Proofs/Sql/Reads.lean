import LazyFrame.Dialect.Basic
import LazyFrame.Proofs.Number.Numeral
import LazyFrame.Proofs.Sql.Lexer

/-!
# Reading a part of a statement

Where a token ends depends on what is behind it: a word goes on as long as letters follow, and a
quoted text does not end at a quote that another quote follows. So what is known about a part of a
statement is how it is read in front of certain characters (`Lexer.Reads`). Parts that are read one
by one are read together when each of them lets the part in front of it end (`Reads.append`).

Each kind of token has its own characters to be in front of: a word is read as one where no letter
follows (`reads_word`), what `Dialect.enclose` puts between quotes where no further quote follows
(`reads_text`, `reads_quoted`), a numeral where neither a point nor a letter follows
(`reads_numeral`), and a minus sign or an equals sign where it is not doubled.
-/

namespace LazyFrame

namespace Lexer

/-! ## Parts of a text -/

/-- What stands behind a part of a text is nothing or begins with one of these characters. -/
def Before (follow : Char → Bool) (rest : List Char) : Prop := ∀ c ∈ rest.head?, follow c = true

/-- In front of nothing and of these characters a part of a text is read as these tokens. -/
def Reads (follow : Char → Bool) (cs : List Char) (tokens : List Token) : Prop :=
  ∀ rest, Before follow rest → lex (cs ++ rest) = (lex rest).map (tokens ++ ·)

/-- Any character at all. -/
def anything : Char → Bool := fun _ => true

theorem before_nil (follow : Char → Bool) : Before follow [] := fun c hc => by cases hc

theorem before_cons {follow : Char → Bool} {c : Char} {rest : List Char} :
    Before follow (c :: rest) ↔ follow c := by
  constructor
  · intro h
    exact h c rfl
  · intro h d hd
    cases hd
    exact h

/-- What may stand before some characters may stand before fewer. -/
theorem Before.mono {follow follow' : Char → Bool} {rest : List Char} (h : Before follow rest)
    (hsub : ∀ c, follow c = true → follow' c = true) : Before follow' rest :=
  fun c hc => hsub c (h c hc)

theorem before_anything (rest : List Char) : Before anything rest := fun _ _ => rfl

/-- A run of characters of one kind ends where another kind begins. -/
theorem span_append {p : Char → Bool} {cs rest : List Char} (hcs : ∀ c ∈ cs, p c = true)
    (hrest : Before (fun c => !p c) rest) :
    (cs ++ rest).takeWhile p = cs ∧ (cs ++ rest).dropWhile p = rest := by
  have hnone : rest.takeWhile p = [] ∧ rest.dropWhile p = rest := by
    cases rest with
    | nil => exact ⟨rfl, rfl⟩
    | cons c rest =>
      have hc : p c = false := by simpa using before_cons.mp hrest
      simp [hc]
  rw [List.takeWhile_append_of_pos hcs, List.dropWhile_append_of_pos hcs, hnone.1, hnone.2,
    List.append_nil]
  exact ⟨rfl, rfl⟩

namespace Reads

variable {follow follow' : Char → Bool} {cs cs' : List Char} {ts ts' : List Token}

/-- What is read as tokens is those tokens. -/
theorem lex_eq (h : Reads follow cs ts) : lex cs = some ts := by
  have hall := h [] (before_nil follow)
  rw [List.append_nil, lex_nil] at hall
  simpa using hall

theorem nil : Reads follow [] [] := fun rest _ => by simp

/-- Characters that are read before some others are read before fewer. -/
theorem mono (h : Reads follow cs ts) (hsub : ∀ c, follow' c = true → follow c = true) :
    Reads follow' cs ts :=
  fun rest hrest => h rest (hrest.mono hsub)

/-- Two parts are read one after the other if the second one lets the first one end. -/
theorem append (h : Reads follow cs ts) (h' : Reads follow' cs' ts')
    (hfit : ∀ rest, Before follow' rest → Before follow (cs' ++ rest)) :
    Reads follow' (cs ++ cs') (ts ++ ts') := by
  intro rest hrest
  rw [List.append_assoc, h _ (hfit rest hrest), h' rest hrest, Option.map_map]
  congr 1
  funext tokens
  exact (List.append_assoc ts ts' tokens).symm

/-- What is read in one step. -/
theorem of_scan {c : Char} {t : Token}
    (h : ∀ rest, Before follow rest → scan c (cs ++ rest) = some (some t, rest)) :
    Reads follow (c :: cs) [t] :=
  fun rest hrest => lex_cons (h rest hrest)

end Reads

/-- Reads a number of times. -/
def steps : Nat → List Char → Option (List Token × List Char)
  | 0, cs => some ([], cs)
  | _ + 1, [] => none
  | n + 1, c :: rest =>
    match scan c rest with
    | none => none
    | some (t?, behind) => (steps n behind).map fun r => (t?.toList ++ r.1, r.2)

/-- What is read in steps is read in one go. -/
theorem lex_of_steps {n : Nat} {cs behind : List Char} {ts : List Token}
    (h : steps n cs = some (ts, behind)) : lex cs = (lex behind).map (ts ++ ·) := by
  induction n generalizing cs ts with
  | zero =>
    cases h
    simp
  | succ n ih =>
    cases cs with
    | nil => cases h
    | cons c rest =>
      rw [steps] at h
      split at h
      · cases h
      · next t? front hscan =>
        obtain ⟨r, hr, h⟩ := Option.map_eq_some_iff.mp h
        cases h
        rw [lex_cons hscan, ih hr, Option.map_map]
        congr 1
        funext tokens
        exact (List.append_assoc t?.toList r.1 tokens).symm

-- a comment is one, and a doubled quote inside of quotes is a single one
example : steps 4 ['a', '-', '-', 'b', '\n', '\'', 'c', '\'', '\'', '\''] =
    some ([.word ['a'], .comment, .text ['c', '\'']], []) := rfl

/-- A part that takes a fixed number of steps whatever stands behind it. -/
theorem Reads.of_steps (n : Nat) {cs : List Char} {ts : List Token}
    (h : ∀ rest, steps n (cs ++ rest) = some (ts, rest)) : Reads anything cs ts :=
  fun rest _ => lex_of_steps (h rest)

/-! ## Words, quotes, operators -/

/-- Blanks and quotes, which `scan` looks for first. -/
def firstLooks : List Char := [' ', '\t', '\r', '\n', '\'', '"']

/-- A character that begins nothing special begins a word, a number, a mark or an operator. -/
theorem scan_of_not_mem {c : Char} (h : c ∉ firstLooks) (rest : List Char) :
    scan c rest =
      if isWordStart c then
        some (some (.word (c :: rest.takeWhile isWordPart)), rest.dropWhile isWordPart)
      else if c.isDigit then some (some (.number (readNumber c rest).1), (readNumber c rest).2)
      else if marks.contains c then some (some (.symbol [c]), rest)
      else (readOperator c rest).map fun r => (some r.1, r.2) := by
  simp only [firstLooks, List.mem_cons, List.not_mem_nil, or_false, not_or] at h
  obtain ⟨hspace, htab, hreturn, hnewline, hquote, hdouble⟩ := h
  have hblank : c.isWhitespace = false := by
    simp [Char.isWhitespace, hspace, htab, hreturn, hnewline]
  simp only [scan, hblank, Bool.false_eq_true, if_false, if_neg hquote, if_neg hdouble]

/-- A kind of character that none of the special ones is of begins nothing special. -/
theorem not_mem_firstLooks {p : Char → Bool} (hall : firstLooks.all (fun d => !p d) = true)
    {c : Char} (hc : p c = true) : c ∉ firstLooks := by
  intro hmem
  have hnot := List.all_eq_true.mp hall c hmem
  rw [hc] at hnot
  cases hnot

/-- A word ends where nothing of a word follows. -/
theorem reads_word {c : Char} {cs : List Char} (hc : isWordStart c = true)
    (hcs : ∀ d ∈ cs, isWordPart d = true) :
    Reads (fun d => !isWordPart d) (c :: cs) [.word (c :: cs)] := by
  refine .of_scan fun rest hrest => ?_
  obtain ⟨htake, hdrop⟩ := span_append hcs hrest
  have hother : c ∉ firstLooks := not_mem_firstLooks (by decide) hc
  rw [scan_of_not_mem hother, if_pos hc, htake, hdrop]

/-- What is enclosed is decoded again, and it ends where no further quote follows. -/
theorem readQuoted_enclose (quote : Char) (cs : List Char) {rest : List Char}
    (hrest : Before (· ≠ quote) rest) :
    readQuoted quote ((cs.flatMap fun c => if c = quote then [quote, quote] else [c]) ++
      quote :: rest) = some (cs, rest) := by
  induction cs with
  | nil =>
    cases rest with
    | nil => rw [List.flatMap_nil, List.nil_append, readQuoted, if_pos rfl]
    | cons c rest =>
      have hc : c ≠ quote := by simpa using before_cons.mp hrest
      exact readQuoted_close hc
  | cons c cs ih =>
    by_cases hc : c = quote
    · rw [List.flatMap_cons, if_pos hc, List.append_assoc, List.cons_append, List.cons_append,
        List.nil_append, readQuoted_twice, ih, hc]
      rfl
    · rw [List.flatMap_cons, if_neg hc, List.append_assoc, List.cons_append, List.nil_append,
        readQuoted_inside hc, ih]
      rfl

/-- A text literal is one token. -/
theorem reads_text (cs : List Char) : Reads (· ≠ '\'') (Dialect.enclose '\'' cs) [.text cs] := by
  refine .of_scan fun rest hrest => ?_
  show (readQuoted '\'' _).map _ = _
  rw [List.append_assoc, List.singleton_append, readQuoted_enclose _ _ hrest]
  rfl

/-- A quoted identifier is one token. -/
theorem reads_quoted (cs : List Char) : Reads (· ≠ '"') (Dialect.enclose '"' cs) [.quoted cs] := by
  refine .of_scan fun rest hrest => ?_
  show (readQuoted '"' _).map _ = _
  rw [List.append_assoc, List.singleton_append, readQuoted_enclose _ _ hrest]
  rfl

/-- A minus sign is an operator where it does not open a comment. -/
theorem reads_minus : Reads (· ≠ '-') ['-'] [.symbol ['-']] := by
  refine .of_scan fun rest hrest => ?_
  cases rest with
  | nil => rfl
  | cons c rest =>
    have hc : c ≠ '-' := by simpa using before_cons.mp hrest
    show (readOperator '-' (c :: rest)).map _ = _
    simp [readOperator, hc, doubles, singles]

/-- An equals sign is an operator of its own where no other one follows. -/
theorem reads_equals : Reads (· ≠ '=') ['='] [.symbol ['=']] := by
  refine .of_scan fun rest hrest => ?_
  cases rest with
  | nil => rfl
  | cons c rest =>
    have hc : c ≠ '=' := by simpa using before_cons.mp hrest
    show (readOperator '=' (c :: rest)).map _ = _
    simp [readOperator, hc, doubles, singles]

/-! ## Numbers -/

/-- A number ends where no word could go on and no point follows. -/
def endsNumber (c : Char) : Bool := !isWordPart c && c ≠ '.'

/-- A number ends before what is no digit, no point and no exponent. -/
theorem endsNumber_iff {c : Char} (h : endsNumber c = true) :
    c.isDigit = false ∧ c ≠ '.' ∧ c ≠ 'e' ∧ c ≠ 'E' := by
  simp only [endsNumber, Bool.and_eq_true, Bool.not_eq_true', decide_eq_true_eq] at h
  obtain ⟨hpart, hpoint⟩ := h
  refine ⟨?_, hpoint, ?_, ?_⟩
  · simp only [isWordPart, Bool.or_eq_false_iff] at hpart
    exact hpart.1.2
  · intro he
    rw [he] at hpart
    exact absurd hpart (by decide)
  · intro he
    rw [he] at hpart
    exact absurd hpart (by decide)

section Numbers

variable {whole fraction exponent rest : List Char}

/-- A fraction is read up to its end. -/
theorem readFraction_append (h : IsFraction fraction)
    (hrest : Before (fun c => !c.isDigit && c ≠ '.') rest) : readFraction (fraction ++ rest) =
      (fraction, rest) := by
  cases h with
  | absent =>
    cases rest with
    | nil => rfl
    | cons c rest =>
      have hc : c.isDigit = false ∧ c ≠ '.' := by simpa using before_cons.mp hrest
      exact if_neg hc.2
  | point hds =>
    have hspan := span_append hds (hrest.mono fun c hc => (Bool.and_eq_true_iff.mp hc).1)
    rw [List.cons_append, readFraction, if_pos rfl, hspan.1, hspan.2]

/-- An exponent is read up to its end. -/
theorem readExponent_append (h : IsExponent exponent) (hrest : Before endsNumber rest) :
    readExponent (exponent ++ rest) = (exponent, rest) := by
  cases h with
  | absent =>
    cases rest with
    | nil => rfl
    | cons c rest =>
      obtain ⟨_, _, he, hE⟩ := endsNumber_iff (before_cons.mp hrest)
      exact if_neg fun h => h.1.elim he hE
  | @signed sign ds hsign hne hds =>
    have hspan := span_append hds (hrest.mono fun c hc => by simp [(endsNumber_iff hc).1])
    rw [List.cons_append, List.cons_append, readExponent]
    simp only [readSign, if_pos hsign, hspan.1, hspan.2]
    simp [hne]

/-- Behind the whole digits of a numeral stands no further digit. -/
theorem before_fraction (hfraction : IsFraction fraction) (hexponent : IsExponent exponent)
    (hrest : Before endsNumber rest) :
    Before (fun c => !c.isDigit) (fraction ++ (exponent ++ rest)) := by
  cases hfraction with
  | point _ => exact before_cons.mpr rfl
  | absent =>
    cases hexponent with
    | signed _ _ _ => exact before_cons.mpr rfl
    | absent => exact hrest.mono fun c hc => by simp [(endsNumber_iff hc).1]

/-- Behind the fraction of a numeral stands no digit and no further point. -/
theorem before_exponent (hexponent : IsExponent exponent) (hrest : Before endsNumber rest) :
    Before (fun c => !c.isDigit && c ≠ '.') (exponent ++ rest) := by
  cases hexponent with
  | signed _ _ _ => exact before_cons.mpr rfl
  | absent => exact hrest.mono fun c hc => by simp [(endsNumber_iff hc).1, (endsNumber_iff hc).2.1]

end Numbers

/-- A digit starts no word. -/
theorem not_isWordStart_of_isDigit {c : Char} (hc : c.isDigit = true) : isWordStart c = false := by
  have hrange := Char.isDigit_iff_toNat.mp hc
  change 48 ≤ c.toNat ∧ c.toNat ≤ 57 at hrange
  have hupper : ¬ 'A'.val ≤ c.val := by
    rw [UInt32.le_iff_toNat_le]
    change ¬65 ≤ c.toNat
    omega
  have hlower : ¬ 'a'.val ≤ c.val := by
    rw [UInt32.le_iff_toNat_le]
    change ¬97 ≤ c.toNat
    omega
  have halpha : c.isAlpha = false := by
    change (decide ('A'.val ≤ c.val ∧ c.val ≤ 'Z'.val) ||
      decide ('a'.val ≤ c.val) && decide (c.val ≤ 'z'.val)) = false
    simp only [hupper, hlower, false_and, decide_false, Bool.false_and, Bool.or_self]
  have hline : c ≠ '_' := by
    intro h
    rw [h] at hc
    cases hc
  have hascii : ¬128 ≤ c.toNat := by omega
  simp [isWordStart, halpha, hline, hascii]

/-- A numeral is one token. -/
theorem reads_numeral {cs : List Char} (h : IsNumeral cs) : Reads endsNumber cs [.number cs] := by
  obtain @⟨whole, fraction, exponent, hne, hwhole, hfraction, hexponent⟩ := h
  obtain ⟨c, ds, rfl⟩ := List.exists_cons_of_ne_nil hne
  have hc : c.isDigit = true := hwhole c (List.mem_cons_self ..)
  have hds : AllDigits ds := hwhole.of_subset (List.subset_cons_self ..)
  show Reads endsNumber (c :: (ds ++ fraction ++ exponent))
    [.number (c :: (ds ++ fraction ++ exponent))]
  refine .of_scan fun rest hrest => ?_
  have hspan := span_append hds (before_fraction hfraction hexponent hrest)
  have hnumber : readNumber c (ds ++ fraction ++ exponent ++ rest) =
      (c :: (ds ++ fraction ++ exponent), rest) := by
    rw [List.append_assoc, List.append_assoc, readNumber, hspan.1, hspan.2,
      readFraction_append hfraction (before_exponent hexponent hrest)]
    dsimp only
    rw [readExponent_append hexponent hrest]
  have hother : c ∉ firstLooks := not_mem_firstLooks (by decide) hc
  rw [scan_of_not_mem hother, not_isWordStart_of_isDigit hc, hc, hnumber]
  rfl

end Lexer

end LazyFrame
