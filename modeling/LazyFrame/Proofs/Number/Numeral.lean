import LazyFrame.Number.Shortest

/-!
# The shape of number texts

The text of a finite number is a *numeral*, maybe behind a minus sign: digits, then maybe a point
and more digits, then maybe an `e`, a sign and the digits of an exponent (`Number.isSigned_text`).
So are the texts of exact integers (`Number.isSigned_int`). The layouts of `Number.text` differ in
where the point falls; what they share is that a digit comes first and that nothing but digits
stands around the point.
-/

namespace LazyFrame

/-- Digits only. -/
def AllDigits (cs : List Char) : Prop := ∀ c ∈ cs, c.isDigit = true

/-- A point with digits, or nothing. -/
inductive IsFraction : List Char → Prop where
  | absent : IsFraction []
  | point {ds : List Char} (h : AllDigits ds) : IsFraction ('.' :: ds)

/-- An `e` with a sign and digits, or nothing. -/
inductive IsExponent : List Char → Prop where
  | absent : IsExponent []
  | signed {sign : Char} {ds : List Char} (hsign : sign = '+' ∨ sign = '-') (hne : ds ≠ [])
    (h : AllDigits ds) :
    IsExponent ('e' :: sign :: ds)

/-- Digits, maybe with a fraction and an exponent. -/
inductive IsNumeral : List Char → Prop where
  | mk {whole fraction exponent : List Char} (hne : whole ≠ []) (hwhole : AllDigits whole)
    (hfraction : IsFraction fraction) (hexponent : IsExponent exponent) :
    IsNumeral (whole ++ fraction ++ exponent)

/-- A numeral with or without a minus sign. -/
inductive IsSigned : String → Prop where
  | plain {s : String} (h : IsNumeral s.toList) : IsSigned s
  | minus {s : String} (h : IsNumeral s.toList) : IsSigned ("-" ++ s)

namespace AllDigits

variable {cs cs' : List Char}

/-- Digits behind digits are digits. -/
theorem append (h : AllDigits cs) (h' : AllDigits cs') : AllDigits (cs ++ cs') := by
  intro c hc
  rcases List.mem_append.mp hc with hc | hc
  · exact h c hc
  · exact h' c hc

/-- Zeros are digits. -/
theorem zeros (n : Nat) : AllDigits (List.replicate n '0') := by
  intro c hc
  rw [List.eq_of_mem_replicate hc]
  rfl

/-- Some of several digits are digits. -/
theorem of_subset (h : AllDigits cs) (hsub : cs' ⊆ cs) : AllDigits cs' :=
  fun c hc => h c (hsub hc)

end AllDigits

namespace Number

/-- A natural number is written in digits. -/
theorem allDigits_toString (n : Nat) : AllDigits (toString n).toList := by
  intro c hc
  rw [show toString n = n.repr from rfl, Nat.toList_repr] at hc
  exact Nat.isDigit_of_mem_toDigits (by decide) (by decide) hc

/-- It is written in at least one. -/
theorem toString_ne_nil (n : Nat) : (toString n).toList ≠ [] := by
  rw [show toString n = n.repr from rfl, Nat.toList_repr]
  exact Nat.toDigits_ne_nil

/-- Digits are a numeral if there is one. -/
theorem isNumeral_of_digits {cs : List Char} (hne : cs ≠ []) (h : AllDigits cs) : IsNumeral cs := by
  have hnumeral := IsNumeral.mk hne h .absent .absent
  rwa [List.append_nil, List.append_nil] at hnumeral

/-- Digits around a point are a numeral if there is one in front of it. -/
theorem isNumeral_of_point {whole ds : List Char} (hne : whole ≠ []) (h : AllDigits whole)
    (hds : AllDigits ds) : IsNumeral (whole ++ '.' :: ds) := by
  have hnumeral := IsNumeral.mk hne h (.point hds) .absent
  rwa [List.append_nil] at hnumeral

/-- Digits with a point after the first one begin a numeral. -/
theorem pointAfterFirst_eq {cs : List Char} (hne : cs ≠ []) (h : AllDigits cs) :
    ∃ whole fraction, pointAfterFirst cs = whole ++ fraction ∧ whole ≠ [] ∧ AllDigits whole ∧
      IsFraction fraction := by
  match cs with
  | [] => exact absurd rfl hne
  | [c] => exact ⟨[c], [], rfl, List.cons_ne_nil _ _, h, .absent⟩
  | c :: d :: rest =>
    have hfirst : AllDigits [c] := h.of_subset (by simp)
    have hrest : AllDigits (d :: rest) := h.of_subset (List.subset_cons_self ..)
    exact ⟨[c], '.' :: d :: rest, rfl, List.cons_ne_nil _ _, hfirst, .point hrest⟩

/-- A positive decimal is laid out as a numeral, wherever its point falls. -/
theorem isNumeral_layout (d : Decimal) : IsNumeral (layout d) := by
  have hdigits := allDigits_toString d.digits
  have hne := toString_ne_nil d.digits
  unfold layout
  dsimp only
  split
  · -- the point falls behind the digits
    exact isNumeral_of_digits (List.append_ne_nil_of_left_ne_nil hne _) (hdigits.append (.zeros _))
  split
  · -- it falls between them
    rename_i hpoint
    refine isNumeral_of_point ?_ (hdigits.of_subset (List.take_subset ..))
      (hdigits.of_subset (List.drop_subset ..))
    intro htake
    rcases List.take_eq_nil_iff.mp htake with hzero | hnil
    · omega
    · exact hne hnil
  split
  · -- it falls in front of them
    have hzero : AllDigits ['0'] := .zeros 1
    exact isNumeral_of_point (List.cons_ne_nil _ _) hzero ((AllDigits.zeros _).append hdigits)
  · obtain ⟨whole, fraction, heq, hwhole, hall, hfraction⟩ := pointAfterFirst_eq hne hdigits
    rw [heq, List.append_assoc]
    refine .mk hwhole hall hfraction ?_
    split
    · exact .signed (.inr rfl) (toString_ne_nil _) (allDigits_toString _)
    · exact .signed (.inl rfl) (toString_ne_nil _) (allDigits_toString _)

theorem isNumeral_ofList {cs : List Char} (h : IsNumeral cs) :
    IsNumeral (String.ofList cs).toList := by
  rwa [String.toList_ofList]

theorem isNumeral_zero : IsNumeral "0".toList :=
  isNumeral_of_digits (List.cons_ne_nil _ _) (.zeros 1)

theorem isNumeral_nat (n : Nat) : IsNumeral (toString n).toList :=
  isNumeral_of_digits (toString_ne_nil n) (allDigits_toString n)

/-- The text of a finite number is a numeral, behind a minus sign if it is negative. -/
theorem isSigned_text {n : Number} (h : n.isFinite = true) : IsSigned n.text := by
  cases n with
  | nan | infinity _ => cases h
  | negZero => exact .plain isNumeral_zero
  | finite q =>
    unfold text
    dsimp only
    split
    · exact .plain isNumeral_zero
    split
    · have hminus : String.ofList ('-' :: layout (shortest (-q))) =
          "-" ++ String.ofList (layout (shortest (-q))) := by
        rw [← List.singleton_append, String.ofList_append]
      rw [hminus]
      exact .minus (isNumeral_ofList (isNumeral_layout _))
    · exact .plain (isNumeral_ofList (isNumeral_layout _))

/-- So is the text of an integer. -/
theorem isSigned_int (n : Int) : IsSigned (toString n) := by
  cases n with
  | ofNat m => exact .plain (isNumeral_nat m)
  | negSucc m => exact .minus (isNumeral_nat m.succ)

end Number

end LazyFrame
