import LazyFrame.Proofs.Number.Numeral
import LazyFrame.Proofs.Number.Rounding

/-!
# Whole numbers as they are written

A natural number becomes a number by rounding, and that is written as its shortest decimal. The text
is the number's own run of digits exactly if it is *plain* (`Number.IsPlain`,
`Number.text_round_eq_iff`): below `10 ^ 21`, where an exponent takes over, and itself the shortest
decimal of what it is rounded to. All natural numbers up to `2 ^ 53` are plain
(`Number.isPlain_of_le`): what rounds to such a number lies less than one away from it, so on no
coarser grid of decimals there is another one to write.
-/

namespace LazyFrame

/-- A decimal with no digit behind the point, which stands for a natural number. -/
def Decimal.IsWhole (d : Decimal) (m : Nat) : Prop :=
  ∃ k : Nat, d.exponent = (k : Int) ∧ d.digits * 10 ^ k = m

/-- No blank is in a numeral. -/
theorem IsNumeral.blank_not_mem {cs : List Char} (h : IsNumeral cs) : ' ' ∉ cs := by
  have hdigits {ds : List Char} (hds : AllDigits ds) : ' ' ∉ ds := fun hmem => by cases hds ' ' hmem
  cases h with
  | mk _ hwhole hfraction hexponent =>
    simp only [List.mem_append, not_or]
    refine ⟨⟨hdigits hwhole, ?_⟩, ?_⟩
    · cases hfraction with
      | absent => exact List.not_mem_nil
      | point h => simpa using hdigits h
    · cases hexponent with
      | absent => exact List.not_mem_nil
      | signed hsign _ h => rcases hsign with rfl | rfl <;> simpa using hdigits h

/-- No blank is in a signed numeral. -/
theorem IsSigned.blank_not_mem {s : String} (h : IsSigned s) : ' ' ∉ s.toList := by
  cases h with
  | plain h => exact h.blank_not_mem
  | minus h => simpa [String.toList_append] using h.blank_not_mem

namespace Number

/-- A natural number below `10 ^ 21` that is the shortest decimal of the number it is rounded to. -/
def IsPlain (m : Nat) : Prop :=
  m < 10 ^ 21 ∧ (m = 0 ∨ ∃ q : Rat, round (m : Rat) = finite q ∧ (shortest q).IsWhole m)

/-! ## Layouts without a point -/

theorem toList_toString (m : Nat) : (toString m).toList = Nat.toDigits 10 m := by
  rw [Nat.toString_eq_ofList_toDigits, String.toList_ofList]

/-- A power of ten adds zeros at the end. -/
theorem toDigits_mul_pow {a : Nat} (h : 0 < a) (k : Nat) :
    Nat.toDigits 10 (a * 10 ^ k) = Nat.toDigits 10 a ++ List.replicate k '0' := by
  induction k with
  | zero => simp
  | succ k ih =>
    have hpos : 0 < a * 10 ^ k := by positivity
    have hlast := Nat.toDigits_append_toDigits (b := 10) (by decide) hpos (by decide : 0 < 10)
    rw [Nat.pow_succ', Nat.mul_left_comm, ← Nat.add_zero (10 * _), ← hlast, ih, List.append_assoc,
      List.replicate_succ', Nat.toDigits_zero]

/-- A layout is the run of digits of a natural number exactly if the decimal is that number and not
too long. -/
theorem layout_eq_iff {d : Decimal} {m : Nat} (hm : 0 < m) :
    layout d = (toString m).toList ↔ m < 10 ^ 21 ∧ d.IsWhole m := by
  have hlength : (Nat.toDigits 10 m).length ≤ 21 ↔ m < 10 ^ 21 :=
    Nat.length_toDigits_le_iff (by decide) (by decide)
  -- a whole decimal has all its digits in front of the point, and zeros behind them
  have hwhole : d.IsWhole m → ∃ k : Nat, d.exponent = (k : Int) ∧
      Nat.toDigits 10 m = Nat.toDigits 10 d.digits ++ List.replicate k '0' := by
    rintro ⟨k, hk, rfl⟩
    exact ⟨k, hk, toDigits_mul_pow (Nat.pos_of_mul_pos_right hm) k⟩
  have hother {c : Char} {cs : List Char} (hc : c ∈ cs) (hcs : c.isDigit = false) :
      cs ≠ (toString m).toList := by
    rintro rfl
    rw [allDigits_toString m c hc] at hcs
    cases hcs
  unfold layout widestPlain mostLeadingZeros
  dsimp only
  rw [toList_toString d.digits]
  split
  next hpoint =>
    obtain ⟨k, hk⟩ : ∃ k : Nat, d.exponent = (k : Int) := Int.eq_ofNat_of_zero_le (by omega)
    rw [hk, add_sub_cancel_left, Int.toNat_natCast, toList_toString]
    constructor
    · intro h
      have hvalue := congrArg (Nat.ofDigitChars 10 · 0) h
      simp only [Nat.ofDigitChars_append, Nat.ofDigitChars_ten_toDigits,
        Nat.ofDigitChars_replicate_zero] at hvalue
      refine ⟨hlength.mp ?_, k, hk, by rw [Nat.mul_comm, hvalue]⟩
      rw [← h, List.length_append, List.length_replicate]
      omega
    · rintro ⟨_, hm⟩
      obtain ⟨k', hk', hlist⟩ := hwhole hm
      obtain rfl : k = k' := by omega
      exact hlist.symm
  next hpoint =>
    have hnot : ¬(m < 10 ^ 21 ∧ d.IsWhole m) := by
      rintro ⟨hsmall, hm⟩
      obtain ⟨k, hk, hlist⟩ := hwhole hm
      have := hlength.mpr hsmall
      rw [hlist, List.length_append, List.length_replicate] at this
      omega
    refine iff_of_false ?_ hnot
    split
    · exact hother (c := '.') (by simp) (by decide)
    split
    · exact hother (c := '.') (by simp) (by decide)
    · refine hother (c := 'e') ?_ (by decide)
      split <;> simp

/-! ## Texts of rounded numbers -/

/-- No text but that of a finite number consists of digits. -/
theorem text_ne_toString {n : Number} (h : n.isFinite = false) (m : Nat) : n.text ≠ toString m := by
  intro htext
  have hdigits : AllDigits n.text.toList := htext ▸ allDigits_toString m
  cases n with
  | finite _ | negZero => cases h
  | nan => exact absurd (hdigits 'N' (by decide)) (by decide)
  | infinity negative =>
    have hmem : 'I' ∈ (infinity negative).text.toList := by cases negative <;> decide
    exact absurd (hdigits 'I' hmem) (by decide)

/-- No blank is in the text of a number. -/
theorem blank_not_mem_text (n : Number) : ' ' ∉ n.text.toList := by
  cases hfinite : n.isFinite with
  | true => exact (isSigned_text hfinite).blank_not_mem
  | false =>
    cases n with
    | finite _ | negZero => cases hfinite
    | nan => decide
    | infinity negative => cases negative <;> decide

/-- A rounded natural number is written as its own digits exactly if it is plain. -/
theorem text_round_eq_iff {m : Nat} : (round (m : Rat)).text = toString m ↔ IsPlain m := by
  rcases Nat.eq_zero_or_pos m with rfl | hpos
  · exact iff_of_true rfl ⟨by decide, .inl rfl⟩
  cases hfinite : (round (m : Rat)).isFinite with
  | true =>
    obtain ⟨n, hn⟩ := exists_natCast_round hfinite
    have hone : (0 : Rat) < (n : Rat) := by
      have hle := round_mono (Nat.one_le_cast.mpr hpos : (1 : Rat) ≤ (m : Rat))
      rw [hn, ← Nat.cast_one, round_natCast (by decide), le_of_toRat? rfl rfl,
        decide_eq_true_iff] at hle
      exact lt_of_lt_of_le (by norm_num) hle
    have htext : (finite (n : Rat)).text = toString m ↔
        layout (shortest (n : Rat)) = (toString m).toList := by
      rw [text, if_neg hone.ne', if_neg hone.not_gt, ← String.toList_inj, String.toList_ofList]
    rw [IsPlain, hn, htext, layout_eq_iff hpos]
    simp [hpos.ne']
  | false =>
    refine iff_of_false (text_ne_toString hfinite m) fun hplain => ?_
    obtain ⟨q, hq, _⟩ := hplain.2.resolve_left hpos.ne'
    rw [hq] at hfinite
    cases hfinite

/-- A difference of whole numbers is written as the rounded one is. -/
theorem text_sub {a b : Number} {x y : Nat} (ha : a.toRat? = some (x : Rat))
    (hb : b.toRat? = some (y : Rat)) (hle : y ≤ x) :
    (a.sub b).text = (round ((x - y : Nat) : Rat)).text := by
  rw [Nat.cast_sub hle]
  cases a with
  | nan | infinity _ => cases ha
  | negZero =>
    have hx : (x : Rat) = 0 := (Option.some.inj ha).symm
    obtain rfl : x = 0 := by exact_mod_cast hx
    obtain rfl : y = 0 := by omega
    -- zero minus zero is a zero, and either one is written as `0`
    have hzero : (round (((0 : Nat) : Rat) - ((0 : Nat) : Rat))).text = "0" := by decide +kernel
    rw [hzero]
    cases b with
    | nan | infinity _ => cases hb
    | negZero => decide +kernel
    | finite q =>
      obtain rfl : q = 0 := by simpa [toRat?] using hb
      decide +kernel
  | finite p =>
    obtain rfl : p = (x : Rat) := Option.some.inj ha
    cases b with
    | nan | infinity _ => cases hb
    | negZero =>
      obtain hy : (0 : Rat) = (y : Rat) := Option.some.inj hb
      rw [← hy]
      rfl
    | finite q =>
      obtain rfl : q = (y : Rat) := Option.some.inj hb
      rfl

/-! ## Shortest decimals of small numbers -/

/-- A natural number is scaled by powers of ten to natural numbers. -/
theorem scale_ten_natCast (a k : Nat) :
    scale 10 (a : Rat) (k : Int) = ((a * 10 ^ k : Nat) : Rat) := by
  show (a : Rat) * ((10 ^ k : Nat) : Rat) = _
  push_cast
  rfl

/-- A whole number stays whole when zeros are taken from its digits. -/
theorem isWhole_stripZeros {m : Nat} (fuel : Nat) {d : Decimal} (h : d.IsWhole m) :
    (d.stripZeros fuel).IsWhole m := by
  induction fuel generalizing d with
  | zero => exact h
  | succ fuel ih =>
    unfold Decimal.stripZeros
    split
    next hzero =>
      obtain ⟨k, hk, hm⟩ := h
      refine ih ⟨k + 1, by rw [hk]; push_cast; rfl, ?_⟩
      rw [Nat.pow_succ', ← Nat.mul_assoc, Nat.div_mul_cancel (Nat.dvd_of_mod_eq_zero hzero.2), hm]
    next => exact h

/-- A hit lies in the interval, on the grid that was searched. -/
theorem neighbour?_eq_some {i : Interval} {q : Rat} {e : Int} {d : Decimal}
    (h : neighbour? i q e = some d) : i.contains d.toRat = true ∧ d.exponent = e := by
  unfold neighbour? at h
  simp only at h
  split at h
  · cases h
  · cases h
    exact ⟨by assumption, rfl⟩
  · cases h
    exact ⟨by assumption, rfl⟩
  · split_ifs at h <;> cases h <;> exact ⟨by assumption, rfl⟩

/-- The interval of a number goes half a unit up, and no further down. -/
theorem interval_eq (q : Rat) :
    ∃ below closed, 0 < below ∧ below ≤ (2 : Rat) ^ (unitExponent q - 1) ∧
    interval q = ⟨q - below, q + 2 ^ (unitExponent q - 1), closed⟩ := by
  unfold interval
  simp only [scale_eq_zpow, one_mul]
  split
  · refine ⟨_, _, by positivity, ?_, rfl⟩
    exact zpow_le_zpow_right₀ one_le_two (by omega)
  · exact ⟨_, _, by positivity, le_rfl, rfl⟩

/-- What an interval contains lies between its ends. -/
theorem Interval.contains_bounds {i : Interval} {x : Rat} (h : i.contains x = true) :
    i.low ≤ x ∧ x ≤ i.high := by
  unfold contains at h
  split at h
  · exact of_decide_eq_true h
  · exact ⟨(of_decide_eq_true h).1.le, (of_decide_eq_true h).2.le⟩

/-- What lies between the ends of an interval is in it. -/
theorem Interval.contains_of_between {i : Interval} {x : Rat} (hlow : i.low < x)
    (hhigh : x < i.high) : i.contains x = true := by
  unfold contains
  split
  · exact decide_eq_true ⟨hlow.le, hhigh.le⟩
  · exact decide_eq_true ⟨hlow, hhigh⟩

/-- A number is in the interval of the numbers that round to it. -/
theorem contains_self (q : Rat) : (interval q).contains q = true := by
  obtain ⟨below, closed, hbelow, _, hinterval⟩ := interval_eq q
  rw [hinterval]
  exact Interval.contains_of_between (sub_lt_self q hbelow) (lt_add_of_pos_right q (by positivity))

section Small

variable {m : Nat}

/-- What rounds to a number below `2 ^ 53` is less than one away from it. -/
theorem eq_of_contains {x : Nat} (hpos : 0 < m) (h : m < 2 ^ 53)
    (hx : (interval (m : Rat)).contains (x : Rat) = true) : x = m := by
  have hlog : Nat.log2 m < 53 := (Nat.log2_lt hpos.ne').mpr h
  have hunit : unitExponent (m : Rat) ≤ 0 := by
    rw [unitExponent, magnitude_natCast hpos.ne']
    omega
  have hhalf : (2 : Rat) ^ (unitExponent (m : Rat) - 1) ≤ 1 / 2 := by
    rw [one_div, ← zpow_neg_one]
    exact zpow_le_zpow_right₀ one_le_two (by omega)
  obtain ⟨below, closed, _, hbelow, hinterval⟩ := interval_eq (m : Rat)
  rw [hinterval] at hx
  obtain ⟨hlow, hhigh⟩ := Interval.contains_bounds hx
  have hlow' : (m : Rat) < x + 1 := by linarith
  have hhigh' : (x : Rat) < m + 1 := by linarith
  have : m < x + 1 := by exact_mod_cast hlow'
  have : x < m + 1 := by exact_mod_cast hhigh'
  omega

/-- On a grid of natural numbers only the number itself is hit. -/
theorem isWhole_of_neighbour? (hpos : 0 < m) (h : m < 2 ^ 53) {k : Nat} {d : Decimal}
    (hd : neighbour? (interval (m : Rat)) (m : Rat) (k : Int) = some d) : d.IsWhole m := by
  obtain ⟨hcontains, hexponent⟩ := neighbour?_eq_some hd
  rw [Decimal.toRat, hexponent, scale_ten_natCast] at hcontains
  exact ⟨k, hexponent, eq_of_contains hpos h hcontains⟩

/-- A whole number has a neighbour on the grid of whole numbers. -/
theorem exists_neighbour? (m : Nat) :
    ∃ d, neighbour? (interval (m : Rat)) (m : Rat) 0 = some d := by
  have hfloor : (scale 10 (m : Rat) (-0)).floor.toNat = m := by
    have hscale : scale 10 (m : Rat) (-0) = ((m : Int) : Rat) := by
      rw [neg_zero]
      simpa using scale_ten_natCast m 0
    rw [hscale, Rat.floor_intCast, Int.toNat_natCast]
  have hself : (interval (m : Rat)).contains (Decimal.toRat ⟨m, 0⟩) = true := by
    have hrat : Decimal.toRat ⟨m, 0⟩ = (m : Rat) := by
      have := scale_ten_natCast m 0
      rwa [pow_zero, Nat.mul_one] at this
    rw [hrat]
    exact contains_self _
  unfold neighbour?
  simp only [hfloor, hself]
  split
  · cases ‹true = false›
  · exact ⟨_, rfl⟩
  · cases ‹true = false›
  · split_ifs <;> exact ⟨_, rfl⟩

/-- The search comes to the grid of natural numbers, and has hit the number there at the latest. -/
theorem isWhole_firstHit (hpos : 0 < m) (h : m < 2 ^ 53) (top : Int) {fuel k : Nat}
    (hk : k < fuel) (count : Nat) (hcount : top - count + 1 = (k : Int)) :
    (firstHit (interval (m : Rat)) m top fuel count).IsWhole m := by
  induction fuel generalizing k count with
  | zero => omega
  | succ fuel ih =>
    rw [firstHit, hcount]
    cases hd : neighbour? (interval (m : Rat)) (m : Rat) (k : Int) with
    | some d => exact isWhole_of_neighbour? hpos h hd
    | none =>
      cases k with
      | zero =>
        obtain ⟨d, hd'⟩ := exists_neighbour? m
        cases hd.symm.trans hd'
      | succ k => exact ih (k := k) (by omega) (count + 1) (by push_cast; omega)

/-- A whole number below `2 ^ 53` has at most sixteen digits. -/
theorem decimalMagnitude_bounds (hpos : 0 < m) (h : m < 2 ^ 53) :
    0 ≤ decimalMagnitude (m : Rat) ∧ decimalMagnitude (m : Rat) ≤ 16 := by
  have hlog : Nat.log2 m < 53 := (Nat.log2_lt hpos.ne').mpr h
  have hone : ¬(m : Rat) < scale 10 1 0 := by
    have : (1 : Rat) ≤ (m : Rat) := Nat.one_le_cast.mpr hpos
    have hscale : scale 10 1 0 = 1 := by decide +kernel
    rw [hscale]
    exact not_lt.mpr this
  unfold decimalMagnitude
  rw [magnitude_natCast hpos.ne']
  simp only
  split_ifs with hup hdown
  · omega
  · have hne : (Nat.log2 m : Int) * 30103 / 100000 ≠ 0 := fun hzero => hone (hzero ▸ hdown)
    omega
  · omega

end Small

/-- Up to `2 ^ 53` the shortest decimal of a natural number is the number itself. -/
theorem isWhole_shortest {m : Nat} (hpos : 0 < m) (h : m ≤ 2 ^ 53) :
    (shortest (m : Rat)).IsWhole m := by
  rcases h.eq_or_lt with rfl | hlt
  · have hlast : shortest ((2 ^ 53 : Nat) : Rat) = ⟨2 ^ 53, 0⟩ := by decide +kernel
    exact ⟨0, congrArg Decimal.exponent hlast, by rw [hlast, Nat.pow_zero, Nat.mul_one]⟩
  · obtain ⟨hlow, hhigh⟩ := decimalMagnitude_bounds hpos hlt
    obtain ⟨k, hk⟩ := Int.eq_ofNat_of_zero_le hlow
    exact isWhole_stripZeros 17
      (isWhole_firstHit hpos hlt _ (k := k) (by omega) 1 (by rw [hk]; push_cast; omega))

/-- Natural numbers up to `2 ^ 53` are written as their own digits. -/
theorem isPlain_of_le {m : Nat} (h : m ≤ 2 ^ 53) : IsPlain m := by
  refine ⟨Nat.lt_of_le_of_lt h (by decide), ?_⟩
  rcases Nat.eq_zero_or_pos m with hzero | hpos
  · exact .inl hzero
  · exact .inr ⟨m, round_natCast h, isWhole_shortest hpos h⟩

end Number

end LazyFrame
