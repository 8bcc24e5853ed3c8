import Mathlib.Algebra.Order.Field.Power
import Mathlib.Tactic.Linarith
import LazyFrame.Number.Reader
import LazyFrame.Proofs.Number.Whole

/-!
# Rounding keeps the order

Of two rationals the greater one is not rounded to less (`round_mono`). Where both have the same
unit in the last place that is so because `nearestEven` keeps the order; where the units differ a
power of two lies between the two, which neither of them is rounded across. Hence differences grow
with what is subtracted from (`sub_mono`), and a whole number, once rounded, is a whole number
still, if it is not an infinity (`exists_natCast_round`).

What has been rounded once is left alone by rounding again (`isExact_round`), so numbers of binary64
precision are those that rounding gives back (`IsExact`).
-/

namespace LazyFrame.Number

/-! ## The order -/

/-- Finite numbers are compared as they are. -/
theorem le_of_toRat? {a b : Number} {p q : Rat} (ha : a.toRat? = some p) (hb : b.toRat? = some q) :
    a.le b = decide (p ≤ q) := by
  have hle : a.le b = !b.lt a := by
    cases a with
    | nan | infinity _ => cases ha
    | negZero | finite _ =>
      cases b with
      | nan | infinity _ => cases hb
      | negZero | finite _ => rfl
  rw [hle, lt_of_toRat? hb ha]
  simp only [← not_lt, decide_not]

/-- The order of numbers is transitive, where no number is in no order. -/
theorem le_trans {a b c : Number} (hab : a.le b = true) (hbc : b.le c = true) : a.le c = true := by
  cases a <;> cases b <;> cases c <;> simp_all [le, lt, toRat?] <;> grind

/-! ## Units in the last place -/

/-- A number is scaled by a power of two. -/
theorem scale_eq_zpow (q : Rat) (k : Int) : scale 2 q k = q * 2 ^ k := by
  cases k with
  | ofNat k =>
    rw [Int.ofNat_eq_natCast, scale_natCast, zpow_natCast]
  | negSucc k =>
    have hneg : Int.negSucc k = -((k + 1 : Nat) : Int) := rfl
    rw [hneg, scale_neg_natCast, zpow_neg, zpow_natCast, div_eq_mul_inv]

/-- A positive natural number lies between two powers of two, the lower one included. -/
theorem log2_bounds {m : Nat} (h : 0 < m) :
    (2 : Rat) ^ (Nat.log2 m : Int) ≤ (m : Rat) ∧ (m : Rat) < 2 ^ ((Nat.log2 m : Int) + 1) := by
  constructor
  · rw [zpow_natCast]
    exact_mod_cast Nat.log2_self_le h.ne'
  · rw [← Nat.cast_succ, zpow_natCast]
    exact_mod_cast Nat.lt_log2_self

/-- A positive rational lies between two powers of two, the lower one included. -/
theorem magnitude_bounds {q : Rat} (h : 0 < q) :
    2 ^ magnitude q ≤ q ∧ q < 2 ^ (magnitude q + 1) := by
  have hnum : (q.num.natAbs : Rat) = (q.num : Rat) := by
    rw [← Int.cast_natCast, Int.natAbs_of_nonneg (Rat.num_pos.mpr h).le]
  have hq : q = (q.num.natAbs : Rat) / (q.den : Rat) := by rw [hnum, Rat.num_div_den]
  have hden : (0 : Rat) < (q.den : Rat) := Nat.cast_pos.mpr q.den_pos
  obtain ⟨hnumLow, hnumHigh⟩ := log2_bounds (Int.natAbs_pos.mpr (Rat.num_ne_zero.mpr h.ne'))
  obtain ⟨hdenLow, hdenHigh⟩ := log2_bounds q.den_pos
  unfold magnitude
  generalize (Nat.log2 q.num.natAbs : Int) = a at *
  generalize (Nat.log2 q.den : Int) = b at *
  -- both logarithms are too small by less than one, so their difference is off by less than one
  have hlow : 2 ^ (a - b - 1) ≤ q := by
    rw [hq, le_div_iff₀ hden]
    calc (2 : Rat) ^ (a - b - 1) * q.den ≤ 2 ^ (a - b - 1) * 2 ^ (b + 1) := by gcongr
      _ = 2 ^ a := by
        rw [← zpow_add₀ two_ne_zero]
        congr 1
        omega
      _ ≤ q.num.natAbs := hnumLow
  have hhigh : q < 2 ^ (a - b + 1) := by
    rw [hq, div_lt_iff₀ hden]
    calc (q.num.natAbs : Rat) < 2 ^ (a + 1) := hnumHigh
      _ = 2 ^ (a - b + 1) * 2 ^ b := by
        rw [← zpow_add₀ two_ne_zero]
        congr 1
        omega
      _ ≤ 2 ^ (a - b + 1) * q.den := by gcongr
  simp only [scale_eq_zpow, one_mul]
  by_cases hguess : q < 2 ^ (a - b)
  · rw [if_pos hguess, sub_add_cancel]
    exact ⟨hlow, hguess⟩
  · rw [if_neg hguess]
    exact ⟨not_lt.mp hguess, hhigh⟩

/-- A greater number has no smaller magnitude. -/
theorem magnitude_mono {p q : Rat} (hp : 0 < p) (h : p ≤ q) : magnitude p ≤ magnitude q := by
  have hlt : (2 : Rat) ^ magnitude p < 2 ^ (magnitude q + 1) :=
    calc (2 : Rat) ^ magnitude p ≤ p := (magnitude_bounds hp).1
      _ ≤ q := h
      _ < 2 ^ (magnitude q + 1) := (magnitude_bounds (hp.trans_le h)).2
  exact Int.lt_add_one_iff.mp ((zpow_lt_zpow_iff_right₀ one_lt_two).mp hlt)

/-- A greater number is rounded to no smaller whole number. -/
theorem nearestEven_mono {p q : Rat} (h : p ≤ q) : nearestEven p ≤ nearestEven q := by
  have hfloor : p.floor ≤ q.floor := Rat.floor_monotone h
  have hlow : p.floor.toNat ≤ q.floor.toNat := Int.toNat_le_toNat hfloor
  unfold nearestEven
  rcases hlow.lt_or_eq with hlt | heq
  · -- there is a whole number between the two
    grind
  · -- both lie between the same whole numbers
    rw [← heq]
    grind

/-! ## Rounding -/

/-- The multiple of the unit in the last place that a positive rational is rounded to. -/
def roundedSize (q : Rat) : Rat :=
  scale 2 (nearestEven (scale 2 q (-unitExponent q)) : Rat) (unitExponent q)

/-- The size of a number is rounded to a multiple of its unit. -/
theorem roundedSize_eq (q : Rat) :
    roundedSize q = (nearestEven (q / 2 ^ unitExponent q) : Rat) * 2 ^ unitExponent q := by
  rw [roundedSize, scale_eq_zpow, scale_eq_zpow, zpow_neg, div_eq_mul_inv]

/-- Sizes are not negative. -/
theorem roundedSize_nonneg (q : Rat) : 0 ≤ roundedSize q := by
  rw [roundedSize_eq]
  positivity

/-- A positive number is rounded to its size, or to infinity. -/
theorem round_of_pos {q : Rat} (h : 0 < q) :
    round q = if 2 ^ (1024 : Int) ≤ roundedSize q then
      infinity false else finite (roundedSize q) := by
  have hsmall : scale 2 1 1024 = (2 : Rat) ^ (1024 : Int) := by rw [scale_eq_zpow, one_mul]
  unfold round
  simp only [if_neg h.ne', if_neg h.not_gt, hsmall, ← roundedSize.eq_1, decide_eq_false h.not_gt]
  split_ifs with hbig hzero
  · rfl
  · rw [hzero]
  · rfl

/-- A negative number is rounded to its size below zero, to a zero of its sign, or to infinity. -/
theorem round_of_neg {q : Rat} (h : q < 0) :
    round q = if 2 ^ (1024 : Int) ≤ roundedSize (-q) then infinity true
      else if roundedSize (-q) = 0 then negZero else finite (-roundedSize (-q)) := by
  have hsmall : scale 2 1 1024 = (2 : Rat) ^ (1024 : Int) := by rw [scale_eq_zpow, one_mul]
  unfold round
  simp only [if_neg h.ne, if_pos h, hsmall, ← roundedSize.eq_1, decide_eq_true h]

/-- Powers of two are whole numbers of lesser units. -/
theorem exists_units {u e : Int} (h : u ≤ e) : ∃ n : Nat, (2 : Rat) ^ e = (n : Rat) * 2 ^ u := by
  obtain ⟨k, rfl⟩ := Int.le.dest h
  refine ⟨2 ^ k, ?_⟩
  rw [zpow_add₀ two_ne_zero, zpow_natCast, mul_comm]
  push_cast
  rfl

/-- A power of two that is no less than the unit in the last place is not rounded across. -/
theorem roundedSize_le {q : Rat} {e : Int} (h : q ≤ 2 ^ e) (he : unitExponent q ≤ e) :
    roundedSize q ≤ 2 ^ e := by
  obtain ⟨n, hn⟩ := exists_units he
  have hunit : (0 : Rat) < 2 ^ unitExponent q := by positivity
  rw [hn, ← div_le_iff₀ hunit] at h
  have := nearestEven_mono h
  rw [nearestEven_natCast] at this
  rw [roundedSize_eq, hn]
  gcongr

/-- A power of two that is not beyond a number is not beyond its rounded size. -/
theorem le_roundedSize {q : Rat} {e : Int} (h : 2 ^ e ≤ q) (he : unitExponent q ≤ e) :
    2 ^ e ≤ roundedSize q := by
  obtain ⟨n, hn⟩ := exists_units he
  have hunit : (0 : Rat) < 2 ^ unitExponent q := by positivity
  rw [hn, ← le_div_iff₀ hunit] at h
  have := nearestEven_mono h
  rw [nearestEven_natCast] at this
  rw [roundedSize_eq, hn]
  gcongr

/-- Whole numbers of units that are no less than the own one are not rounded. -/
theorem roundedSize_of_units {q : Rat} {n : Nat} {e : Int} (hq : q = (n : Rat) * 2 ^ e)
    (he : unitExponent q ≤ e) : roundedSize q = q := by
  obtain ⟨k, hk⟩ := exists_units he
  have hne : (2 : Rat) ^ unitExponent q ≠ 0 := zpow_ne_zero _ two_ne_zero
  have hunits : q / 2 ^ unitExponent q = ((n * k : Nat) : Rat) := by
    rw [div_eq_iff hne, Nat.cast_mul, mul_assoc, ← hk, ← hq]
  rw [roundedSize_eq, hunits, nearestEven_natCast, ← hunits, div_mul_cancel₀ _ hne]

/-- A greater size is rounded to no smaller one. -/
theorem roundedSize_mono {p q : Rat} (hp : 0 < p) (h : p ≤ q) : roundedSize p ≤ roundedSize q := by
  have hmag := magnitude_mono hp h
  have hq : 0 < q := hp.trans_le h
  by_cases hunit : unitExponent p = unitExponent q
  · rw [roundedSize_eq, roundedSize_eq, hunit]
    have := nearestEven_mono
      (div_le_div_of_nonneg_right h (zpow_nonneg zero_le_two (unitExponent q)))
    gcongr
  · -- a power of two lies between the two
    have hless : magnitude p < magnitude q ∧ unitExponent p ≤ magnitude q ∧
        unitExponent q ≤ magnitude q := by
      unfold unitExponent at *
      omega
    calc roundedSize p ≤ 2 ^ magnitude q := by
          refine roundedSize_le ((magnitude_bounds hp).2.le.trans ?_) hless.2.1
          exact zpow_le_zpow_right₀ one_le_two hless.1
      _ ≤ roundedSize q := le_roundedSize (magnitude_bounds hq).1 hless.2.2

/-- What is not below zero is not rounded below it. -/
theorem zero_le_round {q : Rat} (h : 0 ≤ q) : (finite 0).le (round q) = true := by
  rcases h.eq_or_lt with rfl | hpos
  · rfl
  · rw [round_of_pos hpos]
    split_ifs
    · rfl
    · rw [le_of_toRat? rfl rfl, decide_eq_true_iff]
      exact roundedSize_nonneg q

/-- What is not above zero is not rounded above it. -/
theorem round_le_zero {q : Rat} (h : q ≤ 0) : (round q).le (finite 0) = true := by
  rcases h.eq_or_lt with rfl | hneg
  · rfl
  · rw [round_of_neg hneg]
    split_ifs
    · rfl
    · rfl
    · rw [le_of_toRat? rfl rfl, decide_eq_true_iff]
      exact neg_nonpos.mpr (roundedSize_nonneg (-q))

/-- A negative number that is not too large is rounded to a finite number. -/
theorem toRat?_round_of_neg {q : Rat} (h : q < 0) (hsmall : ¬2 ^ (1024 : Int) ≤ roundedSize (-q)) :
    (round q).toRat? = some (-roundedSize (-q)) := by
  rw [round_of_neg h, if_neg hsmall]
  split_ifs with hzero
  · rw [hzero, neg_zero]
    rfl
  · rfl

/-- Rounding keeps the order. -/
theorem round_mono {p q : Rat} (h : p ≤ q) : (round p).le (round q) = true := by
  by_cases hp : 0 < p
  · have hsize := roundedSize_mono hp h
    rw [round_of_pos hp, round_of_pos (hp.trans_le h)]
    split_ifs with hbig hbig'
    · rfl
    · exact absurd (hbig.trans hsize) hbig'
    · rfl
    · rwa [le_of_toRat? rfl rfl, decide_eq_true_iff]
  · by_cases hq : 0 ≤ q
    · exact le_trans (round_le_zero (not_lt.mp hp)) (zero_le_round hq)
    · -- below zero it is the sizes that are compared, the other way round
      have hq : q < 0 := not_le.mp hq
      have hsize := roundedSize_mono (neg_pos.mpr hq) (neg_le_neg h)
      by_cases hbig : 2 ^ (1024 : Int) ≤ roundedSize (-p)
      · rw [round_of_neg (h.trans_lt hq), if_pos hbig, round_of_neg hq]
        split_ifs <;> rfl
      · have hbig' : ¬2 ^ (1024 : Int) ≤ roundedSize (-q) := fun hq => hbig (hq.trans hsize)
        rw [le_of_toRat? (toRat?_round_of_neg (h.trans_lt hq) hbig) (toRat?_round_of_neg hq hbig'),
          decide_eq_true_iff]
        exact neg_le_neg hsize

/-! ## What rounding gives -/

/-- A size that has been rounded is rounded to itself. It fills at most 53 binary digits of the unit
it was rounded to, so its own unit is no greater; where it has grown to the next power of two it is
a whole number of any unit below. -/
theorem roundedSize_roundedSize {q : Rat} (h : 0 < q) (hpos : 0 < roundedSize q) :
    roundedSize (roundedSize q) = roundedSize q := by
  have hleast : -1074 ≤ unitExponent q := le_max_right _ _
  have hbelow : q ≤ 2 ^ (unitExponent q + 53) := by
    refine (magnitude_bounds h).2.le.trans (zpow_le_zpow_right₀ one_le_two ?_)
    have : magnitude q - 52 ≤ unitExponent q := le_max_left _ _
    omega
  have hmagnitude {e : Int} (hlt : roundedSize q < 2 ^ e) : magnitude (roundedSize q) < e :=
    (zpow_lt_zpow_iff_right₀ one_lt_two).mp ((magnitude_bounds hpos).1.trans_lt hlt)
  rcases (roundedSize_le hbelow (by omega)).lt_or_eq with hlt | heq
  · refine roundedSize_of_units (roundedSize_eq q) ?_
    have := hmagnitude hlt
    rw [unitExponent]
    omega
  · refine roundedSize_of_units (n := 1) (e := unitExponent q + 53)
      (by rw [heq, Nat.cast_one, one_mul]) ?_
    have := hmagnitude (e := unitExponent q + 54)
      (by rw [heq]; exact zpow_lt_zpow_right₀ one_lt_two (by omega))
    rw [unitExponent]
    omega

/-- A finite number of binary64 precision: rounding gives it back. -/
def IsExact (n : Number) : Prop := ∀ q, n = finite q → round q = n

/-- Rounding gives numbers of binary64 precision only. -/
theorem isExact_round (q : Rat) : (round q).IsExact := by
  intro r hr
  rcases lt_trichotomy q 0 with hneg | rfl | hpos
  · rw [round_of_neg hneg] at hr ⊢
    split_ifs at hr ⊢ with hbig hzero
    obtain rfl := Number.finite.inj hr
    have hsize : 0 < roundedSize (-q) := (roundedSize_nonneg _).lt_of_ne' hzero
    have hsame := roundedSize_roundedSize (neg_pos.mpr hneg) hsize
    rw [round_of_neg (neg_neg_of_pos hsize), neg_neg, hsame, if_neg hbig, if_neg hzero]
  · cases hr
    rfl
  · rw [round_of_pos hpos] at hr ⊢
    split_ifs at hr ⊢ with hbig
    obtain rfl := Number.finite.inj hr
    rcases (roundedSize_nonneg q).eq_or_lt with hzero | hsize
    · rw [← hzero]
      rfl
    · rw [round_of_pos hsize, roundedSize_roundedSize hpos hsize, if_neg hbig]

/-- Nothing is lost by counting rows from the first one on. -/
theorem count_sub_zero {n : Number} (hexact : n.IsExact) : (n.sub 0).count = n.count := by
  have hzero : (0 : Number) = finite 0 := rfl
  rw [hzero]
  cases n with
  | nan | infinity _ | negZero => rfl
  | finite q =>
    have hsub : (finite q).sub (finite 0) = round (q - 0) := rfl
    rw [hsub, sub_zero, hexact q rfl]

/-! ## Differences -/

/-- A difference grows with what is subtracted from. -/
theorem sub_mono {p q : Rat} (h : p ≤ q) (r : Rat) :
    ((finite p).sub (finite r)).le ((finite q).sub (finite r)) = true :=
  round_mono (sub_le_sub_right h r)

/-! ## Whole numbers -/

/-- A whole number is rounded to a whole number, if it is not too great. -/
theorem exists_natCast_round {m : Nat} (h : (round (m : Rat)).isFinite = true) :
    ∃ n : Nat, round (m : Rat) = finite (n : Rat) := by
  rcases Nat.eq_zero_or_pos m with rfl | hpos
  · exact ⟨0, rfl⟩
  have hpos' : (0 : Rat) < (m : Rat) := Nat.cast_pos.mpr hpos
  obtain ⟨n, hn⟩ : ∃ n : Nat, roundedSize (m : Rat) = (n : Rat) := by
    rcases le_total 0 (unitExponent (m : Rat)) with hunit | hunit
    · -- the unit is a whole number
      obtain ⟨u, hu⟩ := exists_units hunit
      refine ⟨nearestEven ((m : Rat) / 2 ^ unitExponent (m : Rat)) * u, ?_⟩
      rw [zpow_zero, mul_one] at hu
      rw [roundedSize_eq, Nat.cast_mul, ← hu]
    · -- one is a whole number of units, so nothing is rounded
      exact ⟨m, roundedSize_of_units (by rw [zpow_zero, mul_one]) hunit⟩
  rw [round_of_pos hpos'] at h ⊢
  split_ifs at h ⊢ with hbig
  · cases h
  · exact ⟨n, congrArg finite hn⟩

end LazyFrame.Number
