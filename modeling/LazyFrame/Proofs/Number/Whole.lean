import Mathlib.Data.Rat.Floor
import Mathlib.Tactic.NormNum
import Mathlib.Tactic.Positivity
import LazyFrame.Plan.Window
import LazyFrame.Proofs.Attempt

/-!
# Whole numbers

Whole numbers up to `2 ^ 53` are kept exactly: rounding gives them back (`Number.round_natCast`),
because in units of the last place they are whole too, so there is nothing to round. Hence the
number of rows of a window whose end is not beyond `2 ^ 53` is the difference of its ends
(`Window.count_sub`).
-/

namespace LazyFrame.Number

theorem scale_natCast (q : Rat) (k : Nat) : scale 2 q (k : Int) = q * 2 ^ k := by
  show q * ((2 ^ k : Nat) : Rat) = q * 2 ^ k
  push_cast
  rfl

theorem scale_neg_natCast (q : Rat) (k : Nat) : scale 2 q (-(k : Int)) = q / 2 ^ k := by
  cases k with
  | zero => simp [scale]
  | succ k =>
    show q / ((2 ^ (k + 1) : Nat) : Rat) = q / 2 ^ (k + 1)
    push_cast
    rfl

/-- Whole numbers are rounded to themselves. -/
theorem nearestEven_natCast (m : Nat) : nearestEven (m : Rat) = m := by
  have hfloor : (m : Rat).floor = (m : Int) := Rat.floor_intCast m
  unfold nearestEven
  simp [hfloor]

/-- The magnitude of a whole number is its binary logarithm. -/
theorem magnitude_natCast {m : Nat} (h : m ≠ 0) : magnitude (m : Rat) = (Nat.log2 m : Int) := by
  have hone : Nat.log2 1 = 0 := by decide
  have hle : ((2 ^ Nat.log2 m : Nat) : Rat) ≤ (m : Rat) := Nat.cast_le.mpr (Nat.log2_self_le h)
  unfold magnitude
  simp only [Rat.num_natCast, Rat.den_natCast, Int.natAbs_natCast, hone, Nat.cast_zero, sub_zero]
  rw [scale_natCast, one_mul, if_neg]
  push_cast at hle
  exact not_lt.mpr hle

/-- In units of the last place a whole number is whole. -/
theorem round_natCast {m : Nat} (h : m ≤ 2 ^ 53) : round (m : Rat) = finite (m : Rat) := by
  rcases Nat.eq_zero_or_pos m with rfl | hpos
  · rfl
  rcases Nat.eq_or_lt_of_le h with rfl | hlt
  · decide +kernel
  have hpos' : (0 : Rat) < (m : Rat) := Nat.cast_pos.mpr hpos
  have hlog : Nat.log2 m < 53 := (Nat.log2_lt (Nat.pos_iff_ne_zero.mp hpos)).mpr hlt
  -- below `2 ^ 53` the unit in the last place is `2 ^ -k`, so nothing of a whole number is lost
  obtain ⟨k, hk⟩ : ∃ k, Nat.log2 m + k = 52 := ⟨52 - Nat.log2 m, by omega⟩
  have hunit : unitExponent (m : Rat) = -(k : Int) := by
    rw [unitExponent, magnitude_natCast (Nat.pos_iff_ne_zero.mp hpos)]
    omega
  have hscaled : scale 2 (m : Rat) (k : Int) = ((m * 2 ^ k : Nat) : Rat) := by
    rw [scale_natCast]
    push_cast
    rfl
  have hback : scale 2 ((m * 2 ^ k : Nat) : Rat) (-(k : Int)) = (m : Rat) := by
    rw [scale_neg_natCast]
    push_cast
    exact mul_div_cancel_right₀ _ (by positivity)
  -- and the result is far from an infinity
  have hsmall : ¬scale 2 1 1024 ≤ (m : Rat) := by
    rw [not_le]
    calc (m : Rat) ≤ ((2 ^ 53 : Nat) : Rat) := Nat.cast_le.mpr h
      _ < scale 2 1 1024 := by decide +kernel
  unfold round
  simp only [if_neg hpos'.ne', if_neg (not_lt.mpr hpos'.le), hunit, neg_neg, hscaled,
    nearestEven_natCast, hback, if_neg hsmall]

/-! ## Counts -/

/-- A whole number of rows; what is below zero counts as none. -/
def count (n : Number) : Nat := (n.toRat?.getD 0).floor.toNat

/-- A whole number counts as itself. -/
theorem count_of_toRat? {n : Number} {m : Nat} (h : n.toRat? = some (m : Rat)) : n.count = m := by
  have hfloor : (m : Rat).floor = (m : Int) := Rat.floor_intCast m
  rw [count, h, Option.getD_some, hfloor, Int.toNat_natCast]

/-- What is not above zero counts as nothing. -/
theorem count_of_not_pos {n : Number} (h : Number.lt 0 n = false) : n.count = 0 := by
  cases n with
  | nan | infinity _ | negZero => rfl
  | finite q =>
    have hzero : Number.lt 0 (finite q) = decide (0 < q) := rfl
    rw [hzero, decide_eq_false_iff_not, not_lt] at h
    have hfloor : q.floor ≤ 0 := by
      have := Rat.floor_le q
      exact_mod_cast this.trans h
    exact Int.toNat_of_nonpos hfloor

/-- Finite numbers are compared as they are. -/
theorem lt_of_toRat? {a b : Number} {p q : Rat} (ha : a.toRat? = some p) (hb : b.toRat? = some q) :
    a.lt b = decide (p < q) := by
  cases a with
  | nan | infinity _ => cases ha
  | negZero | finite _ =>
    cases b with
    | nan | infinity _ => cases hb
    | negZero | finite _ =>
      cases ha
      cases hb
      rfl

/-- What is below a number is below a greater one. -/
theorem lt_finite_mono {a : Number} {p q : Rat} (h : p ≤ q) (ha : a.lt (finite p) = true) :
    a.lt (finite q) = true := by
  cases a with
  | nan | infinity _ => exact ha
  | negZero | finite _ =>
    rw [lt_of_toRat? rfl rfl, decide_eq_true_iff] at ha ⊢
    exact ha.trans_le h

/-- A whole number is an integer. -/
theorem exists_intCast {n : Number} (h : n.isInteger = true) :
    ∃ z : Int, n.toRat? = some (z : Rat) := by
  unfold isInteger at h
  cases hq : n.toRat? with
  | none => simp [hq] at h
  | some q =>
    have hden : q.den = 1 := by simpa [hq] using h
    exact ⟨q.num, congrArg some ((Rat.den_eq_one_iff q).mp hden).symm⟩

/-- The start of a window is a natural number. -/
theorem exists_natCast {start : Number} (hstart : Window.isStart start = true) :
    ∃ m : Nat, start.toRat? = some (m : Rat) := by
  simp only [Window.isStart, Bool.and_eq_true, Bool.not_eq_true'] at hstart
  obtain ⟨z, hz⟩ := exists_intCast hstart.1
  have hzero : (0 : Number).toRat? = some 0 := rfl
  have hpos : (0 : Rat) ≤ (z : Rat) := by
    simpa [lt_of_toRat? hz hzero] using hstart.2
  lift z to Nat using by exact_mod_cast hpos
  exact ⟨z, by simpa using hz⟩

/-- The stop of a window is a natural number not below its start. -/
theorem exists_natCast_le {start stop : Number} {y : Nat} (hy : start.toRat? = some (y : Rat))
    (hstop : Window.isStop start stop = true) : ∃ x : Nat, stop.toRat? =
      some (x : Rat) ∧ y ≤ x := by
  simp only [Window.isStop, Bool.and_eq_true, Bool.not_eq_true'] at hstop
  obtain ⟨z, hz⟩ := exists_intCast hstop.1
  have hle : (y : Rat) ≤ (z : Rat) := by
    simpa [lt_of_toRat? hz hy] using hstop.2
  have hle' : (y : Int) ≤ z := by exact_mod_cast hle
  lift z to Nat using by omega
  exact ⟨z, by simpa using hz, by omega⟩

/-- Up to `2 ^ 53`, the difference of whole numbers counts as their difference. -/
theorem count_sub_of_toRat? {a b : Number} {x y : Nat} (ha : a.toRat? = some (x : Rat))
    (hb : b.toRat? = some (y : Rat)) (hle : y ≤ x) (hexact : x ≤ 2 ^ 53) :
    (a.sub b).count = x - y := by
  have hround : ∀ q : Rat, q = (x : Rat) - (y : Rat) → (round q).count = x - y := by
    intro q hq
    obtain rfl := hq
    rw [← Nat.cast_sub hle, round_natCast (Nat.le_trans (Nat.sub_le x y) hexact)]
    exact count_of_toRat? rfl
  cases a with
  | nan | infinity _ => cases ha
  | negZero =>
    have hx : x = 0 := by
      have := Option.some.inj ha
      exact_mod_cast this.symm
    obtain rfl : y = 0 := by omega
    -- zero minus zero: of the ways to write it, one does not round
    cases b with
    | nan | infinity _ => cases hb
    | negZero => exact hround _ (by simp [toRat?, hx])
    | finite q =>
      have hq : q = 0 := by simpa [toRat?] using hb
      show (if q = 0 then negZero else round (-q)).count = _
      rw [if_pos hq, hx]
      rfl
  | finite p =>
    have hp : p = (x : Rat) := Option.some.inj ha
    cases b with
    | nan | infinity _ => cases hb
    | negZero =>
      have hy : (y : Rat) = 0 := (Option.some.inj hb).symm
      exact hround _ (by simp [toRat?, hp, hy])
    | finite q =>
      have hq : q = (y : Rat) := Option.some.inj hb
      exact hround _ (by simp [toRat?, hp, hq])

/-- The number of rows of a window whose end is not beyond `2 ^ 53` is the difference of its
ends. -/
theorem count_sub {start stop : Number} (hstart : Window.isStart start = true)
    (hstop : Window.isStop start stop = true) (hexact : stop.count ≤ 2 ^ 53) :
    (stop.sub start).count = stop.count - start.count := by
  obtain ⟨y, hy⟩ := exists_natCast hstart
  obtain ⟨x, hx, hle⟩ := exists_natCast_le hy hstop
  rw [count_of_toRat? hx] at hexact ⊢
  rw [count_of_toRat? hy]
  exact count_sub_of_toRat? hx hy hle hexact

end LazyFrame.Number

namespace LazyFrame.Window

open Number

/-- The ends of a window are whole numbers in order. -/
theorem isStart_and_isStop {start stop : Value} {w : Window} (h : ofValues start stop = .ok w) :
    isStart w.start = true ∧ ∀ behind ∈ w.stop?, isStop w.start behind = true := by
  obtain ⟨first, hfirst, h⟩ := Attempt.bind_eq_ok.mp h
  obtain ⟨behind?, hbehind, h⟩ := Attempt.bind_eq_ok.mp h
  cases h
  constructor
  · -- a bound that is left out is 0 or none, one that is given has been checked
    unfold startOf at hfirst
    split at hfirst
    · cases hfirst
      show isStart 0 = true
      decide
    · split at hfirst
      · cases hfirst
        assumption
      · cases hfirst
    · obtain ⟨_, _, hfirst⟩ := Attempt.bind_eq_ok.mp hfirst
      cases hfirst
  · intro behind hmem
    unfold stopOf at hbehind
    split at hbehind
    · cases hbehind
      cases hmem
    · split at hbehind
      · cases hbehind
        cases hmem
        assumption
      · cases hbehind
    · obtain ⟨_, _, hbehind⟩ := Attempt.bind_eq_ok.mp hbehind
      cases hbehind

/-- A window that does not end beyond `2 ^ 53` holds as many rows as its ends are apart. -/
theorem count_sub {start stop : Value} {w : Window} (h : ofValues start stop = .ok w)
    (hexact : ∀ behind ∈ w.stop?, behind.count ≤ 2 ^ 53) :
    ∀ behind ∈ w.stop?, (behind.sub w.start).count = behind.count - w.start.count := by
  obtain ⟨hstart, hstop⟩ := isStart_and_isStop h
  exact fun behind hmem => Number.count_sub hstart (hstop behind hmem) (hexact behind hmem)

end LazyFrame.Window
