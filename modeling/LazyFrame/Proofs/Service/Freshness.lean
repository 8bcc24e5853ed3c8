import LazyFrame.Proofs.Number.Rounding
import LazyFrame.Service.Handler

/-!
# How long a catalog is good

Settings that are numbers are whole numbers, whatever the environment says
(`Settings.isWhole_numberFrom`). A catalog is good as long as its age is at most the time to live.
Both are numbers that are rounded, which takes nothing away: an age that is no more than the time to
live passes (`Settings.isFresh_of_le`), and where the clock gives whole milliseconds no other age
does (`Settings.isFresh_iff`). What is no longer good does not become good again
(`Settings.IsFresh.earlier`).
-/

namespace LazyFrame

/-! ## Whole numbers of the environment -/

namespace Number

/-- A number that stands for an integer. -/
def IsWhole (n : Number) : Prop := ∃ z : Int, n.toRat? = some (z : Rat)

theorem isWhole_finite_intCast (z : Int) : (finite (z : Rat)).IsWhole := ⟨z, rfl⟩

theorem isWhole_finite_natCast (m : Nat) : (finite (m : Rat)).IsWhole := isWhole_finite_intCast m

theorem isWhole_negZero : negZero.IsWhole := ⟨0, rfl⟩

/-- Up to `2 ^ 53`, a natural number is kept as it is. -/
theorem isWhole_ofNat {m : Nat} (h : m ≤ 2 ^ 53) : (ofNat m).IsWhole := by
  have hround : ofNat m = finite (m : Rat) := round_natCast h
  exact hround ▸ isWhole_finite_natCast m

/-- Digits without a point are whole, if they are finite. -/
theorem isWhole_ofDecimal {negative : Bool} {digits : Nat}
    (h : (ofDecimal negative digits 0).isFinite = true) :
    (ofDecimal negative digits 0).IsWhole := by
  have hscale : scale 10 (digits : Rat) 0 = (digits : Rat) := by
    show (digits : Rat) * ((10 ^ 0 : Nat) : Rat) = digits
    rw [pow_zero, Nat.cast_one, mul_one]
  unfold ofDecimal at h ⊢
  dsimp only at h ⊢
  rw [hscale] at h ⊢
  by_cases hzero : digits = 0 ∨ ((toString digits).length : Int) + 0 < -330
  · rw [if_pos hzero]
    cases negative with
    | false => exact isWhole_finite_natCast 0
    | true => exact isWhole_negZero
  · rw [if_neg hzero] at h ⊢
    by_cases hbig : 310 < ((toString digits).length : Int) + 0
    · rw [if_pos hbig] at h
      cases h
    · rw [if_neg hbig] at h ⊢
      -- what is read is the rounded number with its sign
      cases hround : round (digits : Rat) with
      | nan | infinity =>
        rw [hround] at h
        cases h
      | negZero =>
        cases negative with
        | false => exact isWhole_finite_natCast 0
        | true => exact isWhole_negZero
      | finite q =>
        obtain ⟨n, hn⟩ := exists_natCast_round (m := digits) (hround ▸ rfl)
        obtain rfl : q = (n : Rat) := finite.inj (hround.symm.trans hn)
        cases negative with
        | false => exact isWhole_finite_natCast n
        | true =>
          show (if (n : Rat) = 0 then negZero else finite (-(n : Rat))).IsWhole
          split_ifs
          · exact isWhole_negZero
          · exact ⟨-(n : Int), by rw [Int.cast_neg, Int.cast_natCast]; rfl⟩

/-- So are the leading digits of a text. -/
theorem isWhole_ofLeadingDigits {text : String} {n : Number} (h : ofLeadingDigits? text = some n)
    (hfinite : n.isFinite = true) : n.IsWhole := by
  unfold ofLeadingDigits? at h
  dsimp only at h
  split_ifs at h
  cases h
  exact isWhole_ofDecimal hfinite

end Number

namespace Settings

/-- So is a number of the environment, if its default is. -/
theorem isWhole_numberFrom (text? : Option String) {default : Number} (h : default.IsWhole) :
    (numberFrom text? default).IsWhole := by
  unfold numberFrom
  split
  · exact h
  · split
    · rename_i text n hread
      by_cases hfinite : n.isFinite = true
      · rw [if_pos hfinite]
        exact Number.isWhole_ofLeadingDigits hread hfinite
      · rw [if_neg hfinite]
        exact h
    · exact h

/-- The number of connections to keep is whole. -/
theorem isWhole_cachedConnections (environment : List (String × String)) :
    (ofEnvironment environment).cachedConnections.IsWhole :=
  isWhole_numberFrom _ (Number.isWhole_ofNat (by decide))

/-- So is the time for which a schema is good. -/
theorem isWhole_schemaTtlSeconds (environment : List (String × String)) :
    (ofEnvironment environment).schemaTtlSeconds.IsWhole :=
  isWhole_numberFrom _ (Number.isWhole_ofNat (by decide))

end Settings

/-! ## The age of a catalog -/

namespace Number

variable {ttl : Number} {z : Int}

/-- To compare with a multiple of a whole number is to compare with the multiple that is rounded. -/
theorem le_scaleBy_iff (h : ttl.toRat? = some (z : Rat)) (a : Number) (factor : Nat) :
    a.le (ttl.scaleBy factor) = a.le (round ((z : Rat) * (factor : Rat))) := by
  cases ttl with
  | nan | infinity => cases h
  | negZero =>
    obtain hz : (0 : Rat) = (z : Rat) := Option.some.inj h
    rw [← hz, zero_mul]
    cases a <;> rfl
  | finite q =>
    obtain rfl : q = (z : Rat) := Option.some.inj h
    rfl

/-- A whole number that can be kept exactly is compared exactly with a whole number that is
rounded. -/
theorem le_round_intCast_iff {m : Nat} (hm : m ≤ 2 ^ 53) (y : Int) :
    (finite (m : Rat)).le (round (y : Rat)) = true ↔ (m : Int) ≤ y := by
  constructor
  · intro h
    by_contra hlt
    -- the next smaller whole number is kept exactly, so `y` is not rounded beyond it
    have hbelow : ∃ q : Rat, round (((m : Int) - 1 : Int) : Rat) = finite q ∧ q < m := by
      rcases Nat.eq_zero_or_pos m with rfl | hpos
      · exact ⟨-1, by decide +kernel, by norm_num⟩
      · refine ⟨((m - 1 : Nat) : Rat), ?_, Nat.cast_lt.mpr (Nat.sub_one_lt_of_lt hpos)⟩
        rw [← Nat.cast_one, ← Nat.cast_sub hpos, Int.cast_natCast]
        exact round_natCast ((Nat.sub_le m 1).trans hm)
    obtain ⟨q, hq, hless⟩ := hbelow
    have hy : (y : Rat) ≤ (((m : Int) - 1 : Int) : Rat) := Int.cast_le.mpr (by omega)
    have := le_trans h (hq ▸ round_mono hy)
    rw [le_of_toRat? rfl rfl, decide_eq_true_iff] at this
    exact absurd hless (not_lt.mpr this)
  · intro h
    rw [← round_natCast hm]
    exact round_mono (by exact_mod_cast h)

end Number

namespace Settings

open Number

/-- A catalog that was loaded at one time is still good at another. -/
def IsFresh (settings : Settings) (loaded now : Rat) : Prop :=
  ((finite now).sub (finite loaded)).le (settings.schemaTtlSeconds.scaleBy 1000) = true

variable {settings : Settings} {ttl : Int}

/-- What is fresh later is fresh now. -/
theorem IsFresh.earlier {loaded now later : Rat} (h : settings.IsFresh loaded later)
    (hle : now ≤ later) : settings.IsFresh loaded now :=
  le_trans (sub_mono hle loaded) h

/-- An age that is no more than the time to live passes. -/
theorem isFresh_of_le (httl : settings.schemaTtlSeconds.toRat? = some (ttl : Rat))
    {loaded now : Rat} (h : now - loaded ≤ ttl * 1000) : settings.IsFresh loaded now := by
  rw [IsFresh, le_scaleBy_iff httl]
  exact round_mono h

/-- Of ages in whole milliseconds only those pass. -/
theorem isFresh_iff (httl : settings.schemaTtlSeconds.toRat? = some (ttl : Rat)) {loaded now : Nat}
    (hle : loaded ≤ now) (hnow : now ≤ 2 ^ 53) :
    settings.IsFresh loaded now ↔ (now : Int) - (loaded : Int) ≤ ttl * 1000 := by
  have hage : (finite (now : Rat)).sub (finite (loaded : Rat)) =
      finite ((now - loaded : Nat) : Rat) := by
    have hexact := round_natCast ((Nat.sub_le now loaded).trans hnow)
    rwa [Nat.cast_sub hle] at hexact ⊢
  have hlife : (ttl : Rat) * ((1000 : Nat) : Rat) = ((ttl * 1000 : Int) : Rat) := by
    push_cast
    rfl
  rw [IsFresh, le_scaleBy_iff httl, hage, hlife,
    le_round_intCast_iff ((Nat.sub_le now loaded).trans hnow), Nat.cast_sub hle]

end Settings

namespace Service

/-- A catalog is good exactly if it is fresh. -/
theorem isGood_iff {settings : Settings} {loaded now : Rat} {c : Catalog} :
    isGood settings (.finite now) ⟨.finite loaded, c⟩ = true ↔ settings.IsFresh loaded now :=
  Iff.rfl

end Service

end LazyFrame
