import Mathlib.Tactic.Ring
import LazyFrame.Proofs.Number.Rounding

/-!
# The whole part of a quotient

Rounding adds no more than half a unit in the last place (`roundedSize_le_add`). For a quotient of
whole numbers below `2 ^ 53` that is less than what is missing to the next whole number, and less
than a whole number the quotient does not become either, since rounding keeps the order. So the
whole part of the quotient is the same after rounding (`floor_round_div`).
-/

namespace LazyFrame.Number

/-- The nearest whole number is no more than a half above. -/
theorem nearestEven_le {q : Rat} (h : 0 ≤ q) : (nearestEven q : Rat) ≤ q + 1 / 2 := by
  have hfloor : ((q.floor.toNat : Nat) : Rat) ≤ q := by
    have hnonneg : 0 ≤ q.floor := Rat.le_floor_iff.mpr (by simpa using h)
    rw [← Int.cast_natCast, Int.toNat_of_nonneg hnonneg]
    exact Rat.floor_le q
  unfold nearestEven
  dsimp only
  split_ifs with hless hmore heven
  · linarith
  · push_cast
    linarith
  · linarith
  · push_cast
    linarith

/-- Rounding adds no more than half a unit in the last place. -/
theorem roundedSize_le_add {q : Rat} (h : 0 < q) : roundedSize q ≤ q + 2 ^ unitExponent q / 2 := by
  have hunit : (0 : Rat) < 2 ^ unitExponent q := by positivity
  have hnearest := nearestEven_le (div_nonneg h.le hunit.le)
  calc roundedSize q = (nearestEven (q / 2 ^ unitExponent q) : Rat) * 2 ^ unitExponent q :=
        roundedSize_eq q
    _ ≤ (q / 2 ^ unitExponent q + 1 / 2) * 2 ^ unitExponent q := by gcongr
    _ = q + 2 ^ unitExponent q / 2 := by
      rw [add_mul, div_mul_cancel₀ _ hunit.ne']
      ring

theorem roundedSize_natCast {m : Nat} (hpos : 0 < m) (h : m ≤ 2 ^ 53) :
    roundedSize (m : Rat) = (m : Rat) := by
  have hround := round_natCast h
  rw [round_of_pos (Nat.cast_pos.mpr hpos)] at hround
  split_ifs at hround
  exact Number.finite.inj hround

/-- Half a unit in the last place of a quotient is less than what is between neighbouring
quotients. -/
theorem half_unit_lt {m d : Nat} (hpos : 0 < m) (hm : m < 2 ^ 53) (hd : 0 < d)
    (hsmall : d ≤ 2 ^ 53) : (2 : Rat) ^ unitExponent ((m : Rat) / d) / 2 < 1 / d := by
  have hd' : (0 : Rat) < d := Nat.cast_pos.mpr hd
  have hx : (0 : Rat) < (m : Rat) / d := div_pos (Nat.cast_pos.mpr hpos) hd'
  obtain ⟨hlow, hhigh⟩ := magnitude_bounds hx
  have hleast : (2 : Rat) ^ (-53 : Int) < 2 ^ (magnitude ((m : Rat) / d) + 1) := by
    refine lt_of_le_of_lt ?_ hhigh
    have hd53 : (d : Rat) ≤ 2 ^ 53 := by exact_mod_cast hsmall
    have hone : (1 : Rat) ≤ m := by exact_mod_cast hpos
    calc (2 : Rat) ^ (-53 : Int) = 1 / 2 ^ 53 := by norm_num
      _ ≤ 1 / d := one_div_le_one_div_of_le hd' hd53
      _ ≤ m / d := by gcongr
  -- the quotient is far above the subnormal numbers, so its unit follows its magnitude
  have hunit : unitExponent ((m : Rat) / d) = magnitude ((m : Rat) / d) - 52 := by
    have := (zpow_lt_zpow_iff_right₀ (one_lt_two : (1 : Rat) < 2)).mp hleast
    rw [unitExponent]
    omega
  have hm53 : (m : Rat) < 2 ^ 53 := by exact_mod_cast hm
  calc (2 : Rat) ^ unitExponent ((m : Rat) / d) / 2 = 2 ^ magnitude ((m : Rat) / d) / 2 ^ 53 := by
        rw [hunit, zpow_sub₀ two_ne_zero]
        norm_num
        ring
    _ ≤ m / d / 2 ^ 53 := by gcongr
    _ < 1 / d := by
      rw [div_right_comm, div_lt_div_iff_of_pos_right hd', div_lt_one (by positivity)]
      exact hm53

/-- The whole part of a quotient of whole numbers below `2 ^ 53` is not changed by rounding. -/
theorem floor_round_div {m d : Nat} (hm : m < 2 ^ 53) (hd : 0 < d) (hsmall : d ≤ 2 ^ 53) :
    ∃ q, round ((m : Rat) / d) = finite q ∧ q.floor = ((m / d : Nat) : Int) := by
  rcases Nat.eq_zero_or_pos m with rfl | hpos
  · exact ⟨0, by rw [Nat.cast_zero, zero_div]; rfl, by rw [Nat.zero_div]; rfl⟩
  have hd' : (0 : Rat) < d := Nat.cast_pos.mpr hd
  have hx : (0 : Rat) < (m : Rat) / d := div_pos (Nat.cast_pos.mpr hpos) hd'
  -- the next whole number is at least `1 / d` away
  have hbelow : roundedSize ((m : Rat) / d) < ((m / d : Nat) : Rat) + 1 := by
    have hnext : (m : Rat) + 1 ≤ ((m / d : Nat) + 1) * d := by
      exact_mod_cast Nat.lt_mul_of_div_lt (Nat.lt_succ_self (m / d)) hd
    calc roundedSize ((m : Rat) / d) ≤ m / d + 2 ^ unitExponent ((m : Rat) / d) / 2 :=
          roundedSize_le_add hx
      _ < m / d + 1 / d := by
        have := half_unit_lt hpos hm hd hsmall
        linarith
      _ = (m + 1) / d := (add_div _ _ _).symm
      _ ≤ ((m / d : Nat) : Rat) + 1 := (div_le_iff₀ hd').mpr hnext
  -- rounding is monotone, and the whole part is its own rounding
  have habove : ((m / d : Nat) : Rat) ≤ roundedSize ((m : Rat) / d) := by
    rcases Nat.eq_zero_or_pos (m / d) with hzero | hquotient
    · rw [hzero, Nat.cast_zero]
      exact roundedSize_nonneg _
    · rw [← roundedSize_natCast hquotient (Nat.le_trans (Nat.div_le_self m d) hm.le)]
      refine roundedSize_mono (Nat.cast_pos.mpr hquotient) ((le_div_iff₀ hd').mpr ?_)
      exact_mod_cast Nat.div_mul_le_self m d
  have hfinite : ¬(2 : Rat) ^ (1024 : Int) ≤ roundedSize ((m : Rat) / d) := by
    have hquotient : ((m / d : Nat) : Rat) + 1 ≤ 2 ^ 53 := by
      exact_mod_cast Nat.lt_of_le_of_lt (Nat.div_le_self m d) hm
    have hfar : (2 : Rat) ^ (53 : Int) < 2 ^ (1024 : Int) :=
      zpow_lt_zpow_right₀ one_lt_two (by decide)
    exact not_le.mpr ((hbelow.trans_le hquotient).trans hfar)
  refine ⟨roundedSize ((m : Rat) / d), by rw [round_of_pos hx, if_neg hfinite], ?_⟩
  refine le_antisymm (Int.lt_add_one_iff.mp (Rat.floor_lt_iff.mpr ?_)) (Rat.le_floor_iff.mpr ?_)
  · exact_mod_cast hbelow
  · exact_mod_cast habove

end LazyFrame.Number
