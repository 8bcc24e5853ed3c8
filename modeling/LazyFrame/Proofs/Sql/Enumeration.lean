import Mathlib.Data.List.Shortlex
import Mathlib.Data.Nat.Nth
import LazyFrame.Proofs.Number.Quotient
import LazyFrame.Proofs.Sql.Supply

/-!
# The words in order

Words are ordered by length and then alphabet (`Before`), and a greater number has a later word
(`before_word`): the letters in front of the last one are the word of a lesser number, so they
decide, and where they are the same the last letter does. Since every word has a number
(`bijOn_word`), the words behind the indices from zero on are all words in their order, without a
gap.

What is drawn from the supply are the words that are not reserved, in the same order and without a
gap either (`next_advance`).

An index that is a `Number` has the same word as long as adding one to it is exact (`wordAt_ofNat`).
The quotient of each step is rounded, but not as far as the next whole number. From `2 ^ 53` on
indices share their words (`wordAt_repeated`).
-/

namespace LazyFrame.Alias

/-! ## The order of words -/

/-- At least one letter, and only small letters. -/
def IsWord (w : String) : Prop := w ≠ "" ∧ ∀ c ∈ w.toList, c.isLower = true

/-- Shorter words come first, and words of one length in the order of the alphabet. -/
def Before (u v : String) : Prop := u.toList.Shortlex (· < ·) v.toList

/-- Letters are in the order of their numbers. -/
theorem letter_lt {a b : Nat} (hb : b < 26) (h : a < b) : letter a < letter b := by
  have hall : ∀ i j : Fin 26, i < j → letter i < letter j := by decide
  exact hall ⟨a, h.trans hb⟩ ⟨b, hb⟩ h

/-- One more character at the end of both keeps two texts of one length in order. -/
theorem lex_concat {cs ds : List Char} (h : cs.Lex (· < ·) ds) (hsame : cs.length = ds.length)
    (c d : Char) : (cs ++ [c]).Lex (· < ·) (ds ++ [d]) := by
  induction h with
  | nil => cases hsame
  | rel hrel => exact .rel hrel
  | cons _ ih => exact .cons (ih (Nat.succ.inj hsame))

/-- What is in order stays so with one more letter on either side. -/
theorem shortlex_concat {cs ds : List Char} (h : cs.Shortlex (· < ·) ds) (c d : Char) :
    (cs ++ [c]).Shortlex (· < ·) (ds ++ [d]) := by
  rcases List.shortlex_def.mp h with hless | ⟨hsame, hlex⟩
  · exact .of_length_lt (by simpa using hless)
  · exact .of_lex (by simpa using hsame) (lex_concat hlex hsame c d)

/-- A greater number has a later word. -/
theorem shortlex_wordChars {a b : Nat} (h : a < b) :
    (wordChars a).Shortlex (· < ·) (wordChars b) := by
  induction b using Nat.strongRecOn generalizing a with
  | ind b ih =>
    cases b with
    | zero => cases h
    | succ b =>
      cases a with
      | zero =>
        refine .of_length_lt ?_
        rw [wordChars, wordChars, List.length_append]
        exact Nat.succ_pos _
      | succ a =>
        rw [wordChars, wordChars]
        -- the letters in front decide, and the last ones if these are the same
        rcases Nat.lt_or_ge (a / 26) (b / 26) with hless | hge
        · exact shortlex_concat (ih (b / 26) (Nat.lt_succ_of_le (Nat.div_le_self b 26)) hless) _ _
        · have hfront : a / 26 = b / 26 := by omega
          have hlast : letter (a % 26) < letter (b % 26) :=
            letter_lt (Nat.mod_lt _ (by decide)) (by omega)
          rw [hfront]
          exact ((List.shortlex_singleton_iff _ _).mpr hlast).append_left _

/-- Words are in the order of their numbers. -/
theorem before_word {a b : Nat} (h : a < b) : Before (word a) (word b) := by
  rw [Before, word, word, String.toList_ofList, String.toList_ofList]
  exact shortlex_wordChars h

/-- Every number has a word. -/
theorem isWord_word (n : Nat) : IsWord (word (n + 1)) := by
  obtain ⟨c, cs, hword, hc, hcs⟩ := word_eq_cons (Nat.succ_pos n)
  constructor
  · intro hempty
    rw [hempty] at hword
    cases hword
  · rw [hword]
    exact List.forall_mem_cons.mpr ⟨hc, hcs⟩

/-- Every word has a number. -/
theorem bijOn_word : Set.BijOn (fun i => word (i + 1)) Set.univ {w | IsWord w} := by
  refine ⟨fun i _ => isWord_word i, fun i _ j _ h => Nat.succ.inj (word_inj h), ?_⟩
  intro w hw
  obtain ⟨hne, hlower⟩ := hw
  have hword : word (number w.toList) = w := (word_eq_iff (List.all_eq_true.mpr hlower)).mpr rfl
  obtain ⟨i, hi⟩ : ∃ i, number w.toList = i + 1 := by
    refine Nat.exists_eq_succ_of_ne_zero fun hzero => hne ?_
    rw [← hword, hzero, word, wordChars]
  rw [hi] at hword
  exact ⟨i, Set.mem_univ i, hword⟩

/-! ## What is drawn -/

/-- What is drawn is in order. -/
theorem pairwise_take (count n : Nat) : (take count n).Pairwise Before := by
  induction count generalizing n with
  | zero => exact .nil
  | succ count ih =>
    refine .cons (fun w hw => ?_) (ih (next n + 1))
    obtain ⟨m, hle, _, _, rfl⟩ := mem_take_iff.mp hw
    exact before_word hle

/-- The alias at a place is the word of the number that drawing has come to. -/
theorem getElem?_take {count k n : Nat} (h : k < count) :
    (take count n)[k]? = some (word (next (advance k n))) := by
  induction count generalizing k n with
  | zero => cases h
  | succ count ih =>
    cases k with
    | zero => rfl
    | succ k => rw [take, List.getElem?_cons_succ, ih (Nat.lt_of_succ_lt_succ h), advance]

/-- The alias behind `k` others is the word behind `k` others that are not reserved. -/
theorem next_advance (k : Nat) : next (advance k 1) = Nat.nth (fun i => IsFree (i + 1)) k + 1 := by
  obtain ⟨i, hi⟩ := Nat.exists_eq_add_of_le' ((le_advance k 1).trans (le_next _))
  have hfree : IsFree (i + 1) := hi ▸ isFree_next _
  -- the empty word is counted in front of all others, the alias itself behind them
  have hplace : Nat.count (fun i => IsFree (i + 1)) i = k := by
    have hall : Nat.count IsFree (i + 1 + 1) = Nat.count IsFree 1 + k + 1 := by
      rw [← hi, count_next, count_advance]
    rw [Nat.count_succ, if_pos hfree, Nat.count_succ', if_pos isFree_zero, Nat.count_one,
      if_pos isFree_zero] at hall
    omega
  have hnth : Nat.nth (fun i => IsFree (i + 1)) (Nat.count (fun i => IsFree (i + 1)) i) = i :=
    Nat.nth_count hfree
  rw [hi, ← hplace, hnth]

/-! ## Words behind indices -/

theorem floor_div (m : Nat) : ((m : Rat) / 26).floor = ((m / 26 : Nat) : Int) :=
  Rat.floor_natCast_div_natCast m 26

theorem truncate_natCast (n : Nat) : (Number.finite (n : Rat)).truncate = .finite (n : Rat) := by
  have hfloor : (n : Rat).floor = (n : Int) := Rat.floor_intCast n
  rw [Number.truncate, if_pos (Nat.cast_nonneg n), hfloor, Int.cast_natCast]

/-- A letter is found in floating point as among the natural numbers. -/
theorem letterAt_natCast (m : Nat) : letterAt (.finite (m : Rat)) = letter (m % 26) := by
  have hcode : letterAt (.finite (m : Rat)) = Char.ofNat ((Number.round (97 + ((m : Rat) - 26 *
      if (m : Rat) < 0 then -((-(m : Rat) / 26).floor : Rat)
        else (((m : Rat) / 26).floor : Rat)))).truncate.toRat?.getD 0).floor.toNat := rfl
  have hrest : 97 + ((m : Rat) - 26 * ((m / 26 : Nat) : Rat)) = ((97 + m % 26 : Nat) : Rat) := by
    have hparts : (m : Rat) = 26 * (m / 26 : Nat) + (m % 26 : Nat) := by
      exact_mod_cast (Nat.div_add_mod m 26).symm
    rw [Nat.cast_add]
    linarith
  have hfloor : ((97 + m % 26 : Nat) : Rat).floor = ((97 + m % 26 : Nat) : Int) :=
    Rat.floor_intCast _
  rw [hcode, if_neg (not_lt.mpr (Nat.cast_nonneg m)), floor_div, Int.cast_natCast, hrest,
    Number.round_natCast (by omega), truncate_natCast]
  show Char.ofNat ((97 + m % 26 : Nat) : Rat).floor.toNat = _
  rw [hfloor, Int.toNat_natCast, letter]

/-- So is a quotient by 26, below `2 ^ 53`. -/
theorem quotientAt_natCast {m : Nat} (h : m < 2 ^ 53) :
    quotientAt (.finite (m : Rat)) = .finite ((m / 26 : Nat) : Rat) := by
  obtain ⟨q, hround, hfloor⟩ := Number.floor_round_div h (by decide : 0 < 26) (by decide)
  have hquotient : quotientAt (.finite (m : Rat)) =
      Number.round (((Number.round ((m : Rat) / (26 : Nat))).toRat?.getD 0).floor : Rat) := rfl
  rw [hquotient, hround]
  show Number.round (q.floor : Rat) = _
  rw [hfloor, Int.cast_natCast]
  exact Number.round_natCast ((Nat.div_le_self m 26).trans h.le)

theorem one_eq : (1 : Number) = .finite 1 := by decide +kernel

/-- One more is still exact below `2 ^ 53`. -/
theorem add_one_natCast {i : Nat} (h : i < 2 ^ 53) :
    (Number.finite (i : Rat)).add 1 = .finite ((i + 1 : Nat) : Rat) := by
  have hadd : (Number.finite (i : Rat)).add (.finite 1) = Number.round ((i : Rat) - -1) := rfl
  rw [one_eq, hadd, sub_neg_eq_add, ← Nat.cast_add_one, Number.round_natCast h]

/-- One less is exact up to there. -/
theorem sub_one_natCast {m : Nat} (h : m ≤ 2 ^ 53) :
    (Number.finite ((m + 1 : Nat) : Rat)).sub 1 = .finite (m : Rat) := by
  have hsub : (Number.finite ((m + 1 : Nat) : Rat)).sub (.finite 1) =
      Number.round (((m + 1 : Nat) : Rat) - 1) := rfl
  rw [one_eq, hsub, Nat.cast_add_one, add_sub_cancel_right, Number.round_natCast h]

/-- A word is found in floating point as among the natural numbers, up to `2 ^ 53`. The induction is
on the fuel. -/
theorem wordCharsAt_natCast {fuel n : Nat} (hn : n ≤ 2 ^ 53) (hfuel : n < 26 ^ fuel)
    (soFar : List Char) : wordCharsAt fuel (.finite (n : Rat)) soFar = wordChars n ++ soFar := by
  induction fuel generalizing n soFar with
  | zero =>
    obtain rfl : n = 0 := by omega
    rw [wordCharsAt, wordChars, List.nil_append]
  | succ fuel ih =>
    have hzero : (0 : Number).toRat? = some 0 := rfl
    rw [wordCharsAt, Number.lt_of_toRat? hzero rfl]
    cases n with
    | zero => rw [if_neg (by simp), wordChars, List.nil_append]
    | succ m =>
      have hrest : m / 26 < 26 ^ fuel := by
        rw [pow_succ] at hfuel
        omega
      have hpos : (0 : Rat) < ((m + 1 : Nat) : Rat) := Nat.cast_pos.mpr (Nat.succ_pos m)
      rw [if_pos (decide_eq_true hpos), sub_one_natCast (by omega), quotientAt_natCast (by omega),
        letterAt_natCast, ih (by omega) hrest, wordChars, List.append_assoc]
      rfl

/-- The word behind an index below `2 ^ 53`. -/
theorem wordAt_ofNat {i : Nat} (h : i < 2 ^ 53) : wordAt (.ofNat i) = word (i + 1) := by
  have hindex : Number.ofNat i = .finite (i : Rat) := Number.round_natCast h.le
  have hfuel : i + 1 < 26 ^ 256 := lt_of_le_of_lt h (by norm_num)
  rw [wordAt, hindex, add_one_natCast h, wordCharsAt_natCast h hfuel, List.append_nil, word]

/-- The words behind the indices below `2 ^ 53` are the first of all words in their order, each
once. The words that are drawn are those of them that are not reserved, in the same order and with
none left out. -/
theorem words_in_order (count : Nat) :
    (∀ i < 2 ^ 53, wordAt (.ofNat i) = word (i + 1)) ∧
      Set.BijOn (fun i => word (i + 1)) Set.univ {w | IsWord w} ∧
      (∀ i j, i < j → Before (word (i + 1)) (word (j + 1))) ∧
      (take count 1).length = count ∧ (take count 1).Pairwise Before ∧
      (∀ w ∈ take count 1, w ∉ reserved) ∧
      ∀ k < count, (take count 1)[k]? = some (word (Nat.nth (fun i => IsFree (i + 1)) k + 1)) := by
  refine ⟨fun i => wordAt_ofNat, bijOn_word, fun i j h => before_word (Nat.succ_lt_succ h),
    length_take count 1, pairwise_take count 1, fun w hw => ?_, fun k hk => ?_⟩
  · obtain ⟨_, _, _, hfree, rfl⟩ := mem_take_iff.mp hw
    exact hfree
  · rw [getElem?_take hk, next_advance]

/-- Behind `z` comes `aa`, and behind `ar` come two words that are reserved. -/
theorem words_in_order_reserved :
    25 < 2 ^ 53 ∧ 26 < 2 ^ 53 ∧ wordAt (.ofNat 25) = "z" ∧ wordAt (.ofNat 26) = "aa" ∧
    Before "z" "aa" ∧ 44 < 45 ∧
      (take 45 1)[44]? = some "au" := by
  obtain ⟨hat, _, hbefore, _, _, _, hdrawn⟩ := words_in_order 45
  have hz : word 26 = "z" := (word_eq_iff (by decide)).mpr (by decide)
  have haa : word 27 = "aa" := (word_eq_iff (by decide)).mpr (by decide)
  have hau : word 47 = "au" := (word_eq_iff (by decide)).mpr (by decide)
  have hfree : IsFree 47 := not_not.mp fun h => absurd (not_isFree_iff.mp h) (by decide)
  have hcount : Nat.count (fun i => IsFree (i + 1)) 46 = 44 := by
    have hall := count_isFree 47
    have htwo : (reservedNumbers.filter (· < 47)).length = 2 := by decide
    rw [htwo, Nat.count_succ', if_pos isFree_zero] at hall
    omega
  have hnth : Nat.nth (fun i => IsFree (i + 1)) 44 = 46 := by
    rw [← hcount]
    exact Nat.nth_count hfree
  refine ⟨by decide, by decide, (hat 25 (by decide)).trans hz, (hat 26 (by decide)).trans haa,
    hz ▸ haa ▸ hbefore 25 26 (by decide), by decide, ?_⟩
  rw [hdrawn 44 (by decide), hnth, hau]

/-- Beyond them two indices stand for one word. -/
theorem wordAt_repeated :
    Number.ofNat (2 ^ 53 - 1) ≠ .ofNat (2 ^ 53) ∧ wordAt (.ofNat (2 ^ 53 - 1)) =
      wordAt (.ofNat (2 ^ 53)) := by
  have hindex : (Number.ofNat (2 ^ 53 - 1)).add 1 = (Number.ofNat (2 ^ 53)).add 1 := by
    decide +kernel
  exact ⟨by decide +kernel, by rw [wordAt, wordAt, hindex]⟩

end LazyFrame.Alias
