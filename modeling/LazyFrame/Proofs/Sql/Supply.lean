import Mathlib.Data.List.Lattice
import Mathlib.Data.Nat.Count
import LazyFrame.Proofs.Sql.Scope

/-!
# Which words are drawn

Every word of small letters has exactly one number (`Alias.number_wordChars`,
`Alias.wordChars_number`), so the reserved words are finitely many numbers among all
(`Alias.reservedNumbers`), and the search for the next alias comes to an end before it has looked at
all of them (`Alias.isFree_next`). What is drawn from a number on are the words that are free,
without a gap (`Alias.mem_take_iff`).

So the words in front of a free word can be counted: it is among the first aliases exactly if there
are not as many in front of it (`Alias.word_mem_take_iff`), and how many there are is its number
less the reserved ones below it (`Alias.count_isFree`).
-/

namespace LazyFrame.Alias

/-! ## Words and their numbers -/

/-- The number of a word: its letters are digits from one to twenty-six. -/
def number (cs : List Char) : Nat := cs.foldl (fun n c => n * 26 + (c.toNat - 96)) 0

/-- One more letter counts for 26 times what was before. -/
theorem number_concat (cs : List Char) (c : Char) :
    number (cs ++ [c]) = number cs * 26 + (c.toNat - 96) := by
  rw [number, List.foldl_append]
  rfl

theorem toNat_letter {n : Nat} (h : n < 26) : (letter n).toNat = 97 + n := by
  have hall : ∀ i : Fin 26, (letter i).toNat = 97 + i := by decide
  exact hall ⟨n, h⟩

/-- The number of a word is the one it has. -/
theorem number_wordChars (n : Nat) : number (wordChars n) = n := by
  induction n using Nat.strongRecOn with
  | ind n ih =>
    cases n with
    | zero => rw [wordChars, number, List.foldl_nil]
    | succ n =>
      rw [wordChars, number_concat, ih (n / 26) (Nat.lt_succ_of_le (Nat.div_le_self n 26)),
        toNat_letter (Nat.mod_lt _ (by decide))]
      omega

/-- A letter is in lower case exactly if its code is one of 26. -/
theorem isLower_iff {c : Char} : c.isLower = true ↔ 97 ≤ c.toNat ∧ c.toNat ≤ 122 := by
  have heq : c.isLower = (decide (97 ≤ c.val) && decide (c.val ≤ 122)) := rfl
  rw [heq, Bool.and_eq_true, decide_eq_true_iff, decide_eq_true_iff, UInt32.le_iff_toNat_le,
    UInt32.le_iff_toNat_le]
  rfl

/-- Every word of small letters has a number. -/
theorem wordChars_number {cs : List Char} (h : ∀ c ∈ cs, c.isLower = true) :
    wordChars (number cs) = cs := by
  induction cs using List.reverseRecOn with
  | nil => rw [number, List.foldl_nil, wordChars]
  | append_singleton cs c ih =>
    have hc : c.isLower = true := h c (List.mem_append_right _ (List.mem_singleton_self c))
    have hrange := isLower_iff.mp hc
    have hnumber : number (cs ++ [c]) = number cs * 26 + (c.toNat - 97) + 1 := by
      rw [number_concat]
      omega
    have hletter : letter (c.toNat - 97) = c := by
      rw [letter, Nat.add_sub_cancel' hrange.1, Char.ofNat_toNat]
    rw [hnumber, wordChars]
    have hq : (number cs * 26 + (c.toNat - 97)) / 26 = number cs := by omega
    have hr : (number cs * 26 + (c.toNat - 97)) % 26 = c.toNat - 97 := by omega
    rw [hq, hr, hletter, ih fun e he => h e (List.mem_append_left _ he)]

/-! ## Reserved words -/

/-- The word with this number is an alias. -/
def IsFree (n : Nat) : Prop := word n ∉ reserved

instance (n : Nat) : Decidable (IsFree n) := inferInstanceAs (Decidable (¬_))

/-- The numbers of the reserved words. -/
def reservedNumbers : List Nat := reserved.map fun w => number w.toList

/-- A word has the number that its letters count for. -/
theorem word_eq_iff {n : Nat} {w : String} (h : w.toList.all Char.isLower = true) :
    word n = w ↔ n = number w.toList := by
  constructor
  · rintro rfl
    rw [word, String.toList_ofList, number_wordChars]
  · rintro rfl
    rw [word, wordChars_number (List.all_eq_true.mp h), String.ofList_toList]

/-- A number is not free exactly if its word is reserved. -/
theorem not_isFree_iff {n : Nat} : ¬IsFree n ↔ n ∈ reservedNumbers := by
  have hlower : ∀ w ∈ reserved, w.toList.all Char.isLower = true := by decide
  rw [IsFree, not_not, reservedNumbers, List.mem_map]
  constructor
  · intro h
    exact ⟨word n, h, by rw [word, String.toList_ofList, number_wordChars]⟩
  · rintro ⟨w, hw, rfl⟩
    rwa [(word_eq_iff (hlower w hw)).mpr rfl]

theorem isFree_zero : IsFree 0 := not_not.mp fun h => absurd (not_isFree_iff.mp h) (by decide)

/-- Only reserved words are skipped. -/
theorem not_isFree_of_lt_skipReserved {fuel n m : Nat} (hle : n ≤ m)
    (hlt : m < skipReserved fuel n) : ¬IsFree m := by
  induction fuel generalizing n with
  | zero => exact absurd hlt (Nat.not_lt.mpr hle)
  | succ fuel ih =>
    unfold skipReserved at hlt
    split at hlt
    · rcases hle.eq_or_lt with rfl | hless
      · simpa [IsFree] using ‹reserved.contains (word n) = true›
      · exact ih hless hlt
    · exact absurd hlt (Nat.not_lt.mpr hle)

/-- The search stops at an alias unless it comes to the end of what it may look at. -/
theorem isFree_skipReserved {fuel n : Nat} (hlt : skipReserved fuel n < n + fuel) :
    IsFree (skipReserved fuel n) := by
  induction fuel generalizing n with
  | zero => exact absurd hlt (Nat.not_lt.mpr (le_skipReserved 0 n))
  | succ fuel ih =>
    unfold skipReserved at hlt ⊢
    split
    · rename_i hreserved
      rw [if_pos hreserved] at hlt
      exact ih (by omega)
    · simpa [IsFree] using ‹¬reserved.contains (word n) = true›

/-- Skipping goes no further than its fuel. -/
theorem skipReserved_le (fuel n : Nat) : skipReserved fuel n ≤ n + fuel := by
  induction fuel generalizing n with
  | zero => exact Nat.le_refl n
  | succ fuel ih =>
    unfold skipReserved
    split
    · have := ih (n + 1)
      omega
    · omega

/-- There are not enough reserved words for a search without end. -/
theorem isFree_next (n : Nat) : IsFree (next n) := by
  by_contra hnot
  have hend : next n = n + reserved.length := by
    refine Nat.le_antisymm (skipReserved_le _ n)
      (Nat.not_lt.mp fun hlt => hnot (isFree_skipReserved hlt))
  -- all numbers from `n` up to this one would be reserved, and that is one too many
  have hall : List.range' n (reserved.length + 1) ⊆ reservedNumbers := by
    intro m hm
    rw [List.mem_range'_1] at hm
    refine not_isFree_iff.mp ?_
    rcases (Nat.lt_succ_iff.mp (Nat.add_succ n _ ▸ hm.2)).eq_or_lt with rfl | hless
    · rwa [← hend]
    · exact not_isFree_of_lt_skipReserved hm.1 (hend ▸ hless)
  have hnodup : (List.range' n (reserved.length + 1)).Nodup := List.nodup_range'
  have hlength := (hnodup.subperm hall).length_le
  rw [List.length_range', reservedNumbers, List.length_map] at hlength
  omega

/-! ## Aliases in order -/

variable {n m count : Nat}

/-- The next alias is the first free one. -/
theorem le_of_isFree (hfree : IsFree m) (hle : n ≤ m) : next n ≤ m :=
  Nat.not_lt.mp fun hlt => not_isFree_of_lt_skipReserved hle hlt hfree

/-- There is one more free number up to the next alias. -/
theorem count_next (n : Nat) : Nat.count IsFree (next n + 1) = Nat.count IsFree n + 1 := by
  rw [Nat.count_succ, if_pos (isFree_next n), Nat.add_left_inj]
  obtain ⟨k, hk⟩ := Nat.le.dest (le_next n)
  rw [← hk, Nat.count_add, Nat.add_eq_left, Nat.count_iff_forall_not]
  exact fun i hi =>
    not_isFree_of_lt_skipReserved (Nat.le_add_right n i) (show n + i < next n by omega)

/-- One alias after the other is counted. -/
theorem count_advance (count n : Nat) :
    Nat.count IsFree (advance count n) = Nat.count IsFree n + count := by
  induction count generalizing n with
  | zero => rfl
  | succ count ih =>
    rw [advance, ih, count_next]
    omega

/-- The aliases that are taken are the words of the free numbers in between. -/
theorem mem_take_iff {w : String} :
    w ∈ take count n ↔ ∃ m, n ≤ m ∧ m < advance count n ∧ IsFree m ∧ w = word m := by
  induction count generalizing n with
  | zero =>
    simp only [take, advance, List.not_mem_nil, false_iff, not_exists]
    omega
  | succ count ih =>
    rw [take, List.mem_cons, ih, advance]
    have hnext := le_next n
    have hrest := le_advance count (next n + 1)
    constructor
    · rintro (rfl | ⟨m, hle, hlt, hfree, rfl⟩)
      · exact ⟨next n, hnext, by omega, isFree_next n, rfl⟩
      · exact ⟨m, by omega, hlt, hfree, rfl⟩
    · rintro ⟨m, hle, hlt, hfree, rfl⟩
      rcases (le_of_isFree hfree hle).eq_or_lt with rfl | hless
      · exact .inl rfl
      · exact .inr ⟨m, hless, hlt, hfree, rfl⟩

/-- A word is among the first aliases if there are not as many in front of it. -/
theorem word_mem_take_iff (hfree : IsFree m) (hpos : 0 < m) :
    word m ∈ take count 1 ↔ Nat.count IsFree m ≤ count := by
  have hone : Nat.count IsFree 1 = 1 := by rw [Nat.count_one, if_pos isFree_zero]
  have hcount := count_advance count 1
  rw [mem_take_iff]
  constructor
  · rintro ⟨k, _, hlt, _, hword⟩
    obtain rfl := word_inj hword
    have := Nat.count_strict_mono hfree hlt
    omega
  · intro hle
    refine ⟨m, hpos, Nat.not_le.mp fun hge => ?_, hfree, rfl⟩
    have := Nat.count_monotone IsFree hge
    omega

/-- The numbers that are not counted are those of reserved words. -/
theorem count_isFree (n : Nat) :
    Nat.count IsFree n + (reservedNumbers.filter (· < n)).length = n := by
  have hreserved : (Finset.range n).filter (fun m => ¬IsFree m) =
      (reservedNumbers.filter (· < n)).toFinset := by
    ext m
    simp only [Finset.mem_filter, Finset.mem_range, not_isFree_iff, List.mem_toFinset,
      List.mem_filter, decide_eq_true_iff]
    exact and_comm
  have hnodup : reservedNumbers.Nodup := by decide
  rw [Nat.count_eq_card_filter_range, ← List.toFinset_card_of_nodup (hnodup.filter _), ← hreserved,
    Finset.card_filter_add_card_filter_not, Finset.card_range]

end LazyFrame.Alias
