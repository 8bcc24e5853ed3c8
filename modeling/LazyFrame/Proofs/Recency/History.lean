import LazyFrame.Proofs.Recency

/-!
# What a history leaves in a cache

A use touches a key when it sets it, and when it looks it up and finds it. What a history of uses
leaves in an empty cache is told by the touches alone: the keys are those that were touched last, in
the order of their last touch and as many as the capacity says (`Holds.keys`), each with the value
that was set for it last (`Holds.values`).

Put the keys in that order, the newest in front (`order`). A touch moves its key to the front, and
the front of the list that fits in is what the cache has, whether the key was in it before or not
(`take_moved`). In front of a key are the keys that were touched since (`toFinset_takeWhile_order`),
so it is still there exactly if these are fewer than the capacity says.
-/

namespace LazyFrame.Recency

variable {κ ν : Type}

/-! ## Histories -/

/-- One use of a cache. Key and value are there. -/
inductive Use (κ ν : Type) where
  | get (k : κ)
  | set (k : κ) (v : ν)
  deriving DecidableEq

section Histories

variable [BEq κ]

/-- The cache after one use. -/
def use (c : Recency κ ν) : Use κ ν → Recency κ ν
  | .get k => (c.get (some k)).2
  | .set k v => c.set (some k) (some v)

/-- The cache after uses one after the other. -/
def after (c : Recency κ ν) (uses : List (Use κ ν)) : Recency κ ν := uses.foldl use c

/-- The key that a use touches, if it touches one. -/
def touched? (c : Recency κ ν) : Use κ ν → Option κ
  | .get k => if (c.get (some k)).1.isSome then some k else none
  | .set k _ => some k

/-- The keys that uses touch one after the other. -/
def touches (c : Recency κ ν) : List (Use κ ν) → List κ
  | [] => []
  | u :: rest => (c.touched? u).toList ++ (c.use u).touches rest

/-- The last use comes on top of those before. -/
theorem after_concat (c : Recency κ ν) (uses : List (Use κ ν)) (u : Use κ ν) :
    c.after (uses ++ [u]) = (c.after uses).use u := by
  rw [after, List.foldl_append]
  rfl

/-- The last use touches what it touches then. -/
theorem touches_concat (c : Recency κ ν) (uses : List (Use κ ν)) (u : Use κ ν) :
    c.touches (uses ++ [u]) = c.touches uses ++ ((c.after uses).touched? u).toList := by
  induction uses generalizing c with
  | nil => exact List.append_nil _
  | cons first rest ih =>
    rw [List.cons_append, touches, ih, touches, List.append_assoc]
    rfl

end Histories

variable [DecidableEq κ]

/-- The value that a use sets for a key. -/
def Use.value? (k : κ) : Use κ ν → Option ν
  | .get _ => none
  | .set k' v => if k' = k then some v else none

/-- The value that was set last for a key. -/
def lastSet? (k : κ) (uses : List (Use κ ν)) : Option ν := uses.reverse.findSome? (Use.value? k)

/-- The other keys that were touched after the last touch of a key. -/
def othersSince (k : κ) (touches : List κ) : Finset κ :=
  (touches.reverse.takeWhile (· ≠ k)).toFinset

/-- What was last set under a key is decided by the last use, or else before it. -/
theorem lastSet?_concat (k : κ) (uses : List (Use κ ν)) (u : Use κ ν) :
    lastSet? k (uses ++ [u]) = (u.value? k).or (lastSet? k uses) := by
  rw [lastSet?, List.reverse_concat, List.findSome?_cons]
  cases u.value? k <;> rfl

/-! ## The order of the last touches -/

/-- The keys in the order of their last touch, the newest in front. -/
def order (touches : List κ) : List κ := touches.foldl (fun keys k => k :: keys.filter (· ≠ k)) []

/-- A key that is touched moves to the front of the order. -/
theorem order_concat (touches : List κ) (k : κ) :
    order (touches ++ [k]) = k :: (order touches).filter (· ≠ k) := by
  rw [order, List.foldl_append]
  rfl

/-- A key is in the order exactly if it was touched. -/
theorem mem_order {touches : List κ} {k : κ} : k ∈ order touches ↔ k ∈ touches := by
  induction touches using List.reverseRecOn with
  | nil => exact Iff.rfl
  | append_singleton rest last ih =>
    rw [order_concat, List.mem_cons, List.mem_filter, ih, decide_eq_true_iff, List.mem_append,
      List.mem_singleton]
    tauto

/-- No key is twice in the order. -/
theorem nodup_order (touches : List κ) : (order touches).Nodup := by
  induction touches using List.reverseRecOn with
  | nil => exact List.nodup_nil
  | append_singleton rest last ih =>
    rw [order_concat]
    exact List.nodup_cons.mpr ⟨by simp, ih.filter _⟩

/-- Taking another key out takes it out from in front of a key. -/
theorem takeWhile_filter_of_ne {k other : κ} (h : other ≠ k) (keys : List κ) :
    (keys.filter (· ≠ other)).takeWhile (· ≠ k) = (keys.takeWhile (· ≠ k)).filter (· ≠ other) := by
  induction keys with
  | nil => rfl
  | cons first rest ih =>
    by_cases hk : first = k
    · have hne : first ≠ other := fun hsame => h (hsame ▸ hk)
      simp [hk, h.symm]
    · by_cases hother : first = other
      · simpa [hk, hother, h] using ih
      · simpa [hk, hother] using ih

/-- In front of a key are those that were touched since. -/
theorem toFinset_takeWhile_order (k : κ) (touches : List κ) :
    ((order touches).takeWhile (· ≠ k)).toFinset = othersSince k touches := by
  induction touches using List.reverseRecOn with
  | nil => rfl
  | append_singleton rest last ih =>
    rw [othersSince, List.reverse_concat, order_concat]
    by_cases hlast : last = k
    · simp [hlast]
    · have hfront : (last :: (order rest).filter (· ≠ last)).takeWhile (· ≠ k) =
          last :: ((order rest).takeWhile (· ≠ k)).filter (· ≠ last) := by
        rw [List.takeWhile_cons_of_pos (by simpa using hlast), takeWhile_filter_of_ne hlast]
      have hsince : (last :: rest.reverse).takeWhile (· ≠ k) =
          last :: rest.reverse.takeWhile (· ≠ k) :=
        List.takeWhile_cons_of_pos (by simpa using hlast)
      rw [hfront, hsince, List.toFinset_cons, List.toFinset_cons, ← othersSince, ← ih]
      ext key
      simp only [Finset.mem_insert, List.mem_toFinset, List.mem_filter, decide_eq_true_iff]
      tauto

/-- A key is among the first ones exactly if it is in the list with fewer in front of it. -/
theorem mem_take_iff_of_nodup {keys : List κ} (hnodup : keys.Nodup) {k : κ} {n : Nat} :
    k ∈ keys.take n ↔ k ∈ keys ∧ (keys.takeWhile (· ≠ k)).length < n := by
  induction keys generalizing n with
  | nil => simp
  | cons first rest ih =>
    obtain ⟨hfirst, hrest⟩ := List.nodup_cons.mp hnodup
    cases n with
    | zero => simp
    | succ n =>
      by_cases hk : first = k
      · simp [hk]
      · simp [hk, Ne.symm hk, ih hrest]

/-- A key is among the first ones exactly if it was touched and fewer others were touched since. -/
theorem mem_take_order {touches : List κ} {k : κ} {n : Nat} :
    k ∈ (order touches).take n ↔ k ∈ touches ∧ (othersSince k touches).card < n := by
  have hnodup : ((order touches).takeWhile (· ≠ k)).Nodup :=
    (nodup_order touches).sublist (List.takeWhile_sublist _)
  rw [mem_take_iff_of_nodup (nodup_order touches), mem_order, ← List.toFinset_card_of_nodup hnodup,
    toFinset_takeWhile_order]

/-- What of a list comes first when a key is moved to the front does not hang on what stood behind
it. -/
theorem take_moved {keys : List κ} (hnodup : keys.Nodup) (k : κ) (n : Nat) :
    (k :: (keys.take n).filter (· ≠ k)).take n = (k :: keys.filter (· ≠ k)).take n := by
  cases n with
  | zero => rfl
  | succ n =>
    rw [List.take_succ_cons, List.take_succ_cons]
    refine congrArg (k :: ·) ?_
    conv_rhs => rw [← List.take_append_drop (n + 1) keys, List.filter_append, List.take_append]
    -- either nothing is behind, or what is in front is enough although one may be missing
    rcases Nat.le_total keys.length (n + 1) with hshort | hlong
    · rw [List.drop_eq_nil_of_le hshort, List.filter_nil, List.take_nil, List.append_nil]
    · have herase : ((keys.take (n + 1)).erase k) = (keys.take (n + 1)).filter (· ≠ k) := by
        rw [(hnodup.sublist (List.take_sublist _ _)).erase_eq_filter]
        exact List.filter_congr fun key _ => by simp [bne, beq_eq_decide]
      have henough : n ≤ ((keys.take (n + 1)).filter (· ≠ k)).length := by
        have := List.le_length_erase (a := k) (l := keys.take (n + 1))
        rw [herase, List.length_take, Nat.min_eq_left hlong] at this
        exact this
      rw [Nat.sub_eq_zero_of_le henough, List.take_zero, List.append_nil]

/-! ## The cache after a history -/

omit [DecidableEq κ] in
/-- Where every entry has a key, the first entry is the one to go. -/
theorem evicted_eq_tail {entries : List (Option κ × Option ν)}
    (h : ∀ e ∈ entries, e.1.isSome = true) : evicted entries = entries.tail := by
  cases entries with
  | nil => rfl
  | cons first rest =>
    obtain ⟨key, value⟩ := first
    obtain ⟨k, rfl⟩ := Option.isSome_iff_exists.mp (h (key, value) (List.mem_cons_self ..))
    rfl

omit [DecidableEq κ] in
/-- With at most one entry too many, those that stay are the newest that fit in. -/
theorem keys_kept {z : Int} {capacity : Number} (hcapacity : capacity.toRat? = some (z : Rat))
    {entries : List (Option κ × Option ν)} (hsome : ∀ e ∈ entries, e.1.isSome = true)
    (hne : entries ≠ []) (hfew : entries.length ≤ z.toNat + 1) :
    ((if capacity.lt (.finite entries.length) then evicted entries else entries).map
      (·.1)).reverse = (entries.map (·.1)).reverse.take z.toNat := by
  have hone : 1 ≤ entries.length := List.length_pos_iff.mpr hne
  have hlength : ((entries.map (·.1)).reverse).length = entries.length := by
    rw [List.length_reverse, List.length_map]
  rw [Number.lt_of_toRat? hcapacity rfl]
  by_cases hfull : (z : Rat) < (entries.length : Rat)
  · have hmany : z < (entries.length : Int) := by exact_mod_cast hfull
    rw [if_pos (decide_eq_true hfull), evicted_eq_tail hsome, List.map_tail,
      ← List.dropLast_reverse, List.dropLast_eq_take, hlength]
    exact congrArg (List.take · _) (by omega)
  · have hroom : ¬z < (entries.length : Int) := fun hmany => hfull (by exact_mod_cast hmany)
    rw [if_neg (by simpa using hfull), List.take_of_length_le (by omega)]

/-- What a cache holds of a history that touched these keys: those that were touched last, as many
as the capacity says, and for each the value that was set last. -/
structure Holds (z : Int) (touches : List κ) (uses : List (Use κ ν)) (c : Recency κ ν) : Prop where
  capacity : c.capacity.toRat? = some (z : Rat)
  keys : c.keys.reverse = ((order touches).take z.toNat).map some
  values : ∀ e ∈ c.entries, ∃ k v, e = (some k, some v) ∧ lastSet? k uses = some v
  touched : ∀ k v, lastSet? k uses = some v → k ∈ touches

namespace Holds

variable {z : Int} {touches : List κ} {uses : List (Use κ ν)} {c : Recency κ ν}

/-- Nothing holds before any use. -/
theorem empty {capacity : Number} (h : capacity.toRat? = some (z : Rat)) :
    Holds z [] [] (Recency.empty capacity : Recency κ ν) where
  capacity := h
  keys := by rw [order, List.foldl_nil, List.take_nil]; rfl
  values := fun _ he => by cases he
  touched := fun _ _ h => by cases h

/-- No key is held twice. -/
theorem nodup (h : Holds z touches uses c) : c.keys.Nodup := by
  rw [← List.nodup_reverse, h.keys]
  exact ((nodup_order touches).sublist (List.take_sublist _ _)).map (Option.some_injective κ)

/-- There are never more entries than the capacity allows. -/
theorem length_le (h : Holds z touches uses c) : c.entries.length ≤ z.toNat := by
  calc c.entries.length = c.keys.reverse.length := by
        rw [List.length_reverse, Recency.keys, List.length_map]
    _ ≤ z.toNat := by
      rw [h.keys, List.length_map]
      exact List.length_take_le ..

/-- A key is held exactly if it was touched, and fewer others since than the capacity. -/
theorem mem_keys (h : Holds z touches uses c) {k : κ} :
    some k ∈ c.keys ↔ k ∈ touches ∧ (othersSince k touches).card < z.toNat := by
  rw [← List.mem_reverse, h.keys, List.mem_map_of_injective (Option.some_injective κ),
    mem_take_order]

variable [BEq κ] [LawfulBEq κ]

/-- The keys when one of them has become the newest and nothing has been dropped. -/
theorem keys_renewed (h : Holds z touches uses c) (k : κ) (v : Option ν) :
    ((without (some k) c.entries ++ [(some k, v)]).map (·.1)).reverse =
      (k :: ((order touches).take z.toNat).filter (· ≠ k)).map some := by
  have hwithout : (without (some k) c.entries).map (·.1) = c.keys.filter fun key =>
      !(key == some k) := by
    rw [Recency.keys, List.filter_map]
    rfl
  rw [List.map_append, List.map_singleton, List.reverse_concat, hwithout,
    ← List.filter_reverse, h.keys, List.filter_map, List.map_cons]
  exact congrArg _ (congrArg _ (List.filter_congr fun key _ => by simp [beq_eq_decide]))

/-- A key that is found becomes the newest, and there is room for all since it was there before. -/
theorem keys_get (h : Holds z touches uses c) (k : κ) :
    (c.use (.get k)).keys.reverse =
      ((order (touches ++ (c.touched? (.get k : Use κ ν)).toList)).take z.toNat).map some := by
  obtain hnone | ⟨v, hmem, hsome⟩ := get_cases c (some k)
  · have huse : c.use (.get k) = c := congrArg Prod.snd hnone
    have htouched : c.touched? (.get k : Use κ ν) = none := by rw [touched?, hnone]; rfl
    rw [huse, htouched, Option.toList_none, List.append_nil, h.keys]
  · have huse : c.use (.get k) = ⟨c.capacity, without (some k) c.entries ++ [(some k, some v)]⟩ :=
      congrArg Prod.snd hsome
    have htouched : c.touched? (.get k : Use κ ν) = some k := by rw [touched?, hsome]; rfl
    have hfound : k ∈ (order touches).take z.toNat :=
      mem_take_order.mpr (h.mem_keys.mp (List.mem_map_of_mem (f := (·.1)) hmem))
    have hroom : (k :: ((order touches).take z.toNat).filter (· ≠ k)).length ≤ z.toNat := by
      have hless : (((order touches).take z.toNat).filter (· ≠ k)).length <
          ((order touches).take z.toNat).length :=
        List.length_filter_lt_length_iff_exists.mpr ⟨k, hfound, by simp⟩
      exact Nat.le_trans hless (List.length_take_le ..)
    rw [huse, htouched, Option.toList_some, Recency.keys, h.keys_renewed, order_concat,
      ← take_moved (nodup_order touches), List.take_of_length_le hroom]

/-- Looking a key up changes the order at most. -/
theorem get (h : Holds z touches uses c) (k : κ) :
    Holds z (touches ++ (c.touched? (.get k : Use κ ν)).toList) (uses ++ [.get k])
      (c.use (.get k)) := by
  have hlast : ∀ k', lastSet? k' (uses ++ [.get k]) = lastSet? k' uses :=
    fun k' => lastSet?_concat k' uses _
  refine ⟨?_, h.keys_get k, fun e he => ?_, fun k' v hset => ?_⟩
  · rw [Recency.use, capacity_get, h.capacity]
  · obtain ⟨k', v, hsame, hset⟩ := h.values e ((mem_get h.nodup).mp he)
    exact ⟨k', v, hsame, (hlast k').trans hset⟩
  · exact List.mem_append_left _ (h.touched k' v ((hlast k').symm.trans hset))

/-- What is dropped when there are too many is what does not fit in. -/
theorem keys_set (h : Holds z touches uses c) (k : κ) (v : ν) :
    (c.set (some k) (some v)).keys.reverse = ((order (touches ++ [k])).take z.toNat).map some := by
  have hsome : ∀ e ∈ without (some k) c.entries ++ [(some k, some v)], e.1.isSome = true := by
    intro e he
    rcases List.mem_append.mp he with he | he
    · obtain ⟨k', v', rfl, _⟩ := h.values e (mem_without.mp he).1
      rfl
    · rw [List.mem_singleton.mp he]
      rfl
  have hfew : (without (some k) c.entries ++ [(some k, some v)]).length ≤ z.toNat + 1 := by
    rw [List.length_append, List.length_singleton]
    exact Nat.succ_le_succ (Nat.le_trans (List.length_filter_le ..) h.length_le)
  calc (c.set (some k) (some v)).keys.reverse
      = ((without (some k) c.entries ++ [(some k, some v)]).map (·.1)).reverse.take z.toNat :=
        keys_kept h.capacity hsome (List.append_ne_nil_of_right_ne_nil _ nofun) hfew
    _ = ((k :: ((order touches).take z.toNat).filter (· ≠ k)).take z.toNat).map some := by
        rw [h.keys_renewed, List.map_take]
    _ = ((order (touches ++ [k])).take z.toNat).map some := by
      rw [take_moved (nodup_order touches), order_concat]

/-- A key that is set becomes the newest, and the oldest goes if there are too many. -/
theorem set (h : Holds z touches uses c) (k : κ) (v : ν) :
    Holds z (touches ++ [k]) (uses ++ [.set k v]) (c.use (.set k v)) := by
  have hlast : ∀ k', lastSet? k' (uses ++ [.set k v]) = if k =
      k' then some v else lastSet? k' uses := by
    intro k'
    rw [lastSet?_concat, Use.value?]
    split <;> rfl
  refine ⟨h.capacity, h.keys_set k v, fun e he => ?_, fun k' v' hset => ?_⟩
  · rcases mem_set he with rfl | ⟨hold, hne⟩
    · exact ⟨k, v, rfl, by rw [hlast, if_pos rfl]⟩
    · obtain ⟨k', v', rfl, hset⟩ := h.values e hold
      exact ⟨k', v', rfl, by rw [hlast, if_neg fun hsame => hne (congrArg some hsame.symm), hset]⟩
  · rw [hlast] at hset
    split at hset
    · rename_i hsame
      exact List.mem_append_right _ (List.mem_singleton.mpr hsame.symm)
    · exact List.mem_append_left _ (h.touched k' v' hset)

/-- What holds after some uses holds after one more. -/
theorem use (h : Holds z touches uses c) (u : Use κ ν) :
    Holds z (touches ++ (c.touched? u).toList) (uses ++ [u]) (c.use u) := by
  cases u with
  | get k => exact h.get k
  | set k v => exact h.set k v

/-- A key is found exactly if it was touched and few enough others were touched since. -/
theorem get_eq (h : Holds z touches uses c) (k : κ) :
    (c.get (some k)).1 = if ((othersSince k touches).card : Int) <
      z then lastSet? k uses else none := by
  by_cases hmem : some k ∈ c.keys
  · obtain ⟨e, he, hkey⟩ := List.mem_map.mp hmem
    obtain ⟨k', v, rfl, hset⟩ := h.values e he
    obtain rfl : k' = k := Option.some.inj hkey
    have hfew := (h.mem_keys.mp hmem).2
    rw [get_of_mem h.nodup he, if_pos (by omega), hset]
  · have hnone : (c.get (some k)).1 = none := by
      by_contra hsome
      obtain ⟨v, hv⟩ := Option.ne_none_iff_exists'.mp hsome
      exact hmem (List.mem_map_of_mem (f := (·.1)) (mem_of_get_eq_some hv))
    rw [hnone]
    split
    · -- few others, so it was never touched
      rename_i hfew
      cases hset : lastSet? k uses with
      | none => rfl
      | some v => exact absurd (h.mem_keys.mpr ⟨h.touched k v hset, by omega⟩) hmem
    · rfl

end Holds

variable [BEq κ] [LawfulBEq κ]

/-- One use after the other keeps what a cache holds true to its history. -/
theorem holds_after {z : Int} {capacity : Number} (h : capacity.toRat? = some (z : Rat))
    (uses : List (Use κ ν)) :
    Holds z ((empty capacity).touches uses) uses ((empty capacity).after uses) := by
  induction uses using List.reverseRecOn with
  | nil => exact .empty h
  | append_singleton rest last ih =>
    rw [touches_concat, after_concat]
    exact ih.use last

/-- After any history a cache has no more entries than its capacity, and a key is found with the
value that was set for it last, exactly if fewer other keys than the capacity says were touched
since its own last touch. -/
theorem recalls_recent {z : Int} {capacity : Number} (h : capacity.toRat? = some (z : Rat))
    (uses : List (Use κ ν)) :
    (((empty capacity).after uses).entries.length : Int) ≤ max z 0 ∧
      ∀ k, (((empty capacity).after uses).get (some k)).1 =
        if ((othersSince k ((empty capacity).touches uses)).card : Int) < z then lastSet? k uses
          else none := by
  have hholds := holds_after h uses
  have hlength := hholds.length_le
  exact ⟨by omega, hholds.get_eq⟩

/-- A key is looked up before a third one is set. -/
def refreshing : List (Use String Nat) := [.set "a" 1, .set "b" 2, .get "a", .set "c" 3]

/-- The key that was looked up stays, and the other one goes. -/
theorem recalls_recent_refreshing :
    (2 : Number).toRat? = some ((2 : Int) : Rat) ∧
    (((empty 2).after refreshing).entries.length : Int) ≤ 2 ∧
      (((empty 2).after refreshing).get (some "a")).1 = some 1 ∧
      (((empty 2).after refreshing).get (some "b")).1 = none := by
  have htwo : (2 : Number).toRat? = some ((2 : Int) : Rat) := by decide +kernel
  obtain ⟨hlength, hget⟩ := recalls_recent htwo refreshing
  exact ⟨htwo, hlength, (hget "a").trans (by decide +kernel), (hget "b").trans (by decide +kernel)⟩

end LazyFrame.Recency
