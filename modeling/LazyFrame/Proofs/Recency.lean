import Mathlib.Data.Finset.Card
import Mathlib.Data.Finset.Image
import Mathlib.Data.List.Nodup
import LazyFrame.Proofs.Number.Whole
import LazyFrame.Recency

/-!
# What a cache keeps

Looking an entry up changes the order of the entries and nothing else (`mem_get`), and setting one
adds it and may drop others (`mem_set`).

How long an entry stays is a matter of what is used after it. `Recent c k others` says that since
the use of `k` only keys among `others` have been used, so the entries newer than that of `k` are
theirs. It holds as soon as `k` is used (`recent_get_self`, `recent_set_self`), and the use of
another key adds this key to the others (`Recent.get`, `Recent.set`). An entry that has become the
oldest goes when there are too many, but then all the others are newer, so there are at least as
many others as the capacity says.
-/

namespace LazyFrame.Recency

variable {κ ν : Type}

/-! ## Entries -/

section Entries

variable [BEq κ] {k : Option κ} {v : Option ν} {e : Option κ × Option ν}
    {entries : List (Option κ × Option ν)}

/-- Taking a key out keeps the keys distinct. -/
theorem nodup_without (h : (entries.map (·.1)).Nodup) : ((without k entries).map (·.1)).Nodup :=
  h.sublist (List.filter_sublist.map _)

variable [LawfulBEq κ]

/-- What is left without a key are the entries under other keys. -/
theorem mem_without : e ∈ without k entries ↔ e ∈ entries ∧ e.1 ≠ k := by simp [without]

/-- An entry under another key stays where it is. -/
theorem without_cons_of_ne {k' : Option κ} (h : k' ≠ k) :
    without k ((k', v) :: entries) = (k', v) :: without k entries :=
  List.filter_cons_of_pos (by simpa using h)

/-- An entry that is put behind the others takes the place of the one with its key. -/
theorem nodup_renewed (h : (entries.map (·.1)).Nodup) :
    ((without k entries ++ [(k, v)]).map (·.1)).Nodup := by
  rw [List.map_append]
  refine (nodup_without h).append (List.nodup_singleton k)
    (List.disjoint_singleton.mpr fun hmem => ?_)
  obtain ⟨e, he, hk⟩ := List.mem_map.mp hmem
  exact (mem_without.mp he).2 hk

end Entries

/-- Evicting takes entries away and reorders none. -/
theorem evicted_sublist (entries : List (Option κ × Option ν)) :
    (evicted entries).Sublist entries := by
  unfold evicted
  split
  · exact List.sublist_cons_self _ _
  · exact List.Sublist.refl _

/-! ## Looking up and setting -/

section Use

variable [BEq κ] {c : Recency κ ν} {k : Option κ} {v : Option ν} {e : Option κ × Option ν}

/-- An entry that is set comes last, and the others keep their order if they stay at all. -/
theorem set_sublist : (c.set k v).entries.Sublist (without k c.entries ++ [(k, v)]) := by
  show (if _ then _ else _ : List _).Sublist _
  split
  · exact evicted_sublist _
  · exact List.Sublist.refl _

variable [LawfulBEq κ]

/-- What is held after an entry was set is that entry or was held under another key. -/
theorem mem_set (h : e ∈ (c.set k v).entries) : e = (k, v) ∨ (e ∈ c.entries ∧ e.1 ≠ k) := by
  rcases List.mem_append.mp (set_sublist.mem h) with he | he
  · exact .inr (mem_without.mp he)
  · exact .inl (List.mem_singleton.mp he)

/-- No key is held twice after an entry was set. -/
theorem nodup_set (hc : c.keys.Nodup) : (c.set k v).keys.Nodup :=
  (nodup_renewed hc).sublist (set_sublist.map _)

/-- A lookup finds no value and changes nothing, or it finds one and moves its entry to the end. -/
theorem get_cases (c : Recency κ ν) (k : Option κ) :
    c.get k = (none, c) ∨
      ∃ v, (k, some v) ∈ c.entries ∧
        c.get k = (some v, { c with entries := without k c.entries ++ [(k, some v)] }) := by
  unfold get
  split
  · rename_i v hfind
    obtain ⟨⟨key, value⟩, he, hvalue⟩ := Option.bind_eq_some_iff.mp hfind
    obtain rfl : key = k := by simpa using List.find?_some he
    obtain rfl : value = some v := hvalue
    exact .inr ⟨v, List.mem_of_find?_eq_some he, rfl⟩
  · exact .inl rfl

/-- A value that a lookup finds is held. -/
theorem mem_of_get_eq_some {v : ν} (h : (c.get k).1 = some v) : (k, some v) ∈ c.entries := by
  obtain hnone | ⟨w, hmem, hsome⟩ := get_cases c k
  · rw [hnone] at h
    cases h
  · rw [hsome] at h
    cases h
    exact hmem

/-- A value that is held is found. -/
theorem get_of_mem (hc : c.keys.Nodup) {v : ν} (h : (k, some v) ∈ c.entries) :
    (c.get k).1 = some v := by
  cases hfind : c.entries.find? (·.1 == k) with
  | none => exact absurd (List.find?_eq_none.mp hfind _ h) (by simp)
  | some found =>
    have hkey : found.1 = k := by simpa using List.find?_some hfind
    obtain rfl := List.inj_on_of_nodup_map hc (List.mem_of_find?_eq_some hfind) h hkey
    simp only [get, hfind, Option.bind_some]

/-- A lookup takes no entry away and adds none. -/
theorem mem_get (hc : c.keys.Nodup) : e ∈ (c.get k).2.entries ↔ e ∈ c.entries := by
  obtain hnone | ⟨v, hmem, hsome⟩ := get_cases c k
  · rw [hnone]
  · rw [hsome, List.mem_append, mem_without, List.mem_singleton]
    constructor
    · rintro (⟨he, _⟩ | rfl)
      · exact he
      · exact hmem
    · intro he
      by_cases hkey : e.1 = k
      · exact .inr (List.inj_on_of_nodup_map hc he hmem hkey)
      · exact .inl ⟨he, hkey⟩

/-- No key is held twice after a lookup. -/
theorem nodup_get (hc : c.keys.Nodup) : (c.get k).2.keys.Nodup := by
  obtain hnone | ⟨v, _, hsome⟩ := get_cases c k
  · rwa [hnone]
  · rw [hsome]
    exact nodup_renewed hc

@[simp] theorem capacity_get : (c.get k).2.capacity = c.capacity := by
  obtain hnone | ⟨v, _, hsome⟩ := get_cases c k
  · rw [hnone]
  · rw [hsome]

end Use

/-! ## How long an entry stays -/

/-- Only keys among the others have been used since the use of a key: its entry is there, and the
newer ones are theirs, unless they are more than the capacity allows for. -/
def Recent (c : Recency κ ν) (k : κ) (others : Finset κ) : Prop :=
  c.capacity.lt (.finite ((others.card + 1 : Nat) : Rat)) = true ∨
    ∃ older v newer, c.entries = older ++ (some k, v) :: newer ∧
      ∀ e ∈ newer, ∃ k' ∈ others, e.1 = some k'

variable {k : κ} {others : Finset κ}

/-- The entry of a key is there, if the capacity allows for it. -/
theorem Recent.lt_or_mem {c : Recency κ ν} (h : Recent c k others) :
    c.capacity.lt (.finite ((others.card + 1 : Nat) : Rat)) = true ∨
    ∃ v, (some k, v) ∈ c.entries := by
  obtain hfull | ⟨older, v, newer, hentries, _⟩ := h
  · exact .inl hfull
  · exact .inr ⟨v, by simp [hentries]⟩

section Eviction

variable [DecidableEq κ]

/-- Newer entries are no more than the keys that they are held under. -/
theorem length_le_card {newer : List (Option κ × Option ν)}
    (hnewer : ∀ e ∈ newer, ∃ k' ∈ others, e.1 = some k') (hnodup : (newer.map (·.1)).Nodup) :
    newer.length ≤ others.card := by
  have hsub : (newer.map (·.1)).toFinset ⊆ others.image some := by
    intro key hkey
    obtain ⟨e, he, rfl⟩ := List.mem_map.mp (List.mem_toFinset.mp hkey)
    obtain ⟨k', hk', heq⟩ := hnewer e he
    exact heq ▸ Finset.mem_image_of_mem some hk'
  calc newer.length = (newer.map (·.1)).toFinset.card := by
        rw [List.toFinset_card_of_nodup hnodup, List.length_map]
    _ ≤ (others.image some).card := Finset.card_le_card hsub
    _ ≤ others.card := Finset.card_image_le

/-- An entry that is not the oldest one stays when there are too many, and the oldest one does so
unless the others alone are as many as the capacity allows for. -/
theorem recent_evicted {capacity : Number} {v : Option ν} {older newer : List (Option κ × Option ν)}
    (hnewer : ∀ e ∈ newer, ∃ k' ∈ others, e.1 = some k') (hnodup : (newer.map (·.1)).Nodup) :
    Recent ⟨capacity, if capacity.lt (.finite (older ++ (some k, v) :: newer).length) then
      evicted (older ++ (some k, v) :: newer) else older ++ (some k, v) :: newer⟩ k others := by
  by_cases hfull : capacity.lt (.finite (older ++ (some k, v) :: newer).length) = true
  · rw [if_pos hfull]
    cases older with
    | nil =>
      refine .inl (Number.lt_finite_mono (Nat.cast_le.mpr ?_) hfull)
      exact Nat.succ_le_succ (length_le_card hnewer hnodup)
    | cons oldest older =>
      obtain ⟨key, value⟩ := oldest
      cases key with
      | none => exact .inr ⟨(none, value) :: older, v, newer, rfl, hnewer⟩
      | some key => exact .inr ⟨older, v, newer, rfl, hnewer⟩
  · rw [if_neg hfull]
    exact .inr ⟨older, v, newer, rfl, hnewer⟩

/-- What leaves no room for some other keys leaves none for one more. -/
theorem lt_card_insert {capacity : Number} (k' : κ)
    (h : capacity.lt (.finite ((others.card + 1 : Nat) : Rat)) = true) :
    capacity.lt (.finite (((insert k' others).card + 1 : Nat) : Rat)) = true :=
  Number.lt_finite_mono
    (Nat.cast_le.mpr (Nat.succ_le_succ (Finset.card_le_card (Finset.subset_insert k' others)))) h

/-- A key is the most recent one when it has been set. -/
theorem recent_set_self [BEq κ] (c : Recency κ ν) (k : κ) (v : Option ν) :
    Recent (c.set (some k) v) k ∅ :=
  recent_evicted (by simp) List.nodup_nil

end Eviction

variable [BEq κ] [LawfulBEq κ] {c : Recency κ ν}

/-- A key is the most recent one when it has been found. -/
theorem recent_get_self {v : ν} (h : (c.get (some k)).1 = some v) :
    Recent (c.get (some k)).2 k ∅ := by
  obtain hnone | ⟨w, _, hsome⟩ := get_cases c (some k)
  · rw [hnone] at h
    cases h
  · rw [hsome]
    exact .inr ⟨_, some w, [], rfl, by simp⟩

/-- Taking a key out around the entry of another one leaves that entry between the rest. -/
theorem without_append_cons {k' : κ} (hne : k ≠ k') {v : Option ν}
    (older newer : List (Option κ × Option ν)) :
    without (some k') (older ++ (some k, v) :: newer) =
      without (some k') older ++ (some k, v) :: without (some k') newer := by
  rw [without, List.filter_append]
  exact congrArg _ (without_cons_of_ne (by simpa using hne))

variable [DecidableEq κ]

/-- The entries newer than that of a key, after the use of another one. -/
theorem newer_renewed {k' : κ} {v' : Option ν} {newer : List (Option κ × Option ν)}
    (hnewer : ∀ e ∈ newer, ∃ k'' ∈ others, e.1 = some k'') :
    ∀ e ∈ without (some k') newer ++ [(some k', v')], ∃ k'' ∈ insert k' others, e.1 = some k'' := by
  intro e he
  rcases List.mem_append.mp he with he | he
  · obtain ⟨k'', hk'', heq⟩ := hnewer e (mem_without.mp he).1
    exact ⟨k'', Finset.mem_insert_of_mem hk'', heq⟩
  · exact ⟨k', Finset.mem_insert_self k' others, by rw [List.mem_singleton.mp he]⟩

/-- After a lookup of another key, there is at most that key more behind an entry. -/
theorem Recent.get (h : Recent c k others) {k' : κ} (hne : k ≠ k') :
    Recent (c.get (some k')).2 k (insert k' others) := by
  obtain hfull | ⟨older, v, newer, hentries, hnewer⟩ := h
  · exact .inl (capacity_get (c := c) ▸ lt_card_insert k' hfull)
  · obtain hnone | ⟨v', _, hsome⟩ := get_cases c (some k')
    · rw [hnone]
      refine .inr ⟨older, v, newer, hentries, fun e he => ?_⟩
      obtain ⟨k'', hk'', heq⟩ := hnewer e he
      exact ⟨k'', Finset.mem_insert_of_mem hk'', heq⟩
    · refine .inr ⟨without (some k') older, v, without (some k') newer ++ [(some k', some v')], ?_,
        newer_renewed hnewer⟩
      rw [hsome, hentries, without_append_cons hne, List.append_assoc]
      rfl

/-- After another key was set, there is at most that key more behind an entry. -/
theorem Recent.set (h : Recent c k others) (hc : c.keys.Nodup) {k' : κ} (hne : k ≠ k')
    (v' : Option ν) : Recent (c.set (some k') v') k (insert k' others) := by
  obtain hfull | ⟨older, v, newer, hentries, hnewer⟩ := h
  · exact .inl (lt_card_insert k' hfull)
  · have hnodup : (newer.map (·.1)).Nodup := by
      rw [keys, hentries] at hc
      exact hc.sublist
        (List.Sublist.map _ ((List.sublist_cons_self _ _).trans (List.sublist_append_right _ _)))
    have hnewer' : ∀ e ∈ without (some k') newer ++ [(some k', v')], ∃ k'' ∈ insert k' others,
        e.1 = some k'' :=
      newer_renewed hnewer
    rw [Recency.set, hentries, without_append_cons hne, List.append_assoc]
    exact recent_evicted hnewer' (nodup_renewed hnodup)

end LazyFrame.Recency
