import LazyFrame.Number.Basic

/-!
# A cache that forgets the oldest

A `Recency` cache holds entries from the oldest to the newest. Looking an entry up makes it the
newest, and so does setting it; when setting leaves more entries than the capacity, the oldest one
goes.

Keys and values may be absent (`none`). An absent value that is looked up is not renewed, since it
looks like no entry at all, and an absent key that has become the oldest is not removed, since it
looks like no oldest entry.
-/

namespace LazyFrame

/-- Entries from the oldest to the newest. -/
structure Recency (κ ν : Type) where
  capacity : Number
  entries : List (Option κ × Option ν)
  deriving Inhabited

namespace Recency

variable {κ ν : Type} [BEq κ]

/-- A cache without entries. -/
def empty (capacity : Number) : Recency κ ν := ⟨capacity, []⟩

/-- The keys from the oldest to the newest. -/
def keys (c : Recency κ ν) : List (Option κ) := c.entries.map (·.1)

/-- The entries without that of a key. -/
def without (k : Option κ) (entries : List (Option κ × Option ν)) : List (Option κ × Option ν) :=
  entries.filter fun entry => !(entry.1 == k)

/-- The entries after the oldest one is gone. -/
def evicted (entries : List (Option κ × Option ν)) : List (Option κ × Option ν) :=
  match entries with
  | (some _, _) :: rest => rest
  | other => other

/-- The value of a key, and the cache with that entry as the newest. -/
def get (c : Recency κ ν) (k : Option κ) : Option ν × Recency κ ν :=
  match (c.entries.find? (·.1 == k)).bind (·.2) with
  | some v => (some v, { c with entries := without k c.entries ++ [(k, some v)] })
  | none => (none, c)

/-- Sets the value of a key as the newest entry; the oldest one goes if there are too many. -/
def set (c : Recency κ ν) (k : Option κ) (v : Option ν) : Recency κ ν :=
  let entries := without k c.entries ++ [(k, v)]
  { c with entries := if c.capacity.lt (.finite entries.length) then evicted entries else entries }

end Recency

end LazyFrame
