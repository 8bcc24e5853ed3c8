import LazyFrame.Frame.Basic

/-!
# Results that are fetched once

A frame remembers its rows and its row count. A `Slot` keeps one of them: nobody has asked yet, a
fetch is under way and so many callers wait for it, or the value is held. A call starts a fetch only
when nobody has asked; a call that comes while a fetch is under way waits for the same answer. A
success stays for good, and a failure leaves the slot as if nobody had asked. Rows and count are
kept in slots of their own and do not know of each other.
-/

namespace LazyFrame

/-- A result that is fetched at most once. -/
inductive Slot (α : Type) where
  | idle
  | running (waiting : Nat)
  | held (value : α)
  deriving Inhabited

/-- What a call gets: it starts a fetch, it waits for the one under way, or it is answered at
once. -/
inductive Reaction (α : Type) where
  | starts
  | waits
  | answered (value : α)

namespace Reaction

variable {α : Type}

/-- Whether a call started a fetch. -/
def isStart : Reaction α → Bool
  | .starts => true
  | _ => false

/-- What a call gets in the end, when `outcome` is the answer of the fetch. -/
def outcome (outcome : Attempt α) : Reaction α → Attempt α
  | .answered value => .ok value
  | _ => outcome

/-- What calls get that found a held value; others get nothing. -/
def immediate : Reaction α → Option (Attempt α)
  | .answered value => some (.ok value)
  | _ => none

end Reaction

namespace Slot

variable {α : Type}

/-- A call. -/
def call : Slot α → Slot α × Reaction α
  | idle => (running 1, .starts)
  | running waiting => (running (waiting + 1), .waits)
  | held value => (held value, .answered value)

/-- Calls one after the other, before any answer arrives. -/
def calls : Nat → Slot α → Slot α × List (Reaction α)
  | 0, slot => (slot, [])
  | times + 1, slot =>
    let (slot, first) := slot.call
    let (slot, others) := calls times slot
    (slot, first :: others)

/-- The answer of the fetch under way arrives; all who wait for it get it, and only a success
stays. -/
def settle (outcome : Attempt α) : Slot α → Slot α
  | running _ =>
    match outcome with
    | .ok value => held value
    | .error _ => idle
  | other => other

/-- Calls made together and the outcome of each, where `fetch` finds the value if one of them starts
it. -/
def ask (times : Nat) (fetch : Job α) (slot : Slot α) : Job (List (Attempt α) × Slot α) := do
  let (called, reactions) := slot.calls times
  if reactions.any Reaction.isStart then
    let outcome ← Asking.outcome fetch
    pure (reactions.map (Reaction.outcome outcome), called.settle outcome)
  else pure (reactions.filterMap Reaction.immediate, called)

end Slot

/-- What a frame remembers. -/
structure Memo where
  rows : Slot Value
  count : Slot Number
  deriving Inhabited

namespace Memo

/-- Nothing is remembered yet. -/
def empty : Memo := ⟨.idle, .idle⟩

end Memo

/-- A frame together with what it remembers. -/
structure LiveFrame where
  frame : Frame
  memo : Memo
  deriving Inhabited

namespace LiveFrame

/-- A frame that remembers nothing. -/
def ofFrame (f : Frame) : LiveFrame := ⟨f, .empty⟩

/-- The rows, asked for several times at once. -/
def rows (times : Nat) (f : LiveFrame) : Job (List (Attempt Value) × LiveFrame) := do
  let (outcomes, slot) ← f.memo.rows.ask times f.frame.rows
  pure (outcomes, { f with memo := { f.memo with rows := slot } })

/-- The numbers of rows and columns, asked for several times at once. -/
def shape (times : Nat) (f : LiveFrame) : Job (List (Attempt (Number × Nat)) × LiveFrame) := do
  let (outcomes, slot) ← f.memo.count.ask times f.frame.rowCount
  pure (outcomes.map fun outcome => outcome.map fun n => (n, f.frame.columns.length),
    { f with memo := { f.memo with count := slot } })

end LiveFrame

end LazyFrame
