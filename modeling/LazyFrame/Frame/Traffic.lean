import LazyFrame.Frame.Memo

/-!
# A frame under calls and answers in any order

`Slot.ask` serves calls that are made together and follows their fetch to its end. Here a fetch is a
value of its own that waits for its answer, so further calls may be made meanwhile, and rows and
count may be fetched at the same time.

For each of the two results a frame keeps a cell with the fetch whose outcome calls are given, and
every fetch that was ever started has a number. A call is given the fetch in the cell, or starts one
and puts it there. An answer takes the fetch that waits for it to its outcome. A fetch that has
failed is not forgotten yet: that is done by a handler of its own, which runs some time later and
empties the cell, whatever is in it by then.

A frame whose statement cannot be written fails a call for its rows at once, while a call for its
count starts a fetch that has already failed.
-/

namespace LazyFrame

/-! ## Fetches -/

/-- How far a fetch has come. A fetch is `rejected` until its handler has run, and `failed` from
then on. -/
inductive Progress (α : Type) where
  | waiting (request : Outside.Request) (next : Outside.Answer request →
    Dialogue Outside.interface (Attempt α))
  | rejected (fault : Fault)
  | failed (fault : Fault)
  | succeeded (value : α)

namespace Progress

variable {α : Type}

/-- A fetch that has just come to its outcome. -/
def ofOutcome : Attempt α → Progress α
  | .ok value => succeeded value
  | .error fault => rejected fault

/-- The outcome, once there is one. -/
def outcome? : Progress α → Option (Attempt α)
  | waiting _ _ => none
  | rejected fault | failed fault => some (.error fault)
  | succeeded value => some (.ok value)

/-- Whether an answer has yet to come. -/
def isWaiting : Progress α → Bool
  | waiting _ _ => true
  | _ => false

/-- Whether the fetch has failed and its handler has run. -/
def isFailed : Progress α → Bool
  | failed _ => true
  | _ => false

/-- Whether the fetch has come to a failure, its handler or not. -/
def isFailure : Progress α → Bool
  | rejected _ | failed _ => true
  | _ => false

/-- Whether the answer or the handler has yet to come. -/
def isInFlight : Progress α → Bool
  | waiting _ _ | rejected _ => true
  | _ => false

end Progress

/-- A fetch: the statements it has sent, and how far it has come. -/
structure Fetch (α : Type) where
  sent : List String
  progress : Progress α

namespace Fetch

variable {α : Type}

/-- Follows a dialogue up to where it waits for an answer, past log lines. -/
def follow : Dialogue Outside.interface (Attempt α) → Fetch α
  | .done outcome => ⟨[], .ofOutcome outcome⟩
  | .ask (.log _) next => follow (next ())
  | .ask (.execute connection statement) next =>
    ⟨[statement], .waiting (.execute connection statement) next⟩
  | .ask request next => ⟨[], .waiting request next⟩

/-- The database answers. -/
def hear (reply : Attempt Value) (x : Fetch α) : Fetch α :=
  match x.progress with
  | .waiting (.execute _ _) next =>
    let rest := follow (next reply)
    ⟨x.sent ++ rest.sent, rest.progress⟩
  | _ => x

end Fetch

/-! ## One result of a frame -/

/-- What a call is given: the outcome of a fetch, or a fault at once. -/
inductive Ticket where
  | fetch (number : Nat)
  | fault (fault : Fault)

/-- One result of a frame: the number of the fetch in its cell, all fetches in the order of their
numbers, and what calls were given, in order. -/
structure Line (α : Type) where
  cell : Option Nat
  fetches : List (Fetch α)
  tickets : List Ticket

/-- What happens to one result: a call, an answer to a fetch, or the failure handler of a fetch. -/
inductive Happening where
  | call
  | answer (number : Nat) (reply : Attempt Value)
  | handle (number : Nat)

namespace Happening

/-- Whether it is a call. -/
def isCall : Happening → Bool
  | call => true
  | _ => false

end Happening

namespace Line

variable {α : Type}

/-- Nobody has called yet. -/
def empty : Line α := ⟨none, [], []⟩

/-- A call. `start` is the fetch to start, or what goes wrong before there is one. -/
def call (start : Attempt (Job α)) (line : Line α) : Line α :=
  match line.cell with
  | some number => { line with tickets := line.tickets ++ [.fetch number] }
  | none =>
    match start with
    | .error fault => { line with tickets := line.tickets ++ [.fault fault] }
    | .ok job =>
      let number := line.fetches.length
      ⟨some number, line.fetches ++ [Fetch.follow job.run], line.tickets ++ [.fetch number]⟩

/-- An answer to a fetch. -/
def answer (number : Nat) (reply : Attempt Value) (line : Line α) : Line α :=
  { line with fetches := line.fetches.modify number (Fetch.hear reply) }

/-- The handler of a fetch that was rejected. -/
def handle (number : Nat) (line : Line α) : Line α :=
  match line.fetches[number]? with
  | some ⟨sent, .rejected fault⟩ =>
    { line with cell := none, fetches := line.fetches.set number ⟨sent, .failed fault⟩ }
  | _ => line

/-- One thing happens. -/
def step (start : Attempt (Job α)) (line : Line α) : Happening → Line α
  | .call => line.call start
  | .answer number reply => line.answer number reply
  | .handle number => line.handle number

/-- Things happen one after the other. -/
def run (start : Attempt (Job α)) (line : Line α) (happenings : List Happening) : Line α :=
  happenings.foldl (step start) line

/-- What a call gets in the end, once that is known. -/
def outcome? (line : Line α) : Ticket → Option (Attempt α)
  | .fault fault => some (.error fault)
  | .fetch number => line.fetches[number]?.bind (·.progress.outcome?)

/-- All statements that were sent, fetch by fetch. -/
def sent (line : Line α) : List String := line.fetches.flatMap (·.sent)

end Line

/-! ## Both results -/

namespace Frame

/-- Starts to fetch the rows; the statement is written before anything else. -/
def startRows (f : Frame) : Attempt (Job Value) := do
  let statement ← f.sql
  .ok (fetch f.connection statement)

/-- Starts to count the rows. -/
def startCount (f : Frame) : Attempt (Job Number) := .ok f.rowCount

end Frame

/-- What a frame has been asked for: its rows and its count. -/
structure Traffic where
  rows : Line Value
  count : Line Number

namespace Traffic

/-- Something that happens to one of the two. -/
inductive Event where
  | rows (happening : Happening)
  | count (happening : Happening)

namespace Event

/-- What happens to the rows. -/
def rows? : Event → Option Happening
  | rows happening => some happening
  | count _ => none

/-- What happens to the count. -/
def count? : Event → Option Happening
  | rows _ => none
  | count happening => some happening

end Event

/-- Nobody has called yet. -/
def empty : Traffic := ⟨.empty, .empty⟩

/-- One thing happens to a frame. -/
def step (f : Frame) (t : Traffic) : Event → Traffic
  | .rows happening => { t with rows := t.rows.step f.startRows happening }
  | .count happening => { t with count := t.count.step f.startCount happening }

/-- Things happen to a new frame one after the other. -/
def run (f : Frame) (events : List Event) : Traffic := events.foldl (step f) empty

end Traffic

end LazyFrame
