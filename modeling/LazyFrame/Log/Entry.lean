import LazyFrame.Json.Writer

/-!
# Log lines

A log line is one JSON record: the time it was written at, its level, its message, the scope of the
part that wrote it and whatever else that part has to say. What else there is comes last and wins: a
field of the extra part that has the name of one of the others takes its place.

A line is written when its level is at least the threshold.
-/

namespace LazyFrame

/-- How much a log line matters. -/
inductive Level where
  | debug
  | info
  | warn
  | error
  deriving DecidableEq, Inhabited

namespace Level

/-- The name of a level. -/
def name : Level → String
  | debug => "debug"
  | info => "info"
  | warn => "warn"
  | error => "error"

/-- The level with a name. -/
def ofName? (name : String) : Option Level :=
  [debug, info, warn, error].find? (·.name == name)

/-- The place of a level in their order. -/
def rank : Level → Nat
  | debug => 10
  | info => 20
  | warn => 30
  | error => 40

end Level

/-- What a part of the library has to say. An empty scope is none. -/
structure LogEntry where
  level : Level
  scope : String
  message : String
  extra : Value
  deriving Inhabited

namespace LogEntry

/-- Whether an entry is written at a threshold. -/
def isWritten (threshold : Level) (e : LogEntry) : Bool := threshold.rank ≤ e.level.rank

/-- The fields that every line has. -/
def head (ms : Int) (e : LogEntry) : List (String × Value) :=
  [("ts", .text (Instant.isoText ms)), ("level", .text e.level.name), ("msg", .text e.message)] ++
    (if e.scope = "" then [] else [("scope", .text e.scope)])

/-- All fields of a line written at an instant. -/
def fields (ms : Int) (e : LogEntry) : List (String × Value) :=
  Fields.ofList (e.head ms ++ e.extra.spread)

/-- The text of a line written at a time; there is none beyond all instants. -/
def line? (time : Number) (e : LogEntry) : Option String := do
  let ms ← Instant.ofNumber? time
  (Json.encode .asText (.record (e.fields ms))).toOption

end LogEntry

end LazyFrame
