import LazyFrame.Dialect.Basic
import LazyFrame.Dialogue.Failing
import LazyFrame.Log.Entry

/-!
# The outside

What the library asks of its surroundings: databases to connect to, their tables and columns, the
rows of a statement, a sign of life, the time, and a place for log lines. A connection is known by
its number; two handles are the same connection exactly when their numbers agree.

A `Job` is a dialogue over these requests that can fail. When a database refuses, the refusal is an
answer like any other, so a job decides itself what becomes of it.
-/

namespace LazyFrame

/-- A column as a database lists it. What is reported for its name is normally a text; if it is
something else, `name` is the text of that. -/
structure Column where
  name : String
  type : String
  reported? : Option Value
  deriving Inhabited

namespace Column

/-- A column with a name. -/
def named (name type : String) : Column := ⟨name, type, none⟩

/-- A column with whatever is reported for its name. -/
def reported (name : Value) (type : String) : Column :=
  match name with
  | .text s => named s type
  | other => ⟨other.asText.toOption.getD "", type, some other⟩

/-- What is reported for the name of a column. -/
def label (c : Column) : Value := c.reported?.getD (.text c.name)

end Column

/-- A connection to a database: its number, the dialect it asks for, if any, and whether it can be
asked for a sign of life. -/
structure Connection where
  id : Nat
  dialect? : Option Dialect
  answersPing : Bool
  deriving DecidableEq, Inhabited

namespace Outside

/-- What can be asked. -/
inductive Request where
  | connect (url : String)
  | listTables (connection : Nat)
  | listColumns (connection : Nat) (table : String)
  | execute (connection : Nat) (statement : String)
  | ping (connection : Nat)
  | log (entry : LogEntry)
  | now

/-- What the answers look like. The rows of a statement are normally a list of lists, but it is the
database that decides. The time is in milliseconds and may have a fraction. -/
abbrev Answer : Request → Type
  | .connect _ => Attempt Connection
  | .listTables _ => Attempt (List String)
  | .listColumns _ _ => Attempt (List Column)
  | .execute _ _ => Attempt Value
  | .ping _ => Attempt Unit
  | .log _ => Unit
  | .now => Number

/-- The interface of the surroundings. -/
abbrev interface : Interface := ⟨Request, Answer⟩

end Outside

/-- A computation that asks its surroundings and can fail. -/
abbrev Job := Asking Outside.interface

namespace Job

/-- A connection to the database at a URL. -/
def connect (url : String) : Job Connection := Asking.request (.connect url) id

/-- The tables of a database. -/
def listTables (connection : Nat) : Job (List String) := Asking.request (.listTables connection) id

/-- The columns of a table. -/
def listColumns (connection : Nat) (table : String) : Job (List Column) :=
  Asking.request (.listColumns connection table) id

/-- The rows of a statement. -/
def execute (connection : Nat) (statement : String) : Job Value :=
  Asking.request (.execute connection statement) id

/-- A sign of life. -/
def ping (connection : Nat) : Job Unit := Asking.request (.ping connection) id

/-- Writes a log line. -/
def log (level : Level) (scope message : String) (extra : List (String × Value)) : Job Unit :=
  Asking.request (.log ⟨level, scope, message, .record extra⟩) .ok

/-- The time. -/
def now : Job Number := Asking.request .now .ok

end Job

end LazyFrame
