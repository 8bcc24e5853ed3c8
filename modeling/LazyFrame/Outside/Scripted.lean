import LazyFrame.Outside.Basic
import LazyFrame.Postgres.Pool

/-!
# Surroundings by script

Surroundings whose every answer is laid down in advance, for trying the library out without a
database. A scripted database lists fixed tables and answers statements from a queue; when the queue
is empty there are no rows. It counts what it is asked and remembers the statements. The clock
stands still unless it is set, and log lines are kept.

A scripted pool answers its queries from such a queue, and keeps a trace of everything that is done
with it.
-/

namespace LazyFrame

/-! ## Refusals -/

namespace Fault

/-- The field of a refusal that decides what it is: a refusal that is given one by hand is none any
more. -/
def natureField : String := "__proto__"

/-- A refusal that has lost its nature. It shows the properties it was given, and takes its status
and its text from what it is now where it has none of its own. -/
def maskedBy (nature : Value) (properties : List (String × Value)) : Fault :=
  let hidden := [natureField, "message", "stack"]
  let own? := properties.lookup "status"
  .masked (.record (properties.filter fun property => !hidden.contains property.1))
    (own?.getD (nature.field "status")).number?
    (match nature with
      | .record fields => if fields.any (·.1 == "toString") then none else some "[object Error]"
      | .list items => (Value.list items).asText.toOption
      | _ => none)

/-- A refusal from outside with a message and properties that were given to it by hand; a name and a
message among them take the place of its own. -/
def withProperties (message : String) (properties : List (String × Value)) : Fault :=
  match properties.lookup natureField with
  | some (.record fields) => maskedBy (.record fields) properties
  | some (.list items) => maskedBy (.list items) properties
  | some .null => maskedBy .null properties
  | _ =>
    .foreign ((properties.lookup "name").getD (.text "Error"))
      ((properties.lookup "message").getD (.text message))
      ((properties.lookup "status").bind Value.number?)

end Fault

/-- A prepared answer: rows or a refusal. -/
abbrev Response := Attempt Value

/-! ## Databases -/

/-- A database whose answers are laid down. -/
structure ScriptedDatabase where
  tables : List (String × List Column)
  dialect? : Option Dialect
  responses : List Response
  tableRefusal? : Option Fault
  columnRefusal? : Option (String × Fault)
  pingRefusal? : Option Fault
  answersPing : Bool
  introspections : Nat
  pings : Nat
  statements : List String
  deriving Inhabited

namespace ScriptedDatabase

/-- Counts and answers a question for the tables. -/
def listTables (db : ScriptedDatabase) : Attempt (List String) × ScriptedDatabase :=
  (match db.tableRefusal? with
    | some f => .error f
    | none => .ok (db.tables.map (·.1)),
    { db with introspections := db.introspections + 1 })

/-- Counts and answers a question for the columns of a table. -/
def listColumns (db : ScriptedDatabase) (table : String) :
    Attempt (List Column) × ScriptedDatabase :=
  let listed := (db.tables.lookup table).getD []
  (match db.columnRefusal? with
    | some (refused, f) => if refused = table then .error f else .ok listed
    | none => .ok listed,
    { db with introspections := db.introspections + 1 })

/-- Takes the next response. -/
def execute (db : ScriptedDatabase) (statement : String) : Response × ScriptedDatabase :=
  let db := { db with statements := db.statements ++ [statement] }
  match db.responses with
  | [] => (.ok (.list []), db)
  | response :: rest => (response, { db with responses := rest })

/-- Counts and answers a question for a sign of life. -/
def ping (db : ScriptedDatabase) : Attempt Unit × ScriptedDatabase :=
  (match db.pingRefusal? with
    | some f => .error f
    | none => .ok (),
    { db with pings := db.pings + 1 })

end ScriptedDatabase

/-! ## Surroundings -/

/-- Scripted surroundings. Databases are known by URL or by position; `connected` are the URLs that
were connected to. -/
structure Scene where
  databases : List (String × ScriptedDatabase)
  connected : List String
  clock : Number
  threshold : Level
  lines : List String
  deriving Inhabited

namespace Scene

/-- Keeps a log line if it is written at all. -/
def note (s : Scene) (entry : LogEntry) : Scene :=
  if entry.isWritten s.threshold then
    { s with lines := s.lines ++ (entry.line? s.clock).toList } else s

/-- The handle of the database at a position. -/
def connection (s : Scene) (i : Nat) : Connection :=
  let db := (s.databases.getD i default).2
  ⟨i, db.dialect?, db.answersPing⟩

/-- Connects to a URL. -/
def connect (s : Scene) (url : String) : Attempt Connection × Scene :=
  (match s.databases.findIdx? (·.1 == url) with
    | some i => .ok (s.connection i)
    | none => .error (.plain ("no connection: " ++ url)),
    { s with connected := s.connected ++ [url] })

/-- Lets the database at a position answer. -/
def ask {α : Type} (s : Scene) (i : Nat)
    (question : ScriptedDatabase → α × ScriptedDatabase) : α × Scene :=
  let (url, db) := s.databases.getD i default
  let (answer, db) := question db
  (answer, { s with databases := s.databases.set i (url, db) })

/-- Answers a request. -/
def serve : (r : Outside.Request) → Scene → Outside.Answer r × Scene
  | .connect url, s => s.connect url
  | .listTables i, s => s.ask i ScriptedDatabase.listTables
  | .listColumns i table, s => s.ask i fun db => db.listColumns table
  | .execute i statement, s => s.ask i fun db => db.execute statement
  | .ping i, s => s.ask i ScriptedDatabase.ping
  | .log entry, s => ((), s.note entry)
  | .now, s => (s.clock, s)

end Scene

/-! ## Pools -/

/-- One thing that was done with a pool. -/
inductive PoolEvent where
  | connect
  | release
  | query (onClient : Bool) (statement : String) (parameters : List String) (positional : Bool)
  deriving DecidableEq

/-- A pool whose answers are laid down. -/
structure ScriptedPool where
  responses : List Response
  connectRefusal? : Option Fault
  clients : Nat
  trace : List PoolEvent
  scene : Scene
  deriving Inhabited

namespace ScriptedPool

/-- Adds to the trace. -/
def record (p : ScriptedPool) (event : PoolEvent) : ScriptedPool :=
  { p with trace := p.trace ++ [event] }

/-- Takes the next response. -/
def next (p : ScriptedPool) : Response × ScriptedPool :=
  match p.responses with
  | [] => (.ok (.list []), p)
  | response :: rest => (response, { p with responses := rest })

/-- Answers a request. -/
def serve : (r : Pool.Request) → ScriptedPool → Pool.Answer r × ScriptedPool
  | .connect, p =>
    let p := p.record .connect
    match p.connectRefusal? with
    | some f => (.error f, p)
    | none => (.ok p.clients, { p with clients := p.clients + 1 })
  | .release _, p => ((), p.record .release)
  | .query client? statement parameters positional, p =>
    (p.record (.query client?.isSome statement parameters positional)).next
  | .log entry, p => ((), { p with scene := p.scene.note entry })
  | .now, p => (p.scene.clock, p)

end ScriptedPool

end LazyFrame
