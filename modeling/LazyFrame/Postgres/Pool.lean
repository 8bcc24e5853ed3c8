import LazyFrame.Log.Entry
import LazyFrame.Number.Shortest
import LazyFrame.Outside.Basic
import LazyFrame.Recency
import LazyFrame.Value.Parts

/-!
# Pools of PostgreSQL clients

Statements of a frame run on a client taken from a pool. `Pool.execute` takes a client, sets the
statement timeout, runs the statement, resets the timeout and gives the client back. Once a client
is taken the timeout is reset and the client is given back whatever happens in between; a reset that
fails is only logged. The outcome is that of the first of the steps up to the statement that failed,
or the rows of the statement.

Pools are kept per URL in a cache that forgets the oldest.
-/

namespace LazyFrame.Pool

/-! ## What a pool can be asked -/

/-- Requests to a pool. A query runs on a client or, without one, anywhere; its rows are positional
or have names. -/
inductive Request where
  | connect
  | release (client : Nat)
  | query (client? : Option Nat) (statement : String) (parameters : List String) (positional : Bool)
  | log (entry : LogEntry)
  | now

/-- What the answers look like. The rows of a query are normally a list. -/
abbrev Answer : Request → Type
  | .connect => Attempt Nat
  | .release _ => Unit
  | .query _ _ _ _ => Attempt Value
  | .log _ => Unit
  | .now => Number

/-- The interface of a pool. -/
abbrev interface : Interface := ⟨Request, Answer⟩

/-- Takes a client. -/
def connect : Asking interface Nat := Asking.request .connect id

/-- Gives a client back. -/
def release (client : Nat) : Asking interface Unit := Asking.request (.release client) .ok

/-- Runs a query on a client. -/
def onClient (client : Nat) (statement : String) (positional : Bool) : Asking interface Value :=
  Asking.request (.query (some client) statement [] positional) id

/-- Runs a query on any client; rows have names. -/
def anywhere (statement : String) (parameters : List String) : Asking interface Value :=
  Asking.request (.query none statement parameters false) id

/-- Writes a log line. -/
def log (level : Level) (message : String) (extra : List (String × Value)) :
    Asking interface Unit :=
  Asking.request (.log ⟨level, "postgres", message, .record extra⟩) .ok

/-! ## Statements on a client -/

/-- The timeout in whole milliseconds; what is no number of them is none, written as zero. -/
def timeoutText (timeout : Number) : String :=
  if timeout.truncate.isNonzero then timeout.truncate.text else "0"

/-- Sets the timeout of a client back; a failure is only logged. -/
def resetTimeout (client : Nat) : Asking interface Unit := do
  let outcome ← Asking.outcome (onClient client "SET statement_timeout TO DEFAULT" false)
  match outcome with
  | .ok _ => pure ()
  | .error refusal =>
    let message ← Asking.ofAttempt refusal.shown
    log .warn "statement_timeout_reset_failed" [("message", message)]

/-- Runs a statement under a timeout on a client of the pool. A timeout that stands for no number
fails in place of the statement that would set it. -/
def execute (timeout : Value) (statement : String) : Asking interface Value := do
  log .info "sql_execute" [("sql", .text statement)]
  let client ← connect
  let outcome ← Asking.outcome do
    let milliseconds ← Asking.ofAttempt timeout.asNumber
    let _ ← onClient client ("SET statement_timeout TO " ++ timeoutText milliseconds) false
    onClient client statement true
  resetTimeout client
  release client
  Asking.ofAttempt outcome

/-- Runs a trivial query on a client of the pool. -/
def ping : Asking interface Unit := do
  let client ← connect
  let outcome ← Asking.outcome (onClient client "SELECT 1" false)
  release client
  let _ ← Asking.ofAttempt outcome
  pure ()

/-! ## The catalog of a database -/

/-- Lists tables and views outside the system schemas. -/
def tableQuery : String := "
      SELECT n.nspname AS schema, c.relname AS name
      FROM pg_class c
      JOIN pg_namespace n ON n.oid = c.relnamespace
      WHERE n.nspname NOT IN ('pg_catalog','information_schema')
        AND n.nspname NOT LIKE 'pg_toast%'
        AND c.relkind IN ('r','v','m','p') -- table, view, matview, partitioned table
      ORDER BY 1,2
    "

/-- Lists the columns of a relation of a schema. -/
def columnQuery : String := "
      SELECT a.attname AS name,
             pg_catalog.format_type(a.atttypid, a.atttypmod) AS type
      FROM pg_attribute a
      JOIN pg_class c ON c.oid = a.attrelid
      JOIN pg_namespace n ON n.oid = c.relnamespace
      WHERE n.nspname = $1 AND c.relname = $2 AND a.attnum > 0 AND NOT a.attisdropped
      ORDER BY a.attnum
    "

/-- The name of a relation with its schema in front. -/
def qualify (schema name : String) : String := schema ++ "." ++ name

/-- The schema that a relation without one belongs to. -/
def defaultSchema : String := "public"

/-- Schema and name of a table: what stands in front of the first dot, and what stands behind it. -/
def splitName (table : String) : String × String :=
  let cs := table.toList
  if cs.contains '.' then
    (String.ofList (cs.takeWhile (· != '.')), String.ofList ((cs.dropWhile (· != '.')).drop 1))
  else (defaultSchema, table)

/-- The qualified name in a row of the table query. -/
def tableOfRow (row : Value) : Attempt String := do
  let schema ← row.fieldOf "schema"
  let schemaText ← schema.asText
  let name ← row.fieldOf "name"
  let nameText ← name.asText
  .ok (qualify schemaText nameText)

/-- The column in a row of the column query. -/
def columnOfRow (row : Value) : Attempt Column := do
  let name ← row.fieldOf "name"
  let type ← row.fieldOf "type"
  let typeText ← type.asText
  .ok (.reported name typeText)

/-- The tables of the database, qualified by their schemas. -/
def listTables : Asking interface (List String) := do
  let answer ← anywhere tableQuery []
  let rows ← Asking.ofAttempt (answer.listOf "rows")
  Asking.ofAttempt (rows.mapM tableOfRow)

/-- The columns of a table. -/
def listColumns (table : String) : Asking interface (List Column) := do
  let answer ← anywhere columnQuery [(splitName table).1, (splitName table).2]
  let rows ← Asking.ofAttempt (answer.listOf "rows")
  Asking.ofAttempt (rows.mapM columnOfRow)

/-! ## A pool as a connection -/

/-- A connection through a pool. -/
def connection (id : Nat) : Connection := ⟨id, some .postgres, true⟩

/-- Answers what the library asks of its surroundings, by asking a pool. -/
def answer (timeout : Value) : (r : Outside.Request) → Dialogue interface (Outside.Answer r)
  | .connect _ => .done (.ok (connection 0))
  | .listTables _ => listTables.run
  | .listColumns _ table => (listColumns table).run
  | .execute _ statement => (execute timeout statement).run
  | .ping _ => ping.run
  | .log entry => .ask (.log entry) .done
  | .now => .ask .now .done

end LazyFrame.Pool

namespace LazyFrame

/-! ## Pools by URL -/

/-- The pool made for a URL; its number counts pools in the order in which they were made. -/
structure PoolHandle where
  number : Nat
  url : String
  max : Number
  deriving DecidableEq, Inhabited

/-- The pools in use, and how many were ever made. -/
structure PoolCache where
  handles : Recency String PoolHandle
  made : Nat

namespace PoolCache

/-- No pools yet. -/
def empty (capacity : Number) : PoolCache := ⟨.empty capacity, 0⟩

/-- The pool of a URL, made if there is none. -/
def get (c : PoolCache) (max : Number) (url : String) : PoolHandle × PoolCache :=
  match c.handles.get (some url) with
  | (some handle, handles) => (handle, { c with handles := handles })
  | (none, _) =>
    let handle : PoolHandle := ⟨c.made, url, max⟩
    (handle, ⟨c.handles.set (some url) (some handle), c.made + 1⟩)

end PoolCache

end LazyFrame
