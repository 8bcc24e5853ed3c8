import LazyFrame.Catalog
import LazyFrame.Plan.Merge
import LazyFrame.Sql.Resolve

/-!
# Frames

A frame is a plan over one connection. Operations on frames give new frames and never ask the
outside; they only need identities for the plans they make, which `Build` hands out one after the
other. What a frame holds is found out by running statements: `rows`, `rowCount`, `head` and the
aggregates run exactly one each.
-/

namespace LazyFrame

/-- A computation that needs new identities and can fail; the state is the first identity not used
yet. -/
abbrev Build := StateT Nat (Except Fault)

namespace Build

/-- A plan with a new identity. -/
def plan (q : Query) : Build Plan := fun next => .ok (⟨next, q⟩, next + 1)

end Build

/-- A plan over a connection, written in a dialect; `reported` is what the database reports for
names of columns that are no texts. -/
structure Frame where
  connection : Nat
  dialect : Dialect
  plan : Plan
  reported : ReportedNames
  deriving Inhabited

namespace Frame

/-! ## Operations -/

/-- The frame of all columns of a table. -/
def ofTable (c : Catalog) (name : String) : Build Frame := do
  let t ← c.table name
  let p ← Build.plan (Query.ofTable t.id t.name t.columnNames)
  pure ⟨c.connection, c.dialect, p, t.reportedNames⟩

/-- The frame of a new query over the same connection. -/
def build (f : Frame) (attempt : Attempt Query) : Build Frame := do
  let q ← attempt
  let p ← Build.plan q
  pure { f with plan := p }

/-- The frame of a new query if there is one; else the same plan again. -/
def buildOr (f : Frame) : Option Query → Build Frame
  | some q => f.build (.ok q)
  | none => pure f

/-- Names of the output columns, in order. -/
def columns (f : Frame) : List String := f.plan.names

/-- The output columns as the database reports them, in order. -/
def labels (f : Frame) : List Value :=
  f.columns.map fun name => (f.reported.lookup name).getD (.text name)

/-- The expression behind an output column. -/
def col (f : Frame) (name : String) : Attempt Expr := f.plan.lookup name

/-- Keeps these columns. -/
def select (f : Frame) (names : List String) : Build Frame := f.build (f.plan.project names)

/-- Sets a column. -/
def assign (f : Frame) (name : String) (e : Expr) : Build Frame := f.build (f.plan.assign name e)

/-- Renames columns. -/
def rename (f : Frame) (mapping : List (String × String)) : Build Frame :=
  f.build (f.plan.rename mapping)

/-- Leaves columns out. -/
def drop (f : Frame) (names : List String) : Build Frame := f.build (f.plan.drop names)

/-- Keeps the rows for which a predicate holds. -/
def filter (f : Frame) (predicate : Expr) : Build Frame := f.build (f.plan.filter predicate)

/-- Keeps one of equal rows. -/
def distinct (f : Frame) : Build Frame := f.buildOr f.plan.distinct?

/-- Keeps the rows of a window. -/
def slice (f : Frame) (start stop : Value) : Build Frame := do
  let w ← Window.ofValues start stop
  f.buildOr (f.plan.slice? w)

/-- Joins another frame of the same connection. -/
def merge (f g : Frame) (options : MergeOptions) : Build Frame := do
  if f.connection ≠ g.connection then throw (.invalidOperation .otherConnection)
  let q ← fun next => f.plan.merge g.plan options next
  { f with reported := f.reported ++ g.reported }.build (.ok q)

/-! ## Statements -/

/-- The SQL text of a query over the columns of a frame. -/
def sqlOf (f : Frame) (q : Query) : Attempt String :=
  if f.reported.isEmpty then q.sql f.dialect
  else do
    let s ← q.statement
    let written ← f.reported.inStatement s
    .ok (written.text f.dialect)

/-- The SQL text of a frame. -/
def sql (f : Frame) : Attempt String := f.sqlOf f.plan.query

/-- Runs a statement. A refusal becomes a failed execution of that statement, and so do rows that
are nothing at all. -/
def fetch (connection : Nat) (statement : String) : Job Value := do
  Job.log .debug "frame" "frame_fetch" [("sql", .text statement)]
  let outcome ← Asking.outcome do
    let rows ← Job.execute connection statement
    let count ← Asking.ofAttempt rows.extent
    Job.log .debug "frame" "frame_fetched" [("sql", .text statement), ("rowCount", count)]
    pure rows
  match outcome with
  | .ok rows => pure rows
  | .error refusal =>
    let message ← Asking.ofAttempt refusal.spoken
    Job.log .warn "frame" "frame_fetch_failed"
      [("sql", .text statement), ("message", .text message)]
    throw (refusal.asExecution (some statement))

/-- The first cell of the first row, if there is one. -/
def firstCell (rows : Value) : Value := (rows.itemAt 0).itemAt 0

/-- All rows of a frame. -/
def rows (f : Frame) : Job Value := do
  let statement ← Asking.ofAttempt f.sql
  fetch f.connection statement

/-- The number of rows of a frame, counted by the database. -/
def rowCount (f : Frame) : Job Number := do
  let statement ← Asking.ofAttempt (f.sqlOf f.plan.count)
  let rows ← fetch f.connection statement
  let count? ← Asking.ofAttempt ((firstCell rows).toNumber statement)
  match count? with
  | some n => pure n
  | none => throw (.execution "COUNT query returned no rows" (some statement) none)

/-- An aggregate of a column and the statement that computed it. -/
def scalar (f : Frame) (fn : AggregateFn) (name : String) : Job (String × Value) := do
  let q ← Asking.ofAttempt (f.plan.aggregate fn name)
  let statement ← Asking.ofAttempt (f.sqlOf q)
  let rows ← fetch f.connection statement
  pure (statement, if (firstCell rows).isAbsent then .null else firstCell rows)

/-- An aggregate of a column that has to be a number; `none` when there is no value. -/
def numeric (f : Frame) (fn : AggregateFn) (name : String) : Job (Option Number) := do
  let (statement, value) ← f.scalar fn name
  Asking.ofAttempt (value.toNumber statement)

/-- Rows shown by `head` when their number is not given. -/
def headRows : Number := 5

/-- The number of rows that a value asks `head` for. -/
def headCount (v : Value) : Attempt Number :=
  match v with
  | .missing => .ok headRows
  | .number n => if Window.isStart n then .ok n else .error (.invalidOperation (.rowCount n.text))
  | other => do
    let shown ← other.asText
    .error (.invalidOperation (.rowCount shown))

/-- The first rows of a plan. -/
def preview (p : Plan) (count : Number) : Query := (p.slice? ⟨0, some count⟩).getD p.query

/-- The first rows of a frame as a table. -/
def head (f : Frame) (count : Value) : Job Grid := do
  let n ← Asking.ofAttempt (headCount count)
  let q := preview f.plan n
  let statement ← Asking.ofAttempt (f.sqlOf q)
  let rows ← fetch f.connection statement
  pure ⟨q.names, rows⟩

end Frame

end LazyFrame
