import LazyFrame.Grid
import LazyFrame.Outside.Basic
import LazyFrame.Sql.Reported

/-!
# Catalogs

A catalog holds the tables of one database with their columns, as they were when it was loaded,
together with the connection they came from and the dialect to speak over it. Tables stand in the
order in which the database lists them; of two tables with one name the first counts. Every table is
a relation with an identity of its own.
-/

namespace LazyFrame

/-- A table of a catalog. -/
structure TableInfo where
  id : Nat
  name : String
  columns : List Column
  deriving Inhabited

namespace TableInfo

/-- The names of the columns, in order. -/
def columnNames (t : TableInfo) : List String := t.columns.map (·.name)

/-- What the database reports for the names that are no texts. -/
def reportedNames (t : TableInfo) : ReportedNames :=
  t.columns.filterMap fun c => c.reported?.map (c.name, ·)

end TableInfo

/-- The tables of one database. -/
structure Catalog where
  connection : Nat
  dialect : Dialect
  tables : List TableInfo
  deriving Inhabited

namespace Catalog

/-! ## Loading -/

/-- Asks for the columns of tables, leaving out names that came before; `next` is the first identity
not used yet. -/
def loadTables (connection : Nat) : List TableInfo → List String → Nat → Job (List TableInfo)
  | known, [], _ => pure known
  | known, name :: rest, next =>
    if known.any (·.name == name) then loadTables connection known rest next
    else do
      let columns ← Job.listColumns connection name
      loadTables connection (known ++ [⟨next, name, columns⟩]) rest (next + 1)

/-- Loads the catalog of a connection. The dialect is the one asked for, else the one of the
connection, else that of SQLite. Identities are taken from `next` on. -/
def load (connection : Connection) (wanted? : Option Dialect) (next : Nat) : Job Catalog := do
  let started ← Job.now
  let listing ← Asking.outcome do
    let names ← Job.listTables connection.id
    loadTables connection.id [] names next
  match listing with
  | .error refusal => throw (refusal.asExecution none)
  | .ok tables =>
    let dialect := (wanted?.or connection.dialect?).getD .sqlite
    let finished ← Job.now
    Job.log .info "schema" "schema_loaded"
      [("tables", .number (Number.ofNat tables.length)), ("dialect", .text dialect.name),
        ("durationMs", .number (finished.sub started))]
    pure ⟨connection.id, dialect, tables⟩

/-! ## Looking up -/

/-- The names of the tables, in order. -/
def names (c : Catalog) : List String := c.tables.map (·.name)

/-- Whether there is a table of that name. -/
def has (c : Catalog) (name : String) : Bool := c.tables.any (·.name == name)

/-- The table of that name. -/
def table (c : Catalog) (name : String) : Attempt TableInfo :=
  match c.tables.find? (·.name == name) with
  | some t => .ok t
  | none => .error (.unknownTable name)

/-- The names of all tables as headers of their columns. -/
def overview (c : Catalog) : Grid :=
  Grid.ofLists c.names (c.tables.map (·.columnNames))

end Catalog

end LazyFrame
