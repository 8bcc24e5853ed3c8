import LazyFrame.Plan.Basic
import LazyFrame.Plan.Window

/-!
# Operations on one plan

Each operation takes a plan to the query of a new one and leaves the old plan alone. All but
`distinct` and `slice` work on the opened plan, so they act on the rows a sealed plan has cut out
and not on the rows it cuts from. `distinct` and `slice` change a plan in place as long as that
means the same, and keep a plan that already does what is asked.
-/

namespace LazyFrame

/-! ## Columns by name -/

namespace Query

/-- The expression behind an output. -/
def lookup (q : Query) (name : String) : Attempt Expr :=
  match q.selection.outputs.find? (·.name == name) with
  | some output => .ok output.expr
  | none => .error (.unknownColumn name (some (.lookup q.names)))

/-- A column belongs to a relation that the query reads, and is one of its columns. A relation that
is only described is never read. -/
def checkReference (q : Query) : Reference → Attempt Unit
  | .known ref =>
    if !q.source.visible.contains ref.relation then
      .error (.invalidExpression (.foreignColumn ref.name ref.relation.origin))
    else if !ref.relation.exposes ref.name then
      .error (.invalidExpression (.noColumn ref.name ref.relation.origin))
    else .ok ()
  | .noted note => do
    let name ← note.name.asText
    let origin ← note.origin
    .error (.invalidExpression (.foreignColumn name origin))

/-- Everything that an expression refers to is a column that the query reads. -/
def checkScope (q : Query) (e : Expr) : Attempt Unit := do
  let references ← e.references
  references.forM q.checkReference

/-- The query with other outputs. -/
def withOutputs (q : Query) (outputs : List Output) : Query :=
  { q with selection := { q.selection with outputs := outputs } }

end Query

/-- The first name of a list that stands in it twice. -/
def firstRepeated : List String → List String → Option String
  | _, [] => none
  | seen, name :: rest =>
    if seen.contains name then some name else firstRepeated (name :: seen) rest

/-- No name stands twice in a list. -/
def checkUnique (names : List String) : Attempt Unit :=
  match firstRepeated [] names with
  | some name => .error (.invalidOperation (.duplicateOutput name))
  | none => .ok ()

namespace Plan

/-- The expression behind an output of a plan, as further operations see it. -/
def lookup (p : Plan) (name : String) : Attempt Expr := p.opened.lookup name

/-! ## Columns -/

/-- The outputs with these names, in this order. -/
def project (p : Plan) (names : List String) : Attempt Query := do
  if names.isEmpty then .error (.invalidOperation .emptySelection)
  checkUnique names
  let base := p.opened
  let outputs ← names.mapM fun name => do
    let expr ← base.lookup name
    Except.ok (Output.mk name expr)
  .ok (base.withOutputs outputs)

/-- Replaces the first output of that name, or adds one at the end. -/
def setOutput (output : Output) : List Output → List Output
  | [] => [output]
  | first :: rest =>
    if first.name == output.name then output :: rest else first :: setOutput output rest

/-- Adds an output, or puts it in the place of the one that has its name. -/
def assign (p : Plan) (name : String) (e : Expr) : Attempt Query := do
  let base := p.opened
  base.checkScope e
  if e.hasAggregate then .error (.invalidExpression (.aggregateAssigned name))
  .ok (base.withOutputs (setOutput ⟨name, e⟩ base.selection.outputs))

/-- The name an output has under a mapping. -/
def renamed (mapping : List (String × String)) (name : String) : String :=
  (mapping.lookup name).getD name

/-- Renames outputs all at once; every name of the mapping has to be one of them. -/
def rename (p : Plan) (mapping : List (String × String)) : Attempt Query := do
  let base := p.opened
  mapping.forM fun entry =>
    if base.names.contains entry.1 then .ok () else .error (.unknownColumn entry.1 (some .toRename))
  let outputs :=
    base.selection.outputs.map fun output => { output with name := renamed mapping output.name }
  checkUnique (outputs.map (·.name))
  .ok (base.withOutputs outputs)

/-- Leaves out the outputs with these names; at least one has to stay. -/
def drop (p : Plan) (names : List String) : Attempt Query := do
  let base := p.opened
  names.forM fun name =>
    if base.names.contains name then .ok () else .error (.unknownColumn name (some .toDrop))
  let outputs := base.selection.outputs.filter fun output => !names.contains output.name
  if outputs.isEmpty then .error (.invalidOperation .everythingDropped)
  .ok (base.withOutputs outputs)

/-! ## Rows -/

/-- Keeps the rows for which a predicate holds. -/
def filter (p : Plan) (predicate : Expr) : Attempt Query := do
  let base := p.opened
  base.checkScope predicate
  if predicate.hasAggregate then .error (.invalidExpression .aggregateFilter)
  .ok { base with
    selection := { base.selection with
      filter? := Expr.conjoin base.selection.filter? (some predicate) } }

/-- The query that a window or DISTINCT is put on: a window that is there already is not touched. -/
def unwindowed (p : Plan) : Query := if p.query.selection.isWindowed then p.opened else p.query

/-- Keeps one of equal rows; `none` when the plan does so already. -/
def distinct? (p : Plan) : Option Query :=
  if p.query.selection.distinct && !p.query.selection.isWindowed then none
  else
    let base := p.unwindowed
    some { base with selection := { base.selection with distinct := true } }

/-- Keeps the rows of a window; `none` when it leaves out none. -/
def slice? (p : Plan) (w : Window) : Option Query :=
  if w.isWhole then none
  else
    let base := p.unwindowed
    some { base with selection := { base.selection with limit? := w.limit?, offset? := w.offset? } }

/-! ## Single values -/

/-- One aggregate of one column, under that column's name. -/
def aggregate (p : Plan) (fn : AggregateFn) (name : String) : Attempt Query := do
  let base := p.opened
  let operand ← base.lookup name
  .ok ⟨base.source, .plain [⟨name, .aggregate fn operand⟩] base.selection.filter?⟩

/-- The number of rows, counted over the plan as a subquery. -/
def count (p : Plan) : Query := ⟨p.asSource, .plain [⟨"row_count", .countRows⟩] none⟩

end Plan

end LazyFrame
