import LazyFrame.Bound
import LazyFrame.Expr.Basic

/-!
# Plans

A plan describes one SELECT: its `Source`, the columns it puts out, the rows it keeps and the window
it cuts from them. A source is a table, another SELECT read as a subquery, or a join of two sources.
Tables and subqueries carry the identity of the relation that columns refer to; a `Plan` carries one
too, under which it is read when it becomes a subquery of a later plan. That identity is fixed, so a
column taken from the subquery of a plan stays valid for every plan built on it.

A plan is *sealed* when it says more than which rows to keep: DISTINCT, LIMIT or OFFSET.
`Plan.opened` is what further operations build on: the plan itself, or a plain SELECT of all columns
of a sealed plan.
-/

namespace LazyFrame

/-- The rows kept by a join: pairs only, or also the left rows without a partner. -/
inductive JoinKind where
  | inner
  | left
  deriving DecidableEq, Inhabited

namespace JoinKind

/-- The kind with a name. -/
def ofName? (name : String) : Option JoinKind :=
  if name = "inner" then some .inner else if name = "left" then some .left else none

/-- The kind as SQL writes it. -/
def symbol : JoinKind → String
  | inner => "INNER"
  | left => "LEFT"

end JoinKind

/-- A pair of expressions that a join compares. -/
structure JoinKey where
  left : Expr
  right : Expr
  deriving Inhabited

/-- A column of a result: its name and the expression behind it. -/
structure Output where
  name : String
  expr : Expr
  deriving Inhabited

/-- What a SELECT does with the rows of its source. Outputs are in order; `limit?` and `offset?`
count rows. -/
structure Selection where
  outputs : List Output
  filter? : Option Expr
  distinct : Bool
  limit? : Option Bound
  offset? : Option Bound
  deriving Inhabited

namespace Selection

/-- Names of the outputs, in order. -/
def names (s : Selection) : List String := s.outputs.map (·.name)

/-- Outputs of all kept rows: no DISTINCT and no window. -/
def plain (outputs : List Output) (filter? : Option Expr) : Selection :=
  ⟨outputs, filter?, false, none, none⟩

/-- Whether a window is cut. -/
def isWindowed (s : Selection) : Bool := s.limit?.isSome || s.offset?.isSome

/-- Whether a selection does more than keep rows. -/
def isSealed (s : Selection) : Bool := s.distinct || s.isWindowed

end Selection

/-- Where the rows of a SELECT come from. The condition of a join holds beside its keys. -/
inductive Source where
  | table (id : Nat) (name : String) (columns : List String)
  | derived (id : Nat) (source : Source) (selection : Selection)
  | join (left right : Source) (kind : JoinKind) (keys : List JoinKey) (condition? : Option Expr)
  deriving Inhabited

namespace Source

/-- The relations that the SELECT over a source can refer to, in the order of the joins. -/
def visible : Source → List Relation
  | table id name columns => [⟨id, .table name, columns⟩]
  | derived id _ selection => [⟨id, .derived, selection.names⟩]
  | join left right _ _ _ => left.visible ++ right.visible

/-- A source over the images of its visible relations. Subqueries stay as they are inside. -/
def relabel (map : Relabelling) : Source → Source
  | table id name columns =>
    match map.lookup ⟨id, .table name, columns⟩ with
    | some image => table image.id name columns
    | none => table id name columns
  | derived id source selection =>
    match map.lookup ⟨id, .derived, selection.names⟩ with
    | some image => derived image.id source selection
    | none => derived id source selection
  | join left right kind keys condition? =>
    join (left.relabel map) (right.relabel map) kind
      (keys.map fun key => ⟨key.left.substitute map, key.right.substitute map⟩)
      (condition?.map (Expr.substitute map))

end Source

/-- A SELECT without an identity. -/
structure Query where
  source : Source
  selection : Selection
  deriving Inhabited

namespace Query

/-- Names of the outputs, in order. -/
def names (q : Query) : List String := q.selection.names

/-- All columns of a relation, each under its own name. -/
def passThrough (relation : Relation) : List Output :=
  relation.columns.map fun name => ⟨name, .column relation name⟩

/-- Every column of a table. -/
def ofTable (id : Nat) (name : String) (columns : List String) : Query :=
  ⟨.table id name columns, .plain (passThrough ⟨id, .table name, columns⟩) none⟩

end Query

/-- A SELECT with the identity under which it is read as a subquery. -/
structure Plan where
  id : Nat
  query : Query
  deriving Inhabited

namespace Plan

/-- Names of the outputs, in order. -/
def names (p : Plan) : List String := p.query.names

/-- Whether the plan has DISTINCT, LIMIT or OFFSET. -/
def isSealed (p : Plan) : Bool := p.query.selection.isSealed

/-- The plan read as a subquery. -/
def asSource (p : Plan) : Source := .derived p.id p.query.source p.query.selection

/-- The relation of the plan read as a subquery. -/
def relation (p : Plan) : Relation := ⟨p.id, .derived, p.names⟩

/-- What further operations build on. -/
def opened (p : Plan) : Query :=
  if p.isSealed then ⟨p.asSource, .plain (Query.passThrough p.relation) none⟩ else p.query

end Plan

end LazyFrame
