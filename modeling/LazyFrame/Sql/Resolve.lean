import LazyFrame.Sql.Alias
import LazyFrame.Sql.Statement

/-!
# From plans to statements

Every SELECT has a scope of its own: the relations its source shows, each with an alias. All SELECTs
of a statement draw from one supply of aliases, in the order in which their scopes are opened, so no
alias occurs twice in a statement and none is hidden by another. A column is looked up in the scope
of the SELECT it stands in and nowhere else.

Resolution fails on a column whose relation is not in scope, on a column its relation does not have,
on a literal that is none, on a SELECT without outputs, on an aggregate in a filter and on a bound
that cannot be written, in the order in which the parts of a SELECT are visited: outputs, FROM,
filter, bounds.
-/

namespace LazyFrame

/-- The relations that a SELECT can refer to, with their aliases. -/
abbrev Scope := List (Relation × String)

namespace Scope

/-- Binds a relation to the next alias, unless it is bound already; `n` is the supply of aliases. -/
def bind (scope : Scope) (relation : Relation) (n : Nat) : Scope × Nat :=
  match scope.lookup relation with
  | some _ => (scope, n)
  | none => (scope ++ [(relation, Alias.word (Alias.next n))], Alias.next n + 1)

/-- Binds relations one after the other. -/
def bindAll (scope : Scope) : List Relation → Nat → Scope × Nat
  | [], n => (scope, n)
  | relation :: rest, n =>
    let (scope, n) := scope.bind relation n
    bindAll scope rest n

/-- The alias of a relation in scope. -/
def owner (scope : Scope) (relation : Relation) : Attempt String :=
  match scope.lookup relation with
  | some name => .ok name
  | none => .error (.invalidExpression (.notInQuery relation.origin))

end Scope

namespace Expr

/-- The term of an expression in a scope. -/
def resolve (scope : Scope) : Expr → Attempt Term
  | column relation name => do
    let owner ← scope.owner relation
    if relation.exposes name then .ok (.column owner name)
    else .error (.invalidExpression (.noColumn name relation.origin))
  | literal value => do
    let text ← Dialect.literal value
    .ok (.literal text)
  | binary op left right => do
    let l ← left.resolve scope
    let r ← right.resolve scope
    .ok (.binary op l r)
  | unary op operand => do
    let t ← operand.resolve scope
    .ok (.unary op t)
  | aggregate fn operand => do
    let t ← operand.resolve scope
    .ok (.aggregate fn t)
  | countRows => .ok .countRows
  | given description => do
    let text ← Given.text description
    .ok (.ready text (Given.isCompound description))

/-- Whether an expression is a column with this name. -/
def isColumnNamed (name : String) : Expr → Bool
  | column _ own => own == name
  | _ => false

end Expr

namespace Output

/-- The field of an output in a scope. -/
def resolve (scope : Scope) (o : Output) : Attempt Field := do
  let term ← o.expr.resolve scope
  .ok ⟨term, if o.expr.isColumnNamed o.name then none else some o.name⟩

end Output

namespace JoinKey

/-- The conjunct of a join key in a scope. -/
def resolve (scope : Scope) (key : JoinKey) : Attempt Conjunct := do
  let left ← key.left.resolve scope
  let right ← key.right.resolve scope
  .ok (.equal left right)

end JoinKey

namespace Selection

/-- The filter of a selection in a scope. -/
def resolveFilter (scope : Scope) (s : Selection) : Attempt (Option Term) :=
  match s.filter? with
  | none => .ok none
  | some filter => do
    if filter.hasAggregate then .error (.invalidExpression .aggregateFilter)
    let term ← filter.resolve scope
    .ok (some term)

/-- The clauses of a SELECT and its FROM. `visible` are the relations of the source and `source`
resolves it in their scope. -/
def resolve (s : Selection) (visible : List Relation)
    (source : Scope → Nat → Attempt (FromItem × Nat)) (n : Nat) :
    Attempt (Clauses × FromItem × Nat) := do
  if s.outputs.isEmpty then .error (.invalidExpression .noOutputs)
  let (scope, n) := Scope.bindAll [] visible n
  let fields ← s.outputs.mapM (Output.resolve scope)
  let (item, n) ← source scope n
  let filter? ← s.resolveFilter scope
  Bound.checkBoth s.limit? s.offset?
  .ok (⟨fields, filter?, s.distinct, s.limit?, s.offset?⟩, item, n)

end Selection

namespace Source

/-- The condition of a join in a scope, as a list of at most one conjunct. -/
def resolveCondition (scope : Scope) : Option Expr → Attempt (List Conjunct)
  | none => .ok []
  | some condition => do
    let term ← condition.resolve scope
    .ok [.holds term]

/-- The FROM item of a source in the scope of the SELECT that reads it. -/
def resolve : Source → Scope → Nat → Attempt (FromItem × Nat)
  | table id name columns, scope, n => do
    let owner ← scope.owner ⟨id, .table name, columns⟩
    .ok (.table name owner, n)
  | derived id source selection, scope, n => do
    let (clauses, item, n) ← selection.resolve source.visible source.resolve n
    let owner ← scope.owner ⟨id, .derived, selection.names⟩
    .ok (.select clauses item owner, n)
  | join left right kind keys condition?, scope, n => do
    let (l, n) ← left.resolve scope n
    let (r, n) ← right.resolve scope n
    let equalities ← keys.mapM (JoinKey.resolve scope)
    let extra ← resolveCondition scope condition?
    .ok (.join kind l r (equalities ++ extra), n)

end Source

namespace Query

/-- The statement of a query. -/
def statement (q : Query) : Attempt Statement := do
  let (clauses, item, _) ← q.selection.resolve q.source.visible q.source.resolve 1
  .ok ⟨clauses, item⟩

/-- The SQL text of a query. -/
def sql (d : Dialect) (q : Query) : Attempt String := do
  let s ← q.statement
  .ok (s.text d)

end Query

end LazyFrame
