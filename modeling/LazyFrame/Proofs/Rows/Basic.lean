import LazyFrame.Plan.Operations
import LazyFrame.Plan.Merge
import LazyFrame.Proofs.Number.Whole

/-!
# The rows of a query

What a SELECT gives over a database, as lists: the rows of its source in order, those of them for
which the filter is true, the outputs computed on each, equal rows only once under DISTINCT, and
the window cut from what is left. A subquery is read as the list of its rows, a join as the nested
loop over the rows of its sides.

How a database computes is left open (`Scalars`): any type of values with a NULL among them, any
meaning of literals, operators and aggregates, and any notion of a true value for which a
conjunction is true if both sides are. Rows of a source are kept apart by relation (`SourceRow`),
since every column of an expression names the relation it belongs to.
-/

namespace LazyFrame

/-! ## Scalars -/

/-- How a database computes with values. -/
structure Scalars (α : Type) where
  null : α
  literal : Value → α
  /-- What a value means that stands in the place of an expression. -/
  described : Value → α
  unary : UnaryOp → α → α
  binary : BinaryOp → α → α → α
  aggregate : AggregateFn → List α → α
  count : Nat → α
  isTrue : α → Bool
  isTrue_and : ∀ a b, isTrue (binary .and a b) = (isTrue a && isTrue b)

/-- What the columns of relations hold. -/
abbrev Env (α : Type) := Relation → String → α

variable {α : Type}

/-- Nothing but NULL in every column. -/
def Env.blank (S : Scalars α) : Env α := fun _ _ => S.null

namespace Expr

/-- The value of an expression on one row. An aggregate has none there. -/
def value (S : Scalars α) (env : Env α) : Expr → α
  | column relation name => env relation name
  | literal v => S.literal v
  | binary op left right => S.binary op (left.value S env) (right.value S env)
  | unary op operand => S.unary op (operand.value S env)
  | aggregate _ _ | countRows => S.null
  | given description => S.described description

/-- The value of an expression on all rows together. A column has none there outside of an
aggregate. -/
def overall (S : Scalars α) (envs : List (Env α)) : Expr → α
  | column _ _ => S.null
  | literal v => S.literal v
  | binary op left right => S.binary op (left.overall S envs) (right.overall S envs)
  | unary op operand => S.unary op (operand.overall S envs)
  | aggregate fn operand => S.aggregate fn (envs.map fun env => operand.value S env)
  | countRows => S.count envs.length
  | given description => S.described description

end Expr

/-! ## Selections -/

/-- The number of rows of a bound, if it is one. -/
def Bound.count? : Bound → Option Nat
  | rows n => some n.count
  | _ => none

namespace Selection

/-- The outputs on one row. -/
def project (S : Scalars α) (s : Selection) (env : Env α) : List α :=
  s.outputs.map fun o => o.expr.value S env

/-- Whether a row is kept. -/
def keeps (S : Scalars α) (s : Selection) (env : Env α) : Bool :=
  s.filter?.all fun e => S.isTrue (e.value S env)

/-- Whether all rows are put together into one. -/
def isAggregate (s : Selection) : Bool := s.outputs.any (·.expr.hasAggregate)

/-- The window that limit and offset cut. -/
def window {β : Type} (s : Selection) (rows : List β) : List β :=
  let rest := rows.drop ((s.offset?.bind Bound.count?).getD 0)
  match s.limit?.bind Bound.count? with
  | some n => rest.take n
  | none => rest

/-- The rows of a SELECT over the rows of its source. -/
def rows [DecidableEq α] (S : Scalars α) (s : Selection) (source : List (Env α)) : List (List α) :=
  let kept := source.filter (s.keeps S)
  let all :=
    if s.isAggregate then [s.outputs.map fun o => o.expr.overall S kept] else kept.map (s.project S)
  s.window (if s.distinct then all.eraseDups else all)

end Selection

/-! ## Sources -/

/-- A row of a source: for each of its relations, what the columns hold. -/
abbrev SourceRow (α : Type) := List (Relation × (String → α))

namespace SourceRow

/-- The relations of a row. -/
def relations (row : SourceRow α) : List Relation := row.map (·.1)

/-- What the columns hold in a row; where there is nothing they hold NULL. -/
def env (S : Scalars α) (row : SourceRow α) : Env α := fun relation name =>
  match row.lookup relation with
  | some cells => cells name
  | none => S.null

/-- A row of NULL for these relations. -/
def blank (S : Scalars α) (relations : List Relation) : SourceRow α :=
  relations.map fun r => (r, fun _ => S.null)

end SourceRow

/-- The cells of a row by the names of its columns; the first column of a name counts. -/
def cell (S : Scalars α) (names : List String) (row : List α) : String → α := fun name =>
  ((names.zip row).lookup name).getD S.null

/-- The rows of every table, each as what its columns hold. -/
abbrev Database (α : Type) := String → List (String → α)

/-- What a left row is put beside: its partners, or in a left join the blank row if there are
none. -/
def JoinKind.partners {β : Type} (kind : JoinKind) (matching : List β) (blank : β) : List β :=
  match kind with
  | .inner => matching
  | .left => if matching.isEmpty then [blank] else matching

/-- Whether the ON of a join is true. -/
def JoinKey.allMatch (S : Scalars α) (keys : List JoinKey) (condition? : Option Expr)
    (env : Env α) : Bool :=
  (keys.all fun key => S.isTrue (S.binary .eq (key.left.value S env) (key.right.value S env))) &&
    condition?.all fun e => S.isTrue (e.value S env)

section Rows

variable [DecidableEq α] (S : Scalars α) (db : Database α)

/-- The rows of a source, in the order of the nested loops. -/
def Source.rows : Source → List (SourceRow α)
  | table id name columns => (db name).map fun cells => [(⟨id, .table name, columns⟩, cells)]
  | derived id source selection =>
    (selection.rows S (source.rows.map (SourceRow.env S))).map fun row =>
      [(⟨id, .derived, selection.names⟩, cell S selection.names row)]
  | join left right kind keys condition? =>
    left.rows.flatMap fun l =>
      let matching :=
        right.rows.filter fun r => JoinKey.allMatch S keys condition? (SourceRow.env S (l ++ r))
      (kind.partners matching (SourceRow.blank S right.visible)).map (l ++ ·)

namespace Query

/-- The rows of a query. -/
def rows (q : Query) : List (List α) :=
  q.selection.rows S ((q.source.rows S db).map (SourceRow.env S))

end Query

end Rows

/-! ## Integers -/

namespace Integers

/-- What the operators make of two integers that are both there. A truth value is `1` or `0`, and
there is no quotient by zero. -/
def binary : BinaryOp → Int → Int → Option Int
  | .add, x, y => some (x + y)
  | .sub, x, y => some (x - y)
  | .mul, x, y => some (x * y)
  | .div, x, y => if y = 0 then none else some (x.tdiv y)
  | .mod, x, y => if y = 0 then none else some (x.tmod y)
  | .eq, x, y => some (if x = y then 1 else 0)
  | .ne, x, y => some (if x = y then 0 else 1)
  | .lt, x, y => some (if x < y then 1 else 0)
  | .le, x, y => some (if x ≤ y then 1 else 0)
  | .gt, x, y => some (if y < x then 1 else 0)
  | .ge, x, y => some (if y ≤ x then 1 else 0)
  | .and, x, y => some (if x = 0 ∨ y = 0 then 0 else 1)
  | .or, x, y => some (if x = 0 ∧ y = 0 then 0 else 1)

/-- The aggregates of the integers that are there. -/
def aggregate (fn : AggregateFn) (values : List (Option Int)) : Option Int :=
  match fn, values.filterMap id with
  | .count, present => some present.length
  | _, [] => none
  | .sum, present => some present.sum
  | .avg, present => some (present.sum.tdiv present.length)
  | .min, first :: rest => some (rest.foldl min first)
  | .max, first :: rest => some (rest.foldl max first)

/-- Whether an integer counts as true. -/
def isTrue : Option Int → Bool
  | none => false
  | some x => x != 0

end Integers

/-- A database of integers and NULL that computes as SQL does: operators give NULL for NULL, but a
false side decides a conjunction and a true one a disjunction, and the tests for NULL always have an
answer. Literals that are no numbers count as zero. -/
def Scalars.integers : Scalars (Option Int) where
  null := none
  literal
    | .null | .missing => none
    | .bool b => some (if b then 1 else 0)
    | .integer n => some n
    | .number n => n.toRat?.map Rat.floor
    | _ => some 0
  described _ := none
  unary
    | .isNull, v => some (if v.isNone then 1 else 0)
    | .notNull, v => some (if v.isSome then 1 else 0)
    | .not, v => v.map fun x => if x = 0 then 1 else 0
    | .neg, v => v.map fun x => -x
  binary op a b :=
    match op, a, b with
    | op, some x, some y => Integers.binary op x y
    | .and, some 0, none | .and, none, some 0 => some 0
    | .or, some x, none | .or, none, some x => if x = 0 then none else some 1
    | _, _, _ => none
  aggregate := Integers.aggregate
  count n := some n
  isTrue := Integers.isTrue
  isTrue_and a b := by
    cases a with
    | none =>
      cases b with
      | none => rfl
      | some y => by_cases hy : y = 0 <;> simp [Integers.isTrue, hy]
    | some x =>
      cases b with
      | none => by_cases hx : x = 0 <;> simp [Integers.isTrue, hx]
      | some y =>
        by_cases hx : x = 0 <;> by_cases hy :
          y = 0 <;> simp [Integers.binary, Integers.isTrue, hx, hy]

/-- Three tracks, two of them on the one album that is there. -/
def Database.music : Database (Option Int)
  | "tracks" =>
    [fun | "TrackId" => some 1 | "AlbumId" => some 7 | _ => none,
      fun | "TrackId" => some 2 | "AlbumId" => some 7 | _ => none,
      fun | "TrackId" => some 3 | "AlbumId" => some 8 | _ => none]
  | "albums" => [fun | "AlbumId" => some 7 | _ => none]
  | _ => []

end LazyFrame
