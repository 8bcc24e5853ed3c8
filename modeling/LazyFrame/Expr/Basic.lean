import LazyFrame.Expr.Given

/-!
# Expressions

An expression is built from columns of relations, literals, operators and aggregates; a value that
was handed in where an expression is expected stands for itself. `Expr.columns` lists the columns it
refers to from left to right, and `Expr.substitute` sends its columns to other relations: every
column whose relation has an image under the map refers to the image afterwards, all at once.
`Expr.redirect?` does the same and says whether anything had an image at all; an expression that is
not redirected stays the same one.

`Expr.references` lists the columns together with those that handed-in values describe, and fails if
one of them describes nothing. Of an expression without such values it lists the columns and nothing
else.
-/

namespace LazyFrame

/-! ## Operators -/

/-- An operator with two operands. -/
inductive BinaryOp where
  | add | sub | mul | div | mod
  | eq | ne | lt | le | gt | ge
  | and | or
  deriving DecidableEq, Inhabited

/-- An operator with one operand. -/
inductive UnaryOp where
  | not | neg | isNull | notNull
  deriving DecidableEq, Inhabited

/-- A function that makes one value of all rows. -/
inductive AggregateFn where
  | sum | avg | min | max | count
  deriving DecidableEq, Inhabited

namespace BinaryOp

/-- The operator as SQL writes it. -/
def symbol : BinaryOp → String
  | add => "+" | sub => "-" | mul => "*" | div => "/" | mod => "%"
  | eq => "=" | ne => "<>" | lt => "<" | le => "<=" | gt => ">" | ge => ">="
  | and => "AND" | or => "OR"

/-- All operators with the names requests use for them. -/
def named : List (String × BinaryOp) :=
  [("add", add), ("sub", sub), ("mul", mul), ("div", div), ("mod", mod), ("eq", eq),
    ("ne", ne), ("lt", lt), ("le", le), ("gt", gt), ("ge", ge), ("and", and), ("or", or)]

/-- The operator with a name. -/
def ofName? (name : String) : Option BinaryOp := named.lookup name

end BinaryOp

namespace UnaryOp

/-- All operators with the names requests use for them. -/
def named : List (String × UnaryOp) :=
  [("not", not), ("neg", neg), ("isNull", isNull), ("notNull", notNull)]

/-- The operator with a name. -/
def ofName? (name : String) : Option UnaryOp := named.lookup name

end UnaryOp

namespace AggregateFn

/-- The function as SQL writes it. -/
def symbol : AggregateFn → String
  | sum => "SUM" | avg => "AVG" | min => "MIN" | max => "MAX" | count => "COUNT"

/-- All functions with the names of their builders. -/
def named : List (String × AggregateFn) :=
  [("sum", sum), ("avg", avg), ("min", min), ("max", max), ("count", count)]

/-- The function with a name. -/
def ofName? (name : String) : Option AggregateFn := named.lookup name

end AggregateFn

/-! ## Expressions -/

/-- An expression. `countRows` counts rows without looking at any column, and `given` is a value in
the place of an expression. -/
inductive Expr where
  | column (relation : Relation) (name : String)
  | literal (value : Value)
  | binary (op : BinaryOp) (left right : Expr)
  | unary (op : UnaryOp) (operand : Expr)
  | aggregate (fn : AggregateFn) (operand : Expr)
  | countRows
  | given (description : Value)
  deriving Inhabited

/-- A column of a relation. -/
structure ColumnRef where
  relation : Relation
  name : String
  deriving DecidableEq, Inhabited

/-- What an expression refers to: a column of a relation, or what a description gives for one. -/
inductive Reference where
  | known (ref : ColumnRef)
  | noted (note : Given.ColumnNote)
  deriving Inhabited

/-- A finite map of relations. -/
abbrev Relabelling := List (Relation × Relation)

namespace Expr

/-- The columns an expression refers to, from left to right. -/
def columns : Expr → List ColumnRef
  | column relation name => [⟨relation, name⟩]
  | literal _ => []
  | binary _ left right => left.columns ++ right.columns
  | unary _ operand => operand.columns
  | aggregate _ operand => operand.columns
  | countRows => []
  | given _ => []

/-- Whether no value stands in the place of an expression. -/
def isBuilt : Expr → Bool
  | binary _ left right => left.isBuilt && right.isBuilt
  | unary _ operand => operand.isBuilt
  | aggregate _ operand => operand.isBuilt
  | given _ => false
  | _ => true

/-- What an expression refers to, from left to right; `none` if it has no list of that. -/
def listing : Expr → Attempt (Given.Listing Reference)
  | column relation name => .ok (some [.known ⟨relation, name⟩])
  | literal _ => .ok (some [])
  | binary _ left right => do
    let l ← left.listing >>= Given.spread
    let r ← right.listing >>= Given.spread
    .ok (some (l ++ r))
  | unary _ operand => operand.listing
  | aggregate _ operand => operand.listing
  | countRows => .ok (some [])
  | given description => do
    let notes ← Given.columns description
    .ok (notes.map fun notes => notes.map .noted)

/-- What an expression refers to, from left to right. -/
def references (e : Expr) : Attempt (List Reference) := e.listing >>= Given.spread

theorem listing_of_isBuilt {e : Expr} (h : e.isBuilt = true) :
    e.listing = .ok (some (e.columns.map .known)) := by
  induction e with
  | column | literal | countRows => rfl
  | binary op left right ihl ihr =>
    simp only [isBuilt, Bool.and_eq_true] at h
    simp only [listing, ihl h.1, ihr h.2, columns, List.map_append]
    rfl
  | unary op operand ih | aggregate fn operand ih => exact ih h
  | given description => simp [isBuilt] at h

/-- An expression that builders made refers to its columns. -/
theorem references_of_isBuilt {e : Expr} (h : e.isBuilt = true) :
    e.references = .ok (e.columns.map .known) := by
  rw [references, listing_of_isBuilt h]
  rfl

/-- Whether an aggregate occurs in an expression. -/
def hasAggregate : Expr → Bool
  | column _ _ => false
  | literal _ => false
  | binary _ left right => left.hasAggregate || right.hasAggregate
  | unary _ operand => operand.hasAggregate
  | aggregate _ _ => true
  | countRows => true
  | given description => Given.hasAggregate description

/-- The expression over the images of its relations; `none` when none of them has an image. -/
def redirect? (map : Relabelling) : Expr → Option Expr
  | column relation name => (map.lookup relation).map fun image => column image name
  | literal _ => none
  | binary op left right =>
    match left.redirect? map, right.redirect? map with
    | none, none => none
    | left?, right? => some (binary op (left?.getD left) (right?.getD right))
  | unary op operand => (operand.redirect? map).map (unary op)
  | aggregate fn operand => (operand.redirect? map).map (aggregate fn)
  | countRows => none
  | given _ => none

/-- The expression over the images of its relations. -/
def substitute (map : Relabelling) (e : Expr) : Expr := (e.redirect? map).getD e

/-- Both predicates, or the one that is there. -/
def conjoin : Option Expr → Option Expr → Option Expr
  | some a, some b => some (binary .and a b)
  | some a, none => some a
  | none, b => b

end Expr

/-! ## Operands -/

/-- What a builder takes for an operand: an expression, or a bare value. A simple value becomes a
literal, and any other one is taken for an expression. -/
inductive Operand where
  | expr (e : Expr)
  | bare (value : Value)
  deriving Inhabited

namespace Operand

/-- The expression of an operand. -/
def toExpr : Operand → Expr
  | expr e => e
  | bare v => if v.isObject then .given v else .literal v

/-- The expression of an operand that no builder takes, and for which no literal is made. -/
def asGiven : Operand → Expr
  | expr e => e
  | bare v => .given v

/-- Whether an operand is an expression already. -/
def isExpr : Operand → Bool
  | expr _ => true
  | bare v => v.isObject

/-- Whether an operand counts as present. -/
def isFilled : Operand → Bool
  | expr _ => true
  | bare v => v.isFilled

/-- Whether an operand is absent. -/
def isAbsent : Operand → Bool
  | expr _ => false
  | bare v => v.isAbsent

/-- The conjunction of two operands that are present; else the first one, unless it is absent. -/
def conjoin (a b : Operand) : Operand :=
  if a.isFilled && b.isFilled then .expr (.binary .and a.toExpr b.toExpr)
  else if a.isAbsent then b else a

/-- Applies the builder with a name. An operand that is not given is a missing value, and one that
is not needed is ignored; `count` without an operand counts rows. -/
def build? (name : String) (args : List Operand) : Option Operand :=
  let first := args.getD 0 (.bare .missing)
  let second := args.getD 1 (.bare .missing)
  match BinaryOp.ofName? name, UnaryOp.ofName? name, AggregateFn.ofName? name with
  | some op, _, _ => some (.expr (.binary op first.toExpr second.toExpr))
  | none, some op, _ => some (.expr (.unary op first.toExpr))
  | none, none, some .count =>
    match first with
    | .bare .missing => some (.expr .countRows)
    | operand => some (.expr (.aggregate .count operand.toExpr))
  | none, none, some fn => some (.expr (.aggregate fn first.toExpr))
  | none, none, none => if name = "conjoin" then some (conjoin first second) else none

end Operand

end LazyFrame
