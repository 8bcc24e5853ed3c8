/-!
# Relations

A relation is something a column reference can point at: a table of the database, or a sealed plan
that is read as a subquery. Two relations are the same only if they are the same occurrence, so each
carries an `id`; a table that is joined with itself is read through two relations.
-/

namespace LazyFrame

/-- Where the rows of a relation come from. -/
inductive Origin where
  | table (name : String)
  | derived
  deriving DecidableEq, Inhabited

namespace Origin

/-- An origin as messages name it. -/
def describe : Origin → String
  | table name => "table \"" ++ name ++ "\""
  | derived => "a derived table"

end Origin

/-- A relation: its identity, its origin and the names of its columns. -/
structure Relation where
  id : Nat
  origin : Origin
  columns : List String
  deriving DecidableEq, Inhabited

namespace Relation

/-- Whether the relation exposes a column of that name. -/
def exposes (r : Relation) (name : String) : Bool := r.columns.contains name

end Relation

end LazyFrame
