import LazyFrame.Dialect.Basic
import LazyFrame.Plan.Basic

/-!
# Statements

A statement is a plan in which every column carries the alias of the relation it belongs to.
`Statement.text` prints it. Nothing can go wrong here any more: what a statement says is settled,
and a dialect only decides how identifiers, tables and windows are spelled.

An operand that is itself made by an operator stands in parentheses, so the text of an expression
shows its structure without any rule of precedence.
-/

namespace LazyFrame

/-! ## Expressions with aliases -/

/-- An expression whose columns carry aliases; a literal is its text, and `ready` is a text that was
there already. -/
inductive Term where
  | column (owner name : String)
  | literal (text : String)
  | binary (op : BinaryOp) (left right : Term)
  | unary (op : UnaryOp) (operand : Term)
  | aggregate (fn : AggregateFn) (operand : Term)
  | countRows
  | ready (text : String) (isCompound : Bool)
  deriving DecidableEq, Inhabited

namespace Term

/-- Whether a term is made by an operator. -/
def isCompound : Term → Bool
  | binary _ _ _ => true
  | unary _ _ => true
  | ready _ isCompound => isCompound
  | _ => false

/-- Whether a term is a column. -/
def isColumn : Term → Bool
  | column _ _ => true
  | _ => false

/-- A text in parentheses, or as it is. -/
def parenthesised (needed : Bool) (text : String) : String :=
  if needed then "(" ++ text ++ ")" else text

/-- The text of a term. -/
def text (d : Dialect) : Term → String
  | column owner name => owner ++ "." ++ d.identifier name
  | literal text => text
  | binary op left right =>
    parenthesised left.isCompound (left.text d) ++ " " ++ op.symbol ++ " " ++
      parenthesised right.isCompound (right.text d)
  | unary .not operand => "NOT " ++ parenthesised operand.isCompound (operand.text d)
  | unary .neg operand => "-" ++ parenthesised (!operand.isColumn) (operand.text d)
  | unary .isNull operand => parenthesised operand.isCompound (operand.text d) ++ " IS NULL"
  | unary .notNull operand => parenthesised operand.isCompound (operand.text d) ++ " IS NOT NULL"
  | aggregate fn operand => fn.symbol ++ "(" ++ operand.text d ++ ")"
  | countRows => AggregateFn.count.symbol ++ "(*)"
  | ready text _ => text

/-- The text of a term as an operand. -/
def operandText (d : Dialect) (t : Term) : String := parenthesised t.isCompound (t.text d)

end Term

/-! ## Clauses -/

/-- An output of a SELECT. Its name is written unless it is a column of that name. -/
structure Field where
  term : Term
  label? : Option String
  deriving DecidableEq, Inhabited

/-- One conjunct of a join: two terms are equal, or a term holds. -/
inductive Conjunct where
  | equal (left right : Term)
  | holds (term : Term)
  deriving DecidableEq, Inhabited

/-- Everything in a SELECT but its FROM. -/
structure Clauses where
  fields : List Field
  filter? : Option Term
  distinct : Bool
  limit? : Option Bound
  offset? : Option Bound
  deriving DecidableEq, Inhabited

/-- The FROM of a SELECT. -/
inductive FromItem where
  | table (name owner : String)
  | select (clauses : Clauses) (source : FromItem) (owner : String)
  | join (kind : JoinKind) (left right : FromItem) (conjuncts : List Conjunct)
  deriving Inhabited

/-- A whole statement. -/
structure Statement where
  clauses : Clauses
  source : FromItem
  deriving Inhabited

namespace Field

/-- The text of an output. -/
def text (d : Dialect) (f : Field) : String :=
  match f.label? with
  | some label => f.term.text d ++ " AS " ++ d.identifier label
  | none => f.term.text d

end Field

namespace Conjunct

/-- The text of a conjunct. -/
def text (d : Dialect) : Conjunct → String
  | equal left right => left.operandText d ++ "=" ++ right.operandText d
  | holds term => term.operandText d

end Conjunct

namespace Clauses

/-- The text of a SELECT whose FROM has this text. -/
def text (d : Dialect) (c : Clauses) (source : String) : String :=
  "SELECT" ++ (if c.distinct then " DISTINCT" else "") ++ " " ++
    ", ".intercalate (c.fields.map (Field.text d)) ++ " FROM " ++ source ++
    (match c.filter? with
      | some filter => " WHERE " ++ filter.text d
      | none => "") ++
    d.window c.limit? c.offset?

end Clauses

namespace FromItem

/-- Whether an item is a join. -/
def isJoin : FromItem → Bool
  | join _ _ _ _ => true
  | _ => false

/-- The text of a FROM. A join on the right of another stands in parentheses. -/
def text (d : Dialect) : FromItem → String
  | table name owner => d.table name ++ " AS " ++ owner
  | select clauses source owner => "(" ++ clauses.text d (source.text d) ++ ") AS " ++ owner
  | join kind left right conjuncts =>
    left.text d ++ " " ++ kind.symbol ++ " JOIN " ++
      Term.parenthesised right.isJoin (right.text d) ++ " ON " ++
      " AND ".intercalate (conjuncts.map (Conjunct.text d))

end FromItem

namespace Statement

/-- The text of a statement, closed by a semicolon. -/
def text (d : Dialect) (s : Statement) : String := s.clauses.text d (s.source.text d) ++ ";"

end Statement

end LazyFrame
