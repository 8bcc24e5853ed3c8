import LazyFrame.Dialect.Basic
import LazyFrame.Value.Parts

/-!
# Expressions that are handed in as values

Expressions are made by builders. Where one is expected a bare value may be handed in instead. A
record then describes an expression by the kind of its node and the parts of that kind, as deep as
it goes; nobody has checked it, so an operator may be anything that has a text. Any other value
describes nothing: it is written as the word `undefined`, and it cannot even be asked for the
columns it refers to. Where there is no value at all there is no kind to look at, which is a fault.

A description has no part in any query: the relation of a column in it is never one that a query
reads. So its text is the same everywhere, and it never changes when relations do.
-/

namespace LazyFrame.Given

/-- The kind of the node that a value describes, empty if it describes none. -/
def kind (v : Value) : String := ((v.field "kind").text?).getD ""

/-- Whether the text of a described expression stands in parentheses when it is an operand. -/
def isCompound (v : Value) : Bool := kind v == "binary" || kind v == "unary"

/-! ## Columns -/

/-- A column that a description refers to: what it gives for a relation and for a name. -/
structure ColumnNote where
  relation : Value
  name : Value
  deriving Inhabited

namespace ColumnNote

/-- Where the rows of a described relation come from, as messages name it. -/
def origin (c : ColumnNote) : Attempt Origin := do
  let kind ← c.relation.fieldOf "kind"
  match kind with
  | .text "table" => do
    let name ← (c.relation.field "table").asText
    .ok (.table name)
  | _ => .ok .derived

end ColumnNote

/-- The columns of an expression; `none` if it has no list of them. -/
abbrev Listing (α : Type) := Option (List α)

/-- The items of a listing that is put into another one. -/
def spread {α : Type} (listing : Listing α) : Attempt (List α) :=
  match listing with
  | some items => .ok items
  | none => .error (.notListed "columnsOf")

/-- The columns of a described expression, from left to right. -/
def columns (v : Value) : Attempt (Listing ColumnNote) :=
  match v with
  | .missing => .error (.fieldOfNothing "undefined" "kind")
  | .null => .error (.fieldOfNothing "null" "kind")
  | .record fields =>
    match kind (.record fields) with
    | "column" => .ok (some [⟨Fields.get fields "relation", Fields.get fields "name"⟩])
    | "literal" => .ok (some [])
    | "binary" => do
      let left ← columns (Fields.get fields "left") >>= spread
      let right ← columns (Fields.get fields "right") >>= spread
      .ok (some (left ++ right))
    | "unary" => columns (Fields.get fields "operand")
    | "aggregate" =>
      if (Fields.get fields "operand").isFilled then columns (Fields.get fields "operand")
        else .ok (some [])
    | _ => .ok none
  | _ => .ok none
termination_by sizeOf v
decreasing_by all_goals exact Fields.sizeOf_get_lt fields _

/-- Whether an aggregate occurs in a described expression. -/
def hasAggregate (v : Value) : Bool :=
  match v with
  | .record fields =>
    match kind (.record fields) with
    | "aggregate" => true
    | "binary" => hasAggregate (Fields.get fields "left") ||
        hasAggregate (Fields.get fields "right")
    | "unary" => hasAggregate (Fields.get fields "operand")
    | _ => false
  | _ => false
termination_by sizeOf v
decreasing_by all_goals exact Fields.sizeOf_get_lt fields _

/-! ## Text -/

/-- A text in parentheses, or as it is. -/
def enclosed (needed : Bool) (text : String) : String := if needed then "(" ++ text ++ ")" else text

/-- The text of a described expression. -/
def text (v : Value) : Attempt String :=
  match v with
  | .missing => .error (.fieldOfNothing "undefined" "kind")
  | .null => .error (.fieldOfNothing "null" "kind")
  | .record fields =>
    let operand := Fields.get fields "operand"
    match kind (.record fields) with
    | "column" => do
      let origin ← (ColumnNote.mk (Fields.get fields "relation") (Fields.get fields "name")).origin
      .error (.invalidExpression (.notInQuery origin))
    | "literal" => Dialect.literal (Fields.get fields "value")
    | "binary" => do
      let left ← text (Fields.get fields "left")
      let operator ← (Fields.get fields "op").asText
      let right ← text (Fields.get fields "right")
      .ok (enclosed (isCompound (Fields.get fields "left")) left ++ " " ++ operator ++ " " ++
        enclosed (isCompound (Fields.get fields "right")) right)
    | "unary" =>
      match Fields.get fields "op" with
      | .text "NOT" => do
        let shown ← text operand
        .ok ("NOT " ++ enclosed (isCompound operand) shown)
      | .text "NEG" => do
        let shown ← text operand
        .ok ("-" ++ enclosed true shown)
      | other => do
        let shown ← text operand
        let operator ← other.asText
        .ok (enclosed (isCompound operand) shown ++ " " ++ operator)
    | "aggregate" => do
      let function ← (Fields.get fields "fn").asText
      let shown ← if operand.isFilled then text operand else .ok "*"
      .ok (function ++ "(" ++ shown ++ ")")
    | _ => .ok "undefined"
  | _ => .ok "undefined"
termination_by sizeOf v
decreasing_by all_goals exact Fields.sizeOf_get_lt fields _

end LazyFrame.Given
