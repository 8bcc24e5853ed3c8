import LazyFrame.Expr.Basic
import LazyFrame.Spec.Basic
import LazyFrame.Value.Text

/-!
# Reading descriptions

A description is read from a value as it comes out of JSON. An expression is a record with a column
name `col`, else one with a literal `lit`, else one with an operator `op` and as many `args` as it
takes. A step is a record with a known `op` and the fields of that step; a list of columns may be
given as one name, and bounds of a slice and all options of a merge may be left out. A frame is a
record with a table name and, if there are any, a list of steps. Fields that are not asked for are
ignored, and no name may be empty.

Everything that is read is smaller than the value it is read from, which is why reading ends.
-/

namespace LazyFrame

/-! ## Fields -/

namespace Spec

/-- A name is a text that is not empty. -/
def name? : Value → Option String
  | .text s => if s = "" then none else some s
  | _ => none

/-- The names of a list of values, if all of them are names. -/
def names? : List Value → Option (List String)
  | [] => some []
  | item :: rest =>
    match name? item, names? rest with
    | some first, some others => some (first :: others)
    | _, _ => none

/-- One name or a list of names. -/
def nameList (what : String) (v : Value) : Attempt (List String) :=
  match name? v, v with
  | some name, _ => .ok [name]
  | none, .list items =>
    match names? items with
    | some names => .ok names
    | none => .error (.badRequest (.columnList what))
  | none, _ => .error (.badRequest (.columnList what))

/-- One name or a list of names, or no field at all. -/
def optionalNames (what : String) (v : Value) : Attempt (Option (List String)) :=
  match v with
  | .missing => .ok none
  | v => (nameList what v).map some

/-- A whole number, or no field at all. -/
def optionalInteger (what : String) (v : Value) : Attempt (Option Number) :=
  match v with
  | .missing => .ok none
  | .number n => if n.isInteger then .ok (some n) else .error (.badRequest (.integerField what))
  | _ => .error (.badRequest (.integerField what))

/-- Whether a value can be a literal. -/
def isLiteral : Value → Bool
  | .null | .text _ | .number _ | .bool _ => true
  | _ => false

/-- Whether a value is a list. -/
def isList : Value → Bool
  | .list _ => true
  | _ => false

/-- Whether a value is a list or not there at all. -/
def isListOrMissing : Value → Bool
  | .missing => true
  | v => isList v

/-- The number of operands of an operator. -/
def arity? (name : String) : Option Nat :=
  match BinaryOp.ofName? name, UnaryOp.ofName? name with
  | some _, _ => some 2
  | none, some _ => some 1
  | none, none => none

/-- The new names of a mapping; every field has to be a name. -/
def mapping? : List (String × Value) → Option (List (String × String))
  | [] => some []
  | (old, new) :: rest =>
    match name? new, mapping? rest with
    | some first, some others => some ((old, first) :: others)
    | _, _ => none

/-- A field of this name never reaches a mapping. -/
def droppedKey : String := "__proto__"

/-- A mapping of old names to new ones. -/
def mapping (v : Value) : Attempt (List (String × String)) :=
  match v with
  | .record fields =>
    match mapping? fields with
    | some entries => .ok (entries.filter fun entry => entry.1 != droppedKey)
    | none => .error (.badRequest .renameMapping)
  | _ => .error (.badRequest .renameMapping)

/-- A name of a join kind, which need not exist, or no field at all. -/
def joinKind (v : Value) : Attempt (Option String) :=
  match v with
  | .missing => .ok none
  | .text s => .ok (some s)
  | _ => .error (.badRequest .joinKindText)

end Spec

/-! ## Expressions -/

/-- Reads an expression. -/
def ExprSpec.parse (v : Value) : Attempt ExprSpec :=
  match v with
  | .record fields =>
    if fields.any (·.1 == "col") then
      match Spec.name? (Fields.get fields "col") with
      | some name => .ok (.col name)
      | none => .error (.badRequest .columnName)
    else if fields.any (·.1 == "lit") then
      if Spec.isLiteral (Fields.get fields "lit") then .ok (.lit (Fields.get fields "lit"))
      else .error (.badRequest .literalKind)
    else
      match Spec.name? (Fields.get fields "op"), Spec.isList (Fields.get fields "args") with
      | some operator, true =>
        match Spec.arity? operator with
        | none => .error (.badRequest (.unknownOperator operator))
        | some arity =>
          if (Fields.get fields "args").items.length ≠
            arity then .error (.badRequest (.arity operator arity))
          else do
            let args ← (Fields.get fields "args").items.attach.mapM fun item =>
                ExprSpec.parse item.1
            .ok (.op operator args)
      | _, _ => .error (.badRequest .expressionForm)
  | _ => .error (.badRequest .expressionShape)
termination_by sizeOf v
decreasing_by exact Fields.sizeOf_lt_of_mem_items item.2

/-! ## Steps and frames -/

mutual

/-- Reads a step. -/
def StepSpec.parse (v : Value) : Attempt StepSpec :=
  match v with
  | .record fields =>
    match Fields.get fields "op" with
    | .text "select" => do
      let columns ← Spec.nameList "select.columns" (Fields.get fields "columns")
      .ok (.select columns)
    | .text "drop" => do
      let columns ← Spec.nameList "drop.columns" (Fields.get fields "columns")
      .ok (.drop columns)
    | .text "assign" =>
      match Spec.name? (Fields.get fields "name") with
      | none => .error (.badRequest .assignedName)
      | some name => do
        let expr ← ExprSpec.parse (Fields.get fields "expr")
        .ok (.assign name expr)
    | .text "rename" => do
      let entries ← Spec.mapping (Fields.get fields "mapping")
      .ok (.rename entries)
    | .text "where" => do
      let predicate ← ExprSpec.parse (Fields.get fields "predicate")
      .ok (.filter predicate)
    | .text "merge" => do
      let how? ← Spec.joinKind (Fields.get fields "how")
      let right ← FrameSpec.parse (Fields.get fields "right")
      let on? ← Spec.optionalNames "merge.on" (Fields.get fields "on")
      let leftOn? ← Spec.optionalNames "merge.leftOn" (Fields.get fields "leftOn")
      let rightOn? ← Spec.optionalNames "merge.rightOn" (Fields.get fields "rightOn")
      .ok (.merge right on? leftOn? rightOn? how?)
    | .text "distinct" => .ok .distinct
    | .text "slice" => do
      let start? ← Spec.optionalInteger "slice.start" (Fields.get fields "start")
      let stop? ← Spec.optionalInteger "slice.stop" (Fields.get fields "stop")
      .ok (.slice start? stop?)
    | other => do
      let shown ← other.asText
      .error (.badRequest (.unknownStep shown))
  | _ => .error (.badRequest .stepShape)
termination_by sizeOf v
decreasing_by exact Fields.sizeOf_get_lt fields "right"

/-- Reads a frame. -/
def FrameSpec.parse (v : Value) : Attempt FrameSpec :=
  match v with
  | .record fields =>
    match Spec.name? (Fields.get fields "table") with
    | none => .error (.badRequest .tableName)
    | some table =>
      if Spec.isListOrMissing (Fields.get fields "steps") then do
        let steps ← (Fields.get fields "steps").items.attach.mapM fun item => StepSpec.parse item.1
        .ok (.mk table steps)
      else .error (.badRequest .stepList)
  | _ => .error (.badRequest .frameShape)
termination_by sizeOf v
decreasing_by exact Fields.sizeOf_lt_of_mem_items item.2

end

end LazyFrame
