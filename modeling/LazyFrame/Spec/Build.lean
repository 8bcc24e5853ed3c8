import LazyFrame.Frame.Basic
import LazyFrame.Spec.Basic

/-!
# From descriptions to frames

Column names of an expression are looked up in the frame that the expression is applied to, and a
step is applied to the frame that the steps before it made. The right side of a merge is built
first, from the same catalog.
-/

namespace LazyFrame

namespace ExprSpec

/-- An operator by its name with operands; one that is not there is a missing literal. -/
def applied (name : String) (operands : List Expr) : Attempt Expr :=
  let first := operands.getD 0 (.literal .missing)
  let second := operands.getD 1 (.literal .missing)
  match UnaryOp.ofName? name, BinaryOp.ofName? name with
  | some unary, _ => .ok (.unary unary first)
  | none, some binary => .ok (.binary binary first second)
  | none, none => .error (.badRequest (.unknownOperator name))

mutual

/-- The expression over the columns of a frame. Operands are looked at before the operator is. -/
def toExpr (f : Frame) : ExprSpec → Attempt Expr
  | col name => f.col name
  | lit value => .ok (.literal value)
  | op name args => do
    let operands ← argExprs f args
    applied name operands

/-- The expressions of operands, from left to right. -/
def argExprs (f : Frame) : List ExprSpec → Attempt (List Expr)
  | [] => .ok []
  | arg :: rest => do
    let first ← toExpr f arg
    let others ← argExprs f rest
    .ok (first :: others)

end

/-- The column that a value names; what is no text names none. -/
def columnOf (f : Frame) (name : Value) : Attempt Expr :=
  match name with
  | .text s => f.col s
  | other => do
    let shown ← other.asText
    .error (.unknownColumn shown (some (.lookup f.columns)))

/-- The expression that a value describes which nobody has read before. A record is one of a column
if it has a field `col`, else one of a literal if it has a field `lit`, else one of an operator;
then it needs a list of operands. -/
def exprOfValue (f : Frame) (v : Value) : Attempt Expr :=
  match v with
  | .record fields =>
    if fields.any (·.1 == "col") then columnOf f (Fields.get fields "col")
    else if fields.any (·.1 == "lit") then .ok (.literal (Fields.get fields "lit"))
    else do
      let _ ← (Fields.get fields "args").listOf "spec.args"
      let operands ← (Fields.get fields "args").items.attach.mapM fun item => exprOfValue f item.1
      let name ← (Fields.get fields "op").asText
      applied name operands
  | .list _ | .instant _ => .error (.fieldOfNothing "undefined" "map")
  | other => do
    let shown ← other.asText
    .error (.notSearchable "col" shown)
termination_by sizeOf v
decreasing_by exact Fields.sizeOf_lt_of_mem_items item.2

end ExprSpec

/-- A bound of a slice as a value. -/
def boundValue (bound? : Option Number) : Value :=
  match bound? with
  | some n => .number n
  | none => .missing

mutual

/-- Applies a step to a frame. -/
def StepSpec.apply (c : Catalog) (f : Frame) : StepSpec → Build Frame
  | .select columns => f.select columns
  | .assign name expr => do
    let e ← expr.toExpr f
    f.assign name e
  | .rename mapping => f.rename mapping
  | .drop columns => f.drop columns
  | .filter predicate => do
    let e ← predicate.toExpr f
    f.filter e
  | .merge right on? leftOn? rightOn? how? => do
    let g ← FrameSpec.build c right
    f.merge g ⟨on?, leftOn?, rightOn?, how?⟩
  | .distinct => f.distinct
  | .slice start? stop? => f.slice (boundValue start?) (boundValue stop?)

/-- Applies steps one after the other. -/
def StepSpec.applyAll (c : Catalog) (f : Frame) : List StepSpec → Build Frame
  | [] => pure f
  | step :: rest => do
    let g ← StepSpec.apply c f step
    StepSpec.applyAll c g rest

/-- The frame that a description describes. -/
def FrameSpec.build (c : Catalog) : FrameSpec → Build Frame
  | .mk table steps => do
    let f ← Frame.ofTable c table
    StepSpec.applyAll c f steps

end

/-- The frame of one more step is that of the step on the frame before. -/
theorem FrameSpec.build_concat (c : Catalog) (table : String) (steps : List StepSpec)
    (step : StepSpec) :
    (mk table (steps ++ [step])).build c = (mk table steps).build c >>= fun f =>
      step.apply c f := by
  have happly : ∀ (f : Frame) (steps : List StepSpec),
      StepSpec.applyAll c f (steps ++ [step]) = StepSpec.applyAll c f steps >>= fun g =>
        step.apply c g := by
    intro f steps
    induction steps generalizing f with
    | nil => simp [StepSpec.applyAll]
    | cons first rest ih =>
      rw [List.cons_append, StepSpec.applyAll, StepSpec.applyAll, bind_assoc]
      exact bind_congr fun g => ih g
  rw [FrameSpec.build, FrameSpec.build, bind_assoc]
  exact bind_congr fun f => happly f steps

/-- The SQL text of the frame that a description describes; identities are taken from `next` on. -/
def FrameSpec.sql (c : Catalog) (next : Nat) (spec : FrameSpec) : Attempt String := do
  let made ← spec.build c next
  made.1.sql

end LazyFrame
