import LazyFrame.Spec.Build
import LazyFrame.Proofs.Rows.Table

/-!
# Descriptions carried out on tables

The reading of a description that knows nothing of plans: `FrameSpec.perform` starts from the rows
of a table and carries out one step after the other on the table that is there, its own columns and
its own rows. An expression becomes a function of a row (`ExprSpec.meaning`), and the right side of
a merge is carried out to a table of its own before the two are looped over, and a left merge pads
with NULL. What cannot be done is refused with the fault of the step: a column that is not there, a
name that stands twice, a merge without keys.

Behind each step stands a description of its own, the one that ends there, and so does the right
side of a merge. `FrameSpec.parts` lists them all.
-/

namespace LazyFrame

variable {α : Type}

/-! ## Expressions -/

namespace Table

/-- The cells of a column, if there is one of that name. -/
def column (S : Scalars α) (t : Table α) (name : String) : Attempt (List α → α) :=
  if t.names.contains name then .ok fun row => t.cell S row name
  else .error (.unknownColumn name (some (.lookup t.names)))

end Table

namespace ExprSpec

/-- An operator by its name on operands; one that is not there is a missing literal. -/
def appliedTo (S : Scalars α) (name : String) (operands : List (List α → α)) :
    Attempt (List α → α) :=
  let first := operands.getD 0 fun _ => S.literal .missing
  let second := operands.getD 1 fun _ => S.literal .missing
  match UnaryOp.ofName? name, BinaryOp.ofName? name with
  | some unary, _ => .ok fun row => S.unary unary (first row)
  | none, some binary => .ok fun row => S.binary binary (first row) (second row)
  | none, none => .error (.badRequest (.unknownOperator name))

mutual

/-- What an expression makes of the rows of a table. -/
def meaning (S : Scalars α) (t : Table α) : ExprSpec → Attempt (List α → α)
  | col name => t.column S name
  | lit v => .ok fun _ => S.literal v
  | op name args => do
    let operands ← meanings S t args
    appliedTo S name operands

/-- What operands make of the rows of a table. -/
def meanings (S : Scalars α) (t : Table α) : List ExprSpec → Attempt (List (List α → α))
  | [] => .ok []
  | arg :: rest => do
    let first ← meaning S t arg
    let others ← meanings S t rest
    .ok (first :: others)

end

end ExprSpec

/-! ## Steps -/

namespace Table

/-- All rows of a table of the database. -/
def ofInfo (db : Database α) (info : TableInfo) : Table α :=
  ⟨info.columnNames, (db info.name).map fun cells => info.columnNames.map cells⟩

/-- Keeps some columns: at least one, none twice, and all of them there. -/
def select? (S : Scalars α) (t : Table α) (names : List String) : Attempt (Table α) := do
  if names.isEmpty then .error (.invalidOperation .emptySelection)
  checkUnique names
  let _ ← names.mapM (t.column S)
  .ok (t.select S names)

/-- Renames columns that are there; no name stands twice afterwards. -/
def rename? (t : Table α) (mapping : List (String × String)) : Attempt (Table α) := do
  mapping.forM fun entry =>
    if t.names.contains entry.1 then .ok () else .error (.unknownColumn entry.1 (some .toRename))
  checkUnique (t.rename mapping).names
  .ok (t.rename mapping)

/-- Leaves out columns that are there; at least one has to stay. -/
def drop? (S : Scalars α) (t : Table α) (names : List String) : Attempt (Table α) := do
  names.forM fun name =>
    if t.names.contains name then .ok () else .error (.unknownColumn name (some .toDrop))
  if (t.drop S names).names.isEmpty then .error (.invalidOperation .everythingDropped)
  .ok (t.drop S names)

/-- Keeps the rows of a window that two values give. -/
def slice? (t : Table α) (start stop : Value) : Attempt (Table α) := do
  let w ← Window.ofValues start stop
  .ok (t.slice w.start.count (w.stop?.map Number.count))

/-- Merges two tables as the options say. -/
def merge? (S : Scalars α) (t u : Table α) (options : MergeOptions) : Attempt (Table α) := do
  let kind ← options.kind
  let (leftNames, rightNames) ← options.keys t.names u.names
  let _ ← (leftNames.zip rightNames).mapM fun names => do
    let l ← t.column S names.1
    let r ← u.column S names.2
    Except.ok (l, r)
  .ok (t.merge S u kind (leftNames.zip rightNames))

end Table

section Steps

variable [DecidableEq α] (S : Scalars α) (db : Database α) (c : Catalog)

mutual

/-- Carries out a step on a table. -/
def StepSpec.perform (t : Table α) : StepSpec → Attempt (Table α)
  | .select columns => t.select? S columns
  | .assign name expr => do
    let f ← expr.meaning S t
    .ok (t.assign S name f)
  | .rename mapping => t.rename? mapping
  | .drop columns => t.drop? S columns
  | .filter predicate => do
    let f ← predicate.meaning S t
    .ok (t.filter S f)
  | .merge right on? leftOn? rightOn? how? => do
    let u ← FrameSpec.perform right
    t.merge? S u ⟨on?, leftOn?, rightOn?, how?⟩
  | .distinct => .ok t.distinct
  | .slice start? stop? => t.slice? (boundValue start?) (boundValue stop?)

/-- Carries out steps one after the other. -/
def StepSpec.performAll (t : Table α) : List StepSpec → Attempt (Table α)
  | [] => .ok t
  | step :: rest => do
    let u ← StepSpec.perform t step
    StepSpec.performAll u rest

/-- Carries out a description from the rows of its table on. -/
def FrameSpec.perform : FrameSpec → Attempt (Table α)
  | .mk table steps => do
    let info ← c.table table
    StepSpec.performAll (Table.ofInfo db info) steps

end

end Steps

/-! ## Parts -/

mutual

/-- The parts of the description that a step merges, if it merges one. -/
def StepSpec.parts : StepSpec → List FrameSpec
  | .merge right _ _ _ _ => FrameSpec.parts right
  | _ => []

/-- What is described behind some steps, with each of the following ones and with what these
merge. -/
def FrameSpec.partsFrom (table : String) (front : List StepSpec) : List StepSpec → List FrameSpec
  | [] => [.mk table front]
  | step :: rest =>
    .mk table front :: (StepSpec.parts step ++ FrameSpec.partsFrom table (front ++ [step]) rest)

/-- All that is described on the way of a description: after each of its steps, and on the way of
what it merges. -/
def FrameSpec.parts : FrameSpec → List FrameSpec
  | .mk table steps => FrameSpec.partsFrom table [] steps

end

namespace FrameSpec

/-- The steps in front describe the first part. -/
theorem mem_partsFrom (table : String) (front rest : List StepSpec) :
    mk table front ∈ partsFrom table front rest := by
  cases rest with
  | nil => exact List.mem_singleton_self _
  | cons step rest => exact List.mem_cons_self

/-- All steps together describe the last part. -/
theorem append_mem_partsFrom (table : String) (front rest : List StepSpec) :
    mk table (front ++ rest) ∈ partsFrom table front rest := by
  induction rest generalizing front with
  | nil =>
    rw [List.append_nil]
    exact List.mem_singleton_self _
  | cons step rest ih =>
    rw [List.append_cons]
    exact List.mem_cons_of_mem _ (List.mem_append_right _ (ih (front ++ [step])))

/-- A description is a part of itself. -/
theorem mem_parts (spec : FrameSpec) : spec ∈ spec.parts := by
  obtain ⟨table, steps⟩ := spec
  exact append_mem_partsFrom table [] steps

end FrameSpec

/-! ## Exact windows -/

mutual

/-- No slice of a step ends beyond `2 ^ 53`, where whole numbers are no longer kept exactly. -/
def StepSpec.IsExact : StepSpec → Prop
  | .slice _ stop? => ∀ stop ∈ stop?, stop.count ≤ 2 ^ 53
  | .merge right _ _ _ _ => FrameSpec.IsExact right
  | _ => True

/-- No slice of the steps does. -/
def StepSpec.AreExact : List StepSpec → Prop
  | [] => True
  | step :: rest => StepSpec.IsExact step ∧ StepSpec.AreExact rest

/-- No slice of a description does, nor of the descriptions that it merges. -/
def FrameSpec.IsExact : FrameSpec → Prop
  | .mk _ steps => StepSpec.AreExact steps

end

end LazyFrame
