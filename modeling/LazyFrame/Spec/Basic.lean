import LazyFrame.Value.Basic

/-!
# Descriptions of frames

A frame can be described by data: the table it starts from and the steps that follow, each with
columns by name and expressions over such columns. A description knows nothing of a database;
`Spec.Parser` reads one from a value and `Spec.Build` makes the frame it describes.
-/

namespace LazyFrame

/-- An expression over columns by name. -/
inductive ExprSpec where
  | col (name : String)
  | lit (value : Value)
  | op (name : String) (args : List ExprSpec)
  deriving Inhabited

mutual

/-- One step from a frame to the next. -/
inductive StepSpec where
  | select (columns : List String)
  | assign (name : String) (expr : ExprSpec)
  | rename (mapping : List (String × String))
  | drop (columns : List String)
  | filter (predicate : ExprSpec)
  | merge (right : FrameSpec) (on? leftOn? rightOn? : Option (List String)) (how? : Option String)
  | distinct
  | slice (start? stop? : Option Number)

/-- A table and the steps that follow. -/
inductive FrameSpec where
  | mk (table : String) (steps : List StepSpec)

end

instance : Inhabited FrameSpec := ⟨.mk "" []⟩

namespace FrameSpec

/-- The table a frame starts from. -/
def table : FrameSpec → String
  | mk table _ => table

/-- The steps that follow. -/
def steps : FrameSpec → List StepSpec
  | mk _ steps => steps

end FrameSpec

end LazyFrame
