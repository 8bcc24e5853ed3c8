import LazyFrame.Spec.Build

/-!
# Descriptions as values

A description that has been read is data again: a record with the fields of its form and no others,
lists of names where one name would have done, and no value where something was left out.
-/

namespace LazyFrame

namespace Spec

/-- A list of names as a value. -/
def namesValue (names : List String) : Value := .list (names.map .text)

/-- A list of names that may be left out. -/
def optionalNamesValue (names? : Option (List String)) : Value :=
  (names?.map namesValue).getD .missing

/-- A text that may be left out. -/
def optionalTextValue (text? : Option String) : Value := (text?.map .text).getD .missing

/-- A mapping of names as a value. -/
def mappingValue (mapping : List (String × String)) : Value :=
  .record (mapping.map fun entry => (entry.1, .text entry.2))

end Spec

mutual

/-- An expression as a value. -/
def ExprSpec.toValue : ExprSpec → Value
  | .col name => .record [("col", .text name)]
  | .lit value => .record [("lit", value)]
  | .op name args => .record [("op", .text name), ("args", .list (ExprSpec.toValues args))]

/-- Expressions as values. -/
def ExprSpec.toValues : List ExprSpec → List Value
  | [] => []
  | arg :: rest => ExprSpec.toValue arg :: ExprSpec.toValues rest

end

mutual

/-- A step as a value. -/
def StepSpec.toValue : StepSpec → Value
  | .select columns => .record [("op", .text "select"), ("columns", Spec.namesValue columns)]
  | .assign name expr =>
    .record [("op", .text "assign"), ("name", .text name), ("expr", expr.toValue)]
  | .rename mapping => .record [("op", .text "rename"), ("mapping", Spec.mappingValue mapping)]
  | .drop columns => .record [("op", .text "drop"), ("columns", Spec.namesValue columns)]
  | .filter predicate => .record [("op", .text "where"), ("predicate", predicate.toValue)]
  | .merge right on? leftOn? rightOn? how? =>
    .record [("op", .text "merge"), ("right", FrameSpec.toValue right),
      ("on", Spec.optionalNamesValue on?), ("leftOn", Spec.optionalNamesValue leftOn?),
      ("rightOn", Spec.optionalNamesValue rightOn?), ("how", Spec.optionalTextValue how?)]
  | .distinct => .record [("op", .text "distinct")]
  | .slice start? stop? =>
    .record [("op", .text "slice"), ("start", boundValue start?), ("stop", boundValue stop?)]

/-- Steps as values. -/
def StepSpec.toValues : List StepSpec → List Value
  | [] => []
  | step :: rest => StepSpec.toValue step :: StepSpec.toValues rest

/-- A frame as a value. -/
def FrameSpec.toValue : FrameSpec → Value
  | .mk table steps => .record [("table", .text table), ("steps", .list (StepSpec.toValues steps))]

end

end LazyFrame
