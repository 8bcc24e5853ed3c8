import LazyFrame.Value.Text

/-!
# Bounds on rows

A bound is what a plan says about how many rows to keep or to skip. Every operation on plans makes
bounds of numbers. A plan that is put together by hand may carry anything there: nothing at all,
which keeps its place all the same, words, which are written as they are, or something that cannot
be written.
-/

namespace LazyFrame

/-- How many rows. -/
inductive Bound where
  | rows (count : Number)
  | nothing
  | words (text : String) (isFilled : Bool)
  | wordless
  deriving DecidableEq, Inhabited

namespace Bound

/-- The text of a bound. -/
def text : Bound → String
  | rows count => count.text
  | nothing => "null"
  | words text _ => text
  | wordless => ""

/-- Whether a bound on skipped rows is one: a zero is not, nor is what is no number. -/
def isEffective : Bound → Bool
  | rows count => count.isNonzero
  | nothing => false
  | words _ isFilled => isFilled
  | wordless => true

/-- Whether a bound can be written. -/
def check : Bound → Attempt Unit
  | wordless => .error .noText
  | _ => .ok ()

/-- Whether the bounds that are there can be written. -/
def checkBoth (limit? offset? : Option Bound) : Attempt Unit := do
  limit?.forM check
  offset?.forM check

/-- The bound that a value gives, none if it is missing. -/
def ofValue? (v : Value) : Option Bound :=
  match v with
  | .missing => none
  | .null => some nothing
  | .number n => some (rows n)
  | other =>
    match other.asText with
    | .ok shown => some (words shown other.isFilled)
    | .error _ => some wordless

end Bound

end LazyFrame
