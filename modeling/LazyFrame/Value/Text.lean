import LazyFrame.Fault
import LazyFrame.Number.Reader

/-!
# Values as text and as numbers

`Value.asText` is what a value looks like inside a sentence: a list is its items with commas between
them, where nothing stands for an absent item, an instant is its long text, and a record is the same
two words whatever it holds. A record with a field `toString` claims to know its text better and has
none at all.

`Value.asNumber` is the number that a value stands for where one is wanted whatever comes: a text is
read, truth values and `null` are one and zero, and a list is read as its text. `Value.toNumber` is
stricter: it reads the single value of a statement.
-/

namespace LazyFrame.Value

/-! ## Text -/

mutual

/-- The text of a value. -/
def asText : Value → Attempt String
  | .missing => .ok "undefined"
  | .null => .ok "null"
  | .bool b => .ok (if b then "true" else "false")
  | .number n => .ok n.text
  | .integer n => .ok (toString n)
  | .text s => .ok s
  | .half _ => .ok "\uFFFD"
  | .instant (some ms) => .ok (Instant.longText ms)
  | .instant none => .ok "Invalid Date"
  | .list items => do
    let texts ← itemTexts items
    .ok (",".intercalate texts)
  | .record fields =>
    if fields.any (·.1 == "toString") then .error .noText else .ok "[object Object]"

/-- The texts of the items of a list. -/
def itemTexts : List Value → Attempt (List String)
  | [] => .ok []
  | item :: rest => do
    let own ← if item.isAbsent then .ok "" else asText item
    let others ← itemTexts rest
    .ok (own :: others)

end

/-! ## Numbers -/

/-- The number that a value stands for. An exact integer is not taken for one. -/
def asNumber (v : Value) : Attempt Number :=
  match v with
  | .missing | .half _ | .instant none => .ok .nan
  | .null => .ok 0
  | .bool b => .ok (if b then 1 else 0)
  | .number n => .ok n
  | .integer _ => .error .exactIntegerAsNumber
  | .text s => .ok (Number.ofText s)
  | .instant (some ms) => .ok (Number.ofInt ms)
  | .list _ | .record _ => do
    let shown ← v.asText
    .ok (Number.ofText shown)

/-- The number that the single value of a statement stands for, `none` when it is absent. A text has
to spell a finite number. -/
def toNumber (v : Value) (statement : String) : Attempt (Option Number) :=
  let refused :=
    Fault.execution ("expected a numeric result, got " ++ v.kindName) (some statement) none
  match v with
  | .missing | .null => .ok none
  | .number n => .ok (some n)
  | .integer n => .ok (some (Number.ofInt n))
  | .text s =>
    let n := Number.ofText s
    if (Text.trim s.toList).isEmpty || !n.isFinite then .error refused else .ok (some n)
  | _ => .error refused

end LazyFrame.Value
