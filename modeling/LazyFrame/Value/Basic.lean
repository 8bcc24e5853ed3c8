import LazyFrame.Number.Shortest
import LazyFrame.Instant
import LazyFrame.Text.Units

/-!
# Values

A `Value` is what a cell of a result, a literal of an expression, a field of a request or an extra
of a log line can hold: the kinds of JSON, exact integers, instants, and `missing` for a field that
is not there. When a text is taken apart into its units, what comes out may be a `half`: one unit of
a character that has two.

The fields of a record are a list in the order in which they are listed everywhere. That order is a
rule of records: names that are row numbers (`"0"`, `"9"`, `"10"`) come first in numeric order, then
the other names in the order of their first appearance. `Fields.put` keeps it, and replaces the
value of a name that is there already.
-/

namespace LazyFrame

/-- A value of any kind. An instant that is `none` is one that no calendar has. -/
inductive Value where
  | missing
  | null
  | bool (value : Bool)
  | number (value : Number)
  | integer (value : Int)
  | text (value : String)
  | half (unit : Nat)
  | instant (milliseconds : Option Int)
  | list (items : List Value)
  | record (fields : List (String × Value))
  deriving Inhabited

/-! ## Records -/

namespace Fields

/-- Greatest row number that counts as one in a field name. -/
def lastPosition : Nat := 4294967294

/-- The row number that a field name spells: digits without a zero in front, up to
`lastPosition`. -/
def position? (name : String) : Option Nat :=
  match name.toList with
  | [] => none
  | '0' :: rest => if rest.isEmpty then some 0 else none
  | cs =>
    if 10 < cs.length ∨ ¬ cs.all Char.isDigit then none
    else
      let n := cs.foldl (fun acc c => acc * 10 + (c.toNat - '0'.toNat)) 0
      if n ≤ lastPosition then some n else none

/-- Whether a new field named `name` stands in front of a field named `other`. -/
def precedes (name other : String) : Bool :=
  match position? name, position? other with
  | some n, some m => n < m
  | some _, none => true
  | none, _ => false

/-- Adds a field that is not there yet. -/
def insert (name : String) (value : Value) : List (String × Value) → List (String × Value)
  | [] => [(name, value)]
  | field :: rest =>
    if precedes name field.1 then (name, value) :: field :: rest
      else field :: insert name value rest

/-- Sets a field: in its place if it is there, else at the place its name has in the order. -/
def put (fields : List (String × Value)) (name : String) (value : Value) : List (String × Value) :=
  if fields.any (·.1 == name) then fields.map fun field => if field.1 ==
    name then (name, value) else field
  else insert name value fields

/-- The fields of a list of settings, the later ones over the earlier ones. -/
def ofList (settings : List (String × Value)) : List (String × Value) :=
  settings.foldl (fun fields setting => put fields setting.1 setting.2) []

/-- The value of a field, `missing` if it is not there. -/
def get (fields : List (String × Value)) (name : String) : Value :=
  (fields.lookup name).getD .missing

end Fields

namespace Value

/-- A record with these fields, in the order of records. -/
def ofFields (settings : List (String × Value)) : Value := .record (Fields.ofList settings)

/-- A field of a record; `missing` of anything else. -/
def field (v : Value) (name : String) : Value :=
  match v with
  | .record fields => Fields.get fields name
  | _ => .missing

/-- One unit of a text as a text of its own. -/
def ofUnit (unit : Nat) : Value :=
  if Text.isHalf unit then .half unit else .text (String.singleton (Char.ofNat unit))

/-- The units of a text as texts of their own. -/
def unitsOf (s : String) : List Value := (Text.unitList s.toList).map ofUnit

/-- The fields that a value spreads into a record: its own, its items under their positions, or its
units. -/
def spread : Value → List (String × Value)
  | .record fields => fields
  | .list items => items.zipIdx.map fun item => (toString item.2, item.1)
  | .text s => (unitsOf s).zipIdx.map fun item => (toString item.2, item.1)
  | _ => []

/-! ## Kinds -/

/-- The word for a value's kind in messages. -/
def kindName : Value → String
  | .missing => "undefined"
  | .bool _ => "boolean"
  | .number _ => "number"
  | .integer _ => "bigint"
  | .text _ | .half _ => "string"
  | .null | .instant _ | .list _ | .record _ => "object"

/-- Whether a value is nothing at all: `missing` or `null`. -/
def isAbsent : Value → Bool
  | .missing | .null => true
  | _ => false

/-- Whether a value counts as present where only presence is asked for: not empty, not zero, not
false. -/
def isFilled : Value → Bool
  | .missing | .null => false
  | .bool b => b
  | .number n => n.isNonzero
  | .integer n => n != 0
  | .text s => s != ""
  | .half _ | .instant _ | .list _ | .record _ => true

/-- Whether a value is made of parts or of a time, and so no simple one. -/
def isObject : Value → Bool
  | .list _ | .record _ | .instant _ => true
  | _ => false

/-- The text of a value that is one. -/
def text? : Value → Option String
  | .text s => some s
  | _ => none

/-- The number of a value that is one. -/
def number? : Value → Option Number
  | .number n => some n
  | _ => none

/-- The items of a list, none of anything else. -/
def items : Value → List Value
  | .list items => items
  | _ => []

end Value

/-! ## Parts of a value are smaller -/

theorem Fields.sizeOf_get_lt (fields : List (String × Value)) (name : String) :
    sizeOf (Fields.get fields name) < sizeOf (Value.record fields) := by
  simp only [Value.record.sizeOf_spec, Fields.get]
  induction fields with
  | nil => simp
  | cons field rest ih =>
    obtain ⟨key, value⟩ := field
    simp only [List.lookup_cons, List.cons.sizeOf_spec, Prod.mk.sizeOf_spec] at ih ⊢
    split <;> simp_all <;> omega

theorem Value.sizeOf_lt_of_mem_items {item v : Value} (h : item ∈ v.items) :
    sizeOf item < sizeOf v := by
  cases v with
  | list items =>
    have := List.sizeOf_lt_of_mem (show item ∈ items from h)
    simp only [Value.list.sizeOf_spec]
    omega
  | _ => simp [Value.items] at h

theorem Fields.sizeOf_lt_of_mem_items {item : Value} {fields : List (String × Value)}
    {name : String} (h : item ∈ (Fields.get fields name).items) :
    sizeOf item < sizeOf (Value.record fields) :=
  Nat.lt_trans (Value.sizeOf_lt_of_mem_items h) (Fields.sizeOf_get_lt fields name)

end LazyFrame
