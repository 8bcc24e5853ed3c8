import LazyFrame.Fault

/-!
# Writing JSON

A value is written in two steps. `image` takes away what JSON cannot hold: a missing field is left
out, a missing item, a number that is not finite and an instant that no calendar has become `null`,
negative zero loses its sign and an instant becomes its text. For an exact integer the writer of the
format has a choice: `ExactIntegers.refused` makes it a fault, `ExactIntegers.asText` a text of its
digits. `write` prints the rest, without blanks.
-/

namespace LazyFrame.Json

/-! ## What JSON can hold -/

/-- What becomes of an exact integer. -/
inductive ExactIntegers where
  | refused
  | asText
  deriving DecidableEq

mutual

/-- The part of a value that JSON can hold. -/
def image (mode : ExactIntegers) : Value → Attempt Value
  | .number (.finite q) => .ok (.number (.finite q))
  | .number .negZero => .ok (.number (.finite 0))
  | .number _ => .ok .null
  | .integer n => if mode = .asText then .ok (.text (toString n)) else .error .exactIntegerInJson
  | .instant (some ms) => .ok (.text (Instant.isoText ms))
  | .instant none => .ok .null
  | .list items => do
    let images ← itemImages mode items
    .ok (.list images)
  | .record fields => do
    let images ← fieldImages mode fields
    .ok (.record images)
  | v => .ok v

/-- The images of the items of a list. -/
def itemImages (mode : ExactIntegers) : List Value → Attempt (List Value)
  | [] => .ok []
  | item :: rest => do
    let own ← image mode item
    let others ← itemImages mode rest
    .ok ((match own with | .missing => .null | other => other) :: others)

/-- The images of the fields of a record, without the missing ones. -/
def fieldImages (mode : ExactIntegers) : List (String × Value) → Attempt (List (String × Value))
  | [] => .ok []
  | (name, value) :: rest => do
    let own ← image mode value
    let others ← fieldImages mode rest
    .ok (match own with | .missing => others | other => (name, other) :: others)

end

/-! ## Text -/

/-- A hexadecimal digit. -/
def hexDigit (n : Nat) : Char := if n < 10 then Char.ofNat (48 + n) else Char.ofNat (87 + n)

/-- A character inside a quoted text: quotes, backslashes and control characters are escaped. -/
def escaped (c : Char) : List Char :=
  if c = '"' then ['\\', '"']
  else if c = '\\' then ['\\', '\\']
  else if c = '\n' then ['\\', 'n']
  else if c = '\r' then ['\\', 'r']
  else if c = '\t' then ['\\', 't']
  else if c.toNat = 8 then ['\\', 'b']
  else if c.toNat = 12 then ['\\', 'f']
  else if c.toNat < 32 then ['\\', 'u', '0', '0', hexDigit (c.toNat / 16), hexDigit (c.toNat % 16)]
  else [c]

/-- A quoted text. -/
def quoted (s : String) : String :=
  String.ofList ('"' :: (s.toList.flatMap escaped ++ ['"']))

/-- Half a character, quoted: it is no character, so it is written as an escape. -/
def quotedHalf (unit : Nat) : String :=
  String.ofList
    (['"', '\\', 'u'] ++
    [4096, 256, 16, 1].map (fun place => hexDigit (unit / place % 16)) ++ ['"'])

mutual

/-- The JSON text of a value that has only what JSON can hold; anything else is written as
`null`. -/
def write : Value → String
  | .bool b => if b then "true" else "false"
  | .number n => n.text
  | .text s => quoted s
  | .half unit => quotedHalf unit
  | .list items => "[" ++ ",".intercalate (writeItems items) ++ "]"
  | .record fields => "\x7b" ++ ",".intercalate (writeFields fields) ++ "\x7d"
  | _ => "null"

/-- The texts of the items of a list. -/
def writeItems : List Value → List String
  | [] => []
  | item :: rest => write item :: writeItems rest

/-- The texts of the fields of a record. -/
def writeFields : List (String × Value) → List String
  | [] => []
  | (name, value) :: rest => (quoted name ++ ":" ++ write value) :: writeFields rest

end

/-- The JSON text of any value, if it has one. -/
def encode (mode : ExactIntegers) (v : Value) : Attempt String := do
  let plain ← image mode v
  .ok (write plain)

end LazyFrame.Json
