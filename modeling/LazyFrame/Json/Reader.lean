import LazyFrame.Number.Reader
import LazyFrame.Text.Units
import LazyFrame.Value.Basic

/-!
# Reading JSON

`read` takes a text of one line and gives its value, or the first thing in it that is wrong. A
record lists its fields in the order of records, and of two fields with one name the later value
stands in the earlier place.

A complaint quotes the text around the offending character: all of a short text, else ten units on
each side, with dots where something is left out.
-/

namespace LazyFrame.Json

/-! ## Complaints -/

/-- What is wrong with a text, together with what was left to read. -/
inductive Complaint where
  | unexpected (rest : List Char)
  | signWithoutNumber (rest : List Char)

/-- Units quoted on each side of an offending character. -/
def quotedSpan : Nat := 10

/-- The sentence for a complaint about a text. -/
def Complaint.message (whole : List Char) : Complaint → String
  | .signWithoutNumber rest =>
    let place := Text.unitCount whole - Text.unitCount rest
    "No number after minus sign in JSON at position " ++ toString place ++ " (line 1 column " ++
      toString (place + 1) ++ ")"
  | .unexpected [] => "Unexpected end of JSON input"
  | .unexpected (c :: rest) =>
    let size := Text.unitCount whole
    let place := size - Text.unitCount (c :: rest)
    let first := place - quotedSpan
    let excerpt :=
      String.ofList (Text.takeUnits (place + quotedSpan - first) (Text.dropUnits first whole))
    let context :=
      if size ≤ 2 * quotedSpan then "\"" ++ String.ofList whole ++ "\""
      else if place < quotedSpan then "\"" ++ excerpt ++ "\"..."
      else if place < size - quotedSpan then "...\"" ++ excerpt ++ "\"..."
      else "...\"" ++ excerpt ++ "\""
    "Unexpected token '" ++ String.singleton c ++ "', " ++ context ++ " is not valid JSON"

/-! ## Tokens -/

/-- Whether a character may stand between tokens. -/
def isGap (c : Char) : Bool := c = ' ' || c = '\n' || c = '\r' || c = '\t'

/-- The text without the gap in front. -/
def skipGap (cs : List Char) : List Char := cs.dropWhile isGap

/-- Expects these characters. -/
def expect : List Char → List Char → Except Complaint (Unit × List Char)
  | [], cs => .ok ((), cs)
  | e :: es, c :: cs => if c = e then expect es cs else .error (.unexpected (c :: cs))
  | _ :: _, [] => .error (.unexpected [])

/-- Four hexadecimal digits. -/
def fourDigits (cs : List Char) : Except Complaint (Nat × List Char) :=
  let digits := cs.take 4
  let bad := digits.dropWhile (Number.isDigitOf 16)
  if digits.length < 4 || !bad.isEmpty then
    .error (.unexpected (cs.drop (digits.length - bad.length)))
  else .ok (Number.digitsValue 16 digits, cs.drop 4)

/-- Whether a 16-bit unit is the first half of a character. -/
def isHighHalf (n : Nat) : Bool := 0xD800 ≤ n && n < 0xDC00

/-- Whether a 16-bit unit is the second half of a character. -/
def isLowHalf (n : Nat) : Bool := 0xDC00 ≤ n && n < 0xE000

/-- The character with a code point; half a character becomes the replacement character. -/
def charOf (n : Nat) : Char :=
  if isHighHalf n || isLowHalf n then Char.ofNat 0xFFFD else Char.ofNat n

/-- The character that an escape stands for, after `\u`: two escapes together may make one
character. -/
def unicodeEscape (cs : List Char) : Except Complaint (Char × List Char) := do
  let (n, rest) ← fourDigits cs
  if isHighHalf n then
    match rest with
    | '\\' :: 'u' :: more =>
      let (m, after) ← fourDigits more
      if isLowHalf m then .ok (Char.ofNat (0x10000 + (n - 0xD800) * 1024 + (m - 0xDC00)), after)
      else .ok (charOf n, rest)
    | _ => .ok (charOf n, rest)
  else .ok (charOf n, rest)

/-- The characters up to the closing quote; `soFar` holds those already read, last one first. -/
def stringBody : Nat → List Char → List Char → Except Complaint (String × List Char)
  | 0, _, cs => .error (.unexpected cs)
  | _ + 1, _, [] => .error (.unexpected [])
  | fuel + 1, soFar, c :: rest =>
    if c = '"' then .ok (String.ofList soFar.reverse, rest)
    else if c.toNat < 32 then .error (.unexpected (c :: rest))
    else if c = '\\' then
      match rest with
      | 'u' :: more => do
        let (escaped, after) ← unicodeEscape more
        stringBody fuel (escaped :: soFar) after
      | '"' :: more => stringBody fuel ('"' :: soFar) more
      | '\\' :: more => stringBody fuel ('\\' :: soFar) more
      | '/' :: more => stringBody fuel ('/' :: soFar) more
      | 'b' :: more => stringBody fuel (Char.ofNat 8 :: soFar) more
      | 'f' :: more => stringBody fuel (Char.ofNat 12 :: soFar) more
      | 'n' :: more => stringBody fuel ('\n' :: soFar) more
      | 'r' :: more => stringBody fuel ('\r' :: soFar) more
      | 't' :: more => stringBody fuel ('\t' :: soFar) more
      | other => .error (.unexpected other)
    else stringBody fuel (c :: soFar) rest

/-- Whether a character may belong to a number. -/
def isNumberChar (c : Char) : Bool :=
  c.isDigit || c = '.' || c = 'e' || c = 'E' || c = '+' || c = '-'

/-- Digits without a zero in front of others; behind a point there has to be another digit. -/
def isStrict (cs : List Char) : Bool :=
  let (whole, rest) := Number.spanDigits cs
  !(whole.head? == some '0' && whole.length != 1) &&
    match rest with
    | '.' :: c :: _ => c.isDigit
    | ['.'] => false
    | _ => true

/-- A number, at a digit or a minus sign. -/
def number (cs : List Char) : Except Complaint (Number × List Char) :=
  let (negative, body) := match cs with
    | '-' :: rest => (true, rest)
    | _ => (false, cs)
  match body with
  | c :: _ =>
    if c.isDigit && isStrict body then
      match Number.ofNumeral? negative (body.takeWhile isNumberChar) with
      | some n => .ok (n, body.dropWhile isNumberChar)
      | none => .error (.unexpected body)
    else if negative && !c.isDigit then .error (.signWithoutNumber body)
    else .error (.unexpected body)
  | [] => if negative then .error (.signWithoutNumber body) else .error (.unexpected body)

/-! ## Values -/

mutual

/-- A value at the front of a text; `fuel` bounds the steps and is more than the number of
characters. -/
def value : Nat → List Char → Except Complaint (Value × List Char)
  | 0, cs => .error (.unexpected cs)
  | fuel + 1, cs =>
    match skipGap cs with
    | '\x7b' :: rest =>
      match skipGap rest with
      | '\x7d' :: after => .ok (.record [], after)
      | other => do
        let (fields, after) ← members fuel [] other
        .ok (.record fields, after)
    | '[' :: rest =>
      match skipGap rest with
      | ']' :: after => .ok (.list [], after)
      | other => do
        let (items, after) ← elements fuel [] other
        .ok (.list items, after)
    | '"' :: rest => do
      let (s, after) ← stringBody (rest.length + 1) [] rest
      .ok (.text s, after)
    | 't' :: rest => do
      let (_, after) ← expect ['r', 'u', 'e'] rest
      .ok (.bool true, after)
    | 'f' :: rest => do
      let (_, after) ← expect ['a', 'l', 's', 'e'] rest
      .ok (.bool false, after)
    | 'n' :: rest => do
      let (_, after) ← expect ['u', 'l', 'l'] rest
      .ok (.null, after)
    | other => do
      let (n, after) ← number other
      .ok (.number n, after)

/-- The items of a list from the first one to the closing bracket; `soFar` holds the ones read, last
one first. -/
def elements : Nat → List Value → List Char → Except Complaint (List Value × List Char)
  | 0, _, cs => .error (.unexpected cs)
  | fuel + 1, soFar, cs => do
    let (item, after) ← value fuel cs
    match skipGap after with
    | ',' :: rest => elements fuel (item :: soFar) rest
    | ']' :: rest => .ok ((item :: soFar).reverse, rest)
    | other => .error (.unexpected other)

/-- The fields of a record from the first one to the closing brace. -/
def members :
    Nat → List (String × Value) → List Char → Except Complaint (List (String × Value) × List Char)
  | 0, _, cs => .error (.unexpected cs)
  | fuel + 1, soFar, cs =>
    match skipGap cs with
    | '"' :: rest => do
      let (name, after) ← stringBody (rest.length + 1) [] rest
      match skipGap after with
      | ':' :: more => do
        let (item, tail) ← value fuel more
        let fields := Fields.put soFar name item
        match skipGap tail with
        | ',' :: following => members fuel fields following
        | '\x7d' :: following => .ok (fields, following)
        | other => .error (.unexpected other)
      | other => .error (.unexpected other)
    | other => .error (.unexpected other)

end

/-- The value that a whole text spells, or the sentence that says why it spells none. -/
def read (text : String) : Except String Value :=
  let whole := text.toList
  match value (whole.length + 1) whole with
  | .ok (v, rest) =>
    match skipGap rest with
    | [] => .ok v
    | other => .error (Complaint.message whole (.unexpected other))
  | .error complaint => .error (complaint.message whole)

end LazyFrame.Json
