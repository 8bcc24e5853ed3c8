import LazyFrame.Number.Basic
import LazyFrame.Text.Blank

/-!
# Reading numbers

Three readers share one conversion: an exact decimal `digits · 10 ^ exponent` becomes the number
nearest to it. A fourth one, `integer?`, reads an integer of any size exactly.

* `ofNumeral?` reads a numeric literal: an optional sign, digits with at most one point, an optional
exponent.
* `ofText` reads what a user or a database may write for a number: blanks around it are ignored,
  nothing at all is zero, `0x`, `0o` and `0b` introduce other bases (without a sign), `Infinity` is
  a number, and anything else is `nan`.
* `ofLeadingDigits?` reads the sign and digits at the front of a text and ignores what follows them.
-/

namespace LazyFrame.Number

/-! ## Exact decimals -/

/-- The number nearest to `±digits · 10 ^ exponent`. Far outside the range of finite numbers the
power of ten is not computed. -/
def ofDecimal (negative : Bool) (digits : Nat) (exponent : Int) : Number :=
  let size : Int := (toString digits).length + exponent
  if digits = 0 ∨ size < -330 then (if negative then negZero else finite 0)
  else if 310 < size then infinity negative
  else
    match round (scale 10 (digits : Rat) exponent) with
    | finite q => if negative then (if q = 0 then negZero else finite (-q)) else finite q
    | negZero => if negative then negZero else finite 0
    | infinity _ => infinity negative
    | nan => nan

/-! ## Digits -/

/-- The value of a digit in bases up to 36. -/
def digitValue? (c : Char) : Option Nat :=
  if '0' ≤ c ∧ c ≤ '9' then some (c.toNat - '0'.toNat)
  else if 'a' ≤ c ∧ c ≤ 'z' then some (c.toNat - 'a'.toNat + 10)
  else if 'A' ≤ c ∧ c ≤ 'Z' then some (c.toNat - 'A'.toNat + 10)
  else none

/-- Whether a character is a digit of the base. -/
def isDigitOf (base : Nat) (c : Char) : Bool :=
  match digitValue? c with
  | some v => v < base
  | none => false

/-- The value of digits in a base; other characters count as zero. -/
def digitsValue (base : Nat) (cs : List Char) : Nat :=
  cs.foldl (fun acc c => acc * base + (digitValue? c).getD 0) 0

/-- Digits and what follows them. -/
def spanDigits (cs : List Char) : List Char × List Char :=
  (cs.takeWhile (isDigitOf 10), cs.dropWhile (isDigitOf 10))

/-- A sign and what follows it; no sign is a plus. -/
def spanSign : List Char → Bool × List Char
  | '-' :: rest => (true, rest)
  | '+' :: rest => (false, rest)
  | cs => (false, cs)

/-! ## Literals -/

/-- The exponent of a literal: nothing, or `e` and a signed integer that takes up the rest. -/
def exponent? : List Char → Option Int
  | [] => some 0
  | c :: rest =>
    if c = 'e' ∨ c = 'E' then
      let (negative, body) := spanSign rest
      if body.isEmpty ∨ ¬ body.all (isDigitOf 10) then none
      else
        let n : Int := digitsValue 10 body
        some (if negative then -n else n)
    else none

/-- An unsigned literal: digits with at most one point among or beside them, then an optional
exponent. -/
def ofNumeral? (negative : Bool) (cs : List Char) : Option Number :=
  let (whole, rest) := spanDigits cs
  let (fraction, tail) :=
    match rest with
    | '.' :: more => spanDigits more
    | _ => ([], rest)
  if whole.isEmpty && fraction.isEmpty then none
  else (exponent? tail).map fun e =>
    ofDecimal negative (digitsValue 10 (whole ++ fraction)) (e - fraction.length)

/-- An integer in another base. -/
def ofBase (base : Nat) (cs : List Char) : Number :=
  if cs.isEmpty ∨ ¬ cs.all (isDigitOf base) then nan else ofNat (digitsValue base cs)

/-- The number that characters without blanks around them spell. -/
def ofTrimmed : List Char → Number
  | [] => finite 0
  | '0' :: 'x' :: rest => ofBase 16 rest
  | '0' :: 'X' :: rest => ofBase 16 rest
  | '0' :: 'o' :: rest => ofBase 8 rest
  | '0' :: 'O' :: rest => ofBase 8 rest
  | '0' :: 'b' :: rest => ofBase 2 rest
  | '0' :: 'B' :: rest => ofBase 2 rest
  | cs =>
    let (negative, body) := spanSign cs
    if body = "Infinity".toList then infinity negative
    else (ofNumeral? negative body).getD nan

/-- The number a text spells, `nan` when it spells none. -/
def ofText (s : String) : Number := ofTrimmed (Text.trim s.toList)

/-! ## Exact integers -/

/-- An integer in another base, if the characters spell one. -/
def integerOfBase? (base : Nat) (cs : List Char) : Option Int :=
  if cs.isEmpty ∨ ¬ cs.all (isDigitOf base) then none else some (digitsValue base cs)

/-- The integer that a text spells: blanks around it are ignored, nothing at all is zero, and `0x`,
`0o` and `0b` introduce other bases (without a sign). -/
def integer? (s : String) : Option Int :=
  match Text.trim s.toList with
  | [] => some 0
  | '0' :: 'x' :: rest => integerOfBase? 16 rest
  | '0' :: 'X' :: rest => integerOfBase? 16 rest
  | '0' :: 'o' :: rest => integerOfBase? 8 rest
  | '0' :: 'O' :: rest => integerOfBase? 8 rest
  | '0' :: 'b' :: rest => integerOfBase? 2 rest
  | '0' :: 'B' :: rest => integerOfBase? 2 rest
  | cs =>
    let (negative, body) := spanSign cs
    (integerOfBase? 10 body).map fun n => if negative then -n else n

/-! ## Leading digits -/

/-- The integer at the front of a text, after blanks; what follows the digits is ignored. `none`
without a digit. -/
def ofLeadingDigits? (s : String) : Option Number :=
  let (negative, body) := spanSign (Text.trimLeft s.toList)
  let digits := body.takeWhile (isDigitOf 10)
  if digits.isEmpty then none else some (ofDecimal negative (digitsValue 10 digits) 0)

end LazyFrame.Number
