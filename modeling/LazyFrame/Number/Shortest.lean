import LazyFrame.Number.Basic

/-!
# The shortest decimal of a number

Every number is written with the fewest significant digits that still read back as that number; of
two decimals with that many digits the nearer one is written, and at an exact tie the one with the
even last digit.

The reals that round to a positive number `m · 2 ^ u` form an interval: half a unit up, half a unit
down (a quarter at a power of two, where the numbers below are twice as dense), ends included
exactly when `m` is even. On the grid of decimals with `k` significant digits the two neighbours of
the value are the only candidates worth testing: if any point of the grid lies in the interval, one
of these two does. Seventeen digits always suffice.

`Number.text` lays the digits out: positional while the decimal point falls within 21 digits to the
right or 5 zeros to the left, with an exponent otherwise.
-/

namespace LazyFrame

/-- The decimal `digits · 10 ^ exponent`. -/
structure Decimal where
  digits : Nat
  exponent : Int
  deriving DecidableEq, Inhabited

namespace Decimal

/-- The rational a decimal stands for. -/
def toRat (d : Decimal) : Rat := Number.scale 10 (d.digits : Rat) d.exponent

/-- Drops at most `fuel` zeros at the right end of the digits. -/
def stripZeros : Nat → Decimal → Decimal
  | 0, d => d
  | fuel + 1, d =>
    if d.digits ≠ 0 ∧ d.digits % 10 = 0 then stripZeros fuel ⟨d.digits / 10, d.exponent + 1⟩ else d

end Decimal

namespace Number

/-! ## The interval of a number -/

/-- The reals that round to one positive number. -/
structure Interval where
  low : Rat
  high : Rat
  closed : Bool

/-- The interval of a positive finite number. -/
def interval (q : Rat) : Interval :=
  let u := unitExponent q
  let m := (scale 2 q (-u)).num.natAbs
  let half := scale 2 1 (u - 1)
  let below := if m = Nat.pow 2 52 ∧ -1074 < u then scale 2 1 (u - 2) else half
  ⟨q - below, q + half, m % 2 == 0⟩

/-- Whether a real lies in the interval. -/
def Interval.contains (i : Interval) (x : Rat) : Bool :=
  if i.closed then decide (i.low ≤ x ∧ x ≤ i.high) else decide (i.low < x ∧ x < i.high)

/-! ## The digits -/

/-- The greatest `k` with `10 ^ k ≤ q`, for a positive `q`. -/
def decimalMagnitude (q : Rat) : Int :=
  let guess := magnitude q * 30103 / 100000
  if scale 10 1 (guess + 1) ≤ q then guess + 1
  else if q < scale 10 1 guess then guess - 1
  else guess

/-- The better neighbour of `q` on the grid of multiples of `10 ^ exponent`, if one lies in the
interval. -/
def neighbour? (i : Interval) (q : Rat) (exponent : Int) : Option Decimal :=
  let low := (scale 10 q (-exponent)).floor.toNat
  let below : Decimal := ⟨low, exponent⟩
  let above : Decimal := ⟨low + 1, exponent⟩
  match i.contains below.toRat, i.contains above.toRat with
  | false, false => none
  | true, false => some below
  | false, true => some above
  | true, true =>
    let down := q - below.toRat
    let up := above.toRat - q
    if down < up then some below
    else if up < down then some above
    else if low % 2 = 0 then some below else some above

/-- The first hit on the grids of `count`, `count + 1`, … significant digits. -/
def firstHit (i : Interval) (q : Rat) (top : Int) : Nat → Nat → Decimal
  | 0, count => ⟨(scale 10 q (count - 1 - top)).floor.toNat, top - count + 1⟩
  | fuel + 1, count => (neighbour? i q (top - count + 1)).getD (firstHit i q top fuel (count + 1))

/-- The shortest decimal that reads back as the positive finite number `q`. -/
def shortest (q : Rat) : Decimal :=
  (firstHit (interval q) q (decimalMagnitude q) 17 1).stripZeros 17

/-! ## Layout -/

/-- The point falls at most this many digits to the right in positional notation. -/
def widestPlain : Int := 21

/-- In positional notation there are at most this many zeros between the point and the first
digit. -/
def mostLeadingZeros : Int := 5

/-- Digits with a point after the first one, unless it is the only one. -/
def pointAfterFirst : List Char → List Char
  | c :: d :: rest => c :: '.' :: d :: rest
  | cs => cs

/-- The characters of a positive decimal. -/
def layout (d : Decimal) : List Char :=
  let digits := (toString d.digits).toList
  let count : Int := digits.length
  let point := count + d.exponent
  if count ≤ point ∧ point ≤ widestPlain then
    digits ++ List.replicate (point - count).toNat '0'
  else if 0 < point ∧ point ≤ widestPlain then
    digits.take point.toNat ++ '.' :: digits.drop point.toNat
  else if -mostLeadingZeros ≤ point ∧ point ≤ 0 then
    '0' :: '.' :: (List.replicate (-point).toNat '0' ++ digits)
  else
    let e := point - 1
    let mark := if e < 0 then ['e', '-'] else ['e', '+']
    pointAfterFirst digits ++ mark ++ (toString e.natAbs).toList

/-- The text of a number: shortest decimal, a minus sign in front of negative ones, a bare `0` for
both zeros. -/
def text : Number → String
  | nan => "NaN"
  | infinity false => "Infinity"
  | infinity true => "-Infinity"
  | negZero => "0"
  | finite q =>
    if q = 0 then "0"
    else if q < 0 then String.ofList ('-' :: layout (shortest (-q)))
    else String.ofList (layout (shortest q))

end Number

end LazyFrame
