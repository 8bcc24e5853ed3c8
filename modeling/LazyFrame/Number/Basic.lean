/-!
# Numbers with binary64 precision

Cells, literals, row bounds and settings are binary64 numbers: one value that is no number, two
infinities, a negative zero, and the rationals `m · 2 ^ q` with `m < 2 ^ 53` and `-1074 ≤ q`. A
finite number is kept as the rational it *is*, so every comparison is a comparison of rationals and
every operation is "compute exactly, then `round`". Negative zero is the one number that a rational
cannot tell from another, hence its own constructor.

`round` is the only way into `finite` for a value that may not be representable. It takes the unit
in the last place at the value's magnitude, rounds the quotient to the nearest integer (a half goes
to the even one), and gives an infinity from `2 ^ 1024` on.
-/

namespace LazyFrame

/-- A binary64 number. -/
inductive Number where
  | nan
  | infinity (negative : Bool)
  | negZero
  | finite (value : Rat)
  deriving DecidableEq, Inhabited

namespace Number

/-! ## Powers of two and ten -/

/-- The value `q · b ^ k`, for a negative `k` too. -/
def scale (b : Nat) (q : Rat) : Int → Rat
  | .ofNat k => q * (Nat.pow b k : Rat)
  | .negSucc k => q / (Nat.pow b (k + 1) : Rat)

/-- The greatest `e` with `2 ^ e ≤ q`, for a positive `q`. -/
def magnitude (q : Rat) : Int :=
  let guess : Int := (Nat.log2 q.num.natAbs : Int) - (Nat.log2 q.den : Int)
  if q < scale 2 1 guess then guess - 1 else guess

/-- Exponent of the unit in the last place of the numbers around a positive `q`. -/
def unitExponent (q : Rat) : Int :=
  max (magnitude q - 52) (-1074)

/-- The integer nearest to `q ≥ 0`; of two, the even one. -/
def nearestEven (q : Rat) : Nat :=
  let low := q.floor.toNat
  let rest := q - (low : Rat)
  if rest < 1 / 2 then low
  else if 1 / 2 < rest then low + 1
  else if low % 2 = 0 then low else low + 1

/-! ## Making numbers -/

/-- The number nearest to `q`. A non-zero value too small for any other number becomes a zero of its
sign. -/
def round (q : Rat) : Number :=
  if q = 0 then finite 0
  else
    let size := if q < 0 then -q else q
    let u := unitExponent size
    let rounded := scale 2 (nearestEven (scale 2 size (-u)) : Rat) u
    if scale 2 1 1024 ≤ rounded then infinity (decide (q < 0))
    else if rounded = 0 then (if q < 0 then negZero else finite 0)
    else finite (if q < 0 then -rounded else rounded)

/-- The number nearest to an integer. -/
def ofInt (n : Int) : Number := round (n : Rat)

/-- The number nearest to a natural number. -/
def ofNat (n : Nat) : Number := ofInt (n : Int)

instance (n : Nat) : OfNat Number n := ⟨ofNat n⟩

/-! ## Questions about a number -/

/-- The rational a number stands for; both zeros stand for `0`. -/
def toRat? : Number → Option Rat
  | finite q => some q
  | negZero => some 0
  | _ => none

/-- Neither an infinity nor `nan`. -/
def isFinite (n : Number) : Bool := n.toRat?.isSome

/-- A finite number without a fractional part; both zeros are integers. -/
def isInteger (n : Number) : Bool :=
  match n.toRat? with
  | some q => q.den == 1
  | none => false

/-- Neither a zero nor `nan`. -/
def isNonzero : Number → Bool
  | nan => false
  | infinity _ => true
  | negZero => false
  | finite q => q != 0

/-- Order of numbers: false when a side is `nan`, and the zeros are equal. -/
def lt (a b : Number) : Bool :=
  match a, b with
  | nan, _ => false
  | _, nan => false
  | infinity n, infinity m => n && !m
  | infinity n, _ => n
  | _, infinity m => !m
  | a, b => decide (a.toRat?.getD 0 < b.toRat?.getD 0)

/-- The relation `a ≤ b` of the same order, false when a side is `nan`. -/
def le (a b : Number) : Bool :=
  match a, b with
  | nan, _ => false
  | _, nan => false
  | a, b => !lt b a

/-! ## Arithmetic -/

/-- Difference of two numbers, rounded once. -/
def sub (a b : Number) : Number :=
  match a, b with
  | nan, _ => nan
  | _, nan => nan
  | infinity n, infinity m => if n = m then nan else infinity n
  | infinity n, _ => infinity n
  | _, infinity m => infinity (!m)
  | negZero, finite q => if q = 0 then negZero else round (-q)
  | a, b => round (a.toRat?.getD 0 - b.toRat?.getD 0)

/-- The number with the other sign. -/
def neg : Number → Number
  | nan => nan
  | infinity n => infinity (!n)
  | negZero => finite 0
  | finite q => if q = 0 then negZero else finite (-q)

/-- Sum of two numbers, rounded once. -/
def add (a b : Number) : Number := a.sub b.neg

/-- A number times a positive integer, rounded once. -/
def scaleBy (n : Number) (factor : Nat) : Number :=
  match n with
  | finite q => round (q * (factor : Rat))
  | other => other

/-- A number without its fractional part. -/
def truncate : Number → Number
  | finite q =>
    if 0 ≤ q then finite (q.floor : Rat)
    else if -1 < q then negZero
    else finite (-((-q).floor : Rat))
  | other => other

end Number

end LazyFrame
