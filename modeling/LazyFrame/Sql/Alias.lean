import LazyFrame.Number.Basic

/-!
# Aliases

The words over `a` … `z` are numbered by length and then alphabet, from the empty word at `0`: `word
1` is `a`, `word 26` is `z`, `word 27` is `aa`. This is the notation in base 26 whose digits run
from one to twenty-six, so every word has exactly one number.

A statement draws its aliases from this list in order and leaves out `reserved`, short words that
mean something else behind a table. The reserved words are finitely many and the words are all
different, so the search for the next alias looks at no more than one word beyond their number.

`wordAt` finds the word behind an index that is a `Number`, and calculates with such numbers: beyond
`2 ^ 53` an index stands for many words, and the one it gets is the one that rounding leads to.
-/

namespace LazyFrame.Alias

/-- The letter of a digit. -/
def letter (n : Nat) : Char := Char.ofNat (97 + n)

/-- The characters of the word with a number. -/
def wordChars : Nat → List Char
  | 0 => []
  | n + 1 => wordChars (n / 26) ++ [letter (n % 26)]
termination_by n => n
decreasing_by exact Nat.lt_succ_of_le (Nat.div_le_self n 26)

/-- The word with a number. -/
def word (n : Nat) : String := String.ofList (wordChars n)

/-- The letter of a number in the place of a digit; of a fraction only the whole part counts. -/
def letterAt (n : Number) : Char :=
  let q := n.toRat?.getD 0
  let turns : Rat := if q < 0 then -((-q / 26).floor : Rat) else ((q / 26).floor : Rat)
  let code := ((Number.round (97 + (q - 26 * turns))).truncate.toRat?.getD 0).floor
  Char.ofNat code.toNat

/-- How many times 26 goes into a number. -/
def quotientAt (n : Number) : Number :=
  let quotient := Number.round (n.toRat?.getD 0 / 26)
  Number.round ((quotient.toRat?.getD 0).floor : Rat)

/-- The characters of the word with a number, in front of those found so far; `fuel` bounds their
count. -/
def wordCharsAt : Nat → Number → List Char → List Char
  | 0, _, soFar => soFar
  | fuel + 1, n, soFar =>
    if Number.lt 0 n then
      wordCharsAt fuel (quotientAt (n.sub 1)) (letterAt (n.sub 1) :: soFar) else soFar

/-- The word behind an index; no finite number has more than 256 digits. -/
def wordAt (index : Number) : String := String.ofList (wordCharsAt 256 (index.add 1) [])

/-- Words that are no aliases. -/
def reserved : List String :=
  ["as", "at", "by", "do", "if", "in", "is", "no", "of", "on", "or", "to", "all", "and", "any",
    "asc", "end", "for", "not", "set"]

/-- The first number from `n` on whose word is not reserved, within `fuel` steps. -/
def skipReserved : Nat → Nat → Nat
  | 0, n => n
  | fuel + 1, n => if reserved.contains (word n) then skipReserved fuel (n + 1) else n

/-- The number of the first alias from `n` on. -/
def next (n : Nat) : Nat := skipReserved reserved.length n

/-- The number behind `count` aliases from number `n` on. -/
def advance : Nat → Nat → Nat
  | 0, n => n
  | count + 1, n => advance count (next n + 1)

/-- The next `count` aliases from number `n` on. -/
def take : Nat → Nat → List String
  | 0, _ => []
  | count + 1, n => word (next n) :: take count (next n + 1)

end LazyFrame.Alias
