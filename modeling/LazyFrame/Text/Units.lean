/-!
# Texts in 16-bit units

Widths and positions in texts count 16-bit units: one for a character of the basic plane, two for
any other, its high and its low half. Texts are compared unit by unit where their order matters.
-/

namespace LazyFrame.Text

/-- Units of one character. -/
def charUnits (c : Char) : Nat := if c.toNat < 0x10000 then 1 else 2

/-- Units of a list of characters. -/
def unitCount : List Char → Nat
  | [] => 0
  | c :: rest => charUnits c + unitCount rest

/-- Units of a text. -/
def units (s : String) : Nat := unitCount s.toList

/-- The characters that lie within the first `n` units. -/
def takeUnits (n : Nat) : List Char → List Char
  | [] => []
  | c :: rest => if charUnits c ≤ n then c :: takeUnits (n - charUnits c) rest else []

/-- The characters behind the first `n` units. -/
def dropUnits (n : Nat) : List Char → List Char
  | [] => []
  | c :: rest => if n = 0 then c :: rest else dropUnits (n - charUnits c) rest

/-- The units of a character. -/
def charUnitList (c : Char) : List Nat :=
  if c.toNat < 0x10000 then [c.toNat]
  else [0xD800 + (c.toNat - 0x10000) / 1024, 0xDC00 + (c.toNat - 0x10000) % 1024]

/-- The units of a list of characters. -/
def unitList (cs : List Char) : List Nat := cs.flatMap charUnitList

/-- Whether a unit is half a character and no character by itself. -/
def isHalf (unit : Nat) : Bool := 0xD800 ≤ unit && unit < 0xE000

/-- Whether a text comes before another one in the order of their units. -/
def precedes (s t : String) : Bool := decide (unitList s.toList < unitList t.toList)

theorem length_unitList (cs : List Char) : (unitList cs).length = unitCount cs := by
  induction cs with
  | nil => rfl
  | cons c rest ih =>
    have own : (charUnitList c).length = charUnits c := by
      unfold charUnitList charUnits
      split <;> rfl
    simp only [unitList, List.flatMap_cons, List.length_append] at ih ⊢
    rw [own, ih, unitCount]

end LazyFrame.Text
