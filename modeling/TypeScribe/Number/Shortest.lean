import TypeScribe.Number.Double

/-!
# Shortest decimals

The shortest decimal that reads back as a given finite number. A decimal reads back when it lies between the
midpoints to the neighbouring numbers; the midpoints belong to it when the mantissa is even. Of two shortest
decimals the nearer is taken.
-/

namespace TypeScribe

/-- Whole digits times a power of ten. -/
structure Decimal where
  digits : Nat
  exponent : Int
deriving DecidableEq, Repr

/-- A number and a decimal grid on one scale: the number is `value`, its bounds are `low` and `high`, and the
points of the grid are the multiples of `step`. -/
structure Grid where
  value : Nat
  low : Nat
  high : Nat
  step : Nat
  /-- Whether the bounds read back as the number. -/
  closed : Bool

namespace Grid

/-- The grid of a power of ten, for a mantissa and an exponent of two. -/
def make (mantissa : Nat) (exponent : Int) (power : Int) : Grid :=
  let below := if mantissa = Double.mantissaLimit / 2 && Double.minExponent < exponent then 1 else 2
  let quarter := exponent - 2
  let twos := Nat.pow 2 quarter.natAbs
  let tens := Nat.pow 10 power.natAbs
  let scale := (if quarter < 0 then 1 else twos) * (if power < 0 then tens else 1)
  { value := 4 * mantissa * scale
    low := (4 * mantissa - below) * scale
    high := (4 * mantissa + 2) * scale
    step := (if power < 0 then 1 else tens) * (if quarter < 0 then twos else 1)
    closed := mantissa % 2 = 0 }

/-- Whether a point of the grid reads back as the number. -/
def inside (g : Grid) (point : Nat) : Bool :=
  if g.closed then g.low ≤ point * g.step && point * g.step ≤ g.high
  else g.low < point * g.step && point * g.step < g.high

/-- The nearer of the two neighbours on the grid that reads back, if one does. -/
def nearest? (g : Grid) (tieUp : Bool) : Option Nat :=
  let down := g.value / g.step
  let up := down + 1
  match g.inside down, g.inside up with
  | false, false => none
  | true, false => some down
  | false, true => some up
  | true, true =>
    if 2 * g.value < (down + up) * g.step then some down
    else if (down + up) * g.step < 2 * g.value || tieUp then some up
    else if down % 2 = 0 then some down else some up

end Grid

/-- How many decimal digits a natural number has. -/
def digitCount (n : Nat) : Nat := (Nat.toDigits 10 n).length

/-- The position of the decimal point of a positive number: one more than the exponent of its first digit. -/
def pointPosition (mantissa : Nat) (exponent : Int) : Int :=
  let (num, den) := Double.shifted mantissa 1 (-exponent)
  if den ≤ num then digitCount (num / den) else 1 - (digitCount ((den + num - 1) / num - 1) : Int)

/-- Takes the zeros at the end of the digits into the exponent; the count bounds how many are taken. -/
def Decimal.strip : Nat → Decimal → Decimal
  | 0, d => d
  | n + 1, d =>
    if d.digits % 10 = 0 && d.digits != 0 then Decimal.strip n ⟨d.digits / 10, d.exponent + 1⟩ else d

/-- Searches the grids for one and more digits; seventeen digits always read back. -/
def shortestFrom (mantissa : Nat) (exponent point : Int) (tieUp : Bool) : Nat → Nat → Decimal
  | 0, _ => ⟨0, 0⟩
  | left + 1, count =>
    let power := point - count
    match (Grid.make mantissa exponent power).nearest? tieUp with
    | some digits => Decimal.strip 20 ⟨digits, power⟩
    | none => shortestFrom mantissa exponent point tieUp left (count + 1)

/-- The shortest decimal that reads back as a mantissa times a power of two. -/
def shortest (mantissa : Nat) (exponent : Int) (tieUp : Bool) : Decimal :=
  if mantissa = 0 then ⟨0, 0⟩
  else shortestFrom mantissa exponent (pointPosition mantissa exponent) tieUp 20 1

end TypeScribe
