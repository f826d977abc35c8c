import CallTrace.Number.Binary

/-!
# Shortest decimals

All the numbers nearer to a binary fraction than to its neighbours stand for
it, and so do the two in the middle where the significand is even. Among the
decimals that stand for a fraction, the shortest is the one with the fewest
digits; of several with the fewest it is the nearest, and of two that are as
near the one that ends in an even digit.

The search goes from coarse powers of ten to finer ones. On each, only the two
multiples around the fraction have to be looked at. Seventeen digits are
always enough.
-/

namespace CallTrace

/-- A whole number times a power of ten. -/
structure Decimal where
  /-- The number that the digits form. -/
  digits : Nat
  /-- The power of ten. -/
  exponent : Int
  deriving DecidableEq

/-- A positive binary fraction among the multiples of a power of ten. -/
structure GridPoint where
  /-- The fraction, in parts that the step has a whole number of as well. -/
  value : Nat
  /-- The power of ten, in the same parts. -/
  step : Nat
  /-- How far below the fraction the numbers still stand for it. -/
  below : Nat
  /-- How far above the fraction the numbers still stand for it. -/
  above : Nat
  /-- Whether the numbers just so far away stand for the fraction. -/
  closed : Bool

namespace GridPoint

/--
The fraction with this significand and exponent among the multiples of a power
of ten. The neighbour below a power of two is only half as far away as the one
above it.
-/
def ofFraction (significand : Nat) (exponent grid : Int) : GridPoint :=
  let unit := Nat.pow 2 (exponent - 2).toNat * Nat.pow 10 (-grid).toNat
  { value := 4 * significand * unit
    step := Nat.pow 2 (2 - exponent).toNat * Nat.pow 10 grid.toNat
    below :=
      if significand = BinaryFraction.hiddenBit ∧ exponent ≠ BinaryFraction.leastExponent then unit
      else 2 * unit
    above := 2 * unit
    closed := significand % 2 = 0 }

/-- Whether the multiple below or at the fraction stands for it. -/
def floorFits (p : GridPoint) : Bool :=
  p.value % p.step < p.below || (p.closed && p.value % p.step = p.below)

/-- Whether the multiple above the fraction stands for it. -/
def ceilingFits (p : GridPoint) : Bool :=
  p.step - p.value % p.step < p.above || (p.closed && p.step - p.value % p.step = p.above)

/-- The nearest multiple, the even one of two that are as near. -/
def nearest (p : GridPoint) : Nat :=
  let floor := p.value / p.step
  let excess := 2 * (p.value % p.step)
  if excess < p.step || (excess = p.step && floor % 2 = 0) then floor else floor + 1

/-- The nearest multiple that stands for the fraction. -/
def fitting? (p : GridPoint) : Option Nat :=
  match p.floorFits, p.ceilingFits with
  | true, true => some p.nearest
  | true, false => some (p.value / p.step)
  | false, true => some (p.value / p.step + 1)
  | false, false => none

end GridPoint

/-- The count of digits of a number; zero has one. -/
def digitCount (n : Nat) : Nat := (Nat.toDigits 10 n).length

/-- A power of ten that the fraction is below and that is less than a hundred times as large. -/
def gridAbove (significand : Nat) (exponent : Int) : Int :=
  let numerator := significand * Nat.pow 2 exponent.toNat
  let denominator := Nat.pow 2 (-exponent).toNat
  if denominator ≤ numerator then digitCount (numerator / denominator)
  else 1 - digitCount (denominator / numerator)

/-- The first of so many powers of ten, downwards, of which a multiple stands for the fraction. -/
def searchGrids (significand : Nat) (exponent : Int) : (count : Nat) → (grid : Int) → Decimal
  | 0, grid => ⟨(GridPoint.ofFraction significand exponent grid).nearest, grid⟩
  | count + 1, grid =>
    match (GridPoint.ofFraction significand exponent grid).fitting? with
    | some digits => ⟨digits, grid⟩
    | none => searchGrids significand exponent count (grid - 1)

/-- The shortest decimal that stands for a fraction without its sign. -/
def shortestDecimal (significand : Nat) (exponent : Int) : Decimal :=
  if significand = 0 then ⟨0, 0⟩
  else searchGrids significand exponent 17 (gridAbove significand exponent)

end CallTrace
