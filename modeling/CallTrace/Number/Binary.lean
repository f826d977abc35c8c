import CallTrace.Text.Numeral

/-!
# Binary fractions

Numbers of 64 bits: a sign, eleven bits of exponent, and a significand whose
first bit is understood. All but the infinities and what is no number stand
for a whole number times a power of two.
-/

namespace CallTrace

/-- A binary fraction of 64 bits. -/
inductive BinaryFraction where
  /-- The significand times a power of two, with a sign that even zero has. -/
  | finite (negative : Bool) (significand : Nat) (exponent : Int)
  /-- An infinity. -/
  | infinite (negative : Bool)
  /-- No number. -/
  | undefined
  deriving DecidableEq

namespace BinaryFraction

/-- The significand of a power of two, unless the exponent is the least one. -/
def hiddenBit : Nat := 0x10000000000000

/-- The exponent of the smallest fractions, whose significands have no understood bit. -/
def leastExponent : Int := -1074

/-- The fraction that a word of 64 bits encodes. -/
def ofBits (w : UInt64) : BinaryFraction :=
  let negative := w >>> 63 = 1
  let biased : Nat := (w >>> 52 &&& 0x7ff).toNat
  let field : Nat := (w &&& 0xfffffffffffff).toNat
  if biased = 2047 then (if field = 0 then .infinite negative else .undefined)
  else if biased = 0 then .finite negative field leastExponent
  else .finite negative (hiddenBit + field) (biased + leastExponent - 1)

/-- A fraction without fractional part, as a whole number. -/
def whole? : BinaryFraction → Option Int
  | .finite negative significand (.ofNat exponent) =>
    some (Text.signed negative (significand * Nat.pow 2 exponent))
  | .finite negative significand (.negSucc n) =>
    let divisor := Nat.pow 2 (n + 1)
    if significand % divisor = 0 then some (Text.signed negative (significand / divisor)) else none
  | .infinite _ => none
  | .undefined => none

end BinaryFraction

end CallTrace
