import CallTrace.Number.Shortest
import CallTrace.Text.Quoted
import CallTrace.Validation.RawValue

/-!
# Raw values on display

How a value is shown in the wording of an error: texts in quotes, fractions by
the shortest decimals that stand for them, and the elements of a list or of a
record between brackets. Some errors show only the name of its kind.
-/

namespace CallTrace

/--
A decimal in positional form; a point stands in it even where only a zero
follows.
-/
def Decimal.positional (d : Decimal) : List Char :=
  let digits := Nat.toDigits 10 d.digits
  match d.exponent with
  | .ofNat zeros => digits ++ List.replicate zeros '0' ++ ['.', '0']
  | .negSucc n =>
    let padded := List.replicate (n + 2 - digits.length) '0' ++ digits
    padded.take (padded.length - (n + 1)) ++ '.' :: padded.drop (padded.length - (n + 1))

/-- A power of ten with its sign and at least two digits. -/
def exponentText (exponent : Int) : List Char :=
  let digits := Nat.toDigits 10 exponent.natAbs
  (if exponent < 0 then '-' else '+') :: List.replicate (2 - digits.length) '0' ++ digits

/-- A decimal with one digit in front of the point and a power of ten behind it. -/
def Decimal.scientific (d : Decimal) : List Char :=
  let digits := Nat.toDigits 10 d.digits
  let mantissa := if digits.length = 1 then digits else digits.take 1 ++ '.' :: digits.drop 1
  mantissa ++ 'e' :: exponentText (d.exponent + digits.length - 1)

/-- A decimal, positional from a ten-thousandth up to sixteen digits before the point. -/
def Decimal.display (d : Decimal) : List Char :=
  let leading := d.exponent + digitCount d.digits - 1
  if -4 ≤ leading ∧ leading < 16 then d.positional else d.scientific

/-- A fraction by the shortest decimal that stands for it. -/
def BinaryFraction.display : BinaryFraction → List Char
  | .finite negative significand exponent =>
    (if negative then ['-'] else []) ++ (shortestDecimal significand exponent).display
  | .infinite negative => (if negative then ['-'] else []) ++ ['i', 'n', 'f']
  | .undefined => ['n', 'a', 'n']

/-- Texts with a comma and a space between each two. -/
def spacedList : List (List Char) → List Char
  | [] => []
  | [text] => text
  | text :: texts => text ++ ',' :: ' ' :: spacedList texts

namespace RawValue

mutual

/-- The characters that show a value. -/
def displayChars : RawValue → List Char
  | .null => "None".toList
  | .bool true => "True".toList
  | .bool false => "False".toList
  | .int n => n.repr.toList
  | .fraction x => x.display
  | .text s => (Text.quoted s).toList
  | .list elements => '[' :: spacedList (elementDisplays elements) ++ [']']
  | .record members => '{' :: spacedList (memberDisplays members) ++ ['}']

/-- The displays of the elements of a list. -/
def elementDisplays : List RawValue → List (List Char)
  | [] => []
  | element :: elements => displayChars element :: elementDisplays elements

/-- The displays of the members of a record, each behind its key. -/
def memberDisplays : List (String × RawValue) → List (List Char)
  | [] => []
  | (key, value) :: members =>
    ((Text.quoted key).toList ++ ':' :: ' ' :: displayChars value) :: memberDisplays members

end

/-- The text that shows a value. -/
def display (value : RawValue) : String := String.ofList value.displayChars

/-- The name of the kind of a value. -/
def kindName : RawValue → String
  | .null => "NoneType"
  | .bool _ => "bool"
  | .int _ => "int"
  | .fraction _ => "float"
  | .text _ => "str"
  | .list _ => "list"
  | .record _ => "dict"

end RawValue

end CallTrace
