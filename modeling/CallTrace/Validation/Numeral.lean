import CallTrace.Text.Numeral
import CallTrace.Text.Segments

/-!
# Whole numbers in text

A text is a whole number in plain form if it is all digits, without zeros in
front, behind a minus sign or none. Any other text is tidied once: blanks
around it, one sign, zeros in front, a point with nothing but zeros behind it
and single underscores are taken away, and what is left has to be plain. The
zeros in front may have underscores among them, any number at a time, and even
the minus sign may stand behind them. Too many digits are told of only where
the text begins with them as it stands; after tidying they are no number.
-/

namespace CallTrace

/-- The greatest number of digits in a numeral. -/
def numeralLimit : Nat := 4300

/-- What a text in plain form comes to. -/
inductive PlainNumeral where
  /-- The text is a number. -/
  | number (n : Int)
  /-- The text is no number. -/
  | malformed
  /-- The text begins with more digits than are read. -/
  | oversized
  deriving DecidableEq

/-- Read a text in plain form. -/
def PlainNumeral.read (cs : List Char) : PlainNumeral :=
  let (negative, unsigned) :=
    match cs with
    | '-' :: cs => (true, cs)
    | cs => (false, cs)
  match unsigned.span Char.isDigit with
  | ([], _) => .malformed
  | (['0'], []) => .number 0
  | ('0' :: _, _) => .malformed
  | (digits, rest) =>
    if numeralLimit < digits.length then .oversized
    else if rest ≠ [] then .malformed
    else .number (Text.signed negative (Text.ofDigits (digits.filterMap Text.asciiDigit?)))

/-- The text behind zeros and underscores, where the last of them was the given character. -/
def dropZerosBehind (last : Char) : List Char → Option (List Char)
  | [] => some [last]
  | c :: cs =>
    if c = '0' ∨ c = '_' then dropZerosBehind c cs
    else if c = '-' ∨ c.isDigit then some (c :: cs)
    else if c = '.' then some (last :: c :: cs)
    else none

/-- A text without the zeros in front; of zeros alone one is left. -/
def dropZeros : List Char → Option (List Char)
  | [] => none
  | c :: cs =>
    if c = '0' then dropZerosBehind c cs
    else if c = '-' ∨ c.isDigit then some (c :: cs)
    else none

/-- A text without a plus sign and the zeros behind its sign. -/
def dropSignedZeros : List Char → Option (List Char)
  | '-' :: cs => (dropZeros cs).map ('-' :: ·)
  | '+' :: '-' :: _ => none
  | '+' :: cs => dropZeros cs
  | cs => dropZeros cs

/-- A text without a point that zeros follow, at least one and nothing else. -/
def dropZeroFraction (cs : List Char) : List Char :=
  match cs.span (· ≠ '.') with
  | (whole, _ :: '0' :: zeros) => if zeros.all (· = '0') then whole else cs
  | _ => cs

/-- A text without its underscores, which stand one by one and not at the ends. -/
def dropUnderscores (cs : List Char) : Option (List Char) :=
  let runs := Text.segments '_' cs
  if runs.contains [] then none else some runs.flatten

/-- The plain form of a text, so far as it has one. -/
def tidyNumeral (cs : List Char) : Option (List Char) := do
  let signed ← dropSignedZeros (Text.trim cs)
  dropUnderscores (dropZeroFraction signed)

/-- The number of a text, read as it is and else in its plain form. -/
def PlainNumeral.ofText (s : String) : PlainNumeral :=
  match PlainNumeral.read s.toList with
  | .malformed =>
    match (tidyNumeral s.toList).map PlainNumeral.read with
    | some (.number n) => .number n
    | _ => .malformed
  | result => result

end CallTrace
