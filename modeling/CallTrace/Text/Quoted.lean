import CallTrace.Text.Letters
import CallTrace.Text.Printable

/-!
# Quoted text in diagnostics

How a text is quoted in the wording of an error. Single quotes enclose it, or
double quotes where the text has a single quote and no double one. What would
not show is written by its code.
-/

namespace CallTrace.Text

/-- The quote that encloses a text. -/
def enclosingQuote (s : Letters) : Char :=
  if s.contains (.char '\'') && !s.contains (.char '"') then '"' else '\''

/-- A number in lowercase hexadecimal with the given count of digits. -/
def hexDigits : (count : Nat) → Nat → List Char
  | 0, _ => []
  | count + 1, n => Nat.digitChar (n / 16 ^ count % 16) :: hexDigits count n

/-- A code point, in as few digits as its size allows. -/
def codeEscape (n : Nat) : List Char :=
  if n < 0x100 then '\\' :: 'x' :: hexDigits 2 n
  else if n < 0x10000 then '\\' :: 'u' :: hexDigits 4 n
  else '\\' :: 'U' :: hexDigits 8 n

/-- The form of a letter between the given quotes. -/
def quotedLetter (quote : Char) : Letter → List Char
  | .char c =>
    if c = quote ∨ c = '\\' then ['\\', c]
    else if c = '\t' then ['\\', 't']
    else if c = '\n' then ['\\', 'n']
    else if c = '\r' then ['\\', 'r']
    else if isPrintable c then [c]
    else codeEscape c.toNat
  | .half h => codeEscape (Letter.half h).toNat

/-- A text in quotes. -/
def quoted (s : Letters) : String :=
  let quote := enclosingQuote s
  String.ofList (quote :: s.flatMap (quotedLetter quote) ++ [quote])

end CallTrace.Text
