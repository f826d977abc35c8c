import CallTrace.Number.Binary
import CallTrace.Text.Letters
import CallTrace.Validation.Numeral

/-!
# Raw values

Values as they are offered for the fields of a record, before anything is
known of their kind, and the numbers that they stand for: whole numbers,
truth values, fractions that have no fractional part, and numerals in text.
What does not fit a field is told by the kind of its misfit.
-/

namespace CallTrace

/-- A value offered for a field. -/
inductive RawValue where
  /-- The absent value. -/
  | null
  /-- A truth value. -/
  | bool (b : Bool)
  /-- A whole number. -/
  | int (n : Int)
  /-- A number written with a fraction or an exponent. -/
  | fraction (x : BinaryFraction)
  /-- A text. -/
  | text (s : Letters)
  /-- Values in order. -/
  | list (elements : List RawValue)
  /-- Values under keys. -/
  | record (members : List (String × RawValue))
  deriving Inhabited

/-- Why a value does not fit a field. -/
inductive Misfit where
  /-- No value was offered. -/
  | missing
  /-- Not a text. -/
  | notText
  /-- A text that is not Unicode. -/
  | notUnicode
  /-- A text without characters. -/
  | emptyText
  /-- Not a number. -/
  | notNumber
  /-- A number with a fractional part. -/
  | fractional
  /-- An infinity or no number. -/
  | notFinite
  /-- A text that is no numeral. -/
  | notNumeral
  /-- A text with too many digits, or a fraction that is too large. -/
  | oversized
  /-- A number below zero. -/
  | negative
  /-- Not a path. -/
  | notPath
  /-- The record cannot be changed. -/
  | frozen
  deriving DecidableEq

/-- The name of a misfit. -/
def Misfit.name : Misfit → String
  | .missing => "missing"
  | .notText => "string_type"
  | .notUnicode => "string_unicode"
  | .emptyText => "string_too_short"
  | .notNumber => "int_type"
  | .fractional => "int_from_float"
  | .notFinite => "finite_number"
  | .notNumeral => "int_parsing"
  | .oversized => "int_parsing_size"
  | .negative => "greater_than_equal"
  | .notPath => "path_type"
  | .frozen => "frozen_instance"

/-- The words of a misfit. -/
def Misfit.description : Misfit → String
  | .missing => "Field required"
  | .notText => "Input should be a valid string"
  | .notUnicode =>
    "Input should be a valid string, unable to parse raw data as a unicode string"
  | .emptyText => "String should have at least 1 character"
  | .notNumber => "Input should be a valid integer"
  | .fractional => "Input should be a valid integer, got a number with a fractional part"
  | .notFinite => "Input should be a finite number"
  | .notNumeral => "Input should be a valid integer, unable to parse string as an integer"
  | .oversized => "Unable to parse input string as an integer, exceeded maximum size"
  | .negative => "Input should be greater than or equal to 0"
  | .notPath => "Input is not a valid path for <class 'pathlib.Path'>"
  | .frozen => "Instance is frozen"

/-- A misfit and the field that it concerns. -/
structure FieldIssue where
  /-- Name of the field. -/
  field : String
  /-- What is wrong with its value. -/
  misfit : Misfit
  deriving DecidableEq

/-- The characters of a text that has to be Unicode. -/
def readUnicode (s : Letters) : Except Misfit String :=
  match Letters.toString? s with
  | some s => .ok s
  | none => .error .notUnicode

/-- The number of a numeral in text. -/
def readNumeral (s : String) : Except Misfit Int :=
  match PlainNumeral.ofText s with
  | .number n => .ok n
  | .malformed => .error .notNumeral
  | .oversized => .error .oversized

/-- The number of a fraction that has no fractional part and fits 64 bits. -/
def readFraction (x : BinaryFraction) : Except Misfit Int :=
  match x with
  | .finite .. =>
    match x.whole? with
    | none => .error .fractional
    | some n => if n.natAbs < UInt64.size / 2 then .ok n else .error .oversized
  | .infinite _ => .error .notFinite
  | .undefined => .error .notFinite

namespace RawValue

/-- The number that a value stands for. -/
def number : RawValue → Except Misfit Int
  | .bool b => .ok (if b then 1 else 0)
  | .int n => .ok n
  | .fraction x => readFraction x
  | .text s => (readUnicode s).bind readNumeral
  | .null => .error .notNumber
  | .list _ => .error .notNumber
  | .record _ => .error .notNumber

/-- A number that is not negative. -/
def count (v : RawValue) : Except Misfit Nat :=
  match v.number with
  | .ok (.ofNat n) => .ok n
  | .ok (.negSucc _) => .error .negative
  | .error e => .error e

/-- A text with at least one character. -/
def nonemptyText : RawValue → Except Misfit { s : String // s ≠ "" }
  | .text s =>
    match readUnicode s with
    | .error e => .error e
    | .ok s => if h : s = "" then .error .emptyText else .ok ⟨s, h⟩
  | _ => .error .notText

end RawValue

/-- Values under the names of fields. -/
abbrev RawRecord := List (String × RawValue)

/-- The value of a field that has to be there, as read by the given reader. -/
def RawRecord.read {α : Type} (record : RawRecord) (field : String)
    (reader : RawValue → Except Misfit α) : Except FieldIssue α :=
  match record.lookup field with
  | none => .error ⟨field, .missing⟩
  | some v => (reader v).mapError fun misfit => ⟨field, misfit⟩

/-- The issue that a reading ended with, if it did. -/
def issueOf {α : Type} : Except FieldIssue α → List FieldIssue
  | .ok _ => []
  | .error issue => [issue]

end CallTrace
