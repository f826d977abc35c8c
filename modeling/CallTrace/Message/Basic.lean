/-!
# Packed messages and decoding faults

What every message type has to do with: the reasons for which bytes are no
message of a type, and the envelope that carries a message of any type under
a URL that names the type.
-/

namespace CallTrace

/-- Why bytes are not a message. -/
inductive Fault where
  /-- The bytes are not a sequence of fields. -/
  | corrupt
  /-- A text field does not hold UTF-8. -/
  | badText
  deriving DecidableEq

/-- The words for a fault. -/
def Fault.description : Fault → String
  | .corrupt => "Wire format was corrupt"
  | .badText => "String field had bad UTF-8"

/-- Bytes that were to be decoded as a message of some type and are none. -/
structure DecodeError where
  /-- Full name of the type that was asked for, whatever type the fault lies in. -/
  typeName : String
  /-- The first fault from the left. -/
  fault : Fault
  deriving DecidableEq

/-- The text of a decoding error. -/
def DecodeError.message (e : DecodeError) : String :=
  "Error parsing message with type '" ++ e.typeName ++ "': " ++ e.fault.description

/-- A message of any type, encoded, under a URL that ends in the name of its type. -/
structure Any where
  /-- What stands behind the last slash names the packed type. -/
  typeUrl : String := ""
  /-- The encoded message. -/
  value : List UInt8 := []
  /-- Fields of unknown number or kind, in order of arrival. -/
  unknown : List UInt8 := []
  deriving DecidableEq

/-- What stands behind the last slash of a text; nothing if it has no slash. -/
def afterLastSlash? (cs : List Char) : Option (List Char) :=
  match cs with
  | [] => none
  | c :: cs =>
    match afterLastSlash? cs with
    | some name => some name
    | none => if c = '/' then some cs else none

/-- The type name in the URL of a packed message. -/
def Any.typeName? (a : Any) : Option String :=
  (afterLastSlash? a.typeUrl.toList).map String.ofList

end CallTrace
