import CallTrace.Text.Quoted
import CallTrace.Text.Utf8

/-!
# Letters as bytes

A half has no bytes, so a text with a half in it cannot be written. A text that is handed to the
operating system may have halves that stand for a byte each, and they become these bytes again.
-/

namespace CallTrace

/-- Why a text has no bytes. -/
structure EncodingError where
  /-- The code point of the half that has none. -/
  code : Nat
  /-- How many letters stand before it. -/
  position : Nat
  /-- How many more halves follow it at once. -/
  more : Nat
  deriving DecidableEq

/-- The text of an encoding error. -/
def EncodingError.message (e : EncodingError) : String :=
  if e.more = 0 then
    "'utf-8' codec can't encode character '" ++ String.ofList (Text.codeEscape e.code) ++
      "' in position " ++ e.position.repr ++ ": surrogates not allowed"
  else
    "'utf-8' codec can't encode characters in position " ++ e.position.repr ++ "-" ++
      (e.position + e.more).repr ++ ": surrogates not allowed"

/-- The half that stands for the byte 128; those for the other bytes follow it. -/
def firstByteHalf : Nat := 0xdc80

/-- The byte that a half stands for. -/
def byteOf? (h : Fin 0x800) : Option UInt8 :=
  let n := (Letter.half h).toNat
  if firstByteHalf ≤ n ∧ n < firstByteHalf + 128 then some (UInt8.ofNat (n - firstByteHalf + 128))
  else none

namespace Letter

/-- The bytes of a letter; a half has one at most. -/
def bytes : Letter → List UInt8
  | .char c => String.utf8EncodeChar c
  | .half h => (byteOf? h).toList

/-- Whether a letter is a half. -/
def isHalf : Letter → Bool
  | .char _ => false
  | .half _ => true

/-- Whether a letter is a half that stands for no byte. -/
def isStray : Letter → Bool
  | .char _ => false
  | .half h => (byteOf? h).isNone

end Letter

namespace Letters

/-- All the bytes of the letters. -/
def bytes (s : Letters) : List UInt8 := s.flatMap Letter.bytes

/-- The first of the halves in a text that have no bytes, with so many letters before the text. -/
def faultFrom? (bad : Letter → Bool) : (position : Nat) → Letters → Option EncodingError
  | _, [] => none
  | position, l :: rest =>
    if bad l then some ⟨l.toNat, position, (rest.takeWhile Letter.isHalf).length⟩
    else faultFrom? bad (position + 1) rest

/-- The bytes of a text that is written; it may have no half in it. -/
def encode (s : Letters) : Except EncodingError (List UInt8) :=
  match faultFrom? Letter.isHalf 0 s with
  | some e => .error e
  | none => .ok s.bytes

/-- The bytes of a text that is handed to the operating system. -/
def systemBytes (s : Letters) : Except EncodingError (List UInt8) :=
  match faultFrom? Letter.isStray 0 s with
  | some e => .error e
  | none => .ok s.bytes

end Letters

end CallTrace
