/-!
# Letters

A text from outside need not be Unicode: it may have halves of surrogate pairs in it, among them
those that stand for the bytes of an argument that are no part of a character. Such a text is a
list of letters, each of them a character or a half.
-/

namespace CallTrace

/-- A character, or half of a surrogate pair. -/
inductive Letter where
  /-- A character. -/
  | char (c : Char)
  /-- A half, by its place among the halves. -/
  | half (h : Fin 0x800)
  deriving DecidableEq

/-- The code point of the first half. -/
def firstHalf : Nat := 0xd800

/-- The code point of a letter. -/
def Letter.toNat : Letter → Nat
  | .char c => c.toNat
  | .half h => firstHalf + h

/-- The character that a letter is. -/
def Letter.char? : Letter → Option Char
  | .char c => some c
  | .half _ => none

instance : Coe Char Letter := ⟨.char⟩

/-- A text that need not be Unicode. -/
abbrev Letters := List Letter

/-- The letters of a text. -/
def Letters.ofString (s : String) : Letters := s.toList.map .char

instance : Coe String Letters := ⟨Letters.ofString⟩

/-- The text of letters that are all characters. -/
def Letters.toString? (s : Letters) : Option String := (s.mapM Letter.char?).map String.ofList

end CallTrace
