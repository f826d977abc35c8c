import CallTrace.Text.Encoding

/-!
# Canonical JSON

JSON values without fractions, and one text for each: members sorted by key,
no blanks, characters outside ASCII as they are, and an escape only for a
quote, a backslash and the control characters. Values that differ in the
order of members alone have the same text.
-/

namespace CallTrace

/-- A JSON value whose numbers are whole. -/
inductive Json where
  /-- The absent value. -/
  | null
  /-- A truth value. -/
  | bool (b : Bool)
  /-- A whole number of any size. -/
  | int (n : Int)
  /-- A text. -/
  | string (s : Letters)
  /-- Values in order. -/
  | array (elements : List Json)
  /-- Values under keys. -/
  | object (members : List (String × Json))
  deriving Inhabited

namespace Json

/-- A text as a value, or the absent value. -/
def stringOrNull : Option Letters → Json
  | some s => .string s
  | none => .null

/-- A lowercase hexadecimal digit. -/
def hexDigit (n : Nat) : Char := Nat.digitChar (n % 16)

/-- The form of a character between quotes. -/
def escapeChar (c : Char) : List Char :=
  if c = '"' then ['\\', '"']
  else if c = '\\' then ['\\', '\\']
  else if c = '\n' then ['\\', 'n']
  else if c = '\r' then ['\\', 'r']
  else if c = '\t' then ['\\', 't']
  else if c = '\x08' then ['\\', 'b']
  else if c = '\x0c' then ['\\', 'f']
  else if c.toNat < 32 then ['\\', 'u', '0', '0', hexDigit (c.toNat / 16), hexDigit c.toNat]
  else [c]

/-- The form of a letter between quotes; a half stands for itself. -/
def escape : Letter → Letters
  | .char c => (escapeChar c).map .char
  | .half h => [.half h]

/-- A text between quotes. -/
def quote (s : Letters) : Letters := .char '"' :: s.flatMap escape ++ [.char '"']

/-- Texts with a comma between each two. -/
def commaSeparated : List Letters → Letters
  | [] => []
  | [text] => text
  | text :: texts => text ++ .char ',' :: commaSeparated texts

/-- Members by key, in the order of code points. -/
def sortMembers (members : List (String × Letters)) : List (String × Letters) :=
  members.mergeSort fun a b => a.1 ≤ b.1

/-- A member with its key. -/
def memberText (member : String × Letters) : Letters := quote member.1 ++ .char ':' :: member.2

mutual

/-- The canonical text of a value. -/
def canonical : Json → Letters
  | .null => "null"
  | .bool true => "true"
  | .bool false => "false"
  | .int n => n.repr
  | .string s => quote s
  | .array elements => .char '[' :: commaSeparated (elementTexts elements) ++ [.char ']']
  | .object members =>
    .char '{' :: commaSeparated ((sortMembers (memberTexts members)).map memberText) ++
      [.char '}']

/-- The canonical texts of the elements of an array. -/
def elementTexts : List Json → List Letters
  | [] => []
  | element :: elements => canonical element :: elementTexts elements

/-- The keys of an object with the canonical texts of their values. -/
def memberTexts : List (String × Json) → List (String × Letters)
  | [] => []
  | (key, value) :: members => (key, canonical value) :: memberTexts members

end

/-- What a file holds that a value is written to. -/
def fileText (value : Json) : Letters := value.canonical ++ [.char '\n']

end Json

end CallTrace
