/-!
# Messages as text

The readable form of a message is a tree of named values and named blocks. It
is laid out on lines of its own with two spaces per level, or on one line. A
quoted text keeps every character outside ASCII; quoted bytes keep none.
-/

namespace CallTrace

/-- One set field of a message, ready for display. -/
inductive TextNode where
  /-- A field that holds no message, and the text of its value. -/
  | scalar (name value : String)
  /-- A message, under a header, and its set fields. -/
  | block (header : String) (children : List TextNode)

/-- A name of letters, digits and underscores; that of an extension has its package in it. -/
def isFieldName (name : String) : Bool :=
  name ≠ "" && name.toList.all fun c => c.isAlphanum || ['_', '.', '[', ']'].contains c

/-- A backslash and three octal digits. -/
def octalEscape (n : Nat) : List Char :=
  ['\\', Nat.digitChar (n / 64 % 8), Nat.digitChar (n / 8 % 8), Nat.digitChar (n % 8)]

/-- The form of a character between quotes. -/
def escapeChar (c : Char) : List Char :=
  if c = '\t' then ['\\', 't']
  else if c = '\n' then ['\\', 'n']
  else if c = '\r' then ['\\', 'r']
  else if c = '"' then ['\\', '"']
  else if c = '\'' then ['\\', '\'']
  else if c = '\\' then ['\\', '\\']
  else if c.toNat < 32 ∨ c.toNat = 127 then octalEscape c.toNat
  else [c]

/-- The form of a byte between quotes: that of its character in ASCII, else octal. -/
def escapeByte (b : UInt8) : List Char :=
  if b.toNat < 128 then escapeChar (Char.ofNat b.toNat) else octalEscape b.toNat

/-- A text between double quotes. -/
def quoteText (s : String) : String :=
  String.ofList ('"' :: s.toList.flatMap escapeChar ++ ['"'])

/-- A run of bytes between double quotes. -/
def quoteBytes (bytes : List UInt8) : String :=
  String.ofList ('"' :: bytes.flatMap escapeByte ++ ['"'])

/-- Two spaces per level. -/
def indentation (depth : Nat) : String := String.ofList (List.replicate (2 * depth) ' ')

mutual

/-- A node on lines of its own. -/
def TextNode.render (depth : Nat) : TextNode → String
  | .scalar name value => indentation depth ++ name ++ ": " ++ value ++ "\n"
  | .block header children =>
    indentation depth ++ header ++ " \x7b\n" ++ TextNode.renderAll (depth + 1) children ++
      indentation depth ++ "\x7d\n"

/-- Nodes below each other. -/
def TextNode.renderAll (depth : Nat) : List TextNode → String
  | [] => ""
  | node :: nodes => node.render depth ++ TextNode.renderAll depth nodes

end

mutual

/-- A node without line feeds of its own. -/
def TextNode.inline : TextNode → String
  | .scalar name value => name ++ ": " ++ value
  | .block header children => header ++ " \x7b " ++ TextNode.inlineAll children ++ "\x7d"

/-- Nodes behind each other, a space behind each. -/
def TextNode.inlineAll : List TextNode → String
  | [] => ""
  | node :: nodes => node.inline ++ " " ++ TextNode.inlineAll nodes

end

/-- A message on lines of its own. -/
def TextNode.multiLine (nodes : List TextNode) : String := TextNode.renderAll 0 nodes

/-- A message on one line, with a space between its fields. -/
def TextNode.oneLine (nodes : List TextNode) : String :=
  " ".intercalate (nodes.map TextNode.inline)

end CallTrace
