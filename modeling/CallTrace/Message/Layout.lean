import CallTrace.Message.Basic
import CallTrace.Message.TextTree
import CallTrace.Text.Utf8
import CallTrace.Wire.Field

/-!
# Layouts

A layout says how a structure is a message: its full name, its empty value
and its fields in the order of their numbers. A field knows what a payload on
the wire does to the message, how it is written, and how it is displayed. The
constructors below give the fields their usual meaning: a later scalar takes
the place of an earlier one, a later message is merged into an earlier one,
and repeated values pile up. What no field takes is kept as it arrived and is
written behind the known fields. A message whose layout has fields is corrupt
where one stands without a number; one that has none looks at no numbers.

A text is looked at as soon as it is taken off the input, and only then is it
seen whether its message reaches so far. So the fault of a message that ends
inside one of its texts depends on what stands behind the message.
-/

namespace CallTrace

/-- A place in a structure. -/
structure Lens (μ β : Type) where
  /-- The value at the place. -/
  get : μ → β
  /-- The structure with another value at the place. -/
  set : β → μ → μ

/-- How a packed message is displayed. -/
abbrev Unpacker := Any → Except DecodeError (List TextNode)

/-- Why bytes are not the fields of a message, as far as the bytes themselves show. -/
inductive Flaw where
  /-- There is a fault in them. -/
  | fault (fault : Fault)
  /-- No field can be read off these bytes. The numbers are those of the fields that hold text. -/
  | unread (textFields : List Nat) (bytes : List UInt8)
  deriving DecidableEq

/-- A flaw in bytes, seen in these bytes and those behind them. -/
def Flaw.before (rest : List UInt8) : Flaw → Flaw
  | .fault f => .fault f
  | .unread textFields bytes => .unread textFields (bytes ++ rest)

/-- The fault that a flaw comes to where nothing stands behind the bytes. -/
def Flaw.toFault : Flaw → Fault
  | .fault f => f
  | .unread textFields bytes =>
    match Wire.Field.read? 0 bytes with
    | some (⟨number, .delimited run, _⟩, _) =>
      if textFields.contains number && (Utf8.decode? run).isNone then .badText else .corrupt
    | _ => .corrupt

/-- One field of a message type. -/
structure Field (μ : Type) where
  /-- The number in the field's tags. -/
  number : Nat
  /-- Whether the field holds text. -/
  holdsText : Bool := false
  /--
  What a payload does to the message, with room for so many messages and groups in each other;
  nothing is said of a payload that the field cannot take.
  -/
  absorb : (room : Nat) → Wire.Payload → μ → Option (Except Flaw μ)
  /-- The bytes of the field. -/
  emit : μ → List UInt8
  /-- The field on display; a field that is not set has no node. -/
  nodes : Unpacker → μ → Except DecodeError (List TextNode)

/-- How a structure is a message. -/
structure Layout (μ : Type) where
  /-- Name of the type with its package. -/
  fullName : String
  /-- The message without set fields. -/
  empty : μ
  /-- The known fields, by number. -/
  fields : List (Field μ)
  /-- The bytes of the fields that are not known. -/
  unknown : Lens μ (List UInt8)
  /-- The envelope that this message is, if it is one. -/
  packed? : μ → Option Any := fun _ => none

namespace Layout

variable {μ : Type}

/-- Keep a field that the layout does not know. -/
def keep (L : Layout μ) (bytes : List UInt8) (m : μ) : μ :=
  L.unknown.set (L.unknown.get m ++ bytes) m

/-- The numbers of the fields that hold text. -/
def textFields (L : Layout μ) : List Nat := (L.fields.filter (·.holdsText)).map (·.number)

/-- Take one field off the wire into a message. -/
def absorb (L : Layout μ) (room : Nat) (field : Wire.Field) (m : μ) : Except Flaw μ :=
  match L.fields.find? (fun f => f.number = field.number) with
  | none =>
    if field.number = 0 && !L.fields.isEmpty then .error (.fault .corrupt)
    else .ok (L.keep field.verbatim m)
  | some f => (f.absorb room field.payload m).getD (.ok (L.keep field.verbatim m))

/-- Take encoded fields into a message, from left to right up to the first flaw. -/
def decodeOnto (L : Layout μ) (room : Nat) (m : μ) (bytes : List UInt8) : Except Flaw μ :=
  match bytes with
  | [] => .ok m
  | b :: bs =>
    match _h : Wire.Field.read? room (b :: bs) with
    | none => .error (.unread L.textFields (b :: bs))
    | some (field, rest) =>
      match L.absorb room field m with
      | .error flaw => .error (flaw.before rest)
      | .ok m => L.decodeOnto room m rest
termination_by bytes.length
decreasing_by exact Wire.Field.length_lt_of_read? _h

/-- Take encoded fields into a message that stands in another one. -/
def decodeWithin (L : Layout μ) (room : Nat) (m : μ) (bytes : List UInt8) : Except Flaw μ :=
  match room with
  | 0 => .error (.fault .corrupt)
  | room + 1 => L.decodeOnto room m bytes

/-- The message that the bytes encode. -/
def decode (L : Layout μ) (bytes : List UInt8) : Except Fault μ :=
  (L.decodeOnto Wire.nestingLimit L.empty bytes).mapError Flaw.toFault

/-- Known fields by number, then the others as they arrived. -/
def encode (L : Layout μ) (m : μ) : List UInt8 :=
  L.fields.flatMap (fun f => f.emit m) ++ L.unknown.get m

/-- The set fields of a message on display. -/
def fieldNodes (L : Layout μ) (unpack : Unpacker) (m : μ) : Except DecodeError (List TextNode) :=
  (L.fields.mapM fun (f : Field μ) => f.nodes unpack m).map List.flatten

/-- A message on display, where an envelope shows what is packed in it. -/
def nodes (L : Layout μ) (unpack : Unpacker) (m : μ) : Except DecodeError (List TextNode) :=
  match L.packed? m with
  | some a => unpack a
  | none => L.fieldNodes unpack m

end Layout

/-- A run of bytes behind its length. -/
def delimit (bytes : List UInt8) : List UInt8 := Varint.encode bytes.length ++ bytes

/-- A scalar that is a number on the wire. -/
structure Word (β : Type) where
  /-- The value of a word. -/
  ofWord : UInt64 → β
  /-- The word of a value. -/
  toWord : β → UInt64
  /-- The text of a value. -/
  text : β → String

/-- Signed numbers of 64 bits. -/
def Word.int64 : Word Int64 := ⟨UInt64.toInt64, Int64.toUInt64, fun n => n.toInt.repr⟩

/-- Signed numbers of 32 bits; a negative one is written as a word of 64 bits. -/
def Word.int32 : Word Int32 :=
  ⟨fun w => w.toUInt32.toInt32, fun n => n.toInt64.toUInt64, fun n => n.toInt.repr⟩

/-- Truth values; every word but zero is true. -/
def Word.flag : Word Bool :=
  ⟨fun w => w ≠ 0, fun b => if b then 1 else 0, fun b => if b then "true" else "false"⟩

/-- All the numbers in a run of bytes. -/
def readWords? (bytes : List UInt8) : Option (List UInt64) :=
  match bytes with
  | [] => some []
  | b :: bs =>
    match _h : Varint.read? 10 (b :: bs) with
    | none => none
    | some (n, rest) => (readWords? rest).map (UInt64.ofNat n :: ·)
termination_by bytes.length
decreasing_by exact Varint.length_lt_of_read? _h

namespace Field

variable {μ β : Type}

/-- A number, not set when it is that of the word zero. -/
def word [DecidableEq β] (w : Word β) (number : Nat) (name : String) (lens : Lens μ β) :
    Field μ where
  number := number
  absorb _ payload m :=
    match payload with
    | .varint n => some (.ok (lens.set (w.ofWord n) m))
    | _ => none
  emit m :=
    if lens.get m = w.ofWord 0 then []
    else Wire.Tag.encode number .varint ++ Varint.encode (w.toWord (lens.get m)).toNat
  nodes _ m :=
    .ok (if lens.get m = w.ofWord 0 then [] else [.scalar name (w.text (lens.get m))])

/-- A text, not set when it is empty. -/
def text (number : Nat) (name : String) (lens : Lens μ String) : Field μ where
  number := number
  holdsText := true
  absorb _ payload m :=
    match payload with
    | .delimited bytes =>
      match Utf8.decode? bytes with
      | some s => some (.ok (lens.set s m))
      | none => some (.error (.fault .badText))
    | _ => none
  emit m :=
    if lens.get m = "" then []
    else Wire.Tag.encode number .delimited ++ delimit (Utf8.encode (lens.get m))
  nodes _ m :=
    .ok (if lens.get m = "" then [] else [.scalar name (quoteText (lens.get m))])

/-- A run of bytes, not set when it is empty. -/
def octets (number : Nat) (name : String) (lens : Lens μ (List UInt8)) : Field μ where
  number := number
  absorb _ payload m :=
    match payload with
    | .delimited bytes => some (.ok (lens.set bytes m))
    | _ => none
  emit m :=
    if lens.get m = [] then []
    else Wire.Tag.encode number .delimited ++ delimit (lens.get m)
  nodes _ m :=
    .ok (if lens.get m = [] then [] else [.scalar name (quoteBytes (lens.get m))])

/-- Numbers, written in one run and read in runs or one by one. -/
def words (w : Word β) (number : Nat) (name : String) (lens : Lens μ (List β)) : Field μ where
  number := number
  absorb _ payload m :=
    match payload with
    | .varint n => some (.ok (lens.set (lens.get m ++ [w.ofWord n]) m))
    | .delimited bytes =>
      match readWords? bytes with
      | some ns => some (.ok (lens.set (lens.get m ++ ns.map w.ofWord) m))
      | none => some (.error (.fault .corrupt))
    | .other => none
  emit m :=
    if (lens.get m).isEmpty then []
    else Wire.Tag.encode number .delimited ++
      delimit ((lens.get m).flatMap fun v => Varint.encode (w.toWord v).toNat)
  nodes _ m := .ok ((lens.get m).map fun v => .scalar name (w.text v))

/-- Texts, each in a field of its own. -/
def texts (number : Nat) (name : String) (lens : Lens μ (List String)) : Field μ where
  number := number
  holdsText := true
  absorb _ payload m :=
    match payload with
    | .delimited bytes =>
      match Utf8.decode? bytes with
      | some s => some (.ok (lens.set (lens.get m ++ [s]) m))
      | none => some (.error (.fault .badText))
    | _ => none
  emit m :=
    (lens.get m).flatMap fun s => Wire.Tag.encode number .delimited ++ delimit (Utf8.encode s)
  nodes _ m := .ok ((lens.get m).map fun s => .scalar name (quoteText s))

/-- A message within the message, written even when it is empty. -/
def message (L : Layout β) (number : Nat) (name : String) (lens : Lens μ (Option β)) :
    Field μ where
  number := number
  absorb room payload m :=
    match payload with
    | .delimited bytes =>
      match L.decodeWithin room ((lens.get m).getD L.empty) bytes with
      | .ok inner => some (.ok (lens.set (some inner) m))
      | .error flaw => some (.error flaw)
    | _ => none
  emit m :=
    match lens.get m with
    | none => []
    | some inner => Wire.Tag.encode number .delimited ++ delimit (L.encode inner)
  nodes unpack m :=
    match lens.get m with
    | none => .ok []
    | some inner => (L.nodes unpack inner).map fun children => [.block name children]

/-- Messages within the message, each in a field of its own. -/
def messages (L : Layout β) (number : Nat) (name : String) (lens : Lens μ (List β)) :
    Field μ where
  number := number
  absorb room payload m :=
    match payload with
    | .delimited bytes =>
      match L.decodeWithin room L.empty bytes with
      | .ok inner => some (.ok (lens.set (lens.get m ++ [inner]) m))
      | .error flaw => some (.error flaw)
    | _ => none
  emit m :=
    (lens.get m).flatMap fun inner =>
      Wire.Tag.encode number .delimited ++ delimit (L.encode inner)
  nodes unpack m :=
    (lens.get m).mapM fun inner => (L.nodes unpack inner).map fun children => .block name children

end Field

end CallTrace
