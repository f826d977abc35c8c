import CallTrace.Message.Layout

/-!
# Sketches

A sketch is a message on display whose envelopes have not been opened yet. It
is all that is known of the messages that stand in no log and can still be
packed in one: a library may know any number of them, by their names, and may
show each in its own way. What is shown is made of fields like all messages,
and what is packed in a message is shorter than the message.
-/

namespace CallTrace

/-- One set field of a message, with what is packed in it left closed. -/
inductive Sketch where
  /-- A field that holds no message, and the text of its value. -/
  | scalar (name value : String)
  /-- A message and its set fields. -/
  | block (name : String) (children : List Sketch)
  /-- A packed message. -/
  | packed (name : String) (envelope : Any)

namespace Sketch

mutual

/-- A field on display. -/
def node (unpack : Unpacker) : Sketch → Except DecodeError TextNode
  | .scalar name value => .ok (.scalar name value)
  | .block name children => (nodes unpack children).map (.block name)
  | .packed name envelope => (unpack envelope).map (.block name)

/-- Fields on display. -/
def nodes (unpack : Unpacker) : List Sketch → Except DecodeError (List TextNode)
  | [] => .ok []
  | sketch :: sketches => do
    let first ← sketch.node unpack
    let others ← nodes unpack sketches
    return first :: others

end

/-- The sketch can be that of a field in a message of so many bytes. -/
inductive Fits (size : Nat) : Sketch → Prop
  /-- A value is written on one line. -/
  | scalar {name value : String} (hname : isFieldName name = true)
    (hvalue : '\n' ∉ value.toList) : Fits size (.scalar name value)
  /-- The fields of a message in the message are fields of such a message as well. -/
  | block {name : String} {children : List Sketch} (hname : isFieldName name = true)
    (hchildren : ∀ child ∈ children, Fits size child) : Fits size (.block name children)
  /-- What is packed is shorter than the message. -/
  | packed {name : String} {envelope : Any} (hname : isFieldName name = true)
    (hsize : envelope.value.length < size) : Fits size (.packed name envelope)

end Sketch

/-- The message types that are known beside those of a log. -/
class KnownTypes where
  /-- How the bytes of a message are shown, if there is a type of that name. -/
  further : String → Option (List UInt8 → Except Fault (List Sketch))
  /-- Messages are shown field by field. -/
  fits : ∀ {name : String} {display : List UInt8 → Except Fault (List Sketch)},
    further name = some display → ∀ {bytes : List UInt8} {sketches : List Sketch},
      display bytes = .ok sketches → ∀ sketch ∈ sketches, sketch.Fits bytes.length

/-- No types are known but those of a log. -/
abbrev KnownTypes.ofLogs : KnownTypes := ⟨fun _ => none, nofun⟩

end CallTrace
