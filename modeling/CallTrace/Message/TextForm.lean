import CallTrace.Message.Catalogue
import CallTrace.Message.Sketch

/-!
# The text form of messages

A packed message of a known type is displayed as the message that it holds,
under its URL in brackets, and so are the messages packed in that one. One of
an unknown type is displayed by its own two fields. Bytes that are no message
of the type that their URL claims leave the whole text without a form.
-/

namespace CallTrace

variable [KnownTypes]

/-- The packed message as a sketch, where its type is none of a log but known. -/
def Any.sketches? (a : Any) : Option (Except DecodeError (List Sketch)) :=
  a.typeName?.bind fun name =>
    (KnownTypes.further name).map fun display =>
      (display a.value).mapError fun fault => ⟨name, fault⟩

/-- How the packed message is shown, given how what is packed in it is; nothing of unknown types. -/
def Any.display? (a : Any) :
    Option (Except DecodeError (Unpacker → Except DecodeError (List TextNode))) :=
  match a.messageType? with
  | some t => some ((t.decode a.value).map fun m unpack => t.layout.nodes unpack m)
  | none => a.sketches?.map fun sketches => sketches.map fun sketches unpack =>
      Sketch.nodes unpack sketches

/--
The nodes of a packed message. A message packed inside another is shorter than
the bytes of that other, which bounds the depth.
-/
def Any.unpack (a : Any) : Except DecodeError (List TextNode) :=
  match a.display? with
  | none => Any.layout.fieldNodes (fun _ => .ok []) a
  | some (.error e) => .error e
  | some (.ok display) =>
    let inner := display fun b =>
      if b.value.length < a.value.length then b.unpack else .ok []
    inner.map fun children => [.block ("[" ++ a.typeUrl ++ "]") children]
termination_by a.value.length

namespace MessageType

/-- The set fields of a message, ready for display. -/
def nodes (t : MessageType) (m : t.Message) : Except DecodeError (List TextNode) :=
  t.layout.nodes Any.unpack m

/-- The text of a message, each field on a line of its own. -/
def text (t : MessageType) (m : t.Message) : Except DecodeError String :=
  (t.nodes m).map TextNode.multiLine

/-- The text of a message on one line. -/
def lineText (t : MessageType) (m : t.Message) : Except DecodeError String :=
  (t.nodes m).map TextNode.oneLine

end MessageType

end CallTrace
