import CallTrace.Hash.Sha256
import CallTrace.Record.Stream

/-!
# Hashed streams

A hashed stream lets a consumer take bytes off a stream and hashes just the
bytes that the consumer took. When the consumer is done, draining the stream
hashes what it left, so the label is that of the whole stream whatever part
of it was made use of.
-/

namespace CallTrace

/-- A stream, and what was taken off it so far. -/
structure HashedStream where
  /-- The bytes not yet taken. -/
  stream : ByteStream
  /-- The bytes taken. -/
  hasher : Sha256.Hasher := {}

namespace HashedStream

/-- Let a consumer take bytes off the stream, and hash them. -/
def through {α : Type} (r : HashedStream) (consume : ByteStream → α × ByteStream) :
    α × HashedStream :=
  let (a, s) := consume r.stream
  (a, ⟨s, r.hasher.update (r.stream.rest.take (r.stream.rest.length - s.rest.length))⟩)

/-- Take up to the given number of bytes; all of them if there is no number or a negative one. -/
def read [Memory] (r : HashedStream) (count : Option Int) :
    Except RequestError (List UInt8) × HashedStream :=
  r.through fun s => s.read count

/-- Take all that is left and give the label of the whole stream. -/
def label (r : HashedStream) : String × HashedStream :=
  let (_, r) := r.through ByteStream.takeAll
  (r.hasher.label, r)

end HashedStream

end CallTrace
