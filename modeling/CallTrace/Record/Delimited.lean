import CallTrace.Message.Catalogue
import CallTrace.Record.Stream

/-!
# Delimited records

A record is an encoded message behind its length in base 128. Reading a
stream of records ends well where the stream ends between two records. A
fault leaves the stream where it stood when the fault was found, and reading
may go on from there: a payload that is no message has been taken off the
stream whole, so the records behind it are still found.
-/

namespace CallTrace

/-- The bytes of a record. -/
def MessageType.record (t : MessageType) (m : t.Message) : List UInt8 := delimit (t.encode m)

/-- Why bytes are no record. -/
inductive RecordError where
  /-- The stream ends inside a length. -/
  | truncatedLength
  /-- A length goes on for too long. -/
  | overlongLength
  /-- The stream ends inside a payload. -/
  | short (index declared remaining : Nat)
  /-- The payload is no message of the expected type. -/
  | invalid (index : Nat) (cause : DecodeError)
  deriving DecidableEq

/-- The number of bytes that a length may take. -/
def lengthLimit : Nat := 10

/-- The text of a record error. -/
def RecordError.message : RecordError → String
  | .truncatedLength => "Truncated record length prefix"
  | .overlongLength => "Record length prefix longer than " ++ lengthLimit.repr ++ " bytes"
  | .short index declared remaining =>
    "Record " ++ index.repr ++ " declares " ++ declared.repr ++ " bytes but only " ++
      remaining.repr ++ " remain"
  | .invalid index cause =>
    "Record " ++ index.repr ++ " is not a valid " ++ cause.typeName ++ ": " ++ cause.message

/-- Why no record was read. -/
inductive ReadError where
  /-- The bytes are no record. -/
  | record (e : RecordError)
  /-- The stream refused to hand out as many bytes as were declared. -/
  | request (e : RequestError)
  deriving DecidableEq

/-- The length of the next record; there is none at the end of the stream. -/
def ByteStream.readLength (s : ByteStream) : Except RecordError (Option Nat) × ByteStream :=
  if s.rest.isEmpty then (.ok none, s)
  else
    match Varint.scan lengthLimit s.rest with
    | .value n rest => (.ok (some n), { s with rest := rest })
    | .truncated => (.error .truncatedLength, { s with rest := [] })
    | .overlong rest => (.error .overlongLength, { s with rest := rest })

/-- A stream of records and the number of records read off it so far. -/
structure RecordStream where
  /-- The bytes not yet read. -/
  stream : ByteStream
  /-- How many records were read without a fault. -/
  taken : Nat := 0
  deriving DecidableEq

namespace RecordStream

variable [Memory]

/-- The next message; there is none at the end of the stream. -/
def read (r : RecordStream) (t : MessageType) :
    Except ReadError (Option t.Message) × RecordStream :=
  match r.stream.readLength with
  | (.error e, s) => (.error (.record e), { r with stream := s })
  | (.ok none, s) => (.ok none, { r with stream := s })
  | (.ok (some length), s) =>
    match s.take length with
    | (.error e, s) => (.error (.request e), { r with stream := s })
    | (.ok payload, s) =>
      if payload.length = length then
        match t.decode payload with
        | .error e => (.error (.record (.invalid r.taken e)), { r with stream := s })
        | .ok m => (.ok (some m), ⟨s, r.taken + 1⟩)
      else
        (.error (.record (.short r.taken length payload.length)), { r with stream := s })

end RecordStream

theorem ByteStream.length_lt_of_readLength {s s' : ByteStream} {n : Nat}
    (h : s.readLength = (.ok (some n), s')) : s'.rest.length < s.rest.length := by
  unfold readLength at h
  split at h
  · cases h
  · split at h
    · next m rest hs =>
      cases h
      exact Varint.length_lt_of_scan hs
    · cases h
    · cases h

theorem ByteStream.length_le_of_take [Memory] {s s' : ByteStream} {n : Nat}
    {payload : Except RequestError (List UInt8)} (h : s.take n = (payload, s')) :
    s'.rest.length ≤ s.rest.length := by
  have hs := (s.rest_take_suffix n).length_le
  rwa [h] at hs

namespace RecordStream

variable [Memory]

/-- A message that was read took at least one byte. -/
theorem length_lt_of_read {r r' : RecordStream} {t : MessageType} {m : t.Message}
    (h : r.read t = (.ok (some m), r')) : r'.stream.rest.length < r.stream.rest.length := by
  unfold read at h
  split at h
  · cases h
  · cases h
  · next length s hl =>
    split at h
    · cases h
    · next payload s' ht =>
      split at h
      · split at h
        · cases h
        · cases h
          exact Nat.lt_of_le_of_lt (ByteStream.length_le_of_take ht)
            (ByteStream.length_lt_of_readLength hl)
      · cases h

/-- All messages up to the end of the stream or the first fault, and the fault. -/
def readAll (r : RecordStream) (t : MessageType) : List t.Message × Option ReadError :=
  match _h : r.read t with
  | (.error e, _) => ([], some e)
  | (.ok none, _) => ([], none)
  | (.ok (some m), r') =>
    let (ms, e) := r'.readAll t
    (m :: ms, e)
termination_by r.stream.rest.length
decreasing_by exact length_lt_of_read _h

end RecordStream

end CallTrace
