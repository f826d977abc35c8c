import CallTrace.Wire.Varint

/-!
# Byte streams

A stream hands out its bytes from front to back. A request for more bytes
than are left is answered with what is left; a request for a count that no
block of memory can have is refused and moves nothing. How large a block of
memory can be depends on the machine.
-/

namespace CallTrace

/-- Where the bytes of a stream come from. -/
inductive Medium where
  /-- Bytes at hand. -/
  | memory
  /-- A file, for which a block of the requested size is set aside first. -/
  | file
  deriving DecidableEq

/-- Why a request for bytes is refused. -/
inductive RequestError where
  /-- The count is no index of the machine. -/
  | beyondIndex
  /-- No block can be that large. -/
  | beyondBlock
  /-- The machine cannot set a block of that size aside. -/
  | beyondMemory
  /-- The count is below the one negative count that stands for all bytes of a file. -/
  | negative
  deriving DecidableEq

/-- The text of a refusal. -/
def RequestError.message : RequestError → String
  | .beyondIndex => "cannot fit 'int' into an index-sized integer"
  | .beyondBlock => "byte string is too large"
  | .beyondMemory => ""
  | .negative => "read length must be non-negative or -1"

/-- The first count beyond the machine's indices. -/
def indexBound : Nat := UInt64.size / 2

/-- Bytes that a block needs beside its content. -/
def blockOverhead : Nat := 33

/-- The size of the chunks in which what is left of a file is taken. -/
def chunkSize : Nat := 1 <<< 20

/-- How much memory a machine can set aside at once. -/
class Memory where
  /-- The first size for which there is no block. -/
  limit : Nat
  /-- There is a block for a chunk. -/
  chunkSize_lt : chunkSize < limit

/-- A machine that can set aside whatever its addresses reach. -/
abbrev Memory.addressable : Memory := ⟨1 <<< 47, by decide⟩

/-- Why a medium refuses a count, if it does. -/
def Medium.refusal? [Memory] (medium : Medium) (count : Nat) : Option RequestError :=
  if indexBound ≤ count then some .beyondIndex
  else if medium = .file ∧ indexBound ≤ count + blockOverhead then some .beyondBlock
  else if medium = .file ∧ Memory.limit ≤ count then some .beyondMemory
  else none

/-- The bytes not yet handed out. -/
structure ByteStream where
  /-- What is left, front first. -/
  rest : List UInt8
  /-- Where the bytes come from. -/
  medium : Medium := .memory
  deriving DecidableEq

namespace ByteStream

variable [Memory]

/-- Up to `count` bytes. -/
def take (s : ByteStream) (count : Nat) : Except RequestError (List UInt8) × ByteStream :=
  match s.medium.refusal? count with
  | some e => (.error e, s)
  | none => (.ok (s.rest.take count), { s with rest := s.rest.drop count })

/-- All the bytes that are left. -/
def takeAll (s : ByteStream) : List UInt8 × ByteStream := (s.rest, { s with rest := [] })

/--
Up to the given number of bytes; all of them if there is no number or a negative one, which for a
file must be the first one below zero.
-/
def read (s : ByteStream) : Option Int → Except RequestError (List UInt8) × ByteStream
  | none => (.ok s.takeAll.1, s.takeAll.2)
  | some (.ofNat count) => s.take count
  | some (.negSucc n) =>
    if indexBound ≤ n then (.error .beyondIndex, s)
    else if s.medium = .file ∧ 0 < n then (.error .negative, s)
    else (.ok s.takeAll.1, s.takeAll.2)

/-- An answer is the front of a stream, and the stream goes on behind it. -/
theorem append_read (s : ByteStream) (count : Option Int) :
    ((s.read count).1.toOption.getD []) ++ (s.read count).2.rest = s.rest := by
  have hall : s.takeAll.1 ++ s.takeAll.2.rest = s.rest := List.append_nil _
  rcases count with _ | count | n
  · exact hall
  · change ((s.take count).1.toOption.getD []) ++ (s.take count).2.rest = s.rest
    unfold take
    cases s.medium.refusal? count with
    | none => exact List.take_append_drop count s.rest
    | some e => rfl
  · unfold read
    dsimp only
    split
    · rfl
    · split
      · rfl
      · exact hall

theorem rest_take_suffix (s : ByteStream) (count : Nat) : (s.take count).2.rest <:+ s.rest := by
  unfold take
  split
  · exact List.suffix_refl _
  · exact List.drop_suffix _ _

end ByteStream

end CallTrace
