import CallTrace.Wire.Varint

/-!
# Fields on the wire

An encoded message is a sequence of fields. A field opens with a tag, which
holds a field number and the kind of payload that follows. `read?` takes one
field off the front of the input, whatever its number means to the message it
stands in, and keeps the bytes it was read from. A payload that the input
cuts short, a tag that is none, a group that does not close and groups that
stand too deep in each other leave no field to read.
-/

namespace CallTrace.Wire

/-- The six kinds of payload that a tag can announce. -/
inductive Kind where
  /-- A base-128 number. -/
  | varint
  /-- Eight bytes. -/
  | fixed64
  /-- A length, then that many bytes. -/
  | delimited
  /-- Fields up to the tag that closes the group. -/
  | groupStart
  /-- Nothing: the tag closes a group. -/
  | groupEnd
  /-- Four bytes. -/
  | fixed32
  deriving DecidableEq

/-- The three low bits of a tag. -/
def Kind.code : Kind → Nat
  | .varint => 0
  | .fixed64 => 1
  | .delimited => 2
  | .groupStart => 3
  | .groupEnd => 4
  | .fixed32 => 5

/-- Two of the eight codes stand for no kind. -/
def Kind.ofCode? : Nat → Option Kind
  | 0 => some .varint
  | 1 => some .fixed64
  | 2 => some .delimited
  | 3 => some .groupStart
  | 4 => some .groupEnd
  | 5 => some .fixed32
  | _ => none

theorem Kind.ofCode?_code (k : Kind) : Kind.ofCode? k.code = some k := by
  cases k <;> rfl

/-- The opening of a field. -/
structure Tag where
  /-- Which field of the message this is; zero is the number of none. -/
  number : Nat
  /-- The payload behind the tag. -/
  kind : Kind
  deriving DecidableEq

/-- The shortest form of a tag. -/
def Tag.encode (number : Nat) (kind : Kind) : List UInt8 :=
  Varint.encode (8 * number + kind.code)

/-- A tag takes at most five bytes and is a word of 32 bits. -/
def Tag.read? (bytes : List UInt8) : Option (Tag × List UInt8) := do
  let (word, rest) ← Varint.read? 5 bytes
  let kind ← Kind.ofCode? (word % 8)
  if word < UInt32.size then some (⟨word / 8, kind⟩, rest) else none

/-- Exactly `n` bytes off the front of the input. -/
def take? (n : Nat) (bytes : List UInt8) : Option (List UInt8 × List UInt8) :=
  if n ≤ bytes.length then some (bytes.take n, bytes.drop n) else none

/-- The number of bytes that a length may take, as long as it fits them. -/
def lengthBytes : Nat := 5

/--
A length takes five bytes at most, unless it is a number that five bytes cannot hold. How long a
message may get is a matter of memory and not of its form, so there is no greatest length.
-/
def readLength? (bytes : List UInt8) : Option (Nat × List UInt8) :=
  (Varint.read? bytes.length bytes).filter fun (length, rest) =>
    bytes.length - rest.length ≤ lengthBytes || 1 <<< (7 * lengthBytes) ≤ length

/-- A run of bytes behind its length. -/
def takeDelimited? (bytes : List UInt8) : Option (List UInt8 × List UInt8) := do
  let (length, rest) ← readLength? bytes
  take? length rest

/-- What a field carries, as far as a message can make use of it. -/
inductive Payload where
  /-- A number, of which the low 64 bits count. -/
  | varint (word : UInt64)
  /-- A run of bytes. -/
  | delimited (bytes : List UInt8)
  /-- A group or a run of fixed width. -/
  | other
  deriving DecidableEq

/-- One field, apart from what it means. -/
structure Field where
  /-- The number in its tag. -/
  number : Nat
  /-- The payload behind the tag. -/
  payload : Payload
  /-- The bytes that the whole field took. -/
  verbatim : List UInt8
  deriving DecidableEq

theorem Tag.length_lt_of_read? {bytes rest : List UInt8} {tag : Tag}
    (h : Tag.read? bytes = some (tag, rest)) : rest.length < bytes.length := by
  simp only [Tag.read?, Option.bind_eq_bind, Option.bind_eq_some_iff] at h
  obtain ⟨⟨word, r⟩, hr, kind, -, h⟩ := h
  split at h
  · cases h
    exact Varint.length_lt_of_read? hr
  · cases h

theorem length_le_of_take? {n : Nat} {bytes taken rest : List UInt8}
    (h : take? n bytes = some (taken, rest)) : rest.length ≤ bytes.length := by
  unfold take? at h
  split at h
  · cases h
    simp
  · cases h

theorem length_lt_of_readLength? {n : Nat} {bytes rest : List UInt8}
    (h : readLength? bytes = some (n, rest)) : rest.length < bytes.length :=
  Varint.length_lt_of_read? (Option.eq_some_of_filter_eq_some h)

theorem length_le_of_takeDelimited? {bytes taken rest : List UInt8}
    (h : takeDelimited? bytes = some (taken, rest)) : rest.length ≤ bytes.length := by
  simp only [takeDelimited?, Option.bind_eq_bind, Option.bind_eq_some_iff] at h
  obtain ⟨⟨length, r⟩, hr, h⟩ := h
  exact Nat.le_trans (length_le_of_take? h) (Nat.le_of_lt (length_lt_of_readLength? hr))

/-- The payload behind a tag that opens no group. -/
def payload? : Kind → List UInt8 → Option (Payload × List UInt8)
  | .varint, bytes => (Varint.read? 10 bytes).map fun (n, rest) => (.varint (UInt64.ofNat n), rest)
  | .delimited, bytes => (takeDelimited? bytes).map fun (run, rest) => (.delimited run, rest)
  | .fixed64, bytes => (take? 8 bytes).map fun (_, rest) => (.other, rest)
  | .fixed32, bytes => (take? 4 bytes).map fun (_, rest) => (.other, rest)
  | .groupStart, _ => none
  | .groupEnd, _ => none

theorem length_le_of_payload? {kind : Kind} {bytes rest : List UInt8} {payload : Payload}
    (h : payload? kind bytes = some (payload, rest)) : rest.length ≤ bytes.length := by
  cases kind <;> simp only [payload?, Option.map_eq_some_iff, reduceCtorEq] at h
  · obtain ⟨⟨n, r⟩, hr, h⟩ := h
    cases h
    exact Nat.le_of_lt (Varint.length_lt_of_read? hr)
  · obtain ⟨⟨run, r⟩, hr, h⟩ := h
    cases h
    exact length_le_of_take? hr
  · obtain ⟨⟨run, r⟩, hr, h⟩ := h
    cases h
    exact length_le_of_takeDelimited? hr
  · obtain ⟨⟨run, r⟩, hr, h⟩ := h
    cases h
    exact length_le_of_take? hr

/-- How many messages and groups may stand in each other below the outermost message. -/
def nestingLimit : Nat := 100

/--
The input behind the tags that close the given groups, the innermost first.
Every group closes with the number that opened it, and there is room for so
many of them at once.
-/
def skipGroups? (room : Nat) (groups : List Nat) (bytes : List UInt8) : Option (List UInt8) :=
  match groups with
  | [] => some bytes
  | innermost :: outer =>
    match _ht : Tag.read? bytes with
    | none => none
    | some (tag, rest) =>
      match tag.kind with
      | .groupEnd => if tag.number = innermost then skipGroups? room outer rest else none
      | .groupStart =>
        if (innermost :: outer).length < room then
          skipGroups? room (tag.number :: innermost :: outer) rest
        else none
      | kind =>
        match _hp : payload? kind rest with
        | none => none
        | some (_, rest') => skipGroups? room (innermost :: outer) rest'
termination_by bytes.length
decreasing_by
  · exact Tag.length_lt_of_read? _ht
  · exact Tag.length_lt_of_read? _ht
  · exact Nat.lt_of_le_of_lt (length_le_of_payload? _hp) (Tag.length_lt_of_read? _ht)

/-- The payload behind a tag, where a tag that closes a group has none. -/
def Tag.payload? (tag : Tag) (room : Nat) (bytes : List UInt8) :
    Option (Payload × List UInt8) :=
  match tag.kind with
  | .groupStart =>
    if room = 0 then none
    else (skipGroups? room [tag.number] bytes).map fun rest => (.other, rest)
  | kind => Wire.payload? kind bytes

/-- One field off the front of the input, with room for so many groups in each other. -/
def Field.read? (room : Nat) (bytes : List UInt8) : Option (Field × List UInt8) := do
  let (tag, body) ← Tag.read? bytes
  let (payload, rest) ← tag.payload? room body
  some (⟨tag.number, payload, bytes.take (bytes.length - rest.length)⟩, rest)

theorem length_le_of_skipGroups? {room : Nat} {groups : List Nat} {bytes rest : List UInt8}
    (h : skipGroups? room groups bytes = some rest) : rest.length ≤ bytes.length := by
  fun_induction skipGroups? room groups bytes with
  | case1 => cases h; exact Nat.le_refl _
  | case2 => cases h
  | case3 _ _ _ _ ht _ ih => exact Nat.le_trans (ih h) (Nat.le_of_lt (Tag.length_lt_of_read? ht))
  | case4 => cases h
  | case5 _ _ _ _ _ ht _ _ ih =>
    exact Nat.le_trans (ih h) (Nat.le_of_lt (Tag.length_lt_of_read? ht))
  | case6 => cases h
  | case7 => cases h
  | case8 _ _ _ _ _ ht _ _ _ _ hp ih =>
    exact Nat.le_trans (ih h)
      (Nat.le_trans (length_le_of_payload? hp) (Nat.le_of_lt (Tag.length_lt_of_read? ht)))

theorem Tag.length_le_of_payload? {tag : Tag} {room : Nat} {bytes rest : List UInt8}
    {payload : Payload} (h : tag.payload? room bytes = some (payload, rest)) :
    rest.length ≤ bytes.length := by
  unfold Tag.payload? at h
  split at h
  · split at h
    · cases h
    · obtain ⟨r, hr, h⟩ := Option.map_eq_some_iff.1 h
      cases h
      exact length_le_of_skipGroups? hr
  · exact Wire.length_le_of_payload? h

/-- A field takes at least its tag. -/
theorem Field.length_lt_of_read? {room : Nat} {bytes rest : List UInt8} {field : Field}
    (h : Field.read? room bytes = some (field, rest)) : rest.length < bytes.length := by
  simp only [Field.read?, Option.bind_eq_bind, Option.bind_eq_some_iff] at h
  obtain ⟨⟨tag, body⟩, ht, ⟨payload, r⟩, hp, h⟩ := h
  cases h
  exact Nat.lt_of_le_of_lt (Tag.length_le_of_payload? hp) (Tag.length_lt_of_read? ht)

end CallTrace.Wire
