import CallTrace.Proofs.Hash.Digests
import CallTrace.Proofs.Record.Requests

/-!
# Transparency of hashed streams

Who holds a hashed stream may ask for bytes and for the label in any order and as often as wanted.
The bytes are those that the bare stream would hand out, refusals included, and the label is always
that of the whole content. What carries both is that the bytes hashed so far are just those that
stand before the place of the stream.
-/

namespace CallTrace

/-- A call on a stream that can be labelled. -/
inductive StreamCall where
  /-- Up to so many bytes are asked for; all of them without a count. -/
  | read (count : Option Int)
  /-- The label of the whole is asked for. -/
  | label

/-- What a call comes to. -/
inductive StreamAnswer where
  /-- The bytes that were handed out, or why none were. -/
  | bytes (answer : Except RequestError (List UInt8))
  /-- The label. -/
  | label (text : String)

/-- The bytes that an answer hands out. -/
def StreamAnswer.chunk : StreamAnswer → List UInt8
  | bytes answer => answer.toOption.getD []
  | label _ => []

/-- What calls come to one after the other, each answered by what the call before it left. -/
def answerAll {σ : Type} (answer : σ → StreamCall → StreamAnswer × σ) (s : σ) :
    List StreamCall → List StreamAnswer × σ
  | [] => ([], s)
  | call :: calls =>
    let (first, s) := answer s call
    let (others, s) := answerAll answer s calls
    (first :: others, s)

namespace ByteStream

variable [Memory]

/--
What a call on a bare stream comes to. The stream knows of no label: the one that is given to it is
the answer, and leaves it at its end.
-/
def answer (text : String) (s : ByteStream) : StreamCall → StreamAnswer × ByteStream
  | .read count => (.bytes (s.read count).1, (s.read count).2)
  | .label => (.label text, s.takeAll.2)

/-- The chunks that are handed out stand one behind the other at the front of the stream. -/
theorem chunks_answerAll_prefix (text : String) (s : ByteStream) (calls : List StreamCall) :
    (answerAll (answer text) s calls).1.flatMap StreamAnswer.chunk <+: s.rest := by
  induction calls generalizing s with
  | nil => exact List.nil_prefix
  | cons call calls ih =>
    cases call with
    | read count =>
      rw [← s.append_read count]
      exact (List.prefix_append_right_inj _).mpr (ih (s.read count).2)
    | label =>
      -- Behind a label there is nothing left to be handed out.
      exact (ih s.takeAll.2).trans List.nil_prefix

end ByteStream

namespace HashedStream

variable {r : HashedStream} {content : List UInt8}

variable [Memory]

/-- What a call on a hashed stream comes to. -/
def answer (r : HashedStream) : StreamCall → StreamAnswer × HashedStream
  | .read count => (.bytes (r.read count).1, (r.read count).2)
  | .label => (.label r.label.1, r.label.2)

/-- The stream is at some place in the content, and what was hashed stands before that place. -/
def Covers (r : HashedStream) (content : List UInt8) : Prop :=
  ∃ taken, taken ++ r.stream.rest = content ∧ r.hasher = ({} : Sha256.Hasher).update taken

omit [Memory] in
theorem Covers.total (h : r.Covers content) : r.total = ({} : Sha256.Hasher).update content := by
  obtain ⟨taken, hplace, hhashed⟩ := h
  rw [HashedStream.total, hhashed, ← Sha256.Hasher.update_append, hplace]

/-- Draining a stream in chunks hashes all of the content and leaves the end of the stream. -/
theorem Covers.drain (h : r.Covers content) :
    r.drain chunkSize =
      ⟨{ r.stream with rest := [] }, ({} : Sha256.Hasher).update content⟩ := by
  rw [drain_eq (by decide) r (chunkSize_lt_bound _), h.total]

theorem Covers.label (h : r.Covers content) :
    r.label = (Sha256.label content, r.drain chunkSize) := by
  rw [label_eq_drain (by decide) r (chunkSize_lt_bound _), h.drain, Sha256.label]

/-- A call has the answer of the bare stream, and what was hashed keeps up with the stream. -/
theorem Covers.answer (h : r.Covers content) (call : StreamCall) :
    let bare := r.stream.answer (Sha256.label content) call
    (r.answer call).1 = bare.1 ∧ (r.answer call).2.stream = bare.2 ∧
      (r.answer call).2.Covers content := by
  cases call with
  | read count =>
    obtain ⟨taken, hplace, hhashed⟩ := h
    refine ⟨rfl, rfl, taken ++ (r.stream.read count).1.toOption.getD [], ?_, ?_⟩
    · change _ ++ (r.stream.read count).2.rest = content
      rw [List.append_assoc, r.stream.append_read, hplace]
    · change (r.read count).2.hasher = _
      rw [read_eq, hhashed, Sha256.Hasher.update_append]
  | label =>
    rw [HashedStream.answer, h.label, h.drain]
    exact ⟨rfl, rfl, content, List.append_nil _, rfl⟩

/-- Calls have the answers of the bare stream, however many there are and in whatever order. -/
theorem Covers.answerAll (h : r.Covers content) (calls : List StreamCall) :
    let run := CallTrace.answerAll HashedStream.answer r calls
    let bare := CallTrace.answerAll (ByteStream.answer (Sha256.label content)) r.stream calls
    run.1 = bare.1 ∧ run.2.stream = bare.2 ∧ run.2.Covers content := by
  induction calls generalizing r with
  | nil => exact ⟨rfl, rfl, h⟩
  | cons call calls ih =>
    obtain ⟨hfirst, hstream, hcovers⟩ := h.answer call
    obtain ⟨hothers, hbehind, hall⟩ := ih hcovers
    rw [hstream] at hothers hbehind
    exact ⟨congr (congrArg List.cons hfirst) hothers, hbehind, hall⟩

end HashedStream

/--
Over any content, whatever bytes are asked for and wherever the label is asked for in between, a
hashed stream answers like the bare stream that is given the digest of the whole content for a
label, and stands where that one stands. The chunks joined are the front of the content, and what
was hashed is what stands before the place of the stream. A label that is asked for there is made by
asking for chunks, each of which is granted, until one is empty; it is the digest of the whole
content, and leaves the stream at its end.
-/
theorem answerAll_of_content [Memory] (content : List UInt8) (medium : Medium)
    (calls : List StreamCall) :
    let text := "sha256:" ++ Sha256.hexText (Sha256.digestOf content)
    let run := answerAll HashedStream.answer ⟨⟨content, medium⟩, {}⟩ calls
    let bare := answerAll (ByteStream.answer text) ⟨content, medium⟩ calls
    run.1 = bare.1 ∧ run.2.stream = bare.2 ∧
      run.1.flatMap StreamAnswer.chunk <+: content ∧
      (∃ taken, taken ++ run.2.stream.rest = content ∧
        run.2.hasher = ({} : Sha256.Hasher).update taken) ∧
      (run.2.read (some chunkSize)).1 = .ok (run.2.stream.rest.take chunkSize) ∧
      run.2.label = ((run.2.drain chunkSize).hasher.label, run.2.drain chunkSize) ∧
      run.2.label.1 = text ∧ run.2.label.2.stream.rest = [] := by
  intro text run bare
  have htext : Sha256.label content = text := Sha256.label_eq content
  have hstart : HashedStream.Covers ⟨⟨content, medium⟩, {}⟩ content := ⟨[], rfl, rfl⟩
  obtain ⟨hanswers, hstream, hcovers⟩ := hstart.answerAll calls
  rw [htext] at hanswers hstream
  have hchunks : run.1.flatMap StreamAnswer.chunk <+: content := by
    rw [show run.1 = bare.1 from hanswers]
    exact ByteStream.chunks_answerAll_prefix text _ calls
  have hgranted := HashedStream.read_of_granted (r := run.2) (chunkSize_lt_bound _)
  have hlabel : run.2.label = (Sha256.label content, run.2.drain chunkSize) := hcovers.label
  refine ⟨hanswers, hstream, hchunks, hcovers, congrArg Prod.fst hgranted,
    HashedStream.label_eq_drain (by decide) run.2 (chunkSize_lt_bound _), ?_, ?_⟩
  · rw [hlabel]
    exact htext
  · rw [hlabel]
    exact congrArg (fun r : HashedStream => r.stream.rest) hcovers.drain

attribute [local instance] Memory.addressable in
-- A file refuses a count below -1 and stays where it is, and a label leaves nothing behind it.
example : (answerAll HashedStream.answer ⟨⟨[0x61, 0x62, 0x63, 0x64], .file⟩, {}⟩
      [.read (some 1), .read (some (-2)), .read (some 2), .label, .read none]).1.map
        StreamAnswer.chunk = [[0x61], [], [0x62, 0x63], [], []] := by
  decide

end CallTrace
