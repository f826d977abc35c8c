import CallTrace.Proofs.Record.Reading
import CallTrace.Record.Hashed

/-!
# Hashing what is taken

Taking bytes off a hashed stream moves them from what is left to what was
hashed, so the two together never change. The label of a stream is the label
of both, whatever was taken before it is asked for.
-/

namespace CallTrace

/-- What the hash comes to once all that is left is taken. -/
def HashedStream.total (r : HashedStream) : Sha256.Hasher := r.hasher.update r.stream.rest

namespace HashedStream

variable {α : Type}

/-- A consumer that leaves the end of the stream does not change the total. -/
theorem total_through (r : HashedStream) (consume : ByteStream → α × ByteStream)
    (h : (consume r.stream).2.rest <:+ r.stream.rest) :
    (r.through consume).2.total = r.total := by
  obtain ⟨taken, ht⟩ := h
  have hlength : taken.length = r.stream.rest.length - (consume r.stream).2.rest.length := by
    have hl := congrArg List.length ht
    rw [List.length_append] at hl
    omega
  have htaken : r.stream.rest.take
      (r.stream.rest.length - (consume r.stream).2.rest.length) = taken := by
    rw [← hlength, ← ht, List.take_left]
  calc (r.through consume).2.total
      = (r.hasher.update (r.stream.rest.take
          (r.stream.rest.length - (consume r.stream).2.rest.length))).update
          (consume r.stream).2.rest := rfl
    _ = r.hasher.update (taken ++ (consume r.stream).2.rest) := by
        rw [htaken, Sha256.Hasher.update_append]
    _ = r.total := by rw [ht, total]

/-- The label of a stream is that of the total. -/
theorem label_eq (r : HashedStream) : r.label.1 = r.total.label := by
  have hall : r.stream.takeAll.2.rest <:+ r.stream.rest := List.nil_suffix
  have ht := r.total_through ByteStream.takeAll hall
  have hd : (r.through ByteStream.takeAll).2.total = (r.through ByteStream.takeAll).2.hasher := rfl
  rw [← ht, hd]
  rfl

end HashedStream

end CallTrace
