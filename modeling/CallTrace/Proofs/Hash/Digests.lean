import CallTrace.Hash.Sha256

/-!
# Digests

The digest of bytes is what comes of folding the blocks of the padded bytes into one chain. A
hasher that takes the bytes one at a time, or in pieces of whatever size, comes to the same digest,
for it compresses a block as soon as the block is full and keeps the rest.
-/

namespace CallTrace.Sha256

/-- The number of bytes in a block. -/
def blockSize : Nat := 64

/-- The full blocks at the front of a run of bytes. -/
def blocks (bytes : List UInt8) : List (List UInt8) :=
  if _h : blockSize ≤ bytes.length then bytes.take blockSize :: blocks (bytes.drop blockSize)
  else []
termination_by bytes.length
decreasing_by
  rw [blockSize] at *
  rw [List.length_drop]
  omega

/-- The digest of a run of bytes, from the blocks of the bytes with their padding. -/
def digestOf (bytes : List UInt8) : List UInt8 :=
  ((blocks (bytes ++ padding bytes.length)).foldl Chain.compress .initial).words.flatMap
    fun w => bigEndian 4 w.toNat

namespace Hasher

theorem count_push (s : Hasher) (b : UInt8) : (s.push b).count = s.count + 1 := by
  rw [push]
  split <;> rfl

/-- A hasher counts the bytes that it took. -/
theorem count_update (s : Hasher) (bytes : List UInt8) :
    (s.update bytes).count = s.count + bytes.length := by
  induction bytes generalizing s with
  | nil => rfl
  | cons b bytes ih =>
    change ((s.push b).update bytes).count = _
    rw [ih, count_push, List.length_cons]
    omega

/-- Bytes that do not fill up a block are kept. -/
theorem update_of_short {s : Hasher} {bytes : List UInt8}
    (h : s.pending.length + bytes.length < blockSize) :
    s.update bytes = ⟨s.chain, bytes.reverse ++ s.pending, s.count + bytes.length⟩ := by
  induction bytes generalizing s with
  | nil => rfl
  | cons b bytes ih =>
    rw [List.length_cons, blockSize] at h
    have hpush : s.push b = ⟨s.chain, b :: s.pending, s.count + 1⟩ := by
      rw [push, if_neg (by omega)]
    change (s.push b).update bytes = _
    rw [hpush, ih (by rw [List.length_cons, blockSize]; omega)]
    simp only [List.reverse_cons, List.append_assoc, List.singleton_append, List.length_cons,
      Nat.add_assoc, Nat.add_comm 1]

/-- A full block is compressed. -/
theorem update_block {s : Hasher} {block : List UInt8} (hs : s.pending = [])
    (h : block.length = blockSize) :
    s.update block = ⟨s.chain.compress block, [], s.count + blockSize⟩ := by
  -- The last byte is the one that fills the block up.
  obtain ⟨front, last, rfl⟩ : ∃ front last, block = front ++ [last] :=
    ⟨block.dropLast, block.getLast (List.ne_nil_of_length_pos (h ▸ by decide)),
      (List.dropLast_concat_getLast _).symm⟩
  rw [List.length_append, List.length_singleton, blockSize] at h
  have hfront : s.update front = ⟨s.chain, front.reverse, s.count + front.length⟩ := by
    rw [update_of_short (by rw [hs, List.length_nil, blockSize]; omega), hs, List.append_nil]
  rw [update_append, hfront]
  change push _ last = _
  rw [push, if_pos (by rw [List.length_reverse]; omega)]
  rw [List.reverse_cons, List.reverse_reverse, Nat.add_assoc, h]
  rfl

/-- Full blocks are folded into the chain one after the other. -/
theorem update_blocks {s : Hasher} {bytes : List UInt8} (hs : s.pending = [])
    (h : bytes.length % blockSize = 0) :
    s.update bytes = ⟨(blocks bytes).foldl Chain.compress s.chain, [], s.count + bytes.length⟩ := by
  fun_induction blocks bytes generalizing s with
  | case1 bytes hlong ih =>
    have hblock : (bytes.take blockSize).length = blockSize := by
      rw [List.length_take, Nat.min_eq_left hlong]
    have hrest : (bytes.drop blockSize).length % blockSize = 0 := by
      rw [List.length_drop, ← Nat.mod_eq_sub_mod hlong, h]
    have hcount : blockSize + (bytes.drop blockSize).length = bytes.length := by
      rw [List.length_drop, Nat.add_sub_of_le hlong]
    calc s.update bytes
        = (s.update (bytes.take blockSize)).update (bytes.drop blockSize) := by
          rw [← update_append, List.take_append_drop]
      _ = _ := by
          rw [update_block hs hblock, ih rfl hrest, List.foldl_cons, Nat.add_assoc, hcount]
  | case2 bytes hshort =>
    have hnil : bytes = [] := by
      rw [Nat.mod_eq_of_lt (by omega)] at h
      exact List.eq_nil_of_length_eq_zero h
    cases s
    cases hs
    rw [hnil]
    rfl

end Hasher

theorem length_bigEndian (size n : Nat) : (bigEndian size n).length = size := by
  induction size with
  | zero => rfl
  | succ size ih => exact congrArg (· + 1) ih

/-- The padding fills up the last block. -/
theorem length_padded (bytes : List UInt8) :
    (bytes ++ padding bytes.length).length % blockSize = 0 := by
  have hlength : (padding bytes.length).length = 1 + (119 - bytes.length % 64) % 64 + 8 := by
    rw [padding, List.length_append, List.length_cons, List.length_replicate, length_bigEndian]
    omega
  rw [List.length_append, hlength, blockSize]
  omega

/-- However the bytes came to a hasher, its digest is that of all of them. -/
theorem digest_update (bytes : List UInt8) :
    (({} : Hasher).update bytes).digest = digestOf bytes := by
  have hcount : (({} : Hasher).update bytes).count = bytes.length := by
    rw [Hasher.count_update]
    exact Nat.zero_add _
  rw [Hasher.digest, hcount, ← Hasher.update_append,
    Hasher.update_blocks rfl (length_padded bytes)]
  rfl

theorem length_digestOf (bytes : List UInt8) : (digestOf bytes).length = 32 := by
  simp [digestOf, Chain.words, length_bigEndian]

/-- The label of bytes is their digest, in digits. -/
theorem label_eq (bytes : List UInt8) : label bytes = "sha256:" ++ hexText (digestOf bytes) := by
  rw [label, Hasher.label, digest_update]

example : hexText (({} : Hasher).update [0x61, 0x62, 0x63]).digest =
    "ba7816bf8f01cfea414140de5dae2223b00361a396177a9cb410ff61f20015ad" := by
  decide +kernel

theorem length_hexText (bytes : List UInt8) : (hexText bytes).length = 2 * bytes.length := by
  induction bytes with
  | nil => rfl
  | cons b bytes ih =>
    simp only [hexText, String.length_ofList, List.flatMap_cons, List.length_append,
      List.length_cons, List.length_nil] at ih ⊢
    omega

/-- Each digit is one of the ten digits or one of the first six small letters. -/
theorem mem_hexText {bytes : List UInt8} {c : Char} (h : c ∈ (hexText bytes).toList) :
    c ∈ "0123456789abcdef".toList := by
  have hdigit : ∀ n < 16, Nat.digitChar n ∈ "0123456789abcdef".toList := by decide
  rw [hexText, String.toList_ofList, List.mem_flatMap] at h
  obtain ⟨b, -, hc⟩ := h
  have hb : b.toNat < 256 := b.toNat_lt
  rcases List.mem_cons.mp hc with rfl | hc
  · exact hdigit _ (by omega)
  · rw [List.mem_singleton.mp hc]
    exact hdigit _ (by omega)

end CallTrace.Sha256
