import CallTrace.Proofs.Json.Alike

/-!
# Values as files

A value is written as the bytes of its canonical text with a line feed behind them. The text has
no control character in it and the bytes of other characters are no control characters, so the line
feed behind the text is the only one. A value with half of a surrogate pair in it is not written.
-/

namespace CallTrace

/-- The bytes of a character that is no control character are no control characters either. -/
theorem Utf8.le_of_mem_utf8EncodeChar {c : Char} (h : 32 ≤ c.toNat) :
    ∀ b ∈ String.utf8EncodeChar c, 32 ≤ b.toNat := by
  have hval : 32 ≤ c.val.toNat := h
  have hbyte : ∀ n : Nat, 32 ≤ n % 256 → 32 ≤ (UInt8.ofNat n).toNat := by
    intro n hn
    rwa [UInt8.toNat_ofNat']
  -- the length of the form depends on the code point
  simp only [String.utf8EncodeChar]
  split
  · simp only [List.forall_mem_cons]
    exact ⟨hbyte _ (by omega), List.forall_mem_nil _⟩
  · split
    · simp only [List.forall_mem_cons]
      exact ⟨hbyte _ (by omega), hbyte _ (by omega), List.forall_mem_nil _⟩
    · split
      · simp only [List.forall_mem_cons]
        exact ⟨hbyte _ (by omega), hbyte _ (by omega), hbyte _ (by omega), List.forall_mem_nil _⟩
      · simp only [List.forall_mem_cons]
        exact ⟨hbyte _ (by omega), hbyte _ (by omega), hbyte _ (by omega), hbyte _ (by omega),
          List.forall_mem_nil _⟩

/-- A half stands for a byte beyond the codes of ASCII, if it stands for one. -/
theorem le_of_mem_byteOf? (a : Fin 0x800) : ∀ b ∈ (byteOf? a).toList, 128 ≤ b.toNat := by
  intro b hb
  rw [Option.mem_toList, byteOf?] at hb
  split at hb
  · next hin =>
    obtain rfl := Option.some.inj hb
    rw [UInt8.toNat_ofNat']
    omega
  · cases hb

namespace Json

/-- The bytes of the text of a value end with a line feed. -/
theorem bytes_fileText (v : Json) :
    Letters.bytes v.fileText = Letters.bytes v.canonical ++ [10] := by
  have hfeed : Letters.bytes [.char '\n'] = [10] := by decide
  rw [fileText, Letters.bytes_append, hfeed]

/-- A value whose texts are Unicode can be written. -/
theorem IsUnicode.encode_fileText {v : Json} (h : v.IsUnicode) :
    v.fileText.encode = .ok (Letters.bytes v.fileText) := by
  refine Letters.encode_eq_ok_iff.mpr ⟨fun l hl => ?_, rfl⟩
  rcases List.mem_append.mp hl with hl | hl
  · exact h.canonical l hl
  · cases List.mem_singleton.mp hl
    rfl

theorem not_mem_bytes_canonical (v : Json) : 10 ∉ Letters.bytes v.canonical := by
  intro hmem
  obtain ⟨l, hl, hfeed⟩ := List.mem_flatMap.mp hmem
  cases l with
  | char c =>
    have hle := Utf8.le_of_mem_utf8EncodeChar (v.le_toNat_of_mem_canonical _ hl) 10 hfeed
    exact absurd hle (by decide)
  | half a =>
    -- The bytes that halves stand for are those beyond the codes of ASCII.
    have hhigh := le_of_mem_byteOf? a 10 hfeed
    exact absurd hhigh (by decide)

/-- A value in which no object has a key twice has the same text as the values that differ from it
in the order of members alone, and as no others. No text has a control character in it, so a file
that a value is written to has one line feed, which is its last byte; and a value can be written
if its texts are Unicode. -/
theorem canonical_form :
    (∀ v w : Json, v.DistinctKeys → (v.canonical = w.canonical ↔ v.Alike w)) ∧
      ∀ v : Json, (∀ l ∈ v.canonical, 32 ≤ l.toNat) ∧
        (v.IsUnicode → ∃ written, v.fileText.encode = .ok written) ∧
        ∀ written, v.fileText.encode = .ok written →
          written.count 10 = 1 ∧ written.getLast? = some 10 := by
  refine ⟨fun v w hkeys => ⟨alike_of_canonical_eq, fun h => h.canonical_eq hkeys⟩, fun v =>
    ⟨v.le_toNat_of_mem_canonical, fun hu => ⟨_, hu.encode_fileText⟩, fun written h => ?_⟩⟩
  obtain ⟨-, rfl⟩ := Letters.encode_eq_ok_iff.mp h
  rw [bytes_fileText]
  constructor
  · rw [List.count_append, List.count_eq_zero.mpr v.not_mem_bytes_canonical]
    rfl
  · rw [List.getLast?_append]
    rfl

/-- An object with an object deep within it, and a text that breaks its line. -/
def nested : Json :=
  .object [("b", .array [.object [("x", .int 1), ("y", .null)]]), ("a", .string "\n")]

/-- The same value with the members of both objects in another order. -/
def reordered : Json :=
  .object [("a", .string "\n"), ("b", .array [.object [("y", .null), ("x", .int 1)]])]

theorem distinctKeys_nested : nested.DistinctKeys := by
  refine .object (by decide) ?_
  simp only [List.forall_mem_cons]
  refine ⟨.array ?_, .string _, List.forall_mem_nil _⟩
  simp only [List.forall_mem_cons]
  refine ⟨.object (by decide) ?_, List.forall_mem_nil _⟩
  simp only [List.forall_mem_cons]
  exact ⟨.int _, .null, List.forall_mem_nil _⟩

theorem isUnicode_nested : nested.IsUnicode := by
  have htext : ∀ l ∈ Letters.ofString "\n", l.isHalf = false := by decide
  refine .object ?_
  simp only [List.forall_mem_cons]
  refine ⟨.array ?_, .string htext, List.forall_mem_nil _⟩
  simp only [List.forall_mem_cons]
  refine ⟨.object ?_, List.forall_mem_nil _⟩
  simp only [List.forall_mem_cons]
  exact ⟨.int _, .null, List.forall_mem_nil _⟩

theorem alike_reordered : nested.Alike reordered := by
  have hinner : (Json.object [("x", .int 1), ("y", .null)]).Alike
      (.object [("y", .null), ("x", .int 1)]) :=
    .object (List.Perm.swap _ _ _) rfl (.cons .null (.cons (.int 1) .nil))
  exact .object (List.Perm.swap _ _ _) rfl
    (.cons (.string _) (.cons (.array (.cons hinner .nil)) .nil))

/-- The order of members makes no difference, the order of elements does. -/
theorem canonical_form_nested :
    nested.canonical = reordered.canonical ∧
      (∃ written, nested.fileText.encode = .ok written ∧ written.count 10 = 1) ∧
      ¬ (Json.array [.int 1, .int 2]).Alike (.array [.int 2, .int 1]) := by
  have hform := canonical_form
  have hkeys : (Json.array [.int 1, .int 2]).DistinctKeys := by
    refine .array ?_
    simp only [List.forall_mem_cons]
    exact ⟨.int 1, .int 2, List.forall_mem_nil _⟩
  obtain ⟨-, hwrites, hwritten⟩ := hform.2 nested
  obtain ⟨written, hw⟩ := hwrites isUnicode_nested
  refine ⟨(hform.1 _ _ distinctKeys_nested).mpr alike_reordered,
    ⟨written, hw, (hwritten written hw).1⟩, ?_⟩
  rw [← hform.1 _ _ hkeys]
  decide

end Json

end CallTrace
