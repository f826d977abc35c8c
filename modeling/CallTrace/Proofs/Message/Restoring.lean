import CallTrace.Proofs.Message.Rereading

/-!
# Restoring the fields of a message

What a field writes of a message is decoded onto a message in which the place of
the field is blank, and gives the place the value that was written. A field that
writes nothing leaves the place blank, which is the value that it did not write.
The fields of a layout restore a message one after the other, each behind those
with smaller numbers.
-/

namespace CallTrace

/-- Values are had back from their words. -/
def Word.Lawful {β : Type} (w : Word β) : Prop := ∀ v, w.ofWord (w.toWord v) = v

theorem Word.lawful_int64 : Word.int64.Lawful := by
  intro v
  simp [Word.int64]

theorem Word.lawful_int32 : Word.int32.Lawful := by
  intro v
  have h : (v.toBitVec.signExtend 64).setWidth 32 = v.toBitVec := by
    ext i hi
    simp only [BitVec.getElem_setWidth, BitVec.getLsbD_signExtend, hi, if_true,
      BitVec.getLsbD_eq_getElem, Bool.and_eq_right_iff_imp, decide_eq_true_eq]
    omega
  exact Int32.toBitVec_inj.mp h

theorem Word.lawful_flag : Word.flag.Lawful := by
  intro v
  cases v <;> rfl

/-- The first number in a run of numbers. -/
theorem readWords?_of_read {bytes rest : List UInt8} {n : Nat}
    (h : Varint.read? 10 bytes = some (n, rest)) :
    readWords? bytes = (readWords? rest).map (UInt64.ofNat n :: ·) := by
  cases bytes with
  | nil => exact absurd (Varint.length_lt_of_read? h) (Nat.not_lt_zero _)
  | cons b bs =>
    rw [readWords?]
    split
    · next hn => cases h.symm.trans hn
    · next hr =>
      cases h.symm.trans hr
      rfl

/-- Numbers that are written in one run are read back. -/
theorem readWords?_flatMap_encode (words : List UInt64) :
    readWords? (words.flatMap fun word => Varint.encode word.toNat) = some words := by
  induction words with
  | nil => rw [List.flatMap_nil, readWords?]
  | cons word words ih =>
    have hw : word.toNat < 128 ^ 10 := Nat.lt_trans word.toNat_lt (by decide)
    rw [List.flatMap_cons, readWords?_of_read (Varint.read?_encode 9 hw _), ih, Option.map_some,
      UInt64.ofNat_toNat]

section Restoring

variable {μ β : Type} {L : Layout μ} {room : Nat} {m m₀ m₁ m₂ : μ}

/-- A field of a layout, under a number that a tag can hold. -/
structure Layout.Has (L : Layout μ) (f : Field μ) : Prop where
  /-- The field is what the layout has under its number. -/
  found : L.fields.find? (fun g => g.number = f.number) = some f
  /-- A tag is a word of 32 bits, three of which are not the number's. -/
  number_lt : f.number < 2 ^ 29

namespace Layout.Has

variable {f : Field μ}

theorem absorb (hf : L.Has f) {payload : Wire.Payload}
    (ha : f.absorb room payload m₀ = some (.ok m₁)) (verbatim : List UInt8) :
    L.absorb room ⟨f.number, payload, verbatim⟩ m₀ = .ok m₁ := by
  unfold Layout.absorb
  simp only [hf.found, ha, Option.getD_some]

/-- A number behind the tag of a field is taken by the field. -/
theorem decodeOnto_number (hf : L.Has f) {word : UInt64}
    (ha : f.absorb room (.varint word) m₀ = some (.ok m₁)) :
    L.decodeOnto room m₀ (Wire.Tag.encode f.number .varint ++ Varint.encode word.toNat) =
      .ok m₁ := by
  obtain ⟨verbatim, hr⟩ := Wire.Field.read?_number hf.number_lt room word []
  rw [List.append_nil] at hr
  rw [decodeOnto_of_read hr (hf.absorb ha verbatim), decodeOnto_nil]

/-- A run behind the tag of a field and its length is taken by the field. -/
theorem decodeOnto_run (hf : L.Has f) {run : List UInt8}
    (ha : f.absorb room (.delimited run) m₀ = some (.ok m₁)) :
    L.decodeOnto room m₀ (Wire.Tag.encode f.number .delimited ++ delimit run) = .ok m₁ := by
  obtain ⟨verbatim, hr⟩ := Wire.Field.read?_run hf.number_lt room run []
  rw [List.append_nil] at hr
  rw [delimit, decodeOnto_of_read hr (hf.absorb ha verbatim), decodeOnto_nil]

end Layout.Has

/-- Runs behind the tag of a field are taken by the field one after the other. -/
theorem Layout.Has.decodeOnto_runs {f : Field μ} (hf : L.Has f) {lens : Lens μ (List β)}
    (hlens : lens.Lawful) (run : β → List UInt8) {xs : List β}
    (ha : ∀ x ∈ xs, ∀ m,
      f.absorb room (.delimited (run x)) m = some (.ok (lens.set (lens.get m ++ [x]) m)))
    (m₀ : μ) :
    L.decodeOnto room m₀
      (xs.flatMap fun x => Wire.Tag.encode f.number .delimited ++ delimit (run x)) =
        .ok (lens.set (lens.get m₀ ++ xs) m₀) := by
  induction xs generalizing m₀ with
  | nil => rw [List.flatMap_nil, decodeOnto_nil, List.append_nil, hlens.set_get]
  | cons x xs ih =>
    have hfirst := hf.decodeOnto_run (ha x List.mem_cons_self m₀)
    rw [List.flatMap_cons, decodeOnto_append hfirst,
      ih (fun y hy => ha y (List.mem_cons_of_mem _ hy)), hlens.get_set, hlens.set_set,
      List.append_assoc, List.singleton_append]

/-- A message is decoded back from what is written of it. -/
def Layout.Rereads (L : Layout μ) (room : Nat) (m : μ) : Prop :=
  L.decodeOnto room L.empty (L.encode m) = .ok m

/-- A message within another one is decoded back from what is written of it. -/
def Layout.RereadsWithin (L : Layout μ) (room : Nat) (m : μ) : Prop :=
  L.decodeWithin room L.empty (L.encode m) = .ok m

/-- What is written of a field of a message leads decoding from one message to another. -/
def Field.Restores (f : Field μ) (L : Layout μ) (room : Nat) (m m₀ m₁ : μ) : Prop :=
  L.decodeOnto room m₀ (f.emit m) = .ok m₁

/-- What is written of some fields of a message leads decoding from one message to another. -/
def Layout.Restores (L : Layout μ) (room : Nat) (m : μ) (fs : List (Field μ)) (m₀ m₁ : μ) : Prop :=
  L.decodeOnto room m₀ (fs.flatMap fun f => f.emit m) = .ok m₁

namespace Layout.Restores

theorem nil : L.Restores room m [] m₀ m₀ := decodeOnto_nil L room m₀

/-- The bytes of the first field stand before those of the others. -/
theorem cons {f : Field μ} {fs : List (Field μ)} (hf : f.Restores L room m m₀ m₁)
    (hfs : L.Restores room m fs m₁ m₂) : L.Restores room m (f :: fs) m₀ m₂ := by
  rw [Layout.Restores, List.flatMap_cons, decodeOnto_append hf, hfs]

end Layout.Restores

/-- A field that writes nothing of a blank place, and otherwise a run which it takes. -/
theorem Layout.Has.restores_run {f : Field μ} (hf : L.Has f) {blank : Prop} [Decidable blank]
    {run : List UInt8}
    (he : f.emit m = if blank then [] else Wire.Tag.encode f.number .delimited ++ delimit run)
    (hblank : blank → m₁ = m₀) (ha : f.absorb room (.delimited run) m₀ = some (.ok m₁)) :
    f.Restores L room m m₀ m₁ := by
  rw [Field.Restores, he]
  split
  · next hb => rw [decodeOnto_nil, hblank hb]
  · exact hf.decodeOnto_run ha

/-- A message whose known fields are restored and whose other bytes are foreign is read back. -/
theorem Layout.Foreign.rereads (h : L.Foreign room (L.unknown.get m)) (hL : L.unknown.Lawful)
    (hf : L.Restores room m L.fields L.empty (L.unknown.set [] m)) : L.Rereads room m := by
  rw [Rereads, encode, decodeOnto_append hf, h, keep, hL.get_set, hL.set_set, List.nil_append,
    hL.set_get]

namespace Field

variable {number : Nat} {name : String}

theorem restores_word [DecidableEq β] {w : Word β} {lens : Lens μ β} (hw : w.Lawful)
    (hf : L.Has (.word w number name lens)) (hblank : lens.set (w.ofWord 0) m₀ = m₀) :
    (Field.word w number name lens).Restores L room m m₀ (lens.set (lens.get m) m₀) := by
  rw [Restores]
  by_cases hz : lens.get m = w.ofWord 0
  · have he : (Field.word w number name lens).emit m = [] := if_pos hz
    rw [he, Layout.decodeOnto_nil, hz, hblank]
  · have he : (Field.word w number name lens).emit m =
        Wire.Tag.encode number .varint ++ Varint.encode (w.toWord (lens.get m)).toNat := if_neg hz
    have ha : (Field.word w number name lens).absorb room (.varint (w.toWord (lens.get m))) m₀ =
        some (.ok (lens.set (w.ofWord (w.toWord (lens.get m))) m₀)) := rfl
    rw [hw] at ha
    rw [he]
    exact hf.decodeOnto_number ha

theorem restores_text {lens : Lens μ String} (hf : L.Has (.text number name lens))
    (hblank : lens.set "" m₀ = m₀) :
    (Field.text number name lens).Restores L room m m₀ (lens.set (lens.get m) m₀) := by
  refine hf.restores_run rfl (fun hz => by rw [hz, hblank]) ?_
  simp only [Field.text, Utf8.decode?_encode]

theorem restores_octets {lens : Lens μ (List UInt8)} (hf : L.Has (.octets number name lens))
    (hblank : lens.set [] m₀ = m₀) :
    (Field.octets number name lens).Restores L room m m₀ (lens.set (lens.get m) m₀) :=
  hf.restores_run rfl (fun hz => by rw [hz, hblank]) rfl

theorem restores_words {w : Word β} {lens : Lens μ (List β)} (hw : w.Lawful)
    (hf : L.Has (.words w number name lens)) (hlens : lens.Lawful) (hblank : lens.get m₀ = []) :
    (Field.words w number name lens).Restores L room m m₀ (lens.set (lens.get m) m₀) := by
  refine hf.restores_run rfl
    (fun hz => by rw [List.isEmpty_iff.mp hz, ← hblank, hlens.set_get]) ?_
  have hread := readWords?_flatMap_encode ((lens.get m).map w.toWord)
  rw [List.flatMap_map] at hread
  have hvalues : ((lens.get m).map w.toWord).map w.ofWord = lens.get m := by
    rw [List.map_map]
    exact List.map_id'' hw _
  simp only [Field.words, hread, hvalues, hblank, List.nil_append]

theorem restores_texts {lens : Lens μ (List String)} (hf : L.Has (.texts number name lens))
    (hlens : lens.Lawful) (hblank : lens.get m₀ = []) :
    (Field.texts number name lens).Restores L room m m₀ (lens.set (lens.get m) m₀) := by
  have h : L.decodeOnto room m₀ ((Field.texts number name lens).emit m) =
      .ok (lens.set (lens.get m₀ ++ lens.get m) m₀) :=
    hf.decodeOnto_runs hlens Utf8.encode
      (fun s _ m => by simp only [Field.texts, Utf8.decode?_encode]) m₀
  rwa [hblank, List.nil_append] at h

/-- A message within a message is restored where it is read back itself. -/
theorem restores_message {K : Layout β} {lens : Lens μ (Option β)}
    (hf : L.Has (.message K number name lens)) (hblank : lens.get m₀ = none)
    (hnone : lens.set none m₀ = m₀)
    (hin : ∀ inner, lens.get m = some inner → K.RereadsWithin room inner) :
    (Field.message K number name lens).Restores L room m m₀ (lens.set (lens.get m) m₀) := by
  rw [Restores]
  cases hg : lens.get m with
  | none =>
    have he : (Field.message K number name lens).emit m = [] := by simp only [Field.message, hg]
    rw [he, Layout.decodeOnto_nil, hnone]
  | some inner =>
    have he : (Field.message K number name lens).emit m =
        Wire.Tag.encode number .delimited ++ delimit (K.encode inner) := by
      simp only [Field.message, hg]
    have hinner : K.decodeWithin room K.empty (K.encode inner) = .ok inner := hin inner hg
    rw [he]
    refine hf.decodeOnto_run ?_
    simp only [Field.message, hblank, Option.getD_none, hinner]

/-- Messages within a message are restored where each is read back itself. -/
theorem restores_messages {K : Layout β} {lens : Lens μ (List β)}
    (hf : L.Has (.messages K number name lens)) (hlens : lens.Lawful) (hblank : lens.get m₀ = [])
    (hin : ∀ inner ∈ lens.get m, K.RereadsWithin room inner) :
    (Field.messages K number name lens).Restores L room m m₀ (lens.set (lens.get m) m₀) := by
  have h : L.decodeOnto room m₀ ((Field.messages K number name lens).emit m) =
      .ok (lens.set (lens.get m₀ ++ lens.get m) m₀) := by
    refine hf.decodeOnto_runs hlens K.encode (fun inner hi m => ?_) m₀
    have hinner : K.decodeWithin room K.empty (K.encode inner) = .ok inner := hin inner hi
    simp only [Field.messages, hinner]
  rwa [hblank, List.nil_append] at h

end Field

end Restoring

end CallTrace
