import CallTrace.Message.TextForm
import CallTrace.Proofs.Text.Numerals

/-!
# What is shown of a message

A property of nodes is regular if all fields without a message have it, and a message in a field
just where its own fields have it. Whether all that is shown of a message has such a property is
known field by field, from the messages within it. Of the fields themselves nothing matters but
that their names are plain words and that their values are written on one line.
-/

namespace CallTrace

/--
A property that every field without a message has, and a message in a field just where its own
fields have it.
-/
structure TextNode.Regular (Q : TextNode → Prop) : Prop where
  /-- Values on one line have the property. -/
  scalar : ∀ {name value : String}, isFieldName name = true → '\n' ∉ value.toList →
    Q (.scalar name value)
  /-- A message has the property where all of it has. -/
  block : ∀ {name : String} {children : List TextNode}, isFieldName name = true →
    (Q (.block name children) ↔ ∀ child ∈ children, Q child)

theorem TextNode.regular_true : TextNode.Regular fun _ => True :=
  ⟨fun _ _ => trivial, fun _ => by simp⟩

/-- There are nodes, and all of them have the property. -/
def Shown (Q : TextNode → Prop) (x : Except DecodeError (List TextNode)) : Prop :=
  ∃ nodes, x = .ok nodes ∧ ∀ node ∈ nodes, Q node

/-! ### Values on one line -/

section Values

theorem newline_not_mem_octalEscape (n : Nat) : '\n' ∉ octalEscape n := by
  have hdigit : ∀ k : Nat, k < 8 → '\n' ≠ Nat.digitChar k := by decide
  simp [octalEscape, hdigit _ (Nat.mod_lt _ (by decide : 0 < 8))]

theorem newline_not_mem_escapeChar (c : Char) : '\n' ∉ escapeChar c := by
  by_cases hn : c = '\n'
  · subst hn
    decide
  · have hc : '\n' ∉ [c] := by simpa using Ne.symm hn
    unfold escapeChar
    repeat' split
    all_goals first | decide | exact hc | exact newline_not_mem_octalEscape _

theorem newline_not_mem_escapeByte (b : UInt8) : '\n' ∉ escapeByte b := by
  unfold escapeByte
  split
  · exact newline_not_mem_escapeChar _
  · exact newline_not_mem_octalEscape _

theorem newline_not_mem_quoteText (s : String) : '\n' ∉ (quoteText s).toList := by
  simp [quoteText, newline_not_mem_escapeChar]

theorem newline_not_mem_quoteBytes (bytes : List UInt8) : '\n' ∉ (quoteBytes bytes).toList := by
  simp [quoteBytes, newline_not_mem_escapeByte]

theorem newline_not_mem_repr (n : Int) : '\n' ∉ n.repr.toList := by
  cases n with
  | ofNat n => exact Text.not_mem_repr (by decide) n
  | negSucc n =>
    have hsucc := Text.not_mem_repr (c := '\n') (by decide) (n + 1)
    simpa [Int.repr] using hsucc

/-- All values of a scalar are written without line feeds. -/
def Word.OneLine {β : Type} (w : Word β) : Prop := ∀ v, '\n' ∉ (w.text v).toList

@[simp] theorem Word.oneLine_int64 : Word.int64.OneLine := fun n => newline_not_mem_repr n.toInt

@[simp] theorem Word.oneLine_int32 : Word.int32.OneLine := fun n => newline_not_mem_repr n.toInt

@[simp] theorem Word.oneLine_flag : Word.flag.OneLine := by
  rintro (_ | _) <;> decide

end Values

/-! ### Fields -/

section Fields

variable {α β ε μ : Type} {Q : TextNode → Prop}

theorem shown_ok (nodes : List TextNode) :
    Shown Q (.ok nodes) ↔ ∀ node ∈ nodes, Q node := by
  simp [Shown]

theorem shown_map {x : Except DecodeError α} (f : α → List TextNode) :
    Shown Q (x.map f) ↔ ∃ v, x = .ok v ∧ ∀ node ∈ f v, Q node := by
  cases x with
  | error e => simp [Shown, Except.map]
  | ok v => simp [Shown, Except.map]

/-- All results of a list have a property where each of its members has a result with it. -/
theorem exists_mapM_iff (f : α → Except ε β) (P : β → Prop) (xs : List α) :
    (∃ ys, xs.mapM f = .ok ys ∧ ∀ y ∈ ys, P y) ↔ ∀ x ∈ xs, ∃ y, f x = .ok y ∧ P y := by
  induction xs with
  | nil => exact ⟨fun _ => List.forall_mem_nil _, fun _ => ⟨[], rfl, List.forall_mem_nil _⟩⟩
  | cons x xs ih =>
    rw [List.forall_mem_cons, ← ih, List.mapM_cons]
    cases hx : f x with
    | error e => simp [bind, Except.bind]
    | ok y =>
      cases hxs : xs.mapM f with
      | error e => simp [bind, Except.bind]
      | ok ys => simp [bind, Except.bind, pure, Except.pure]

/-- All of a message without a wrapping of its own is shown by its fields. -/
theorem Layout.shown_fieldNodes (L : Layout μ) (unpack : Unpacker) (m : μ) :
    Shown Q (L.fieldNodes unpack m) ↔ ∀ f ∈ L.fields, Shown Q (f.nodes unpack m) := by
  rw [Layout.fieldNodes, shown_map]
  refine Iff.trans ?_ (exists_mapM_iff _ (fun nodes => ∀ node ∈ nodes, Q node) L.fields)
  exact exists_congr fun nodes => and_congr_right fun _ => List.forall_mem_flatten

namespace TextNode.Regular

variable (hQ : TextNode.Regular Q) (unpack : Unpacker) (m : μ) (number : Nat) {name : String}
  (hname : isFieldName name = true)
include hQ hname

theorem shown_word [DecidableEq β] {w : Word β} (hw : w.OneLine) (lens : Lens μ β) :
    Shown Q ((Field.word w number name lens).nodes unpack m) := by
  refine ⟨_, rfl, ?_⟩
  split
  · exact List.forall_mem_nil _
  · exact List.forall_mem_singleton.mpr (hQ.scalar hname (hw _))

theorem shown_text (lens : Lens μ String) :
    Shown Q ((Field.text number name lens).nodes unpack m) := by
  refine ⟨_, rfl, ?_⟩
  split
  · exact List.forall_mem_nil _
  · exact List.forall_mem_singleton.mpr (hQ.scalar hname (newline_not_mem_quoteText _))

theorem shown_octets (lens : Lens μ (List UInt8)) :
    Shown Q ((Field.octets number name lens).nodes unpack m) := by
  refine ⟨_, rfl, ?_⟩
  split
  · exact List.forall_mem_nil _
  · exact List.forall_mem_singleton.mpr (hQ.scalar hname (newline_not_mem_quoteBytes _))

theorem shown_words {w : Word β} (hw : w.OneLine) (lens : Lens μ (List β)) :
    Shown Q ((Field.words w number name lens).nodes unpack m) :=
  ⟨_, rfl, List.forall_mem_map.mpr fun v _ => hQ.scalar hname (hw v)⟩

theorem shown_texts (lens : Lens μ (List String)) :
    Shown Q ((Field.texts number name lens).nodes unpack m) :=
  ⟨_, rfl, List.forall_mem_map.mpr fun s _ => hQ.scalar hname (newline_not_mem_quoteText s)⟩

/-- A message within a message is shown by what is shown of itself, if it is there. -/
theorem shown_message (L : Layout β) (lens : Lens μ (Option β)) :
    Shown Q ((Field.message L number name lens).nodes unpack m) ↔
      ∀ inner, lens.get m = some inner → Shown Q (L.nodes unpack inner) := by
  cases h : lens.get m with
  | none => simp [Field.message, h, shown_ok]
  | some inner =>
    have hnodes : (Field.message L number name lens).nodes unpack m =
        (L.nodes unpack inner).map fun children => [.block name children] := by
      simp [Field.message, h]
    rw [hnodes, shown_map]
    simp [hQ.block hname, Shown]

/-- Messages within a message are shown by what is shown of themselves. -/
theorem shown_messages (L : Layout β) (lens : Lens μ (List β)) :
    Shown Q ((Field.messages L number name lens).nodes unpack m) ↔
      ∀ inner ∈ lens.get m, Shown Q (L.nodes unpack inner) := by
  refine (exists_mapM_iff _ Q (lens.get m)).trans (forall₂_congr fun inner _ => ?_)
  cases h : L.nodes unpack inner with
  | error e => simp [Except.map, Shown]
  | ok children => simp [Except.map, Shown, hQ.block hname]

end TextNode.Regular

end Fields

/-- A message is shown as its envelope, if it is one, and else by its fields. -/
theorem Layout.shown_nodes {μ : Type} {Q : TextNode → Prop} (L : Layout μ) (unpack : Unpacker)
    (m : μ) :
    Shown Q (L.nodes unpack m) ↔
      match L.packed? m with
      | some a => Shown Q (unpack a)
      | none => ∀ f ∈ L.fields, Shown Q (f.nodes unpack m) := by
  unfold Layout.nodes
  cases L.packed? m with
  | some a => exact Iff.rfl
  | none => exact L.shown_fieldNodes unpack m

end CallTrace
