import CallTrace.Message.TextForm
import CallTrace.Proofs.Message.Nesting

/-!
# Opening envelopes

An envelope of a type that is not known stays closed and is shown by its own two fields. One of a
known type is opened: it has contents, which are all that is packed in its message, or its bytes are
no message. Whether the type is one of a log or a further one, what is shown of an envelope that is
opened comes down to its URL and to its contents, and these are shorter than the envelope's bytes
or stay closed.
-/

namespace CallTrace

/-! ### Sketches -/

mutual

/-- What is packed in a field. -/
def Sketch.envelopes : Sketch → List Any
  | .scalar _ _ => []
  | .block _ children => Sketch.allEnvelopes children
  | .packed _ envelope => [envelope]

/-- What is packed in fields. -/
def Sketch.allEnvelopes : List Sketch → List Any
  | [] => []
  | sketch :: sketches => sketch.envelopes ++ Sketch.allEnvelopes sketches

end

theorem Sketch.mem_allEnvelopes {sketches : List Sketch} {a : Any} :
    a ∈ Sketch.allEnvelopes sketches ↔ ∃ sketch ∈ sketches, a ∈ sketch.envelopes := by
  induction sketches with
  | nil => simp [Sketch.allEnvelopes]
  | cons sketch sketches ih => simp [Sketch.allEnvelopes, ih]

/-- What is packed in a field of a message is shorter than the message. -/
theorem Sketch.Fits.length_lt {size : Nat} {sketch : Sketch} (h : sketch.Fits size) {a : Any}
    (ha : a ∈ sketch.envelopes) : a.value.length < size := by
  induction h with
  | scalar => cases ha
  | block hname hchildren ih =>
    rw [Sketch.envelopes, Sketch.mem_allEnvelopes] at ha
    obtain ⟨child, hc, ha⟩ := ha
    exact ih child hc ha
  | packed hname hsize =>
    rw [Sketch.envelopes, List.mem_singleton] at ha
    exact ha ▸ hsize

/-- Fields are shown where each of them is. -/
theorem Sketch.shown_nodes_iff {Q : TextNode → Prop} (unpack : Unpacker) (sketches : List Sketch) :
    Shown Q (Sketch.nodes unpack sketches) ↔
      ∀ sketch ∈ sketches, ∃ node, sketch.node unpack = .ok node ∧ Q node := by
  induction sketches with
  | nil => exact (shown_ok []).trans (iff_of_true (List.forall_mem_nil _) (List.forall_mem_nil _))
  | cons sketch sketches ih =>
    rw [List.forall_mem_cons, ← ih, Sketch.nodes]
    cases hfirst : sketch.node unpack with
    | error e => simp [Shown, bind, Except.bind]
    | ok first =>
      cases hothers : Sketch.nodes unpack sketches with
      | error e => simp [Shown, bind, Except.bind]
      | ok others => simp [Shown, bind, Except.bind, pure, Except.pure]

/-- A field is shown by what is packed in it. -/
theorem Sketch.Fits.shown_node {Q : TextNode → Prop} (hQ : TextNode.Regular Q) (unpack : Unpacker)
    {size : Nat} {sketch : Sketch} (h : sketch.Fits size) :
    (∃ node, sketch.node unpack = .ok node ∧ Q node) ↔
      ∀ a ∈ sketch.envelopes, Shown Q (unpack a) := by
  have hblock : ∀ {name : String} (x : Except DecodeError (List TextNode)),
      isFieldName name = true →
        ((∃ node, x.map (TextNode.block name) = .ok node ∧ Q node) ↔ Shown Q x) := by
    intro name x hname
    cases x with
    | error e => simp [Shown, Except.map]
    | ok children => simp [Shown, Except.map, hQ.block hname]
  induction h with
  | @scalar name value hname hvalue =>
    rw [Sketch.node, Sketch.envelopes]
    exact iff_of_true ⟨_, rfl, hQ.scalar hname hvalue⟩ (List.forall_mem_nil _)
  | @block name children hname hchildren ih =>
    rw [Sketch.node, Sketch.envelopes, hblock _ hname, Sketch.shown_nodes_iff, forall₂_congr ih]
    simp only [Sketch.mem_allEnvelopes]
    constructor
    · rintro hall a ⟨child, hc, ha⟩
      exact hall child hc a ha
    · intro hall child hc a ha
      exact hall a ⟨child, hc, ha⟩
  | @packed name envelope hname hsize =>
    rw [Sketch.node, Sketch.envelopes, hblock _ hname, List.forall_mem_singleton]

/-! ### Envelopes -/

/-- What is packed in a message of the given bytes is shorter, or has nothing in it at all. -/
theorem MessageType.length_lt_or_empty {t : MessageType} {bytes : List UInt8} {m : t.Message}
    (h : t.decode bytes = .ok m) {a : Any} (ha : a ∈ t.envelopes m) :
    a.value.length < bytes.length ∨ a = {} := by
  by_cases hb : bytes = []
  · subst hb
    have hm : m = t.layout.empty := by
      rw [MessageType.decode, Layout.decode, Layout.decodeOnto] at h
      exact (Except.ok.inj h).symm
    subst hm
    cases t with
    | any => exact .inr (List.mem_singleton.mp ha)
    | _ => cases ha
  · exact .inl (length_lt_of_mem_envelopes h hb ha)

/-- A regular property that a packed message has where its URL is good and all of it has it. -/
structure TextNode.Watches (Q : TextNode → Prop) (R : String → Prop) : Prop extends
    TextNode.Regular Q where
  /-- A packed message is looked at with its URL. -/
  packed : ∀ {url : String} {children : List TextNode},
    Q (.block ("[" ++ url ++ "]") children) ↔ R url ∧ ∀ child ∈ children, Q child

theorem TextNode.watches_true : TextNode.Watches (fun _ => True) fun _ => True where
  toRegular := TextNode.regular_true
  packed := by simp

namespace Any

variable [KnownTypes] {a : Any}

/-- All that is packed in the packed message, if its type is known. -/
def contents? (a : Any) : Option (Except DecodeError (List Any)) :=
  match a.messageType? with
  | some t => some ((t.decode a.value).map t.envelopes)
  | none => a.sketches?.map fun sketches => sketches.map Sketch.allEnvelopes

theorem contents?_of_messageType {t : MessageType} (ht : a.messageType? = some t) :
    a.contents? = some ((t.decode a.value).map t.envelopes) := by
  rw [contents?, ht]

theorem contents?_of_decode {t : MessageType} {m : t.Message} (ht : a.messageType? = some t)
    (hm : t.decode a.value = .ok m) : a.contents? = some (.ok (t.envelopes m)) := by
  rw [contents?_of_messageType ht, hm]
  rfl

/-- An envelope without a URL stays closed. -/
theorem contents?_empty : ({} : Any).contents? = none := rfl

/-- What comes of looking into an envelope: nothing, a fault, or contents by which it is shown. -/
inductive Looked (a : Any) : Prop
  /-- The type is not known. -/
  | closed (hc : a.contents? = none) (hd : a.display? = none)
  /-- The bytes are no message of the type. -/
  | corrupt {e : DecodeError} (hc : a.contents? = some (.error e))
    (hd : a.display? = some (.error e))
  /-- The packed message is shown by what is packed in it. -/
  | opened {inner : List Any} {display : Unpacker → Except DecodeError (List TextNode)}
    (hc : a.contents? = some (.ok inner)) (hd : a.display? = some (.ok display))
    (hless : ∀ b ∈ inner, b.value.length < a.value.length ∨ b.contents? = none)
    (hshown : ∀ {Q : TextNode → Prop}, TextNode.Regular Q → ∀ unpack,
      (Shown Q (display unpack) ↔ ∀ b ∈ inner, Shown Q (unpack b)))

theorem looked_of_messageType {t : MessageType} (ht : a.messageType? = some t) : a.Looked := by
  have hc := contents?_of_messageType ht
  have hd : a.display? =
      some ((t.decode a.value).map fun m unpack => t.layout.nodes unpack m) := by
    rw [display?, ht]
  cases hm : t.decode a.value with
  | error e =>
    rw [hm] at hc hd
    exact .corrupt hc hd
  | ok m =>
    rw [hm] at hc hd
    refine .opened hc hd (fun b hb => ?_) fun hQ unpack => t.shown_nodes hQ unpack m
    rcases MessageType.length_lt_or_empty hm hb with hless | rfl
    · exact .inl hless
    · exact .inr contents?_empty

theorem looked_of_sketches (ht : a.messageType? = none) : a.Looked := by
  have hc : a.contents? = a.sketches?.map fun sketches => sketches.map Sketch.allEnvelopes := by
    rw [contents?, ht]
  have hd : a.display? = a.sketches?.map fun sketches => sketches.map fun sketches unpack =>
      Sketch.nodes unpack sketches := by
    rw [display?, ht]
  cases hs : a.sketches? with
  | none =>
    rw [hs] at hc hd
    exact .closed hc hd
  | some x =>
    rw [hs] at hc hd
    cases x with
    | error e => exact .corrupt hc hd
    | ok sketches =>
      have hfits : ∀ sketch ∈ sketches, sketch.Fits a.value.length := by
        obtain ⟨name, -, hname⟩ := Option.bind_eq_some_iff.mp hs
        obtain ⟨display, hfurther, hdisplay⟩ := Option.map_eq_some_iff.mp hname
        cases hok : display a.value with
        | error fault =>
          rw [hok] at hdisplay
          cases hdisplay
        | ok sketches' =>
          rw [hok] at hdisplay
          cases hdisplay
          exact KnownTypes.fits hfurther hok
      refine .opened hc hd (fun b hb => ?_) fun hQ unpack => ?_
      · obtain ⟨sketch, hmem, hb⟩ := Sketch.mem_allEnvelopes.mp hb
        exact .inl ((hfits sketch hmem).length_lt hb)
      · rw [Sketch.shown_nodes_iff,
          forall₂_congr fun sketch hmem => (hfits sketch hmem).shown_node hQ unpack]
        simp only [Sketch.mem_allEnvelopes]
        constructor
        · rintro hall b ⟨sketch, hmem, hb⟩
          exact hall sketch hmem b hb
        · intro hall sketch hmem b hb
          exact hall b ⟨sketch, hmem, hb⟩

theorem looked (a : Any) : a.Looked := by
  cases ht : a.messageType? with
  | some t => exact looked_of_messageType ht
  | none => exact looked_of_sketches ht

variable {Q : TextNode → Prop} {R : String → Prop}

/-- An envelope that shows nothing but its own two fields has every regular property. -/
theorem shown_unpack_of_closed (hQ : TextNode.Regular Q) (h : a.contents? = none) :
    Shown Q a.unpack := by
  cases a.looked with
  | closed _ hd =>
    rw [unpack, hd, Layout.shown_fieldNodes]
    simp +decide [Any.layout, hQ.shown_text, hQ.shown_octets]
  | corrupt hc => cases h.symm.trans hc
  | opened hc => cases h.symm.trans hc

theorem unpack_of_corrupt {e : DecodeError} (h : a.contents? = some (.error e)) :
    a.unpack = .error e := by
  cases a.looked with
  | closed hc => cases h.symm.trans hc
  | corrupt hc hd =>
    cases h.symm.trans hc
    rw [unpack, hd]
  | opened hc => cases h.symm.trans hc

/-- What is packed in an envelope that is opened is shorter, or stays closed. -/
theorem length_lt_or_closed {inner : List Any} (h : a.contents? = some (.ok inner)) {b : Any}
    (hb : b ∈ inner) : b.value.length < a.value.length ∨ b.contents? = none := by
  cases a.looked with
  | closed hc => cases h.symm.trans hc
  | corrupt hc => cases h.symm.trans hc
  | opened hc hd hless =>
    cases h.symm.trans hc
    exact hless b hb

/-- An envelope that is opened is shown by its URL and by what is packed in it. -/
theorem shown_unpack_of_opened (hQ : TextNode.Watches Q R) {inner : List Any}
    (h : a.contents? = some (.ok inner)) :
    Shown Q a.unpack ↔ R a.typeUrl ∧ ∀ b ∈ inner, Shown Q b.unpack := by
  cases a.looked with
  | closed hc => cases h.symm.trans hc
  | corrupt hc => cases h.symm.trans hc
  | opened hc hd hless hshown =>
    cases h.symm.trans hc
    have hsplit : ∀ x : Except DecodeError (List TextNode),
        Shown Q (x.map fun children => [.block ("[" ++ a.typeUrl ++ "]") children]) ↔
          R a.typeUrl ∧ Shown Q x := by
      intro x
      rw [shown_map]
      simp only [List.forall_mem_singleton, hQ.packed, Shown]
      constructor
      · rintro ⟨v, hv, hR, hall⟩
        exact ⟨hR, v, hv, hall⟩
      · rintro ⟨hR, v, hv, hall⟩
        exact ⟨v, hv, hR, hall⟩
    rw [unpack, hd]
    refine (hsplit _).trans (and_congr_right fun _ => (hshown hQ.toRegular _).trans ?_)
    refine forall₂_congr fun b hb => ?_
    -- The bound on the depth cuts off no envelope that is opened.
    split
    · exact Iff.rfl
    · next hlt =>
      exact iff_of_true ((shown_ok []).mpr (List.forall_mem_nil _))
        (shown_unpack_of_closed hQ.toRegular ((hless b hb).resolve_left hlt))

end Any

end CallTrace
