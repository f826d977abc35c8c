import CallTrace.Proofs.Message.Nesting
import CallTrace.Proofs.Wire.Fields

/-!
# Reading back what was decoded

A decoded message is written in another order than it was read in, and in the
shortest form. Decoding what was written gives the message back. Field by field,
the bytes of a known field give its place the value that was written. The bytes
that were kept as unknown are the bytes of fields that the layout ignores in
every message, so they are kept again.
-/

namespace CallTrace

section Decoding

variable {μ : Type} {L : Layout μ} {room : Nat} {m m' : μ}

namespace Layout

theorem decodeOnto_nil (L : Layout μ) (room : Nat) (m : μ) : L.decodeOnto room m [] = .ok m := by
  rw [decodeOnto]

/-- Decoding takes the first field and goes on behind it. -/
theorem decodeOnto_of_read {bytes rest : List UInt8} {field : Wire.Field}
    (h : Wire.Field.read? room bytes = some (field, rest)) (ha : L.absorb room field m = .ok m') :
    L.decodeOnto room m bytes = L.decodeOnto room m' rest := by
  cases bytes with
  | nil => exact absurd (Wire.Field.length_lt_of_read? h) (Nat.not_lt_zero _)
  | cons b bs =>
    rw [decodeOnto]
    split
    · next hn => cases h.symm.trans hn
    · next field' rest' hr =>
      cases h.symm.trans hr
      rw [ha]

/-- What decoding keeps of a message from one field to the next, it keeps. -/
theorem decodeOnto_induction {P : μ → Prop} {bytes : List UInt8}
    (hstep : ∀ front rest field m m', Wire.Field.read? room front = some (field, rest) →
      L.absorb room field m = .ok m' → P m → P m')
    (hm : P m) (h : L.decodeOnto room m bytes = .ok m') : P m' := by
  fun_induction Layout.decodeOnto L room m bytes with
  | case1 m =>
    cases h
    exact hm
  | case2 => cases h
  | case3 => cases h
  | case4 m b bs field rest hr m₁ ha ih => exact ih (hstep _ _ _ _ _ hr ha hm) h

/-- Bytes behind those of whole fields are decoded onto what the fields come to. -/
theorem decodeOnto_append {bytes : List UInt8} (h : L.decodeOnto room m bytes = .ok m')
    (more : List UInt8) : L.decodeOnto room m (bytes ++ more) = L.decodeOnto room m' more := by
  fun_induction Layout.decodeOnto L room m bytes with
  | case1 m =>
    cases h
    rfl
  | case2 => cases h
  | case3 => cases h
  | case4 m b bs field rest hr m₁ ha ih =>
    obtain ⟨hb, hread⟩ := Wire.Field.read?_verbatim hr
    rw [hb, List.append_assoc, decodeOnto_of_read (hread _) ha]
    exact ih h

/-- Some bytes are decoded as the message, with so much room. -/
def Decodes (L : Layout μ) (room : Nat) (m : μ) : Prop :=
  ∃ bytes, L.decodeOnto room L.empty bytes = .ok m

/-- Some bytes are decoded as the message where it stands in another one. -/
def DecodesWithin (L : Layout μ) (room : Nat) (m : μ) : Prop :=
  ∃ bytes, L.decodeWithin room L.empty bytes = .ok m

/-- What further bytes are merged into a decoded message, some bytes decode. -/
theorem DecodesWithin.merge {bytes : List UInt8} (h : L.DecodesWithin room m)
    (hd : L.decodeWithin room m bytes = .ok m') : L.DecodesWithin room m' := by
  obtain ⟨first, hf⟩ := h
  cases room with
  | zero => cases hd
  | succ room => exact ⟨first ++ bytes, (decodeOnto_append hf bytes).trans hd⟩

end Layout

/-- A field keeps a property of messages, with so much room. -/
def Field.Upholds (f : Field μ) (room : Nat) (P : μ → Prop) : Prop :=
  ∀ payload m m', P m → f.absorb room payload m = some (.ok m') → P m'

/-- Whether a field can take a payload does not hang on the message. -/
def Field.Steady (f : Field μ) : Prop :=
  ∀ room payload m m', f.absorb room payload m = none → f.absorb room payload m' = none

namespace Layout

/-- What a field does to a message: it is kept as it arrived, or a known field takes its payload. -/
theorem absorb_cases {field : Wire.Field} (h : L.absorb room field m = .ok m') :
    (m' = L.keep field.verbatim m ∧ ((∀ f ∈ L.fields, f.Steady) →
        ∀ n, L.absorb room field n = .ok (L.keep field.verbatim n))) ∨
      ∃ f ∈ L.fields, f.absorb room field.payload m = some (.ok m') := by
  unfold absorb at h
  split at h
  · next hf =>
    split at h
    · cases h
    · next hz =>
      cases h
      refine .inl ⟨rfl, fun _ n => ?_⟩
      unfold absorb
      rw [hf]
      simp only [hz, Bool.false_eq_true, if_false]
  · next f hf =>
    have hmem := List.mem_of_find?_eq_some hf
    cases ha : f.absorb room field.payload m with
    | none =>
      rw [ha] at h
      cases h
      refine .inl ⟨rfl, fun hs n => ?_⟩
      unfold absorb
      rw [hf]
      simp only [hs f hmem room _ m n ha, Option.getD_none]
    | some result =>
      rw [ha, Option.getD_some] at h
      rw [h] at ha
      exact .inr ⟨f, hmem, ha⟩

end Layout

end Decoding

/-- A place holds what was set last, and setting what it holds changes nothing. -/
structure Lens.Lawful {μ β : Type} (lens : Lens μ β) : Prop where
  /-- What was set is what is there. -/
  get_set : ∀ v m, lens.get (lens.set v m) = v
  /-- What was set before is gone. -/
  set_set : ∀ v w m, lens.set v (lens.set w m) = lens.set v m
  /-- Setting what is there changes nothing. -/
  set_get : ∀ m, lens.set (lens.get m) m = m

section Unknown

variable {μ : Type} {L : Layout μ} {room : Nat} {m : μ}

namespace Layout

/-- Bytes that the layout keeps as unknown in every message. -/
def Foreign (L : Layout μ) (room : Nat) (bytes : List UInt8) : Prop :=
  ∀ m, L.decodeOnto room m bytes = .ok (L.keep bytes m)

theorem keep_nil (hL : L.unknown.Lawful) (m : μ) : L.keep [] m = m := by
  rw [keep, List.append_nil, hL.set_get]

theorem keep_keep (hL : L.unknown.Lawful) (bytes more : List UInt8) (m : μ) :
    L.keep more (L.keep bytes m) = L.keep (bytes ++ more) m := by
  simp only [keep, hL.get_set, hL.set_set, List.append_assoc]

theorem foreign_nil (hL : L.unknown.Lawful) : L.Foreign room [] := by
  intro m
  rw [decodeOnto_nil, keep_nil hL]

theorem Foreign.append (hL : L.unknown.Lawful) {bytes more : List UInt8}
    (h : L.Foreign room bytes) (h' : L.Foreign room more) : L.Foreign room (bytes ++ more) := by
  intro m
  rw [decodeOnto_append (h m), h', keep_keep hL]

end Layout

end Unknown

section Fields

variable {μ β : Type} {room : Nat} {P : μ → Prop}

theorem Field.Sets.upholds {f : Field μ} {lens : Lens μ β} (hs : f.Sets lens)
    (hP : ∀ v m, P m → P (lens.set v m)) : f.Upholds room P := by
  intro payload m m' hm h
  obtain ⟨v, rfl⟩ := hs room payload m m' h
  exact hP v m hm

theorem Field.sets_octets (number : Nat) (name : String) (lens : Lens μ (List UInt8)) :
    (Field.octets number name lens).Sets lens := by
  intro room payload m m' h
  cases payload <;> simp only [Field.octets, Option.some.injEq, Except.ok.injEq, reduceCtorEq] at h
  exact ⟨_, h.symm⟩

theorem Field.sets_words (w : Word β) (number : Nat) (name : String) (lens : Lens μ (List β)) :
    (Field.words w number name lens).Sets lens := by
  intro room payload m m' h
  cases payload <;> simp only [Field.words, Option.some.injEq, Except.ok.injEq, reduceCtorEq] at h
  · exact ⟨_, h.symm⟩
  · split at h <;> simp only [Option.some.injEq, Except.ok.injEq, reduceCtorEq] at h
    exact ⟨_, h.symm⟩

theorem Field.sets_texts (number : Nat) (name : String) (lens : Lens μ (List String)) :
    (Field.texts number name lens).Sets lens := by
  intro room payload m m' h
  cases payload <;> simp only [Field.texts, reduceCtorEq] at h
  split at h <;> simp only [Option.some.injEq, Except.ok.injEq, reduceCtorEq] at h
  exact ⟨_, h.symm⟩

/-- A message that is merged into the one at a place is decoded from some bytes like that one. -/
theorem Field.upholds_message {K : Layout β} {number : Nat} {name : String}
    {lens : Lens μ (Option β)}
    (hget : ∀ m inner, P m → lens.get m = some inner → K.DecodesWithin room inner)
    (hset : ∀ m inner, P m → K.DecodesWithin room inner → P (lens.set (some inner) m)) :
    (Field.message K number name lens).Upholds room P := by
  intro payload m m' hm h
  cases payload <;> simp only [Field.message, reduceCtorEq] at h
  next run =>
    split at h
    · next inner hd =>
      cases h
      refine hset m inner hm ?_
      cases hg : lens.get m with
      | none =>
        rw [hg] at hd
        exact ⟨run, hd⟩
      | some old =>
        rw [hg] at hd
        exact (hget m old hm hg).merge hd
    · cases h

/-- A message that is put behind those at a place is decoded from some bytes. -/
theorem Field.upholds_messages {K : Layout β} {number : Nat} {name : String}
    {lens : Lens μ (List β)}
    (hset : ∀ m inner, P m → K.DecodesWithin room inner →
      P (lens.set (lens.get m ++ [inner]) m)) :
    (Field.messages K number name lens).Upholds room P := by
  intro payload m m' hm h
  cases payload <;> simp only [Field.messages, reduceCtorEq] at h
  next run =>
    split at h
    · next inner hd =>
      cases h
      exact hset m inner hm ⟨run, hd⟩
    · cases h

/--
A field of one of the seven kinds that keeps a property of messages, whatever value it gives its
place, and leaves the place of what is unknown alone. A message at the place is one that some bytes
decode.
-/
inductive Field.Guards (unknown : Lens μ (List UInt8)) (room : Nat) (P : μ → Prop) :
    Field μ → Prop where
  | word {β : Type} [DecidableEq β] {w : Word β} {number : Nat} {name : String} {lens : Lens μ β}
      (hset : ∀ v m, P m → P (lens.set v m))
      (hrest : ∀ v m, unknown.get (lens.set v m) = unknown.get m) :
      Guards unknown room P (.word w number name lens)
  | text {number : Nat} {name : String} {lens : Lens μ String}
      (hset : ∀ v m, P m → P (lens.set v m))
      (hrest : ∀ v m, unknown.get (lens.set v m) = unknown.get m) :
      Guards unknown room P (.text number name lens)
  | octets {number : Nat} {name : String} {lens : Lens μ (List UInt8)}
      (hset : ∀ v m, P m → P (lens.set v m))
      (hrest : ∀ v m, unknown.get (lens.set v m) = unknown.get m) :
      Guards unknown room P (.octets number name lens)
  | words {β : Type} {w : Word β} {number : Nat} {name : String} {lens : Lens μ (List β)}
      (hset : ∀ v m, P m → P (lens.set v m))
      (hrest : ∀ v m, unknown.get (lens.set v m) = unknown.get m) :
      Guards unknown room P (.words w number name lens)
  | texts {number : Nat} {name : String} {lens : Lens μ (List String)}
      (hset : ∀ v m, P m → P (lens.set v m))
      (hrest : ∀ v m, unknown.get (lens.set v m) = unknown.get m) :
      Guards unknown room P (.texts number name lens)
  | message {β : Type} {K : Layout β} {number : Nat} {name : String} {lens : Lens μ (Option β)}
      (hget : ∀ m inner, P m → lens.get m = some inner → K.DecodesWithin room inner)
      (hset : ∀ inner m, K.DecodesWithin room inner → P m → P (lens.set (some inner) m))
      (hrest : ∀ inner m, unknown.get (lens.set (some inner) m) = unknown.get m) :
      Guards unknown room P (.message K number name lens)
  | messages {β : Type} {K : Layout β} {number : Nat} {name : String} {lens : Lens μ (List β)}
      (hset : ∀ inner m, K.DecodesWithin room inner → P m → P (lens.set (lens.get m ++ [inner]) m))
      (hrest : ∀ v m, unknown.get (lens.set v m) = unknown.get m) :
      Guards unknown room P (.messages K number name lens)

theorem Field.Guards.upholds {unknown : Lens μ (List UInt8)} {f : Field μ}
    (h : f.Guards unknown room P) (Q : List UInt8 → Prop) :
    f.Upholds room fun m => P m ∧ Q (unknown.get m) := by
  cases h with
  | word hset hrest =>
    exact (Field.sets_word _ _ _ _).upholds fun v m hm => ⟨hset v m hm.1, hrest v m ▸ hm.2⟩
  | text hset hrest =>
    exact (Field.sets_text _ _ _).upholds fun v m hm => ⟨hset v m hm.1, hrest v m ▸ hm.2⟩
  | octets hset hrest =>
    exact (Field.sets_octets _ _ _).upholds fun v m hm => ⟨hset v m hm.1, hrest v m ▸ hm.2⟩
  | words hset hrest =>
    exact (Field.sets_words _ _ _ _).upholds fun v m hm => ⟨hset v m hm.1, hrest v m ▸ hm.2⟩
  | texts hset hrest =>
    exact (Field.sets_texts _ _ _).upholds fun v m hm => ⟨hset v m hm.1, hrest v m ▸ hm.2⟩
  | message hget hset hrest =>
    exact Field.upholds_message (fun m inner hm => hget m inner hm.1)
      fun m inner hm hd => ⟨hset inner m hd hm.1, hrest inner m ▸ hm.2⟩
  | messages hset hrest =>
    exact Field.upholds_messages fun m inner hm hd => ⟨hset inner m hd hm.1, hrest _ m ▸ hm.2⟩

/-- A field of whatever kind refuses a payload for what the payload is. -/
theorem Field.Guards.steady {unknown : Lens μ (List UInt8)} {f : Field μ}
    (h : f.Guards unknown room P) : f.Steady := by
  intro room payload m m' hn
  cases h <;> cases payload <;>
    grind [Field.word, Field.text, Field.octets, Field.words, Field.texts, Field.message,
      Field.messages]

/--
A decoded message has a property that its fields guard, and that what is kept as unknown does not
touch. What it holds as unknown is foreign to its layout.
-/
theorem Layout.Decodes.guarded {L : Layout μ} {m : μ} (h : L.Decodes room m)
    (hL : L.unknown.Lawful)
    (hf : ∀ f ∈ L.fields, f.Guards L.unknown room P)
    (hkeep : ∀ bytes m, P m → P (L.unknown.set bytes m)) (hempty : P L.empty)
    (hnone : L.unknown.get L.empty = []) : P m ∧ L.Foreign room (L.unknown.get m) := by
  obtain ⟨bytes, hd⟩ := h
  have hstart : P L.empty ∧ L.Foreign room (L.unknown.get L.empty) :=
    ⟨hempty, hnone ▸ foreign_nil hL⟩
  refine decodeOnto_induction (P := fun m => P m ∧ L.Foreign room (L.unknown.get m))
    (fun front rest field m m' hr ha hm => ?_) hstart hd
  rcases absorb_cases ha with ⟨rfl, hignored⟩ | ⟨f, hmem, hfield⟩
  · -- Read on its own, the ignored field is ignored again.
    obtain ⟨-, hread⟩ := Wire.Field.read?_verbatim hr
    have hr' := hread []
    rw [List.append_nil] at hr'
    refine ⟨hkeep _ _ hm.1, ?_⟩
    rw [keep, hL.get_set]
    refine hm.2.append hL fun n => ?_
    rw [decodeOnto_of_read hr' (hignored (fun f hf' => (hf f hf').steady) n), decodeOnto_nil]
  · exact (hf f hmem).upholds (L.Foreign room) _ m m' hm hfield

end Fields

end CallTrace
