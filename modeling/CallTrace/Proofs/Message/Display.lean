import CallTrace.Check.Transcript
import CallTrace.Proofs.Message.Opening

/-!
# What can be displayed

An envelope is sound if nothing is known of its type, or if its bytes are a
message of its type and all that is packed in that message is sound. Display
succeeds just on sound envelopes. So the text of a message, the lines on an
operation and the transcript of an entry each exist where what they show is
sound, and for no other reason may one of them be missing.
-/

namespace CallTrace

variable [KnownTypes]

/-- An envelope that can be displayed, with all that is packed in it. -/
inductive Any.Sound : Any → Prop where
  /-- Nothing is known of the type, and the envelope is shown as it is. -/
  | foreign {a : Any} (h : a.contents? = none) : a.Sound
  /-- The bytes are a message of the type, and what is packed in it is sound. -/
  | known {a : Any} {inner : List Any} (h : a.contents? = some (.ok inner))
      (hs : ∀ b ∈ inner, b.Sound) : a.Sound

namespace Any

theorem isOk_unpack_of_foreign {a : Any} (h : a.contents? = none) : a.unpack.isOk = true :=
  isOk_iff_shown.mpr (shown_unpack_of_closed TextNode.regular_true h)

/-- An envelope that is opened can be displayed where all that is packed in its message can. -/
theorem isOk_unpack_of_opened {a : Any} {inner : List Any} (h : a.contents? = some (.ok inner)) :
    a.unpack.isOk = true ↔ ∀ b ∈ inner, b.unpack.isOk = true := by
  simp only [isOk_iff_shown, shown_unpack_of_opened TextNode.watches_true h, true_and]

/-- Just the sound envelopes can be displayed. -/
theorem isOk_unpack_iff (a : Any) : a.unpack.isOk = true ↔ a.Sound := by
  constructor
  · intro h
    induction hn : a.value.length using Nat.strongRecOn generalizing a with
    | ind n ih =>
      cases hc : a.contents? with
      | none => exact .foreign hc
      | some opened =>
        cases opened with
        | error e => simp [unpack_of_corrupt hc] at h
        | ok inner =>
          rw [isOk_unpack_of_opened hc] at h
          refine .known hc fun b hb => ?_
          rcases length_lt_or_closed hc hb with hlt | hf
          · exact ih b.value.length (hn ▸ hlt) b (h b hb) rfl
          · exact .foreign hf
  · intro h
    induction h with
    | foreign hc => exact isOk_unpack_of_foreign hc
    | known hc _ ih => exact (isOk_unpack_of_opened hc).mpr ih

/-- What is packed in a message of a type of a log is sound where its envelope is. -/
theorem Sound.of_decoded {a : Any} (h : a.Sound) {t : MessageType} {m : t.Message}
    (ht : a.messageType? = some t) (hm : t.decode a.value = .ok m) :
    ∀ b ∈ t.envelopes m, b.Sound := by
  have hc := contents?_of_decode ht hm
  cases h with
  | foreign hn => cases hc.symm.trans hn
  | known hc' hs =>
    cases hc.symm.trans hc'
    exact hs

end Any

namespace MessageType

/-- The nodes of a message exist where its envelopes are sound. -/
theorem isOk_nodes_iff (t : MessageType) (m : t.Message) :
    (t.nodes m).isOk = true ↔ ∀ a ∈ t.envelopes m, a.Sound := by
  rw [isOk_iff_shown, nodes, shown_nodes TextNode.regular_true]
  exact forall₂_congr fun a _ => isOk_iff_shown.symm.trans a.isOk_unpack_iff

/-- A message has a text just where its envelopes are sound. -/
theorem text_iff (t : MessageType) (m : t.Message) :
    (∃ s, t.text m = .ok s) ↔ ∀ a ∈ t.envelopes m, a.Sound := by
  rw [← isOk_iff, text, isOk_map, isOk_nodes_iff]

/-- A message has a text on one line just where its envelopes are sound. -/
theorem lineText_iff (t : MessageType) (m : t.Message) :
    (∃ s, t.lineText m = .ok s) ↔ ∀ a ∈ t.envelopes m, a.Sound := by
  rw [← isOk_iff, lineText, isOk_map, isOk_nodes_iff]

end MessageType

/-- What is packed in the response or in the status that an operation came to. -/
def Conclusion.envelopes {t : MessageType} : Conclusion t → List Any
  | .success payload => t.envelopes payload
  | .failure status => status.envelopes
  | .pending => []

/-- What an operation came to can be told just where what is packed in it is sound. -/
theorem Conclusion.lines_iff {t : MessageType} (label errorLabel : String) (c : Conclusion t) :
    (∃ lines, c.lines label errorLabel = .ok lines) ↔ ∀ a ∈ c.envelopes, a.Sound := by
  rw [← isOk_iff]
  cases c with
  | success payload => rw [lines, isOk_map, isOk_iff, MessageType.text_iff]; rfl
  | failure status => rw [lines, isOk_map, isOk_iff, MessageType.lineText_iff]; rfl
  | pending => simp [lines, envelopes]

namespace Operation

omit [KnownTypes] in
/--
What is packed in what an operation came to is packed in the operation, or in the response that is
packed there.
-/
theorem mem_envelopes_of_conclude {op : Operation} {c : Conclusion .executeResponse}
    (hc : op.conclude .executeResponse = .ok c) {a : Any} (ha : a ∈ c.envelopes) :
    a ∈ op.envelopes ∨ ∃ packed ∈ op.envelopes, packed.messageType? = some .executeResponse ∧
      ∃ response, MessageType.executeResponse.decode packed.value = .ok response ∧
        a ∈ MessageType.executeResponse.envelopes response := by
  unfold conclude at hc
  split at hc
  · cases hr : op.result with
    | none =>
      rw [hr] at hc
      cases hc
      cases ha
    | some result =>
      have hmem : ∀ b ∈ result.envelopes, b ∈ op.envelopes := fun b hb =>
        mem_envelopes.mpr (.inr ⟨result, hr, hb⟩)
      rw [hr] at hc
      cases result with
      | error status =>
        cases hc
        split at ha
        · cases ha
        · exact .inl (hmem a ha)
      | response packed =>
        simp only [concludeResult, Any.unpackAs] at hc
        split at hc
        · next hn =>
          have ht : packed.messageType? = some .executeResponse := by
            rw [Any.messageType?, hn]
            decide
          cases hm : MessageType.executeResponse.decode packed.value with
          | error e =>
            rw [hm] at hc
            cases hc
          | ok m =>
            rw [hm] at hc
            cases hc
            exact .inr ⟨packed, hmem packed List.mem_cons_self, ht, m, hm, ha⟩
        · cases hc
  · cases hc
    cases ha

/-- What an operation came to has nothing packed in it that is not sound in the operation. -/
theorem sound_of_conclude {op : Operation} (h : ∀ a ∈ op.envelopes, a.Sound)
    {c : Conclusion .executeResponse} (hc : op.conclude .executeResponse = .ok c) :
    ∀ a ∈ c.envelopes, a.Sound := by
  intro a ha
  rcases mem_envelopes_of_conclude hc ha with hop | ⟨packed, hp, ht, response, hm, hin⟩
  · exact h a hop
  · exact (h packed hp).of_decoded ht hm a hin

/-- There are lines on an operation where what is packed in it is sound. -/
theorem isOk_lines {op : Operation} (h : ∀ a ∈ op.envelopes, a.Sound) :
    op.lines.isOk = true := by
  unfold lines
  split
  · rfl
  · next c hc => exact isOk_iff.mpr ((c.lines_iff _ _).mpr (sound_of_conclude h hc))

end Operation

namespace LogEntry

omit [KnownTypes] in
/-- The operations that a call streams have nothing packed in them but what the entry has. -/
theorem mem_envelopes_of_streamed {entry : LogEntry} {name : String} {ops : List Operation}
    (h : entry.call?.bind CallDetails.streamed? = some (name, ops)) {op : Operation}
    (hop : op ∈ ops) {a : Any} (ha : a ∈ op.envelopes) : a ∈ entry.envelopes := by
  obtain ⟨call, hcall, hs⟩ := Option.bind_eq_some_iff.mp h
  obtain ⟨details, hd, hc⟩ := Option.bind_eq_some_iff.mp hcall
  have hmem : a ∈ call.envelopes := by
    cases call <;> cases hs <;> exact List.mem_flatMap.mpr ⟨op, hop, ha⟩
  exact mem_envelopes.mpr (.inr ⟨details, hd, mem_flatMap_toList.mpr ⟨call, hc, hmem⟩⟩)

/-- There are lines on the responses of an entry where what is packed in it is sound. -/
theorem isOk_responseLines {entry : LogEntry} (h : ∀ a ∈ entry.envelopes, a.Sound) :
    entry.responseLines.isOk = true := by
  unfold responseLines
  split
  · rfl
  · next name ops hs =>
    rw [isOk_map, Operation.allLines, isOk_map, isOk_mapM, List.all_eq_true]
    intro op hop
    exact Operation.isOk_lines fun a ha => h a (mem_envelopes_of_streamed hs hop ha)

/-- An entry has a transcript just where what is packed in it is sound. -/
theorem transcript_iff (entry : LogEntry) :
    (∃ text, entry.transcript = .ok text) ↔ ∀ a ∈ entry.envelopes, a.Sound := by
  constructor
  · intro h
    obtain ⟨text, h⟩ := h
    refine (MessageType.logEntry.text_iff entry).mp ?_
    unfold transcript at h
    cases ht : MessageType.logEntry.text entry with
    | error e =>
      rw [ht] at h
      cases h
    | ok s => exact ⟨s, rfl⟩
  · intro h
    obtain ⟨text, ht⟩ := (MessageType.logEntry.text_iff entry).mpr h
    obtain ⟨lines, hl⟩ := isOk_iff.mp (isOk_responseLines h)
    unfold transcript
    rw [ht, hl]
    exact ⟨_, rfl⟩

end LogEntry

end CallTrace
