import CallTrace.Proofs.Check.OutputModes
import CallTrace.Proofs.Message.Rulers

/-!
# Rulers in the transcript of an entry

The transcript of an entry is the text of its fields, with lines on what its operations came to
behind it. All that a record holds is escaped before it is shown, but for the URLs of envelopes:
those that stand in headers, and that of a response which is refused. So the transcript holds a
line that reads like a ruler just where such a URL does.
-/

namespace CallTrace

/-- The response of the operation is refused in words that quote its URL. -/
def Operation.Refuses (op : Operation) (url : String) : Prop :=
  op.conclude .executeResponse = .error (.mistyped url MessageType.executeResponse.fullName)

/-- Texts that are joined and ended by line feeds are texts with a line feed behind each. -/
theorem intercalate_append_newline (text : String) (lines : List String) :
    "\n".intercalate (text :: lines) ++ "\n" =
      text ++ "\n" ++ String.join (lines.map (· ++ "\n")) := by
  induction lines generalizing text with
  | nil => rw [String.intercalate_singleton, List.map_nil, String.join_nil, String.append_empty]
  | cons line lines ih =>
    rw [String.intercalate_cons_cons, String.append_assoc, ih, List.map_cons, String.join_cons]

theorem join_line (line : String) : String.join ([line].map (· ++ "\n")) = line ++ "\n" := by
  rw [List.map_singleton, String.join_cons, String.join_nil, String.append_empty]

/-! ### Responses that cannot be had -/

theorem Fault.newline_not_mem_description (fault : Fault) : '\n' ∉ fault.description.toList := by
  cases fault <;> decide

theorem DecodeError.newline_not_mem_message {e : DecodeError} (h : '\n' ∉ e.typeName.toList) :
    '\n' ∉ e.message.toList := by
  unfold message
  simp [h, Fault.newline_not_mem_description]

/-- The words for a response with other bytes quote nothing of it. -/
theorem ResponseError.addsRulers_invalid {e : DecodeError} (h : '\n' ∉ e.typeName.toList) :
    Text.AddsRulers ("Could not extract ExecuteResponse: " ++ (invalid e).message ++ "\n") 0 := by
  have hmessage : (invalid e).message =
      "Operation response is not a valid " ++ e.typeName ++ ": " ++ e.message := rfl
  refine Text.addsRulers_line (c := 'C') ?_ (by simp) (by decide)
  simp [hmessage, h, e.newline_not_mem_message h]

/-- The words for a response under another URL quote the URL. -/
theorem ResponseError.addsRulers_mistyped {expected : String} (h : '\n' ∉ expected.toList)
    (url : String) :
    Text.AddsRulers
      ("Could not extract ExecuteResponse: " ++ (mistyped url expected).message ++ "\n")
      (Text.innerRulers url.toList) := by
  have hfront : '\n' ∉
      ("Could not extract ExecuteResponse: " ++ "Operation response holds '").toList := by decide
  have hback : '\n' ∉ ("', expected " ++ expected).toList := by simp [h]
  have hline := Text.addsRulers_quoted (c := 'C') url hfront (by decide) (by decide) hback
    ⟨'\'', _, String.toList_append, by decide⟩
  unfold message
  simp only [String.append_assoc] at hline ⊢
  exact hline

/-- A message cannot be had because of the URL of its envelope, or because of its bytes. -/
theorem Any.error_of_unpackAs {a : Any} {t : MessageType} {e : ResponseError}
    (h : a.unpackAs t = .error e) :
    e = .mistyped a.typeUrl t.fullName ∨ ∃ fault, e = .invalid ⟨t.fullName, fault⟩ := by
  unfold unpackAs at h
  split at h
  · unfold MessageType.decode at h
    cases hd : t.layout.decode a.value with
    | error fault =>
      rw [hd] at h
      cases h
      exact .inr ⟨fault, rfl⟩
    | ok m =>
      rw [hd] at h
      cases h
  · cases h
    exact .inl rfl

/-- What an operation came to cannot be had because its response cannot. -/
theorem Operation.unpackAs_of_conclude {op : Operation} {t : MessageType} {e : ResponseError}
    (h : op.conclude t = .error e) :
    ∃ packed, op.result = some (.response packed) ∧ packed.unpackAs t = .error e := by
  unfold conclude at h
  split at h
  · rcases hr : op.result with _ | ⟨status | packed⟩
    · rw [hr] at h
      cases h
    · rw [hr] at h
      cases h
    · refine ⟨packed, rfl, ?_⟩
      rw [hr, concludeResult] at h
      cases hu : packed.unpackAs t with
      | error e' =>
        rw [hu] at h
        cases h
        rfl
      | ok m =>
        rw [hu] at h
        cases h
  · cases h

/-! ### Operations that are streamed -/

namespace LogEntry

variable {entry : LogEntry} {name : String} {ops : List Operation}

/-- The line above the responses names a kind of call, behind an empty line. -/
theorem addsRulers_responsesLine (hs : entry.call?.bind CallDetails.streamed? = some (name, ops)) :
    Text.AddsRulers ("\nAttempted to extract ExecuteResponse from streaming " ++ name ++
      " call responses:" ++ "\n") 0 := by
  have hname : '\n' ∉ name.toList := by
    obtain ⟨call, -, hcall⟩ := Option.bind_eq_some_iff.mp hs
    cases call <;> cases hcall <;> decide
  have hwords : "\nAttempted to extract ExecuteResponse from streaming " =
      "\n" ++ "Attempted to extract ExecuteResponse from streaming " := by decide
  have hline := Text.addsRulers_newline.append (Text.addsRulers_line (c := 'A')
    (s := "Attempted to extract ExecuteResponse from streaming " ++ name ++ " call responses:")
    (by simp [hname]) (by simp) (by decide))
  rw [hwords]
  simp only [String.append_assoc] at hline ⊢
  exact hline

/-- The operations of an execution are streamed. -/
theorem exists_streamed_of_mem_executions {op : Operation} (h : op ∈ entry.executions) :
    ∃ ops, entry.call?.bind CallDetails.streamed? = some ("Execute", ops) ∧ op ∈ ops := by
  unfold executions at h
  cases hc : entry.call? with
  | none =>
    rw [hc] at h
    cases h
  | some call =>
    rw [hc] at h
    cases call <;> first | exact ⟨_, rfl, h⟩ | cases h

end LogEntry

/-! ### What the transcript shows -/

variable [KnownTypes]

/-- No URL that the lines on the operation show holds a ruler. -/
def Operation.Clear (op : Operation) : Prop :=
  (∀ url, op.Refuses url → ¬ Text.HoldsRuler url.toList) ∧
    ∀ c, op.conclude .executeResponse = .ok c → ∀ a ∈ c.envelopes, a.Clear

/-- The URL stands as it is in what is shown of the entry. -/
def LogEntry.Shows (entry : LogEntry) (url : String) : Prop :=
  (∃ a ∈ entry.envelopes, a.Shows url) ∨
    ∃ name ops, entry.call?.bind CallDetails.streamed? = some (name, ops) ∧
      ∃ op ∈ ops, op.Refuses url

/-- No URL that the entry shows holds a ruler. -/
def LogEntry.Clear (entry : LogEntry) : Prop :=
  ∀ url, entry.Shows url → ¬ Text.HoldsRuler url.toList

/-! ### What an operation came to -/

/-- The lines on what an operation came to are clear where what is packed in it is. -/
theorem Conclusion.clearIff_lines {t : MessageType} {label errorLabel : String}
    {c : Conclusion t} {lines : List String} (hl : '\n' ∉ label.toList)
    (he : '\n' ∉ errorLabel.toList) (h : c.lines label errorLabel = .ok lines) :
    Text.ClearIff (String.join (lines.map (· ++ "\n"))) (∀ a ∈ c.envelopes, a.Clear) := by
  cases c with
  | success payload =>
    obtain ⟨text, ht, rfl⟩ := map_eq_ok_iff.mp h
    have hfirst : Text.AddsRulers (label ++ " extracted:" ++ "\n") 0 :=
      Text.addsRulers_line (c := ':') (by simp [hl]) (by simp) (by decide)
    have hall := (Text.ClearIff.of_addsRulers hfirst).append
      (MessageType.clearIff_text ht).newline
    simpa [String.join_cons, String.join_nil, Conclusion.envelopes] using hall
  | failure status =>
    obtain ⟨text, ht, rfl⟩ := map_eq_ok_iff.mp h
    have hlabel : '\n' ∉ (errorLabel ++ " contained error: ").toList := by simp [he]
    have hline := MessageType.clearIff_lineText (c := ':') ht hlabel (by simp) (by decide)
    simpa [String.join_cons, String.join_nil, Conclusion.envelopes, MessageType.envelopes]
      using hline
  | pending =>
    cases h
    exact (Text.ClearIff.of_addsRulers Text.addsRulers_empty).congr
      (iff_of_true trivial (List.forall_mem_nil _))

namespace Operation

variable {op : Operation} {lines : List String}

/-- The lines on an operation are clear where the URLs that they show are. -/
theorem clearIff_lines (h : op.lines = .ok lines) :
    Text.ClearIff (String.join (lines.map (· ++ "\n"))) op.Clear := by
  have hname : '\n' ∉ MessageType.executeResponse.fullName.toList := by decide
  unfold Operation.lines at h
  cases hc : op.conclude .executeResponse with
  | ok c =>
    rw [hc] at h
    exact (Conclusion.clearIff_lines (by decide) (by decide) h).congr (by simp [Clear, Refuses, hc])
  | error e =>
    rw [hc] at h
    cases h
    rw [join_line]
    obtain ⟨packed, -, hpacked⟩ := unpackAs_of_conclude hc
    rcases Any.error_of_unpackAs hpacked with rfl | ⟨fault, rfl⟩
    · have hclear : Text.ClearIff _ (¬ Text.HoldsRuler packed.typeUrl.toList) :=
        ⟨_, ResponseError.addsRulers_mistyped hname _, Text.innerRulers_eq_zero_iff _⟩
      exact hclear.congr (by simp [Clear, Refuses, hc])
    · have hclear := Text.ClearIff.of_addsRulers (ResponseError.addsRulers_invalid
        (e := ⟨MessageType.executeResponse.fullName, fault⟩) hname)
      exact hclear.congr (by simp [Clear, Refuses, hc])

theorem allLines_cons {op : Operation} {ops : List Operation}
    (h : allLines (op :: ops) = .ok lines) :
    ∃ first rest, op.lines = .ok first ∧ allLines ops = .ok rest ∧ lines = first ++ rest := by
  obtain ⟨all, hall, rfl⟩ := map_eq_ok_iff.mp h
  rw [List.mapM_cons] at hall
  obtain ⟨first, hfirst, htail⟩ := bind_eq_ok_iff.mp hall
  obtain ⟨rest, hrest, hcons⟩ := bind_eq_ok_iff.mp htail
  cases hcons
  exact ⟨first, rest.flatten, hfirst, map_eq_ok_iff.mpr ⟨rest, hrest, rfl⟩, List.flatten_cons⟩

/-- The lines on operations are clear where the operations are. -/
theorem clearIff_allLines {ops : List Operation} (h : allLines ops = .ok lines) :
    Text.ClearIff (String.join (lines.map (· ++ "\n"))) (∀ op ∈ ops, op.Clear) := by
  induction ops generalizing lines with
  | nil =>
    cases h
    exact (Text.ClearIff.of_addsRulers Text.addsRulers_empty).congr
      (iff_of_true trivial (List.forall_mem_nil _))
  | cons op ops ih =>
    obtain ⟨first, rest, hfirst, hrest, rfl⟩ := allLines_cons h
    rw [List.map_append, String.join_append]
    exact ((clearIff_lines hfirst).append (ih hrest)).congr List.forall_mem_cons.symm

/-- What an operation came to shows no URL but those that the operation shows. -/
theorem shows_of_conclude {c : Conclusion .executeResponse}
    (hc : op.conclude .executeResponse = .ok c) {a : Any} (ha : a ∈ c.envelopes) {url : String}
    (h : a.Shows url) : ∃ b ∈ op.envelopes, b.Shows url := by
  rcases mem_envelopes_of_conclude hc ha with hop | ⟨packed, hp, ht, response, hm, hin⟩
  · exact ⟨a, hop, h⟩
  · exact ⟨packed, hp, .packed (Any.contents?_of_decode ht hm) hin h⟩

end Operation

/-! ### Entries -/

namespace LogEntry

variable {entry : LogEntry} {name : String} {ops : List Operation}

/-- What the operations of an entry came to is clear where the entry is. -/
theorem Clear.of_conclude (h : entry.Clear)
    (hs : entry.call?.bind CallDetails.streamed? = some (name, ops)) {op : Operation}
    (hop : op ∈ ops) {c : Conclusion .executeResponse} (hc : op.conclude .executeResponse = .ok c) :
    ∀ a ∈ c.envelopes, a.Clear := by
  intro a ha url hurl
  obtain ⟨b, hb, hshows⟩ := Operation.shows_of_conclude hc ha hurl
  exact h url (.inl ⟨b, mem_envelopes_of_streamed hs hop hb, hshows⟩)

/-- The lines on the responses of an entry are clear where its operations are. -/
theorem clearIff_responseLines {lines : List String} (h : entry.responseLines = .ok lines) :
    Text.ClearIff (String.join (lines.map (· ++ "\n")))
      (∀ name ops, entry.call?.bind CallDetails.streamed? = some (name, ops) →
        ∀ op ∈ ops, op.Clear) := by
  unfold responseLines at h
  cases hs : entry.call?.bind CallDetails.streamed? with
  | none =>
    rw [hs] at h
    cases h
    exact (Text.ClearIff.of_addsRulers Text.addsRulers_empty).congr
      (iff_of_true trivial fun _ _ h => nomatch h)
  | some call =>
    obtain ⟨name, ops⟩ := call
    simp only [hs] at h
    obtain ⟨rest, hl, rfl⟩ := map_eq_ok_iff.mp h
    rw [List.map_cons, String.join_cons]
    have hhead := Text.ClearIff.of_addsRulers (addsRulers_responsesLine hs)
    exact (hhead.append (Operation.clearIff_allLines hl)).congr (by simp)

/-- An entry is clear where the packed messages that it shows are and its operations are. -/
theorem clear_iff : entry.Clear ↔ (∀ a ∈ entry.envelopes, a.Clear) ∧
    ∀ name ops, entry.call?.bind CallDetails.streamed? = some (name, ops) →
      ∀ op ∈ ops, op.Clear := by
  constructor
  · intro h
    exact ⟨fun a ha url hurl => h url (.inl ⟨a, ha, hurl⟩), fun name ops hs op hop =>
      ⟨fun url hurl => h url (.inr ⟨name, ops, hs, op, hop, hurl⟩),
        fun c hc => h.of_conclude hs hop hc⟩⟩
  · rintro ⟨henvelopes, hresponses⟩ url (⟨a, ha, hurl⟩ | ⟨name, ops, hs, op, hop, hurl⟩)
    · exact henvelopes a ha url hurl
    · exact (hresponses name ops hs op hop).1 url hurl

/-- The transcript of an entry has no ruler just where the URLs that it shows hold none. -/
theorem clearIff_transcript {text : String} (h : entry.transcript = .ok text) :
    Text.ClearIff text entry.Clear := by
  obtain ⟨first, ht, hrest⟩ := bind_eq_ok_iff.mp h
  obtain ⟨lines, hl, hjoined⟩ := bind_eq_ok_iff.mp hrest
  cases hjoined
  rw [intercalate_append_newline]
  exact ((MessageType.clearIff_text ht).newline.append (clearIff_responseLines hl)).congr
    clear_iff.symm

end LogEntry

end CallTrace
