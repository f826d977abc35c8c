import CallTrace.Proofs.Wire.Numbers
import CallTrace.Wire.Field

/-!
# Fields behind which anything may stand

Each reader of the wire takes a run of bytes off the front of its input and
looks at nothing behind that run. So a field that was read once is read again
from its own bytes, wherever these stand. The shortest forms of tags, of numbers
and of runs behind their lengths are read back.
-/

namespace CallTrace.Wire

variable {α β : Type}

/-- A reader that takes a run of bytes off its input and looks at nothing behind it. -/
def SelfDelimiting (read : List UInt8 → Option (α × List UInt8)) : Prop :=
  ∀ bytes a rest, read bytes = some (a, rest) →
    ∃ used, bytes = used ++ rest ∧ ∀ rest', read (used ++ rest') = some (a, rest')

namespace SelfDelimiting

/-- What was read may be made into something else, or refused. -/
theorem filterMap {read : List UInt8 → Option (α × List UInt8)} (h : SelfDelimiting read)
    (f : α → Option β) :
    SelfDelimiting fun bytes => (read bytes).bind fun p => (f p.1).map fun b => (b, p.2) := by
  intro bytes b rest hb
  obtain ⟨⟨a, r⟩, ha, hf⟩ := Option.bind_eq_some_iff.mp hb
  obtain ⟨b', hb', he⟩ := Option.map_eq_some_iff.mp hf
  cases he
  obtain ⟨used, hused, hread⟩ := h bytes a _ ha
  refine ⟨used, hused, fun rest' => ?_⟩
  simp [hread, hb']

/-- What was read may say how to read on. -/
theorem bind {read : List UInt8 → Option (α × List UInt8)}
    {next : α → List UInt8 → Option (β × List UInt8)} (h : SelfDelimiting read)
    (hn : ∀ a, SelfDelimiting (next a)) :
    SelfDelimiting fun bytes => (read bytes).bind fun p => next p.1 p.2 := by
  intro bytes b rest hb
  obtain ⟨⟨a, r⟩, ha, hnext⟩ := Option.bind_eq_some_iff.mp hb
  obtain ⟨used, rfl, hread⟩ := h bytes a r ha
  obtain ⟨used', rfl, hread'⟩ := hn a r b rest hnext
  refine ⟨used ++ used', by rw [List.append_assoc], fun rest' => ?_⟩
  simp [List.append_assoc, hread, hread']

/-- What was read may be made into something else. -/
theorem map {read : List UInt8 → Option (α × List UInt8)} (h : SelfDelimiting read)
    (f : α → β) : SelfDelimiting fun bytes => (read bytes).map fun p => (f p.1, p.2) := by
  have hm := h.filterMap fun a => some (f a)
  intro bytes b rest hb
  have hf : ∀ bytes, (read bytes).map (fun p => (f p.1, p.2)) =
      (read bytes).bind fun p => (some (f p.1)).map fun b => (b, p.2) := by
    intro bytes
    cases read bytes <;> rfl
  simp only [hf] at hb ⊢
  exact hm bytes b rest hb

end SelfDelimiting

theorem selfDelimiting_number (limit : Nat) : SelfDelimiting (Varint.read? limit) := by
  intro bytes n rest h
  unfold Varint.read? at h
  split at h
  · next m r hs =>
    cases h
    obtain ⟨form, hform, hscan⟩ := Varint.exists_form_of_scan hs
    refine ⟨form, hform, fun rest' => ?_⟩
    rw [Varint.read?, hscan]
  · cases h

/-- A run of exactly so many bytes, with anything behind it. -/
theorem take?_append (run rest : List UInt8) :
    take? run.length (run ++ rest) = some (run, rest) := by
  unfold take?
  rw [if_pos (by simp), List.take_left, List.drop_left]

theorem selfDelimiting_take? (n : Nat) : SelfDelimiting (take? n) := by
  intro bytes run rest h
  unfold take? at h
  split at h
  · next hn =>
    cases h
    refine ⟨bytes.take n, (List.take_append_drop n bytes).symm, fun rest' => ?_⟩
    have hlength : (bytes.take n).length = n := by
      rw [List.length_take]
      omega
    have ht := take?_append (bytes.take n) rest'
    rwa [hlength] at ht
  · cases h

theorem Tag.selfDelimiting_read? : SelfDelimiting Tag.read? := by
  have h := (selfDelimiting_number 5).filterMap fun word =>
    (Kind.ofCode? (word % 8)).bind fun kind =>
      if word < UInt32.size then some (⟨word / 8, kind⟩ : Tag) else none
  have he : Tag.read? = fun bytes => (Varint.read? 5 bytes).bind fun p =>
      ((Kind.ofCode? (p.1 % 8)).bind fun kind =>
        if p.1 < UInt32.size then some (⟨p.1 / 8, kind⟩ : Tag) else none).map
          fun t => (t, p.2) := by
    funext bytes
    unfold Tag.read?
    cases Varint.read? 5 bytes with
    | none => rfl
    | some p =>
      cases hk : Kind.ofCode? (p.1 % 8) with
      | none => simp [hk]
      | some kind => by_cases hw : p.1 < UInt32.size <;> simp [hk, hw]
  rw [he]
  exact h

/-- A length is read where a form of it stands in front that takes no more bytes than it may. -/
theorem readLength?_eq_some_iff {n : Nat} {bytes rest : List UInt8} :
    readLength? bytes = some (n, rest) ↔
      ∃ form, bytes = form ++ rest ∧ Varint.IsForm form ∧ Varint.value form = n ∧
        (form.length ≤ lengthBytes ∨ 128 ^ lengthBytes ≤ n) := by
  have hread : Varint.read? bytes.length bytes = some (n, rest) ↔
      Varint.scan bytes.length bytes = .value n rest := by
    unfold Varint.read?
    cases Varint.scan bytes.length bytes <;> simp
  rw [readLength?, Option.filter_eq_some_iff, hread, Varint.scan_eq_value_iff]
  simp only [Bool.or_eq_true, decide_eq_true_eq]
  constructor
  · rintro ⟨⟨form, rfl, hform, -, hn⟩, hlength⟩
    rw [List.length_append, Nat.add_sub_cancel] at hlength
    exact ⟨form, rfl, hform, hn, hlength⟩
  · rintro ⟨form, rfl, hform, hn, hlength⟩
    rw [List.length_append, Nat.add_sub_cancel]
    exact ⟨⟨form, rfl, hform, Nat.le_add_right _ _, hn⟩, hlength⟩

theorem selfDelimiting_readLength? : SelfDelimiting readLength? := by
  intro bytes n rest h
  obtain ⟨form, hbytes, hform, hn, hlength⟩ := readLength?_eq_some_iff.mp h
  exact ⟨form, hbytes, fun rest' => readLength?_eq_some_iff.mpr ⟨form, rfl, hform, hn, hlength⟩⟩

/-- The shortest form of a length is one that a length may have. -/
theorem readLength?_encode (n : Nat) (rest : List UInt8) :
    readLength? (Varint.encode n ++ rest) = some (n, rest) := by
  obtain ⟨hform, hvalue⟩ := Varint.encode_isForm n
  refine readLength?_eq_some_iff.mpr ⟨_, rfl, hform, hvalue, ?_⟩
  rcases Nat.lt_or_ge n (128 ^ lengthBytes) with hlt | hge
  · exact .inl (Varint.length_encode_le_iff.mpr hlt)
  · exact .inr hge

/-- In an input that five bytes can measure, no length takes more than five bytes. -/
theorem takeDelimited?_of_short {bytes : List UInt8} (h : bytes.length < 128 ^ lengthBytes) :
    takeDelimited? bytes =
      (Varint.read? lengthBytes bytes).bind fun (length, rest) => take? length rest := by
  have hread : ∀ n rest, Varint.read? lengthBytes bytes = some (n, rest) ↔
      ∃ form, bytes = form ++ rest ∧ Varint.IsForm form ∧ form.length ≤ lengthBytes ∧
        Varint.value form = n := by
    intro n rest
    rw [← Varint.scan_eq_value_iff]
    unfold Varint.read?
    cases Varint.scan lengthBytes bytes <;> simp
  refine Option.ext fun r => ?_
  simp only [takeDelimited?, Option.bind_eq_bind, Option.bind_eq_some_iff, Prod.exists]
  refine exists₂_congr fun n rest => and_congr_left fun ht => ?_
  rw [hread, readLength?_eq_some_iff]
  refine exists_congr fun form => ⟨?_, ?_⟩
  · rintro ⟨rfl, hform, hn, hlength⟩
    refine ⟨rfl, hform, hlength.resolve_right fun hlarge => ?_, hn⟩
    -- A length that needs more than five bytes leads beyond the end of the input.
    unfold take? at ht
    split at ht
    · next hle =>
      rw [List.length_append] at h
      omega
    · cases ht
  · rintro ⟨rfl, hform, hlength, hn⟩
    exact ⟨rfl, hform, hn, .inl hlength⟩

theorem selfDelimiting_takeDelimited? : SelfDelimiting takeDelimited? :=
  selfDelimiting_readLength?.bind selfDelimiting_take?

theorem selfDelimiting_payload? (kind : Kind) : SelfDelimiting (payload? kind) := by
  cases kind with
  | varint => exact (selfDelimiting_number 10).map fun n => Payload.varint (UInt64.ofNat n)
  | delimited => exact selfDelimiting_takeDelimited?.map Payload.delimited
  | fixed64 => exact (selfDelimiting_take? 8).map fun _ => Payload.other
  | fixed32 => exact (selfDelimiting_take? 4).map fun _ => Payload.other
  | groupStart => exact fun _ _ _ h => by cases h
  | groupEnd => exact fun _ _ _ h => by cases h

section Groups

variable {room innermost : Nat} {outer : List Nat} {bytes rest : List UInt8} {tag : Tag}

/-- A tag that closes the innermost group. -/
theorem skipGroups?_of_close (ht : Tag.read? bytes = some (tag, rest)) (hk : tag.kind = .groupEnd)
    (hn : tag.number = innermost) :
    skipGroups? room (innermost :: outer) bytes = skipGroups? room outer rest := by
  rw [skipGroups?]
  split <;> simp_all

/-- A tag that opens one more group. -/
theorem skipGroups?_of_open (ht : Tag.read? bytes = some (tag, rest)) (hk : tag.kind = .groupStart)
    (hr : (innermost :: outer).length < room) :
    skipGroups? room (innermost :: outer) bytes =
      skipGroups? room (tag.number :: innermost :: outer) rest := by
  rw [skipGroups?]
  split <;> simp_all

/-- A field within the innermost group. -/
theorem skipGroups?_of_field {payload : Payload} {rest' : List UInt8}
    (ht : Tag.read? bytes = some (tag, rest))
    (hp : payload? tag.kind rest = some (payload, rest')) :
    skipGroups? room (innermost :: outer) bytes = skipGroups? room (innermost :: outer) rest' := by
  rw [skipGroups?]
  split
  · simp_all
  · next tag' r ht' =>
    cases ht.symm.trans ht'
    split
    · next hk => rw [hk] at hp; cases hp
    · next hk => rw [hk] at hp; cases hp
    · split
      · simp_all
      · simp_all

end Groups

/-- Groups end at the tag that closes the outermost one, whatever stands behind it. -/
theorem exists_used_of_skipGroups? {room : Nat} {groups : List Nat} {bytes rest : List UInt8}
    (h : skipGroups? room groups bytes = some rest) :
    ∃ used, bytes = used ++ rest ∧
      ∀ rest', skipGroups? room groups (used ++ rest') = some rest' := by
  fun_induction skipGroups? room groups bytes with
  | case1 bytes =>
    cases h
    exact ⟨[], rfl, fun rest' => by rw [List.nil_append, skipGroups?]⟩
  | case2 => cases h
  | case3 bytes outer tag r ht hk ih =>
    obtain ⟨used, rfl, hread⟩ := Tag.selfDelimiting_read? _ _ _ ht
    obtain ⟨used', rfl, hskip⟩ := ih h
    refine ⟨used ++ used', by rw [List.append_assoc], fun rest' => ?_⟩
    rw [List.append_assoc, skipGroups?_of_close (hread _) hk rfl, hskip]
  | case4 => cases h
  | case5 bytes innermost outer tag r ht hk hr ih =>
    obtain ⟨used, rfl, hread⟩ := Tag.selfDelimiting_read? _ _ _ ht
    obtain ⟨used', rfl, hskip⟩ := ih h
    refine ⟨used ++ used', by rw [List.append_assoc], fun rest' => ?_⟩
    rw [List.append_assoc, skipGroups?_of_open (hread _) hk hr, hskip]
  | case6 => cases h
  | case7 => cases h
  | case8 bytes innermost outer tag r ht hk hk' payload r' hp ih =>
    obtain ⟨used, rfl, hread⟩ := Tag.selfDelimiting_read? _ _ _ ht
    obtain ⟨used', rfl, hpayload⟩ := selfDelimiting_payload? _ _ _ _ hp
    obtain ⟨used'', rfl, hskip⟩ := ih h
    refine ⟨used ++ (used' ++ used''), by simp only [List.append_assoc], fun rest' => ?_⟩
    rw [List.append_assoc, List.append_assoc, skipGroups?_of_field (hread _) (hpayload _), hskip]

theorem Tag.selfDelimiting_payload? (tag : Tag) (room : Nat) :
    SelfDelimiting (tag.payload? room) := by
  intro bytes payload rest h
  unfold Tag.payload? at h
  split at h
  · next hk =>
    split at h
    · cases h
    · next hr =>
      obtain ⟨r, hs, he⟩ := Option.map_eq_some_iff.mp h
      cases he
      obtain ⟨used, hused, hskip⟩ := exists_used_of_skipGroups? hs
      refine ⟨used, hused, fun rest' => ?_⟩
      simp only [Tag.payload?, hk, if_neg hr, hskip, Option.map_some]
  · next hk =>
    obtain ⟨used, hused, hread⟩ := Wire.selfDelimiting_payload? _ _ _ _ h
    refine ⟨used, hused, fun rest' => ?_⟩
    unfold Tag.payload?
    split
    · next hk' => exact absurd hk' hk
    · exact hread rest'

/-- A field is a tag and the payload behind it. -/
theorem Field.read?_of_parts {room : Nat} {bytes body rest : List UInt8} {tag : Tag}
    {payload : Payload} (ht : Tag.read? bytes = some (tag, body))
    (hp : tag.payload? room body = some (payload, rest)) :
    Field.read? room bytes =
      some (⟨tag.number, payload, bytes.take (bytes.length - rest.length)⟩, rest) := by
  simp only [Field.read?, ht, Option.bind_eq_bind, Option.bind_some, hp]

/-- The bytes of a field are all that was looked at to read it. -/
theorem Field.read?_verbatim {room : Nat} {bytes rest : List UInt8} {field : Field}
    (h : Field.read? room bytes = some (field, rest)) :
    bytes = field.verbatim ++ rest ∧
      ∀ rest', Field.read? room (field.verbatim ++ rest') = some (field, rest') := by
  simp only [Field.read?, Option.bind_eq_bind, Option.bind_eq_some_iff] at h
  obtain ⟨⟨tag, body⟩, ht, ⟨payload, r⟩, hp, h⟩ := h
  cases h
  obtain ⟨used, rfl, hread⟩ := Tag.selfDelimiting_read? _ _ _ ht
  obtain ⟨used', rfl, hpayload⟩ := tag.selfDelimiting_payload? room _ _ _ hp
  have hverbatim : ∀ rest : List UInt8,
      (used ++ (used' ++ rest)).take ((used ++ (used' ++ rest)).length - rest.length) =
        used ++ used' := by
    intro rest
    rw [← List.append_assoc, List.length_append, Nat.add_sub_cancel, List.take_left]
  simp only [hverbatim]
  refine ⟨by rw [List.append_assoc], fun rest' => ?_⟩
  rw [List.append_assoc, Field.read?_of_parts (hread _) (hpayload _), hverbatim]

theorem Tag.read?_encode {number : Nat} (h : number < 2 ^ 29) (kind : Kind) (rest : List UInt8) :
    Tag.read? (Tag.encode number kind ++ rest) = some (⟨number, kind⟩, rest) := by
  have hc : kind.code < 8 := by cases kind <;> decide
  have hw : 8 * number + kind.code < UInt32.size := by
    unfold UInt32.size
    omega
  have hread := Varint.read?_encode 4 (Nat.lt_trans hw (by decide)) rest
  have hmod : (8 * number + kind.code) % 8 = kind.code := by omega
  have hdiv : (8 * number + kind.code) / 8 = number := by omega
  simp [Tag.read?, Tag.encode, hread, hmod, hdiv, hw, Kind.ofCode?_code]

theorem takeDelimited?_delimit (run rest : List UInt8) :
    takeDelimited? (Varint.encode run.length ++ run ++ rest) = some (run, rest) := by
  have hread := readLength?_encode run.length (run ++ rest)
  simp [takeDelimited?, hread, take?_append]

/-- A number behind its tag is a field. -/
theorem Field.read?_number {number : Nat} (h : number < 2 ^ 29) (room : Nat) (word : UInt64)
    (rest : List UInt8) :
    ∃ verbatim, Field.read? room
      (Tag.encode number .varint ++ Varint.encode word.toNat ++ rest) =
        some (⟨number, .varint word, verbatim⟩, rest) := by
  have hw : word.toNat < 128 ^ 10 := Nat.lt_trans word.toNat_lt (by decide)
  have ht := Tag.read?_encode h .varint (Varint.encode word.toNat ++ rest)
  have hp : Tag.payload? ⟨number, .varint⟩ room (Varint.encode word.toNat ++ rest) =
      some (.varint word, rest) := by
    have hn := Varint.read?_encode 9 hw rest
    simp [Tag.payload?, payload?, hn]
  rw [List.append_assoc, Field.read?_of_parts ht hp]
  exact ⟨_, rfl⟩

/-- A run behind its tag and its length is a field. -/
theorem Field.read?_run {number : Nat} (h : number < 2 ^ 29) (room : Nat)
    (run rest : List UInt8) :
    ∃ verbatim, Field.read? room
      (Tag.encode number .delimited ++ (Varint.encode run.length ++ run) ++ rest) =
        some (⟨number, .delimited run, verbatim⟩, rest) := by
  have ht := Tag.read?_encode h .delimited (Varint.encode run.length ++ run ++ rest)
  have hp : Tag.payload? ⟨number, .delimited⟩ room (Varint.encode run.length ++ run ++ rest) =
      some (.delimited run, rest) := by
    simp only [Tag.payload?, payload?, takeDelimited?_delimit, Option.map_some]
  rw [List.append_assoc, Field.read?_of_parts ht hp]
  exact ⟨_, rfl⟩

end CallTrace.Wire
