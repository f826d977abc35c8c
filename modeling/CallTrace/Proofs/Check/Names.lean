import CallTrace.Proofs.Check.Histories
import CallTrace.Proofs.Text.Numerals
import CallTrace.Proofs.Text.Segments

/-!
# Names of uploaded resources

The name of an uploaded resource ends in the hash and the size of a blob, with a slash between them.
A check asks for no more than this end. So the last segment of a name that it takes for the blob is
the size, and the segment before it ends in the hash but may be longer. Two blobs with hashes of one
length are never taken for each other.
-/

namespace CallTrace

namespace Target

variable {target a b : Target} {name : String}

/-- The decimal form of a size has no slash. -/
theorem slash_not_mem_repr (n : Nat) : '/' ∉ n.repr.toList := Text.not_mem_repr (by decide) n

theorem ends_iff :
    target.Ends name ↔ target.hash.toList ++ '/' :: target.size.repr.toList <:+ name.toList := by
  have hslash : "/".toList = ['/'] := rfl
  rw [Ends, String.toList_append, String.toList_append, hslash, List.append_assoc,
    List.singleton_append]

/-- In a name that the blob ends, the size is what stands behind the last slash. -/
theorem exists_front_of_ends (h : target.Ends name) :
    ∃ front, target.hash.toList <:+ front ∧
      name.toList = front ++ '/' :: target.size.repr.toList := by
  obtain ⟨front, hname⟩ := ends_iff.mp h
  refine ⟨front ++ target.hash.toList, List.suffix_append _ _, ?_⟩
  rw [List.append_assoc, hname]

/-- A name is that of the blob by its last two segments, of which the first may be longer. -/
theorem ends_iff_segments (hslash : '/' ∉ target.hash.toList) :
    target.Ends name ↔ ∃ init segment,
      Text.segments '/' name.toList = init ++ [segment, target.size.repr.toList] ∧
        target.hash.toList <:+ segment := by
  constructor
  · intro h
    obtain ⟨front, ⟨before, rfl⟩, hname⟩ := exists_front_of_ends h
    obtain ⟨init, last, hbefore⟩ := Text.exists_last_segment '/' before
    refine ⟨init, last ++ target.hash.toList, ?_, List.suffix_append _ _⟩
    rw [hname, Text.segments_append_separator,
      Text.segments_append hbefore (Text.segments_of_not_mem hslash),
      Text.segments_of_not_mem (slash_not_mem_repr _), List.append_assoc]
    rfl
  · intro h
    obtain ⟨init, segment, hsegments, ⟨before, rfl⟩⟩ := h
    have hend := Text.suffix_of_segments hsegments
    rw [List.append_assoc] at hend
    exact ends_iff.mpr ((List.suffix_append _ _).trans hend)

/-- Blobs with hashes of one length that end the same name are the same. -/
theorem parts_eq_of_ends (hlength : a.hash.length = b.hash.length) (ha : a.Ends name)
    (hb : b.Ends name) : a.hash = b.hash ∧ a.size = b.size := by
  obtain ⟨front, hfront, hname⟩ := exists_front_of_ends ha
  obtain ⟨front', hfront', hname'⟩ := exists_front_of_ends hb
  obtain ⟨rfl, hsize⟩ := Text.eq_of_append_separator (slash_not_mem_repr _)
    (slash_not_mem_repr _) (hname.symm.trans hname')
  have hlength' : a.hash.toList.length = b.hash.toList.length := by
    rw [String.length_toList, String.length_toList, hlength]
  have hhash := List.suffix_of_suffix_length_le hfront hfront' (Nat.le_of_eq hlength')
  exact ⟨String.toList_injective (hhash.eq_of_length hlength'),
    Text.eq_of_toList_repr hsize⟩

end Target

/--
Where its hash has no slash, a blob is taken to be uploaded just by the names with at least two
segments of which the last is the size and the one before it ends in the hash. So uploads of names
without such an end do not lead a check on.
-/
theorem Target.endsSome_iff_segments [KnownTypes] (target : Target)
    (hslash : '/' ∉ target.hash.toList) :
    (∀ names, target.endsSome names = true ↔ ∃ name ∈ names, ∃ init segment,
      Text.segments '/' name.toList = init ++ [segment, target.size.repr.toList] ∧
        target.hash.toList <:+ segment) ∧
    ∀ (s : Session) (entry : LogEntry), s.target = target → s.stage = .awaitUpload →
      (s.take entry).session.stage ≠ .awaitUpload →
        ∃ name ∈ entry.uploadedNames, ∃ init segment,
          Text.segments '/' name.toList = init ++ [segment, target.size.repr.toList] ∧
            target.hash.toList <:+ segment := by
  refine ⟨fun names => ?_, ?_⟩
  · rw [Target.endsSome_iff]
    exact exists_congr fun name => and_congr_right fun _ => ends_iff_segments hslash
  · rintro s entry rfl hs hleaves
    rcases s.stage_take entry with hstays | ⟨hleads, -, -⟩
    · exact absurd (hstays.trans hs) hleaves
    · rw [hs] at hleads
      obtain ⟨name, hm, hname⟩ := hleads.named
      exact ⟨name, hm, (ends_iff_segments hslash).mp hname⟩

attribute [local instance] KnownTypes.ofLogs in
theorem Target.endsSome_iff_segments_upload :
    let target : Target := ⟨"abc", 42, by decide⟩
    '/' ∉ target.hash.toList ∧
      target.endsSome ["blobs/abc/4", "uploads/1/blobs/abc/42"] = true := by
  intro target
  have hslash : '/' ∉ target.hash.toList := by decide
  refine ⟨hslash, ((target.endsSome_iff_segments hslash).1 _).mpr ⟨_, List.mem_cons_of_mem _
    (List.mem_singleton_self _), ["uploads".toList, "1".toList, "blobs".toList], "abc".toList, ?_⟩⟩
  exact ⟨by decide, List.suffix_refl _⟩

attribute [local instance] KnownTypes.ofLogs in
/-- An upload of a blob with a longer hash is taken for the upload of the blob. -/
theorem Target.endsSome_of_longer_hash :
    let target : Target := ⟨"abc", 42, by decide⟩
    let s : Session := { target := target, verbose := false, stage := .awaitUpload }
    Text.segments '/' "blobs/xabc/42".toList = ["blobs".toList, "xabc".toList, "42".toList] ∧
      target.endsSome ["blobs/xabc/42"] = true ∧
      (s.take (.ofUpload ["blobs/xabc/42"])).session.stage = .awaitExecute := by
  decide

/-- Blobs with hashes of one length that are taken to be uploaded under one name are the same. -/
theorem Target.eq_of_endsSome {a b : Target} {name : String}
    (hlength : a.hash.length = b.hash.length) (ha : a.endsSome [name] = true)
    (hb : b.endsSome [name] = true) : a.hash = b.hash ∧ a.size = b.size := by
  rw [Target.endsSome_iff] at ha hb
  obtain ⟨_, hm, hname⟩ := ha
  obtain ⟨_, hm', hname'⟩ := hb
  rw [List.mem_singleton.mp hm] at hname
  rw [List.mem_singleton.mp hm'] at hname'
  exact parts_eq_of_ends hlength hname hname'

theorem Target.eq_of_endsSome_slashes :
    let a : Target := ⟨"a/1", 2, by decide⟩
    a.endsSome ["a/1/2"] = true ∧ ∀ b : Target, b.hash.length = 3 → b.endsSome ["a/1/2"] = true →
      b.hash = "a/1" ∧ b.size = 2 := by
  intro a
  have ha : a.endsSome ["a/1/2"] = true := by decide
  have hthree : a.hash.length = 3 := by decide
  exact ⟨ha, fun b hb hends => Target.eq_of_endsSome (hb.trans hthree.symm) hends ha⟩

end CallTrace
