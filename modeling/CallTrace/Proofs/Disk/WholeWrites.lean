import CallTrace.Proofs.Disk.Rewriting
import CallTrace.Proofs.Json.Written

/-!
# What the writing of a file leaves

Making the directories of a path adds directories to the disk, each at the end of the path or of a
path above it, and nothing else. So a file that is written below its directories has all of its
content; or it could not be opened, and the disk has the files that it had before, each with the
content that it had before; or it was opened, and holds no more than was written before a failure.
-/

namespace CallTrace

/-- A path is passed through on the way of another, or is where that way ends. -/
def Path.UpTo (above p : Path) : Prop := above = p ∨ above.IsAbove p

theorem Path.UpTo.isAbove {above p : Path} (hn : p.names ≠ []) (h : above.UpTo p.parent) :
    above.IsAbove p := by
  rcases h with rfl | h
  · exact isAbove_parent hn
  · exact h.trans (isAbove_parent hn)

theorem Path.UpTo.of_parent {above p : Path} (h : above.UpTo p.parent) : above.UpTo p := by
  by_cases hn : p.names = []
  · rwa [parent_of_names_eq_nil hn] at h
  · exact .inr (h.isAbove hn)

/-- What keeps a disk from being asked for a path stands in the text of all paths behind it. -/
theorem Path.UpTo.text_subset {above p : Path} (h : above.UpTo p) (hnot : ¬ above.Usable) :
    above.text ⊆ p.text := by
  rcases h with rfl | h
  · exact List.Subset.refl _
  · have hn : above.names ≠ [] := mt usable_of_names_eq_nil hnot
    obtain ⟨rest, htext⟩ := h.text_eq hn
    rw [htext]
    exact List.subset_append_left _ _

namespace FileSystem

variable {fs fs' fs'' : FileSystem} {p : Path} {place : Location}

/-- All of a disk stands on the other, which has more directories on the way of a path. -/
structure GrowsTo (fs : FileSystem) (p : Path) (fs' : FileSystem) : Prop where
  /-- Nothing is taken away. -/
  within : fs.Within fs'
  /-- What is new is on the way. -/
  added : ∀ q entry, fs.lookup q = none → fs'.lookup q = some entry →
    ∃ above : Path, above.UpTo p ∧ fs'.locate true above = .ok q

namespace GrowsTo

theorem refl (fs : FileSystem) (p : Path) : fs.GrowsTo p fs where
  within := .refl fs
  added q entry hnone hq := by cases hnone.symm.trans hq

theorem trans (h : fs.GrowsTo p fs') (h' : fs'.GrowsTo p fs'') : fs.GrowsTo p fs'' where
  within := h.within.trans h'.within
  added q entry hnone hq := by
    cases hmiddle : fs'.lookup q with
    | none => exact h'.added q entry hmiddle hq
    | some first =>
      obtain ⟨above, hup, hlocate⟩ := h.added q first hnone hmiddle
      exact ⟨above, hup, h'.within.keeps.locate_of_ok hlocate⟩

theorem of_parent (hn : p.names ≠ []) (h : fs.GrowsTo p.parent fs') : fs.GrowsTo p fs' where
  within := h.within
  added q entry hnone hq := by
    obtain ⟨above, hup, hlocate⟩ := h.added q entry hnone hq
    exact ⟨above, .inr (hup.isAbove hn), hlocate⟩

end GrowsTo

theorem growsTo_put {fewer : Nat} (husable : p.Usable)
    (hp : fs.follow false p = .ok (place, fewer)) (h : fs.lookup place = none) :
    fs.GrowsTo p (fs.put place .directory) where
  within := within_put h
  added q entry hnone hq := by
    rw [lookup_put (ne_directory_of_vacant h)] at hq
    split at hq
    · next hsame =>
      have hlocate : fs.locate true p = .ok place := by
        rw [locate_of_usable husable, follow_true_of_vacant hp h]
      rw [hsame]
      exact ⟨p, .inl rfl, (within_put h).keeps.locate_of_ok hlocate⟩
    · cases hnone.symm.trans hq

theorem growsTo_ensured (fs : FileSystem) (p : Path) : fs.GrowsTo p (fs.ensured p).2 := by
  rw [ensured]
  by_cases husable : p.Usable
  · cases fs.ensuring husable with
    | there h _ =>
      rw [h]
      exact .refl fs p
    | made h hp hl =>
      rw [h]
      exact growsTo_put husable hp hl
    | missing h _ =>
      rw [h]
      exact .refl fs p
    | blocked h _ _ _ =>
      rw [h]
      exact .refl fs p
  · obtain ⟨e, -, hrefused⟩ := ensureDirectory_of_not_usable husable
    rw [hrefused]
    exact .refl fs p

/-- Making all directories of a path adds directories on its way, and nothing else. -/
theorem growsTo_ensureDirectories (fs : FileSystem) (p : Path) :
    fs.GrowsTo p (fs.ensureDirectories p).2 := by
  -- By induction on the number of names; what is above comes first, and stays if the rest fails.
  induction hlength : p.names.length using Nat.strongRecOn generalizing p with
  | _ length ih =>
    by_cases hp : fs.Missing p
    · have hn := hp.names_ne_nil
      have hparent := (ih _ (hlength ▸ Path.length_parent_lt hn) p.parent rfl).of_parent hn
      rcases hresult : fs.ensureDirectories p.parent with ⟨e | _, fs'⟩
      · rw [hresult] at hparent
        rw [ensureDirectories_of_unmade hp hresult]
        exact hparent
      · rw [hresult] at hparent
        rw [ensureDirectories_of_made hp hresult]
        exact hparent.trans (growsTo_ensured fs' p)
    · rw [ensureDirectories_of_not_missing hp]
      exact growsTo_ensured fs p

/-- What the writing of a file leaves as it was: all but the file that was opened, if one was. -/
structure LeavesOthers (fs : FileSystem) (p : Path) (opened : Option Location)
    (fs' : FileSystem) : Prop where
  /-- The other files are those that were there, with the content they had. -/
  file : ∀ q content, opened ≠ some q →
    (fs'.lookup q = some (.file content) ↔ fs.lookup q = some (.file content))
  /-- The links are those that were there. -/
  link : ∀ q fromRoot names,
    fs'.lookup q = some (.link fromRoot names) ↔ fs.lookup q = some (.link fromRoot names)
  /-- No directory is removed. -/
  directory : ∀ q, fs.lookup q = some .directory → fs'.lookup q = some .directory
  /-- A new directory stands at the end of a path above. -/
  newDirectory : ∀ q, fs.lookup q ≠ some .directory → fs'.lookup q = some .directory →
    ∃ above : Path, above.IsAbove p ∧ fs'.locate true above = .ok q

/-- How the writing of a value to a file below its directories ends. -/
inductive WholeWrite (fs : FileSystem) (p : Path) (value : Json) :
    Except DiskError Unit × FileSystem → Prop
  /-- The file holds the text of the value and a line feed, and the other files are as they were. -/
  | written {fs' : FileSystem} {place : Location} (hplace : fs'.locate true p = .ok place)
    (hfile : fs'.lookup place = some (.file (Letters.bytes value.canonical ++ [10])))
    (hothers : fs.LeavesOthers p (some place) fs') : WholeWrite fs p value (.ok (), fs')
  /-- A directory could not be made or the file not be opened, and all files are as they were. -/
  | refused {fs' : FileSystem} {refusal : Refusal} {q : Path} (hup : q.UpTo p)
    (hothers : fs.LeavesOthers p none fs') :
    WholeWrite fs p value (.error (.refused refusal (some q.text)), fs')
  /-- The file was opened, and holds the bytes that were written before the disk objected. -/
  | cutShort {fs' : FileSystem} {place : Location} {refusal : Refusal} (count : Nat)
    (hplace : fs'.locate true p = .ok place)
    (hfile : fs'.lookup place =
      some (.file ((Letters.bytes value.canonical ++ [10]).take count)))
    (hothers : fs.LeavesOthers p (some place) fs') :
    WholeWrite fs p value (.error (.refused refusal none), fs')
  /-- The file was opened, and is empty, for the value is not Unicode. -/
  | notUnicode {fs' : FileSystem} {place : Location} {e : EncodingError}
    (hvalue : ¬ value.IsUnicode) (hplace : fs'.locate true p = .ok place)
    (hfile : fs'.lookup place = some (.file []))
    (hothers : fs.LeavesOthers p (some place) fs') :
    WholeWrite fs p value (.error (.unencodable e), fs')
  /-- A half in the path stands for no byte, and all files are as they were. -/
  | unencodable {fs' : FileSystem} {e : EncodingError} (hstray : ∃ l ∈ p.text, l.isStray = true)
    (hothers : fs.LeavesOthers p none fs') : WholeWrite fs p value (.error (.unencodable e), fs')
  /-- There is a null character in the path, and all files are as they were. -/
  | nullCharacter {fs' : FileSystem} (hnull : .char '\x00' ∈ p.text)
    (hothers : fs.LeavesOthers p none fs') : WholeWrite fs p value (.error .nullCharacter, fs')

/-- What is new on the way to a path stands above it. -/
theorem GrowsTo.newDirectory (h : fs.GrowsTo p.parent fs') {q : Location}
    (hold : fs.lookup q ≠ some .directory) (hq : fs'.lookup q = some .directory) :
    ∃ above : Path, above.IsAbove p ∧ fs'.locate true above = .ok q := by
  have hnone : fs.lookup q = none := by
    cases hl : fs.lookup q with
    | none => rfl
    | some entry => exact absurd (hl.trans ((h.within.entry q _ hl).symm.trans hq)) hold
  obtain ⟨above, hup, hlocate⟩ := h.added q _ hnone hq
  by_cases hn : p.names = []
  · -- A path without names leads to a directory that was there before.
    obtain ⟨start, fewer, hfollow, hl⟩ := fs.hasDirectory_of_names_eq_nil hn
    have hstart : fs.locate true p = .ok start := by
      rw [locate_of_usable (Path.usable_of_names_eq_nil hn), hfollow]
    have habove : above = p := by
      rw [Path.parent_of_names_eq_nil hn] at hup
      rcases hup with hsame | ⟨-, name, more, hnames⟩
      · exact hsame
      · simp [hn] at hnames
    rw [habove] at hlocate
    cases (h.within.keeps.locate_of_ok hstart).symm.trans hlocate
    exact absurd hl hold
  · exact ⟨above, hup.isAbove hn, hlocate⟩

/-- Until the file is opened, only directories are new. -/
theorem GrowsTo.leavesOthers (h : fs.GrowsTo p.parent fs') : fs.LeavesOthers p none fs' where
  file _ _ _ := h.within.entry_iff nofun
  link _ _ _ := h.within.entry_iff nofun
  directory q := h.within.entry q _
  newDirectory _ hold hq := h.newDirectory hold hq

/-- Once the file is opened, it is the only one that is new or has other content. -/
theorem GrowsTo.leavesOthers_put (h : fs.GrowsTo p.parent fs') (hopens : fs'.OpensAt p place)
    (content : List UInt8) :
    fs.LeavesOthers p (some place) (fs'.put place (.file content)) := by
  have hkeeps := hopens.keeps content
  refine ⟨fun q bytes hne => ?_, fun q fromRoot names => ?_, fun q hq => ?_, fun q hold hq => ?_⟩
  · have hother : q ≠ place := fun hsame => hne (congrArg some hsame.symm)
    rw [hopens.lookup_put, if_neg hother]
    exact h.within.entry_iff nofun
  · exact (hkeeps.link q fromRoot names).trans (h.within.entry_iff nofun)
  · exact hkeeps.directory q (h.within.entry q _ hq)
  · rw [hopens.lookup_put] at hq
    split at hq
    · cases hq
    · obtain ⟨above, habove, hlocate⟩ := h.newDirectory hold hq
      exact ⟨above, habove, hkeeps.locate_of_ok hlocate⟩

/-- Where the disk cannot be asked for a path on the way, nothing is written. -/
theorem WholeWrite.of_unusable {q : Path} {e : DiskError} {value : Json} (hup : q.UpTo p)
    (he : q.Unusable e) (hothers : fs.LeavesOthers p none fs') :
    fs.WholeWrite p value (.error e, fs') := by
  have hsubset := hup.text_subset he.not_usable
  cases he with
  | stray hbytes =>
    refine .unencodable ?_ hothers
    by_contra hnone
    have hall : ∀ l ∈ q.text, l.isStray = false := by
      intro l hl
      by_contra hstray
      exact hnone ⟨l, hsubset hl, by simpa using hstray⟩
    cases (Letters.systemBytes_eq_ok_iff.mpr ⟨hall, rfl⟩).symm.trans hbytes
  | null _ hnull => exact .nullCharacter (hsubset hnull) hothers
  | long _ _ _ => exact .refused hup hothers

/-- Where the directories of a file cannot be made, nothing is written. -/
theorem WholeWrite.of_unmade {e : DiskError} (value : Json)
    (h : fs.ensureDirectories p.parent = (.error e, fs')) :
    fs.WholeWrite p value (.error e, fs') := by
  have hgrows := fs.growsTo_ensureDirectories p.parent
  rw [h] at hgrows
  by_cases husable : p.parent.Usable
  · have hensured := fs.ensureDirectories_ensured husable
    rw [h] at hensured
    cases hensured with
    | blocked _ _ _ _ => exact .refused (Path.UpTo.of_parent (.inl rfl)) hgrows.leavesOthers
    | stopped _ _ _ habove _ _ =>
      exact .refused (Path.UpTo.of_parent (.inr habove)) hgrows.leavesOthers
  · obtain ⟨e', he, hrefused⟩ := ensureDirectories_of_not_usable husable
    cases (hrefused fs).symm.trans h
    exact .of_unusable (Path.UpTo.of_parent (.inl rfl)) he hgrows.leavesOthers

/-- How the writing of a value to a file ends that was opened. -/
theorem WholeWrite.of_opened (value : Json) (h : fs.GrowsTo p.parent fs')
    (hopens : fs'.OpensAt p place) :
    fs.WholeWrite p value (fs'.write p value.fileText) := by
  have hfile : ∀ content, (fs'.put place (.file content)).lookup place = some (.file content) := by
    intro content
    rw [hopens.lookup_put, if_pos rfl]
  have hplace := fun content => (hopens.again content).located
  rw [hopens.write_eq, delivery]
  cases hencode : value.fileText.encode with
  | error e =>
    refine .notUnicode (fun hu => ?_) (hplace []) (hfile []) (h.leavesOthers_put hopens _)
    cases hu.encode_fileText.symm.trans hencode
  | ok content =>
    obtain ⟨-, rfl⟩ := Letters.encode_eq_ok_iff.mp hencode
    rw [Json.bytes_fileText]
    dsimp only
    cases fs'.objections.write place (Letters.bytes value.canonical ++ [10]) with
    | none => exact .written (hplace _) (hfile _) (h.leavesOthers_put hopens _)
    | some objection =>
      exact .cutShort objection.1 (hplace _) (hfile _) (h.leavesOthers_put hopens _)

/-- A value is written to a file as a whole, with directories above the path where they were
missing; or the disk objects, or cannot be asked for the path. Then at most directories above the
path are new, no file is new and none has other content, but for the file itself once it was
opened: it holds what was written before the disk objected, and nothing if the value is not
Unicode. -/
theorem writeBelow_whole (fs : FileSystem) (p : Path) (value : Json) :
    fs.WholeWrite p value (fs.writeBelow p value.fileText) := by
  rcases hmade : fs.ensureDirectories p.parent with ⟨e | _, fs'⟩
  · rw [writeBelow_of_error hmade]
    exact .of_unmade value hmade
  · have hgrows := fs.growsTo_ensureDirectories p.parent
    rw [hmade] at hgrows
    rw [writeBelow_of_ok hmade]
    rcases fs'.opensAt_or_refused p with ⟨place, hopens⟩ | ⟨e, he, hrefused⟩
    · exact .of_opened value hgrows hopens
    · rw [hrefused]
      rcases he with he | ⟨refusal, rfl⟩
      · exact .of_unusable (.inl rfl) he hgrows.leavesOthers
      · exact .refused (.inl rfl) hgrows.leavesOthers

/-- A disk that has one thing on it, and objects to so much. -/
def holding (old : DiskEntry) (objections : Objections) : FileSystem where
  entries := [([Utf8.encode "old"], old)]
  working := []
  objections := objections

/-- The path to it through a directory that is not there. -/
def roundabout : Path := ⟨.working, ["new", "..", "old"]⟩

/-- The directory on the way. -/
def newDirectory : Location := [Utf8.encode "new"]

theorem ensureDirectories_roundabout (old : DiskEntry) :
    (holding old {}).ensureDirectories roundabout.parent =
      (.ok (), (holding old {}).put newDirectory .directory) := by
  have hparent : roundabout.parent.Usable := ⟨by decide, by decide, by decide⟩
  have hmissing : (holding old {}).Missing roundabout.parent := missing_iff.mpr ⟨hparent, rfl⟩
  have hfound : ¬ (holding old {}).Missing ⟨.working, ["new"]⟩ := not_missing_of_follow nofun
  have hmade : (holding old {}).ensureDirectories ⟨.working, ["new"]⟩ =
      (.ok (), (holding old {}).put newDirectory .directory) :=
    (ensureDirectories_of_not_missing hfound).trans rfl
  exact (ensureDirectories_of_made hmissing hmade).trans rfl

/-- On the way to a file that is there a directory is made that the file is not in. The directory
stays as well where what is there is no file, so that it cannot be written. -/
theorem writeBelow_whole_roundabout :
    (holding (.file [1, 2, 3]) {}).WholeWrite roundabout .null
        (.ok (), (holding (.file [110, 117, 108, 108, 10]) {}).put newDirectory .directory) ∧
      (holding .directory {}).WholeWrite roundabout .null
        (.error (.refused .isDirectory (some roundabout.text)),
          (holding .directory {}).put newDirectory .directory) := by
  have hwritten : (holding (.file [1, 2, 3]) {}).writeBelow roundabout Json.null.fileText =
      (.ok (), (holding (.file [110, 117, 108, 108, 10]) {}).put newDirectory .directory) := by
    rw [writeBelow_of_ok (ensureDirectories_roundabout _)]
    rfl
  have hrefused : (holding .directory {}).writeBelow roundabout Json.null.fileText =
      (.error (.refused .isDirectory (some roundabout.text)),
        (holding .directory {}).put newDirectory .directory) := by
    rw [writeBelow_of_ok (ensureDirectories_roundabout _)]
    rfl
  refine ⟨?_, ?_⟩
  · rw [← hwritten]
    exact writeBelow_whole _ roundabout .null
  · rw [← hrefused]
    exact writeBelow_whole _ roundabout .null

/-- A disk that is full. -/
def full : Objections where
  write _ _ := some (0, ⟨.noRoom, nofun⟩)

/-- On a full disk a file that is written again has lost what it held, and a file that was not there
is there with nothing in it. A path with a stray half in it is refused for another reason than that
the operating system does not permit it. -/
theorem content_lost_on_full_disk :
    let fs := holding (.file [1, 2, 3]) full
    let again := fs.writeBelow ⟨.working, ["old"]⟩ Json.null.fileText
    let first := fs.writeBelow ⟨.working, ["file"]⟩ Json.null.fileText
    let stray := fs.writeBelow ⟨.working, [[.half 0]]⟩ Json.null.fileText
    fs.read ⟨.working, ["old"]⟩ = .ok [1, 2, 3] ∧
      again.1 = .error (.refused .noRoom none) ∧ again.2.read ⟨.working, ["old"]⟩ = .ok [] ∧
      fs.read ⟨.working, ["file"]⟩ = .error (.refused .notFound (some "file")) ∧
      first.1 = .error (.refused .noRoom none) ∧ first.2.read ⟨.working, ["file"]⟩ = .ok [] ∧
      stray.1 = .error (.unencodable ⟨0xd800, 0, 0⟩) := by
  intro fs again first stray
  have hmade : fs.ensureDirectories ⟨.working, []⟩ = (.ok (), fs) :=
    ensureDirectories_of_hasDirectory (Path.usable_of_names_eq_nil rfl)
      (fs.hasDirectory_of_names_eq_nil rfl)
  have hwrite : ∀ name, fs.writeBelow ⟨.working, [name]⟩ Json.null.fileText =
      fs.write ⟨.working, [name]⟩ Json.null.fileText := fun name => writeBelow_of_ok hmade
  have hagain : again = fs.write ⟨.working, ["old"]⟩ _ := hwrite _
  have hfirst : first = fs.write ⟨.working, ["file"]⟩ _ := hwrite _
  have hstray : stray = fs.write ⟨.working, [[.half 0]]⟩ _ := hwrite _
  rw [hagain, hfirst, hstray]
  exact ⟨rfl, rfl, rfl, rfl, rfl, rfl, rfl⟩

end FileSystem

end CallTrace
