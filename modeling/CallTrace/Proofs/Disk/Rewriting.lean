import CallTrace.Proofs.Disk.Directories

/-!
# Writing a file again

A file that was written below its directories is written there again in the same way, however the
writing ended, and the disk stays as it was left the first time. Where the directories stopped short
of the file, they stop short of it again, though what is in the way is told of another path. Any
other file that could be opened is opened as before.
-/

namespace CallTrace

namespace FileSystem

variable {fs fs' : FileSystem} {place : Location} {p q : Path} {text : Letters}

/-- The place that a path leads to once what is above it is made, so far as that can be done. -/
def destination (fs : FileSystem) (p : Path) : Except DiskError Location :=
  (fs.ensureDirectories p.parent).2.locate true p

/-! ### One file -/

/-- A file can be opened at a place to be written, or made there. -/
structure OpensAt (fs : FileSystem) (p : Path) (place : Location) : Prop where
  /-- The path leads to the place. -/
  located : fs.locate true p = .ok place
  /-- No directory stands there. -/
  notDirectory : fs.lookup place ≠ some .directory
  /-- No link stands there that was not followed. -/
  notLink : ∀ fromRoot names, fs.lookup place ≠ some (.link fromRoot names)
  /-- The disk does not object to it. -/
  permitted : fs.objections.openToWrite place = none

/-- How the writing of a text to an open file ends, and what the file holds then. -/
def delivery (fs : FileSystem) (place : Location) (text : Letters) :
    Except DiskError Unit × List UInt8 :=
  match text.encode with
  | .error e => (.error (.unencodable e), [])
  | .ok content =>
    match fs.objections.write place content with
    | none => (.ok (), content)
    | some (count, objection) => (.error (.refused objection.refusal none), content.take count)

/-- A file that can be opened is emptied, and holds what was written to it. -/
theorem OpensAt.write_eq (h : fs.OpensAt p place) (text : Letters) :
    fs.write p text =
      ((fs.delivery place text).1,
        fs.put place (.file (fs.delivery place text).2)) := by
  rw [write, h.located, delivery]
  dsimp only
  rw [h.permitted]
  cases hl : fs.lookup place with
  | none =>
    cases text.encode with
    | error e => rfl
    | ok content => cases hw : fs.objections.write place content <;> simp [hw]
  | some entry =>
    cases entry with
    | directory => exact absurd hl h.notDirectory
    | link fromRoot names => exact absurd hl (h.notLink fromRoot names)
    | file old =>
      cases text.encode with
      | error e => rfl
      | ok content => cases hw : fs.objections.write place content <;> simp [hw]

/-- A file can be opened, or nothing is written and the disk stays as it is. -/
theorem opensAt_or_refused (fs : FileSystem) (p : Path) :
    (∃ place, fs.OpensAt p place) ∨
      ∃ e, (p.Unusable e ∨ ∃ refusal, e = .refused refusal (some p.text)) ∧
        ∀ text, fs.write p text = (.error e, fs) := by
  cases hp : fs.locate true p with
  | error e =>
    refine .inr ⟨e, ?_, fun text => by rw [write, hp]⟩
    by_cases husable : p.Usable
    · rw [locate_of_usable husable] at hp
      split at hp <;> cases hp
      exact .inr ⟨_, rfl⟩
    · obtain ⟨e', he, hlocate⟩ := locate_of_not_usable husable
      cases (hlocate fs true).symm.trans hp
      exact .inl he
  | ok place =>
    have hrefused : ∀ refusal, (∀ text, fs.write p text =
        (.error (.refused refusal (some p.text)), fs)) →
        ∃ e, (p.Unusable e ∨ ∃ refusal, e = .refused refusal (some p.text)) ∧
          ∀ text, fs.write p text = (.error e, fs) :=
      fun refusal h => ⟨_, .inr ⟨refusal, rfl⟩, h⟩
    cases hl : fs.lookup place with
    | none =>
      cases hobjection : fs.objections.openToWrite place with
      | none => exact .inl ⟨place, hp, by simp [hl], by simp [hl], hobjection⟩
      | some objection =>
        exact .inr (hrefused objection.refusal fun text => by
          simp only [write, hp, hl, hobjection])
    | some entry =>
      cases entry with
      | directory =>
        exact .inr (hrefused .isDirectory fun text => by simp only [write, hp, hl])
      | link fromRoot names =>
        exact .inr (hrefused .tooManyLinks fun text => by simp only [write, hp, hl])
      | file old =>
        cases hobjection : fs.objections.openToWrite place with
        | none => exact .inl ⟨place, hp, by simp [hl], by simp [hl], hobjection⟩
        | some objection =>
          exact .inr (hrefused objection.refusal fun text => by
            simp only [write, hp, hl, hobjection])

theorem OpensAt.keeps (h : fs.OpensAt p place) (content : List UInt8) :
    fs.Keeps (fs.put place (.file content)) :=
  keeps_put_file h.notDirectory h.notLink content

theorem OpensAt.lookup_put (h : fs.OpensAt p place) (content : List UInt8) (q : Location) :
    (fs.put place (.file content)).lookup q =
      if q = place then some (.file content) else fs.lookup q :=
  FileSystem.lookup_put h.notDirectory _ q

/-- A file that was opened can be opened again. -/
theorem OpensAt.again (h : fs.OpensAt p place) (content : List UInt8) :
    (fs.put place (.file content)).OpensAt p place := by
  have hfile := h.lookup_put content place
  rw [if_pos rfl] at hfile
  exact ⟨(h.keeps content).locate_of_ok h.located, by simp [hfile], by simp [hfile],
    by rw [objections_put, h.permitted]⟩

/-! ### Below its directories -/

/-- Making directories takes nothing away. -/
theorem within_ensureDirectories (fs : FileSystem) (p : Path) :
    fs.Within (fs.ensureDirectories p).2 := by
  by_cases husable : p.Usable
  · have hensured := fs.ensureDirectories_ensured husable
    generalize fs.ensureDirectories p = result at hensured
    cases hensured with
    | made hwithin _ _ => exact hwithin
    | blocked hwithin _ _ _ => exact hwithin
    | stopped hwithin _ _ _ _ _ => exact hwithin
  · obtain ⟨e, -, hrefused⟩ := ensureDirectories_of_not_usable husable
    rw [hrefused]
    exact .refl fs

/-- Directories that were made are there. -/
theorem hasDirectory_of_made (h : fs.ensureDirectories p = (.ok (), fs')) :
    p.Usable ∧ fs'.HasDirectory p := by
  by_cases husable : p.Usable
  · have hensured := fs.ensureDirectories_ensured husable
    rw [h] at hensured
    cases hensured with
    | made _ hp _ => exact ⟨husable, hp⟩
  · obtain ⟨e, -, hrefused⟩ := ensureDirectories_of_not_usable husable
    cases (hrefused fs).symm.trans h

/-- What the writing of a file comes to depends on how the making of its directories ended. -/
theorem writeBelow_of_error {e : DiskError} (h : fs.ensureDirectories p.parent = (.error e, fs')) :
    fs.writeBelow p text = (.error e, fs') := by
  rw [writeBelow, h]

theorem writeBelow_of_ok (h : fs.ensureDirectories p.parent = (.ok (), fs')) :
    fs.writeBelow p text = fs'.write p text := by
  rw [writeBelow, h]

/-- A text that was written is in the file that the path leads to. -/
theorem file_of_written (h : fs.writeBelow p text = (.ok (), fs')) :
    (∀ l ∈ text, l.isHalf = false) ∧ ∃ place, fs'.locate true p = .ok place ∧
      fs'.lookup place = some (.file text.bytes) := by
  rcases hmade : fs.ensureDirectories p.parent with ⟨_ | _, disk⟩
  · rw [writeBelow_of_error hmade] at h
    cases h
  · rw [writeBelow_of_ok hmade] at h
    rcases disk.opensAt_or_refused p with ⟨place, hopens⟩ | ⟨e, -, hrefused⟩
    · have hfile := fun content => (hopens.lookup_put content place).trans (if_pos rfl)
      have hplace := fun content => (hopens.again content).located
      rw [hopens.write_eq, delivery] at h
      cases hencode : text.encode with
      | error e =>
        rw [hencode] at h
        cases h
      | ok content =>
        obtain ⟨hchars, rfl⟩ := Letters.encode_eq_ok_iff.mp hencode
        rw [hencode] at h
        dsimp only at h
        cases hobjection : disk.objections.write place text.bytes with
        | none =>
          rw [hobjection] at h
          cases h
          exact ⟨hchars, place, hplace _, hfile _⟩
        | some objection =>
          rw [hobjection] at h
          cases h
    · rw [hrefused] at h
      cases h

/-- A file elsewhere that could be opened, or not, is opened as before once a file is written. -/
theorem openToRead_writeBelow {bytes : List UInt8} (hplace : fs.locate true q = .ok place)
    (hfile : fs.lookup place = some (.file bytes)) (hne : fs.destination p ≠ .ok place)
    (text : Letters) : (fs.writeBelow p text).2.openToRead q = fs.openToRead q := by
  have hsame : ∀ {fs' : FileSystem}, fs.Keeps fs' → fs'.lookup place = some (.file bytes) →
      fs'.openToRead q = fs.openToRead q := by
    intro fs' hkeeps hfile'
    unfold openToRead
    rw [hkeeps.locate_of_ok hplace, hplace]
    dsimp only
    rw [hfile', hfile, hkeeps.objections]
  have hwithin := fs.within_ensureDirectories p.parent
  rw [destination] at hne
  rcases hmade : fs.ensureDirectories p.parent with ⟨_ | _, fs'⟩
  · rw [writeBelow_of_error hmade]
    rw [hmade] at hwithin
    exact hsame hwithin.keeps (hwithin.entry place _ hfile)
  · rw [writeBelow_of_ok hmade]
    rw [hmade] at hwithin hne
    have hkept := hwithin.entry place _ hfile
    rcases fs'.opensAt_or_refused p with ⟨other, hopens⟩ | ⟨e, -, hrefused⟩
    · rw [hopens.write_eq]
      have hother : place ≠ other := by
        rintro rfl
        exact hne hopens.located
      refine hsame (hwithin.keeps.trans (hopens.keeps _)) ?_
      rw [hopens.lookup_put, if_neg hother, hkept]
    · rw [hrefused]
      exact hsame hwithin.keeps hkept

/-- A file that was opened below its directories is written there again, and in the same way. -/
theorem writeBelow_opened (hmade : fs.ensureDirectories p.parent = (.ok (), fs'))
    (hopens : fs'.OpensAt p place) (text : Letters) :
    (fs'.write p text).2.writeBelow p text = fs'.write p text := by
  obtain ⟨husable, hparent⟩ := hasDirectory_of_made hmade
  rw [hopens.write_eq]
  dsimp only
  have hkeeps := hopens.keeps (fs'.delivery place text).2
  have hagain := hopens.again (fs'.delivery place text).2
  have hdelivery : ∀ content, (fs'.put place (.file content)).delivery place text =
      fs'.delivery place text := by
    intro content
    unfold delivery
    rw [objections_put]
  rw [writeBelow_of_ok (ensureDirectories_of_hasDirectory husable (hkeeps.hasDirectory hparent)),
    hagain.write_eq, hdelivery, put_put]

/-- How the writing of a file goes a second time. -/
theorem writeBelow_again (fs : FileSystem) (p : Path) (text : Letters)
    {r : Except DiskError Unit} (h : fs.writeBelow p text = (r, fs')) :
    (¬ fs.StopsShort p.parent ∧ fs'.writeBelow p text = (r, fs')) ∨
      (fs.StopsShort p.parent ∧ ∃ (q : Path) (refusal refusal' : Refusal), q.IsAbove p.parent ∧
        r = .error (.refused refusal (some q.text)) ∧
        fs'.writeBelow p text = (.error (.refused refusal' (some p.parent.text)), fs') ∧
        (refusal' = refusal ∨ refusal = .exists ∧ refusal'.tellsAbsence = true) ∧
        refusal'.message (some p.parent.text) ≠ refusal.message (some q.text)) := by
  rcases hmade : fs.ensureDirectories p.parent with ⟨_ | _, disk⟩
  · rw [writeBelow_of_error hmade] at h
    cases h
    rcases ensureDirectories_again fs p.parent hmade with
      ⟨hshort, hagain⟩ | ⟨hshort, q, refusal, refusal', habove, he, hagain, hmessage⟩
    · exact .inl ⟨hshort, writeBelow_of_error hagain⟩
    · exact .inr ⟨hshort, q, refusal, refusal', habove, he, writeBelow_of_error hagain, hmessage⟩
  · rcases ensureDirectories_again fs p.parent hmade with
      ⟨hshort, hagain⟩ | ⟨-, _, _, _, -, he, -⟩
    · refine .inl ⟨hshort, ?_⟩
      rw [writeBelow_of_ok hmade] at h
      rcases disk.opensAt_or_refused p with ⟨place, hopens⟩ | ⟨e, -, hrefused⟩
      · have hsecond := writeBelow_opened hmade hopens text
        rw [h] at hsecond
        exact hsecond
      · rw [hrefused] at h
        cases h
        rw [writeBelow_of_ok hagain, hrefused]
    · cases he

end FileSystem

end CallTrace
