import CallTrace.Proofs.Check.Folding

/-!
# Interrupted checks

A check may be kept from its end by the device that its log is on, or by the console that it says
things to. It has then taken entries that leave it open, and perhaps was about to take the next
one. Where nothing interrupts it, it reports as on a log at hand.
-/

namespace CallTrace

namespace LogCheck

variable {check : LogCheck} {r : Report}

/-- A report on something that was refused has no hash. -/
theorem logHash_refused (check : LogCheck) (session : Session) (refusal : Refusal)
    (path? : Option Letters) : (check.refused session refusal path?).logHash = none := by
  unfold refused
  split <;> rfl

/-- The report on a run whose log could not be read to its end tells of nothing but that. -/
theorem report_of_undrained {ending : Ending} {session : Session} {refusal : Refusal}
    (hnot : ∀ e, ending ≠ .interrupted e)
    (h : check.reportOn ending session (.error refusal) = .ok r) :
    r = check.refused session refusal none := by
  cases ending with
  | interrupted e => exact absurd rfl (hnot e)
  | finding finding =>
    cases h
    rfl
  | stuck e =>
    cases e <;> cases h
    rfl
  | unread e =>
    cases e <;> cases h
    rfl

/-- A report on a log that could be read has the hash that was made of it. -/
theorem logHash_of_reportOn {ending : Ending} {session : Session} {logHash : String}
    (hnot : ∀ e, ending ≠ .interrupted e)
    (h : check.reportOn ending session (.ok logHash) = .ok r) : r.logHash = some logHash := by
  cases ending with
  | interrupted e => exact absurd rfl (hnot e)
  | finding finding =>
    cases h
    rfl
  | stuck e =>
    cases e <;> cases h
    rfl
  | unread e =>
    cases e <;> cases h
    rfl

variable [Memory] [KnownTypes]

/-- The report on an opened log that could not be read, or told of, to its end. -/
inductive BreaksOff (check : LogCheck) (verbose : Bool) (opened : OpenedFile) (console : Console) :
    Report → Prop
  /-- The operating system refused to read or to say something while entries were taken. -/
  | running {refusal : Refusal} {session : Session}
    (hr : (Interruption.refused refusal).ArisesFrom opened.fault? console)
    (hs : (check.session verbose).Interrupted (read opened.content).1 session) :
    BreaksOff check verbose opened console (check.refused session refusal none)
  /-- The session came to its end, but what it left of the log could not be read. -/
  | draining {refusal : Refusal} (hr : opened.fault? = some refusal) :
    BreaksOff check verbose opened console
      (check.refused (check.runOver verbose opened.content).session refusal none)

variable {verbose : Bool} {opened : OpenedFile} {console : Console}

theorem BreaksOff.logHash (h : check.BreaksOff verbose opened console r) : r.logHash = none := by
  cases h <;> exact check.logHash_refused _ _ _

theorem ending_runOver_ne_interrupted (check : LogCheck) (verbose : Bool) (content : List UInt8)
    (e : Interruption) : (check.runOver verbose content).ending ≠ .interrupted e := by
  rw [(check.runOver_eq verbose content).1]
  exact Taken.ending_ne_interrupted _ _ e

/-- A report on an opened log is that on all of it, or it breaks off. -/
theorem runThrough_report (h : (check.runThrough verbose opened console).outcome = .ok r) :
    opened.fault? = none ∧ (check.runOn verbose opened.content).outcome = .ok r ∨
      check.BreaksOff verbose opened console r := by
  rcases check.runThrough_cases verbose opened console with
    hplain | ⟨e, session, harises, hs, hend⟩
  · rw [hplain] at h
    cases hfault : opened.fault? with
    | none =>
      rw [hfault] at h
      left
      rw [runOn_eq]
      exact ⟨rfl, h⟩
    | some refusal =>
      right
      rw [hfault] at h
      dsimp only at h
      have hrefused := report_of_undrained (check.ending_runOver_ne_interrupted verbose _) h
      rw [hrefused]
      exact .draining hfault
  · have hreport := (hend (.ok "")).symm.trans h
    cases e with
    | unencodable e => cases hreport
    | refused refusal =>
      cases hreport
      exact .inr (.running harises hs)

theorem logHash_of_runOn {content : List UInt8}
    (h : (check.runOn verbose content).outcome = .ok r) :
    r.logHash = some (Sha256.label content) := by
  rw [runOn_eq] at h
  exact logHash_of_reportOn (check.ending_runOver_ne_interrupted verbose content) h

end LogCheck

namespace FileSystem

/-- A log of which all can be read was opened and has no fault. -/
theorem openToRead_of_read {fs : FileSystem} {path : Path} {content : List UInt8}
    (h : fs.read path = .ok content) : fs.openToRead path = .ok { content := content } := by
  unfold read at h
  split at h
  · cases h
  · next opened hopen =>
    obtain ⟨bytes, fault?⟩ := opened
    cases fault? <;> cases h
    exact hopen

/-- The disk that holds a log and nothing else. -/
def onlyLog (content : List UInt8) : FileSystem where
  entries := [([Utf8.encode "log"], .file content)]
  working := []

theorem openToRead_onlyLog (content : List UInt8) :
    (onlyLog content).openToRead ⟨.working, ["log"]⟩ = .ok { content := content } := rfl

end FileSystem

end CallTrace
