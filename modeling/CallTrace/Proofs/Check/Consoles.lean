import CallTrace.Check.Log
import CallTrace.Proofs.Check.Run
import CallTrace.Proofs.Text.Letters

/-!
# Sessions on a console

A console that takes all pieces was told all of them, and one that ends early has met a piece that
it does not take. So a session on a console does with an entry what it does by itself, or it is
interrupted: before the entry leads anywhere, or when it has led somewhere and that is being told.
-/

namespace CallTrace

/-- What a device with such a fault and a console interrupt a program with. -/
inductive Interruption.ArisesFrom (fault? : Option Refusal) (console : Console) :
    Interruption → Prop
  /-- The device tells its fault. -/
  | reading {refusal : Refusal} (h : fault? = some refusal) :
    ArisesFrom fault? console (.refused refusal)
  /-- The console does not take a piece. -/
  | saying {e : Interruption} {said piece : Letters} (h : console said piece = some e) :
    ArisesFrom fault? console e

/-- Where the device has no fault and the console takes everything, nothing interrupts. -/
theorem Interruption.not_arisesFrom_open {e : Interruption} : ¬ e.ArisesFrom none .open := by
  rintro (h | h) <;> cases h

namespace Console

variable {console : Console} {said said' : Letters} {pieces : List Letters}

/-- A console that ends early does so at the first piece that it does not take. -/
theorem say_cases (console : Console) (said : Letters) (pieces : List Letters) :
    console.say said pieces = (said ++ pieces.flatten, none) ∨
      ∃ before piece after e, pieces = before ++ piece :: after ∧
        console (said ++ before.flatten) piece = some e ∧
        console.say said pieces = (said ++ before.flatten, some e) := by
  induction pieces generalizing said with
  | nil => exact .inl (by rw [say, List.flatten_nil, List.append_nil])
  | cons piece pieces ih =>
    cases hpiece : console said piece with
    | some e =>
      refine .inr ⟨[], piece, pieces, e, rfl, ?_, ?_⟩
      · rw [List.flatten_nil, List.append_nil, hpiece]
      · rw [say, hpiece, List.flatten_nil, List.append_nil]
    | none =>
      have hsay : console.say said (piece :: pieces) = console.say (said ++ piece) pieces := by
        rw [say, hpiece]
      rw [hsay]
      rcases ih (said ++ piece) with hall | ⟨before, next, after, e, rfl, hnext, hsaid⟩
      · exact .inl (by rw [hall, List.flatten_cons, List.append_assoc])
      · refine .inr ⟨piece :: before, next, after, e, rfl, ?_, ?_⟩
        · rw [List.flatten_cons, ← List.append_assoc, hnext]
        · rw [hsaid, List.flatten_cons, List.append_assoc]

/-- A console takes all pieces, behind what was said before. -/
def Takes (console : Console) (said : Letters) (pieces : List Letters) : Prop :=
  (console.say said pieces).2 = none

theorem Takes.say_eq (h : console.Takes said pieces) :
    console.say said pieces = (said ++ pieces.flatten, none) := by
  rcases console.say_cases said pieces with hall | ⟨_, _, _, e, -, -, hsaid⟩
  · exact hall
  · rw [Takes, hsaid] at h
    cases h

end Console

namespace Session

variable [KnownTypes]

/-- A session that was interrupted while it took an entry. -/
inductive BrokenOff (s : Session) (entry : LogEntry) : Session → Prop
  /-- The entry was counted and was being shown. -/
  | showing : BrokenOff s entry { s with entriesRead := s.entriesRead + 1 }
  /-- The entry had led on, and that was being told. -/
  | telling {a : Advance} (h : s.stage.advance entry s.target = .ok a) :
    BrokenOff s entry { s with stage := a.stage, entriesRead := s.entriesRead + 1 }

/-- What a session says of an entry is said on a console, or the console interrupts it. -/
theorem feed_cases (s : Session) (console : Console) (said : Letters) (entry : LogEntry)
    (fault? : Option Refusal) :
    s.feed console said entry =
        ⟨(s.take entry).outcome.mapError .stuck, (s.take entry).session,
          said ++ Letters.ofString (s.take entry).printed⟩ ∨
      ∃ e, (s.feed console said entry).outcome = .error (.interrupted e) ∧
        e.ArisesFrom fault? console ∧ s.BrokenOff entry (s.feed console said entry).session := by
  have hshown : ({ s with entriesRead := s.entriesRead + 1 } : Session).announcement entry =
      s.announcement entry := rfl
  cases hpieces : s.announcement entry with
  | error e =>
    have hannounce : s.announce entry = .error e := by rw [announce, hpieces]; rfl
    have hempty : said ++ Letters.ofString "" = said := List.append_nil said
    rw [take_of_unshown hannounce, hempty]
    unfold feed
    simp only [hshown, hpieces]
    exact .inl rfl
  | ok pieces =>
    have hannounce : s.announce entry = .ok (String.join pieces) := by rw [announce, hpieces]; rfl
    rw [take_of_shown hannounce]
    unfold feed
    simp only [hshown, hpieces]
    rcases console.say_cases said (pieces.map Letters.ofString) with
      hall | ⟨_, _, _, e, -, hrefused, hsaid⟩
    · simp only [hall]
      rw [← Letters.ofString_join]
      cases ha : s.stage.advance entry s.target with
      | error e => exact .inl rfl
      | ok a =>
        dsimp only
        have hremarks : ({ s with stage := a.stage, entriesRead := s.entriesRead + 1 } :
            Session).notes a ++ ({ s with stage := a.stage, entriesRead := s.entriesRead + 1 } :
            Session).progress a = s.notes a ++ s.progress a := rfl
        rw [hremarks]
        rcases console.say_cases (said ++ Letters.ofString (String.join pieces))
          ((s.notes a ++ s.progress a).map Letters.ofString) with
          htold | ⟨_, _, _, e, -, hrefused, hsaid⟩
        · have htext : (s.notes a ++ s.progress a).map Letters.ofString =
              (s.notes a).map Letters.ofString ++ (s.progress a).map Letters.ofString :=
            List.map_append
          rw [htold]
          left
          rw [noteLines, progressLines, Letters.ofString_append, Letters.ofString_append, htext,
            List.flatten_append, ← Letters.ofString_join, ← Letters.ofString_join]
          simp only [List.append_assoc]
          rfl
        · rw [hsaid]
          exact .inr ⟨e, rfl, .saying hrefused, .telling ha⟩
    · simp only [hsaid]
      exact .inr ⟨e, rfl, .saying hrefused, .showing⟩

end Session

end CallTrace
