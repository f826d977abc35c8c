import CallTrace.Disk.Refusal

/-!
# Consoles

What a program says goes to a console piece by piece. Whether the console takes a piece may depend
on all that was said before: a pipe may break, a disk may be full, and an encoding may have no
place for a letter. What was taken stays said.
-/

namespace CallTrace

/-- What keeps a program from going on while it reads or says something. -/
inductive Interruption where
  /-- The operating system refuses it. -/
  | refused (refusal : Refusal)
  /-- The encoding of the console has no place for a letter. -/
  | unencodable (e : EncodingError)
  deriving DecidableEq

/-- The text of an interruption. -/
def Interruption.message : Interruption → String
  | .refused refusal => refusal.message none
  | .unencodable e => e.message

/-- Whether a console takes a piece, given what was said before. -/
abbrev Console := (said piece : Letters) → Option Interruption

/-- The console that takes everything. -/
def Console.open : Console := fun _ _ => none

/-- Say pieces one after the other: all that was said then, and why it ended early, if it did. -/
def Console.say (console : Console) (said : Letters) : List Letters → Letters × Option Interruption
  | [] => (said, none)
  | piece :: pieces =>
    match console said piece with
    | some e => (said, some e)
    | none => console.say (said ++ piece) pieces

end CallTrace
