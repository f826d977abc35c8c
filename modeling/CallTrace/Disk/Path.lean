import CallTrace.Text.Letters
import CallTrace.Text.Segments

/-!
# Paths

A path is where it starts and the names it passes through. Slashes that repeat
or trail and the name for the current directory make no difference; the name
for the parent directory is kept, for what it leads to depends on the disk.
Exactly two slashes in front are a start of their own.
-/

namespace CallTrace

/-- Where a path starts. -/
inductive PathStart where
  /-- In the working directory. -/
  | working
  /-- At the root. -/
  | root
  /-- At the root that two slashes stand for. -/
  | doubleRoot
  deriving DecidableEq

/-- A path. -/
structure Path where
  /-- Where it starts. -/
  start : PathStart
  /-- The names it passes through. -/
  names : List Letters
  deriving DecidableEq

/-- The slashes in front of a path. -/
def PathStart.text : PathStart → Letters
  | .working => ""
  | .root => "/"
  | .doubleRoot => "//"

/-- The start that a text calls for. -/
def PathStart.ofLetters : Letters → PathStart
  | .char '/' :: .char '/' :: .char '/' :: _ => .root
  | .char '/' :: .char '/' :: _ => .doubleRoot
  | .char '/' :: _ => .root
  | _ => .working

namespace Path

/-- The path that a text stands for. -/
def ofLetters (s : Letters) : Path where
  start := .ofLetters s
  names := (Text.segments (.char '/') s).filter fun n => !(n = [] || n = [.char '.'])

/-- The text of a path; the working directory is a dot. -/
def text (p : Path) : Letters :=
  if p.start = .working ∧ p.names = [] then "."
  else p.start.text ++ [.char '/'].intercalate p.names

/-- The path without its last name. -/
def parent (p : Path) : Path := { p with names := p.names.dropLast }

/-- A path without names is its own parent. -/
theorem parent_of_names_eq_nil {p : Path} (h : p.names = []) : p.parent = p := by
  cases p
  cases h
  rfl

theorem length_parent_lt {p : Path} (h : p.names ≠ []) :
    p.parent.names.length < p.names.length := by
  have := List.length_pos_iff.2 h
  simp [parent]
  omega

end Path

end CallTrace
