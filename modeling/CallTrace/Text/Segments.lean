/-!
# Segments between separators

A text cut at a letter that separates. There is one segment more than there
are separators, and joining the segments with separators gives the text back.
-/

namespace CallTrace.Text

variable {α : Type} [DecidableEq α]

/-- The runs of letters between the separators in a text. -/
def segments (separator : α) : List α → List (List α)
  | [] => [[]]
  | c :: cs =>
    if c = separator then [] :: segments separator cs
    else
      match segments separator cs with
      | [] => [[c]]
      | segment :: rest => (c :: segment) :: rest

theorem segments_ne_nil (separator : α) (cs : List α) : segments separator cs ≠ [] := by
  cases cs with
  | nil => simp [segments]
  | cons c cs =>
    unfold segments
    split
    · simp
    · split <;> simp

/-- Nothing is lost but the separators. -/
theorem intercalate_segments (separator : α) (cs : List α) :
    [separator].intercalate (segments separator cs) = cs := by
  induction cs with
  | nil => rfl
  | cons c cs ih =>
    unfold segments
    split
    · next h =>
      cases hs : segments separator cs with
      | nil => exact absurd hs (segments_ne_nil separator cs)
      | cons s ss =>
        rw [hs] at ih
        simp only [List.intercalate, List.intersperse_cons_cons, List.flatten_cons,
          List.nil_append] at ih ⊢
        simp [h, ih]
    · cases hs : segments separator cs with
      | nil => exact absurd hs (segments_ne_nil separator cs)
      | cons s ss =>
        rw [hs] at ih
        cases ss with
        | nil => simpa [List.intercalate] using ih
        | cons s' ss =>
          simp only [List.intercalate, List.intersperse_cons_cons, List.flatten_cons] at ih ⊢
          simp [← ih]

end CallTrace.Text
