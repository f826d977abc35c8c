import CallTrace.Text.Segments

/-!
# Segments of texts that are put together

Where two texts are put together, the last segment of the one runs on into the first segment of
the other, and all other segments stay as they are. So what stands behind the last separator of a
text is known from the end of the text alone.
-/

namespace CallTrace.Text

variable {α : Type} [DecidableEq α] {separator : α} {xs ys : List α}

/-- A separator ends a segment. -/
theorem segments_separator (separator : α) (cs : List α) :
    segments separator (separator :: cs) = [] :: segments separator cs :=
  if_pos rfl

/-- Any other character stands at the beginning of a segment. -/
theorem segments_of_ne {c : α} {cs first : List α} {rest : List (List α)}
    (hc : c ≠ separator) (h : segments separator cs = first :: rest) :
    segments separator (c :: cs) = (c :: first) :: rest := by
  rw [segments, if_neg hc, h]

theorem exists_first_segment (separator : α) (cs : List α) :
    ∃ first rest, segments separator cs = first :: rest :=
  List.exists_cons_of_ne_nil (segments_ne_nil separator cs)

theorem exists_last_segment (separator : α) (cs : List α) :
    ∃ init last, segments separator cs = init ++ [last] :=
  ⟨_, _, (List.dropLast_concat_getLast (segments_ne_nil separator cs)).symm⟩

/-- A text without separators is one segment. -/
theorem segments_of_not_mem {cs : List α} (h : separator ∉ cs) :
    segments separator cs = [cs] := by
  induction cs with
  | nil => rfl
  | cons c cs ih =>
    have hc : c ≠ separator := fun hc => h (hc ▸ List.mem_cons_self)
    exact segments_of_ne hc (ih fun hm => h (List.mem_cons_of_mem c hm))

/-- The last segment of a text and the first segment of the next one become one segment. -/
theorem segments_append {init rest : List (List α)} {last first : List α}
    (hx : segments separator xs = init ++ [last]) (hy : segments separator ys = first :: rest) :
    segments separator (xs ++ ys) = init ++ (last ++ first) :: rest := by
  induction xs generalizing init last with
  | nil =>
    obtain ⟨rfl, rfl⟩ := List.append_singleton_inj.mp (show [] ++ [[]] = init ++ [last] from hx)
    exact hy
  | cons c xs ih =>
    by_cases hc : c = separator
    · subst hc
      rw [segments_separator] at hx
      rw [List.cons_append, segments_separator]
      cases init with
      | nil => exact absurd (List.cons.inj hx).2 (segments_ne_nil c xs)
      | cons s init =>
        obtain ⟨rfl, hinit⟩ := List.cons.inj hx
        rw [ih hinit]
        rfl
    · obtain ⟨s, tail, hs⟩ := exists_first_segment separator xs
      rw [segments_of_ne hc hs] at hx
      cases init with
      | nil =>
        obtain ⟨rfl, rfl⟩ := List.cons.inj hx
        exact segments_of_ne hc (ih (show segments separator xs = [] ++ [s] from hs))
      | cons t init =>
        obtain ⟨rfl, hinit⟩ := List.cons.inj hx
        have hxs : segments separator xs = (s :: init) ++ [last] := by
          rw [hs, hinit]
          rfl
        exact segments_of_ne hc (ih hxs)

/-- A text without separators is the beginning of a segment. -/
theorem segments_append_of_not_mem {first : List α} {rest : List (List α)}
    (hx : separator ∉ xs) (hy : segments separator ys = first :: rest) :
    segments separator (xs ++ ys) = (xs ++ first) :: rest :=
  segments_append (show segments separator xs = [] ++ [xs] from segments_of_not_mem hx) hy

/-- A separator keeps the segments in front of it apart from those behind it. -/
theorem segments_append_separator (separator : α) (xs ys : List α) :
    segments separator (xs ++ separator :: ys) =
      segments separator xs ++ segments separator ys := by
  obtain ⟨init, last, hx⟩ := exists_last_segment separator xs
  rw [segments_append hx (segments_separator separator ys), hx, List.append_nil,
    List.append_assoc, List.singleton_append]

/-- What stands in front of the last separator of a text, and what stands behind it, are unique. -/
theorem eq_of_append_separator {xs' ys' : List α} (hy : separator ∉ ys) (hy' : separator ∉ ys')
    (h : xs ++ separator :: ys = xs' ++ separator :: ys') : xs = xs' ∧ ys = ys' := by
  have hs := congrArg (segments separator) h
  rw [segments_append_separator, segments_append_separator, segments_of_not_mem hy,
    segments_of_not_mem hy'] at hs
  obtain ⟨-, rfl⟩ := List.append_singleton_inj.mp hs
  exact ⟨List.append_cancel_right h, rfl⟩

omit [DecidableEq α] in
/-- Where segments are joined, a separator stands between any of them and the next. -/
theorem intercalate_append {s t : List (List α)} (hs : s ≠ []) (ht : t ≠ []) :
    [separator].intercalate (s ++ t) =
      [separator].intercalate s ++ separator :: [separator].intercalate t := by
  induction s with
  | nil => exact absurd rfl hs
  | cons u s ih =>
    have hrest : s ++ t ≠ [] := List.append_ne_nil_of_right_ne_nil s ht
    rw [List.cons_append, List.intercalate_cons_of_ne_nil hrest]
    cases s with
    | nil => simp
    | cons v s =>
      rw [ih (List.cons_ne_nil v s), List.intercalate_cons_cons]
      simp

/-- A text ends in its last two segments, with a separator between them. -/
theorem suffix_of_segments {init : List (List α)} {cs s t : List α}
    (h : segments separator cs = init ++ [s, t]) : s ++ separator :: t <:+ cs := by
  have hend : [separator].intercalate [s, t] = s ++ separator :: t := by simp
  rw [← intercalate_segments separator cs, h]
  cases init with
  | nil => exact hend ▸ List.suffix_refl _
  | cons u init =>
    rw [intercalate_append (List.cons_ne_nil u init) (List.cons_ne_nil s [t]), hend]
    exact ⟨[separator].intercalate (u :: init) ++ [separator], by simp⟩

end CallTrace.Text
