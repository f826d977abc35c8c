import CallTrace.Proofs.Text.Segments

/-!
# Rulers among the lines of a text

A ruler is a line of 57 dashes and nothing else. The rulers of a text are counted line by line, so
that the count is known for texts that are put together: a text brings along the rulers that stand
between its first and its last line, and where it runs on into a line with some other character, it
brings along no others.
-/

namespace CallTrace.Text

/-- A line of dashes. -/
def rulerLine : List Char := List.replicate 57 '-'

/-- How many lines of a text are rulers. -/
def rulers (cs : List Char) : Nat := (segments '\n' cs).count rulerLine

/-- How many lines behind the first one are rulers. -/
def laterRulers (cs : List Char) : Nat := (segments '\n' cs).tail.count rulerLine

/-- How many lines between the first and the last one are rulers. -/
def innerRulers (cs : List Char) : Nat := (segments '\n' cs).tail.dropLast.count rulerLine

/-- A text has a ruler between its first and its last line. -/
def HoldsRuler (cs : List Char) : Prop := '\n' :: rulerLine ++ ['\n'] <:+: cs

variable {xs ys line : List Char} {c : Char}

/-- A line with some other character is no ruler. -/
theorem ne_rulerLine (hc : c ∈ line) (hd : c ≠ '-') : line ≠ rulerLine := by
  rintro rfl
  exact hd (List.eq_of_mem_replicate hc)

theorem newline_not_mem_rulerLine : '\n' ∉ rulerLine := by decide

/-- Lines in front of a line feed are counted apart from those behind it. -/
theorem rulers_append_newline (xs ys : List Char) :
    rulers (xs ++ '\n' :: ys) = rulers xs + rulers ys := by
  rw [rulers, segments_append_separator, List.count_append]
  rfl

theorem laterRulers_newline (ys : List Char) : laterRulers ('\n' :: ys) = rulers ys := by
  rw [laterRulers, segments_separator]
  rfl

/-- An empty line is no ruler. -/
theorem rulers_newline (ys : List Char) : rulers ('\n' :: ys) = rulers ys := by
  rw [rulers, segments_separator, List.count_cons_of_ne (by decide)]
  rfl

/-- The beginning of a line does not matter for the lines behind it. -/
theorem laterRulers_append_of_not_mem (hx : '\n' ∉ xs) (ys : List Char) :
    laterRulers (xs ++ ys) = laterRulers ys := by
  obtain ⟨first, rest, hy⟩ := exists_first_segment '\n' ys
  rw [laterRulers, laterRulers, segments_append_of_not_mem hx hy, hy]
  rfl

/-- A line that begins with some other character than dashes is no ruler. -/
theorem rulers_append_of_mem (hx : '\n' ∉ xs) (hc : c ∈ xs) (hd : c ≠ '-') (ys : List Char) :
    rulers (xs ++ ys) = laterRulers ys := by
  obtain ⟨first, rest, hy⟩ := exists_first_segment '\n' ys
  have hfirst : xs ++ first ≠ rulerLine := ne_rulerLine (List.mem_append_left first hc) hd
  rw [rulers, laterRulers, segments_append_of_not_mem hx hy, hy]
  exact List.count_cons_of_ne hfirst

/-- A text that runs on into some other character than dashes brings along its inner rulers. -/
theorem laterRulers_append (hd : c ≠ '-') (hn : c ≠ '\n') (xs ys : List Char) :
    laterRulers (xs ++ c :: ys) = innerRulers xs + laterRulers ys := by
  obtain ⟨init, last, hx⟩ := exists_last_segment '\n' xs
  obtain ⟨first, rest, hy⟩ := exists_first_segment '\n' ys
  have hline : last ++ c :: first ≠ rulerLine :=
    ne_rulerLine (List.mem_append_right last List.mem_cons_self) hd
  rw [laterRulers, innerRulers, laterRulers, segments_append hx (segments_of_ne hn hy), hx, hy]
  cases init with
  | nil => exact (Nat.zero_add _).symm
  | cons s init =>
    rw [List.cons_append, List.cons_append, List.tail_cons, List.tail_cons, List.tail_cons,
      List.dropLast_concat, List.count_append, List.count_cons_of_ne hline]

/-- The first character of a text, if it is no line feed, does not matter for its inner rulers. -/
theorem innerRulers_cons (hn : c ≠ '\n') (cs : List Char) :
    innerRulers (c :: cs) = innerRulers cs := by
  obtain ⟨first, rest, hs⟩ := exists_first_segment '\n' cs
  rw [innerRulers, innerRulers, segments_of_ne hn hs, hs]
  rfl

/-- The last character of a text, if it is no line feed, does not matter for its inner rulers. -/
theorem innerRulers_concat (hn : c ≠ '\n') (cs : List Char) :
    innerRulers (cs ++ [c]) = innerRulers cs := by
  obtain ⟨init, last, hs⟩ := exists_last_segment '\n' cs
  have hc : segments '\n' [c] = [[c]] := segments_of_not_mem (by simpa using hn.symm)
  rw [innerRulers, innerRulers, segments_append hs hc, hs]
  cases init with
  | nil => rfl
  | cons s init => simp

/-- A line stands between two line feeds just where it is neither the first nor the last. -/
theorem mem_inner_segments_iff (hline : '\n' ∉ line) (cs : List Char) :
    line ∈ (segments '\n' cs).tail.dropLast ↔ '\n' :: line ++ ['\n'] <:+: cs := by
  constructor
  · intro h
    obtain ⟨first, rest, hs⟩ := exists_first_segment '\n' cs
    rw [hs, List.tail_cons] at h
    obtain ⟨last, hlast⟩ : ∃ last, rest = rest.dropLast ++ [last] := by
      have hne : rest ≠ [] := by
        rintro rfl
        exact absurd h (by simp)
      exact ⟨_, (List.dropLast_concat_getLast hne).symm⟩
    obtain ⟨before, after, hsplit⟩ := List.append_of_mem h
    have hall : segments '\n' cs = (first :: before) ++ ([line] ++ (after ++ [last])) := by
      rw [hs, hlast, hsplit]
      simp
    rw [← intercalate_segments '\n' cs, hall, intercalate_append (by simp) (by simp),
      intercalate_append (by simp) (by simp), List.intercalate_singleton]
    exact ⟨['\n'].intercalate (first :: before), ['\n'].intercalate (after ++ [last]), by simp⟩
  · rintro ⟨before, after, rfl⟩
    have hlines : segments '\n' (before ++ ('\n' :: line ++ ['\n']) ++ after) =
        segments '\n' before ++ ([line] ++ segments '\n' after) := by
      rw [← segments_of_not_mem hline, ← segments_append_separator, ← segments_append_separator]
      simp
    rw [hlines, List.tail_append_of_ne_nil (segments_ne_nil _ _),
      List.dropLast_append_of_ne_nil (List.append_ne_nil_of_left_ne_nil (List.cons_ne_nil _ _) _),
      List.dropLast_append_of_ne_nil (segments_ne_nil _ _)]
    exact List.mem_append_right _ (List.mem_append_left _ (List.mem_singleton_self line))

/-- A text has no inner rulers just where it holds none. -/
theorem innerRulers_eq_zero_iff (cs : List Char) : innerRulers cs = 0 ↔ ¬ HoldsRuler cs := by
  rw [innerRulers, List.count_eq_zero, mem_inner_segments_iff newline_not_mem_rulerLine]
  rfl

/-! ### Whole lines -/

/-- Whole lines that bring along so many rulers. -/
def AddsRulers (s : String) (n : Nat) : Prop := ∀ ys, rulers (s.toList ++ ys) = n + rulers ys

/-- Whole lines that bring along no ruler just where the condition is met. -/
def ClearIff (s : String) (p : Prop) : Prop := ∃ n, AddsRulers s n ∧ (n = 0 ↔ p)

variable {s t : String} {m n : Nat} {p q : Prop}

theorem AddsRulers.append (hs : AddsRulers s m) (ht : AddsRulers t n) :
    AddsRulers (s ++ t) (m + n) := by
  intro ys
  rw [String.toList_append, List.append_assoc, hs, ht, Nat.add_assoc]

theorem addsRulers_empty : AddsRulers "" 0 := fun ys => (Nat.zero_add (rulers ys)).symm

/-- Whole lines alone have the rulers that they bring along. -/
theorem AddsRulers.rulers_eq (hs : AddsRulers s n) : rulers s.toList = n := by
  have h := hs []
  rwa [List.append_nil] at h

/-- A line with some other character than dashes brings along no ruler. -/
theorem addsRulers_line (hs : '\n' ∉ s.toList) (hc : c ∈ s.toList) (hd : c ≠ '-') :
    AddsRulers (s ++ "\n") 0 := by
  intro ys
  rw [String.toList_append, List.append_assoc, rulers_append_of_mem hs hc hd, Nat.zero_add]
  exact laterRulers_newline ys

/-- A text inside a line brings along its inner rulers. -/
theorem addsRulers_around {front inside back : List Char} {d : Char}
    (hs : s.toList = front ++ (inside ++ d :: (back ++ ['\n']))) (hf : '\n' ∉ front)
    (hc : c ∈ front) (hcd : c ≠ '-') (hd : d ≠ '-') (hb : '\n' ∉ d :: back) :
    AddsRulers s (innerRulers inside) := by
  intro ys
  have hnd : d ≠ '\n' := fun h => hb (h ▸ List.mem_cons_self)
  have hback : '\n' ∉ back := fun h => hb (List.mem_cons_of_mem d h)
  have hsplit : s.toList ++ ys = front ++ (inside ++ d :: (back ++ '\n' :: ys)) := by
    rw [hs]
    simp
  rw [hsplit, rulers_append_of_mem hf hc hcd, laterRulers_append hd hnd,
    laterRulers_append_of_not_mem hback, laterRulers_newline]

/-- A text that is quoted in a line brings along its inner rulers. -/
theorem addsRulers_quoted {front back : String} (inside : String) (hf : '\n' ∉ front.toList)
    (hc : c ∈ front.toList) (hcd : c ≠ '-') (hb : '\n' ∉ back.toList)
    (hd : ∃ d rest, back.toList = d :: rest ∧ d ≠ '-') :
    AddsRulers (front ++ inside ++ back ++ "\n") (innerRulers inside.toList) := by
  obtain ⟨d, rest, hback, hd⟩ := hd
  exact addsRulers_around (by simp [hback]) hf hc hcd hd (hback ▸ hb)

theorem addsRulers_newline : AddsRulers "\n" 0 := by
  intro ys
  rw [Nat.zero_add]
  exact rulers_newline ys

namespace ClearIff

theorem of_addsRulers (hs : AddsRulers s 0) : ClearIff s True := ⟨0, hs, by simp⟩

theorem append (hs : ClearIff s p) (ht : ClearIff t q) : ClearIff (s ++ t) (p ∧ q) := by
  obtain ⟨m, hm, hp⟩ := hs
  obtain ⟨n, hn, hq⟩ := ht
  exact ⟨m + n, hm.append hn, by rw [Nat.add_eq_zero_iff, hp, hq]⟩

theorem congr (hs : ClearIff s p) (h : p ↔ q) : ClearIff s q := by
  obtain ⟨n, hn, hp⟩ := hs
  exact ⟨n, hn, hp.trans h⟩

/-- An empty line behind lines brings along no ruler. -/
theorem newline (h : ClearIff s p) : ClearIff (s ++ "\n") p :=
  (h.append (.of_addsRulers addsRulers_newline)).congr (and_iff_left trivial)

end ClearIff

end CallTrace.Text
