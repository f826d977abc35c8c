import Mathlib.Data.List.Basic
import CallTrace.Disk.FileSystem
import CallTrace.Proofs.Text.Letters
import CallTrace.Proofs.Text.Segments

/-!
# Paths above a path

A path above another starts where it starts and has the first of its names. Its text is no
longer, so a disk that can be asked for a path can be asked for all paths above it, and a text
in quotes grows with the text.
-/

namespace CallTrace

namespace Path

/-- One path passes through the other on its way, and goes on behind it. -/
def IsAbove (above p : Path) : Prop :=
  above.start = p.start ∧ ∃ name more, p.names = above.names ++ name :: more

/-- A path that a disk can be asked for: its text has bytes, not too many, and none is null. -/
structure Usable (p : Path) : Prop where
  /-- Each half in its text stands for a byte. -/
  noStray : ∀ l ∈ p.text, l.isStray = false
  /-- There is no null character in its text. -/
  noNull : .char '\x00' ∉ p.text
  /-- Its text takes less bytes than the limit. -/
  short : p.text.bytes.length < pathLimit

/-- Why a disk refuses to be asked for a path. -/
inductive Unusable (p : Path) : DiskError → Prop
  /-- A half in its text stands for no byte. -/
  | stray {e : EncodingError} (h : p.text.systemBytes = .error e) : Unusable p (.unencodable e)
  /-- There is a null character in its text. -/
  | null (h : p.text.systemBytes = .ok p.text.bytes) (hnull : .char '\x00' ∈ p.text) :
    Unusable p .nullCharacter
  /-- Its text is too long. -/
  | long (h : p.text.systemBytes = .ok p.text.bytes) (hnull : .char '\x00' ∉ p.text)
    (hlong : pathLimit ≤ p.text.bytes.length) :
    Unusable p (.refused .nameTooLong (some p.text))

variable {p above : Path}

theorem usable_or_unusable (p : Path) : p.Usable ∨ ∃ e, p.Unusable e := by
  cases hbytes : p.text.systemBytes with
  | error e => exact .inr ⟨_, .stray hbytes⟩
  | ok bytes =>
    obtain ⟨hstray, rfl⟩ := Letters.systemBytes_eq_ok_iff.mp hbytes
    by_cases hnull : .char '\x00' ∈ p.text
    · exact .inr ⟨_, .null hbytes hnull⟩
    · rcases Nat.lt_or_ge p.text.bytes.length pathLimit with hshort | hlong
      · exact .inl ⟨hstray, hnull, hshort⟩
      · exact .inr ⟨_, .long hbytes hnull hlong⟩

theorem Usable.systemBytes (h : p.Usable) : p.text.systemBytes = .ok p.text.bytes :=
  Letters.systemBytes_eq_ok_iff.mpr ⟨h.noStray, rfl⟩

theorem Unusable.not_usable {e : DiskError} (h : p.Unusable e) : ¬ p.Usable := by
  intro husable
  cases h with
  | stray hbytes => cases hbytes.symm.trans husable.systemBytes
  | null _ hnull => exact husable.noNull hnull
  | long _ _ hlong => exact absurd husable.short (Nat.not_lt.mpr hlong)

theorem IsAbove.trans {q : Path} (h : above.IsAbove p) (h' : p.IsAbove q) : above.IsAbove q := by
  obtain ⟨hs, name, more, hn⟩ := h
  obtain ⟨hs', name', more', hn'⟩ := h'
  exact ⟨hs.trans hs', name, more ++ name' :: more', by rw [hn', hn, List.append_assoc]; rfl⟩

/-- The names of a path are those of its parent and one more. -/
theorem names_eq_append (h : p.names ≠ []) : ∃ name, p.names = p.parent.names ++ [name] :=
  ⟨p.names.getLast h, (List.dropLast_concat_getLast h).symm⟩

theorem isAbove_parent (h : p.names ≠ []) : p.parent.IsAbove p := by
  obtain ⟨name, hn⟩ := names_eq_append h
  exact ⟨rfl, name, [], hn⟩

/-- A path above another is its parent, or is above its parent. -/
theorem IsAbove.eq_parent_or (h : above.IsAbove p) :
    p.names ≠ [] ∧ (above = p.parent ∨ above.IsAbove p.parent) := by
  obtain ⟨hs, name, more, hn⟩ := h
  refine ⟨by simp [hn], ?_⟩
  rcases List.eq_nil_or_concat more with rfl | ⟨init, last, rfl⟩
  · left
    obtain ⟨start, names⟩ := above
    rw [parent, hn, List.dropLast_concat, ← hs]
  · have hnames : p.names = (above.names ++ name :: init) ++ [last] := by
      rw [hn, List.concat_eq_append, List.append_assoc, List.cons_append]
    exact .inr ⟨hs, name, init, by rw [parent, hnames, List.dropLast_concat]⟩

theorem text_of_names_ne_nil (h : p.names ≠ []) :
    p.text = p.start.text ++ [.char '/'].intercalate p.names := by
  rw [text, if_neg fun hp => h hp.2]

/-- Behind the text of a path above it, the text of a path goes on with a slash. -/
theorem IsAbove.text_eq (h : above.IsAbove p) (hne : above.names ≠ []) :
    ∃ rest, p.text = above.text ++ .char '/' :: rest := by
  obtain ⟨hs, name, more, hn⟩ := h
  have hp : p.names ≠ [] := by simp [hn]
  refine ⟨[.char '/'].intercalate (name :: more), ?_⟩
  rw [text_of_names_ne_nil hp, text_of_names_ne_nil hne, hs, hn,
    Text.intercalate_append hne (List.cons_ne_nil _ _), List.append_assoc]

/-- A path without names can always be asked for. -/
theorem usable_of_names_eq_nil (h : p.names = []) : p.Usable := by
  obtain ⟨start, names⟩ := p
  cases h
  cases start with
  | working => exact ⟨by decide, by decide, by decide⟩
  | root => exact ⟨by decide, by decide, by decide⟩
  | doubleRoot => exact ⟨by decide, by decide, by decide⟩

theorem IsAbove.usable (h : above.IsAbove p) (hp : p.Usable) : above.Usable := by
  rcases eq_or_ne above.names [] with hnil | hne
  · exact usable_of_names_eq_nil hnil
  · obtain ⟨rest, htext⟩ := h.text_eq hne
    have hstray := hp.noStray
    have hnull := hp.noNull
    have hshort := hp.short
    rw [htext] at hstray hnull hshort
    rw [Letters.bytes_append, List.length_append] at hshort
    exact ⟨fun l hl => hstray l (List.mem_append_left _ hl),
      fun hmem => hnull (List.mem_append_left _ hmem), by omega⟩

end Path

namespace Text

theorem enclosingQuote_cases (s : Letters) : enclosingQuote s = '"' ∨ enclosingQuote s = '\'' := by
  unfold enclosingQuote
  split
  · exact .inl rfl
  · exact .inr rfl

/-- A text that has the character of its quotes in it keeps its quotes when it grows. -/
theorem enclosingQuote_of_mem {s : Letters} (t : Letters) (h : .char (enclosingQuote s) ∈ s) :
    enclosingQuote (s ++ t) = enclosingQuote s := by
  unfold enclosingQuote at h ⊢
  split at h
  · next hq =>
    simp [h] at hq
  · next hq =>
    simp only [Bool.and_eq_true, Bool.not_eq_true', not_and, Bool.not_eq_false,
      List.contains_iff_mem] at hq
    simp [hq h, h]

theorem length_codeEscape_pos (n : Nat) : 0 < (codeEscape n).length := by
  unfold codeEscape
  split_ifs <;> simp

theorem length_quotedLetter_pos (quote : Char) (l : Letter) :
    0 < (quotedLetter quote l).length := by
  cases l with
  | half h => exact length_codeEscape_pos _
  | char c =>
    rw [quotedLetter]
    split_ifs <;> first | exact length_codeEscape_pos _ | simp

/-- Within a longer text a letter takes no less room between the quotes. -/
theorem length_quotedLetter_le {s : Letters} (t : Letters) {l : Letter} (hl : l ∈ s) :
    (quotedLetter (enclosingQuote s) l).length ≤
      (quotedLetter (enclosingQuote (s ++ t)) l).length := by
  cases l with
  | half h => exact Nat.le_refl _
  | char c =>
    rcases eq_or_ne c (enclosingQuote s) with hq | hq
    · exact Nat.le_of_eq (by rw [enclosingQuote_of_mem t (hq ▸ hl)])
    · rcases ne_or_eq c (enclosingQuote (s ++ t)) with hq' | rfl
      · simp only [quotedLetter, hq, hq', Nat.le_refl]
      · -- A quote that is not the one that encloses the shorter text stands there as it is.
        have hplain :
            (quotedLetter (enclosingQuote s) (.char (enclosingQuote (s ++ t)))).length = 1 := by
          rcases enclosingQuote_cases (s ++ t) with h | h <;>
            rcases enclosingQuote_cases s with h' | h' <;> rw [h, h'] at hq ⊢ <;>
            first | exact absurd rfl hq | decide
        rw [hplain]
        exact length_quotedLetter_pos _ _

/-- A text between quotes is longer than that of a text it begins with. -/
theorem length_quoted_lt {s rest : Letters} (h : rest ≠ []) :
    (quoted s).length < (quoted (s ++ rest)).length := by
  have hle : ∀ t ⊆ s,
      (t.flatMap (quotedLetter (enclosingQuote s))).length ≤
        (t.flatMap (quotedLetter (enclosingQuote (s ++ rest)))).length := by
    intro t ht
    induction t with
    | nil => exact Nat.le_refl _
    | cons l t ih =>
      obtain ⟨hl, ht⟩ := List.cons_subset.mp ht
      simp only [List.flatMap_cons, List.length_append]
      exact Nat.add_le_add (length_quotedLetter_le rest hl) (ih ht)
  obtain ⟨l, ls, hrest⟩ := List.exists_cons_of_ne_nil h
  have hpos := length_quotedLetter_pos (enclosingQuote (s ++ rest)) l
  have hall := hle s (List.Subset.refl _)
  simp only [quoted, String.length_ofList, List.length_append, List.length_cons,
    List.flatMap_append, List.flatMap_cons, hrest] at hall hpos ⊢
  omega

end Text

end CallTrace
