import Mathlib.Data.List.Nodup
import Mathlib.Data.List.Perm.Basic
import CallTrace.Proofs.Json.Texts

/-!
# Values with the same text

Two values have the same canonical text if and only if they differ in the order of members alone,
at whatever depth. The text has no control character in it, so the text of a value on a line of
its own has no other line break than the one behind it, and it is Unicode if all texts within the
value are.
-/

namespace CallTrace.Json

/-- Values that differ in the order of the members of objects alone. -/
inductive Alike : Json → Json → Prop where
  /-- The absent value. -/
  | null : Alike .null .null
  /-- The same truth value. -/
  | bool (b : Bool) : Alike (.bool b) (.bool b)
  /-- The same number. -/
  | int (n : Int) : Alike (.int n) (.int n)
  /-- The same text. -/
  | string (s : Letters) : Alike (.string s) (.string s)
  /-- Arrays whose elements are alike one by one. -/
  | array {elements elements' : List Json} (values : List.Forall₂ Alike elements elements') :
      Alike (.array elements) (.array elements')
  /-- Objects whose members have, in some order, the same keys and values that are alike. -/
  | object {members ordered members' : List (String × Json)} (order : members.Perm ordered)
      (keys : ordered.map Prod.fst = members'.map Prod.fst)
      (values : List.Forall₂ Alike (ordered.map Prod.snd) (members'.map Prod.snd)) :
      Alike (.object members) (.object members')

/-- No object within the value has two members with the same key. -/
inductive DistinctKeys : Json → Prop where
  /-- The absent value has no members. -/
  | null : DistinctKeys .null
  /-- A truth value has no members. -/
  | bool (b : Bool) : DistinctKeys (.bool b)
  /-- A number has no members. -/
  | int (n : Int) : DistinctKeys (.int n)
  /-- A text has no members. -/
  | string (s : Letters) : DistinctKeys (.string s)
  /-- An array has members within its elements only. -/
  | array {elements : List Json} (values : ∀ v ∈ elements, DistinctKeys v) :
      DistinctKeys (.array elements)
  /-- An object has its own members and those within their values. -/
  | object {members : List (String × Json)} (keys : (members.map Prod.fst).Nodup)
      (values : ∀ m ∈ members, DistinctKeys m.2) : DistinctKeys (.object members)

variable {v w : Json} {elements elements' : List Json} {members members' : List (String × Json)}

/-! ### Members in order -/

/-- Members in order are the same as others in order if the one list has what the other has. -/
theorem sortMembers_eq_of_perm {ps qs : List (String × Letters)} (hkeys : (ps.map Prod.fst).Nodup)
    (h : ps.Perm qs) : sortMembers ps = sortMembers qs := by
  have hsorted : ∀ rs : List (String × Letters),
      (sortMembers rs).Pairwise fun a b => decide (a.1 ≤ b.1) = true := by
    intro rs
    refine List.pairwise_mergeSort ?_ ?_ rs
    · intro a b c hab hbc
      exact decide_eq_true (String.le_trans (of_decide_eq_true hab) (of_decide_eq_true hbc))
    · intro a b
      simpa using String.le_total a.1 b.1
  have hsame : (sortMembers ps).Perm (sortMembers qs) :=
    (List.mergeSort_perm ps _).trans (h.trans (List.mergeSort_perm qs _).symm)
  refine hsame.eq_of_pairwise ?_ (hsorted ps) (hsorted qs)
  intro a b ha hb hab hba
  have hkey : a.1 = b.1 :=
    String.le_antisymm (of_decide_eq_true hab) (of_decide_eq_true hba)
  exact List.inj_on_of_nodup_map hkeys (List.mem_mergeSort.mp ha)
    (h.mem_iff.mpr (List.mem_mergeSort.mp hb)) hkey

theorem map_fst_memberTexts (members : List (String × Json)) :
    (memberTexts members).map Prod.fst = members.map Prod.fst := by
  rw [memberTexts_eq, List.map_map]
  rfl

theorem map_snd_memberTexts (members : List (String × Json)) :
    (memberTexts members).map Prod.snd = elementTexts (members.map Prod.snd) := by
  rw [memberTexts_eq, elementTexts_eq, List.map_map, List.map_map]
  rfl

/-- The texts of members are known by the keys and by the texts of the values. -/
theorem memberTexts_eq_iff : memberTexts members = memberTexts members' ↔
    members.map Prod.fst = members'.map Prod.fst ∧
      elementTexts (members.map Prod.snd) = elementTexts (members'.map Prod.snd) := by
  have hzip : ∀ ms : List (String × Json),
      memberTexts ms = (ms.map Prod.fst).zip (elementTexts (ms.map Prod.snd)) := by
    intro ms
    rw [memberTexts_eq, elementTexts_eq, List.map_map, List.zip_map']
    rfl
  constructor
  · intro h
    constructor
    · rw [← map_fst_memberTexts, h, map_fst_memberTexts]
    · rw [← map_snd_memberTexts, h, map_snd_memberTexts]
  · intro ⟨hkeys, hvalues⟩
    rw [hzip, hzip, hkeys, hvalues]

/-- Members with the same texts up to their order have the same texts in some order. -/
theorem exists_perm_of_perm_memberTexts (h : (memberTexts members).Perm (memberTexts members')) :
    ∃ ordered, members.Perm ordered ∧ memberTexts ordered = memberTexts members' := by
  let r : String × Json → String × Letters → Prop := fun m p => (m.1, m.2.canonical) = p
  have hmap : ∀ ms ps, List.Forall₂ r ms ps ↔ memberTexts ms = ps := by
    intro ms ps
    rw [memberTexts_eq, ← List.forall₂_eq_eq_eq, List.forall₂_map_left_iff]
  have hcomp : Relation.Comp (List.Forall₂ r) List.Perm members (memberTexts members') :=
    ⟨memberTexts members, (hmap _ _).mpr rfl, h⟩
  rw [List.forall₂_comp_perm_eq_perm_comp_forall₂] at hcomp
  obtain ⟨ordered, horder, htexts⟩ := hcomp
  exact ⟨ordered, horder, (hmap _ _).mp htexts⟩

/-! ### Values that are alike have the same text, and no others -/

theorem elementTexts_eq_iff : elementTexts elements = elementTexts elements' ↔
    List.Forall₂ (fun v w => v.canonical = w.canonical) elements elements' := by
  rw [elementTexts_eq, elementTexts_eq, ← List.forall₂_eq_eq_eq, List.forall₂_map_left_iff,
    List.forall₂_map_right_iff]

/-- Of values that are related one by one, one relation can be had for another value by value. -/
theorem forall₂_imp_of_mem {R S : Json → Json → Prop} (h : List.Forall₂ R elements elements')
    (himp : ∀ v ∈ elements, ∀ w, R v w → S v w) : List.Forall₂ S elements elements' := by
  have hmem := (List.forall₂_and_left elements elements').mpr ⟨fun v hv => hv, h⟩
  exact hmem.imp fun v w hvw => himp v hvw.1 w hvw.2

/-- Values that are alike have the same text, whatever order their members are in. -/
theorem Alike.canonical_eq (h : v.Alike w) (hkeys : v.DistinctKeys) :
    v.canonical = w.canonical := by
  induction v generalizing w with
  | null => cases h; rfl
  | bool b => cases h; rfl
  | int n => cases h; rfl
  | string s => cases h; rfl
  | array elements ih =>
    cases h with
    | array hvalues =>
      cases hkeys with
      | array hwithin =>
        have htexts := elementTexts_eq_iff.mpr <| forall₂_imp_of_mem hvalues fun v hv w hvw =>
          ih v hv hvw (hwithin v hv)
        rw [canonical, htexts, canonical]
  | object members ih =>
    cases h with
    | @object _ ordered members' horder hsame hvalues =>
      cases hkeys with
      | object hdistinct hwithin =>
        have htexts :
            elementTexts (ordered.map Prod.snd) = elementTexts (members'.map Prod.snd) := by
          refine elementTexts_eq_iff.mpr (forall₂_imp_of_mem hvalues fun v hv w hvw => ?_)
          obtain ⟨m, hm, rfl⟩ := List.mem_map.mp hv
          have hmem := horder.mem_iff.mpr hm
          exact ih m hmem hvw (hwithin m hmem)
        have hperm : (memberTexts members).Perm (memberTexts members') := by
          rw [← memberTexts_eq_iff.mpr ⟨hsame, htexts⟩, memberTexts_eq, memberTexts_eq]
          exact horder.map _
        rw [← map_fst_memberTexts] at hdistinct
        rw [canonical, sortMembers_eq_of_perm hdistinct hperm, canonical]

/-- Values with the same text are alike. -/
theorem alike_of_canonical_eq (h : v.canonical = w.canonical) : v.Alike w := by
  have hshape : ∀ {v w : Json}, v.canonical = w.canonical → v.shape = w.shape := by
    intro v w he
    have hbehind : v.canonical ++ [] = w.canonical ++ [] := by rw [he]
    exact shape_eq_of_append hbehind
  induction v generalizing w with
  | null =>
    cases w <;> cases hshape h
    exact .null
  | bool b =>
    cases w <;> cases hshape h
    exact .bool b
  | int m =>
    cases w <;> cases hshape h
    rw [eq_of_repr h]
    exact .int _
  | string s =>
    cases w <;> cases hshape h
    rw [(eq_of_quote_append (congrArg (· ++ []) h)).1]
    exact .string _
  | array elements ih =>
    cases w <;> cases hshape h
    have htexts := elementTexts_eq_of_append (fun v _ w _ => toldApart v w) (congrArg (· ++ []) h)
    exact .array (forall₂_imp_of_mem (elementTexts_eq_iff.mp htexts) fun v hv w he => ih v hv he)
  | object members ih =>
    cases w with
    | object members' =>
      have hsorted := sortMembers_eq_of_append (fun m _ m' _ => toldApart m.2 m'.2)
        (congrArg (· ++ []) h)
      have hperm : (memberTexts members).Perm (memberTexts members') :=
        (List.mergeSort_perm _ _).symm.trans
          ((List.Perm.of_eq hsorted).trans (List.mergeSort_perm _ _))
      obtain ⟨ordered, horder, htexts⟩ := exists_perm_of_perm_memberTexts hperm
      obtain ⟨hkeys, hvalues⟩ := memberTexts_eq_iff.mp htexts
      have hsame := elementTexts_eq_iff.mp hvalues
      refine .object horder hkeys (forall₂_imp_of_mem hsame fun v hv w he => ?_)
      obtain ⟨m, hm, rfl⟩ := List.mem_map.mp hv
      exact ih m (horder.mem_iff.mpr hm) he
    | _ => cases hshape h

/-! ### The letters of the text -/

/-- The property holds of every text within the value that is no key. -/
inductive HasTexts (P : Letters → Prop) : Json → Prop where
  /-- The absent value has no texts. -/
  | null : HasTexts P .null
  /-- A truth value has no texts. -/
  | bool (b : Bool) : HasTexts P (.bool b)
  /-- A number has no texts. -/
  | int (n : Int) : HasTexts P (.int n)
  /-- A text. -/
  | string {s : Letters} (text : P s) : HasTexts P (.string s)
  /-- An array has texts within its elements. -/
  | array {elements : List Json} (values : ∀ v ∈ elements, HasTexts P v) :
      HasTexts P (.array elements)
  /-- An object has texts within the values of its members. -/
  | object {members : List (String × Json)} (values : ∀ m ∈ members, HasTexts P m.2) :
      HasTexts P (.object members)

/-- What holds of all texts holds of those within a value. -/
theorem hasTexts_of_forall {P : Letters → Prop} (h : ∀ s, P s) (v : Json) : v.HasTexts P := by
  induction v with
  | null => exact .null
  | bool b => exact .bool b
  | int n => exact .int n
  | string s => exact .string (h s)
  | array elements ih => exact .array ih
  | object members ih => exact .object ih

theorem HasTexts.imp {P Q : Letters → Prop} (himp : ∀ s, P s → Q s) (h : v.HasTexts P) :
    v.HasTexts Q := by
  induction h with
  | null => exact .null
  | bool b => exact .bool b
  | int n => exact .int n
  | string text => exact .string (himp _ text)
  | array _ ih => exact .array ih
  | object _ ih => exact .object ih

theorem mem_commaSeparated {l : Letter} {texts : List Letters} (h : l ∈ commaSeparated texts) :
    l = .char ',' ∨ ∃ text ∈ texts, l ∈ text := by
  cases texts with
  | nil => cases h
  | cons text texts =>
    rw [commaSeparated_cons, List.mem_append, List.mem_flatMap] at h
    rcases h with h | ⟨text', htext', h⟩
    · exact .inr ⟨text, List.mem_cons_self, h⟩
    · rcases List.mem_cons.mp h with h | h
      · exact .inl h
      · exact .inr ⟨text', List.mem_cons_of_mem _ htext', h⟩

section

-- The property is one of the characters that are no control characters, as those of the notation.
variable {P : Letter → Prop} (hchar : ∀ c : Char, 32 ≤ c.toNat → P (.char c))
include hchar

theorem forall_mem_of_all {text : Letters}
    (h : text.all (fun l => l.char?.any fun c => 32 ≤ c.toNat) = true) : ∀ l ∈ text, P l := by
  intro l hl
  have hone := List.all_eq_true.mp h l hl
  cases l with
  | half a => cases hone
  | char c => exact hchar c (of_decide_eq_true hone)

theorem forall_mem_quote {s : Letters} (h : ∀ k ∈ s, ∀ l ∈ escape k, P l) : ∀ l ∈ quote s, P l := by
  intro l hl
  simp only [quote, List.cons_append, List.mem_cons, List.mem_append, List.mem_flatMap,
    List.not_mem_nil, or_false] at hl
  rcases hl with rfl | ⟨k, hk, hl⟩ | rfl
  · exact hchar _ (by decide)
  · exact h k hk l hl
  · exact hchar _ (by decide)

/-- The form of a character has no control character in it. -/
theorem forall_mem_escape_char (c : Char) : ∀ l ∈ escape (.char c), P l := by
  intro l hl
  obtain ⟨d, hd, rfl⟩ := List.mem_map.mp hl
  exact hchar d (le_toNat_of_mem_escapeChar hd)

theorem forall_mem_brackets {opening closing : Char} {texts : List Letters}
    (hopening : 32 ≤ opening.toNat) (hclosing : 32 ≤ closing.toNat)
    (htexts : ∀ text ∈ texts, ∀ l ∈ text, P l) :
    ∀ l ∈ Letter.char opening :: commaSeparated texts ++ [.char closing], P l := by
  intro l hl
  simp only [List.cons_append, List.mem_cons, List.mem_append, List.not_mem_nil, or_false] at hl
  rcases hl with rfl | hl | rfl
  · exact hchar _ hopening
  · rcases mem_commaSeparated hl with rfl | ⟨text, htext, h⟩
    · exact hchar _ (by decide)
    · exact htexts text htext l h
  · exact hchar _ hclosing

theorem forall_mem_repr (n : Int) : ∀ l ∈ Letters.ofString n.repr, P l := by
  intro l hl
  have hnumber := inNumber_of_mem_repr n hl
  cases l with
  | half a => cases hnumber
  | char c =>
    rw [inNumber, Bool.or_eq_true, decide_eq_true_eq] at hnumber
    rcases hnumber with rfl | hdigit
    · exact hchar _ (by decide)
    · have hlow := (Text.toNat_of_isDigit hdigit).1
      exact hchar c (by omega)

/-- What holds of the forms of the letters of all texts within a value holds of its text. -/
theorem forall_mem_canonical {v : Json}
    (h : v.HasTexts fun s => ∀ k ∈ s, ∀ l ∈ escape k, P l) : ∀ l ∈ v.canonical, P l := by
  induction v with
  | null => exact forall_mem_of_all hchar (by decide)
  | bool b => cases b <;> exact forall_mem_of_all hchar (by decide)
  | int n => exact forall_mem_repr hchar n
  | string s =>
    cases h with
    | string htext => exact forall_mem_quote hchar htext
  | array elements ih =>
    cases h with
    | array hvalues =>
      refine forall_mem_brackets hchar (by decide) (by decide) ?_
      rw [elementTexts_eq]
      exact List.forall_mem_map.mpr fun v hv => ih v hv (hvalues v hv)
  | object members ih =>
    cases h with
    | object hvalues =>
      refine forall_mem_brackets hchar (by decide) (by decide) (List.forall_mem_map.mpr ?_)
      intro p hp l hl
      obtain ⟨m, hm, rfl⟩ := exists_of_mem_sortMembers hp
      rw [memberText, List.mem_append, List.mem_cons] at hl
      rcases hl with hl | rfl | hl
      · refine forall_mem_quote hchar (fun k hk => ?_) l hl
        obtain ⟨c, -, rfl⟩ := List.mem_map.mp hk
        exact forall_mem_escape_char hchar c
      · exact hchar _ (by decide)
      · exact ih m hm (hvalues m hm) l hl

end

/-- The text of a value has no control character in it. -/
theorem le_toNat_of_mem_canonical (v : Json) : ∀ l ∈ v.canonical, 32 ≤ l.toNat := by
  refine forall_mem_canonical (fun c hc => hc) (v.hasTexts_of_forall fun s k _ => ?_)
  cases k with
  | char c => exact forall_mem_escape_char (fun c hc => hc) c
  | half a =>
    intro l hl
    cases List.mem_singleton.mp hl
    exact Nat.le_trans (by decide : 32 ≤ firstHalf) (Nat.le_add_right _ _)

/-- All texts within the value are Unicode. -/
def IsUnicode (v : Json) : Prop := v.HasTexts fun s => ∀ l ∈ s, l.isHalf = false

/-- The text of a value whose texts are Unicode is Unicode. -/
theorem IsUnicode.canonical {v : Json} (h : v.IsUnicode) : ∀ l ∈ v.canonical, l.isHalf = false := by
  have hchar : ∀ c : Char, 32 ≤ c.toNat → (Letter.char c).isHalf = false := fun _ _ => rfl
  refine forall_mem_canonical hchar (h.imp fun s hs k hk => ?_)
  have hletter := hs k hk
  cases k with
  | char c => exact forall_mem_escape_char hchar c
  | half a => cases hletter

theorem subset_commaSeparated {text : Letters} {texts : List Letters} (h : text ∈ texts) :
    text ⊆ commaSeparated texts := by
  intro l hl
  cases texts with
  | nil => cases h
  | cons first texts =>
    rw [commaSeparated_cons, List.mem_append, List.mem_flatMap]
    rcases List.mem_cons.mp h with rfl | h
    · exact .inl hl
    · exact .inr ⟨text, h, List.mem_cons_of_mem _ hl⟩

/-- A value whose text is Unicode has no other texts within it. -/
theorem isUnicode_of_canonical {v : Json} (h : ∀ l ∈ v.canonical, l.isHalf = false) :
    v.IsUnicode := by
  have hinner : ∀ {opening closing : Letter} {texts : List Letters} {text : Letters},
      (∀ l ∈ opening :: commaSeparated texts ++ [closing], l.isHalf = false) →
        text ∈ texts → ∀ l ∈ text, l.isHalf = false := by
    intro opening closing texts text hall htext l hl
    exact hall l (List.mem_append_left _ (List.mem_cons_of_mem _ (subset_commaSeparated htext hl)))
  induction v with
  | null => exact .null
  | bool b => exact .bool b
  | int n => exact .int n
  | string s =>
    refine .string fun k hk => ?_
    cases k with
    | char c => rfl
    | half a =>
      refine h _ (List.mem_append_left _ (List.mem_cons_of_mem _ ?_))
      exact List.mem_flatMap.mpr ⟨_, hk, List.mem_singleton_self _⟩
  | array elements ih =>
    refine .array fun v hv => ih v hv (hinner h ?_)
    rw [elementTexts_eq]
    exact List.mem_map_of_mem hv
  | object members ih =>
    refine .object fun m hm => ih m hm fun l hl => ?_
    have htext : memberText (m.1, m.2.canonical) ∈
        (sortMembers (memberTexts members)).map memberText := by
      refine List.mem_map_of_mem ((List.mergeSort_perm _ _).mem_iff.mpr ?_)
      rw [memberTexts_eq]
      exact List.mem_map.mpr ⟨m, hm, rfl⟩
    exact hinner h htext l (List.mem_append_right _ (List.mem_cons_of_mem _ hl))

end CallTrace.Json
