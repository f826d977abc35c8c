import Mathlib.Data.List.Basic
import CallTrace.Json.Canonical
import CallTrace.Proofs.Text.Letters
import CallTrace.Proofs.Text.Numerals

/-!
# Texts of values

Where the text of a value ends can be told from what stands before the end, but for a number, which
ends where something stands that is no part of it. So of two texts in which values follow each
other, with commas between them and a bracket behind the last, the values have the same texts one
by one if the whole texts are the same.
-/

namespace CallTrace.Json

/-- What holds of a value if it holds of all directly within it holds of all values. -/
@[elab_as_elim, induction_eliminator]
theorem induction {P : Json → Prop} (null : P .null) (bool : ∀ b, P (.bool b))
    (int : ∀ n, P (.int n)) (string : ∀ s, P (.string s))
    (array : ∀ elements, (∀ v ∈ elements, P v) → P (.array elements))
    (object : ∀ members, (∀ m ∈ members, P m.2) → P (.object members)) (v : Json) : P v :=
  @Json.rec P (fun elements => ∀ v ∈ elements, P v) (fun members => ∀ m ∈ members, P m.2)
    (fun m => P m.2) null bool int string array object (List.forall_mem_nil _)
    (fun _ _ h hs => List.forall_mem_cons.mpr ⟨h, hs⟩) (List.forall_mem_nil _)
    (fun _ _ h hs => List.forall_mem_cons.mpr ⟨h, hs⟩) (fun _ _ h => h) v

theorem elementTexts_eq (elements : List Json) :
    elementTexts elements = elements.map canonical := by
  induction elements with
  | nil => rfl
  | cons v elements ih => rw [elementTexts, ih, List.map_cons]

theorem memberTexts_eq (members : List (String × Json)) :
    memberTexts members = members.map fun m => (m.1, m.2.canonical) := by
  induction members with
  | nil => rfl
  | cons m members ih => rw [memberTexts, ih, List.map_cons]

/-! ### Quoted texts -/

variable {c d : Char} {k l : Letter} {ks ls rest rest' : Letters} {text text' : Letters}

/-- The codes of the characters that do not stand for themselves between quotes. -/
def escapedCodes : List Nat := '"'.toNat :: '\\'.toNat :: List.range 32

theorem escapeChar_of_plain (h : c.toNat ∉ escapedCodes) : escapeChar c = [c] := by
  have hall : ∀ d : Char, d.toNat ∈ escapedCodes → c ≠ d := by
    rintro d hd rfl
    exact h hd
  have hlow : ¬ c.toNat < 32 := fun hlt => h (by simp [escapedCodes, hlt])
  rw [escapeChar, if_neg (hall _ (by decide)), if_neg (hall _ (by decide)),
    if_neg (hall _ (by decide)), if_neg (hall _ (by decide)), if_neg (hall _ (by decide)),
    if_neg (hall _ (by decide)), if_neg (hall _ (by decide)), if_neg hlow]

/-- Of two escapes neither is the beginning of the other. -/
theorem eq_of_escape_front : ∀ m ∈ escapedCodes, ∀ n ∈ escapedCodes,
    escapeChar (Char.ofNat m) <+: escapeChar (Char.ofNat n) → m = n := by
  decide +kernel

/-- An escape begins with a backslash and has no control character in it. -/
theorem escape_begins : ∀ n ∈ escapedCodes, (escapeChar (Char.ofNat n)).head? = some '\\' ∧
    (escapeChar (Char.ofNat n)).all (fun d => 32 ≤ d.toNat) = true := by
  decide +kernel

/-- Between quotes a character stands for itself, or it is written behind a backslash. -/
theorem escapeChar_cases (c : Char) :
    (c.toNat ∉ escapedCodes ∧ escapeChar c = [c]) ∨
      (c.toNat ∈ escapedCodes ∧ ∃ more, escapeChar c = '\\' :: more) := by
  by_cases h : c.toNat ∈ escapedCodes
  · have hbegins := (escape_begins c.toNat h).1
    rw [Char.ofNat_toNat] at hbegins
    exact .inr ⟨h, _, (List.eq_cons_of_mem_head? hbegins)⟩
  · exact .inl ⟨h, escapeChar_of_plain h⟩

/-- Of the forms of two characters neither is the beginning of the other. -/
theorem eq_of_escapeChar_isPrefix (h : escapeChar c <+: escapeChar d) : c = d := by
  obtain ⟨rest, h⟩ := h
  rcases escapeChar_cases c with ⟨hc, hplain⟩ | ⟨hc, more, hescape⟩ <;>
    rcases escapeChar_cases d with ⟨hd, hplain'⟩ | ⟨hd, more', hescape'⟩
  · rw [hplain, hplain'] at h
    exact (List.cons.inj h).1
  · rw [hplain, hescape'] at h
    rw [(List.cons.inj h).1] at hc
    exact absurd (by decide) hc
  · rw [hescape, hplain'] at h
    rw [← (List.cons.inj h).1] at hd
    exact absurd (by decide) hd
  · have hfront : escapeChar (Char.ofNat c.toNat) <+: escapeChar (Char.ofNat d.toNat) := by
      rw [Char.ofNat_toNat, Char.ofNat_toNat]
      exact ⟨rest, h⟩
    rw [← Char.ofNat_toNat c, eq_of_escape_front _ hc _ hd hfront, Char.ofNat_toNat]

/-- No control character stands between quotes. -/
theorem le_toNat_of_mem_escapeChar (h : d ∈ escapeChar c) : 32 ≤ d.toNat := by
  by_cases hc : c.toNat ∈ escapedCodes
  · have hall := (escape_begins c.toNat hc).2
    rw [Char.ofNat_toNat] at hall
    exact of_decide_eq_true (List.all_eq_true.mp hall d h)
  · rw [escapeChar_of_plain hc, List.mem_singleton] at h
    have hrange : c.toNat ∉ List.range 32 := fun hr =>
      hc (List.mem_cons_of_mem _ (List.mem_cons_of_mem _ hr))
    rw [h]
    exact Nat.not_lt.mp (mt List.mem_range.mpr hrange)

/-- The form of a character begins with a character other than a quote. -/
theorem escapeChar_begins (c : Char) : ∃ d more, escapeChar c = d :: more ∧ d ≠ '"' := by
  rcases escapeChar_cases c with ⟨hc, hplain⟩ | ⟨-, more, hescape⟩
  · refine ⟨c, [], hplain, ?_⟩
    rintro rfl
    exact hc (by decide)
  · exact ⟨'\\', more, hescape, by decide⟩

/-- Of the forms of two letters neither is the beginning of the other. -/
theorem eq_of_escape_isPrefix (h : escape k <+: escape l) : k = l := by
  obtain ⟨rest, h⟩ := h
  cases k with
  | half a =>
    cases l with
    | half b => exact (List.cons.inj h).1
    | char d =>
      obtain ⟨e, more, he, -⟩ := escapeChar_begins d
      rw [escape, escape, he] at h
      cases (List.cons.inj h).1
  | char c =>
    cases l with
    | half b =>
      obtain ⟨e, more, he, -⟩ := escapeChar_begins c
      rw [escape, escape, he] at h
      cases (List.cons.inj h).1
    | char d =>
      obtain ⟨front, back, hd, hfront, -⟩ := List.map_eq_append_iff.mp h.symm
      have hsame : front = escapeChar c := (List.map_inj_right fun _ _ => Letter.char.inj).mp hfront
      rw [hsame] at hd
      rw [eq_of_escapeChar_isPrefix ⟨back, hd.symm⟩]

/-- Between quotes each letter can be told from what stands there. -/
theorem eq_of_escape_append (h : escape k ++ rest = escape l ++ rest') : k = l ∧ rest = rest' := by
  have hprefix : escape k <+: escape l ++ rest' := h ▸ List.prefix_append _ _
  have hsame : k = l := by
    rcases List.prefix_or_prefix_of_prefix hprefix (List.prefix_append _ rest') with hp | hp
    · exact eq_of_escape_isPrefix hp
    · exact (eq_of_escape_isPrefix hp).symm
  rw [hsame] at h
  exact ⟨hsame, List.append_cancel_left h⟩

/-- The closing quote can be told from all that stands between the quotes. -/
theorem eq_of_escapes_append
    (h : ks.flatMap escape ++ .char '"' :: rest = ls.flatMap escape ++ .char '"' :: rest') :
    ks = ls ∧ rest = rest' := by
  have hquote : ∀ (l : Letter) (tail tail' : Letters), .char '"' :: tail ≠ escape l ++ tail' := by
    intro l tail tail' he
    cases l with
    | half a => cases he
    | char c =>
      obtain ⟨d, more, hc, hd⟩ := escapeChar_begins c
      rw [escape, hc] at he
      cases he
      exact hd rfl
  induction ks generalizing ls with
  | nil =>
    cases ls with
    | nil => exact ⟨rfl, (List.cons.inj h).2⟩
    | cons l ls =>
      rw [List.flatMap_cons, List.append_assoc] at h
      exact absurd h (hquote l _ _)
  | cons k ks ih =>
    cases ls with
    | nil =>
      rw [List.flatMap_cons, List.append_assoc] at h
      exact absurd h.symm (hquote k _ _)
    | cons l ls =>
      rw [List.flatMap_cons, List.flatMap_cons, List.append_assoc, List.append_assoc] at h
      have hfirst := eq_of_escape_append h
      have hmore := ih hfirst.2
      exact ⟨by rw [hfirst.1, hmore.1], hmore.2⟩

/-- A quoted text can be told from what stands behind it, and is known by its form. -/
theorem eq_of_quote_append {s s' : Letters} (h : quote s ++ rest = quote s' ++ rest') :
    s = s' ∧ rest = rest' := by
  simp only [quote, List.cons_append, List.append_assoc, List.cons.injEq, true_and,
    List.nil_append] at h
  exact eq_of_escapes_append h

/-! ### Texts with something behind them -/

/-- The letters that can stand behind a value within a text. -/
def closers : Letters := [.char ',', .char ']', .char '}']

/-- What stands behind a value within a text, if anything does. -/
def Closes (rest : Letters) : Prop := ∀ l ∈ rest.head?, l ∈ closers

/-- Two texts cannot both stand in front of the same, unless they are the same. -/
def ToldApart (text text' : Letters) : Prop :=
  ∀ rest rest', Closes rest → Closes rest' → text ++ rest = text' ++ rest' → text = text'

/-- The first letter of a text is none that can stand behind a value. -/
def Opens (text : Letters) : Prop := ∃ l more, text = l :: more ∧ l ∉ closers

theorem commaSeparated_cons (text : Letters) (texts : List Letters) :
    commaSeparated (text :: texts) = text ++ texts.flatMap (.char ',' :: ·) := by
  induction texts generalizing text with
  | nil => simp [commaSeparated]
  | cons text' texts ih =>
    rw [commaSeparated, ih, List.flatMap_cons, List.cons_append]
    nofun

variable {texts texts' : List Letters} {closing : Letter}

theorem closes_flatMap (h : closing ∈ closers) (texts : List Letters) (rest : Letters) :
    Closes (texts.flatMap (.char ',' :: ·) ++ closing :: rest) := by
  cases texts with
  | nil => simpa [Closes] using h
  | cons text texts => simp [Closes, closers]

/-- Behind a first value, values and the bracket behind them are known by their text. -/
theorem eq_of_flatMap_append (hclosing : closing ∈ [.char ']', .char '}'])
    (h : ∀ text ∈ texts, ∀ text' ∈ texts', ToldApart text text')
    (he : texts.flatMap (.char ',' :: ·) ++ closing :: rest =
      texts'.flatMap (.char ',' :: ·) ++ closing :: rest') : texts = texts' := by
  have hcomma : closing ≠ .char ',' := by
    rintro rfl
    revert hclosing
    decide
  have hcloses : closing ∈ closers := List.mem_cons_of_mem _ hclosing
  induction texts generalizing texts' with
  | nil =>
    cases texts' with
    | nil => rfl
    | cons text' texts' => exact absurd (List.cons.inj he).1 hcomma
  | cons text texts ih =>
    cases texts' with
    | nil => exact absurd (List.cons.inj he).1.symm hcomma
    | cons text' texts' =>
      simp only [List.flatMap_cons, List.cons_append, List.append_assoc, List.cons.injEq,
        true_and] at he
      have hfirst : text = text' :=
        h text List.mem_cons_self text' List.mem_cons_self _ _ (closes_flatMap hcloses _ _)
          (closes_flatMap hcloses _ _) he
      rw [hfirst] at he
      have hmore := ih (fun t ht t' ht' => h t (List.mem_cons_of_mem _ ht) t'
        (List.mem_cons_of_mem _ ht')) (List.append_cancel_left he)
      rw [hfirst, hmore]

/-- Values between brackets are known by their text. -/
theorem eq_of_commaSeparated (hclosing : closing ∈ [.char ']', .char '}'])
    (hopens : ∀ text ∈ texts, Opens text) (hopens' : ∀ text ∈ texts', Opens text)
    (h : ∀ text ∈ texts, ∀ text' ∈ texts', ToldApart text text')
    (he : commaSeparated texts ++ closing :: rest = commaSeparated texts' ++ closing :: rest') :
    texts = texts' := by
  have hcloses : closing ∈ closers := List.mem_cons_of_mem _ hclosing
  have hne : ∀ text tail tail' : Letters, Opens text → text ++ tail ≠ closing :: tail' := by
    intro text tail tail' ⟨c, more, htext, hc⟩ hsame
    rw [htext] at hsame
    rw [(List.cons.inj hsame).1] at hc
    exact hc hcloses
  cases texts with
  | nil =>
    cases texts' with
    | nil => rfl
    | cons text' texts' =>
      rw [commaSeparated_cons, List.append_assoc] at he
      exact absurd he.symm (hne _ _ _ (hopens' text' List.mem_cons_self))
  | cons text texts =>
    cases texts' with
    | nil =>
      rw [commaSeparated_cons, List.append_assoc] at he
      exact absurd he (hne _ _ _ (hopens text List.mem_cons_self))
    | cons text' texts' =>
      rw [commaSeparated_cons, commaSeparated_cons, List.append_assoc, List.append_assoc] at he
      have hfirst : text = text' :=
        h text List.mem_cons_self text' List.mem_cons_self _ _ (closes_flatMap hcloses _ _)
          (closes_flatMap hcloses _ _) he
      rw [hfirst] at he
      have hmore := eq_of_flatMap_append hclosing (fun t ht t' ht' =>
        h t (List.mem_cons_of_mem _ ht) t' (List.mem_cons_of_mem _ ht'))
        (List.append_cancel_left he)
      rw [hfirst, hmore]

/-! ### Numbers -/

/-- The letters in which numbers are written. -/
def inNumber : Letter → Bool
  | .char c => c = '-' || c.isDigit
  | .half _ => false

/-- What can stand behind a value is no part of a number. -/
theorem inNumber_of_closing (h : l ∈ closers) : inNumber l = false := by
  have hall : closers.all (fun k => !inNumber k) = true := by decide
  simpa using List.all_eq_true.mp hall l h

theorem inNumber_of_mem_repr (n : Int) (h : l ∈ Letters.ofString n.repr) : inNumber l = true := by
  obtain ⟨c, hc, rfl⟩ := List.mem_map.mp h
  have hdigit : ∀ m : Nat, c ∈ m.repr.toList → inNumber (.char c) = true := by
    intro m hm
    rw [Nat.toList_repr] at hm
    rw [inNumber, Nat.isDigit_of_mem_toDigits (by decide) (by decide) hm, Bool.or_true]
  cases n with
  | ofNat m => exact hdigit m hc
  | negSucc m =>
    rw [Int.repr, String.toList_append, List.mem_append] at hc
    rcases hc with hc | hc
    · have hminus : c = '-' := by simpa using hc
      rw [hminus]
      rfl
    · exact hdigit (m + 1) hc

theorem ofString_repr_ne_nil (n : Int) : Letters.ofString n.repr ≠ [] := by
  refine mt List.map_eq_nil_iff.mp ?_
  have hdigits : ∀ m : Nat, m.repr.toList ≠ [] := by
    intro m
    rw [Nat.toList_repr]
    exact Nat.toDigits_ne_nil
  cases n with
  | ofNat m => exact hdigits m
  | negSucc m =>
    rw [Int.repr, String.toList_append]
    exact List.append_ne_nil_of_right_ne_nil _ (hdigits (m + 1))

/-- A number is known by its decimal form. -/
theorem eq_of_repr {m n : Int} (he : Letters.ofString m.repr = .ofString n.repr) : m = n := by
  have h : m.repr.toList = n.repr.toList := congrArg String.toList (Letters.ofString_injective he)
  have hminus : ∀ k l : Nat, k.repr.toList ≠ ("-" ++ l.repr).toList := by
    intro k l he
    have hmem : '-' ∈ k.repr.toList := by
      rw [he, String.toList_append]
      exact List.mem_append_left _ (by decide)
    exact Text.not_mem_repr (by decide) k hmem
  cases m with
  | ofNat k =>
    cases n with
    | ofNat l => rw [Text.eq_of_toList_repr (show k.repr.toList = l.repr.toList from h)]
    | negSucc l => exact absurd h (hminus k (l + 1))
  | negSucc k =>
    cases n with
    | ofNat l => exact absurd h.symm (hminus l (k + 1))
    | negSucc l =>
      simp only [Int.repr, String.toList_append, List.append_cancel_left_eq] at h
      have hsucc : k + 1 = l + 1 := Text.eq_of_toList_repr h
      rw [Nat.succ.inj hsucc]

/-- A number ends where something stands that is no part of numbers. -/
theorem toldApart_of_inNumber (h : ∀ l ∈ text, inNumber l = true)
    (h' : ∀ l ∈ text', inNumber l = true) : ToldApart text text' := by
  have hends : ∀ {text rest : Letters}, (∀ l ∈ text, inNumber l = true) → Closes rest →
      (text ++ rest).takeWhile inNumber = text := by
    intro text rest htext hrest
    rw [List.takeWhile_append_of_pos htext]
    cases rest with
    | nil => rw [List.takeWhile_nil, List.append_nil]
    | cons l rest =>
      rw [List.takeWhile_cons, inNumber_of_closing (hrest l rfl)]
      exact List.append_nil text
  intro rest rest' hrest hrest' he
  calc
    text = (text ++ rest).takeWhile inNumber := (hends h hrest).symm
    _ = (text' ++ rest').takeWhile inNumber := by rw [he]
    _ = text' := hends h' hrest'

/-! ### Values -/

/-- What can be told of a value by the first letter of its text. -/
inductive Shape where
  /-- The absent value. -/
  | null
  /-- A truth value. -/
  | bool (b : Bool)
  /-- A number. -/
  | int
  /-- A text. -/
  | string
  /-- An array. -/
  | array
  /-- An object. -/
  | object
  deriving DecidableEq

/-- The shape of a value. -/
def shape : Json → Shape
  | .null => .null
  | .bool b => .bool b
  | .int _ => .int
  | .string _ => .string
  | .array _ => .array
  | .object _ => .object

/-- The shape of the values whose texts begin with a letter. -/
def Shape.ofFirst (l : Letter) : Shape :=
  if l = .char 'n' then .null
  else if l = .char 't' then .bool true
  else if l = .char 'f' then .bool false
  else if l = .char '"' then .string
  else if l = .char '[' then .array
  else if l = .char '{' then .object
  else .int

theorem Shape.ofFirst_of_inNumber (h : inNumber l = true) : Shape.ofFirst l = .int := by
  have hall : (['n', 't', 'f', '"', '[', '{'].map Letter.char).all (fun k => !inNumber k) =
      true := by
    decide
  have hother : ∀ k ∈ ['n', 't', 'f', '"', '[', '{'].map Letter.char, l ≠ k := by
    rintro k hk rfl
    have hnone := List.all_eq_true.mp hall l hk
    rw [h] at hnone
    cases hnone
  simp only [List.map_cons, List.forall_mem_cons] at hother
  obtain ⟨hn, ht, hf, hquote, harray, hobject, -⟩ := hother
  rw [ofFirst, if_neg hn, if_neg ht, if_neg hf, if_neg hquote, if_neg harray, if_neg hobject]

/-- The text of a value begins with a letter that tells its shape and ends no other value. -/
theorem canonical_begins (v : Json) :
    ∃ l more, v.canonical = l :: more ∧ Shape.ofFirst l = v.shape ∧ l ∉ closers := by
  cases v with
  | null => exact ⟨_, _, rfl, by decide, by decide⟩
  | bool b => cases b <;> exact ⟨_, _, rfl, by decide, by decide⟩
  | string s => exact ⟨_, _, rfl, rfl, by decide⟩
  | array elements => exact ⟨_, _, rfl, rfl, by decide⟩
  | object members => exact ⟨_, _, rfl, rfl, by decide⟩
  | int n =>
    obtain ⟨l, more, hrepr⟩ := List.exists_cons_of_ne_nil (ofString_repr_ne_nil n)
    have hnumber := inNumber_of_mem_repr n (l := l) (by rw [hrepr]; exact List.mem_cons_self)
    refine ⟨l, more, hrepr, Shape.ofFirst_of_inNumber hnumber, fun hc => ?_⟩
    rw [inNumber_of_closing hc] at hnumber
    cases hnumber

theorem opens_canonical (v : Json) : Opens v.canonical := by
  obtain ⟨l, more, hv, -, hl⟩ := v.canonical_begins
  exact ⟨l, more, hv, hl⟩

/-- Values with the same text before whatever follows them have the same shape. -/
theorem shape_eq_of_append {v w : Json}
    (h : v.canonical ++ rest = w.canonical ++ rest') : v.shape = w.shape := by
  obtain ⟨k, more, hv, hshape, -⟩ := v.canonical_begins
  obtain ⟨l, more', hw, hshape', -⟩ := w.canonical_begins
  rw [hv, hw] at h
  rw [← hshape, ← hshape', (List.cons.inj h).1]

variable {elements elements' : List Json} {members members' : List (String × Json)}

/-- The elements of an array are known by their texts, if the texts of any two are. -/
theorem elementTexts_eq_of_append
    (h : ∀ v ∈ elements, ∀ w ∈ elements', ToldApart v.canonical w.canonical)
    (he : (Json.array elements).canonical ++ rest =
      (Json.array elements').canonical ++ rest') :
    elementTexts elements = elementTexts elements' := by
  simp only [canonical, List.cons_append, List.append_assoc, List.nil_append,
    List.cons.injEq, true_and, elementTexts_eq] at he ⊢
  have hopens : ∀ (vs : List Json), ∀ text ∈ vs.map canonical, Opens text := by
    intro vs
    exact List.forall_mem_map.mpr fun v _ => v.opens_canonical
  refine eq_of_commaSeparated (by decide) (hopens _) (hopens _) ?_ he
  simp only [List.forall_mem_map]
  exact h

theorem opens_memberText (m : String × Letters) : Opens (memberText m) :=
  ⟨.char '"', _, rfl, by decide⟩

theorem memberText_injective : Function.Injective memberText := by
  intro m m' h
  have hparts := eq_of_quote_append h
  exact Prod.ext (Letters.ofString_injective hparts.1) (List.cons.inj hparts.2).2

/-- Members are told apart by their keys and then by their values. -/
theorem toldApart_memberText {m m' : String × Letters} (h : ToldApart m.2 m'.2) :
    ToldApart (memberText m) (memberText m') := by
  intro rest rest' hrest hrest' he
  rw [memberText, memberText, List.append_assoc, List.append_assoc] at he
  have hkeys := eq_of_quote_append he
  have hvalues := h rest rest' hrest hrest' (List.cons.inj hkeys.2).2
  rw [memberText, memberText, hkeys.1, hvalues]

theorem exists_of_mem_sortMembers {p : String × Letters}
    (h : p ∈ sortMembers (memberTexts members)) :
    ∃ m ∈ members, p = (m.1, m.2.canonical) := by
  rw [sortMembers, List.mem_mergeSort, memberTexts_eq] at h
  obtain ⟨m, hm, he⟩ := List.mem_map.mp h
  exact ⟨m, hm, he.symm⟩

/-- The members of an object, in order, are known by their texts, if any two values are. -/
theorem sortMembers_eq_of_append
    (h : ∀ m ∈ members, ∀ m' ∈ members', ToldApart m.2.canonical m'.2.canonical)
    (he : (Json.object members).canonical ++ rest =
      (Json.object members').canonical ++ rest') :
    sortMembers (memberTexts members) = sortMembers (memberTexts members') := by
  simp only [canonical, List.cons_append, List.append_assoc, List.nil_append,
    List.cons.injEq, true_and] at he
  have hopens : ∀ (ms : List (String × Letters)), ∀ text ∈ ms.map memberText, Opens text := by
    intro ms
    exact List.forall_mem_map.mpr fun m _ => opens_memberText m
  have hapart : ∀ p ∈ sortMembers (memberTexts members), ∀ p' ∈ sortMembers (memberTexts members'),
      ToldApart (memberText p) (memberText p') := by
    intro p hp p' hp'
    obtain ⟨m, hm, rfl⟩ := exists_of_mem_sortMembers hp
    obtain ⟨m', hm', rfl⟩ := exists_of_mem_sortMembers hp'
    exact toldApart_memberText (h m hm m' hm')
  apply List.map_injective_iff.mpr memberText_injective
  refine eq_of_commaSeparated (by decide) (hopens _) (hopens _) ?_ he
  simp only [List.forall_mem_map]
  exact hapart

/-- Where something stands behind them, any two values are told apart by their texts. -/
theorem toldApart (v w : Json) : ToldApart v.canonical w.canonical := by
  induction v generalizing w with
  | null =>
    intro rest rest' _ _ he
    cases w <;> cases shape_eq_of_append he
    rfl
  | bool b =>
    intro rest rest' _ _ he
    cases w <;> cases shape_eq_of_append he
    rfl
  | int m =>
    intro rest rest' hrest hrest' he
    cases w <;> cases shape_eq_of_append he
    exact toldApart_of_inNumber (fun _ => inNumber_of_mem_repr m) (fun _ => inNumber_of_mem_repr _)
      rest rest' hrest hrest' he
  | string s =>
    intro rest rest' _ _ he
    cases w <;> cases shape_eq_of_append he
    rw [canonical, (eq_of_quote_append he).1, canonical]
  | array elements ih =>
    intro rest rest' _ _ he
    cases w <;> cases shape_eq_of_append he
    rw [canonical, elementTexts_eq_of_append (fun v hv w _ => ih v hv w) he, canonical]
  | object members ih =>
    intro rest rest' _ _ he
    cases w <;> cases shape_eq_of_append he
    rw [canonical, sortMembers_eq_of_append (fun m hm m' _ => ih m hm m'.2) he,
      canonical]

end CallTrace.Json
