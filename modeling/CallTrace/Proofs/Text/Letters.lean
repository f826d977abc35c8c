import CallTrace.Text.Encoding

/-!
# Letters of texts

The letters of a text are its characters, and they are put together where texts are. A text has the
bytes that it has as letters. What keeps letters from having bytes is a half, and where no half
keeps a text from being handed to the operating system, none keeps a part of it.
-/

namespace CallTrace

namespace Letters

theorem ofString_append (s t : String) : ofString (s ++ t) = ofString s ++ ofString t := by
  rw [ofString, String.toList_append, List.map_append]
  rfl

theorem ofString_join (texts : List String) :
    ofString (String.join texts) = (texts.map ofString).flatten := by
  induction texts with
  | nil => rfl
  | cons text texts ih =>
    rw [String.join_cons, ofString_append, ih, List.map_cons, List.flatten_cons]

theorem ofString_injective {s t : String} (h : ofString s = ofString t) : s = t := by
  have hchars : s.toList = t.toList := (List.map_inj_right fun _ _ => Letter.char.inj).mp h
  exact String.toList_injective hchars

theorem toString?_ofString (text : String) : toString? (ofString text) = some text := by
  have hchars : ∀ cs : List Char, (cs.map Letter.char).mapM Letter.char? = some cs := by
    intro cs
    induction cs with
    | nil => rfl
    | cons c cs ih => rw [List.map_cons, List.mapM_cons, ih]; rfl
  rw [toString?, ofString, hchars, Option.map_some, String.ofList_toList]

variable {s t : Letters} {bytes : List UInt8}

theorem bytes_append (s t : Letters) : Letters.bytes (s ++ t) = s.bytes ++ t.bytes :=
  List.flatMap_append

/-- A fault is found where a letter is bad, and nowhere else. -/
theorem faultFrom?_eq_none_iff (bad : Letter → Bool) (position : Nat) (s : Letters) :
    faultFrom? bad position s = none ↔ ∀ l ∈ s, bad l = false := by
  induction s generalizing position with
  | nil => simp [faultFrom?]
  | cons l s ih =>
    rw [faultFrom?, List.forall_mem_cons, ← ih (position + 1)]
    cases bad l <;> simp

/-- Letters can be written if none of them is a half. -/
theorem encode_eq_ok_iff :
    s.encode = .ok bytes ↔ (∀ l ∈ s, l.isHalf = false) ∧ s.bytes = bytes := by
  rw [← faultFrom?_eq_none_iff Letter.isHalf 0, encode]
  cases faultFrom? Letter.isHalf 0 s <;> simp

/-- Letters can be handed to the operating system if each half among them stands for a byte. -/
theorem systemBytes_eq_ok_iff :
    s.systemBytes = .ok bytes ↔ (∀ l ∈ s, l.isStray = false) ∧ s.bytes = bytes := by
  rw [← faultFrom?_eq_none_iff Letter.isStray 0, systemBytes]
  cases faultFrom? Letter.isStray 0 s <;> simp

end Letters

end CallTrace
