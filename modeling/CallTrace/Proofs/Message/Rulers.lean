import CallTrace.Proofs.Message.Headers
import CallTrace.Proofs.Text.Rulers

/-!
# Rulers in the text of a message

Every line of the text of a message names a field or ends a block, except for lines inside a
header. So the rulers in the text are those that the headers hold, on lines of its own as well as
on one line. A name of a field holds none, and the header of a packed message holds those of its
URL.
-/

namespace CallTrace

namespace TextNode

mutual

/-- How many rulers the headers of a node hold. -/
def hidden : TextNode → Nat
  | .scalar _ _ => 0
  | .block header children => Text.innerRulers header.toList + hiddenAll children

/-- How many rulers the headers of nodes hold. -/
def hiddenAll : List TextNode → Nat
  | [] => 0
  | node :: nodes => node.hidden + hiddenAll nodes

end

/-- The text begins a line with some other character than dashes. -/
def BeginsLine (header : String) : Prop :=
  ∃ c cs, header.toList = c :: cs ∧ c ≠ '-' ∧ c ≠ '\n'

/-- Nodes without line feeds but in headers, which begin with other characters than dashes. -/
inductive Tame : List TextNode → Prop where
  /-- There is no node. -/
  | nil : Tame []
  /-- A value on one line. -/
  | scalar {name value : String} {nodes : List TextNode} (hname : '\n' ∉ name.toList)
      (hvalue : '\n' ∉ value.toList) (hn : Tame nodes) : Tame (.scalar name value :: nodes)
  /-- A block under a header. -/
  | block {header : String} {children nodes : List TextNode} (hh : BeginsLine header)
      (hc : Tame children) (hn : Tame nodes) : Tame (.block header children :: nodes)

variable {node : TextNode} {nodes children : List TextNode} {name value header url : String}

theorem hiddenAll_eq_zero_iff : hiddenAll nodes = 0 ↔ ∀ node ∈ nodes, node.hidden = 0 := by
  induction nodes with
  | nil => simp [hiddenAll]
  | cons node nodes ih => rw [hiddenAll, Nat.add_eq_zero_iff, ih, List.forall_mem_cons]

theorem tame_cons_iff : Tame (node :: nodes) ↔ Tame [node] ∧ Tame nodes := by
  constructor
  · rintro (_ | ⟨hname, hvalue, hn⟩ | ⟨hh, hc, hn⟩)
    · exact ⟨.scalar hname hvalue .nil, hn⟩
    · exact ⟨.block hh hc .nil, hn⟩
  · rintro ⟨_ | ⟨hname, hvalue, -⟩ | ⟨hh, hc, -⟩, hn⟩
    · exact .scalar hname hvalue hn
    · exact .block hh hc hn

theorem tame_iff : Tame nodes ↔ ∀ node ∈ nodes, Tame [node] := by
  induction nodes with
  | nil => exact iff_of_true .nil (List.forall_mem_nil _)
  | cons node nodes ih => rw [tame_cons_iff, ih, List.forall_mem_cons]

theorem tame_block_iff (hh : BeginsLine header) :
    Tame [.block header children] ↔ ∀ child ∈ children, Tame [child] := by
  rw [← tame_iff]
  constructor
  · rintro (_ | _ | ⟨-, hc, -⟩)
    exact hc
  · exact fun hc => .block hh hc .nil

/-! ### Which headers hold rulers -/

theorem not_mem_of_isFieldName (h : isFieldName name = true) {c : Char}
    (hc : (c.isAlphanum || ['_', '.', '[', ']'].contains c) = false) : c ∉ name.toList := by
  rw [isFieldName, Bool.and_eq_true, List.all_eq_true] at h
  intro hm
  exact absurd (h.2 c hm) (by rw [hc]; decide)

theorem newline_not_mem_of_isFieldName (h : isFieldName name = true) : '\n' ∉ name.toList :=
  not_mem_of_isFieldName h (by decide)

theorem beginsLine_of_isFieldName (h : isFieldName name = true) : BeginsLine name := by
  have hne : name ≠ "" := by
    rintro rfl
    exact absurd h (by decide)
  obtain ⟨c, cs, hcs⟩ := List.exists_cons_of_ne_nil (mt String.toList_eq_nil_iff.mp hne)
  have hmem : c ∈ name.toList := by rw [hcs]; exact List.mem_cons_self
  refine ⟨c, cs, hcs, ?_, ?_⟩
  · rintro rfl
    exact not_mem_of_isFieldName h (by decide) hmem
  · rintro rfl
    exact newline_not_mem_of_isFieldName h hmem

theorem toList_packed (url : String) :
    ("[" ++ url ++ "]").toList = '[' :: (url.toList ++ [']']) := by
  simp

theorem beginsLine_packed (url : String) : BeginsLine ("[" ++ url ++ "]") :=
  ⟨'[', _, toList_packed url, by decide, by decide⟩

/-- The name of a field holds no ruler. -/
theorem innerRulers_of_isFieldName (h : isFieldName name = true) :
    Text.innerRulers name.toList = 0 := by
  rw [Text.innerRulers, Text.segments_of_not_mem (newline_not_mem_of_isFieldName h)]
  rfl

/-- The header of a packed message holds the rulers of its URL. -/
theorem innerRulers_packed (url : String) :
    Text.innerRulers ("[" ++ url ++ "]").toList = Text.innerRulers url.toList := by
  rw [toList_packed, Text.innerRulers_cons (by decide), Text.innerRulers_concat (by decide)]

/-- All messages are shown as tame nodes. -/
theorem watches_tame : Watches (fun node => Tame [node]) fun _ => True where
  scalar hname hvalue := .scalar (newline_not_mem_of_isFieldName hname) hvalue .nil
  block hname := tame_block_iff (beginsLine_of_isFieldName hname)
  packed := by
    intro url children
    rw [tame_block_iff (beginsLine_packed url)]
    exact (and_iff_right trivial).symm

/-- The rulers in a message are those in the URLs that it shows. -/
theorem watches_hidden :
    Watches (fun node => node.hidden = 0) fun url => ¬ Text.HoldsRuler url.toList where
  scalar _ _ := rfl
  block hname := by
    rw [hidden, innerRulers_of_isFieldName hname, Nat.zero_add, hiddenAll_eq_zero_iff]
  packed := by
    intro url children
    rw [hidden, innerRulers_packed, Nat.add_eq_zero_iff, hiddenAll_eq_zero_iff,
      Text.innerRulers_eq_zero_iff]

/-! ### Rulers in texts -/

section Texts

open Text

theorem newline_not_mem_indentation (depth : Nat) : '\n' ∉ (indentation depth).toList := by
  simp [indentation]

/-- On lines of their own, tame nodes bring along the rulers that their headers hold. -/
theorem addsRulers_renderAll (h : Tame nodes) (depth : Nat) :
    AddsRulers (renderAll depth nodes) (hiddenAll nodes) := by
  induction h generalizing depth with
  | nil => exact addsRulers_empty
  | @scalar name value nodes hname hvalue hn ih =>
    have hline : AddsRulers (indentation depth ++ name ++ ": " ++ value ++ "\n") 0 := by
      refine addsRulers_line (c := ':') ?_ ?_ (by decide)
      · simp [newline_not_mem_indentation, hname, hvalue]
      · simp
    rw [renderAll, render, hiddenAll, hidden]
    exact hline.append (ih depth)
  | @block header children nodes hh hc hn ihc ihn =>
    have hhead : AddsRulers (indentation depth ++ header ++ " \x7b\n")
        (innerRulers header.toList) := by
      obtain ⟨c, cs, hcs, hdash, hfeed⟩ := hh
      rw [hcs, innerRulers_cons hfeed]
      have hsplit : (indentation depth ++ header ++ " \x7b\n").toList =
          ((indentation depth).toList ++ [c]) ++ (cs ++ ' ' :: (['\x7b'] ++ ['\n'])) := by
        simp [hcs]
      have hfront : '\n' ∉ (indentation depth).toList ++ [c] := by
        simpa [newline_not_mem_indentation] using hfeed.symm
      exact addsRulers_around hsplit hfront
        (List.mem_append_right _ (List.mem_singleton_self c)) hdash (by decide) (by decide)
    have hend : AddsRulers (indentation depth ++ "\x7d\n") 0 := by
      have hline := addsRulers_line (s := indentation depth ++ "\x7d") (c := '\x7d')
        (by simp [newline_not_mem_indentation]) (by simp) (by decide)
      rwa [String.append_assoc] at hline
    have hblock := (hhead.append (ihc (depth + 1))).append hend
    rw [← String.append_assoc, Nat.add_zero] at hblock
    rw [renderAll, render, hiddenAll, hidden]
    exact hblock.append (ihn depth)

/-- A value inside a line brings along no ruler. -/
theorem laterRulers_inline_scalar (hname : '\n' ∉ name.toList) (hvalue : '\n' ∉ value.toList)
    (ys : List Char) : laterRulers ((scalar name value).inline.toList ++ ys) = laterRulers ys := by
  refine laterRulers_append_of_not_mem ?_ ys
  simp [inline, hname, hvalue]

/-- A block inside a line brings along the rulers of its header and its nodes. -/
theorem laterRulers_inline_block
    (hc : ∀ ys, laterRulers ((inlineAll children).toList ++ ys) =
      hiddenAll children + laterRulers ys)
    (header : String) (ys : List Char) :
    laterRulers ((block header children).inline.toList ++ ys) =
      (block header children).hidden + laterRulers ys := by
  have hsplit : (block header children).inline.toList ++ ys =
      header.toList ++
        ' ' :: (['\x7b', ' '] ++ ((inlineAll children).toList ++ (['\x7d'] ++ ys))) := by
    simp [inline]
  rw [hsplit, laterRulers_append (by decide) (by decide),
    laterRulers_append_of_not_mem (by decide), hc, laterRulers_append_of_not_mem (by decide), hidden,
    Nat.add_assoc]

/-- Inside a line, tame nodes bring along the rulers that their headers hold. -/
theorem laterRulers_inlineAll (h : Tame nodes) (ys : List Char) :
    laterRulers ((inlineAll nodes).toList ++ ys) = hiddenAll nodes + laterRulers ys := by
  have hspace : ∀ node : TextNode, ∀ nodes : List TextNode, ∀ ys,
      (inlineAll (node :: nodes)).toList ++ ys =
        node.inline.toList ++ ([' '] ++ ((inlineAll nodes).toList ++ ys)) := by
    intro node nodes ys
    simp [inlineAll]
  induction h generalizing ys with
  | nil => exact (Nat.zero_add _).symm
  | scalar hname hvalue hn ih =>
    rw [hspace, laterRulers_inline_scalar hname hvalue, laterRulers_append_of_not_mem (by decide), ih,
      hiddenAll, hidden, Nat.zero_add]
  | block hh hc hn ihc ihn =>
    rw [hspace, laterRulers_inline_block ihc, laterRulers_append_of_not_mem (by decide), ihn,
      hiddenAll, Nat.add_assoc]

theorem laterRulers_inline (h : Tame [node]) (ys : List Char) :
    laterRulers (node.inline.toList ++ ys) = node.hidden + laterRulers ys := by
  cases h with
  | scalar hname hvalue =>
    rw [laterRulers_inline_scalar hname hvalue, hidden, Nat.zero_add]
  | block hh hc => exact laterRulers_inline_block (laterRulers_inlineAll hc) _ ys

/-- A message on one line brings along the rulers that its headers hold. -/
theorem laterRulers_oneLine (h : Tame nodes) (ys : List Char) :
    laterRulers ((oneLine nodes).toList ++ ys) = hiddenAll nodes + laterRulers ys := by
  induction nodes with
  | nil => exact (Nat.zero_add _).symm
  | cons node nodes ih =>
    obtain ⟨hnode, hnodes⟩ := tame_cons_iff.mp h
    cases nodes with
    | nil =>
      rw [oneLine, List.map_singleton, String.intercalate_singleton, laterRulers_inline hnode]
      rfl
    | cons next nodes =>
      have hsplit : (oneLine (node :: next :: nodes)).toList ++ ys =
          node.inline.toList ++ ([' '] ++ ((oneLine (next :: nodes)).toList ++ ys)) := by
        simp [oneLine]
      rw [hsplit, laterRulers_inline hnode, laterRulers_append_of_not_mem (by decide), ih hnodes,
        hiddenAll.eq_2 node, Nat.add_assoc]

end Texts

end TextNode

variable [KnownTypes]

/-- No URL that the envelope shows holds a ruler. -/
def Any.Clear (a : Any) : Prop := ∀ url, a.Shows url → ¬ Text.HoldsRuler url.toList

namespace MessageType

variable {t : MessageType} {m : t.Message} {nodes : List TextNode} {s label : String}

theorem tame_nodes (h : t.nodes m = .ok nodes) : TextNode.Tame nodes :=
  TextNode.tame_iff.mpr
    ((forall_mem_nodes_iff TextNode.watches_tame h).mpr fun _ _ _ _ => trivial)

theorem hiddenAll_nodes_iff (h : t.nodes m = .ok nodes) :
    TextNode.hiddenAll nodes = 0 ↔ ∀ a ∈ t.envelopes m, a.Clear :=
  TextNode.hiddenAll_eq_zero_iff.trans (forall_mem_nodes_iff TextNode.watches_hidden h)

/-- The text of a message has no ruler just where the URLs that it shows hold none. -/
theorem clearIff_text (h : t.text m = .ok s) :
    Text.ClearIff s (∀ a ∈ t.envelopes m, a.Clear) := by
  obtain ⟨nodes, hn, rfl⟩ := map_eq_ok_iff.mp h
  exact ⟨_, TextNode.addsRulers_renderAll (tame_nodes hn) 0, hiddenAll_nodes_iff hn⟩

/-- Behind a label, neither has the text on one line. -/
theorem clearIff_lineText (h : t.lineText m = .ok s) (hl : '\n' ∉ label.toList) {c : Char}
    (hc : c ∈ label.toList) (hd : c ≠ '-') :
    Text.ClearIff (label ++ s ++ "\n") (∀ a ∈ t.envelopes m, a.Clear) := by
  obtain ⟨nodes, hn, rfl⟩ := map_eq_ok_iff.mp h
  refine ⟨_, fun ys => ?_, hiddenAll_nodes_iff hn⟩
  rw [String.toList_append, String.toList_append, List.append_assoc, List.append_assoc,
    Text.rulers_append_of_mem hl hc hd, TextNode.laterRulers_oneLine (tame_nodes hn)]
  exact congrArg _ (Text.laterRulers_newline ys)

end MessageType

end CallTrace
