import CallTrace.CommandLine.Arguments
import CallTrace.Proofs.Text.Letters
import CallTrace.Proofs.Text.Numerals

/-!
# Operands among flags

Words that do not begin with a dash are the operands, in their order. The flag that asks for
quiet may stand anywhere among them, as often as it likes: it takes no word and stops no operand,
so the words are what they would be without it.
-/

namespace CallTrace

/-- The flag that asks for quiet. -/
def quietFlag : Letters := "--quiet"

/-- The arguments that are not the flag for quiet. -/
def operandsOf (arguments : List Letters) : List Letters := arguments.filter (· ≠ quietFlag)

theorem operandsOf_quietFlag (arguments : List Letters) :
    operandsOf (quietFlag :: arguments) = operandsOf arguments := by
  rw [operandsOf, List.filter_cons_of_neg (by simp)]
  rfl

theorem operandsOf_of_ne {s : Letters} (h : s ≠ quietFlag) (arguments : List Letters) :
    operandsOf (s :: arguments) = s :: operandsOf arguments := by
  rw [operandsOf, List.filter_cons_of_pos (by simpa using h)]
  rfl

/-- Text that does not begin with a dash. -/
def IsPlainWord (s : Letters) : Prop := s.head? ≠ some (.char '-')

theorem IsPlainWord.ne_dashes {s : Letters} (h : IsPlainWord s) : s ≠ twoDashes := by
  rintro rfl
  exact h rfl

namespace Token

/-- What an argument is that is the flag for quiet or a plain word. -/
def ofWord (s : Letters) : Token :=
  if s = quietFlag then .known .quiet none quietFlag else .word s

theorem ofLetters_of_plain {s : Letters} (h : IsPlainWord s) :
    Token.ofLetters s = .ok (.word s) := by
  unfold Token.ofLetters
  split
  · exact absurd rfl h
  · rfl

theorem ofLetters_quietFlag : Token.ofLetters quietFlag = .ok (.known .quiet none quietFlag) := by
  rfl

theorem ofWord_ne_dashes (s : Letters) : ofWord s ≠ .dashes := by
  unfold ofWord
  split <;> nofun

/-- Arguments that are plain words or the flag for quiet are tokens one by one. -/
theorem ofArguments_of_plain {arguments : List Letters}
    (h : ∀ s ∈ operandsOf arguments, IsPlainWord s) :
    Token.ofArguments arguments = .ok (arguments.map ofWord) := by
  induction arguments with
  | nil => rfl
  | cons s arguments ih =>
    by_cases hs : s = quietFlag
    · rw [hs, operandsOf_quietFlag] at h
      rw [hs, Token.ofArguments, if_neg (by decide), ofLetters_quietFlag, ih h, List.map_cons,
        ofWord, if_pos rfl]
    · rw [operandsOf_of_ne hs] at h
      obtain ⟨hplain, hrest⟩ := List.forall_mem_cons.mp h
      rw [Token.ofArguments, if_neg hplain.ne_dashes, ofLetters_of_plain hplain, ih hrest,
        List.map_cons, ofWord, if_neg hs]

end Token

namespace Progress

/-- Using all tokens is giving the words in front to the operands, and then using a token. -/
theorem takeAll_eq (p : Progress) (tokens : List Token) :
    p.takeAll tokens =
      match p.takeOperands tokens with
      | .error e => .error e
      | .ok (p, []) => .ok p
      | .ok (p, token :: rest) =>
        match p.takeToken token rest with
        | .error e => .error e
        | .ok (p, rest) => p.takeAll rest := by
  rw [takeAll]
  split <;> rename_i h
  · rw [h]
  · rw [h]
  · rw [h]
    dsimp only
    split <;> rename_i h' <;> rw [h']

/-- Giving words to operands looks at nothing of the progress but keeps its extras. -/
theorem takeOperands_go_congr {p q : Progress} (h : p.extras = q.extras) (operands : List Operand)
    (found : Invocation) (tokens : List Token) :
    takeOperands.go p operands found tokens = takeOperands.go q operands found tokens := by
  induction operands generalizing found tokens with
  | nil => rw [takeOperands.go, takeOperands.go, h]
  | cons operand operands ih => simp only [takeOperands.go, h, ih]

/-- A word is the value of the first open operand. -/
theorem takeAll_word {p : Progress} {operand : Operand} {operands : List Operand} {s : Letters}
    {value : RawValue} {tokens : List Token} (hpending : p.pending = operand :: operands)
    (hvalue : operand.value (some s) = .ok value) (hs : s ≠ twoDashes)
    (hdashes : ∀ rest, tokens ≠ .dashes :: rest) :
    p.takeAll (.word s :: tokens) =
      ({ p with
        pending := operands
        found := { p.found with record := p.found.record ++ [(operand.field, value)] } } :
          Progress).takeAll tokens := by
  have hnext : nextOperand? (.word s :: tokens) = some ([s], tokens) := by
    unfold nextOperand?
    split <;> rename_i h
    · cases h
    · cases h
      exact absurd rfl (hdashes _)
    · cases h
      rfl
    · exact absurd rfl (h s tokens)
  have hgo : p.takeOperands (.word s :: tokens) =
      ({ p with
        pending := operands
        found := { p.found with record := p.found.record ++ [(operand.field, value)] } } :
          Progress).takeOperands tokens := by
    rw [takeOperands, hpending, takeOperands.go, hnext]
    dsimp only
    rw [List.erase_of_not_mem (by simpa using Ne.symm hs), List.head?_cons, hvalue,
      takeOperands]
    dsimp only
    exact takeOperands_go_congr (by rfl) _ _ _
  rw [takeAll_eq, hgo, ← takeAll_eq]

/-- The flag for quiet takes nothing away from the operands. -/
theorem takeAll_quiet (p : Progress) (spelled : Letters) (tokens : List Token) :
    p.takeAll (.known .quiet none spelled :: tokens) =
      ({ p with found := { p.found with quiet := true } } : Progress).takeAll tokens := by
  have hoperands : p.takeOperands (.known .quiet none spelled :: tokens) =
      .ok (p, .known .quiet none spelled :: tokens) := by
    obtain ⟨pending, found, extras⟩ := p
    cases pending <;> rfl
  rw [takeAll_eq, hoperands]
  rfl

theorem takeAll_nil (p : Progress) : p.takeAll [] = .ok p := by
  have hoperands : p.takeOperands [] = .ok (p, []) := by
    obtain ⟨pending, found, extras⟩ := p
    cases pending <;> rfl
  rw [takeAll_eq, hoperands]

end Progress

/-- The record that words give as the values of operands, if all of them are values. -/
def recordOf : List Operand → List Letters → Option RawRecord
  | _, [] => some []
  | [], _ :: _ => none
  | operand :: operands, s :: words =>
    match operand.value (some s) with
    | .error _ => none
    | .ok value => (recordOf operands words).map ((operand.field, value) :: ·)

theorem recordOf_nil (operands : List Operand) : recordOf operands [] = some [] := by
  cases operands <;> rfl

/-- The first of the words that give a record is the value of the first operand. -/
theorem exists_of_recordOf_cons {operands : List Operand} {s : Letters} {words : List Letters}
    {record : RawRecord} (h : recordOf operands (s :: words) = some record) :
    ∃ operand others value rest, operands = operand :: others ∧
      operand.value (some s) = .ok value ∧ recordOf others words = some rest ∧
      record = (operand.field, value) :: rest := by
  cases operands with
  | nil => cases h
  | cons operand others =>
    rw [recordOf] at h
    cases hvalue : operand.value (some s) with
    | error e =>
      rw [hvalue] at h
      cases h
    | ok value =>
      rw [hvalue] at h
      obtain ⟨rest, hrest, rfl⟩ := Option.map_eq_some_iff.mp h
      exact ⟨operand, others, value, rest, rfl, hvalue, hrest, rfl⟩

/-- Wherever the flag for quiet stands, the words around it are the values of the operands. -/
theorem Progress.takeAll_of_plain {p : Progress} {arguments : List Letters} {record : RawRecord}
    (hplain : ∀ s ∈ operandsOf arguments, IsPlainWord s)
    (hrecord : recordOf p.pending (operandsOf arguments) = some record) :
    p.takeAll (arguments.map Token.ofWord) =
      .ok { p with
        pending := p.pending.drop (operandsOf arguments).length
        found := { p.found with
          record := p.found.record ++ record
          quiet := p.found.quiet || arguments.contains quietFlag } } := by
  induction arguments generalizing p record with
  | nil =>
    have hnil : record = [] := Option.some.inj (hrecord.symm.trans (recordOf_nil _))
    rw [List.map_nil, takeAll_nil, hnil]
    simp [operandsOf]
  | cons s arguments ih =>
    by_cases hs : s = quietFlag
    · rw [hs, operandsOf_quietFlag] at hplain hrecord ⊢
      rw [List.map_cons, Token.ofWord, if_pos rfl, takeAll_quiet,
        ih (p := { p with found := { p.found with quiet := true } }) hplain hrecord]
      simp
    · rw [operandsOf_of_ne hs] at hplain hrecord ⊢
      obtain ⟨hword, hwords⟩ := List.forall_mem_cons.mp hplain
      obtain ⟨operand, others, value, rest, hpending, hvalue, hrest, rfl⟩ :=
        exists_of_recordOf_cons hrecord
      have hbehind : ∀ rest, arguments.map Token.ofWord ≠ .dashes :: rest := by
        intro rest h
        obtain ⟨s', _, -, hs', -⟩ := List.map_eq_cons_iff.mp h
        exact Token.ofWord_ne_dashes s' hs'
      have hcontains : (s :: arguments).contains quietFlag = arguments.contains quietFlag := by
        simp [Ne.symm hs]
      rw [List.map_cons, Token.ofWord, if_neg hs,
        takeAll_word hpending hvalue hword.ne_dashes hbehind, ih hwords hrest, hpending,
        hcontains, List.length_cons, List.drop_succ_cons, List.append_assoc]
      rfl

/-- The decimal form of a number is read as the number. -/
theorem readSize_repr {n : Nat} (h : n.repr.length ≤ numeralLimit) :
    readSize n.repr = some n := by
  have hdigits : ∀ c ∈ Nat.toDigits 10 n, c.isDigit = true := fun c =>
    Nat.isDigit_of_mem_toDigits (by decide) (by decide)
  have hlength : ((Nat.toDigits 10 n).map Text.digitValue).length ≤ numeralLimit := by
    rwa [List.length_map, ← Nat.toList_repr, String.length_toList]
  rw [readSize, Letters.toString?_ofString, Option.bind_eq_bind, Option.bind_some,
    Nat.toList_repr, Text.trim_of_isDigit hdigits, Text.splitSign_of_isDigit hdigits]
  dsimp only
  rw [Text.digits?_of_isDigit Nat.toDigits_ne_nil hdigits, Option.bind_eq_bind, Option.bind_some,
    if_pos hlength, Text.ofDigits_toDigits]
  rfl

/-- A decimal form does not begin with a dash. -/
theorem isPlainWord_repr (n : Nat) : IsPlainWord (n.repr : Letters) := by
  intro h
  rw [Letters.ofString, Nat.toList_repr, List.head?_map] at h
  obtain ⟨c, hhead, hc⟩ := Option.map_eq_some_iff.mp h
  cases hc
  have hdash := Nat.isDigit_of_mem_toDigits (by decide) (by decide) (List.mem_of_head? hhead)
  exact absurd hdash (by decide)

/-- What the fields of a check are given by a path, a hash and a size. -/
def recordOfParts (path hash : Letters) (size : Nat) : RawRecord :=
  [("log_path", .text path), ("file_hash", .text hash), ("size_bytes", .int size)]

/--
A path, a hash and the decimal form of a size, with the flag for quiet anywhere among them, are
asked for as they are.
-/
theorem Invocation.ofArguments_of_plain {arguments : List Letters} {path hash : Letters}
    {size : Nat} (hpath : IsPlainWord path) (hhash : IsPlainWord hash)
    (hsize : size.repr.length ≤ numeralLimit)
    (harguments : operandsOf arguments = [path, hash, size.repr]) :
    Invocation.ofArguments arguments =
      .ok { record := recordOfParts path hash size, quiet := arguments.contains quietFlag } := by
  have hplain : ∀ s ∈ operandsOf arguments, IsPlainWord s := by
    rw [harguments]
    simp only [List.forall_mem_cons]
    exact ⟨hpath, hhash, isPlainWord_repr size, List.forall_mem_nil _⟩
  have hrecord : recordOf Operand.all (operandsOf arguments) =
      some (recordOfParts path hash size) := by
    rw [harguments]
    simp only [recordOf, Operand.all, Operand.value, readSize_repr hsize]
    rfl
  have htaken := Progress.takeAll_of_plain (p := {}) hplain hrecord
  rw [Invocation.ofArguments, Token.ofArguments_of_plain hplain]
  change (Progress.takeAll {} (arguments.map Token.ofWord)).bind _ = _
  rw [htaken, harguments]
  rfl

end CallTrace
