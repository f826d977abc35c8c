import CallTrace.Disk.Path
import CallTrace.Text.Quoted
import CallTrace.Validation.RawValue

/-!
# Arguments

The arguments of the program are flags and three operands, in any mixture. A
flag may be shortened as long as it stays the only one, and may carry a value
behind an equals sign; the short form of help may be followed by more of its
kind at once. What looks like a negative number or has a space in it
is an operand; two dashes make operands of all that follows. Help and version
act as soon as they are met, so an error further to the left wins over them.
-/

namespace CallTrace

/-- The flags of the program. -/
inductive Flag where
  /-- Show the help. -/
  | help
  /-- Show the version. -/
  | version
  /-- Say only whether the check passed. -/
  | quiet
  /-- Write the result to a file. -/
  | reportOut
  deriving DecidableEq

/-- The spelling of each flag; the short form of help comes first. -/
def Flag.spellings : List (String × Flag) :=
  [("-h", .help), ("--help", .help), ("--version", .version), ("--quiet", .quiet),
    ("--report-out", .reportOut)]

/-- The name of a flag in errors. -/
def Flag.label : Flag → String
  | .help => "-h/--help"
  | .version => "--version"
  | .quiet => "--quiet"
  | .reportOut => "--report-out"

/-- The operands of the program. -/
inductive Operand where
  /-- The path of the log. -/
  | logFile
  /-- The hash of the blob. -/
  | fileHash
  /-- The size of the blob. -/
  | fileSize
  deriving DecidableEq

/-- The operands in order. -/
def Operand.all : List Operand := [.logFile, .fileHash, .fileSize]

/-- The name of an operand in errors. -/
def Operand.label : Operand → String
  | .logFile => "log_file"
  | .fileHash => "file_hash"
  | .fileSize => "file_size"

/-- The field that an operand is for. -/
def Operand.field : Operand → String
  | .logFile => "log_path"
  | .fileHash => "file_hash"
  | .fileSize => "size_bytes"

/-- The two dashes that end the flags. -/
def twoDashes : Letters := [.char '-', .char '-']

/-- What an argument is, before it is used. -/
inductive Token where
  /-- The two dashes that end the flags. -/
  | dashes
  /-- A possible operand or value. -/
  | word (s : Letters)
  /-- A flag, and what stands behind its equals sign. -/
  | known (flag : Flag) (value : Option Letters) (spelled : Letters)
  /-- The short form of help with something behind it, or behind an equals sign. -/
  | cluster (tail : Letters) (spelled : Letters)
  /-- Something like a flag that is none. -/
  | stray (s : Letters)
  deriving DecidableEq

/-- The argument that a token was made of. -/
def Token.spelled : Token → Letters
  | .dashes => twoDashes
  | .word s => s
  | .known _ _ s => s
  | .cluster _ s => s
  | .stray s => s

/-- Why the program ends before a check is made. -/
inductive EarlyEnd where
  /-- The help was asked for. -/
  | help
  /-- The version was asked for. -/
  | version
  /-- The arguments make no sense. -/
  | misuse (message : Letters)
  deriving DecidableEq

/-- An error in the use of a flag or an operand. -/
def EarlyEnd.argument (label message : String) : EarlyEnd :=
  .misuse ("argument " ++ label ++ ": " ++ message : String)

/-- A flag that takes no value was given one. -/
def EarlyEnd.ignoredValue (flag : Flag) (value : Letters) : EarlyEnd :=
  .argument flag.label ("ignored explicit argument " ++ Text.quoted value)

/-- A text up to its first equals sign, and what follows the sign. -/
def splitEquals (s : Letters) : Letters × Option Letters :=
  match s.span (· ≠ .char '=') with
  | (name, _ :: value) => (name, some value)
  | (_, []) => (s, none)

/-- Whether a text is a dash and a number. -/
def isNegativeNumber (s : Letters) : Bool :=
  match (Letters.toString? s).map String.toList with
  | some ('-' :: cs) =>
    let digit (c : Char) := (Text.decimalDigit? c).isSome
    let (whole, rest) := cs.span digit
    match rest with
    | [] => !whole.isEmpty
    | ['\n'] => !whole.isEmpty
    | '.' :: fraction =>
      let (decimals, rest) := fraction.span digit
      !decimals.isEmpty && (rest = [] || rest = ['\n'])
    | _ => false
  | _ => false

/-- The flags that begin with a text, with their full spelling. -/
def flagsBeginning (s : Letters) : List (String × Flag) :=
  Flag.spellings.filter fun spelling => s.isPrefixOf (spelling.1 : Letters)

/-- The flag that a text spells in full. -/
def flagSpelled? (s : Letters) : Option Flag :=
  (Letters.toString? s).bind fun name => Flag.spellings.lookup name

/-- An argument that is neither a flag nor short for one. -/
def Token.ofOther (s : Letters) : Token :=
  if isNegativeNumber s || s.contains (.char ' ') then .word s else .stray s

/-- An argument that begins with two dashes and is no flag in full. -/
def Token.ofLong (s : Letters) : Except EarlyEnd Token :=
  let (name, value) := splitEquals s
  match flagsBeginning name with
  | [] => .ok (.ofOther s)
  | [(_, flag)] => .ok (.known flag value s)
  | candidates =>
    .error (.misuse ("ambiguous option: " ++ s ++ " could match " ++
      (", ".intercalate (candidates.map (·.1)) : String)))

/-- What an argument is. -/
def Token.ofLetters (s : Letters) : Except EarlyEnd Token :=
  match s with
  | .char '-' :: second :: tail =>
    match flagSpelled? s with
    | some flag => .ok (Token.known flag none s)
    | none =>
      let (name, value) := splitEquals s
      match value, flagSpelled? name with
      | some value, some flag =>
        .ok (if second = .char 'h' then .cluster value s else .known flag (some value) s)
      | _, _ =>
        if second = .char '-' then Token.ofLong s
        else if second = .char 'h' then .ok (.cluster tail s)
        else .ok (.ofOther s)
  | _ => .ok (.word s)

/-- What the arguments are. -/
def Token.ofArguments : List Letters → Except EarlyEnd (List Token)
  | [] => .ok []
  | s :: rest =>
    if s = twoDashes then .ok (.dashes :: rest.map .word)
    else
      match Token.ofLetters s, Token.ofArguments rest with
      | .error e, _ => .error e
      | .ok _, .error e => .error e
      | .ok token, .ok tokens => .ok (token :: tokens)

/-- Where a result is to be written. -/
inductive ReportPlace where
  /-- At a path. -/
  | path (p : Path)
  /-- Somewhere, but no path was given. -/
  | missing
  deriving DecidableEq

/-- The place that a text stands for; two dashes are no path. -/
def ReportPlace.ofLetters (s : Letters) : ReportPlace :=
  if s = twoDashes then .missing else .path (Path.ofLetters s)

/-- What the arguments ask for. -/
structure Invocation where
  /-- The values of the operands, under the names of the fields that they are for. -/
  record : RawRecord := []
  /-- Whether to say only whether the check passed. -/
  quiet : Bool := false
  /-- Where to write the result. -/
  reportOut : Option ReportPlace := none

/-- The operands still to come, and what was found so far. -/
structure Progress where
  /-- The operands without a value. -/
  pending : List Operand := Operand.all
  /-- What was asked for. -/
  found : Invocation := {}
  /-- Arguments that nothing could be made of. -/
  extras : List Letters := []

/-- The number of an operand: a sign and digits of any script, with single underscores. -/
def readSize (s : Letters) : Option Int := do
  let text ← Letters.toString? s
  let (negative, cs) := Text.splitSign (Text.trim text.toList)
  let ds ← Text.digits? Text.decimalDigit? cs
  if ds.length ≤ numeralLimit then some (Text.signed negative (Text.ofDigits ds)) else none

/-- The value of an operand; two dashes alone in the place of one leave it with nothing. -/
def Operand.value (operand : Operand) (s : Option Letters) : Except EarlyEnd RawValue :=
  match operand, s with
  | _, none => .ok (.list [])
  | .fileSize, some s =>
    match readSize s with
    | some n => .ok (.int n)
    | none => .error (.argument operand.label ("invalid int value: " ++ Text.quoted s))
  | _, some s => .ok (.text s)

/-- The tokens of the next operand and those behind it: a word, with dashes on either side. -/
def nextOperand? : List Token → Option (List Letters × List Token)
  | .dashes :: .word s :: rest => some ([twoDashes, s], rest)
  | .word s :: .dashes :: rest => some ([s, twoDashes], rest)
  | .word s :: rest => some ([s], rest)
  | _ => none

theorem length_lt_of_nextOperand? {tokens rest : List Token} {strings : List Letters}
    (h : nextOperand? tokens = some (strings, rest)) : rest.length < tokens.length := by
  unfold nextOperand? at h
  split at h <;> cases h <;> simp only [List.length_cons] <;> omega

/-- Give the words in front to the open operands, one each. -/
def Progress.takeOperands (p : Progress) (tokens : List Token) :
    Except EarlyEnd (Progress × List Token) :=
  go p.pending p.found tokens
where
  /-- Give words to the given operands. -/
  go : List Operand → Invocation → List Token → Except EarlyEnd (Progress × List Token)
    | [], found, tokens => .ok ({ p with pending := [], found := found }, tokens)
    | operand :: operands, found, tokens =>
      match nextOperand? tokens with
      | none => .ok ({ p with pending := operand :: operands, found := found }, tokens)
      | some (strings, rest) =>
        match operand.value (strings.erase twoDashes).head? with
        | .error e => .error e
        | .ok v => go operands { found with record := found.record ++ [(operand.field, v)] } rest

/-- What the characters behind the short form of help come to: more of the same are no fault. -/
def helpCluster (tail : Letters) : EarlyEnd :=
  match tail.dropWhile (· = .char 'h') with
  | [] => if tail = [] then .ignoredValue .help [] else .help
  | rest => .ignoredValue .help rest

/-- Use a flag, with the tokens behind it. -/
def Progress.takeFlag (p : Progress) (flag : Flag) (value : Option Letters) (rest : List Token) :
    Except EarlyEnd (Progress × List Token) :=
  match flag, value, rest with
  | .reportOut, some s, rest =>
    .ok ({ p with found := { p.found with reportOut := some (.ofLetters s) } }, rest)
  | .reportOut, none, .word s :: rest =>
    .ok ({ p with found := { p.found with reportOut := some (.ofLetters s) } }, rest)
  | .reportOut, none, _ => .error (.argument flag.label "expected one argument")
  | _, some s, _ => .error (.ignoredValue flag s)
  | .help, none, _ => .error .help
  | .version, none, _ => .error .version
  | .quiet, none, rest => .ok ({ p with found := { p.found with quiet := true } }, rest)

theorem Progress.length_le_of_takeFlag {p p' : Progress} {flag : Flag} {value : Option Letters}
    {rest rest' : List Token} (h : p.takeFlag flag value rest = .ok (p', rest')) :
    rest'.length ≤ rest.length := by
  unfold takeFlag at h
  split at h <;> cases h <;> simp

/-- Use the first token where it is no operand. -/
def Progress.takeToken (p : Progress) (token : Token) (rest : List Token) :
    Except EarlyEnd (Progress × List Token) :=
  match token with
  | .known flag value _ => p.takeFlag flag value rest
  | .cluster tail _ => .error (helpCluster tail)
  | token => .ok ({ p with extras := p.extras ++ [token.spelled] }, rest)

theorem Progress.length_le_of_takeToken {p p' : Progress} {token : Token}
    {rest rest' : List Token} (h : p.takeToken token rest = .ok (p', rest')) :
    rest'.length ≤ rest.length := by
  unfold takeToken at h
  split at h
  · exact length_le_of_takeFlag h
  · cases h
  · cases h
    exact Nat.le_refl _

theorem Progress.length_le_of_takeOperands {p p' : Progress} {tokens rest : List Token}
    (h : p.takeOperands tokens = .ok (p', rest)) : rest.length ≤ tokens.length := by
  unfold takeOperands at h
  generalize p.pending = operands at h
  generalize p.found = found at h
  induction operands generalizing found tokens with
  | nil =>
    unfold takeOperands.go at h
    cases h
    exact Nat.le_refl _
  | cons operand operands ih =>
    unfold takeOperands.go at h
    split at h
    · cases h
      exact Nat.le_refl _
    · next hn =>
      split at h
      · cases h
      · exact Nat.le_trans (ih _ h) (Nat.le_of_lt (length_lt_of_nextOperand? hn))

/-- Use all tokens, from left to right. -/
def Progress.takeAll (p : Progress) (tokens : List Token) : Except EarlyEnd Progress :=
  match _h : p.takeOperands tokens with
  | .error e => .error e
  | .ok (p, []) => .ok p
  | .ok (p, token :: rest) =>
    match _h' : p.takeToken token rest with
    | .error e => .error e
    | .ok (p, rest) => p.takeAll rest
termination_by tokens.length
decreasing_by
  have h₁ := Progress.length_le_of_takeOperands _h
  have h₂ := Progress.length_le_of_takeToken _h'
  simp at h₁
  omega

/-- What the arguments ask for, or how the program ends instead. -/
def Invocation.ofArguments (arguments : List Letters) : Except EarlyEnd Invocation := do
  let tokens ← Token.ofArguments arguments
  let p ← Progress.takeAll {} tokens
  if p.pending ≠ [] then
    .error (.misuse ("the following arguments are required: " ++
      ", ".intercalate (p.pending.map Operand.label) : String))
  else if p.extras ≠ [] then
    .error (.misuse ("unrecognized arguments: " ++ [.char ' '].intercalate p.extras))
  else return p.found

end CallTrace
