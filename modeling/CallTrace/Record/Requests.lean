import CallTrace.Disk.Refusal
import CallTrace.Record.Delimited
import CallTrace.Record.Hashed

/-!
# Requests for bytes

Who reads a log asks for bytes, and goes on as the answer is: for one byte after the other of a
length, for a payload, and at last for one chunk after the other until there is none. Each answer
is hashed as it comes. A device may fail behind some bytes of the log; a request for more bytes
than those has no answer, and whoever made it is cut short.
-/

namespace CallTrace

/-- A consumer of bytes, which asks for some of them or has come to an end. -/
inductive Requests (α : Type) where
  /-- It has come to an end. -/
  | done (a : α)
  /-- It asks for a number of bytes, or for all, and goes on as the answer is. -/
  | ask (count : Option Int) (next : Except RequestError (List UInt8) → Requests α)

namespace Requests

variable {α β : Type}

/-- What the consumer comes to is handed to another one. -/
def andThen : Requests α → (α → Requests β) → Requests β
  | done a, f => f a
  | ask count next, f => ask count fun answer => (next answer).andThen f

end Requests

/-- Ask for the bytes of a length one by one; those before came to a value of so many bits. -/
def askLength : (limit shift value : Nat) → Requests (Except ReadError (Option Nat))
  | 0, _, _ => .done (.error (.record .overlongLength))
  | limit + 1, shift, value => .ask (some 1) fun
    | .error e => .done (.error (.request e))
    | .ok [] => .done (if shift = 0 then .ok none else .error (.record .truncatedLength))
    | .ok (b :: _) =>
      let value := value ||| ((b.toNat &&& 0x7f) <<< shift)
      if b.toNat &&& 0x80 = 0 then .done (.ok (some value)) else askLength limit (shift + 7) value

/-- Ask for the next record, of which the given number came before. -/
def askRecord (t : MessageType) (taken : Nat) : Requests (Except ReadError (Option t.Message)) :=
  (askLength lengthLimit 0 0).andThen fun
    | .error e => .done (.error e)
    | .ok none => .done (.ok none)
    | .ok (some length) => .ask (some length) fun
      | .error e => .done (.error (.request e))
      | .ok payload =>
        if payload.length = length then
          match t.decode payload with
          | .error e => .done (.error (.record (.invalid taken e)))
          | .ok m => .done (.ok (some m))
        else .done (.error (.record (.short taken length payload.length)))

/-- A log that is being read. -/
structure OpenLog where
  /-- Its bytes, hashed as they are taken. -/
  bytes : HashedStream
  /-- What the device tells behind the last of them in the place of an end. -/
  fault? : Option Refusal := none

/-- Whether a request would have been given more bytes if there were more. -/
def wantsMore (count : Option Int) : Except RequestError (List UInt8) → Bool
  | .error _ => false
  | .ok given =>
    match count with
    | some (.ofNat count) => given.length < count
    | _ => true

namespace OpenLog

variable [Memory]

/-- Answer a request; one that goes beyond the bytes of a failing device has no answer. -/
def read (log : OpenLog) (count : Option Int) :
    Except Refusal (Except RequestError (List UInt8) × OpenLog) :=
  let (answer, bytes) := log.bytes.read count
  match log.fault? with
  | none => .ok (answer, { log with bytes := bytes })
  | some refusal =>
    if wantsMore count answer then .error refusal else .ok (answer, { log with bytes := bytes })

/-- How many bytes are left of a log. -/
def left (log : OpenLog) : Nat := log.bytes.stream.rest.length

/-- What is left behind an answer, and the answer, are what was left. -/
theorem left_of_read {log log' : OpenLog} {count : Option Int}
    {answer : Except RequestError (List UInt8)} (h : log.read count = .ok (answer, log')) :
    log'.left + (answer.toOption.getD []).length = log.left := by
  have hsame : (log.bytes.read count).1 = answer ∧ (log.bytes.read count).2 = log'.bytes := by
    unfold read at h
    dsimp only at h
    split at h
    · cases h
      exact ⟨rfl, rfl⟩
    · split at h <;> cases h
      exact ⟨rfl, rfl⟩
  have hstream := log.bytes.stream.append_read count
  have hlength := congrArg List.length hstream
  obtain ⟨rfl, hbytes⟩ := hsame
  rw [List.length_append] at hlength
  rw [left, ← hbytes, left, ← hlength, Nat.add_comm]
  rfl

/-- Ask for one chunk after the other until one is empty, and give the label of all bytes. -/
def label (log : OpenLog) : Except Refusal String :=
  match _h : log.read (some chunkSize) with
  | .error refusal => .error refusal
  | .ok (.ok (_ :: _), log') => log'.label
  | .ok (_, log') => .ok log'.bytes.hasher.label
termination_by log.left
decreasing_by
  have hleft := left_of_read _h
  simp only [Except.toOption, Option.getD_some, List.length_cons] at hleft
  omega

end OpenLog

namespace Requests

variable [Memory] {α β : Type}

/-- The consumer is answered from a log, or cut short. -/
def onLog : Requests α → OpenLog → Except Refusal (α × OpenLog)
  | done a, log => .ok (a, log)
  | ask count next, log =>
    match log.read count with
    | .error refusal => .error refusal
    | .ok (answer, log) => (next answer).onLog log

theorem left_le_of_onLog {p : Requests α} {log log' : OpenLog} {a : α}
    (h : p.onLog log = .ok (a, log')) : log'.left ≤ log.left := by
  induction p generalizing log with
  | done a =>
    cases h
    exact Nat.le_refl _
  | ask count next ih =>
    unfold onLog at h
    split at h
    · cases h
    · next answer log'' hr =>
      have hleft := OpenLog.left_of_read hr
      have hle := ih answer h
      omega

theorem onLog_andThen (p : Requests α) (f : α → Requests β) (log : OpenLog) :
    (p.andThen f).onLog log = (p.onLog log).bind fun r => (f r.1).onLog r.2 := by
  induction p generalizing log with
  | done a => rfl
  | ask count next ih =>
    rw [andThen, onLog, onLog]
    cases log.read count with
    | error refusal => rfl
    | ok r => exact ih r.1 r.2

/-- A length that was found took at least one byte. -/
theorem left_lt_of_askLength {limit shift value n : Nat} {log log' : OpenLog}
    (h : (askLength limit shift value).onLog log = .ok (.ok (some n), log')) :
    log'.left < log.left := by
  cases limit with
  | zero => cases h
  | succ limit =>
    rw [askLength, onLog] at h
    split at h
    · cases h
    · next answer log'' hr =>
      have hleft := OpenLog.left_of_read hr
      match answer with
      | .error e => cases h
      | .ok [] =>
        dsimp only at h
        split at h <;> cases h
      | .ok (b :: bytes) =>
        have hle := left_le_of_onLog h
        simp only [Except.toOption, Option.getD_some, List.length_cons] at hleft
        omega

/-- A record that was found took at least one byte. -/
theorem left_lt_of_askRecord {t : MessageType} {m : t.Message} {taken : Nat} {log log' : OpenLog}
    (h : (askRecord t taken).onLog log = .ok (.ok (some m), log')) : log'.left < log.left := by
  rw [askRecord, onLog_andThen] at h
  cases hlength : (askLength lengthLimit 0 0).onLog log with
  | error refusal =>
    rw [hlength] at h
    cases h
  | ok r =>
    rw [hlength] at h
    obtain ⟨found, log''⟩ := r
    match found with
    | .error e => cases h
    | .ok none => cases h
    | .ok (some length) =>
      exact Nat.lt_of_le_of_lt (left_le_of_onLog h) (left_lt_of_askLength hlength)

end Requests

end CallTrace
