import CallTrace.Operation.Conclusion

/-!
# Log entries for reading

The text of a log entry, with the responses unpacked where the call is one
that streams operations. A response that cannot be had gets a line of its own;
only a message that has no text leaves the entry without one.
-/

namespace CallTrace

/-- The line between two entries. -/
def ruler : String := String.ofList (List.replicate 57 '-') ++ "\n"

variable [KnownTypes]

/-- What is to be said of one operation that should end in an execution's response. -/
def Operation.lines (op : Operation) : Except DecodeError (List String) :=
  match op.conclude .executeResponse with
  | .error e => .ok ["Could not extract ExecuteResponse: " ++ e.message]
  | .ok conclusion => conclusion.lines "ExecuteResponse" "ExecuteResponse"

/-- What is to be said of operations that should end in an execution's response. -/
def Operation.allLines (ops : List Operation) : Except DecodeError (List String) :=
  (ops.mapM Operation.lines).map List.flatten

/-- The name and the operations of a call that streams them. -/
def CallDetails.streamed? : CallDetails → Option (String × List Operation)
  | .execute details => some ("Execute", details.responses)
  | .waitExecution details => some ("WaitExecution", details.responses)
  | _ => none

/-- The lines below the text of an entry. -/
def LogEntry.responseLines (entry : LogEntry) : Except DecodeError (List String) :=
  match entry.call?.bind CallDetails.streamed? with
  | none => .ok []
  | some (name, ops) =>
    (Operation.allLines ops).map fun lines =>
      ("\nAttempted to extract ExecuteResponse from streaming " ++ name ++ " call responses:") ::
        lines

/-- The text of an entry. -/
def LogEntry.transcript (entry : LogEntry) : Except DecodeError String := do
  let text ← MessageType.logEntry.text entry
  let lines ← entry.responseLines
  return "\n".intercalate (text :: lines) ++ "\n"

end CallTrace
