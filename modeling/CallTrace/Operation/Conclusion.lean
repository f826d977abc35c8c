import CallTrace.Message.TextForm

/-!
# What an operation came to

An operation is still on its way, has failed, or has succeeded with a packed
response. The response is unpacked as the type that is expected of it; a
response of another type, or one whose bytes are no message, is a defect of
the log and not an operation that is still on its way.
-/

namespace CallTrace

/-- Why the response of an operation cannot be had. -/
inductive ResponseError where
  /-- The envelope names another type than the expected one, or none. -/
  | mistyped (typeUrl expected : String)
  /-- The packed bytes are no message of the expected type. -/
  | invalid (cause : DecodeError)
  deriving DecidableEq

/-- The text of a response error. -/
def ResponseError.message : ResponseError → String
  | .mistyped typeUrl expected =>
    "Operation response holds '" ++ typeUrl ++ "', expected " ++ expected
  | .invalid cause =>
    "Operation response is not a valid " ++ cause.typeName ++ ": " ++ cause.message

/-- What an operation came to, with a response of the given type. -/
inductive Conclusion (t : MessageType) where
  /-- It succeeded with this response. -/
  | success (payload : t.Message)
  /-- It failed with this status. -/
  | failure (status : Status)
  /-- It is still on its way, or ended without anything to show for it. -/
  | pending

/-- The response in an envelope, as the expected type. -/
def Any.unpackAs (a : Any) (t : MessageType) : Except ResponseError t.Message :=
  if a.typeName? = some t.fullName then (t.decode a.value).mapError .invalid
  else .error (.mistyped a.typeUrl t.fullName)

namespace Operation

/-- What a result came to; a failure whose status says that all went well is none. -/
def concludeResult (t : MessageType) :
    Option OperationResult → Except ResponseError (Conclusion t)
  | some (.error status) => .ok (if status.code = 0 then .pending else .failure status)
  | some (.response packed) => (packed.unpackAs t).map .success
  | none => .ok .pending

/-- What the operation came to. -/
def conclude (op : Operation) (t : MessageType) : Except ResponseError (Conclusion t) :=
  if op.done then concludeResult t op.result else .ok .pending

/-- The first operation that is done. -/
def firstFinished? (ops : List Operation) : Option Operation := ops.find? (·.done)

end Operation

namespace Conclusion

variable {t : MessageType}

variable [KnownTypes]

/-- The status of a failure on one line; nothing is said of the others. -/
def errorText : Conclusion t → Except DecodeError String
  | .failure status => MessageType.status.lineText status
  | _ => .ok ""

/--
Lines that tell what the operation came to, none while it is on its way. A
response goes by one label and a failure by another.
-/
def lines (label errorLabel : String) : Conclusion t → Except DecodeError (List String)
  | .success payload => (t.text payload).map fun text => [label ++ " extracted:", text]
  | .failure status =>
    (MessageType.status.lineText status).map fun text =>
      [errorLabel ++ " contained error: " ++ text]
  | .pending => .ok []

end Conclusion

end CallTrace
