import CallTrace.Message.Layout

/-!
# Messages shared by all services

Times, the envelope for packed messages, the status of a call, and the
operation, which is an answer that may still be on its way.
-/

namespace CallTrace

/-- A member of a choice, as a place in the structure that holds the choice. -/
def Lens.member {μ σ β : Type} (choice : Lens μ (Option σ)) (wrap : β → σ)
    (member? : σ → Option β) :
    Lens μ (Option β) where
  get m := (choice.get m).bind member?
  set v m :=
    match v with
    | some b => choice.set (some (wrap b)) m
    | none => if ((choice.get m).bind member?).isSome then choice.set none m else m

/-- The layout of `Any`. An envelope is displayed by what is packed in it. -/
def Any.layout : Layout Any where
  fullName := "google.protobuf.Any"
  empty := {}
  fields :=
    [ .text 1 "type_url" ⟨(·.typeUrl), fun v m => { m with typeUrl := v }⟩,
      .octets 2 "value" ⟨(·.value), fun v m => { m with value := v }⟩ ]
  unknown := ⟨(·.unknown), fun v m => { m with unknown := v }⟩
  packed? := some

/-- A point in time. -/
structure Timestamp where
  /-- Whole seconds since the epoch. -/
  seconds : Int64 := 0
  /-- Nanoseconds within the second. -/
  nanos : Int32 := 0
  /-- Fields of unknown number or kind, in order of arrival. -/
  unknown : List UInt8 := []
  deriving DecidableEq

/-- The layout of `Timestamp`. -/
def Timestamp.layout : Layout Timestamp where
  fullName := "google.protobuf.Timestamp"
  empty := {}
  fields :=
    [ .word .int64 1 "seconds" ⟨(·.seconds), fun v m => { m with seconds := v }⟩,
      .word .int32 2 "nanos" ⟨(·.nanos), fun v m => { m with nanos := v }⟩ ]
  unknown := ⟨(·.unknown), fun v m => { m with unknown := v }⟩

/-- A span of time. -/
structure Duration where
  /-- Whole seconds. -/
  seconds : Int64 := 0
  /-- Nanoseconds within the second. -/
  nanos : Int32 := 0
  /-- Fields of unknown number or kind, in order of arrival. -/
  unknown : List UInt8 := []
  deriving DecidableEq

/-- The layout of `Duration`. -/
def Duration.layout : Layout Duration where
  fullName := "google.protobuf.Duration"
  empty := {}
  fields :=
    [ .word .int64 1 "seconds" ⟨(·.seconds), fun v m => { m with seconds := v }⟩,
      .word .int32 2 "nanos" ⟨(·.nanos), fun v m => { m with nanos := v }⟩ ]
  unknown := ⟨(·.unknown), fun v m => { m with unknown := v }⟩

/-- A message without fields of its own. -/
structure EmptyMessage where
  /-- Fields of unknown number or kind, in order of arrival. -/
  unknown : List UInt8 := []
  deriving DecidableEq

/-- The layout of `EmptyMessage`. -/
def EmptyMessage.layout : Layout EmptyMessage where
  fullName := "google.protobuf.Empty"
  empty := {}
  fields := []
  unknown := ⟨(·.unknown), fun v m => { m with unknown := v }⟩

/-- How a call ended. -/
structure Status where
  /-- Zero when the call succeeded. -/
  code : Int32 := 0
  /-- What went wrong. -/
  message : String := ""
  /-- Further messages about the failure. -/
  details : List Any := []
  /-- Fields of unknown number or kind, in order of arrival. -/
  unknown : List UInt8 := []
  deriving DecidableEq

/-- The layout of `Status`. -/
def Status.layout : Layout Status where
  fullName := "google.rpc.Status"
  empty := {}
  fields :=
    [ .word .int32 1 "code" ⟨(·.code), fun v m => { m with code := v }⟩,
      .text 2 "message" ⟨(·.message), fun v m => { m with message := v }⟩,
      .messages Any.layout 3 "details"
        ⟨(·.details), fun v m => { m with details := v }⟩ ]
  unknown := ⟨(·.unknown), fun v m => { m with unknown := v }⟩

/-- How a finished operation ended. -/
inductive OperationResult where
  /-- It failed. -/
  | error (status : Status)
  /-- It succeeded with a packed response. -/
  | response (packed : Any)
  deriving DecidableEq

/-- The status of a failure. -/
def OperationResult.error? : OperationResult → Option Status
  | .error status => some status
  | _ => none

/-- The response of a success. -/
def OperationResult.response? : OperationResult → Option Any
  | .response packed => some packed
  | _ => none

/-- An answer that may still be on its way. -/
structure Operation where
  /-- Name under which the operation is known to the server. -/
  name : String := ""
  /-- What the server says about the progress. -/
  metadata : Option Any := none
  /-- Whether the result is final. -/
  done : Bool := false
  /-- The result, if there is one. -/
  result : Option OperationResult := none
  /-- Fields of unknown number or kind, in order of arrival. -/
  unknown : List UInt8 := []
  deriving DecidableEq

/-- The place of the result. -/
def Operation.resultLens : Lens Operation (Option OperationResult) :=
  ⟨(·.result), fun v m => { m with result := v }⟩

/-- The layout of `Operation`. -/
def Operation.layout : Layout Operation where
  fullName := "google.longrunning.Operation"
  empty := {}
  fields :=
    [ .text 1 "name" ⟨(·.name), fun v m => { m with name := v }⟩,
      .message Any.layout 2 "metadata" ⟨(·.metadata), fun v m => { m with metadata := v }⟩,
      .word .flag 3 "done" ⟨(·.done), fun v m => { m with done := v }⟩,
      .message Status.layout 4 "error" (resultLens.member .error OperationResult.error?),
      .message Any.layout 5 "response" (resultLens.member .response OperationResult.response?) ]
  unknown := ⟨(·.unknown), fun v m => { m with unknown := v }⟩

end CallTrace
