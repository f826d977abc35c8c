import CallTrace.Message.CallLog

/-!
# The catalogue of message types

The message types of a log, and those that stand in them. A type has a
structure of messages and a layout; through the layout every type is encoded
and decoded alike, and a type is found by its full name.
-/

namespace CallTrace

/-- The message types of a log. -/
inductive MessageType where
  | digest
  | findMissingBlobsRequest
  | findMissingBlobsResponse
  | executeRequest
  | waitExecutionRequest
  | getActionResultRequest
  | outputFile
  | actionResult
  | executeResponse
  | readRequest
  | executeDetails
  | waitExecutionDetails
  | getActionResultDetails
  | findMissingBlobsDetails
  | readDetails
  | writeDetails
  | rpcCallDetails
  | logEntry
  | operation
  | status
  | any
  | timestamp
  | duration
  | empty
  deriving DecidableEq

namespace MessageType

/-- The message types of a log. -/
def all : List MessageType :=
  [ .digest, .findMissingBlobsRequest, .findMissingBlobsResponse, .executeRequest,
    .waitExecutionRequest, .getActionResultRequest, .outputFile, .actionResult,
    .executeResponse, .readRequest, .executeDetails, .waitExecutionDetails,
    .getActionResultDetails, .findMissingBlobsDetails, .readDetails, .writeDetails,
    .rpcCallDetails, .logEntry, .operation, .status,
    .any, .timestamp, .duration, .empty ]

theorem mem_all (t : MessageType) : t ∈ all := by
  cases t <;> decide

/-- The messages of a type. -/
abbrev Message : MessageType → Type
  | .digest => Digest
  | .findMissingBlobsRequest => FindMissingBlobsRequest
  | .findMissingBlobsResponse => FindMissingBlobsResponse
  | .executeRequest => ExecuteRequest
  | .waitExecutionRequest => WaitExecutionRequest
  | .getActionResultRequest => GetActionResultRequest
  | .outputFile => OutputFile
  | .actionResult => ActionResult
  | .executeResponse => ExecuteResponse
  | .readRequest => ReadRequest
  | .executeDetails => ExecuteDetails
  | .waitExecutionDetails => WaitExecutionDetails
  | .getActionResultDetails => GetActionResultDetails
  | .findMissingBlobsDetails => FindMissingBlobsDetails
  | .readDetails => ReadDetails
  | .writeDetails => WriteDetails
  | .rpcCallDetails => RpcCallDetails
  | .logEntry => LogEntry
  | .operation => Operation
  | .status => Status
  | .any => Any
  | .timestamp => Timestamp
  | .duration => Duration
  | .empty => EmptyMessage

/-- The layout of a type. -/
def layout : (t : MessageType) → Layout t.Message
  | .digest => Digest.layout
  | .findMissingBlobsRequest => FindMissingBlobsRequest.layout
  | .findMissingBlobsResponse => FindMissingBlobsResponse.layout
  | .executeRequest => ExecuteRequest.layout
  | .waitExecutionRequest => WaitExecutionRequest.layout
  | .getActionResultRequest => GetActionResultRequest.layout
  | .outputFile => OutputFile.layout
  | .actionResult => ActionResult.layout
  | .executeResponse => ExecuteResponse.layout
  | .readRequest => ReadRequest.layout
  | .executeDetails => ExecuteDetails.layout
  | .waitExecutionDetails => WaitExecutionDetails.layout
  | .getActionResultDetails => GetActionResultDetails.layout
  | .findMissingBlobsDetails => FindMissingBlobsDetails.layout
  | .readDetails => ReadDetails.layout
  | .writeDetails => WriteDetails.layout
  | .rpcCallDetails => RpcCallDetails.layout
  | .logEntry => LogEntry.layout
  | .operation => Operation.layout
  | .status => Status.layout
  | .any => Any.layout
  | .timestamp => Timestamp.layout
  | .duration => Duration.layout
  | .empty => EmptyMessage.layout

/-- The name of a type with its package. -/
def fullName (t : MessageType) : String := t.layout.fullName

/-- The type of a full name. -/
def ofFullName? (name : String) : Option MessageType := all.find? (fun t => t.fullName = name)

/-- The message that the bytes encode. -/
def decode (t : MessageType) (bytes : List UInt8) : Except DecodeError t.Message :=
  (t.layout.decode bytes).mapError fun fault => ⟨t.fullName, fault⟩

/-- The bytes of a message. -/
def encode (t : MessageType) (m : t.Message) : List UInt8 := t.layout.encode m

end MessageType

/-- The message type of a log that a packed message claims to be. -/
def Any.messageType? (a : Any) : Option MessageType := a.typeName?.bind MessageType.ofFullName?

end CallTrace
