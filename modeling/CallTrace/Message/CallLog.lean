import CallTrace.Message.RemoteExecution

/-!
# Messages of a call log

A log entry records one call: when it began and ended, which method was
called, and the requests and responses, in one of six forms by kind of call.
-/

namespace CallTrace

/-- Asks for the bytes of a resource. -/
structure ReadRequest where
  /-- The resource. -/
  resourceName : String := ""
  /-- First byte to read. -/
  readOffset : Int64 := 0
  /-- How many bytes to read. -/
  readLimit : Int64 := 0
  /-- Fields of unknown number or kind, in order of arrival. -/
  unknown : List UInt8 := []
  deriving DecidableEq

/-- The layout of `ReadRequest`. -/
def ReadRequest.layout : Layout ReadRequest where
  fullName := "google.bytestream.ReadRequest"
  empty := {}
  fields :=
    [ .text 1 "resource_name" ⟨(·.resourceName), fun v m => { m with resourceName := v }⟩,
      .word .int64 2 "read_offset" ⟨(·.readOffset), fun v m => { m with readOffset := v }⟩,
      .word .int64 3 "read_limit" ⟨(·.readLimit), fun v m => { m with readLimit := v }⟩ ]
  unknown := ⟨(·.unknown), fun v m => { m with unknown := v }⟩

/-- A recorded call that executes an action. -/
structure ExecuteDetails where
  /-- What was asked. -/
  request : Option ExecuteRequest := none
  /-- The operation as it went on. -/
  responses : List Operation := []
  /-- Fields of unknown number or kind, in order of arrival. -/
  unknown : List UInt8 := []
  deriving DecidableEq

/-- The layout of `ExecuteDetails`. -/
def ExecuteDetails.layout : Layout ExecuteDetails where
  fullName := "remote_logging.ExecuteDetails"
  empty := {}
  fields :=
    [ .message ExecuteRequest.layout 1 "request"
        ⟨(·.request), fun v m => { m with request := v }⟩,
      .messages Operation.layout 2 "responses"
        ⟨(·.responses), fun v m => { m with responses := v }⟩ ]
  unknown := ⟨(·.unknown), fun v m => { m with unknown := v }⟩

/-- A recorded call that waits for an execution. -/
structure WaitExecutionDetails where
  /-- What was asked. -/
  request : Option WaitExecutionRequest := none
  /-- The operation as it went on. -/
  responses : List Operation := []
  /-- Fields of unknown number or kind, in order of arrival. -/
  unknown : List UInt8 := []
  deriving DecidableEq

/-- The layout of `WaitExecutionDetails`. -/
def WaitExecutionDetails.layout : Layout WaitExecutionDetails where
  fullName := "remote_logging.WaitExecutionDetails"
  empty := {}
  fields :=
    [ .message WaitExecutionRequest.layout 1 "request"
        ⟨(·.request), fun v m => { m with request := v }⟩,
      .messages Operation.layout 2 "responses"
        ⟨(·.responses), fun v m => { m with responses := v }⟩ ]
  unknown := ⟨(·.unknown), fun v m => { m with unknown := v }⟩

/-- A recorded call that looks up a result. -/
structure GetActionResultDetails where
  /-- What was asked. -/
  request : Option GetActionResultRequest := none
  /-- The result found. -/
  response : Option ActionResult := none
  /-- Fields of unknown number or kind, in order of arrival. -/
  unknown : List UInt8 := []
  deriving DecidableEq

/-- The layout of `GetActionResultDetails`. -/
def GetActionResultDetails.layout : Layout GetActionResultDetails where
  fullName := "remote_logging.GetActionResultDetails"
  empty := {}
  fields :=
    [ .message GetActionResultRequest.layout 1 "request"
        ⟨(·.request), fun v m => { m with request := v }⟩,
      .message ActionResult.layout 2 "response"
        ⟨(·.response), fun v m => { m with response := v }⟩ ]
  unknown := ⟨(·.unknown), fun v m => { m with unknown := v }⟩

/-- A recorded call that looks up blobs. -/
structure FindMissingBlobsDetails where
  /-- What was asked. -/
  request : Option FindMissingBlobsRequest := none
  /-- What was answered. -/
  response : Option FindMissingBlobsResponse := none
  /-- Fields of unknown number or kind, in order of arrival. -/
  unknown : List UInt8 := []
  deriving DecidableEq

/-- The layout of `FindMissingBlobsDetails`. -/
def FindMissingBlobsDetails.layout : Layout FindMissingBlobsDetails where
  fullName := "remote_logging.FindMissingBlobsDetails"
  empty := {}
  fields :=
    [ .message FindMissingBlobsRequest.layout 1 "request"
        ⟨(·.request), fun v m => { m with request := v }⟩,
      .message FindMissingBlobsResponse.layout 2 "response"
        ⟨(·.response), fun v m => { m with response := v }⟩ ]
  unknown := ⟨(·.unknown), fun v m => { m with unknown := v }⟩

/-- A recorded call that reads a resource. -/
structure ReadDetails where
  /-- What was asked. -/
  request : Option ReadRequest := none
  /-- Number of reads. -/
  numReads : Int64 := 0
  /-- Bytes read in all. -/
  bytesRead : Int64 := 0
  /-- Fields of unknown number or kind, in order of arrival. -/
  unknown : List UInt8 := []
  deriving DecidableEq

/-- The layout of `ReadDetails`. -/
def ReadDetails.layout : Layout ReadDetails where
  fullName := "remote_logging.ReadDetails"
  empty := {}
  fields :=
    [ .message ReadRequest.layout 1 "request"
        ⟨(·.request), fun v m => { m with request := v }⟩,
      .word .int64 2 "num_reads" ⟨(·.numReads), fun v m => { m with numReads := v }⟩,
      .word .int64 3 "bytes_read" ⟨(·.bytesRead), fun v m => { m with bytesRead := v }⟩ ]
  unknown := ⟨(·.unknown), fun v m => { m with unknown := v }⟩

/-- A recorded call that writes a resource. -/
structure WriteDetails where
  /-- The names written to. -/
  resourceNames : List String := []
  /-- The offsets written at. -/
  offsets : List Int64 := []
  /-- The writes that were the last of theirs. -/
  finishWrites : List Bool := []
  /-- Number of writes. -/
  numWrites : Int64 := 0
  /-- Bytes sent in all. -/
  bytesSent : Int64 := 0
  /-- Fields of unknown number or kind, in order of arrival. -/
  unknown : List UInt8 := []
  deriving DecidableEq

/-- The layout of `WriteDetails`. -/
def WriteDetails.layout : Layout WriteDetails where
  fullName := "remote_logging.WriteDetails"
  empty := {}
  fields :=
    [ .texts 1 "resource_names" ⟨(·.resourceNames), fun v m => { m with resourceNames := v }⟩,
      .words .int64 2 "offsets" ⟨(·.offsets), fun v m => { m with offsets := v }⟩,
      .words .flag 3 "finish_writes" ⟨(·.finishWrites), fun v m => { m with finishWrites := v }⟩,
      .word .int64 4 "num_writes" ⟨(·.numWrites), fun v m => { m with numWrites := v }⟩,
      .word .int64 5 "bytes_sent" ⟨(·.bytesSent), fun v m => { m with bytesSent := v }⟩ ]
  unknown := ⟨(·.unknown), fun v m => { m with unknown := v }⟩

/-- The details of a call, by its kind. -/
inductive CallDetails where
  /-- A call that executes an action. -/
  | execute (details : ExecuteDetails)
  /-- A call that looks up a result. -/
  | getActionResult (details : GetActionResultDetails)
  /-- A call that waits for an execution. -/
  | waitExecution (details : WaitExecutionDetails)
  /-- A call that looks up blobs. -/
  | findMissingBlobs (details : FindMissingBlobsDetails)
  /-- A call that reads a resource. -/
  | read (details : ReadDetails)
  /-- A call that writes a resource. -/
  | write (details : WriteDetails)
  deriving DecidableEq

/-- The name of a kind of call. -/
def CallDetails.kindName : CallDetails → String
  | .execute _ => "execute"
  | .getActionResult _ => "get_action_result"
  | .waitExecution _ => "wait_execution"
  | .findMissingBlobs _ => "find_missing_blobs"
  | .read _ => "read"
  | .write _ => "write"

/-- The details, if the call is one that executes an action. -/
def CallDetails.execute? : CallDetails → Option ExecuteDetails
  | .execute details => some details
  | _ => none

/-- The details, if the call is one that looks up a result. -/
def CallDetails.getActionResult? : CallDetails → Option GetActionResultDetails
  | .getActionResult details => some details
  | _ => none

/-- The details, if the call is one that waits for an execution. -/
def CallDetails.waitExecution? : CallDetails → Option WaitExecutionDetails
  | .waitExecution details => some details
  | _ => none

/-- The details, if the call is one that looks up blobs. -/
def CallDetails.findMissingBlobs? : CallDetails → Option FindMissingBlobsDetails
  | .findMissingBlobs details => some details
  | _ => none

/-- The details, if the call is one that reads a resource. -/
def CallDetails.read? : CallDetails → Option ReadDetails
  | .read details => some details
  | _ => none

/-- The details, if the call is one that writes a resource. -/
def CallDetails.write? : CallDetails → Option WriteDetails
  | .write details => some details
  | _ => none

/-- What is known of a call beyond its method. -/
structure RpcCallDetails where
  /-- The details, if any were recorded. -/
  call : Option CallDetails := none
  /-- Fields of unknown number or kind, in order of arrival. -/
  unknown : List UInt8 := []
  deriving DecidableEq

/-- The place of the recorded details. -/
def RpcCallDetails.callLens : Lens RpcCallDetails (Option CallDetails) :=
  ⟨(·.call), fun v m => { m with call := v }⟩

/-- The layout of `RpcCallDetails`. -/
def RpcCallDetails.layout : Layout RpcCallDetails where
  fullName := "remote_logging.RpcCallDetails"
  empty := {}
  fields :=
    [ .message ExecuteDetails.layout 1 "execute"
        (callLens.member .execute CallDetails.execute?),
      .message GetActionResultDetails.layout 2 "get_action_result"
        (callLens.member .getActionResult CallDetails.getActionResult?),
      .message WaitExecutionDetails.layout 3 "wait_execution"
        (callLens.member .waitExecution CallDetails.waitExecution?),
      .message FindMissingBlobsDetails.layout 4 "find_missing_blobs"
        (callLens.member .findMissingBlobs CallDetails.findMissingBlobs?),
      .message ReadDetails.layout 5 "read"
        (callLens.member .read CallDetails.read?),
      .message WriteDetails.layout 6 "write"
        (callLens.member .write CallDetails.write?) ]
  unknown := ⟨(·.unknown), fun v m => { m with unknown := v }⟩

/-- One recorded call. -/
structure LogEntry where
  /-- When the call began. -/
  startTime : Option Timestamp := none
  /-- When the call ended. -/
  endTime : Option Timestamp := none
  /-- How the call ended. -/
  status : Option Status := none
  /-- Full name of the called method. -/
  methodName : String := ""
  /-- What is known of this kind of call. -/
  details : Option RpcCallDetails := none
  /-- Fields of unknown number or kind, in order of arrival. -/
  unknown : List UInt8 := []
  deriving DecidableEq

/-- The layout of `LogEntry`. -/
def LogEntry.layout : Layout LogEntry where
  fullName := "remote_logging.LogEntry"
  empty := {}
  fields :=
    [ .message Timestamp.layout 1 "start_time"
        ⟨(·.startTime), fun v m => { m with startTime := v }⟩,
      .message Timestamp.layout 2 "end_time"
        ⟨(·.endTime), fun v m => { m with endTime := v }⟩,
      .message Status.layout 3 "status"
        ⟨(·.status), fun v m => { m with status := v }⟩,
      .text 5 "method_name" ⟨(·.methodName), fun v m => { m with methodName := v }⟩,
      .message RpcCallDetails.layout 6 "details"
        ⟨(·.details), fun v m => { m with details := v }⟩ ]
  unknown := ⟨(·.unknown), fun v m => { m with unknown := v }⟩

/-- The recorded details of the call. -/
def LogEntry.call? (entry : LogEntry) : Option CallDetails := entry.details.bind (·.call)

end CallTrace
