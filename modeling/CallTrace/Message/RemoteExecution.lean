import CallTrace.Message.WellKnown

/-!
# Messages of remote execution

Requests and responses of a build that runs its actions on other machines and
keeps their inputs and outputs in a cache addressed by content.
-/

namespace CallTrace

/-- Names a blob by its content. -/
structure Digest where
  /-- Hash of the content. -/
  hash : String := ""
  /-- Size of the content. -/
  sizeBytes : Int64 := 0
  /-- Fields of unknown number or kind, in order of arrival. -/
  unknown : List UInt8 := []
  deriving DecidableEq

/-- The layout of `Digest`. -/
def Digest.layout : Layout Digest where
  fullName := "build.bazel.remote.execution.v2.Digest"
  empty := {}
  fields :=
    [ .text 1 "hash" ⟨(·.hash), fun v m => { m with hash := v }⟩,
      .word .int64 2 "size_bytes" ⟨(·.sizeBytes), fun v m => { m with sizeBytes := v }⟩ ]
  unknown := ⟨(·.unknown), fun v m => { m with unknown := v }⟩

/-- The size of a blob does not fit 64 bits with a sign. -/
structure SizeOutOfRange where
  /-- The size. -/
  size : Int
  deriving DecidableEq

/-- The text of a size that does not fit. -/
def SizeOutOfRange.message (e : SizeOutOfRange) : String := "Value out of range: " ++ e.size.repr

/-- The digest with a hash and a size. -/
def Digest.ofParts (hash : String) (size : Int) : Except SizeOutOfRange Digest :=
  if Int64.minValue.toInt ≤ size ∧ size ≤ Int64.maxValue.toInt then
    .ok { hash := hash, sizeBytes := Int64.ofInt size }
  else .error ⟨size⟩

/-- Asks which blobs a cache lacks. -/
structure FindMissingBlobsRequest where
  /-- The cache instance. -/
  instanceName : String := ""
  /-- The blobs asked for. -/
  blobDigests : List Digest := []
  /-- Fields of unknown number or kind, in order of arrival. -/
  unknown : List UInt8 := []
  deriving DecidableEq

/-- The layout of `FindMissingBlobsRequest`. -/
def FindMissingBlobsRequest.layout : Layout FindMissingBlobsRequest where
  fullName := "build.bazel.remote.execution.v2.FindMissingBlobsRequest"
  empty := {}
  fields :=
    [ .text 1 "instance_name" ⟨(·.instanceName), fun v m => { m with instanceName := v }⟩,
      .messages Digest.layout 2 "blob_digests"
        ⟨(·.blobDigests), fun v m => { m with blobDigests := v }⟩ ]
  unknown := ⟨(·.unknown), fun v m => { m with unknown := v }⟩

/-- Says which blobs a cache lacks. -/
structure FindMissingBlobsResponse where
  /-- The blobs that are not there. -/
  missingBlobDigests : List Digest := []
  /-- Fields of unknown number or kind, in order of arrival. -/
  unknown : List UInt8 := []
  deriving DecidableEq

/-- The layout of `FindMissingBlobsResponse`. -/
def FindMissingBlobsResponse.layout : Layout FindMissingBlobsResponse where
  fullName := "build.bazel.remote.execution.v2.FindMissingBlobsResponse"
  empty := {}
  fields :=
    [ .messages Digest.layout 2 "missing_blob_digests"
        ⟨(·.missingBlobDigests), fun v m => { m with missingBlobDigests := v }⟩ ]
  unknown := ⟨(·.unknown), fun v m => { m with unknown := v }⟩

/-- Asks for an action to be executed. -/
structure ExecuteRequest where
  /-- The executing instance. -/
  instanceName : String := ""
  /-- Execute even if a result is cached. -/
  skipCacheLookup : Bool := false
  /-- The action. -/
  actionDigest : Option Digest := none
  /-- Fields of unknown number or kind, in order of arrival. -/
  unknown : List UInt8 := []
  deriving DecidableEq

/-- The layout of `ExecuteRequest`. -/
def ExecuteRequest.layout : Layout ExecuteRequest where
  fullName := "build.bazel.remote.execution.v2.ExecuteRequest"
  empty := {}
  fields :=
    [ .text 1 "instance_name" ⟨(·.instanceName), fun v m => { m with instanceName := v }⟩,
      .word .flag 3 "skip_cache_lookup"
        ⟨(·.skipCacheLookup), fun v m => { m with skipCacheLookup := v }⟩,
      .message Digest.layout 6 "action_digest"
        ⟨(·.actionDigest), fun v m => { m with actionDigest := v }⟩ ]
  unknown := ⟨(·.unknown), fun v m => { m with unknown := v }⟩

/-- Asks to be told about an execution under way. -/
structure WaitExecutionRequest where
  /-- Name of the operation. -/
  name : String := ""
  /-- Fields of unknown number or kind, in order of arrival. -/
  unknown : List UInt8 := []
  deriving DecidableEq

/-- The layout of `WaitExecutionRequest`. -/
def WaitExecutionRequest.layout : Layout WaitExecutionRequest where
  fullName := "build.bazel.remote.execution.v2.WaitExecutionRequest"
  empty := {}
  fields :=
    [ .text 1 "name" ⟨(·.name), fun v m => { m with name := v }⟩ ]
  unknown := ⟨(·.unknown), fun v m => { m with unknown := v }⟩

/-- Asks for a cached result. -/
structure GetActionResultRequest where
  /-- The cache instance. -/
  instanceName : String := ""
  /-- The action. -/
  actionDigest : Option Digest := none
  /-- Fields of unknown number or kind, in order of arrival. -/
  unknown : List UInt8 := []
  deriving DecidableEq

/-- The layout of `GetActionResultRequest`. -/
def GetActionResultRequest.layout : Layout GetActionResultRequest where
  fullName := "build.bazel.remote.execution.v2.GetActionResultRequest"
  empty := {}
  fields :=
    [ .text 1 "instance_name" ⟨(·.instanceName), fun v m => { m with instanceName := v }⟩,
      .message Digest.layout 2 "action_digest"
        ⟨(·.actionDigest), fun v m => { m with actionDigest := v }⟩ ]
  unknown := ⟨(·.unknown), fun v m => { m with unknown := v }⟩

/-- A file that an action produced. -/
structure OutputFile where
  /-- Where the action left it. -/
  path : String := ""
  /-- Its content. -/
  digest : Option Digest := none
  /-- Whether it may be executed. -/
  isExecutable : Bool := false
  /-- Its content, where it is inlined. -/
  contents : List UInt8 := []
  /-- Fields of unknown number or kind, in order of arrival. -/
  unknown : List UInt8 := []
  deriving DecidableEq

/-- The layout of `OutputFile`. -/
def OutputFile.layout : Layout OutputFile where
  fullName := "build.bazel.remote.execution.v2.OutputFile"
  empty := {}
  fields :=
    [ .text 1 "path" ⟨(·.path), fun v m => { m with path := v }⟩,
      .message Digest.layout 2 "digest"
        ⟨(·.digest), fun v m => { m with digest := v }⟩,
      .word .flag 4 "is_executable" ⟨(·.isExecutable), fun v m => { m with isExecutable := v }⟩,
      .octets 5 "contents" ⟨(·.contents), fun v m => { m with contents := v }⟩ ]
  unknown := ⟨(·.unknown), fun v m => { m with unknown := v }⟩

/-- What an action produced. -/
structure ActionResult where
  /-- The produced files. -/
  outputFiles : List OutputFile := []
  /-- Exit status of the action. -/
  exitCode : Int32 := 0
  /-- Standard output, where it is inlined. -/
  stdoutRaw : List UInt8 := []
  /-- Standard output as a blob. -/
  stdoutDigest : Option Digest := none
  /-- Standard error, where it is inlined. -/
  stderrRaw : List UInt8 := []
  /-- Standard error as a blob. -/
  stderrDigest : Option Digest := none
  /-- Fields of unknown number or kind, in order of arrival. -/
  unknown : List UInt8 := []
  deriving DecidableEq

/-- The layout of `ActionResult`. -/
def ActionResult.layout : Layout ActionResult where
  fullName := "build.bazel.remote.execution.v2.ActionResult"
  empty := {}
  fields :=
    [ .messages OutputFile.layout 2 "output_files"
        ⟨(·.outputFiles), fun v m => { m with outputFiles := v }⟩,
      .word .int32 4 "exit_code" ⟨(·.exitCode), fun v m => { m with exitCode := v }⟩,
      .octets 5 "stdout_raw" ⟨(·.stdoutRaw), fun v m => { m with stdoutRaw := v }⟩,
      .message Digest.layout 6 "stdout_digest"
        ⟨(·.stdoutDigest), fun v m => { m with stdoutDigest := v }⟩,
      .octets 7 "stderr_raw" ⟨(·.stderrRaw), fun v m => { m with stderrRaw := v }⟩,
      .message Digest.layout 8 "stderr_digest"
        ⟨(·.stderrDigest), fun v m => { m with stderrDigest := v }⟩ ]
  unknown := ⟨(·.unknown), fun v m => { m with unknown := v }⟩

/-- The response that ends an execution. -/
structure ExecuteResponse where
  /-- What the action produced. -/
  result : Option ActionResult := none
  /-- Whether it came from the cache. -/
  cachedResult : Bool := false
  /-- How the execution ended. -/
  status : Option Status := none
  /-- Freeform remarks. -/
  message : String := ""
  /-- Fields of unknown number or kind, in order of arrival. -/
  unknown : List UInt8 := []
  deriving DecidableEq

/-- The layout of `ExecuteResponse`. -/
def ExecuteResponse.layout : Layout ExecuteResponse where
  fullName := "build.bazel.remote.execution.v2.ExecuteResponse"
  empty := {}
  fields :=
    [ .message ActionResult.layout 1 "result"
        ⟨(·.result), fun v m => { m with result := v }⟩,
      .word .flag 2 "cached_result" ⟨(·.cachedResult), fun v m => { m with cachedResult := v }⟩,
      .message Status.layout 3 "status"
        ⟨(·.status), fun v m => { m with status := v }⟩,
      .text 5 "message" ⟨(·.message), fun v m => { m with message := v }⟩ ]
  unknown := ⟨(·.unknown), fun v m => { m with unknown := v }⟩

end CallTrace
