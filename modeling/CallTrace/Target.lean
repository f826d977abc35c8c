import CallTrace.Message.RemoteExecution
import CallTrace.Validation.RawValue

/-!
# Targets

A target is the blob that a log has to show, by the hash and the size of its
content. It is met only where both parts agree; nothing is known of the hash
but that it is not empty. In the name of an uploaded resource the blob stands
at the end, its hash and its size with a slash between them.
-/

namespace CallTrace

/-- The hash and the size of a blob. -/
structure Target where
  /-- Hash of the content, in whatever form. -/
  hash : String
  /-- Size of the content. -/
  size : Nat
  /-- A hash has at least one character. -/
  hash_ne_empty : hash ≠ ""
  deriving DecidableEq

namespace Target

/-- The target with a hash that has a character. -/
def ofParts (hash : { s : String // s ≠ "" }) (size : Nat) : Target :=
  ⟨hash.val, size, hash.property⟩

/-- The target that raw values stand for, or all that is wrong with them. -/
def ofRecord (record : RawRecord) : Except (List FieldIssue) Target :=
  match record.read "hash" RawValue.nonemptyText, record.read "size_bytes" RawValue.count with
  | .ok hash, .ok size => .ok (ofParts hash size)
  | hash, size => .error (issueOf hash ++ issueOf size)

/-- Whether a digest names just this blob. -/
def isNamedBy (target : Target) (d : Digest) : Bool :=
  d.hash = target.hash && d.sizeBytes.toInt = target.size

/-- Whether one of the digests names the blob. -/
def isListedIn (target : Target) (ds : List Digest) : Bool := ds.any target.isNamedBy

/-- The text of the target, which ends the name of a resource uploaded for it. -/
def text (target : Target) : String := target.hash ++ "/" ++ target.size.repr

/-- Whether a resource name ends in the target. -/
def endsName (target : Target) (name : String) : Bool :=
  target.text.toList.isSuffixOf name.toList

/-- Whether one of the resource names ends in the target. -/
def endsSome (target : Target) (names : List String) : Bool := names.any target.endsName

/--
What is wrong with giving a name another value. A target is settled once it is
made; but a name that begins with an underscore is no part of it.
-/
def assign (_target : Target) (name : String) : Option FieldIssue :=
  if name.toList.head? = some '_' then none else some ⟨name, .frozen⟩

end Target

end CallTrace
