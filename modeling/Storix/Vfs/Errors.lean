import Storix.Persistence.Entities

/-! # Errors

The errors a mutation can end with. A domain error is part of the API; an internal
fault is an `Error` the code throws when its own data contradicts itself. -/

namespace Storix

/-- `toPreconditionCurrent`: the node a failed precondition found instead. -/
structure PreconditionCurrent where
  record : VfsNodeRecord
  path : JsString
  revision : Revision
  deriving DecidableEq

inductive InternalFault
  | nodeParentCycle
  | nodeParentMissing
  | rootMismatch
  | liveNodeCounterNegative
  | folderCounterParentMissing
  | folderCounterNegative
  | liveFileBytesOutOfRange
  | trashBytesOutOfRange
  | invalidSnapshotNodeLimit
  | invalidBlobIncrement
  | fileWithoutBlob
  | fileWithoutSize
  | fileWithoutContent
  | fileParentMissing
  | trashFileParentMissing
  | subtreeParentMissing
  | invalidTrashSubtree
  | trashFileWithoutMetadata
  | trashSourceWithoutMetadata
  | trashDirectoryWithMetadata
  | trashBlobNotLive
  | trashNodeCountMismatch
  | trashByteCountMismatch
  | trashCounterMismatch
  | trashItemChanged
  | trashRootMissing
  | trashParentMissing
  | snapshotRootMissing
  | snapshotBlobMissing
  | extractFileWithoutBlob
  | checkpointMissing
  | sequenceExhausted
  | nodeRowMissing
  | claimLost
  deriving DecidableEq, Repr

/-- The text of the `Error` the code throws. -/
def InternalFault.message : InternalFault → String
  | nodeParentCycle => "VFS node parent cycle"
  | nodeParentMissing => "VFS parent node missing"
  | rootMismatch => "VFS root node mismatch"
  | liveNodeCounterNegative => "namespace live node counter became negative"
  | folderCounterParentMissing => "folder child FILE counter parent is missing"
  | folderCounterNegative => "folder child FILE counter became negative"
  | liveFileBytesOutOfRange => "namespace live file byte counter out of int64 range"
  | trashBytesOutOfRange => "namespace trash byte counter out of int64 range"
  | invalidSnapshotNodeLimit => "Invalid snapshot node limit"
  | invalidBlobIncrement => "Invalid Blob reference increment"
  | fileWithoutBlob => "FILE node에 blobId가 없음 — 데이터 일관성 위반"
  | fileWithoutSize => "FILE node에 size가 없음 — 데이터 일관성 위반"
  | fileWithoutContent => "FILE node에 Blob 또는 size가 없음 — 데이터 일관성 위반"
  | fileParentMissing => "FILE parent is missing"
  | trashFileParentMissing => "FILE parent missing in trash manifest"
  | subtreeParentMissing => "subtree descendant parent 누락"
  | invalidTrashSubtree => "Invalid trash subtree"
  | trashFileWithoutMetadata => "Trash FILE metadata missing"
  | trashSourceWithoutMetadata => "FILE trash source missing Blob metadata"
  | trashDirectoryWithMetadata => "DIRECTORY trash source has Blob metadata"
  | trashBlobNotLive => "Trash source Blob is not live"
  | trashNodeCountMismatch => "Trash manifest node count mismatch"
  | trashByteCountMismatch => "Trash manifest byte count mismatch"
  | trashCounterMismatch => "Trash namespace counter mismatch"
  | trashItemChanged => "Trash item changed during mutation"
  | trashRootMissing => "Trash manifest root missing"
  | trashParentMissing => "Trash manifest parent missing"
  | snapshotRootMissing => "FILE snapshot의 root entry가 없음 — 데이터 일관성 위반"
  | snapshotBlobMissing =>
      "FILE snapshot root entry가 참조하는 Blob이 없음 — 데이터 일관성 위반"
  | extractFileWithoutBlob => "FILE entry에 Blob이 없음"
  | checkpointMissing => "Change feed checkpoint missing"
  | sequenceExhausted => "Change feed sequence exhausted"
  | nodeRowMissing => "Could not find any entity of type \"VfsNodeEntity\""
  | claimLost => "VFS mutation claim lost"

inductive ExtractEntryReason
  | invalidName
  | pathTooLong
  | belowFile (path : JsString)
  | duplicate
  | fileOverDirectory
  deriving DecidableEq

inductive VfsError
  | invalidPath (path : JsString)
  | invalidRevision
  | invalidCursor
  | namespaceNotFound
  | nodeNotFound (path : JsString)
  | notDirectory (path : JsString)
  | isDirectory (path : JsString)
  | alreadyExists (path : JsString)
  | invalidOperation (path : JsString)
  | directoryNotEmpty (path : JsString)
  | versionConflict (path : JsString)
  | preconditionFailed (path : JsString) (current : Option PreconditionCurrent)
  | revisionExhausted
  | quotaExceeded (limit requested : Int)
  | folderFileLimitExceeded (limit requested : Int)
  | namespaceNodeLimitExceeded (limit requested : Int)
  | moveLimitExceeded (limit : Nat)
  | copyLimitExceeded (limit : Nat)
  | deleteLimitExceeded (limit : Nat)
  | trashLimitExceeded (limit : Nat)
  | trashItemNotFound (id : Uuid)
  | trashItemExpired (id : Uuid)
  | snapshotNotFound (id : Uuid)
  | snapshotLimitExceeded
  | extractInvalidEntry (entryIndex : Nat) (name : JsString) (reason : ExtractEntryReason)
  | extractTypeConflict (entryIndex : Nat) (name path : JsString)
  | internal (fault : InternalFault)
  deriving DecidableEq

end Storix
