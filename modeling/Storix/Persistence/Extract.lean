import Storix.Persistence.Conditionals
import Storix.Vfs.ExtractEntryPlan

/-! # Committing an extracted archive -/

namespace Storix

open Foundation Foundation.Command

inductive ExtractMode
  | overwrite
  | clean
  deriving DecidableEq, Repr

structure ExtractCommitPlan where
  destinationSegments : List JsString
  destinationRevision : Option Revision
  mode : ExtractMode
  entries : List ExtractCommitEntry
  maxSyncDeleteNodes : Nat

structure ExtractCommitResult where
  status : Nat
  destinationId : Uuid
  createdCount : Nat
  replacedCount : Nat
  trashId : Option Uuid

abbrev DirectoryIds := OrderedMap JsString Uuid

def belowDestination (destinationSegments segments : List JsString) : JsString :=
  joinSegments destinationSegments ++ [JsString.slash] ++ JsString.join segments

def knownDepth (directoryIds : DirectoryIds) (segments : List JsString) : Nat → Nat
  | 0 => 0
  | depth + 1 =>
      if directoryIds.has (JsString.join (segments.take (depth + 1))) then depth + 1
      else knownDepth directoryIds segments depth

/-- Walk or create the directories of `rest` below `parent`. -/
def ensureBelow (host : Host) (destinationSegments : List JsString)
    (entry : ExtractCommitEntry) :
    List JsString → List JsString → Uuid → DirectoryIds → Mutating (Uuid × DirectoryIds)
  | _, [], parent, directoryIds => pure (parent, directoryIds)
  | visited, name :: rest, parent, directoryIds => do
      let key := JsString.join (visited ++ [name])
      let existing ← lockTargetNode host parent name
      match existing with
      | some node =>
          if node.type ≠ .directory then
            stop (.extractTypeConflict entry.entryIndex entry.name
              (belowDestination destinationSegments (visited ++ [name])))
          else
            ensureBelow host destinationSegments entry (visited ++ [name]) rest node.id
              (directoryIds.set key node.id)
      | none =>
          trackChangeFeedBefore host [parent]
          let child ← createParentDirectory host parent name
          ensureBelow host destinationSegments entry (visited ++ [name]) rest child.id
            (directoryIds.set key child.id)

def ensureRelativeDirectory (host : Host) (destinationSegments : List JsString)
    (destinationId : Uuid) (directoryIds : DirectoryIds) (segments : List JsString)
    (entry : ExtractCommitEntry) : Mutating (Uuid × DirectoryIds) :=
  let depth := knownDepth directoryIds segments segments.length
  let parent := (directoryIds.get (JsString.join (segments.take depth))).getD destinationId
  ensureBelow host destinationSegments entry (segments.take depth) (segments.drop depth)
    parent directoryIds

/-- Replace the blob of an existing file, which keeps its id. The version goes up
in the common increment. -/
def replaceBlob (node : VfsNode) (blobId : Uuid) (blob : BlobData) : Mutating Unit := do
  match node.blobId, node.size with
  | some previousBlobId, some previousSize =>
      let tx ← state
      updateNode node.id fun other =>
        { other with
          blobId := some blobId, size := some blob.size, mimeType := some blob.mimeType,
          updatedAt := tx.now }
      markChanged node.id true
      recordLiveByteDelta (blob.size - previousSize)
      decrementReferenceCount previousBlobId 1
  | _, _ => fail .fileWithoutContent

def commitFile (host : Host) (fileParentId : Uuid) (name : JsString) (blob : BlobData)
    (existing : Option VfsNode) : Mutating Bool := do
  let blobId ← createBlob host blob
  markAncestorChain host fileParentId
  match existing with
  | some node =>
      replaceBlob node blobId blob
      return true
  | none =>
      let created ← createNode host
        (fileColumns fileParentId name blobId blob.size blob.mimeType none)
      markChanged created.id false
      recordLiveByteDelta blob.size
      recordFolderFileDelta fileParentId 1
      recordLiveNodeDelta 1
      return false

def commitExtractEntry (host : Host) (destinationSegments : List JsString)
    (destinationId : Uuid) (directoryIds : DirectoryIds) (entry : ExtractCommitEntry) :
    Mutating (DirectoryIds × Option Bool) := do
  match entry.type with
  | .directory =>
      let (_, directoryIds) ← ensureRelativeDirectory host destinationSegments destinationId
        directoryIds entry.segments entry
      return (directoryIds, none)
  | .file =>
      match entry.blob with
      | none => fail .extractFileWithoutBlob
      | some blob =>
          let (fileParentId, directoryIds) ← ensureRelativeDirectory host destinationSegments
            destinationId directoryIds entry.segments.dropLast entry
          let name := lastSegment entry.segments
          let existing ← lockTargetNode host fileParentId name
          if existing.any fun node => node.type ≠ .file then
            stop (.extractTypeConflict entry.entryIndex entry.name
              (belowDestination destinationSegments entry.segments))
          else if existing.any fun node => MAX_VFS_VERSION ≤ node.version then
            stop .revisionExhausted
          else
            let replaced ← commitFile host fileParentId name blob existing
            return (directoryIds, some replaced)

def commitExtractEntries (host : Host) (destinationSegments : List JsString)
    (destinationId : Uuid) :
    List ExtractCommitEntry → DirectoryIds → Nat → Nat → Mutating (Nat × Nat)
  | [], _, created, replaced => pure (created, replaced)
  | entry :: rest, directoryIds, created, replaced => do
      let (directoryIds, outcome) ←
        commitExtractEntry host destinationSegments destinationId directoryIds entry
      match outcome with
      | none =>
          commitExtractEntries host destinationSegments destinationId rest directoryIds
            created replaced
      | some true =>
          commitExtractEntries host destinationSegments destinationId rest directoryIds
            created (replaced + 1)
      | some false =>
          commitExtractEntries host destinationSegments destinationId rest directoryIds
            (created + 1) replaced

def prepareDestination (host : Host) (plan : ExtractCommitPlan)
    (existing : Option VfsNode) : Mutating (Uuid × Option Uuid) := do
  match existing with
  | some destination =>
      if plan.mode = .clean then
        let trashId ← removeNode host plan.destinationSegments true plan.maxSyncDeleteNodes
        let (node, _) ← ensureDirectory host plan.destinationSegments false
        return (node.id, trashId)
      else
        markAncestorChain host destination.id
        return (destination.id, none)
  | none =>
      let (node, _) ← ensureDirectory host plan.destinationSegments false
      return (node.id, none)

def checkDestination (existing : Option VfsNode) (revision : Option Revision)
    (path : JsString) : Mutating Unit := do
  match revision, existing with
  | none, _ => pure ()
  | some _, none => stop (.nodeNotFound path)
  | some revision, some node => assertRevision node revision path

def assertEntries (host : Host) : List ExtractCommitEntry → Except VfsError Unit
  | [] => .ok ()
  | entry :: rest =>
      match assertPathSegments host entry.segments with
      | .error error => .error error
      | .ok () => assertEntries host rest

def applyExtract (host : Host) (plan : ExtractCommitPlan) : Mutating ExtractCommitResult := do
  lift (assertPathSegments host plan.destinationSegments)
  lift (assertEntries host plan.entries)
  let destinationPath := joinSegments plan.destinationSegments
  let parentId ← lockParentChain host plan.destinationSegments false true
  let existing ← lockTargetNode host parentId (lastSegment plan.destinationSegments)
  if existing.any fun node => node.type ≠ .directory then stop (.notDirectory destinationPath)
  else
    checkDestination existing plan.destinationRevision destinationPath
    let (destinationId, trashId) ← prepareDestination host plan existing
    let (created, replaced) ← commitExtractEntries host plan.destinationSegments destinationId
      plan.entries (OrderedMap.empty.set [] destinationId) 0 0
    return ⟨if existing.isSome then 200 else 201, destinationId, created, replaced, trashId⟩

end Storix
