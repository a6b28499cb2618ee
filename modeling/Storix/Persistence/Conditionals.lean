import Storix.Persistence.Snapshots

/-! # Conditional mutations -/

namespace Storix

open Foundation Foundation.Command

inductive ContentPrecondition
  | ifAbsent (expiresInSeconds : Option Nat)
  | ifRevision (revision : Revision)
  deriving DecidableEq

inductive ConditionalMutation (host : Host)
  | mkdir (path : NodePath host)
  | delete (path : NodePath host) (ifRevision : Revision) (recursive : Bool)
  | persist (path : NodePath host) (ifRevision : Revision)
  | setMimeType (path : NodePath host) (ifRevision : Revision) (mimeType : JsString)
  | move (source : NodePath host) (destination : ResolvedPath host)
      (sourceRevision : Revision) (resolution : DestinationResolution)
  | copy (source : NodePath host) (destination : ResolvedPath host)
      (sourceRevision : Revision) (resolution : DestinationResolution)
      (expiresInSeconds : Option Nat)

structure ConditionalResult where
  status : Nat
  resource : Option (VfsNodeRecord × JsString)
  trashId : Option Uuid

def assertRevision (node : VfsNode) (revision : Revision) (path : JsString) :
    Mutating Unit := do
  if node.id ≠ revision.id ∨ node.version ≠ revision.version then stopPrecondition node path
  else pure ()

/-- `resolveEffectiveLimit(namespaceValue, ceilingValue)` -/
def resolveEffectiveLimit (namespaceValue : Option Nat) (ceilingValue : Nat) : Nat :=
  match namespaceValue with
  | none => ceilingValue
  | some value => min value ceilingValue

/-- The instant `seconds` after the transaction's time. -/
def expiryAfter (now : Nat) (expiresInSeconds : Option Nat) : Option Nat :=
  expiresInSeconds.map fun seconds => now + seconds * 1000

/-- The part that `persist` and `setMimeType` share: find the file under the root
lock and check its revision. -/
def lockFile (host : Host) (path : NodePath host) (ifRevision : Revision) :
    Mutating (Uuid × VfsNode) := do
  let parentId ← lockParentChain host path.segments false false
  let target ← lockTargetNode host parentId (lastSegment path.segments)
  match target with
  | none => stop (.nodeNotFound path.canonical)
  | some target =>
      if target.type = .directory then stop (.isDirectory path.canonical)
      else
        assertRevision target ifRevision path.canonical
        return (parentId, target)

def saveFile (host : Host) (parentId : Uuid) (target changed : VfsNode) (path : JsString) :
    Mutating ConditionalResult := do
  if MAX_VFS_VERSION ≤ target.version then stop .revisionExhausted
  else
    markAncestorChain host parentId
    let saved ← saveNode changed
    markChanged saved.id false
    return ⟨200, some (toRecord saved, path), none⟩

def persistNode (host : Host) (path : NodePath host) (ifRevision : Revision) :
    Mutating ConditionalResult := do
  let (parentId, target) ← lockFile host path ifRevision
  if target.expiresAt = none then return ⟨200, some (toRecord target, path.canonical), none⟩
  else saveFile host parentId target { target with expiresAt := none } path.canonical

def setMimeTypeNode (host : Host) (path : NodePath host) (ifRevision : Revision)
    (mimeType : JsString) : Mutating ConditionalResult := do
  let (parentId, target) ← lockFile host path ifRevision
  if target.mimeType = some mimeType then
    return ⟨200, some (toRecord target, path.canonical), none⟩
  else saveFile host parentId target { target with mimeType := some mimeType } path.canonical

def destinationMustBeAbsent {α : Type} (error : VfsError) : Mutating α := do
  match error with
  | .alreadyExists path =>
      let tx ← state
      match resolvePathInManager tx.db tx.rootId (pathSegments path) with
      | none => stop (.preconditionFailed path none)
      | some collision => stopPrecondition collision path
  | error => stop error

def checkSource (host : Host) (source : NodePath host) (sourceRevision : Revision) :
    Mutating Unit := do
  let tx ← state
  match resolvePathInManager tx.db tx.rootId source.segments with
  | none => stop (.nodeNotFound source.canonical)
  | some node => assertRevision node sourceRevision source.canonical

def applyConditionalMutation (host : Host) :
    ConditionalMutation host → Mutating ConditionalResult
  | .mkdir path => do
      let tx ← state
      match resolvePathInManager tx.db tx.rootId path.segments with
      | some existing => stopPrecondition existing path.canonical
      | none =>
          let (node, _) ← ensureDirectory host path.segments false
          return ⟨201, some (toRecord node, path.canonical), none⟩
  | .persist path ifRevision => persistNode host path ifRevision
  | .setMimeType path ifRevision mimeType => setMimeTypeNode host path ifRevision mimeType
  | .delete path ifRevision recursive => do
      let tx ← state
      match resolvePathInManager tx.db tx.rootId path.segments with
      | none => stop (.nodeNotFound path.canonical)
      | some target =>
          assertRevision target ifRevision path.canonical
          let trashId ←
            if target.type = .directory ∧ recursive = false then
              removeEmptyDirectory host path.segments
            else
              removeNode host path.segments recursive
                (resolveEffectiveLimit tx.db.namespaceRow.settings.maxSyncDeleteNodes
                  host.config.maxSyncDeleteNodes)
          return ⟨200, none, trashId⟩
  | .move source destination sourceRevision resolution => do
      checkSource host source sourceRevision
      let tx ← state
      let (node, finalPath) ← rescue
        (moveNode host source.segments destination.segments false
          (resolveEffectiveLimit tx.db.namespaceRow.settings.maxSyncMoveNodes
            host.config.maxSyncMoveNodes) resolution)
        destinationMustBeAbsent
      return ⟨200, some (node, finalPath), none⟩
  | .copy source destination sourceRevision resolution expiresInSeconds => do
      checkSource host source sourceRevision
      let tx ← state
      let (node, finalPath) ← rescue
        (copyNode host source.segments destination.segments false
          (resolveEffectiveLimit tx.db.namespaceRow.settings.maxSyncCopyNodes
            host.config.maxSyncCopyNodes) resolution (expiryAfter tx.now expiresInSeconds))
        destinationMustBeAbsent
      return ⟨201, some (node, finalPath), none⟩

def checkContent (condition : ContentPrecondition) (existing : Option VfsNode)
    (path : JsString) : Mutating Unit := do
  match condition, existing with
  | .ifAbsent _, none => pure ()
  | .ifAbsent _, some node => stopPrecondition node path
  | .ifRevision _, none => stop (.nodeNotFound path)
  | .ifRevision revision, some node => assertRevision node revision path

def putConditionalContent (host : Host) (path : NodePath host)
    (condition : ContentPrecondition) (blob : BlobData) : Mutating PutFileOutcome := do
  let tx ← state
  let existing := resolvePathInManager tx.db tx.rootId path.segments
  checkContent condition existing path.canonical
  let expiresAt :=
    match condition with
    | .ifAbsent expiresInSeconds => expiryAfter tx.now expiresInSeconds
    | .ifRevision _ => none
  putFileContent host path.segments false blob (existing.map VfsNode.version) false expiresAt

/-! ## Restoring a snapshot's file -/

structure RestorableBlob where
  blobId : Uuid
  size : Nat
  mimeType : JsString

def exchangeBlob (path : JsString) (previous : Option Uuid) (blobId : Uuid) :
    Mutating Unit := do
  if previous = some blobId then pure ()
  else
    let live ← incrementLiveReferenceCount blobId 1
    if live = false then stop (.invalidOperation path)
    else
      match previous with
      | none => pure ()
      | some previousBlobId => decrementReferenceCount previousBlobId 1

def restoreBlob (host : Host) (path : NodePath host) (condition : ContentPrecondition)
    (blob : RestorableBlob) : Mutating PutFileOutcome := do
  let parentId ← lockParentChain host path.segments false true
  let existing ← lockTargetNode host parentId (lastSegment path.segments)
  if existing.any fun node => node.type = .directory then stop (.isDirectory path.canonical)
  else
    checkContent condition existing path.canonical
    if existing.any fun node => MAX_VFS_VERSION ≤ node.version then stop .revisionExhausted
    else
      exchangeBlob path.canonical (existing.bind VfsNode.blobId) blob.blobId
      match existing with
      | some node =>
          let tx ← state
          updateNode node.id fun other =>
            { other with
              blobId := some blob.blobId, size := some blob.size,
              mimeType := some blob.mimeType, updatedAt := tx.now }
          markChanged node.id true
          match node.size with
          | none => fail .fileWithoutSize
          | some previousSize =>
              recordLiveByteDelta (blob.size - previousSize)
              return ⟨.replaced, some (toRecord
                { node with
                  blobId := some blob.blobId, size := some blob.size,
                  mimeType := some blob.mimeType })⟩
      | none =>
          let created ← createNode host
            (fileColumns parentId (lastSegment path.segments) blob.blobId blob.size
              blob.mimeType none)
          markChanged created.id false
          recordLiveByteDelta blob.size
          recordFolderFileDelta parentId 1
          recordLiveNodeDelta 1
          return ⟨.created, some (toRecord created)⟩

def getFileEntry (db : Database) (snapshotId : Uuid) : Option SnapshotEntry :=
  match db.snapshots.find? fun snapshot =>
      snapshot.id == snapshotId && snapshot.kind == .file with
  | none => none
  | some _ =>
      db.snapshotEntries.find? fun entry =>
        entry.snapshotId == snapshotId && entry.relativePath == dot && entry.type == .file

def restoreSnapshot (host : Host) (snapshotId : Uuid) (path : NodePath host)
    (condition : ContentPrecondition) : Mutating PutFileOutcome := do
  let snapshot ← findForUpdate snapshotId
  if snapshot.kind ≠ .file then stop (.invalidOperation (host.uuidText snapshotId))
  else
    let tx ← state
    match getFileEntry tx.db snapshotId with
    | none => stop (.nodeNotFound (host.uuidText snapshotId))
    | some entry =>
        match entry.blobId, entry.size, entry.mimeType with
        | some blobId, some size, some mimeType =>
            restoreBlob host path condition ⟨blobId, size, mimeType⟩
        | _, _, _ => stop (.nodeNotFound (host.uuidText snapshotId))

end Storix
