import Storix.Persistence.FileMutations

/-! # Copies -/

namespace Storix

open Foundation Foundation.Command

structure CopiedRow where
  row : VfsNode
  sourceId : Uuid

/-- A directory still to be filled: the one copied from and the new one. -/
structure CopyTask where
  oldParentId : Uuid
  newParentId : Uuid

def copyChild (host : Host) (expiresAt : Option Nat) (newParentId : Uuid) (child : VfsNode) :
    Mutating CopiedRow := do
  let newId ← drawUuid host
  let tx ← state
  let columns : NewNode :=
    { parentId := newParentId, type := child.type, name := child.name, blobId := child.blobId,
      size := child.size, mimeType := child.mimeType,
      expiresAt := if child.type = .file then expiresAt else none }
  if child.type = .file then
    match child.blobId, child.size with
    | none, _ => fail .fileWithoutBlob
    | _, none => fail .fileWithoutSize
    | some _, some size =>
        recordLiveByteDelta size
        return ⟨columns.row newId tx.now, child.id⟩
  else return ⟨columns.row newId tx.now, child.id⟩

def copyChildrenOf (host : Host) (expiresAt : Option Nat) (rows : List VfsNode)
    (sourceId : Uuid) (task : CopyTask) : Mutating (List CopiedRow) :=
  collect (copyChild host expiresAt task.newParentId)
    (rows.filter fun row => row.id ≠ sourceId ∧ row.parentId = some task.oldParentId)

/-- Drain the queue. A queue that appends the children of each item is drained level
by level; `fuel` bounds the levels. -/
def copyLevels (host : Host) (expiresAt : Option Nat) (rows : List VfsNode)
    (sourceId : Uuid) : Nat → List CopyTask → Mutating (List CopiedRow)
  | _, [] => pure []
  | 0, _ :: _ => fail .nodeParentCycle
  | fuel + 1, task :: tasks => do
      let batches ← collect (copyChildrenOf host expiresAt rows sourceId) (task :: tasks)
      let copied := batches.flatten
      let next := (copied.filter fun copy => copy.row.type = .directory).map fun copy =>
        (⟨copy.sourceId, copy.row.id⟩ : CopyTask)
      let deeper ← copyLevels host expiresAt rows sourceId fuel next
      return copied ++ deeper

def fileBlobs (rows : List VfsNode) : List Uuid :=
  (rows.filter fun row => row.type = .file).filterMap VfsNode.blobId

def fileParents (rows : List VfsNode) : List Uuid :=
  (rows.filter fun row => row.type = .file).filterMap VfsNode.parentId

def sortedCounts (ids : List Uuid) : List (Uuid × Nat) :=
  sortBy (fun left right => left.1 ≤ right.1) (OrderedMap.tally ids).entries

def copyFile (host : Host) (source : VfsNode) (placement : Placement)
    (expiresAt : Option Nat) : Mutating VfsNode := do
  match source.blobId with
  | none => fail .fileWithoutBlob
  | some blobId =>
      incrementReferenceCount blobId 1
      let created ← createNode host
        { parentId := placement.finalParentId, type := .file, name := placement.finalName,
          blobId := some blobId, size := source.size, mimeType := source.mimeType,
          expiresAt := expiresAt }
      markChanged created.id false
      match source.size with
      | none => fail .fileWithoutSize
      | some size =>
          recordLiveByteDelta size
          recordFolderFileDelta placement.finalParentId 1
          recordLiveNodeDelta 1
          return created

def copyDirectory (host : Host) (source : VfsNode) (placement : Placement)
    (maxSyncCopyNodes : Nat) (expiresAt : Option Nat) : Mutating VfsNode := do
  let tx ← state
  let rows := ((host.rowOrder (subtreeRows tx.db.nodes source)).take
    (maxSyncCopyNodes + 1)).map TreeRow.node
  if maxSyncCopyNodes < rows.length then stop (.copyLimitExceeded maxSyncCopyNodes)
  else
    lift (assertSubtreeDestinationPaths host source.id placement.finalSegments rows)
    let newRoot ← createNode host (.directory placement.finalParentId placement.finalName)
    markChanged newRoot.id false
    let copied ← copyLevels host expiresAt rows source.id (rows.length + 1)
      [⟨source.id, newRoot.id⟩]
    let newRows := copied.map CopiedRow.row
    forEach insertNode newRows
    forEach (fun row => markChanged row.id false) newRows
    recordLiveNodeDelta (newRows.length + 1)
    forEach (fun entry => recordFolderFileDelta entry.1 entry.2)
      (OrderedMap.tally (fileParents newRows)).entries
    forEach (fun entry => incrementReferenceCount entry.1 entry.2)
      (sortedCounts (fileBlobs newRows))
    return newRoot

def copyNode (host : Host) (sourceSegments destinationSegments : List JsString)
    (destinationParents : Bool) (maxSyncCopyNodes : Nat) (resolution : DestinationResolution)
    (expiresAt : Option Nat) : Mutating (VfsNodeRecord × JsString) := do
  let placement ← resolveDestinationPlacement host sourceSegments destinationSegments
    destinationParents false resolution
  let created ←
    if placement.sourceNode.type = .file then
      copyFile host placement.sourceNode placement expiresAt
    else copyDirectory host placement.sourceNode placement maxSyncCopyNodes expiresAt
  return (toRecord created, joinSegments placement.finalSegments)

end Storix
