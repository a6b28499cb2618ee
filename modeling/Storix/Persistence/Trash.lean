import Mathlib.Algebra.GroupWithZero.Nat
import Mathlib.Algebra.Ring.Int.Defs
import Storix.Persistence.TreeMutations

/-! # Deletes and the trash -/

namespace Storix

open Foundation Foundation.Command

def RETENTION_MS : Nat := 30 * 24 * 60 * 60 * 1000

/-! ## Captured rows -/

/-- A captured row of a subtree, as trash and snapshots store it. -/
structure SnapshotSourceRow where
  id : Uuid
  parentId : Option Uuid
  name : JsString
  type : VfsNodeType
  revision : Revision
  relativePath : JsString
  blobId : Option Uuid
  size : Option Nat
  mimeType : Option JsString
  createdAt : Nat
  deriving DecidableEq

/-- The starting node first, the others by the UTF-8 bytes of their path. -/
def relativePathLe (left right : TreeRow) : Bool :=
  left.relativePath == right.relativePath || left.relativePath == dot ||
    (right.relativePath != dot &&
      decide (JsString.utf8 left.relativePath ≤ JsString.utf8 right.relativePath))

def sourceRows : List TreeRow → Except VfsError (List SnapshotSourceRow)
  | [] => .ok []
  | row :: rest =>
      match encodeRevision row.node.id row.node.version, sourceRows rest with
      | .ok revision, .ok rows =>
          .ok
            ({ id := row.node.id, parentId := row.node.parentId, name := row.node.name,
               type := row.node.type, revision := revision, relativePath := row.relativePath,
               blobId := row.node.blobId, size := row.node.size,
               mimeType := row.node.mimeType, createdAt := row.node.createdAt } :: rows)
      | .error error, _ => .error error
      | _, .error error => .error error

def captureSnapshotRows (host : Host) (segments : List JsString) (maxNodes : Nat) :
    Mutating (List SnapshotSourceRow) := do
  if maxNodes < 1 then fail .invalidSnapshotNodeLimit
  else
    let tx ← state
    match resolvePathInManager tx.db tx.rootId segments with
    | none => stop (.nodeNotFound (joinSegments segments))
    | some source =>
        let rows := (host.rowOrder (subtreeRows tx.db.nodes source)).take (maxNodes + 1)
        lift (sourceRows (sortBy relativePathLe rows))

/-! ## The trash repository -/

structure LockedTrashItem where
  trash : TrashItem
  entries : List TrashEntry
  expired : Bool

def findForMutation (host : Host) (trashId : Uuid) : Mutating LockedTrashItem := do
  let tx ← state
  match tx.db.trash.find? fun item => item.id == trashId with
  | none => stop (.trashItemNotFound trashId)
  | some trash =>
      let entries := host.rowOrder
        (tx.db.trashEntries.filter fun entry => entry.trashId = trashId)
      if (entries.length : Int) ≠ trash.nodeCount then fail .trashNodeCountMismatch
      else return ⟨trash, entries, trash.expiresAt ≤ tx.now⟩

def consumeTrash (item : LockedTrashItem) : Mutating Unit := do
  let tx ← state
  let nodes := tx.db.namespaceRow.retainedTrashNodeCount - item.trash.nodeCount
  let bytes := tx.db.namespaceRow.retainedTrashByteCount - item.trash.logicalBytes
  if nodes < 0 ∨ bytes < 0 then fail .trashCounterMismatch
  else if (tx.db.trash.filter fun other => other.id = item.trash.id).length ≠ 1 then
    fail .trashItemChanged
  else
    updateDb fun db =>
      { db with
        namespaceRow :=
          { db.namespaceRow with
            retainedTrashNodeCount := nodes, retainedTrashByteCount := bytes }
        trash := db.trash.filter fun other => other.id ≠ item.trash.id
        trashEntries := db.trashEntries.filter fun entry => entry.trashId ≠ item.trash.id }
    update fun tx => { tx with trashByteDelta := tx.trashByteDelta - item.trash.logicalBytes }

/-- The bytes of the file rows; every row has the metadata of its type. -/
def trashBytes : List SnapshotSourceRow → Except VfsError Nat
  | [] => .ok 0
  | row :: rest =>
      match row.type with
      | .file =>
          match row.blobId, row.size, row.mimeType with
          | some _, some size, some _ =>
              match trashBytes rest with
              | .ok bytes => .ok (size + bytes)
              | .error error => .error error
          | _, _, _ => .error (.internal .trashSourceWithoutMetadata)
      | .directory =>
          if row.blobId = none ∧ row.size = none ∧ row.mimeType = none then trashBytes rest
          else .error (.internal .trashDirectoryWithMetadata)

def trashEntryOf (trashId : Uuid) (row : SnapshotSourceRow) : TrashEntry where
  trashId := trashId
  relativePath := row.relativePath
  type := row.type
  sourceNodeId := row.id
  sourceRevision := row.revision
  blobId := row.blobId
  size := row.size
  mimeType := row.mimeType
  createdAt := row.createdAt

def trashByteLimit (host : Host) (settings : NamespaceSettings) : Nat :=
  match settings.maxRetainedTrashBytes with
  | some limit =>
      if limit < host.config.maxTotalLogicalBytes then limit
      else host.config.maxTotalLogicalBytes
  | none =>
      effectiveLimit settings.maxTotalLogicalBytes host.config.maxTotalLogicalBytes
        host.config.defaultMaxTotalLogicalBytes

def captureTrash (host : Host) (originalPath : JsString) (rows : List SnapshotSourceRow) :
    Mutating Uuid := do
  match rows with
  | [] => fail .invalidTrashSubtree
  | root :: _ =>
      if root.relativePath ≠ dot then fail .invalidTrashSubtree
      else
        let bytes ← lift (trashBytes rows)
        let tx ← state
        let row := tx.db.namespaceRow
        let nextCount := row.retainedTrashNodeCount + rows.length
        let nextBytes := row.retainedTrashByteCount + bytes
        if (host.config.maxRetainedTrashNodes : Int) < nextCount then
          stop (.trashLimitExceeded host.config.maxRetainedTrashNodes)
        else if row.settings.excludeTrashFromQuota ∧ 0 < bytes ∧
            (trashByteLimit host row.settings : Int) < nextBytes then
          stop (.trashLimitExceeded (trashByteLimit host row.settings))
        else if MAX_INT64 < nextBytes then fail .trashBytesOutOfRange
        else
          let trashId ← drawUuid host
          updateDb fun db =>
            { db with
              trash := db.trash ++
                [{ id := trashId, rootType := root.type, originalPath := originalPath,
                   rootNodeId := root.id, rootRevision := root.revision,
                   nodeCount := rows.length, logicalBytes := bytes, deletedAt := tx.now,
                   expiresAt := tx.now + RETENTION_MS }]
              trashEntries := db.trashEntries ++ rows.map (trashEntryOf trashId)
              namespaceRow :=
                { db.namespaceRow with
                  retainedTrashNodeCount := nextCount, retainedTrashByteCount := nextBytes } }
          update fun tx => { tx with trashByteDelta := tx.trashByteDelta + bytes }
          return trashId

/-! ## Deletes -/

def deleteNodes (rows : List SnapshotSourceRow) : Mutating Unit :=
  forEach
    (fun chunk => updateDb fun db =>
      { db with nodes := db.nodes.filter fun node => !chunk.contains node.id })
    (chunked NODE_BULK_CHUNK_SIZE (rows.map SnapshotSourceRow.id).reverse)

def recordRemovedFiles (rows : List SnapshotSourceRow) : Mutating Unit :=
  forEach
    (fun row =>
      match row.parentId with
      | none => fail .trashFileParentMissing
      | some parentId => recordFolderFileDelta parentId (-1))
    (rows.filter fun row => row.type = .file)

def removedBytes (rows : List SnapshotSourceRow) : Nat :=
  ((rows.filter fun row => row.type = .file).map fun row => row.size.getD 0).sum

def removedBlobs (rows : List SnapshotSourceRow) : List Uuid :=
  (rows.filter fun row => row.type = .file).filterMap SnapshotSourceRow.blobId

def pinTrashBlob (entry : Uuid × Nat) : Mutating Unit := do
  let live ← incrementLiveReferenceCount entry.1 entry.2
  if live then pure () else fail .trashBlobNotLive

/-- Delete the rows of a subtree. With the trash enabled they stay there, and so do
the references to their blobs. -/
def moveToTrash (host : Host) (segments : List JsString) (rows : List SnapshotSourceRow) :
    Mutating (Option Uuid) := do
  trackChangeFeedBefore host (rows.map SnapshotSourceRow.id)
  let tx ← state
  recordRemovedFiles rows
  recordLiveNodeDelta (-rows.length)
  if tx.db.namespaceRow.settings.trashEnabled = false then
    deleteNodes rows
    recordLiveByteDelta (-(removedBytes rows))
    forEach (fun entry => decrementReferenceCount entry.1 entry.2)
      (sortedCounts (removedBlobs rows))
    return none
  else
    let trashId ← captureTrash host (joinSegments segments) rows
    forEach pinTrashBlob (sortedCounts (removedBlobs rows))
    deleteNodes rows
    recordLiveByteDelta (-(removedBytes rows))
    forEach (fun entry => decrementReferenceCount entry.1 entry.2)
      (sortedCounts (removedBlobs rows))
    return some trashId

def countChildren (db : Database) (id : Uuid) : Nat :=
  (db.nodes.filter fun node => node.parentId = some id).length

def removeNode (host : Host) (segments : List JsString) (recursive : Bool)
    (maxSyncDeleteNodes : Nat) : Mutating (Option Uuid) := do
  let parentId ← lockParentChain host segments false true
  let target ← lockTargetNode host parentId (lastSegment segments)
  match target with
  | none => stop (.nodeNotFound (joinSegments segments))
  | some target =>
      let tx ← state
      if target.type = .directory ∧ recursive = false ∧ 0 < countChildren tx.db target.id then
        stop (.directoryNotEmpty (joinSegments segments))
      else
        let rows ← captureSnapshotRows host segments
          (if target.type = .file then 1 else maxSyncDeleteNodes)
        if maxSyncDeleteNodes < rows.length ∧ target.type = .directory then
          stop (.deleteLimitExceeded maxSyncDeleteNodes)
        else moveToTrash host segments rows

def removeEmptyDirectory (host : Host) (segments : List JsString) :
    Mutating (Option Uuid) := do
  let parentId ← lockParentChain host segments false true
  let target ← lockTargetNode host parentId (lastSegment segments)
  match target with
  | none => stop (.nodeNotFound (joinSegments segments))
  | some target =>
      if target.type = .file then stop (.notDirectory (joinSegments segments))
      else
        let tx ← state
        if 0 < countChildren tx.db target.id then
          stop (.directoryNotEmpty (joinSegments segments))
        else
          let rows ← captureSnapshotRows host segments 1
          moveToTrash host segments rows

/-! ## Expiry -/

def segmentsOf (nodes : List VfsNode) :
    Nat → VfsNode → List JsString → Except VfsError (VfsNode × List JsString)
  | 0, _, _ => .error (.internal .nodeParentCycle)
  | fuel + 1, node, segments =>
      match node.parentId with
      | none => .ok (node, segments)
      | some parentId =>
          match nodes.find? fun other => other.id == parentId with
          | none => .error (.internal .nodeParentMissing)
          | some parent => segmentsOf nodes fuel parent (node.name :: segments)

/-- Delete a file whose expiry has passed; the node is checked again under the root
lock. -/
def expireNode (host : Host) (nodeId : Uuid) (cutoff : Nat) : Mutating (Option Nat) := do
  let tx ← state
  if tx.db.namespaceRow.status ≠ .active then return none
  else
    match tx.db.findNode nodeId with
    | none => return none
    | some node =>
        let (top, segments) ← lift (segmentsOf tx.db.nodes (tx.db.nodes.length + 1) node [])
        if top.id ≠ tx.rootId then fail .rootMismatch
        else
          let parentId ← lockParentChain host segments false false
          match segments.getLast? with
          | none => return none
          | some name =>
              let target ← lockTargetNode host parentId name
              match target with
              | none => return none
              | some target =>
                  match target.expiresAt with
                  | none => return none
                  | some expiresAt =>
                      if target.id ≠ nodeId ∨ target.type ≠ .file ∨ cutoff < expiresAt then
                        return none
                      else
                        let _ ← removeNode host segments false 1
                        return target.size

/-! ## Restore and purge -/

def relativeSegments (relativePath : JsString) : List JsString :=
  if relativePath = dot then [] else JsString.split relativePath

def joinRelative (segments : List JsString) : JsString :=
  if segments = [] then dot else JsString.join segments

def manifestLe (left right : TrashEntry) : Bool :=
  let leftDepth := (relativeSegments left.relativePath).length
  let rightDepth := (relativeSegments right.relativePath).length
  leftDepth < rightDepth ||
    (leftDepth == rightDepth && !JsString.before right.relativePath left.relativePath)

def restoreEntry (host : Host) (segments : List JsString) (parentId : Uuid)
    (restored : OrderedMap JsString Uuid) (entry : TrashEntry) :
    Mutating (OrderedMap JsString Uuid) := do
  let relative := relativeSegments entry.relativePath
  lift (assertPathSegments host (segments ++ relative))
  let nodeParentId :=
    if relative = [] then some parentId
    else restored.get (joinRelative relative.dropLast)
  match nodeParentId with
  | none => fail .trashParentMissing
  | some nodeParentId =>
      let source := entry.sourceRevision
      if source.id ≠ entry.sourceNodeId ∨ MAX_VFS_VERSION ≤ source.version then
        stop .revisionExhausted
      else if entry.type = .file ∧
          (entry.blobId = none ∨ entry.size = none ∨ entry.mimeType = none) then
        fail .trashFileWithoutMetadata
      else
        let tx ← state
        insertNode
          { id := entry.sourceNodeId
            parentId := some nodeParentId
            type := entry.type
            name := if relative = [] then lastSegment segments else lastSegment relative
            blobId := entry.blobId
            size := entry.size
            mimeType := entry.mimeType
            childFileCount := 0
            expiresAt := none
            createdAt := entry.createdAt
            updatedAt := tx.now
            version := source.version + 1 }
        if entry.type = .file then recordFolderFileDelta nodeParentId 1
        recordLiveNodeDelta 1
        markChanged entry.sourceNodeId false
        return restored.set entry.relativePath entry.sourceNodeId

def restoreEntries (host : Host) (segments : List JsString) (parentId : Uuid) :
    List TrashEntry → OrderedMap JsString Uuid → Mutating Unit
  | [], _ => pure ()
  | entry :: rest, restored => do
      let restored ← restoreEntry host segments parentId restored entry
      restoreEntries host segments parentId rest restored

def manifestBytes (entries : List TrashEntry) : Nat :=
  ((entries.filter fun entry => entry.type = .file).map fun entry => entry.size.getD 0).sum

def currentOf (node : VfsNode) (path : JsString) : Except VfsError PreconditionCurrent :=
  match encodeRevision node.id node.version with
  | .error error => .error error
  | .ok revision => .ok ⟨toRecord node, path, revision⟩

def stopPrecondition {α : Type} (node : VfsNode) (path : JsString) : Mutating α := do
  let current ← lift (currentOf node path)
  stop (.preconditionFailed path (some current))

def restoreTrashItem (host : Host) (trashId : Uuid) (targetPath : Option JsString) :
    Mutating (VfsNodeRecord × JsString) := do
  let item ← findForMutation host trashId
  if item.expired then stop (.trashItemExpired trashId)
  else
    let path := targetPath.getD item.trash.originalPath
    let segments := pathSegments path
    lift (assertPathSegments host segments)
    if segments = [] then stop (.nodeNotFound path)
    else
      let parentId ← lockParentChain host segments false true
      let collision ← lockTargetNode host parentId (lastSegment segments)
      match collision with
      | some node => stopPrecondition node path
      | none =>
          let entries := sortBy manifestLe item.entries
          if (entries.head?.map TrashEntry.relativePath) ≠ some dot then
            fail .trashRootMissing
          else
            restoreEntries host segments parentId entries .empty
            if (manifestBytes entries : Int) ≠ item.trash.logicalBytes then
              fail .trashByteCountMismatch
            else
              consumeTrash item
              recordLiveByteDelta (manifestBytes entries)
              let tx ← state
              match tx.db.findNode item.trash.rootNodeId with
              | none => fail .nodeRowMissing
              | some root => return (toRecord root, path)

def manifestBlobs (entries : List TrashEntry) : List Uuid :=
  (entries.filter fun entry => entry.type = .file).filterMap TrashEntry.blobId

def purgeTrashItem (host : Host) (trashId : Uuid) : Mutating Unit := do
  let item ← findForMutation host trashId
  if item.entries.any fun entry =>
      entry.type == .file && (entry.blobId.isNone || entry.size.isNone) then
    fail .trashFileWithoutMetadata
  else if (manifestBytes item.entries : Int) ≠ item.trash.logicalBytes then
    fail .trashByteCountMismatch
  else
    consumeTrash item
    forEach (fun entry => decrementReferenceCount entry.1 entry.2)
      (sortedCounts (manifestBlobs item.entries))

end Storix
