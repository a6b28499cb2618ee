import Storix.Persistence.Trash

/-! # Snapshots -/

namespace Storix

open Foundation Foundation.Command

structure SnapshotLimits where
  maxNodes : Nat
  maxBytes : Nat
  maxRetainedNodes : Nat
  maxRetainedBytes : Nat

def narrowed (namespaceLimit : Option Nat) (global : Nat) : Nat :=
  match namespaceLimit with
  | none => global
  | some limit => if global < limit then global else limit

def resolveSnapshotLimits (host : Host) (settings : NamespaceSettings) : SnapshotLimits where
  maxNodes := narrowed settings.maxSyncSnapshotNodes host.config.maxSyncSnapshotNodes
  maxBytes := narrowed settings.maxSnapshotBytes host.config.maxSnapshotBytes
  maxRetainedNodes :=
    narrowed settings.maxRetainedSnapshotNodes host.config.maxRetainedSnapshotNodes
  maxRetainedBytes :=
    narrowed settings.maxRetainedSnapshotBytes host.config.maxRetainedSnapshotBytes

def snapshotEntryOf (snapshotId : Uuid) (row : SnapshotSourceRow) : SnapshotEntry where
  snapshotId := snapshotId
  relativePath := row.relativePath
  type := row.type
  sourceNodeId := row.id
  sourceRevision := row.revision
  blobId := row.blobId
  size := row.size
  mimeType := row.mimeType

def snapshotRowAccepted (row : SnapshotSourceRow) : Bool :=
  match row.type with
  | .file => row.blobId.isSome && row.size.isSome && row.mimeType.any fun mime => !mime.isEmpty
  | .directory => row.blobId.isNone && row.size.isNone && row.mimeType.isNone

def snapshotRootAccepted (kind : SnapshotKind) (rows : List SnapshotSourceRow) : Bool :=
  match rows with
  | [] => false
  | root :: rest =>
      root.relativePath == dot &&
        (match kind with
         | .file => root.type == .file && rest.isEmpty
         | .tree => root.type == .directory)

def pinSnapshotBlob (sourcePath : JsString) (entry : Uuid × Nat) : Mutating Unit := do
  let live ← incrementLiveReferenceCount entry.1 entry.2
  if live then pure () else stop (.invalidOperation sourcePath)

def chargeSnapshot (limits : SnapshotLimits) (count bytes : Nat) : Mutating Unit := do
  let tx ← state
  let row := tx.db.namespaceRow
  if row.retainedSnapshotNodeCount ≤ (limits.maxRetainedNodes : Int) - count ∧
      row.retainedSnapshotByteCount ≤ (limits.maxRetainedBytes : Int) - bytes then
    updateDb fun db =>
      { db with
        namespaceRow :=
          { db.namespaceRow with
            retainedSnapshotNodeCount := db.namespaceRow.retainedSnapshotNodeCount + count
            retainedSnapshotByteCount := db.namespaceRow.retainedSnapshotByteCount + bytes } }
    update fun tx => { tx with snapshotByteDelta := tx.snapshotByteDelta + bytes }
  else stop .snapshotLimitExceeded

def fileSha256 (db : Database) (snapshot : Snapshot) : Except VfsError (Option JsString) :=
  match snapshot.kind with
  | .tree => .ok none
  | .file =>
      match (db.snapshotEntries.find? fun entry =>
          entry.snapshotId == snapshot.id && entry.relativePath == dot &&
            entry.type == .file && entry.sourceNodeId == snapshot.rootNodeId).bind
          SnapshotEntry.blobId with
      | none => .error (.internal .snapshotRootMissing)
      | some blobId =>
          match db.blobs.find? fun blob => blob.id == blobId with
          | none => .error (.internal .snapshotBlobMissing)
          | some blob => .ok (some blob.sha256)

def storeSnapshot (host : Host) (kind : SnapshotKind) (sourcePath : JsString)
    (root : SnapshotSourceRow) (rows : List SnapshotSourceRow) (bytes : Nat) :
    Mutating Snapshot := do
  let id ← drawUuid host
  let tx ← state
  let snapshot : Snapshot :=
    { id := id, kind := kind, sourcePath := sourcePath, rootNodeId := root.id,
      sourceRevision := root.revision, rootType := root.type, nodeCount := rows.length,
      logicalBytes := bytes, createdAt := tx.now }
  updateDb fun db =>
    { db with
      snapshots := db.snapshots ++ [snapshot]
      snapshotEntries := db.snapshotEntries ++ rows.map (snapshotEntryOf id) }
  return snapshot

def captureSnapshot (host : Host) (kind : SnapshotKind) (sourcePath : JsString)
    (rows : List SnapshotSourceRow) : Mutating (Snapshot × Option JsString) := do
  let tx ← state
  let limits := resolveSnapshotLimits host tx.db.namespaceRow.settings
  if snapshotRootAccepted kind rows = false then stop (.invalidOperation sourcePath)
  else
    match rows with
    | [] => stop (.invalidOperation sourcePath)
    | root :: _ =>
        if ¬(rows.map SnapshotSourceRow.relativePath).Nodup ∨
            rows.all snapshotRowAccepted = false then
          stop (.invalidOperation sourcePath)
        else
          let bytes := removedBytes rows
          if limits.maxNodes < rows.length ∨ limits.maxBytes < bytes ∨
              limits.maxRetainedNodes < rows.length ∨ limits.maxRetainedBytes < bytes then
            stop .snapshotLimitExceeded
          else
            chargeSnapshot limits rows.length bytes
            forEach (pinSnapshotBlob sourcePath)
              (OrderedMap.tally (removedBlobs rows)).entries
            let snapshot ← storeSnapshot host kind sourcePath root rows bytes
            let tx ← state
            let sha256 ← lift (fileSha256 tx.db snapshot)
            return (snapshot, sha256)

def createSnapshot (host : Host) (path : ResolvedPath host) (kind : SnapshotKind)
    (sourceRevision : Option Revision) : Mutating (Snapshot × Option JsString) := do
  let tx ← state
  let rows ← captureSnapshotRows host path.segments
    (resolveSnapshotLimits host tx.db.namespaceRow.settings).maxNodes
  match rows with
  | [] => stop (.notDirectory path.canonical)
  | root :: _ =>
      if kind = .file ∧ root.type = .directory then stop (.isDirectory path.canonical)
      else if kind = .tree ∧ root.type ≠ .directory then stop (.notDirectory path.canonical)
      else if sourceRevision.any fun revision => revision ≠ root.revision then
        match tx.db.findNode root.id with
        | none => stop (.preconditionFailed path.canonical none)
        | some node => stopPrecondition node path.canonical
      else captureSnapshot host kind path.canonical rows

def findForUpdate (snapshotId : Uuid) : Mutating Snapshot := do
  let tx ← state
  match tx.db.snapshots.find? fun snapshot => snapshot.id == snapshotId with
  | none => stop (.snapshotNotFound snapshotId)
  | some snapshot => return snapshot

def removeSnapshot (host : Host) (snapshotId : Uuid) : Mutating Unit := do
  let snapshot ← findForUpdate snapshotId
  let tx ← state
  let entries := host.rowOrder
    (tx.db.snapshotEntries.filter fun entry => entry.snapshotId = snapshotId)
  forEach (fun entry => decrementReferenceCount entry.1 entry.2)
    (OrderedMap.tally (entries.filterMap SnapshotEntry.blobId)).entries
  updateDb fun db =>
    { db with
      snapshots := db.snapshots.filter fun other => other.id ≠ snapshotId
      snapshotEntries := db.snapshotEntries.filter fun entry => entry.snapshotId ≠ snapshotId
      namespaceRow :=
        { db.namespaceRow with
          retainedSnapshotNodeCount :=
            db.namespaceRow.retainedSnapshotNodeCount - snapshot.nodeCount
          retainedSnapshotByteCount :=
            db.namespaceRow.retainedSnapshotByteCount - snapshot.logicalBytes } }
  update fun tx => { tx with snapshotByteDelta := tx.snapshotByteDelta - snapshot.logicalBytes }

end Storix
