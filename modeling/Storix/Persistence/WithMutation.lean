import Storix.Persistence.MutationTx

/-! # Commit

What `withMutation` does around the work of a mutation: the counters and quotas,
the common version increment, and the change feed events. -/

namespace Storix

open Foundation Foundation.Command

def MAX_INT64 : Int := 9223372036854775807

/-! ## Counters -/

def effectiveLimit (namespaceLimit : Option Nat) (ceiling default : Nat) : Nat :=
  match namespaceLimit with
  | none => default
  | some limit => if limit < ceiling then limit else ceiling

def setLiveNodeCount (host : Host) (delta : Int) : Mutating Unit := do
  let tx ← state
  let next := tx.db.namespaceRow.liveNodeCount + delta
  if next < 0 then fail .liveNodeCounterNegative
  else
    let limit := effectiveLimit tx.db.namespaceRow.settings.maxLiveNodes
      host.config.maxLiveNodes host.config.defaultMaxLiveNodes
    if 0 < delta ∧ (limit : Int) < next then
      stop (.namespaceNodeLimitExceeded limit next)
    else
      updateDb fun db =>
        { db with namespaceRow := { db.namespaceRow with liveNodeCount := next } }

def applyFolderDelta (limit : Nat) (parentId : Uuid) (delta : Int) : Mutating Unit := do
  let tx ← state
  match tx.db.nodes.find? fun node => node.id == parentId && node.type == .directory with
  | none => if delta < 0 then pure () else fail .folderCounterParentMissing
  | some parent =>
      let next := parent.childFileCount + delta
      if next < 0 then fail .folderCounterNegative
      else if 0 < delta ∧ (limit : Int) < next then
        stop (.folderFileLimitExceeded limit next)
      else updateNode parentId fun node => { node with childFileCount := next }

def applyNodeCounters (host : Host) : Mutating Unit := do
  let tx ← state
  let deltas := tx.folderFileDeltas.entries.filter fun entry => entry.2 ≠ 0
  if deltas = [] ∧ tx.liveNodeDelta = 0 then pure ()
  else
    if tx.liveNodeDelta ≠ 0 then setLiveNodeCount host tx.liveNodeDelta
    let limit := effectiveLimit tx.db.namespaceRow.settings.maxFilesPerFolder
      host.config.maxFilesPerFolder host.config.defaultMaxFilesPerFolder
    forEach (fun entry => applyFolderDelta limit entry.1 entry.2) deltas

def applyLogicalByteQuota (host : Host) : Mutating Unit := do
  let tx ← state
  if tx.liveFileByteDelta = 0 ∧ tx.trashByteDelta = 0 ∧ tx.snapshotByteDelta = 0 then pure ()
  else
    let row := tx.db.namespaceRow
    let liveBytes := row.liveFileByteCount + tx.liveFileByteDelta
    if liveBytes < 0 ∨ MAX_INT64 < liveBytes then fail .liveFileBytesOutOfRange
    else
      let enforcedBytes := liveBytes +
        (if row.settings.excludeTrashFromQuota then 0 else row.retainedTrashByteCount) +
        (if row.settings.excludeSnapshotsFromQuota then 0 else row.retainedSnapshotByteCount)
      let enforcedDelta := tx.liveFileByteDelta +
        (if row.settings.excludeTrashFromQuota then 0 else tx.trashByteDelta) +
        (if row.settings.excludeSnapshotsFromQuota then 0 else tx.snapshotByteDelta)
      let limit := effectiveLimit row.settings.maxTotalLogicalBytes
        host.config.maxTotalLogicalBytes host.config.defaultMaxTotalLogicalBytes
      if 0 < enforcedDelta ∧ (limit : Int) < enforcedBytes then
        stop (.quotaExceeded limit enforcedBytes)
      else if tx.liveFileByteDelta ≠ 0 then
        updateDb fun db =>
          { db with namespaceRow := { db.namespaceRow with liveFileByteCount := liveBytes } }
      else pure ()

/-! ## Versions -/

/-- Increment the versions of one chunk. A node at the limit makes the count of
updated rows too small. -/
def bumpChunk (ids : List Uuid) : Mutating Unit := do
  let tx ← state
  updateDb fun db =>
    { db with
      nodes := db.nodes.map fun node =>
        if ids.contains node.id ∧ node.version < MAX_VFS_VERSION then
          { node with version := node.version + 1, updatedAt := tx.now }
        else node }
  if (tx.db.nodes.filter fun node =>
      ids.contains node.id ∧ node.version < MAX_VFS_VERSION).length ≠ ids.length then
    stop .revisionExhausted
  else pure ()

def revisionsOf : List (Uuid × ChangeFeedNodeState) → Except VfsError (List AffectedRevision)
  | [] => .ok []
  | (_, state) :: rest =>
      match encodeRevision state.node.id state.node.version, revisionsOf rest with
      | .ok revision, .ok revisions => .ok (⟨state.path, revision⟩ :: revisions)
      | .error error, _ => .error error
      | _, .error error => .error error

def bumpAndReadChangedNodes (host : Host) : Mutating (List AffectedRevision) := do
  let tx ← state
  let incrementIds := (tx.changed.entries.filter fun entry => entry.2).map Prod.fst
  forEach bumpChunk (chunked NODE_BULK_CHUNK_SIZE incrementIds)
  let tx ← state
  let states ← lift (captureChangeFeedNodes host tx.db.nodes tx.changed.keys .empty)
  let revisions ← lift (revisionsOf states.entries)
  return sortBy (fun left right => !JsString.before right.path left.path) revisions

/-! ## Change feed events -/

abbrev NodeStates := OrderedMap Uuid ChangeFeedNodeState

def sameNode (before after : ChangeFeedNodeState) : Bool :=
  before.path == after.path &&
    before.node.type == after.node.type &&
    before.node.blobId == after.node.blobId &&
    before.node.size == after.node.size &&
    before.node.mimeType == after.node.mimeType &&
    before.node.version == after.node.version

def unionKeys (before after : NodeStates) : List Uuid :=
  before.keys ++ after.keys.filter fun id => !before.has id

def isMeaningful (before after : NodeStates) (id : Uuid) : Bool :=
  match before.get id, after.get id with
  | some old, some new => !sameNode old new
  | _, _ => true

def ancestorsIn (states : NodeStates) : Nat → Option Uuid → List Uuid
  | 0, _ => []
  | _ + 1, none => []
  | fuel + 1, some id =>
      id :: ancestorsIn states fuel ((states.get id).bind fun state => state.node.parentId)

def changedAncestors (before after : NodeStates) : List Uuid :=
  ((unionKeys before after).filter (isMeaningful before after)).flatMap fun id =>
    [before, after].flatMap fun states =>
      ancestorsIn states (states.entries.length + 1)
        ((states.get id).bind fun state => state.node.parentId)

structure Change where
  kind : VfsChangeKind
  nodeId : Uuid
  nodeType : VfsNodeType
  segments : List JsString
  previousPath : Option JsString
  revision : Option Revision
  deriving DecidableEq

def changeOf (before after : NodeStates) (ancestors : List Uuid) (id : Uuid) :
    Except VfsError (Option Change) :=
  match before.get id, after.get id with
  | none, none => .ok none
  | some old, none =>
      .ok (some ⟨.deleted, id, old.node.type, old.segments, none, none⟩)
  | none, some new =>
      match encodeRevision new.node.id new.node.version with
      | .error error => .error error
      | .ok revision =>
          .ok (some ⟨.created, id, new.node.type, new.segments, none, some revision⟩)
  | some old, some new =>
      if sameNode old new ||
          (!isMeaningful before after id && !ancestors.contains id) then .ok none
      else
        match encodeRevision new.node.id new.node.version with
        | .error error => .error error
        | .ok revision =>
            if old.path ≠ new.path then
              .ok (some ⟨.moved, id, new.node.type, new.segments, some old.path, some revision⟩)
            else .ok (some ⟨.updated, id, new.node.type, new.segments, none, some revision⟩)

def changesOf (before after : NodeStates) (ancestors : List Uuid) :
    List Uuid → Except VfsError (List Change)
  | [] => .ok []
  | id :: rest =>
      match changeOf before after ancestors id, changesOf before after ancestors rest with
      | .ok none, .ok changes => .ok changes
      | .ok (some change), .ok changes => .ok (change :: changes)
      | .error error, _ => .error error
      | _, .error error => .error error

def changeLe (left right : Change) : Bool :=
  match compareSegments left.segments right.segments with
  | .lt => true
  | .gt => false
  | .eq => left.nodeId ≤ right.nodeId

/-- The events of one operation, numbered from `start + 1`. -/
def eventsOf (start : Nat) (operationId : Uuid) (now : Nat) (changes : List Change) :
    List ChangeEvent :=
  changes.zipIdx.map fun (change, index) =>
    { sequence := start + index + 1
      operationId := operationId
      operationIndex := index
      operationCount := changes.length
      kind := change.kind
      nodeId := change.nodeId
      nodeType := change.nodeType
      path := joinSegments change.segments
      previousPath := change.previousPath
      revision := change.revision
      occurredAt := now }

def appendChangeFeedEvents (host : Host) (before : NodeStates) (changedIds : List Uuid) :
    Mutating Unit := do
  let tx ← state
  let after ← lift (captureChangeFeedNodes host tx.db.nodes
    (before.keys ++ changedIds.filter fun id => !before.has id) .empty)
  let changes ← lift
    (changesOf before after (changedAncestors before after) (unionKeys before after))
  if changes = [] then pure ()
  else
    match tx.db.feedState with
    | none => fail .checkpointMissing
    | some feed =>
        if feed.hasCheckpoint = false then fail .checkpointMissing
        else if MAX_INT64 < (feed.lastSequence + changes.length : Nat) then
          fail .sequenceExhausted
        else
          let operationId ← drawUuid host
          updateDb fun db =>
            { db with
              feedEvents := db.feedEvents ++
                eventsOf feed.lastSequence operationId tx.now (sortBy changeLe changes)
              feedState :=
                some { feed with lastSequence := feed.lastSequence + changes.length } }

/-! ## The transaction -/

def assertNamespaceActive (db : Database) : Except VfsError Unit :=
  if db.namespaceRow.status = .active then .ok () else .error .namespaceNotFound

def lockNamespaceRoot (db : Database) (allowInactive : Bool) : Except VfsError VfsNode :=
  match db.findRoot with
  | some root =>
      if root.type = .directory then .ok root
      else if allowInactive then .error (.nodeNotFound (joinSegments []))
      else
        match assertNamespaceActive db with
        | .error error => .error error
        | .ok () => .error (.nodeNotFound (joinSegments []))
  | none =>
      if allowInactive then .error (.nodeNotFound (joinSegments []))
      else
        match assertNamespaceActive db with
        | .error error => .error error
        | .ok () => .error (.nodeNotFound (joinSegments []))

def MutationTx.start (db : Database) (rootId : Uuid) (now : Nat) : MutationTx where
  db := db
  rootId := rootId
  now := now
  changed := .empty
  ancestorChainMarked := []
  feedBefore :=
    if db.feedState.any fun feed => feed.hasCheckpoint then some .empty else none
  liveFileByteDelta := 0
  liveNodeDelta := 0
  trashByteDelta := 0
  snapshotByteDelta := 0
  folderFileDeltas := .empty

/-- The outcome of a committed mutation. `afterBump` may reject it; what it writes
is outside the tables modelled here. -/
def finish (host : Host) {α : Type}
    (afterBump : MutationTx → α → List AffectedRevision → Except VfsError Unit) (value : α) :
    Mutating (List AffectedRevision) := do
  applyNodeCounters host
  applyLogicalByteQuota host
  let revisions ← bumpAndReadChangedNodes host
  let tx ← state
  lift (afterBump tx value revisions)
  match tx.feedBefore with
  | none => return revisions
  | some before =>
      appendChangeFeedEvents host before tx.changed.keys
      return revisions

structure Committed (α : Type) where
  value : α
  affectedRevisions : List AffectedRevision
  db : Database

/-- Every error rolls the transaction back: only a commit returns a database. -/
def withMutation (host : Host) {α : Type} (now : Nat) (allowInactive : Bool)
    (work : Mutating α)
    (afterBump : MutationTx → α → List AffectedRevision → Except VfsError Unit)
    (db : Database) : Except VfsError (Committed α) :=
  match lockNamespaceRoot db allowInactive with
  | .error error => .error error
  | .ok root =>
      match if allowInactive then .ok () else assertNamespaceActive db with
      | .error error => .error error
      | .ok () =>
          match work (.start db root.id now) with
          | .error error => .error error
          | .ok (value, tx) =>
              match finish host afterBump value tx with
              | .error error => .error error
              | .ok (revisions, tx) => .ok ⟨value, revisions, tx.db⟩

end Storix
