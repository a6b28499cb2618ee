import Storix.Persistence.Extract

/-! # Runs

The requests that change a namespace, and the states that committed requests lead
to. Requests carry the promises of their callers: paths come from `PathResolver`,
and only the destination of a move or copy and the source of a tree snapshot may
be the root. -/

namespace Storix

open Foundation Foundation.Command

structure ExtractRequest (host : Host) where
  destination : NodePath host
  destinationRevision : Option Revision
  mode : ExtractMode
  tarLike : Bool
  excludes : JsString → Bool
  mimeTypes : JsString → Option JsString
  source : List ExtractSourceEntry
  maxSyncDeleteNodes : Nat

inductive Mutation (host : Host)
  | mkdir (path : NodePath host) (parents : Bool)
  | touch (path : NodePath host) (parents : Bool) (emptyBlob : Option BlobData)
  | put (path : NodePath host) (parents : Bool) (blob : BlobData)
      (ifMatchVersion : Option Nat) (force : Bool) (expiresAt : Option Nat)
  | putConditional (path : NodePath host) (condition : ContentPrecondition) (blob : BlobData)
  | conditional (command : ConditionalMutation host)
  | move (source : NodePath host) (destination : ResolvedPath host)
      (destinationParents : Bool) (maxSyncMoveNodes : Nat) (resolution : DestinationResolution)
  | copy (source : NodePath host) (destination : ResolvedPath host)
      (destinationParents : Bool) (maxSyncCopyNodes : Nat) (resolution : DestinationResolution)
      (expiresAt : Option Nat)
  | remove (path : NodePath host) (recursive : Bool) (maxSyncDeleteNodes : Nat)
  | removeEmptyDirectory (path : NodePath host)
  | expire (nodeId : Uuid) (cutoff : Nat)
  | restoreTrash (trashId : Uuid) (target : Option (NodePath host))
  | purgeTrash (trashId : Uuid)
  | createSnapshot (path : ResolvedPath host) (kind : SnapshotKind)
      (sourceRevision : Option Revision)
  | removeSnapshot (snapshotId : Uuid)
  | restoreSnapshot (snapshotId : Uuid) (path : NodePath host)
      (condition : ContentPrecondition)
  | extract (request : ExtractRequest host)
  | configure (settings : NamespaceSettings)

namespace Mutation

variable {host : Host}

def ignore {α : Type} (work : Mutating α) : Mutating Unit := do
  let _ ← work
  return ()

def work : Mutation host → Mutating Unit
  | .mkdir path parents => ignore (ensureDirectory host path.segments parents)
  | .touch path parents emptyBlob => ignore (touchFile host path.segments parents emptyBlob)
  | .put path parents blob ifMatchVersion force expiresAt =>
      ignore (putFileContent host path.segments parents blob ifMatchVersion force expiresAt)
  | .putConditional path condition blob =>
      ignore (putConditionalContent host path condition blob)
  | .conditional command => ignore (applyConditionalMutation host command)
  | .move source destination destinationParents maxSyncMoveNodes resolution =>
      ignore (moveNode host source.segments destination.segments destinationParents
        maxSyncMoveNodes resolution)
  | .copy source destination destinationParents maxSyncCopyNodes resolution expiresAt =>
      ignore (copyNode host source.segments destination.segments destinationParents
        maxSyncCopyNodes resolution expiresAt)
  | .remove path recursive maxSyncDeleteNodes =>
      ignore (removeNode host path.segments recursive maxSyncDeleteNodes)
  | .removeEmptyDirectory path => ignore (Storix.removeEmptyDirectory host path.segments)
  | .expire nodeId cutoff => ignore (expireNode host nodeId cutoff)
  | .restoreTrash trashId target =>
      ignore (restoreTrashItem host trashId (target.map fun path => path.canonical))
  | .purgeTrash trashId => purgeTrashItem host trashId
  | .createSnapshot path kind sourceRevision =>
      ignore (Storix.createSnapshot host path kind sourceRevision)
  | .removeSnapshot snapshotId => Storix.removeSnapshot host snapshotId
  | .restoreSnapshot snapshotId path condition =>
      ignore (Storix.restoreSnapshot host snapshotId path condition)
  | .extract request => do
      let entries ← lift (planEntries host
        (.create request.tarLike request.destination.segments request.excludes
          request.mimeTypes) request.source)
      ignore (applyExtract host
        { destinationSegments := request.destination.segments
          destinationRevision := request.destinationRevision
          mode := request.mode
          entries := entries
          maxSyncDeleteNodes := request.maxSyncDeleteNodes })
  | .configure settings =>
      updateDb fun db => { db with namespaceRow := { db.namespaceRow with settings := settings } }

/-- Only the expiry job runs on a namespace that is being deleted. -/
def allowInactive : Mutation host → Bool
  | .expire _ _ => true
  | _ => false

def uploads : Mutation host → List JsString
  | .touch _ _ emptyBlob => emptyBlob.toList.map BlobData.storageKey
  | .put _ _ blob _ _ _ => [blob.storageKey]
  | .putConditional _ _ blob => [blob.storageKey]
  | .extract request => uploadedKeys request.source
  | _ => []

def run (mutation : Mutation host) (now : Nat)
    (afterBump : MutationTx → Unit → List AffectedRevision → Except VfsError Unit)
    (db : Database) : Except VfsError (Committed Unit) :=
  withMutation host now mutation.allowInactive mutation.work afterBump db

end Mutation

/-! ## Other transactions -/

def createWithRoot (host : Host) (now : Nat) (settings : NamespaceSettings) : Database where
  nodes :=
    [{ id := host.randomUUID 0, parentId := none, type := .directory, name := [],
       blobId := none, size := none, mimeType := none, childFileCount := 0, expiresAt := none,
       createdAt := now, updatedAt := now, version := 1 }]
  blobs := []
  namespaceRow :=
    { status := .active, settings := settings, liveNodeCount := 0, liveFileByteCount := 0,
      retainedTrashNodeCount := 0, retainedTrashByteCount := 0,
      retainedSnapshotNodeCount := 0, retainedSnapshotByteCount := 0 }
  trash := []
  trashEntries := []
  snapshots := []
  snapshotEntries := []
  feedState := none
  feedEvents := []
  issued := 1

def createChangeFeedCheckpoint (db : Database) : Except VfsError (Nat × Database) :=
  match lockNamespaceRoot db false with
  | .error error => .error error
  | .ok _ =>
      match assertNamespaceActive db with
      | .error error => .error error
      | .ok () =>
          match db.feedState with
          | none => .ok (0, { db with feedState := some ⟨0, 0, true⟩ })
          | some feed =>
              .ok (feed.lastSequence,
                { db with feedState := some { feed with hasCheckpoint := true } })

/-- Delete the expired prefix of the events, at most `batchSize` of them. -/
def pruneNamespacePrefix (db : Database) (cutoff batchSize : Nat) : Option Database :=
  match db.feedState with
  | none => none
  | some feed =>
      let rows := (sortBy (fun left right => left.sequence ≤ right.sequence) db.feedEvents).take
        batchSize
      let expired := rows.takeWhile fun event => event.occurredAt < cutoff
      match expired.getLast? with
      | none => some db
      | some last =>
          if feed.lastSequence < last.sequence ∨ last.sequence < feed.prunedThrough then none
          else
            some
              { db with
                feedEvents := db.feedEvents.filter fun event =>
                  !(expired.map ChangeEvent.sequence).contains event.sequence
                feedState := some { feed with prunedThrough := last.sequence } }

def deleteBlobRows (db : Database) (ids : List Uuid) : Database :=
  { db with blobs := db.blobs.filter fun blob => !ids.contains blob.id }

inductive Step (host : Host) : Database → Database → Prop
  | mutation {db : Database} {committed : Committed Unit} (mutation : Mutation host)
      (now : Nat) (afterBump : MutationTx → Unit → List AffectedRevision → Except VfsError Unit)
      (result : mutation.run now afterBump db = .ok committed) :
      Step host db committed.db
  | checkpoint {db next : Database} {cursor : Nat}
      (issued : createChangeFeedCheckpoint db = .ok (cursor, next)) : Step host db next
  | prune {db next : Database} (cutoff batchSize : Nat)
      (pruned : pruneNamespacePrefix db cutoff batchSize = some next) : Step host db next
  | collect {db : Database} (ids : List Uuid)
      (orphaned : ∀ blob ∈ db.blobs, blob.id ∈ ids → blob.referenceCount = 0) :
      Step host db (deleteBlobRows db ids)

/-- The states that committed transactions lead to from a new namespace. -/
inductive Reachable (host : Host) : Database → Prop
  | start (now : Nat) (settings : NamespaceSettings) :
      Reachable host (createWithRoot host now settings)
  | step {db next : Database} (reached : Reachable host db) (taken : Step host db next) :
      Reachable host next

/-- A run: the states in order, each after one committed transaction. -/
inductive Runs (host : Host) : Database → Database → Prop
  | refl (db : Database) : Runs host db db
  | tail {db middle next : Database} (run : Runs host db middle)
      (taken : Step host middle next) : Runs host db next

theorem Runs.trans {host : Host} {db middle next : Database} (first : Runs host db middle)
    (second : Runs host middle next) : Runs host db next := by
  induction second with
  | refl => exact first
  | tail _ taken induction => exact .tail induction taken

theorem Runs.reachable {host : Host} {db next : Database} (run : Runs host db next)
    (reached : Reachable host db) : Reachable host next := by
  induction run with
  | refl => exact reached
  | tail _ taken induction => exact .step induction taken

end Storix
