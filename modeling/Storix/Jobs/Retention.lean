import Mathlib.Algebra.GroupWithZero.Nat
import Mathlib.Algebra.Ring.Int.Defs
import Storix.Foundation.Keyset
import Storix.Foundation.Rows
import Storix.Jobs.GcStage
import Storix.Namespace.NamespaceResponse
import Storix.Persistence.MutationTx

/-! # Retention of trash items and of files

Two stages of a collection run. One purges the trash items whose time is over, always from the
earliest one on, and counts what a batch purged. The other deletes the files whose time is over,
and goes on from a cursor. An item that cannot be processed stays where it is. -/

namespace Storix

open Foundation

abbrev BatchLimit : Type := { limit : Nat // 1 ≤ limit ∧ limit ≤ 500 }

def CLEANUP_BATCH_SIZE : BatchLimit := ⟨500, by decide⟩

/-! ## Trash items -/

/-- The columns of `vfs_trash` that the stage reads. -/
structure ExpiringTrash where
  id : Uuid
  namespaceId : NamespaceId
  expiresAt : Nat
  nodeCount : Nat
  logicalBytes : Nat
  deriving DecidableEq

/-- What `purgeTrashItem` throws. -/
inductive PurgeError
  | trashItemNotFound
  | namespaceNotFound
  | nodeNotFound
  | unexpected
  deriving DecidableEq, Repr

structure PrunedTrashBatch where
  items : Nat
  nodes : Nat
  bytes : Nat
  failed : Nat
  deriving DecidableEq

/-- What the stage takes from its surroundings, with time standing still. -/
structure TrashRetention where
  ids : KeyOrder Uuid
  namespaceIds : KeyOrder NamespaceId
  now : Nat
  status : NamespaceId → Option NamespaceStatus
  /-- What `purgeTrashItem` throws for an item, at every attempt; `none` where it purges it. -/
  purge : ExpiringTrash → Option PurgeError

namespace TrashRetention

variable (job : TrashRetention)

def position (row : ExpiringTrash) : Nat × NamespaceId × Uuid :=
  (row.expiresAt, row.namespaceId, row.id)

/-- `ORDER BY expires_at, namespace_id, id` -/
def order : KeyOrder (Nat × NamespaceId × Uuid) :=
  KeyOrder.nat.lex (job.namespaceIds.lex job.ids)

/-- The item is expired and its namespace is `ACTIVE`. -/
def isDue (row : ExpiringTrash) : Bool :=
  decide (row.expiresAt ≤ job.now) && job.status row.namespaceId == some .active

/-- The SELECT of `pruneExpiredBatch`. -/
def selected (rows : List ExpiringTrash) (limit : Nat) : List ExpiringTrash :=
  (sortBy (fun left right => !job.order.before (position right) (position left))
    (rows.filter job.isDue)).take limit

def purgeRow (progress : List ExpiringTrash × PrunedTrashBatch) (row : ExpiringTrash) :
    List ExpiringTrash × PrunedTrashBatch :=
  let (rows, batch) := progress
  match job.purge row with
  | none =>
      (remaining (fun other => other.id == row.id) rows,
        { batch with
          items := batch.items + 1
          nodes := batch.nodes + row.nodeCount
          bytes := batch.bytes + row.logicalBytes })
  | some .trashItemNotFound => progress
  | some .namespaceNotFound => progress
  | some .nodeNotFound =>
      -- The deletion of the namespace may have removed its root meanwhile.
      if (job.status row.namespaceId).any fun status => status != .active then progress
      else (rows, { batch with failed := batch.failed + 1 })
  | some .unexpected => (rows, { batch with failed := batch.failed + 1 })

/-- `none` is the error of more nodes than a number can count. -/
def pruneExpiredBatch (rows : List ExpiringTrash) (limit : BatchLimit) :
    Option (List ExpiringTrash × PrunedTrashBatch) :=
  let selected := job.selected rows limit
  if 9007199254740991 < (selected.map ExpiringTrash.nodeCount).sum then none
  else some (selected.foldl job.purgeRow (rows, ⟨0, 0, 0, 0⟩))

/-- The step of `pruneTrash`. A thrown error ends the stage. -/
def pruneTrash (rows : List ExpiringTrash) : List ExpiringTrash × Bool × Nat :=
  match job.pruneExpiredBatch rows CLEANUP_BATCH_SIZE with
  | none => (rows, true, 0)
  | some (rest, batch) => (rest, batch.items == 0, batch.items + batch.failed)

end TrashRetention

/-! ## Files -/

/-- The columns of `vfs_node` that the stage reads. -/
structure ExpiringNode where
  id : Uuid
  namespaceId : NamespaceId
  isFile : Bool
  expiresAt : Option Nat
  size : Nat
  deriving DecidableEq

structure FileExpiryCursor where
  expiresAt : Nat
  id : Uuid
  deriving DecidableEq

/-- What `expireNode` does with a file. -/
inductive ExpireAttempt
  | expired
  /-- It returned `null`. -/
  | skipped
  /-- It threw. -/
  | failed
  deriving DecidableEq, Repr

structure ExpiredFileBatch where
  files : Nat
  bytes : Nat
  examined : Nat
  next : Option FileExpiryCursor
  deriving DecidableEq

/-- What the stage takes from its surroundings, with time standing still. -/
structure FileExpiry (τ : Type) where
  ids : KeyOrder Uuid
  now : Nat
  status : NamespaceId → Option NamespaceStatus
  attempt : ExpiringNode → ExpireAttempt
  /-- `JSON.stringify(cursor)` -/
  text : FileExpiryCursor → τ
  /-- `JSON.parse` and the check of the fields. -/
  parse : τ → Option FileExpiryCursor
  parse_text : ∀ cursor, parse (text cursor) = some cursor

namespace FileExpiry

variable {τ : Type} (job : FileExpiry τ)

/-- `ORDER BY expires_at, id` -/
def order : KeyOrder FileExpiryCursor :=
  (KeyOrder.nat.lex job.ids).comap (fun cursor => (cursor.expiresAt, cursor.id))
    (by
      intro left right same
      cases left
      cases right
      cases same
      rfl)

def position (row : ExpiringNode) : FileExpiryCursor := ⟨row.expiresAt.getD 0, row.id⟩

/-- A file that is expired, in a namespace that is `ACTIVE`. -/
def isDue (row : ExpiringNode) : Bool :=
  row.isFile && (row.expiresAt.any fun expiresAt => decide (expiresAt ≤ job.now)) &&
    job.status row.namespaceId == some .active

/-- The SELECT of `expireDue`. -/
def selected (rows : List ExpiringNode) (batchSize : Nat) (after : Option FileExpiryCursor) :
    List ExpiringNode :=
  (sortBy (fun left right => !job.order.before (position right) (position left))
    ((rows.filter job.isDue).filter fun row =>
      after.all fun after => job.order.before after (position row))).take batchSize

def expireRow (progress : List ExpiringNode × Nat × Nat) (row : ExpiringNode) :
    List ExpiringNode × Nat × Nat :=
  let (rows, files, bytes) := progress
  match job.attempt row with
  | .expired => (remaining (fun other => other.id == row.id) rows, files + 1, bytes + row.size)
  | .skipped => progress
  | .failed => progress

def expireDue (rows : List ExpiringNode) (batchSize : BatchLimit)
    (after : Option FileExpiryCursor) :
    List ExpiringNode × ExpiredFileBatch :=
  let selected := job.selected rows batchSize after
  let (rest, files, bytes) := selected.foldl job.expireRow (rows, 0, 0)
  (rest,
    { files := files
      bytes := bytes
      examined := selected.length
      next := if selected.length < batchSize.val then none else selected.getLast?.map position })

/-- `expireFiles` -/
def stage : CursorStage (List ExpiringNode) FileExpiryCursor τ where
  step rows cursor :=
    let (rest, batch) := job.expireDue rows CLEANUP_BATCH_SIZE cursor
    ⟨rest, batch.next, batch.examined⟩
  text := job.text
  parse := job.parse

end FileExpiry

end Storix
