import Storix.Foundation.Keyset
import Storix.Jobs.GcStage
import Storix.Namespace.NamespaceResponse
import Storix.Persistence.Run

/-! # Retention of the change feed

Expired events are read in the order of their times, over all namespaces. Where an event is the
first of its namespace, the expired prefix of that namespace is deleted, a batch at a time. -/

namespace Storix

open Foundation

structure ChangeFeeds where
  namespaces : List NamespaceId
  tables : NamespaceId → Database

namespace ChangeFeeds

def setTables (feeds : ChangeFeeds) (id : NamespaceId) (tables : Database) : ChangeFeeds :=
  { feeds with tables := Function.update feeds.tables id tables }

end ChangeFeeds

structure ChangeFeedPruneCursor where
  occurredAt : Nat
  namespaceId : NamespaceId
  sequence : Nat
  deriving DecidableEq

/-- `ORDER BY occurred_at, namespace_id, sequence`, with the collation of the id column. -/
def pruneOrder (ids : KeyOrder NamespaceId) : KeyOrder ChangeFeedPruneCursor :=
  (KeyOrder.nat.lex (ids.lex KeyOrder.nat)).comap
    (fun cursor => (cursor.occurredAt, cursor.namespaceId, cursor.sequence))
    (by
      rintro ⟨leftTime, leftId, leftSequence⟩ ⟨rightTime, rightId, rightSequence⟩ same
      cases same
      rfl)

structure ExpiredRow where
  position : ChangeFeedPruneCursor
  isHead : Bool
  deriving DecidableEq

def expiredRows (feeds : ChangeFeeds) (cutoff : Nat) : List ExpiredRow :=
  feeds.namespaces.flatMap fun id =>
    ((feeds.tables id).feedEvents.filter fun event => event.occurredAt < cutoff).map fun event =>
      { position := ⟨event.occurredAt, id, event.sequence⟩
        isHead := (feeds.tables id).feedEvents.all fun other => event.sequence ≤ other.sequence }

def expiredPage (ids : KeyOrder NamespaceId) (feeds : ChangeFeeds) (cutoff : Nat)
    (after : Option ChangeFeedPruneCursor) (scanLimit : Nat) : List ExpiredRow :=
  (sortBy (fun left right => !(pruneOrder ids).before right.position left.position)
    ((expiredRows feeds cutoff).filter fun row =>
      after.all fun after => (pruneOrder ids).before after row.position)).take scanLimit

inductive PruneOutcome
  /-- Another instance has it locked, or it is gone. -/
  | skipped
  | failed
  | deleted (count : Nat) (tables : Database)

def pruneNamespace (locked : Bool) (tables : Database) (cutoff batchSize : Nat) : PruneOutcome :=
  if locked ∨ tables.feedState = none then .skipped
  else
    match pruneNamespacePrefix tables cutoff batchSize with
    | none => .failed
    | some next => .deleted (tables.feedEvents.length - next.feedEvents.length) next

/-- The arguments that `pruneNext` accepts. -/
structure PruneLimits where
  batchSize : Nat
  scanLimit : Nat
  batchSize_pos : 1 ≤ batchSize
  batchSize_le : batchSize ≤ 500
  scanLimit_pos : 1 ≤ scanLimit
  scanLimit_le : scanLimit ≤ 500

structure PruneProgress where
  feeds : ChangeFeeds
  deleted : Nat
  failed : Nat

/-- The loop of `pruneNext`. It stops at a namespace that may have more to delete, with the number
of rows it looked at. -/
def pruneRows (locked : NamespaceId → Bool) (cutoff batchSize : Nat) :
    List ExpiredRow → PruneProgress → Nat → PruneProgress × Option (Nat × ExpiredRow)
  | [], progress, _ => (progress, none)
  | row :: rest, progress, index =>
      if row.isHead = false then pruneRows locked cutoff batchSize rest progress (index + 1)
      else
        let id := row.position.namespaceId
        match pruneNamespace (locked id) (progress.feeds.tables id) cutoff batchSize with
        | .failed =>
            pruneRows locked cutoff batchSize rest
              { progress with failed := progress.failed + 1 } (index + 1)
        | .skipped => pruneRows locked cutoff batchSize rest progress (index + 1)
        | .deleted count tables =>
            let progress : PruneProgress :=
              { progress with
                feeds := progress.feeds.setTables id tables
                deleted := progress.deleted + count }
            if batchSize ≤ count then (progress, some (index + 1, row))
            else pruneRows locked cutoff batchSize rest progress (index + 1)

structure ChangeFeedPruneResult where
  feeds : ChangeFeeds
  deleted : Nat
  examined : Nat
  failed : Nat
  next : Option ChangeFeedPruneCursor

/-- A page of expired events after the cursor. `locked` are the namespaces that other instances
have locked meanwhile; a page has the first event of a namespace at most once. -/
def pruneNext (ids : KeyOrder NamespaceId) (locked : NamespaceId → Bool) (feeds : ChangeFeeds)
    (cutoff : Nat) (limits : PruneLimits) (after : Option ChangeFeedPruneCursor) :
    ChangeFeedPruneResult :=
  let page := expiredPage ids feeds cutoff after limits.scanLimit
  match pruneRows locked cutoff limits.batchSize page ⟨feeds, 0, 0⟩ 0 with
  | (progress, some (examined, row)) =>
      ⟨progress.feeds, progress.deleted, examined, progress.failed, some row.position⟩
  | (progress, none) =>
      ⟨progress.feeds, progress.deleted, page.length, progress.failed,
        if page.length < limits.scanLimit then none else page.getLast?.map ExpiredRow.position⟩

structure PruneWorld where
  feeds : ChangeFeeds
  calls : Nat

/-- What the stage takes from its surroundings, with time standing still: the namespaces that other
instances have locked during each page, and how a cursor is written and read back. -/
structure PruneJob (τ : Type) where
  ids : KeyOrder NamespaceId
  locked : Nat → NamespaceId → Bool
  cutoff : Nat
  limits : PruneLimits
  /-- `JSON.stringify(cursor)` -/
  text : ChangeFeedPruneCursor → τ
  /-- `JSON.parse` and the check of the fields. -/
  parse : τ → Option ChangeFeedPruneCursor
  parse_text : ∀ cursor, parse (text cursor) = some cursor

/-- `pruneChangeFeed` -/
def PruneJob.stage {τ : Type} (job : PruneJob τ) :
    CursorStage PruneWorld ChangeFeedPruneCursor τ where
  step world cursor :=
    let result :=
      pruneNext job.ids (job.locked world.calls) world.feeds job.cutoff job.limits cursor
    ⟨⟨result.feeds, world.calls + 1⟩, result.next, result.examined⟩
  text := job.text
  parse := job.parse

end Storix
