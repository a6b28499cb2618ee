import Storix.Jobs.ObjectCollection
import Storix.Results.Tables
import Mathlib.Data.Nat.Pairing

/-! # Live content is not collected

What a job or a failed request decides to delete stays deletable: the key is in no row
and no open transaction can still name it, or the only row that names it has no reference
and can get none. -/

namespace Storix

open Foundation

variable {deployment : Deployment} {system next : ContentSystem}

/-! ## The rows of a mutation -/

section Rows

variable {host : Host} {db : Database} {mutation : Mutation host} {now : Nat}
  {afterBump : MutationTx → Unit → List AffectedRevision → Except VfsError Unit}
  {committed : Committed Unit}

/-- A blob row after a mutation was there before, or is new and names an upload. -/
theorem Mutation.run_blobs (consistent : Consistent host db)
    (result : mutation.run now afterBump db = .ok committed) {blob : Blob}
    (member : blob ∈ committed.db.blobs) :
    (∃ old ∈ db.blobs, old.face = blob.face) ∨
      blob.storageKey ∈ mutation.uploads ∧ ¬Drawn host db.issued blob.id := by
  rcases Mutation.run_eq_ok consistent result with ⟨tx, wrote, finished⟩
  rcases finished.tables with ⟨feedState, feedEvents, issued, _, isDb⟩
  rw [isDb] at member
  exact wrote.done.blob_origin member

theorem Mutation.run_keeps_blobs (consistent : Consistent host db)
    (result : mutation.run now afterBump db = .ok committed) {old : Blob}
    (member : old ∈ db.blobs) :
    ∃ blob ∈ committed.db.blobs, blob.id = old.id := by
  rcases Mutation.run_eq_ok consistent result with ⟨tx, wrote, finished⟩
  rcases finished.tables with ⟨feedState, feedEvents, issued, _, isDb⟩
  rcases wrote.done.blobRows with ⟨added, rows, _⟩
  have face : old.face ∈ tx.db.blobs.map Blob.face :=
    rows ▸ List.mem_append_left _ (List.mem_map_of_mem member)
  rcases List.mem_map.mp face with ⟨blob, isBlob, same⟩
  rw [isDb]
  exact ⟨blob, isBlob, congrArg Prod.fst same⟩

theorem touchFile_replaced {segments : List JsString} {parents : Bool} {blob : BlobData}
    {tx next : MutationTx} {outcome : PutFileOutcome}
    (result : touchFile host segments parents (some blob) tx = .ok (outcome, next))
    (replaced : outcome.kind = .replaced) :
    touchFile host segments parents none tx = .ok (outcome, next) := by
  unfold touchFile at result ⊢
  rcases Command.bind_eq_ok result with ⟨parentId, locked, isLocked, rest⟩
  rcases Command.bind_eq_ok rest with ⟨existing, read, isRead, finish⟩
  rw [Command.bind_of_ok isLocked, Command.bind_of_ok isRead]
  cases existing with
  | some node => exact finish
  | none =>
      rcases Command.bind_eq_ok finish with ⟨created, _, _, isOutcome⟩
      cases isOutcome
      cases replaced

theorem Mutation.replacedUpload_blobs (consistent : Consistent host db)
    (result : mutation.run now afterBump db = .ok committed) {key : JsString}
    (isReplaced : key ∈ mutation.replacedUpload now db) :
    key ∈ mutation.uploads ∧
      ∀ blob ∈ committed.db.blobs, ∃ old ∈ db.blobs, old.face = blob.face := by
  unfold Mutation.replacedUpload at isReplaced
  split at isReplaced
  · rename_i path parents blob root isRoot
    split at isReplaced
    · rename_i outcome last touched
      split at isReplaced
      · rename_i replaced
        refine ⟨isReplaced, fun row member => ?_⟩
        rcases Mutation.run_eq_ok consistent result with ⟨tx, wrote, finished⟩
        rcases finished.tables with ⟨feedState, feedEvents, issued, _, isDb⟩
        rcases wrote.work with ⟨other, isOther, worked⟩
        rw [isRoot] at isOther
        cases isOther
        rcases Command.bind_eq_ok worked with ⟨_, _, isTouched, isEnd⟩
        rw [touched] at isTouched
        cases isTouched
        cases isEnd
        have inv : TxInv host ⟨fun _ => False, fun _ => False⟩ db (aboveScope path.segments) []
            (.start db root.id now) := TxInv.initial consistent isRoot now _
        have same := touchFile_replaced touched replaced
        have noUpload : ∀ data, (none : Option BlobData) = some data → False := nofun
        have spec := (touchFile_spec path.nonempty path.valid noUpload inv).of_ok same
        rw [isDb] at member
        rcases spec.toTxDone.blob_origin member with isOld | ⟨never, _⟩
        · exact isOld
        · exact never.elim
      · cases isReplaced
    · cases isReplaced
  · cases isReplaced

end Rows

namespace ContentSystem

/-! ## Objects -/

theorem present_ne_none {key : JsString} (isPresent : system.present key = true) :
    system.objects key ≠ none := by
  intro isNone
  unfold present at isPresent
  rw [isNone] at isPresent
  cases isPresent

theorem expired_ne_none {key : JsString} (isExpired : system.expired deployment key = true) :
    system.objects key ≠ none := by
  intro isNone
  unfold expired at isExpired
  rw [isNone] at isExpired
  cases isExpired

theorem present_deleteObject (key other : JsString) :
    (system.deleteObject key).present other = (decide (other ≠ key) && system.present other) := by
  unfold present deleteObject
  dsimp only
  by_cases same : other = key
  · subst same
    rw [Function.update_self]
    cases system.objects other with
    | none => simp
    | some object => simp
  · rw [Function.update_of_ne same]
    simp [same]

theorem expired_deleteObject (key other : JsString) :
    (system.deleteObject key).expired deployment other = system.expired deployment other := by
  unfold expired deleteObject
  dsimp only
  by_cases same : other = key
  · subst same
    rw [Function.update_self]
    cases system.objects other with
    | none => rfl
    | some object => rfl
  · rw [Function.update_of_ne same]

theorem deleteObject_ne_none {key other : JsString} (written : system.objects other ≠ none) :
    (system.deleteObject key).objects other ≠ none := by
  unfold deleteObject
  dsimp only
  by_cases same : other = key
  · subst same
    rw [Function.update_self]
    cases isObject : system.objects other with
    | none => exact absurd isObject written
    | some object => simp
  · rwa [Function.update_of_ne same]

/-! ## Rows and keys -/

structure HasRow (system : ContentSystem) (id : Nat) (blob : Blob) : Prop where
  created : id ∈ system.namespaces
  member : blob ∈ (system.tables id).blobs

theorem known_eq_true {key : JsString} :
    system.known key = true ↔ ∃ id blob, HasRow system id blob ∧ blob.storageKey = key := by
  unfold known
  simp only [List.any_eq_true, beq_iff_eq]
  constructor
  · rintro ⟨id, created, blob, member, isKey⟩
    exact ⟨id, blob, ⟨created, member⟩, isKey⟩
  · rintro ⟨id, blob, ⟨created, member⟩, isKey⟩
    exact ⟨id, created, blob, member, isKey⟩

structure Spent (system : ContentSystem) (key : JsString) : Prop where
  written : system.objects key ≠ none
  settled : ∀ request, key ∈ (system.requests request).keys →
    (system.requests request).phase = .settled

def Barred (deployment : Deployment) (system : ContentSystem) (key : JsString) : Prop :=
  Spent system key ∨ system.expired deployment key = true

structure Dead (deployment : Deployment) (system : ContentSystem) (key : JsString) : Prop where
  barred : Barred deployment system key
  unnamed : ∀ id blob, HasRow system id blob → blob.storageKey ≠ key

/-- The key is named by one row at most, which has no reference, now and later. -/
structure Orphaned (deployment : Deployment) (system : ContentSystem) (home : Nat) (blobId : Uuid)
    (key : JsString) : Prop where
  spent : Spent system key
  created : home ∈ system.namespaces
  unreferenced : Unreferenced (deployment.hostOf home) (system.tables home) blobId
  named : ∀ blob ∈ (system.tables home).blobs, blob.id = blobId → blob.storageKey = key
  only : ∀ id blob, HasRow system id blob → blob.storageKey = key → id = home ∧ blob.id = blobId

/-! ## What every step keeps -/

structure Advance (deployment : Deployment) (system next : ContentSystem) : Prop where
  clock : system.clock ≤ next.clock
  written : ∀ key, system.objects key ≠ none → next.objects key ≠ none
  gone : ∀ key, system.objects key ≠ none → system.present key = false → next.present key = false
  expired : ∀ key, system.expired deployment key = true → next.expired deployment key = true
  requests : ∀ request key, system.objects key ≠ none → key ∈ (next.requests request).keys →
    key ∈ (system.requests request).keys ∧ ((system.requests request).phase = .settled →
      (next.requests request).phase = .settled)
  tables : ∀ id ∈ system.namespaces, id ∈ next.namespaces ∧
    Storix.Runs (deployment.hostOf id) (system.tables id) (next.tables id)
  rows : ∀ id blob, HasRow next id blob →
    (∃ old, HasRow system id old ∧ old.face = blob.face) ∨
      ¬Barred deployment system blob.storageKey ∧
        ¬Drawn (deployment.hostOf id) (system.tables id).issued blob.id

theorem Spent.advance {key : JsString} (spent : Spent system key)
    (later : Advance deployment system next) : Spent next key where
  written := later.written key spent.written
  settled := by
    intro request isKey
    rcases later.requests request key spent.written isKey with ⟨isOld, stays⟩
    exact stays (spent.settled request isOld)

theorem Barred.advance {key : JsString} (barred : Barred deployment system key)
    (later : Advance deployment system next) : Barred deployment next key :=
  barred.imp (fun spent => spent.advance later) fun isExpired => later.expired key isExpired

theorem Dead.advance {key : JsString} (dead : Dead deployment system key)
    (later : Advance deployment system next) : Dead deployment next key where
  barred := dead.barred.advance later
  unnamed := by
    rintro id blob row rfl
    rcases later.rows id blob row with ⟨old, isOld, same⟩ | ⟨open', _⟩
    · exact dead.unnamed id old isOld (congrArg (fun face => face.2.storageKey) same)
    · exact open' dead.barred

theorem Orphaned.advance {home : Nat} {blobId : Uuid} {key : JsString}
    (consistent : ∀ id ∈ system.namespaces,
      Consistent (deployment.hostOf id) (system.tables id))
    (orphaned : Orphaned deployment system home blobId key)
    (later : Advance deployment system next) : Orphaned deployment next home blobId key where
  spent := orphaned.spent.advance later
  created := (later.tables home orphaned.created).1
  unreferenced := (later.tables home orphaned.created).2.unreferenced
    (consistent home orphaned.created) orphaned.unreferenced
  named := by
    rintro blob member rfl
    rcases later.rows home blob ⟨(later.tables home orphaned.created).1, member⟩ with
      ⟨old, isOld, same⟩ | ⟨_, isNew⟩
    · have sameData : old.toBlobData = blob.toBlobData := congrArg Prod.snd same
      rw [← sameData]
      exact orphaned.named old isOld.member (congrArg Prod.fst same)
    · exact absurd orphaned.unreferenced.drawn isNew
  only := by
    rintro id blob row rfl
    rcases later.rows id blob row with ⟨old, isOld, same⟩ | ⟨open', _⟩
    · rcases orphaned.only id old isOld (congrArg (fun face => face.2.storageKey) same) with
        ⟨isHome, isId⟩
      exact ⟨isHome, (congrArg Prod.fst same).symm.trans isId⟩
    · exact absurd (.inl orphaned.spent) open'

/-! ## The invariant -/

structure ObjectPlan (deployment : Deployment) (system : ContentSystem) (job : ObjectRun) :
    Prop where
  started : job.now ≤ system.clock
  candidates : ∀ key ∈ job.candidates, system.expired deployment key = true
  condemned : ∀ key ∈ job.condemned, Dead deployment system key

structure BlobPlan (deployment : Deployment) (system : ContentSystem) (job : BlobRun) : Prop where
  orphans : ∀ blobId key, (blobId, key) ∈ job.orphans →
    ∃ home, Orphaned deployment system home blobId key
  deletedIds : ∀ blobId ∈ job.deletedIds,
    ∃ key, (blobId, key) ∈ job.orphans ∧ system.present key = false

theorem ObjectPlan.advance {job : ObjectRun} (plan : ObjectPlan deployment system job)
    (later : Advance deployment system next) : ObjectPlan deployment next job where
  started := plan.started.trans later.clock
  candidates := fun key isCandidate => later.expired key (plan.candidates key isCandidate)
  condemned := fun key isCondemned => (plan.condemned key isCondemned).advance later

theorem BlobPlan.advance {job : BlobRun}
    (consistent : ∀ id ∈ system.namespaces,
      Consistent (deployment.hostOf id) (system.tables id))
    (plan : BlobPlan deployment system job) (later : Advance deployment system next) :
    BlobPlan deployment next job where
  orphans := fun blobId key isOrphan =>
    (plan.orphans blobId key isOrphan).imp fun _ orphaned => orphaned.advance consistent later
  deletedIds := by
    intro blobId isDeleted
    rcases plan.deletedIds blobId isDeleted with ⟨key, isOrphan, isGone⟩
    rcases plan.orphans blobId key isOrphan with ⟨_, orphaned⟩
    exact ⟨key, isOrphan, later.gone key orphaned.spent.written isGone⟩

structure Collecting (deployment : Deployment) (system : ContentSystem) : Prop where
  consistent : ∀ id ∈ system.namespaces, Consistent (deployment.hostOf id) (system.tables id)
  owned : ∀ request key, key ∈ (system.requests request).keys → system.objects key ≠ none
  apart : ∀ left right key, key ∈ (system.requests left).keys →
    key ∈ (system.requests right).keys → left = right
  named : ∀ id blob, HasRow system id blob → Spent system blob.storageKey
  unique : ∀ left right blob other, HasRow system left blob → HasRow system right other →
    blob.storageKey = other.storageKey → left = right ∧ blob.id = other.id
  live : ∀ id blob, HasRow system id blob → 1 ≤ blob.referenceCount →
    system.present blob.storageKey = true
  fresh : ∀ request key, (system.requests request).phase ≠ .settled →
    key ∈ (system.requests request).keys →
    system.present key = true ∨ system.expired deployment key = true
  condemned : ∀ request, ∀ key ∈ (system.requests request).condemned, Dead deployment system key
  objectRuns : ∀ run, ObjectPlan deployment system (system.objectRuns run)
  blobRuns : ∀ run, BlobPlan deployment system (system.blobRuns run)

theorem Collecting.initial (start : Initial system) : Collecting deployment system := by
  have noRow : ∀ id blob, ¬HasRow system id blob := by
    intro id blob row
    have created := row.created
    rw [start.namespaces] at created
    cases created
  refine
    { consistent := ?_, owned := ?_, apart := ?_,
      named := fun id blob row => (noRow id blob row).elim,
      unique := fun id _ blob _ row => (noRow id blob row).elim,
      live := fun id blob row => (noRow id blob row).elim, fresh := ?_, condemned := ?_,
      objectRuns := ?_, blobRuns := ?_ }
  · intro id created
    rw [start.namespaces] at created
    cases created
  · intro request key isKey
    rw [start.requests] at isKey
    cases isKey
  · intro left right key isKey
    rw [start.requests] at isKey
    cases isKey
  · intro request key _ isKey
    rw [start.requests] at isKey
    cases isKey
  · intro request key isKey
    rw [start.requests] at isKey
    cases isKey
  · intro run
    rw [start.objectRuns]
    exact ⟨Nat.zero_le _, nofun, nofun⟩
  · intro run
    rw [start.blobRuns]
    exact ⟨nofun, nofun⟩

namespace Collecting

theorem referenced_before (holds : Collecting deployment system)
    (later : Advance deployment system next) {id : Nat} {old blob : Blob}
    (isOld : HasRow system id old) (row : HasRow next id blob) (same : old.face = blob.face)
    (positive : 1 ≤ blob.referenceCount) : 1 ≤ old.referenceCount := by
  have consistent := holds.consistent id isOld.created
  have run := (later.tables id isOld.created).2
  have nonneg : 0 ≤ old.referenceCount := by
    rw [consistent.refs.exact old isOld.member]
    exact Int.natCast_nonneg _
  by_contra none
  have zero : old.referenceCount = 0 := by omega
  have unused : old.id ∉ (system.tables id).references := fun used =>
    absurd (consistent.refs.live_of_mem isOld.member used) (by rw [zero]; exact Int.lt_irrefl 0)
  have drawn := consistent.issued.blobs old.id (List.mem_map_of_mem isOld.member)
  have still := run.unreferenced consistent ⟨drawn, unused⟩
  have sameId : old.id = blob.id := congrArg Prod.fst same
  have isCount := (run.consistent consistent).refs.exact blob row.member
  rw [← sameId, List.count_eq_zero_of_not_mem still.unused] at isCount
  rw [isCount] at positive
  exact absurd positive (by decide)

theorem advance (holds : Collecting deployment system) (later : Advance deployment system next)
    (created : ∀ id ∈ next.namespaces, id ∉ system.namespaces →
      Consistent (deployment.hostOf id) (next.tables id))
    (owned : ∀ request key, key ∈ (next.requests request).keys → next.objects key ≠ none)
    (apart : ∀ left right key, key ∈ (next.requests left).keys →
      key ∈ (next.requests right).keys → left = right)
    (newRows : ∀ id blob, HasRow next id blob → ¬Barred deployment system blob.storageKey →
      Spent next blob.storageKey ∧ next.present blob.storageKey = true ∧
        ∀ other otherBlob, HasRow next other otherBlob →
          otherBlob.storageKey = blob.storageKey → other = id ∧ otherBlob.id = blob.id)
    (live : ∀ id blob, HasRow system id blob → 1 ≤ blob.referenceCount →
      system.present blob.storageKey = true → next.present blob.storageKey = true)
    (fresh : ∀ request key, (next.requests request).phase ≠ .settled →
      key ∈ (next.requests request).keys →
      next.present key = true ∨ next.expired deployment key = true)
    (condemned : ∀ request, ∀ key ∈ (next.requests request).condemned,
      key ∈ (system.requests request).condemned ∨ Dead deployment next key)
    (objectRuns : ∀ run, next.objectRuns run = system.objectRuns run ∨
      ObjectPlan deployment next (next.objectRuns run))
    (blobRuns : ∀ run, next.blobRuns run = system.blobRuns run ∨
      BlobPlan deployment next (next.blobRuns run)) : Collecting deployment next where
  consistent := by
    intro id isCreated
    by_cases isOld : id ∈ system.namespaces
    · exact (later.tables id isOld).2.consistent (holds.consistent id isOld)
    · exact created id isCreated isOld
  owned := owned
  apart := apart
  named := by
    intro id blob row
    rcases later.rows id blob row with ⟨old, isOld, same⟩ | ⟨isOpen, _⟩
    · have sameData : old.toBlobData = blob.toBlobData := congrArg Prod.snd same
      rw [← sameData]
      exact (holds.named id old isOld).advance later
    · exact (newRows id blob row isOpen).1
  unique := by
    intro left right blob other row otherRow sameKey
    rcases later.rows left blob row with ⟨old, isOld, same⟩ | ⟨isOpen, _⟩
    · rcases later.rows right other otherRow with ⟨otherOld, isOtherOld, otherSame⟩ | ⟨isOpen, _⟩
      · have oldKey : old.storageKey = otherOld.storageKey :=
          (congrArg (fun face => face.2.storageKey) same).trans
            (sameKey.trans (congrArg (fun face => face.2.storageKey) otherSame).symm)
        rcases holds.unique left right old otherOld isOld isOtherOld oldKey with ⟨isHome, isId⟩
        exact ⟨isHome, (congrArg Prod.fst same).symm.trans
          (isId.trans (congrArg Prod.fst otherSame))⟩
      · exact (newRows right other otherRow isOpen).2.2 left blob row sameKey
    · rcases (newRows left blob row isOpen).2.2 right other otherRow sameKey.symm with
        ⟨isHome, isId⟩
      exact ⟨isHome.symm, isId.symm⟩
  live := by
    intro id blob row positive
    rcases later.rows id blob row with ⟨old, isOld, same⟩ | ⟨isOpen, _⟩
    · have sameData : old.toBlobData = blob.toBlobData := congrArg Prod.snd same
      have before := holds.referenced_before later isOld row same positive
      rw [← sameData]
      exact live id old isOld before (holds.live id old isOld before)
    · exact (newRows id blob row isOpen).2.1
  fresh := fresh
  condemned := by
    intro request key isCondemned
    rcases condemned request key isCondemned with isOld | isDead
    · exact (holds.condemned request key isOld).advance later
    · exact isDead
  objectRuns := by
    intro run
    rcases objectRuns run with same | plan
    · rw [same]
      exact (holds.objectRuns run).advance later
    · exact plan
  blobRuns := by
    intro run
    rcases blobRuns run with same | plan
    · rw [same]
      exact (holds.blobRuns run).advance holds.consistent later
    · exact plan

/-! ## Steps that only read and decide -/

theorem quiet (holds : Collecting deployment system) (clock : system.clock ≤ next.clock)
    (namespaces : next.namespaces = system.namespaces) (tables : next.tables = system.tables)
    (objects : next.objects = system.objects)
    (keys : ∀ request, (next.requests request).keys = (system.requests request).keys)
    (settled : ∀ request, (system.requests request).phase = .settled →
      (next.requests request).phase = .settled)
    (condemned : ∀ request, ∀ key ∈ (next.requests request).condemned,
      key ∈ (system.requests request).condemned ∨
        Spent system key ∧ ∀ id blob, HasRow system id blob → blob.storageKey ≠ key)
    (objectRuns : ∀ run, next.objectRuns run = system.objectRuns run ∨
      ObjectPlan deployment system (next.objectRuns run))
    (blobRuns : ∀ run, next.blobRuns run = system.blobRuns run ∨
      BlobPlan deployment system (next.blobRuns run)) : Collecting deployment next := by
  have present : ∀ key, next.present key = system.present key := by
    intro key
    unfold present
    rw [objects]
  have expired : ∀ key, system.expired deployment key = true →
      next.expired deployment key = true := by
    intro key isExpired
    unfold ContentSystem.expired at isExpired ⊢
    rw [objects]
    rcases (Option.any_eq_true _ _).mp isExpired with ⟨object, isObject, isLate⟩
    refine (Option.any_eq_true _ _).mpr ⟨object, isObject, ?_⟩
    rw [decide_eq_true_eq] at isLate ⊢
    exact lt_of_lt_of_le isLate clock
  have sameRows : ∀ {id blob}, HasRow next id blob → HasRow system id blob := by
    intro id blob row
    exact ⟨namespaces ▸ row.created, tables ▸ row.member⟩
  have later : Advance deployment system next :=
    { clock := clock
      written := fun key isWritten => by rwa [objects]
      gone := fun key _ isGone => (present key).trans isGone
      expired := expired
      requests := fun request key _ isKey => ⟨keys request ▸ isKey, settled request⟩
      tables := fun id created => ⟨namespaces.symm ▸ created, by rw [tables]; exact .refl _⟩
      rows := fun id blob row => .inl ⟨blob, sameRows row, rfl⟩ }
  refine holds.advance later ?_ ?_ ?_ ?_ ?_ ?_ ?_ ?_ ?_
  · intro id created isNew
    exact absurd (namespaces ▸ created) isNew
  · intro request key isKey
    rw [objects]
    exact holds.owned request key (keys request ▸ isKey)
  · intro left right key isLeft isRight
    exact holds.apart left right key (keys left ▸ isLeft) (keys right ▸ isRight)
  · intro id blob row isOpen
    exact absurd (.inl (holds.named id blob (sameRows row))) isOpen
  · intro id blob _ _ isPresent
    exact (present _).trans isPresent
  · intro request key isOpen isKey
    have wasOpen : (system.requests request).phase ≠ .settled :=
      fun wasSettled => isOpen (settled request wasSettled)
    rcases holds.fresh request key wasOpen (keys request ▸ isKey) with isPresent | isExpired
    · exact .inl ((present key).trans isPresent)
    · exact .inr (expired key isExpired)
  · intro request key isCondemned
    rcases condemned request key isCondemned with isOld | ⟨spent, unnamed⟩
    · exact .inl isOld
    · exact .inr ⟨.inl (spent.advance later), fun id blob row => unnamed id blob (sameRows row)⟩
  · exact fun run => (objectRuns run).imp_right fun plan => plan.advance later
  · exact fun run => (blobRuns run).imp_right fun plan => plan.advance holds.consistent later

theorem setRequest (holds : Collecting deployment system) (request : Nat) {value : UploadRequest}
    (keys : value.keys = (system.requests request).keys)
    (settled : (system.requests request).phase = .settled → value.phase = .settled)
    (condemned : ∀ key ∈ value.condemned, key ∈ (system.requests request).condemned ∨
      Spent system key ∧ ∀ id blob, HasRow system id blob → blob.storageKey ≠ key) :
    Collecting deployment (system.setRequest request value) := by
  have same : ∀ other, other = request ∧ (system.setRequest request value).requests other = value ∨
      (system.setRequest request value).requests other = system.requests other := by
    intro other
    by_cases isRequest : other = request
    · subst isRequest
      exact .inl ⟨rfl, Function.update_self _ _ _⟩
    · exact .inr (Function.update_of_ne isRequest _ _)
  refine holds.quiet (Nat.le_refl _) rfl rfl rfl ?_ ?_ ?_ (fun _ => .inl rfl) fun _ => .inl rfl
  · intro other
    rcases same other with ⟨rfl, isValue⟩ | isOld
    · rw [isValue, keys]
    · rw [isOld]
  · intro other wasSettled
    rcases same other with ⟨rfl, isValue⟩ | isOld
    · rw [isValue]
      exact settled wasSettled
    · rwa [isOld]
  · intro other key isCondemned
    rcases same other with ⟨rfl, isValue⟩ | isOld
    · rw [isValue] at isCondemned
      exact condemned key isCondemned
    · rw [isOld] at isCondemned
      exact .inl isCondemned

theorem setObjectRun (holds : Collecting deployment system) (run : Nat) {job : ObjectRun}
    (plan : ObjectPlan deployment system job) :
    Collecting deployment (system.setObjectRun run job) := by
  refine holds.quiet (Nat.le_refl _) rfl rfl rfl (fun _ => rfl) (fun _ isSettled => isSettled)
    (fun _ _ => .inl) ?_ fun _ => .inl rfl
  intro other
  by_cases same : other = run
  · subst same
    refine .inr ?_
    unfold ContentSystem.setObjectRun
    dsimp only
    rwa [Function.update_self]
  · exact .inl (Function.update_of_ne same _ _)

theorem setBlobRun (holds : Collecting deployment system) (run : Nat) {job : BlobRun}
    (plan : BlobPlan deployment system job) :
    Collecting deployment (system.setBlobRun run job) := by
  refine holds.quiet (Nat.le_refl _) rfl rfl rfl (fun _ => rfl) (fun _ isSettled => isSettled)
    (fun _ _ => .inl) (fun _ => .inl rfl) ?_
  intro other
  by_cases same : other = run
  · subst same
    refine .inr ?_
    unfold ContentSystem.setBlobRun
    dsimp only
    rwa [Function.update_self]
  · exact .inl (Function.update_of_ne same _ _)

/-- The read that follows the candidates finds every row that could still name them. -/
theorem findKnown (holds : Collecting deployment system) (run : Nat) :
    ObjectPlan deployment system
      { system.objectRuns run with
        condemned := ((system.objectRuns run).candidates.filter fun key => !system.known key) ++
          (system.objectRuns run).condemned } := by
  have plan := holds.objectRuns run
  refine ⟨plan.started, plan.candidates, fun key isCondemned => ?_⟩
  rcases List.mem_append.mp isCondemned with isUnknown | isOld
  · rw [List.mem_filter, Bool.not_eq_true'] at isUnknown
    refine ⟨.inr (plan.candidates key isUnknown.1), fun id blob row isKey => ?_⟩
    have isKnown := known_eq_true.mpr ⟨id, blob, row, isKey⟩
    rw [isUnknown.2] at isKnown
    cases isKnown
  · exact plan.condemned key isOld

theorem listPage (holds : Collecting deployment system) (run : Nat) (page : List JsString) :
    ObjectPlan deployment system
      { system.objectRuns run with
        candidates := page.filter fun key => (system.objects key).any fun object =>
          !object.deleted && decide ((object.lastModified : Int) <
            (system.objectRuns run).now - deployment.gracePeriod) } := by
  have plan := holds.objectRuns run
  refine ⟨plan.started, fun key isCandidate => ?_, plan.condemned⟩
  have isOld := (List.mem_filter.mp isCandidate).2
  rcases (Option.any_eq_true _ _).mp isOld with ⟨object, isObject, passes⟩
  rw [Bool.and_eq_true, decide_eq_true_eq] at passes
  refine (Option.any_eq_true _ _).mpr ⟨object, isObject, ?_⟩
  rw [decide_eq_true_eq]
  have started := plan.started
  have before := passes.2
  omega

theorem orphaned (holds : Collecting deployment system) {id : Nat} {blob : Blob}
    (row : HasRow system id blob) (zero : blob.referenceCount = 0) :
    Orphaned deployment system id blob.id blob.storageKey := by
  have consistent := holds.consistent id row.created
  refine ⟨holds.named id blob row, row.created, ⟨?_, ?_⟩, ?_, ?_⟩
  · exact consistent.issued.blobs blob.id (List.mem_map_of_mem row.member)
  · intro used
    have positive := consistent.refs.live_of_mem row.member used
    rw [zero] at positive
    exact Int.lt_irrefl 0 positive
  · intro other isOther sameId
    rw [List.inj_on_of_nodup_map consistent.refs.ids isOther row.member sameId]
  · intro other otherBlob otherRow sameKey
    exact holds.unique other id otherBlob blob otherRow row sameKey

theorem findOrphanBlobsPage (holds : Collecting deployment system) (run : Nat) {cutoff : Int}
    {page : List (Nat × Blob)} (isPage : page.all (system.isOrphan cutoff) = true) :
    BlobPlan deployment system
      { system.blobRuns run with
        orphans := page.map (fun row => (row.2.id, row.2.storageKey)) ++
          (system.blobRuns run).orphans } := by
  have plan := holds.blobRuns run
  refine ⟨fun blobId key isPicked => ?_, fun blobId isDeleted => ?_⟩
  · rcases List.mem_append.mp isPicked with isNew | isOld
    · rcases List.mem_map.mp isNew with ⟨⟨id, blob⟩, isRow, isPair⟩
      have passes := List.all_eq_true.mp isPage _ isRow
      unfold ContentSystem.isOrphan at passes
      simp only [Bool.and_eq_true, List.contains_eq_mem, decide_eq_true_eq, beq_iff_eq] at passes
      cases isPair
      exact ⟨id, holds.orphaned ⟨passes.1.1.1, passes.1.1.2⟩ passes.1.2⟩
    · exact plan.orphans blobId key isOld
  · rcases plan.deletedIds blobId isDeleted with ⟨key, isOrphan, isGone⟩
    exact ⟨key, List.mem_append_right _ isOrphan, isGone⟩

/-! ## Steps that write -/

theorem objects_putObject {request : Nat} {key other : JsString} (different : other ≠ key) :
    (system.putObject request key).objects other = system.objects other :=
  Function.update_of_ne different _ _

theorem present_putObject {request : Nat} {key : JsString} :
    (system.putObject request key).present key = true := by
  unfold ContentSystem.present ContentSystem.putObject
  dsimp only
  rw [Function.update_self]
  rfl

theorem requests_putObject {request : Nat} {key : JsString} (other : Nat) :
    ((system.putObject request key).requests other).phase = (system.requests other).phase ∧
      ((system.putObject request key).requests other).condemned =
        (system.requests other).condemned := by
  unfold ContentSystem.putObject
  dsimp only
  by_cases same : other = request
  · subst same
    rw [Function.update_self]
    exact ⟨rfl, rfl⟩
  · rw [Function.update_of_ne same]
    exact ⟨rfl, rfl⟩

theorem mem_keys_putObject {request other : Nat} {key word : JsString}
    (member : word ∈ ((system.putObject request key).requests other).keys) :
    word ∈ (system.requests other).keys ∨ other = request ∧ word = key := by
  unfold ContentSystem.putObject at member
  dsimp only at member
  by_cases same : other = request
  · subst same
    rw [Function.update_self, List.mem_append, List.mem_singleton] at member
    exact member.imp_right fun isKey => ⟨rfl, isKey⟩
  · rw [Function.update_of_ne same] at member
    exact .inl member

theorem advance_putObject {request : Nat} {key : JsString} (isFree : system.objects key = none) :
    Advance deployment system (system.putObject request key) := by
  have same : ∀ {other}, system.objects other ≠ none →
      (system.putObject request key).objects other = system.objects other := by
    intro other isWritten
    refine objects_putObject ?_
    rintro rfl
    exact isWritten isFree
  refine
    { clock := Nat.le_refl _, written := ?_, gone := ?_, expired := ?_, requests := ?_,
      tables := fun id created => ⟨created, .refl _⟩,
      rows := fun id blob row => .inl ⟨blob, ⟨row.created, row.member⟩, rfl⟩ }
  · intro other isWritten
    rwa [same isWritten]
  · intro other isWritten isGone
    unfold ContentSystem.present at isGone ⊢
    rwa [same isWritten]
  · intro other isExpired
    have isWritten := expired_ne_none isExpired
    unfold ContentSystem.expired at isExpired ⊢
    rwa [same isWritten]
  · intro other word isWritten member
    rw [(requests_putObject other).1]
    rcases mem_keys_putObject member with isOld | ⟨_, rfl⟩
    · exact ⟨isOld, fun isSettled => isSettled⟩
    · exact absurd isFree isWritten

theorem advance_deleteObject (key : JsString) :
    Advance deployment system (system.deleteObject key) where
  clock := Nat.le_refl _
  written := fun _ isWritten => deleteObject_ne_none isWritten
  gone := fun other _ isGone => by rw [present_deleteObject, isGone, Bool.and_false]
  expired := fun other isExpired => (expired_deleteObject key other).trans isExpired
  requests := fun _ _ _ isKey => ⟨isKey, fun isSettled => isSettled⟩
  tables := fun id created => ⟨created, .refl _⟩
  rows := fun id blob row => .inl ⟨blob, ⟨row.created, row.member⟩, rfl⟩

/-- A key may go when no request can commit it and no row with a reference names it. -/
theorem deleteObject (holds : Collecting deployment system) {key : JsString}
    (barred : Barred deployment system key)
    (unreferenced : ∀ id blob, HasRow system id blob → blob.storageKey = key →
      blob.referenceCount = 0) : Collecting deployment (system.deleteObject key) := by
  refine holds.advance (advance_deleteObject key) ?_ ?_ holds.apart ?_ ?_ ?_
    (fun _ _ => .inl) (fun _ => .inl rfl) fun _ => .inl rfl
  · intro id created isNew
    exact absurd created isNew
  · intro request other isKey
    exact deleteObject_ne_none (holds.owned request other isKey)
  · intro id blob row isOpen
    exact absurd (.inl (holds.named id blob ⟨row.created, row.member⟩)) isOpen
  · intro id blob row positive isPresent
    have different : blob.storageKey ≠ key := by
      intro isKey
      rw [unreferenced id blob row isKey] at positive
      exact absurd positive (by decide)
    rw [present_deleteObject, isPresent, Bool.and_true, decide_eq_true_eq]
    exact different
  · intro request other isOpen isKey
    rw [expired_deleteObject]
    by_cases same : other = key
    · subst same
      rcases barred with spent | isExpired
      · exact absurd (spent.settled request isKey) isOpen
      · exact .inr isExpired
    · rw [present_deleteObject, decide_eq_true same, Bool.true_and]
      exact holds.fresh request other isOpen isKey

theorem deleteDead (holds : Collecting deployment system) {key : JsString}
    (dead : Dead deployment system key) : Collecting deployment (system.deleteObject key) :=
  holds.deleteObject dead.barred fun id blob row isKey =>
    absurd isKey (dead.unnamed id blob row)

theorem zero_of_orphaned (holds : Collecting deployment system)
    {home : Nat} {blobId : Uuid} {key : JsString}
    (orphaned : Orphaned deployment system home blobId key) {blob : Blob}
    (member : blob ∈ (system.tables home).blobs) (isId : blob.id = blobId) :
    blob.referenceCount = 0 := by
  rw [(holds.consistent home orphaned.created).refs.exact blob member, isId,
    List.count_eq_zero_of_not_mem orphaned.unreferenced.unused]
  rfl

/-- The object of an orphan is deleted, and the job notes it where it learned of it. -/
theorem deleteOrphan (holds : Collecting deployment system) {run : Nat} {blobId : Uuid}
    {key : JsString} (isOrphan : (blobId, key) ∈ (system.blobRuns run).orphans)
    (acknowledged : Bool) :
    Collecting deployment ((system.deleteObject key).setBlobRun run
      { system.blobRuns run with
        deletedIds :=
          if acknowledged then blobId :: (system.blobRuns run).deletedIds
          else (system.blobRuns run).deletedIds }) := by
  rcases (holds.blobRuns run).orphans blobId key isOrphan with ⟨home, orphaned⟩
  have deleted : Collecting deployment (system.deleteObject key) := by
    refine holds.deleteObject (.inl orphaned.spent) fun id blob row isKey => ?_
    rcases orphaned.only id blob row isKey with ⟨rfl, isId⟩
    exact holds.zero_of_orphaned orphaned row.member isId
  refine deleted.setBlobRun run ?_
  have plan := deleted.blobRuns run
  refine ⟨plan.orphans, fun other isDeleted => ?_⟩
  cases acknowledged with
  | false => exact plan.deletedIds other isDeleted
  | true =>
      rcases List.mem_cons.mp isDeleted with rfl | isOld
      · refine ⟨key, isOrphan, ?_⟩
        rw [present_deleteObject]
        simp
      · exact plan.deletedIds other isOld

theorem putObject (holds : Collecting deployment system) {request : Nat} {key : JsString}
    (isFree : system.objects key = none) :
    Collecting deployment (system.putObject request key) := by
  have written : ∀ {other}, system.objects other ≠ none → other ≠ key := by
    rintro other isWritten rfl
    exact isWritten isFree
  have notOwned : ∀ {other}, key ∉ (system.requests other).keys := fun isOld =>
    holds.owned _ key isOld isFree
  have later : Advance deployment system (system.putObject request key) := advance_putObject isFree
  refine holds.advance later (fun id created isNew => absurd created isNew) ?_ ?_ ?_ ?_ ?_ ?_
    (fun _ => .inl rfl) fun _ => .inl rfl
  · intro other word member
    rcases mem_keys_putObject member with isOld | ⟨_, rfl⟩
    · exact later.written word (holds.owned other word isOld)
    · exact present_ne_none present_putObject
  · intro left right word isLeft isRight
    rcases mem_keys_putObject isLeft with leftOld | ⟨isRequest, rfl⟩
    · rcases mem_keys_putObject isRight with rightOld | ⟨_, rfl⟩
      · exact holds.apart left right word leftOld rightOld
      · exact absurd leftOld notOwned
    · rcases mem_keys_putObject isRight with rightOld | ⟨alsoRequest, _⟩
      · exact absurd rightOld notOwned
      · exact isRequest.trans alsoRequest.symm
  · intro id blob row isOpen
    exact absurd (.inl (holds.named id blob ⟨row.created, row.member⟩)) isOpen
  · intro id blob row _ isPresent
    have different := written (holds.named id blob row).written
    unfold ContentSystem.present at isPresent ⊢
    rwa [objects_putObject different]
  · intro other word isOpen member
    rw [(requests_putObject other).1] at isOpen
    rcases mem_keys_putObject member with isOld | ⟨_, rfl⟩
    · rcases holds.fresh other word isOpen isOld with isPresent | isExpired
      · have different := written (present_ne_none isPresent)
        unfold ContentSystem.present at isPresent ⊢
        exact .inl (by rwa [objects_putObject different])
      · exact .inr (later.expired word isExpired)
    · exact .inl present_putObject
  · intro other word isCondemned
    rw [(requests_putObject other).2] at isCondemned
    exact .inl isCondemned

/-! ## Transactions -/

theorem hasRow_setTables {id other : Nat} {db : Database} {blob : Blob}
    (row : HasRow (system.setTables id db) other blob) :
    other = id ∧ blob ∈ db.blobs ∨ HasRow system other blob := by
  have member := row.member
  unfold ContentSystem.setTables at member
  dsimp only at member
  by_cases same : other = id
  · subst same
    rw [Function.update_self] at member
    exact .inl ⟨rfl, member⟩
  · rw [Function.update_of_ne same] at member
    exact .inr ⟨row.created, member⟩

theorem tables_setTables {id other : Nat} {db : Database}
    (run : Storix.Runs (deployment.hostOf id) (system.tables id) db) :
    Storix.Runs (deployment.hostOf other) (system.tables other)
      ((system.setTables id db).tables other) := by
  unfold ContentSystem.setTables
  dsimp only
  by_cases same : other = id
  · subst same
    rwa [Function.update_self]
  · rw [Function.update_of_ne same]
    exact .refl _

theorem setTables (holds : Collecting deployment system) {id : Nat} {db : Database}
    (created : id ∈ system.namespaces)
    (run : Storix.Runs (deployment.hostOf id) (system.tables id) db)
    (sameBlobs : db.blobs = (system.tables id).blobs) :
    Collecting deployment (system.setTables id db) := by
  have sameRows : ∀ {other blob}, HasRow (system.setTables id db) other blob →
      HasRow system other blob := by
    intro other blob row
    rcases hasRow_setTables row with ⟨rfl, member⟩ | isOld
    · exact ⟨created, sameBlobs ▸ member⟩
    · exact isOld
  have later : Advance deployment system (system.setTables id db) :=
    { clock := Nat.le_refl _
      written := fun _ isWritten => isWritten
      gone := fun _ _ isGone => isGone
      expired := fun _ isExpired => isExpired
      requests := fun _ _ _ isKey => ⟨isKey, fun isSettled => isSettled⟩
      tables := fun other isCreated => ⟨isCreated, tables_setTables run⟩
      rows := fun other blob row => .inl ⟨blob, sameRows row, rfl⟩ }
  refine holds.advance later (fun other isCreated isNew => absurd isCreated isNew) holds.owned
    holds.apart ?_ (fun _ _ _ _ isPresent => isPresent) holds.fresh (fun _ _ => .inl)
    (fun _ => .inl rfl) fun _ => .inl rfl
  intro other blob row isOpen
  exact absurd (.inl (holds.named other blob (sameRows row))) isOpen

theorem createNamespace (holds : Collecting deployment system) {id : Nat}
    (isNew : id ∉ system.namespaces) (settings : NamespaceSettings) :
    Collecting deployment ({ system with namespaces := id :: system.namespaces }.setTables id
      (createWithRoot (deployment.hostOf id) system.clock settings)) := by
  have tables : ∀ {other}, other ∈ system.namespaces →
      Function.update system.tables id
        (createWithRoot (deployment.hostOf id) system.clock settings) other =
        system.tables other := by
    intro other isCreated
    refine Function.update_of_ne ?_ _ _
    rintro rfl
    exact isNew isCreated
  have sameRows : ∀ {other blob}, HasRow ({ system with
        namespaces := id :: system.namespaces }.setTables id
        (createWithRoot (deployment.hostOf id) system.clock settings)) other blob →
      HasRow system other blob := by
    intro other blob row
    rcases hasRow_setTables row with ⟨_, member⟩ | isOld
    · cases member
    · rcases List.mem_cons.mp isOld.created with rfl | isCreated
      · have member := row.member
        unfold ContentSystem.setTables at member
        dsimp only at member
        rw [Function.update_self] at member
        cases member
      · exact ⟨isCreated, isOld.member⟩
  have later : Advance deployment system ({ system with
      namespaces := id :: system.namespaces }.setTables id
      (createWithRoot (deployment.hostOf id) system.clock settings)) :=
    { clock := Nat.le_refl _
      written := fun _ isWritten => isWritten
      gone := fun _ _ isGone => isGone
      expired := fun _ isExpired => isExpired
      requests := fun _ _ _ isKey => ⟨isKey, fun isSettled => isSettled⟩
      tables := fun other isCreated => ⟨List.mem_cons_of_mem _ isCreated, by
        unfold ContentSystem.setTables
        dsimp only
        rw [tables isCreated]
        exact .refl _⟩
      rows := fun other blob row => .inl ⟨blob, sameRows row, rfl⟩ }
  refine holds.advance later ?_ holds.owned holds.apart ?_ (fun _ _ _ _ isPresent => isPresent)
    holds.fresh (fun _ _ => .inl) (fun _ => .inl rfl) fun _ => .inl rfl
  · intro other isCreated isOther
    rcases List.mem_cons.mp isCreated with rfl | isOld
    · unfold ContentSystem.setTables
      dsimp only
      rw [Function.update_self]
      exact consistent_createWithRoot _ _ _
    · exact absurd isOld isOther
  · intro other blob row isOpen
    exact absurd (.inl (holds.named other blob (sameRows row))) isOpen

def committedState (system : ContentSystem) (request id : Nat) (db : Database)
    (replaced : List JsString) : ContentSystem :=
  (system.setTables id db).setRequest request
    { system.requests request with
      phase := .settled, condemned := (system.requests request).condemned ++ replaced }

theorem requests_committedState {request id : Nat} {db : Database} {replaced : List JsString}
    (other : Nat) :
    ((committedState system request id db replaced).requests other).keys =
        (system.requests other).keys ∧
      (((committedState system request id db replaced).requests other).phase = .settled ↔
        other = request ∨ (system.requests other).phase = .settled) ∧
      ∀ key ∈ ((committedState system request id db replaced).requests other).condemned,
        key ∈ (system.requests other).condemned ∨ key ∈ replaced := by
  unfold committedState ContentSystem.setRequest
  dsimp only
  by_cases same : other = request
  · subst same
    rw [Function.update_self]
    exact ⟨rfl, ⟨fun _ => .inl rfl, fun _ => rfl⟩, fun key member => List.mem_append.mp member⟩
  · rw [Function.update_of_ne same]
    exact ⟨rfl, ⟨.inr, fun settled => settled.resolve_left same⟩, fun key member => .inl member⟩

theorem committed (holds : Collecting deployment system) {request id : Nat}
    {mutation : Mutation (deployment.hostOf id)}
    {afterBump : MutationTx → Unit → List AffectedRevision → Except VfsError Unit}
    {committed : Committed Unit} {replaced : List JsString} (created : id ∈ system.namespaces)
    (isOpen : (system.requests request).phase ≠ .settled)
    (allowed : ∀ key ∈ mutation.uploads,
      key ∈ (system.requests request).keys ∧ system.expired deployment key = false)
    (result : mutation.run system.clock afterBump (system.tables id) = .ok committed)
    (distinct : (committed.db.blobs.map fun blob => blob.storageKey).Nodup)
    (isReplaced : ∀ key ∈ replaced, key ∈ mutation.uploads ∧
      ∀ blob ∈ committed.db.blobs, ∃ old ∈ (system.tables id).blobs, old.face = blob.face) :
    Collecting deployment (committedState system request id committed.db replaced) := by
  have notSpent : ∀ {key}, key ∈ mutation.uploads → ¬Spent system key := fun isUpload spent =>
    isOpen (spent.settled request (allowed _ isUpload).1)
  have notBarred : ∀ {key}, key ∈ mutation.uploads → ¬Barred deployment system key := by
    rintro key isUpload (spent | isExpired)
    · exact notSpent isUpload spent
    · rw [(allowed key isUpload).2] at isExpired
      cases isExpired
  have origin : ∀ {other blob}, HasRow (committedState system request id committed.db replaced)
      other blob → (∃ old, HasRow system other old ∧ old.face = blob.face) ∨
        other = id ∧ blob ∈ committed.db.blobs ∧ blob.storageKey ∈ mutation.uploads ∧
          ¬Drawn (deployment.hostOf id) (system.tables id).issued blob.id := by
    intro other blob row
    have written : HasRow (system.setTables id committed.db) other blob := ⟨row.created, row.member⟩
    rcases hasRow_setTables written with ⟨rfl, member⟩ | isOld
    · rcases Mutation.run_blobs (holds.consistent _ created) result member with
        ⟨old, isOld, same⟩ | ⟨isUpload, isNew⟩
      · exact .inl ⟨old, ⟨created, isOld⟩, same⟩
      · exact .inr ⟨rfl, member, isUpload, isNew⟩
    · exact .inl ⟨blob, isOld, rfl⟩
  have run : Storix.Runs (deployment.hostOf id) (system.tables id) committed.db :=
    .tail (.refl _) (.mutation mutation system.clock afterBump result)
  have later : Advance deployment system
      (committedState system request id committed.db replaced) :=
    { clock := Nat.le_refl _
      written := fun _ isWritten => isWritten
      gone := fun _ _ isGone => isGone
      expired := fun _ isExpired => isExpired
      requests := by
        intro other key _ isKey
        rw [(requests_committedState other).1] at isKey
        exact ⟨isKey, fun isSettled => (requests_committedState other).2.1.mpr (.inr isSettled)⟩
      tables := fun other isCreated => ⟨isCreated, tables_setTables run⟩
      rows := by
        intro other blob row
        rcases origin row with isOld | ⟨rfl, _, isUpload, isNew⟩
        · exact .inl isOld
        · exact .inr ⟨notBarred isUpload, isNew⟩ }
  -- A key of the transaction belongs to this request, which is settled now.
  have spentNow : ∀ {key}, key ∈ mutation.uploads →
      Spent (committedState system request id committed.db replaced) key := by
    intro key isUpload
    refine ⟨holds.owned request key (allowed key isUpload).1, fun other isKey => ?_⟩
    rw [(requests_committedState other).1] at isKey
    rw [(requests_committedState other).2.1]
    exact .inl (holds.apart other request key isKey (allowed key isUpload).1)
  refine holds.advance later (fun other isCreated isNew => absurd isCreated isNew) ?_ ?_ ?_
    (fun _ _ _ _ isPresent => isPresent) ?_ ?_ (fun _ => .inl rfl) fun _ => .inl rfl
  · intro other key isKey
    rw [(requests_committedState other).1] at isKey
    exact holds.owned other key isKey
  · intro left right key isLeft isRight
    rw [(requests_committedState left).1] at isLeft
    rw [(requests_committedState right).1] at isRight
    exact holds.apart left right key isLeft isRight
  · intro other blob row stillOpen
    rcases origin row with ⟨old, isOld, same⟩ | ⟨rfl, member, isUpload, _⟩
    · have sameData : old.toBlobData = blob.toBlobData := congrArg Prod.snd same
      rw [← sameData] at stillOpen
      exact absurd (.inl (holds.named other old isOld)) stillOpen
    · refine ⟨spentNow isUpload, ?_, fun home homeBlob homeRow sameKey => ?_⟩
      · rcases holds.fresh request _ isOpen (allowed _ isUpload).1 with isPresent | isExpired
        · exact isPresent
        · rw [(allowed _ isUpload).2] at isExpired
          cases isExpired
      · rcases origin homeRow with ⟨old, isOld, same⟩ | ⟨rfl, homeMember, _, _⟩
        · have oldKey : old.storageKey = blob.storageKey :=
            (congrArg (fun face => face.2.storageKey) same).trans sameKey
          exact absurd (oldKey ▸ holds.named home old isOld) (notSpent isUpload)
        · exact ⟨rfl, congrArg Blob.id
            (List.inj_on_of_nodup_map distinct homeMember member sameKey)⟩
  · intro other key stillOpen isKey
    rw [(requests_committedState other).1] at isKey
    refine holds.fresh other key (fun isSettled => stillOpen ?_) isKey
    exact (requests_committedState other).2.1.mpr (.inr isSettled)
  · intro other key isCondemned
    rcases (requests_committedState other).2.2 key isCondemned with isOld | isNew
    · exact .inl isOld
    · rcases isReplaced key isNew with ⟨isUpload, sameBlobs⟩
      refine .inr ⟨.inl (spentNow isUpload), fun home blob row isKey => ?_⟩
      have isOld : ∃ old, HasRow system home old ∧ old.face = blob.face := by
        have written : HasRow (system.setTables id committed.db) home blob :=
          ⟨row.created, row.member⟩
        rcases hasRow_setTables written with ⟨rfl, member⟩ | isOld
        · rcases sameBlobs blob member with ⟨old, isOld, same⟩
          exact ⟨old, ⟨created, isOld⟩, same⟩
        · exact ⟨blob, isOld, rfl⟩
      rcases isOld with ⟨old, isOld, same⟩
      have oldKey : old.storageKey = key :=
        (congrArg (fun face => face.2.storageKey) same).trans isKey
      exact notSpent isUpload (oldKey ▸ holds.named home old isOld)

/-- The rows of deleted orphans go. Ids are drawn apart, so they are rows of one namespace. -/
theorem unreferenced_of_deleted (holds : Collecting deployment system) {run : Nat} {ids : List Uuid}
    (deleted : ∀ blobId ∈ ids, blobId ∈ (system.blobRuns run).deletedIds) {id : Nat} {blob : Blob}
    (row : HasRow system id blob) (isId : blob.id ∈ ids) :
    blob.referenceCount = 0 ∧ system.present blob.storageKey = false := by
  have plan := holds.blobRuns run
  rcases plan.deletedIds blob.id (deleted blob.id isId) with ⟨key, isOrphan, isGone⟩
  rcases plan.orphans blob.id key isOrphan with ⟨home, orphaned⟩
  rcases orphaned.unreferenced.drawn with ⟨homeDraw, _, isHome⟩
  rcases (holds.consistent id row.created).issued.blobs blob.id
    (List.mem_map_of_mem row.member) with ⟨draw, _, isDraw⟩
  have sameHome : id = home := deployment.drawnApart id home draw homeDraw
    (isDraw.symm.trans isHome)
  subst sameHome
  refine ⟨holds.zero_of_orphaned orphaned row.member rfl, ?_⟩
  rw [orphaned.named blob row.member rfl]
  exact isGone

theorem deleteBlobRows (holds : Collecting deployment system) {run : Nat} {ids : List Uuid}
    (deleted : ∀ blobId ∈ ids, blobId ∈ (system.blobRuns run).deletedIds) :
    Collecting deployment
      { system with tables := fun id => Storix.deleteBlobRows (system.tables id) ids } := by
  have sameRows : ∀ {id blob}, HasRow { system with
      tables := fun id => Storix.deleteBlobRows (system.tables id) ids } id blob →
      HasRow system id blob := by
    intro id blob row
    exact ⟨row.created, List.mem_of_mem_filter row.member⟩
  have later : Advance deployment system { system with
      tables := fun id => Storix.deleteBlobRows (system.tables id) ids } :=
    { clock := Nat.le_refl _
      written := fun _ isWritten => isWritten
      gone := fun _ _ isGone => isGone
      expired := fun _ isExpired => isExpired
      requests := fun _ _ _ isKey => ⟨isKey, fun isSettled => isSettled⟩
      tables := by
        intro id created
        refine ⟨created, .tail (.refl _) (.collect ids fun blob member isId => ?_)⟩
        exact (holds.unreferenced_of_deleted deleted ⟨created, member⟩ isId).1
      rows := fun id blob row => .inl ⟨blob, sameRows row, rfl⟩ }
  refine holds.advance later (fun id created isNew => absurd created isNew) holds.owned
    holds.apart ?_ (fun _ _ _ _ isPresent => isPresent) holds.fresh (fun _ _ => .inl)
    (fun _ => .inl rfl) fun _ => .inl rfl
  intro id blob row isOpen
  exact absurd (.inl (holds.named id blob (sameRows row))) isOpen

theorem checkUpload (holds : Collecting deployment system) {request : Nat} {key : JsString}
    {readable : Bool} {error : RequestError}
    (certain : (system.requests request).phase = .settled ∨
      (system.requests request).phase = .uncertain ∧ error.leavesCommitOpen = true)
    (isKey : key ∈ (system.requests request).keys)
    (deletes : deletesUpload (!readable || system.known key) error = true) :
    Spent system key ∧ ∀ id blob, HasRow system id blob → blob.storageKey ≠ key := by
  cases error with
  | other => cases deletes
  | domain status =>
      unfold deletesUpload at deletes
      rw [Bool.and_eq_true, decide_eq_true_eq, Bool.not_eq_true', Bool.or_eq_false_iff] at deletes
      rcases certain with isSettled | ⟨_, leavesOpen⟩
      · refine ⟨⟨holds.owned request key isKey, fun other isOther => ?_⟩,
          fun id blob row same => ?_⟩
        · rw [holds.apart other request key isOther isKey]
          exact isSettled
        · have isKnown := known_eq_true.mpr ⟨id, blob, row, same⟩
          rw [deletes.1.2] at isKnown
          cases isKnown
      · unfold RequestError.leavesCommitOpen at leavesOpen
        rw [decide_eq_true_eq] at leavesOpen
        omega

end Collecting

/-! ## Every step -/

structure Kept (deployment : Deployment) (system next : ContentSystem) : Prop where
  collecting : Collecting deployment next
  deleted : ∀ key, system.present key = true → next.present key = false →
    ∀ id blob, HasRow system id blob → blob.storageKey = key → blob.referenceCount = 0
  removed : ∀ id blob, HasRow system id blob →
    (∀ later, HasRow next id later → later.id ≠ blob.id) →
    blob.referenceCount = 0 ∧ system.objects blob.storageKey ≠ none ∧
      system.present blob.storageKey = false

theorem Kept.of_additive (collecting : Collecting deployment next)
    (present : ∀ key, system.present key = true → next.present key = true)
    (rows : ∀ id blob, HasRow system id blob → ∃ later, HasRow next id later ∧ later.id = blob.id) :
    Kept deployment system next where
  collecting := collecting
  deleted := by
    intro key isPresent isGone
    rw [present key isPresent] at isGone
    cases isGone
  removed := by
    intro id blob row gone
    rcases rows id blob row with ⟨later, isLater, same⟩
    exact absurd same (gone later isLater)

theorem Kept.of_same (collecting : Collecting deployment next)
    (objects : next.objects = system.objects) (tables : next.tables = system.tables)
    (namespaces : next.namespaces = system.namespaces) : Kept deployment system next := by
  refine .of_additive collecting (fun key isPresent => ?_) fun id blob row => ?_
  · unfold present at isPresent ⊢
    rwa [objects]
  · exact ⟨blob, ⟨namespaces ▸ row.created, tables ▸ row.member⟩, rfl⟩

theorem Kept.of_deleteObject {key : JsString} (collecting : Collecting deployment next)
    (objects : next.objects = (system.deleteObject key).objects)
    (tables : next.tables = system.tables) (namespaces : next.namespaces = system.namespaces)
    (unreferenced : ∀ id blob, HasRow system id blob → blob.storageKey = key →
      blob.referenceCount = 0) : Kept deployment system next where
  collecting := collecting
  deleted := by
    intro other isPresent isGone id blob row isKey
    refine unreferenced id blob row (isKey.trans ?_)
    by_contra different
    have same : next.present other = (system.deleteObject key).present other := by
      unfold present
      rw [objects]
    rw [same, present_deleteObject, decide_eq_true different, isPresent] at isGone
    cases isGone
  removed := by
    intro id blob row gone
    exact absurd rfl (gone blob ⟨namespaces ▸ row.created, tables ▸ row.member⟩)

theorem Kept.of_setTables {id : Nat} {db : Database}
    (collecting : Collecting deployment (system.setTables id db))
    (sameBlobs : db.blobs = (system.tables id).blobs) :
    Kept deployment system (system.setTables id db) := by
  refine .of_additive collecting (fun key isPresent => isPresent) fun other blob row => ?_
  refine ⟨blob, ⟨row.created, ?_⟩, rfl⟩
  unfold setTables
  dsimp only
  by_cases same : other = id
  · subst same
    rw [Function.update_self, sameBlobs]
    exact row.member
  · rw [Function.update_of_ne same]
    exact row.member

theorem Collecting.commit (holds : Collecting deployment system) {request id : Nat}
    {mutation : Mutation (deployment.hostOf id)}
    {afterBump : MutationTx → Unit → List AffectedRevision → Except VfsError Unit}
    (taken : system.commit request id mutation afterBump = some next) :
    Kept deployment system next := by
  unfold ContentSystem.commit at taken
  dsimp only at taken
  split at taken
  · rename_i guard
    split at taken
    · cases taken
    · rename_i committed result
      split at taken
      · rename_i distinct
        cases taken
        rcases guard with ⟨created, isOpen, allowed⟩
        have consistent := holds.consistent id created
        refine .of_additive (holds.committed created isOpen allowed result distinct ?_)
          (fun key isPresent => isPresent) ?_
        · intro key isReplaced
          split at isReplaced
          · exact Mutation.replacedUpload_blobs consistent result isReplaced
          · cases isReplaced
        · intro other blob row
          by_cases same : other = id
          · subst same
            rcases Mutation.run_keeps_blobs consistent result row.member with ⟨later, isLater, isId⟩
            refine ⟨later, ⟨row.created, ?_⟩, isId⟩
            change later ∈ (Function.update system.tables other committed.db other).blobs
            rwa [Function.update_self]
          · refine ⟨blob, ⟨row.created, ?_⟩, rfl⟩
            change blob ∈ (Function.update system.tables id committed.db other).blobs
            rw [Function.update_of_ne same]
            exact row.member
      · cases taken
  · cases taken

theorem Collecting.step (holds : Collecting deployment system) {action : ContentAction deployment}
    (taken : system.next action = some next) : Kept deployment system next := by
  cases action with
  | tick elapsed =>
      cases taken
      refine .of_same (holds.quiet (Nat.le_add_right _ _) rfl rfl rfl (fun _ => rfl)
        (fun _ isSettled => isSettled) (fun _ _ => .inl) (fun _ => .inl rfl) fun _ => .inl rfl)
        rfl rfl rfl
  | createNamespace id settings =>
      unfold ContentSystem.next at taken
      dsimp only at taken
      split at taken
      · cases taken
      · rename_i isNew
        cases taken
        refine .of_additive (holds.createNamespace isNew settings) (fun key isPresent => isPresent)
          fun other blob row => ⟨blob, ⟨List.mem_cons_of_mem _ row.created, ?_⟩, rfl⟩
        have different : other ≠ id := by
          rintro rfl
          exact isNew row.created
        unfold ContentSystem.setTables
        dsimp only
        rw [Function.update_of_ne different]
        exact row.member
  | putObject request key =>
      unfold ContentSystem.next at taken
      dsimp only at taken
      split at taken
      · rename_i guard
        cases taken
        refine .of_additive (holds.putObject guard.2) (fun other isPresent => ?_)
          fun id blob row => ⟨blob, ⟨row.created, row.member⟩, rfl⟩
        have different : other ≠ key := by
          rintro rfl
          exact present_ne_none isPresent guard.2
        unfold present at isPresent ⊢
        rwa [Collecting.objects_putObject different]
      · cases taken
  | commit request id mutation afterBump => exact holds.commit taken
  | rollback request =>
      cases taken
      exact .of_same (holds.setRequest request rfl (fun _ => rfl) fun _ => .inl) rfl rfl rfl
  | loseCommit request =>
      unfold ContentSystem.next at taken
      dsimp only at taken
      split at taken
      · rename_i isWorking
        cases taken
        refine .of_same (holds.setRequest request rfl (fun isSettled => ?_) fun _ => .inl)
          rfl rfl rfl
        rw [isWorking] at isSettled
        cases isSettled
      · cases taken
  | checkUpload request key readable error =>
      unfold ContentSystem.next at taken
      dsimp only at taken
      split at taken
      · rename_i guard
        split at taken
        · rename_i deletes
          cases taken
          have decided := holds.checkUpload guard.1 guard.2 deletes
          refine .of_same (holds.setRequest request rfl (fun isSettled => isSettled) ?_) rfl rfl rfl
          intro other isCondemned
          rcases List.mem_cons.mp isCondemned with rfl | isOld
          · exact .inr decided
          · exact .inl isOld
        · cases taken
          exact .of_same holds rfl rfl rfl
      · cases taken
  | deleteUpload request key =>
      unfold ContentSystem.next at taken
      dsimp only at taken
      split at taken
      · rename_i isCondemned
        cases taken
        have dead := holds.condemned request key isCondemned
        exact .of_deleteObject (holds.deleteDead dead) rfl rfl rfl
          fun id blob row isKey => absurd isKey (dead.unnamed id blob row)
      · cases taken
  | checkpoint id =>
      unfold ContentSystem.next at taken
      dsimp only at taken
      split at taken
      · rename_i created
        split at taken
        · rename_i cursor db issued
          cases taken
          rcases createChangeFeedCheckpoint_eq_ok issued with ⟨feed, rfl, _⟩
          exact .of_setTables
            (holds.setTables created (.tail (.refl _) (.checkpoint issued)) rfl) rfl
        · cases taken
      · cases taken
  | prune id cutoff batchSize =>
      unfold ContentSystem.next at taken
      dsimp only at taken
      split at taken
      · rename_i created
        rcases Option.map_eq_some_iff.mp taken with ⟨db, pruned, rfl⟩
        rcases pruneNamespacePrefix_tables pruned with ⟨feedState, feedEvents, rfl⟩
        exact .of_setTables
          (holds.setTables created (.tail (.refl _) (.prune cutoff batchSize pruned)) rfl) rfl
      · cases taken
  | startObjectRun run =>
      cases taken
      exact .of_same (holds.setObjectRun run ⟨Nat.le_refl _, nofun, nofun⟩) rfl rfl rfl
  | listPage run page =>
      cases taken
      exact .of_same (holds.setObjectRun run (holds.listPage run page)) rfl rfl rfl
  | findKnown run =>
      cases taken
      exact .of_same (holds.setObjectRun run (holds.findKnown run)) rfl rfl rfl
  | deleteKey run key =>
      unfold ContentSystem.next at taken
      dsimp only at taken
      split at taken
      · rename_i isCondemned
        cases taken
        have dead := (holds.objectRuns run).condemned key isCondemned
        exact .of_deleteObject (holds.deleteDead dead) rfl rfl rfl
          fun id blob row isKey => absurd isKey (dead.unnamed id blob row)
      · cases taken
  | startBlobRun run =>
      cases taken
      exact .of_same (holds.setBlobRun run ⟨nofun, nofun⟩) rfl rfl rfl
  | findOrphanBlobsPage run page =>
      unfold ContentSystem.next at taken
      dsimp only at taken
      split at taken
      · rename_i isPage
        cases taken
        exact .of_same (holds.setBlobRun run (holds.findOrphanBlobsPage run isPage)) rfl rfl rfl
      · cases taken
  | deleteOrphan run id key acknowledged =>
      unfold ContentSystem.next at taken
      dsimp only at taken
      split at taken
      · rename_i isOrphan
        cases taken
        rcases (holds.blobRuns run).orphans id key isOrphan with ⟨home, orphaned⟩
        refine .of_deleteObject (holds.deleteOrphan isOrphan acknowledged) rfl rfl rfl ?_
        intro other blob row isKey
        rcases orphaned.only other blob row isKey with ⟨rfl, isId⟩
        exact holds.zero_of_orphaned orphaned row.member isId
      · cases taken
  | deleteBlobRows run ids =>
      unfold ContentSystem.next at taken
      dsimp only at taken
      split at taken
      · rename_i deleted
        cases taken
        refine ⟨holds.deleteBlobRows deleted, fun key isPresent isGone => ?_,
          fun id blob row gone => ?_⟩
        · change system.present key = false at isGone
          rw [isPresent] at isGone
          cases isGone
        · have isId : blob.id ∈ ids := by
            by_contra isKept
            refine gone blob ⟨row.created, List.mem_filter.mpr ⟨row.member, ?_⟩⟩ rfl
            simpa using isKept
          rcases holds.unreferenced_of_deleted deleted row isId with ⟨zero, isGone⟩
          exact ⟨zero, (holds.named id blob row).written, isGone⟩
      · cases taken

theorem Collecting.of_reachable (reached : (contentMachine deployment).Reachable system) :
    Collecting deployment system :=
  reached.invariant (Collecting deployment) (fun _ start => initial start)
    fun _ _ _ _ holds taken => (holds.step taken).collecting

end ContentSystem

theorem live_content_kept (reached : (contentMachine deployment).Reachable system) :
    (∀ id blob, system.HasRow id blob → 1 ≤ blob.referenceCount →
      system.present blob.storageKey = true) ∧
    ∀ action next, (contentMachine deployment).next system action = some next →
      (∀ key, system.present key = true → next.present key = false →
        ∀ id blob, system.HasRow id blob → blob.storageKey = key → blob.referenceCount = 0) ∧
      ∀ id blob, system.HasRow id blob →
        (∀ later, next.HasRow id later → later.id ≠ blob.id) →
        blob.referenceCount = 0 ∧ system.objects blob.storageKey ≠ none ∧
          system.present blob.storageKey = false := by
  have holds := ContentSystem.Collecting.of_reachable reached
  refine ⟨holds.live, fun action next taken => ?_⟩
  have kept := holds.step taken
  exact ⟨kept.deleted, kept.removed⟩

namespace Small

def numbered (number : Nat) : Host :=
  { Host.counting with
    randomUUID := Nat.pair number
    randomUUID_injective := fun _ _ same => (Nat.pair_eq_pair.mp same).2 }

def installation : Deployment where
  hostOf := numbered
  drawnApart := fun _ _ _ _ same => (Nat.pair_eq_pair.mp same).1
  gracePeriod := 10

/-- `/f` -/
def topFile : NodePath (numbered 0) :=
  ⟨⟨[[0x66]], by decide +kernel⟩, by simp⟩

def upload (key : JsString) : BlobData := { blob with storageKey := key }

def noHook (_ : MutationTx) (_ : Unit) (_ : List AffectedRevision) : Except VfsError Unit := .ok ()

def firstContent : Blob where
  toBlobData := upload [0x61]
  id := Nat.pair 0 1
  referenceCount := 0
  zeroSince := some 1
  createdAt := 0

/-- A file is written and written again, and the job takes the object of the first
content. -/
def replacement : List (ContentAction installation) :=
  [.createNamespace 0 settings, .putObject 0 [0x61],
    .commit 0 0 (.put topFile false (upload [0x61]) none false none) noHook,
    .tick 1, .putObject 1 [0x62],
    .commit 1 0 (.put topFile false (upload [0x62]) none true none) noHook,
    .tick 20, .startBlobRun 0,
    .findOrphanBlobsPage 0 [(0, firstContent)],
    .deleteOrphan 0 (Nat.pair 0 1) [0x61] true]

def contentStart : ContentSystem where
  clock := 0
  namespaces := []
  tables := fun _ => empty
  objects := fun _ => none
  requests := fun _ => ⟨[], .working, []⟩
  objectRuns := fun _ => ⟨0, [], []⟩
  blobRuns := fun _ => ⟨0, [], []⟩

end Small

/-- The job deleted the object of the replaced content, whose row may go; the object of the
present content is there. -/
theorem live_content_kept_replaced :
    ∃ system : ContentSystem,
      (system.tables 0).blobs.map (fun blob => (blob.storageKey, blob.referenceCount)) =
        [([0x61], 0), ([0x62], 1)] ∧
      system.present [0x61] = false ∧
      (∀ blob ∈ (system.tables 0).blobs, 1 ≤ blob.referenceCount →
        system.present blob.storageKey = true) ∧
      ∃ next, (contentMachine Small.installation).next system (.deleteBlobRows 0 [Nat.pair 0 1]) =
        some next := by
  have passes : (((contentMachine Small.installation).trace Small.contentStart
      Small.replacement).any fun system =>
        decide (system.namespaces = [0]) && decide ((system.tables 0).blobs.map
          (fun blob => (blob.storageKey, blob.referenceCount)) = [([0x61], 0), ([0x62], 1)]) &&
        !system.present [0x61] &&
        decide (Nat.pair 0 1 ∈ (system.blobRuns 0).deletedIds)) = true := by decide +kernel
  have start : (contentMachine Small.installation).Reachable Small.contentStart :=
    .start ⟨rfl, fun _ => rfl, fun _ => rfl, fun _ => rfl, fun _ => rfl⟩
  rcases Machine.exists_reachable start passes with ⟨system, reached, test⟩
  simp only [Bool.and_eq_true, decide_eq_true_eq, Bool.not_eq_true'] at test
  rcases test with ⟨⟨⟨created, rows⟩, gone⟩, deleted⟩
  refine ⟨system, rows, gone, fun blob member => ?_, _, if_pos ?_⟩
  · exact (live_content_kept reached).1 0 blob ⟨by simp [created], member⟩
  · intro id isId
    exact List.mem_singleton.mp isId ▸ deleted

end Storix
