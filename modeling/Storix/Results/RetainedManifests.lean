import Storix.Invariants.Retained
import Storix.Persistence.Lists
import Storix.Results.Frames
import Mathlib.Logic.Relation

/-! # Retained manifests

A snapshot, or an item of the trash, stays as it was stored until a request takes it away:
through every run of other transactions its row and its entries are the same, and the content
of its files is there. -/

namespace Storix

open Foundation Foundation.Command Relation

variable {host : Host} {db middle next : Database} {id : Uuid}

/-- A committed transaction that does not take the manifest of `id` away. -/
inductive SparingStep (host : Host) (id : Uuid) : Database → Database → Prop
  | mutation {db : Database} {committed : Committed Unit} (mutation : Mutation host) (now : Nat)
      (afterBump : MutationTx → Unit → List AffectedRevision → Except VfsError Unit)
      (result : mutation.run now afterBump db = .ok committed) (spares : ¬mutation.forgets id) :
      SparingStep host id db committed.db
  | checkpoint {db next : Database} {cursor : Nat}
      (issued : createChangeFeedCheckpoint db = .ok (cursor, next)) : SparingStep host id db next
  | prune {db next : Database} (cutoff batchSize : Nat)
      (pruned : pruneNamespacePrefix db cutoff batchSize = some next) : SparingStep host id db next
  | collect {db : Database} (ids : List Uuid)
      (orphaned : ∀ blob ∈ db.blobs, blob.id ∈ ids → blob.referenceCount = 0) :
      SparingStep host id db (deleteBlobRows db ids)

theorem SparingStep.step (taken : SparingStep host id db next) : Step host db next := by
  cases taken with
  | mutation mutation now afterBump result => exact .mutation mutation now afterBump result
  | checkpoint issued => exact .checkpoint issued
  | prune cutoff batchSize pruned => exact .prune cutoff batchSize pruned
  | collect ids orphaned => exact .collect ids orphaned

theorem SparingStep.after (mutation : Mutation host) (spares : ¬mutation.forgets id) (now : Nat)
    (db : Database) : ReflTransGen (SparingStep host id) db (mutation.after now db) := by
  unfold Mutation.after
  split
  · rename_i committed result
    exact .single (.mutation mutation now _ result spares)
  · exact .refl

theorem reachable_of_sparing (reached : Reachable host db)
    (run : ReflTransGen (SparingStep host id) db next) : Reachable host next := by
  induction run with
  | refl => exact reached
  | tail _ taken induction => exact .step induction taken.step

def Database.Retained (db : Database) (id : Uuid) : Prop :=
  id ∈ db.snapshots.map Snapshot.id ∨ id ∈ db.trash.map TrashItem.id

def Database.retainedBlobs (db : Database) (id : Uuid) : List Uuid :=
  manifestBlobs (db.trashEntries.filter fun entry => entry.trashId = id) ++
    snapshotBlobs (db.snapshotEntries.filter fun entry => entry.snapshotId = id)

/-- The manifest of `id` is the same in both states, and so is the content it refers to. -/
structure SameManifest (id : Uuid) (db next : Database) : Prop where
  rows : next.manifests id = db.manifests id
  contents : ∀ blob ∈ db.blobs, blob.id ∈ db.retainedBlobs id →
    ∃ later ∈ next.blobs, later.face = blob.face

/-! ## What the manifest decides -/

theorem retained_congr (same : next.manifests id = db.manifests id) (retained : db.Retained id) :
    next.Retained id := by
  unfold Database.manifests at same
  simp only [Prod.mk.injEq] at same
  cases retained with
  | inl isSnapshot =>
      rcases List.mem_map.mp isSnapshot with ⟨snapshot, member, rfl⟩
      have kept : snapshot ∈ next.snapshots.filter fun other => other.id = snapshot.id := by
        rw [same.1]
        exact List.mem_filter.mpr ⟨member, decide_eq_true rfl⟩
      exact .inl (List.mem_map_of_mem (List.mem_filter.mp kept).1)
  | inr isItem =>
      rcases List.mem_map.mp isItem with ⟨item, member, rfl⟩
      have kept : item ∈ next.trash.filter fun other => other.id = item.id := by
        rw [same.2.2.1]
        exact List.mem_filter.mpr ⟨member, decide_eq_true rfl⟩
      exact .inr (List.mem_map_of_mem (List.mem_filter.mp kept).1)

theorem retainedBlobs_congr (same : next.manifests id = db.manifests id) :
    next.retainedBlobs id = db.retainedBlobs id := by
  unfold Database.manifests at same
  simp only [Prod.mk.injEq] at same
  rw [Database.retainedBlobs, Database.retainedBlobs, same.2.1, same.2.2.2]

theorem find?_of_key {α : Type} {key : α → Uuid} {test : α → Bool} (items : List α) (id : Uuid) :
    (items.find? fun item => key item == id && test item) =
      (items.filter fun item => key item = id).find? test := by
  rw [List.find?_filter]
  congr 1
  funext item
  simp [Bool.decide_and, beq_eq_decide]

theorem getFileEntry_congr (same : next.manifests id = db.manifests id) :
    getFileEntry next id = getFileEntry db id := by
  unfold Database.manifests at same
  simp only [Prod.mk.injEq] at same
  have entries : ∀ tables : Database, (tables.snapshotEntries.find? fun entry =>
      entry.snapshotId == id && entry.relativePath == dot && entry.type == .file) =
      (tables.snapshotEntries.filter fun entry => entry.snapshotId = id).find? fun entry =>
        entry.relativePath == dot && entry.type == .file := by
    intro tables
    rw [← find?_of_key]
    simp only [Bool.and_assoc]
  unfold getFileEntry
  rw [find?_of_key, find?_of_key, entries, entries, same.1, same.2.1]

theorem listSnapshotEntries_congr (same : next.manifests id = db.manifests id)
    (after : Option JsString) (limit : Nat) :
    listSnapshotEntries next id after limit = listSnapshotEntries db id after limit := by
  unfold Database.manifests at same
  simp only [Prod.mk.injEq] at same
  rw [listSnapshotEntries, listSnapshotEntries, same.2.1]

/-! ## Steps and runs -/

theorem Consistent.drawn_of_retained (consistent : Consistent host db)
    (retained : db.Retained id) : Drawn host db.issued id := by
  cases retained with
  | inl isSnapshot => exact consistent.issued.snapshots id isSnapshot
  | inr isItem => exact consistent.issued.trash id isItem

theorem mem_references_of_retained {blobId : Uuid} (member : blobId ∈ db.retainedBlobs id) :
    blobId ∈ db.references := by
  unfold Database.references
  cases List.mem_append.mp member with
  | inl inTrash =>
      apply List.mem_append_left
      apply List.mem_append_right
      exact ((List.filter_sublist.filter _).filterMap _).subset inTrash
  | inr inSnapshot =>
      apply List.mem_append_right
      exact (List.filter_sublist.filterMap _).subset inSnapshot

theorem SameManifest.refl (id : Uuid) (db : Database) : SameManifest id db db :=
  ⟨rfl, fun blob member _ => ⟨blob, member, rfl⟩⟩

theorem SameManifest.trans (first : SameManifest id db middle)
    (second : SameManifest id middle next) : SameManifest id db next where
  rows := second.rows.trans first.rows
  contents := by
    intro blob member refers
    rcases first.contents blob member refers with ⟨held, isHeld, heldFace⟩
    have sameId : held.id = blob.id := congrArg Prod.fst heldFace
    rw [← retainedBlobs_congr first.rows, ← sameId] at refers
    rcases second.contents held isHeld refers with ⟨later, isLater, laterFace⟩
    exact ⟨later, isLater, laterFace.trans heldFace⟩

theorem SparingStep.sameManifest (consistent : Consistent host db) (retained : db.Retained id)
    (taken : SparingStep host id db next) : SameManifest id db next := by
  cases taken with
  | mutation mutation now afterBump result spares =>
      constructor
      · apply (Mutation.run_retains result).2 id (consistent.drawn_of_retained retained) spares
      · intro blob member _
        rcases Mutation.run_eq_ok consistent result with ⟨tx, wrote, finished⟩
        exact wrote.keeps_blob finished member
  | checkpoint issued =>
      rcases createChangeFeedCheckpoint_eq_ok issued with ⟨feed, rfl, _⟩
      exact ⟨rfl, fun blob member _ => ⟨blob, member, rfl⟩⟩
  | prune cutoff batchSize pruned =>
      rcases pruneNamespacePrefix_tables pruned with ⟨feedState, feedEvents, rfl⟩
      exact ⟨rfl, fun blob member _ => ⟨blob, member, rfl⟩⟩
  | collect ids orphaned =>
      constructor
      · rfl
      · intro blob member refers
        have live := consistent.refs.live_of_mem member (mem_references_of_retained refers)
        refine ⟨blob, List.mem_filter.mpr ⟨member, ?_⟩, rfl⟩
        simp only [Bool.not_eq_true', List.contains_eq_mem, decide_eq_false_iff_not]
        intro collected
        rw [orphaned blob member collected] at live
        exact absurd live (Int.lt_irrefl 0)

theorem sameManifest_of_run (reached : Reachable host db) (retained : db.Retained id)
    (run : ReflTransGen (SparingStep host id) db next) :
    SameManifest id db next ∧ next.Retained id := by
  induction run with
  | refl => exact ⟨.refl id db, retained⟩
  | tail run taken induction =>
      rcases induction with ⟨same, stillRetained⟩
      have step := taken.sameManifest (reachable_of_sparing reached run).consistent stillRetained
      exact ⟨same.trans step, retained_congr step.rows stillRetained⟩

/-- Whatever is committed after a snapshot or a removal to the trash, short of taking it away
again: its row and its entries are unchanged, every blob that an entry refers to is still there
with its content and a positive reference count, and it reads back as before. -/
theorem retained_manifests_stay (reached : Reachable host db) (retained : db.Retained id)
    (run : ReflTransGen (SparingStep host id) db next) :
    next.manifests id = db.manifests id ∧
      (∀ blobId ∈ db.retainedBlobs id, ∃ old ∈ db.blobs, ∃ new ∈ next.blobs,
        old.id = blobId ∧ new.face = old.face ∧ 0 < new.referenceCount) ∧
      getFileEntry next id = getFileEntry db id ∧
      ∀ after limit, listSnapshotEntries next id after limit =
        listSnapshotEntries db id after limit := by
  rcases sameManifest_of_run reached retained run with ⟨same, _⟩
  refine ⟨same.rows, ?_, getFileEntry_congr same.rows, listSnapshotEntries_congr same.rows⟩
  intro blobId refers
  rcases reached.consistent.refs.present blobId (mem_references_of_retained refers) with
    ⟨old, isOld, rfl⟩
  rcases same.contents old isOld refers with ⟨new, isNew, face⟩
  have sameId : new.id = old.id := congrArg Prod.fst face
  have later : new.id ∈ next.retainedBlobs id := by
    rw [sameId, retainedBlobs_congr same.rows]
    exact refers
  have nextConsistent := (reachable_of_sparing reached run).consistent
  exact ⟨old, isOld, new, isNew, rfl, face,
    nextConsistent.refs.live_of_mem isNew (mem_references_of_retained later)⟩

namespace Small

/-- `/d/f` is written again after `/d` went to the trash. -/
def rewritten : Database :=
  (Mutation.put file true blob none false none).after 3 removed

/-- The trash keeps the content of the first file. -/
theorem retained_manifests_stay_rewritten :
    ∃ item ∈ removed.trash, rewritten.manifests item.id = removed.manifests item.id ∧
      ∃ blobId ∈ removed.retainedBlobs item.id, ∃ new ∈ rewritten.blobs,
        new.id = blobId ∧ 0 < new.referenceCount := by
  cases isTrash : removed.trash with
  | nil =>
      have filled : removed.trash.isEmpty = false := by decide +kernel
      rw [isTrash] at filled
      cases filled
  | cons item rest =>
      have member : item ∈ removed.trash := isTrash ▸ List.mem_cons_self
      have retained : removed.Retained item.id := .inr (List.mem_map_of_mem member)
      have isId : item.id = 4 := by
        have ids : removed.trash.map TrashItem.id = [4] := by decide +kernel
        rw [isTrash] at ids
        exact (List.cons.inj ids).1
      have refers : 2 ∈ removed.retainedBlobs item.id := by
        rw [isId]
        decide +kernel
      have run : ReflTransGen (SparingStep Host.counting item.id) removed rewritten :=
        SparingStep.after (.put file true blob none false none) not_false 3 removed
      rcases retained_manifests_stay reachable_removed retained run with ⟨same, contents, _⟩
      rcases contents 2 refers with ⟨old, _, new, isNew, sameId, face, live⟩
      exact ⟨item, List.mem_cons_self, same, 2, refers, new, isNew,
        (congrArg Prod.fst face).trans sameId, live⟩

end Small

end Storix
