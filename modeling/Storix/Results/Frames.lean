import Storix.Results.Versions

/-! # Frames

A transaction leaves every subtree alone that is apart from the paths its request names:
the places, the rows and the content of the files stay. -/

namespace Storix

open Foundation Foundation.Command

variable {host : Host} {db next : Database} {there : List JsString}

/-! ## The paths of a request -/

def conditionalNames : ConditionalMutation host → List JsString → Prop
  | .mkdir path, named => named = path.segments
  | .delete path _ _, named => named = path.segments
  | .persist path _, named => named = path.segments
  | .setMimeType path _ _, named => named = path.segments
  | .move source destination _ _, named =>
      named = source.segments ∨ named = destination.segments
  | .copy _ destination _ _ _, named => named = destination.segments

/-- The paths of a request that it changes something at or below. What a copy or a snapshot
only reads is not among them. -/
def Mutation.names (db : Database) : Mutation host → List JsString → Prop
  | .mkdir path _, named => named = path.segments
  | .touch path _ _, named => named = path.segments
  | .put path _ _ _ _ _, named => named = path.segments
  | .putConditional path _ _, named => named = path.segments
  | .conditional command, named => conditionalNames command named
  | .move source destination _ _ _, named =>
      named = source.segments ∨ named = destination.segments
  | .copy _ destination _ _ _ _, named => named = destination.segments
  | .remove path _ _, named => named = path.segments
  | .removeEmptyDirectory path, named => named = path.segments
  | .expire nodeId _, named => PathOf db.nodes nodeId named
  | .restoreTrash trashId target, named =>
      named = restorePath db trashId (target.map fun path => path.canonical)
  | .restoreSnapshot _ path _, named => named = path.segments
  | .extract request, named => named = request.destination.segments
  | .purgeTrash _, _ => False
  | .createSnapshot _ _ _, _ => False
  | .removeSnapshot _, _ => False
  | .configure _, _ => False

structure ApartPaths (left right : List JsString) : Prop where
  notAbove : ¬left <+: right
  notBelow : ¬right <+: left

/-- What is at or below one of two paths that are apart is apart from the other. -/
theorem ApartPaths.below {left right path : List JsString} (apart : ApartPaths left right)
    (inside : right <+: path) : ApartPaths left path where
  notAbove above := by
    rcases List.prefix_or_prefix_of_prefix above inside with isAbove | isBelow
    · exact apart.notAbove isAbove
    · exact apart.notBelow isBelow
  notBelow below := apart.notBelow (inside.trans below)

theorem ApartPaths.not_aboveScope {named : List JsString} (apart : ApartPaths there named) :
    ¬aboveScope named there :=
  fun above => apart.notAbove (pathScope_of_above above)

theorem ApartPaths.not_moveScope {source destination : List JsString}
    (fromSource : ApartPaths there source)
    (fromDestination : ApartPaths there destination) : ¬moveScope source destination there := by
  rintro ((above | above) | inside)
  · exact fromSource.not_aboveScope above
  · exact fromDestination.notAbove above
  · exact fromSource.notBelow inside

theorem conditional_outside {command : ConditionalMutation host}
    (apart : ∀ named, conditionalNames command named → ApartPaths there named) :
    ¬conditionalScope command there ∧ ¬conditionalRemoves command there := by
  cases command with
  | mkdir path => exact ⟨(apart _ rfl).notAbove, nofun⟩
  | delete path revision recursive =>
      exact ⟨(apart _ rfl).not_aboveScope, (apart _ rfl).notBelow⟩
  | persist path revision => exact ⟨(apart _ rfl).notAbove, nofun⟩
  | setMimeType path revision mimeType => exact ⟨(apart _ rfl).notAbove, nofun⟩
  | move source destination =>
      exact ⟨(apart _ (.inl rfl)).not_moveScope (apart _ (.inr rfl)), nofun⟩
  | copy source destination => exact ⟨(apart _ rfl).notAbove, nofun⟩

/-- A request marks and removes nothing at a path that is apart from those it names. -/
theorem Mutation.outside {mutation : Mutation host}
    (apart : ∀ named, mutation.names db named → ApartPaths there named) :
    ¬mutation.addresses db there ∧ ¬mutation.removes db there := by
  cases mutation with
  | mkdir path parents => exact ⟨(apart _ rfl).notAbove, nofun⟩
  | touch path parents emptyBlob => exact ⟨(apart _ rfl).notAbove, nofun⟩
  | put path parents blob ifMatchVersion force expiresAt => exact ⟨(apart _ rfl).notAbove, nofun⟩
  | putConditional path condition blob => exact ⟨(apart _ rfl).notAbove, nofun⟩
  | conditional command => exact conditional_outside apart
  | move source destination =>
      exact ⟨(apart _ (.inl rfl)).not_moveScope (apart _ (.inr rfl)), nofun⟩
  | copy source destination => exact ⟨(apart _ rfl).notAbove, nofun⟩
  | remove path recursive limit => exact ⟨(apart _ rfl).not_aboveScope, (apart _ rfl).notBelow⟩
  | removeEmptyDirectory path => exact ⟨(apart _ rfl).not_aboveScope, (apart _ rfl).notBelow⟩
  | expire nodeId cutoff =>
      constructor
      · rintro ⟨path, reached, above⟩
        exact (apart path reached).not_aboveScope above
      · rintro ⟨path, reached, inside⟩
        exact (apart path reached).notBelow inside
  | restoreTrash trashId target =>
      refine ⟨?_, nofun⟩
      rintro (above | inside)
      · exact (apart _ rfl).notAbove above
      · exact (apart _ rfl).notBelow inside
  | purgeTrash trashId => exact ⟨nofun, nofun⟩
  | createSnapshot path kind sourceRevision => exact ⟨nofun, nofun⟩
  | removeSnapshot snapshotId => exact ⟨nofun, nofun⟩
  | restoreSnapshot snapshotId path condition => exact ⟨(apart _ rfl).notAbove, nofun⟩
  | extract request =>
      refine ⟨?_, (apart _ rfl).notBelow⟩
      rintro ⟨entries, _, above | ⟨entry, _, above⟩⟩
      · exact (apart _ rfl).notAbove above
      · exact ((apart _ rfl).below (List.prefix_append _ _)).notAbove above
  | configure settings => exact ⟨nofun, nofun⟩

/-! ## A subtree that stays -/

/-- The subtree at a path is the same in both states: the same nodes at the same places, with
the same rows, and the content of its files is there. -/
structure SameTree (db next : Database) (path : List JsString) : Prop where
  places : ∀ id rest, PathOf db.nodes id (path ++ rest) ↔ PathOf next.nodes id (path ++ rest)
  rows : ∀ old ∈ db.nodes, ∀ rest, PathOf db.nodes old.id (path ++ rest) →
    ∃ new ∈ next.nodes, toRecord new = toRecord old ∧ new.parentId = old.parentId
  contents : ∀ old ∈ db.nodes, ∀ rest, PathOf db.nodes old.id (path ++ rest) → old.type = .file →
    ∀ blob ∈ db.blobs, old.blobId = some blob.id → ∃ later ∈ next.blobs, later.face = blob.face

theorem SameTree.refl (db : Database) (path : List JsString) : SameTree db db path where
  places _ _ := Iff.rfl
  rows old member _ _ := ⟨old, member, rfl, rfl⟩
  contents _ _ _ _ _ blob member _ := ⟨blob, member, rfl⟩

theorem SameTree.trans {middle : Database} {path : List JsString}
    (first : SameTree db middle path) (second : SameTree middle next path) :
    SameTree db next path where
  places id rest := (first.places id rest).trans (second.places id rest)
  rows old member rest reached := by
    rcases first.rows old member rest reached with ⟨row, isRow, record, parent⟩
    have sameId : row.id = old.id := congrArg VfsNodeRecord.id record
    rcases second.rows row isRow rest (sameId.symm ▸ (first.places _ _).mp reached) with
      ⟨new, newMember, nextRecord, nextParent⟩
    exact ⟨new, newMember, nextRecord.trans record, nextParent.trans parent⟩
  contents old member rest reached isFile blob isBlob refers := by
    rcases first.rows old member rest reached with ⟨row, isRow, record, _⟩
    rcases first.contents old member rest reached isFile blob isBlob refers with
      ⟨held, isHeld, sameFace⟩
    have sameId : row.id = old.id := congrArg VfsNodeRecord.id record
    have rowFile : row.type = .file := (congrArg VfsNodeRecord.type record).trans isFile
    have sameBlob : held.id = blob.id := congrArg Prod.fst sameFace
    have rowRefers : row.blobId = some held.id := by
      rw [sameBlob]
      exact (congrArg VfsNodeRecord.blobId record).trans refers
    rcases second.contents row isRow rest (sameId.symm ▸ (first.places _ _).mp reached) rowFile
      held isHeld rowRefers with ⟨later, isLater, laterFace⟩
    exact ⟨later, isLater, laterFace.trans sameFace⟩

theorem Wrote.keeps_blob {mutation : Mutation host} {now : Nat} {tx : MutationTx} {blob : Blob}
    (wrote : Wrote mutation now db tx) (finished : Finished host db tx next)
    (member : blob ∈ db.blobs) : ∃ later ∈ next.blobs, later.face = blob.face := by
  rcases finished.tables with ⟨feedState, feedEvents, issued, _, rfl⟩
  rcases wrote.done.blobRows with ⟨added, faces, _⟩
  have kept : blob.face ∈ tx.db.blobs.map Blob.face := by
    rw [faces]
    exact List.mem_append_left _ (List.mem_map_of_mem member)
  exact List.mem_map.mp kept

theorem Mutation.run_sameTree {mutation : Mutation host} {now : Nat}
    {afterBump : MutationTx → Unit → List AffectedRevision → Except VfsError Unit}
    {committed : Committed Unit} (consistent : Consistent host db)
    (result : mutation.run now afterBump db = .ok committed)
    (apart : ∀ named, mutation.names db named → ApartPaths there named) {root : Uuid}
    (found : PathOf db.nodes root there) : SameTree db committed.db there := by
  rcases Mutation.run_eq_ok consistent result with ⟨tx, wrote, finished⟩
  have transition := finished.transition wrote.done
  have nextConsistent := finished.consistent wrote.done
  have outside := Mutation.outside apart
  have unchanged : ¬tx.changed.get root ≠ none := fun marked =>
    outside.1 (transition.allowed root marked there found)
  have stays : root ∈ nodeIds committed.db.nodes := by
    by_contra gone
    rcases PathOf.exists_node found with ⟨node, member, rfl⟩
    refine outside.2 (wrote.done.gone node member (fun live => gone ?_) there found)
    rcases finished.tables with ⟨feedState, feedEvents, issued, _, isNext⟩
    rw [isNext]
    exact (wrote.done.keepsLinks_settled finished.raisable).nodeIds_eq.symm ▸ live
  have place := transition.path consistent.tree nextConsistent.tree stays unchanged there
  refine
    { places := fun id rest => ⟨fun reached => ?_, fun reached => ?_⟩
      rows := fun old member rest reached => ?_
      contents := fun _ _ _ _ _ blob isBlob _ => wrote.keeps_blob finished isBlob }
  · rcases transition.unchanged_below consistent.tree stays unchanged found reached with
      ⟨still, live⟩
    exact (transition.path consistent.tree nextConsistent.tree live still _).mp reached
  · have still := transition.unchanged_below_new nextConsistent.tree unchanged (place.mp found)
      reached
    rcases PathOf.exists_node reached with ⟨node, member, rfl⟩
    exact (transition.path consistent.tree nextConsistent.tree (mem_nodeIds_of_mem member) still
      _).mpr reached
  · rcases transition.unchanged_below consistent.tree stays unchanged found reached with
      ⟨still, live⟩
    rcases transition.record consistent (mem_nodeIds_of_mem member) live still with
      ⟨row, isRow, new, isNew, sameId, record, parent⟩
    rw [consistent.tree.eq_of_id isRow member sameId] at record parent
    exact ⟨new, isNew, record.symm, parent.symm⟩

/-! ## Runs aside -/

/-- A transaction whose request names no path at, above or below `there`. -/
inductive StepAside (host : Host) (there : List JsString) : Database → Database → Prop
  | mutation {db : Database} {committed : Committed Unit} (mutation : Mutation host) (now : Nat)
      (afterBump : MutationTx → Unit → List AffectedRevision → Except VfsError Unit)
      (result : mutation.run now afterBump db = .ok committed)
      (apart : ∀ named, mutation.names db named → ApartPaths there named) :
      StepAside host there db committed.db
  | checkpoint {db next : Database} {cursor : Nat}
      (issued : createChangeFeedCheckpoint db = .ok (cursor, next)) : StepAside host there db next
  | prune {db next : Database} (cutoff batchSize : Nat)
      (pruned : pruneNamespacePrefix db cutoff batchSize = some next) : StepAside host there db next
  | collect {db : Database} (ids : List Uuid)
      (orphaned : ∀ blob ∈ db.blobs, blob.id ∈ ids → blob.referenceCount = 0) :
      StepAside host there db (deleteBlobRows db ids)

theorem StepAside.step (taken : StepAside host there db next) : Step host db next := by
  cases taken with
  | mutation mutation now afterBump result => exact .mutation mutation now afterBump result
  | checkpoint issued => exact .checkpoint issued
  | prune cutoff batchSize pruned => exact .prune cutoff batchSize pruned
  | collect ids orphaned => exact .collect ids orphaned

theorem Consistent.keeps_referenced (consistent : Consistent host db) {ids : List Uuid}
    (orphaned : ∀ blob ∈ db.blobs, blob.id ∈ ids → blob.referenceCount = 0) {old : VfsNode}
    (member : old ∈ db.nodes) (isFile : old.type = .file) {blob : Blob} (isBlob : blob ∈ db.blobs)
    (refers : old.blobId = some blob.id) : blob ∈ (deleteBlobRows db ids).blobs := by
  have referenced : blob.id ∈ db.references := by
    refine List.mem_append_left _ (List.mem_append_left _ ?_)
    exact List.mem_filterMap.mpr ⟨old, List.mem_filter.mpr ⟨member, by simp [isFile]⟩, refers⟩
  have live := consistent.refs.live_of_mem isBlob referenced
  refine List.mem_filter.mpr ⟨isBlob, ?_⟩
  simp only [Bool.not_eq_true', List.contains_eq_mem, decide_eq_false_iff_not]
  intro collected
  rw [orphaned blob isBlob collected] at live
  exact absurd live (Int.lt_irrefl 0)

theorem StepAside.sameTree (consistent : Consistent host db)
    (taken : StepAside host there db next) {root : Uuid} (found : PathOf db.nodes root there) :
    SameTree db next there := by
  cases taken with
  | mutation mutation now afterBump result apart =>
      exact Mutation.run_sameTree consistent result apart found
  | checkpoint issued =>
      rcases createChangeFeedCheckpoint_eq_ok issued with ⟨feed, rfl, _⟩
      exact { SameTree.refl db there with }
  | prune cutoff batchSize pruned =>
      rcases pruneNamespacePrefix_tables pruned with ⟨feedState, feedEvents, rfl⟩
      exact { SameTree.refl db there with }
  | collect ids orphaned =>
      refine { SameTree.refl db there with contents := ?_ }
      intro old member rest _ isFile blob isBlob refers
      exact ⟨blob, consistent.keeps_referenced orphaned member isFile isBlob refers, rfl⟩

inductive RunsAside (host : Host) (there : List JsString) : Database → Database → Prop
  | refl (db : Database) : RunsAside host there db db
  | tail {db middle next : Database} (run : RunsAside host there db middle)
      (taken : StepAside host there middle next) : RunsAside host there db next

theorem RunsAside.sameTree (consistent : Consistent host db) (run : RunsAside host there db next)
    {root : Uuid} (found : PathOf db.nodes root there) :
    SameTree db next there ∧ Consistent host next := by
  induction run with
  | refl => exact ⟨.refl db there, consistent⟩
  | tail run taken induction =>
      rcases induction with ⟨same, middleConsistent⟩
      have place : PathOf _ root (there ++ []) := (same.places root []).mp (by simpa using found)
      rw [List.append_nil] at place
      exact ⟨same.trans (taken.sameTree middleConsistent place),
        taken.step.consistent middleConsistent⟩

end Storix
