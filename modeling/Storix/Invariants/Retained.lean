import Storix.Invariants.Beside

/-! # What is retained

The manifests of the trash and of the snapshots are written once. A mutation leaves every
manifest that was there before it as it is, except the one that it names to take it away. -/

namespace Storix

open Foundation Foundation.Command

variable {host : Host} {lost : Uuid → Prop}

def Database.manifests (db : Database) (id : Uuid) :
    List Snapshot × List SnapshotEntry × List TrashItem × List TrashEntry :=
  (db.snapshots.filter fun snapshot => snapshot.id = id,
    db.snapshotEntries.filter fun entry => entry.snapshotId = id,
    db.trash.filter fun item => item.id = id,
    db.trashEntries.filter fun entry => entry.trashId = id)

/-- The manifests of the ids that were drawn before are as they were, but for the lost ones. -/
structure Retains (host : Host) (lost : Uuid → Prop) (tx next : MutationTx) : Prop where
  issued : tx.db.issued ≤ next.db.issued
  manifests : ∀ id, Drawn host tx.db.issued id → ¬lost id →
    next.db.manifests id = tx.db.manifests id

instance : IsPreorder MutationTx (Retains host lost) where
  refl _ := ⟨Nat.le_refl _, fun _ _ _ => rfl⟩
  trans _ _ _ first second :=
    ⟨Nat.le_trans first.issued second.issued, fun id drawn stays =>
      (second.manifests id (drawn.mono first.issued) stays).trans (first.manifests id drawn stays)⟩

abbrev Retaining (host : Host) (lost : Uuid → Prop) {α : Type} (command : Mutating α) : Prop :=
  Respects (Retains host lost) command

theorem BesideManifests.retains {tx next : MutationTx} (beside : BesideManifests tx next) :
    Retains host lost tx next where
  issued := beside.issued
  manifests := by
    intro id _ _
    rw [Database.manifests, beside.snapshots, beside.snapshotEntries, beside.trash,
      beside.trashEntries]
    rfl

/-- A command that leaves the trash and the snapshots alone keeps every manifest. -/
theorem Beside.retains {α : Type} {command : Mutating α} (beside : Beside command) :
    Retaining host lost command :=
  beside.mono fun _ _ same => same.retains

/-! ## Deletes -/

theorem Drawn.ne_next {issued : Nat} {id : Uuid} (drawn : Drawn host issued id) :
    host.randomUUID issued ≠ id := by
  rcases drawn with ⟨draw, earlier, isId⟩
  rw [isId]
  intro same
  exact absurd (host.randomUUID_injective same) (Nat.ne_of_gt earlier)

theorem filter_append_of_none {α : Type} {test : α → Bool} {items added : List α}
    (none : ∀ item ∈ added, test item = false) :
    (items ++ added).filter test = items.filter test := by
  have empty : added.filter test = [] := by
    apply List.filter_eq_nil_iff.mpr
    intro item member
    rw [none item member]
    exact Bool.false_ne_true
  rw [List.filter_append, empty, List.append_nil]

theorem filter_filter_of_ne {α : Type} {key : α → Uuid} {items : List α} {id gone : Uuid}
    (different : id ≠ gone) :
    ((items.filter fun item => key item ≠ gone).filter fun item => key item = id) =
      items.filter fun item => key item = id := by
  rw [List.filter_filter]
  apply List.filter_congr
  intro item _
  by_cases same : key item = id
  · simp [same, different]
  · simp [same]

theorem retaining_captureTrash (path : JsString) (rows : List SnapshotSourceRow) :
    Retaining host lost (captureTrash host path rows) := by
  intro tx
  unfold captureTrash
  split
  · trivial
  · refine satisfies_ite.mpr ⟨fun _ => trivial, fun _ => ?_⟩
    rw [satisfies_bind, satisfies_lift]
    refine ⟨fun bytes isBytes => ?_, fun _ _ => trivial⟩
    rw [satisfies_bind, satisfies_state]
    refine satisfies_ite.mpr ⟨fun _ => trivial, fun _ => ?_⟩
    refine satisfies_ite.mpr ⟨fun _ => trivial, fun _ => ?_⟩
    refine satisfies_ite.mpr ⟨fun _ => trivial, fun _ => ?_⟩
    simp only [satisfies_bind, satisfies_drawUuid, satisfies_updateDb, satisfies_update,
      satisfies_pure]
    constructor
    · exact Nat.le_succ _
    · intro id drawn _
      have isNew := drawn.ne_next
      simp only [Database.manifests, Prod.mk.injEq, true_and]
      constructor
      · apply filter_append_of_none
        intro item member
        rw [List.mem_singleton.mp member]
        exact decide_eq_false isNew
      · apply filter_append_of_none
        intro entry member
        rcases List.mem_map.mp member with ⟨row, _, rfl⟩
        exact decide_eq_false isNew

theorem retaining_moveToTrash (segments : List JsString) (rows : List SnapshotSourceRow) :
    Retaining host lost (moveToTrash host segments rows) := by
  have removes : ∀ result : Option Uuid, Retaining host lost (do
      deleteNodes rows
      recordLiveByteDelta (-(removedBytes rows))
      forEach (fun entry => decrementReferenceCount entry.1 entry.2)
        (sortedCounts (removedBlobs rows))
      return result : Mutating (Option Uuid)) := fun _ =>
    (beside_deleteNodes _).retains.bind fun _ =>
      (beside_recordLiveByteDelta _).retains.bind fun _ =>
      (respects_forEach (fun _ => (beside_decrementReferenceCount _ _).retains) _).bind fun _ =>
        respects_pure _
  exact (beside_trackChangeFeedBefore _).retains.bind fun _ => respects_state.bind fun _ =>
    (beside_recordRemovedFiles _).retains.bind fun _ =>
      (beside_recordLiveNodeDelta _).retains.bind fun _ =>
      .ite (removes none) ((retaining_captureTrash _ _).bind fun _ =>
        (respects_forEach (fun _ => (beside_pinTrashBlob _).retains) _).bind fun _ => removes _)

theorem retaining_removeNode (segments : List JsString) (recursive : Bool)
    (maxSyncDeleteNodes : Nat) :
    Retaining host lost (removeNode host segments recursive maxSyncDeleteNodes) := by
  apply (beside_lockParentChain _ _ _).retains.bind
  intro parentId
  apply (beside_lockTargetNode _ _).retains.bind
  intro found
  cases found with
  | none => exact respects_stop _
  | some target =>
      exact respects_state.bind fun _ => .ite (respects_stop _)
        ((beside_captureSnapshotRows _ _).retains.bind fun _ => .ite (respects_stop _)
          (retaining_moveToTrash _ _))

theorem retaining_removeEmptyDirectory (segments : List JsString) :
    Retaining host lost (removeEmptyDirectory host segments) := by
  apply (beside_lockParentChain _ _ _).retains.bind
  intro parentId
  apply (beside_lockTargetNode _ _).retains.bind
  intro found
  cases found with
  | none => exact respects_stop _
  | some target =>
      exact .ite (respects_stop _) (respects_state.bind fun _ => .ite (respects_stop _)
        ((beside_captureSnapshotRows _ _).retains.bind fun _ => retaining_moveToTrash _ _))

theorem retaining_expireNode (nodeId : Uuid) (cutoff : Nat) :
    Retaining host lost (expireNode host nodeId cutoff) := by
  apply respects_state.bind
  intro tx
  apply Respects.ite (respects_pure _)
  split
  · exact respects_pure _
  · apply (respects_lift _).bind
    intro pair
    apply Respects.ite (respects_stop _)
    apply (beside_lockParentChain _ _ _).retains.bind
    intro parentId
    split
    · exact respects_pure _
    · apply (beside_lockTargetNode _ _).retains.bind
      intro found
      cases found with
      | none => exact respects_pure _
      | some target =>
          dsimp only
          split
          · exact respects_pure _
          · exact .ite (respects_pure _)
              ((retaining_removeNode _ _ _).bind fun _ => respects_pure _)

/-! ## Restores and purges -/

theorem findForMutation_id (trashId : Uuid) (tx : MutationTx) :
    Satisfies (findForMutation host trashId)
      (fun item next => next = tx ∧ item.trash.id = trashId) (fun _ => True) tx := by
  unfold findForMutation
  rw [satisfies_bind, satisfies_state]
  split
  · trivial
  · rename_i item found
    refine satisfies_ite.mpr ⟨fun _ => trivial, fun _ => ⟨rfl, ?_⟩⟩
    have named := List.find?_some found
    exact beq_iff_eq.mp named

theorem retaining_consumeTrash (item : LockedTrashItem) :
    Retaining host (fun id => id = item.trash.id) (consumeTrash item) := by
  apply respects_state.bind
  intro tx
  apply Respects.ite (respects_stop _)
  apply Respects.ite (respects_stop _)
  apply Respects.bind
  · apply respects_update
    intro current
    constructor
    · exact Nat.le_refl _
    · intro id _ different
      simp only [Database.manifests, Prod.mk.injEq, true_and]
      exact ⟨filter_filter_of_ne different, filter_filter_of_ne different⟩
  · intro _
    apply respects_update
    intro current
    apply BesideManifests.retains
    exact besideManifests_same rfl rfl

theorem retaining_restoreTrashItem (trashId : Uuid) (targetPath : Option JsString) :
    Retaining host (fun id => id = trashId) (restoreTrashItem host trashId targetPath) := by
  intro tx
  unfold restoreTrashItem
  rw [satisfies_bind]
  apply (findForMutation_id trashId tx).imp
  intro item next found
  rcases found with ⟨same, rfl⟩
  rw [same]
  refine Respects.ite (respects_stop _) ?_ tx
  apply (respects_lift _).bind
  intro _
  apply Respects.ite (respects_stop _)
  apply (beside_lockParentChain _ _ _).retains.bind
  intro parentId
  apply (beside_lockTargetNode _ _).retains.bind
  intro collision
  cases collision with
  | some node => exact (beside_stopPrecondition _ _).retains
  | none =>
      apply Respects.ite (respects_stop _)
      apply (beside_restoreEntries _ _ _ _).retains.bind
      intro _
      apply Respects.ite (respects_stop _)
      apply (retaining_consumeTrash item).bind
      intro _
      apply (beside_recordLiveByteDelta _).retains.bind
      intro _
      apply respects_state.bind
      intro last
      split
      · exact respects_stop _
      · exact respects_pure _

theorem retaining_purgeTrashItem (trashId : Uuid) :
    Retaining host (fun id => id = trashId) (purgeTrashItem host trashId) := by
  intro tx
  unfold purgeTrashItem
  rw [satisfies_bind]
  apply (findForMutation_id trashId tx).imp
  intro item next found
  rcases found with ⟨same, rfl⟩
  rw [same]
  refine Respects.ite (respects_stop _) ?_ tx
  apply Respects.ite (respects_stop _)
  apply (retaining_consumeTrash item).bind
  intro _
  exact respects_forEach (fun _ => (beside_decrementReferenceCount _ _).retains) _

/-! ## Snapshots -/

theorem retaining_storeSnapshot (kind : SnapshotKind) (path : JsString) (root : SnapshotSourceRow)
    (rows : List SnapshotSourceRow) (bytes : Nat) :
    Retaining host lost (storeSnapshot host kind path root rows bytes) := by
  intro tx
  unfold storeSnapshot
  simp only [satisfies_bind, satisfies_drawUuid, satisfies_state, satisfies_updateDb,
    satisfies_pure]
  constructor
  · exact Nat.le_succ _
  · intro id drawn _
    have isNew := drawn.ne_next
    simp only [Database.manifests, Prod.mk.injEq, and_true]
    constructor
    · apply filter_append_of_none
      intro snapshot member
      rw [List.mem_singleton.mp member]
      exact decide_eq_false isNew
    · apply filter_append_of_none
      intro entry member
      rcases List.mem_map.mp member with ⟨row, _, rfl⟩
      exact decide_eq_false isNew

theorem retaining_captureSnapshot (kind : SnapshotKind) (path : JsString)
    (rows : List SnapshotSourceRow) :
    Retaining host lost (captureSnapshot host kind path rows) := by
  apply respects_state.bind
  intro tx
  apply Respects.ite (respects_stop _)
  split
  · exact respects_stop _
  · exact .ite (respects_stop _) (.ite (respects_stop _)
      ((beside_chargeSnapshot _ _ _).retains.bind fun _ =>
        (respects_forEach (fun _ => (beside_pinSnapshotBlob _ _).retains) _).bind fun _ =>
          (retaining_storeSnapshot _ _ _ _ _).bind fun _ => respects_state.bind fun _ =>
            (respects_lift _).bind fun _ => respects_pure _))

theorem retaining_createSnapshot (path : ResolvedPath host) (kind : SnapshotKind)
    (sourceRevision : Option Revision) :
    Retaining host lost (createSnapshot host path kind sourceRevision) := by
  apply respects_state.bind
  intro tx
  apply (beside_captureSnapshotRows _ _).retains.bind
  intro rows
  cases rows with
  | nil => exact respects_stop _
  | cons root rest =>
      apply Respects.ite (respects_stop _)
      apply Respects.ite (respects_stop _)
      apply Respects.ite
      · apply respects_state.bind
        intro current
        split
        · exact respects_stop _
        · exact (beside_stopPrecondition _ _).retains
      · exact retaining_captureSnapshot _ _ _

theorem retaining_removeSnapshot (snapshotId : Uuid) :
    Retaining host (fun id => id = snapshotId) (removeSnapshot host snapshotId) := by
  apply (beside_findForUpdate _).retains.bind
  intro snapshot
  apply respects_state.bind
  intro tx
  apply (respects_forEach (fun _ => (beside_decrementReferenceCount _ _).retains) _).bind
  intro _
  apply Respects.bind
  · apply respects_update
    intro current
    constructor
    · exact Nat.le_refl _
    · intro id _ different
      simp only [Database.manifests, Prod.mk.injEq, and_true]
      exact ⟨filter_filter_of_ne different, filter_filter_of_ne different⟩
  · intro _
    apply respects_update
    intro current
    apply BesideManifests.retains
    exact besideManifests_same rfl rfl

/-! ## Conditional mutations -/

theorem retaining_applyConditionalMutation (command : ConditionalMutation host) :
    Retaining host lost (applyConditionalMutation host command) := by
  cases command with
  | mkdir path =>
      apply respects_state.bind
      intro tx
      split
      · exact (beside_stopPrecondition _ _).retains
      · exact (beside_ensureDirectory _ _).retains.bind fun _ => respects_pure _
  | persist path revision =>
      exact (beside_lockFile _ _).retains.bind fun _ =>
        .ite (respects_pure _) (beside_saveFile _ _ _ _).retains
  | setMimeType path revision mimeType =>
      exact (beside_lockFile _ _).retains.bind fun _ =>
        .ite (respects_pure _) (beside_saveFile _ _ _ _).retains
  | delete path revision recursive =>
      apply respects_state.bind
      intro tx
      split
      · exact respects_stop _
      · exact (beside_assertRevision _ _ _).retains.bind fun _ =>
          .ite ((retaining_removeEmptyDirectory _).bind fun _ => respects_pure _)
            ((retaining_removeNode _ _ _).bind fun _ => respects_pure _)
  | move source destination revision resolution =>
      apply (beside_checkSource _ _).retains.bind
      intro _
      apply respects_state.bind
      intro tx
      apply Respects.bind _ fun _ => respects_pure _
      exact (beside_moveNode _ _ _ _ _).retains.rescue fun error =>
        (beside_destinationMustBeAbsent error).retains
  | copy source destination revision resolution expiresInSeconds =>
      apply (beside_checkSource _ _).retains.bind
      intro _
      apply respects_state.bind
      intro tx
      apply Respects.bind _ fun _ => respects_pure _
      exact (beside_copyNode _ _ _ _ _ _).retains.rescue fun error =>
        (beside_destinationMustBeAbsent error).retains

/-! ## Extracting an archive -/

theorem retaining_prepareDestination (plan : ExtractCommitPlan) (existing : Option VfsNode) :
    Retaining host lost (prepareDestination host plan existing) := by
  cases existing with
  | some destination =>
      exact .ite ((retaining_removeNode _ _ _).bind fun _ =>
        (beside_ensureDirectory _ _).retains.bind fun _ =>
        respects_pure _) ((beside_markAncestorChain _).retains.bind fun _ => respects_pure _)
  | none => exact (beside_ensureDirectory _ _).retains.bind fun _ => respects_pure _

theorem retaining_applyExtract (plan : ExtractCommitPlan) :
    Retaining host lost (applyExtract host plan) :=
  (respects_lift _).bind fun _ => (respects_lift _).bind fun _ =>
    (beside_lockParentChain _ _ _).retains.bind fun _ =>
    (beside_lockTargetNode _ _).retains.bind fun _ =>
      .ite (respects_stop _) ((beside_checkDestination _ _ _).retains.bind fun _ =>
        (retaining_prepareDestination _ _).bind fun _ =>
          (beside_commitExtractEntries _ _ _ _ _ _).retains.bind fun _ => respects_pure _)

/-! ## Mutations -/

def Mutation.forgets : Mutation host → Uuid → Prop
  | .restoreTrash trashId _, id => id = trashId
  | .purgeTrash trashId, id => id = trashId
  | .removeSnapshot snapshotId, id => id = snapshotId
  | _, _ => False

theorem retaining_ignore {α : Type} {work : Mutating α} (spares : Retaining host lost work) :
    Retaining host lost (Mutation.ignore work) :=
  spares.bind fun _ => respects_pure _

theorem retaining_work (mutation : Mutation host) :
    Retaining host mutation.forgets mutation.work := by
  cases mutation with
  | mkdir path parents => exact retaining_ignore (beside_ensureDirectory _ _).retains
  | touch path parents emptyBlob => exact retaining_ignore (beside_touchFile _ _ _).retains
  | put path parents blob ifMatchVersion force expiresAt =>
      exact retaining_ignore (beside_putFileContent _ _ _ _ _ _).retains
  | putConditional path condition blob =>
      apply retaining_ignore
      apply respects_state.bind
      intro tx
      exact (beside_checkContent _ _ _).retains.bind fun _ =>
        (beside_putFileContent _ _ _ _ _ _).retains
  | conditional command => exact retaining_ignore (retaining_applyConditionalMutation command)
  | move source destination parents maxSyncMoveNodes resolution =>
      exact retaining_ignore (beside_moveNode _ _ _ _ _).retains
  | copy source destination parents maxSyncCopyNodes resolution expiresAt =>
      exact retaining_ignore (beside_copyNode _ _ _ _ _ _).retains
  | remove path recursive maxSyncDeleteNodes => exact retaining_ignore (retaining_removeNode _ _ _)
  | removeEmptyDirectory path => exact retaining_ignore (retaining_removeEmptyDirectory _)
  | expire nodeId cutoff => exact retaining_ignore (retaining_expireNode _ _)
  | restoreTrash trashId target => exact retaining_ignore (retaining_restoreTrashItem _ _)
  | purgeTrash trashId => exact retaining_purgeTrashItem trashId
  | createSnapshot path kind sourceRevision =>
      exact retaining_ignore (retaining_createSnapshot _ _ _)
  | removeSnapshot snapshotId => exact retaining_removeSnapshot snapshotId
  | restoreSnapshot snapshotId path condition =>
      exact retaining_ignore (beside_restoreSnapshot _ _ _).retains
  | extract request =>
      exact (respects_lift _).bind fun _ => retaining_ignore (retaining_applyExtract _)
  | configure settings =>
      apply respects_update
      intro tx
      exact ⟨Nat.le_refl _, fun _ _ _ => rfl⟩

theorem Mutation.run_retains {mutation : Mutation host} {now : Nat}
    {afterBump : MutationTx → Unit → List AffectedRevision → Except VfsError Unit}
    {db : Database} {committed : Committed Unit}
    (result : mutation.run now afterBump db = .ok committed) :
    db.issued ≤ committed.db.issued ∧ ∀ id, Drawn host db.issued id → ¬mutation.forgets id →
      committed.db.manifests id = db.manifests id := by
  unfold Mutation.run withMutation at result
  split at result
  · cases result
  · rename_i root _
    split at result
    · cases result
    · split at result
      · cases result
      · rename_i value tx worked
        split at result
        · cases result
        · rename_i revisions last finished
          cases result
          have first := (retaining_work mutation).of_ok worked
          have spares : Retaining host mutation.forgets (finish host afterBump value) :=
            (beside_finish afterBump value).retains
          have second := spares.of_ok finished
          have both := trans_of (Retains host mutation.forgets) first second
          exact ⟨both.issued, both.manifests⟩

end Storix
