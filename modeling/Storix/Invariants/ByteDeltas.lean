import Storix.Invariants.Runs

/-! # Byte changes

What the work of a mutation records about live, trash and snapshot bytes. Most commands
record nothing; a delete and a restore move bytes between the live files and the trash. -/

namespace Storix

open Foundation Foundation.Command

variable {host : Host}

def MutationTx.byteDeltas (tx : MutationTx) : Int × Int × Int × NamespaceSettings :=
  (tx.liveFileByteDelta, tx.trashByteDelta, tx.snapshotByteDelta, tx.db.namespaceRow.settings)

abbrev KeepsBytes {α : Type} (command : Mutating α) : Prop := Keeps MutationTx.byteDeltas command

/-! ## Statements -/

theorem keepsBytes_updateDb {transform : Database → Database}
    (same : ∀ db, (transform db).namespaceRow.settings = db.namespaceRow.settings) :
    KeepsBytes (updateDb transform) := by
  refine keeps_update fun tx => ?_
  simp only [MutationTx.byteDeltas, same]

theorem keepsBytes_drawUuid : KeepsBytes (drawUuid host) :=
  keeps_state.bind fun _ => (keepsBytes_updateDb (by intro _; rfl)).bind fun _ => keeps_pure _

theorem keepsBytes_createNode (columns : NewNode) : KeepsBytes (createNode host columns) :=
  keepsBytes_drawUuid.bind fun _ => keeps_state.bind fun _ =>
    (keepsBytes_updateDb (by intro _; rfl)).bind fun _ => keeps_pure _

theorem keepsBytes_saveNode (node : VfsNode) : KeepsBytes (saveNode node) :=
  keeps_state.bind fun _ =>
    .ite (keeps_pure _) ((keepsBytes_updateDb (by intro _; rfl)).bind fun _ => keeps_pure _)

theorem keepsBytes_decrementReferenceCount (id : Uuid) (count : Nat) :
    KeepsBytes (decrementReferenceCount id count) :=
  keeps_state.bind fun _ => keepsBytes_updateDb (by intro _; rfl)

theorem keepsBytes_incrementLiveReferenceCount (id : Uuid) (count : Nat) :
    KeepsBytes (incrementLiveReferenceCount id count) :=
  .ite (keeps_stop _)
    (keeps_state.bind fun _ => (keepsBytes_updateDb (by intro _; rfl)).bind fun _ => keeps_pure _)

theorem keepsBytes_recordFolderFileDelta (parentId : Uuid) (delta : Int) :
    KeepsBytes (recordFolderFileDelta parentId delta) := by
  refine keeps_update fun tx => ?_
  split
  · rfl
  · rfl

theorem keepsBytes_recordLiveNodeDelta (delta : Int) : KeepsBytes (recordLiveNodeDelta delta) :=
  keeps_update fun _ => rfl

theorem keepsBytes_markChanged (id : Uuid) (increment : Bool) :
    KeepsBytes (markChanged id increment) :=
  keeps_update fun _ => rfl

/-! ## Locks -/

theorem keepsBytes_trackChangeFeedBefore (ids : List Uuid) :
    KeepsBytes (trackChangeFeedBefore host ids) := by
  refine keeps_state.bind fun tx => ?_
  split
  · exact keeps_pure _
  · exact (keeps_lift _).bind fun _ => keeps_update fun _ => rfl

theorem keepsBytes_markAncestorChain (id : Uuid) : KeepsBytes (markAncestorChain host id) :=
  keeps_state.bind fun _ => (keeps_lift _).bind fun _ =>
    (keeps_forEach (fun _ => keepsBytes_markChanged _ _) _).bind fun _ =>
      (keepsBytes_trackChangeFeedBefore _).bind fun _ => keeps_update fun _ => rfl

theorem keepsBytes_createParentDirectory (parentId : Uuid) (name : JsString) :
    KeepsBytes (createParentDirectory host parentId name) :=
  (keepsBytes_createNode _).bind fun _ => (keepsBytes_recordLiveNodeDelta _).bind fun _ =>
    (keepsBytes_markAncestorChain _).bind fun _ =>
      (keepsBytes_markChanged _ _).bind fun _ => keeps_pure _

theorem keepsBytes_lockParents (parents : Bool) (visited rest : List JsString) (parentId : Uuid)
    (parentType : VfsNodeType) :
    KeepsBytes (lockParents host parents visited rest parentId parentType) := by
  induction rest generalizing visited parentId parentType with
  | nil => exact keeps_pure _
  | cons name rest induction =>
      refine .ite (keeps_stop _) ((keepsBytes_trackChangeFeedBefore _).bind fun _ =>
        keeps_state.bind fun tx => ?_)
      split
      · exact induction _ _ _
      · exact .ite (keeps_stop _)
          ((keepsBytes_createParentDirectory _ _).bind fun _ => induction _ _ _)

theorem keepsBytes_lockParentChain (segments : List JsString) (parents markAncestors : Bool) :
    KeepsBytes (lockParentChain host segments parents markAncestors) :=
  keeps_state.bind fun _ => (keepsBytes_lockParents _ _ _ _ _).bind fun _ =>
    .ite (keeps_stop _) ((keepsBytes_trackChangeFeedBefore _).bind fun _ =>
      .ite ((keepsBytes_markAncestorChain _).bind fun _ => keeps_pure _) (keeps_pure _))

theorem keepsBytes_lockTargetNode (parentId : Uuid) (name : JsString) :
    KeepsBytes (lockTargetNode host parentId name) := by
  refine keeps_state.bind fun tx => ?_
  split
  · exact keeps_pure _
  · exact (keepsBytes_trackChangeFeedBefore _).bind fun _ => keeps_pure _

/-! ## Moves -/

theorem keepsBytes_resolveSource (segments : List JsString) (markAncestors : Bool) :
    KeepsBytes (resolveSource host segments markAncestors) := by
  refine (keepsBytes_lockParentChain _ _ _).bind fun _ =>
    (keepsBytes_lockTargetNode _ _).bind fun found => ?_
  cases found with
  | none => exact keeps_stop _
  | some node => exact keeps_pure _

theorem keepsBytes_lockBoth (source destination : List JsString) (parents markSource : Bool) :
    KeepsBytes (lockBoth host source destination parents markSource) :=
  .ite
    ((keepsBytes_resolveSource _ _).bind fun _ => .ite (keeps_stop _)
      ((keepsBytes_lockParentChain _ _ _).bind fun _ => keeps_pure _))
    ((keepsBytes_lockParentChain _ _ _).bind fun _ =>
      (keepsBytes_resolveSource _ _).bind fun _ => keeps_pure _)

theorem keepsBytes_placeAt (sourceNode : VfsNode) (source : List JsString)
    (target : Option VfsNode) (nested : Bool) (parentId : Uuid) (name : JsString)
    (segments : List JsString) :
    KeepsBytes (placeAt host sourceNode source target nested parentId name segments) := by
  have ends : ∀ ending : Option VfsNode → Mutating Placement,
      ending none = pure ⟨sourceNode, parentId, name, segments⟩ →
      (∀ node, ending (some node) = stop (.alreadyExists (joinSegments segments))) →
      ∀ collision, KeepsBytes (ending collision) := by
    intro ending isNone isSome collision
    cases collision with
    | none =>
        rw [isNone]
        exact keeps_pure _
    | some node =>
        rw [isSome]
        exact keeps_stop _
  refine (keeps_lift _).bind fun _ => ?_
  dsimp only
  split
  · exact (keepsBytes_markChanged _ _).bind fun _ => .ite (keeps_stop _)
      (.ite ((keepsBytes_lockTargetNode _ _).bind (ends _ rfl fun _ => rfl))
        ((keeps_pure _).bind (ends _ rfl fun _ => rfl)))
  · exact (keeps_pure _).bind fun _ => .ite (keeps_stop _)
      (.ite ((keepsBytes_lockTargetNode _ _).bind (ends _ rfl fun _ => rfl))
        ((keeps_pure _).bind (ends _ rfl fun _ => rfl)))

theorem keepsBytes_resolveDestinationPlacement (source destination : List JsString)
    (parents markSource : Bool) (resolution : DestinationResolution) :
    KeepsBytes (resolveDestinationPlacement host source destination parents markSource
      resolution) := by
  refine (keepsBytes_lockBoth _ _ _ _).bind fun both => ?_
  refine .ite (.ite (keeps_stop _) (keepsBytes_placeAt _ _ _ _ _ _ _)) ?_
  refine (keepsBytes_lockTargetNode _ _).bind fun found => ?_
  cases found with
  | none => exact keepsBytes_placeAt _ _ _ _ _ _ _
  | some target =>
      exact .ite (keepsBytes_placeAt _ _ _ _ _ _ _) (keepsBytes_placeAt _ _ _ _ _ _ _)

theorem keepsBytes_recordMovedFile (node : VfsNode) (parentId : Uuid) :
    KeepsBytes (recordMovedFile node parentId) := by
  refine .ite ?_ (keeps_pure _)
  split
  · exact keeps_stop _
  · exact (keepsBytes_recordFolderFileDelta _ _).bind fun _ =>
      keepsBytes_recordFolderFileDelta _ _

theorem keepsBytes_moveNode (source destination : List JsString) (parents : Bool)
    (maxSyncMoveNodes : Nat) (resolution : DestinationResolution) :
    KeepsBytes (moveNode host source destination parents maxSyncMoveNodes resolution) :=
  (keepsBytes_resolveDestinationPlacement _ _ _ _ _).bind fun _ =>
    .ite (keeps_stop _) (keeps_state.bind fun _ => .ite (keeps_stop _)
      ((keepsBytes_trackChangeFeedBefore _).bind fun _ => (keeps_lift _).bind fun _ =>
        (keepsBytes_saveNode _).bind fun _ => (keepsBytes_recordMovedFile _ _).bind fun _ =>
          (keepsBytes_markChanged _ _).bind fun _ =>
            (keeps_forEach (fun _ => keepsBytes_markChanged _ _) _).bind fun _ => keeps_pure _))

theorem keepsBytes_stopPrecondition {α : Type} (node : VfsNode) (path : JsString) :
    KeepsBytes (stopPrecondition node path : Mutating α) :=
  (keeps_lift _).bind fun _ => keeps_stop _

theorem keepsBytes_assertRevision (node : VfsNode) (revision : Revision) (path : JsString) :
    KeepsBytes (assertRevision node revision path) :=
  .ite (keepsBytes_stopPrecondition _ _) (keeps_pure _)

theorem keepsBytes_checkSource (source : NodePath host) (revision : Revision) :
    KeepsBytes (checkSource host source revision) := by
  refine keeps_state.bind fun tx => ?_
  split
  · exact keeps_stop _
  · exact keepsBytes_assertRevision _ _ _

theorem keepsBytes_destinationMustBeAbsent {α : Type} (error : VfsError) :
    KeepsBytes (destinationMustBeAbsent error : Mutating α) := by
  cases error with
  | alreadyExists path =>
      refine keeps_state.bind fun tx => ?_
      split
      · exact keeps_stop _
      · exact keepsBytes_stopPrecondition _ _
  | _ => exact keeps_stop _

/-! ## Deletes and restores -/

theorem trashBytes_eq_removedBytes {rows : List SnapshotSourceRow} {bytes : Nat}
    (result : trashBytes rows = .ok bytes) : bytes = removedBytes rows := by
  induction rows generalizing bytes with
  | nil => exact (Except.ok.inj result).symm
  | cons row rest induction =>
      unfold trashBytes at result
      unfold removedBytes at induction ⊢
      cases isType : row.type with
      | file =>
          rw [isType] at result
          dsimp only at result
          split at result
          · rename_i size _ isSize _
            split at result
            · rename_i more isMore
              cases result
              rw [List.filter_cons_of_pos (by simpa using isType), List.map_cons, List.sum_cons,
                ← induction isMore, isSize]
              rfl
            · cases result
          · cases result
      | directory =>
          rw [isType] at result
          dsimp only at result
          rw [List.filter_cons_of_neg (by simp [isType])]
          split at result
          · exact induction result
          · cases result

/-- A command that takes live bytes away, and puts at most as many into the trash. -/
def TakesAway {α : Type} (command : Mutating α) : Prop :=
  ∀ tx, Satisfies command
    (fun _ next => ∃ taken kept : Nat, kept ≤ taken ∧ next.byteDeltas =
      (tx.liveFileByteDelta - (taken : Int), tx.trashByteDelta + (kept : Int),
        tx.snapshotByteDelta, tx.db.namespaceRow.settings))
    (fun _ => True) tx

theorem KeepsBytes.takesAway {α : Type} {command : Mutating α} (keeps : KeepsBytes command) :
    TakesAway command := by
  refine fun tx => (keeps tx).imp fun _ next same => ⟨0, 0, Nat.le_refl 0, ?_⟩
  rw [same]
  simp [MutationTx.byteDeltas]

theorem TakesAway.after {α β : Type} {first : Mutating β} {rest : β → Mutating α}
    (keeps : KeepsBytes first) (takes : ∀ value, TakesAway (rest value)) :
    TakesAway (first >>= rest) := by
  intro tx
  refine (keeps tx).bind fun value next same => ?_
  simp only [MutationTx.byteDeltas, Prod.mk.injEq] at same
  refine (takes value next).imp ?_
  rintro _ last ⟨taken, kept, bound, isLast⟩
  rw [same.1, same.2.1, same.2.2.1, same.2.2.2] at isLast
  exact ⟨taken, kept, bound, isLast⟩

theorem TakesAway.before {α β : Type} {first : Mutating β} {rest : β → Mutating α}
    (takes : TakesAway first) (keeps : ∀ value, KeepsBytes (rest value)) :
    TakesAway (first >>= rest) := by
  intro tx
  refine (takes tx).bind ?_
  rintro value next ⟨taken, kept, bound, isNext⟩
  exact (keeps value next).imp fun _ last same => ⟨taken, kept, bound, same.trans isNext⟩

theorem TakesAway.ite {α : Type} {condition : Prop} [Decidable condition] {left right : Mutating α}
    (takes : TakesAway left) (otherwise : TakesAway right) :
    TakesAway (if condition then left else right) := by
  by_cases holds : condition
  · rwa [if_pos holds]
  · rwa [if_neg holds]

theorem takesAway_stop {α : Type} (error : VfsError) : TakesAway (stop error : Mutating α) :=
  fun _ => trivial

theorem keepsBytes_recordRemovedFiles (rows : List SnapshotSourceRow) :
    KeepsBytes (recordRemovedFiles rows) := by
  refine keeps_forEach (fun row => ?_) _
  split
  · exact keeps_stop _
  · exact keepsBytes_recordFolderFileDelta _ _

theorem keepsBytes_deleteNodes (rows : List SnapshotSourceRow) : KeepsBytes (deleteNodes rows) :=
  keeps_forEach (fun _ => keepsBytes_updateDb (by intro _; rfl)) _

theorem keepsBytes_pinTrashBlob (entry : Uuid × Nat) : KeepsBytes (pinTrashBlob entry) :=
  (keepsBytes_incrementLiveReferenceCount _ _).bind fun _ => .ite (keeps_pure _) (keeps_stop _)

theorem captureTrash_bytes (path : JsString) (rows : List SnapshotSourceRow) (tx : MutationTx) :
    Satisfies (captureTrash host path rows)
      (fun _ next => next.byteDeltas =
        (tx.liveFileByteDelta, tx.trashByteDelta + removedBytes rows, tx.snapshotByteDelta,
          tx.db.namespaceRow.settings))
      (fun _ => True) tx := by
  unfold captureTrash
  split
  · trivial
  · refine satisfies_ite.mpr ⟨fun _ => trivial, fun _ => ?_⟩
    rw [satisfies_bind, satisfies_lift]
    refine ⟨fun bytes isBytes => ?_, fun _ _ => trivial⟩
    rw [satisfies_bind, satisfies_state]
    refine satisfies_ite.mpr ⟨fun _ => trivial, fun _ => ?_⟩
    refine satisfies_ite.mpr ⟨fun _ => trivial, fun _ => ?_⟩
    refine satisfies_ite.mpr ⟨fun _ => trivial, fun _ => ?_⟩
    simp only [satisfies_bind, satisfies_drawUuid, satisfies_updateDb, satisfies_update,
      satisfies_pure]
    rw [trashBytes_eq_removedBytes isBytes]
    rfl

theorem takesAway_moveToTrash (segments : List JsString) (rows : List SnapshotSourceRow) :
    TakesAway (moveToTrash host segments rows) := by
  -- Whatever the trash kept, the rows leave the live files with all their bytes.
  have removes : ∀ result : Option Uuid, KeepsBytes (do
      forEach (fun entry => decrementReferenceCount entry.1 entry.2)
        (sortedCounts (removedBlobs rows))
      return result : Mutating (Option Uuid)) := fun _ =>
    (keeps_forEach (fun _ => keepsBytes_decrementReferenceCount _ _) _).bind fun _ => keeps_pure _
  refine .after (keepsBytes_trackChangeFeedBefore _) fun _ => .after keeps_state fun _ =>
    .after (keepsBytes_recordRemovedFiles _) fun _ =>
      .after (keepsBytes_recordLiveNodeDelta _) fun _ => .ite ?_ ?_
  · refine .after (keepsBytes_deleteNodes _) fun _ => .before (fun tx => ?_) fun _ => removes _
    exact ⟨removedBytes rows, 0, Nat.zero_le _, by simp [MutationTx.byteDeltas, Int.sub_eq_add_neg]⟩
  · intro tx
    rw [satisfies_bind]
    refine (captureTrash_bytes _ rows tx).imp fun trashId next isNext => ?_
    simp only [MutationTx.byteDeltas, Prod.mk.injEq] at isNext
    rw [satisfies_bind]
    refine (keeps_forEach keepsBytes_pinTrashBlob _ next).imp fun _ pinned samePinned => ?_
    rw [satisfies_bind]
    refine (keepsBytes_deleteNodes rows pinned).imp fun _ deleted sameDeleted => ?_
    have same := sameDeleted.trans samePinned
    simp only [MutationTx.byteDeltas, Prod.mk.injEq] at same
    rw [satisfies_bind, satisfies_recordLiveByteDelta]
    refine (removes _ _).imp fun _ last isLast => ⟨removedBytes rows, removedBytes rows,
      Nat.le_refl _, ?_⟩
    rw [isLast]
    simp only [MutationTx.byteDeltas, same, isNext, Int.sub_eq_add_neg]

theorem keepsBytes_captureSnapshotRows (segments : List JsString) (maxNodes : Nat) :
    KeepsBytes (captureSnapshotRows host segments maxNodes) := by
  refine .ite (keeps_stop _) (keeps_state.bind fun tx => ?_)
  split
  · exact keeps_stop _
  · exact keeps_lift _

theorem takesAway_removeNode (segments : List JsString) (recursive : Bool)
    (maxSyncDeleteNodes : Nat) :
    TakesAway (removeNode host segments recursive maxSyncDeleteNodes) := by
  refine .after (keepsBytes_lockParentChain _ _ _) fun _ =>
    .after (keepsBytes_lockTargetNode _ _) fun found => ?_
  cases found with
  | none => exact takesAway_stop _
  | some target =>
      exact .after keeps_state fun _ => .ite (takesAway_stop _)
        (.after (keepsBytes_captureSnapshotRows _ _) fun _ => .ite (takesAway_stop _)
          (takesAway_moveToTrash _ _))

theorem takesAway_removeEmptyDirectory (segments : List JsString) :
    TakesAway (removeEmptyDirectory host segments) := by
  refine .after (keepsBytes_lockParentChain _ _ _) fun _ =>
    .after (keepsBytes_lockTargetNode _ _) fun found => ?_
  cases found with
  | none => exact takesAway_stop _
  | some target =>
      exact .ite (takesAway_stop _) (.after keeps_state fun _ => .ite (takesAway_stop _)
        (.after (keepsBytes_captureSnapshotRows _ _) fun _ => takesAway_moveToTrash _ _))

theorem takesAway_expireNode (nodeId : Uuid) (cutoff : Nat) :
    TakesAway (expireNode host nodeId cutoff) := by
  have stays : ∀ result : Option Nat, TakesAway (pure result : Mutating (Option Nat)) :=
    fun _ => KeepsBytes.takesAway (keeps_pure _)
  refine .after keeps_state fun tx => .ite (stays _) ?_
  split
  · exact stays _
  · refine .after (keeps_lift _) fun pair => .ite (takesAway_stop _)
      (.after (keepsBytes_lockParentChain _ _ _) fun _ => ?_)
    split
    · exact stays _
    · refine .after (keepsBytes_lockTargetNode _ _) fun found => ?_
      cases found with
      | none => exact stays _
      | some target =>
          dsimp only
          split
          · exact stays _
          · exact .ite (stays _) ((takesAway_removeNode _ _ _).before fun _ => keeps_pure _)

theorem keepsBytes_findForMutation (trashId : Uuid) :
    KeepsBytes (findForMutation host trashId) := by
  refine keeps_state.bind fun tx => ?_
  split
  · exact keeps_stop _
  · exact .ite (keeps_stop _) (keeps_pure _)

theorem keepsBytes_restoreEntry (segments : List JsString) (parentId : Uuid)
    (restored : OrderedMap JsString Uuid) (entry : TrashEntry) :
    KeepsBytes (restoreEntry host segments parentId restored entry) := by
  refine (keeps_lift _).bind fun _ => ?_
  dsimp only
  split
  · exact keeps_stop _
  · refine .ite (keeps_stop _) (.ite (keeps_stop _) (keeps_state.bind fun _ => ?_))
    have ends : KeepsBytes (do
        recordLiveNodeDelta 1
        markChanged entry.sourceNodeId false
        return restored.set entry.relativePath entry.sourceNodeId) :=
      (keepsBytes_recordLiveNodeDelta _).bind fun _ =>
        (keepsBytes_markChanged _ _).bind fun _ => keeps_pure _
    exact (keepsBytes_updateDb (by intro _; rfl)).bind fun _ =>
      .ite ((keepsBytes_recordFolderFileDelta _ _).bind fun _ => ends) ends

theorem keepsBytes_restoreEntries (segments : List JsString) (parentId : Uuid)
    (entries : List TrashEntry) (restored : OrderedMap JsString Uuid) :
    KeepsBytes (restoreEntries host segments parentId entries restored) := by
  induction entries generalizing restored with
  | nil => exact keeps_pure _
  | cons entry rest induction => exact (keepsBytes_restoreEntry _ _ _ _).bind fun _ => induction _

theorem consumeTrash_bytes (item : LockedTrashItem) (tx : MutationTx) :
    Satisfies (consumeTrash item)
      (fun _ next => next.byteDeltas = (tx.liveFileByteDelta,
        tx.trashByteDelta - item.trash.logicalBytes, tx.snapshotByteDelta,
        tx.db.namespaceRow.settings))
      (fun _ => True) tx := by
  unfold consumeTrash
  rw [satisfies_bind, satisfies_state]
  refine satisfies_ite.mpr ⟨fun _ => trivial, fun _ => ?_⟩
  refine satisfies_ite.mpr ⟨fun _ => trivial, fun _ => ?_⟩
  rw [satisfies_bind, satisfies_updateDb, satisfies_update]
  rfl

/-- A restored item has its bytes among the live files and no longer in the trash. -/
theorem restoreTrashItem_bytes (trashId : Uuid) (targetPath : Option JsString) (tx : MutationTx) :
    Satisfies (restoreTrashItem host trashId targetPath)
      (fun _ next => ∃ bytes : Nat, next.byteDeltas = (tx.liveFileByteDelta + bytes,
        tx.trashByteDelta - bytes, tx.snapshotByteDelta, tx.db.namespaceRow.settings))
      (fun _ => True) tx := by
  unfold restoreTrashItem
  rw [satisfies_bind]
  refine (keepsBytes_findForMutation trashId tx).imp fun item found sameFound => ?_
  refine satisfies_ite.mpr ⟨fun _ => trivial, fun _ => ?_⟩
  rw [satisfies_bind, satisfies_lift]
  refine ⟨fun _ _ => ?_, fun _ _ => trivial⟩
  refine satisfies_ite.mpr ⟨fun _ => trivial, fun _ => ?_⟩
  rw [satisfies_bind]
  refine (keepsBytes_lockParentChain _ _ _ found).imp fun parentId locked sameLocked => ?_
  rw [satisfies_bind]
  refine (keepsBytes_lockTargetNode _ _ locked).imp fun collision ready sameReady => ?_
  cases collision with
  | some node => exact satisfies_stopPrecondition.mono (fun _ _ ends => ends) fun _ _ => trivial
  | none =>
      refine satisfies_ite.mpr ⟨fun _ => trivial, fun _ => ?_⟩
      rw [satisfies_bind]
      refine (keepsBytes_restoreEntries _ _ _ _ ready).imp fun _ restored sameRestored => ?_
      refine satisfies_ite.mpr ⟨fun _ => trivial, fun isBytes => ?_⟩
      rw [satisfies_bind]
      refine (consumeTrash_bytes item restored).imp fun _ consumed isConsumed => ?_
      rw [satisfies_bind, satisfies_recordLiveByteDelta, satisfies_bind, satisfies_state]
      have same := sameRestored.trans (sameReady.trans (sameLocked.trans sameFound))
      simp only [MutationTx.byteDeltas, Prod.mk.injEq] at same isConsumed
      split
      · trivial
      · refine ⟨manifestBytes (sortBy manifestLe item.entries), ?_⟩
        rw [not_not] at isBytes
        simp only [MutationTx.byteDeltas, isConsumed, same, isBytes]

theorem purgeTrashItem_bytes (trashId : Uuid) (tx : MutationTx) :
    Satisfies (purgeTrashItem host trashId)
      (fun _ next => ∃ bytes : Nat, next.byteDeltas = (tx.liveFileByteDelta,
        tx.trashByteDelta - bytes, tx.snapshotByteDelta, tx.db.namespaceRow.settings))
      (fun _ => True) tx := by
  unfold purgeTrashItem
  rw [satisfies_bind]
  refine (keepsBytes_findForMutation trashId tx).imp fun item found sameFound => ?_
  refine satisfies_ite.mpr ⟨fun _ => trivial, fun _ => ?_⟩
  refine satisfies_ite.mpr ⟨fun _ => trivial, fun isBytes => ?_⟩
  rw [satisfies_bind]
  refine (consumeTrash_bytes item found).imp fun _ consumed isConsumed => ?_
  refine (keeps_forEach (fun _ => keepsBytes_decrementReferenceCount _ _) _ consumed).imp
    fun _ last sameLast => ⟨manifestBytes item.entries, ?_⟩
  rw [not_not] at isBytes
  simp only [MutationTx.byteDeltas, Prod.mk.injEq] at sameFound
  rw [sameLast, isConsumed, isBytes, sameFound.1, sameFound.2.1, sameFound.2.2.1, sameFound.2.2.2]

theorem removeSnapshot_bytes {effects : Effects} {base : Database}
    {scope : List JsString → Prop} {held : List Uuid} (snapshotId : Uuid) {tx : MutationTx}
    (holds : TxInv host effects base scope held tx) :
    Satisfies (removeSnapshot host snapshotId)
      (fun _ next => ∃ bytes : Nat, next.byteDeltas = (tx.liveFileByteDelta, tx.trashByteDelta,
        tx.snapshotByteDelta - bytes, tx.db.namespaceRow.settings))
      (fun _ => True) tx := by
  unfold removeSnapshot
  rw [satisfies_bind]
  refine (satisfies_findForUpdate fun snapshot member _ => ?_).mono (fun _ _ ends => ends)
    fun _ _ => trivial
  rw [satisfies_bind, satisfies_state, satisfies_bind]
  refine (keeps_forEach (fun _ => keepsBytes_decrementReferenceCount _ _) _ tx).imp
    fun _ next same => ?_
  rw [satisfies_bind, satisfies_updateDb, satisfies_update]
  have nonneg : 0 ≤ snapshot.logicalBytes := by
    rw [holds.snapshots.bytes.exact snapshot member]
    refine List.sum_nonneg fun value inside => ?_
    rcases List.mem_map.mp inside with ⟨entry, _, rfl⟩
    unfold SnapshotEntry.bytes
    split
    · exact Int.natCast_nonneg _
    · exact Int.le_refl 0
  simp only [MutationTx.byteDeltas, Prod.mk.injEq] at same
  refine ⟨snapshot.logicalBytes.toNat, ?_⟩
  simp only [MutationTx.byteDeltas, same, Int.toNat_of_nonneg nonneg]

end Storix
