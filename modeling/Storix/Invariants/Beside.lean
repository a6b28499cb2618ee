import Storix.Foundation.Frame
import Storix.Invariants.Journal
import Storix.Invariants.Statements
import Storix.Persistence.Run

/-! # Beside the manifests

Almost every statement of a mutation leaves the trash and the snapshots alone: their rows and
their entries are the same afterwards, and so are the settings. -/

namespace Storix

open Foundation Foundation.Command

variable {host : Host}

structure BesideManifests (tx next : MutationTx) : Prop where
  now : next.now = tx.now
  issued : tx.db.issued ≤ next.db.issued
  settings : next.db.namespaceRow.settings = tx.db.namespaceRow.settings
  snapshots : next.db.snapshots = tx.db.snapshots
  snapshotEntries : next.db.snapshotEntries = tx.db.snapshotEntries
  trash : next.db.trash = tx.db.trash
  trashEntries : next.db.trashEntries = tx.db.trashEntries

instance : IsPreorder MutationTx BesideManifests where
  refl _ := ⟨rfl, Nat.le_refl _, rfl, rfl, rfl, rfl, rfl⟩
  trans _ _ _ first second :=
    { now := second.now.trans first.now
      issued := Nat.le_trans first.issued second.issued
      settings := second.settings.trans first.settings
      snapshots := second.snapshots.trans first.snapshots
      snapshotEntries := second.snapshotEntries.trans first.snapshotEntries
      trash := second.trash.trans first.trash
      trashEntries := second.trashEntries.trans first.trashEntries }

abbrev Beside {α : Type} (command : Mutating α) : Prop := Respects BesideManifests command

theorem besideManifests_same {tx next : MutationTx} (same : next.db = tx.db)
    (now : next.now = tx.now) : BesideManifests tx next := by
  constructor
  · exact now
  all_goals rw [same]

/-! ## Statements -/

theorem beside_updateDb {transform : Database → Database}
    (others : ∀ db, (transform db).issued = db.issued ∧
      (transform db).namespaceRow.settings = db.namespaceRow.settings ∧
      (transform db).snapshots = db.snapshots ∧
      (transform db).snapshotEntries = db.snapshotEntries ∧ (transform db).trash = db.trash ∧
      (transform db).trashEntries = db.trashEntries) :
    Beside (updateDb transform) := by
  apply respects_update
  intro tx
  rcases others tx.db with ⟨issued, rest⟩
  exact ⟨rfl, Nat.le_of_eq issued.symm, rest.1, rest.2.1, rest.2.2.1, rest.2.2.2.1,
    rest.2.2.2.2⟩

theorem beside_drawUuid : Beside (drawUuid host) := by
  apply respects_state.bind
  intro tx
  apply Respects.bind
  · apply respects_update
    intro current
    exact ⟨rfl, Nat.le_succ _, rfl, rfl, rfl, rfl, rfl⟩
  · intro _
    exact respects_pure _

theorem beside_insertNode (node : VfsNode) : Beside (insertNode node) :=
  beside_updateDb (by intro _; exact ⟨rfl, rfl, rfl, rfl, rfl, rfl⟩)

theorem beside_createNode (columns : NewNode) : Beside (createNode host columns) :=
  beside_drawUuid.bind fun _ => respects_state.bind fun _ =>
    (beside_insertNode _).bind fun _ => respects_pure _

theorem beside_updateNode (id : Uuid) (transform : VfsNode → VfsNode) :
    Beside (updateNode id transform) :=
  beside_updateDb (by intro _; exact ⟨rfl, rfl, rfl, rfl, rfl, rfl⟩)

theorem beside_saveNode (node : VfsNode) : Beside (saveNode node) :=
  respects_state.bind fun _ =>
    .ite (respects_pure _) ((beside_updateNode _ _).bind fun _ => respects_pure _)

theorem beside_createBlob (data : BlobData) : Beside (createBlob host data) :=
  beside_drawUuid.bind fun _ => respects_state.bind fun _ =>
    (beside_updateDb (by intro _; exact ⟨rfl, rfl, rfl, rfl, rfl, rfl⟩)).bind fun _ =>
      respects_pure _

theorem beside_incrementReferenceCount (id : Uuid) (count : Nat) :
    Beside (incrementReferenceCount id count) :=
  beside_updateDb (by intro _; exact ⟨rfl, rfl, rfl, rfl, rfl, rfl⟩)

theorem beside_incrementLiveReferenceCount (id : Uuid) (count : Nat) :
    Beside (incrementLiveReferenceCount id count) :=
  .ite (respects_stop _) (respects_state.bind fun _ =>
    (beside_updateDb (by intro _; exact ⟨rfl, rfl, rfl, rfl, rfl, rfl⟩)).bind fun _ =>
      respects_pure _)

theorem beside_decrementReferenceCount (id : Uuid) (count : Nat) :
    Beside (decrementReferenceCount id count) :=
  respects_state.bind fun _ => beside_updateDb (by intro _; exact ⟨rfl, rfl, rfl, rfl, rfl, rfl⟩)

theorem beside_recordLiveByteDelta (delta : Int) : Beside (recordLiveByteDelta delta) :=
  respects_update fun _ => besideManifests_same rfl rfl

theorem beside_recordFolderFileDelta (parentId : Uuid) (delta : Int) :
    Beside (recordFolderFileDelta parentId delta) := by
  apply respects_update
  intro tx
  split
  · exact besideManifests_same rfl rfl
  · exact besideManifests_same rfl rfl

theorem beside_recordLiveNodeDelta (delta : Int) : Beside (recordLiveNodeDelta delta) :=
  respects_update fun _ => besideManifests_same rfl rfl

theorem beside_markChanged (id : Uuid) (increment : Bool) :
    Beside (markChanged id increment) :=
  respects_update fun _ => besideManifests_same rfl rfl

/-! ## Locks -/

theorem beside_trackChangeFeedBefore (ids : List Uuid) :
    Beside (trackChangeFeedBefore host ids) := by
  apply respects_state.bind
  intro tx
  split
  · exact respects_pure _
  · exact (respects_lift _).bind fun _ => respects_update fun _ => besideManifests_same rfl rfl

theorem beside_markAncestorChain (id : Uuid) : Beside (markAncestorChain host id) :=
  respects_state.bind fun _ => (respects_lift _).bind fun _ =>
    (respects_forEach (fun _ => beside_markChanged _ _) _).bind fun _ =>
      (beside_trackChangeFeedBefore _).bind fun _ => respects_update fun _ =>
        besideManifests_same rfl rfl

theorem beside_createParentDirectory (parentId : Uuid) (name : JsString) :
    Beside (createParentDirectory host parentId name) :=
  (beside_createNode _).bind fun _ => (beside_recordLiveNodeDelta _).bind fun _ =>
    (beside_markAncestorChain _).bind fun _ =>
      (beside_markChanged _ _).bind fun _ => respects_pure _

theorem beside_lockParents (parents : Bool) (visited rest : List JsString) (parentId : Uuid)
    (parentType : VfsNodeType) :
    Beside (lockParents host parents visited rest parentId parentType) := by
  induction rest generalizing visited parentId parentType with
  | nil => exact respects_pure _
  | cons name rest induction =>
      apply Respects.ite (respects_stop _)
      apply (beside_trackChangeFeedBefore _).bind
      intro _
      apply respects_state.bind
      intro tx
      split
      · exact induction _ _ _
      · exact .ite (respects_stop _)
          ((beside_createParentDirectory _ _).bind fun _ => induction _ _ _)

theorem beside_lockParentChain (segments : List JsString) (parents markAncestors : Bool) :
    Beside (lockParentChain host segments parents markAncestors) :=
  respects_state.bind fun _ => (beside_lockParents _ _ _ _ _).bind fun _ =>
    .ite (respects_stop _) ((beside_trackChangeFeedBefore _).bind fun _ =>
      .ite ((beside_markAncestorChain _).bind fun _ => respects_pure _) (respects_pure _))

theorem beside_lockTargetNode (parentId : Uuid) (name : JsString) :
    Beside (lockTargetNode host parentId name) := by
  apply respects_state.bind
  intro tx
  split
  · exact respects_pure _
  · exact (beside_trackChangeFeedBefore _).bind fun _ => respects_pure _

/-! ## Directories and file content -/

theorem beside_ensureDirectories (parents : Bool) (segments visited rest : List JsString)
    (parentId : Uuid) (parentType : VfsNodeType) (current : Option VfsNode) (created : Bool) :
    Beside (ensureDirectories host parents segments visited rest parentId parentType
      current created) := by
  induction rest generalizing visited parentId parentType current created with
  | nil => exact respects_pure _
  | cons name rest induction =>
      apply Respects.ite (respects_stop _)
      apply (beside_trackChangeFeedBefore _).bind
      intro _
      apply respects_state.bind
      intro tx
      split
      · exact .ite (respects_stop _) (induction _ _ _ _ _)
      · exact .ite (respects_stop _)
          ((beside_createParentDirectory _ _).bind fun _ => induction _ _ _ _ _)

theorem beside_ensureDirectory (segments : List JsString) (parents : Bool) :
    Beside (ensureDirectory host segments parents) := by
  apply respects_state.bind
  intro tx
  apply (beside_ensureDirectories _ _ _ _ _ _ _ _).bind
  intro found
  dsimp only
  split
  · exact respects_stop _
  · exact respects_pure _

theorem beside_createFile (parentId : Uuid) (name : JsString) (data : BlobData)
    (expiresAt : Option Nat) : Beside (createFile host parentId name data expiresAt) :=
  (beside_createBlob _).bind fun _ => (beside_createNode _).bind fun _ =>
    (beside_markChanged _ _).bind fun _ => (beside_recordLiveByteDelta _).bind fun _ =>
      (beside_recordFolderFileDelta _ _).bind fun _ =>
        (beside_recordLiveNodeDelta _).bind fun _ => respects_pure _

theorem beside_touchFile (segments : List JsString) (parents : Bool)
    (emptyBlob : Option BlobData) :
    Beside (touchFile host segments parents emptyBlob) := by
  apply (beside_lockParentChain _ _ _).bind
  intro parentId
  apply (beside_lockTargetNode _ _).bind
  intro existing
  cases existing with
  | some node =>
      apply Respects.ite (respects_stop _)
      apply respects_state.bind
      intro tx
      apply Respects.ite (respects_stop _)
      apply (beside_updateNode _ _).bind
      intro _
      apply respects_state.bind
      intro touchedTx
      split
      · exact respects_stop _
      · exact (beside_markChanged _ _).bind fun _ => respects_pure _
  | none =>
      cases emptyBlob with
      | none => exact respects_pure _
      | some data => exact (beside_createFile _ _ _ _).bind fun _ => respects_pure _

theorem beside_replaceContent (node : VfsNode) (data : BlobData) :
    Beside (replaceContent host node data) := by
  apply (beside_createBlob _).bind
  intro blobId
  split
  · exact respects_stop _
  · exact respects_stop _
  · exact (beside_saveNode _).bind fun _ => (beside_markChanged _ _).bind fun _ =>
      (beside_recordLiveByteDelta _).bind fun _ =>
        (beside_decrementReferenceCount _ _).bind fun _ => respects_pure _

theorem beside_putFileContent (segments : List JsString) (parents : Bool) (newBlob : BlobData)
    (ifMatchVersion : Option Nat) (force : Bool) (expiresAt : Option Nat) :
    Beside (putFileContent host segments parents newBlob ifMatchVersion force
      expiresAt) := by
  apply (beside_lockParentChain _ _ _).bind
  intro parentId
  apply (beside_lockTargetNode _ _).bind
  intro existing
  cases existing with
  | some node =>
      exact .ite (respects_stop _) (.ite (respects_stop _) (.ite (respects_stop _)
        (beside_replaceContent _ _)))
  | none =>
      exact .ite (respects_stop _) ((beside_createFile _ _ _ _).bind fun _ => respects_pure _)

/-! ## Moves and copies -/

theorem beside_resolveSource (segments : List JsString) (markAncestors : Bool) :
    Beside (resolveSource host segments markAncestors) := by
  apply (beside_lockParentChain _ _ _).bind
  intro parentId
  apply (beside_lockTargetNode _ _).bind
  intro found
  cases found with
  | none => exact respects_stop _
  | some node => exact respects_pure _

theorem beside_lockBoth (source destination : List JsString) (parents markSource : Bool) :
    Beside (lockBoth host source destination parents markSource) :=
  .ite
    ((beside_resolveSource _ _).bind fun _ => .ite (respects_stop _)
      ((beside_lockParentChain _ _ _).bind fun _ => respects_pure _))
    ((beside_lockParentChain _ _ _).bind fun _ =>
      (beside_resolveSource _ _).bind fun _ => respects_pure _)

theorem beside_placeAt (sourceNode : VfsNode) (source : List JsString)
    (target : Option VfsNode) (nested : Bool) (parentId : Uuid) (name : JsString)
    (segments : List JsString) :
    Beside (placeAt host sourceNode source target nested parentId name segments) := by
  have ends : ∀ ending : Option VfsNode → Mutating Placement,
      ending none = pure ⟨sourceNode, parentId, name, segments⟩ →
      (∀ node, ending (some node) = stop (.alreadyExists (joinSegments segments))) →
      ∀ collision, Beside (ending collision) := by
    intro ending isNone isSome collision
    cases collision with
    | none =>
        rw [isNone]
        exact respects_pure _
    | some node =>
        rw [isSome]
        exact respects_stop _
  apply (respects_lift _).bind
  intro _
  dsimp only
  split
  · exact (beside_markChanged _ _).bind fun _ => .ite (respects_stop _)
      (.ite ((beside_lockTargetNode _ _).bind (ends _ rfl fun _ => rfl))
        ((respects_pure _).bind (ends _ rfl fun _ => rfl)))
  · exact (respects_pure _).bind fun _ => .ite (respects_stop _)
      (.ite ((beside_lockTargetNode _ _).bind (ends _ rfl fun _ => rfl))
        ((respects_pure _).bind (ends _ rfl fun _ => rfl)))

theorem beside_resolveDestinationPlacement (source destination : List JsString)
    (parents markSource : Bool) (resolution : DestinationResolution) :
    Beside (resolveDestinationPlacement host source destination parents markSource
      resolution) := by
  apply (beside_lockBoth _ _ _ _).bind
  intro both
  apply Respects.ite (.ite (respects_stop _) (beside_placeAt _ _ _ _ _ _ _))
  apply (beside_lockTargetNode _ _).bind
  intro found
  cases found with
  | none => exact beside_placeAt _ _ _ _ _ _ _
  | some target => exact .ite (beside_placeAt _ _ _ _ _ _ _) (beside_placeAt _ _ _ _ _ _ _)

theorem beside_recordMovedFile (node : VfsNode) (parentId : Uuid) :
    Beside (recordMovedFile node parentId) := by
  apply Respects.ite _ (respects_pure _)
  split
  · exact respects_stop _
  · exact (beside_recordFolderFileDelta _ _).bind fun _ => beside_recordFolderFileDelta _ _

theorem beside_moveNode (source destination : List JsString) (parents : Bool)
    (maxSyncMoveNodes : Nat) (resolution : DestinationResolution) :
    Beside (moveNode host source destination parents maxSyncMoveNodes resolution) :=
  (beside_resolveDestinationPlacement _ _ _ _ _).bind fun _ =>
    .ite (respects_stop _) (respects_state.bind fun _ => .ite (respects_stop _)
      ((beside_trackChangeFeedBefore _).bind fun _ => (respects_lift _).bind fun _ =>
        (beside_saveNode _).bind fun _ => (beside_recordMovedFile _ _).bind fun _ =>
          (beside_markChanged _ _).bind fun _ =>
            (respects_forEach (fun _ => beside_markChanged _ _) _).bind fun _ =>
              respects_pure _))

theorem beside_copyChild (expiresAt : Option Nat) (newParentId : Uuid) (child : VfsNode) :
    Beside (copyChild host expiresAt newParentId child) := by
  apply beside_drawUuid.bind
  intro newId
  apply respects_state.bind
  intro tx
  apply Respects.ite _ (respects_pure _)
  split
  · exact respects_stop _
  · exact respects_stop _
  · exact (beside_recordLiveByteDelta _).bind fun _ => respects_pure _

theorem beside_copyLevels (expiresAt : Option Nat) (rows : List VfsNode) (sourceId : Uuid)
    (fuel : Nat) (tasks : List CopyTask) :
    Beside (copyLevels host expiresAt rows sourceId fuel tasks) := by
  induction fuel generalizing tasks with
  | zero =>
      cases tasks with
      | nil => exact respects_pure _
      | cons task tasks => exact respects_stop _
  | succ fuel induction =>
      cases tasks with
      | nil => exact respects_pure _
      | cons task tasks =>
          have level : ∀ task, Beside (copyChildrenOf host expiresAt rows sourceId task) :=
            fun _ => respects_collect (fun _ => beside_copyChild _ _ _) _
          exact (respects_collect level _).bind fun _ => (induction _).bind fun _ => respects_pure _

theorem beside_copyFile (source : VfsNode) (placement : Placement) (expiresAt : Option Nat) :
    Beside (copyFile host source placement expiresAt) := by
  unfold copyFile
  split
  · exact respects_stop _
  · apply (beside_incrementReferenceCount _ _).bind
    intro _
    apply (beside_createNode _).bind
    intro created
    apply (beside_markChanged _ _).bind
    intro _
    split
    · exact respects_stop _
    · exact (beside_recordLiveByteDelta _).bind fun _ =>
        (beside_recordFolderFileDelta _ _).bind fun _ =>
          (beside_recordLiveNodeDelta _).bind fun _ => respects_pure _

theorem beside_copyDirectory (source : VfsNode) (placement : Placement) (maxSyncCopyNodes : Nat)
    (expiresAt : Option Nat) :
    Beside (copyDirectory host source placement maxSyncCopyNodes expiresAt) :=
  respects_state.bind fun _ => .ite (respects_stop _) ((respects_lift _).bind fun _ =>
    (beside_createNode _).bind fun _ => (beside_markChanged _ _).bind fun _ =>
      (beside_copyLevels _ _ _ _ _).bind fun _ =>
        (respects_forEach beside_insertNode _).bind fun _ =>
          (respects_forEach (fun _ => beside_markChanged _ _) _).bind fun _ =>
            (beside_recordLiveNodeDelta _).bind fun _ =>
              (respects_forEach (fun _ => beside_recordFolderFileDelta _ _) _).bind fun _ =>
                (respects_forEach (fun _ => beside_incrementReferenceCount _ _) _).bind fun _ =>
                  respects_pure _)

theorem beside_copyNode (source destination : List JsString) (parents : Bool)
    (maxSyncCopyNodes : Nat) (resolution : DestinationResolution) (expiresAt : Option Nat) :
    Beside (copyNode host source destination parents maxSyncCopyNodes resolution
      expiresAt) :=
  (beside_resolveDestinationPlacement _ _ _ _ _).bind fun _ =>
    .ite ((beside_copyFile _ _ _).bind fun _ => respects_pure _)
      ((beside_copyDirectory _ _ _ _).bind fun _ => respects_pure _)

/-! ## Deletes -/

theorem beside_captureSnapshotRows (segments : List JsString) (maxNodes : Nat) :
    Beside (captureSnapshotRows host segments maxNodes) := by
  apply Respects.ite (respects_stop _)
  apply respects_state.bind
  intro tx
  split
  · exact respects_stop _
  · exact respects_lift _

theorem beside_recordRemovedFiles (rows : List SnapshotSourceRow) :
    Beside (recordRemovedFiles rows) := by
  apply respects_forEach
  intro row
  split
  · exact respects_stop _
  · exact beside_recordFolderFileDelta _ _

theorem beside_deleteNodes (rows : List SnapshotSourceRow) : Beside (deleteNodes rows) :=
  respects_forEach (fun _ => beside_updateDb (by intro _; exact ⟨rfl, rfl, rfl, rfl, rfl, rfl⟩)) _

theorem beside_pinTrashBlob (entry : Uuid × Nat) : Beside (pinTrashBlob entry) :=
  (beside_incrementLiveReferenceCount _ _).bind fun _ => .ite (respects_pure _) (respects_stop _)

/-! ## Restores and purges -/

theorem beside_restoreEntry (segments : List JsString) (parentId : Uuid)
    (restored : OrderedMap JsString Uuid) (entry : TrashEntry) :
    Beside (restoreEntry host segments parentId restored entry) := by
  apply (respects_lift _).bind
  intro _
  dsimp only
  split
  · exact respects_stop _
  · apply Respects.ite (respects_stop _)
    apply Respects.ite (respects_stop _)
    apply respects_state.bind
    intro tx
    have ends : Beside (do
        recordLiveNodeDelta 1
        markChanged entry.sourceNodeId false
        return restored.set entry.relativePath entry.sourceNodeId) :=
      (beside_recordLiveNodeDelta _).bind fun _ =>
        (beside_markChanged _ _).bind fun _ => respects_pure _
    exact (beside_insertNode _).bind fun _ =>
      .ite ((beside_recordFolderFileDelta _ _).bind fun _ => ends) ends

theorem beside_restoreEntries (segments : List JsString) (parentId : Uuid)
    (entries : List TrashEntry) (restored : OrderedMap JsString Uuid) :
    Beside (restoreEntries host segments parentId entries restored) := by
  induction entries generalizing restored with
  | nil => exact respects_pure _
  | cons entry rest induction =>
      exact (beside_restoreEntry _ _ _ _).bind fun _ => induction _

theorem beside_stopPrecondition {α : Type} (node : VfsNode) (path : JsString) :
    Beside (stopPrecondition node path : Mutating α) :=
  (respects_lift _).bind fun _ => respects_stop _

/-! ## Snapshots -/

theorem beside_pinSnapshotBlob (path : JsString) (entry : Uuid × Nat) :
    Beside (pinSnapshotBlob path entry) :=
  (beside_incrementLiveReferenceCount _ _).bind fun _ => .ite (respects_pure _) (respects_stop _)

theorem beside_chargeSnapshot (limits : SnapshotLimits) (count bytes : Nat) :
    Beside (chargeSnapshot limits count bytes) :=
  respects_state.bind fun _ =>
    .ite ((beside_updateDb (by intro _; exact ⟨rfl, rfl, rfl, rfl, rfl, rfl⟩)).bind fun _ =>
      respects_update fun _ => besideManifests_same rfl rfl) (respects_stop _)

theorem beside_findForUpdate (snapshotId : Uuid) : Beside (findForUpdate snapshotId) := by
  apply respects_state.bind
  intro tx
  split
  · exact respects_stop _
  · exact respects_pure _

/-! ## Conditional mutations -/

theorem beside_assertRevision (node : VfsNode) (revision : Revision) (path : JsString) :
    Beside (assertRevision node revision path) :=
  .ite (beside_stopPrecondition _ _) (respects_pure _)

theorem beside_lockFile (path : NodePath host) (revision : Revision) :
    Beside (lockFile host path revision) := by
  apply (beside_lockParentChain _ _ _).bind
  intro parentId
  apply (beside_lockTargetNode _ _).bind
  intro target
  cases target with
  | none => exact respects_stop _
  | some target =>
      exact .ite (respects_stop _)
        ((beside_assertRevision _ _ _).bind fun _ => respects_pure _)

theorem beside_saveFile (parentId : Uuid) (target changed : VfsNode) (path : JsString) :
    Beside (saveFile host parentId target changed path) :=
  .ite (respects_stop _) ((beside_markAncestorChain _).bind fun _ =>
    (beside_saveNode _).bind fun _ => (beside_markChanged _ _).bind fun _ => respects_pure _)

theorem beside_destinationMustBeAbsent {α : Type} (error : VfsError) :
    Beside (destinationMustBeAbsent error : Mutating α) := by
  cases error with
  | alreadyExists path =>
      apply respects_state.bind
      intro tx
      split
      · exact respects_stop _
      · exact beside_stopPrecondition _ _
  | _ => exact respects_stop _

theorem beside_checkSource (source : NodePath host) (revision : Revision) :
    Beside (checkSource host source revision) := by
  apply respects_state.bind
  intro tx
  split
  · exact respects_stop _
  · exact beside_assertRevision _ _ _

theorem beside_checkContent (condition : ContentPrecondition) (existing : Option VfsNode)
    (path : JsString) : Beside (checkContent condition existing path) := by
  cases condition with
  | ifAbsent expiresInSeconds =>
      cases existing with
      | none => exact respects_pure _
      | some node => exact beside_stopPrecondition _ _
  | ifRevision revision =>
      cases existing with
      | none => exact respects_stop _
      | some node => exact beside_assertRevision _ _ _

theorem beside_exchangeBlob (path : JsString) (previous : Option Uuid) (blobId : Uuid) :
    Beside (exchangeBlob path previous blobId) := by
  apply Respects.ite (respects_pure _)
  apply (beside_incrementLiveReferenceCount _ _).bind
  intro live
  apply Respects.ite (respects_stop _)
  split
  · exact respects_pure _
  · exact beside_decrementReferenceCount _ _

theorem beside_restoreBlob (path : NodePath host) (condition : ContentPrecondition)
    (blob : RestorableBlob) : Beside (restoreBlob host path condition blob) := by
  apply (beside_lockParentChain _ _ _).bind
  intro parentId
  apply (beside_lockTargetNode _ _).bind
  intro existing
  apply Respects.ite (respects_stop _)
  apply (beside_checkContent _ _ _).bind
  intro _
  apply Respects.ite (respects_stop _)
  apply (beside_exchangeBlob _ _ _).bind
  intro _
  cases existing with
  | some node =>
      apply respects_state.bind
      intro tx
      apply (beside_updateNode _ _).bind
      intro _
      apply (beside_markChanged _ _).bind
      intro _
      split
      · exact respects_stop _
      · exact (beside_recordLiveByteDelta _).bind fun _ => respects_pure _
  | none =>
      exact (beside_createNode _).bind fun _ => (beside_markChanged _ _).bind fun _ =>
        (beside_recordLiveByteDelta _).bind fun _ =>
          (beside_recordFolderFileDelta _ _).bind fun _ =>
            (beside_recordLiveNodeDelta _).bind fun _ => respects_pure _

theorem beside_restoreSnapshot (snapshotId : Uuid) (path : NodePath host)
    (condition : ContentPrecondition) :
    Beside (restoreSnapshot host snapshotId path condition) := by
  apply (beside_findForUpdate _).bind
  intro snapshot
  apply Respects.ite (respects_stop _)
  apply respects_state.bind
  intro tx
  split
  · exact respects_stop _
  · split
    · exact beside_restoreBlob _ _ _
    · exact respects_stop _

/-! ## Extracting an archive -/

theorem beside_ensureBelow (destination : List JsString) (entry : ExtractCommitEntry)
    (visited rest : List JsString) (parent : Uuid) (directoryIds : DirectoryIds) :
    Beside (ensureBelow host destination entry visited rest parent directoryIds) := by
  induction rest generalizing visited parent directoryIds with
  | nil => exact respects_pure _
  | cons name rest induction =>
      apply (beside_lockTargetNode _ _).bind
      intro existing
      cases existing with
      | some node => exact .ite (respects_stop _) (induction _ _ _)
      | none =>
          exact (beside_trackChangeFeedBefore _).bind fun _ =>
            (beside_createParentDirectory _ _).bind fun _ => induction _ _ _

theorem beside_replaceBlob (node : VfsNode) (blobId : Uuid) (blob : BlobData) :
    Beside (replaceBlob node blobId blob) := by
  unfold replaceBlob
  split
  · exact respects_state.bind fun _ => (beside_updateNode _ _).bind fun _ =>
      (beside_markChanged _ _).bind fun _ => (beside_recordLiveByteDelta _).bind fun _ =>
        beside_decrementReferenceCount _ _
  · exact respects_stop _

theorem beside_commitFile (parentId : Uuid) (name : JsString) (blob : BlobData)
    (existing : Option VfsNode) :
    Beside (commitFile host parentId name blob existing) := by
  apply (beside_createBlob _).bind
  intro blobId
  apply (beside_markAncestorChain _).bind
  intro _
  cases existing with
  | some node => exact (beside_replaceBlob _ _ _).bind fun _ => respects_pure _
  | none =>
      exact (beside_createNode _).bind fun _ => (beside_markChanged _ _).bind fun _ =>
        (beside_recordLiveByteDelta _).bind fun _ =>
          (beside_recordFolderFileDelta _ _).bind fun _ =>
            (beside_recordLiveNodeDelta _).bind fun _ => respects_pure _

theorem beside_commitExtractEntry (destination : List JsString) (destinationId : Uuid)
    (directoryIds : DirectoryIds) (entry : ExtractCommitEntry) :
    Beside (commitExtractEntry host destination destinationId directoryIds entry) := by
  unfold commitExtractEntry
  split
  · exact (beside_ensureBelow _ _ _ _ _ _).bind fun _ => respects_pure _
  · split
    · exact respects_stop _
    · apply Respects.bind (beside_ensureBelow _ _ _ _ _ _)
      intro found
      apply (beside_lockTargetNode _ _).bind
      intro existing
      exact .ite (respects_stop _) (.ite (respects_stop _)
        ((beside_commitFile _ _ _ _).bind fun _ => respects_pure _))

theorem beside_commitExtractEntries (destination : List JsString) (destinationId : Uuid)
    (entries : List ExtractCommitEntry) (directoryIds : DirectoryIds) (created replaced : Nat) :
    Beside (commitExtractEntries host destination destinationId entries directoryIds
      created replaced) := by
  induction entries generalizing directoryIds created replaced with
  | nil => exact respects_pure _
  | cons entry rest induction =>
      apply (beside_commitExtractEntry _ _ _ _).bind
      intro outcome
      dsimp only
      split
      · exact induction _ _ _
      · exact induction _ _ _
      · exact induction _ _ _

theorem beside_checkDestination (existing : Option VfsNode) (revision : Option Revision)
    (path : JsString) : Beside (checkDestination existing revision path) := by
  unfold checkDestination
  split
  · exact respects_pure _
  · exact respects_stop _
  · exact beside_assertRevision _ _ _

/-! ## The end of a transaction -/

theorem beside_applyFolderDelta (limit : Nat) (parentId : Uuid) (delta : Int) :
    Beside (applyFolderDelta limit parentId delta) := by
  apply respects_state.bind
  intro tx
  split
  · exact .ite (respects_pure _) (respects_stop _)
  · exact .ite (respects_stop _) (.ite (respects_stop _) (beside_updateNode _ _))

theorem beside_applyNodeCounters : Beside (applyNodeCounters host) := by
  apply respects_state.bind
  intro tx
  apply Respects.ite (respects_pure _)
  have counts : Beside (setLiveNodeCount host tx.liveNodeDelta) :=
    respects_state.bind fun _ => .ite (respects_stop _) (.ite (respects_stop _)
      (beside_updateDb (by intro _; exact ⟨rfl, rfl, rfl, rfl, rfl, rfl⟩)))
  exact .ite (counts.bind fun _ => respects_forEach (fun _ => beside_applyFolderDelta _ _ _) _)
    (respects_forEach (fun _ => beside_applyFolderDelta _ _ _) _)

theorem beside_applyLogicalByteQuota : Beside (applyLogicalByteQuota host) :=
  respects_state.bind fun _ => .ite (respects_pure _) (.ite (respects_stop _)
    (.ite (respects_stop _)
      (.ite (beside_updateDb (by intro _; exact ⟨rfl, rfl, rfl, rfl, rfl, rfl⟩))
      (respects_pure _))))

theorem beside_bumpChunk (ids : List Uuid) : Beside (bumpChunk ids) :=
  respects_state.bind fun _ =>
    (beside_updateDb (by intro _; exact ⟨rfl, rfl, rfl, rfl, rfl, rfl⟩)).bind fun _ =>
    .ite (respects_stop _) (respects_pure _)

theorem beside_bumpAndReadChangedNodes : Beside (bumpAndReadChangedNodes host) :=
  respects_state.bind fun _ => (respects_forEach beside_bumpChunk _).bind fun _ =>
    respects_state.bind fun _ => (respects_lift _).bind fun _ =>
      (respects_lift _).bind fun _ => respects_pure _

theorem beside_appendChangeFeedEvents (before : NodeStates) (changedIds : List Uuid) :
    Beside (appendChangeFeedEvents host before changedIds) := by
  apply respects_state.bind
  intro tx
  apply (respects_lift _).bind
  intro after
  apply (respects_lift _).bind
  intro changes
  apply Respects.ite (respects_pure _)
  split
  · exact respects_stop _
  · exact .ite (respects_stop _) (.ite (respects_stop _) (beside_drawUuid.bind fun _ =>
      beside_updateDb (by intro _; exact ⟨rfl, rfl, rfl, rfl, rfl, rfl⟩)))

theorem beside_finish {α : Type}
    (afterBump : MutationTx → α → List AffectedRevision → Except VfsError Unit) (value : α) :
    Beside (finish host afterBump value) := by
  apply beside_applyNodeCounters.bind
  intro _
  apply beside_applyLogicalByteQuota.bind
  intro _
  apply beside_bumpAndReadChangedNodes.bind
  intro revisions
  apply respects_state.bind
  intro tx
  apply (respects_lift _).bind
  intro _
  split
  · exact respects_pure _
  · exact (beside_appendChangeFeedEvents _ _).bind fun _ => respects_pure _

end Storix
