import Storix.Invariants.Snapshots

/-! # Conditional mutations

The preconditions read the tables and stop, or leave the state as it is; the
mutations behind them are the plain ones, one save of a file row, and the
replacement of a file's content by that of a snapshot. -/

namespace Storix

open Foundation Foundation.Command

variable {host : Host} {effects : Effects} {base : Database}
  {scope : List JsString → Prop} {held : List Uuid}
  {tx : MutationTx} {fault : VfsError → Prop}

/-! ## Preconditions -/

theorem satisfies_assertRevision {node : VfsNode} {revision : Revision} {path : JsString}
    {post : Unit → MutationTx → Prop} (continues : post () tx) :
    Satisfies (assertRevision node revision path) post Expected tx := by
  unfold assertRevision
  exact satisfies_ite.mpr ⟨fun _ => satisfies_stopPrecondition, fun _ => continues⟩

theorem satisfies_checkContent {condition : ContentPrecondition} {existing : Option VfsNode}
    {path : JsString} {post : Unit → MutationTx → Prop} (continues : post () tx) :
    Satisfies (checkContent condition existing path) post Expected tx := by
  unfold checkContent
  cases condition with
  | ifAbsent _ =>
      cases existing with
      | none => exact continues
      | some node => exact satisfies_stopPrecondition
  | ifRevision revision =>
      cases existing with
      | none => trivial
      | some node => exact satisfies_assertRevision continues

theorem satisfies_checkSource {source : NodePath host} {revision : Revision}
    {post : Unit → MutationTx → Prop} (continues : post () tx) :
    Satisfies (checkSource host source revision) post Expected tx := by
  unfold checkSource
  rw [satisfies_bind, satisfies_state]
  cases resolvePathInManager tx.db tx.rootId source.segments with
  | none => trivial
  | some node => exact satisfies_assertRevision continues

theorem satisfies_destinationMustBeAbsent {α : Type} {error : VfsError}
    {post : α → MutationTx → Prop} (expected : Expected error) :
    Satisfies (destinationMustBeAbsent error) post Expected tx := by
  cases error with
  | alreadyExists path =>
      unfold destinationMustBeAbsent
      rw [satisfies_bind, satisfies_state]
      cases resolvePathInManager tx.db tx.rootId (pathSegments path) with
      | none => trivial
      | some node => exact satisfies_stopPrecondition
  | _ => exact expected

/-! ## One file row -/

theorem lockFile_spec {path : NodePath host} {revision : Revision}
    (holds : TxInv host effects base (aboveScope path.segments) held tx) :
    Satisfies (lockFile host path revision)
      (fun result next => TxInv host effects base (aboveScope path.segments) held next ∧
        Locked next result.1 path.segments.dropLast ∧ result.2 ∈ next.db.nodes ∧
        result.2.parentId = some result.1 ∧ result.2.type = .file ∧ next.Seen result.2.id ∧
        PathOf next.db.nodes result.2.id path.segments) Expected tx := by
  have whole := dropLast_append_lastSegment path.nonempty
  unfold lockFile
  rw [satisfies_bind]
  refine (lockParentChain_spec holds (fun isTrue => by cases isTrue)
    fun _ front isFront => isFront).imp ?_
  rintro parentId next ⟨inv, _, locked, _, _⟩
  rw [satisfies_bind]
  refine satisfies_lockTargetNode inv locked (fun _ => trivial) ?_
  intro node feedBefore _ member below _ reached tracked grown seen
  rw [whole] at reached
  refine satisfies_ite.mpr ⟨fun _ => trivial, fun notDirectory => ?_⟩
  rw [satisfies_bind]
  refine satisfies_assertRevision ?_
  rw [satisfies_pure]
  exact ⟨tracked, locked.grown grown, member, below, VfsNodeType.eq_file_of_ne notDirectory, seen,
    reached⟩

theorem saveFile_spec {path : NodePath host} {parentId : Uuid} {target changed : VfsNode}
    {text : JsString} (holds : TxInv host effects base (aboveScope path.segments) held tx)
    (locked : Locked tx parentId path.segments.dropLast) (member : target ∈ tx.db.nodes)
    (below : target.parentId = some parentId) (seen : tx.Seen target.id)
    (reached : PathOf tx.db.nodes target.id path.segments) (differs : changed ≠ target)
    (link : changed.link = target.link) (shaped : changed.Shaped)
    (version : changed.version = target.version) (blob : changed.blobId = target.blobId)
    (size : changed.size = target.size) (type : changed.type = target.type)
    (counts : changed.childFileCount = target.childFileCount) :
    Satisfies (saveFile host parentId target changed text)
      (fun _ next => TxInv host effects base (pathScope path.segments) held next) Expected tx := by
  have sameId : changed.id = target.id := congrArg Link.id link
  unfold saveFile
  refine satisfies_ite.mpr ⟨fun _ => trivial, fun room => ?_⟩
  rw [satisfies_bind]
  refine satisfies_markAncestorChain holds locked.reached locked.seen (fun front isFront => isFront)
    fun ancestors chained inv parentMarked still => ?_
  rw [satisfies_bind]
  refine satisfies_saveNode (findNode_ne rfl holds.tree member sameId differs) ?_
  rw [satisfies_bind]
  refine satisfies_markChanged fun marked marks => ?_
  rw [satisfies_pure]
  have loaded : Loaded (pathScope path.segments)
      { tx with changed := ancestors, ancestorChainMarked := chained } target path.segments :=
    { member := member
      reached := reached
      inScope := List.prefix_refl _
      seen := seen.imp (still target.id) fun recorded => recorded
      parentMarked := fun id isParent => by
        rw [below] at isParent
        cases isParent
        exact parentMarked
      unmarked := inv.unmarked_of_path reached (not_aboveScope_self path.nonempty) }
  have sameBlobs : fileBlobs [target] = fileBlobs [changed] := fileBlobs_congr type.symm blob.symm
  have sameSize : fileSize changed = fileSize target := by
    unfold fileSize
    rw [type, size]
  have sameMarks : marked.get = markAll ancestors.get [target.id] false := by
    rw [← sameId]
    exact marks
  have weighed : tx.liveFileByteDelta =
      tx.liveFileByteDelta + (fileSize changed - fileSize target) := by
    rw [sameSize]
    omega
  have saved := (inv.mono fun _ => pathScope_of_above).save changed loaded link shaped version
    (Nat.lt_of_not_le room) counts (List.Perm.of_eq (congrArg (· ++ held) sameBlobs)) sameMarks
    weighed
  rw [← sameId] at saved
  exact saved

theorem persistNode_spec {path : NodePath host} {revision : Revision}
    (holds : TxInv host effects base (aboveScope path.segments) held tx) :
    Satisfies (persistNode host path revision)
      (fun _ next => TxInv host effects base (pathScope path.segments) held next) Expected tx := by
  unfold persistNode
  rw [satisfies_bind]
  refine (lockFile_spec holds).imp ?_
  rintro ⟨parentId, target⟩ next ⟨inv, locked, member, below, _, seen, reached⟩
  refine satisfies_ite.mpr ⟨fun _ => inv.mono fun _ => pathScope_of_above, fun expires => ?_⟩
  refine saveFile_spec inv locked member below seen reached ?_ rfl
    (inv.layout.shapes target member) rfl rfl rfl rfl rfl
  intro same
  exact expires (congrArg VfsNode.expiresAt same).symm

theorem setMimeTypeNode_spec {path : NodePath host} {revision : Revision} {mimeType : JsString}
    (holds : TxInv host effects base (aboveScope path.segments) held tx) :
    Satisfies (setMimeTypeNode host path revision mimeType)
      (fun _ next => TxInv host effects base (pathScope path.segments) held next) Expected tx := by
  unfold setMimeTypeNode
  rw [satisfies_bind]
  refine (lockFile_spec holds).imp ?_
  rintro ⟨parentId, target⟩ next ⟨inv, locked, member, below, isFile, seen, reached⟩
  refine satisfies_ite.mpr ⟨fun _ => inv.mono fun _ => pathScope_of_above, fun other => ?_⟩
  refine saveFile_spec inv locked member below seen reached ?_ rfl ?_ rfl rfl rfl rfl rfl
  · intro same
    exact other (congrArg VfsNode.mimeType same).symm
  · have shaped := inv.layout.shapes target member
    change ContentShape target.type target.blobId target.size (some mimeType)
    unfold VfsNode.Shaped at shaped
    rw [isFile] at shaped ⊢
    exact ⟨shaped.1, shaped.2.1, rfl⟩

/-! ## Replacing the content of a file row -/

def withContent (blobId : Uuid) (size : Nat) (mimeType : JsString) (now : Nat)
    (node : VfsNode) : VfsNode :=
  { node with
    blobId := some blobId, size := some size, mimeType := some mimeType, updatedAt := now }

theorem keepsLinks_withContent {nodes : List VfsNode} {rootId : Uuid}
    (layout : Layout host nodes rootId) {node : VfsNode} (member : node ∈ nodes)
    (isFile : node.type = .file) (blobId : Uuid) (size : Nat) (mimeType : JsString) (now : Nat) :
    KeepsLinks nodes (rewriteRow node.id (withContent blobId size mimeType now)) := by
  refine keepsLinks_rewriteRow layout member _ rfl ?_ (layout.versions node member)
  change ContentShape node.type _ _ _
  rw [isFile]
  exact ⟨rfl, rfl, rfl⟩

theorem TxInv.replace {node : VfsNode} {path : List JsString} {held' : List Uuid}
    {previous : Uuid} {previousSize : Nat} (blobId : Uuid) (size : Nat) (mimeType : JsString)
    (holds : TxInv host effects base scope held tx) (member : node ∈ tx.db.nodes)
    (reached : PathOf tx.db.nodes node.id path) (inScope : scope path) (seen : tx.Seen node.id)
    (parentMarked : ∀ id, node.parentId = some id → tx.changed.get id ≠ none)
    (isFile : node.type = .file) (isBlob : node.blobId = some previous)
    (isSize : node.size = some previousSize)
    (swap : (previous :: held).Perm (blobId :: held')) {changed : OrderedMap Uuid Bool}
    (marks : changed.get = markAll tx.changed.get [node.id] true) :
    TxInv host effects base scope held'
      { tx with
        db := { tx.db with
          nodes := tx.db.nodes.map (rewriteRow node.id (withContent blobId size mimeType tx.now)) }
        changed := changed
        liveFileByteDelta := tx.liveFileByteDelta + (size - previousSize) } := by
  have keeps := keepsLinks_withContent holds.layout member isFile blobId size mimeType tx.now
  have newFile : (withContent blobId size mimeType tx.now node).type = .file := isFile
  refine holds.rewrite member keeps rfl ?_ true parentMarked (fun _ => rfl) (fun _ => rfl) seen
    reached inScope marks ?_
  · rw [fileBlobs_of_file isFile isBlob, fileBlobs_of_file newFile rfl]
    exact swap
  · rw [fileSize_of_file isFile isSize, fileSize_of_file newFile rfl]

def exchanged (previous : Option Uuid) (blobId : Uuid) (now : Nat) (blobs : List Blob) :
    List Blob :=
  match previous with
  | none => incremented blobs blobId 1
  | some previousBlobId =>
      if previousBlobId = blobId then blobs
      else decremented (incremented blobs blobId 1) previousBlobId 1 now

theorem satisfies_exchangeBlob {path : JsString} {previous : Option Uuid} {blobId : Uuid}
    (holds : TxInv host effects base scope held tx) (referenced : blobId ∈ tx.db.references ++ held)
    {post : Unit → MutationTx → Prop}
    (continues : post ()
      { tx with db := { tx.db with blobs := exchanged previous blobId tx.now tx.db.blobs } }) :
    Satisfies (exchangeBlob path previous blobId) post Expected tx := by
  unfold exchangeBlob
  cases previous with
  | none =>
      rw [if_neg (by simp), satisfies_bind]
      exact satisfies_incrementLiveReferenceCount holds.refs Nat.zero_lt_one referenced continues
  | some previousBlobId =>
      by_cases same : previousBlobId = blobId
      · rw [if_pos (congrArg some same), satisfies_pure]
        simp only [exchanged, if_pos same] at continues
        exact continues
      · simp only [exchanged, if_neg same] at continues
        rw [if_neg (by simpa using same), satisfies_bind]
        exact satisfies_incrementLiveReferenceCount holds.refs Nat.zero_lt_one referenced continues

theorem restoreBlob_spec {path : NodePath host} {condition : ContentPrecondition}
    {blob : RestorableBlob} (referenced : blob.blobId ∈ tx.db.references)
    (holds : TxInv host effects base (aboveScope path.segments) held tx) :
    Satisfies (restoreBlob host path condition blob)
      (fun _ next => TxInv host effects base (pathScope path.segments) held next) Expected tx := by
  have whole := dropLast_append_lastSegment path.nonempty
  unfold restoreBlob
  rw [satisfies_bind]
  refine (lockParentChain_spec holds (fun isTrue => by cases isTrue)
    fun _ front isFront => isFront).imp ?_
  rintro parentId next ⟨inv, _, locked, marked, sameDb, _⟩
  have isReferenced : blob.blobId ∈ next.db.references ++ held := by
    rw [sameDb rfl]
    exact List.mem_append_left _ referenced
  rw [satisfies_bind]
  refine satisfies_lockTargetNode inv locked (fun free => ?_) ?_
  · refine satisfies_ite.mpr ⟨fun _ => trivial, fun _ => ?_⟩
    rw [satisfies_bind]
    refine satisfies_checkContent ?_
    refine satisfies_ite.mpr ⟨fun _ => trivial, fun _ => ?_⟩
    rw [satisfies_bind]
    refine satisfies_exchangeBlob inv isReferenced ?_
    rw [satisfies_bind, satisfies_createNode, satisfies_bind]
    refine satisfies_markChanged fun changed marks => ?_
    rw [satisfies_bind, satisfies_recordLiveByteDelta, satisfies_bind]
    refine satisfies_recordFolderFileDelta fun folders deltas => ?_
    rw [satisfies_bind, satisfies_recordLiveNodeDelta, satisfies_pure]
    have taken := (inv.mono fun _ => pathScope_of_above).increment 1 isReferenced
    exact TxInv.createFile
      (fileColumns parentId (lastSegment path.segments) blob.blobId blob.size blob.mimeType none)
      taken rfl rfl rfl rfl ⟨locked.directory, locked.reached, locked.seen⟩ free
      (whole.symm ▸ path.valid) (marked rfl) (whole.symm ▸ List.prefix_refl _) marks deltas
  · intro node feedBefore _ member below _ reached tracked grown seen
    rw [whole] at reached
    refine satisfies_ite.mpr ⟨fun _ => trivial, fun notDirectory => ?_⟩
    rw [satisfies_bind]
    refine satisfies_checkContent ?_
    refine satisfies_ite.mpr ⟨fun _ => trivial, fun _ => ?_⟩
    have isFile : node.type = .file := by
      cases isType : node.type with
      | file => rfl
      | directory => simp [isType] at notDirectory
    rcases (inv.layout.shapes node member).file isFile with
      ⟨previous, previousSize, _, isBlob, isSize, _⟩
    rw [satisfies_bind, Option.bind_some, isBlob]
    refine satisfies_exchangeBlob tracked isReferenced ?_
    rw [satisfies_bind, satisfies_state, satisfies_bind, satisfies_updateNode, satisfies_bind]
    refine satisfies_markChanged fun changed marks => ?_
    rw [isSize, satisfies_bind, satisfies_recordLiveByteDelta, satisfies_pure]
    have parentMarked : ∀ id, node.parentId = some id → next.changed.get id ≠ none := by
      intro id isParent
      rw [below] at isParent
      cases isParent
      exact marked rfl
    have wide := tracked.mono fun _ => pathScope_of_above
    by_cases same : previous = blob.blobId
    · simp only [exchanged, if_pos same]
      exact wide.replace blob.blobId blob.size blob.mimeType member reached (List.prefix_refl _)
        seen parentMarked isFile isBlob isSize (same ▸ List.Perm.refl _) marks
    · simp only [exchanged, if_neg same]
      have swap : (previous :: (List.replicate 1 blob.blobId ++ held)).Perm
          (blob.blobId :: (List.replicate 1 previous ++ held)) := List.Perm.swap _ _ _
      exact ((wide.increment 1 isReferenced).replace blob.blobId blob.size blob.mimeType member
        reached (List.prefix_refl _) seen parentMarked isFile isBlob isSize swap marks).decrement

theorem restoreSnapshot_spec {snapshotId : Uuid} {path : NodePath host}
    {condition : ContentPrecondition}
    (holds : TxInv host effects base (aboveScope path.segments) held tx) :
    Satisfies (restoreSnapshot host snapshotId path condition)
      (fun _ next => TxInv host effects base (pathScope path.segments) held next) Expected tx := by
  unfold restoreSnapshot
  rw [satisfies_bind]
  refine satisfies_findForUpdate fun snapshot _ _ => ?_
  refine satisfies_ite.mpr ⟨fun _ => trivial, fun _ => ?_⟩
  rw [satisfies_bind, satisfies_state]
  cases found : getFileEntry tx.db snapshotId with
  | none => trivial
  | some entry =>
      have member : entry ∈ tx.db.snapshotEntries := by
        unfold getFileEntry at found
        split at found
        · cases found
        · exact List.mem_of_find?_eq_some found
      cases isBlob : entry.blobId with
      | none => simp [isBlob, Expected]
      | some blobId =>
          cases isSize : entry.size with
          | none => simp [isBlob, isSize, Expected]
          | some size =>
              cases isMime : entry.mimeType with
              | none => simp [isBlob, isSize, isMime, Expected]
              | some mimeType =>
                  simp only [isBlob, isSize, isMime]
                  refine restoreBlob_spec (List.mem_append_right _ ?_) holds
                  exact List.mem_filterMap.mpr ⟨entry, member, isBlob⟩

/-! ## The commands -/

def conditionalScope : ConditionalMutation host → List JsString → Prop
  | .mkdir path, front => pathScope path.segments front
  | .delete path _ _, front => aboveScope path.segments front
  | .persist path _, front => pathScope path.segments front
  | .setMimeType path _ _, front => pathScope path.segments front
  | .move source destination _ _, front => moveScope source.segments destination.segments front
  | .copy _ destination _ _ _, front => front <+: destination.segments

def conditionalRemoves : ConditionalMutation host → List JsString → Prop
  | .delete path _ _, front => path.segments <+: front
  | _, _ => False

theorem satisfies_rescue {α : Type} {command : Mutating α} {post : α → MutationTx → Prop}
    (holds : Satisfies command post Expected tx) :
    Satisfies (rescue command destinationMustBeAbsent) post Expected tx :=
  holds.rescue fun _ expected => satisfies_destinationMustBeAbsent expected

/-- At the start of a transaction nothing is marked, so every scope is right. -/
theorem applyConditionalMutation_spec (command : ConditionalMutation host)
    (fromStart : tx.db = base) (start : ∀ scope, TxInv host effects base scope held tx)
    (removes : ∀ path, conditionalRemoves command path → effects.removes path) :
    Satisfies (applyConditionalMutation host command)
      (fun _ next => TxDone host effects base (conditionalScope command) held next)
        Expected tx := by
  cases command with
  | mkdir path =>
      unfold applyConditionalMutation
      rw [satisfies_bind, satisfies_state]
      cases resolvePathInManager tx.db tx.rootId path.segments with
      | some existing => exact satisfies_stopPrecondition
      | none =>
          rw [satisfies_bind]
          refine (ensureDirectory_spec false (start _) path.nonempty path.valid
            fun front isFront => isFront).imp ?_
          exact fun _ _ done => done.1.toTxDone
  | delete path revision recursive =>
      unfold applyConditionalMutation
      rw [satisfies_bind, satisfies_state]
      cases resolvePathInManager tx.db tx.rootId path.segments with
      | none => trivial
      | some target =>
          rw [satisfies_bind]
          refine satisfies_assertRevision ?_
          have outside := not_aboveScope_self path.nonempty
          have inside : ∀ rest, effects.removes (path.segments ++ rest) :=
            fun rest => removes _ (List.prefix_append _ _)
          refine satisfies_ite.mpr ⟨fun _ => ?_, fun _ => ?_⟩
          · rw [satisfies_bind]
            refine (removeEmptyDirectory_spec path.nonempty (start (aboveScope path.segments))
              (fun front isFront => isFront) outside inside).imp ?_
            exact fun _ _ done => done.toTxDone
          · rw [satisfies_bind]
            refine (removeNode_spec path.nonempty (start (aboveScope path.segments))
              (fun front isFront => isFront) outside inside).imp ?_
            exact fun _ _ done => done.toTxDone
  | persist path revision =>
      exact (persistNode_spec (start _)).imp fun _ _ done => done.toTxDone
  | setMimeType path revision mimeType =>
      exact (setMimeTypeNode_spec (start _)).imp fun _ _ done => done.toTxDone
  | move source destination revision resolution =>
      unfold applyConditionalMutation
      rw [satisfies_bind]
      refine satisfies_checkSource ?_
      rw [satisfies_bind, satisfies_state, satisfies_bind]
      refine (satisfies_rescue (moveNode_spec source.nonempty destination.valid (start _))).imp ?_
      exact fun _ _ done => done
  | copy source destination revision resolution expiresInSeconds =>
      unfold applyConditionalMutation
      rw [satisfies_bind]
      refine satisfies_checkSource ?_
      rw [satisfies_bind, satisfies_state, satisfies_bind]
      refine (satisfies_rescue (copyNode_spec source.nonempty destination.valid
        (congrArg Database.nodes fromStart) (start _))).imp ?_
      exact fun _ _ done => done

theorem putConditionalContent_spec {path : NodePath host} {condition : ContentPrecondition}
    {blob : BlobData} (isStored : effects.stores blob)
    (holds : TxInv host effects base (aboveScope path.segments) held tx) :
    Satisfies (putConditionalContent host path condition blob)
      (fun _ next => TxInv host effects base (pathScope path.segments) held next) Expected tx := by
  unfold putConditionalContent
  rw [satisfies_bind, satisfies_state, satisfies_bind]
  exact satisfies_checkContent (putFileContent_spec path.nonempty path.valid isStored holds)

end Storix
