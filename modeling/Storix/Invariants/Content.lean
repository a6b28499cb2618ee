import Storix.Invariants.Locks

/-! # File content

Touching, writing and replacing files keeps the transaction invariant. -/

namespace Storix

open Foundation Foundation.Command

variable {host : Host} {effects : Effects} {base : Database}
  {scope : List JsString → Prop} {held : List Uuid}
  {tx : MutationTx} {fault : VfsError → Prop}

/-! ## Scopes -/

def aboveScope (segments front : List JsString) : Prop := front <+: segments.dropLast

def pathScope (segments front : List JsString) : Prop := front <+: segments

theorem dropLast_append_lastSegment {segments : List JsString} (nonempty : segments ≠ []) :
    segments.dropLast ++ [lastSegment segments] = segments := by
  unfold lastSegment
  rw [List.getLastD_eq_getLast?, List.getLast?_eq_getLast_of_ne_nil nonempty, Option.getD_some]
  exact List.dropLast_append_getLast nonempty

theorem pathScope_of_above {segments front : List JsString}
    (above : aboveScope segments front) : pathScope segments front :=
  above.trans (List.dropLast_prefix segments)

theorem not_aboveScope_self {segments : List JsString} (nonempty : segments ≠ []) :
    ¬aboveScope segments segments := by
  intro isFront
  have bound := isFront.length_le
  have positive := List.length_pos_of_ne_nil nonempty
  rw [List.length_dropLast] at bound
  omega

/-! ## New files -/

theorem TxInv.createFile (columns : NewNode) {blobId : Uuid} {size : Nat}
    {front : List JsString}
    (holds : TxInv host effects base scope (blobId :: held) tx)
    (isFile : columns.type = .file) (isBlob : columns.blobId = some blobId)
    (isSize : columns.size = some size) (hasMime : columns.mimeType.isSome = true)
    (locked : Locked tx columns.parentId front)
    (free : tx.db.findChild columns.parentId columns.name = none)
    (valid : ValidPath host (front ++ [columns.name]))
    (marked : tx.changed.get columns.parentId ≠ none) (inScope : scope (front ++ [columns.name]))
    {changed : OrderedMap Uuid Bool} {folders : OrderedMap Uuid Int}
    (marks : changed.get = markAll tx.changed.get [host.randomUUID tx.db.issued] false)
    (deltas : ∀ id, (folders.get id).getD 0 =
      tx.folderDelta id + if id = columns.parentId then 1 else 0) :
    TxInv host effects base scope held
      { tx with
        db := { tx.db with
          issued := tx.db.issued + 1
          nodes := tx.db.nodes ++ [columns.row (host.randomUUID tx.db.issued) tx.now] }
        changed := changed
        folderFileDeltas := folders
        liveNodeDelta := tx.liveNodeDelta + 1
        liveFileByteDelta := tx.liveFileByteDelta + size } := by
  have refers : fileBlobs [columns.row (host.randomUUID tx.db.issued) tx.now] = [blobId] := by
    simp [fileBlobs, NewNode.row, isFile, isBlob]
  have start : TxInv host effects base scope
      (fileBlobs [columns.row (host.randomUUID tx.db.issued) tx.now] ++ held) tx := by
    rw [refers]
    exact holds
  refine start.create columns locked.directory locked.reached
    (fun other member below => findChild_eq_none free member below) valid ?_ marked inScope marks
    ?_ rfl ?_
  · rw [isFile, isBlob, isSize]
    exact ⟨rfl, rfl, hasMime⟩
  · intro id
    rw [deltas id]
    simp only [fileBelow, NewNode.row, isFile, true_and, Option.some.injEq]
    simp only [eq_comm]
  · simp [fileSize, NewNode.row, isFile, isSize]

theorem satisfies_createFile (holds : TxInv host effects base scope held tx) {parentId : Uuid}
    {front : List JsString} {name : JsString} {data : BlobData} {expiresAt : Option Nat}
    (isStored : effects.stores data) (locked : Locked tx parentId front)
    (free : tx.db.findChild parentId name = none)
    (valid : ValidPath host (front ++ [name])) (marked : tx.changed.get parentId ≠ none)
    (inScope : scope (front ++ [name])) :
    Satisfies (createFile host parentId name data expiresAt)
      (fun _ next => TxInv host effects base scope held next) fault tx := by
  unfold createFile
  simp only [satisfies_bind, satisfies_createBlob, satisfies_createNode]
  refine satisfies_markChanged fun changed marks => ?_
  rw [satisfies_recordLiveByteDelta]
  refine satisfies_recordFolderFileDelta fun folders deltas => ?_
  rw [satisfies_recordLiveNodeDelta, satisfies_pure]
  exact (holds.createBlob isStored).createFile
    (fileColumns parentId name (host.randomUUID tx.db.issued) data.size data.mimeType expiresAt)
    rfl rfl rfl rfl ⟨locked.directory, locked.reached, locked.seen⟩ free valid marked inScope marks
    deltas

/-! ## Rewritten files -/

/-- A row may be rewritten where its links and the shape of its columns stay. -/
theorem keepsLinks_rewriteRow {nodes : List VfsNode} {rootId : Uuid}
    (layout : Layout host nodes rootId) {old : VfsNode} (member : old ∈ nodes)
    (transform : VfsNode → VfsNode) (link : (transform old).link = old.link)
    (shaped : (transform old).Shaped) (numbered : (transform old).Numbered) :
    KeepsLinks nodes (rewriteRow old.id transform) := by
  have image : ∀ node ∈ nodes, node = old ∧ rewriteRow old.id transform node = transform old ∨
      rewriteRow old.id transform node = node := by
    intro node nodeMember
    by_cases same : node.id = old.id
    · have equal := layout.tree.eq_of_id nodeMember member same
      exact .inl ⟨equal, by rw [rewriteRow, if_pos same, equal]⟩
    · exact .inr (if_neg same)
  refine ⟨fun node nodeMember => ?_, fun node nodeMember => ?_, fun node nodeMember => ?_⟩
  · rcases image node nodeMember with ⟨rfl, next⟩ | next
    · rw [next, link]
    · rw [next]
  · rcases image node nodeMember with ⟨rfl, next⟩ | next
    · rw [next]
      exact shaped
    · rw [next]
      exact layout.shapes node nodeMember
  · rcases image node nodeMember with ⟨rfl, next⟩ | next
    · rw [next]
      exact numbered
    · rw [next]
      exact layout.versions node nodeMember

/-- A loaded file whose parent is marked and which has not been changed yet. -/
structure Loaded (scope : List JsString → Prop) (tx : MutationTx) (node : VfsNode)
    (path : List JsString) : Prop where
  member : node ∈ tx.db.nodes
  reached : PathOf tx.db.nodes node.id path
  inScope : scope path
  seen : tx.Seen node.id
  parentMarked : ∀ id, node.parentId = some id → tx.changed.get id ≠ none
  unmarked : tx.changed.get node.id = none

theorem findNode_ne {nodes : List VfsNode} {db : Database} (isNodes : db.nodes = nodes)
    (tree : Rooted nodes) {node changed : VfsNode} (member : node ∈ nodes)
    (same : changed.id = node.id) (differs : changed ≠ node) :
    db.findNode changed.id ≠ some changed := by
  rw [same]
  unfold Database.findNode
  rw [isNodes, find_eq_some_of_mem tree member]
  intro equal
  exact differs (Option.some.inj equal).symm

/-- Save a changed row that keeps its place. The version goes up with the save. -/
theorem TxInv.save {node : VfsNode} (changed : VfsNode) {path : List JsString}
    {held' : List Uuid} (holds : TxInv host effects base scope held tx)
    (loaded : Loaded scope tx node path)
    (link : changed.link = node.link) (shaped : changed.Shaped)
    (version : changed.version = node.version) (room : node.version < MAX_VFS_VERSION)
    (counts : changed.childFileCount = node.childFileCount)
    (swap : (fileBlobs [node] ++ held).Perm (fileBlobs [changed] ++ held'))
    {marked : OrderedMap Uuid Bool} {byteDelta : Int}
    (marks : marked.get = markAll tx.changed.get [node.id] false)
    (weighed : byteDelta = tx.liveFileByteDelta + (fileSize changed - fileSize node)) :
    TxInv host effects base scope held'
      { tx with
        db := { tx.db with
          nodes := tx.db.nodes.map (rewriteRow node.id fun _ =>
            { changed with version := changed.version + 1, updatedAt := tx.now }) }
        changed := marked
        liveFileByteDelta := byteDelta } := by
  let saved : VfsNode := { changed with version := changed.version + 1, updatedAt := tx.now }
  have sameBlobs : fileBlobs [changed] = fileBlobs [saved] := fileBlobs_congr rfl rfl
  rw [sameBlobs] at swap
  refine holds.rewrite loaded.member ?_ counts swap false loaded.parentMarked (fun _ => ?_)
    (fun again => absurd loaded.unmarked again) loaded.seen loaded.reached loaded.inScope marks
    weighed
  · refine keepsLinks_rewriteRow holds.layout loaded.member _ link shaped ⟨?_, ?_⟩
    · exact Nat.le_add_left 1 _
    · change changed.version + 1 ≤ MAX_VFS_VERSION
      omega
  · simp [version]

theorem touchFile_spec {segments : List JsString} {parents : Bool} {emptyBlob : Option BlobData}
    (nonempty : segments ≠ []) (valid : ValidPath host segments)
    (isStored : ∀ data, emptyBlob = some data → effects.stores data)
    (holds : TxInv host effects base (aboveScope segments) held tx) :
    Satisfies (touchFile host segments parents emptyBlob)
      (fun _ next => TxInv host effects base (pathScope segments) held next) Expected tx := by
  have whole := dropLast_append_lastSegment nonempty
  unfold touchFile
  rw [satisfies_bind]
  refine (lockParentChain_spec holds (fun _ => valid.of_prefix (List.dropLast_prefix _))
    fun _ front isFront => isFront).imp ?_
  rintro parentId next ⟨inv, _, locked, marked, _⟩
  rw [satisfies_bind]
  refine satisfies_lockTargetNode inv locked (fun free => ?_) ?_
  · cases emptyBlob with
    | none => exact inv.mono fun _ => pathScope_of_above
    | some data =>
        simp only [satisfies_bind]
        refine (satisfies_createFile (inv.mono fun _ => pathScope_of_above) (isStored data rfl)
          locked free (by rw [whole]; exact valid) (marked rfl) ?_).imp fun _ _ created => created
        rw [whole]
        exact List.prefix_refl _
  · intro node feedBefore _ member below sameName reached tracked _ seen
    rw [whole] at reached
    refine satisfies_ite.mpr ⟨fun _ => trivial, fun _ => ?_⟩
    simp only [satisfies_bind, satisfies_state]
    refine satisfies_ite.mpr ⟨fun _ => trivial, fun single => ?_⟩
    rw [not_not] at single
    have room : node.version < MAX_VFS_VERSION := by
      rcases List.length_eq_one_iff.mp single with ⟨other, only⟩
      have inside : other ∈ next.db.nodes.filter fun candidate =>
          candidate.id = node.id ∧ candidate.version < MAX_VFS_VERSION := by
        rw [only]
        simp
      have parts := List.mem_filter.mp inside
      simp only [decide_eq_true_eq] at parts
      rw [← inv.tree.eq_of_id parts.1 member parts.2.1]
      exact parts.2.2
    have unmarked := tracked.unmarked_of_path reached (not_aboveScope_self nonempty)
    have layout := tracked.layout
    have keeps := keepsLinks_rewriteRow layout member
      (fun other => { other with version := other.version + 1, updatedAt := next.now })
      rfl (layout.shapes node member) ⟨Nat.le_add_left 1 _, room⟩
    rw [satisfies_bind, satisfies_updateNode]
    simp only [satisfies_bind, satisfies_state]
    have found : ({ next.db with
        nodes := next.db.nodes.map (rewriteRow node.id fun other =>
          { other with version := other.version + 1, updatedAt := next.now }) } : Database).findNode
        node.id = some { node with version := node.version + 1, updatedAt := next.now } := by
      have inside := List.mem_map_of_mem member (f := rewriteRow node.id fun other =>
        { other with version := other.version + 1, updatedAt := next.now })
      rw [rewriteRow, if_pos rfl] at inside
      exact find_eq_some_of_mem (layout.rewrite keeps).tree inside
    rw [found]
    simp only [satisfies_bind]
    refine satisfies_markChanged fun changed marks => ?_
    rw [satisfies_pure]
    have sameBlobs : fileBlobs [node] = fileBlobs
        [{ node with version := node.version + 1, updatedAt := next.now }] :=
      fileBlobs_congr rfl rfl
    refine (tracked.mono fun _ => pathScope_of_above).rewrite member keeps rfl
      (by rw [sameBlobs]) false ?_ (fun _ => rfl) (fun again => absurd unmarked again) seen reached
      (List.prefix_refl _) marks ?_
    · intro id isParent
      rw [below] at isParent
      cases isParent
      exact marked rfl
    · simp [fileSize]

theorem fileBlobs_of_file {node : VfsNode} {blobId : Uuid} (isFile : node.type = .file)
    (isBlob : node.blobId = some blobId) : fileBlobs [node] = [blobId] := by
  simp [fileBlobs, isFile, isBlob]

theorem fileSize_of_file {node : VfsNode} {size : Nat} (isFile : node.type = .file)
    (isSize : node.size = some size) : fileSize node = size := by
  simp [fileSize, isFile, isSize]

theorem mem_references_of_file {db : Database} {node : VfsNode} (member : node ∈ db.nodes)
    (isFile : node.type = .file) {blobId : Uuid} (isBlob : node.blobId = some blobId) :
    blobId ∈ db.references := by
  refine List.mem_append_left _ (List.mem_append_left _ ?_)
  exact List.mem_filterMap.mpr ⟨node, List.mem_filter.mpr ⟨member, by simpa using isFile⟩, isBlob⟩

theorem satisfies_replaceContent {node : VfsNode} {path : List JsString} {data : BlobData}
    (holds : TxInv host effects base scope held tx) (loaded : Loaded scope tx node path)
    (isFile : node.type = .file) (room : node.version < MAX_VFS_VERSION)
    (isStored : effects.stores data) :
    Satisfies (replaceContent host node data)
      (fun _ next => TxInv host effects base scope held next) fault tx := by
  rcases (holds.layout.shapes node loaded.member).file isFile with
    ⟨previous, previousSize, mimeType, isBlob, isSize, _⟩
  have fresh := holds.freshId
  have used : ∃ blob ∈ tx.db.blobs, blob.id = previous :=
    holds.refs.present previous (List.mem_append_left _
      (mem_references_of_file loaded.member isFile isBlob))
  have different : previous ≠ host.randomUUID tx.db.issued := by
    rintro rfl
    rcases used with ⟨blob, member, same⟩
    exact fresh.blob (same ▸ List.mem_map_of_mem member)
  unfold replaceContent
  simp only [satisfies_bind, satisfies_createBlob, isBlob, isSize]
  let changed : VfsNode :=
    { node with
      blobId := some (host.randomUUID tx.db.issued), size := some data.size,
      mimeType := some data.mimeType }
  refine satisfies_saveNode ?_ ?_
  · refine findNode_ne rfl holds.tree loaded.member rfl fun same => different ?_
    have blobs := congrArg VfsNode.blobId same
    rw [isBlob] at blobs
    exact (Option.some.inj blobs).symm
  · refine satisfies_markChanged fun marked marks => ?_
    rw [satisfies_recordLiveByteDelta, satisfies_decrementReferenceCount, satisfies_pure]
    have created := holds.createBlob isStored
    have reloaded : Loaded scope
        { tx with
          db := { tx.db with
            issued := tx.db.issued + 1
            blobs := tx.db.blobs ++
              [{ toBlobData := data, id := host.randomUUID tx.db.issued, referenceCount := 1,
                 zeroSince := none, createdAt := tx.now }] } } node path :=
      ⟨loaded.member, loaded.reached, loaded.inScope, loaded.seen, loaded.parentMarked,
        loaded.unmarked⟩
    have oldBlobs := fileBlobs_of_file isFile isBlob
    have newBlobs : fileBlobs [changed] = [host.randomUUID tx.db.issued] :=
      fileBlobs_of_file isFile rfl
    have swap : (fileBlobs [node] ++ host.randomUUID tx.db.issued :: held).Perm
        (fileBlobs [changed] ++ (List.replicate 1 previous ++ held)) := by
      rw [oldBlobs, newBlobs]
      exact List.Perm.swap _ _ _
    have newSize : fileSize changed = data.size := fileSize_of_file isFile rfl
    have weighed : tx.liveFileByteDelta + ((data.size : Int) - previousSize) =
        tx.liveFileByteDelta + (fileSize changed - fileSize node) := by
      rw [newSize, fileSize_of_file isFile isSize]
    have shaped : changed.Shaped := by
      change ContentShape node.type _ _ _
      rw [isFile]
      exact ⟨rfl, rfl, rfl⟩
    exact (created.save changed reloaded rfl shaped rfl room rfl swap marks weighed).decrement

theorem putFileContent_spec {segments : List JsString} {parents : Bool} {newBlob : BlobData}
    {ifMatchVersion : Option Nat} {force : Bool} {expiresAt : Option Nat}
    (nonempty : segments ≠ []) (valid : ValidPath host segments) (isStored : effects.stores newBlob)
    (holds : TxInv host effects base (aboveScope segments) held tx) :
    Satisfies (putFileContent host segments parents newBlob ifMatchVersion force expiresAt)
      (fun _ next => TxInv host effects base (pathScope segments) held next) Expected tx := by
  have whole := dropLast_append_lastSegment nonempty
  unfold putFileContent
  rw [satisfies_bind]
  refine (lockParentChain_spec holds (fun _ => valid.of_prefix (List.dropLast_prefix _))
    fun _ front isFront => isFront).imp ?_
  rintro parentId next ⟨inv, _, locked, marked, _⟩
  rw [satisfies_bind]
  refine satisfies_lockTargetNode inv locked (fun free => ?_) ?_
  · refine satisfies_ite.mpr ⟨fun _ => trivial, fun _ => ?_⟩
    simp only [satisfies_bind]
    refine (satisfies_createFile (inv.mono fun _ => pathScope_of_above) isStored locked free
      (by rw [whole]; exact valid) (marked rfl) ?_).imp fun _ _ created => created
    rw [whole]
    exact List.prefix_refl _
  · intro node feedBefore _ member below sameName reached tracked _ seen
    rw [whole] at reached
    refine satisfies_ite.mpr ⟨fun _ => trivial, fun notDirectory => ?_⟩
    refine satisfies_ite.mpr ⟨fun _ => trivial, fun room => ?_⟩
    refine satisfies_ite.mpr ⟨fun _ => trivial, fun _ => ?_⟩
    have isFile := VfsNodeType.eq_file_of_ne notDirectory
    refine satisfies_replaceContent (tracked.mono fun _ => pathScope_of_above)
      ⟨member, reached, List.prefix_refl _, seen, ?_, ?_⟩ isFile (by omega)
      isStored
    · intro id isParent
      rw [below] at isParent
      cases isParent
      exact marked rfl
    · exact tracked.unmarked_of_path reached (not_aboveScope_self nonempty)

end Storix
