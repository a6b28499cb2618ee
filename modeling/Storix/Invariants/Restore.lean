import Storix.Invariants.Removal

/-! # Restoring and purging trash items

The code adds the rows of a manifest before it takes the item out of the trash. The
invariant speaks about the companion state in which the item is already out: the
loop does not look at the trash tables, so both orders lead to the same state. -/

namespace Storix

open Foundation Foundation.Command

variable {host : Host} {effects : Effects} {base : Database}
  {scope : List JsString → Prop} {held : List Uuid}
  {tx : MutationTx} {fault : VfsError → Prop}

/-! ## Taking an item out of the trash -/

def entriesOf (db : Database) (item : TrashItem) : List TrashEntry :=
  postings TrashEntry.trashId db.trashEntries item.id

/-- The state without the item, with `bytes` more live bytes. -/
def consumed (item : TrashItem) (bytes : Int) (tx : MutationTx) : MutationTx :=
  { tx with
    db := { tx.db with
      namespaceRow := { tx.db.namespaceRow with
        retainedTrashNodeCount := tx.db.namespaceRow.retainedTrashNodeCount - item.nodeCount
        retainedTrashByteCount := tx.db.namespaceRow.retainedTrashByteCount - item.logicalBytes }
      trash := tx.db.trash.filter fun other => other.id ≠ item.id
      trashEntries := tx.db.trashEntries.filter fun entry => entry.trashId ≠ item.id }
    trashByteDelta := tx.trashByteDelta - item.logicalBytes
    liveFileByteDelta := tx.liveFileByteDelta + bytes }

theorem TxInv.unpack (holds : TxInv host effects base scope held tx) {item : TrashItem}
    (member : item ∈ tx.db.trash) :
    TxInv host effects base scope (manifestBlobs (entriesOf tx.db item) ++ held)
      (consumed item 0 tx) := by
  have kept : ∀ entry ∈ tx.db.trashEntries.filter (fun entry => decide (entry.trashId ≠ item.id)),
      entry ∈ tx.db.trashEntries := fun entry isEntry => (List.mem_filter.mp isEntry).1
  refine
    { holds with
      books := ?_
      refs := ?_
      trash := holds.trash.unpack member
      issued := ?_
      separate := fun entry isEntry => holds.separate entry (kept entry isEntry)
      origins := fun entry isEntry => holds.origins entry (kept entry isEntry)
      row := { holds.row with trashBytes := ?_ } }
  · refine holds.books.congr rfl ?_ fun _ => rfl
    change _ = tx.db.namespaceRow.liveFileByteCount + (tx.liveFileByteDelta + 0)
    omega
  · refine holds.refs.perm (List.perm_iff_count.mpr fun id => ?_)
    have split := (List.filter_append_perm
      (fun entry : TrashEntry => decide (entry.trashId = item.id)) tx.db.trashEntries).symm
    have counts := ((split.filter fun entry => decide (entry.type = .file)).filterMap
      TrashEntry.blobId).count_eq id
    simp only [Database.references, consumed, manifestBlobs, entriesOf, postings,
      List.filter_append, List.filterMap_append, List.count_append] at counts ⊢
    simp only [ne_eq, decide_not]
    omega
  · refine { holds.issued with sources := ?_, trash := ?_ }
    · exact fun entry isEntry => holds.issued.sources entry (kept entry isEntry)
    · intro id isItem
      rcases List.mem_map.mp isItem with ⟨other, isOther, rfl⟩
      exact holds.issued.trash _ (List.mem_map_of_mem (List.mem_filter.mp isOther).1)
  · have moved := holds.row.trashBytes
    simp only [consumed]
    omega

structure LoadedItem (tx : MutationTx) (trashId : Uuid) (item : LockedTrashItem) : Prop where
  found : tx.db.trash.find? (fun other => other.id == trashId) = some item.trash
  entries : item.entries.Perm (entriesOf tx.db item.trash)

theorem LoadedItem.member {trashId : Uuid} {item : LockedTrashItem}
    (loaded : LoadedItem tx trashId item) : item.trash ∈ tx.db.trash :=
  List.mem_of_find?_eq_some loaded.found

theorem findForMutation_spec (holds : TxInv host effects base scope held tx) {trashId : Uuid} :
    Satisfies (findForMutation host trashId)
      (fun item next => next = tx ∧ LoadedItem tx trashId item) Expected tx := by
  unfold findForMutation
  rw [satisfies_bind, satisfies_state]
  cases found : tx.db.trash.find? fun item => item.id == trashId with
  | none => trivial
  | some item =>
      have member := List.mem_of_find?_eq_some found
      have isId : item.id = trashId := by simpa using List.find?_some found
      subst isId
      have perm := host.rowOrder_perm (entriesOf tx.db item)
      have counted := holds.trash.item_nodeCount member
      refine satisfies_ite.mpr ⟨fun mismatch => absurd ?_ mismatch, fun _ => ?_⟩
      · rw [counted]
        exact congrArg Nat.cast perm.length_eq
      · exact ⟨rfl, found, perm⟩

theorem LoadedItem.bytes {trashId : Uuid} {item : LockedTrashItem}
    (loaded : LoadedItem tx trashId item)
    (holds : TxInv host effects base scope held tx) :
    (manifestBytes item.entries : Int) = item.trash.logicalBytes := by
  rw [holds.trash.item_logicalBytes loaded.member, manifestBytes_eq_sum, manifestBytes_eq_sum]
  exact (loaded.entries.map _).sum_eq

theorem LoadedItem.manifest {trashId : Uuid} {item : LockedTrashItem}
    (loaded : LoadedItem tx trashId item)
    (holds : TxInv host effects base scope held tx) : Manifest item.trash.rootNodeId item.entries :=
  (holds.trash.manifests _ loaded.member).perm loaded.entries.symm

theorem satisfies_consumeTrash {item : LockedTrashItem} {entries : List TrashEntry}
    {nodeCount byteCount : Int} (books : TrashBooks tx.db.trash entries nodeCount byteCount)
    (nodes : tx.db.namespaceRow.retainedTrashNodeCount = nodeCount)
    (bytes : tx.db.namespaceRow.retainedTrashByteCount = byteCount)
    (member : item.trash ∈ tx.db.trash) {post : Unit → MutationTx → Prop}
    (continues : post () (consumed item.trash 0 tx)) :
    Satisfies (consumeTrash item) post fault tx := by
  have bounds := books.item_le member
  have once : (tx.db.trash.filter fun other => other.id = item.trash.id).length = 1 := by
    rw [← List.countP_eq_length_filter]
    have counted := List.count_eq_one_of_mem books.nodes.keys (List.mem_map_of_mem member)
    rw [List.count, List.countP_map] at counted
    rw [← counted]
    refine List.countP_congr fun other _ => ?_
    simp
  unfold consumeTrash
  rw [satisfies_bind, satisfies_state]
  refine satisfies_ite.mpr ⟨fun negative => ?_, fun _ => ?_⟩
  · rw [nodes, bytes] at negative
    omega
  · refine satisfies_ite.mpr ⟨fun other => absurd once other, fun _ => ?_⟩
    rw [satisfies_bind, satisfies_updateDb, satisfies_update]
    have same : consumed item.trash 0 tx = { consumed item.trash 0 tx with
        liveFileByteDelta := tx.liveFileByteDelta } := by
      unfold consumed
      simp
    rw [same] at continues
    exact continues

theorem purgeTrashItem_spec {trashId : Uuid} (holds : TxInv host effects base scope held tx) :
    Satisfies (purgeTrashItem host trashId)
      (fun _ next => TxInv host effects base scope held next) Expected tx := by
  unfold purgeTrashItem
  rw [satisfies_bind]
  refine (findForMutation_spec holds).imp ?_
  rintro item next ⟨rfl, loaded⟩
  refine satisfies_ite.mpr ⟨fun missing => ?_, fun _ => ?_⟩
  · rcases List.any_eq_true.mp missing with ⟨entry, isEntry, bad⟩
    have shaped := (loaded.manifest holds).shaped entry isEntry
    simp only [Bool.and_eq_true, beq_iff_eq, Bool.or_eq_true] at bad
    rw [bad.1] at shaped
    rcases bad.2 with noBlob | noSize
    · rw [Option.isNone_iff_eq_none] at noBlob
      simp [ContentShape, noBlob] at shaped
    · rw [Option.isNone_iff_eq_none] at noSize
      simp [ContentShape, noSize] at shaped
  · refine satisfies_ite.mpr
      ⟨fun mismatch => absurd (loaded.bytes holds) mismatch, fun _ => ?_⟩
    rw [satisfies_bind]
    refine satisfies_consumeTrash holds.trash rfl rfl loaded.member ?_
    have blobs : (manifestBlobs item.entries).Perm (manifestBlobs (entriesOf _ item.trash)) :=
      (loaded.entries.filter _).filterMap _
    rw [satisfies_forEach_decrementReferenceCount]
    exact (holds.unpack loaded.member).decrementAll _ ((expandCounts_sortedCounts _).trans blobs)

/-! ## Restoring the rows -/

def TrashEntry.depth (entry : TrashEntry) : Nat := (relativeSegments entry.relativePath).length

def TrashEntry.target (segments : List JsString) (entry : TrashEntry) : List JsString :=
  segments ++ relativeSegments entry.relativePath

def restoredRow (segments : List JsString) (now : Nat) (nodeParentId : Uuid)
    (entry : TrashEntry) : VfsNode where
  id := entry.sourceNodeId
  parentId := some nodeParentId
  type := entry.type
  name := if relativeSegments entry.relativePath = [] then lastSegment segments
    else lastSegment (relativeSegments entry.relativePath)
  blobId := entry.blobId
  size := entry.size
  mimeType := entry.mimeType
  childFileCount := 0
  expiresAt := none
  createdAt := entry.createdAt
  updatedAt := now
  version := entry.sourceRevision.version + 1

/-- What holds between two entries: `done` are restored, `rest` are not. -/
structure Restoring (host : Host) (effects : Effects) (base : Database)
    (scope : List JsString → Prop) (held : List Uuid) (tx : MutationTx) (item : TrashItem)
    (segments : List JsString) (parentId : Uuid) (done rest : List TrashEntry)
    (restored : OrderedMap JsString Uuid) (next : MutationTx) : Prop where
  holds : TxInv host effects base scope (manifestBlobs rest ++ held)
    (consumed item (manifestBytes done) next)
  frame : next.db = { tx.db with nodes := next.db.nodes }
  parent : Locked next parentId segments.dropLast ∧ next.changed.get parentId ≠ none
  known : ∀ entry ∈ done, restored.get entry.relativePath = some entry.sourceNodeId
  placed : ∀ entry ∈ done, PathOf next.db.nodes entry.sourceNodeId (entry.target segments) ∧
    next.changed.get entry.sourceNodeId ≠ none ∧
    ∃ nodeParentId, restoredRow segments next.now nodeParentId entry ∈ next.db.nodes
  grown : ∃ added, next.db.nodes = tx.db.nodes ++ added ∧
    ∀ node ∈ added, ∃ entry ∈ done, node.id = entry.sourceNodeId
  vacant : ∀ entry ∈ rest, ∀ id, ¬PathOf next.db.nodes id (entry.target segments)
  fresh : ∀ entry ∈ rest, entry.sourceNodeId ∉ nodeIds next.db.nodes

structure RestoreSource (host : Host) (base : Database) (tx : MutationTx) (item : TrashItem)
    (entries : List TrashEntry) : Prop where
  manifest : Manifest item.rootNodeId entries
  sources : (entries.map TrashEntry.sourceNodeId).Nodup
  ordered : entries.Pairwise fun left right => left.depth ≤ right.depth
  fromBase : ∀ entry ∈ entries, entry ∈ base.trashEntries
  own : ∀ entry ∈ entries, entry.trashId = item.id
  others : ∀ entry ∈ tx.db.trashEntries, entry.trashId ≠ item.id →
    entry.sourceNodeId ∉ entries.map TrashEntry.sourceNodeId

section Loop

variable {item : TrashItem} {segments : List JsString} {parentId : Uuid}
  {done rest : List TrashEntry} {restored : OrderedMap JsString Uuid} {next : MutationTx}
  {entry : TrashEntry}

theorem Restoring.exists_parent
    (source : RestoreSource host base tx item (done ++ entry :: rest))
    (restoring : Restoring host effects base scope held tx item segments parentId done
      (entry :: rest)
      restored next) :
    ∃ nodeParentId, (if relativeSegments entry.relativePath = [] then some parentId
        else restored.get (joinRelative (relativeSegments entry.relativePath).dropLast)) =
        some nodeParentId ∧
      (∃ parent ∈ next.db.nodes, parent.id = nodeParentId ∧ parent.type = .directory) ∧
      PathOf next.db.nodes nodeParentId (entry.target segments).dropLast ∧
      next.changed.get nodeParentId ≠ none := by
  have isEntry : entry ∈ done ++ entry :: rest := by simp
  rcases List.eq_nil_or_concat (relativeSegments entry.relativePath) with
    isNil | ⟨front, name, isRel⟩
  · refine ⟨parentId, if_pos isNil, restoring.parent.1.directory, ?_, restoring.parent.2⟩
    simpa [TrashEntry.target, isNil] using restoring.parent.1.reached
  · rw [List.concat_eq_append] at isRel
    rcases source.manifest.parents entry isEntry front name isRel with
      ⟨above, isAbove, aboveRel, directory⟩
    have isDone : above ∈ done := by
      rcases List.mem_append.mp isAbove with isDone | later
      · exact isDone
      · have least : entry.depth ≤ above.depth := by
          rcases List.mem_cons.mp later with same | later
          · exact same ▸ Nat.le_refl _
          · have ordered := (List.pairwise_append.mp source.ordered).2.1
            exact (List.pairwise_cons.mp ordered).1 above later
        unfold TrashEntry.depth at least
        rw [isRel, aboveRel, List.length_append, List.length_singleton] at least
        omega
    have isText := (source.manifest.plain isAbove).2
    rw [aboveRel] at isText
    rcases restoring.placed above isDone with ⟨reached, marked, nodeParentId, member⟩
    refine ⟨above.sourceNodeId, ?_, ⟨_, member, rfl, directory⟩, ?_, marked⟩
    · rw [isRel, if_neg (by simp), List.dropLast_concat, ← isText]
      exact restoring.known above isDone
    · unfold TrashEntry.target at reached ⊢
      rw [isRel, ← List.append_assoc, List.dropLast_concat]
      rwa [aboveRel] at reached

theorem target_eq (nonempty : segments ≠ []) (now : Nat) (nodeParentId : Uuid)
    (entry : TrashEntry) :
    entry.target segments = (entry.target segments).dropLast ++
      [(restoredRow segments now nodeParentId entry).name] := by
  unfold TrashEntry.target restoredRow
  by_cases isNil : relativeSegments entry.relativePath = []
  · simp only [isNil, List.append_nil, if_true]
    exact (dropLast_append_lastSegment nonempty).symm
  · simp only [isNil, if_false]
    rw [List.dropLast_append_of_ne_nil isNil, List.append_assoc, dropLast_append_lastSegment isNil]

theorem manifestBlobs_cons (now : Nat) (nodeParentId : Uuid) (entry : TrashEntry)
    (rest : List TrashEntry) :
    manifestBlobs (entry :: rest) =
      fileBlobs [restoredRow segments now nodeParentId entry] ++ manifestBlobs rest := by
  unfold manifestBlobs fileBlobs
  by_cases isFile : entry.type = .file
  · cases isBlob : entry.blobId <;> simp [restoredRow, isFile, isBlob]
  · simp [restoredRow, isFile]

theorem manifestBytes_append_one (now : Nat) (nodeParentId : Uuid) (done : List TrashEntry)
    (entry : TrashEntry) :
    (manifestBytes (done ++ [entry]) : Int) =
      manifestBytes done + fileSize (restoredRow segments now nodeParentId entry) := by
  rw [manifestBytes_eq_sum, manifestBytes_eq_sum, List.map_append, List.sum_append]
  by_cases isFile : entry.type = .file
  · simp [TrashEntry.bytes, fileSize, restoredRow, isFile]
  · simp [TrashEntry.bytes, fileSize, restoredRow, isFile]

theorem Restoring.plantable (nonempty : segments ≠ [])
    (source : RestoreSource host base tx item (done ++ entry :: rest))
    (restoring : Restoring host effects base scope held tx item segments parentId done
      (entry :: rest)
      restored next)
    (valid : ValidPath host (entry.target segments))
    (room : entry.sourceRevision.version < MAX_VFS_VERSION) {nodeParentId : Uuid}
    (directory : ∃ parent ∈ next.db.nodes, parent.id = nodeParentId ∧ parent.type = .directory)
    (reached : PathOf next.db.nodes nodeParentId (entry.target segments).dropLast)
    (marked : next.changed.get nodeParentId ≠ none) :
    Plantable host base (consumed item (manifestBytes done) next)
      (restoredRow segments next.now nodeParentId entry) nodeParentId
      (entry.target segments).dropLast := by
  have isEntry : entry ∈ done ++ entry :: rest := by simp
  have isNext : entry ∈ entry :: rest := List.mem_cons_self ..
  have inBase := source.fromBase entry isEntry
  have holds := restoring.holds
  have isTarget := target_eq nonempty next.now nodeParentId entry
  refine
    { fresh := restoring.fresh entry isNext, below := rfl, parent := directory, reached := reached,
      free := ?_, valid := isTarget ▸ valid, shaped := source.manifest.shaped entry isEntry,
      numbered := ⟨Nat.le_add_left 1 _, room⟩,
      drawn := (holds.start.issued.sources entry inBase).mono holds.drawn,
      unused := holds.start.separate entry inBase, source := ?_, marked := marked,
      origin := .restored entry inBase rfl rfl rfl, zero := rfl }
  · intro other isOther below sameName
    have otherReached := PathOf.child isOther below reached
    rw [sameName, ← isTarget] at otherReached
    exact restoring.vacant entry isNext other.id otherReached
  · intro other isOther same
    rcases List.mem_filter.mp isOther with ⟨member, otherItem⟩
    rw [restoring.frame] at member
    refine source.others other member (by simpa using otherItem) ?_
    rw [same]
    exact List.mem_map_of_mem isEntry

/-- The step of the loop, on the state that the statements of one entry lead to. -/
theorem Restoring.step (nonempty : segments ≠ [])
    (source : RestoreSource host base tx item (done ++ entry :: rest))
    (restoring : Restoring host effects base scope held tx item segments parentId done
      (entry :: rest)
      restored next) {nodeParentId : Uuid}
    (plantable : Plantable host base (consumed item (manifestBytes done) next)
      (restoredRow segments next.now nodeParentId entry) nodeParentId
      (entry.target segments).dropLast)
    (inScope : scope (entry.target segments)) {changed : OrderedMap Uuid Bool}
    {folders : OrderedMap Uuid Int}
    (marks : changed.get = markAll next.changed.get [entry.sourceNodeId] false)
    (deltas : ∀ id, (folders.get id).getD 0 = next.folderDelta id +
      fileBelow id (restoredRow segments next.now nodeParentId entry)) :
    Restoring host effects base scope held tx item segments parentId (done ++ [entry]) rest
      (restored.set entry.relativePath entry.sourceNodeId)
      { next with
        db := { next.db with
          nodes := next.db.nodes ++ [restoredRow segments next.now nodeParentId entry] }
        folderFileDeltas := folders
        liveNodeDelta := next.liveNodeDelta + 1
        changed := changed } := by
  have isEntry : entry ∈ done ++ entry :: rest := by simp
  have isTarget := target_eq nonempty next.now nodeParentId entry
  have tree : Rooted next.db.nodes := restoring.holds.tree
  generalize isRow : restoredRow segments next.now nodeParentId entry = row at *
  have rowId : row.id = entry.sourceNodeId := isRow ▸ rfl
  have marked : ∀ id, next.changed.get id ≠ none → changed.get id ≠ none := by
    intro id isMarked
    rw [marks, markAll_ne_none_iff]
    exact .inl isMarked
  have grows : ∀ {id path}, PathOf next.db.nodes id path →
      PathOf (next.db.nodes ++ [row]) id path := fun reached =>
    PathTo.mono (List.map_subset _ (List.subset_append_left _ _)) reached
  have apart : ∀ other ∈ done ++ rest, other.relativePath ≠ entry.relativePath ∧
      other.sourceNodeId ≠ entry.sourceNodeId := by
    have paths := source.manifest.distinct
    have ids := source.sources
    rw [List.map_append, List.map_cons, List.nodup_middle, ← List.map_append, List.nodup_cons]
      at paths ids
    exact fun other isOther => ⟨fun same => paths.1 (List.mem_map.mpr ⟨other, isOther, same⟩),
      fun same => ids.1 (List.mem_map.mpr ⟨other, isOther, same⟩)⟩
  refine
    { holds := ?_, frame := ?_, parent := ?_, known := ?_, placed := ?_, grown := ?_, vacant := ?_,
      fresh := ?_ }
  · have before := restoring.holds
    rw [manifestBlobs_cons next.now nodeParentId, isRow, List.append_assoc] at before
    refine before.insert plantable (isTarget ▸ inScope) (rowId ▸ marks) deltas rfl ?_
    change next.liveFileByteDelta + (manifestBytes (done ++ [entry]) : Int) =
      next.liveFileByteDelta + manifestBytes done + fileSize row
    rw [manifestBytes_append_one next.now nodeParentId, isRow, Int.add_assoc]
  · exact congrArg (fun db : Database => { db with nodes := next.db.nodes ++ [row] })
      restoring.frame
  · rcases restoring.parent with ⟨locked, isMarked⟩
    rcases locked.directory with ⟨parent, member, facts⟩
    exact ⟨⟨⟨parent, List.mem_append_left _ member, facts⟩, grows locked.reached,
      .inl (marked parentId isMarked)⟩, marked parentId isMarked⟩
  · intro other isOther
    rw [OrderedMap.get_set]
    rcases List.mem_append.mp isOther with old | new
    · rw [if_neg (apart other (List.mem_append_left _ old)).1]
      exact restoring.known other old
    · rw [List.mem_singleton] at new
      rw [new, if_pos rfl]
  · intro other isOther
    rcases List.mem_append.mp isOther with old | new
    · rcases restoring.placed other old with ⟨reached, isMarked, otherParentId, member⟩
      exact ⟨grows reached, marked _ isMarked, otherParentId, List.mem_append_left _ member⟩
    · rw [List.mem_singleton] at new
      subst new
      refine ⟨?_, ?_, nodeParentId, List.mem_append_right _ (List.mem_singleton.mpr isRow)⟩
      · rw [isTarget, ← rowId]
        exact pathOf_insert_self plantable.below plantable.reached
      · change changed.get other.sourceNodeId ≠ none
        rw [marks, markAll_ne_none_iff]
        exact .inr (List.mem_singleton_self _)
  · rcases restoring.grown with ⟨added, isNext, own⟩
    refine ⟨added ++ [row], by rw [← List.append_assoc, ← isNext], ?_⟩
    intro node member
    rcases List.mem_append.mp member with old | new
    · rcases own node old with ⟨other, isOther, same⟩
      exact ⟨other, List.mem_append_left _ isOther, same⟩
    · rw [List.mem_singleton] at new
      exact ⟨entry, List.mem_append_right _ (List.mem_singleton_self _), new ▸ rowId⟩
  · intro other isOther id reached
    by_cases isNew : id = row.id
    · -- The new row is at its own target only.
      have own : PathOf (next.db.nodes ++ [row]) row.id (entry.target segments) := by
        rw [isTarget]
        exact pathOf_insert_self plantable.below plantable.reached
      have same := PathTo.unique (plantable.tree tree) (isNew ▸ reached) own
      unfold TrashEntry.target at same
      rw [List.append_cancel_left_eq] at same
      have isOtherEntry : other ∈ done ++ entry :: rest := by simp [isOther]
      have equal := source.manifest.eq_of_segments isOtherEntry isEntry same
      exact (apart other (List.mem_append_right _ isOther)).1 (equal ▸ rfl)
    · exact restoring.vacant other (List.mem_cons_of_mem _ isOther) id
        ((pathOf_insert_iff tree plantable.fresh isNew).mp reached)
  · intro other isOther inside
    rcases mem_nodeIds.mp inside with ⟨node, member, same⟩
    rcases List.mem_append.mp member with old | new
    · exact restoring.fresh other (List.mem_cons_of_mem _ isOther) (same ▸ mem_nodeIds_of_mem old)
    · rw [List.mem_singleton] at new
      rw [new, rowId] at same
      exact (apart other (List.mem_append_right _ isOther)).2 same.symm

theorem restoreEntry_spec (nonempty : segments ≠ [])
    (source : RestoreSource host base tx item (done ++ entry :: rest))
    (inScope : ∀ path, segments <+: path → scope path)
    (restoring : Restoring host effects base scope held tx item segments parentId done
      (entry :: rest)
      restored next) :
    Satisfies (restoreEntry host segments parentId restored entry)
      (fun after final => Restoring host effects base scope held tx item segments parentId
        (done ++ [entry]) rest after final) Expected next := by
  have isEntry : entry ∈ done ++ entry :: rest := by simp
  have revision := source.manifest.revisions entry isEntry
  have shaped := source.manifest.shaped entry isEntry
  rcases restoring.exists_parent source with ⟨nodeParentId, isParent, directory, reached, marked⟩
  have target : scope (entry.target segments) := inScope _ (List.prefix_append _ _)
  unfold restoreEntry
  rw [satisfies_bind]
  refine (satisfies_lift _).mpr
    ⟨fun _ valid => ?_, fun error failed => assertPathSegments_expected failed⟩
  rw [isParent]
  refine satisfies_ite.mpr ⟨fun _ => trivial, fun usable => ?_⟩
  refine satisfies_ite.mpr ⟨fun missing => ?_, fun _ => ?_⟩
  · rw [missing.1] at shaped
    rcases shaped with ⟨hasBlob, hasSize, hasMime⟩
    rcases missing.2 with noBlob | noSize | noMime
    · simp [noBlob] at hasBlob
    · simp [noSize] at hasSize
    · simp [noMime] at hasMime
  · have room : entry.sourceRevision.version < MAX_VFS_VERSION := by
      by_contra full
      exact usable (.inr (Nat.le_of_not_lt full))
    have plantable := restoring.plantable nonempty source valid room directory reached marked
    rw [satisfies_bind, satisfies_state, satisfies_bind, satisfies_insertNode]
    refine satisfies_ite.mpr ⟨fun isFile => ?_, fun notFile => ?_⟩
    · rw [satisfies_bind]
      refine satisfies_recordFolderFileDelta fun folders deltas => ?_
      rw [satisfies_bind, satisfies_recordLiveNodeDelta, satisfies_bind]
      refine satisfies_markChanged fun changed marks => ?_
      refine restoring.step nonempty source plantable target marks fun id => ?_
      rw [deltas id]
      simp only [fileBelow, restoredRow, isFile, true_and, Option.some.injEq, eq_comm (a := id)]
      rfl
    · rw [satisfies_bind, satisfies_recordLiveNodeDelta, satisfies_bind]
      refine satisfies_markChanged fun changed marks => ?_
      refine restoring.step nonempty source plantable target marks fun id => ?_
      have zero : fileBelow id (restoredRow segments next.now nodeParentId entry) = 0 :=
        if_neg fun both => notFile both.1
      rw [zero, Int.add_zero]
      rfl

theorem restoreEntries_spec (nonempty : segments ≠ [])
    (source : RestoreSource host base tx item (done ++ rest))
    (inScope : ∀ path, segments <+: path → scope path)
    (restoring : Restoring host effects base scope held tx item segments parentId done rest
      restored next) :
    Satisfies (restoreEntries host segments parentId rest restored)
      (fun _ final => ∃ after, Restoring host effects base scope held tx item segments parentId
        (done ++ rest) [] after final) Expected next := by
  induction rest generalizing done restored next with
  | nil => exact ⟨restored, by simpa using restoring⟩
  | cons entry rest induction =>
      unfold restoreEntries
      rw [satisfies_bind]
      refine (restoreEntry_spec nonempty source inScope restoring).imp fun after final step => ?_
      have whole : done ++ entry :: rest = done ++ [entry] ++ rest := by simp
      rw [whole] at source ⊢
      exact induction source step

end Loop

/-! ## The operation -/

theorem satisfies_stopPrecondition {α : Type} {node : VfsNode} {path : JsString}
    {post : α → MutationTx → Prop} :
    Satisfies (stopPrecondition node path) post Expected tx := by
  unfold stopPrecondition
  rw [satisfies_bind]
  refine (satisfies_lift _).mpr ⟨fun _ _ => trivial, fun error failed => ?_⟩
  unfold currentOf encodeRevision at failed
  split at failed
  · rename_i exhausted
    split at exhausted
    · cases exhausted
      cases failed
      trivial
    · cases exhausted
  · cases failed

def restoreScope (segments front : List JsString) : Prop :=
  front <+: segments ∨ segments <+: front

def restorePath (db : Database) (trashId : Uuid) (targetPath : Option JsString) :
    List JsString :=
  pathSegments (targetPath.getD
    (((db.trash.find? fun item => item.id == trashId).map TrashItem.originalPath).getD []))

theorem LoadedItem.restoreSource {trashId : Uuid} {item : LockedTrashItem}
    (loaded : LoadedItem tx trashId item)
    (holds : TxInv host effects base scope held tx) (fromStart : tx.db = base) {next : MutationTx}
    (isNext : next.db = tx.db) :
    RestoreSource host base next item.trash (sortBy manifestLe item.entries) := by
  have perm : (sortBy manifestLe item.entries).Perm (entriesOf tx.db item.trash) :=
    (sortBy_perm _ _).trans loaded.entries
  have inDb : ∀ entry ∈ sortBy manifestLe item.entries,
      entry ∈ tx.db.trashEntries ∧ entry.trashId = item.trash.id := by
    intro entry isEntry
    have isEntry := perm.mem_iff.mp isEntry
    unfold entriesOf postings at isEntry
    simpa using isEntry
  have sublist : (entriesOf tx.db item.trash).Sublist tx.db.trashEntries := List.filter_sublist
  refine
    { manifest := (loaded.manifest holds).perm (sortBy_perm _ _).symm, sources := ?_,
      ordered := ?_, fromBase := fun entry isEntry => fromStart ▸ (inDb entry isEntry).1,
      own := fun entry isEntry => (inDb entry isEntry).2, others := ?_ }
  · exact (perm.map _).nodup_iff.mpr (holds.trash.sources.sublist (sublist.map _))
  · refine pairwise_sortBy manifestLe TrashEntry.depth ?_ ?_ item.entries
    · intro left right before
      unfold manifestLe at before
      unfold TrashEntry.depth
      simp only [Bool.or_eq_true, decide_eq_true_eq, Bool.and_eq_true, beq_iff_eq] at before
      omega
    · intro left right after
      unfold manifestLe at after
      unfold TrashEntry.depth
      simp only [Bool.or_eq_false_iff, decide_eq_false_iff_not] at after
      omega
  · intro entry isEntry otherItem isSource
    rw [isNext] at isEntry
    rcases List.mem_map.mp isSource with ⟨own, isOwn, same⟩
    have equal := List.inj_on_of_nodup_map holds.trash.sources (inDb own isOwn).1 isEntry same
    exact otherItem (equal ▸ (inDb own isOwn).2)

theorem head_of_ordered {rootNodeId : Uuid} {entries : List TrashEntry}
    (manifest : Manifest rootNodeId entries)
    (ordered : entries.Pairwise fun left right => left.depth ≤ right.depth) :
    entries.head?.map TrashEntry.relativePath = some dot := by
  rcases manifest.root with ⟨root, isRoot, isDot, _⟩
  cases entries with
  | nil => cases isRoot
  | cons first rest =>
      have rootDepth : root.depth = 0 := by
        unfold TrashEntry.depth
        rw [isDot]
        rfl
      have least : first.depth ≤ root.depth := by
        rcases List.mem_cons.mp isRoot with same | later
        · exact same ▸ Nat.le_refl _
        · exact (List.pairwise_cons.mp ordered).1 root later
      have isNil : relativeSegments first.relativePath = [] := by
        refine List.length_eq_zero_iff.mp ?_
        unfold TrashEntry.depth at least rootDepth
        omega
      have isText := (manifest.plain (List.mem_cons_self ..)).2
      rw [isNil] at isText
      simp only [List.head?_cons, Option.map_some, isText]
      rfl

/-- The subtree of an item stands at `segments`, and nothing else was added. -/
structure Replanted (item : TrashItem) (segments : List JsString)
    (tx next : MutationTx) : Prop where
  member : item ∈ tx.db.trash
  placed : ∀ entry ∈ entriesOf tx.db item,
    PathOf next.db.nodes entry.sourceNodeId (entry.target segments) ∧
    ∃ nodeParentId, restoredRow segments next.now nodeParentId entry ∈ next.db.nodes
  grown : ∃ added, next.db.nodes = tx.db.nodes ++ added ∧
    ∀ node ∈ added, ∃ entry ∈ entriesOf tx.db item, node.id = entry.sourceNodeId
  vacant : ∀ id, ¬PathOf tx.db.nodes id segments

theorem restoreTrashItem_places {trashId : Uuid} {targetPath : Option JsString}
    (fromStart : tx.db = base)
    (holds : TxInv host effects base (restoreScope (restorePath base trashId targetPath)) held tx) :
    Satisfies (restoreTrashItem host trashId targetPath)
      (fun _ next =>
        TxInv host effects base (restoreScope (restorePath base trashId targetPath)) held next ∧
        ∃ item, item.id = trashId ∧ Replanted item (restorePath base trashId targetPath) tx next)
      Expected tx := by
  unfold restoreTrashItem
  rw [satisfies_bind]
  refine (findForMutation_spec holds).imp ?_
  rintro item opened ⟨rfl, loaded⟩
  have isId : item.trash.id = trashId := by
    have named := List.find?_some loaded.found
    exact beq_iff_eq.mp named
  refine satisfies_ite.mpr ⟨fun _ => trivial, fun _ => ?_⟩
  have isPath : pathSegments (targetPath.getD item.trash.originalPath) =
      restorePath base trashId targetPath := by
    unfold restorePath
    rw [← fromStart, loaded.found]
    rfl
  dsimp only
  rw [isPath]
  generalize restorePath base trashId targetPath = segments at *
  have inScope : ∀ path, segments <+: path → restoreScope segments path := fun path => .inr
  rw [satisfies_bind]
  refine (satisfies_lift _).mpr
    ⟨fun _ _ => ?_, fun error failed => assertPathSegments_expected failed⟩
  refine satisfies_ite.mpr ⟨fun _ => trivial, fun nonempty => ?_⟩
  rw [satisfies_bind]
  refine (lockParentChain_spec holds (fun isTrue => by cases isTrue)
    fun _ front isFront => .inl (isFront.trans (List.dropLast_prefix _))).imp ?_
  rintro parentId next ⟨inv, grown, locked, marked, sameDb, _⟩
  rw [satisfies_bind]
  refine satisfies_lockTargetNode inv locked (fun free => ?_)
    fun _ _ _ _ _ _ _ _ _ _ => satisfies_stopPrecondition
  have isDb := sameDb rfl
  have source := loaded.restoreSource holds fromStart isDb
  have manifest := source.manifest
  have bytes :
      (manifestBytes (sortBy manifestLe item.entries) : Int) = item.trash.logicalBytes := by
    rw [← loaded.bytes holds, manifestBytes_eq_sum, manifestBytes_eq_sum]
    exact ((sortBy_perm _ _).map _).sum_eq
  have blobs : (manifestBlobs (sortBy manifestLe item.entries)).Perm
      (manifestBlobs (entriesOf next.db item.trash)) := by
    rw [isDb]
    exact ((((sortBy_perm _ _).trans loaded.entries).filter _).filterMap _)
  have member : item.trash ∈ next.db.trash := isDb ▸ loaded.member
  have vacant : ∀ id, ¬PathOf next.db.nodes id segments := by
    intro id reached
    rw [← dropLast_append_lastSegment nonempty] at reached
    rcases PathOf.exists_child reached with ⟨node, isNode, _, sameName, above, below, aboveReached⟩
    rw [PathTo.injective inv.tree aboveReached locked.reached] at below
    exact findChild_eq_none free isNode below sameName
  have perm : (sortBy manifestLe item.entries).Perm (entriesOf opened.db item.trash) :=
    (sortBy_perm _ _).trans loaded.entries
  generalize sortBy manifestLe item.entries = entries at *
  refine satisfies_ite.mpr ⟨fun notRoot => absurd (head_of_ordered manifest source.ordered) notRoot,
    fun _ => ?_⟩
  rw [satisfies_bind]
  have start :
      Restoring host effects base (restoreScope segments) held next item.trash segments parentId []
      entries .empty next :=
    { holds := (inv.unpack member).held_perm (blobs.symm.append_right held)
      frame := rfl
      parent := ⟨locked, marked rfl⟩
      known := by simp
      placed := by simp
      grown := ⟨[], by simp, by simp⟩
      vacant := fun entry _ id reached => by
        rcases PathTo.of_append reached with ⟨above, aboveReached⟩
        exact vacant above aboveReached
      fresh := fun entry isEntry => by
        have inBase := source.fromBase entry isEntry
        rw [isDb, fromStart]
        exact holds.start.separate entry inBase }
  refine (restoreEntries_spec nonempty source inScope start).imp ?_
  rintro _ final ⟨after, restoring⟩
  rw [List.nil_append] at restoring
  refine satisfies_ite.mpr ⟨fun mismatch => absurd bytes mismatch, fun _ => ?_⟩
  rw [satisfies_bind]
  have sameTables := restoring.frame
  refine satisfies_consumeTrash (by rw [sameTables]; exact inv.trash) (by rw [sameTables])
    (by rw [sameTables]) (by rw [sameTables]; exact member) ?_
  rw [satisfies_bind, satisfies_recordLiveByteDelta, satisfies_bind, satisfies_state]
  rcases manifest.root with ⟨root, isRoot, _, isRootId⟩
  rcases restoring.placed root isRoot with ⟨_, _, rootParentId, isNode⟩
  have found : (consumed item.trash 0 final).db.findNode item.trash.rootNodeId =
      some (restoredRow segments final.now rootParentId root) := by
    rw [← isRootId]
    exact find_eq_some_of_mem restoring.holds.tree isNode
  dsimp only
  rw [found]
  rw [satisfies_pure]
  have done := restoring.holds
  have same : consumed item.trash (manifestBytes entries) final =
      { consumed item.trash 0 final with
        liveFileByteDelta := final.liveFileByteDelta + 0 + (manifestBytes entries : Int) } := by
    unfold consumed
    simp
  rw [same] at done
  refine ⟨done, item.trash, isId, loaded.member, ?_, ?_, ?_⟩
  · intro entry isEntry
    have placed := restoring.placed entry (perm.mem_iff.mpr isEntry)
    exact ⟨placed.1, placed.2.2⟩
  · rcases restoring.grown with ⟨added, isNext, own⟩
    refine ⟨added, by rw [← isDb]; exact isNext, ?_⟩
    intro node isMember
    rcases own node isMember with ⟨entry, isEntry, sameId⟩
    exact ⟨entry, perm.mem_iff.mp isEntry, sameId⟩
  · rw [← isDb]
    exact vacant

theorem restoreTrashItem_spec {trashId : Uuid} {targetPath : Option JsString}
    (fromStart : tx.db = base)
    (holds : TxInv host effects base (restoreScope (restorePath base trashId targetPath)) held tx) :
    Satisfies (restoreTrashItem host trashId targetPath)
      (fun _ next =>
        TxInv host effects base (restoreScope (restorePath base trashId targetPath)) held next)
      Expected tx :=
  (restoreTrashItem_places fromStart holds).imp fun _ _ places => places.1

end Storix
