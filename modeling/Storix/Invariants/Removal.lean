import Storix.Invariants.Copies

/-! # Deletes

A delete takes a whole subtree out of the table. The references of its files are
given up, or pass to the entries of a new trash item. -/

namespace Storix

open Foundation Foundation.Command

variable {host : Host} {effects : Effects} {base : Database}
  {scope : List JsString → Prop} {held : List Uuid}
  {tx : MutationTx} {fault : VfsError → Prop}

/-! ## Captured rows -/

/-- What a capture returns: the rows of the subtree, all of them when they are within
the limit. -/
structure Captured (tx : MutationTx) (segments : List JsString) (limit : Nat)
    (rows : List SnapshotSourceRow) (source : VfsNode) (trees : List TreeRow) : Prop where
  member : source ∈ tx.db.nodes
  reached : PathOf tx.db.nodes source.id segments
  live : ∀ row ∈ trees, row.node ∈ tx.db.nodes
  inside : ∀ row ∈ trees, row ∈ subtreeRows tx.db.nodes source
  captured : rows = trees.map TreeRow.captured
  whole : rows.length ≤ limit ∨ (subtreeRows tx.db.nodes source).length ≤ limit →
    trees.Perm (subtreeRows tx.db.nodes source)
  head : trees.Perm (subtreeRows tx.db.nodes source) → ∃ rest, trees = ⟨source, dot⟩ :: rest

theorem eq_source_of_dot (layout : Layout host tx.db.nodes tx.rootId) {source : VfsNode}
    (member : source ∈ tx.db.nodes) {segments : List JsString}
    (reached : PathOf tx.db.nodes source.id segments) {row : TreeRow}
    (inside : row ∈ subtreeRows tx.db.nodes source) (isDot : row.relativePath = dot) :
    row = ⟨source, dot⟩ := by
  rcases (mem_subtreeRows layout.tree layout.valid member reached).mp inside with
    ⟨rowMember, rest, rowReached, isPath⟩
  have isNil : rest = [] := by
    refine joinRelative_injective (layout.valid.plain rowReached) (by simp) ?_
    rw [← isPath, isDot]
    rfl
  rw [isNil, List.append_nil] at rowReached
  have same := layout.tree.eq_of_id rowMember member
    (PathTo.injective layout.tree rowReached reached)
  rcases row with ⟨node, path⟩
  simp only at same isDot
  rw [same, isDot]

theorem captureSnapshotRows_spec (holds : TxInv host effects base scope held tx)
    {segments : List JsString}
    {limit : Nat} :
    Satisfies (captureSnapshotRows host segments limit)
      (fun rows next => next = tx ∧ ∃ source trees, Captured tx segments limit rows source trees)
      Expected tx := by
  unfold captureSnapshotRows
  refine satisfies_ite.mpr ⟨fun _ => .inr rfl, fun _ => ?_⟩
  rw [satisfies_bind, satisfies_state]
  cases found : resolvePathInManager tx.db tx.rootId segments with
  | none => trivial
  | some source =>
      rcases (resolvePathInManager_eq_some_iff holds.tree holds.layout.root).mp found with
        ⟨member, reached⟩
      change Satisfies (Command.lift (sourceRows (sortBy relativePathLe
        ((host.rowOrder (subtreeRows tx.db.nodes source)).take (limit + 1))))) _ _ _
      generalize isTaken : (host.rowOrder (subtreeRows tx.db.nodes source)).take (limit + 1) = taken
      have inside : ∀ row ∈ taken, row ∈ subtreeRows tx.db.nodes source := by
        intro row isRow
        rw [← isTaken] at isRow
        exact host.mem_rowOrder.mp (List.mem_of_mem_take isRow)
      have live : ∀ row ∈ sortBy relativePathLe taken, row.node ∈ tx.db.nodes := by
        intro row isRow
        have isRow := inside row ((sortBy_perm _ _).mem_iff.mp isRow)
        exact ((mem_subtreeRows holds.tree holds.layout.valid member reached).mp isRow).1
      have numbered : ∀ row ∈ sortBy relativePathLe taken, row.node.Numbered := fun row isRow =>
        holds.layout.versions _ (live row isRow)
      rw [sourceRows_eq_ok numbered, satisfies_lift_ok]
      refine ⟨rfl, source, sortBy relativePathLe taken, member, reached, live,
        fun row isRow => inside row ((sortBy_perm _ _).mem_iff.mp isRow), rfl, ?_, ?_⟩
      · intro within
        refine (sortBy_perm _ _).trans ?_
        rw [← isTaken]
        refine take_perm_of_length_lt host ?_
        rw [List.length_map, (sortBy_perm _ _).length_eq, ← isTaken, List.length_take,
          Host.length_rowOrder] at within
        rw [List.length_take, Host.length_rowOrder]
        omega
      · intro perm
        have start : (⟨source, dot⟩ : TreeRow) ∈ taken := by
          refine (sortBy_perm relativePathLe taken).mem_iff.mp (perm.mem_iff.mpr ?_)
          rw [subtreeRows_eq_cons]
          exact List.mem_cons_self ..
        rcases head_sortBy_relativePathLe start with ⟨first, rest, sorted, isDot⟩
        refine ⟨rest, ?_⟩
        rw [sorted] at perm ⊢
        rw [eq_source_of_dot holds.layout member reached
          (perm.mem_iff.mp (List.mem_cons_self ..)) isDot]

/-! ## The statements of a delete -/

def nodesOf (trees : List TreeRow) : List VfsNode := trees.map TreeRow.node

theorem satisfies_deleteNodes (rows : List SnapshotSourceRow) {post : Unit → MutationTx → Prop} :
    Satisfies (deleteNodes rows) post fault tx ↔
      post () { tx with
        db := { tx.db with
          nodes := withoutNodes tx.db.nodes (rows.map SnapshotSourceRow.id) } } := by
  have loop : ∀ (chunks : List (List Uuid)) (tx : MutationTx),
      Satisfies (forEach (fun chunk => updateDb fun db =>
        { db with nodes := db.nodes.filter fun node => !chunk.contains node.id }) chunks)
        post fault tx ↔
      post () { tx with db :=
        { tx.db with nodes := withoutNodes tx.db.nodes chunks.flatten } } := by
    intro chunks
    induction chunks with
    | nil =>
        intro tx
        have same : withoutNodes tx.db.nodes [] = tx.db.nodes := by simp [withoutNodes]
        rw [List.flatten_nil, same]
        rfl
    | cons chunk rest induction =>
        intro tx
        change Satisfies (updateDb _ >>= fun _ => forEach _ rest) post fault tx ↔ _
        rw [satisfies_bind, satisfies_updateDb, induction]
        have same : withoutNodes (withoutNodes tx.db.nodes chunk) rest.flatten =
            withoutNodes tx.db.nodes (chunk :: rest).flatten := by
          simp only [withoutNodes, List.filter_filter]
          refine List.filter_congr fun node _ => ?_
          simp [Bool.and_comm]
        rw [← same]
        rfl
  unfold deleteNodes
  rw [loop, chunked_flatten (by decide)]
  have same : withoutNodes tx.db.nodes (rows.map SnapshotSourceRow.id).reverse =
      withoutNodes tx.db.nodes (rows.map SnapshotSourceRow.id) := by
    refine List.filter_congr fun node _ => ?_
    simp
  rw [same]

theorem satisfies_recordRemovedFiles (trees : List TreeRow)
    (parents : ∀ row ∈ trees, row.node.parentId ≠ none) {post : Unit → MutationTx → Prop}
    (continues : ∀ folders : OrderedMap Uuid Int,
      (∀ id, (folders.get id).getD 0 = tx.folderDelta id - total (fileBelow id) (nodesOf trees)) →
      post () { tx with folderFileDeltas := folders }) :
    Satisfies (recordRemovedFiles (trees.map TreeRow.captured)) post fault tx := by
  induction trees generalizing tx with
  | nil =>
      refine continues tx.folderFileDeltas fun id => ?_
      simp [nodesOf, total, MutationTx.folderDelta]
  | cons row rest induction =>
      have later : ∀ other ∈ rest, other.node.parentId ≠ none := fun other isOther =>
        parents other (List.mem_cons_of_mem _ isOther)
      have split : ∀ id, total (fileBelow id) (nodesOf (row :: rest)) =
          fileBelow id row.node + total (fileBelow id) (nodesOf rest) := fun id => rfl
      by_cases isFile : row.node.type = .file
      · cases isParent : row.node.parentId with
        | none => exact absurd isParent (parents row (List.mem_cons_self ..))
        | some parentId =>
            have filtered : ((row :: rest).map TreeRow.captured).filter
                (fun row => decide (row.type = .file)) =
                row.captured :: (rest.map TreeRow.captured).filter
                  fun row => decide (row.type = .file) := by
              rw [List.map_cons, List.filter_cons_of_pos (by simp [TreeRow.captured, isFile])]
            have capturedParent : row.captured.parentId = some parentId := isParent
            unfold recordRemovedFiles
            rw [filtered]
            unfold forEach
            rw [satisfies_bind, capturedParent]
            refine satisfies_recordFolderFileDelta fun first firstDeltas => ?_
            refine induction later fun folders deltas => continues folders fun id => ?_
            have step := deltas id
            change (folders.get id).getD 0 = (first.get id).getD 0 - _ at step
            rw [step, firstDeltas id, split]
            simp only [fileBelow, isFile, isParent, true_and, Option.some.injEq]
            grind
      · have filtered : ((row :: rest).map TreeRow.captured).filter
            (fun row => decide (row.type = .file)) =
            (rest.map TreeRow.captured).filter fun row => decide (row.type = .file) := by
          rw [List.map_cons, List.filter_cons_of_neg (by simp [TreeRow.captured, isFile])]
        unfold recordRemovedFiles
        rw [filtered]
        refine induction later fun folders deltas => continues folders fun id => ?_
        have zero : fileBelow id row.node = 0 := if_neg fun both => isFile both.1
        rw [deltas id, split, zero]
        omega

theorem removedBlobs_captured (trees : List TreeRow) :
    removedBlobs (trees.map TreeRow.captured) = fileBlobs (nodesOf trees) := by
  unfold removedBlobs fileBlobs nodesOf
  rw [List.filter_map, List.filterMap_map, List.filter_map, List.filterMap_map]
  rfl

theorem manifestBlobs_captured (trashId : Uuid) (trees : List TreeRow) :
    manifestBlobs ((trees.map TreeRow.captured).map (trashEntryOf trashId)) =
      fileBlobs (nodesOf trees) := by
  unfold manifestBlobs fileBlobs nodesOf
  rw [List.map_map, List.filter_map, List.filterMap_map, List.filter_map, List.filterMap_map]
  rfl

theorem removedBytes_captured (trees : List TreeRow) :
    (removedBytes (trees.map TreeRow.captured) : Int) = total fileSize (nodesOf trees) := by
  induction trees with
  | nil => rfl
  | cons row rest induction =>
      have split : total fileSize (nodesOf (row :: rest)) =
          fileSize row.node + total fileSize (nodesOf rest) := rfl
      rw [split, ← induction]
      unfold removedBytes fileSize
      by_cases isFile : row.node.type = .file
      · rw [List.map_cons, List.filter_cons_of_pos (by simp [TreeRow.captured, isFile]),
          if_pos isFile]
        simp [TreeRow.captured]
      · rw [List.map_cons, List.filter_cons_of_neg (by simp [TreeRow.captured, isFile]),
          if_neg isFile]
        simp

/-! ## The tables after a delete -/

structure Removable (host : Host) (tx : MutationTx) (removed : List VfsNode) (gone : List Uuid) :
    Prop where
  detachable : Detachable tx.db.nodes gone
  whole : removed.Perm (tx.db.nodes.filter fun node => gone.contains node.id)
  unmarked : ∀ id ∈ gone, tx.changed.get id = none
  parents : ∀ node ∈ tx.db.nodes, node.id ∈ gone → ∀ parentId, node.parentId = some parentId →
    parentId ∈ gone ∨ tx.changed.get parentId ≠ none
  seen : ∀ id ∈ gone, tx.Seen id

theorem Removable.mem {removed : List VfsNode} {gone : List Uuid}
    (removable : Removable host tx removed gone) {node : VfsNode} :
    node ∈ removed ↔ node ∈ tx.db.nodes ∧ node.id ∈ gone := by
  rw [removable.whole.mem_iff, List.mem_filter]
  simp

theorem TxInv.remove (holds : TxInv host effects base scope held tx) {removed : List VfsNode}
    {gone : List Uuid} (removable : Removable host tx removed gone)
    (removes : ∀ id ∈ gone, ∀ path, PathOf tx.db.nodes id path → effects.removes path)
    {folders : OrderedMap Uuid Int} {nodeDelta byteDelta : Int}
    (deltas : ∀ id, (folders.get id).getD 0 = tx.folderDelta id - total (fileBelow id) removed)
    (counted : nodeDelta = tx.liveNodeDelta - removed.length)
    (weighed : byteDelta = tx.liveFileByteDelta - total fileSize removed) :
    TxInv host effects base scope (fileBlobs removed ++ held)
      { tx with
        db := { tx.db with nodes := withoutNodes tx.db.nodes gone }
        folderFileDeltas := folders
        liveNodeDelta := nodeDelta
        liveFileByteDelta := byteDelta } := by
  have keptIds : ∀ id ∈ nodeIds (withoutNodes tx.db.nodes gone), id ∈ nodeIds tx.db.nodes := by
    intro id inside
    rcases mem_nodeIds.mp inside with ⟨node, member, rfl⟩
    exact mem_nodeIds_of_mem (mem_withoutNodes.mp member).1
  refine
    { start := holds.start, layout := holds.layout.remove removable.detachable, books := ?_,
      refs := ?_, trash := holds.trash, snapshots := holds.snapshots, issued := ?_,
      drawn := holds.drawn, blobRows := holds.blobRows,
      separate := fun entry member inside => holds.separate entry member (keptIds _ inside),
      gone := ?_, origins := holds.origins,
      marks := holds.marks.remove holds.baseTree removable.unmarked removable.parents, feed := ?_,
      feedState := holds.feedState, feedEvents := holds.feedEvents, status := holds.status,
      row := holds.row,
      checkpoint := holds.checkpoint, still := ?_, placed := ?_, seenAbove := ?_ }
  · have old : ∀ node ∈ removed, node.id ∈ nodeIds base.nodes := by
      intro node isRemoved
      rcases removable.mem.mp isRemoved with ⟨member, isGone⟩
      exact mem_nodeIds_of_mem (holds.marks.kept node member (removable.unmarked _ isGone)).1
    refine (holds.books.remove holds.tree removable.detachable removable.whole old).congr ?_ ?_ ?_
    · change _ = tx.db.namespaceRow.liveNodeCount + nodeDelta
      omega
    · change _ = tx.db.namespaceRow.liveFileByteCount + byteDelta
      omega
    · exact fun id => (deltas id).symm
  · refine holds.refs.perm (List.perm_iff_count.mpr fun id => ?_)
    have split := (fileBlobs_perm (List.filter_append_perm
      (fun node : VfsNode => gone.contains node.id) tx.db.nodes)).count_eq id
    have same := (fileBlobs_perm removable.whole).count_eq id
    rw [fileBlobs_append] at split
    simp only [Database.references, withoutNodes, List.count_append] at split ⊢
    omega
  · exact { holds.issued with nodes := fun id inside => holds.issued.nodes id (keptIds id inside) }
  · intro old member isGone path baseReached
    by_cases live : old.id ∈ nodeIds tx.db.nodes
    · rcases mem_nodeIds.mp live with ⟨row, rowMember, same⟩
      rcases holds.tree.exists_path rowMember with ⟨rowPath, reached⟩
      rw [same] at reached
      have inBase := mem_nodeIds_of_mem member
      rw [PathTo.unique holds.baseTree baseReached (holds.still old.id rowPath reached inBase)]
      refine removes old.id ?_ rowPath reached
      by_contra kept
      exact isGone (same ▸ mem_nodeIds_of_mem (mem_withoutNodes.mpr ⟨rowMember, same ▸ kept⟩))
    · exact holds.gone old member live path baseReached
  · refine holds.feed.change fun node _ changedNode => ?_
    rcases changedNode with marked | isGone
    · exact .inl (.inl marked)
    · by_cases live : node.id ∈ nodeIds tx.db.nodes
      · refine .inr (removable.seen node.id ?_)
        by_contra kept
        rcases mem_nodeIds.mp live with ⟨row, member, same⟩
        exact isGone (same ▸ mem_nodeIds_of_mem (mem_withoutNodes.mpr ⟨member, same ▸ kept⟩))
      · exact .inl (.inr live)
  · exact fun id path reached inBase => holds.still id path (pathOf_withoutNodes reached) inBase
  · intro id marked
    rcases holds.placed id marked with ⟨path, reached, inScope⟩
    rcases PathOf.exists_node reached with ⟨node, member, rfl⟩
    exact ⟨path, removable.detachable.pathOf holds.tree member
      (fun isGone => marked (removable.unmarked _ isGone)) reached, inScope⟩
  · intro node inside seen parentId below
    exact holds.seenAbove node (mem_withoutNodes.mp inside).1 seen parentId below

structure Packable (host : Host) (base : Database) (tx : MutationTx) (item : TrashItem)
    (entries : List TrashEntry) : Prop where
  drawn : Drawn host tx.db.issued item.id
  fresh : item.id ∉ tx.db.trash.map TrashItem.id
  own : ∀ entry ∈ entries, entry.trashId = item.id
  count : item.nodeCount = entries.length
  bytes : item.logicalBytes = manifestBytes entries
  manifest : Manifest item.rootNodeId entries
  sources : (entries.map TrashEntry.sourceNodeId).Nodup
  apart : ∀ entry ∈ entries, entry.sourceNodeId ∉ tx.db.trashEntries.map TrashEntry.sourceNodeId
  gone : ∀ entry ∈ entries, entry.sourceNodeId ∉ nodeIds tx.db.nodes
  drawnSources : ∀ entry ∈ entries, Drawn host tx.db.issued entry.sourceNodeId
  origins : ∀ entry ∈ entries, ∃ old ∈ base.nodes, old.id = entry.sourceNodeId ∧
    old.type = entry.type ∧ old.version = entry.sourceRevision.version

theorem TxInv.pack {item : TrashItem} {entries : List TrashEntry}
    (holds : TxInv host effects base scope (manifestBlobs entries ++ held) tx)
    (packable : Packable host base tx item entries) :
    TxInv host effects base scope held
      { tx with
        db := { tx.db with
          trash := tx.db.trash ++ [item]
          trashEntries := tx.db.trashEntries ++ entries
          namespaceRow := { tx.db.namespaceRow with
            retainedTrashNodeCount :=
              tx.db.namespaceRow.retainedTrashNodeCount + item.nodeCount
            retainedTrashByteCount :=
              tx.db.namespaceRow.retainedTrashByteCount + item.logicalBytes } }
        trashByteDelta := tx.trashByteDelta + item.logicalBytes } := by
  refine
    { holds with
      refs := ?_
      trash := holds.trash.pack packable.fresh packable.own packable.count packable.bytes
        packable.manifest packable.sources packable.apart
      issued := ?_, separate := ?_, origins := ?_
      row := { holds.row with
        trashBytes := by rw [holds.row.trashBytes, Int.add_assoc] } }
  · refine holds.refs.perm (List.perm_iff_count.mpr fun id => ?_)
    simp only [Database.references, manifestBlobs, List.filter_append, List.filterMap_append,
      List.count_append]
    omega
  · refine { holds.issued with sources := ?_, trash := ?_ }
    · intro entry isEntry
      rcases List.mem_append.mp isEntry with old | new
      · exact holds.issued.sources entry old
      · exact packable.drawnSources entry new
    · intro id isItem
      rw [List.map_append, List.mem_append, List.map_singleton, List.mem_singleton] at isItem
      rcases isItem with old | rfl
      · exact holds.issued.trash id old
      · exact packable.drawn
  · intro entry isEntry
    rcases List.mem_append.mp isEntry with old | new
    · exact holds.separate entry old
    · exact packable.gone entry new
  · intro entry isEntry
    rcases List.mem_append.mp isEntry with old | new
    · exact holds.origins entry old
    · exact .inr (packable.origins entry new)

/-! ## Deleting a subtree -/

/-- A whole subtree below the root, whose parent is marked and which is not. -/
structure Cut (tx : MutationTx) (segments : List JsString) (target : VfsNode)
    (trees : List TreeRow) : Prop where
  nonempty : segments ≠ []
  member : target ∈ tx.db.nodes
  reached : PathOf tx.db.nodes target.id segments
  whole : trees.Perm (subtreeRows tx.db.nodes target)
  unmarked : tx.changed.get target.id = none
  parentMarked : ∀ id, target.parentId = some id → tx.changed.get id ≠ none

def goneIds (trees : List TreeRow) : List Uuid := trees.map fun row => row.node.id

section Cut

variable {segments : List JsString} {target : VfsNode} {trees : List TreeRow}

theorem Cut.mem (cut : Cut tx segments target trees) (layout : Layout host tx.db.nodes tx.rootId)
    {row : TreeRow} :
    row ∈ trees ↔ row.node ∈ tx.db.nodes ∧ ∃ rest,
      PathOf tx.db.nodes row.node.id (segments ++ rest) ∧ row.relativePath = joinRelative rest :=
  cut.whole.mem_iff.trans (mem_subtreeRows layout.tree layout.valid cut.member cut.reached)

theorem Cut.mem_gone (cut : Cut tx segments target trees)
    (layout : Layout host tx.db.nodes tx.rootId) {id : Uuid} :
    id ∈ goneIds trees ↔ ∃ rest, PathOf tx.db.nodes id (segments ++ rest) := by
  unfold goneIds
  rw [List.mem_map]
  constructor
  · rintro ⟨row, isRow, rfl⟩
    rcases (cut.mem layout).mp isRow with ⟨_, rest, reached, _⟩
    exact ⟨rest, reached⟩
  · rintro ⟨rest, reached⟩
    rcases PathOf.exists_node reached with ⟨node, member, rfl⟩
    exact ⟨⟨node, joinRelative rest⟩, (cut.mem layout).mpr ⟨member, rest, reached, rfl⟩, rfl⟩

theorem Cut.mem_nodes (cut : Cut tx segments target trees)
    (layout : Layout host tx.db.nodes tx.rootId) {row : TreeRow} (isRow : row ∈ trees) :
    row.node ∈ tx.db.nodes :=
  ((cut.mem layout).mp isRow).1

theorem Cut.gone_nodup (cut : Cut tx segments target trees)
    (layout : Layout host tx.db.nodes tx.rootId) : (goneIds trees).Nodup := by
  unfold goneIds
  exact (cut.whole.map fun row => row.node.id).nodup_iff.mpr
    (nodup_subtreeRows layout.tree cut.member)

theorem Cut.parent (cut : Cut tx segments target trees)
    (layout : Layout host tx.db.nodes tx.rootId) {node : VfsNode} (member : node ∈ tx.db.nodes)
    (isGone : node.id ∈ goneIds trees) {parentId : Uuid} (below : node.parentId = some parentId) :
    parentId ∈ goneIds trees ∨ tx.changed.get parentId ≠ none := by
  rcases (cut.mem_gone layout).mp isGone with ⟨rest, reached⟩
  rcases List.eq_nil_or_concat rest with isNil | ⟨inner, last, isRest⟩
  · rw [isNil, List.append_nil] at reached
    have same := layout.tree.eq_of_id member cut.member
      (PathTo.injective layout.tree reached cut.reached)
    exact .inr (cut.parentMarked parentId (same ▸ below))
  · rcases PathOf.above layout.tree member reached below with ⟨front, above, isPath⟩
    rw [isRest, List.concat_eq_append, ← List.append_assoc] at isPath
    rw [← (List.append_inj' isPath rfl).1] at above
    exact .inl ((cut.mem_gone layout).mpr ⟨inner, above⟩)

theorem Cut.notRoot (cut : Cut tx segments target trees)
    (layout : Layout host tx.db.nodes tx.rootId) {node : VfsNode} (member : node ∈ tx.db.nodes)
    (isGone : node.id ∈ goneIds trees) : node.parentId ≠ none := by
  intro top
  rcases (cut.mem_gone layout).mp isGone with ⟨rest, reached⟩
  have isNil := PathOf.eq_nil layout.tree member reached top
  exact cut.nonempty (List.append_eq_nil_iff.mp isNil).1

theorem Cut.unmarked_of_gone (cut : Cut tx segments target trees)
    (holds : TxInv host effects base scope held tx) {id : Uuid} (isGone : id ∈ goneIds trees) :
    tx.changed.get id = none := by
  by_contra marked
  rcases (cut.mem_gone holds.layout).mp isGone with ⟨rest, reached⟩
  exact holds.marks.marked_of_prefix holds.tree reached cut.reached marked cut.unmarked

theorem Cut.removable (cut : Cut tx segments target trees)
    (holds : TxInv host effects base scope held tx) (seen : ∀ id ∈ goneIds trees, tx.Seen id) :
    Removable host tx (nodesOf trees) (goneIds trees) where
  detachable :=
    { children := by
        intro node member parentId isGone below
        rcases (cut.mem_gone holds.layout).mp isGone with ⟨rest, reached⟩
        refine (cut.mem_gone holds.layout).mpr ⟨rest ++ [node.name], ?_⟩
        rw [← List.append_assoc]
        exact PathOf.child member below reached
      root := fun node member top isGone => cut.notRoot holds.layout member isGone top }
  whole := by
    have nodup : (nodesOf trees).Nodup := by
      have ids := cut.gone_nodup holds.layout
      unfold goneIds at ids
      exact List.Nodup.of_map VfsNode.id (by simpa [nodesOf, Function.comp_def] using ids)
    have nodesNodup : tx.db.nodes.Nodup := holds.tree.ids_nodup.of_map
    refine (List.perm_ext_iff_of_nodup nodup (nodesNodup.filter _)).mpr fun node => ?_
    rw [List.mem_filter, nodesOf, List.mem_map]
    constructor
    · rintro ⟨row, isRow, rfl⟩
      exact ⟨cut.mem_nodes holds.layout isRow, by simpa [goneIds] using ⟨row, isRow, rfl⟩⟩
    · rintro ⟨member, isGone⟩
      rcases (cut.mem_gone holds.layout).mp (by simpa using isGone) with ⟨rest, reached⟩
      exact ⟨⟨node, joinRelative rest⟩,
        (cut.mem holds.layout).mpr ⟨member, rest, reached, rfl⟩, rfl⟩
  unmarked := fun id isGone => cut.unmarked_of_gone holds isGone
  parents := fun node member isGone parentId below => cut.parent holds.layout member isGone below
  seen := seen

theorem Cut.packable (cut : Cut tx segments target trees)
    (holds : TxInv host effects base scope held tx) {item : TrashItem} {next : MutationTx}
    {namespaceRow : Namespace} {blobs : List Blob}
    (isNext : next.db = { tx.db with
      issued := tx.db.issued + 1, nodes := withoutNodes tx.db.nodes (goneIds trees)
      namespaceRow := namespaceRow, blobs := blobs })
    (isId : item.id = host.randomUUID tx.db.issued) (isRoot : item.rootNodeId = target.id)
    (count : item.nodeCount = trees.length)
    (bytes : item.logicalBytes =
      manifestBytes ((trees.map TreeRow.captured).map (trashEntryOf item.id))) :
    Packable host base next item ((trees.map TreeRow.captured).map (trashEntryOf item.id)) := by
  have fresh := holds.freshId
  have entryOf : ∀ entry ∈ (trees.map TreeRow.captured).map (trashEntryOf item.id),
      ∃ row ∈ trees, entry = trashEntryOf item.id row.captured := by
    intro entry isEntry
    rcases List.mem_map.mp isEntry with ⟨captured, isCaptured, rfl⟩
    rcases List.mem_map.mp isCaptured with ⟨row, isRow, rfl⟩
    exact ⟨row, isRow, rfl⟩
  refine
    { drawn := ?_, fresh := ?_, own := ?_, count := by simpa using count, bytes := bytes,
      manifest := ?_, sources := ?_, apart := ?_, gone := ?_, drawnSources := ?_, origins := ?_ }
  · rw [isNext, isId]
    exact fresh.drawn
  · rw [isNext, isId]
    exact fresh.trash
  · intro entry isEntry
    rcases entryOf entry isEntry with ⟨row, _, rfl⟩
    rfl
  · rw [isRoot]
    exact manifest_of_subtree holds.layout cut.member cut.reached cut.whole item.id
  · have nodup := cut.gone_nodup holds.layout
    simpa [goneIds, Function.comp_def, trashEntryOf, TreeRow.captured] using nodup
  · rw [isNext]
    intro entry isEntry inTrash
    rcases entryOf entry isEntry with ⟨row, isRow, rfl⟩
    rcases List.mem_map.mp inTrash with ⟨old, isOld, same⟩
    refine holds.separate old isOld ?_
    rw [same]
    exact mem_nodeIds_of_mem (cut.mem_nodes holds.layout isRow)
  · rw [isNext]
    intro entry isEntry live
    rcases entryOf entry isEntry with ⟨row, isRow, rfl⟩
    rcases mem_nodeIds.mp live with ⟨node, member, same⟩
    refine (mem_withoutNodes.mp member).2 ?_
    rw [same]
    exact List.mem_map.mpr ⟨row, isRow, rfl⟩
  · rw [isNext]
    intro entry isEntry
    rcases entryOf entry isEntry with ⟨row, isRow, rfl⟩
    exact (holds.issued.nodes _ (mem_nodeIds_of_mem (cut.mem_nodes holds.layout isRow))).mono
      (Nat.le_succ _)
  · intro entry isEntry
    rcases entryOf entry isEntry with ⟨row, isRow, rfl⟩
    have member := cut.mem_nodes holds.layout isRow
    have unmarked := cut.unmarked_of_gone holds (List.mem_map.mpr ⟨row, isRow, rfl⟩)
    exact ⟨row.node, (holds.marks.kept row.node member unmarked).1, rfl, rfl, rfl⟩

theorem satisfies_captureTrash (cut : Cut tx segments target trees)
    (layout : Layout host tx.db.nodes tx.rootId)
    (head : ∃ rest, trees = ⟨target, dot⟩ :: rest) {next : MutationTx}
    {originalPath : JsString} {post : Uuid → MutationTx → Prop}
    (continues : ∀ item : TrashItem,
      item.id = host.randomUUID next.db.issued → item.rootNodeId = target.id →
      item.nodeCount = trees.length →
      item.logicalBytes =
        manifestBytes ((trees.map TreeRow.captured).map (trashEntryOf item.id)) →
      post item.id
        { next with
          db := { next.db with
            issued := next.db.issued + 1
            trash := next.db.trash ++ [item]
            trashEntries :=
              next.db.trashEntries ++ (trees.map TreeRow.captured).map (trashEntryOf item.id)
            namespaceRow := { next.db.namespaceRow with
              retainedTrashNodeCount :=
                next.db.namespaceRow.retainedTrashNodeCount + item.nodeCount
              retainedTrashByteCount :=
                next.db.namespaceRow.retainedTrashByteCount + item.logicalBytes } }
          trashByteDelta := next.trashByteDelta + item.logicalBytes }) :
    Satisfies (captureTrash host originalPath (trees.map TreeRow.captured)) post Expected next := by
  have shaped : ∀ row ∈ trees.map TreeRow.captured,
      ContentShape row.type row.blobId row.size row.mimeType := by
    intro row isRow
    rcases List.mem_map.mp isRow with ⟨tree, isTree, rfl⟩
    exact layout.shapes _ (cut.mem_nodes layout isTree)
  have bytes := trashBytes_eq_ok (host.randomUUID next.db.issued) shaped
  rcases head with ⟨rest, isHead⟩
  subst isHead
  unfold captureTrash
  rw [List.map_cons] at bytes ⊢
  refine satisfies_ite.mpr ⟨fun notDot => absurd rfl notDot, fun _ => ?_⟩
  rw [bytes, satisfies_bind, satisfies_lift_ok, satisfies_bind, satisfies_state]
  refine satisfies_ite.mpr ⟨fun _ => trivial, fun _ => ?_⟩
  refine satisfies_ite.mpr ⟨fun _ => trivial, fun _ => ?_⟩
  refine satisfies_ite.mpr ⟨fun _ => .inl rfl, fun _ => ?_⟩
  simp only [satisfies_bind, satisfies_drawUuid, satisfies_updateDb, satisfies_update,
    satisfies_pure]
  exact continues
    { id := host.randomUUID next.db.issued, rootType := target.type, originalPath := originalPath,
      rootNodeId := target.id, rootRevision := ⟨target.id, target.version⟩
      nodeCount := ((⟨target, dot⟩ : TreeRow).captured :: rest.map TreeRow.captured).length
      logicalBytes := manifestBytes (((⟨target, dot⟩ : TreeRow).captured ::
        rest.map TreeRow.captured).map (trashEntryOf (host.randomUUID next.db.issued)))
      deletedAt := next.now, expiresAt := next.now + RETENTION_MS } rfl rfl (by simp) rfl

theorem satisfies_pinTrashBlob {entry : Uuid × Nat} {post : Unit → MutationTx → Prop}
    (pinned : Satisfies (incrementLiveReferenceCount entry.1 entry.2)
      (fun live after => live = true ∧ post () after) fault tx) :
    Satisfies (pinTrashBlob entry) post fault tx := by
  unfold pinTrashBlob
  rw [satisfies_bind]
  refine pinned.imp ?_
  rintro live after ⟨rfl, ends⟩
  exact ends

theorem captured_ids (trees : List TreeRow) :
    (trees.map TreeRow.captured).map SnapshotSourceRow.id = goneIds trees := by
  unfold goneIds
  rw [List.map_map]
  rfl

theorem moveToTrash_spec {path : List JsString} (cut : Cut tx segments target trees)
    (head : ∃ rest, trees = ⟨target, dot⟩ :: rest) (holds : TxInv host effects base scope held tx)
    (removes : ∀ rest, effects.removes (segments ++ rest)) :
    Satisfies (moveToTrash host path (trees.map TreeRow.captured))
      (fun _ next => TxInv host effects base scope held next) Expected tx := by
  unfold moveToTrash
  rw [satisfies_bind, captured_ids]
  refine satisfies_trackChangeFeedBefore holds _ ?_ fun feedBefore tracked nowSeen _ => ?_
  · intro node member isGone parentId below
    rcases cut.parent holds.layout member isGone below with inside | marked
    · rcases (cut.mem_gone holds.layout).mp inside with ⟨rest, reached⟩
      exact .inr ⟨inside, mem_nodeIds.mpr (PathOf.exists_node reached)⟩
    · exact .inl (.inl marked)
  · let recorded : MutationTx := { tx with feedBefore := feedBefore }
    have still : Cut recorded segments target trees :=
      ⟨cut.nonempty, cut.member, cut.reached, cut.whole, cut.unmarked, cut.parentMarked⟩
    have removable : Removable host recorded (nodesOf trees) (goneIds trees) := by
      refine still.removable tracked fun id isGone => nowSeen id isGone ?_
      rcases (cut.mem_gone holds.layout).mp isGone with ⟨rest, reached⟩
      exact mem_nodeIds.mpr (PathOf.exists_node reached)
    rw [satisfies_bind, satisfies_state, satisfies_bind]
    refine satisfies_recordRemovedFiles trees (fun row isRow => ?_) fun folders deltas => ?_
    · exact cut.notRoot holds.layout (cut.mem_nodes holds.layout isRow)
        (List.mem_map.mpr ⟨row, isRow, rfl⟩)
    · rw [satisfies_bind, satisfies_recordLiveNodeDelta]
      have counted : tx.liveNodeDelta + -((trees.map TreeRow.captured).length : Int) =
          tx.liveNodeDelta - (nodesOf trees).length := by
        rw [List.length_map, nodesOf, List.length_map]
        rfl
      have weighed : tx.liveFileByteDelta + -(removedBytes (trees.map TreeRow.captured) : Int) =
          tx.liveFileByteDelta - total fileSize (nodesOf trees) := by
        rw [removedBytes_captured]
        rfl
      have removesGone : ∀ id ∈ goneIds trees, ∀ path, PathOf tx.db.nodes id path →
          effects.removes path := by
        intro id isGone path reached
        rcases (cut.mem_gone holds.layout).mp isGone with ⟨rest, goneReached⟩
        rw [PathTo.unique holds.tree reached goneReached]
        exact removes rest
      have removed := TxInv.remove tracked removable removesGone deltas counted weighed
      have blobs := removedBlobs_captured trees
      refine satisfies_ite.mpr ⟨fun _ => ?_, fun _ => ?_⟩
      · rw [satisfies_bind, satisfies_deleteNodes, captured_ids, satisfies_bind,
          satisfies_recordLiveByteDelta, satisfies_bind, blobs,
          satisfies_forEach_decrementReferenceCount]
        exact removed.decrementAll _ (expandCounts_sortedCounts _)
      · rw [satisfies_bind]
        refine satisfies_captureTrash still holds.layout head ?_
        intro item isId isRoot count bytes
        rw [satisfies_bind, blobs]
        have referenced : ∀ entry ∈ sortedCounts (fileBlobs (nodesOf trees)),
            entry.1 ∈ fileBlobs (nodesOf trees) := fun entry isEntry =>
          OrderedMap.mem_of_mem_tally ((sortBy_perm _ _).mem_iff.mp isEntry)
        have positive : ∀ entry ∈ sortedCounts (fileBlobs (nodesOf trees)), 0 < entry.2 :=
          fun entry isEntry => tally_pos ((sortBy_perm _ _).mem_iff.mp isEntry)
        have live : ∀ id ∈ fileBlobs (nodesOf trees), id ∈ tx.db.references ++ held := by
          intro id isBlob
          simp only [fileBlobs, List.mem_filterMap, List.mem_filter, decide_eq_true_eq] at isBlob
          rcases isBlob with ⟨node, ⟨isNode, isFile⟩, isBlob⟩
          exact List.mem_append_left _
            (mem_references_of_file (removable.mem.mp isNode).1 isFile isBlob)
        refine satisfies_forEach_pin base.blobs _
          (fun entry _ next post => satisfies_pinTrashBlob) ?_
          positive (fun entry isEntry => live _ (referenced entry isEntry)) ?_
        · exact tracked.refs
        · rw [satisfies_bind, satisfies_deleteNodes, captured_ids, satisfies_bind,
            satisfies_recordLiveByteDelta, satisfies_bind,
            satisfies_forEach_decrementReferenceCount]
          have entries := manifestBlobs_captured item.id trees
          have packed := TxInv.pack (entries.symm ▸ removed.draw)
            (still.packable tracked rfl isId isRoot count bytes)
          refine (packed.incrementAll (sortedCounts (fileBlobs (nodesOf trees))) ?_).decrementAll _
            (List.Perm.refl _)
          intro entry isEntry
          have inManifest := referenced entry isEntry
          rw [← entries] at inManifest
          refine List.mem_append_left _ (List.mem_append_left _ (List.mem_append_right _ ?_))
          simp only [manifestBlobs, List.filter_append, List.filterMap_append, List.mem_append]
          exact .inr inManifest

end Cut

/-! ## The operations -/

theorem Captured.cut {segments : List JsString} {limit : Nat} {rows : List SnapshotSourceRow}
    {source target : VfsNode} {trees : List TreeRow}
    (captured : Captured tx segments limit rows source trees)
    (holds : TxInv host effects base scope held tx) (nonempty : segments ≠ [])
    (member : target ∈ tx.db.nodes) (reached : PathOf tx.db.nodes target.id segments)
    (outside : ¬scope segments)
    (parentMarked : ∀ id, target.parentId = some id → tx.changed.get id ≠ none)
    (within : rows.length ≤ limit ∨ (subtreeRows tx.db.nodes target).length ≤ limit) :
    Cut tx segments target trees ∧ ∃ rest, trees = ⟨target, dot⟩ :: rest := by
  have same : source = target := holds.tree.eq_of_id captured.member member
    (PathTo.injective holds.tree captured.reached reached)
  subst same
  have whole := captured.whole within
  exact ⟨⟨nonempty, member, reached, whole, holds.unmarked_of_path reached outside, parentMarked⟩,
    captured.head whole⟩

theorem length_subtreeRows_of_leaf {node : VfsNode}
    (leaf : ∀ child ∈ tx.db.nodes, child.parentId ≠ some node.id) :
    (subtreeRows tx.db.nodes node).length = 1 := by
  have empty : childRows tx.db.nodes ⟨node, dot⟩ = [] := by
    rw [List.eq_nil_iff_forall_not_mem]
    intro row isRow
    rcases mem_childRows.mp isRow with ⟨rowMember, below, _⟩
    exact leaf _ rowMember below
  rw [subtreeRows_eq_cons]
  unfold descendantRows
  rw [empty, levels_nil, List.length_singleton]

theorem satisfies_removeNode {segments : List JsString} {recursive : Bool} {limit : Nat}
    {post : Option Uuid → MutationTx → Prop} (nonempty : segments ≠ [])
    (holds : TxInv host effects base scope held tx)
    (inScope : ∀ front, front <+: segments.dropLast → scope front) (outside : ¬scope segments)
    (continues : ∀ next target trees, TxInv host effects base scope held next → next.db = tx.db →
      Cut next segments target trees → (∃ rest, trees = ⟨target, dot⟩ :: rest) →
      Satisfies (moveToTrash host segments (trees.map TreeRow.captured)) post Expected next) :
    Satisfies (removeNode host segments recursive limit) post Expected tx := by
  have path := dropLast_append_lastSegment nonempty
  unfold removeNode
  rw [satisfies_bind]
  refine (lockParentChain_spec holds (fun isTrue => by cases isTrue) fun _ => inScope).imp ?_
  rintro parentId next ⟨inv, _, locked, marked, sameDb, _⟩
  rw [satisfies_bind]
  refine satisfies_lockTargetNode inv locked (fun _ => trivial) ?_
  intro target feedBefore _ member below _ reached tracked _ _
  rw [path] at reached
  have parentMarked : ∀ id, target.parentId = some id → next.changed.get id ≠ none := by
    intro id isParent
    rw [below] at isParent
    cases isParent
    exact marked rfl
  rw [satisfies_bind, satisfies_state]
  refine satisfies_ite.mpr ⟨fun _ => trivial, fun _ => ?_⟩
  rw [satisfies_bind]
  refine (captureSnapshotRows_spec tracked).imp ?_
  rintro rows after ⟨rfl, source, trees, captured⟩
  refine satisfies_ite.mpr ⟨fun _ => trivial, fun within => ?_⟩
  have enough : rows.length ≤ (if target.type = .file then 1 else limit) ∨
      (subtreeRows next.db.nodes target).length ≤ (if target.type = .file then 1 else limit) := by
    cases isType : target.type with
    | file =>
        right
        rw [length_subtreeRows_of_leaf fun child childMember childBelow => ?_]
        · exact Nat.le_refl 1
        · have directory := inv.layout.directory_of_child childMember member childBelow
          rw [isType] at directory
          cases directory
    | directory =>
        left
        change rows.length ≤ limit
        by_contra more
        exact within ⟨by omega, isType⟩
  rcases captured.cut tracked nonempty member reached outside parentMarked enough with ⟨cut, head⟩
  rw [captured.captured]
  exact continues _ target trees tracked (sameDb rfl) cut head

theorem removeNode_spec {segments : List JsString} {recursive : Bool} {limit : Nat}
    (nonempty : segments ≠ []) (holds : TxInv host effects base scope held tx)
    (inScope : ∀ front, front <+: segments.dropLast → scope front) (outside : ¬scope segments)
    (removes : ∀ rest, effects.removes (segments ++ rest)) :
    Satisfies (removeNode host segments recursive limit)
      (fun _ next => TxInv host effects base scope held next) Expected tx := by
  apply satisfies_removeNode nonempty holds inScope outside
  intro next target trees inv _ cut head
  exact moveToTrash_spec cut head inv removes

theorem removeEmptyDirectory_spec {segments : List JsString} (nonempty : segments ≠ [])
    (holds : TxInv host effects base scope held tx)
    (inScope : ∀ front, front <+: segments.dropLast → scope front) (outside : ¬scope segments)
    (removes : ∀ rest, effects.removes (segments ++ rest)) :
    Satisfies (removeEmptyDirectory host segments)
      (fun _ next => TxInv host effects base scope held next) Expected tx := by
  have path := dropLast_append_lastSegment nonempty
  unfold removeEmptyDirectory
  rw [satisfies_bind]
  refine (lockParentChain_spec holds (fun isTrue => by cases isTrue) fun _ => inScope).imp ?_
  rintro parentId next ⟨inv, _, locked, marked, _⟩
  rw [satisfies_bind]
  refine satisfies_lockTargetNode inv locked (fun _ => trivial) ?_
  intro target feedBefore _ member below _ reached tracked _ _
  rw [path] at reached
  have parentMarked : ∀ id, target.parentId = some id → next.changed.get id ≠ none := by
    intro id isParent
    rw [below] at isParent
    cases isParent
    exact marked rfl
  refine satisfies_ite.mpr ⟨fun _ => trivial, fun _ => ?_⟩
  rw [satisfies_bind, satisfies_state]
  refine satisfies_ite.mpr ⟨fun _ => trivial, fun empty => ?_⟩
  rw [satisfies_bind]
  refine (captureSnapshotRows_spec tracked).imp ?_
  rintro rows after ⟨rfl, source, trees, captured⟩
  have enough : (subtreeRows next.db.nodes target).length ≤ 1 := by
    rw [length_subtreeRows_of_leaf fun child childMember childBelow => ?_]
    refine empty (List.length_pos_of_mem (List.mem_filter.mpr ⟨childMember, ?_⟩))
    simpa using childBelow
  rcases captured.cut tracked nonempty member reached outside parentMarked (.inr enough) with
    ⟨cut, head⟩
  rw [captured.captured]
  exact moveToTrash_spec cut head tracked removes

def expireScope (base : Database) (nodeId : Uuid) (front : List JsString) : Prop :=
  ∃ path, PathOf base.nodes nodeId path ∧ front <+: path.dropLast

theorem expireNode_spec {nodeId : Uuid} {cutoff : Nat} (fromStart : tx.db.nodes = base.nodes)
    (holds : TxInv host effects base (expireScope base nodeId) held tx)
    (removes : ∀ path rest, PathOf base.nodes nodeId path → effects.removes (path ++ rest)) :
    Satisfies (expireNode host nodeId cutoff)
      (fun _ next => TxInv host effects base (expireScope base nodeId) held next) Expected tx := by
  unfold expireNode
  rw [satisfies_bind, satisfies_state]
  refine satisfies_ite.mpr ⟨fun _ => holds, fun _ => ?_⟩
  cases found : tx.db.findNode nodeId with
  | none => exact holds
  | some node =>
      rcases mem_of_find_eq_some found with ⟨member, rfl⟩
      rcases holds.tree.exists_path member with ⟨path, reached⟩
      have enough : path.length < tx.db.nodes.length + 1 :=
        Nat.lt_succ_of_lt (PathOf.length_lt holds.tree reached)
      rcases segmentsOf_eq_ok holds.tree member reached enough [] with ⟨top, topMember, isTop, run⟩
      have topReached : PathOf tx.db.nodes top.id [] :=
        PathTo.root (List.mem_map_of_mem topMember) isTop
      have isRoot := PathTo.injective holds.tree topReached holds.layout.root
      rw [List.append_nil] at run
      have inScope : ∀ front, front <+: path.dropLast → expireScope base node.id front :=
        fun front isFront => ⟨path, fromStart ▸ reached, isFront⟩
      rw [satisfies_bind, run, satisfies_lift_ok]
      refine satisfies_ite.mpr ⟨fun differs => absurd isRoot differs, fun _ => ?_⟩
      rw [satisfies_bind]
      refine (lockParentChain_spec holds (fun isTrue => by cases isTrue) fun _ => inScope).imp ?_
      rintro parentId next ⟨inv, _, locked, _, _⟩
      cases last : path.getLast? with
      | none => exact inv
      | some name =>
          have nonempty : path ≠ [] := by
            intro isNil
            rw [isNil] at last
            cases last
          rw [satisfies_bind]
          refine satisfies_lockTargetNode inv locked (fun _ => inv) ?_
          intro target feedBefore _ _ _ _ _ tracked _ _
          cases isExpiry : target.expiresAt with
          | none => simpa [isExpiry] using tracked
          | some expiresAt =>
              simp only [isExpiry]
              refine satisfies_ite.mpr ⟨fun _ => tracked, fun _ => ?_⟩
              rw [satisfies_bind]
              refine (removeNode_spec nonempty tracked inScope ?_
                fun rest => removes path rest (fromStart ▸ reached)).imp fun _ _ done => done
              rintro ⟨other, otherReached, isFront⟩
              rw [PathTo.unique holds.baseTree otherReached (fromStart ▸ reached)] at isFront
              exact not_aboveScope_self nonempty isFront

end Storix
