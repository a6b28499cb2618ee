import Storix.Results.Tables

/-! # Bulk writes keep the parents

A subtree is captured with every parent before its children, so deleting it from the end, in
chunks of any size, never leaves a node without its parent. A copy is made level by level, so
inserting it from the start never inserts a node without its parent. -/

namespace Storix

open Foundation Foundation.Command JsString

variable {host : Host} {nodes : List VfsNode} {rootId : Uuid} {source : VfsNode}
  {path : List JsString} {tx : MutationTx}

/-! ## The order of captured rows -/

theorem lt_append_cons (front rest : List UInt8) (byte : UInt8) :
    front < front ++ byte :: rest := by
  induction front with
  | nil => simp
  | cons first front induction =>
      rw [List.cons_append, List.cons_lt_cons_iff]
      exact .inr ⟨rfl, induction⟩

theorem utf8_lt_child {segments : List JsString} {name : JsString} (nonempty : segments ≠ []) :
    utf8 (joinRelative segments) < utf8 (joinRelative (segments ++ [name])) := by
  have parent : joinRelative segments = join segments := if_neg nonempty
  have child : joinRelative (segments ++ [name]) = join segments ++ slash :: name := by
    simp [joinRelative, join_append_singleton name nonempty]
  rw [parent, child, utf8_append (by decide), utf8_cons_ascii (by decide)]
  exact lt_append_cons _ _ _

theorem relativePathLe_total (left right : TreeRow) :
    relativePathLe left right = true ∨ relativePathLe right left = true := by
  unfold relativePathLe
  by_cases leftDot : left.relativePath = dot
  · simp [leftDot]
  · by_cases rightDot : right.relativePath = dot
    · simp [rightDot]
    · simp only [leftDot, rightDot, Bool.or_eq_true, Bool.and_eq_true, bne_iff_ne, ne_eq,
        not_false_eq_true, true_and, decide_eq_true_eq]
      rcases List.le_total (utf8 left.relativePath) (utf8 right.relativePath) with le | le
      · exact .inl (.inr le)
      · exact .inr (.inr le)

theorem relativePathLe_trans {left middle right : TreeRow}
    (first : relativePathLe left middle = true) (second : relativePathLe middle right = true) :
    relativePathLe left right = true := by
  simp only [relativePathLe, Bool.or_eq_true, Bool.and_eq_true, beq_iff_eq, bne_iff_ne,
    decide_eq_true_eq] at first second ⊢
  rcases first with (same | isDot) | ⟨notMiddle, low⟩
  · rw [same]
    exact second
  · exact .inl (.inr isDot)
  · rcases second with (same | isDot) | ⟨notDot, high⟩
    · rw [← same]
      exact .inr ⟨notMiddle, low⟩
    · exact absurd isDot notMiddle
    · exact .inr ⟨notDot, List.le_trans low high⟩

/-- The captured rows, as the comparator of `captureSnapshotRows` sorts them. -/
theorem pairwise_relativePathLe (rows : List TreeRow) :
    (sortBy relativePathLe rows).Pairwise fun left right => relativePathLe left right = true := by
  have total : Std.Total fun left right => relativePathLe left right = true :=
    ⟨relativePathLe_total⟩
  have trans : IsTrans TreeRow fun left right => relativePathLe left right = true :=
    ⟨fun _ _ _ => relativePathLe_trans⟩
  exact List.pairwise_insertionSort _ rows

/-- Rows of a subtree, with the text of their path below its root. -/
structure BelowSource (nodes : List VfsNode) (path : List JsString) (rows : List TreeRow) :
    Prop where
  inside : ∀ row ∈ rows, row.node ∈ nodes ∧ ∃ segments,
    PathOf nodes row.node.id (path ++ segments) ∧ row.relativePath = joinRelative segments
  distinct : (rows.map fun row => row.node.id).Nodup

theorem relativePathLe_child (layout : Layout host nodes rootId) {rows : List TreeRow}
    (below : BelowSource nodes path rows) {parent child : TreeRow} (isParent : parent ∈ rows)
    (isChild : child ∈ rows) (linked : child.node.parentId = some parent.node.id) :
    relativePathLe child parent = false := by
  have ⟨_, segments, parentReached, parentText⟩ := below.inside parent isParent
  have ⟨childMember, deeper, childReached, childText⟩ := below.inside child isChild
  have whole := PathOf.child childMember linked parentReached
  rw [List.append_assoc] at whole
  have isDeeper : deeper = segments ++ [child.node.name] :=
    List.append_cancel_left (PathTo.unique layout.tree childReached whole)
  have plain := layout.valid.plain childReached
  rw [isDeeper] at childText plain
  have notDot : child.relativePath ≠ dot := by
    rw [childText, joinRelative, if_neg (by simp)]
    exact join_ne_dot (by simp) plain
  have different : child.relativePath ≠ parent.relativePath := by
    intro same
    rw [childText, parentText] at same
    have segmentsSame := joinRelative_injective plain
      (fun name member => plain name (List.mem_append_left _ member)) same
    simp at segmentsSame
  have notLe : parent.relativePath ≠ dot →
      ¬utf8 child.relativePath ≤ utf8 parent.relativePath := by
    intro parentNotDot
    have nonempty : segments ≠ [] := by
      intro isEmpty
      rw [isEmpty] at parentText
      exact parentNotDot parentText
    rw [childText, parentText, List.not_le]
    exact utf8_lt_child nonempty
  simp only [relativePathLe, Bool.or_eq_false_iff, Bool.and_eq_false_iff, beq_eq_false_iff_ne,
    bne_eq_false_iff_eq, decide_eq_false_iff_not]
  refine ⟨⟨different, notDot⟩, ?_⟩
  by_cases isDot : parent.relativePath = dot
  · exact .inl isDot
  · exact .inr (notLe isDot)

theorem pairwise_parents (layout : Layout host nodes rootId) {rows : List TreeRow}
    (below : BelowSource nodes path rows) :
    (sortBy relativePathLe rows).Pairwise fun earlier later =>
      earlier.node.parentId ≠ some later.node.id := by
  have perm : (sortBy relativePathLe rows).Perm rows := List.perm_insertionSort _ rows
  apply List.Pairwise.imp_of_mem _ (pairwise_relativePathLe rows)
  intro earlier later isEarlier isLater le linked
  rw [relativePathLe_child layout below (perm.mem_iff.mp isLater) (perm.mem_iff.mp isEarlier)
    linked] at le
  cases le

/-- What a capture returns: some rows of the subtree in their order, and all of them where
they are no more than the limit. -/
theorem captureSnapshotRows_eq_ok (layout : Layout host tx.db.nodes tx.rootId)
    {segments : List JsString} {maxNodes : Nat} {rows : List SnapshotSourceRow}
    {next : MutationTx}
    (result : captureSnapshotRows host segments maxNodes tx = .ok (rows, next)) :
    ∃ source taken, source ∈ tx.db.nodes ∧ PathOf tx.db.nodes source.id segments ∧
      BelowSource tx.db.nodes segments taken ∧
      rows = (sortBy relativePathLe taken).map TreeRow.captured ∧
      (rows.length ≤ maxNodes → taken.Perm (subtreeRows tx.db.nodes source)) := by
  have tree := layout.tree
  have spec : Satisfies (captureSnapshotRows host segments maxNodes)
      (fun rows _ => ∃ source taken, source ∈ tx.db.nodes ∧
        PathOf tx.db.nodes source.id segments ∧ BelowSource tx.db.nodes segments taken ∧
        rows = (sortBy relativePathLe taken).map TreeRow.captured ∧
        (rows.length ≤ maxNodes → taken.Perm (subtreeRows tx.db.nodes source)))
      (fun _ => True) tx := by
    unfold captureSnapshotRows
    apply satisfies_ite.mpr
    refine ⟨fun _ => trivial, fun _ => ?_⟩
    rw [satisfies_bind, satisfies_state]
    cases resolved : resolvePathInManager tx.db tx.rootId segments with
    | none => trivial
    | some source =>
        have ⟨member, reached⟩ :=
          (resolvePathInManager_eq_some_iff tree layout.root).mp resolved
        let ordered := host.rowOrder (subtreeRows tx.db.nodes source)
        let taken := ordered.take (maxNodes + 1)
        have perm : ordered.Perm (subtreeRows tx.db.nodes source) := host.rowOrder_perm _
        have isPart : taken.Sublist ordered := List.take_sublist _ _
        have within : ∀ row ∈ taken, row ∈ subtreeRows tx.db.nodes source :=
          fun row isRow => perm.mem_iff.mp (isPart.subset isRow)
        have below : BelowSource tx.db.nodes segments taken := by
          constructor
          · intro row isRow
            exact (mem_subtreeRows tree layout.valid member reached).mp (within row isRow)
          · have nodup := (perm.map fun row => row.node.id).nodup_iff.mpr
              (nodup_subtreeRows tree member)
            exact nodup.sublist (isPart.map _)
        have sorted : (sortBy relativePathLe taken).Perm taken := List.perm_insertionSort _ taken
        have numbered : ∀ row ∈ sortBy relativePathLe taken, row.node.Numbered := by
          intro row isRow
          exact layout.versions row.node (below.inside row (sorted.mem_iff.mp isRow)).1
        change Satisfies (lift (sourceRows (sortBy relativePathLe taken))) _ _ tx
        rw [sourceRows_eq_ok numbered, satisfies_lift_ok]
        refine ⟨source, taken, member, reached, below, rfl, ?_⟩
        intro fits
        rw [List.length_map, sorted.length_eq] at fits
        have short : ordered.length < maxNodes + 1 := by
          have isLength := @List.length_take _ (maxNodes + 1) ordered
          change taken.length = _ at isLength
          omega
        have whole : taken = ordered := List.take_of_length_le (by omega)
        rw [whole]
        exact perm
  exact Satisfies.of_ok spec result

/-! ## Deleting in chunks -/

theorem chunked_front {α : Type} {size : Nat} (positive : 0 < size) {items chunk : List α}
    {front back : List (List α)} (isSplit : chunked size items = front ++ chunk :: back) :
    ∃ rest, items = front.flatten ++ chunk ++ rest := by
  have whole := chunked_flatten positive items
  rw [isSplit, List.flatten_append, List.flatten_cons, ← List.append_assoc] at whole
  exact ⟨back.flatten, whole.symm⟩

theorem parents_stay {rows : List TreeRow}
    (ordered : rows.Pairwise fun earlier later => earlier.node.parentId ≠ some later.node.id)
    (closed : ∀ node ∈ nodes, ∀ row ∈ rows, node.parentId = some row.node.id →
      ∃ child ∈ rows, child.node = node)
    {gone rest : List Uuid} (isFront : (rows.map fun row => row.node.id).reverse = gone ++ rest)
    {node : VfsNode} (member : node ∈ nodes) (stays : node.id ∉ gone) {parentId : Uuid}
    (linked : node.parentId = some parentId) : parentId ∉ gone := by
  intro isGone
  rw [← List.map_reverse] at isFront
  have reversed : rows.reverse.Pairwise fun earlier later =>
      later.node.parentId ≠ some earlier.node.id := List.pairwise_reverse.mpr ordered
  have ⟨goneRows, restRows, isRows, isGoneRows, isRestRows⟩ := List.map_eq_append_iff.mp isFront
  rw [← isGoneRows] at isGone stays
  rcases List.mem_map.mp isGone with ⟨parent, isParent, rfl⟩
  have inRows : parent ∈ rows := by
    rw [← List.mem_reverse, isRows]
    exact List.mem_append_left _ isParent
  rcases closed node member parent inRows linked with ⟨child, isChild, rfl⟩
  rw [← List.mem_reverse, isRows] at isChild
  rcases List.mem_append.mp isChild with inGone | inRest
  · exact stays (List.mem_map_of_mem inGone)
  · rw [isRows] at reversed
    exact (List.pairwise_append.mp reversed).2.2 parent isParent child inRest linked

/-! ## Inserting in chunks -/

theorem Grafted.parent_before {start now : Nat} {expiresAt : Option Nat} {root : CopiedRow}
    {done : List CopiedRow} (grafted : Grafted host nodes start now expiresAt root done)
    {front back : List CopiedRow} {copy : CopiedRow} (isSplit : done = front ++ copy :: back) :
    front = [] ∨ ∃ above ∈ front, copy.row.parentId = some above.row.id := by
  induction grafted generalizing back with
  | root =>
      left
      cases front with
      | nil => rfl
      | cons first front => simp at isSplit
  | @graft done _ child _ above aboveMember _ _ _ induction =>
      cases back using List.reverseRecOn with
      | nil =>
          have ⟨isFront, isCopy⟩ := List.append_inj' isSplit rfl
          right
          refine ⟨above, isFront ▸ aboveMember, ?_⟩
          rw [← List.head_eq_of_cons_eq isCopy]
          rfl
      | append_singleton back last =>
          rw [← List.cons_append, ← List.append_assoc] at isSplit
          have ⟨isFront, _⟩ := List.append_inj' isSplit rfl
          exact induction isFront

/-- The first part of `copyDirectory`: the new root, and the rows that are inserted next. -/
def copyDirectoryRows (host : Host) (source : VfsNode) (placement : Placement)
    (maxSyncCopyNodes : Nat) (expiresAt : Option Nat) : Mutating (VfsNode × List CopiedRow) := do
  let tx ← state
  let rows := ((host.rowOrder (subtreeRows tx.db.nodes source)).take
    (maxSyncCopyNodes + 1)).map TreeRow.node
  if maxSyncCopyNodes < rows.length then stop (.copyLimitExceeded maxSyncCopyNodes)
  else
    lift (assertSubtreeDestinationPaths host source.id placement.finalSegments rows)
    let newRoot ← createNode host (.directory placement.finalParentId placement.finalName)
    markChanged newRoot.id false
    let copied ← copyLevels host expiresAt rows source.id (rows.length + 1)
      [⟨source.id, newRoot.id⟩]
    return (newRoot, copied)

def insertChunks (size : Nat) (rows : List VfsNode) : Mutating Unit :=
  forEach (fun chunk => updateDb fun db => { db with nodes := db.nodes ++ chunk })
    (chunked size rows)

theorem forEach_insertNode_eq (rows : List VfsNode) (tx : MutationTx) :
    forEach insertNode rows tx =
      .ok ((), { tx with db := { tx.db with nodes := tx.db.nodes ++ rows } }) := by
  induction rows generalizing tx with
  | nil =>
      rw [List.append_nil]
      rfl
  | cons row rest induction =>
      have first : insertNode row tx =
          .ok ((), { tx with db := { tx.db with nodes := tx.db.nodes ++ [row] } }) := rfl
      change (insertNode row >>= fun _ => forEach insertNode rest) tx = _
      rw [bind_of_ok first, induction]
      simp

theorem insertChunks_eq {size : Nat} (positive : 0 < size) (rows : List VfsNode) :
    insertChunks size rows = forEach insertNode rows := by
  have chunks : ∀ (chunks : List (List VfsNode)) (tx : MutationTx),
      forEach (fun chunk => updateDb fun db => { db with nodes := db.nodes ++ chunk }) chunks tx =
        .ok ((), { tx with db := { tx.db with nodes := tx.db.nodes ++ chunks.flatten } }) := by
    intro chunks
    induction chunks with
    | nil =>
        intro tx
        rw [List.flatten_nil, List.append_nil]
        rfl
    | cons chunk rest induction =>
        intro tx
        have first : (updateDb fun db => { db with nodes := db.nodes ++ chunk }) tx =
            .ok ((), { tx with db := { tx.db with nodes := tx.db.nodes ++ chunk } }) := rfl
        change ((updateDb fun db => { db with nodes := db.nodes ++ chunk }) >>= fun _ =>
          forEach _ rest) tx = _
        rw [bind_of_ok first, induction]
        simp
  funext tx
  rw [insertChunks, chunks, chunked_flatten positive, forEach_insertNode_eq]

theorem copyDirectory_eq (source : VfsNode) (placement : Placement) (maxSyncCopyNodes : Nat)
    (expiresAt : Option Nat) :
    copyDirectory host source placement maxSyncCopyNodes expiresAt = (do
      let (newRoot, copied) ←
        copyDirectoryRows host source placement maxSyncCopyNodes expiresAt
      let newRows := copied.map CopiedRow.row
      insertChunks NODE_BULK_CHUNK_SIZE newRows
      forEach (fun row => markChanged row.id false) newRows
      recordLiveNodeDelta (newRows.length + 1)
      forEach (fun entry => recordFolderFileDelta entry.1 entry.2)
        (OrderedMap.tally (fileParents newRows)).entries
      forEach (fun entry => incrementReferenceCount entry.1 entry.2)
        (sortedCounts (fileBlobs newRows))
      return newRoot) := by
  unfold copyDirectory copyDirectoryRows
  rw [bind_assoc]
  congr 1
  funext tx
  dsimp only
  split
  case isTrue => rfl
  case isFalse =>
    have inserts : ∀ rows, insertChunks NODE_BULK_CHUNK_SIZE rows = forEach insertNode rows :=
      insertChunks_eq (by decide)
    simp only [bind_assoc, pure_bind, inserts]

theorem satisfies_afterInsert (newRoot : VfsNode) (newRows : List VfsNode) :
    Satisfies (do
      forEach (fun row => markChanged row.id false) newRows
      recordLiveNodeDelta (newRows.length + 1)
      forEach (fun entry => recordFolderFileDelta entry.1 entry.2)
        (OrderedMap.tally (fileParents newRows)).entries
      forEach (fun entry => incrementReferenceCount entry.1 entry.2)
        (sortedCounts (fileBlobs newRows))
      return newRoot : Mutating VfsNode)
      (fun root after => newRoot = root ∧ after.db.nodes = tx.db.nodes) (fun _ => True) tx := by
  rw [satisfies_bind]
  refine satisfies_forEach_markChanged fun _ _ => ?_
  rw [satisfies_bind, satisfies_recordLiveNodeDelta, satisfies_bind]
  refine satisfies_forEach_folderDelta _ fun _ _ => ?_
  rw [satisfies_bind, satisfies_forEach_increment, satisfies_pure]
  exact ⟨rfl, rfl⟩

/-- A copy that ends has inserted its rows, in chunks of any size, and nothing else after the
new root. -/
theorem copyDirectory_eq_ok {placement : Placement} {maxSyncCopyNodes : Nat}
    {expiresAt : Option Nat} {newRoot : VfsNode} {last : MutationTx}
    (result : copyDirectory host source placement maxSyncCopyNodes expiresAt tx =
      .ok (newRoot, last)) :
    ∃ copied next, copyDirectoryRows host source placement maxSyncCopyNodes expiresAt tx =
        .ok ((newRoot, copied), next) ∧
      last.db.nodes = next.db.nodes ++ copied.map CopiedRow.row ∧
      ∀ size, 1 ≤ size → insertChunks size (copied.map CopiedRow.row) next =
        .ok ((), { next with db := { next.db with nodes := last.db.nodes } }) := by
  rw [copyDirectory_eq] at result
  rcases bind_eq_ok result with ⟨⟨root, copied⟩, next, isMade, result⟩
  have inserts : ∀ size, 1 ≤ size → insertChunks size (copied.map CopiedRow.row) next =
      .ok ((), { next with
        db := { next.db with nodes := next.db.nodes ++ copied.map CopiedRow.row } }) := by
    intro size positive
    rw [insertChunks_eq positive, forEach_insertNode_eq]
  dsimp only at result
  rw [bind_of_ok (inserts NODE_BULK_CHUNK_SIZE (by decide))] at result
  have ends := (satisfies_afterInsert root (copied.map CopiedRow.row)).of_ok result
  rcases ends with ⟨rfl, isLast⟩
  refine ⟨copied, next, isMade, isLast, fun size positive => ?_⟩
  rw [inserts size positive, isLast]

/-- What the first part of `copyDirectory` has made when the rows are inserted. -/
structure CopyMade (host : Host) (tx : MutationTx) (source : VfsNode) (path : List JsString)
    (expiresAt : Option Nat) (root : CopiedRow) (copied : List CopiedRow) : Prop where
  ofSource : root.sourceId = source.id
  draw : root.row.id = host.randomUUID tx.db.issued
  directory : root.row.type = .directory
  grafted : Grafted host tx.db.nodes tx.db.issued tx.now expiresAt root (root :: copied)
  filled : ∃ rows, CopySource tx.db.nodes rows path ∧
    ∀ copy ∈ root :: copied, copy.row.type = .directory →
      Filled rows source.id copied copy.sourceId

theorem satisfies_copyDirectoryRows (layout : Layout host tx.db.nodes tx.rootId)
    (member : source ∈ tx.db.nodes) (reached : PathOf tx.db.nodes source.id path)
    {placement : Placement} {maxSyncCopyNodes : Nat} {expiresAt : Option Nat} :
    Satisfies (copyDirectoryRows host source placement maxSyncCopyNodes expiresAt)
      (fun made next => made.1 ∈ next.db.nodes ∧ ∃ root : CopiedRow, root.row = made.1 ∧
        CopyMade host tx source path expiresAt root made.2) (fun _ => True) tx := by
  unfold copyDirectoryRows
  rw [satisfies_bind, satisfies_state]
  generalize isRows : ((host.rowOrder (subtreeRows tx.db.nodes source)).take
    (maxSyncCopyNodes + 1)).map TreeRow.node = rows
  refine satisfies_ite.mpr ⟨fun _ => trivial, fun within => ?_⟩
  have perm : rows.Perm ((subtreeRows tx.db.nodes source).map TreeRow.node) := by
    rw [← isRows] at within ⊢
    refine (take_perm_of_length_lt host ?_).map _
    rw [List.length_map] at within
    omega
  have rowsOf := CopySource.of_subtree layout member reached perm
  rw [satisfies_bind]
  refine (satisfies_lift _).mpr ⟨fun _ _ => ?_, fun _ _ => trivial⟩
  rw [satisfies_bind, satisfies_createNode, satisfies_bind]
  refine satisfies_markChanged fun rootChanged _ => ?_
  rw [satisfies_bind]
  let root : CopiedRow :=
    { row := (NewNode.directory placement.finalParentId placement.finalName).row
        (host.randomUUID tx.db.issued) tx.now
      sourceId := source.id }
  let planted : MutationTx :=
    { tx with
      db := { tx.db with nodes := tx.db.nodes ++ [root.row] }
      changed := rootChanged }
  have current : copying planted tx.db.issued [root] =
      { planted with db := { planted.db with issued := tx.db.issued + 1 } } := by
    have noBytes : total fileSize ([root].map CopiedRow.row) = 0 := rfl
    unfold copying
    rw [noBytes, Int.add_zero]
    rfl
  have queued : CopiedTo host planted tx.db.nodes tx.db.issued expiresAt root [root]
      { planted with db := { planted.db with issued := tx.db.issued + 1 } } :=
    ⟨.root, current.symm⟩
  have atSource : PathOf tx.db.nodes source.id (path ++ []) := by
    rw [List.append_nil]
    exact reached
  have enough : rows.length < rows.length + 1 + 0 := Nat.lt_succ_self _
  refine (copyLevels_spec rowsOf enough queued ?_ (by simp) ?_ ?_).imp ?_
  · intro task isTask
    rw [List.mem_singleton] at isTask
    exact ⟨root, List.mem_singleton_self _, rfl, isTask⟩
  · intro task isTask
    rw [List.mem_singleton] at isTask
    exact ⟨[], rfl, isTask ▸ atSource⟩
  · intro copy isCopy rest copyReached
    rw [List.mem_singleton] at isCopy
    rw [isCopy] at copyReached
    have same := PathTo.unique layout.tree copyReached atSource
    rw [List.append_cancel_left_eq] at same
    simp [same]
  · intro copies after ⟨⟨grafted, isAfter⟩, rootFilled, filled⟩
    rw [satisfies_pure]
    refine ⟨?_, root, rfl, rfl, rfl, rfl, grafted, rows, rowsOf, ?_⟩
    · rw [isAfter]
      exact List.mem_append_right _ (List.mem_singleton_self _)
    · intro copy isCopy directory
      rcases List.mem_cons.mp isCopy with isRoot | isCopy
      · rw [isRoot]
        exact rootFilled ⟨source.id, root.row.id⟩ (List.mem_singleton_self _)
      · exact filled copy isCopy directory

/-- The copied rows: one for each row below the source, with new ids, and each behind the row
of its parent. -/
theorem copyDirectoryRows_eq_ok (layout : Layout host tx.db.nodes tx.rootId)
    (member : source ∈ tx.db.nodes) (reached : PathOf tx.db.nodes source.id path)
    {placement : Placement} {maxSyncCopyNodes : Nat} {expiresAt : Option Nat} {newRoot : VfsNode}
    {copied : List CopiedRow} {next : MutationTx}
    (result : copyDirectoryRows host source placement maxSyncCopyNodes expiresAt tx =
      .ok ((newRoot, copied), next)) :
    newRoot ∈ next.db.nodes ∧ (newRoot.id :: copied.map fun copy => copy.row.id).Nodup ∧
      (copied.map CopiedRow.sourceId).Nodup ∧
      (∀ id, id ∈ copied.map CopiedRow.sourceId ↔
        ∃ rest, rest ≠ [] ∧ PathOf tx.db.nodes id (path ++ rest)) ∧
      ∀ front copy back, copied = front ++ copy :: back →
        ∃ parentId ∈ newRoot.id :: front.map fun copy => copy.row.id,
          copy.row.parentId = some parentId := by
  have ⟨there, root, isRoot, made⟩ :=
    Satisfies.of_ok (satisfies_copyDirectoryRows layout member reached) result
  dsimp only at there isRoot made
  have ⟨isSource, isDraw, directory, grafted, rows, rowsOf, filled⟩ := made
  have rootReached : PathOf tx.db.nodes root.sourceId path := by
    rw [isSource]
    exact reached
  have sources := grafted.sources_nodup
  have inSources : ∀ id, id ∈ copied.map CopiedRow.sourceId → id ≠ source.id := by
    intro id inside same
    rw [List.map_cons, List.nodup_cons, isSource] at sources
    exact sources.1 (same ▸ inside)
  refine ⟨there, ?_, (List.nodup_cons.mp sources).2, ?_, ?_⟩
  · rw [← isRoot]
    have distinct : ((root :: copied).map fun copy => copy.row.id).Nodup := by
      apply List.Nodup.map_on _ (List.Nodup.of_map _ sources)
      intro left isLeft right isRight same
      exact grafted.eq_of_row_id isDraw isLeft isRight same
    exact distinct
  · intro id
    constructor
    · intro inside
      rcases List.mem_map.mp inside with ⟨copy, isCopy, rfl⟩
      have ⟨rest, copyReached⟩ := grafted.inside rootReached (List.mem_cons_of_mem _ isCopy)
      refine ⟨rest, ?_, copyReached⟩
      intro isEmpty
      rw [isEmpty, List.append_nil] at copyReached
      exact inSources _ inside (PathTo.injective layout.tree copyReached reached)
    · intro ⟨rest, nonempty, idReached⟩
      have covered := grafted.covers rowsOf rootReached directory (isSource ▸ filled) idReached
      rcases List.mem_cons.mp covered with isTop | inside
      · rw [isTop] at idReached
        have same := PathTo.unique layout.tree idReached rootReached
        exact absurd (by simpa using same) nonempty
      · exact inside
  · intro front copy back isSplit
    have isDone : root :: copied = (root :: front) ++ copy :: back := by
      rw [isSplit, List.cons_append]
    rcases grafted.parent_before isDone with isEmpty | ⟨above, isAbove, linked⟩
    · cases isEmpty
    · refine ⟨above.row.id, ?_, linked⟩
      have inIds : above.row.id ∈ (root :: front).map fun copy => copy.row.id :=
        List.mem_map_of_mem isAbove
      rw [← isRoot]
      exact inIds

/-! ## Both directions -/

/-- The rows of a capture that is not cut off, deleted in chunks from the end. -/
theorem capture_deletes (layout : Layout host tx.db.nodes tx.rootId) {segments : List JsString}
    {taken : List TreeRow} (member : source ∈ tx.db.nodes)
    (reached : PathOf tx.db.nodes source.id segments)
    (below : BelowSource tx.db.nodes segments taken)
    (whole : taken.Perm (subtreeRows tx.db.nodes source)) {size : Nat} (positive : 0 < size)
    {front back : List (List Uuid)} {chunk : List Uuid}
    (isSplit : chunked size ((sortBy relativePathLe taken).map fun row => row.node.id).reverse =
      front ++ chunk :: back)
    {node : VfsNode} (inTable : node ∈ tx.db.nodes) (stays : node.id ∉ front.flatten ++ chunk)
    {parentId : Uuid} (linked : node.parentId = some parentId) :
    parentId ∉ front.flatten ++ chunk := by
  have ⟨rest, isFront⟩ := chunked_front positive isSplit
  have sorted : (sortBy relativePathLe taken).Perm taken := List.perm_insertionSort _ taken
  have inside : ∀ row, row ∈ sortBy relativePathLe taken ↔ row.node ∈ tx.db.nodes ∧
      ∃ deeper, PathOf tx.db.nodes row.node.id (segments ++ deeper) ∧
        row.relativePath = joinRelative deeper := by
    intro row
    rw [sorted.mem_iff, whole.mem_iff]
    exact mem_subtreeRows layout.tree layout.valid member reached
  apply parents_stay (pairwise_parents layout below) _ isFront inTable stays linked
  intro child isChild row isRow isLinked
  have ⟨_, deeper, rowReached, _⟩ := (inside row).mp isRow
  have childReached := PathOf.child isChild isLinked rowReached
  rw [List.append_assoc] at childReached
  exact ⟨⟨child, _⟩, (inside _).mpr ⟨isChild, _, childReached, rfl⟩, rfl⟩

/-- Statements that delete a captured subtree or insert a copied one leave every node with
its parent. A copy of a directory makes these rows and inserts them. -/
theorem bulk_writes_keep_parents (layout : Layout host tx.db.nodes tx.rootId) :
    (∀ (segments : List JsString) (maxNodes : Nat) (rows : List SnapshotSourceRow)
      (next : MutationTx), captureSnapshotRows host segments maxNodes tx = .ok (rows, next) →
      (rows.map SnapshotSourceRow.relativePath).Nodup ∧
      (rows.map SnapshotSourceRow.id).Nodup ∧
      (rows.Pairwise fun earlier later => earlier.parentId ≠ some later.id) ∧
      (rows.length ≤ maxNodes →
        (∃ source rest, rows = source :: rest ∧ PathOf tx.db.nodes source.id segments) ∧
        (∀ id, id ∈ rows.map SnapshotSourceRow.id ↔
          ∃ rest, PathOf tx.db.nodes id (segments ++ rest)) ∧
        ∀ size, 1 ≤ size →
          (chunked size (rows.map SnapshotSourceRow.id).reverse).flatten =
            (rows.map SnapshotSourceRow.id).reverse ∧
          ∀ front chunk back,
            chunked size (rows.map SnapshotSourceRow.id).reverse = front ++ chunk :: back →
            ∀ node ∈ tx.db.nodes, node.id ∉ front.flatten ++ chunk → ∀ parentId,
              node.parentId = some parentId → parentId ∉ front.flatten ++ chunk)) ∧
    (∀ (source : VfsNode) (path : List JsString) (placement : Placement) (maxSyncCopyNodes : Nat)
      (expiresAt : Option Nat) (newRoot : VfsNode) (copied : List CopiedRow) (next : MutationTx),
      source ∈ tx.db.nodes → PathOf tx.db.nodes source.id path →
      copyDirectoryRows host source placement maxSyncCopyNodes expiresAt tx =
        .ok ((newRoot, copied), next) →
      (copied.map CopiedRow.sourceId).Nodup ∧
      (∀ id, id ∈ copied.map CopiedRow.sourceId ↔
        ∃ rest, rest ≠ [] ∧ PathOf tx.db.nodes id (path ++ rest)) ∧
      (newRoot.id :: copied.map fun copy => copy.row.id).Nodup ∧
      ∀ size, 1 ≤ size →
        (chunked size (copied.map CopiedRow.row)).flatten = copied.map CopiedRow.row ∧
        ∀ front chunk back, chunked size (copied.map CopiedRow.row) = front ++ chunk :: back →
          ∀ row ∈ chunk, ∃ parentId, row.parentId = some parentId ∧
            (parentId ∈ nodeIds next.db.nodes ∨ parentId ∈ nodeIds (front.flatten ++ chunk))) ∧
    ∀ (source : VfsNode) (placement : Placement) (maxSyncCopyNodes : Nat)
      (expiresAt : Option Nat) (newRoot : VfsNode) (last : MutationTx),
      copyDirectory host source placement maxSyncCopyNodes expiresAt tx = .ok (newRoot, last) →
      ∃ copied next, copyDirectoryRows host source placement maxSyncCopyNodes expiresAt tx =
          .ok ((newRoot, copied), next) ∧
        last.db.nodes = next.db.nodes ++ copied.map CopiedRow.row ∧
        ∀ size, 1 ≤ size → insertChunks size (copied.map CopiedRow.row) next =
          .ok ((), { next with db := { next.db with nodes := last.db.nodes } }) := by
  refine ⟨?_, ?_, fun _ _ _ _ _ _ result => copyDirectory_eq_ok result⟩
  · intro segments maxNodes rows next result
    have ⟨source, taken, member, reached, below, isRows, complete⟩ :=
      captureSnapshotRows_eq_ok layout result
    have sorted : (sortBy relativePathLe taken).Perm taken := List.perm_insertionSort _ taken
    have ids : rows.map SnapshotSourceRow.id =
        (sortBy relativePathLe taken).map fun row => row.node.id := by
      rw [isRows, List.map_map]
      rfl
    have idsNodup : (rows.map SnapshotSourceRow.id).Nodup := by
      rw [ids]
      exact (sorted.map _).nodup_iff.mpr below.distinct
    refine ⟨?_, idsNodup, ?_, ?_⟩
    · rw [isRows, List.map_map]
      apply List.Nodup.map_on _ (List.Nodup.of_map _ (ids ▸ idsNodup))
      intro left isLeft right isRight same
      have ⟨leftNode, leftSegments, leftReached, leftText⟩ :=
        below.inside left (sorted.mem_iff.mp isLeft)
      have ⟨rightNode, rightSegments, rightReached, rightText⟩ :=
        below.inside right (sorted.mem_iff.mp isRight)
      have texts : left.relativePath = right.relativePath := same
      have sameSegments : leftSegments = rightSegments := by
        apply joinRelative_injective (layout.valid.plain leftReached)
          (layout.valid.plain rightReached)
        rw [← leftText, ← rightText, texts]
      rw [← sameSegments] at rightReached
      have sameNode : left.node = right.node := layout.tree.eq_of_id leftNode rightNode
        (PathTo.injective layout.tree leftReached rightReached)
      cases left
      cases right
      simp only [TreeRow.mk.injEq]
      exact ⟨sameNode, texts⟩
    · rw [isRows, List.pairwise_map]
      exact pairwise_parents layout below
    · intro fits
      have whole := complete fits
      have sourceRow : (⟨source, dot⟩ : TreeRow) ∈ taken := by
        rw [whole.mem_iff, subtreeRows_eq_cons]
        exact List.mem_cons_self
      refine ⟨?_, ?_, ?_⟩
      · have ⟨first, rest, isSorted, isDot⟩ := head_sortBy_relativePathLe sourceRow
        refine ⟨first.captured, rest.map TreeRow.captured, by rw [isRows, isSorted]; rfl, ?_⟩
        have isFirst : first ∈ taken := by
          rw [← sorted.mem_iff, isSorted]
          exact List.mem_cons_self
        have ⟨_, deeper, firstReached, firstText⟩ := below.inside first isFirst
        have isEmpty : deeper = [] := by
          apply joinRelative_injective (layout.valid.plain firstReached) (by simp)
          rw [← firstText, isDot]
          rfl
        rw [isEmpty, List.append_nil] at firstReached
        exact firstReached
      · intro id
        rw [ids, (sorted.map _).mem_iff, (whole.map _).mem_iff]
        constructor
        · intro inside
          rcases List.mem_map.mp inside with ⟨row, isRow, rfl⟩
          have ⟨_, deeper, rowReached, _⟩ :=
            (mem_subtreeRows layout.tree layout.valid member reached).mp isRow
          exact ⟨deeper, rowReached⟩
        · intro ⟨deeper, idReached⟩
          rcases PathOf.exists_node idReached with ⟨node, isNode, rfl⟩
          exact List.mem_map.mpr ⟨⟨node, joinRelative deeper⟩,
            (mem_subtreeRows layout.tree layout.valid member reached).mpr
              ⟨isNode, deeper, idReached, rfl⟩, rfl⟩
      · intro size positive
        refine ⟨chunked_flatten positive _, ?_⟩
        rw [ids]
        intro front chunk back isSplit node inTable stays parentId linked
        exact capture_deletes layout member reached below whole positive isSplit inTable stays
          linked
  · intro source path placement maxSyncCopyNodes expiresAt newRoot copied next member reached result
    have ⟨there, idsNodup, sourcesNodup, sources, before⟩ :=
      copyDirectoryRows_eq_ok layout member reached result
    refine ⟨sourcesNodup, sources, idsNodup, ?_⟩
    intro size positive
    refine ⟨chunked_flatten positive _, ?_⟩
    intro front chunk back isSplit row isRow
    have ⟨rest, isFront⟩ := chunked_front positive isSplit
    rcases List.append_of_mem isRow with ⟨earlier, later, isChunk⟩
    have isPlace : copied.map CopiedRow.row =
        (front.flatten ++ earlier) ++ row :: (later ++ rest) := by
      rw [isFront, isChunk]
      simp
    have ⟨copiedFront, copiedRest, isCopied, frontRows, restRows⟩ :=
      List.map_eq_append_iff.mp isPlace
    rcases List.map_eq_cons_iff.mp restRows with ⟨copy, copiedBack, isRest, isCopy, _⟩
    rw [isRest] at isCopied
    have ⟨parentId, isParent, linked⟩ := before copiedFront copy copiedBack isCopied
    refine ⟨parentId, isCopy ▸ linked, ?_⟩
    rcases List.mem_cons.mp isParent with isRoot | inFront
    · left
      rw [isRoot]
      exact mem_nodeIds_of_mem there
    · right
      have inRows : parentId ∈ nodeIds (copiedFront.map CopiedRow.row) := by
        rcases List.mem_map.mp inFront with ⟨above, isAbove, rfl⟩
        exact mem_nodeIds_of_mem (List.mem_map_of_mem isAbove)
      rw [frontRows] at inRows
      rcases mem_nodeIds.mp inRows with ⟨node, isNode, rfl⟩
      apply mem_nodeIds_of_mem
      rw [isChunk]
      rcases List.mem_append.mp isNode with inFlat | inEarlier
      · exact List.mem_append_left _ inFlat
      · exact List.mem_append_right _ (List.mem_append_left _ inEarlier)

namespace Small

/-- `/d/e/f` -/
def deepFile : NodePath Host.counting :=
  ⟨⟨[[0x64], [0x65], [0x66]], by decide +kernel⟩, by simp⟩

def deep : Database := (Mutation.put deepFile true blob none false none).after 1 empty

theorem reachable_deep : Reachable Host.counting deep := (Reachable.start 0 settings).after _ 1

def deepTx : MutationTx := MutationTx.start deep 0 2

theorem layout_deepTx : Layout Host.counting deepTx.db.nodes deepTx.rootId := by
  rcases reachable_deep.consistent.layout with ⟨_, layout⟩
  have isRoot : deep.findRoot.map VfsNode.id = some 0 := by decide +kernel
  rcases Option.map_eq_some_iff.mp isRoot with ⟨root, found, isZero⟩
  have top : PathOf deep.nodes 0 [] := by
    rw [← isZero]
    exact PathTo.root (List.mem_map_of_mem (List.mem_of_find?_eq_some found))
      (by simpa using List.find?_some found)
  exact { layout with root := top }

/-- The rows of `/d`. -/
def capture : Except VfsError (List SnapshotSourceRow × MutationTx) :=
  captureSnapshotRows Host.counting [[0x64]] 10 deepTx

/-- `/d` -/
def deepDirectory : VfsNode := (NewNode.directory 0 [0x64]).row 1 1

theorem mem_deepDirectory : deepDirectory ∈ deep.nodes := by decide +kernel

/-- To `/g`. -/
def deepPlacement : Placement := ⟨deepDirectory, 0, [0x67], [[0x67]]⟩

def copied : Except VfsError (VfsNode × MutationTx) :=
  copyDirectory Host.counting deepDirectory deepPlacement 10 none deepTx

def copiedRows : Except VfsError ((VfsNode × List CopiedRow) × MutationTx) :=
  copyDirectoryRows Host.counting deepDirectory deepPlacement 10 none deepTx

end Small

/-- A directory with a directory with a file, deleted a row at a time: the file goes first, and
the outer directory last. Copied a row at a time, the inner directory comes first. -/
theorem file_is_deleted_first :
    (∃ rows next, Small.capture = .ok (rows, next) ∧
      chunked 1 (rows.map SnapshotSourceRow.id).reverse = [[4], [2], [1]] ∧
      ∀ node ∈ Small.deep.nodes, node.id ≠ 4 → node.id ≠ 2 → node.parentId ≠ some 2) ∧
    ∃ newRoot last rows, Small.copied = .ok (newRoot, last) ∧
      last.db.nodes.map VfsNode.id = [0, 1, 2, 4, 5, 6, 7] ∧
      chunked 1 (rows.map VfsNode.id) = [[6], [7]] ∧
      ∀ front chunk back, chunked 1 rows = front ++ chunk :: back → ∀ row ∈ chunk,
        ∃ parentId, row.parentId = some parentId ∧
          (parentId ∈ [0, 1, 2, 4, 5] ∨ parentId ∈ nodeIds (front.flatten ++ chunk)) := by
  rcases bulk_writes_keep_parents Small.layout_deepTx with ⟨deletes, inserts, copies⟩
  constructor
  · have captured : Small.capture.toOption.map (fun made => made.1.map SnapshotSourceRow.id) =
        some [1, 2, 4] := by decide +kernel
    cases result : Small.capture with
    | error error =>
        rw [result] at captured
        cases captured
    | ok made =>
        rw [result] at captured
        have ids : made.1.map SnapshotSourceRow.id = [1, 2, 4] := Option.some.inj captured
        have isSplit : chunked 1 (made.1.map SnapshotSourceRow.id).reverse =
            [[4]] ++ [2] :: [[1]] := by
          rw [ids]
          decide
        have fits : made.1.length ≤ 10 := by
          rw [← made.1.length_map SnapshotSourceRow.id, ids]
          decide
        refine ⟨made.1, made.2, rfl, isSplit, fun node member notFile notInner linked => ?_⟩
        have gone := (((deletes _ _ _ _ result).2.2.2 fits).2.2 1 (Nat.le_refl 1)).2 _ _ _ isSplit
          node member (by simp [notFile, notInner]) 2 linked
        simp at gone
  · have made : Small.copied.toOption.map (fun made => made.2.db.nodes.map VfsNode.id) =
        some [0, 1, 2, 4, 5, 6, 7] := by decide +kernel
    have planned : Small.copiedRows.toOption.map (fun made =>
        (made.1.2.map fun copy => copy.row.id, made.2.db.nodes.map VfsNode.id)) =
          some ([6, 7], [0, 1, 2, 4, 5]) := by decide +kernel
    cases result : Small.copied with
    | error error =>
        rw [result] at made
        cases made
    | ok ended =>
        rw [result] at made
        rcases ended with ⟨newRoot, last⟩
        rcases copies _ _ _ _ _ _ result with ⟨rows, next, isPlanned, isLast, _⟩
        have isRows : Small.copiedRows = .ok ((newRoot, rows), next) := isPlanned
        rw [isRows] at planned
        have ids := Prod.mk.inj (Option.some.inj planned)
        have reached : PathOf Small.deepTx.db.nodes 1 ([] ++ [[0x64]]) :=
          PathOf.child Small.mem_deepDirectory rfl Small.layout_deepTx.root
        have below := ((inserts _ _ _ _ _ _ _ _ Small.mem_deepDirectory reached isPlanned).2.2.2 1
          (Nat.le_refl 1)).2
        refine ⟨newRoot, last, rows.map CopiedRow.row, rfl, Option.some.inj made, ?_, ?_⟩
        · rw [List.map_map]
          change chunked 1 (rows.map fun copy => copy.row.id) = _
          rw [ids.1]
          decide
        · intro front chunk back isSplit row isRow
          rcases below front chunk back isSplit row isRow with ⟨parentId, isParent, inside⟩
          refine ⟨parentId, isParent, inside.imp_left fun there => ?_⟩
          rw [nodeIds, ids.2] at there
          exact there

end Storix
