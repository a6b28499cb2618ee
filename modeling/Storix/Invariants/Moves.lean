import Storix.Invariants.Placement

/-! # Moves

A move rewrites one row, marks the subtree below it, and keeps every other row. It
is the only work that changes the path of a row, so it ends in `TxDone`. -/

namespace Storix

open Foundation Foundation.Command

variable {host : Host} {effects : Effects} {base : Database}
  {scope : List JsString → Prop} {held : List Uuid}
  {tx : MutationTx} {fault : VfsError → Prop}

/-- The final place is not inside the source: a directory is refused, and nothing is
inside a file. -/
theorem Placeable.apart {placement : Placement} {source : List JsString} {markSource : Bool}
    (placeable : Placeable host tx placement source markSource)
    (layout : Layout host tx.db.nodes tx.rootId) : ¬source <+: placement.finalSegments := by
  intro inside
  rcases placeable.free.place with ⟨front, whole, locked⟩
  cases isType : placement.sourceNode.type with
  | directory => exact placeable.outside isType inside
  | file =>
      rw [whole, List.prefix_concat_iff] at inside
      rcases inside with same | ⟨rest, isFront⟩
      · -- The place would be taken by the source itself.
        have reached := placeable.loaded.reached
        rw [same] at reached
        rcases PathOf.exists_child reached with ⟨node, member, _, sameName, parentId, below, above⟩
        rw [PathTo.injective layout.tree above locked.reached] at below
        exact findChild_eq_none placeable.free.free member below sameName
      · rcases locked.directory with ⟨parent, member, sameParent, isDirectory⟩
        have reached : PathOf tx.db.nodes parent.id (source ++ rest) := by
          rw [isFront, sameParent]
          exact locked.reached
        have isSource := layout.eq_nil_of_file placeable.loaded.member isType
          placeable.loaded.reached reached
        rw [isSource, List.append_nil] at reached
        have same := layout.tree.eq_of_id member placeable.loaded.member
          (PathTo.injective layout.tree reached placeable.loaded.reached)
        rw [same, isType] at isDirectory
        cases isDirectory

/-- The source is not marked: its path is not among those looked at on the way. -/
theorem Placeable.unmarked {placement : Placement} {source destination : List JsString}
    {markSource : Bool} (placeable : Placeable host tx placement source markSource)
    (holds : TxInv host effects base (transferScope source destination) held tx)
    (nonempty : source ≠ [])
    (final : placement.finalSegments = destination ∨
      placement.finalSegments = destination ++ [lastSegment source]) :
    tx.changed.get placement.sourceNode.id = none := by
  refine holds.unmarked_of_path placeable.loaded.reached ?_
  rintro (above | inside)
  · exact not_aboveScope_self nonempty above
  · refine placeable.apart holds.layout ?_
    rcases final with same | same
    · rw [same]
      exact inside
    · rw [same]
      exact inside.trans (List.prefix_append _ _)

theorem TxInv.move (holds : TxInv host effects base scope held tx) {moved saved : VfsNode}
    {source front : List JsString} {parentId : Uuid}
    (movable : Movable host tx.db.nodes moved saved source parentId front)
    (blob : saved.blobId = moved.blobId) (size : saved.size = moved.size)
    (counts : saved.childFileCount = moved.childFileCount)
    (unmarked : tx.changed.get moved.id = none) (version : saved.version = moved.version + 1)
    (marked : tx.changed.get parentId ≠ none)
    (oldMarked : ∀ id, moved.parentId = some id → tx.changed.get id ≠ none)
    (seen : ∀ id rest, PathOf tx.db.nodes id (source ++ rest) → tx.Seen id) {below : List Uuid}
    (whole : ∀ id, id ∈ below ↔ ∃ rest, rest ≠ [] ∧ PathOf tx.db.nodes id (source ++ rest))
    {changed : OrderedMap Uuid Bool} {folders : OrderedMap Uuid Int}
    (marks : changed.get = markAll (markAll tx.changed.get [moved.id] false) below true)
    (deltas : ∀ id, (folders.get id).getD 0 =
      tx.folderDelta id + (fileBelow id saved - fileBelow id moved)) :
    TxDone host effects base (fun path => scope path ∨ source <+: path) held
      { tx with
        db := { tx.db with nodes := movedNodes tx.db.nodes saved }
        changed := changed
        folderFileDeltas := folders } := by
  refine
    { start := holds.start, layout := holds.layout.move movable, books := ?_, refs := ?_,
      trash := holds.trash, snapshots := holds.snapshots, issued := ?_, drawn := holds.drawn,
      blobRows := holds.blobRows,
      separate := ?_, gone := ?_, origins := holds.origins, marks := ?_, feed := ?_,
      feedState := holds.feedState, feedEvents := holds.feedEvents, status := holds.status,
      row := holds.row,
      checkpoint := holds.checkpoint }
  · refine (holds.books.move holds.tree movable size counts).congr rfl rfl fun id => ?_
    exact (deltas id).symm
  · rcases fileBlobs_rewrite holds.tree.ids_nodup movable.member (fun _ => saved) with
      ⟨others, before, after⟩
    rw [fileBlobs_congr movable.type blob] at after
    have same : (fileBlobs tx.db.nodes).Perm (fileBlobs (movedNodes tx.db.nodes saved)) := by
      unfold movedNodes
      rw [movable.id]
      exact before.trans after.symm
    exact holds.refs.perm (((same.append_right _).append_right _).append_right _)
  · refine { holds.issued with nodes := fun id inside => holds.issued.nodes id ?_ }
    rwa [nodeIds_movedNodes] at inside
  · intro entry entryMember
    change entry.sourceNodeId ∉ nodeIds (movedNodes tx.db.nodes saved)
    rw [nodeIds_movedNodes]
    exact holds.separate entry entryMember
  · intro old member isGone
    change old.id ∉ nodeIds (movedNodes tx.db.nodes saved) at isGone
    rw [nodeIds_movedNodes] at isGone
    exact holds.gone old member isGone
  · change Marks host base _ (movedNodes tx.db.nodes saved) changed.get tx.ancestorChainMarked
    rw [marks]
    exact (holds.marks.mono fun _ => .inl).move holds.tree holds.baseTree movable unmarked version
      marked oldMarked whole fun rest => .inr (List.prefix_append _ _)
  · change Tracked base.nodes (movedNodes tx.db.nodes saved) changed.get tx.feedBefore
    rw [marks]
    refine holds.feed.change fun node _ changedNode => ?_
    rw [nodeIds_movedNodes] at changedNode
    rcases changedNode with nodeMarked | gone
    · rcases markAll_ne_none_iff.mp nodeMarked with nodeMarked | inside
      · rcases markAll_ne_none_iff.mp nodeMarked with nodeMarked | isMoved
        · exact .inl (.inl nodeMarked)
        · rw [List.mem_singleton] at isMoved
          refine .inr (seen node.id [] ?_)
          rw [List.append_nil, isMoved]
          exact movable.start
      · rcases (whole node.id).mp inside with ⟨rest, _, reached⟩
        exact .inr (seen node.id rest reached)
    · exact .inl (.inr gone)

theorem satisfies_recordMovedFile {node : VfsNode} (saved : VfsNode) {finalParentId : Uuid}
    (hasParent : node.parentId ≠ none) (type : saved.type = node.type)
    (parentId : saved.parentId = some finalParentId) {post : Unit → MutationTx → Prop}
    (continues : ∀ folders : OrderedMap Uuid Int,
      (∀ id, (folders.get id).getD 0 =
        tx.folderDelta id + (fileBelow id saved - fileBelow id node)) →
      post () { tx with folderFileDeltas := folders }) :
    Satisfies (recordMovedFile node finalParentId) post fault tx := by
  unfold recordMovedFile
  refine satisfies_ite.mpr ⟨fun moves => ?_, fun stays => ?_⟩
  · cases isParent : node.parentId with
    | none => exact absurd isParent hasParent
    | some previous =>
        change Satisfies (recordFolderFileDelta previous (-1) >>= fun _ =>
          recordFolderFileDelta finalParentId 1) post fault tx
        rw [satisfies_bind]
        refine satisfies_recordFolderFileDelta fun first firstDeltas => ?_
        refine satisfies_recordFolderFileDelta fun second secondDeltas => ?_
        refine continues second fun id => ?_
        have step := secondDeltas id
        change (second.get id).getD 0 = (first.get id).getD 0 + _ at step
        rw [step, firstDeltas id]
        simp only [fileBelow, type, moves.1, parentId, isParent, Option.some.injEq, true_and]
        grind
  · rw [satisfies_pure]
    have same := continues tx.folderFileDeltas fun id => by
      change tx.folderDelta id = _
      have equal : fileBelow id saved = fileBelow id node := by
        unfold fileBelow
        rw [type, parentId]
        by_cases isFile : node.type = .file
        · have stay : node.parentId = some finalParentId := by
            by_contra differs
            exact stays ⟨isFile, differs⟩
          rw [stay]
        · simp [isFile]
      omega
    exact same

theorem assertSubtreeDestinationPaths_expected {sourceId : Uuid} {final : List JsString}
    {rows : List VfsNode} (parents : ∀ row ∈ rows, row.id ≠ sourceId → row.parentId ≠ none)
    {error : VfsError}
    (failed : assertSubtreeDestinationPaths host sourceId final rows = .error error) :
    Expected error := by
  unfold assertSubtreeDestinationPaths at failed
  split at failed
  · rename_i orphan
    rcases List.any_eq_true.mp orphan with ⟨row, member, isOrphan⟩
    simp only [Bool.and_eq_true, bne_iff_ne, beq_iff_eq] at isOrphan
    exact absurd isOrphan.2 (parents row member isOrphan.1)
  · generalize placedRows rows sourceId final = placed at failed
    induction placed with
    | nil => cases failed
    | cons row rest induction =>
        unfold assertEach at failed
        cases checked : assertPathSegments host row.segments with
        | error other =>
            rw [checked] at failed
            cases failed
            exact assertPathSegments_expected checked
        | ok _ =>
            rw [checked] at failed
            exact induction failed

def moveScope (source destination front : List JsString) : Prop :=
  transferScope source destination front ∨ source <+: front

/-! ## The moved subtree -/

/-- One row is another under a new place, name or version: what it holds is the same. -/
structure SameContent (old new : VfsNode) : Prop where
  id : new.id = old.id
  type : new.type = old.type
  blobId : new.blobId = old.blobId
  size : new.size = old.size
  mimeType : new.mimeType = old.mimeType
  expiresAt : new.expiresAt = old.expiresAt
  createdAt : new.createdAt = old.createdAt

theorem SameContent.refl (node : VfsNode) : SameContent node node :=
  ⟨rfl, rfl, rfl, rfl, rfl, rfl, rfl⟩

section Descendants

variable {nodes : List VfsNode} {node : VfsNode} {path : List JsString} {rows : List TreeRow}

theorem mem_descendantIds (tree : Rooted nodes) (valid : AllValid host nodes)
    (member : node ∈ nodes) (reached : PathOf nodes node.id path)
    (perm : rows.Perm (descendantRows nodes node)) (id : Uuid) :
    id ∈ rows.map (fun row => row.node.id) ↔
      ∃ rest, rest ≠ [] ∧ PathOf nodes id (path ++ rest) := by
  rw [List.mem_map]
  constructor
  · rintro ⟨row, isRow, rfl⟩
    rcases (mem_descendantRows tree valid member reached).mp (perm.mem_iff.mp isRow) with
      ⟨_, rest, notNil, rowReached, _⟩
    exact ⟨rest, notNil, rowReached⟩
  · rintro ⟨rest, notNil, idReached⟩
    rcases PathOf.exists_node idReached with ⟨below, isBelow, rfl⟩
    refine ⟨⟨below, joinRelative rest⟩, perm.mem_iff.mpr ?_, rfl⟩
    exact (mem_descendantRows tree valid member reached).mpr
      ⟨isBelow, rest, notNil, idReached, rfl⟩

theorem mem_descendantNodes (tree : Rooted nodes) (valid : AllValid host nodes)
    (member : node ∈ nodes) (reached : PathOf nodes node.id path)
    (perm : rows.Perm (descendantRows nodes node)) (below : VfsNode) :
    below ∈ rows.map TreeRow.node ↔
      below ∈ nodes ∧ ∃ rest, rest ≠ [] ∧ PathOf nodes below.id (path ++ rest) := by
  rw [List.mem_map]
  constructor
  · rintro ⟨row, isRow, rfl⟩
    rcases (mem_descendantRows tree valid member reached).mp (perm.mem_iff.mp isRow) with
      ⟨isBelow, rest, notNil, rowReached, _⟩
    exact ⟨isBelow, rest, notNil, rowReached⟩
  · rintro ⟨isBelow, rest, notNil, idReached⟩
    refine ⟨⟨below, joinRelative rest⟩, perm.mem_iff.mpr ?_, rfl⟩
    exact (mem_descendantRows tree valid member reached).mpr
      ⟨isBelow, rest, notNil, idReached, rfl⟩

theorem descendant_parent (tree : Rooted nodes) (reached : PathOf nodes node.id path)
    {below : VfsNode} (member : below ∈ nodes) {rest : List JsString} (notNil : rest ≠ [])
    (belowReached : PathOf nodes below.id (path ++ rest)) {parentId : Uuid}
    (isParent : below.parentId = some parentId) :
    parentId = node.id ∨ ∃ inner, inner ≠ [] ∧ PathOf nodes parentId (path ++ inner) := by
  rcases PathOf.above tree member belowReached isParent with ⟨above, aboveReached, isPath⟩
  rcases List.eq_nil_or_concat rest with isNil | ⟨inner, last, isRest⟩
  · exact absurd isNil notNil
  · rw [isRest, List.concat_eq_append, ← List.append_assoc] at isPath
    rw [← (List.append_inj' isPath rfl).1] at aboveReached
    by_cases isSource : inner = []
    · rw [isSource, List.append_nil] at aboveReached
      exact .inl (PathTo.injective tree aboveReached reached)
    · exact .inr ⟨inner, isSource, aboveReached⟩

end Descendants

def Placement.saved (placement : Placement) (now : Nat) : VfsNode :=
  { placement.sourceNode with
    parentId := some placement.finalParentId, name := placement.finalName
    version := placement.sourceNode.version + 1, updatedAt := now }

theorem Placement.saved_sameContent (placement : Placement) (now : Nat) :
    SameContent placement.sourceNode (placement.saved now) :=
  ⟨rfl, rfl, rfl, rfl, rfl, rfl, rfl⟩

/-- A placed source can be moved, once the paths of its descendants are checked. -/
theorem Placeable.movable {placement : Placement} {source front : List JsString}
    {markSource : Bool} (placeable : Placeable host tx placement source markSource)
    (layout : Layout host tx.db.nodes tx.rootId) (now : Nat)
    (whole : placement.finalSegments = front ++ [placement.finalName])
    (locked : Locked tx placement.finalParentId front)
    (room : placement.sourceNode.version < MAX_VFS_VERSION) {rows : List TreeRow}
    (perm : rows.Perm (descendantRows tx.db.nodes placement.sourceNode))
    (checked : assertSubtreeDestinationPaths host placement.sourceNode.id placement.finalSegments
      (rows.map TreeRow.node) = .ok ()) :
    Movable host tx.db.nodes placement.sourceNode (placement.saved now) source
      placement.finalParentId front where
  member := placeable.loaded.member
  start := placeable.loaded.reached
  destination := locked.reached
  outside isFront :=
    placeable.apart layout (whole ▸ isFront.trans (List.prefix_append _ _))
  notRoot := by
    rcases placeable.loaded.parent with ⟨parentId, below, _⟩
    simp [below]
  parent := locked.directory
  free other member below sameName :=
    absurd sameName (findChild_eq_none placeable.free.free member below)
  id := rfl
  parentId := rfl
  type := rfl
  valid id rest reached := by
    have loaded := placeable.loaded
    have valid := assertSubtreeDestinationPaths_valid layout.tree loaded.reached
      (fun node member rest notNil reached =>
        (mem_descendantNodes layout.tree layout.valid loaded.member loaded.reached perm node).mpr
          ⟨member, rest, notNil, reached⟩) checked reached
    rw [whole] at valid
    exact valid
  shaped := layout.shapes placement.sourceNode placeable.loaded.member
  numbered := ⟨Nat.le_add_left 1 _, room⟩

/-- What a move did to the tables: the missing parents were added, then one row was
rewritten to a place outside its own subtree. -/
structure Relocates (host : Host) (tx next : MutationTx) (source destination final : List JsString)
    (parents : Bool) (middle : MutationTx) (moved saved : VfsNode) (parentId : Uuid) : Prop where
  grown : Grown tx middle
  planted : Planted tx middle destination.dropLast
  unplanted : parents = false → middle.db = tx.db
  layout : Layout host middle.db.nodes middle.rootId
  movable : Movable host middle.db.nodes moved saved source parentId final.dropLast
  place : final = final.dropLast ++ [saved.name]
  content : SameContent moved saved
  tables : next.db = { middle.db with nodes := movedNodes middle.db.nodes saved }

theorem moveNode_relocates {source destination : List JsString} {parents : Bool} {limit : Nat}
    {resolution : DestinationResolution} (nonempty : source ≠ [])
    (valid : ValidPath host destination)
    (holds : TxInv host effects base (transferScope source destination) held tx) :
    Satisfies (moveNode host source destination parents limit resolution)
      (fun _ next => TxDone host effects base (moveScope source destination) held next ∧
        ∃ middle moved saved parentId, Relocates host tx next source destination
          (finalPath tx.db tx.rootId source destination resolution) parents middle moved saved
          parentId) Expected tx := by
  have ends := finalPath_cases tx.db tx.rootId source destination resolution
  unfold moveNode
  rw [satisfies_bind]
  refine (resolveDestinationPlacement_spec nonempty valid holds (fun _ _ => .inl)
    fun _ => .inr).imp ?_
  rintro placement middle ⟨⟨inv, grown, placeable, isFinal⟩, unplanted, planted⟩
  rw [← isFinal] at ends ⊢
  have unmarked := placeable.unmarked inv nonempty ends
  have loaded := placeable.loaded
  rcases placeable.free.place with ⟨front, whole, locked⟩
  rcases loaded.parent with ⟨oldParentId, oldBelow, oldMarked⟩
  refine satisfies_ite.mpr ⟨fun _ => trivial, fun room => ?_⟩
  rw [satisfies_bind, satisfies_state]
  refine satisfies_ite.mpr ⟨fun _ => trivial, fun within => ?_⟩
  generalize isRows : (host.rowOrder (descendantRows middle.db.nodes placement.sourceNode)).take
    limit = descendants at within ⊢
  have perm : descendants.Perm (descendantRows middle.db.nodes placement.sourceNode) := by
    rw [← isRows] at within ⊢
    exact take_perm_of_length_lt host (by omega)
  have ids := mem_descendantIds inv.tree inv.layout.valid loaded.member loaded.reached perm
  have rows := mem_descendantNodes inv.tree inv.layout.valid loaded.member loaded.reached perm
  rw [satisfies_bind]
  refine satisfies_trackChangeFeedBefore inv _ ?_ ?_
  · intro node member isDescendant parentId below
    rcases (ids node.id).mp isDescendant with ⟨rest, notNil, reached⟩
    rcases descendant_parent inv.tree loaded.reached member notNil reached below with
      rfl | ⟨inner, inside, aboveReached⟩
    · exact .inl loaded.seen
    · exact .inr ⟨(ids parentId).mpr ⟨inner, inside, aboveReached⟩,
        mem_nodeIds.mpr (PathOf.exists_node aboveReached)⟩
  · intro feedBefore tracked nowSeen stillSeen
    rw [satisfies_bind]
    refine (satisfies_lift _).mpr ⟨fun _ checked => ?_, fun error failed => ?_⟩
    · have movable := placeable.movable inv.layout middle.now whole locked
        (Nat.lt_of_not_le room) perm checked
      have differs : ({ placement.sourceNode with
          parentId := some placement.finalParentId, name := placement.finalName } : VfsNode) ≠
          placement.sourceNode := by
        intro same
        exact findChild_eq_none placeable.free.free loaded.member
          (congrArg VfsNode.parentId same).symm (congrArg VfsNode.name same).symm
      rw [satisfies_bind]
      refine satisfies_saveNode (findNode_ne rfl inv.tree loaded.member rfl differs) ?_
      rw [satisfies_bind]
      refine satisfies_recordMovedFile (placement.saved middle.now) movable.notRoot movable.type
        movable.parentId fun folders deltas => ?_
      rw [satisfies_bind]
      refine satisfies_markChanged fun first firstMarks => ?_
      rw [satisfies_bind]
      refine satisfies_forEach_markChanged fun changed marks => ?_
      rw [satisfies_pure]
      rw [firstMarks] at marks
      refine ⟨?_, middle, placement.sourceNode, placement.saved middle.now,
        placement.finalParentId, ?_⟩
      · refine TxInv.move tracked movable rfl rfl rfl unmarked rfl placeable.free.marked ?_ ?_ ids
          marks deltas
        · intro id isParent
          rw [oldBelow] at isParent
          cases isParent
          exact oldMarked rfl
        · intro id rest reached
          by_cases isSource : rest = []
          · rw [isSource, List.append_nil] at reached
            rw [PathTo.injective inv.tree reached loaded.reached]
            exact stillSeen _ loaded.seen
          · exact nowSeen id ((ids id).mpr ⟨rest, isSource, reached⟩)
              (mem_nodeIds.mpr (PathOf.exists_node reached))
      · have isFront : placement.finalSegments.dropLast = front := by simp [whole]
        exact
          { grown := grown, planted := planted, unplanted := unplanted, layout := inv.layout,
            movable := isFront ▸ movable, place := isFront ▸ whole,
            content := placement.saved_sameContent middle.now, tables := rfl }
    · refine assertSubtreeDestinationPaths_expected ?_ failed
      intro row isRow _ top
      rcases (rows row).mp isRow with ⟨live, rest, notNil, reached⟩
      have isNil := PathOf.eq_nil inv.tree live reached top
      simp [notNil] at isNil

theorem moveNode_spec {source destination : List JsString} {parents : Bool} {limit : Nat}
    {resolution : DestinationResolution} (nonempty : source ≠ [])
    (valid : ValidPath host destination)
    (holds : TxInv host effects base (transferScope source destination) held tx) :
    Satisfies (moveNode host source destination parents limit resolution)
      (fun _ next => TxDone host effects base (moveScope source destination) held next)
        Expected tx :=
  (moveNode_relocates nonempty valid holds).imp fun _ _ done => done.1

end Storix
