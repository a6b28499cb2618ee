import Storix.Invariants.Subtrees

/-! # The node table as a file tree

What holds of the node table at every point of a transaction, and the four ways a
mutation rewrites it: a new row, a rewritten row, a subtree taken out, and a
subtree hung somewhere else. -/

namespace Storix

open Foundation

/-- The content columns of a row: a file has them all, a directory none. -/
def ContentShape (type : VfsNodeType) (blobId : Option Uuid) (size : Option Nat)
    (mimeType : Option JsString) : Prop :=
  match type with
  | .file => blobId.isSome = true ∧ size.isSome = true ∧ mimeType.isSome = true
  | .directory => blobId = none ∧ size = none ∧ mimeType = none

def VfsNode.Shaped (node : VfsNode) : Prop :=
  ContentShape node.type node.blobId node.size node.mimeType

theorem VfsNode.Shaped.file {node : VfsNode} (shaped : node.Shaped) (isFile : node.type = .file) :
    ∃ blobId size mimeType,
      node.blobId = some blobId ∧ node.size = some size ∧ node.mimeType = some mimeType := by
  unfold VfsNode.Shaped ContentShape at shaped
  rw [isFile] at shaped
  rcases shaped with ⟨blob, size, mime⟩
  rcases Option.isSome_iff_exists.mp blob with ⟨blobId, blobFound⟩
  rcases Option.isSome_iff_exists.mp size with ⟨sizeValue, sizeFound⟩
  rcases Option.isSome_iff_exists.mp mime with ⟨mimeValue, mimeFound⟩
  exact ⟨blobId, sizeValue, mimeValue, blobFound, sizeFound, mimeFound⟩

theorem VfsNode.Shaped.directory {node : VfsNode} (shaped : node.Shaped)
    (isDirectory : node.type = .directory) :
    node.blobId = none ∧ node.size = none ∧ node.mimeType = none := by
  unfold VfsNode.Shaped ContentShape at shaped
  rw [isDirectory] at shaped
  exact shaped

def VfsNode.Numbered (node : VfsNode) : Prop :=
  1 ≤ node.version ∧ node.version ≤ MAX_VFS_VERSION

/-- The node table is a file tree: rooted at `rootId`, with valid paths, and every
row has the columns of its type. -/
structure Layout (host : Host) (nodes : List VfsNode) (rootId : Uuid) : Prop where
  tree : Rooted nodes
  shapes : ∀ node ∈ nodes, node.Shaped
  valid : AllValid host nodes
  root : PathOf nodes rootId []
  versions : ∀ node ∈ nodes, node.Numbered

variable {host : Host} {nodes : List VfsNode} {rootId : Uuid}

theorem Layout.exists_root (layout : Layout host nodes rootId) :
    ∃ root ∈ nodes, root.id = rootId ∧ root.parentId = none ∧ root.type = .directory := by
  rcases layout.tree.root with ⟨link, member, top, branch⟩
  rcases List.mem_map.mp member with ⟨root, rootMember, rfl⟩
  have reached : PathOf nodes root.id [] := PathTo.root member top
  exact ⟨root, rootMember, PathTo.injective layout.tree reached layout.root, top,
    link_branch_iff.mp branch⟩

theorem Layout.directory_of_child (layout : Layout host nodes rootId) {node parent : VfsNode}
    (member : node ∈ nodes) (parentMember : parent ∈ nodes)
    (below : node.parentId = some parent.id) : parent.type = .directory := by
  rcases layout.tree.exists_parent member below with ⟨other, otherMember, same, directory⟩
  rw [← layout.tree.eq_of_id otherMember parentMember same]
  exact directory

theorem Layout.eq_nil_of_file (layout : Layout host nodes rootId) {node : VfsNode}
    (member : node ∈ nodes) (isFile : node.type = .file) {path rest : List JsString}
    (reached : PathOf nodes node.id path) {id : Uuid} (below : PathOf nodes id (path ++ rest)) :
    rest = [] := by
  cases rest with
  | nil => rfl
  | cons name rest =>
      have split : path ++ name :: rest = (path ++ [name]) ++ rest := by simp
      rw [split] at below
      rcases below.of_append with ⟨childId, childReached⟩
      rcases PathOf.exists_child childReached with
        ⟨child, childMember, _, _, parentId, childBelow, parentReached⟩
      have same := PathTo.injective layout.tree parentReached reached
      rw [same] at childBelow
      rw [layout.directory_of_child childMember member childBelow] at isFile
      cases isFile

/-! ## A new row -/

section Insert

variable {row : VfsNode} {parentId : Uuid} {front : List JsString}

theorem fresh_link (fresh : row.id ∉ nodeIds nodes) :
    row.link.id ∉ (nodes.map VfsNode.link).map Link.id := by
  rw [nodeIds_eq_links]
  exact fresh

theorem pathOf_insert_iff (tree : Rooted nodes) (fresh : row.id ∉ nodeIds nodes) {id : Uuid}
    (different : id ≠ row.id) {path : List JsString} :
    PathOf (nodes ++ [row]) id path ↔ PathOf nodes id path := by
  unfold PathOf
  rw [List.map_append]
  exact pathTo_insert_iff tree (fresh_link fresh) different

theorem pathOf_insert_self (below : row.parentId = some parentId)
    (reached : PathOf nodes parentId front) :
    PathOf (nodes ++ [row]) row.id (front ++ [row.name]) := by
  unfold PathOf
  rw [List.map_append]
  exact pathTo_insert_self below reached

/-- What a new row needs: an id of its own, and a free valid name in a directory. -/
structure Insertable (host : Host) (nodes : List VfsNode) (row : VfsNode) (parentId : Uuid)
    (front : List JsString) : Prop where
  fresh : row.id ∉ nodeIds nodes
  below : row.parentId = some parentId
  parent : ∃ parent ∈ nodes, parent.id = parentId ∧ parent.type = .directory
  reached : PathOf nodes parentId front
  free : ∀ other ∈ nodes, other.parentId = some parentId → other.name ≠ row.name
  valid : ValidPath host (front ++ [row.name])
  shaped : row.Shaped
  numbered : row.Numbered

theorem Insertable.tree (insertable : Insertable host nodes row parentId front)
    (tree : Rooted nodes) : Rooted (nodes ++ [row]) := by
  unfold Rooted
  rw [List.map_append]
  refine WellFormed.insert tree (fresh_link insertable.fresh) insertable.below ?_ ?_
  · rcases insertable.parent with ⟨parent, member, same, directory⟩
    exact ⟨parent.link, List.mem_map_of_mem member, same, link_branch_iff.mpr directory⟩
  · intro link member below
    rcases List.mem_map.mp member with ⟨other, otherMember, rfl⟩
    exact insertable.free other otherMember below

theorem Layout.insert (layout : Layout host nodes rootId)
    (insertable : Insertable host nodes row parentId front) :
    Layout host (nodes ++ [row]) rootId := by
  have cases : ∀ node ∈ nodes ++ [row], node ∈ nodes ∨ node = row := by
    intro node member
    simpa using member
  have self := pathOf_insert_self insertable.below insertable.reached
  refine { tree := insertable.tree layout.tree, shapes := ?_, valid := ?_, root := ?_,
           versions := ?_ }
  · intro node member
    rcases cases node member with member | rfl
    · exact layout.shapes node member
    · exact insertable.shaped
  · intro id path reached
    by_cases same : id = row.id
    · subst same
      rw [PathTo.unique (insertable.tree layout.tree) reached self]
      exact insertable.valid
    · exact layout.valid id path ((pathOf_insert_iff layout.tree insertable.fresh same).mp reached)
  · refine (pathOf_insert_iff layout.tree insertable.fresh fun same => ?_).mpr layout.root
    rcases PathOf.exists_node layout.root with ⟨root, member, rootId⟩
    exact insertable.fresh (mem_nodeIds.mpr ⟨root, member, rootId.trans same⟩)
  · intro node member
    rcases cases node member with member | rfl
    · exact layout.versions node member
    · exact insertable.numbered

end Insert

/-! ## Rewritten rows -/

def rewriteRow (id : Uuid) (transform : VfsNode → VfsNode) (node : VfsNode) : VfsNode :=
  if node.id = id then transform node else node

section Rewrite

variable {transform : VfsNode → VfsNode}

structure KeepsLinks (nodes : List VfsNode) (transform : VfsNode → VfsNode) : Prop where
  links : ∀ node ∈ nodes, (transform node).link = node.link
  shaped : ∀ node ∈ nodes, (transform node).Shaped
  numbered : ∀ node ∈ nodes, (transform node).Numbered

theorem KeepsLinks.map_link (keeps : KeepsLinks nodes transform) :
    (nodes.map transform).map VfsNode.link = nodes.map VfsNode.link := by
  rw [List.map_map]
  exact List.map_congr_left keeps.links

theorem KeepsLinks.id_eq (keeps : KeepsLinks nodes transform) {node : VfsNode}
    (member : node ∈ nodes) : (transform node).id = node.id :=
  congrArg Link.id (keeps.links node member)

theorem KeepsLinks.parentId_eq (keeps : KeepsLinks nodes transform) {node : VfsNode}
    (member : node ∈ nodes) : (transform node).parentId = node.parentId :=
  congrArg Link.parent (keeps.links node member)

theorem KeepsLinks.type_eq (keeps : KeepsLinks nodes transform) {node : VfsNode}
    (member : node ∈ nodes) : (transform node).type = node.type := by
  have branches := congrArg Link.branch (keeps.links node member)
  cases left : (transform node).type <;> cases right : node.type <;>
    simp [VfsNode.link, left, right] at branches ⊢

theorem KeepsLinks.nodeIds_eq (keeps : KeepsLinks nodes transform) :
    nodeIds (nodes.map transform) = nodeIds nodes := by
  rw [← nodeIds_eq_links, keeps.map_link, nodeIds_eq_links]

theorem KeepsLinks.pathOf_iff (keeps : KeepsLinks nodes transform) {id : Uuid}
    {path : List JsString} : PathOf (nodes.map transform) id path ↔ PathOf nodes id path := by
  unfold PathOf
  rw [keeps.map_link]

theorem Layout.rewrite (layout : Layout host nodes rootId) (keeps : KeepsLinks nodes transform) :
    Layout host (nodes.map transform) rootId where
  tree := by
    unfold Rooted
    rw [keeps.map_link]
    exact layout.tree
  shapes node inside := by
    rcases List.mem_map.mp inside with ⟨old, member, rfl⟩
    exact keeps.shaped old member
  valid id path reached := layout.valid id path (keeps.pathOf_iff.mp reached)
  root := keeps.pathOf_iff.mpr layout.root
  versions node inside := by
    rcases List.mem_map.mp inside with ⟨old, member, rfl⟩
    exact keeps.numbered old member

end Rewrite

/-! ## A subtree taken out -/

section Remove

structure Detachable (nodes : List VfsNode) (gone : List Uuid) : Prop where
  children : ∀ node ∈ nodes, ∀ parentId ∈ gone, node.parentId = some parentId → node.id ∈ gone
  root : ∀ node ∈ nodes, node.parentId = none → node.id ∉ gone

def withoutNodes (nodes : List VfsNode) (gone : List Uuid) : List VfsNode :=
  nodes.filter fun node => !gone.contains node.id

variable {gone : List Uuid}

@[simp] theorem mem_withoutNodes {node : VfsNode} :
    node ∈ withoutNodes nodes gone ↔ node ∈ nodes ∧ node.id ∉ gone := by
  simp [withoutNodes]

theorem withoutNodes_links :
    (withoutNodes nodes gone).map VfsNode.link =
      (nodes.map VfsNode.link).filter fun link => !gone.contains link.id := by
  rw [List.filter_map]
  rfl

theorem Detachable.downClosed (detachable : Detachable nodes gone) :
    DownClosed (nodes.map VfsNode.link) fun link => gone.contains link.id where
  children link member above _ below removed := by
    rcases List.mem_map.mp member with ⟨node, nodeMember, rfl⟩
    simpa using detachable.children node nodeMember above.id (by simpa using removed) below
  root link member top := by
    rcases List.mem_map.mp member with ⟨node, nodeMember, rfl⟩
    simpa using detachable.root node nodeMember top

theorem pathOf_withoutNodes {id : Uuid} {path : List JsString}
    (reached : PathOf (withoutNodes nodes gone) id path) : PathOf nodes id path :=
  PathTo.mono (List.map_subset _ (List.filter_subset_self _)) reached

theorem Detachable.pathOf (detachable : Detachable nodes gone) (tree : Rooted nodes)
    {node : VfsNode} (member : node ∈ nodes) (kept : node.id ∉ gone) {path : List JsString}
    (reached : PathOf nodes node.id path) : PathOf (withoutNodes nodes gone) node.id path := by
  unfold PathOf
  rw [withoutNodes_links]
  exact pathTo_remove_of_mem tree detachable.downClosed (List.mem_map_of_mem member)
    (by simpa using kept) reached

theorem Layout.remove (layout : Layout host nodes rootId) (detachable : Detachable nodes gone) :
    Layout host (withoutNodes nodes gone) rootId where
  tree := by
    unfold Rooted
    rw [withoutNodes_links]
    exact WellFormed.remove layout.tree detachable.downClosed
  shapes node inside := layout.shapes node (mem_withoutNodes.mp inside).1
  valid id path reached := layout.valid id path (pathOf_withoutNodes reached)
  root := by
    rcases layout.exists_root with ⟨root, member, rfl, top, _⟩
    exact detachable.pathOf layout.tree member (detachable.root root member top) layout.root
  versions node inside := layout.versions node (mem_withoutNodes.mp inside).1

end Remove

/-! ## A subtree hung somewhere else -/

section Relocate

variable {moved saved : VfsNode} {source front : List JsString} {parentId : Uuid}

/-- What a move needs: the source is not above its destination, and the name is free
or its own. -/
structure Movable (host : Host) (nodes : List VfsNode) (moved saved : VfsNode)
    (source : List JsString) (parentId : Uuid) (front : List JsString) : Prop where
  member : moved ∈ nodes
  start : PathOf nodes moved.id source
  destination : PathOf nodes parentId front
  outside : ¬source <+: front
  notRoot : moved.parentId ≠ none
  parent : ∃ parent ∈ nodes, parent.id = parentId ∧ parent.type = .directory
  free : ∀ other ∈ nodes, other.parentId = some parentId → other.name = saved.name →
    other.id = moved.id
  id : saved.id = moved.id
  parentId : saved.parentId = some parentId
  type : saved.type = moved.type
  valid : ∀ id rest, PathOf nodes id (source ++ rest) →
    ValidPath host (front ++ [saved.name] ++ rest)
  shaped : saved.Shaped
  numbered : saved.Numbered

def movedNodes (nodes : List VfsNode) (saved : VfsNode) : List VfsNode :=
  nodes.map (rewriteRow saved.id fun _ => saved)

theorem Movable.links (movable : Movable host nodes moved saved source parentId front)
    (tree : Rooted nodes) :
    (movedNodes nodes saved).map VfsNode.link =
      (nodes.map VfsNode.link).map (Foundation.relocate moved.id parentId saved.name) := by
  rw [movedNodes, List.map_map, List.map_map]
  refine List.map_congr_left fun node member => ?_
  simp only [Function.comp, rewriteRow, Foundation.relocate, link_id, movable.id]
  by_cases same : node.id = moved.id
  · have equal := tree.eq_of_id member movable.member same
    subst equal
    simp [VfsNode.link, movable.id, movable.parentId, movable.type]
  · simp [same]

theorem Movable.pathOf_outside (movable : Movable host nodes moved saved source parentId front)
    (tree : Rooted nodes) {id : Uuid} {path : List JsString} (outside : ¬source <+: path)
    (reached : PathOf nodes id path) : PathOf (movedNodes nodes saved) id path := by
  unfold PathOf
  rw [movable.links tree]
  have start : PathTo (nodes.map VfsNode.link) moved.link.id source := movable.start
  exact pathTo_relocate_outside start outside reached tree

theorem Movable.pathOf_inside (movable : Movable host nodes moved saved source parentId front)
    (tree : Rooted nodes) {id : Uuid} {rest : List JsString}
    (reached : PathOf nodes id (source ++ rest)) :
    PathOf (movedNodes nodes saved) id (front ++ [saved.name] ++ rest) := by
  unfold PathOf
  rw [movable.links tree]
  have start : PathTo (nodes.map VfsNode.link) moved.link.id source := movable.start
  exact pathTo_relocate_inside tree (List.mem_map_of_mem movable.member) start
    movable.destination movable.outside reached

theorem Movable.tree (movable : Movable host nodes moved saved source parentId front)
    (tree : Rooted nodes) : Rooted (movedNodes nodes saved) := by
  unfold Rooted
  rw [movable.links tree]
  have start : PathTo (nodes.map VfsNode.link) moved.link.id source := movable.start
  refine WellFormed.relocate tree (List.mem_map_of_mem movable.member) start
    movable.destination movable.outside movable.notRoot ?_ ?_
  · rcases movable.parent with ⟨parent, member, same, directory⟩
    exact ⟨parent.link, List.mem_map_of_mem member, same, link_branch_iff.mpr directory⟩
  · intro link member below sameLabel
    rcases List.mem_map.mp member with ⟨other, otherMember, rfl⟩
    exact movable.free other otherMember below sameLabel

theorem mem_movedNodes {node : VfsNode} (member : node ∈ movedNodes nodes saved) :
    node ∈ nodes ∧ node.id ≠ saved.id ∨ node = saved := by
  rcases List.mem_map.mp member with ⟨old, oldMember, rfl⟩
  by_cases same : old.id = saved.id
  · exact .inr (if_pos same)
  · rw [rewriteRow, if_neg same]
    exact .inl ⟨oldMember, same⟩

theorem nodeIds_movedNodes (nodes : List VfsNode) (saved : VfsNode) :
    nodeIds (movedNodes nodes saved) = nodeIds nodes := by
  rw [nodeIds, movedNodes, List.map_map]
  refine List.map_congr_left fun node _ => ?_
  simp only [Function.comp, rewriteRow]
  split
  · rename_i same
    exact same.symm
  · rfl

theorem Layout.move (layout : Layout host nodes rootId)
    (movable : Movable host nodes moved saved source parentId front) :
    Layout host (movedNodes nodes saved) rootId where
  tree := movable.tree layout.tree
  shapes node inside := by
    rcases mem_movedNodes inside with ⟨member, _⟩ | rfl
    · exact layout.shapes node member
    · exact movable.shaped
  valid id path reached := by
    have included : id ∈ nodeIds nodes := by
      rw [← nodeIds_movedNodes nodes saved]
      exact mem_nodeIds.mpr (PathOf.exists_node reached)
    rcases mem_nodeIds.mp included with ⟨node, member, rfl⟩
    rcases layout.tree.exists_path member with ⟨old, oldReached⟩
    by_cases isFront : source <+: old
    · rcases isFront with ⟨rest, rfl⟩
      have next := movable.pathOf_inside layout.tree oldReached
      rw [PathTo.unique (movable.tree layout.tree) reached next]
      exact movable.valid node.id rest oldReached
    · have next := movable.pathOf_outside layout.tree isFront oldReached
      rw [PathTo.unique (movable.tree layout.tree) reached next]
      exact layout.valid node.id old oldReached
  root := by
    refine movable.pathOf_outside layout.tree ?_ layout.root
    intro isFront
    rw [List.prefix_nil] at isFront
    have start := movable.start
    rw [isFront] at start
    rcases layout.exists_root with ⟨root, rootMember, same, top, _⟩
    have equal := PathTo.injective layout.tree start (same ▸ layout.root)
    rw [layout.tree.eq_of_id movable.member rootMember equal] at movable
    exact movable.notRoot top
  versions node inside := by
    rcases mem_movedNodes inside with ⟨member, _⟩ | rfl
    · exact layout.versions node member
    · exact movable.numbered

end Relocate

end Storix
