import Storix.Persistence.Run

/-! # Paths in the node table

The queries of the code that follow parents or names, against the path of a node
in the tree. -/

namespace Storix

open Foundation

abbrev PathOf (nodes : List VfsNode) (id : Uuid) (path : List JsString) : Prop :=
  PathTo (nodes.map VfsNode.link) id path

abbrev Rooted (nodes : List VfsNode) : Prop := WellFormed (nodes.map VfsNode.link)

def nodeIds (nodes : List VfsNode) : List Uuid := nodes.map VfsNode.id

@[simp] theorem link_id (node : VfsNode) : node.link.id = node.id := rfl

@[simp] theorem link_parent (node : VfsNode) : node.link.parent = node.parentId := rfl

@[simp] theorem link_label (node : VfsNode) : node.link.label = node.name := rfl

theorem link_branch_iff {node : VfsNode} :
    node.link.branch = true ↔ node.type = .directory := by
  simp [VfsNode.link]

theorem nodeIds_eq_links (nodes : List VfsNode) :
    (nodes.map VfsNode.link).map Link.id = nodeIds nodes := by
  simp [nodeIds, Function.comp_def]

theorem mem_nodeIds {nodes : List VfsNode} {id : Uuid} :
    id ∈ nodeIds nodes ↔ ∃ node ∈ nodes, node.id = id := by
  simp [nodeIds]

theorem mem_nodeIds_of_mem {nodes : List VfsNode} {node : VfsNode} (member : node ∈ nodes) :
    node.id ∈ nodeIds nodes := List.mem_map_of_mem member

variable {nodes : List VfsNode}

theorem Rooted.ids_nodup (tree : Rooted nodes) : (nodeIds nodes).Nodup := by
  rw [← nodeIds_eq_links]
  exact tree.ids

theorem Rooted.eq_of_id (tree : Rooted nodes) {left right : VfsNode}
    (leftMember : left ∈ nodes) (rightMember : right ∈ nodes) (same : left.id = right.id) :
    left = right :=
  List.inj_on_of_nodup_map tree.ids_nodup leftMember rightMember same

theorem Rooted.exists_path (tree : Rooted nodes) {node : VfsNode} (member : node ∈ nodes) :
    ∃ path, PathOf nodes node.id path :=
  tree.rooted node.link (List.mem_map_of_mem member)

theorem PathOf.exists_node {id : Uuid} {path : List JsString} (reached : PathOf nodes id path) :
    ∃ node ∈ nodes, node.id = id := by
  rcases PathTo.exists_link reached with ⟨link, member, same⟩
  rcases List.mem_map.mp member with ⟨node, nodeMember, rfl⟩
  exact ⟨node, nodeMember, same⟩

theorem Rooted.exists_parent (tree : Rooted nodes) {node : VfsNode} (member : node ∈ nodes)
    {parentId : Uuid} (below : node.parentId = some parentId) :
    ∃ parent ∈ nodes, parent.id = parentId ∧ parent.type = .directory := by
  rcases tree.branches node.link (List.mem_map_of_mem member) parentId below with
    ⟨link, linkMember, same, branch⟩
  rcases List.mem_map.mp linkMember with ⟨parent, parentMember, rfl⟩
  exact ⟨parent, parentMember, same, link_branch_iff.mp branch⟩

theorem Rooted.eq_of_sibling (tree : Rooted nodes) {left right : VfsNode}
    (leftMember : left ∈ nodes) (rightMember : right ∈ nodes) {parentId : Uuid}
    (leftBelow : left.parentId = some parentId) (rightBelow : right.parentId = some parentId)
    (sameName : left.name = right.name) : left = right := by
  have same := tree.siblings left.link (List.mem_map_of_mem leftMember) right.link
    (List.mem_map_of_mem rightMember) (leftBelow.trans rightBelow.symm) (by simp [leftBelow])
    sameName
  exact tree.eq_of_id leftMember rightMember (congrArg Link.id same)

theorem PathOf.child {node : VfsNode} (member : node ∈ nodes) {parentId : Uuid}
    (below : node.parentId = some parentId) {path : List JsString}
    (reached : PathOf nodes parentId path) : PathOf nodes node.id (path ++ [node.name]) :=
  PathTo.child (List.mem_map_of_mem member) below reached

theorem PathOf.above (tree : Rooted nodes) {node : VfsNode} (member : node ∈ nodes)
    {path : List JsString} (reached : PathOf nodes node.id path) {parentId : Uuid}
    (below : node.parentId = some parentId) :
    ∃ front, PathOf nodes parentId front ∧ path = front ++ [node.name] :=
  PathTo.above tree (List.mem_map_of_mem member) reached below

theorem PathOf.eq_nil (tree : Rooted nodes) {node : VfsNode} (member : node ∈ nodes)
    {path : List JsString} (reached : PathOf nodes node.id path) (top : node.parentId = none) :
    path = [] :=
  PathTo.eq_nil tree (List.mem_map_of_mem member) reached top

theorem PathOf.length_lt (tree : Rooted nodes) {id : Uuid} {path : List JsString}
    (reached : PathOf nodes id path) : path.length < nodes.length := by
  have bound := PathTo.length_lt tree reached
  rwa [List.length_map] at bound

theorem PathOf.exists_child {id : Uuid} {front : List JsString} {name : JsString}
    (reached : PathOf nodes id (front ++ [name])) :
    ∃ node ∈ nodes, node.id = id ∧ node.name = name ∧
      ∃ parentId, node.parentId = some parentId ∧ PathOf nodes parentId front := by
  rcases PathTo.exists_parent reached with ⟨link, member, same, sameLabel, parentId, below, above⟩
  rcases List.mem_map.mp member with ⟨node, nodeMember, rfl⟩
  exact ⟨node, nodeMember, same, sameLabel, parentId, below, above⟩

/-! ## Lookups -/

theorem find_eq_some_of_mem (tree : Rooted nodes) {node : VfsNode} (member : node ∈ nodes) :
    nodes.find? (fun other => other.id == node.id) = some node := by
  cases found : nodes.find? fun other => other.id == node.id with
  | none => exact absurd (List.find?_eq_none.mp found node member) (by simp)
  | some other =>
      have same : other.id = node.id := by simpa using List.find?_some found
      rw [tree.eq_of_id (List.mem_of_find?_eq_some found) member same]

theorem mem_of_find_eq_some {id : Uuid} {node : VfsNode}
    (found : nodes.find? (fun other => other.id == id) = some node) :
    node ∈ nodes ∧ node.id = id :=
  ⟨List.mem_of_find?_eq_some found, by simpa using List.find?_some found⟩

theorem findChild_eq_some {db : Database} {parentId : Uuid} {name : JsString} {node : VfsNode}
    (found : db.findChild parentId name = some node) :
    node ∈ db.nodes ∧ node.parentId = some parentId ∧ node.name = name := by
  have holds := List.find?_some found
  rw [Bool.and_eq_true] at holds
  exact ⟨List.mem_of_find?_eq_some found, by simpa using holds.1, by simpa using holds.2⟩

theorem findChild_eq_none {db : Database} {parentId : Uuid} {name : JsString}
    (missing : db.findChild parentId name = none) {node : VfsNode} (member : node ∈ db.nodes)
    (below : node.parentId = some parentId) : node.name ≠ name := by
  have fails := List.find?_eq_none.mp missing node member
  intro same
  exact fails (by simp [below, same])

theorem findChild_eq_some_of_mem {db : Database} (tree : Rooted db.nodes) {parentId : Uuid}
    {node : VfsNode} (member : node ∈ db.nodes) (below : node.parentId = some parentId) :
    db.findChild parentId node.name = some node := by
  cases found : db.findChild parentId node.name with
  | none => exact absurd rfl (findChild_eq_none found member below)
  | some other =>
      rcases findChild_eq_some found with ⟨otherMember, otherBelow, sameName⟩
      rw [tree.eq_of_sibling otherMember member otherBelow below sameName]

/-! ## Following names -/

/-- The loop of `resolvePathInManager` finds the node at the path, and only it. -/
theorem resolveFrom_eq_some_iff {db : Database} (tree : Rooted db.nodes)
    {segments front : List JsString} {start : VfsNode} (member : start ∈ db.nodes)
    (reached : PathOf db.nodes start.id front) {node : VfsNode} :
    resolveFrom db segments (some start) = some node ↔
      node ∈ db.nodes ∧ PathOf db.nodes node.id (front ++ segments) := by
  induction segments generalizing start front with
  | nil =>
      simp only [resolveFrom, List.append_nil, Option.some.injEq]
      constructor
      · rintro rfl
        exact ⟨member, reached⟩
      · rintro ⟨nodeMember, nodeReached⟩
        exact tree.eq_of_id member nodeMember (PathTo.injective tree reached nodeReached)
  | cons name rest induction =>
      have below : ∀ child ∈ db.nodes, child.parentId = some start.id →
          (child.name = name ↔ db.findChild start.id name = some child) := by
        intro child childMember childBelow
        constructor
        · rintro rfl
          exact findChild_eq_some_of_mem tree childMember childBelow
        · intro found
          exact (findChild_eq_some found).2.2
      have needs : (∃ id, PathOf db.nodes id (front ++ name :: rest)) →
          ∃ child, db.findChild start.id name = some child ∧ start.type = .directory := by
        rintro ⟨id, deep⟩
        have whole : front ++ name :: rest = (front ++ [name]) ++ rest := by simp
        rw [whole] at deep
        rcases deep.of_append with ⟨childId, childReached⟩
        rcases PathOf.exists_child childReached with
          ⟨child, childMember, rfl, sameName, parentId, childBelow, parentReached⟩
        have same := PathTo.injective tree parentReached reached
        subst same
        rcases tree.exists_parent childMember childBelow with
          ⟨parent, parentMember, sameId, directory⟩
        rw [tree.eq_of_id parentMember member sameId] at directory
        exact ⟨child, (below child childMember childBelow).mp sameName, directory⟩
      unfold resolveFrom
      constructor
      · intro found
        split at found
        · cases childFound : db.findChild start.id name with
          | none =>
              rw [childFound] at found
              cases rest <;> simp [resolveFrom] at found
          | some child =>
              rw [childFound] at found
              rcases findChild_eq_some childFound with ⟨childMember, childBelow, sameName⟩
              have childReached := PathOf.child childMember childBelow reached
              rw [sameName] at childReached
              have whole : front ++ name :: rest = (front ++ [name]) ++ rest := by simp
              rw [whole]
              exact (induction childMember childReached).mp found
        · cases found
      · rintro ⟨nodeMember, nodeReached⟩
        rcases needs ⟨_, nodeReached⟩ with ⟨child, childFound, directory⟩
        rw [if_pos directory, childFound]
        rcases findChild_eq_some childFound with ⟨childMember, childBelow, sameName⟩
        have childReached := PathOf.child childMember childBelow reached
        rw [sameName] at childReached
        refine (induction childMember childReached).mpr ⟨nodeMember, ?_⟩
        simpa using nodeReached

theorem resolvePathInManager_eq_some_iff {db : Database} (tree : Rooted db.nodes)
    {rootId : Uuid} (root : PathOf db.nodes rootId []) {segments : List JsString}
    {node : VfsNode} :
    resolvePathInManager db rootId segments = some node ↔
      node ∈ db.nodes ∧ PathOf db.nodes node.id segments := by
  rcases PathOf.exists_node root with ⟨start, member, rfl⟩
  have found : db.findNode start.id = some start := find_eq_some_of_mem tree member
  rw [resolvePathInManager, found, resolveFrom_eq_some_iff tree member root, List.nil_append]

/-! ## Following parents -/

/-- The states in `known` have the current path, where they are used. -/
def KnownPaths (nodes : List VfsNode) (known : OrderedMap Uuid ChangeFeedNodeState)
    (path : List JsString) : Prop :=
  ∀ id state front, known.get id = some state → front <+: path → PathOf nodes id front →
    state.segments = front

theorem resolveSegments_eq_ok (tree : Rooted nodes)
    {known : OrderedMap Uuid ChangeFeedNodeState} {fuel : Nat} {node : VfsNode}
    (member : node ∈ nodes) {path : List JsString} (reached : PathOf nodes node.id path)
    (consistent : KnownPaths nodes known path) (enough : path.length < fuel) :
    resolveSegments nodes known fuel node = .ok path := by
  induction fuel generalizing node path with
  | zero => omega
  | succ fuel induction =>
      unfold resolveSegments
      cases cached : known.get node.id with
      | some state =>
          exact congrArg Except.ok
            (consistent node.id state path cached (List.prefix_refl _) reached)
      | none =>
          cases below : node.parentId with
          | none =>
              rw [PathOf.eq_nil tree member reached below]
          | some parentId =>
              rcases tree.exists_parent member below with ⟨parent, parentMember, rfl, _⟩
              rcases PathOf.above tree member reached below with ⟨front, parentReached, rfl⟩
              have shorter : front.length < fuel := by
                simp only [List.length_append, List.length_singleton] at enough
                omega
              have above : KnownPaths nodes known front := by
                intro id state short found isFront shortReached
                exact consistent id state short found
                  (isFront.trans (List.prefix_append _ _)) shortReached
              simp only [find_eq_some_of_mem tree parentMember,
                induction parentMember parentReached above shorter]

/-- The walk of `markAncestorChain`: it covers every ancestor that is not already
covered. -/
theorem walkAncestors_eq_ok (tree : Rooted nodes) (marked : List Uuid) {fuel : Nat}
    {node : VfsNode} (member : node ∈ nodes) {path : List JsString}
    (reached : PathOf nodes node.id path) (enough : path.length + 1 < fuel) :
    ∃ walked, walkAncestors nodes marked fuel (some node.id) = .ok walked ∧
      (node.id ∈ walked ∨ node.id ∈ marked) ∧
      (∀ id ∈ walked, ∃ other ∈ nodes, other.id = id ∧
        (∃ front, front <+: path ∧ PathOf nodes id front) ∧
        ∀ parentId, other.parentId = some parentId →
          parentId ∈ walked ∨ parentId ∈ marked) := by
  induction fuel generalizing node path with
  | zero => omega
  | succ fuel induction =>
      unfold walkAncestors
      by_cases covered : node.id ∈ marked
      · exact ⟨[], by simp [covered], .inr covered, by simp⟩
      · rw [if_neg (by simpa using covered), find_eq_some_of_mem tree member]
        cases below : node.parentId with
        | none =>
            have top : walkAncestors nodes marked fuel none = .ok [] := by
              cases fuel with
              | zero => omega
              | succ _ => rfl
            refine ⟨[node.id], by simp [below, top], .inl (by simp), ?_⟩
            intro id inside
            rw [List.mem_singleton] at inside
            subst inside
            refine ⟨node, member, rfl, ⟨path, List.prefix_refl _, reached⟩, ?_⟩
            intro parentId parentBelow
            rw [below] at parentBelow
            cases parentBelow
        | some parentId =>
            rcases tree.exists_parent member below with ⟨parent, parentMember, rfl, _⟩
            rcases PathOf.above tree member reached below with ⟨front, parentReached, rfl⟩
            have shorter : front.length + 1 < fuel := by
              simp only [List.length_append, List.length_singleton] at enough
              omega
            rcases induction parentMember parentReached shorter with
              ⟨walked, result, starts, covers⟩
            refine ⟨node.id :: walked, by simp [below, result], .inl (by simp), ?_⟩
            intro id inside
            rcases List.mem_cons.mp inside with rfl | inside
            · refine ⟨node, member, rfl, ⟨_, List.prefix_refl _, reached⟩, ?_⟩
              intro other otherBelow
              rw [below] at otherBelow
              cases otherBelow
              exact starts.imp (List.mem_cons_of_mem _) id
            · rcases covers id inside with
                ⟨other, otherMember, same, ⟨short, isFront, shortReached⟩,
                parents⟩
              refine ⟨other, otherMember, same,
                ⟨short, isFront.trans (List.prefix_append _ _), shortReached⟩, ?_⟩
              intro other otherBelow
              exact (parents other otherBelow).imp (List.mem_cons_of_mem _) (fun inside => inside)

theorem segmentsOf_eq_ok (tree : Rooted nodes) {fuel : Nat} {node : VfsNode}
    (member : node ∈ nodes) {path : List JsString} (reached : PathOf nodes node.id path)
    (enough : path.length < fuel) (suffix : List JsString) :
    ∃ top ∈ nodes, top.parentId = none ∧
      segmentsOf nodes fuel node suffix = .ok (top, path ++ suffix) := by
  induction fuel generalizing node path suffix with
  | zero => omega
  | succ fuel induction =>
      unfold segmentsOf
      cases below : node.parentId with
      | none =>
          rw [PathOf.eq_nil tree member reached below]
          exact ⟨node, member, below, rfl⟩
      | some parentId =>
          rcases tree.exists_parent member below with ⟨parent, parentMember, rfl, _⟩
          rcases PathOf.above tree member reached below with ⟨front, parentReached, rfl⟩
          have shorter : front.length < fuel := by
            simp only [List.length_append, List.length_singleton] at enough
            omega
          rcases induction parentMember parentReached shorter (node.name :: suffix) with
            ⟨top, topMember, isTop, result⟩
          refine ⟨top, topMember, isTop, ?_⟩
          simp [find_eq_some_of_mem tree parentMember, result]

end Storix
