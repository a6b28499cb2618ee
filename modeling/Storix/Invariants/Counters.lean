import Mathlib.Algebra.GroupWithZero.Nat
import Mathlib.Algebra.Ring.Int.Defs
import Storix.Invariants.Layout
import Mathlib.Algebra.Order.BigOperators.Group.List

/-! # Counters

The live counters of a namespace and the file counters of its directories, with
the changes that a running transaction has recorded but not yet applied. -/

namespace Storix

open Foundation

/-! ## Totals -/

def total (measure : VfsNode → Int) (nodes : List VfsNode) : Int := (nodes.map measure).sum

def fileSize (node : VfsNode) : Int := if node.type = .file then node.size.getD 0 else 0

/-- One for a file directly below `parentId`. -/
def fileBelow (parentId : Uuid) (node : VfsNode) : Int :=
  if node.type = .file ∧ node.parentId = some parentId then 1 else 0

section Totals

variable {measure : VfsNode → Int} {nodes : List VfsNode}

theorem total_insert (row : VfsNode) :
    total measure (nodes ++ [row]) = total measure nodes + measure row := by
  simp [total]

theorem total_perm (measure : VfsNode → Int) {others : List VfsNode} (same : nodes.Perm others) :
    total measure nodes = total measure others :=
  (same.map measure).sum_eq

theorem total_one (nodes : List VfsNode) : total (fun _ => 1) nodes = nodes.length := by
  simp [total]

theorem total_nonneg (nonneg : ∀ node, 0 ≤ measure node) (nodes : List VfsNode) :
    0 ≤ total measure nodes := by
  refine List.sum_nonneg fun value inside => ?_
  rcases List.mem_map.mp inside with ⟨node, _, rfl⟩
  exact nonneg node

theorem total_eq_zero (none : ∀ node ∈ nodes, measure node = 0) : total measure nodes = 0 := by
  refine List.sum_eq_zero fun value inside => ?_
  rcases List.mem_map.mp inside with ⟨node, member, rfl⟩
  exact none node member

theorem total_rewriteRow (nodup : (nodeIds nodes).Nodup) {old : VfsNode} (member : old ∈ nodes)
    (transform : VfsNode → VfsNode) :
    total measure (nodes.map (rewriteRow old.id transform)) =
      total measure nodes + (measure (transform old) - measure old) := by
  induction nodes with
  | nil => cases member
  | cons first rest induction =>
      have parts := List.nodup_cons.mp nodup
      have split :
          ∀ node rows, total measure (node :: rows) = measure node + total measure rows := by
        intro node rows
        simp [total]
      rw [List.map_cons, split, split]
      rcases List.mem_cons.mp member with rfl | member
      · have untouched : rest.map (rewriteRow old.id transform) = rest := by
          refine (List.map_congr_left fun node inside => ?_).trans (List.map_id rest)
          refine if_neg fun same => ?_
          exact parts.1 (same ▸ mem_nodeIds_of_mem inside)
        rw [untouched, rewriteRow, if_pos rfl]
        omega
      · have different : first.id ≠ old.id := fun same =>
          parts.1 (same ▸ mem_nodeIds_of_mem member)
        rw [induction parts.2 member, rewriteRow, if_neg different]
        omega

theorem total_withoutNodes (gone : List Uuid) :
    total measure (withoutNodes nodes gone) =
      total measure nodes - total measure (nodes.filter fun node => gone.contains node.id) := by
  have halves := (List.filter_append_perm (fun node : VfsNode => gone.contains node.id) nodes)
  have sum := total_perm measure halves
  unfold total at sum
  rw [List.map_append, List.sum_append] at sum
  unfold total withoutNodes
  omega

end Totals

/-! ## The books -/

/-- The counters are exact. `liveNodes` and `liveBytes` are the stored values with
the recorded changes, `delta` is the recorded change of each directory, and `base`
are the rows at the start of the transaction. The rows themselves keep the counters of the
start until the recorded changes are applied. -/
structure NodeBooks (base nodes : List VfsNode) (liveNodes liveBytes : Int)
    (delta : Uuid → Int) : Prop where
  count : liveNodes + 1 = nodes.length
  bytes : liveBytes = total fileSize nodes
  folders : ∀ node ∈ nodes, node.type = .directory →
    node.childFileCount + delta node.id = total (fileBelow node.id) nodes
  nonneg : ∀ node ∈ nodes, 0 ≤ node.childFileCount
  gone : ∀ id, (∀ node ∈ nodes, node.id = id → node.type ≠ .directory) → delta id ≤ 0
  touched : ∀ id, delta id ≠ 0 → id ∈ nodeIds base ∨ id ∈ nodeIds nodes
  stored : ∀ node ∈ nodes, ∀ old ∈ base, old.id = node.id →
    node.childFileCount = old.childFileCount
  unstored : ∀ node ∈ nodes, node.id ∉ nodeIds base → node.childFileCount = 0

theorem fileSize_nonneg (node : VfsNode) : 0 ≤ fileSize node := by
  unfold fileSize
  split
  · exact Int.natCast_nonneg _
  · exact Int.le_refl 0

theorem fileBelow_nonneg (id : Uuid) (node : VfsNode) : 0 ≤ fileBelow id node := by
  unfold fileBelow
  split <;> omega

namespace NodeBooks

variable {base nodes : List VfsNode} {liveNodes liveBytes : Int} {delta : Uuid → Int}
  {host : Host} {rootId : Uuid}

theorem congr (books : NodeBooks base nodes liveNodes liveBytes delta) {liveNodes' liveBytes' : Int}
    {delta' : Uuid → Int} (sameNodes : liveNodes = liveNodes') (sameBytes : liveBytes = liveBytes')
    (sameDelta : ∀ id, delta id = delta' id) :
    NodeBooks base nodes liveNodes' liveBytes' delta' := by
  have same : delta = delta' := funext sameDelta
  subst sameNodes sameBytes same
  exact books

theorem insert (books : NodeBooks base nodes liveNodes liveBytes delta) {row : VfsNode}
    {parentId : Uuid} {front : List JsString}
    (insertable : Insertable host nodes row parentId front) (tree : Rooted nodes)
    (unused : row.id ∉ nodeIds base) (zero : row.childFileCount = 0) :
    NodeBooks base (nodes ++ [row]) (liveNodes + 1) (liveBytes + fileSize row)
      (fun id => delta id + fileBelow id row) := by
  have untouched : delta row.id = 0 := by
    by_contra changed
    rcases books.touched row.id changed with inside | inside
    · exact unused inside
    · exact insertable.fresh inside
  have childless : ∀ node ∈ nodes, node.parentId ≠ some row.id := by
    intro node member below
    rcases tree.exists_parent member below with ⟨parent, parentMember, same, _⟩
    exact insertable.fresh (mem_nodeIds.mpr ⟨parent, parentMember, same⟩)
  have notOwn : row.parentId ≠ some row.id := by
    intro below
    rcases insertable.parent with ⟨parent, member, same, _⟩
    rw [insertable.below] at below
    exact insertable.fresh (mem_nodeIds.mpr ⟨parent, member, same.trans (Option.some.inj below)⟩)
  have cases : ∀ node ∈ nodes ++ [row], node ∈ nodes ∨ node = row := by
    intro node member
    simpa using member
  refine { count := ?_, bytes := ?_, folders := ?_, nonneg := ?_, gone := ?_, touched := ?_,
           stored := ?_, unstored := ?_ }
  · have before := books.count
    rw [List.length_append, List.length_singleton]
    push_cast
    omega
  · rw [total_insert, ← books.bytes]
  · intro node member directory
    rw [total_insert]
    rcases cases node member with member | rfl
    · have before := books.folders node member directory
      omega
    · have empty : total (fileBelow node.id) nodes = 0 := by
        refine total_eq_zero fun other otherMember => ?_
        exact if_neg fun both => childless other otherMember both.2
      rw [zero, untouched, empty]
      omega
  · intro node member
    rcases cases node member with member | rfl
    · exact books.nonneg node member
    · rw [zero]
  · intro id missing
    have before := books.gone id fun node member same =>
      missing node (List.mem_append_left _ member) same
    have other : fileBelow id row = 0 := by
      refine if_neg fun both => ?_
      rcases insertable.parent with ⟨parent, member, same, directory⟩
      have parents := both.2
      rw [insertable.below] at parents
      exact missing parent (List.mem_append_left _ member) (same.trans (Option.some.inj parents))
        directory
    omega
  · intro id changed
    by_cases before : delta id = 0
    · have below : row.parentId = some id := by
        by_contra apart
        exact changed (by simp [fileBelow, apart, before])
      rcases insertable.parent with ⟨parent, member, same, _⟩
      rw [insertable.below] at below
      exact .inr (mem_nodeIds.mpr ⟨parent, List.mem_append_left _ member,
        same.trans (Option.some.inj below)⟩)
    · rcases books.touched id before with inside | inside
      · exact .inl inside
      · rcases mem_nodeIds.mp inside with ⟨node, member, same⟩
        exact .inr (mem_nodeIds.mpr ⟨node, List.mem_append_left _ member, same⟩)
  · intro node member old oldMember same
    rcases cases node member with member | rfl
    · exact books.stored node member old oldMember same
    · exact absurd (same ▸ mem_nodeIds_of_mem oldMember) unused
  · intro node member new
    rcases cases node member with member | rfl
    · exact books.unstored node member new
    · exact zero

theorem rewrite (books : NodeBooks base nodes liveNodes liveBytes delta) (tree : Rooted nodes)
    {old : VfsNode} (member : old ∈ nodes) {transform : VfsNode → VfsNode}
    (keeps : KeepsLinks nodes (rewriteRow old.id transform))
    (counts : (transform old).childFileCount = old.childFileCount) :
    NodeBooks base (nodes.map (rewriteRow old.id transform)) liveNodes
      (liveBytes + (fileSize (transform old) - fileSize old)) delta := by
  have image : ∀ node ∈ nodes.map (rewriteRow old.id transform), ∃ before ∈ nodes,
      before.id = node.id ∧ before.type = node.type ∧
        before.childFileCount = node.childFileCount := by
    intro node inside
    rcases List.mem_map.mp inside with ⟨before, beforeMember, rfl⟩
    refine ⟨before, beforeMember, (keeps.id_eq beforeMember).symm,
      (keeps.type_eq beforeMember).symm, ?_⟩
    by_cases same : before.id = old.id
    · rw [rewriteRow, if_pos same, tree.eq_of_id beforeMember member same, counts]
    · rw [rewriteRow, if_neg same]
  have below : ∀ id, total (fileBelow id) (nodes.map (rewriteRow old.id transform)) =
      total (fileBelow id) nodes := by
    intro id
    unfold total
    rw [List.map_map, List.map_congr_left]
    intro node nodeMember
    simp only [Function.comp, fileBelow, keeps.type_eq nodeMember, keeps.parentId_eq nodeMember]
  refine { count := ?_, bytes := ?_, folders := ?_, nonneg := ?_, gone := ?_, touched := ?_,
           stored := ?_, unstored := ?_ }
  · rw [List.length_map]
    exact books.count
  · rw [total_rewriteRow tree.ids_nodup member, ← books.bytes]
  · intro node inside directory
    rcases image node inside with ⟨before, beforeMember, sameId, sameType, sameCount⟩
    rw [below, ← sameCount, ← sameId]
    exact books.folders before beforeMember (sameType.trans directory)
  · intro node inside
    rcases image node inside with ⟨before, beforeMember, _, _, sameCount⟩
    rw [← sameCount]
    exact books.nonneg before beforeMember
  · intro id missing
    refine books.gone id fun node nodeMember same directory => ?_
    exact missing _ (List.mem_map_of_mem nodeMember) ((keeps.id_eq nodeMember).trans same)
      ((keeps.type_eq nodeMember).trans directory)
  · intro id changed
    rw [keeps.nodeIds_eq]
    exact books.touched id changed
  · intro node inside other otherMember same
    rcases image node inside with ⟨before, beforeMember, sameId, _, sameCount⟩
    rw [← sameCount]
    exact books.stored before beforeMember other otherMember (same.trans sameId.symm)
  · intro node inside new
    rcases image node inside with ⟨before, beforeMember, sameId, _, sameCount⟩
    rw [← sameCount]
    exact books.unstored before beforeMember (sameId ▸ new)

theorem move (books : NodeBooks base nodes liveNodes liveBytes delta) (tree : Rooted nodes)
    {moved saved : VfsNode} {source front : List JsString} {parentId : Uuid}
    (movable : Movable host nodes moved saved source parentId front)
    (size : saved.size = moved.size) (counts : saved.childFileCount = moved.childFileCount) :
    NodeBooks base (movedNodes nodes saved) liveNodes liveBytes
      (fun id => delta id + (fileBelow id saved - fileBelow id moved)) := by
  have moves : ∀ measure, total measure (movedNodes nodes saved) =
      total measure nodes + (measure saved - measure moved) := by
    intro measure
    rw [movedNodes, movable.id]
    exact total_rewriteRow tree.ids_nodup movable.member fun _ => saved
  have image : ∀ node ∈ movedNodes nodes saved, ∃ before ∈ nodes,
      before.id = node.id ∧ before.type = node.type ∧
        before.childFileCount = node.childFileCount := by
    intro node inside
    rcases mem_movedNodes inside with ⟨member, _⟩ | rfl
    · exact ⟨node, member, rfl, rfl, rfl⟩
    · exact ⟨moved, movable.member, movable.id.symm, movable.type.symm, counts.symm⟩
  have keeps : ∀ node ∈ nodes, ∃ after ∈ movedNodes nodes saved,
      after.id = node.id ∧ after.type = node.type := by
    intro node member
    by_cases same : node.id = saved.id
    · have equal := tree.eq_of_id member movable.member (same.trans movable.id)
      subst equal
      refine ⟨saved, ?_, movable.id, movable.type⟩
      exact List.mem_map.mpr ⟨node, member, if_pos same⟩
    · exact ⟨node, List.mem_map.mpr ⟨node, member, if_neg same⟩, rfl, rfl⟩
  have parentOf : ∀ node ∈ nodes, ∀ id, node.parentId = some id →
      ∃ parent ∈ movedNodes nodes saved, parent.id = id ∧ parent.type = .directory := by
    intro node member id below
    rcases tree.exists_parent member below with ⟨parent, parentMember, same, directory⟩
    rcases keeps parent parentMember with ⟨after, afterMember, afterId, afterType⟩
    exact ⟨after, afterMember, afterId.trans same, afterType.trans directory⟩
  have newParent : ∀ id, saved.parentId = some id →
      ∃ parent ∈ movedNodes nodes saved, parent.id = id ∧ parent.type = .directory := by
    intro id below
    rcases movable.parent with ⟨parent, parentMember, same, directory⟩
    rcases keeps parent parentMember with ⟨after, afterMember, afterId, afterType⟩
    rw [movable.parentId] at below
    exact ⟨after, afterMember, afterId.trans (same.trans (Option.some.inj below)),
      afterType.trans directory⟩
  refine { count := ?_, bytes := ?_, folders := ?_, nonneg := ?_, gone := ?_, touched := ?_,
           stored := ?_, unstored := ?_ }
  · rw [movedNodes, List.length_map]
    exact books.count
  · have same : fileSize saved = fileSize moved := by
      simp [fileSize, movable.type, size]
    rw [moves, ← books.bytes, same]
    omega
  · intro node inside directory
    rcases image node inside with ⟨before, beforeMember, sameId, sameType, sameCount⟩
    have old := books.folders before beforeMember (sameType.trans directory)
    rw [moves, ← sameCount, ← sameId]
    omega
  · intro node inside
    rcases image node inside with ⟨before, beforeMember, _, _, sameCount⟩
    rw [← sameCount]
    exact books.nonneg before beforeMember
  · intro id missing
    have before := books.gone id fun node member same directory => by
      rcases keeps node member with ⟨after, afterMember, afterId, afterType⟩
      exact missing after afterMember (afterId.trans same) (afterType.trans directory)
    have arrives : fileBelow id saved = 0 := by
      refine if_neg fun both => ?_
      rcases newParent id both.2 with ⟨parent, parentMember, same, directory⟩
      exact missing parent parentMember same directory
    have leaves := fileBelow_nonneg id moved
    omega
  · intro id changed
    rw [nodeIds_movedNodes nodes saved]
    by_cases before : delta id = 0
    · have parent : ∃ parent ∈ movedNodes nodes saved, parent.id = id ∧
          parent.type = .directory := by
        by_cases arrives : saved.parentId = some id
        · exact newParent id arrives
        · by_cases leaves : moved.parentId = some id
          · exact parentOf moved movable.member id leaves
          · exact absurd (by simp [fileBelow, arrives, leaves, before]) changed
      rcases parent with ⟨node, inside, same, _⟩
      refine .inr ?_
      rw [← nodeIds_movedNodes nodes saved]
      exact mem_nodeIds.mpr ⟨node, inside, same⟩
    · exact books.touched id before
  · intro node inside old oldMember same
    rcases image node inside with ⟨before, beforeMember, sameId, _, sameCount⟩
    rw [← sameCount]
    exact books.stored before beforeMember old oldMember (same.trans sameId.symm)
  · intro node inside new
    rcases image node inside with ⟨before, beforeMember, sameId, _, sameCount⟩
    rw [← sameCount]
    exact books.unstored before beforeMember (sameId ▸ new)

/-- A subtree taken out. Directories of it keep what is left of their change. -/
theorem remove (books : NodeBooks base nodes liveNodes liveBytes delta) (tree : Rooted nodes)
    {gone : List Uuid} {removed : List VfsNode} (detachable : Detachable nodes gone)
    (whole : removed.Perm (nodes.filter fun node => gone.contains node.id))
    (old : ∀ node ∈ removed, node.id ∈ nodeIds base) :
    NodeBooks base (withoutNodes nodes gone) (liveNodes - removed.length)
      (liveBytes - total fileSize removed)
      (fun id => delta id - total (fileBelow id) removed) := by
  have takes : ∀ measure, total measure (withoutNodes nodes gone) =
      total measure nodes - total measure removed := by
    intro measure
    rw [total_withoutNodes, total_perm measure whole]
  have inside : ∀ node, node ∈ removed ↔ node ∈ nodes ∧ node.id ∈ gone := by
    intro node
    rw [whole.mem_iff]
    simp
  refine { count := ?_, bytes := ?_, folders := ?_, nonneg := ?_, gone := ?_, touched := ?_,
           stored := ?_, unstored := ?_ }
  · have length := takes fun _ => 1
    rw [total_one, total_one, total_one] at length
    have before := books.count
    omega
  · rw [takes, ← books.bytes]
  · intro node member directory
    rw [takes]
    have before := books.folders node (mem_withoutNodes.mp member).1 directory
    omega
  · intro node member
    exact books.nonneg node (mem_withoutNodes.mp member).1
  · intro id missing
    have leaves := total_nonneg (fileBelow_nonneg id) removed
    by_cases live : ∃ node ∈ nodes, node.id = id ∧ node.type = .directory
    · rcases live with ⟨node, member, rfl, directory⟩
      have taken : node.id ∈ gone := by
        by_contra kept
        exact missing node (mem_withoutNodes.mpr ⟨member, kept⟩) rfl directory
      -- Every file of a removed directory goes with it, so the rest is `-childFileCount`.
      have before := books.folders node member directory
      have children := takes (fileBelow node.id)
      have none : total (fileBelow node.id) (withoutNodes nodes gone) = 0 := by
        refine total_eq_zero fun other otherMember => if_neg fun both => ?_
        have parts := mem_withoutNodes.mp otherMember
        exact parts.2 (detachable.children other parts.1 node.id taken both.2)
      have bound := books.nonneg node member
      omega
    · have before := books.gone id fun node member same directory =>
        live ⟨node, member, same, directory⟩
      omega
  · intro id changed
    by_cases kept : id ∈ nodeIds (withoutNodes nodes gone)
    · exact .inr kept
    · have known : id ∈ nodeIds base ∨ id ∈ nodeIds nodes := by
        by_cases before : delta id = 0
        · have some : ∃ node ∈ removed, node.parentId = some id := by
            by_contra none
            refine changed ?_
            rw [before, total_eq_zero]
            · rfl
            · intro node member
              exact if_neg fun both => none ⟨node, member, both.2⟩
          rcases some with ⟨node, member, below⟩
          rcases tree.exists_parent ((inside node).mp member).1 below with
            ⟨parent, parentMember, same, _⟩
          exact .inr (mem_nodeIds.mpr ⟨parent, parentMember, same⟩)
        · exact books.touched id before
      rcases known with known | known
      · exact .inl known
      · rcases mem_nodeIds.mp known with ⟨node, member, rfl⟩
        by_cases taken : node.id ∈ gone
        · exact .inl (old node ((inside node).mpr ⟨member, taken⟩))
        · exact absurd (mem_nodeIds.mpr ⟨node, mem_withoutNodes.mpr ⟨member, taken⟩, rfl⟩) kept
  · intro node member
    exact books.stored node (mem_withoutNodes.mp member).1
  · intro node member
    exact books.unstored node (mem_withoutNodes.mp member).1

end NodeBooks

end Storix
