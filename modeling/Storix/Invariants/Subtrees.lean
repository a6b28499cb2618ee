import Storix.Invariants.Paths

/-! # Subtrees

The recursive queries return exactly the nodes below a node, each once, with its
path below that node. -/

namespace Storix

open Foundation JsString

/-! ## Relative paths as text -/

theorem split_dot : split dot = [dot] := by decide

theorem join_ne_dot {segments : List JsString} (nonempty : segments ≠ [])
    (plain : ∀ name ∈ segments, PlainName name) : join segments ≠ dot := by
  intro same
  have parts := split_join nonempty fun name member => (plain name member).noSlash
  rw [same, split_dot] at parts
  exact (plain dot (by simp [← parts])).notDot rfl

theorem relativeSegments_joinRelative {segments : List JsString}
    (plain : ∀ name ∈ segments, PlainName name) :
    relativeSegments (joinRelative segments) = segments := by
  unfold relativeSegments joinRelative
  by_cases empty : segments = []
  · simp [empty]
  · rw [if_neg empty, if_neg (join_ne_dot empty plain)]
    exact split_join empty fun name member => (plain name member).noSlash

theorem hasLoneSurrogate_joinRelative {segments : List JsString}
    (paired : ∀ name ∈ segments, hasLoneSurrogate name = false) :
    hasLoneSurrogate (joinRelative segments) = false := by
  unfold joinRelative
  split
  · decide
  · exact hasLoneSurrogate_join paired

theorem joinRelative_injective {left right : List JsString}
    (leftPlain : ∀ name ∈ left, PlainName name) (rightPlain : ∀ name ∈ right, PlainName name)
    (same : joinRelative left = joinRelative right) : left = right := by
  rw [← relativeSegments_joinRelative leftPlain, ← relativeSegments_joinRelative rightPlain, same]

theorem childRelativePath_joinRelative {segments : List JsString} (name : JsString)
    (plain : ∀ name ∈ segments, PlainName name) :
    childRelativePath (joinRelative segments) name = joinRelative (segments ++ [name]) := by
  unfold childRelativePath
  by_cases empty : segments = []
  · subst empty
    simp [joinRelative, join]
  · have text : joinRelative segments = join segments := if_neg empty
    rw [text, if_neg (join_ne_dot empty plain)]
    simp [joinRelative, join_append_singleton name empty]

/-! ## The rows below a node -/

variable {nodes : List VfsNode}

/-- Every path in the table passes `assertPathSegments`. -/
def AllValid (host : Host) (nodes : List VfsNode) : Prop :=
  ∀ id path, PathOf nodes id path → ValidPath host path

theorem AllValid.plain {host : Host} (valid : AllValid host nodes) {id : Uuid}
    {front back : List JsString} (reached : PathOf nodes id (front ++ back)) :
    ∀ name ∈ back, PlainName name :=
  fun name member => (valid id _ reached).plain name (List.mem_append_right _ member)

theorem mem_childRows {row child : TreeRow} :
    child ∈ childRows nodes row ↔
      child.node ∈ nodes ∧ child.node.parentId = some row.node.id ∧
        child.relativePath = childRelativePath row.relativePath child.node.name := by
  unfold childRows
  constructor
  · intro inside
    rcases List.mem_map.mp inside with ⟨node, selected, rfl⟩
    simpa using List.mem_filter.mp selected
  · rintro ⟨member, below, text⟩
    exact List.mem_map.mpr ⟨child.node, by simp [member, below], by rw [← text]⟩

theorem mem_generation_childRows {host : Host} (tree : Rooted nodes) (valid : AllValid host nodes)
    {source : VfsNode} (member : source ∈ nodes) {path : List JsString}
    (reached : PathOf nodes source.id path) {depth : Nat} {row : TreeRow} :
    row ∈ generation (childRows nodes) depth [⟨source, dot⟩] ↔
      row.node ∈ nodes ∧ ∃ segments, segments.length = depth ∧
        PathOf nodes row.node.id (path ++ segments) ∧
        row.relativePath = joinRelative segments := by
  induction depth generalizing row with
  | zero =>
      rw [generation, List.mem_singleton]
      constructor
      · rintro rfl
        exact ⟨member, [], rfl, by simpa using reached, rfl⟩
      · rintro ⟨rowMember, segments, length, rowReached, text⟩
        rw [List.length_eq_zero_iff] at length
        subst length
        rw [List.append_nil] at rowReached
        have same := tree.eq_of_id rowMember member (PathTo.injective tree rowReached reached)
        rcases row with ⟨node, relativePath⟩
        simp only at same text
        rw [same, text]
        rfl
  | succ depth induction =>
      rw [generation_succ, List.mem_flatMap]
      constructor
      · rintro ⟨above, inside, isChild⟩
        rcases mem_childRows.mp isChild with ⟨rowMember, below, text⟩
        rcases induction.mp inside with ⟨aboveMember, segments, length, aboveReached, aboveText⟩
        have rowReached := PathOf.child rowMember below aboveReached
        rw [List.append_assoc] at rowReached
        refine ⟨rowMember, segments ++ [row.node.name], by simp [length], rowReached, ?_⟩
        rw [text, aboveText]
        exact childRelativePath_joinRelative _ (valid.plain aboveReached)
      · rintro ⟨rowMember, segments, length, rowReached, text⟩
        rcases List.eq_nil_or_concat segments with rfl | ⟨front, name, rfl⟩
        · simp at length
        · rw [List.concat_eq_append] at *
          rw [← List.append_assoc] at rowReached
          rcases PathOf.exists_child rowReached with
            ⟨node, nodeMember, same, sameName, parentId, below, parentReached⟩
          have equal := tree.eq_of_id nodeMember rowMember same
          subst equal
          rcases PathOf.exists_node parentReached with ⟨parent, parentMember, rfl⟩
          refine ⟨⟨parent, joinRelative front⟩, induction.mpr ⟨parentMember, front, ?_,
            parentReached, rfl⟩, mem_childRows.mpr ⟨rowMember, below, ?_⟩⟩
          · simpa using length
          · rw [text, childRelativePath_joinRelative _ (valid.plain parentReached), sameName]

/-- The recursive query returns the nodes whose path begins with the source's. -/
theorem mem_subtreeRows {host : Host} (tree : Rooted nodes) (valid : AllValid host nodes)
    {source : VfsNode} (member : source ∈ nodes) {path : List JsString}
    (reached : PathOf nodes source.id path) {row : TreeRow} :
    row ∈ subtreeRows nodes source ↔
      row.node ∈ nodes ∧ ∃ segments, PathOf nodes row.node.id (path ++ segments) ∧
        row.relativePath = joinRelative segments := by
  unfold subtreeRows
  rw [mem_levels]
  constructor
  · rintro ⟨depth, _, inside⟩
    rcases (mem_generation_childRows tree valid member reached).mp inside with
      ⟨rowMember, segments, _, rest⟩
    exact ⟨rowMember, segments, rest⟩
  · rintro ⟨rowMember, segments, rowReached, text⟩
    refine ⟨segments.length, ?_, (mem_generation_childRows tree valid member reached).mpr
      ⟨rowMember, segments, rfl, rowReached, text⟩⟩
    have bound := PathOf.length_lt tree rowReached
    rw [List.length_append] at bound
    omega

theorem nodup_subtreeRows (tree : Rooted nodes) {source : VfsNode} (member : source ∈ nodes) :
    ((subtreeRows nodes source).map fun row => row.node.id).Nodup := by
  rcases tree.exists_path member with ⟨path, reached⟩
  have ranked : ∀ row ∈ [(⟨source, dot⟩ : TreeRow)],
      ∃ other, PathOf nodes row.node.id other ∧ other.length = path.length := by
    intro row inside
    rw [List.mem_singleton] at inside
    subst inside
    exact ⟨path, reached, rfl⟩
  unfold subtreeRows
  refine nodup_levels (fun id depth => ∃ path, PathOf nodes id path ∧ path.length = depth)
    ?_ ?_ ?_ ?_ ranked (by simp)
  · rintro id left right ⟨leftPath, leftReached, rfl⟩ ⟨rightPath, rightReached, rfl⟩
    rw [PathTo.unique tree leftReached rightReached]
  · rintro item depth ⟨itemPath, itemReached, rfl⟩ child isChild
    rcases mem_childRows.mp isChild with ⟨childMember, below, _⟩
    exact ⟨_, PathOf.child childMember below itemReached, by simp⟩
  · intro item
    unfold childRows
    rw [List.map_map]
    exact tree.ids_nodup.sublist (List.filter_sublist.map _)
  · intro left right leftChild isLeft rightChild isRight same
    rcases mem_childRows.mp isLeft with ⟨leftMember, leftBelow, _⟩
    rcases mem_childRows.mp isRight with ⟨rightMember, rightBelow, _⟩
    rw [tree.eq_of_id leftMember rightMember same, rightBelow] at leftBelow
    exact (Option.some.inj leftBelow).symm

theorem subtreeRows_eq_cons (nodes : List VfsNode) (source : VfsNode) :
    subtreeRows nodes source = ⟨source, dot⟩ :: descendantRows nodes source := by
  simp [subtreeRows, descendantRows, levels]

theorem mem_descendantRows {host : Host} (tree : Rooted nodes) (valid : AllValid host nodes)
    {source : VfsNode} (member : source ∈ nodes) {path : List JsString}
    (reached : PathOf nodes source.id path) {row : TreeRow} :
    row ∈ descendantRows nodes source ↔
      row.node ∈ nodes ∧ ∃ segments, segments ≠ [] ∧
        PathOf nodes row.node.id (path ++ segments) ∧
        row.relativePath = joinRelative segments := by
  have nodup := nodup_subtreeRows tree member
  rw [subtreeRows_eq_cons, List.map_cons, List.nodup_cons] at nodup
  have whole : row ∈ subtreeRows nodes source ↔
      row = ⟨source, dot⟩ ∨ row ∈ descendantRows nodes source := by
    rw [subtreeRows_eq_cons, List.mem_cons]
  constructor
  · intro inside
    rcases (mem_subtreeRows tree valid member reached).mp (whole.mpr (.inr inside)) with
      ⟨rowMember, segments, rowReached, text⟩
    refine ⟨rowMember, segments, ?_, rowReached, text⟩
    rintro rfl
    rw [List.append_nil] at rowReached
    have same := PathTo.injective tree rowReached reached
    exact nodup.1 (List.mem_map.mpr ⟨row, inside, same⟩)
  · rintro ⟨rowMember, segments, nonempty, rowReached, text⟩
    rcases whole.mp ((mem_subtreeRows tree valid member reached).mpr
      ⟨rowMember, segments, rowReached, text⟩) with rfl | inside
    · have same := PathTo.unique tree reached rowReached
      exact absurd (by simpa using same) nonempty
    · exact inside

theorem take_perm_of_length_lt {α : Type} (host : Host) {rows : List α} {limit : Nat}
    (whole : ((host.rowOrder rows).take limit).length < limit) :
    ((host.rowOrder rows).take limit).Perm rows := by
  have all : (host.rowOrder rows).take limit = host.rowOrder rows := by
    refine List.take_of_length_le ?_
    rw [List.length_take] at whole
    omega
  rw [all]
  exact host.rowOrder_perm rows

/-! ## Destination paths -/

theorem assertEach_eq_ok {host : Host} {rows : List PlacedRow}
    (result : assertEach host rows = .ok ()) : ∀ row ∈ rows, ValidPath host row.segments := by
  induction rows with
  | nil => simp
  | cons row rest induction =>
      unfold assertEach at result
      split at result
      · cases result
      · rename_i checked
        intro other inside
        rcases List.mem_cons.mp inside with rfl | inside
        · exact checked
        · exact induction result other inside

/-- After the check every node of the subtree has a valid path at the
destination. -/
theorem assertSubtreeDestinationPaths_valid {host : Host} (tree : Rooted nodes)
    {source : VfsNode} {path final : List JsString}
    (reached : PathOf nodes source.id path) {rows : List VfsNode}
    (covers : ∀ node ∈ nodes, ∀ segments, segments ≠ [] →
      PathOf nodes node.id (path ++ segments) → node ∈ rows)
    (result : assertSubtreeDestinationPaths host source.id final rows = .ok ())
    {id : Uuid} {segments : List JsString} (inside : PathOf nodes id (path ++ segments)) :
    ValidPath host (final ++ segments) := by
  unfold assertSubtreeDestinationPaths at result
  split at result
  · cases result
  · have placed : ∀ (segments : List JsString) (id : Uuid), PathOf nodes id (path ++ segments) →
        (⟨id, final ++ segments⟩ : PlacedRow) ∈ generation
          (fun parent : PlacedRow =>
            (rows.filter fun row => row.id ≠ source.id ∧ row.parentId = some parent.id).map
              fun row => ⟨row.id, parent.segments ++ [row.name]⟩)
          segments.length [⟨source.id, final⟩] := by
      intro segments
      induction segments using List.reverseRecOn with
      | nil =>
          intro id idReached
          rw [List.append_nil] at idReached ⊢
          rw [PathTo.injective tree idReached reached]
          simp [generation]
      | append_singleton front name induction =>
          intro id idReached
          have whole := idReached
          rw [← List.append_assoc] at idReached
          rcases PathOf.exists_child idReached with
            ⟨node, nodeMember, rfl, rfl, parentId, below, parentReached⟩
          have different : node.id ≠ source.id := by
            intro same
            have paths := PathTo.unique tree whole (same ▸ reached)
            simp at paths
          rw [List.length_append, List.length_singleton, generation_succ, List.mem_flatMap]
          refine ⟨_, induction parentId parentReached, List.mem_map.mpr ⟨node, ?_, by simp⟩⟩
          simp [covers node nodeMember _ (by simp) whole, different, below]
    refine assertEach_eq_ok result ⟨id, final ++ segments⟩ (mem_levels.mpr
      ⟨segments.length, ?_, placed segments id inside⟩)
    rcases PathTo.exists_chain_below tree inside with ⟨chain, length, nodup, middles⟩
    have included : chain ⊆ nodeIds rows := by
      intro member chained
      rcases middles member chained with ⟨middle, nonempty, _, memberReached⟩
      rcases PathOf.exists_node memberReached with ⟨node, nodeMember, rfl⟩
      exact mem_nodeIds_of_mem (covers node nodeMember middle nonempty memberReached)
    have bound := (List.subperm_of_subset nodup included).length_le
    rw [length, nodeIds, List.length_map] at bound
    omega

end Storix
