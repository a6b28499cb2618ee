import Storix.Invariants.Subtrees

/-! # Captured node states

What the queries behind the change feed return: the rows of the ids asked for,
each with its path. -/

namespace Storix

open Foundation

/-! ## Chunks -/

theorem chunked_flatten {α : Type} {size : Nat} (positive : 0 < size) (items : List α) :
    (chunked size items).flatten = items := by
  have front : ∀ count, ((List.range count).map fun index =>
      (items.drop (index * size)).take size).flatten = items.take (count * size) := by
    intro count
    induction count with
    | zero => simp
    | succ count induction =>
        rw [List.range_succ, List.map_append, List.flatten_append, induction, Nat.succ_mul,
          List.take_add]
        simp
  unfold chunked
  rw [front]
  refine List.take_of_length_le ?_
  have whole := Nat.div_add_mod (items.length + size - 1) size
  have small := Nat.mod_lt (items.length + size - 1) positive
  rw [Nat.mul_comm] at whole
  omega

theorem mem_of_mem_chunk {α : Type} {size : Nat} {items chunk : List α} {item : α}
    (isChunk : chunk ∈ chunked size items) (member : item ∈ chunk) : item ∈ items := by
  unfold chunked at isChunk
  rcases List.mem_map.mp isChunk with ⟨index, _, rfl⟩
  exact List.mem_of_mem_drop (List.mem_of_mem_take member)

theorem exists_chunk {α : Type} {size : Nat} (positive : 0 < size) {items : List α} {item : α}
    (member : item ∈ items) : ∃ chunk ∈ chunked size items, item ∈ chunk := by
  rw [← chunked_flatten positive items] at member
  exact List.mem_flatten.mp member

/-! ## Rows by id -/

variable {host : Host} {nodes : List VfsNode}

theorem mem_findNodesIn {ids : List Uuid} {node : VfsNode} :
    node ∈ findNodesIn host nodes ids ↔ node ∈ nodes ∧ node.id ∈ ids := by
  unfold findNodesIn
  rw [List.mem_flatMap]
  constructor
  · rintro ⟨chunk, isChunk, inside⟩
    have parts := List.mem_filter.mp (host.mem_rowOrder.mp inside)
    exact ⟨parts.1, mem_of_mem_chunk isChunk (by simpa using parts.2)⟩
  · rintro ⟨member, asked⟩
    rcases exists_chunk (by decide : 0 < 250) asked with ⟨chunk, isChunk, inChunk⟩
    refine ⟨chunk, isChunk, host.mem_rowOrder.mpr (List.mem_filter.mpr ⟨member, ?_⟩)⟩
    simpa using inChunk

/-! ## States -/

def ShowsNode (nodes : List VfsNode) (id : Uuid) (state : ChangeFeedNodeState) : Prop :=
  state.node ∈ nodes ∧ state.node.id = id ∧ PathOf nodes id state.segments

theorem ShowsNode.unique (tree : Rooted nodes) {id : Uuid} {left right : ChangeFeedNodeState}
    (leftShows : ShowsNode nodes id left) (rightShows : ShowsNode nodes id right) :
    left = right := by
  rcases left with ⟨leftNode, leftSegments⟩
  rcases right with ⟨rightNode, rightSegments⟩
  rcases leftShows with ⟨leftMember, leftId, leftReached⟩
  rcases rightShows with ⟨rightMember, rightId, rightReached⟩
  have nodesEqual : leftNode = rightNode :=
    tree.eq_of_id leftMember rightMember (leftId.trans rightId.symm)
  have pathsEqual : leftSegments = rightSegments := PathTo.unique tree leftReached rightReached
  rw [nodesEqual, pathsEqual]

private theorem captureRows_eq_ok (tree : Rooted nodes)
    (known : OrderedMap Uuid ChangeFeedNodeState) {rows : List VfsNode}
    (included : ∀ row ∈ rows, row ∈ nodes)
    (consistent : ∀ row ∈ rows, ∀ path, PathOf nodes row.id path → KnownPaths nodes known path)
    (result : OrderedMap Uuid ChangeFeedNodeState) :
    ∃ captured, captureRows nodes known rows result = .ok captured ∧
      ∀ id state, captured.get id = some state ↔
        (id ∈ nodeIds rows ∧ ShowsNode nodes id state) ∨
          (id ∉ nodeIds rows ∧ result.get id = some state) := by
  induction rows generalizing result with
  | nil => exact ⟨result, rfl, by simp [nodeIds]⟩
  | cons row rest induction =>
      have member := included row (by simp)
      rcases tree.exists_path member with ⟨path, reached⟩
      have resolved := resolveSegments_eq_ok tree member reached
        (consistent row (by simp) path reached)
        (Nat.lt_succ_of_lt (PathOf.length_lt tree reached))
      rcases induction (fun other inside => included other (List.mem_cons_of_mem _ inside))
        (fun other inside => consistent other (List.mem_cons_of_mem _ inside))
        (result.set row.id ⟨row, path⟩) with ⟨captured, run, found⟩
      refine ⟨captured, ?_, ?_⟩
      · unfold captureRows
        simp only [resolved, run]
      · have shows : ShowsNode nodes row.id ⟨row, path⟩ := ⟨member, rfl, reached⟩
        intro id state
        rw [found, OrderedMap.get_set]
        by_cases same : id = row.id
        · subst same
          rw [if_pos rfl]
          constructor
          · rintro (⟨_, showsState⟩ | ⟨_, equal⟩)
            · exact .inl ⟨by simp [nodeIds], showsState⟩
            · exact .inl ⟨by simp [nodeIds], Option.some.inj equal ▸ shows⟩
          · rintro (⟨_, showsState⟩ | ⟨absent, _⟩)
            · by_cases again : row.id ∈ nodeIds rest
              · exact .inl ⟨again, showsState⟩
              · exact .inr ⟨again, congrArg some (shows.unique tree showsState)⟩
            · exact absurd (by simp [nodeIds]) absent
        · rw [if_neg same]
          have head : id ∈ nodeIds (row :: rest) ↔ id ∈ nodeIds rest := by
            simp [nodeIds, same]
          rw [head]

theorem captureChangeFeedNodes_eq_ok (host : Host) (tree : Rooted nodes) (ids : List Uuid)
    (known : OrderedMap Uuid ChangeFeedNodeState)
    (consistent : ∀ node ∈ nodes, node.id ∈ ids → ∀ path, PathOf nodes node.id path →
      KnownPaths nodes known path) :
    ∃ captured, captureChangeFeedNodes host nodes ids known = .ok captured ∧
      ∀ id state, captured.get id = some state ↔ id ∈ ids ∧ ShowsNode nodes id state := by
  have included : ∀ row ∈ findNodesIn host nodes ids, row ∈ nodes ∧ row.id ∈ ids :=
    fun row inside => mem_findNodesIn.mp inside
  rcases captureRows_eq_ok tree known (fun row inside => (included row inside).1)
    (fun row inside => consistent row (included row inside).1 (included row inside).2)
    OrderedMap.empty with ⟨captured, run, found⟩
  refine ⟨captured, run, fun id state => ?_⟩
  rw [found]
  constructor
  · rintro (⟨inside, shows⟩ | ⟨_, impossible⟩)
    · rcases mem_nodeIds.mp inside with ⟨row, rowInside, rfl⟩
      exact ⟨(mem_findNodesIn.mp rowInside).2, shows⟩
    · simp at impossible
  · rintro ⟨asked, shows⟩
    refine .inl ⟨mem_nodeIds.mpr ⟨state.node, mem_findNodesIn.mpr ⟨shows.1, ?_⟩, shows.2.1⟩, shows⟩
    rw [shows.2.1]
    exact asked

theorem knownPaths_empty (path : List JsString) : KnownPaths nodes OrderedMap.empty path := by
  intro id state front found
  simp at found

theorem captureChangeFeedNodes_empty_eq_ok (host : Host) (tree : Rooted nodes)
    (ids : List Uuid) :
    ∃ captured, captureChangeFeedNodes host nodes ids .empty = .ok captured ∧
      ∀ id state, captured.get id = some state ↔ id ∈ ids ∧ ShowsNode nodes id state :=
  captureChangeFeedNodes_eq_ok host tree ids .empty fun _ _ _ path _ => knownPaths_empty path

end Storix
