import Storix.Invariants.Layout
import Storix.Invariants.Capture

/-! # Marks and recorded states

How the marks of a transaction relate the rows at its start to the rows now. An
unmarked row is unchanged, marks are closed towards the root, and a mark fixes the
version that the node ends with. The states recorded for the change feed are those
of the start and cover every row that is marked or gone. -/

namespace Storix

open Foundation

/-! ## Drawn ids -/

/-- The id was drawn before the counter reached `issued`. -/
def Drawn (host : Host) (issued : Nat) (id : Uuid) : Prop :=
  ∃ draw < issued, id = host.randomUUID draw

theorem Drawn.mono {host : Host} {early late : Nat} (later : early ≤ late) {id : Uuid}
    (drawn : Drawn host early id) : Drawn host late id := by
  rcases drawn with ⟨draw, bound, same⟩
  exact ⟨draw, Nat.lt_of_lt_of_le bound later, same⟩

theorem not_drawn_next (host : Host) (issued : Nat) :
    ¬Drawn host issued (host.randomUUID issued) := by
  rintro ⟨draw, bound, same⟩
  have equal := host.randomUUID_injective same
  omega

theorem drawn_next (host : Host) (issued : Nat) :
    Drawn host (issued + 1) (host.randomUUID issued) :=
  ⟨issued, by omega, rfl⟩

structure Issued (host : Host) (db : Database) : Prop where
  nodes : ∀ id ∈ nodeIds db.nodes, Drawn host db.issued id
  sources : ∀ entry ∈ db.trashEntries, Drawn host db.issued entry.sourceNodeId
  blobs : ∀ id ∈ db.blobs.map Blob.id, Drawn host db.issued id
  trash : ∀ id ∈ db.trash.map TrashItem.id, Drawn host db.issued id
  snapshots : ∀ id ∈ db.snapshots.map Snapshot.id, Drawn host db.issued id

/-! ## Marks -/

inductive Origin (host : Host) (base : Database) (node : VfsNode) : Prop
  | changed (old : VfsNode) (member : old ∈ base.nodes) (id : old.id = node.id)
      (type : old.type = node.type) (version : node.version = old.version + 1)
  | created (fresh : ¬Drawn host base.issued node.id) (version : node.version = 1)
  | restored (entry : TrashEntry) (member : entry ∈ base.trashEntries)
      (id : entry.sourceNodeId = node.id) (type : entry.type = node.type)
      (version : node.version = entry.sourceRevision.version + 1)

theorem Origin.congr {host : Host} {base : Database} {node other : VfsNode}
    (origin : Origin host base node) (id : other.id = node.id) (type : other.type = node.type)
    (version : other.version = node.version) : Origin host base other := by
  cases origin with
  | changed old member sameId sameType next =>
      exact .changed old member (sameId.trans id.symm) (sameType.trans type.symm)
        (version.trans next)
  | created fresh first =>
      exact .created (id ▸ fresh) (version.trans first)
  | restored entry member sameId sameType next =>
      exact .restored entry member (sameId.trans id.symm) (sameType.trans type.symm)
        (version.trans next)

def markAll (mark : Uuid → Option Bool) (ids : List Uuid) (increment : Bool) :
    Uuid → Option Bool :=
  fun id => (mark id).or (if id ∈ ids then some increment else none)

section MarkAll

variable {mark : Uuid → Option Bool} {ids : List Uuid} {increment : Bool} {id : Uuid}

theorem markAll_of_marked {value : Bool} (marked : mark id = some value) :
    markAll mark ids increment id = some value := by
  simp [markAll, marked]

theorem markAll_of_not_mem (outside : id ∉ ids) : markAll mark ids increment id = mark id := by
  simp [markAll, outside]

theorem markAll_of_mem (unmarked : mark id = none) (inside : id ∈ ids) :
    markAll mark ids increment id = some increment := by
  simp [markAll, unmarked, inside]

theorem markAll_ne_none_iff :
    markAll mark ids increment id ≠ none ↔ mark id ≠ none ∨ id ∈ ids := by
  cases marked : mark id with
  | some value => simp [markAll, marked]
  | none => simp [markAll, marked]

theorem markAll_markAll (mark : Uuid → Option Bool) (first second : List Uuid)
    (increment : Bool) :
    markAll (markAll mark first increment) second increment =
      markAll mark (first ++ second) increment := by
  funext id
  unfold markAll
  by_cases inFirst : id ∈ first
  · cases mark id <;> simp [inFirst]
  · cases mark id <;> simp [inFirst]

theorem markAll_eq_none_iff :
    markAll mark ids increment id = none ↔ mark id = none ∧ id ∉ ids := by
  cases marked : mark id with
  | some value => simp [markAll, marked]
  | none => simp [markAll, marked]

end MarkAll

/-- What the marks of a transaction say. `scope` are the paths it may mark. -/
structure Marks (host : Host) (base : Database) (scope : List JsString → Prop)
    (nodes : List VfsNode) (mark : Uuid → Option Bool) (chained : List Uuid) : Prop where
  live : ∀ id, mark id ≠ none → id ∈ nodeIds nodes
  kept : ∀ node ∈ nodes, mark node.id = none →
    node ∈ base.nodes ∧ ∀ path, PathOf nodes node.id path → PathOf base.nodes node.id path
  above : ∀ node ∈ nodes, mark node.id ≠ none →
    ∀ parentId, node.parentId = some parentId → mark parentId ≠ none
  baseAbove : ∀ old ∈ base.nodes, mark old.id ≠ none ∨ old.id ∉ nodeIds nodes →
    ∀ parentId, old.parentId = some parentId → mark parentId ≠ none ∨ parentId ∉ nodeIds nodes
  raised : ∀ node ∈ nodes, mark node.id = some true →
    ∃ old ∈ base.nodes, old.id = node.id ∧ old.type = node.type ∧ old.version = node.version
  saved : ∀ node ∈ nodes, mark node.id = some false → Origin host base node
  allowed : ∀ id, mark id ≠ none → ∀ path, PathOf base.nodes id path → scope path
  chained : ∀ id ∈ chained, mark id ≠ none

namespace Marks

variable {host : Host} {base : Database} {scope : List JsString → Prop} {nodes : List VfsNode}
  {mark : Uuid → Option Bool} {chained : List Uuid}

theorem mono (marks : Marks host base scope nodes mark chained)
    {wider : List JsString → Prop} (widens : ∀ path, scope path → wider path) :
    Marks host base wider nodes mark chained :=
  { marks with
    allowed := fun id marked path reached => widens path (marks.allowed id marked path reached) }

theorem marked_of_prefix (marks : Marks host base scope nodes mark chained) (tree : Rooted nodes)
    {id above : Uuid} {front rest : List JsString} (reached : PathOf nodes id (front ++ rest))
    (aboveReached : PathOf nodes above front) (marked : mark id ≠ none) : mark above ≠ none := by
  induction rest using List.reverseRecOn generalizing id with
  | nil =>
      rw [List.append_nil] at reached
      rwa [← PathTo.injective tree reached aboveReached]
  | append_singleton rest name induction =>
      rw [← List.append_assoc] at reached
      rcases PathOf.exists_child reached with ⟨node, member, rfl, _, parentId, below, parentReached⟩
      exact induction parentReached (marks.above node member marked parentId below)

theorem ancestors (marks : Marks host base scope nodes mark chained) {ids : List Uuid}
    (live : ∀ id ∈ ids, id ∈ nodeIds nodes)
    (parents : ∀ node ∈ nodes, node.id ∈ ids → ∀ parentId, node.parentId = some parentId →
      parentId ∈ ids ∨ mark parentId ≠ none)
    (allowed : ∀ id ∈ ids, ∀ path, PathOf base.nodes id path → scope path)
    (baseTree : Rooted base.nodes) :
    Marks host base scope nodes (markAll mark ids true) (chained ++ ids) where
  live id marked := by
    rcases markAll_ne_none_iff.mp marked with marked | inside
    · exact marks.live id marked
    · exact live id inside
  kept node member unmarked := marks.kept node member (markAll_eq_none_iff.mp unmarked).1
  above node member marked parentId below := by
    rw [markAll_ne_none_iff]
    rcases markAll_ne_none_iff.mp marked with marked | inside
    · exact .inl (marks.above node member marked parentId below)
    · exact (parents node member inside parentId below).symm
  baseAbove old member changed parentId below := by
    rw [markAll_ne_none_iff]
    by_cases before : mark old.id ≠ none ∨ old.id ∉ nodeIds nodes
    · rcases marks.baseAbove old member before parentId below with marked | gone
      · exact .inl (.inl marked)
      · exact .inr gone
    · rw [not_or, not_not, not_not] at before
      rcases changed with marked | gone
      · rcases markAll_ne_none_iff.mp marked with marked | inside
        · exact absurd before.1 marked
        · rcases mem_nodeIds.mp before.2 with ⟨node, nodeMember, same⟩
          have kept := (marks.kept node nodeMember (same ▸ before.1)).1
          have equal : node = old := baseTree.eq_of_id kept member same
          subst equal
          exact .inl (parents node nodeMember inside parentId below).symm
      · exact absurd before.2 gone
  raised node member marked := by
    cases before : mark node.id with
    | none => exact ⟨node, (marks.kept node member before).1, rfl, rfl, rfl⟩
    | some value =>
        rw [markAll_of_marked before] at marked
        exact marks.raised node member (before.trans marked)
  saved node member marked := by
    cases before : mark node.id with
    | none =>
        rw [markAll, before, Option.none_or] at marked
        split at marked <;> cases marked
    | some value =>
        rw [markAll_of_marked before] at marked
        exact marks.saved node member (before.trans marked)
  allowed id marked path reached := by
    rcases markAll_ne_none_iff.mp marked with marked | inside
    · exact marks.allowed id marked path reached
    · exact allowed id inside path reached
  chained id member := by
    rw [markAll_ne_none_iff]
    rcases List.mem_append.mp member with member | member
    · exact .inl (marks.chained id member)
    · exact .inr member

theorem insert (marks : Marks host base scope nodes mark chained) {row : VfsNode}
    {parentId : Uuid} {front : List JsString}
    (insertable : Insertable host nodes row parentId front) (tree : Rooted nodes)
    (unused : row.id ∉ nodeIds base.nodes) (marked : mark parentId ≠ none)
    (origin : Origin host base row) :
    Marks host base scope (nodes ++ [row]) (markAll mark [row.id] false) chained := by
  have cases : ∀ node ∈ nodes ++ [row], node ∈ nodes ∨ node = row := by
    intro node member
    simpa using member
  have ids : ∀ id, id ∈ nodeIds (nodes ++ [row]) ↔ id ∈ nodeIds nodes ∨ id = row.id := by
    intro id
    simp [nodeIds]
  have apart : ∀ node ∈ nodes, node.id ≠ row.id := by
    intro node member same
    exact insertable.fresh (same ▸ mem_nodeIds_of_mem member)
  have old : ∀ node ∈ nodes, markAll mark [row.id] false node.id = mark node.id := by
    intro node member
    exact markAll_of_not_mem (by simpa using apart node member)
  have unmarked : mark row.id = none := by
    by_contra marked
    exact insertable.fresh (marks.live row.id marked)
  have new : markAll mark [row.id] false row.id = some false := markAll_of_mem unmarked (by simp)
  have weaken : ∀ id, mark id ≠ none → markAll mark [row.id] false id ≠ none := fun id marked =>
    markAll_ne_none_iff.mpr (.inl marked)
  refine { live := ?_, kept := ?_, above := ?_, baseAbove := ?_, raised := ?_, saved := ?_,
           allowed := ?_, chained := ?_ }
  · intro id marked
    rw [ids]
    rcases markAll_ne_none_iff.mp marked with marked | inside
    · exact .inl (marks.live id marked)
    · exact .inr (by simpa using inside)
  · intro node member clean
    rcases cases node member with member | rfl
    · rw [old node member] at clean
      rcases marks.kept node member clean with ⟨inBase, paths⟩
      refine ⟨inBase, fun path reached => paths path ?_⟩
      exact (pathOf_insert_iff tree insertable.fresh (apart node member)).mp reached
    · rw [new] at clean
      cases clean
  · intro node member nodeMarked id below
    rcases cases node member with member | rfl
    · rw [old node member] at nodeMarked
      exact weaken id (marks.above node member nodeMarked id below)
    · rw [insertable.below] at below
      cases below
      exact weaken _ marked
  · intro node member changed id below
    have different : node.id ≠ row.id := fun same => unused (same ▸ mem_nodeIds_of_mem member)
    have before : mark node.id ≠ none ∨ node.id ∉ nodeIds nodes := by
      rcases changed with changed | gone
      · rcases markAll_ne_none_iff.mp changed with changed | inside
        · exact .inl changed
        · exact absurd (by simpa using inside) different
      · exact .inr fun inside => gone ((ids _).mpr (.inl inside))
    rcases marks.baseAbove node member before id below with aboveMarked | gone
    · exact .inl (weaken id aboveMarked)
    · by_cases same : id = row.id
      · exact .inl (by simp [same, new])
      · refine .inr fun inside => ?_
        rcases (ids id).mp inside with inside | again
        · exact gone inside
        · exact same again
  · intro node member nodeMarked
    rcases cases node member with member | rfl
    · rw [old node member] at nodeMarked
      exact marks.raised node member nodeMarked
    · rw [new] at nodeMarked
      cases nodeMarked
  · intro node member nodeMarked
    rcases cases node member with member | rfl
    · rw [old node member] at nodeMarked
      exact marks.saved node member nodeMarked
    · exact origin
  · intro id idMarked path reached
    rcases markAll_ne_none_iff.mp idMarked with idMarked | inside
    · exact marks.allowed id idMarked path reached
    · rw [List.mem_singleton] at inside
      rcases PathOf.exists_node reached with ⟨node, member, same⟩
      exact absurd (mem_nodeIds.mpr ⟨node, member, same.trans inside⟩) unused
  · intro id inside
    exact weaken id (marks.chained id inside)

/-- A rewritten row. Its first mark says whether the version went up with the
rewrite or goes up at the end. -/
theorem rewrite (marks : Marks host base scope nodes mark chained) (tree : Rooted nodes)
    (baseTree : Rooted base.nodes) {old : VfsNode} (member : old ∈ nodes)
    {transform : VfsNode → VfsNode} (keeps : KeepsLinks nodes (rewriteRow old.id transform))
    (increment : Bool) (parentMarked : ∀ id, old.parentId = some id → mark id ≠ none)
    (first : mark old.id = none →
      (transform old).version = old.version + if increment then 0 else 1)
    (again : mark old.id ≠ none → (transform old).version = old.version)
    (allowed : ∀ path, PathOf base.nodes old.id path → scope path) :
    Marks host base scope (nodes.map (rewriteRow old.id transform))
      (markAll mark [old.id] increment) chained := by
  have image : ∀ node ∈ nodes.map (rewriteRow old.id transform),
      node ∈ nodes ∧ node.id ≠ old.id ∨ node = transform old ∧ node.id = old.id ∧
        node.type = old.type ∧ node.parentId = old.parentId := by
    intro node inside
    rcases List.mem_map.mp inside with ⟨before, beforeMember, rfl⟩
    by_cases same : before.id = old.id
    · have equal := tree.eq_of_id beforeMember member same
      subst equal
      exact .inr ⟨if_pos rfl, keeps.id_eq beforeMember, keeps.type_eq beforeMember,
        keeps.parentId_eq beforeMember⟩
    · rw [rewriteRow, if_neg same]
      exact .inl ⟨beforeMember, same⟩
  have other : ∀ id, id ≠ old.id → markAll mark [old.id] increment id = mark id := by
    intro id different
    exact markAll_of_not_mem (by simpa using different)
  have self : markAll mark [old.id] increment old.id = (mark old.id).or (some increment) := by
    simp [markAll]
  have weaken : ∀ id, mark id ≠ none → markAll mark [old.id] increment id ≠ none :=
    fun id marked => markAll_ne_none_iff.mpr (.inl marked)
  have inBase : mark old.id = none → old ∈ base.nodes :=
    fun clean => (marks.kept old member clean).1
  refine { live := ?_, kept := ?_, above := ?_, baseAbove := ?_, raised := ?_, saved := ?_,
           allowed := ?_, chained := ?_ }
  · intro id marked
    rw [keeps.nodeIds_eq]
    rcases markAll_ne_none_iff.mp marked with marked | inside
    · exact marks.live id marked
    · rw [List.mem_singleton] at inside
      exact inside ▸ mem_nodeIds_of_mem member
  · intro node inside clean
    rcases image node inside with ⟨nodeMember, different⟩ | ⟨_, same, _⟩
    · rw [other node.id different] at clean
      rcases marks.kept node nodeMember clean with ⟨nodeInBase, paths⟩
      exact ⟨nodeInBase, fun path reached => paths path (keeps.pathOf_iff.mp reached)⟩
    · rw [same, self] at clean
      cases before : mark old.id <;> simp [before] at clean
  · intro node inside marked id below
    rcases image node inside with ⟨nodeMember, different⟩ | ⟨_, _, _, sameParent⟩
    · rw [other node.id different] at marked
      exact weaken id (marks.above node nodeMember marked id below)
    · exact weaken id (parentMarked id (sameParent ▸ below))
  · intro node nodeMember changed id below
    rw [keeps.nodeIds_eq] at changed ⊢
    by_cases before : mark node.id ≠ none ∨ node.id ∉ nodeIds nodes
    · rcases marks.baseAbove node nodeMember before id below with aboveMarked | gone
      · exact .inl (weaken id aboveMarked)
      · exact .inr gone
    · rw [not_or, not_not, not_not] at before
      rcases changed with marked | gone
      · rcases markAll_ne_none_iff.mp marked with marked | inside
        · exact absurd before.1 marked
        · rw [List.mem_singleton] at inside
          have equal := baseTree.eq_of_id nodeMember (inBase (inside ▸ before.1)) inside
          subst equal
          exact .inl (weaken id (parentMarked id below))
      · exact absurd before.2 gone
  · intro node inside marked
    rcases image node inside with ⟨nodeMember, different⟩ | ⟨rfl, same, sameType, _⟩
    · rw [other node.id different] at marked
      exact marks.raised node nodeMember marked
    · rw [same, self] at marked
      cases before : mark old.id with
      | none =>
          rw [before, Option.none_or] at marked
          cases marked
          exact ⟨old, inBase before, same.symm, sameType.symm, by rw [first before]; simp⟩
      | some value =>
          rw [before] at marked
          rcases marks.raised old member (before.trans marked) with
            ⟨oldest, oldestMember, oldestId, oldestType, oldestVersion⟩
          exact ⟨oldest, oldestMember, oldestId.trans same.symm, oldestType.trans sameType.symm,
            by rw [again (by simp [before]), oldestVersion]⟩
  · intro node inside marked
    rcases image node inside with ⟨nodeMember, different⟩ | ⟨rfl, same, sameType, _⟩
    · rw [other node.id different] at marked
      exact marks.saved node nodeMember marked
    · rw [same, self] at marked
      cases before : mark old.id with
      | none =>
          rw [before, Option.none_or] at marked
          cases marked
          exact .changed old (inBase before) same.symm sameType.symm
            (by rw [first before]; simp)
      | some value =>
          rw [before] at marked
          exact (marks.saved old member (before.trans marked)).congr same sameType
            (again (by simp [before]))
  · intro id marked path reached
    rcases markAll_ne_none_iff.mp marked with marked | inside
    · exact marks.allowed id marked path reached
    · rw [List.mem_singleton] at inside
      exact allowed path (inside ▸ reached)
  · intro id inside
    exact weaken id (marks.chained id inside)

theorem remove (marks : Marks host base scope nodes mark chained)
    (baseTree : Rooted base.nodes) {gone : List Uuid} (unmarked : ∀ id ∈ gone, mark id = none)
    (parents : ∀ node ∈ nodes, node.id ∈ gone → ∀ parentId, node.parentId = some parentId →
      parentId ∈ gone ∨ mark parentId ≠ none) :
    Marks host base scope (withoutNodes nodes gone) mark chained where
  live id marked := by
    rcases mem_nodeIds.mp (marks.live id marked) with ⟨node, member, same⟩
    refine mem_nodeIds.mpr ⟨node, mem_withoutNodes.mpr ⟨member, fun inside => ?_⟩, same⟩
    exact marked (unmarked id (same ▸ inside))
  kept node inside clean := by
    rcases marks.kept node (mem_withoutNodes.mp inside).1 clean with ⟨inBase, paths⟩
    exact ⟨inBase, fun path reached => paths path (pathOf_withoutNodes reached)⟩
  above node inside := marks.above node (mem_withoutNodes.mp inside).1
  baseAbove old member changed parentId below := by
    have goneNow : ∀ id, id ∉ nodeIds nodes ∨ id ∈ gone →
        id ∉ nodeIds (withoutNodes nodes gone) := by
      rintro id missing inside
      rcases mem_nodeIds.mp inside with ⟨node, nodeInside, rfl⟩
      rcases mem_withoutNodes.mp nodeInside with ⟨nodeMember, kept⟩
      rcases missing with missing | taken
      · exact missing (mem_nodeIds_of_mem nodeMember)
      · exact kept taken
    by_cases before : mark old.id ≠ none ∨ old.id ∉ nodeIds nodes
    · rcases marks.baseAbove old member before parentId below with marked | missing
      · exact .inl marked
      · exact .inr (goneNow parentId (.inl missing))
    · rw [not_or, not_not, not_not] at before
      rcases changed with marked | missing
      · exact absurd before.1 marked
      · rcases mem_nodeIds.mp before.2 with ⟨node, nodeMember, same⟩
        have equal := baseTree.eq_of_id (marks.kept node nodeMember (same ▸ before.1)).1 member same
        subst equal
        have taken : node.id ∈ gone := by
          by_contra kept
          exact missing (mem_nodeIds_of_mem (mem_withoutNodes.mpr ⟨nodeMember, kept⟩))
        rcases parents node nodeMember taken parentId below with inside | marked
        · exact .inr (goneNow parentId (.inr inside))
        · exact .inl marked
  raised node inside := marks.raised node (mem_withoutNodes.mp inside).1
  saved node inside := marks.saved node (mem_withoutNodes.mp inside).1
  allowed := marks.allowed
  chained := marks.chained

/-- A moved subtree: its top is saved and everything below it goes up at the end. -/
theorem move (marks : Marks host base scope nodes mark chained) (tree : Rooted nodes)
    (baseTree : Rooted base.nodes) {moved saved : VfsNode} {source front : List JsString}
    {parentId : Uuid} (movable : Movable host nodes moved saved source parentId front)
    (unmarked : mark moved.id = none) (version : saved.version = moved.version + 1)
    (marked : mark parentId ≠ none)
    (oldMarked : ∀ id, moved.parentId = some id → mark id ≠ none) {below : List Uuid}
    (whole : ∀ id, id ∈ below ↔ ∃ rest, rest ≠ [] ∧ PathOf nodes id (source ++ rest))
    (allowed : ∀ rest, scope (source ++ rest)) :
    Marks host base scope (movedNodes nodes saved)
      (markAll (markAll mark [moved.id] false) below true) chained := by
  have inside : ∀ id rest, PathOf nodes id (source ++ rest) → mark id = none := by
    intro id rest reached
    by_contra idMarked
    exact marks.marked_of_prefix tree reached movable.start idMarked unmarked
  have self : markAll (markAll mark [moved.id] false) below true moved.id = some false :=
    markAll_of_marked (markAll_of_mem unmarked (by simp))
  have apart : ∀ id ∈ below, id ≠ moved.id := by
    rintro id belowInside rfl
    rcases (whole _).mp belowInside with ⟨rest, nonempty, reached⟩
    have same := PathTo.unique tree reached movable.start
    simp only [List.append_right_eq_self] at same
    exact nonempty same
  have weaken : ∀ id, mark id ≠ none →
      markAll (markAll mark [moved.id] false) below true id ≠ none := fun id idMarked =>
    markAll_ne_none_iff.mpr (.inl (markAll_ne_none_iff.mpr (.inl idMarked)))
  have cases : ∀ id, markAll (markAll mark [moved.id] false) below true id ≠ none →
      mark id ≠ none ∨ id = moved.id ∨ id ∈ below := by
    intro id idMarked
    rcases markAll_ne_none_iff.mp idMarked with idMarked | belowInside
    · rcases markAll_ne_none_iff.mp idMarked with idMarked | same
      · exact .inl idMarked
      · exact .inr (.inl (by simpa using same))
    · exact .inr (.inr belowInside)
  have belowMark : ∀ id ∈ below,
      markAll (markAll mark [moved.id] false) below true id = some true := by
    intro id belowInside
    rcases (whole id).mp belowInside with ⟨rest, _, reached⟩
    refine markAll_of_mem ?_ belowInside
    rw [markAll_of_not_mem (by simpa using apart id belowInside)]
    exact inside id rest reached
  have parentIn : ∀ id ∈ below, ∀ node ∈ nodes, node.id = id → ∀ parent,
      node.parentId = some parent → parent = moved.id ∨ parent ∈ below := by
    rintro id belowInside node member rfl parent isBelow
    rcases (whole _).mp belowInside with ⟨rest, nonempty, reached⟩
    rcases List.eq_nil_or_concat rest with rfl | ⟨start, name, rfl⟩
    · exact absurd rfl nonempty
    · rw [List.concat_eq_append, ← List.append_assoc] at reached
      rcases PathOf.above tree member reached isBelow with ⟨front, parentReached, split⟩
      have same := (List.append_inj' split rfl).1
      rw [← same] at parentReached
      cases start with
      | nil =>
          rw [List.append_nil] at parentReached
          exact .inl (PathTo.injective tree parentReached movable.start)
      | cons first start => exact .inr ((whole parent).mpr ⟨first :: start, by simp, parentReached⟩)
  have markedIn : ∀ parent, parent = moved.id ∨ parent ∈ below →
      markAll (markAll mark [moved.id] false) below true parent ≠ none := by
    rintro parent (rfl | belowInside)
    · rw [self]
      simp
    · rw [belowMark parent belowInside]
      simp
  have movedInBase := (marks.kept moved movable.member unmarked).1
  refine { live := ?_, kept := ?_, above := ?_, baseAbove := ?_, raised := ?_, saved := ?_,
           allowed := ?_, chained := ?_ }
  · intro id idMarked
    rw [nodeIds_movedNodes]
    rcases cases id idMarked with idMarked | rfl | belowInside
    · exact marks.live id idMarked
    · exact mem_nodeIds_of_mem movable.member
    · rcases (whole id).mp belowInside with ⟨_, _, reached⟩
      exact mem_nodeIds.mpr (PathOf.exists_node reached)
  · intro node nodeInside clean
    rcases markAll_eq_none_iff.mp clean with ⟨clean, notBelow⟩
    rcases markAll_eq_none_iff.mp clean with ⟨clean, notMoved⟩
    rcases mem_movedNodes nodeInside with ⟨member, _⟩ | rfl
    · rcases marks.kept node member clean with ⟨inBase, paths⟩
      refine ⟨inBase, fun path reached => paths path ?_⟩
      rcases tree.exists_path member with ⟨oldPath, oldReached⟩
      have outside : ¬source <+: oldPath := by
        rintro ⟨rest, rfl⟩
        by_cases empty : rest = []
        · subst empty
          rw [List.append_nil] at oldReached
          exact notMoved (by simp [PathTo.injective tree oldReached movable.start])
        · exact notBelow ((whole node.id).mpr ⟨rest, empty, oldReached⟩)
      have next := movable.pathOf_outside tree outside oldReached
      rw [PathTo.unique (movable.tree tree) reached next]
      exact oldReached
    · exact absurd (by simp [movable.id]) notMoved
  · intro node nodeInside nodeMarked id isBelow
    rcases mem_movedNodes nodeInside with ⟨member, different⟩ | rfl
    · rcases cases node.id nodeMarked with nodeMarked | same | belowInside
      · exact weaken id (marks.above node member nodeMarked id isBelow)
      · exact absurd (same.trans movable.id.symm) different
      · exact markedIn id (parentIn node.id belowInside node member rfl id isBelow)
    · rw [movable.parentId] at isBelow
      cases isBelow
      exact weaken _ marked
  · intro old member changed id isBelow
    rw [nodeIds_movedNodes] at changed ⊢
    by_cases before : mark old.id ≠ none ∨ old.id ∉ nodeIds nodes
    · rcases marks.baseAbove old member before id isBelow with aboveMarked | gone
      · exact .inl (weaken id aboveMarked)
      · exact .inr gone
    · rw [not_or, not_not, not_not] at before
      rcases mem_nodeIds.mp before.2 with ⟨node, nodeMember, same⟩
      have equal := baseTree.eq_of_id (marks.kept node nodeMember (same ▸ before.1)).1 member same
      subst equal
      rcases changed with nodeMarked | gone
      · rcases cases node.id nodeMarked with nodeMarked | sameMoved | belowInside
        · exact absurd before.1 nodeMarked
        · have equal := tree.eq_of_id nodeMember movable.member sameMoved
          subst equal
          exact .inl (weaken id (oldMarked id isBelow))
        · exact .inl (markedIn id (parentIn node.id belowInside node nodeMember rfl id isBelow))
      · exact absurd before.2 gone
  · intro node nodeInside nodeMarked
    rcases mem_movedNodes nodeInside with ⟨member, different⟩ | rfl
    · rcases cases node.id (by simp [nodeMarked]) with before | same | belowInside
      · cases value : mark node.id with
        | none => exact absurd value before
        | some other =>
            rw [markAll_of_marked (markAll_of_marked value)] at nodeMarked
            exact marks.raised node member (value.trans nodeMarked)
      · exact absurd (same.trans movable.id.symm) different
      · rcases (whole node.id).mp belowInside with ⟨rest, _, reached⟩
        exact ⟨node, (marks.kept node member (inside node.id rest reached)).1, rfl, rfl, rfl⟩
    · rw [movable.id, self] at nodeMarked
      cases nodeMarked
  · intro node nodeInside nodeMarked
    rcases mem_movedNodes nodeInside with ⟨member, different⟩ | rfl
    · rcases cases node.id (by simp [nodeMarked]) with before | same | belowInside
      · cases value : mark node.id with
        | none => exact absurd value before
        | some other =>
            rw [markAll_of_marked (markAll_of_marked value)] at nodeMarked
            exact marks.saved node member (value.trans nodeMarked)
      · exact absurd (same.trans movable.id.symm) different
      · rw [belowMark node.id belowInside] at nodeMarked
        cases nodeMarked
    · exact .changed moved movedInBase movable.id.symm movable.type.symm version
  · intro id idMarked path reached
    have fromInside : ∀ rest, PathOf nodes id (source ++ rest) → scope path := by
      intro rest idReached
      rcases PathOf.exists_node idReached with ⟨node, member, rfl⟩
      have kept := (marks.kept node member (inside node.id rest idReached)).2 _ idReached
      rw [PathTo.unique baseTree reached kept]
      exact allowed rest
    rcases cases id idMarked with idMarked | rfl | belowInside
    · exact marks.allowed id idMarked path reached
    · exact fromInside [] (by rw [List.append_nil]; exact movable.start)
    · rcases (whole id).mp belowInside with ⟨rest, _, idReached⟩
      exact fromInside rest idReached
  · intro id chainedInside
    exact weaken id (marks.chained id chainedInside)

end Marks

/-! ## Recorded states -/

structure Tracked (base nodes : List VfsNode) (mark : Uuid → Option Bool)
    (feedBefore : Option NodeStates) : Prop where
  states : ∀ before, feedBefore = some before → ∀ id state, before.get id = some state →
    ShowsNode base id state
  covers : ∀ before, feedBefore = some before → ∀ old ∈ base,
    mark old.id ≠ none ∨ old.id ∉ nodeIds nodes → before.get old.id ≠ none

def Seen (mark : Uuid → Option Bool) (feedBefore : Option NodeStates) (id : Uuid) : Prop :=
  mark id ≠ none ∨ ∀ before, feedBefore = some before → before.get id ≠ none

namespace Tracked

variable {base nodes : List VfsNode} {mark : Uuid → Option Bool}
  {feedBefore : Option NodeStates}

theorem change (tracked : Tracked base nodes mark feedBefore) {nodes' : List VfsNode}
    {mark' : Uuid → Option Bool}
    (seen : ∀ old ∈ base, mark' old.id ≠ none ∨ old.id ∉ nodeIds nodes' →
      (mark old.id ≠ none ∨ old.id ∉ nodeIds nodes) ∨ Seen mark feedBefore old.id) :
    Tracked base nodes' mark' feedBefore where
  states := tracked.states
  covers before isSome old member changed := by
    rcases seen old member changed with already | marked | recorded
    · exact tracked.covers before isSome old member already
    · exact tracked.covers before isSome old member (.inl marked)
    · exact recorded before isSome

end Tracked

end Storix
