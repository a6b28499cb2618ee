import Storix.Results.Tables
import Storix.Invariants.Transitions

/-! # Revisions

A version goes up by one with every transaction that changes the node or anything below
it, and never comes back: not through the trash, and not through another node at the
same path. -/

namespace Storix

open Foundation Foundation.Command

variable {host : Host} {db next : Database}

/-! ## Nodes that a transaction leaves alone -/

structure Steady (db next : Database) (id : Uuid) : Prop where
  node : ∃ old ∈ db.nodes, ∃ new ∈ next.nodes, old.id = id ∧ toRecord old = toRecord new ∧
    old.parentId = new.parentId
  path : ∀ path, PathOf db.nodes id path ↔ PathOf next.nodes id path
  children : ∀ record, (∃ row ∈ db.nodes, row.parentId = some id ∧ toRecord row = record) ↔
    ∃ row ∈ next.nodes, row.parentId = some id ∧ toRecord row = record

theorem Steady.refl {id : Uuid} (live : id ∈ nodeIds db.nodes) : Steady db db id := by
  rcases mem_nodeIds.mp live with ⟨node, member, isId⟩
  exact ⟨⟨node, member, node, member, isId, rfl, rfl⟩, fun _ => Iff.rfl, fun _ => Iff.rfl⟩

theorem Steady.trans {middle : Database} {id : Uuid} (tree : Rooted middle.nodes)
    (first : Steady db middle id) (second : Steady middle next id) : Steady db next id := by
  refine ⟨?_, fun path => (first.path path).trans (second.path path),
    fun record => (first.children record).trans (second.children record)⟩
  rcases first.node with ⟨old, oldMember, row, rowMember, isId, record, parent⟩
  rcases second.node with ⟨other, otherMember, new, newMember, otherId, nextRecord, nextParent⟩
  have rowId : row.id = id := (congrArg VfsNodeRecord.id record).symm.trans isId
  have same : row = other := tree.eq_of_id rowMember otherMember (rowId.trans otherId.symm)
  rw [same] at record parent
  exact ⟨old, oldMember, new, newMember, isId, record.trans nextRecord, parent.trans nextParent⟩

section Unchanged

variable {scope : List JsString → Prop} {changed : Uuid → Prop}

theorem Transition.record (transition : Transition host scope changed db next)
    (consistent : Consistent host db) {id : Uuid} (isOld : id ∈ nodeIds db.nodes)
    (isNew : id ∈ nodeIds next.nodes) (unchanged : ¬changed id) :
    ∃ old ∈ db.nodes, ∃ new ∈ next.nodes, old.id = id ∧ toRecord old = toRecord new ∧
      old.parentId = new.parentId := by
  rcases mem_nodeIds.mp isOld with ⟨old, oldMember, rfl⟩
  rcases mem_nodeIds.mp isNew with ⟨new, newMember, same⟩
  have facts := (transition.version consistent oldMember newMember same.symm).2 (same ▸ unchanged)
  exact ⟨old, oldMember, new, newMember, rfl, facts.1, facts.2⟩

theorem Transition.path (transition : Transition host scope changed db next)
    (oldTree : Rooted db.nodes) (tree : Rooted next.nodes) {id : Uuid}
    (isNew : id ∈ nodeIds next.nodes) (unchanged : ¬changed id) (path : List JsString) :
    PathOf db.nodes id path ↔ PathOf next.nodes id path := by
  rcases mem_nodeIds.mp isNew with ⟨node, member, rfl⟩
  rcases transition.kept node member unchanged with ⟨_, _, _, _, samePath⟩
  rcases tree.exists_path member with ⟨found, reached⟩
  constructor
  · intro old
    rwa [PathTo.unique oldTree old (samePath found reached)]
  · exact samePath path

theorem Transition.steady (transition : Transition host scope changed db next)
    (consistent : Consistent host db) (nextConsistent : Consistent host next) {id : Uuid}
    (isOld : id ∈ nodeIds db.nodes) (isNew : id ∈ nodeIds next.nodes) (unchanged : ¬changed id) :
    Steady db next id := by
  have oldTree := consistent.tree
  have tree := nextConsistent.tree
  have samePath := transition.path oldTree tree isNew unchanged
  refine ⟨transition.record consistent isOld isNew unchanged, samePath, fun record => ?_⟩
  rcases mem_nodeIds.mp isNew with ⟨node, member, rfl⟩
  rcases tree.exists_path member with ⟨path, reached⟩
  have oldReached := (samePath path).mpr reached
  constructor
  · rintro ⟨row, rowMember, below, rfl⟩
    rcases transition.unchanged_below oldTree isNew unchanged oldReached
      (PathOf.child rowMember below oldReached) with ⟨still, live⟩
    rcases transition.record consistent (mem_nodeIds_of_mem rowMember) live still with
      ⟨old, oldMember, new, newMember, isId, sameRecord, sameParent⟩
    have isRow : old = row := oldTree.eq_of_id oldMember rowMember isId
    rw [isRow] at sameRecord sameParent
    exact ⟨new, newMember, sameParent.symm.trans below, sameRecord.symm⟩
  · rintro ⟨row, rowMember, below, rfl⟩
    have still := transition.unchanged_below_new tree unchanged reached
      (PathOf.child rowMember below reached)
    rcases transition.kept row rowMember still with ⟨old, oldMember, sameRecord, sameParent, _⟩
    exact ⟨old, oldMember, sameParent.trans below, sameRecord⟩

end Unchanged

/-! ## What counts as a change -/

/-- What a revision of a node stands for. -/
structure NodeFace where
  parentId : Option Uuid
  name : JsString
  path : JsString
  blobId : Option Uuid
  size : Option Nat
  mimeType : Option JsString
  expiresAt : Option Nat
  deriving DecidableEq

def ChangeFeedNodeState.face (state : ChangeFeedNodeState) : NodeFace where
  parentId := state.node.parentId
  name := state.node.name
  path := state.path
  blobId := state.node.blobId
  size := state.node.size
  mimeType := state.node.mimeType
  expiresAt := state.node.expiresAt

def faceAt (nodes : List VfsNode) (id : Uuid) : Option NodeFace :=
  (stateAt nodes id).map ChangeFeedNodeState.face

def versionAt (nodes : List VfsNode) (id : Uuid) : Option Nat :=
  (stateAt nodes id).map fun state => state.node.version

/-- `other` is somewhere below the node. -/
def Below (nodes : List VfsNode) (id other : Uuid) : Prop :=
  ∃ path rest, rest ≠ [] ∧ PathOf nodes id path ∧ PathOf nodes other (path ++ rest)

/-- The transaction changes the node, or creates, deletes, moves or changes something
below it. -/
def Touched (db next : Database) (id : Uuid) : Prop :=
  faceAt db.nodes id ≠ faceAt next.nodes id ∨
    ∃ other, (Below db.nodes id other ∨ Below next.nodes id other) ∧
      (faceAt db.nodes other ≠ faceAt next.nodes other ∨
        versionAt db.nodes other ≠ versionAt next.nodes other)

theorem same_of_record {id : Uuid} (oldTree : Rooted db.nodes) (tree : Rooted next.nodes)
    (node : ∃ old ∈ db.nodes, ∃ new ∈ next.nodes, old.id = id ∧ toRecord old = toRecord new ∧
      old.parentId = new.parentId)
    (path : ∀ path, PathOf db.nodes id path ↔ PathOf next.nodes id path) :
    faceAt db.nodes id = faceAt next.nodes id ∧
      versionAt db.nodes id = versionAt next.nodes id := by
  rcases node with ⟨old, oldMember, new, newMember, rfl, record, parent⟩
  have newId : new.id = old.id := (congrArg VfsNodeRecord.id record).symm
  rcases oldTree.exists_path oldMember with ⟨found, reached⟩
  have oldShows : ShowsNode db.nodes old.id ⟨old, found⟩ := ⟨oldMember, rfl, reached⟩
  have newShows : ShowsNode next.nodes old.id ⟨new, found⟩ :=
    ⟨newMember, newId, (path found).mp reached⟩
  unfold faceAt versionAt
  rw [(stateAt_eq_some_iff oldTree).mpr oldShows, (stateAt_eq_some_iff tree).mpr newShows]
  have fields := VfsNodeRecord.mk.inj record
  simp [ChangeFeedNodeState.face, ChangeFeedNodeState.path, parent, fields]

theorem Transition.not_touched {scope : List JsString → Prop} {changed : Uuid → Prop}
    (transition : Transition host scope changed db next) (consistent : Consistent host db)
    (nextConsistent : Consistent host next) {id : Uuid} (isOld : id ∈ nodeIds db.nodes)
    (isNew : id ∈ nodeIds next.nodes) (unchanged : ¬changed id) : ¬Touched db next id := by
  have oldTree := consistent.tree
  have tree := nextConsistent.tree
  have same : ∀ other, other ∈ nodeIds db.nodes → other ∈ nodeIds next.nodes → ¬changed other →
      faceAt db.nodes other = faceAt next.nodes other ∧
        versionAt db.nodes other = versionAt next.nodes other := fun other wasLive live still =>
    same_of_record oldTree tree (transition.record consistent wasLive live still)
      (transition.path oldTree tree live still)
  have samePath := transition.path oldTree tree isNew unchanged
  have below : ∀ other, Below db.nodes id other ∨ Below next.nodes id other →
      faceAt db.nodes other = faceAt next.nodes other ∧
        versionAt db.nodes other = versionAt next.nodes other := by
    rintro other (⟨path, rest, _, reached, otherReached⟩ | ⟨path, rest, _, reached, otherReached⟩)
    · rcases transition.unchanged_below oldTree isNew unchanged reached otherReached with
        ⟨still, live⟩
      exact same other (mem_nodeIds.mpr otherReached.exists_node) live still
    · have still := transition.unchanged_below_new tree unchanged reached otherReached
      rcases otherReached.exists_node with ⟨node, member, rfl⟩
      rcases transition.kept node member still with ⟨old, oldMember, record, _⟩
      have isId : old.id = node.id := congrArg VfsNodeRecord.id record
      exact same node.id (isId ▸ mem_nodeIds_of_mem oldMember) (mem_nodeIds_of_mem member) still
  rintro (differs | ⟨other, isBelow, differs | differs⟩)
  · exact differs (same id isOld isNew unchanged).1
  · exact differs (below other isBelow).1
  · exact differs (below other isBelow).2

/-! ## Versions along a run -/

/-- Where a node that had a version in `db` can be later: still the same, live at a higher
version, in the trash at no lower one, or gone for good. -/
inductive Aged (host : Host) (db next : Database) (id : Uuid) (version : Nat) : Prop
  | steady (same : Steady db next id)
  | later (node : VfsNode) (member : node ∈ next.nodes) (isId : node.id = id)
      (higher : version < node.version)
  | trashed (entry : TrashEntry) (isEntry : entry ∈ next.trashEntries)
      (isSource : entry.sourceNodeId = id) (higher : version ≤ entry.sourceRevision.version)
  | gone (drawn : Drawn host next.issued id) (dead : id ∉ nodeIds next.nodes)
      (lost : ∀ entry ∈ next.trashEntries, entry.sourceNodeId ≠ id)

section Aging

variable {scope : List JsString → Prop} {changed : Uuid → Prop} {middle : Database} {id : Uuid}
  {version : Nat}

theorem Transition.removed (transition : Transition host scope changed middle next)
    (consistent : Consistent host middle) {row : VfsNode} (member : row ∈ middle.nodes)
    (higher : version ≤ row.version) (dead : row.id ∉ nodeIds next.nodes) :
    Aged host db next row.id version := by
  by_cases trashed : ∃ entry ∈ next.trashEntries, entry.sourceNodeId = row.id
  · rcases trashed with ⟨entry, isEntry, isSource⟩
    refine .trashed entry isEntry isSource ?_
    rcases transition.trash entry isEntry with isOld | ⟨old, oldMember, sameId, _, sameVersion⟩
    · exact absurd (isSource ▸ mem_nodeIds_of_mem member) (consistent.separate entry isOld)
    · have isRow : old = row :=
        consistent.tree.eq_of_id oldMember member (sameId.trans isSource)
      rw [← sameVersion, isRow]
      exact higher
  · refine .gone ?_ dead fun entry isEntry isSource => trashed ⟨entry, isEntry, isSource⟩
    exact (consistent.issued.nodes _ (mem_nodeIds_of_mem member)).mono transition.issued

theorem Aged.step (aged : Aged host db middle id version)
    (transition : Transition host scope changed middle next)
    (consistent : Consistent host middle) (nextConsistent : Consistent host next)
    (wasVersion : ∀ old ∈ db.nodes, old.id = id → old.version = version) :
    Aged host db next id version := by
  cases aged with
  | steady same =>
      rcases same.node with ⟨old, oldMember, row, rowMember, isId, record, _⟩
      have rowId : row.id = id := (congrArg VfsNodeRecord.id record).symm.trans isId
      have rowVersion : row.version = version :=
        (congrArg VfsNodeRecord.version record).symm.trans (wasVersion old oldMember isId)
      by_cases live : id ∈ nodeIds next.nodes
      · by_cases isChanged : changed id
        · rcases mem_nodeIds.mp live with ⟨new, newMember, newId⟩
          have raised := (transition.version consistent rowMember newMember
            (rowId.trans newId.symm)).1 (newId ▸ isChanged)
          exact .later new newMember newId (by omega)
        · have wasLive : id ∈ nodeIds middle.nodes := rowId ▸ mem_nodeIds_of_mem rowMember
          exact .steady (same.trans consistent.tree
            (transition.steady consistent nextConsistent wasLive live isChanged))
      · rw [← rowId] at live ⊢
        exact transition.removed consistent rowMember (Nat.le_of_eq rowVersion.symm) live
  | later row rowMember isId higher =>
      by_cases live : id ∈ nodeIds next.nodes
      · rcases mem_nodeIds.mp live with ⟨new, newMember, newId⟩
        refine .later new newMember newId ?_
        have facts := transition.version consistent rowMember newMember (isId.trans newId.symm)
        by_cases isChanged : changed new.id
        · have raised := facts.1 isChanged
          omega
        · have same : row.version = new.version :=
            congrArg VfsNodeRecord.version (facts.2 isChanged).1
          omega
      · rw [← isId] at live ⊢
        exact transition.removed consistent rowMember (Nat.le_of_lt higher) live
  | trashed entry isEntry isSource higher =>
      have wasDead : id ∉ nodeIds middle.nodes := isSource ▸ consistent.separate entry isEntry
      have drawn : Drawn host middle.issued id := isSource ▸ consistent.issued.sources entry isEntry
      have only : ∀ other ∈ middle.trashEntries, other.sourceNodeId = id → other = entry := by
        intro other isOther sameSource
        exact List.inj_on_of_nodup_map consistent.trash.sources isOther isEntry
          (sameSource.trans isSource.symm)
      by_cases live : id ∈ nodeIds next.nodes
      · rcases mem_nodeIds.mp live with ⟨new, newMember, rfl⟩
        rcases transition.version_of_new newMember wasDead with
          ⟨fresh, _⟩ | ⟨other, isOther, sameSource,
          newVersion⟩
        · exact absurd drawn fresh
        · rw [only other isOther sameSource] at newVersion
          exact .later new newMember rfl (by omega)
      · by_cases trashed : ∃ other ∈ next.trashEntries, other.sourceNodeId = id
        · rcases trashed with ⟨other, isOther, sameSource⟩
          rcases transition.trash other isOther with isOld | ⟨old, oldMember, sameId, _⟩
          · rw [only other isOld sameSource] at isOther
            exact .trashed entry isOther isSource higher
          · exact absurd (sameId.trans sameSource ▸ mem_nodeIds_of_mem oldMember) wasDead
        · exact .gone (drawn.mono transition.issued) live
            fun other isOther sameSource => trashed ⟨other, isOther, sameSource⟩
  | gone drawn dead lost =>
      refine .gone (drawn.mono transition.issued) (fun live => ?_) fun entry isEntry isSource => ?_
      · rcases mem_nodeIds.mp live with ⟨new, newMember, rfl⟩
        rcases transition.version_of_new newMember dead with ⟨fresh, _⟩ | ⟨entry, isEntry, same, _⟩
        · exact fresh drawn
        · exact lost entry isEntry same
      · rcases transition.trash entry isEntry with isOld | ⟨old, oldMember, sameId, _⟩
        · exact lost entry isOld isSource
        · exact dead (sameId.trans isSource ▸ mem_nodeIds_of_mem oldMember)

theorem Runs.aged {old : VfsNode} (consistent : Consistent host db) (run : Runs host db next)
    (member : old ∈ db.nodes) : Aged host db next old.id old.version := by
  have wasVersion : ∀ other ∈ db.nodes, other.id = old.id → other.version = old.version := by
    intro other otherMember same
    rw [consistent.tree.eq_of_id otherMember member same]
  induction run with
  | refl => exact .steady (.refl (mem_nodeIds_of_mem member))
  | tail earlier taken induction =>
      have middleConsistent := earlier.consistent consistent
      rcases taken.transition middleConsistent with ⟨scope, changed, transition⟩
      exact induction.step transition middleConsistent (taken.consistent middleConsistent)
        wasVersion

/-- The same version of the same node is the same node with the same children. -/
theorem Runs.steady {old new : VfsNode} (consistent : Consistent host db)
    (run : Runs host db next) (member : old ∈ db.nodes) (newMember : new ∈ next.nodes)
    (sameId : old.id = new.id) (sameVersion : old.version = new.version) :
    Steady db next old.id := by
  have nextConsistent := run.consistent consistent
  cases run.aged consistent member with
  | steady same => exact same
  | later node nodeMember isId higher =>
      rw [nextConsistent.tree.eq_of_id nodeMember newMember (isId.trans sameId)] at higher
      exact absurd higher (by omega)
  | trashed entry isEntry isSource _ =>
      exact absurd (sameId ▸ mem_nodeIds_of_mem newMember)
        (isSource ▸ nextConsistent.separate entry isEntry)
  | gone _ dead _ => exact absurd (sameId ▸ mem_nodeIds_of_mem newMember) dead

end Aging

/-! ## Revisions identify states -/

theorem revisions_identify_states (reached : Reachable host db) :
    (∀ next, Step host db next →
      (next.nodes = db.nodes ∨ ∃ (mutation : Mutation host) (now : Nat)
        (afterBump : MutationTx → Unit → List AffectedRevision → Except VfsError Unit)
        (committed : Committed Unit), mutation.run now afterBump db = .ok committed ∧
          committed.db = next) ∧
      (∀ old ∈ db.nodes, ∀ new ∈ next.nodes, old.id = new.id →
        (new.version = old.version ∨ new.version = old.version + 1) ∧
        (Touched db next old.id →
          new.version = old.version + 1 ∧ old.version < MAX_VFS_VERSION)) ∧
      ∀ new ∈ next.nodes, new.id ∉ nodeIds db.nodes →
        (∀ entry ∈ db.trashEntries, entry.sourceNodeId = new.id →
          new.version = entry.sourceRevision.version + 1) ∧
        ((∀ entry ∈ db.trashEntries, entry.sourceNodeId ≠ new.id) → new.version = 1)) ∧
    (∀ (mutation : Mutation host) (now : Nat)
      (afterBump : MutationTx → Unit → List AffectedRevision → Except VfsError Unit)
      (committed : Committed Unit), mutation.run now afterBump db = .ok committed →
      ∀ old ∈ db.nodes, ∀ new ∈ committed.db.nodes, old.id = new.id →
        (∀ path, PathOf db.nodes old.id path → ¬mutation.addresses db path) →
          new.version = old.version) ∧
    (∀ next, Runs host db next → ∀ old ∈ db.nodes, ∀ new ∈ next.nodes,
      old.id = new.id → old.version = new.version →
        faceAt db.nodes old.id = faceAt next.nodes old.id ∧
        ∀ child version,
          (∃ row ∈ db.nodes, row.parentId = some old.id ∧ row.id = child ∧
            row.version = version) ↔
          ∃ row ∈ next.nodes, row.parentId = some old.id ∧ row.id = child ∧
            row.version = version) ∧
    ∀ node ∈ db.nodes, 1 ≤ node.version ∧ node.version ≤ MAX_VFS_VERSION := by
  have consistent := reached.consistent
  refine ⟨fun next taken => ⟨taken.nodes_or_mutation, ?_⟩, ?_,
    fun next run old member new newMember sameId sameVersion => ?_, ?_⟩
  · have nextConsistent := taken.consistent consistent
    rcases taken.transition consistent with ⟨scope, changed, transition⟩
    refine ⟨fun old member new newMember same => ?_, fun new newMember isNew => ?_⟩
    · have facts := transition.version consistent member newMember same
      refine ⟨?_, fun touched => ?_⟩
      · by_cases isChanged : changed new.id
        · exact .inr (facts.1 isChanged)
        · exact .inl (congrArg VfsNodeRecord.version (facts.2 isChanged).1).symm
      · have isChanged : changed new.id := by
          by_contra unchanged
          rw [← same] at unchanged
          exact transition.not_touched consistent nextConsistent (mem_nodeIds_of_mem member)
            (same ▸ mem_nodeIds_of_mem newMember) unchanged touched
        have raised := facts.1 isChanged
        rcases nextConsistent.layout with ⟨rootId, layout⟩
        have bound := (layout.versions new newMember).2
        exact ⟨raised, by omega⟩
    · rcases transition.version_of_new newMember isNew with ⟨fresh, one⟩ | ⟨source, isSource, same,
        newVersion⟩
      · refine ⟨fun entry isEntry isId => ?_, fun _ => one⟩
        exact absurd (isId ▸ consistent.issued.sources entry isEntry) fresh
      · refine ⟨fun entry isEntry isId => ?_, fun absent => absurd same (absent source isSource)⟩
        have isEqual : entry = source :=
          List.inj_on_of_nodup_map consistent.trash.sources isEntry isSource (isId.trans same.symm)
        rw [isEqual]
        exact newVersion
  · intro mutation now afterBump committed result old member new newMember same outside
    rcases Mutation.transition consistent result with ⟨changed, transition⟩
    have unchanged : ¬changed new.id := by
      intro isChanged
      rcases consistent.tree.exists_path member with ⟨path, found⟩
      exact outside path found (transition.allowed old.id (same ▸ isChanged) path found)
    exact (congrArg VfsNodeRecord.version
      ((transition.version consistent member newMember same).2 unchanged).1).symm
  · have steady := run.steady consistent member newMember sameId sameVersion
    have nextConsistent := run.consistent consistent
    refine ⟨(same_of_record consistent.tree nextConsistent.tree steady.node steady.path).1,
      fun child version => ?_⟩
    constructor
    · rintro ⟨row, rowMember, below, rfl, rfl⟩
      rcases (steady.children (toRecord row)).mp ⟨row, rowMember, below, rfl⟩ with
        ⟨other, otherMember, otherBelow, record⟩
      exact ⟨other, otherMember, otherBelow, congrArg VfsNodeRecord.id record,
        congrArg VfsNodeRecord.version record⟩
    · rintro ⟨row, rowMember, below, rfl, rfl⟩
      rcases (steady.children (toRecord row)).mpr ⟨row, rowMember, below, rfl⟩ with
        ⟨other, otherMember, otherBelow, record⟩
      exact ⟨other, otherMember, otherBelow, congrArg VfsNodeRecord.id record,
        congrArg VfsNodeRecord.version record⟩
  · rcases consistent.layout with ⟨rootId, layout⟩
    exact layout.versions

/-- The root and the directory were raised by the put, the new nodes start at one. -/
theorem revisions_identify_states_oneFile :
    Small.oneFile.nodes.map VfsNode.version = [2, 1, 1] ∧
    (∀ next, Runs Host.counting Small.oneFile next → ∀ old ∈ Small.oneFile.nodes,
      ∀ new ∈ next.nodes, old.id = new.id → old.version = new.version →
        faceAt Small.oneFile.nodes old.id = faceAt next.nodes old.id) ∧
    ∀ node ∈ Small.oneFile.nodes, 1 ≤ node.version ∧ node.version ≤ MAX_VFS_VERSION := by
  rcases revisions_identify_states Small.reachable_oneFile with ⟨_, _, identified, range⟩
  refine ⟨by decide +kernel, ?_, range⟩
  intro next run old member new newMember sameId sameVersion
  exact (identified next run old member new newMember sameId sameVersion).1

end Storix
