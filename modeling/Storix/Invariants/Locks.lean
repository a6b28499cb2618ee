import Storix.Invariants.Statements

/-! # Locking a path

What holds after the walk to the parent of an addressed path: the directories on
the way are recorded, missing ones are created where that is asked for, and the
chain up to the root is marked. -/

namespace Storix

open Foundation Foundation.Command

variable {host : Host} {effects : Effects} {base : Database}
  {scope : List JsString → Prop} {held : List Uuid}
  {tx : MutationTx} {fault : VfsError → Prop}

/-! ## Recording and marking -/

theorem satisfies_trackChangeFeedBefore (holds : TxInv host effects base scope held tx)
    (ids : List Uuid)
    (above : ∀ node ∈ tx.db.nodes, node.id ∈ ids → ∀ parentId, node.parentId = some parentId →
      tx.Seen parentId ∨ parentId ∈ ids ∧ parentId ∈ nodeIds tx.db.nodes)
    {post : Unit → MutationTx → Prop}
    (continues : ∀ feedBefore, TxInv host effects base scope held
      { tx with feedBefore := feedBefore } →
      (∀ id ∈ ids, id ∈ nodeIds tx.db.nodes →
        ({ tx with feedBefore := feedBefore } : MutationTx).Seen id) →
      (∀ id, tx.Seen id → ({ tx with feedBefore := feedBefore } : MutationTx).Seen id) →
      post () { tx with feedBefore := feedBefore }) :
    Satisfies (trackChangeFeedBefore host ids) post fault tx := by
  rcases holds.track ids above with ⟨feedBefore, run, inv, seen, still⟩
  exact satisfies_of_eq run (continues feedBefore inv seen still)

theorem trackChangeFeedBefore_of_marked {ids : List Uuid}
    (marked : ∀ id ∈ ids, tx.changed.get id ≠ none) :
    trackChangeFeedBefore host ids tx = .ok ((), tx) := by
  cases isSome : tx.feedBefore with
  | none => exact trackChangeFeedBefore_of_none isSome ids
  | some before =>
      have none : (ids.filter fun id => !before.has id && !tx.changed.has id) = [] := by
        refine List.filter_eq_nil_iff.mpr fun id inside => ?_
        simp [marked id inside]
      rw [trackChangeFeedBefore_of_some isSome (by rw [none]; rfl)]
      change Except.ok ((), { tx with feedBefore := some before }) = _
      rw [← isSome]

theorem TxInv.seen_of_prefix (holds : TxInv host effects base scope held tx) {id above : Uuid}
    {front rest : List JsString} (reached : PathOf tx.db.nodes id (front ++ rest))
    (aboveReached : PathOf tx.db.nodes above front) (seen : tx.Seen id) : tx.Seen above := by
  induction rest using List.reverseRecOn generalizing id with
  | nil =>
      rw [List.append_nil] at reached
      rwa [← PathTo.injective holds.tree reached aboveReached]
  | append_singleton rest name induction =>
      rw [← List.append_assoc] at reached
      rcases PathOf.exists_child reached with ⟨node, member, rfl, _, parentId, below, parentReached⟩
      exact induction parentReached (holds.seenAbove node member seen parentId below)

/-- The nodes that a walk up to the root passes, as `markAncestorChain` needs them. -/
structure Walked (tx : MutationTx) (path : List JsString) (id : Uuid) (walked : List Uuid) :
    Prop where
  starts : id ∈ walked ∨ id ∈ tx.ancestorChainMarked
  parents : ∀ node ∈ tx.db.nodes, node.id ∈ walked → ∀ parentId, node.parentId = some parentId →
    parentId ∈ walked ∨ parentId ∈ tx.ancestorChainMarked
  paths : ∀ other ∈ walked, ∃ front, front <+: path ∧ PathOf tx.db.nodes other front

theorem TxInv.walk (holds : TxInv host effects base scope held tx) {id : Uuid}
    {path : List JsString}
    (reached : PathOf tx.db.nodes id path) :
    ∃ walked, walkAncestors tx.db.nodes tx.ancestorChainMarked (tx.db.nodes.length + 1) (some id) =
        .ok walked ∧ Walked tx path id walked := by
  rcases PathOf.exists_node reached with ⟨node, member, rfl⟩
  have bound := PathOf.length_lt holds.tree reached
  have enough : path.length + 1 < tx.db.nodes.length + 1 := by omega
  rcases walkAncestors_eq_ok holds.tree tx.ancestorChainMarked member reached enough with
    ⟨walked, run, starts, covers⟩
  refine ⟨walked, run, starts, ?_, ?_⟩
  · intro other otherMember inside parentId below
    rcases covers other.id inside with ⟨same, sameMember, sameId, _, parents⟩
    rw [holds.tree.eq_of_id sameMember otherMember sameId] at parents
    exact parents parentId below
  · intro other inside
    rcases covers other inside with ⟨_, _, _, front, _⟩
    exact front

theorem TxInv.markWalked (holds : TxInv host effects base scope held tx) {id : Uuid}
    {path : List JsString} (reached : PathOf tx.db.nodes id path) (seen : tx.Seen id)
    (inScope : ∀ front, front <+: path → scope front) {walked : List Uuid}
    (walk : Walked tx path id walked) {changed : OrderedMap Uuid Bool}
    (marks : changed.get = markAll tx.changed.get walked true) :
    TxInv host effects base scope held
        { tx with changed := changed, ancestorChainMarked := tx.ancestorChainMarked ++ walked } ∧
      changed.get id ≠ none := by
  constructor
  · refine holds.ancestors marks ?_ ?_ ?_ fun other inside => List.mem_append.mp inside
    · intro node member inside parentId below
      rcases walk.parents node member inside parentId below with inside | chained
      · exact .inl inside
      · exact .inr (holds.marks.chained parentId chained)
    · intro other inside
      rcases walk.paths other inside with ⟨front, ⟨rest, rfl⟩, otherReached⟩
      exact holds.seen_of_prefix reached otherReached seen
    · intro other inside
      rcases walk.paths other inside with ⟨front, isFront, otherReached⟩
      exact ⟨front, otherReached, inScope front isFront⟩
  · rw [marks, markAll_ne_none_iff]
    rcases walk.starts with inside | chained
    · exact .inr inside
    · exact .inl (holds.marks.chained id chained)

theorem markAncestorChain_eq (host : Host) {id : Uuid} {walked : List Uuid}
    (run : walkAncestors tx.db.nodes tx.ancestorChainMarked (tx.db.nodes.length + 1) (some id) =
      .ok walked) :
    ∃ changed, markAncestorChain host id tx =
        .ok ((), { tx with
          changed := changed, ancestorChainMarked := tx.ancestorChainMarked ++ walked }) ∧
      changed.get = markAll tx.changed.get walked true := by
  rcases forEach_markChanged_eq (fun id => id) true walked tx with ⟨changed, marked, marks⟩
  rw [List.map_id'] at marks
  refine ⟨changed, ?_, marks⟩
  have tracked : trackChangeFeedBefore host walked { tx with changed := changed } =
      .ok ((), { tx with changed := changed }) := by
    refine trackChangeFeedBefore_of_marked fun other inside => ?_
    change changed.get other ≠ none
    rw [marks, markAll_ne_none_iff]
    exact .inr inside
  have lifted : (Command.lift (walkAncestors tx.db.nodes tx.ancestorChainMarked
      (tx.db.nodes.length + 1) (some id)) : Mutating (List Uuid)) tx = .ok (walked, tx) := by
    rw [run]
    rfl
  unfold markAncestorChain
  refine (bind_of_ok (rfl : state tx = .ok (tx, tx))).trans ?_
  refine (bind_of_ok lifted).trans ?_
  refine (bind_of_ok marked).trans ?_
  refine (bind_of_ok tracked).trans ?_
  rfl

theorem satisfies_markAncestorChain (holds : TxInv host effects base scope held tx) {id : Uuid}
    {path : List JsString} (reached : PathOf tx.db.nodes id path) (seen : tx.Seen id)
    (inScope : ∀ front, front <+: path → scope front) {post : Unit → MutationTx → Prop}
    (continues : ∀ changed chained,
      TxInv host effects base scope held
        { tx with changed := changed, ancestorChainMarked := chained } →
      changed.get id ≠ none →
      (∀ other, tx.changed.get other ≠ none → changed.get other ≠ none) →
      post () { tx with changed := changed, ancestorChainMarked := chained }) :
    Satisfies (markAncestorChain host id) post fault tx := by
  rcases holds.walk reached with ⟨walked, run, walk⟩
  rcases markAncestorChain_eq host run with ⟨changed, marked, marks⟩
  rcases holds.markWalked reached seen inScope walk marks with ⟨inv, self⟩
  refine satisfies_of_eq marked (continues changed _ inv self fun other otherMarked => ?_)
  rw [marks, markAll_ne_none_iff]
  exact .inl otherMarked

/-! ## Growth -/

structure Grown (tx next : MutationTx) : Prop where
  root : next.rootId = tx.rootId
  now : next.now = tx.now
  rows : ∃ rows issued, next.db = { tx.db with nodes := tx.db.nodes ++ rows, issued := issued }
  seen : ∀ id, tx.Seen id → next.Seen id
  marked : ∀ id, tx.changed.get id ≠ none → next.changed.get id ≠ none

theorem Grown.refl (tx : MutationTx) : Grown tx tx where
  root := rfl
  now := rfl
  rows := ⟨[], tx.db.issued, by simp⟩
  seen _ seen := seen
  marked _ marked := marked

theorem Grown.trans {middle next : MutationTx} (first : Grown tx middle)
    (second : Grown middle next) : Grown tx next where
  root := second.root.trans first.root
  now := second.now.trans first.now
  rows := by
    rcases first.rows with ⟨firstRows, firstIssued, firstDb⟩
    rcases second.rows with ⟨secondRows, secondIssued, secondDb⟩
    refine ⟨firstRows ++ secondRows, secondIssued, ?_⟩
    rw [secondDb, firstDb, List.append_assoc]
  seen id seen := second.seen id (first.seen id seen)
  marked id marked := second.marked id (first.marked id marked)

theorem Grown.mem {next : MutationTx} (grown : Grown tx next) {node : VfsNode}
    (member : node ∈ tx.db.nodes) : node ∈ next.db.nodes := by
  rcases grown.rows with ⟨rows, issued, same⟩
  rw [same]
  exact List.mem_append_left _ member

theorem Grown.pathOf {next : MutationTx} (grown : Grown tx next) {id : Uuid}
    {path : List JsString} (reached : PathOf tx.db.nodes id path) :
    PathOf next.db.nodes id path := by
  rcases grown.rows with ⟨rows, issued, same⟩
  rw [same]
  exact PathTo.mono (List.map_subset _ (List.subset_append_left _ _)) reached

def Planted (tx next : MutationTx) (path : List JsString) : Prop :=
  ∀ node ∈ next.db.nodes, node ∈ tx.db.nodes ∨
    node.type = .directory ∧ ∃ front, front <+: path ∧ PathOf next.db.nodes node.id front

theorem Planted.of_nodes {next : MutationTx} (same : next.db.nodes = tx.db.nodes)
    (path : List JsString) : Planted tx next path := by
  intro node member
  rw [same] at member
  exact .inl member

theorem Planted.trans {middle next : MutationTx} {path : List JsString}
    (first : Planted tx middle path) (grown : Grown middle next)
    (second : Planted middle next path) : Planted tx next path := by
  intro node member
  rcases second node member with old | planted
  · rcases first node old with older | ⟨isDirectory, front, isFront, reached⟩
    · exact .inl older
    · exact .inr ⟨isDirectory, front, isFront, grown.pathOf reached⟩
  · exact .inr planted

theorem grown_feedBefore {feedBefore : Option NodeStates}
    (seen : ∀ id, tx.Seen id → ({ tx with feedBefore := feedBefore } : MutationTx).Seen id) :
    Grown tx { tx with feedBefore := feedBefore } :=
  { Grown.refl tx with seen := seen }

theorem grown_changed {changed : OrderedMap Uuid Bool} {chained : List Uuid}
    (marked : ∀ id, tx.changed.get id ≠ none → changed.get id ≠ none) :
    Grown tx { tx with changed := changed, ancestorChainMarked := chained } :=
  { Grown.refl tx with
    seen := fun id seen => seen.imp (marked id) fun recorded => recorded
    marked := marked }

/-! ## Creating a directory on the way -/

structure Standing (tx : MutationTx) (id : Uuid) (type : VfsNodeType) (path : List JsString) :
    Prop where
  node : ∃ node ∈ tx.db.nodes, node.id = id ∧ node.type = type
  reached : PathOf tx.db.nodes id path
  aboveSeen : ∀ node ∈ tx.db.nodes, node.id = id → ∀ parentId,
    node.parentId = some parentId → tx.Seen parentId

theorem satisfies_createParentDirectory (holds : TxInv host effects base scope held tx)
    {parentId : Uuid}
    {front : List JsString} {name : JsString}
    (parent : ∃ parent ∈ tx.db.nodes, parent.id = parentId ∧ parent.type = .directory)
    (reached : PathOf tx.db.nodes parentId front) (seen : tx.Seen parentId)
    (missing : tx.db.findChild parentId name = none)
    (valid : ValidPath host (front ++ [name]))
    (inScope : ∀ short, short <+: front ++ [name] → scope short) :
    Satisfies (createParentDirectory host parentId name)
      (fun child next => TxInv host effects base scope held next ∧ Grown tx next ∧
        child ∈ next.db.nodes ∧ Standing next child.id child.type (front ++ [name]) ∧
        child.type = .directory ∧ next.changed.get child.id ≠ none ∧
        Planted tx next (front ++ [name])) fault tx := by
  let row : VfsNode := (NewNode.directory parentId name).row (host.randomUUID tx.db.issued) tx.now
  have fresh := holds.freshId
  -- The chain is walked with the new row in the table, which no walk passes.
  have insertable : Insertable host tx.db.nodes row parentId front :=
    { fresh := fresh.node, below := rfl, parent := parent, reached := reached,
      free := fun other member below => findChild_eq_none missing member below,
      valid := valid, shaped := ⟨rfl, rfl, rfl⟩,
      numbered := ⟨Nat.le_refl 1, (by decide : 1 ≤ MAX_VFS_VERSION)⟩ }
  have grownTree : Rooted (tx.db.nodes ++ [row]) := insertable.tree holds.tree
  rcases parent with ⟨parentNode, parentMember, rfl, directory⟩
  have reachedGrown : PathOf (tx.db.nodes ++ [row]) parentNode.id front :=
    PathTo.mono (List.map_subset _ (List.subset_append_left _ _)) reached
  have bound := PathOf.length_lt grownTree reachedGrown
  have enough : front.length + 1 < (tx.db.nodes ++ [row]).length + 1 := by omega
  rcases walkAncestors_eq_ok grownTree tx.ancestorChainMarked
    (List.mem_append_left _ parentMember) reachedGrown enough with
    ⟨walked, run, starts, covers⟩
  have notNew : ∀ id ∈ walked, ∃ short, short <+: front ∧ PathOf tx.db.nodes id short := by
    intro id inside
    rcases covers id inside with ⟨_, _, _, ⟨short, isFront, shortReached⟩, _⟩
    refine ⟨short, isFront, ?_⟩
    refine (pathOf_insert_iff holds.tree fresh.node fun same => ?_).mp shortReached
    rcases (reached.of_prefix isFront) with ⟨above, aboveReached⟩
    have aboveGrown : PathOf (tx.db.nodes ++ [row]) above short :=
      PathTo.mono (List.map_subset _ (List.subset_append_left _ _)) aboveReached
    have equal := PathTo.injective grownTree shortReached aboveGrown
    rcases PathOf.exists_node aboveReached with ⟨node, member, nodeId⟩
    exact fresh.node (mem_nodeIds.mpr ⟨node, member, nodeId.trans (equal.symm.trans same)⟩)
  have walk : Walked tx front parentNode.id walked := by
    refine ⟨starts, ?_, notNew⟩
    intro node member inside above below
    rcases covers node.id inside with ⟨other, otherMember, same, _, parents⟩
    rw [grownTree.eq_of_id otherMember (List.mem_append_left _ member) same] at parents
    exact parents above below
  unfold createParentDirectory
  simp only [satisfies_bind, satisfies_createNode, satisfies_recordLiveNodeDelta]
  let inserted : MutationTx :=
    { tx with
      db := { tx.db with issued := tx.db.issued + 1, nodes := tx.db.nodes ++ [row] }
      liveNodeDelta := tx.liveNodeDelta + 1 }
  have runInserted : walkAncestors inserted.db.nodes inserted.ancestorChainMarked
      (inserted.db.nodes.length + 1) (some parentNode.id) = .ok walked := run
  rcases markAncestorChain_eq host runInserted with ⟨changed, marked, marks⟩
  refine satisfies_of_eq marked ?_
  refine satisfies_markChanged fun final finalMarks => ?_
  rw [satisfies_pure]
  rcases holds.markWalked reached seen
    (fun short isFront => inScope short (isFront.trans (List.prefix_append _ _))) walk marks with
    ⟨inv, self⟩
  have noFile : ∀ id, (tx.folderFileDeltas.get id).getD 0 =
      tx.folderDelta id + fileBelow id row := by
    intro id
    simp [row, fileBelow, NewNode.row, NewNode.directory, MutationTx.folderDelta]
  have noBytes : tx.liveFileByteDelta = tx.liveFileByteDelta + fileSize row := by
    simp [row, fileSize, NewNode.row, NewNode.directory]
  have created := TxInv.create (.directory parentNode.id name) inv
    ⟨parentNode, parentMember, rfl, directory⟩ reached
    (fun other member below => findChild_eq_none missing member below) valid ⟨rfl, rfl, rfl⟩ self
    (inScope _ (List.prefix_refl _)) finalMarks noFile rfl noBytes
  have markedNow : ∀ id, tx.changed.get id ≠ none → final.get id ≠ none := by
    intro id idMarked
    rw [finalMarks, markAll_ne_none_iff]
    refine .inl ?_
    change changed.get id ≠ none
    rw [marks, markAll_ne_none_iff]
    exact .inl idMarked
  have rowMarked : final.get row.id ≠ none := by
    rw [finalMarks, markAll_ne_none_iff]
    exact .inr (by simp [row])
  have parentMarked : final.get parentNode.id ≠ none := by
    rw [finalMarks, markAll_ne_none_iff]
    exact .inl self
  have planted : PathOf (tx.db.nodes ++ [row]) row.id (front ++ [name]) :=
    pathOf_insert_self rfl reached
  refine ⟨created, ?_, List.mem_append_right _ (List.mem_singleton.mpr rfl), ?_, rfl, rowMarked, ?_⟩
  · exact
      { root := rfl, now := rfl, rows := ⟨[row], tx.db.issued + 1, rfl⟩,
        seen := fun id idSeen => idSeen.imp (markedNow id) fun recorded => recorded,
        marked := markedNow }
  · refine ⟨⟨row, List.mem_append_right _ (List.mem_singleton.mpr rfl), rfl, rfl⟩,
      planted, ?_⟩
    intro node member same above below
    have equal := grownTree.eq_of_id member
      (List.mem_append_right _ (List.mem_singleton.mpr rfl)) same
    subst equal
    cases below
    exact .inl parentMarked
  · intro node member
    rcases List.mem_append.mp member with old | isRow
    · exact .inl old
    · rw [List.mem_singleton.mp isRow]
      exact .inr ⟨rfl, _, List.prefix_refl _, planted⟩

/-! ## The walk to the parent -/

theorem Standing.child {parentId : Uuid} {type : VfsNodeType} {front : List JsString}
    (standing : Standing tx parentId type front) (tree : Rooted tx.db.nodes)
    (seen : tx.Seen parentId) {child : VfsNode} (member : child ∈ tx.db.nodes)
    (below : child.parentId = some parentId) :
    Standing tx child.id child.type (front ++ [child.name]) where
  node := ⟨child, member, rfl, rfl⟩
  reached := PathOf.child member below standing.reached
  aboveSeen node nodeMember same above nodeBelow := by
    rw [tree.eq_of_id nodeMember member same, below] at nodeBelow
    cases nodeBelow
    exact seen

theorem Standing.directory {id : Uuid} {front : List JsString}
    (standing : Standing tx id .directory front) :
    ∃ node ∈ tx.db.nodes, node.id = id ∧ node.type = .directory :=
  standing.node

theorem Standing.live {id : Uuid} {type : VfsNodeType} {front : List JsString}
    (standing : Standing tx id type front) : id ∈ nodeIds tx.db.nodes := by
  rcases standing.node with ⟨node, member, same, _⟩
  exact mem_nodeIds.mpr ⟨node, member, same⟩

theorem Standing.track {id : Uuid} {type : VfsNodeType} {front : List JsString}
    (standing : Standing tx id type front) (holds : TxInv host effects base scope held tx)
    {post : Unit → MutationTx → Prop}
    (continues : ∀ feedBefore, TxInv host effects base scope held
      { tx with feedBefore := feedBefore } →
      Grown tx { tx with feedBefore := feedBefore } →
      ({ tx with feedBefore := feedBefore } : MutationTx).Seen id →
      Standing { tx with feedBefore := feedBefore } id type front →
      post () { tx with feedBefore := feedBefore }) :
    Satisfies (trackChangeFeedBefore host [id]) post fault tx := by
  refine satisfies_trackChangeFeedBefore holds [id] ?_ fun feedBefore inv seen still => ?_
  · intro node member inside parentId below
    exact .inl (standing.aboveSeen node member (by simpa using inside) parentId below)
  · refine continues feedBefore inv (grown_feedBefore still)
      (seen id (by simp) standing.live) ⟨standing.node, standing.reached, ?_⟩
    intro node member same parentId below
    exact still parentId (standing.aboveSeen node member same parentId below)

theorem lockParents_spec (parents : Bool) {rest visited : List JsString} {parentId : Uuid}
    {parentType : VfsNodeType} (holds : TxInv host effects base scope held tx)
    (standing : Standing tx parentId parentType visited)
    (valid : parents = true → ValidPath host (visited ++ rest))
    (inScope : parents = true → ∀ front, front <+: visited ++ rest → scope front) :
    Satisfies (lockParents host parents visited rest parentId parentType)
      (fun result next => TxInv host effects base scope held next ∧ Grown tx next ∧
        Standing next result.1 result.2 (visited ++ rest) ∧ (parents = false → next.db = tx.db) ∧
        Planted tx next (visited ++ rest))
      Expected tx := by
  induction rest generalizing tx visited parentId parentType with
  | nil =>
      unfold lockParents
      rw [satisfies_pure, List.append_nil]
      exact ⟨holds, .refl tx, standing, fun _ => rfl, .of_nodes rfl _⟩
  | cons name rest induction =>
      have regroup : visited ++ name :: rest = (visited ++ [name]) ++ rest := by simp
      rw [regroup] at valid inScope ⊢
      unfold lockParents
      refine satisfies_ite.mpr ⟨fun _ => trivial, fun isDirectory => ?_⟩
      rw [not_not] at isDirectory
      subst isDirectory
      rw [satisfies_bind]
      refine standing.track holds fun feedBefore inv grown seen nowStanding => ?_
      simp only [satisfies_bind, satisfies_state]
      cases found : tx.db.findChild parentId name with
      | some child =>
          rcases findChild_eq_some found with ⟨member, below, rfl⟩
          refine (induction inv (nowStanding.child inv.tree seen member below) valid inScope).imp ?_
          rintro result next ⟨nextInv, nextGrown, nextStanding, same, planted⟩
          exact ⟨nextInv, grown.trans nextGrown, nextStanding, same, planted⟩
      | none =>
          refine satisfies_ite.mpr ⟨fun _ => trivial, fun creates => ?_⟩
          rw [Bool.not_eq_false] at creates
          rw [satisfies_bind]
          refine (satisfies_createParentDirectory inv nowStanding.directory nowStanding.reached seen
            found (valid creates).of_append fun short isFront =>
              inScope creates short (isFront.trans (List.prefix_append _ _))).imp ?_
          rintro child middle ⟨middleInv, middleGrown, _, childStanding, _, _, first⟩
          refine (induction middleInv childStanding valid inScope).imp ?_
          rintro result next ⟨nextInv, nextGrown, nextStanding, _, second⟩
          refine ⟨nextInv, (grown.trans middleGrown).trans nextGrown, nextStanding,
            fun isFalse => ?_, ?_⟩
          · rw [creates] at isFalse
            cases isFalse
          · have wider : Planted tx middle (visited ++ [name] ++ rest) := by
              intro node member
              rcases first node member with old | ⟨isDirectory, front, isFront, reached⟩
              · exact .inl old
              · exact .inr ⟨isDirectory, front, isFront.trans (List.prefix_append _ _), reached⟩
            exact wider.trans nextGrown second

/-- What the lock of a parent gives to the rest of the operation. -/
structure Locked (tx : MutationTx) (parentId : Uuid) (front : List JsString) : Prop where
  directory : ∃ parent ∈ tx.db.nodes, parent.id = parentId ∧ parent.type = .directory
  reached : PathOf tx.db.nodes parentId front
  seen : tx.Seen parentId

theorem Locked.grown {next : MutationTx} {parentId : Uuid} {front : List JsString}
    (locked : Locked tx parentId front) (grown : Grown tx next) : Locked next parentId front where
  directory := by
    rcases locked.directory with ⟨parent, member, rest⟩
    exact ⟨parent, grown.mem member, rest⟩
  reached := grown.pathOf locked.reached
  seen := grown.seen parentId locked.seen

theorem TxInv.rootStanding (holds : TxInv host effects base scope held tx) :
    Standing tx tx.rootId .directory [] := by
  rcases holds.layout.exists_root with ⟨root, member, same, top, directory⟩
  refine ⟨⟨root, member, same, directory⟩, holds.layout.root, ?_⟩
  intro node nodeMember nodeId parentId below
  rw [holds.tree.eq_of_id nodeMember member (nodeId.trans same.symm), top] at below
  cases below

theorem lockParentChain_spec {segments : List JsString} {parents markAncestors : Bool}
    (holds : TxInv host effects base scope held tx)
    (valid : parents = true → ValidPath host segments.dropLast)
    (inScope : parents = true ∨ markAncestors = true →
      ∀ front, front <+: segments.dropLast → scope front) :
    Satisfies (lockParentChain host segments parents markAncestors)
      (fun parentId next => TxInv host effects base scope held next ∧ Grown tx next ∧
        Locked next parentId segments.dropLast ∧
        (markAncestors = true → next.changed.get parentId ≠ none) ∧
        (parents = false → next.db = tx.db) ∧
        Planted tx next segments.dropLast) Expected tx := by
  unfold lockParentChain
  simp only [satisfies_bind, satisfies_state]
  refine (lockParents_spec parents holds holds.rootStanding valid fun creates =>
    inScope (.inl creates)).imp ?_
  rintro ⟨parentId, parentType⟩ next ⟨inv, grown, standing, same, planted⟩
  rw [List.nil_append] at standing planted
  refine satisfies_ite.mpr ⟨fun _ => trivial, fun isDirectory => ?_⟩
  rw [not_not] at isDirectory
  simp only at isDirectory standing
  subst isDirectory
  rw [satisfies_bind]
  refine standing.track inv fun feedBefore tracked trackedGrown seen nowStanding => ?_
  have whole := grown.trans trackedGrown
  refine satisfies_ite.mpr ⟨fun marks => ?_, fun leaves => ?_⟩
  · rw [satisfies_bind]
    refine satisfies_markAncestorChain tracked nowStanding.reached seen (inScope (.inr marks))
      fun changed chained marked self weaken => ?_
    rw [satisfies_pure]
    have final : Grown { next with feedBefore := feedBefore }
        { next with
          feedBefore := feedBefore, changed := changed, ancestorChainMarked := chained } :=
      grown_changed weaken
    refine ⟨marked, whole.trans final, ⟨nowStanding.directory, nowStanding.reached, ?_⟩,
      fun _ => self, same, planted⟩
    exact final.seen parentId seen
  · rw [satisfies_pure]
    exact ⟨tracked, whole, ⟨nowStanding.directory, nowStanding.reached, seen⟩,
      fun marks => absurd marks leaves, same, planted⟩

theorem satisfies_lockTargetNode {parentId : Uuid} {front : List JsString} {name : JsString}
    (holds : TxInv host effects base scope held tx) (locked : Locked tx parentId front)
    {post : Option VfsNode → MutationTx → Prop}
    (absent : tx.db.findChild parentId name = none → post none tx)
    (present : ∀ node feedBefore, tx.db.findChild parentId name = some node →
      node ∈ tx.db.nodes → node.parentId = some parentId → node.name = name →
      PathOf tx.db.nodes node.id (front ++ [name]) →
      TxInv host effects base scope held { tx with feedBefore := feedBefore } →
      Grown tx { tx with feedBefore := feedBefore } →
      ({ tx with feedBefore := feedBefore } : MutationTx).Seen node.id →
      post (some node) { tx with feedBefore := feedBefore }) :
    Satisfies (lockTargetNode host parentId name) post fault tx := by
  unfold lockTargetNode
  simp only [satisfies_bind, satisfies_state]
  cases found : tx.db.findChild parentId name with
  | none =>
      rw [satisfies_pure]
      exact absent found
  | some node =>
      rcases findChild_eq_some found with ⟨member, below, sameName⟩
      have reached := PathOf.child member below locked.reached
      rw [sameName] at reached
      have standing : Standing tx node.id node.type (front ++ [name]) := by
        refine ⟨⟨node, member, rfl, rfl⟩, reached, ?_⟩
        intro other otherMember same above otherBelow
        rw [holds.tree.eq_of_id otherMember member same, below] at otherBelow
        cases otherBelow
        exact locked.seen
      rw [satisfies_bind]
      refine standing.track holds fun feedBefore inv grown seen _ => ?_
      rw [satisfies_pure]
      exact present node feedBefore found member below sameName reached inv grown seen

/-! ## Making a directory -/

theorem ensureDirectories_spec (parents : Bool) (segments : List JsString)
    {rest visited : List JsString} {parentId : Uuid} {parentType : VfsNodeType}
    {current : Option VfsNode} {created : Bool} (holds : TxInv host effects base scope held tx)
    (standing : Standing tx parentId parentType visited)
    (ends : rest = [] → ∃ node, current = some node ∧ node ∈ tx.db.nodes ∧ node.id = parentId ∧
      node.type = .directory ∧ (parents = false → tx.changed.get node.id ≠ none))
    (valid : ValidPath host (visited ++ rest))
    (inScope : ∀ front, front <+: visited ++ rest → scope front) :
    Satisfies (ensureDirectories host parents segments visited rest parentId parentType current
        created)
      (fun result next => TxInv host effects base scope held next ∧ Grown tx next ∧
        ∃ node, result.1 = some node ∧ node ∈ next.db.nodes ∧ node.type = .directory ∧
          PathOf next.db.nodes node.id (visited ++ rest) ∧
          (parents = false → next.changed.get node.id ≠ none))
      Expected tx := by
  induction rest generalizing tx visited parentId parentType current created with
  | nil =>
      unfold ensureDirectories
      rw [satisfies_pure, List.append_nil]
      rcases ends rfl with ⟨node, isCurrent, member, same, directory, marked⟩
      exact ⟨holds, .refl tx, node, isCurrent, member, directory, same ▸ standing.reached, marked⟩
  | cons name rest induction =>
      have regroup : visited ++ name :: rest = (visited ++ [name]) ++ rest := by simp
      rw [regroup] at valid inScope ⊢
      unfold ensureDirectories
      refine satisfies_ite.mpr ⟨fun _ => trivial, fun isDirectory => ?_⟩
      rw [not_not] at isDirectory
      subst isDirectory
      rw [satisfies_bind]
      refine standing.track holds fun feedBefore inv grown seen nowStanding => ?_
      simp only [satisfies_bind, satisfies_state]
      cases found : tx.db.findChild parentId name with
      | some child =>
          rcases findChild_eq_some found with ⟨member, below, rfl⟩
          refine satisfies_ite.mpr ⟨fun _ => trivial, fun goesOn => ?_⟩
          have ends' : rest = [] → ∃ node, some child = some node ∧
              node ∈ ({ tx with feedBefore := feedBefore } : MutationTx).db.nodes ∧
              node.id = child.id ∧ node.type = .directory ∧
              (parents = false → tx.changed.get node.id ≠ none) := by
            intro last
            refine ⟨child, rfl, member, rfl, ?_, fun isFalse => ?_⟩
            · cases isType : child.type with
              | directory => rfl
              | file => exact absurd ⟨last, .inl isType⟩ goesOn
            · exact absurd ⟨last, .inr isFalse⟩ goesOn
          refine (induction inv (nowStanding.child inv.tree seen member below) ends' valid
            inScope).imp ?_
          rintro result next ⟨nextInv, nextGrown, facts⟩
          exact ⟨nextInv, grown.trans nextGrown, facts⟩
      | none =>
          refine satisfies_ite.mpr ⟨fun _ => trivial, fun _ => ?_⟩
          rw [satisfies_bind]
          refine (satisfies_createParentDirectory inv nowStanding.directory nowStanding.reached seen
            found valid.of_append fun short isFront =>
              inScope short (isFront.trans (List.prefix_append _ _))).imp ?_
          rintro child middle ⟨middleInv, middleGrown, member, childStanding, directory, marked, _⟩
          refine (induction middleInv childStanding
            (fun _ => ⟨child, rfl, member, rfl, directory, fun _ => marked⟩) valid inScope).imp ?_
          rintro result next ⟨nextInv, nextGrown, facts⟩
          exact ⟨nextInv, (grown.trans middleGrown).trans nextGrown, facts⟩

theorem ensureDirectory_spec {segments : List JsString} (parents : Bool)
    (holds : TxInv host effects base scope held tx) (nonempty : segments ≠ [])
    (valid : ValidPath host segments) (inScope : ∀ front, front <+: segments → scope front) :
    Satisfies (ensureDirectory host segments parents)
      (fun result next => TxInv host effects base scope held next ∧ Grown tx next ∧
        result.1 ∈ next.db.nodes ∧ result.1.type = .directory ∧
        PathOf next.db.nodes result.1.id segments ∧
        (parents = false → next.changed.get result.1.id ≠ none)) Expected tx := by
  unfold ensureDirectory
  simp only [satisfies_bind, satisfies_state]
  refine (ensureDirectories_spec parents segments holds holds.rootStanding
    (fun empty => absurd empty nonempty) valid inScope).imp ?_
  rintro ⟨current, created⟩ next ⟨inv, grown, node, isCurrent, member, directory, reached, marked⟩
  simp only at isCurrent
  subst isCurrent
  simp only [satisfies_pure]
  exact ⟨inv, grown, member, directory, reached, marked⟩

end Storix
