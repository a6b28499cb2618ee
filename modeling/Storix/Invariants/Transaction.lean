import Storix.Invariants.Counters
import Storix.Invariants.Journal
import Storix.Invariants.Manifests
import Storix.Invariants.References

/-! # The transaction invariant

What holds between the statements of a mutation, and how each kind of statement
keeps it. `held` are the blob references that the operation has taken and not yet
put into a row, or taken out of a row and not yet given up. -/

namespace Storix

open Foundation Foundation.Command

structure Consistent (host : Host) (db : Database) : Prop where
  layout : ∃ rootId, Layout host db.nodes rootId
  books : NodeBooks db.nodes db.nodes db.namespaceRow.liveNodeCount
    db.namespaceRow.liveFileByteCount fun _ => 0
  refs : RefBooks db.blobs db.blobs db.references
  trash : TrashBooks db.trash db.trashEntries db.namespaceRow.retainedTrashNodeCount
    db.namespaceRow.retainedTrashByteCount
  snapshots : SnapshotBooks db.snapshots db.snapshotEntries
    db.namespaceRow.retainedSnapshotNodeCount db.namespaceRow.retainedSnapshotByteCount
  issued : Issued host db
  separate : ∀ entry ∈ db.trashEntries, entry.sourceNodeId ∉ nodeIds db.nodes

theorem Consistent.tree {host : Host} {db : Database} (consistent : Consistent host db) :
    Rooted db.nodes := by
  rcases consistent.layout with ⟨_, layout⟩
  exact layout.tree

/-- The errors that the work of a mutation can stop with on consistent tables. An internal
fault is only possible where a limit of the environment is hit; the limits of the namespace
are checked after the work. -/
def Expected : VfsError → Prop
  | .internal fault =>
      fault = .trashBytesOutOfRange ∨ fault = .invalidSnapshotNodeLimit
  | .quotaExceeded _ _ => False
  | .folderFileLimitExceeded _ _ => False
  | .namespaceNodeLimitExceeded _ _ => False
  | _ => True

namespace MutationTx

def folderDelta (tx : MutationTx) (id : Uuid) : Int := (tx.folderFileDeltas.get id).getD 0

def Seen (tx : MutationTx) (id : Uuid) : Prop := Storix.Seen tx.changed.get tx.feedBefore id

end MutationTx

/-- The namespace row during a transaction: the live counters wait for the commit, those of the
trash and of the snapshots have moved by the recorded changes. -/
structure RowMoved (old new : Namespace) (trashByteDelta snapshotByteDelta : Int) : Prop where
  liveNodes : new.liveNodeCount = old.liveNodeCount
  liveBytes : new.liveFileByteCount = old.liveFileByteCount
  trashBytes : new.retainedTrashByteCount = old.retainedTrashByteCount + trashByteDelta
  snapshotBytes : new.retainedSnapshotByteCount = old.retainedSnapshotByteCount + snapshotByteDelta

def Blob.face (blob : Blob) : Uuid × BlobData := (blob.id, blob.toBlobData)

/-- What a mutation may bring in and take away: the content that it was given, and the paths
whose nodes it may remove. -/
structure Effects where
  stores : BlobData → Prop
  removes : List JsString → Prop

def Effects.any : Effects := ⟨fun _ => True, fun _ => True⟩

/-- What holds when the work of a mutation is done. Its new blobs are among those that
it was given, and the nodes that are gone were at paths that it removes. -/
structure TxDone (host : Host) (effects : Effects) (base : Database)
    (scope : List JsString → Prop) (held : List Uuid) (tx : MutationTx) : Prop where
  start : Consistent host base
  layout : Layout host tx.db.nodes tx.rootId
  books : NodeBooks base.nodes tx.db.nodes (tx.db.namespaceRow.liveNodeCount + tx.liveNodeDelta)
    (tx.db.namespaceRow.liveFileByteCount + tx.liveFileByteDelta) tx.folderDelta
  refs : RefBooks base.blobs tx.db.blobs (tx.db.references ++ held)
  trash : TrashBooks tx.db.trash tx.db.trashEntries tx.db.namespaceRow.retainedTrashNodeCount
    tx.db.namespaceRow.retainedTrashByteCount
  snapshots : SnapshotBooks tx.db.snapshots tx.db.snapshotEntries
    tx.db.namespaceRow.retainedSnapshotNodeCount tx.db.namespaceRow.retainedSnapshotByteCount
  issued : Issued host tx.db
  drawn : base.issued ≤ tx.db.issued
  blobRows : ∃ added, tx.db.blobs.map Blob.face = base.blobs.map Blob.face ++ added ∧
    ∀ face ∈ added, effects.stores face.2 ∧ ¬Drawn host base.issued face.1
  separate : ∀ entry ∈ tx.db.trashEntries, entry.sourceNodeId ∉ nodeIds tx.db.nodes
  origins : ∀ entry ∈ tx.db.trashEntries, entry ∈ base.trashEntries ∨
    ∃ old ∈ base.nodes, old.id = entry.sourceNodeId ∧ old.type = entry.type ∧
      old.version = entry.sourceRevision.version
  gone : ∀ old ∈ base.nodes, old.id ∉ nodeIds tx.db.nodes → ∀ path,
    PathOf base.nodes old.id path → effects.removes path
  marks : Marks host base scope tx.db.nodes tx.changed.get tx.ancestorChainMarked
  feed : Tracked base.nodes tx.db.nodes tx.changed.get tx.feedBefore
  feedState : tx.db.feedState = base.feedState
  feedEvents : tx.db.feedEvents = base.feedEvents
  status : tx.db.namespaceRow.status = base.namespaceRow.status
  row : RowMoved base.namespaceRow tx.db.namespaceRow tx.trashByteDelta tx.snapshotByteDelta
  checkpoint : tx.feedBefore.isSome = base.feedState.any fun feed => feed.hasCheckpoint

/-- What holds while no subtree has been moved: every row of the start that is still
there has its path, so states can be recorded. -/
structure TxInv (host : Host) (effects : Effects) (base : Database)
    (scope : List JsString → Prop) (held : List Uuid) (tx : MutationTx) : Prop
    extends TxDone host effects base scope held tx where
  still : ∀ id path, PathOf tx.db.nodes id path → id ∈ nodeIds base.nodes →
    PathOf base.nodes id path
  placed : ∀ id, tx.changed.get id ≠ none → ∃ path, PathOf tx.db.nodes id path ∧ scope path
  seenAbove : ∀ node ∈ tx.db.nodes, tx.Seen node.id → ∀ parentId,
    node.parentId = some parentId → tx.Seen parentId

variable {host : Host} {effects : Effects} {base : Database}
  {scope : List JsString → Prop} {held : List Uuid}
  {tx : MutationTx}

/-- A blob row was there at the start, or holds content that the mutation was given. -/
theorem TxDone.blob_origin (done : TxDone host effects base scope held tx) {blob : Blob}
    (member : blob ∈ tx.db.blobs) :
    (∃ old ∈ base.blobs, old.face = blob.face) ∨
      (effects.stores blob.toBlobData ∧ ¬Drawn host base.issued blob.id) := by
  rcases done.blobRows with ⟨added, rows, isNew⟩
  have face : blob.face ∈ base.blobs.map Blob.face ++ added :=
    rows ▸ List.mem_map_of_mem member
  rcases List.mem_append.mp face with isOld | isAdded
  · exact .inl (List.mem_map.mp isOld)
  · exact .inr (isNew blob.face isAdded)

theorem TxInv.initial {db : Database} (consistent : Consistent host db) {root : VfsNode}
    (found : db.findRoot = some root) (now : Nat) (scope : List JsString → Prop) :
    TxInv host effects db scope [] (.start db root.id now) := by
  rcases consistent.layout with ⟨rootId, layout⟩
  have isRoot : root.id = rootId := by
    have top : root.parentId = none := by simpa using List.find?_some found
    have member : root ∈ db.nodes := List.mem_of_find?_eq_some found
    have reached : PathOf db.nodes root.id [] := PathTo.root (List.mem_map_of_mem member) top
    exact PathTo.injective layout.tree reached layout.root
  have unset : ∀ id, (MutationTx.start db root.id now).changed.get id = none := fun id => rfl
  have nothing : ∀ before, (MutationTx.start db root.id now).feedBefore = some before →
      ∀ id, before.get id = none := by
    intro before isSome id
    simp only [MutationTx.start] at isSome
    split at isSome
    · cases isSome
      rfl
    · cases isSome
  refine
    { start := consistent, layout := isRoot ▸ layout, books := ?_, refs := ?_,
      trash := consistent.trash, snapshots := consistent.snapshots, issued := consistent.issued,
      drawn := Nat.le_refl _,
      blobRows := ⟨[], by simp [MutationTx.start], nofun⟩,
      separate := consistent.separate,
      gone := fun old member isGone => absurd (mem_nodeIds_of_mem member) isGone,
      origins := fun entry member => .inl member, marks := ?_, feed := ?_, feedState := rfl,
      feedEvents := rfl, status := rfl,
      row := ⟨rfl, rfl, (Int.add_zero _).symm, (Int.add_zero _).symm⟩, checkpoint := ?_,
      still := fun _ _ reached _ => reached,
      placed := fun id marked => absurd (unset id) marked, seenAbove := ?_ }
  · have unrecorded : (MutationTx.start db root.id now).folderDelta = fun _ => 0 := rfl
    rw [unrecorded]
    simpa [MutationTx.start] using consistent.books
  · simpa [MutationTx.start] using consistent.refs
  · exact
      { live := fun id marked => absurd (unset id) marked
        kept := fun node member _ => ⟨member, fun _ reached => reached⟩
        above := fun node _ marked => absurd (unset node.id) marked
        baseAbove := by
          intro old member changed
          rcases changed with marked | gone
          · exact absurd (unset old.id) marked
          · exact absurd (mem_nodeIds_of_mem member) gone
        raised := fun node _ marked => by simp [unset] at marked
        saved := fun node _ marked => by simp [unset] at marked
        allowed := fun id marked => absurd (unset id) marked
        chained := fun id member => by simp [MutationTx.start] at member }
  · refine ⟨fun before isSome id state recorded => ?_, ?_⟩
    · rw [nothing before isSome id] at recorded
      cases recorded
    · intro before isSome old member changed
      rcases changed with marked | gone
      · exact absurd (unset old.id) marked
      · exact absurd (mem_nodeIds_of_mem member) gone
  · simp only [MutationTx.start]
    split
    · rename_i isSome
      rw [isSome]
      rfl
    · rename_i isNone
      simpa using isNone
  · intro node member seen parentId below
    rcases seen with marked | recorded
    · exact absurd (unset node.id) marked
    · refine .inr fun before isSome => ?_
      exact absurd (nothing before isSome node.id) (recorded before isSome)

theorem TxInv.mono (holds : TxInv host effects base scope held tx) {wider : List JsString → Prop}
    (widens : ∀ path, scope path → wider path) : TxInv host effects base wider held tx :=
  { holds with
    marks := holds.marks.mono widens
    placed := fun id marked => by
      rcases holds.placed id marked with ⟨path, reached, inScope⟩
      exact ⟨path, reached, widens path inScope⟩ }

theorem TxInv.held_perm (holds : TxInv host effects base scope held tx) {others : List Uuid}
    (same : held.Perm others) : TxInv host effects base scope others tx :=
  { holds with refs := holds.refs.perm (same.append_left _) }

theorem TxDone.baseTree (done : TxDone host effects base scope held tx) : Rooted base.nodes :=
  done.start.tree

theorem TxDone.tree (done : TxDone host effects base scope held tx) : Rooted tx.db.nodes :=
  done.layout.tree

theorem TxInv.unmarked_of_path (holds : TxInv host effects base scope held tx) {id : Uuid}
    {path : List JsString} (reached : PathOf tx.db.nodes id path) (outside : ¬scope path) :
    tx.changed.get id = none := by
  by_contra marked
  rcases holds.placed id marked with ⟨other, otherReached, inScope⟩
  rw [PathTo.unique holds.tree otherReached reached] at inScope
  exact outside inScope

/-! ## Drawing an id -/

theorem Issued.draw {db : Database} (issued : Issued host db) :
    Issued host { db with issued := db.issued + 1 } where
  nodes id member := (issued.nodes id member).mono (Nat.le_succ _)
  sources entry member := (issued.sources entry member).mono (Nat.le_succ _)
  blobs id member := (issued.blobs id member).mono (Nat.le_succ _)
  trash id member := (issued.trash id member).mono (Nat.le_succ _)
  snapshots id member := (issued.snapshots id member).mono (Nat.le_succ _)

theorem TxInv.draw (holds : TxInv host effects base scope held tx) :
    TxInv host effects base scope held
      { tx with db := { tx.db with issued := tx.db.issued + 1 } } :=
  { holds with
    issued := holds.issued.draw
    drawn := Nat.le_succ_of_le holds.drawn }

/-- A drawn id that is in none of the tables, nor was at the start. -/
structure FreshId (host : Host) (base : Database) (tx : MutationTx) (id : Uuid) : Prop where
  drawn : Drawn host tx.db.issued id
  new : ¬Drawn host base.issued id
  node : id ∉ nodeIds tx.db.nodes
  source : ∀ entry ∈ tx.db.trashEntries, entry.sourceNodeId ≠ id
  blob : id ∉ tx.db.blobs.map Blob.id
  trash : id ∉ tx.db.trash.map TrashItem.id
  snapshot : id ∉ tx.db.snapshots.map Snapshot.id

theorem TxDone.freshId (done : TxDone host effects base scope held tx) :
    FreshId host base { tx with db := { tx.db with issued := tx.db.issued + 1 } }
      (host.randomUUID tx.db.issued) where
  drawn := drawn_next host tx.db.issued
  new drawn := not_drawn_next host tx.db.issued (drawn.mono done.drawn)
  node member := not_drawn_next host tx.db.issued (done.issued.nodes _ member)
  source entry member same :=
    not_drawn_next host tx.db.issued (same ▸ done.issued.sources entry member)
  blob member := not_drawn_next host tx.db.issued (done.issued.blobs _ member)
  trash member := not_drawn_next host tx.db.issued (done.issued.trash _ member)
  snapshot member := not_drawn_next host tx.db.issued (done.issued.snapshots _ member)

theorem FreshId.unused {id : Uuid} (fresh : FreshId host base tx id)
    (consistent : Consistent host base) : id ∉ nodeIds base.nodes :=
  fun member => fresh.new (consistent.issued.nodes id member)

/-! ## Recording states -/

theorem TxInv.knownPaths (holds : TxInv host effects base scope held tx) {before : NodeStates}
    (isSome : tx.feedBefore = some before) (path : List JsString) :
    KnownPaths tx.db.nodes before path := by
  intro id state front recorded _ reached
  have shows := holds.feed.states before isSome id state recorded
  have inBase : id ∈ nodeIds base.nodes := mem_nodeIds.mpr ⟨state.node, shows.1, shows.2.1⟩
  exact PathTo.unique holds.baseTree shows.2.2 (holds.still id front reached inBase)

theorem trackChangeFeedBefore_of_none (isNone : tx.feedBefore = none) (ids : List Uuid) :
    trackChangeFeedBefore host ids tx = .ok ((), tx) := by
  unfold trackChangeFeedBefore
  rw [bind_of_ok (rfl : state tx = .ok (tx, tx))]
  dsimp only
  rw [isNone]
  rfl

theorem trackChangeFeedBefore_of_some {before captured : OrderedMap Uuid ChangeFeedNodeState}
    {ids : List Uuid} (isSome : tx.feedBefore = some before)
    (run : captureChangeFeedNodes host tx.db.nodes
      (ids.filter fun id => !before.has id && !tx.changed.has id) before = .ok captured) :
    trackChangeFeedBefore host ids tx =
      .ok ((), { tx with feedBefore := some (before.merge captured) }) := by
  unfold trackChangeFeedBefore
  rw [bind_of_ok (rfl : state tx = .ok (tx, tx))]
  dsimp only
  rw [isSome]
  dsimp only
  rw [run]
  rfl

/-- Record the states of nodes whose parents are recorded with them or before. -/
theorem TxInv.track (holds : TxInv host effects base scope held tx) (ids : List Uuid)
    (above : ∀ node ∈ tx.db.nodes, node.id ∈ ids → ∀ parentId, node.parentId = some parentId →
      tx.Seen parentId ∨ parentId ∈ ids ∧ parentId ∈ nodeIds tx.db.nodes) :
    ∃ feedBefore, trackChangeFeedBefore host ids tx =
      .ok ((), { tx with feedBefore := feedBefore }) ∧
      TxInv host effects base scope held { tx with feedBefore := feedBefore } ∧
      (∀ id ∈ ids, id ∈ nodeIds tx.db.nodes →
        ({ tx with feedBefore := feedBefore } : MutationTx).Seen id) ∧
      ∀ id, tx.Seen id → ({ tx with feedBefore := feedBefore } : MutationTx).Seen id := by
  cases isSome : tx.feedBefore with
  | none =>
      have same : ({ tx with feedBefore := none } : MutationTx) = tx := by rw [← isSome]
      have all : ∀ id, tx.Seen id := fun id => .inr fun before impossible => by
        rw [isSome] at impossible
        cases impossible
      refine ⟨none, ?_, ?_, ?_, ?_⟩
      · rw [same]
        exact trackChangeFeedBefore_of_none isSome ids
      · rw [same]
        exact holds
      · rw [same]
        exact fun id _ _ => all id
      · rw [same]
        exact fun id _ => all id
  | some before =>
      let missing := ids.filter fun id => !before.has id && !tx.changed.has id
      have isMissing : ∀ id, id ∈ missing ↔
          id ∈ ids ∧ before.get id = none ∧ tx.changed.get id = none := by
        intro id
        simp [missing]
      rcases captureChangeFeedNodes_eq_ok host holds.tree missing before
        (fun node _ _ path _ => holds.knownPaths isSome path) with ⟨captured, run, found⟩
      have merged : ∀ id, (before.merge captured).get id = (captured.get id).or (before.get id) :=
        fun id => OrderedMap.get_merge before captured id
      have seenNow : ∀ id, id ∈ nodeIds tx.db.nodes → id ∈ ids →
          ({ tx with feedBefore := some (before.merge captured) } : MutationTx).Seen id := by
        intro id live asked
        by_cases marked : tx.changed.get id = none
        · refine .inr fun after isAfter => ?_
          cases isAfter
          rw [merged]
          cases recorded : before.get id with
          | some state => cases captured.get id <;> simp
          | none =>
              rcases mem_nodeIds.mp live with ⟨node, member, same⟩
              rcases holds.tree.exists_path member with ⟨path, reached⟩
              have shows : captured.get id = some ⟨node, path⟩ :=
                (found id ⟨node, path⟩).mpr ⟨(isMissing id).mpr ⟨asked, recorded, marked⟩,
                  member, same, same ▸ reached⟩
              simp [shows]
        · exact .inl marked
      have seenStill : ∀ id, tx.Seen id →
          ({ tx with feedBefore := some (before.merge captured) } : MutationTx).Seen id := by
        intro id seen
        rcases seen with marked | recorded
        · exact .inl marked
        · refine .inr fun after isAfter => ?_
          cases isAfter
          rw [merged]
          have present := recorded before isSome
          cases captured.get id with
          | some state => simp
          | none => simpa using present
      refine ⟨some (before.merge captured), ?_, ?_, fun id asked live => seenNow id live asked,
        seenStill⟩
      · exact trackChangeFeedBefore_of_some isSome run
      · refine { holds with feed := ⟨?_, ?_⟩, checkpoint := ?_, seenAbove := ?_ }
        · intro after isAfter id state recorded
          cases isAfter
          rw [merged] at recorded
          cases fromCapture : captured.get id with
          | none =>
              rw [fromCapture, Option.none_or] at recorded
              exact holds.feed.states before isSome id state recorded
          | some other =>
              rw [fromCapture, Option.some_or] at recorded
              cases recorded
              rcases (found id state).mp fromCapture with ⟨inMissing, member, same, reached⟩
              have clean := ((isMissing id).mp inMissing).2.2
              have kept := holds.marks.kept state.node member (same ▸ clean)
              exact ⟨kept.1, same, same ▸ kept.2 _ (same ▸ reached)⟩
        · intro after isAfter old member changed
          cases isAfter
          rw [merged]
          have present := holds.feed.covers before isSome old member changed
          cases captured.get old.id with
          | some state => simp
          | none => simpa using present
        · rw [← holds.checkpoint, isSome]
          rfl
        · intro node member seen parentId below
          by_cases asked : node.id ∈ ids
          · rcases above node member asked parentId below with parentSeen | ⟨inside, live⟩
            · exact seenStill parentId parentSeen
            · exact seenNow parentId live inside
          · refine seenStill parentId (holds.seenAbove node member ?_ parentId below)
            rcases seen with marked | recorded
            · exact .inl marked
            · refine .inr fun other isOther => ?_
              rw [isSome] at isOther
              cases isOther
              have present := recorded (before.merge captured) rfl
              rw [merged] at present
              cases fromCapture : captured.get node.id with
              | none =>
                  rw [fromCapture] at present
                  simpa using present
              | some state =>
                  have inMissing := ((found node.id state).mp fromCapture).1
                  exact absurd ((isMissing node.id).mp inMissing).1 asked

/-! ## Marking -/

/-- Mark nodes together with everything above them, where their states are
recorded. -/
theorem TxInv.ancestors (holds : TxInv host effects base scope held tx) {ids chained : List Uuid}
    {changed : OrderedMap Uuid Bool}
    (marks : changed.get = markAll tx.changed.get ids true)
    (parents : ∀ node ∈ tx.db.nodes, node.id ∈ ids → ∀ parentId, node.parentId = some parentId →
      parentId ∈ ids ∨ tx.changed.get parentId ≠ none)
    (seen : ∀ id ∈ ids, tx.Seen id)
    (inScope : ∀ id ∈ ids, ∃ path, PathOf tx.db.nodes id path ∧ scope path)
    (chain : ∀ id ∈ chained, id ∈ tx.ancestorChainMarked ∨ id ∈ ids) :
    TxInv host effects base scope held
      { tx with changed := changed, ancestorChainMarked := chained } := by
  have live : ∀ id ∈ ids, id ∈ nodeIds tx.db.nodes := by
    intro id inside
    rcases inScope id inside with ⟨path, reached, _⟩
    exact mem_nodeIds.mpr (PathOf.exists_node reached)
  have sameSeen : ∀ id, Seen (markAll tx.changed.get ids true) tx.feedBefore id ↔ tx.Seen id := by
    intro id
    constructor
    · rintro (marked | recorded)
      · rcases markAll_ne_none_iff.mp marked with marked | inside
        · exact .inl marked
        · exact seen id inside
      · exact .inr recorded
    · rintro (marked | recorded)
      · exact .inl (markAll_ne_none_iff.mpr (.inl marked))
      · exact .inr recorded
  have next := holds.marks.ancestors live parents
    (fun id inside path reached => by
      rcases inScope id inside with ⟨current, currentReached, allowed⟩
      have inBase : id ∈ nodeIds base.nodes := mem_nodeIds.mpr (PathOf.exists_node reached)
      rw [PathTo.unique holds.baseTree reached (holds.still id current currentReached inBase)]
      exact allowed)
    holds.baseTree
  refine { holds with marks := ?_, feed := ?_, placed := ?_, seenAbove := ?_ }
  · change Marks host base scope tx.db.nodes changed.get chained
    rw [marks]
    refine { next with chained := fun id inside => ?_ }
    exact next.chained id (List.mem_append.mpr (chain id inside))
  · change Tracked base.nodes tx.db.nodes changed.get tx.feedBefore
    rw [marks]
    refine holds.feed.change fun old member marked => ?_
    rcases marked with marked | gone
    · rcases markAll_ne_none_iff.mp marked with marked | inside
      · exact .inl (.inl marked)
      · exact .inr (seen old.id inside)
    · exact .inl (.inr gone)
  · intro id marked
    change changed.get id ≠ none at marked
    rw [marks] at marked
    rcases markAll_ne_none_iff.mp marked with marked | inside
    · exact holds.placed id marked
    · exact inScope id inside
  · intro node member nodeSeen parentId below
    change Seen changed.get tx.feedBefore node.id at nodeSeen
    change Seen changed.get tx.feedBefore parentId
    rw [marks, sameSeen] at nodeSeen ⊢
    exact holds.seenAbove node member nodeSeen parentId below

/-! ## A new row -/

structure Plantable (host : Host) (base : Database) (tx : MutationTx) (row : VfsNode)
    (parentId : Uuid) (front : List JsString) : Prop
    extends Insertable host tx.db.nodes row parentId front where
  drawn : Drawn host tx.db.issued row.id
  unused : row.id ∉ nodeIds base.nodes
  source : ∀ entry ∈ tx.db.trashEntries, entry.sourceNodeId ≠ row.id
  marked : tx.changed.get parentId ≠ none
  origin : Origin host base row
  zero : row.childFileCount = 0

theorem Issued.insert {db : Database} (issued : Issued host db) {row : VfsNode}
    (drawn : Drawn host db.issued row.id) :
    Issued host { db with nodes := db.nodes ++ [row] } :=
  { issued with
    nodes := fun id inside => by
      rcases mem_nodeIds.mp inside with ⟨node, member, rfl⟩
      rcases List.mem_append.mp member with member | member
      · exact issued.nodes node.id (mem_nodeIds_of_mem member)
      · rw [List.mem_singleton] at member
        exact member ▸ drawn }

theorem TxInv.insert {row : VfsNode} {parentId : Uuid} {front : List JsString}
    (holds : TxInv host effects base scope (fileBlobs [row] ++ held) tx)
    (plantable : Plantable host base tx row parentId front)
    (inScope : scope (front ++ [row.name])) {changed : OrderedMap Uuid Bool}
    {folders : OrderedMap Uuid Int} {nodeDelta byteDelta : Int}
    (marks : changed.get = markAll tx.changed.get [row.id] false)
    (deltas : ∀ id, (folders.get id).getD 0 = tx.folderDelta id + fileBelow id row)
    (counted : nodeDelta = tx.liveNodeDelta + 1)
    (weighed : byteDelta = tx.liveFileByteDelta + fileSize row) :
    TxInv host effects base scope held
      { tx with
        db := { tx.db with nodes := tx.db.nodes ++ [row] }
        changed := changed
        folderFileDeltas := folders
        liveNodeDelta := nodeDelta
        liveFileByteDelta := byteDelta } := by
  have insertable := plantable.toInsertable
  have self := pathOf_insert_self insertable.below insertable.reached
  have paths : ∀ id, id ≠ row.id → ∀ path, PathOf (tx.db.nodes ++ [row]) id path ↔
      PathOf tx.db.nodes id path := fun id different path =>
    pathOf_insert_iff holds.tree insertable.fresh different
  have apart : ∀ id, tx.changed.get id ≠ none → id ≠ row.id := by
    rintro id marked rfl
    exact insertable.fresh (holds.marks.live _ marked)
  refine
    { start := holds.start, layout := holds.layout.insert insertable, books := ?_, refs := ?_,
      trash := holds.trash, snapshots := holds.snapshots,
      issued := holds.issued.insert plantable.drawn, drawn := holds.drawn,
      blobRows := holds.blobRows, separate := ?_, gone := ?_,
      origins := holds.origins, marks := ?_, feed := ?_, feedState := holds.feedState,
      feedEvents := holds.feedEvents, status := holds.status, row := holds.row,
      checkpoint := holds.checkpoint,
      still := ?_, placed := ?_, seenAbove := ?_ }
  · refine (holds.books.insert insertable holds.tree plantable.unused plantable.zero).congr
      ?_ ?_ fun id => (deltas id).symm
    · simp only [counted]
      omega
    · simp only [weighed]
      omega
  · refine holds.refs.perm (List.perm_iff_count.mpr fun id => ?_)
    simp only [Database.references, fileBlobs_append, List.count_append]
    omega
  · intro entry member inside
    rcases mem_nodeIds.mp inside with ⟨node, nodeMember, same⟩
    rcases List.mem_append.mp nodeMember with nodeMember | nodeMember
    · exact holds.separate entry member (same ▸ mem_nodeIds_of_mem nodeMember)
    · rw [List.mem_singleton] at nodeMember
      exact plantable.source entry member (same.symm.trans (congrArg VfsNode.id nodeMember))
  · intro old member isGone
    refine holds.gone old member fun live => isGone ?_
    rcases mem_nodeIds.mp live with ⟨node, nodeMember, same⟩
    exact mem_nodeIds.mpr ⟨node, List.mem_append_left _ nodeMember, same⟩
  · change Marks host base scope (tx.db.nodes ++ [row]) changed.get tx.ancestorChainMarked
    rw [marks]
    exact holds.marks.insert insertable holds.tree plantable.unused plantable.marked
      plantable.origin
  · change Tracked base.nodes (tx.db.nodes ++ [row]) changed.get tx.feedBefore
    rw [marks]
    refine holds.feed.change fun old member changedOld => ?_
    have different : old.id ≠ row.id := fun same =>
      plantable.unused (same ▸ mem_nodeIds_of_mem member)
    rcases changedOld with marked | gone
    · rcases markAll_ne_none_iff.mp marked with marked | inside
      · exact .inl (.inl marked)
      · exact absurd (by simpa using inside) different
    · refine .inl (.inr fun live => gone ?_)
      rcases mem_nodeIds.mp live with ⟨node, nodeMember, same⟩
      exact mem_nodeIds.mpr ⟨node, List.mem_append_left _ nodeMember, same⟩
  · intro id path reached inBase
    have different : id ≠ row.id := fun same => plantable.unused (same ▸ inBase)
    exact holds.still id path ((paths id different path).mp reached) inBase
  · intro id marked
    change changed.get id ≠ none at marked
    rw [marks] at marked
    rcases markAll_ne_none_iff.mp marked with marked | inside
    · rcases holds.placed id marked with ⟨path, reached, allowed⟩
      exact ⟨path, (paths id (apart id marked) path).mpr reached, allowed⟩
    · rw [List.mem_singleton] at inside
      exact ⟨front ++ [row.name], inside ▸ self, inScope⟩
  · intro node member nodeSeen above below
    change Seen changed.get tx.feedBefore node.id at nodeSeen
    change Seen changed.get tx.feedBefore above
    rw [marks] at nodeSeen ⊢
    have widen : ∀ id, tx.Seen id →
        Seen (markAll tx.changed.get [row.id] false) tx.feedBefore id := fun id seen =>
      seen.imp (fun marked => markAll_ne_none_iff.mpr (.inl marked)) fun recorded => recorded
    rcases List.mem_append.mp member with member | member
    · have different : node.id ≠ row.id := fun same =>
        insertable.fresh (same ▸ mem_nodeIds_of_mem member)
      have before : tx.Seen node.id := by
        rcases nodeSeen with marked | recorded
        · rw [markAll_of_not_mem (by simpa using different)] at marked
          exact .inl marked
        · exact .inr recorded
      exact widen above (holds.seenAbove node member before above below)
    · rw [List.mem_singleton] at member
      subst member
      rw [insertable.below] at below
      cases below
      exact widen _ (.inl plantable.marked)

/-! ## A rewritten row -/

/-- Rewrite the content of a row and record the change of its bytes. `held` trades the
new content for the old. -/
theorem TxInv.rewrite {old : VfsNode} {transform : VfsNode → VfsNode} {held' : List Uuid}
    (holds : TxInv host effects base scope held tx) (member : old ∈ tx.db.nodes)
    (keeps : KeepsLinks tx.db.nodes (rewriteRow old.id transform))
    (counts : (transform old).childFileCount = old.childFileCount)
    (swap : (fileBlobs [old] ++ held).Perm (fileBlobs [transform old] ++ held'))
    (increment : Bool) (parentMarked : ∀ id, old.parentId = some id → tx.changed.get id ≠ none)
    (first : tx.changed.get old.id = none →
      (transform old).version = old.version + if increment then 0 else 1)
    (again : tx.changed.get old.id ≠ none → (transform old).version = old.version)
    (seen : tx.Seen old.id) {path : List JsString} (reached : PathOf tx.db.nodes old.id path)
    (inScope : scope path) {changed : OrderedMap Uuid Bool} {byteDelta : Int}
    (marks : changed.get = markAll tx.changed.get [old.id] increment)
    (weighed : byteDelta = tx.liveFileByteDelta + (fileSize (transform old) - fileSize old)) :
    TxInv host effects base scope held'
      { tx with
        db := { tx.db with nodes := tx.db.nodes.map (rewriteRow old.id transform) }
        changed := changed
        liveFileByteDelta := byteDelta } := by
  have sameSeen : ∀ id, Seen (markAll tx.changed.get [old.id] increment) tx.feedBefore id ↔
      tx.Seen id := by
    intro id
    constructor
    · rintro (marked | recorded)
      · rcases markAll_ne_none_iff.mp marked with marked | inside
        · exact .inl marked
        · rw [List.mem_singleton] at inside
          exact inside ▸ seen
      · exact .inr recorded
    · rintro (marked | recorded)
      · exact .inl (markAll_ne_none_iff.mpr (.inl marked))
      · exact .inr recorded
  refine
    { start := holds.start, layout := holds.layout.rewrite keeps, books := ?_, refs := ?_,
      trash := holds.trash, snapshots := holds.snapshots, issued := ?_, drawn := holds.drawn,
      blobRows := holds.blobRows, gone := ?_,
      separate := ?_, origins := holds.origins, marks := ?_, feed := ?_,
      feedState := holds.feedState, feedEvents := holds.feedEvents, status := holds.status,
      row := holds.row, checkpoint := holds.checkpoint, still := ?_, placed := ?_, seenAbove := ?_ }
  · refine (holds.books.rewrite holds.tree member keeps counts).congr rfl ?_ fun _ => rfl
    simp only [weighed]
    omega
  · rcases fileBlobs_rewrite holds.tree.ids_nodup member transform with ⟨others, before, after⟩
    refine holds.refs.perm (List.perm_iff_count.mpr fun id => ?_)
    have countBefore := before.count_eq id
    have countAfter := after.count_eq id
    have countSwap := swap.count_eq id
    simp only [List.count_append] at countBefore countAfter countSwap
    simp only [Database.references, List.count_append]
    omega
  · refine { holds.issued with nodes := fun id inside => holds.issued.nodes id ?_ }
    rwa [keeps.nodeIds_eq] at inside
  · intro entry entryMember
    change entry.sourceNodeId ∉ nodeIds (tx.db.nodes.map (rewriteRow old.id transform))
    rw [keeps.nodeIds_eq]
    exact holds.separate entry entryMember
  · intro other otherMember isGone
    change other.id ∉ nodeIds (tx.db.nodes.map (rewriteRow old.id transform)) at isGone
    rw [keeps.nodeIds_eq] at isGone
    exact holds.gone other otherMember isGone
  · change Marks host base scope (tx.db.nodes.map (rewriteRow old.id transform)) changed.get
      tx.ancestorChainMarked
    rw [marks]
    refine holds.marks.rewrite holds.tree holds.baseTree member keeps increment parentMarked first
      again fun basePath baseReached => ?_
    have inBase : old.id ∈ nodeIds base.nodes := mem_nodeIds.mpr (PathOf.exists_node baseReached)
    rw [PathTo.unique holds.baseTree baseReached (holds.still old.id path reached inBase)]
    exact inScope
  · change Tracked base.nodes (tx.db.nodes.map (rewriteRow old.id transform)) changed.get
      tx.feedBefore
    rw [marks]
    refine holds.feed.change fun node _ changedNode => ?_
    rw [keeps.nodeIds_eq] at changedNode
    rcases changedNode with marked | gone
    · rcases markAll_ne_none_iff.mp marked with marked | inside
      · exact .inl (.inl marked)
      · rw [List.mem_singleton] at inside
        exact .inr (inside ▸ seen)
    · exact .inl (.inr gone)
  · intro id idPath idReached inBase
    exact holds.still id idPath (keeps.pathOf_iff.mp idReached) inBase
  · intro id marked
    change changed.get id ≠ none at marked
    rw [marks] at marked
    rcases markAll_ne_none_iff.mp marked with marked | inside
    · rcases holds.placed id marked with ⟨idPath, idReached, allowed⟩
      exact ⟨idPath, keeps.pathOf_iff.mpr idReached, allowed⟩
    · rw [List.mem_singleton] at inside
      exact ⟨path, keeps.pathOf_iff.mpr (inside ▸ reached), inScope⟩
  · intro node inside nodeSeen above below
    change Seen changed.get tx.feedBefore node.id at nodeSeen
    change Seen changed.get tx.feedBefore above
    rw [marks, sameSeen] at nodeSeen ⊢
    rcases List.mem_map.mp inside with ⟨before, beforeMember, rfl⟩
    rw [keeps.id_eq beforeMember] at nodeSeen
    rw [keeps.parentId_eq beforeMember] at below
    exact holds.seenAbove before beforeMember nodeSeen above below

end Storix
