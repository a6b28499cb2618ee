import Storix.Foundation.Frame
import Storix.Results.Frames

/-! # What a snapshot stores

A snapshot that is taken holds one entry for each node of the subtree at its source, and
nothing else; the tree itself is left as it was. -/

namespace Storix

open Foundation Foundation.Command

variable {host : Host} {effects : Effects} {base db : Database}
  {scope : List JsString → Prop} {held : List Uuid} {tx next : MutationTx}

/-! ## Pinning the blobs -/

def BesideBlobs (tx next : MutationTx) : Prop :=
  next = { tx with db := { tx.db with blobs := next.db.blobs } }

instance : IsPreorder MutationTx BesideBlobs where
  refl _ := rfl
  trans tx middle next first second := by
    unfold BesideBlobs at first second ⊢
    rw [second, first]

theorem besideBlobs_pinSnapshotBlob (sourcePath : JsString) (entry : Uuid × Nat) :
    Respects BesideBlobs (pinSnapshotBlob sourcePath entry) := by
  apply Respects.bind
  · apply Respects.ite (respects_stop _)
    apply respects_state.bind
    intro current
    apply Respects.bind
    · apply respects_update
      intro _
      exact rfl
    · intro _
      exact respects_pure _
  · intro live
    exact .ite (respects_pure _) (respects_stop _)

/-! ## The stored rows -/

structure SnapshotStored (host : Host) (kind : SnapshotKind) (sourcePath : JsString)
    (rows : List SnapshotSourceRow) (tx next : MutationTx) (snapshot : Snapshot) : Prop where
  id : snapshot.id = host.randomUUID tx.db.issued
  kind : snapshot.kind = kind
  sourcePath : snapshot.sourcePath = sourcePath
  nodeCount : snapshot.nodeCount = rows.length
  logicalBytes : snapshot.logicalBytes = removedBytes rows
  root : (rows.head?.map fun row => (row.id, row.revision, row.type)) =
    some (snapshot.rootNodeId, snapshot.sourceRevision, snapshot.rootType)
  snapshots : next.db.snapshots = tx.db.snapshots ++ [snapshot]
  entries : next.db.snapshotEntries =
    tx.db.snapshotEntries ++ rows.map (snapshotEntryOf snapshot.id)
  retained : next.db.namespaceRow = { tx.db.namespaceRow with
    retainedSnapshotNodeCount := tx.db.namespaceRow.retainedSnapshotNodeCount + rows.length
    retainedSnapshotByteCount :=
      tx.db.namespaceRow.retainedSnapshotByteCount + removedBytes rows }
  nodes : next.db.nodes = tx.db.nodes
  unmarked : next.changed = tx.changed ∧ next.folderFileDeltas = tx.folderFileDeltas
  distinct : (rows.map SnapshotSourceRow.relativePath).Nodup
  own : rows.length ≤ (resolveSnapshotLimits host tx.db.namespaceRow.settings).maxNodes ∧
    removedBytes rows ≤ (resolveSnapshotLimits host tx.db.namespaceRow.settings).maxBytes
  total : tx.db.namespaceRow.retainedSnapshotNodeCount + rows.length ≤
      (resolveSnapshotLimits host tx.db.namespaceRow.settings).maxRetainedNodes ∧
    tx.db.namespaceRow.retainedSnapshotByteCount + removedBytes rows ≤
      (resolveSnapshotLimits host tx.db.namespaceRow.settings).maxRetainedBytes

theorem captureSnapshot_stores (kind : SnapshotKind) (sourcePath : JsString)
    (rows : List SnapshotSourceRow) (tx : MutationTx) :
    Satisfies (captureSnapshot host kind sourcePath rows)
      (fun outcome next => SnapshotStored host kind sourcePath rows tx next outcome.1)
      (fun _ => True) tx := by
  unfold captureSnapshot
  rw [satisfies_bind, satisfies_state]
  apply satisfies_ite.mpr
  constructor
  · intro _
    trivial
  · intro _
    cases rows with
    | nil => trivial
    | cons root rest =>
        dsimp only
        generalize isRows : root :: rest = rows
        apply satisfies_ite.mpr
        constructor
        · intro _
          trivial
        · intro accepted
          apply satisfies_ite.mpr
          constructor
          · intro _
            trivial
          · intro within
            rw [satisfies_bind]
            unfold chargeSnapshot
            rw [satisfies_bind, satisfies_state]
            apply satisfies_ite.mpr
            constructor
            · intro room
              rw [satisfies_bind, satisfies_updateDb, satisfies_update, satisfies_bind]
              apply (respects_forEach (besideBlobs_pinSnapshotBlob sourcePath) _ _).imp
              intro _ pinned same
              unfold BesideBlobs at same
              rw [same]
              unfold storeSnapshot
              simp only [satisfies_bind, satisfies_drawUuid, satisfies_state, satisfies_updateDb,
                satisfies_pure]
              apply (satisfies_lift _).mpr
              constructor
              · intro sha256 _
                constructor
                all_goals first | rfl | skip
                · rw [← isRows]
                  rfl
                · exact ⟨rfl, rfl⟩
                · exact not_not.mp fun repeated => accepted (.inl repeated)
                · omega
                · omega
              · intro _ _
                trivial
            · intro _
              trivial

/-! ## The whole request -/

structure SnapshotTaken (host : Host) (path : ResolvedPath host) (kind : SnapshotKind)
    (sourceRevision : Option Revision) (tx next : MutationTx) (source : VfsNode)
    (trees : List TreeRow) (snapshot : Snapshot) : Prop where
  captured : Captured tx path.segments
    (resolveSnapshotLimits host tx.db.namespaceRow.settings).maxNodes
    (trees.map TreeRow.captured) source trees
  root : ∃ first rest, trees = first :: rest ∧ (kind = .file → first.node.type ≠ .directory) ∧
    (kind = .tree → first.node.type = .directory) ∧
    ∀ revision, sourceRevision = some revision → revision = first.captured.revision
  stored : SnapshotStored host kind path.canonical (trees.map TreeRow.captured) tx next snapshot

theorem createSnapshot_takes (holds : TxInv host effects base scope held tx)
    (path : ResolvedPath host) (kind : SnapshotKind) (sourceRevision : Option Revision) :
    Satisfies (createSnapshot host path kind sourceRevision)
      (fun outcome next => ∃ source trees,
        SnapshotTaken host path kind sourceRevision tx next source trees outcome.1)
      (fun _ => True) tx := by
  unfold createSnapshot
  rw [satisfies_bind, satisfies_state, satisfies_bind]
  apply (captureSnapshotRows_spec holds).mono
  · intro rows current captures
    rcases captures with ⟨rfl, source, trees, captured⟩
    have isRows := captured.captured
    subst isRows
    cases trees with
    | nil => trivial
    | cons first rest =>
        apply satisfies_ite.mpr
        constructor
        · intro _
          trivial
        · intro notDirectory
          apply satisfies_ite.mpr
          constructor
          · intro _
            trivial
          · intro notTree
            apply satisfies_ite.mpr
            constructor
            · intro _
              cases current.db.findNode first.captured.id with
              | none => trivial
              | some node =>
                  apply satisfies_stopPrecondition.mono
                  · intro _ _ ends
                    exact ends
                  · intro _ _
                    trivial
            · intro agrees
              apply (captureSnapshot_stores kind path.canonical _ _).imp
              intro outcome next stored
              refine ⟨source, first :: rest, captured, ⟨first, rest, rfl, ?_, ?_, ?_⟩, stored⟩
              · intro isFile isDirectory
                exact notDirectory ⟨isFile, isDirectory⟩
              · intro isTree
                by_contra other
                exact notTree ⟨isTree, other⟩
              · intro revision isRevision
                by_contra other
                rw [isRevision] at agrees
                exact agrees (by simpa using other)
  · intro _ _
    trivial

/-! ## The committed snapshot -/

/-- The entry of the node that is found by `rest` below the source. -/
def entryAt (snapshotId : Uuid) (rest : List JsString) (node : VfsNode) : SnapshotEntry :=
  snapshotEntryOf snapshotId (TreeRow.captured ⟨node, joinRelative rest⟩)

/-- The snapshot holds the subtree at `path` as `db` has it. -/
structure ExactSnapshot (host : Host) (db next : Database) (path : ResolvedPath host)
    (kind : SnapshotKind) (sourceRevision : Option Revision) (source : VfsNode)
    (snapshot : Snapshot) (entries : List SnapshotEntry) : Prop where
  member : source ∈ db.nodes
  reached : PathOf db.nodes source.id path.segments
  typed : source.type = .file ↔ kind = .file
  agreed : ∀ revision, sourceRevision = some revision → revision = ⟨source.id, source.version⟩
  isKind : snapshot.kind = kind
  isPath : snapshot.sourcePath = path.canonical
  isRoot : snapshot.rootNodeId = source.id ∧
    snapshot.sourceRevision = ⟨source.id, source.version⟩ ∧ snapshot.rootType = source.type
  isNew : snapshot.id ∉ db.snapshots.map Snapshot.id
  snapshots : next.snapshots = db.snapshots ++ [snapshot]
  tables : next.snapshotEntries = db.snapshotEntries ++ entries
  nodes : next.nodes = db.nodes
  contents : ∀ blob ∈ db.blobs, ∃ later ∈ next.blobs, later.face = blob.face
  /-- One entry for each node below the source, with what the node has at this moment. -/
  exact : ∀ entry, entry ∈ entries ↔ ∃ node ∈ db.nodes, ∃ rest,
    PathOf db.nodes node.id (path.segments ++ rest) ∧ entry = entryAt snapshot.id rest node
  distinct : (entries.map SnapshotEntry.relativePath).Nodup
  counts : snapshot.nodeCount = entries.length ∧
    snapshot.logicalBytes = (entries.map SnapshotEntry.bytes).sum
  own : snapshot.nodeCount ≤ (resolveSnapshotLimits host db.namespaceRow.settings).maxNodes ∧
    snapshot.logicalBytes ≤ (resolveSnapshotLimits host db.namespaceRow.settings).maxBytes
  total : next.namespaceRow.retainedSnapshotNodeCount ≤
      (resolveSnapshotLimits host db.namespaceRow.settings).maxRetainedNodes ∧
    next.namespaceRow.retainedSnapshotByteCount ≤
      (resolveSnapshotLimits host db.namespaceRow.settings).maxRetainedBytes

theorem settledRow_of_unmarked (unmarked : tx.changed.get = fun _ => none)
    (uncounted : tx.folderFileDeltas.get = fun _ => none) (node : VfsNode) :
    settledRow tx node = node := by
  have notRaised : node.id ∉ tx.raisedIds := by
    rw [MutationTx.mem_raisedIds, unmarked]
    simp
  have noDelta : tx.folderDelta node.id = 0 := by
    rw [MutationTx.folderDelta, uncounted]
    rfl
  unfold settledRow bumped counted
  simp [notRaised, noDelta]

theorem exactSnapshot_of_run (reached : Reachable host db) (path : ResolvedPath host)
    (kind : SnapshotKind) (sourceRevision : Option Revision) (now : Nat)
    {afterBump : MutationTx → Unit → List AffectedRevision → Except VfsError Unit}
    {committed : Committed Unit}
    (result : (Mutation.createSnapshot path kind sourceRevision).run now afterBump db =
      .ok committed) :
    ∃ source snapshot entries,
      ExactSnapshot host db committed.db path kind sourceRevision source snapshot entries := by
  have consistent := reached.consistent
  rcases Mutation.run_eq_ok consistent result with ⟨tx, wrote, finished⟩
  rcases wrote.work with ⟨root, isRoot, worked⟩
  have holds : TxInv host .any db (fun _ => True) [] (.start db root.id now) :=
    TxInv.initial consistent isRoot now _
  have takes : Satisfies (Mutation.createSnapshot path kind sourceRevision).work
      (fun _ next => ∃ snapshot source trees,
        SnapshotTaken host path kind sourceRevision (.start db root.id now) next source trees
          snapshot) (fun _ => True) (.start db root.id now) := by
    apply satisfies_ignore
    apply (createSnapshot_takes holds path kind sourceRevision).imp
    intro outcome _ captures
    exact ⟨outcome.1, captures⟩
  rcases takes.of_ok worked with ⟨snapshot, source, trees, taken⟩
  have captured := taken.captured
  have stored := taken.stored
  have whole := captured.whole (.inl stored.own.1)
  have inside : ∀ row, row ∈ trees ↔ row.node ∈ db.nodes ∧ ∃ rest,
      PathOf db.nodes row.node.id (path.segments ++ rest) ∧
        row.relativePath = joinRelative rest := by
    intro row
    rw [whole.mem_iff]
    exact mem_subtreeRows consistent.tree holds.layout.valid captured.member captured.reached
  rcases captured.head whole with ⟨others, isTrees⟩
  rcases taken.root with ⟨first, rest, isCons, notDirectory, isTree, agrees⟩
  have isFirst : first = ⟨source, dot⟩ := by
    rw [isTrees] at isCons
    exact (List.cons.inj isCons).1.symm
  rw [isFirst] at notDirectory isTree agrees
  have isRootRow := stored.root
  rw [isTrees] at isRootRow
  simp only [List.map_cons, List.head?_cons, Option.map_some, Option.some.injEq,
    Prod.mk.injEq] at isRootRow
  rcases finished.tables with ⟨feedState, feedEvents, issued, _, isNext⟩
  have unmarked : tx.changed.get = fun _ => none := by
    rw [stored.unmarked.1]
    rfl
  have uncounted : tx.folderFileDeltas.get = fun _ => none := by
    rw [stored.unmarked.2]
    rfl
  refine ⟨source, snapshot, capturedEntries snapshot.id trees, ?_⟩
  constructor
  · exact captured.member
  · exact captured.reached
  · constructor
    · intro isFile
      cases isKind : kind with
      | file => rfl
      | tree =>
          have isDirectory := isTree isKind
          rw [isFile] at isDirectory
          cases isDirectory
    · intro isKind
      cases isType : source.type with
      | file => rfl
      | directory => exact absurd isType (notDirectory isKind)
  · exact agrees
  · exact stored.kind
  · exact stored.sourcePath
  · exact ⟨isRootRow.1.symm, isRootRow.2.1.symm, isRootRow.2.2.symm⟩
  · rw [stored.id]
    exact holds.freshId.snapshot
  · rw [isNext]
    exact stored.snapshots
  · rw [isNext]
    exact stored.entries
  · rw [isNext]
    change tx.db.nodes.map (settledRow tx) = db.nodes
    rw [stored.nodes]
    exact (List.map_congr_left fun node _ => settledRow_of_unmarked unmarked uncounted node).trans
      (List.map_id _)
  · intro blob member
    exact wrote.keeps_blob finished member
  · intro entry
    constructor
    · intro isEntry
      rcases List.mem_map.mp isEntry with ⟨_, isRow, rfl⟩
      rcases List.mem_map.mp isRow with ⟨row, isTreeRow, rfl⟩
      rcases (inside row).mp isTreeRow with ⟨member, rest, reachedRow, text⟩
      refine ⟨row.node, member, rest, reachedRow, ?_⟩
      rw [entryAt, ← text]
    · intro found
      rcases found with ⟨node, member, rest, reachedNode, rfl⟩
      apply List.mem_map_of_mem
      apply List.mem_map_of_mem
      exact (inside _).mpr ⟨member, rest, reachedNode, rfl⟩
  · have distinct := stored.distinct
    rw [capturedEntries, List.map_map]
    exact distinct
  · constructor
    · rw [stored.nodeCount, capturedEntries, List.length_map, List.length_map, List.length_map]
    · rw [stored.logicalBytes, sum_bytes_captured]
  · rw [stored.nodeCount, stored.logicalBytes]
    exact ⟨Int.ofNat_le.mpr stored.own.1, Int.ofNat_le.mpr stored.own.2⟩
  · have total := stored.total
    rw [isNext]
    change tx.db.namespaceRow.retainedSnapshotNodeCount ≤ _ ∧
      tx.db.namespaceRow.retainedSnapshotByteCount ≤ _
    rw [stored.retained]
    exact total

end Storix
