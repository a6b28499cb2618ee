import Storix.Invariants.Runs

/-! # Tables of a reachable namespace

Reference counts, counters, the tree and its paths in every state that committed
transactions lead to. -/

namespace Storix

open Foundation Foundation.Command

variable {host : Host} {db : Database}

/-! ## Small runs -/

/-- The state after a mutation that no hook rejects; a failed one changes nothing. -/
def Mutation.after (mutation : Mutation host) (now : Nat) (db : Database) : Database :=
  match mutation.run now (fun _ _ _ => .ok ()) db with
  | .ok committed => committed.db
  | .error _ => db

theorem Runs.after (mutation : Mutation host) (now : Nat) (db : Database) :
    Runs host db (mutation.after now db) := by
  unfold Mutation.after
  split
  · rename_i committed result
    exact .tail (.refl db) (.mutation mutation now _ result)
  · exact .refl db

theorem Reachable.after (reached : Reachable host db) (mutation : Mutation host) (now : Nat) :
    Reachable host (mutation.after now db) :=
  (Runs.after mutation now db).reachable reached

namespace Small

/-- As long as draws are smaller than `2 ^ 60`, the ids of this host are UUIDs of version 4. -/
def uuidHost : Host :=
  { Host.counting with
    randomUUID := fun draw => 0x40008000000000000000 + draw
    randomUUID_injective := fun _ _ same => Nat.add_left_cancel same }

def settings : NamespaceSettings where
  trashEnabled := true
  maxSyncDeleteNodes := none
  maxSyncCopyNodes := none
  maxSyncMoveNodes := none
  maxSyncSnapshotNodes := none
  maxSnapshotBytes := none
  maxRetainedSnapshotNodes := none
  maxRetainedSnapshotBytes := none
  maxTotalLogicalBytes := none
  maxFilesPerFolder := none
  maxLiveNodes := none
  excludeTrashFromQuota := false
  excludeSnapshotsFromQuota := false
  maxRetainedTrashBytes := none

def blob : BlobData where
  storageKey := [0x6b]
  size := 5
  mimeType := [0x74]
  sha256 := [0x68]
  encryptionIv := none

/-- `/d` -/
def directory : NodePath Host.counting :=
  ⟨⟨[[0x64]], by decide +kernel⟩, by simp⟩

/-- `/d/f` -/
def file : NodePath Host.counting :=
  ⟨⟨[[0x64], [0x66]], by decide +kernel⟩, by simp⟩

def empty : Database := createWithRoot Host.counting 0 settings

def oneFile : Database :=
  (Mutation.put file true blob none false none).after 1 empty

def removed : Database :=
  (Mutation.remove directory true 100).after 2 oneFile

theorem reachable_oneFile : Reachable Host.counting oneFile :=
  (Reachable.start 0 settings).after _ 1

theorem reachable_removed : Reachable Host.counting removed := reachable_oneFile.after _ 2

end Small

/-! ## Reference counts -/

def referring {α : Type} (rows : List α) (test : α → Bool) (blobId : α → Option Uuid)
    (id : Uuid) : List α :=
  rows.filter fun row => test row && (blobId row == some id)

theorem count_referring {α : Type} (rows : List α) (test : α → Bool) (blobId : α → Option Uuid)
    (id : Uuid) :
    ((rows.filter test).filterMap blobId).count id = (referring rows test blobId id).length := by
  rw [List.count_filterMap, List.countP_eq_length_filter, List.filter_filter]
  refine congrArg List.length (List.filter_congr fun row _ => ?_)
  rw [Bool.and_comm]

def filesWith (db : Database) (id : Uuid) : List VfsNode :=
  referring db.nodes (fun node => node.type = .file) VfsNode.blobId id

def trashWith (db : Database) (id : Uuid) : List TrashEntry :=
  referring db.trashEntries (fun entry => entry.type = .file) TrashEntry.blobId id

def snapshotsWith (db : Database) (id : Uuid) : List SnapshotEntry :=
  db.snapshotEntries.filter fun entry => entry.blobId == some id

theorem count_references (db : Database) (id : Uuid) :
    db.references.count id =
      (filesWith db id).length + (trashWith db id).length + (snapshotsWith db id).length := by
  unfold Database.references
  rw [List.count_append, List.count_append]
  refine congrArg₂ (· + ·) (congrArg₂ (· + ·) ?_ ?_) ?_
  · exact count_referring db.nodes _ VfsNode.blobId id
  · exact count_referring db.trashEntries _ TrashEntry.blobId id
  · unfold snapshotBlobs
    rw [List.count_filterMap, List.countP_eq_length_filter]
    rfl

structure Unreferenced (host : Host) (db : Database) (id : Uuid) : Prop where
  drawn : Drawn host db.issued id
  unused : id ∉ db.references

theorem Finished.references {tx : MutationTx} {next : Database}
    (finished : Finished host db tx next) :
    next.references = tx.db.references ∧ tx.db.issued ≤ next.issued := by
  rcases finished.tables with ⟨feedState, feedEvents, issued, later, rfl⟩
  exact ⟨references_settled tx feedState feedEvents issued, later⟩

theorem Step.unreferenced {next : Database} {id : Uuid} (consistent : Consistent host db)
    (taken : Step host db next) (unreferenced : Unreferenced host db id) :
    Unreferenced host next id := by
  cases taken with
  | mutation mutation now afterBump result =>
      rcases Mutation.run_eq_ok consistent result with ⟨tx, wrote, finished⟩
      rcases finished.references with ⟨same, later⟩
      refine ⟨unreferenced.drawn.mono (wrote.done.drawn.trans later), fun used => ?_⟩
      rw [same] at used
      have refs := wrote.done.refs
      rw [List.append_nil] at refs
      rcases refs.present id used with ⟨blob, member, isId⟩
      have live := refs.live_of_mem member (isId ▸ used)
      rcases wrote.done.blob_origin member with ⟨old, oldMember, sameFace⟩ | ⟨_, isNew⟩
      · have oldId : old.id = blob.id := congrArg Prod.fst sameFace
        have zero : old.referenceCount = 0 := by
          rw [consistent.refs.exact old oldMember, oldId, isId,
            List.count_eq_zero_of_not_mem unreferenced.unused]
          rfl
        rw [refs.dead old oldMember zero blob member oldId.symm] at live
        exact Int.lt_irrefl 0 live
      · exact isNew (isId ▸ unreferenced.drawn)
  | checkpoint issued =>
      rcases createChangeFeedCheckpoint_eq_ok issued with ⟨feed, rfl, _⟩
      exact ⟨unreferenced.drawn, unreferenced.unused⟩
  | prune cutoff batchSize pruned =>
      rcases pruneNamespacePrefix_tables pruned with ⟨feedState, feedEvents, rfl⟩
      exact ⟨unreferenced.drawn, unreferenced.unused⟩
  | collect ids orphaned => exact ⟨unreferenced.drawn, unreferenced.unused⟩

theorem Runs.consistent {next : Database} (consistent : Consistent host db)
    (run : Runs host db next) : Consistent host next := by
  induction run with
  | refl => exact consistent
  | tail _ taken induction => exact taken.consistent induction

theorem Runs.unreferenced {next : Database} {id : Uuid} (consistent : Consistent host db)
    (run : Runs host db next) (unreferenced : Unreferenced host db id) :
    Unreferenced host next id := by
  induction run with
  | refl => exact unreferenced
  | tail earlier taken induction =>
      exact taken.unreferenced (earlier.consistent consistent) induction

def FromHook (afterBump : MutationTx → Unit → List AffectedRevision → Except VfsError Unit)
    (error : VfsError) : Prop :=
  ∃ tx revisions, afterBump tx () revisions = .error error

theorem Mutation.fromHook (consistent : Consistent host db) {mutation : Mutation host} {now : Nat}
    {afterBump : MutationTx → Unit → List AffectedRevision → Except VfsError Unit}
    {fault : InternalFault} (result : mutation.run now afterBump db = .error (.internal fault))
    (unexpected : ¬Expected (.internal fault)) (notBytes : fault ≠ .liveFileBytesOutOfRange)
    (notSequence : fault ≠ .sequenceExhausted) : FromHook afterBump (.internal fault) := by
  rcases Mutation.run_eq_error consistent result with expected | ⟨tx, _, failed⟩
  · exact absurd expected unexpected
  · cases failed with
    | expected allowed => exact absurd allowed unexpected
    | limit refused => cases refused
    | bytes isBytes _ => exact absurd (VfsError.internal.inj isBytes) notBytes
    | exhausted isExhausted => exact absurd (VfsError.internal.inj isExhausted) notSequence
    | hook last value revisions raised => exact ⟨last, revisions, raised⟩

theorem reference_counts_exact (reached : Reachable host db) :
    (∀ blob ∈ db.blobs,
      blob.referenceCount = (filesWith db blob.id).length + (trashWith db blob.id).length +
        (snapshotsWith db blob.id).length ∧
      0 ≤ blob.referenceCount ∧ (blob.zeroSince.isSome = true ↔ blob.referenceCount = 0)) ∧
    (∀ blob ∈ db.blobs, blob.referenceCount = 0 → ∀ next, Runs host db next →
      filesWith next blob.id = [] ∧ trashWith next blob.id = [] ∧
      snapshotsWith next blob.id = [] ∧
      ∀ later ∈ next.blobs, later.id = blob.id → later.referenceCount = 0) ∧
    ∀ (mutation : Mutation host) now afterBump,
      mutation.run now afterBump db = .error (.internal .trashBlobNotLive) →
        FromHook afterBump (.internal .trashBlobNotLive) := by
  have consistent := reached.consistent
  have refs := consistent.refs
  refine ⟨fun blob member => ?_, fun blob member zero next run => ?_,
    fun mutation now afterBump result => ?_⟩
  · have isCount := refs.exact blob member
    refine ⟨?_, isCount ▸ Int.natCast_nonneg _, refs.zero blob member⟩
    rw [isCount, count_references]
    push_cast
    rfl
  · have unused : blob.id ∉ db.references := fun used =>
      absurd (refs.live_of_mem member used) (by rw [zero]; exact Int.lt_irrefl 0)
    have drawn := consistent.issued.blobs blob.id (List.mem_map_of_mem member)
    have still := run.unreferenced consistent ⟨drawn, unused⟩
    have none := List.count_eq_zero_of_not_mem still.unused
    have later := (run.consistent consistent).refs
    rw [count_references] at none
    refine ⟨List.length_eq_zero_iff.mp (by omega), List.length_eq_zero_iff.mp (by omega),
      List.length_eq_zero_iff.mp (by omega), fun other otherMember same => ?_⟩
    rw [later.exact other otherMember, same, List.count_eq_zero_of_not_mem still.unused]
    rfl
  · refine Mutation.fromHook consistent result ?_ (by decide) (by decide)
    simp [Expected]

/-- The content of the removed file is referred to from the trash alone. -/
theorem reference_counts_exact_removed :
    Small.removed.blobs.map (fun blob => blob.referenceCount) = [1] ∧
    ∀ blob ∈ Small.removed.blobs, blob.referenceCount =
      (filesWith Small.removed blob.id).length + (trashWith Small.removed blob.id).length +
        (snapshotsWith Small.removed blob.id).length :=
  ⟨by decide +kernel, fun blob member =>
    ((reference_counts_exact Small.reachable_removed).1 blob member).1⟩

/-! ## Counters -/

def filesIn (nodes : List VfsNode) (id : Uuid) : List VfsNode :=
  nodes.filter fun node => node.type = .file ∧ node.parentId = some id

theorem total_fileBelow (nodes : List VfsNode) (id : Uuid) :
    total (fileBelow id) nodes = (filesIn nodes id).length := by
  induction nodes with
  | nil => rfl
  | cons node rest induction =>
      unfold total filesIn at induction ⊢
      rw [List.map_cons, List.sum_cons, induction]
      by_cases inside : node.type = .file ∧ node.parentId = some id
      · rw [List.filter_cons_of_pos (by simpa using inside), fileBelow, if_pos inside,
          List.length_cons]
        push_cast
        exact Int.add_comm _ _
      · rw [List.filter_cons_of_neg (by simpa using inside), fileBelow, if_neg inside,
          Int.zero_add]

theorem Rooted.length_root {nodes : List VfsNode} (tree : Rooted nodes) :
    (nodes.filter fun node => node.parentId = none).length = 1 := by
  rcases tree.root with ⟨link, isLink, top, _⟩
  rcases List.mem_map.mp isLink with ⟨root, isRoot, rfl⟩
  have nodup : (nodes.filter fun node => node.parentId = none).Nodup :=
    (List.Nodup.of_map _ tree.ids_nodup).filter _
  have only : ∀ node ∈ nodes.filter (fun node => node.parentId = none), node = root := by
    intro node isNode
    have parts := List.mem_filter.mp isNode
    have same := tree.oneRoot node.link (List.mem_map_of_mem parts.1) root.link isLink
      (by simpa using parts.2) top
    exact tree.eq_of_id parts.1 isRoot (congrArg Link.id same)
  have perm : (nodes.filter fun node => node.parentId = none).Perm [root] := by
    refine (List.perm_ext_iff_of_nodup nodup (List.nodup_singleton _)).mpr fun node => ?_
    rw [List.mem_singleton]
    refine ⟨only node, ?_⟩
    rintro rfl
    exact List.mem_filter.mpr ⟨isRoot, by simpa using top⟩
  exact perm.length_eq

def belowRoot (nodes : List VfsNode) : List VfsNode :=
  nodes.filter fun node => node.parentId ≠ none

theorem Rooted.length_belowRoot {nodes : List VfsNode} (tree : Rooted nodes) :
    (belowRoot nodes).length + 1 = nodes.length := by
  have split :=
    List.length_eq_length_filter_add (l := nodes) fun node => decide (node.parentId = none)
  have one := tree.length_root
  have same : (nodes.filter fun node => !decide (node.parentId = none)) = belowRoot nodes := by
    unfold belowRoot
    refine List.filter_congr fun node _ => ?_
    simp
  rw [same, one] at split
  omega

def counterFaults : List InternalFault :=
  [.liveNodeCounterNegative, .folderCounterNegative, .folderCounterParentMissing,
    .fileParentMissing, .trashNodeCountMismatch, .trashByteCountMismatch, .trashCounterMismatch]

theorem counters_exact (reached : Reachable host db) :
    (db.namespaceRow.liveNodeCount = (belowRoot db.nodes).length ∧
      db.namespaceRow.liveFileByteCount = total fileSize db.nodes ∧
      ∀ node ∈ db.nodes, node.type = .directory →
        node.childFileCount = (filesIn db.nodes node.id).length) ∧
    (db.namespaceRow.retainedTrashNodeCount = (db.trash.map TrashItem.nodeCount).sum ∧
      db.namespaceRow.retainedTrashNodeCount = db.trashEntries.length ∧
      db.namespaceRow.retainedTrashByteCount = (db.trash.map TrashItem.logicalBytes).sum ∧
      db.namespaceRow.retainedTrashByteCount = (db.trashEntries.map TrashEntry.bytes).sum) ∧
    (db.namespaceRow.retainedSnapshotNodeCount = (db.snapshots.map Snapshot.nodeCount).sum ∧
      db.namespaceRow.retainedSnapshotNodeCount = db.snapshotEntries.length ∧
      db.namespaceRow.retainedSnapshotByteCount = (db.snapshots.map Snapshot.logicalBytes).sum ∧
      db.namespaceRow.retainedSnapshotByteCount =
        (db.snapshotEntries.map SnapshotEntry.bytes).sum) ∧
    ∀ (mutation : Mutation host) now afterBump fault,
      mutation.run now afterBump db = .error (.internal fault) →
        (fault ∈ counterFaults → FromHook afterBump (.internal fault)) ∧
        (fault = .liveFileBytesOutOfRange → FromHook afterBump (.internal fault) ∨
          ∃ tx, Wrote mutation now db tx ∧ MAX_INT64 < total fileSize tx.db.nodes) := by
  have consistent := reached.consistent
  have books := consistent.books
  have trash := consistent.trash
  have snapshots := consistent.snapshots
  refine ⟨⟨?_, books.bytes, fun node member isDirectory => ?_⟩, ⟨trash.nodeTotal, trash.totals.1,
    trash.byteTotal, trash.totals.2.trans (manifestBytes_eq_sum _)⟩, ⟨snapshots.nodeTotal,
    snapshots.totals.1, snapshots.byteTotal, snapshots.totals.2⟩,
    fun mutation now afterBump fault result => ⟨fun isCounter => ?_, fun isBytes => ?_⟩⟩
  · have count := books.count
    have below := consistent.tree.length_belowRoot
    omega
  · rw [← total_fileBelow, ← books.folders node member isDirectory, Int.add_zero]
  · have unexpected : ¬Expected (.internal fault) ∧ fault ≠ .liveFileBytesOutOfRange ∧
        fault ≠ .sequenceExhausted := by
      simp only [counterFaults, List.mem_cons, List.not_mem_nil, or_false] at isCounter
      rcases isCounter with rfl | rfl | rfl | rfl | rfl | rfl | rfl <;> simp [Expected]
    exact Mutation.fromHook consistent result unexpected.1 unexpected.2.1 unexpected.2.2
  · rcases Mutation.run_eq_error consistent result with expected | ⟨tx, wrote, failed⟩
    · simp [isBytes, Expected] at expected
    · cases failed with
      | expected allowed => simp [isBytes, Expected] at allowed
      | limit refused => cases refused
      | bytes _ overflow => exact .inr ⟨tx, wrote, overflow⟩
      | exhausted isExhausted => simp [isBytes] at isExhausted
      | hook last value revisions raised => exact .inl ⟨last, revisions, raised⟩

/-- With the file in the trash only the trash counters are left. -/
theorem counters_exact_removed :
    Small.removed.namespaceRow.liveNodeCount = 0 ∧
    Small.removed.namespaceRow.retainedTrashNodeCount = 2 ∧
    Small.removed.namespaceRow.liveNodeCount = (belowRoot Small.removed.nodes).length :=
  ⟨by decide +kernel, by decide +kernel, (counters_exact Small.reachable_removed).1.1⟩

/-! ## The tree -/

theorem tree_well_formed (reached : Reachable host db) :
    (∃ root ∈ db.nodes, root.parentId = none ∧ root.type = .directory ∧
      ∀ node ∈ db.nodes, node.parentId = none → node = root) ∧
    (∀ node ∈ db.nodes, ∃ path, PathOf db.nodes node.id path) ∧
    (∀ node ∈ db.nodes, ∀ parentId, node.parentId = some parentId →
      ∃ parent ∈ db.nodes, parent.id = parentId ∧ parent.type = .directory) ∧
    (∀ left ∈ db.nodes, ∀ right ∈ db.nodes, left.id = right.id → left = right) ∧
    (∀ left ∈ db.nodes, ∀ right ∈ db.nodes, left.parentId ≠ none →
      left.parentId = right.parentId → left.name = right.name → left = right) ∧
    (∀ node ∈ db.nodes,
      (node.type = .file → node.blobId ≠ none ∧ node.size ≠ none ∧ node.mimeType ≠ none) ∧
      (node.type = .directory → node.blobId = none ∧ node.size = none ∧ node.mimeType = none)) ∧
    ∀ entry ∈ db.trashEntries, ∀ node ∈ db.nodes, node.id ≠ entry.sourceNodeId := by
  have consistent := reached.consistent
  have tree := consistent.tree
  rcases consistent.layout with ⟨rootId, layout⟩
  refine ⟨?_, fun node member => tree.exists_path member,
    fun node member parentId below => tree.exists_parent member below,
    fun left isLeft right isRight same => tree.eq_of_id isLeft isRight same, ?_, ?_, ?_⟩
  · rcases layout.exists_root with ⟨root, isRoot, _, top, isDirectory⟩
    refine ⟨root, isRoot, top, isDirectory, fun node member nodeTop => ?_⟩
    have same := tree.oneRoot node.link (List.mem_map_of_mem member) root.link
      (List.mem_map_of_mem isRoot) nodeTop top
    exact tree.eq_of_id member isRoot (congrArg Link.id same)
  · intro left isLeft right isRight below sameParent sameName
    cases isParent : left.parentId with
    | none => exact absurd isParent below
    | some parentId =>
        exact tree.eq_of_sibling isLeft isRight isParent (sameParent ▸ isParent) sameName
  · intro node member
    refine ⟨fun isFile => ?_, fun isDirectory => (layout.shapes node member).directory isDirectory⟩
    rcases (layout.shapes node member).file isFile with
      ⟨blobId, size, mimeType, isBlob, isSize, isMime⟩
    simp [isBlob, isSize, isMime]
  · intro entry isEntry node member same
    exact consistent.separate entry isEntry (same ▸ mem_nodeIds_of_mem member)

theorem tree_well_formed_removed :
    Small.removed.trashEntries.map (fun entry => entry.sourceNodeId) = [1, 3] ∧
    ∀ entry ∈ Small.removed.trashEntries, ∀ node ∈ Small.removed.nodes,
      node.id ≠ entry.sourceNodeId :=
  ⟨by decide +kernel, (tree_well_formed Small.reachable_removed).2.2.2.2.2.2⟩

/-- Every live path passes the check that requests pass, before and after every mutation
that commits; a mutation that would break it does not commit. -/
theorem paths_addressable (reached : Reachable host db) :
    (∀ node ∈ db.nodes, ∀ path, PathOf db.nodes node.id path →
      assertPathSegments host path = .ok ()) ∧
    ∀ (mutation : Mutation host) now afterBump committed,
      mutation.run now afterBump db = .ok committed →
      ∀ node ∈ committed.db.nodes, ∀ path, PathOf committed.db.nodes node.id path →
        assertPathSegments host path = .ok () := by
  have valid : ∀ {db : Database}, Consistent host db → ∀ node ∈ db.nodes, ∀ path,
      PathOf db.nodes node.id path → assertPathSegments host path = .ok () := by
    intro db consistent node _ path found
    rcases consistent.layout with ⟨rootId, layout⟩
    exact layout.valid node.id path found
  refine ⟨valid reached.consistent, fun mutation now afterBump committed result => ?_⟩
  exact valid (Step.consistent reached.consistent (.mutation mutation now afterBump result))

theorem paths_addressable_oneFile :
    Small.oneFile.nodes.map (fun node => node.name) = [[], [0x64], [0x66]] ∧
    ∀ node ∈ Small.oneFile.nodes, ∀ path, PathOf Small.oneFile.nodes node.id path →
      assertPathSegments Host.counting path = .ok () :=
  ⟨by decide +kernel, (paths_addressable Small.reachable_oneFile).1⟩

end Storix
