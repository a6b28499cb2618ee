import Storix.Invariants.Extract

/-! # Commit

What the end of a transaction adds to the rows that its work left: the counters, the
common version increment, and nothing else. From books that are closed by the recorded
deltas no counter check fails. -/

namespace Storix

open Foundation Foundation.Command

variable {host : Host} {effects : Effects} {base : Database}
  {scope : List JsString → Prop} {held : List Uuid}
  {tx : MutationTx} {fault : VfsError → Prop}

/-! ## Limits -/

def nodeLimit (host : Host) (settings : NamespaceSettings) : Nat :=
  effectiveLimit settings.maxLiveNodes host.config.maxLiveNodes host.config.defaultMaxLiveNodes

def folderLimit (host : Host) (settings : NamespaceSettings) : Nat :=
  effectiveLimit settings.maxFilesPerFolder host.config.maxFilesPerFolder
    host.config.defaultMaxFilesPerFolder

def byteQuota (host : Host) (settings : NamespaceSettings) : Nat :=
  effectiveLimit settings.maxTotalLogicalBytes host.config.maxTotalLogicalBytes
    host.config.defaultMaxTotalLogicalBytes

def enforced (settings : NamespaceSettings) (live trash snapshots : Int) : Int :=
  live + (if settings.excludeTrashFromQuota then 0 else trash) +
    (if settings.excludeSnapshotsFromQuota then 0 else snapshots)

def Within (limit : Nat) (delta after : Int) : Prop := delta ≤ 0 ∨ after ≤ limit

theorem not_within_iff {limit : Nat} {delta after : Int} :
    ¬Within limit delta after ↔ 0 < delta ∧ (limit : Int) < after := by
  unfold Within
  omega

structure WithinLimits (host : Host) (tx : MutationTx) : Prop where
  nodes : Within (nodeLimit host tx.db.namespaceRow.settings) tx.liveNodeDelta
    (tx.db.namespaceRow.liveNodeCount + tx.liveNodeDelta)
  folders : ∀ node ∈ tx.db.nodes, node.type = .directory →
    Within (folderLimit host tx.db.namespaceRow.settings) (tx.folderDelta node.id)
      (node.childFileCount + tx.folderDelta node.id)
  bytes : Within (byteQuota host tx.db.namespaceRow.settings)
    (enforced tx.db.namespaceRow.settings tx.liveFileByteDelta tx.trashByteDelta
      tx.snapshotByteDelta)
    (enforced tx.db.namespaceRow.settings
      (tx.db.namespaceRow.liveFileByteCount + tx.liveFileByteDelta)
      tx.db.namespaceRow.retainedTrashByteCount tx.db.namespaceRow.retainedSnapshotByteCount)

/-- A limit that the recorded changes do not keep to, and its error. -/
inductive LimitFault (host : Host) (tx : MutationTx) : VfsError → Prop
  | nodes (exceeds : ¬Within (nodeLimit host tx.db.namespaceRow.settings) tx.liveNodeDelta
      (tx.db.namespaceRow.liveNodeCount + tx.liveNodeDelta)) :
      LimitFault host tx (.namespaceNodeLimitExceeded (nodeLimit host tx.db.namespaceRow.settings)
        (tx.db.namespaceRow.liveNodeCount + tx.liveNodeDelta))
  | folders (node : VfsNode) (member : node ∈ tx.db.nodes) (isDirectory : node.type = .directory)
      (exceeds : ¬Within (folderLimit host tx.db.namespaceRow.settings) (tx.folderDelta node.id)
        (node.childFileCount + tx.folderDelta node.id)) :
      LimitFault host tx (.folderFileLimitExceeded (folderLimit host tx.db.namespaceRow.settings)
        (node.childFileCount + tx.folderDelta node.id))
  | bytes (exceeds : ¬Within (byteQuota host tx.db.namespaceRow.settings)
      (enforced tx.db.namespaceRow.settings tx.liveFileByteDelta tx.trashByteDelta
        tx.snapshotByteDelta)
      (enforced tx.db.namespaceRow.settings
        (tx.db.namespaceRow.liveFileByteCount + tx.liveFileByteDelta)
        tx.db.namespaceRow.retainedTrashByteCount tx.db.namespaceRow.retainedSnapshotByteCount)) :
      LimitFault host tx (.quotaExceeded (byteQuota host tx.db.namespaceRow.settings)
        (enforced tx.db.namespaceRow.settings
          (tx.db.namespaceRow.liveFileByteCount + tx.liveFileByteDelta)
          tx.db.namespaceRow.retainedTrashByteCount
          tx.db.namespaceRow.retainedSnapshotByteCount))

/-! ## Folder counters -/

def counted (delta : Uuid → Int) (node : VfsNode) : VfsNode :=
  if node.type = .directory then
    { node with childFileCount := node.childFileCount + delta node.id }
  else node

def oneDelta (parentId : Uuid) (delta : Int) (id : Uuid) : Int :=
  if id = parentId then delta else 0

@[simp] theorem counted_id (delta : Uuid → Int) (node : VfsNode) :
    (counted delta node).id = node.id := by
  unfold counted
  split
  · rfl
  · rfl

@[simp] theorem counted_type (delta : Uuid → Int) (node : VfsNode) :
    (counted delta node).type = node.type := by
  unfold counted
  split
  · rfl
  · rfl

theorem counted_zero {delta : Uuid → Int} {node : VfsNode} (zero : delta node.id = 0) :
    counted delta node = node := by
  unfold counted
  split
  · rw [zero, Int.add_zero]
  · rfl

theorem map_counted_eq_self {delta : Uuid → Int} {nodes : List VfsNode}
    (same : ∀ node ∈ nodes, counted delta node = node) : nodes.map (counted delta) = nodes :=
  (List.map_congr_left same).trans (List.map_id _)

theorem counted_counted (first second : Uuid → Int) (node : VfsNode) :
    counted second (counted first node) = counted (fun id => first id + second id) node := by
  unfold counted
  by_cases isDirectory : node.type = .directory
  · simp only [if_pos isDirectory]
    rw [Int.add_assoc]
  · simp only [if_neg isDirectory]

structure Applicable (nodes : List VfsNode) (entry : Uuid × Int) : Prop where
  gone : (∀ node ∈ nodes, node.id = entry.1 → node.type ≠ .directory) → entry.2 < 0
  room : ∀ node ∈ nodes, node.id = entry.1 → node.type = .directory →
    0 ≤ node.childFileCount + entry.2

theorem satisfies_applyFolderDelta {limit : Nat} {entry : Uuid × Int}
    (nodup : (nodeIds tx.db.nodes).Nodup) (applicable : Applicable tx.db.nodes entry)
    (refused : ∀ node ∈ tx.db.nodes, node.id = entry.1 → node.type = .directory →
      ¬Within limit entry.2 (node.childFileCount + entry.2) →
      fault (.folderFileLimitExceeded limit (node.childFileCount + entry.2)))
    {post : Unit → MutationTx → Prop}
    (continues : (∀ node ∈ tx.db.nodes, node.id = entry.1 → node.type = .directory →
        Within limit entry.2 (node.childFileCount + entry.2)) →
      post ()
        { tx with
          db := { tx.db with nodes := tx.db.nodes.map (counted (oneDelta entry.1 entry.2)) } }) :
    Satisfies (applyFolderDelta limit entry.1 entry.2) post fault tx := by
  unfold applyFolderDelta
  rw [satisfies_bind, satisfies_state]
  cases found : tx.db.nodes.find?
      fun node => node.id == entry.1 && node.type == .directory with
  | none =>
      have absent : ∀ node ∈ tx.db.nodes, node.id = entry.1 → node.type ≠ .directory := by
        intro node member same isDirectory
        have refused := List.find?_eq_none.mp found node member
        simp [same, isDirectory] at refused
      have unchanged : tx.db.nodes.map (counted (oneDelta entry.1 entry.2)) = tx.db.nodes := by
        refine map_counted_eq_self fun node member => ?_
        by_cases same : node.id = entry.1
        · exact if_neg (absent node member same)
        · exact counted_zero (if_neg same)
      rw [unchanged] at continues
      dsimp only
      rw [if_pos (applicable.gone absent)]
      exact continues fun node member same isDirectory =>
        absurd isDirectory (absent node member same)
  | some parent =>
      have member := List.mem_of_find?_eq_some found
      have facts := List.find?_some found
      simp only [Bool.and_eq_true, beq_iff_eq] at facts
      have rewritten : tx.db.nodes.map (rewriteRow entry.1 fun node =>
          { node with childFileCount := parent.childFileCount + entry.2 }) =
          tx.db.nodes.map (counted (oneDelta entry.1 entry.2)) := by
        refine List.map_congr_left fun node nodeMember => ?_
        by_cases same : node.id = entry.1
        · have isParent : node = parent :=
            List.inj_on_of_nodup_map nodup nodeMember member (same.trans facts.1.symm)
          rw [rewriteRow, if_pos same, isParent, counted, if_pos facts.2, oneDelta, if_pos facts.1]
        · rw [rewriteRow, if_neg same, counted_zero (if_neg same)]
      dsimp only
      rw [if_neg (Int.not_lt.mpr (applicable.room parent member facts.1 facts.2))]
      refine satisfies_ite.mpr ⟨fun exceeds => ?_, fun within => ?_⟩
      · exact refused parent member facts.1 facts.2 (not_within_iff.mpr exceeds)
      · rw [← not_within_iff, not_not] at within
        rw [satisfies_updateNode, rewritten]
        refine continues fun node nodeMember same _ => ?_
        have isParent : node = parent :=
          List.inj_on_of_nodup_map nodup nodeMember member (same.trans facts.1.symm)
        rw [isParent]
        exact within

def deltaOf (entries : List (Uuid × Int)) (id : Uuid) : Int :=
  (OrderedMap.lookup id entries).getD 0

theorem satisfies_forEach_applyFolderDelta {limit : Nat} {entries : List (Uuid × Int)}
    (nodup : (nodeIds tx.db.nodes).Nodup) (distinct : (entries.map Prod.fst).Nodup)
    (applicable : ∀ entry ∈ entries, Applicable tx.db.nodes entry)
    (refused : ∀ entry ∈ entries, ∀ node ∈ tx.db.nodes, node.id = entry.1 →
      node.type = .directory → ¬Within limit entry.2 (node.childFileCount + entry.2) →
      fault (.folderFileLimitExceeded limit (node.childFileCount + entry.2)))
    {post : Unit → MutationTx → Prop}
    (continues : (∀ entry ∈ entries, ∀ node ∈ tx.db.nodes, node.id = entry.1 →
        node.type = .directory → Within limit entry.2 (node.childFileCount + entry.2)) →
      post ()
        { tx with db := { tx.db with nodes := tx.db.nodes.map (counted (deltaOf entries)) } }) :
    Satisfies (forEach (fun entry => applyFolderDelta limit entry.1 entry.2) entries) post fault
      tx := by
  induction entries generalizing tx with
  | nil =>
      have unchanged : tx.db.nodes.map (counted (deltaOf [])) = tx.db.nodes :=
        map_counted_eq_self fun node _ => counted_zero rfl
      rw [unchanged] at continues
      exact continues nofun
  | cons entry rest induction =>
      rw [List.map_cons, List.nodup_cons] at distinct
      unfold forEach
      rw [satisfies_bind]
      refine satisfies_applyFolderDelta nodup (applicable entry List.mem_cons_self)
        (refused entry List.mem_cons_self) fun within => ?_
      have sameIds : nodeIds (tx.db.nodes.map (counted (oneDelta entry.1 entry.2))) =
          nodeIds tx.db.nodes := by
        simp [nodeIds, Function.comp_def]
      -- The other folders are rows that this delta leaves alone.
      have stays : ∀ other ∈ rest, ∀ node,
          node ∈ tx.db.nodes.map (counted (oneDelta entry.1 entry.2)) → node.id = other.1 →
          node ∈ tx.db.nodes := by
        intro other isOther node member same
        have apart : other.1 ≠ entry.1 := fun equal =>
          distinct.1 (equal ▸ List.mem_map_of_mem isOther)
        rcases List.mem_map.mp member with ⟨old, oldMember, rfl⟩
        rw [counted_id] at same
        rwa [counted_zero (if_neg (same ▸ apart))]
      refine induction (sameIds.symm ▸ nodup) distinct.2 (fun other isOther => ?_)
        (fun other isOther node member same => ?_) fun later => ?_
      · have before := applicable other (List.mem_cons_of_mem _ isOther)
        refine ⟨fun absent => before.gone fun node member same => ?_, fun node member same => ?_⟩
        · have still := absent _ (List.mem_map_of_mem member) ((counted_id _ _).trans same)
          rwa [counted_type] at still
        · exact before.room node (stays other isOther node member same) same
      · exact refused other (List.mem_cons_of_mem _ isOther) node
          (stays other isOther node member same) same
      · rw [List.map_map]
        have composed : counted (deltaOf rest) ∘ counted (oneDelta entry.1 entry.2) =
            counted (deltaOf (entry :: rest)) := by
          funext node
          rw [Function.comp_apply, counted_counted]
          refine congrArg (fun delta => counted delta node) (funext fun id => ?_)
          rcases entry with ⟨key, delta⟩
          by_cases same : id = key
          · simp [deltaOf, oneDelta, OrderedMap.lookup, same,
              OrderedMap.lookup_eq_none distinct.1]
          · simp [deltaOf, oneDelta, OrderedMap.lookup, same, Ne.symm same]
        rw [composed]
        refine continues fun other isOther node member same isDirectory => ?_
        rcases List.mem_cons.mp isOther with rfl | isOther
        · exact within node member same isDirectory
        · have apart : other.1 ≠ entry.1 := fun equal =>
            distinct.1 (equal ▸ List.mem_map_of_mem isOther)
          have still : counted (oneDelta entry.1 entry.2) node = node :=
            counted_zero (if_neg (same ▸ apart))
          exact later other isOther node (List.mem_map.mpr ⟨node, member, still⟩) same isDirectory

theorem deltaOf_filter_ne_zero (folders : OrderedMap Uuid Int) (id : Uuid) :
    deltaOf (folders.entries.filter fun entry => entry.2 ≠ 0) id = (folders.get id).getD 0 := by
  rcases folders with ⟨entries, nodup⟩
  unfold OrderedMap.get
  dsimp only
  induction entries with
  | nil => rfl
  | cons entry rest induction =>
      rcases entry with ⟨key, delta⟩
      rw [List.map_cons, List.nodup_cons] at nodup
      have others := induction nodup.2
      by_cases same : key = id
      · subst same
        have absent := OrderedMap.lookup_eq_none nodup.1
        rw [absent] at others
        by_cases zero : delta = 0
        · simpa [zero, OrderedMap.lookup] using others
        · simp [zero, OrderedMap.lookup, deltaOf]
      · by_cases zero : delta = 0
        · simpa [zero, OrderedMap.lookup, same] using others
        · simpa [List.filter_cons, zero, OrderedMap.lookup, same, deltaOf] using others

/-! ## The namespace row -/

def MutationTx.withCounters (tx : MutationTx) : MutationTx :=
  { tx with
    db := { tx.db with
      nodes := tx.db.nodes.map (counted tx.folderDelta)
      namespaceRow := { tx.db.namespaceRow with
        liveNodeCount := tx.db.namespaceRow.liveNodeCount + tx.liveNodeDelta } } }

theorem TxDone.folderDelta_nonneg (done : TxDone host effects base scope held tx) {node : VfsNode}
    (member : node ∈ tx.db.nodes) (isDirectory : node.type = .directory) :
    0 ≤ node.childFileCount + tx.folderDelta node.id := by
  rw [done.books.folders node member isDirectory]
  exact total_nonneg (fileBelow_nonneg _) _

theorem MutationTx.folderDelta_of_mem {entry : Uuid × Int}
    (isEntry : entry ∈ tx.folderFileDeltas.entries) : tx.folderDelta entry.1 = entry.2 := by
  unfold MutationTx.folderDelta
  rw [(tx.folderFileDeltas.mem_entries_iff entry.1 entry.2).mp isEntry]
  rfl

theorem TxDone.applicable (done : TxDone host effects base scope held tx) {entry : Uuid × Int}
    (isEntry : entry ∈ tx.folderFileDeltas.entries) (nonzero : entry.2 ≠ 0) :
    Applicable tx.db.nodes entry := by
  have isDelta := MutationTx.folderDelta_of_mem isEntry
  refine ⟨fun absent => ?_, fun node member same isDirectory => ?_⟩
  · have low := done.books.gone entry.1 absent
    omega
  · rw [← isDelta, ← same]
    exact done.folderDelta_nonneg member isDirectory

theorem satisfies_setLiveNodeCount (done : TxDone host effects base scope held tx)
    {post : Unit → MutationTx → Prop}
    (continues : Within (nodeLimit host tx.db.namespaceRow.settings) tx.liveNodeDelta
        (tx.db.namespaceRow.liveNodeCount + tx.liveNodeDelta) →
      post ()
        { tx with
          db := { tx.db with
            namespaceRow := { tx.db.namespaceRow with
              liveNodeCount := tx.db.namespaceRow.liveNodeCount + tx.liveNodeDelta } } }) :
    Satisfies (setLiveNodeCount host tx.liveNodeDelta) post (LimitFault host tx) tx := by
  have counts := done.books.count
  rcases done.layout.exists_root with ⟨root, isRoot, _⟩
  have some : 0 < tx.db.nodes.length := List.length_pos_of_mem isRoot
  unfold setLiveNodeCount
  rw [satisfies_bind, satisfies_state]
  dsimp only
  rw [if_neg (by omega)]
  refine satisfies_ite.mpr ⟨fun exceeds => .nodes (not_within_iff.mpr exceeds), fun within => ?_⟩
  rw [satisfies_updateDb]
  exact continues (not_not.mp fun exceeds => within (not_within_iff.mp exceeds))

theorem satisfies_applyNodeCounters (done : TxDone host effects base scope held tx)
    {post : Unit → MutationTx → Prop}
    (continues : Within (nodeLimit host tx.db.namespaceRow.settings) tx.liveNodeDelta
        (tx.db.namespaceRow.liveNodeCount + tx.liveNodeDelta) →
      (∀ node ∈ tx.db.nodes, node.type = .directory →
        Within (folderLimit host tx.db.namespaceRow.settings) (tx.folderDelta node.id)
          (node.childFileCount + tx.folderDelta node.id)) →
      post () tx.withCounters) :
    Satisfies (applyNodeCounters host) post (LimitFault host tx) tx := by
  have isDelta : deltaOf (tx.folderFileDeltas.entries.filter fun entry => entry.2 ≠ 0) =
      tx.folderDelta := funext fun id => deltaOf_filter_ne_zero tx.folderFileDeltas id
  have nodup := done.tree.ids_nodup
  have distinct : ((tx.folderFileDeltas.entries.filter fun entry => entry.2 ≠ 0).map
      Prod.fst).Nodup :=
    tx.folderFileDeltas.nodup.sublist (List.filter_sublist.map _)
  have applicable : ∀ entry ∈ tx.folderFileDeltas.entries.filter fun entry => entry.2 ≠ 0,
      Applicable tx.db.nodes entry := by
    intro entry isEntry
    have parts := List.mem_filter.mp isEntry
    exact done.applicable parts.1 (by simpa using parts.2)
  -- A folder without an entry has no change to refuse.
  have folders : (∀ entry ∈ tx.folderFileDeltas.entries.filter fun entry => entry.2 ≠ 0,
      ∀ node ∈ tx.db.nodes, node.id = entry.1 → node.type = .directory →
        Within (folderLimit host tx.db.namespaceRow.settings) entry.2
          (node.childFileCount + entry.2)) →
      ∀ node ∈ tx.db.nodes, node.type = .directory →
        Within (folderLimit host tx.db.namespaceRow.settings) (tx.folderDelta node.id)
          (node.childFileCount + tx.folderDelta node.id) := by
    intro each node member isDirectory
    by_cases zero : tx.folderDelta node.id = 0
    · exact .inl (Int.le_of_eq zero)
    · cases found : tx.folderFileDeltas.get node.id with
      | none =>
          unfold MutationTx.folderDelta at zero
          rw [found] at zero
          exact absurd rfl zero
      | some delta =>
          have isEntry := (tx.folderFileDeltas.mem_entries_iff node.id delta).mpr found
          have isDelta := MutationTx.folderDelta_of_mem isEntry
          rw [isDelta] at zero ⊢
          exact each (node.id, delta) (List.mem_filter.mpr ⟨isEntry, by simpa using zero⟩) node
            member rfl isDirectory
  unfold applyNodeCounters
  rw [satisfies_bind, satisfies_state]
  dsimp only
  refine satisfies_ite.mpr ⟨fun unchanged => ?_, fun _ => ?_⟩
  · have noDeltas : ∀ id, tx.folderDelta id = 0 := by
      intro id
      rw [← isDelta, unchanged.1]
      rfl
    have sameNodes : tx.db.nodes.map (counted tx.folderDelta) = tx.db.nodes :=
      map_counted_eq_self fun node _ => counted_zero (noDeltas node.id)
    have sameTx : tx.withCounters = tx := by
      unfold MutationTx.withCounters
      have sameCount : tx.db.namespaceRow.liveNodeCount + tx.liveNodeDelta =
          tx.db.namespaceRow.liveNodeCount := by rw [unchanged.2, Int.add_zero]
      rw [sameNodes, sameCount]
    rw [sameTx] at continues
    exact continues (.inl (Int.le_of_eq unchanged.2))
      fun node _ _ => .inl (Int.le_of_eq (noDeltas node.id))
  · have applied : ∀ next : MutationTx, next.db.nodes = tx.db.nodes →
        { next with db := { next.db with nodes := next.db.nodes.map (counted tx.folderDelta) } } =
          tx.withCounters →
        Within (nodeLimit host tx.db.namespaceRow.settings) tx.liveNodeDelta
          (tx.db.namespaceRow.liveNodeCount + tx.liveNodeDelta) →
        Satisfies (forEach (fun entry => applyFolderDelta
            (folderLimit host tx.db.namespaceRow.settings) entry.1 entry.2)
          (tx.folderFileDeltas.entries.filter fun entry => entry.2 ≠ 0)) post (LimitFault host tx)
          next := by
      intro next sameNodes isNext within
      refine satisfies_forEach_applyFolderDelta (sameNodes.symm ▸ nodup) distinct
        (sameNodes.symm ▸ applicable) ?_ ?_
      · intro entry isEntry node member same isDirectory exceeds
        have isDelta := MutationTx.folderDelta_of_mem (List.mem_of_mem_filter isEntry)
        rw [sameNodes] at member
        rw [← isDelta, ← same] at exceeds ⊢
        exact .folders node member isDirectory exceeds
      · rw [isDelta, isNext, sameNodes]
        exact fun each => continues within (folders each)
    by_cases zero : tx.liveNodeDelta = 0
    · rw [if_neg (by simpa using zero)]
      refine applied tx rfl ?_ (.inl (Int.le_of_eq zero))
      unfold MutationTx.withCounters
      rw [zero, Int.add_zero]
    · rw [if_pos zero, satisfies_bind]
      refine satisfies_setLiveNodeCount done fun within => ?_
      exact applied _ rfl rfl within

def MutationTx.withBytes (tx : MutationTx) : MutationTx :=
  { tx with
    db := { tx.db with
      namespaceRow := { tx.db.namespaceRow with
        liveFileByteCount := tx.db.namespaceRow.liveFileByteCount + tx.liveFileByteDelta } } }

theorem satisfies_applyLogicalByteQuota
    (nonneg : 0 ≤ tx.db.namespaceRow.liveFileByteCount + tx.liveFileByteDelta)
    (refused : ¬Within (byteQuota host tx.db.namespaceRow.settings)
        (enforced tx.db.namespaceRow.settings tx.liveFileByteDelta tx.trashByteDelta
          tx.snapshotByteDelta)
        (enforced tx.db.namespaceRow.settings
          (tx.db.namespaceRow.liveFileByteCount + tx.liveFileByteDelta)
          tx.db.namespaceRow.retainedTrashByteCount
          tx.db.namespaceRow.retainedSnapshotByteCount) →
      fault (.quotaExceeded (byteQuota host tx.db.namespaceRow.settings)
        (enforced tx.db.namespaceRow.settings
          (tx.db.namespaceRow.liveFileByteCount + tx.liveFileByteDelta)
          tx.db.namespaceRow.retainedTrashByteCount
          tx.db.namespaceRow.retainedSnapshotByteCount)))
    (overflow : MAX_INT64 < tx.db.namespaceRow.liveFileByteCount + tx.liveFileByteDelta →
      fault (.internal .liveFileBytesOutOfRange))
    {post : Unit → MutationTx → Prop}
    (continues : Within (byteQuota host tx.db.namespaceRow.settings)
        (enforced tx.db.namespaceRow.settings tx.liveFileByteDelta tx.trashByteDelta
          tx.snapshotByteDelta)
        (enforced tx.db.namespaceRow.settings
          (tx.db.namespaceRow.liveFileByteCount + tx.liveFileByteDelta)
          tx.db.namespaceRow.retainedTrashByteCount
          tx.db.namespaceRow.retainedSnapshotByteCount) →
      post () tx.withBytes) :
    Satisfies (applyLogicalByteQuota host) post fault tx := by
  have same : tx.liveFileByteDelta = 0 → tx.withBytes = tx := by
    intro zero
    have sameBytes : tx.db.namespaceRow.liveFileByteCount + tx.liveFileByteDelta =
        tx.db.namespaceRow.liveFileByteCount := by rw [zero, Int.add_zero]
    unfold MutationTx.withBytes
    rw [sameBytes]
  unfold applyLogicalByteQuota
  rw [satisfies_bind, satisfies_state]
  refine satisfies_ite.mpr ⟨fun zero => ?_, fun _ => ?_⟩
  · rw [same zero.1] at continues
    refine continues (.inl ?_)
    unfold enforced
    rw [zero.1, zero.2.1, zero.2.2]
    simp
  · dsimp only
    refine satisfies_ite.mpr ⟨fun outside => overflow (by omega), fun _ => ?_⟩
    refine satisfies_ite.mpr ⟨fun exceeds => refused (not_within_iff.mpr exceeds),
      fun within => ?_⟩
    have allowed := not_not.mp fun exceeds => within (not_within_iff.mp exceeds)
    refine satisfies_ite.mpr ⟨fun _ => continues allowed, fun zero => ?_⟩
    rw [same (by simpa using zero)] at continues
    exact continues allowed

/-! ## The common increment -/

def bumped (ids : List Uuid) (now : Nat) (node : VfsNode) : VfsNode :=
  if node.id ∈ ids then { node with version := node.version + 1, updatedAt := now } else node

@[simp] theorem bumped_link (ids : List Uuid) (now : Nat) (node : VfsNode) :
    (bumped ids now node).link = node.link := by
  unfold bumped
  split
  · rfl
  · rfl

@[simp] theorem bumped_id (ids : List Uuid) (now : Nat) (node : VfsNode) :
    (bumped ids now node).id = node.id := by
  unfold bumped
  split
  · rfl
  · rfl

def Raisable (nodes : List VfsNode) (ids : List Uuid) : Prop :=
  ∀ node ∈ nodes, node.id ∈ ids → node.version < MAX_VFS_VERSION

theorem raisable_of_length {nodes : List VfsNode} {ids : List Uuid}
    (nodup : (nodeIds nodes).Nodup)
    (whole : (nodes.filter fun node =>
      ids.contains node.id ∧ node.version < MAX_VFS_VERSION).length = ids.length) :
    Raisable nodes ids := by
  intro node member inside
  have found : (nodes.filter fun node =>
      ids.contains node.id ∧ node.version < MAX_VFS_VERSION).map VfsNode.id ⊆ ids := by
    intro id isId
    rcases List.mem_map.mp isId with ⟨other, isOther, rfl⟩
    have parts := (List.mem_filter.mp isOther).2
    simp only [List.contains_eq_mem, decide_eq_true_eq] at parts
    exact parts.1
  have distinct : ((nodes.filter fun node =>
      ids.contains node.id ∧ node.version < MAX_VFS_VERSION).map VfsNode.id).Nodup :=
    nodup.sublist (List.filter_sublist.map _)
  have all := (distinct.subperm found).perm_of_length_le (by rw [List.length_map, whole])
  rcases List.mem_map.mp (all.mem_iff.mpr inside) with ⟨other, isOther, same⟩
  have parts := List.mem_filter.mp isOther
  have isNode : other = node := List.inj_on_of_nodup_map nodup parts.1 member same
  have room := parts.2
  simp only [decide_eq_true_eq] at room
  exact isNode ▸ room.2

theorem satisfies_bumpChunk {ids : List Uuid} (nodup : (nodeIds tx.db.nodes).Nodup)
    {post : Unit → MutationTx → Prop}
    (continues : Raisable tx.db.nodes ids → post ()
      { tx with db := { tx.db with nodes := tx.db.nodes.map (bumped ids tx.now) } }) :
    Satisfies (bumpChunk ids) post Expected tx := by
  unfold bumpChunk
  simp only [satisfies_bind, satisfies_state, satisfies_updateDb]
  refine satisfies_ite.mpr ⟨fun _ => trivial, fun whole => ?_⟩
  have raisable := raisable_of_length nodup (not_not.mp whole)
  have rows : tx.db.nodes.map (fun node =>
      if ids.contains node.id ∧ node.version < MAX_VFS_VERSION then
        { node with version := node.version + 1, updatedAt := tx.now }
      else node) = tx.db.nodes.map (bumped ids tx.now) := by
    refine List.map_congr_left fun node member => ?_
    unfold bumped
    by_cases inside : node.id ∈ ids
    · simp [inside, raisable node member inside]
    · simp [inside]
  rw [satisfies_pure, rows]
  exact continues raisable

theorem satisfies_forEach_bumpChunk {chunks : List (List Uuid)}
    (nodup : (nodeIds tx.db.nodes).Nodup) (distinct : chunks.flatten.Nodup)
    {post : Unit → MutationTx → Prop}
    (continues : Raisable tx.db.nodes chunks.flatten → post ()
      { tx with db := { tx.db with nodes := tx.db.nodes.map (bumped chunks.flatten tx.now) } }) :
    Satisfies (forEach bumpChunk chunks) post Expected tx := by
  induction chunks generalizing tx with
  | nil =>
      have unchanged : tx.db.nodes.map (bumped [] tx.now) = tx.db.nodes :=
        (List.map_congr_left fun node _ => if_neg (by simp)).trans (List.map_id _)
      rw [List.flatten_nil, unchanged] at continues
      exact continues fun node _ inside => by cases inside
  | cons chunk rest induction =>
      rw [List.flatten_cons] at distinct continues
      have parts := List.nodup_append.mp distinct
      unfold forEach
      rw [satisfies_bind]
      refine satisfies_bumpChunk nodup fun raisable => ?_
      have sameIds : nodeIds (tx.db.nodes.map (bumped chunk tx.now)) = nodeIds tx.db.nodes := by
        simp [nodeIds, Function.comp_def]
      refine induction (sameIds.symm ▸ nodup) parts.2.1 fun restRaisable => ?_
      have composed : bumped rest.flatten tx.now ∘ bumped chunk tx.now =
          bumped (chunk ++ rest.flatten) tx.now := by
        funext node
        by_cases inside : node.id ∈ chunk
        · have outside : node.id ∉ rest.flatten := fun later => parts.2.2 _ inside _ later rfl
          simp [bumped, inside, outside]
        · simp [bumped, inside]
      have whole : Raisable tx.db.nodes (chunk ++ rest.flatten) := by
        intro node member inside
        by_cases first : node.id ∈ chunk
        · exact raisable node member first
        · have stays : bumped chunk tx.now node = node := if_neg first
          refine restRaisable node ?_ ((List.mem_append.mp inside).resolve_left first)
          exact List.mem_map.mpr ⟨node, member, stays⟩
      have last := continues whole
      dsimp only at last ⊢
      rw [List.map_map, composed]
      exact last

/-! ## The settled rows -/

def MutationTx.raisedIds (tx : MutationTx) : List Uuid :=
  (tx.changed.entries.filter fun entry => entry.2).map Prod.fst

theorem MutationTx.mem_raisedIds {id : Uuid} :
    id ∈ tx.raisedIds ↔ tx.changed.get id = some true := by
  unfold MutationTx.raisedIds
  rw [List.mem_map]
  constructor
  · rintro ⟨⟨key, value⟩, isEntry, rfl⟩
    have parts := List.mem_filter.mp isEntry
    have isTrue : value = true := parts.2
    exact isTrue ▸ (tx.changed.mem_entries_iff key value).mp parts.1
  · intro marked
    refine ⟨(id, true), List.mem_filter.mpr ⟨?_, rfl⟩, rfl⟩
    exact (tx.changed.mem_entries_iff id true).mpr marked

theorem MutationTx.nodup_raisedIds (tx : MutationTx) : tx.raisedIds.Nodup :=
  tx.changed.nodup.sublist (List.filter_sublist.map _)

def settledRow (tx : MutationTx) (node : VfsNode) : VfsNode :=
  bumped tx.raisedIds tx.now (counted tx.folderDelta node)

def MutationTx.settled (tx : MutationTx) : MutationTx :=
  { tx with
    db := { tx.db with
      nodes := tx.db.nodes.map (settledRow tx)
      namespaceRow := { tx.db.namespaceRow with
        liveNodeCount := tx.db.namespaceRow.liveNodeCount + tx.liveNodeDelta
        liveFileByteCount := tx.db.namespaceRow.liveFileByteCount + tx.liveFileByteDelta } } }

section SettledRow

variable (tx) (node : VfsNode)

@[simp] theorem settledRow_link : (settledRow tx node).link = node.link := by
  unfold settledRow
  rw [bumped_link]
  unfold counted
  split
  · rfl
  · rfl

@[simp] theorem settledRow_id : (settledRow tx node).id = node.id := by
  rw [← link_id, settledRow_link, link_id]

@[simp] theorem settledRow_parentId : (settledRow tx node).parentId = node.parentId := by
  rw [← link_parent, settledRow_link, link_parent]

theorem settledRow_content : (settledRow tx node).type = node.type ∧
    (settledRow tx node).blobId = node.blobId ∧ (settledRow tx node).size = node.size ∧
    (settledRow tx node).mimeType = node.mimeType ∧
    (settledRow tx node).expiresAt = node.expiresAt ∧
    (settledRow tx node).createdAt = node.createdAt := by
  unfold settledRow bumped counted
  split
  · split
    · exact ⟨rfl, rfl, rfl, rfl, rfl, rfl⟩
    · exact ⟨rfl, rfl, rfl, rfl, rfl, rfl⟩
  · split
    · exact ⟨rfl, rfl, rfl, rfl, rfl, rfl⟩
    · exact ⟨rfl, rfl, rfl, rfl, rfl, rfl⟩

@[simp] theorem settledRow_type : (settledRow tx node).type = node.type :=
  (settledRow_content tx node).1

@[simp] theorem settledRow_blobId : (settledRow tx node).blobId = node.blobId :=
  (settledRow_content tx node).2.1

@[simp] theorem settledRow_size : (settledRow tx node).size = node.size :=
  (settledRow_content tx node).2.2.1

@[simp] theorem settledRow_mimeType : (settledRow tx node).mimeType = node.mimeType :=
  (settledRow_content tx node).2.2.2.1

theorem settledRow_version : (settledRow tx node).version =
    node.version + if tx.changed.get node.id = some true then 1 else 0 := by
  unfold settledRow bumped
  rw [counted_id]
  by_cases raised : tx.changed.get node.id = some true
  · rw [if_pos (MutationTx.mem_raisedIds.mpr raised), if_pos raised]
    unfold counted
    split
    · rfl
    · rfl
  · rw [if_neg fun inside => raised (MutationTx.mem_raisedIds.mp inside), if_neg raised]
    unfold counted
    split
    · rfl
    · rfl

theorem settledRow_childFileCount :
    (settledRow tx node).childFileCount = (counted tx.folderDelta node).childFileCount := by
  unfold settledRow bumped
  split
  · rfl
  · rfl

end SettledRow

theorem TxDone.keepsLinks_settled (done : TxDone host effects base scope held tx)
    (raisable : Raisable tx.db.nodes tx.raisedIds) : KeepsLinks tx.db.nodes (settledRow tx) where
  links := fun node _ => settledRow_link tx node
  shaped := by
    intro node member
    have shaped := done.layout.shapes node member
    unfold VfsNode.Shaped at shaped ⊢
    rwa [settledRow_type, settledRow_blobId, settledRow_size, settledRow_mimeType]
  numbered := by
    intro node member
    have numbered := done.layout.versions node member
    unfold VfsNode.Numbered at numbered ⊢
    rw [settledRow_version]
    split
    · rename_i raised
      have room := raisable node member (MutationTx.mem_raisedIds.mpr raised)
      omega
    · omega

theorem TxDone.layout_settled (done : TxDone host effects base scope held tx)
    (raisable : Raisable tx.db.nodes tx.raisedIds) :
    Layout host tx.settled.db.nodes tx.rootId :=
  done.layout.rewrite (done.keepsLinks_settled raisable)

/-! ## Revisions of the settled rows -/

theorem revisionsOf_eq_ok {states : List (Uuid × ChangeFeedNodeState)}
    (numbered : ∀ entry ∈ states, entry.2.node.Numbered) :
    revisionsOf states = .ok (states.map fun entry =>
      ⟨entry.2.path, ⟨entry.2.node.id, entry.2.node.version⟩⟩) := by
  induction states with
  | nil => rfl
  | cons entry rest induction =>
      rcases entry with ⟨key, state⟩
      have first := numbered (key, state) List.mem_cons_self
      unfold revisionsOf
      rw [encodeRevision_eq_ok first.1 first.2,
        induction fun other isOther => numbered other (List.mem_cons_of_mem _ isOther)]
      rfl

theorem satisfies_bumpAndReadChangedNodes (done : TxDone host effects base scope held tx)
    {post : List AffectedRevision → MutationTx → Prop}
    (continues : Raisable tx.db.nodes tx.raisedIds → ∀ revisions, post revisions tx.settled) :
    Satisfies (bumpAndReadChangedNodes host) post Expected tx.withCounters.withBytes := by
  have distinct : (chunked NODE_BULK_CHUNK_SIZE tx.raisedIds).flatten.Nodup := by
    rw [chunked_flatten (by decide)]
    exact tx.nodup_raisedIds
  have sameIds : nodeIds (tx.db.nodes.map (counted tx.folderDelta)) = nodeIds tx.db.nodes := by
    simp [nodeIds, Function.comp_def]
  unfold bumpAndReadChangedNodes
  rw [satisfies_bind, satisfies_state, satisfies_bind]
  refine satisfies_forEach_bumpChunk (sameIds.symm ▸ done.tree.ids_nodup) distinct ?_
  rw [chunked_flatten (by decide)]
  intro raised
  have raisable : Raisable tx.db.nodes tx.raisedIds := by
    intro node member inside
    have room := raised (counted tx.folderDelta node) (List.mem_map_of_mem member)
      ((counted_id _ _).symm ▸ inside)
    have sameVersion : (counted tx.folderDelta node).version = node.version := by
      unfold counted
      split
      · rfl
      · rfl
    rwa [sameVersion] at room
  have layout := done.layout_settled raisable
  rcases captureChangeFeedNodes_empty_eq_ok host layout.tree tx.changed.keys with
    ⟨states, run, found⟩
  have numbered : ∀ entry ∈ states.entries, entry.2.node.Numbered := by
    intro entry isEntry
    have isState := (states.mem_entries_iff entry.1 entry.2).mp isEntry
    exact layout.versions _ ((found entry.1 entry.2).mp isState).2.1
  have rows : (tx.db.nodes.map (counted tx.folderDelta)).map (bumped tx.raisedIds tx.now) =
      tx.settled.db.nodes := List.map_map
  have isSettled : ({ tx.withCounters.withBytes with
      db := { tx.withCounters.withBytes.db with
        nodes := (tx.db.nodes.map (counted tx.folderDelta)).map (bumped tx.raisedIds tx.now) } } :
      MutationTx) = tx.settled := by
    rw [rows]
    rfl
  have last : Satisfies
      (do
        let tx ← state
        let states ← lift (captureChangeFeedNodes host tx.db.nodes tx.changed.keys .empty)
        let revisions ← lift (revisionsOf states.entries)
        return sortBy (fun left right => !JsString.before right.path left.path) revisions)
      post Expected tx.settled := by
    rw [satisfies_bind, satisfies_state, satisfies_bind]
    have isRun : captureChangeFeedNodes host tx.settled.db.nodes tx.settled.changed.keys .empty =
        .ok states := run
    rw [isRun, satisfies_lift_ok, satisfies_bind, revisionsOf_eq_ok numbered, satisfies_lift_ok,
      satisfies_pure]
    exact continues raisable _
  rw [← isSettled] at last
  exact last

/-! ## The committed tables -/

theorem fileBlobs_settled (tx : MutationTx) (nodes : List VfsNode) :
    fileBlobs (nodes.map (settledRow tx)) = fileBlobs nodes := by
  unfold fileBlobs
  rw [List.filter_map, List.filterMap_map]
  simp only [Function.comp_def, settledRow_type, settledRow_blobId]

theorem references_settled (tx : MutationTx) (feedState : Option ChangeFeedState)
    (feedEvents : List ChangeEvent) (issued : Nat) :
    ({ tx.settled.db with
      feedState := feedState, feedEvents := feedEvents, issued := issued } : Database).references =
      tx.db.references := by
  unfold Database.references
  exact congrArg (fun blobs => blobs ++ _ ++ _) (fileBlobs_settled tx tx.db.nodes)

theorem total_settled (measure : VfsNode → Int) (tx : MutationTx)
    (same : ∀ node, measure (settledRow tx node) = measure node) (nodes : List VfsNode) :
    total measure (nodes.map (settledRow tx)) = total measure nodes := by
  unfold total
  rw [List.map_map]
  exact congrArg List.sum (List.map_congr_left fun node _ => same node)

theorem TxDone.books_settled (done : TxDone host effects base scope held tx) :
    NodeBooks tx.settled.db.nodes tx.settled.db.nodes tx.settled.db.namespaceRow.liveNodeCount
      tx.settled.db.namespaceRow.liveFileByteCount fun _ => 0 where
  count := by
    rw [MutationTx.settled, List.length_map]
    exact done.books.count
  bytes := by
    have sizes := total_settled fileSize tx (fun node => by simp [fileSize]) tx.db.nodes
    exact done.books.bytes.trans sizes.symm
  folders := by
    intro node member isDirectory
    rcases List.mem_map.mp member with ⟨old, oldMember, rfl⟩
    rw [settledRow_type] at isDirectory
    have below := total_settled (fileBelow old.id) tx (fun node => by simp [fileBelow])
      tx.db.nodes
    rw [settledRow_childFileCount, counted, if_pos isDirectory, settledRow_id, Int.add_zero]
    exact (done.books.folders old oldMember isDirectory).trans below.symm
  nonneg := by
    intro node member
    rcases List.mem_map.mp member with ⟨old, oldMember, rfl⟩
    rw [settledRow_childFileCount, counted]
    split
    · rename_i isDirectory
      exact done.folderDelta_nonneg oldMember isDirectory
    · exact done.books.nonneg old oldMember
  gone := fun _ _ => Int.le_refl 0
  touched := fun _ nonzero => absurd rfl nonzero
  stored := by
    intro node member old oldMember same
    have sameIds : nodeIds tx.settled.db.nodes = nodeIds tx.db.nodes := by
      simp [nodeIds, MutationTx.settled, Function.comp_def]
    have nodup : (nodeIds tx.settled.db.nodes).Nodup := sameIds.symm ▸ done.tree.ids_nodup
    rw [List.inj_on_of_nodup_map nodup member oldMember same.symm]
  unstored := fun node member new => absurd (mem_nodeIds_of_mem member) new

theorem TxDone.consistent (done : TxDone host effects base scope [] tx)
    (raisable : Raisable tx.db.nodes tx.raisedIds) (feedState : Option ChangeFeedState)
    (feedEvents : List ChangeEvent) {issued : Nat} (later : tx.db.issued ≤ issued) :
    Consistent host
      { tx.settled.db with
        feedState := feedState, feedEvents := feedEvents, issued := issued } where
  layout := ⟨tx.rootId, done.layout_settled raisable⟩
  books := done.books_settled
  refs := by
    have refs := done.refs.restart
    rw [List.append_nil] at refs
    rw [references_settled]
    exact refs
  trash := done.trash
  snapshots := done.snapshots
  issued := by
    have drawn := done.issued
    refine ⟨fun id isId => ?_, fun entry isEntry => (drawn.sources entry isEntry).mono later,
      fun id isId => (drawn.blobs id isId).mono later, fun id isId =>
        (drawn.trash id isId).mono later,
      fun id isId => (drawn.snapshots id isId).mono later⟩
    have sameIds := (done.keepsLinks_settled raisable).nodeIds_eq
    exact (drawn.nodes id (sameIds ▸ isId)).mono later
  separate := by
    intro entry isEntry
    have sameIds := (done.keepsLinks_settled raisable).nodeIds_eq
    exact sameIds.symm ▸ done.separate entry isEntry

end Storix
