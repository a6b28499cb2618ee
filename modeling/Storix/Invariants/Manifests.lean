import Storix.Invariants.Layout
import Storix.Foundation.Ledger
import Mathlib.Algebra.Order.Group.Int

/-! # Manifests

The trash and the snapshots store a subtree as a list of entries below one item.
An item counts its entries and their bytes, and a trash manifest can be planted
again: every entry but the root names a directory entry as its parent. -/

namespace Storix

open Foundation JsString

/-! ## Sorting by rank -/

theorem pairwise_sortBy {α : Type} (le : α → α → Bool) (rank : α → Nat)
    (below : ∀ left right, le left right = true → rank left ≤ rank right)
    (above : ∀ left right, le left right = false → rank right ≤ rank left) (items : List α) :
    (sortBy le items).Pairwise fun left right => rank left ≤ rank right := by
  unfold sortBy
  induction items with
  | nil => exact .nil
  | cons item rest induction =>
      rw [List.insertionSort_cons]
      generalize List.insertionSort (fun left right => le left right = true) rest = sorted
        at induction
      induction sorted with
      | nil => simp
      | cons first sorted inner =>
          have parts := List.pairwise_cons.mp induction
          rw [List.orderedInsert_cons]
          by_cases before : le item first = true
          · rw [if_pos before]
            refine List.pairwise_cons.mpr ⟨fun other member => ?_, induction⟩
            have least := below item first before
            rcases List.mem_cons.mp member with rfl | member
            · exact least
            · exact Nat.le_trans least (parts.1 other member)
          · rw [if_neg before]
            refine List.pairwise_cons.mpr ⟨fun other member => ?_, inner parts.2⟩
            rcases (List.mem_orderedInsert _).mp member with rfl | member
            · exact above other first (by simpa using before)
            · exact parts.1 other member

/-! ## Trash manifests -/

def TrashEntry.bytes (entry : TrashEntry) : Int :=
  if entry.type = .file then entry.size.getD 0 else 0

theorem manifestBytes_eq_sum (entries : List TrashEntry) :
    (manifestBytes entries : Int) = (entries.map TrashEntry.bytes).sum := by
  unfold manifestBytes
  induction entries with
  | nil => rfl
  | cons entry rest induction =>
      rw [List.map_cons, List.sum_cons, ← induction]
      by_cases isFile : entry.type = .file
      · rw [List.filter_cons_of_pos (by simpa using isFile), List.map_cons, List.sum_cons]
        simp [TrashEntry.bytes, isFile]
      · rw [List.filter_cons_of_neg (by simpa using isFile)]
        simp [TrashEntry.bytes, isFile]

/-- The entries of one item form a subtree that starts at `rootNodeId`. -/
structure Manifest (rootNodeId : Uuid) (entries : List TrashEntry) : Prop where
  text : ∀ entry ∈ entries, ∃ segments, (∀ name ∈ segments, PlainName name) ∧
    entry.relativePath = joinRelative segments
  distinct : (entries.map TrashEntry.relativePath).Nodup
  parents : ∀ entry ∈ entries, ∀ front name,
    relativeSegments entry.relativePath = front ++ [name] →
      ∃ above ∈ entries, relativeSegments above.relativePath = front ∧ above.type = .directory
  root : ∃ entry ∈ entries, entry.relativePath = dot ∧ entry.sourceNodeId = rootNodeId
  shaped : ∀ entry ∈ entries,
    ContentShape entry.type entry.blobId entry.size entry.mimeType
  revisions : ∀ entry ∈ entries, entry.sourceRevision.id = entry.sourceNodeId ∧
    1 ≤ entry.sourceRevision.version ∧ entry.sourceRevision.version ≤ MAX_VFS_VERSION

theorem Manifest.plain {rootNodeId : Uuid} {entries : List TrashEntry}
    (manifest : Manifest rootNodeId entries) {entry : TrashEntry} (member : entry ∈ entries) :
    (∀ name ∈ relativeSegments entry.relativePath, PlainName name) ∧
      entry.relativePath = joinRelative (relativeSegments entry.relativePath) := by
  rcases manifest.text entry member with ⟨segments, plain, same⟩
  rw [same, relativeSegments_joinRelative plain]
  exact ⟨plain, rfl⟩

theorem Manifest.eq_of_segments {rootNodeId : Uuid} {entries : List TrashEntry}
    (manifest : Manifest rootNodeId entries) {left right : TrashEntry}
    (leftMember : left ∈ entries) (rightMember : right ∈ entries)
    (same : relativeSegments left.relativePath = relativeSegments right.relativePath) :
    left = right := by
  refine List.inj_on_of_nodup_map manifest.distinct leftMember rightMember ?_
  rw [(manifest.plain leftMember).2, (manifest.plain rightMember).2, same]

theorem Manifest.perm {rootNodeId : Uuid} {entries others : List TrashEntry}
    (manifest : Manifest rootNodeId entries) (same : entries.Perm others) :
    Manifest rootNodeId others where
  text entry member := manifest.text entry (same.mem_iff.mpr member)
  distinct := (same.map _).nodup_iff.mp manifest.distinct
  parents entry member front name split := by
    rcases manifest.parents entry (same.mem_iff.mpr member) front name split with
      ⟨above, aboveMember, rest⟩
    exact ⟨above, same.mem_iff.mp aboveMember, rest⟩
  root := by
    rcases manifest.root with ⟨entry, member, rest⟩
    exact ⟨entry, same.mem_iff.mp member, rest⟩
  shaped entry member := manifest.shaped entry (same.mem_iff.mpr member)
  revisions entry member := manifest.revisions entry (same.mem_iff.mpr member)

structure TrashBooks (trash : List TrashItem) (entries : List TrashEntry)
    (nodeCount byteCount : Int) : Prop where
  nodes : Ledger TrashItem.id TrashItem.nodeCount TrashEntry.trashId (fun _ => 1) trash entries
  bytes : Ledger TrashItem.id TrashItem.logicalBytes TrashEntry.trashId TrashEntry.bytes
    trash entries
  nodeTotal : nodeCount = (trash.map TrashItem.nodeCount).sum
  byteTotal : byteCount = (trash.map TrashItem.logicalBytes).sum
  manifests : ∀ item ∈ trash,
    Manifest item.rootNodeId (postings TrashEntry.trashId entries item.id)
  sources : (entries.map TrashEntry.sourceNodeId).Nodup

namespace TrashBooks

variable {trash : List TrashItem} {entries : List TrashEntry} {nodeCount byteCount : Int}

theorem item_nodeCount (books : TrashBooks trash entries nodeCount byteCount) {item : TrashItem}
    (member : item ∈ trash) :
    item.nodeCount = (postings TrashEntry.trashId entries item.id).length := by
  rw [books.nodes.exact item member]
  simp

theorem item_logicalBytes (books : TrashBooks trash entries nodeCount byteCount)
    {item : TrashItem} (member : item ∈ trash) :
    item.logicalBytes = manifestBytes (postings TrashEntry.trashId entries item.id) := by
  rw [books.bytes.exact item member, manifestBytes_eq_sum]

theorem totals (books : TrashBooks trash entries nodeCount byteCount) :
    nodeCount = entries.length ∧ byteCount = manifestBytes entries := by
  rw [books.nodeTotal, books.byteTotal, books.nodes.total, books.bytes.total,
    manifestBytes_eq_sum]
  exact ⟨by simp, rfl⟩

theorem item_le (books : TrashBooks trash entries nodeCount byteCount) {item : TrashItem}
    (member : item ∈ trash) : item.nodeCount ≤ nodeCount ∧ item.logicalBytes ≤ byteCount := by
  rw [books.nodeTotal, books.byteTotal]
  constructor
  · refine List.single_le_sum (fun amount inside => ?_) _ (List.mem_map_of_mem member)
    rcases List.mem_map.mp inside with ⟨other, otherMember, rfl⟩
    rw [books.item_nodeCount otherMember]
    exact Int.natCast_nonneg _
  · refine List.single_le_sum (fun amount inside => ?_) _ (List.mem_map_of_mem member)
    rcases List.mem_map.mp inside with ⟨other, otherMember, rfl⟩
    rw [books.item_logicalBytes otherMember]
    exact Int.natCast_nonneg _

theorem pack (books : TrashBooks trash entries nodeCount byteCount) {item : TrashItem}
    {more : List TrashEntry} (fresh : item.id ∉ trash.map TrashItem.id)
    (own : ∀ entry ∈ more, entry.trashId = item.id)
    (count : item.nodeCount = more.length) (bytes : item.logicalBytes = manifestBytes more)
    (manifest : Manifest item.rootNodeId more)
    (sources : (more.map TrashEntry.sourceNodeId).Nodup)
    (apart : ∀ entry ∈ more, entry.sourceNodeId ∉ entries.map TrashEntry.sourceNodeId) :
    TrashBooks (trash ++ [item]) (entries ++ more) (nodeCount + item.nodeCount)
      (byteCount + item.logicalBytes) where
  nodes := books.nodes.append fresh own (by simp [count])
  bytes := books.bytes.append fresh own (by rw [bytes, manifestBytes_eq_sum])
  nodeTotal := by simp [books.nodeTotal]
  byteTotal := by simp [books.byteTotal]
  manifests other member := by
    rcases List.mem_append.mp member with member | member
    · have different : other.id ≠ item.id := fun same =>
        fresh (same ▸ List.mem_map_of_mem member)
      rw [Ledger.postings_append_of_ne own different]
      exact books.manifests other member
    · rw [List.mem_singleton] at member
      subst member
      rw [Ledger.postings_append_self books.nodes.owned fresh own]
      exact manifest
  sources := by
    rw [List.map_append, List.nodup_append]
    refine ⟨books.sources, sources, ?_⟩
    intro left leftMember right rightMember same
    rcases List.mem_map.mp rightMember with ⟨entry, entryMember, rfl⟩
    exact apart entry entryMember (same ▸ leftMember)

theorem unpack (books : TrashBooks trash entries nodeCount byteCount) {item : TrashItem}
    (member : item ∈ trash) :
    TrashBooks (trash.filter fun other => other.id ≠ item.id)
      (entries.filter fun entry => entry.trashId ≠ item.id) (nodeCount - item.nodeCount)
      (byteCount - item.logicalBytes) where
  nodes := books.nodes.close item.id
  bytes := books.bytes.close item.id
  nodeTotal := by
    rw [books.nodeTotal]
    exact (Ledger.sum_close books.nodes.keys member TrashItem.nodeCount).symm
  byteTotal := by
    rw [books.byteTotal]
    exact (Ledger.sum_close books.nodes.keys member TrashItem.logicalBytes).symm
  manifests other otherMember := by
    rcases List.mem_filter.mp otherMember with ⟨otherMember, different⟩
    rw [Ledger.postings_close_of_ne]
    · exact books.manifests other otherMember
    · simpa using different
  sources := books.sources.sublist (List.filter_sublist.map _)

end TrashBooks

/-! ## Snapshots -/

def SnapshotEntry.bytes (entry : SnapshotEntry) : Int :=
  if entry.type = .file then entry.size.getD 0 else 0

structure SnapshotBooks (snapshots : List Snapshot) (entries : List SnapshotEntry)
    (nodeCount byteCount : Int) : Prop where
  nodes : Ledger Snapshot.id Snapshot.nodeCount SnapshotEntry.snapshotId (fun _ => 1)
    snapshots entries
  bytes : Ledger Snapshot.id Snapshot.logicalBytes SnapshotEntry.snapshotId SnapshotEntry.bytes
    snapshots entries
  nodeTotal : nodeCount = (snapshots.map Snapshot.nodeCount).sum
  byteTotal : byteCount = (snapshots.map Snapshot.logicalBytes).sum
  shaped : ∀ entry ∈ entries,
    ContentShape entry.type entry.blobId entry.size entry.mimeType
  paths : (entries.map fun entry => (entry.snapshotId, entry.relativePath)).Nodup
  paired : ∀ entry ∈ entries, hasLoneSurrogate entry.relativePath = false

namespace SnapshotBooks

variable {snapshots : List Snapshot} {entries : List SnapshotEntry} {nodeCount byteCount : Int}

theorem totals (books : SnapshotBooks snapshots entries nodeCount byteCount) :
    nodeCount = entries.length ∧ byteCount = (entries.map SnapshotEntry.bytes).sum := by
  rw [books.nodeTotal, books.byteTotal, books.nodes.total, books.bytes.total]
  exact ⟨by simp, rfl⟩

theorem take (books : SnapshotBooks snapshots entries nodeCount byteCount) {snapshot : Snapshot}
    {more : List SnapshotEntry} (fresh : snapshot.id ∉ snapshots.map Snapshot.id)
    (own : ∀ entry ∈ more, entry.snapshotId = snapshot.id)
    (count : snapshot.nodeCount = more.length)
    (bytes : snapshot.logicalBytes = (more.map SnapshotEntry.bytes).sum)
    (shaped : ∀ entry ∈ more, ContentShape entry.type entry.blobId entry.size entry.mimeType)
    (paths : (more.map SnapshotEntry.relativePath).Nodup)
    (paired : ∀ entry ∈ more, hasLoneSurrogate entry.relativePath = false) :
    SnapshotBooks (snapshots ++ [snapshot]) (entries ++ more) (nodeCount + snapshot.nodeCount)
      (byteCount + snapshot.logicalBytes) where
  nodes := books.nodes.append fresh own (by simp [count])
  bytes := books.bytes.append fresh own bytes
  nodeTotal := by simp [books.nodeTotal]
  byteTotal := by simp [books.byteTotal]
  shaped entry member := by
    rcases List.mem_append.mp member with member | member
    · exact books.shaped entry member
    · exact shaped entry member
  paths := by
    rw [List.map_append, List.nodup_append]
    refine ⟨books.paths, ?_, ?_⟩
    · refine List.Nodup.of_map Prod.snd ?_
      rw [List.map_map]
      exact paths
    · rintro pair isOld _ isNew rfl
      rcases List.mem_map.mp isOld with ⟨old, oldMember, same⟩
      rcases List.mem_map.mp isNew with ⟨new, newMember, rfl⟩
      have owned := books.nodes.owned old oldMember
      rw [show old.snapshotId = new.snapshotId from congrArg Prod.fst same,
        own new newMember] at owned
      exact fresh owned
  paired entry member := by
    rcases List.mem_append.mp member with member | member
    · exact books.paired entry member
    · exact paired entry member

theorem drop (books : SnapshotBooks snapshots entries nodeCount byteCount) {snapshot : Snapshot}
    (member : snapshot ∈ snapshots) :
    SnapshotBooks (snapshots.filter fun other => other.id ≠ snapshot.id)
      (entries.filter fun entry => entry.snapshotId ≠ snapshot.id)
      (nodeCount - snapshot.nodeCount) (byteCount - snapshot.logicalBytes) where
  nodes := books.nodes.close snapshot.id
  bytes := books.bytes.close snapshot.id
  nodeTotal := by
    rw [books.nodeTotal]
    exact (Ledger.sum_close books.nodes.keys member Snapshot.nodeCount).symm
  byteTotal := by
    rw [books.byteTotal]
    exact (Ledger.sum_close books.nodes.keys member Snapshot.logicalBytes).symm
  shaped entry entryMember := books.shaped entry (List.mem_filter.mp entryMember).1
  paths := books.paths.sublist (List.filter_sublist.map _)
  paired entry entryMember := books.paired entry (List.mem_filter.mp entryMember).1

end SnapshotBooks

/-! ## Captured subtrees -/

def TreeRow.captured (row : TreeRow) : SnapshotSourceRow where
  id := row.node.id
  parentId := row.node.parentId
  name := row.node.name
  type := row.node.type
  revision := ⟨row.node.id, row.node.version⟩
  relativePath := row.relativePath
  blobId := row.node.blobId
  size := row.node.size
  mimeType := row.node.mimeType
  createdAt := row.node.createdAt

theorem sourceRows_eq_ok {rows : List TreeRow} (numbered : ∀ row ∈ rows, row.node.Numbered) :
    sourceRows rows = .ok (rows.map TreeRow.captured) := by
  induction rows with
  | nil => rfl
  | cons row rest induction =>
      have bounds := numbered row (by simp)
      have others := induction fun other member => numbered other (List.mem_cons_of_mem _ member)
      simp only [sourceRows, encodeRevision_eq_ok bounds.1 bounds.2, others]
      rfl

theorem trashBytes_eq_ok {rows : List SnapshotSourceRow} (trashId : Uuid)
    (shaped : ∀ row ∈ rows, ContentShape row.type row.blobId row.size row.mimeType) :
    trashBytes rows = .ok (manifestBytes (rows.map (trashEntryOf trashId))) := by
  induction rows with
  | nil => rfl
  | cons row rest induction =>
      have shape := shaped row (by simp)
      have others := induction fun other member => shaped other (List.mem_cons_of_mem _ member)
      unfold ContentShape at shape
      unfold trashBytes
      cases isType : row.type with
      | file =>
          rw [isType] at shape
          rcases shape with ⟨blob, size, mime⟩
          rcases Option.isSome_iff_exists.mp blob with ⟨blobId, blobFound⟩
          rcases Option.isSome_iff_exists.mp size with ⟨sizeValue, sizeFound⟩
          rcases Option.isSome_iff_exists.mp mime with ⟨mimeValue, mimeFound⟩
          simp [blobFound, sizeFound, mimeFound, others, manifestBytes, trashEntryOf, isType]
      | directory =>
          rw [isType] at shape
          rw [if_pos shape, others]
          simp [manifestBytes, trashEntryOf, isType]

theorem head_sortBy_relativePathLe {rows : List TreeRow} {source : VfsNode}
    (inside : (⟨source, dot⟩ : TreeRow) ∈ rows) :
    ∃ first rest, sortBy relativePathLe rows = first :: rest ∧ first.relativePath = dot := by
  have ordered := pairwise_sortBy relativePathLe
    (fun row => if row.relativePath = dot then 0 else 1)
    (by
      intro left right before
      unfold relativePathLe at before
      by_cases leftDot : left.relativePath = dot
      · simp [leftDot]
      · by_cases rightDot : right.relativePath = dot
        · simp [leftDot, rightDot] at before
        · simp [leftDot, rightDot])
    (by
      intro left right after
      unfold relativePathLe at after
      by_cases leftDot : left.relativePath = dot
      · simp [leftDot] at after
      · simp only [leftDot, if_false]
        split <;> omega) rows
  have member : (⟨source, dot⟩ : TreeRow) ∈ sortBy relativePathLe rows :=
    (List.perm_insertionSort _ rows).mem_iff.mpr inside
  cases sorted : sortBy relativePathLe rows with
  | nil =>
      rw [sorted] at member
      cases member
  | cons first rest =>
      refine ⟨first, rest, rfl, ?_⟩
      rw [sorted] at member ordered
      rcases List.mem_cons.mp member with rfl | member
      · rfl
      · by_contra other
        have least := (List.pairwise_cons.mp ordered).1 _ member
        simp [other] at least

section Captured

variable {host : Host} {nodes : List VfsNode} {rootId : Uuid} {source : VfsNode}
  {path : List JsString} {rows : List TreeRow}

theorem manifest_of_subtree (layout : Layout host nodes rootId) (member : source ∈ nodes)
    (reached : PathOf nodes source.id path) (whole : rows.Perm (subtreeRows nodes source))
    (trashId : Uuid) :
    Manifest source.id ((rows.map TreeRow.captured).map (trashEntryOf trashId)) := by
  have inside : ∀ row, row ∈ rows ↔ row.node ∈ nodes ∧ ∃ segments,
      PathOf nodes row.node.id (path ++ segments) ∧ row.relativePath = joinRelative segments := by
    intro row
    rw [whole.mem_iff]
    exact mem_subtreeRows layout.tree layout.valid member reached
  have entryOf : ∀ entry ∈ (rows.map TreeRow.captured).map (trashEntryOf trashId),
      ∃ row ∈ rows, entry = trashEntryOf trashId row.captured := by
    intro entry entryMember
    rcases List.mem_map.mp entryMember with ⟨captured, capturedMember, rfl⟩
    rcases List.mem_map.mp capturedMember with ⟨row, rowMember, rfl⟩
    exact ⟨row, rowMember, rfl⟩
  have entryMem : ∀ row ∈ rows, trashEntryOf trashId row.captured ∈
      (rows.map TreeRow.captured).map (trashEntryOf trashId) := by
    intro row rowMember
    exact List.mem_map_of_mem (List.mem_map_of_mem rowMember)
  refine { text := ?_, distinct := ?_, parents := ?_, root := ?_, shaped := ?_, revisions := ?_ }
  · intro entry entryMember
    rcases entryOf entry entryMember with ⟨row, rowMember, rfl⟩
    rcases (inside row).mp rowMember with ⟨_, segments, rowReached, text⟩
    exact ⟨segments, layout.valid.plain rowReached, text⟩
  · rw [List.map_map, List.map_map]
    refine List.Nodup.map_on ?_ ?_
    · intro left leftMember right rightMember same
      rcases (inside left).mp leftMember with ⟨leftNode, leftSegments, leftReached, leftText⟩
      rcases (inside right).mp rightMember with ⟨rightNode, rightSegments, rightReached, rightText⟩
      have texts : joinRelative leftSegments = joinRelative rightSegments := by
        rw [← leftText, ← rightText]
        exact same
      have equal := joinRelative_injective (layout.valid.plain leftReached)
        (layout.valid.plain rightReached) texts
      subst equal
      have sameNode := layout.tree.eq_of_id leftNode rightNode
        (PathTo.injective layout.tree leftReached rightReached)
      rcases left with ⟨leftNode, leftPath⟩
      rcases right with ⟨rightNode, rightPath⟩
      simp only at sameNode leftText rightText
      rw [sameNode, leftText, rightText]
    · exact ((whole.map fun row => row.node.id).nodup_iff.mpr
        (nodup_subtreeRows layout.tree member)).of_map _
  · intro entry entryMember front name split
    rcases entryOf entry entryMember with ⟨row, rowMember, rfl⟩
    rcases (inside row).mp rowMember with ⟨_, segments, rowReached, text⟩
    have plain := layout.valid.plain rowReached
    change relativeSegments row.relativePath = front ++ [name] at split
    rw [text, relativeSegments_joinRelative plain] at split
    subst split
    rw [← List.append_assoc] at rowReached
    rcases PathOf.exists_child rowReached with ⟨node, nodeMember, _, _, parentId, below, above⟩
    rcases layout.tree.exists_parent nodeMember below with ⟨parent, parentMember, rfl, directory⟩
    refine ⟨_, entryMem ⟨parent, joinRelative front⟩ ((inside _).mpr
      ⟨parentMember, front, above, rfl⟩), ?_, directory⟩
    exact relativeSegments_joinRelative fun name inFront =>
      plain name (List.mem_append_left _ inFront)
  · refine ⟨_, entryMem ⟨source, dot⟩ ((inside _).mpr ⟨member, [], ?_, rfl⟩), rfl, rfl⟩
    rw [List.append_nil]
    exact reached
  · intro entry entryMember
    rcases entryOf entry entryMember with ⟨row, rowMember, rfl⟩
    exact layout.shapes row.node ((inside row).mp rowMember).1
  · intro entry entryMember
    rcases entryOf entry entryMember with ⟨row, rowMember, rfl⟩
    exact ⟨rfl, layout.versions row.node ((inside row).mp rowMember).1⟩

end Captured

end Storix
