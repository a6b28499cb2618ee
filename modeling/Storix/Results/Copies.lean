import Storix.Results.Frames
import Storix.Results.Moves

/-! # Copies are independent

A committed copy is a tree of fresh rows with the shape and the content of its source, and
the counts of the blobs grow by what the source holds of them. From then on neither of the
two trees depends on the other. -/

namespace Storix

open Foundation Foundation.Command

variable {host : Host} {effects : Effects} {base db : Database}
  {scope : List JsString → Prop} {held : List Uuid} {tx : MutationTx}
  {source destination final : List JsString} {parents : Bool} {resolution : DestinationResolution}
  {expiresAt : Option Nat}

/-! ## The copied subtree -/

noncomputable def occurrences (db : Database) (source : List JsString) (blobId : Uuid) : Nat :=
  Set.ncard {id : Uuid | ∃ node ∈ db.nodes, node.id = id ∧ node.type = .file ∧
    node.blobId = some blobId ∧ ∃ rest, PathOf db.nodes id (source ++ rest)}

/-- The rows of `next` are those of `db`, a copy of one subtree at a place apart from it, and
the missing parents of the destination. -/
structure Copied (host : Host) (db next : Database) (source destination final : List JsString)
    (parents : Bool) (expiresAt : Option Nat) : Prop where
  found : ∃ id, PathOf db.nodes id source
  apart : ApartPaths source final
  onto : ∀ node ∈ db.nodes, ∀ rest, PathOf db.nodes node.id (source ++ rest) →
    ∃ row ∈ next.nodes, PathOf next.nodes row.id (final ++ rest) ∧ CopyOf expiresAt node row
  origin : ∀ row ∈ next.nodes, ∀ rest, PathOf next.nodes row.id (final ++ rest) →
    ¬Drawn host db.issued row.id ∧ ∃ node ∈ db.nodes,
      PathOf db.nodes node.id (source ++ rest) ∧ CopyOf expiresAt node row
  content : ∀ old ∈ db.nodes, ∃ new ∈ next.nodes, SameContent old new
  places : ∀ id path, PathOf db.nodes id path → PathOf next.nodes id path
  versions : ∀ old ∈ db.nodes, ∀ path, PathOf db.nodes old.id path →
    source <+: path ∨ ¬path <+: final →
    ∀ new ∈ next.nodes, new.id = old.id → new.version = old.version
  added : ∀ new ∈ next.nodes, new.id ∉ nodeIds db.nodes →
    (∃ rest, PathOf next.nodes new.id (final ++ rest)) ∨
    parents = true ∧ new.type = .directory ∧ ∃ path, path <+: destination.dropLast ∧
      PathOf next.nodes new.id path ∧ ∀ id, ¬PathOf db.nodes id path
  references : ∀ old ∈ db.blobs, ∃ new ∈ next.blobs, new.face = old.face ∧
    new.referenceCount = old.referenceCount + occurrences db source old.id

section CopiedFrom

variable {next middle : MutationTx} {copies : List CopiedRow}

theorem CopiedFrom.off
    (copied : CopiedFrom host tx next source destination final parents expiresAt middle copies)
    (ends : final = destination ∨ final = destination ++ [lastSegment source])
    (rest : List JsString) : ¬source ++ rest <+: destination.dropLast := by
  intro inside
  refine copied.apart ((List.prefix_append source rest).trans (inside.trans ?_))
  rcases ends with rfl | rfl
  · exact List.dropLast_prefix _
  · exact (List.dropLast_prefix _).trans (List.prefix_append _ _)

theorem CopiedFrom.source_path
    (copied : CopiedFrom host tx next source destination final parents expiresAt middle copies)
    (ends : final = destination ∨ final = destination ++ [lastSegment source])
    (before : Layout host tx.db.nodes tx.rootId) {node : VfsNode} (member : node ∈ middle.db.nodes)
    {rest : List JsString} (reached : PathOf middle.db.nodes node.id (source ++ rest)) :
    node ∈ tx.db.nodes ∧ PathOf tx.db.nodes node.id (source ++ rest) := by
  have older := copied.planted.pathOf copied.grown before.tree copied.layout.tree
    (copied.off ends rest) reached
  rcases PathOf.exists_node older with ⟨old, isOld, sameId⟩
  rw [← copied.layout.tree.eq_of_id (copied.grown.mem isOld) member sameId]
  exact ⟨isOld, sameId ▸ older⟩

theorem CopiedFrom.grows
    (copied : CopiedFrom host tx next source destination final parents expiresAt middle copies)
    {id : Uuid} {path : List JsString} (reached : PathOf middle.db.nodes id path) :
    PathOf next.db.nodes id path := by
  rw [copied.nodes]
  exact PathTo.mono (List.map_subset _ (List.subset_append_left _ _)) reached

theorem CopiedFrom.onto
    (copied : CopiedFrom host tx next source destination final parents expiresAt middle copies)
    {node : VfsNode} (member : node ∈ tx.db.nodes) {rest : List JsString}
    (reached : PathOf tx.db.nodes node.id (source ++ rest)) :
    ∃ row ∈ next.db.nodes, PathOf next.db.nodes row.id (final ++ rest) ∧
      CopyOf expiresAt node row := by
  have tree := copied.layout.tree
  have later := copied.grown.pathOf reached
  rcases List.mem_map.mp (copied.covers node.id rest later) with ⟨copy, isCopy, isSource⟩
  rcases copied.copied copy isCopy with ⟨other, isOther, sameId, same, place, otherAt, placed⟩
  rw [tree.eq_of_id isOther (copied.grown.mem member) (sameId.trans isSource)] at same otherAt
  have samePlace := PathTo.unique tree otherAt later
  rw [List.append_cancel_left_eq] at samePlace
  refine ⟨copy.row, ?_, samePlace ▸ placed, same⟩
  rw [copied.nodes]
  exact List.mem_append_right _ (List.mem_map_of_mem isCopy)

/-- Every row at the place of the copy is a fresh copy of the row at its place in the source. -/
theorem CopiedFrom.origin
    (copied : CopiedFrom host tx next source destination final parents expiresAt middle copies)
    (ends : final = destination ∨ final = destination ++ [lastSegment source])
    (before : Layout host tx.db.nodes tx.rootId) (after : Rooted next.db.nodes)
    (later : base.issued ≤ middle.db.issued) {row : VfsNode} (member : row ∈ next.db.nodes)
    {rest : List JsString} (reached : PathOf next.db.nodes row.id (final ++ rest)) :
    ¬Drawn host base.issued row.id ∧ ∃ node ∈ tx.db.nodes,
      PathOf tx.db.nodes node.id (source ++ rest) ∧ CopyOf expiresAt node row := by
  have isRow := member
  rw [copied.nodes] at isRow
  rcases List.mem_append.mp isRow with old | new
  · rcases copied.layout.tree.exists_path old with ⟨path, oldPath⟩
    rw [PathTo.unique after (copied.grows oldPath) reached] at oldPath
    rcases PathTo.of_prefix oldPath (List.prefix_append final rest) with ⟨above, aboveReached⟩
    exact absurd aboveReached (copied.vacant above)
  · rcases List.mem_map.mp new with ⟨copy, isCopy, rfl⟩
    rcases copied.copied copy isCopy with ⟨node, isNode, _, same, place, nodeAt, placed⟩
    have samePlace := PathTo.unique after placed reached
    rw [List.append_cancel_left_eq] at samePlace
    rw [samePlace] at nodeAt
    rcases copied.source_path ends before isNode nodeAt with ⟨isOld, oldAt⟩
    refine ⟨?_, node, isOld, oldAt, same⟩
    rcases copied.drawn copy isCopy with ⟨draw, late, isDraw⟩
    rintro ⟨early, isEarly, sameDraw⟩
    have equal := host.randomUUID_injective (isDraw.symm.trans sameDraw)
    omega

theorem CopiedFrom.added
    (copied : CopiedFrom host tx next source destination final parents expiresAt middle copies)
    {new : VfsNode} (member : new ∈ next.db.nodes) (isNew : new.id ∉ nodeIds tx.db.nodes) :
    (∃ rest, PathOf next.db.nodes new.id (final ++ rest)) ∨
    parents = true ∧ new.type = .directory ∧ ∃ path, path <+: destination.dropLast ∧
      PathOf next.db.nodes new.id path ∧ ∀ id, ¬PathOf tx.db.nodes id path := by
  have tree := copied.layout.tree
  rw [copied.nodes] at member
  rcases List.mem_append.mp member with isMiddle | isRow
  · rcases copied.planted new isMiddle with old | ⟨isDirectory, path, isFront, reached⟩
    · exact absurd (mem_nodeIds_of_mem old) isNew
    · refine .inr ⟨?_, isDirectory, path, isFront, copied.grows reached, fun id taken => ?_⟩
      · by_contra unplanted
        rw [copied.unplanted (Bool.not_eq_true _ ▸ unplanted)] at isMiddle
        exact isNew (mem_nodeIds_of_mem isMiddle)
      · have sameId := PathTo.injective tree (copied.grown.pathOf taken) reached
        exact isNew (sameId ▸ mem_nodeIds.mpr (PathOf.exists_node taken))
  · rcases List.mem_map.mp isRow with ⟨copy, isCopy, rfl⟩
    rcases copied.copied copy isCopy with ⟨_, _, _, _, rest, _, placed⟩
    exact .inl ⟨rest, placed⟩

/-! ## References -/

theorem CopiedFrom.planted_fileBlobs
    (copied : CopiedFrom host tx next source destination final parents expiresAt middle copies) :
    fileBlobs middle.db.nodes = fileBlobs tx.db.nodes := by
  rcases copied.grown.rows with ⟨rows, issued, isMiddle⟩
  have nodes : middle.db.nodes = tx.db.nodes ++ rows := by rw [isMiddle]
  have nodup := copied.layout.tree.ids_nodup
  rw [nodes, nodeIds, List.map_append, List.nodup_append] at nodup
  have directories : ∀ row ∈ rows, row.type = .directory := by
    intro row isRow
    rcases copied.planted row (nodes ▸ List.mem_append_right _ isRow) with old | planted
    · exact absurd rfl
        (nodup.2.2 row.id (List.mem_map_of_mem old) row.id (List.mem_map_of_mem isRow))
    · exact planted.1
  have noFiles : (rows.filter fun row => row.type = .file) = [] := by
    rw [List.filter_eq_nil_iff]
    intro row isRow
    simp [directories row isRow]
  have noBlobs : fileBlobs rows = [] := by
    unfold fileBlobs
    rw [noFiles, List.filterMap_nil]
  rw [nodes, fileBlobs_append, noBlobs, List.append_nil]

theorem CopiedFrom.count_copies
    (copied : CopiedFrom host tx next source destination final parents expiresAt middle copies)
    (ends : final = destination ∨ final = destination ++ [lastSegment source])
    (before : Layout host tx.db.nodes tx.rootId) (blobId : Uuid) :
    (fileBlobs (copies.map CopiedRow.row)).count blobId = occurrences tx.db source blobId := by
  let holds (copy : CopiedRow) : Bool := copy.row.blobId == some blobId && copy.row.type = .file
  have isLength : (fileBlobs (copies.map CopiedRow.row)).count blobId =
      ((copies.filter holds).map CopiedRow.sourceId).length := by
    unfold fileBlobs
    rw [List.count_filterMap, List.countP_filter, List.countP_map, List.countP_eq_length_filter,
      List.length_map]
    rfl
  have nodup : ((copies.filter holds).map CopiedRow.sourceId).Nodup :=
    copied.sources.sublist (List.filter_sublist.map _)
  have isSet : {id : Uuid | ∃ node ∈ tx.db.nodes, node.id = id ∧ node.type = .file ∧
      node.blobId = some blobId ∧ ∃ rest, PathOf tx.db.nodes id (source ++ rest)} =
      (((copies.filter holds).map CopiedRow.sourceId).toFinset : Set Uuid) := by
    ext id
    rw [Set.mem_ofPred_eq, Finset.mem_coe, List.mem_toFinset, List.mem_map]
    constructor
    · rintro ⟨node, member, rfl, isFile, isBlob, rest, reached⟩
      have later := copied.grown.pathOf reached
      rcases List.mem_map.mp (copied.covers node.id rest later) with ⟨copy, isCopy, isSource⟩
      rcases copied.copied copy isCopy with ⟨other, isOther, sameId, same, _⟩
      rw [copied.layout.tree.eq_of_id isOther (copied.grown.mem member) (sameId.trans isSource)]
        at same
      refine ⟨copy, List.mem_filter.mpr ⟨isCopy, ?_⟩, isSource⟩
      simp [holds, same.blobId, same.type, isFile, isBlob]
    · rintro ⟨copy, isCopy, rfl⟩
      rcases List.mem_filter.mp isCopy with ⟨isCopy, isHolder⟩
      simp only [holds, Bool.and_eq_true, beq_iff_eq, decide_eq_true_eq] at isHolder
      rcases copied.copied copy isCopy with ⟨node, isNode, sameId, same, rest, nodeAt, _⟩
      rcases copied.source_path ends before isNode nodeAt with ⟨isOld, oldAt⟩
      exact ⟨node, isOld, sameId, same.type.symm.trans isHolder.2,
        same.blobId.symm.trans isHolder.1,
        rest, sameId ▸ oldAt⟩
  rw [isLength, occurrences, isSet, Set.ncard_coe_finset, List.toFinset_card_of_nodup nodup]

theorem CopiedFrom.count_references
    (copied : CopiedFrom host tx next source destination final parents expiresAt middle copies)
    (ends : final = destination ∨ final = destination ++ [lastSegment source])
    (before : Layout host tx.db.nodes tx.rootId) (blobId : Uuid) :
    next.db.references.count blobId =
      tx.db.references.count blobId + occurrences tx.db source blobId := by
  rcases copied.grown.rows with ⟨rows, issued, isMiddle⟩
  have trash : next.db.trashEntries = tx.db.trashEntries := by
    rw [copied.tables, isMiddle]
  have snapshots : next.db.snapshotEntries = tx.db.snapshotEntries := by
    rw [copied.tables, isMiddle]
  unfold Database.references
  rw [trash, snapshots, copied.nodes, fileBlobs_append, copied.planted_fileBlobs]
  simp only [List.count_append]
  rw [copied.count_copies ends before blobId]
  omega

/-! ## The committed copy -/

theorem CopyOf.settled {node row : VfsNode} (same : CopyOf expiresAt node row) (tx : MutationTx) :
    CopyOf expiresAt node (settledRow tx row) := by
  rcases settledRow_content tx row with ⟨type, blobId, size, mimeType, expiry, _⟩
  exact ⟨type.trans same.type, blobId.trans same.blobId, size.trans same.size,
    mimeType.trans same.mimeType, expiry.trans same.expiry⟩

theorem CopiedFrom.committed {last : Database}
    (copied : CopiedFrom host tx next source destination final parents expiresAt middle copies)
    (ends : final = destination ∨ final = destination ++ [lastSegment source])
    (start : TxInv host effects base scope held tx) (fromStart : tx.db = base)
    (later : base.issued ≤ middle.db.issued)
    (done : TxDone host effects base (fun front => front <+: destination) [] next)
    (finished : Finished host base next last) :
    Copied host base last source destination final parents expiresAt := by
  have before := start.layout
  have beforeNodes : tx.db.nodes = base.nodes := congrArg Database.nodes fromStart
  have keeps := done.keepsLinks_settled finished.raisable
  have transition := finished.transition done
  rcases finished.tables with ⟨feedState, feedEvents, issued, _, isLast⟩
  have nodes : last.nodes = next.db.nodes.map (settledRow next) := by rw [isLast]; rfl
  have paths : ∀ {id path}, PathOf next.db.nodes id path ↔ PathOf last.nodes id path := by
    intro id path
    rw [nodes]
    exact keeps.pathOf_iff.symm
  have settles : ∀ {row}, row ∈ next.db.nodes → settledRow next row ∈ last.nodes := by
    intro row isRow
    rw [nodes]
    exact List.mem_map_of_mem isRow
  have kept : ∀ {node}, node ∈ base.nodes → node ∈ next.db.nodes := by
    intro node member
    rw [← beforeNodes] at member
    rw [copied.nodes]
    exact List.mem_append_left _ (copied.grown.mem member)
  have onWay : ∀ path, path <+: destination → path <+: final := by
    intro path isFront
    rcases ends with rfl | rfl
    · exact isFront
    · exact isFront.trans (List.prefix_append _ _)
  refine
    { found := ?_, apart := ⟨copied.apart, ?_⟩, onto := ?_, origin := ?_, content := ?_,
      places := ?_, versions := ?_, added := ?_, references := ?_ }
  · rcases copied.found with ⟨id, reached⟩
    rcases PathOf.exists_node reached with ⟨node, member, rfl⟩
    rw [← List.append_nil source] at reached
    rcases copied.source_path ends before member reached with ⟨_, oldAt⟩
    rw [List.append_nil] at oldAt
    exact ⟨node.id, beforeNodes ▸ oldAt⟩
  · intro inside
    rcases copied.found with ⟨id, reached⟩
    rcases PathTo.of_prefix reached inside with ⟨above, aboveReached⟩
    exact copied.vacant above aboveReached
  · intro node member rest reached
    rw [← beforeNodes] at member reached
    rcases copied.onto member reached with ⟨row, isRow, placed, same⟩
    refine ⟨settledRow next row, settles isRow, ?_, same.settled next⟩
    rw [settledRow_id]
    exact paths.mp placed
  · intro row member rest reached
    rw [nodes] at member
    rcases List.mem_map.mp member with ⟨row, isRow, rfl⟩
    rw [settledRow_id] at reached ⊢
    rcases copied.origin ends before done.tree later isRow (paths.mpr reached) with
      ⟨fresh, node, isNode, nodeAt, same⟩
    rw [beforeNodes] at isNode nodeAt
    exact ⟨fresh, node, isNode, nodeAt, same.settled next⟩
  · intro old member
    exact ⟨settledRow next old, settles (kept member), settledRow_sameContent next old⟩
  · intro id path reached
    rw [← beforeNodes] at reached
    exact paths.mp (copied.grows (copied.grown.pathOf reached))
  · intro old member path reached elsewhere new isNew sameId
    have unchanged : ¬next.changed.get new.id ≠ none := by
      intro marked
      have isFront := onWay path (transition.allowed new.id marked path (sameId ▸ reached))
      rcases elsewhere with inside | off
      · exact copied.apart (inside.trans isFront)
      · exact off isFront
    have record := ((transition.version done.start member isNew sameId.symm).2 unchanged).1
    exact (congrArg VfsNodeRecord.version record).symm
  · intro new member isNew
    rw [nodes] at member
    rcases List.mem_map.mp member with ⟨row, isRow, rfl⟩
    rw [settledRow_id] at isNew ⊢
    rw [settledRow_type]
    rw [← beforeNodes] at isNew ⊢
    rcases copied.added isRow isNew with
      ⟨rest, placed⟩ | ⟨creates, isDirectory, path, isFront, reached, free⟩
    · exact .inl ⟨rest, paths.mp placed⟩
    · exact .inr ⟨creates, isDirectory, path, isFront, paths.mp reached, free⟩
  · intro old member
    rcases done.blobRows with ⟨added, faces, _⟩
    have face : old.face ∈ next.db.blobs.map Blob.face := by
      rw [faces]
      exact List.mem_append_left _ (List.mem_map_of_mem member)
    rcases List.mem_map.mp face with ⟨new, isNew, sameFace⟩
    have sameId : new.id = old.id := congrArg Prod.fst sameFace
    refine ⟨new, by rw [isLast]; exact isNew, sameFace, ?_⟩
    have nextCount := done.refs.exact new isNew
    rw [List.append_nil] at nextCount
    rw [nextCount, done.start.refs.exact old member, sameId,
      copied.count_references ends before old.id, fromStart, Nat.cast_add]

end CopiedFrom

/-! ## The limit -/

section Limit

variable {placement : Placement} {middle : MutationTx}

theorem copyDirectory_within {node : VfsNode} {first second : Nat}
    (fits : (subtreeRows tx.db.nodes node).length ≤ first)
    (alsoFits : (subtreeRows tx.db.nodes node).length ≤ second) :
    copyDirectory host node placement first expiresAt tx =
      copyDirectory host node placement second expiresAt tx := by
  have length := (host.rowOrder_perm (subtreeRows tx.db.nodes node)).length_eq
  have whole : ∀ limit, (subtreeRows tx.db.nodes node).length ≤ limit →
      (host.rowOrder (subtreeRows tx.db.nodes node)).take (limit + 1) =
        host.rowOrder (subtreeRows tx.db.nodes node) :=
    fun limit fits => List.take_of_length_le (by omega)
  have read : (state : Mutating MutationTx) tx = .ok (tx, tx) := rfl
  have short : ∀ limit, (subtreeRows tx.db.nodes node).length ≤ limit →
      ¬limit < ((host.rowOrder (subtreeRows tx.db.nodes node)).map TreeRow.node).length := by
    intro limit fits
    rw [List.length_map]
    omega
  unfold copyDirectory
  rw [bind_of_ok read, bind_of_ok read, whole first fits, whole second alsoFits,
    if_neg (short first fits), if_neg (short second alsoFits)]

theorem copyDirectory_over {node : VfsNode} {limit : Nat}
    (exceeds : limit < (subtreeRows tx.db.nodes node).length) :
    copyDirectory host node placement limit expiresAt tx = .error (.copyLimitExceeded limit) := by
  have length := (host.rowOrder_perm (subtreeRows tx.db.nodes node)).length_eq
  have read : (state : Mutating MutationTx) tx = .ok (tx, tx) := rfl
  have cut : limit < (((host.rowOrder (subtreeRows tx.db.nodes node)).take (limit + 1)).map
      TreeRow.node).length := by
    rw [List.length_map, List.length_take]
    omega
  unfold copyDirectory
  rw [bind_of_ok read, if_pos cut]
  rfl

theorem copySize_of_placed (nonempty : source ≠ []) (valid : ValidPath host destination)
    (holds : TxInv host effects base (fun front => front <+: destination) held tx)
    (placed : resolveDestinationPlacement host source destination parents false resolution tx =
      .ok (placement, middle)) :
    subtreeSize tx.db source = (subtreeRows middle.db.nodes placement.sourceNode).length ∧
      (placement.sourceNode.type = .file → subtreeSize tx.db source = 1) := by
  rcases (resolveDestinationPlacement_spec nonempty valid holds
    (fun marks => absurd marks Bool.false_ne_true) fun _ => id).of_ok placed with
    ⟨⟨inv, grown, placeable, isFinal⟩, _, planted⟩
  have size := subtreeSize_planted holds.tree inv.layout grown placeable isFinal planted
  refine ⟨?_, fun isFile => ?_⟩
  · rw [size, subtreeRows_eq_cons, List.length_cons]
  · have loaded := placeable.loaded
    have childless : descendantRows middle.db.nodes placement.sourceNode = [] := by
      rw [List.eq_nil_iff_forall_not_mem]
      intro row isRow
      have member : row ∈ subtreeRows middle.db.nodes placement.sourceNode := by
        rw [subtreeRows_eq_cons]
        exact List.mem_cons_of_mem _ isRow
      rcases (mem_subtreeRows inv.tree inv.layout.valid loaded.member loaded.reached).mp member with
        ⟨isNode, rest, reached, _⟩
      rw [inv.layout.eq_nil_of_file loaded.member isFile loaded.reached reached,
        List.append_nil] at reached
      have nodup := nodup_subtreeRows inv.tree loaded.member
      rw [subtreeRows_eq_cons, List.map_cons, List.nodup_cons] at nodup
      refine nodup.1 (List.mem_map.mpr ⟨row, isRow, ?_⟩)
      exact PathTo.injective inv.tree reached loaded.reached
    rw [size, childless, List.length_nil]

theorem copyNode_eq_of_fits (nonempty : source ≠ []) (valid : ValidPath host destination)
    (holds : TxInv host effects base (fun front => front <+: destination) held tx)
    {first second : Nat} (fits : subtreeSize tx.db source ≤ first)
    (alsoFits : subtreeSize tx.db source ≤ second) :
    copyNode host source destination parents first resolution expiresAt tx =
      copyNode host source destination parents second resolution expiresAt tx := by
  unfold copyNode
  cases placed :
    resolveDestinationPlacement host source destination parents false resolution tx with
  | error error => rw [bind_of_error placed, bind_of_error placed]
  | ok pair =>
      rcases pair with ⟨placement, middle⟩
      rw [(copySize_of_placed nonempty valid holds placed).1] at fits alsoFits
      rw [bind_of_ok placed, bind_of_ok placed]
      by_cases isFile : placement.sourceNode.type = .file
      · rw [if_pos isFile, if_pos isFile]
      · rw [if_neg isFile, if_neg isFile]
        exact bind_congr_of_eq (copyDirectory_within fits alsoFits)

/-- A limit below the size of the subtree refuses a copy that another limit admits. -/
theorem copyNode_over (nonempty : source ≠ []) (valid : ValidPath host destination)
    (holds : TxInv host effects base (fun front => front <+: destination) held tx)
    {limit other : Nat}
    {result : VfsNodeRecord × JsString} {next : MutationTx}
    (worked : copyNode host source destination parents limit resolution expiresAt tx =
      .ok (result, next)) (positive : 0 < other) (exceeds : other < subtreeSize tx.db source) :
    copyNode host source destination parents other resolution expiresAt tx =
      .error (.copyLimitExceeded other) := by
  unfold copyNode at worked ⊢
  rcases bind_eq_ok worked with ⟨placement, middle, placed, _⟩
  rcases copySize_of_placed nonempty valid holds placed with ⟨size, ofFile⟩
  have notFile : ¬placement.sourceNode.type = .file := by
    intro isFile
    rw [ofFile isFile] at exceeds
    omega
  rw [size] at exceeds
  rw [bind_of_ok placed, if_neg notFile]
  exact bind_of_error (copyDirectory_over exceeds)

theorem copyNode_limit (nonempty : source ≠ []) (valid : ValidPath host destination)
    (holds : TxInv host effects base (fun front => front <+: destination) held tx)
    {limit other : Nat}
    {result : VfsNodeRecord × JsString} {next : MutationTx}
    (worked : copyNode host source destination parents limit resolution expiresAt tx =
      .ok (result, next)) (limitPositive : 0 < limit) (positive : 0 < other) :
    copyNode host source destination parents other resolution expiresAt tx =
      if subtreeSize tx.db source ≤ other then .ok (result, next)
      else .error (.copyLimitExceeded other) := by
  have within : subtreeSize tx.db source ≤ limit := by
    by_contra exceeds
    rw [copyNode_over nonempty valid holds worked limitPositive (by omega)] at worked
    cases worked
  split
  · rename_i fits
    rw [copyNode_eq_of_fits nonempty valid holds fits within, worked]
  · rename_i exceeds
    exact copyNode_over nonempty valid holds worked positive (by omega)

end Limit

/-! ## Copies as requests -/

/-- A committed copy is an isomorphic tree of fresh rows, and no later run that leaves one of
the two places alone changes what is there. It would commit the same under every positive limit
that the subtree fits in and be refused under every other, and a limit that the subtree fits in
plays no role in any outcome. -/
theorem copy_is_independent {root : VfsNode} (reached : Reachable host db)
    (isRoot : db.findRoot = some root) (source : NodePath host) (destination : ResolvedPath host)
    (parents : Bool) (resolution : DestinationResolution) (expiresAt : Option Nat) (now : Nat)
    (afterBump : MutationTx → Unit → List AffectedRevision → Except VfsError Unit) :
    (∀ limit committed, 0 < limit →
      (Mutation.copy source destination parents limit resolution expiresAt).run now afterBump db =
        .ok committed →
      Copied host db committed.db source.segments destination.segments
        (finalPath db root.id source.segments destination.segments resolution) parents expiresAt ∧
      (∀ here, here = source.segments ∨
          here = finalPath db root.id source.segments destination.segments resolution →
        ∀ later, RunsAside host here committed.db later → SameTree committed.db later here) ∧
      ∀ other, 0 < other →
        (Mutation.copy source destination parents other resolution expiresAt).run now afterBump db =
          if subtreeSize db source.segments ≤ other then .ok committed
          else .error (.copyLimitExceeded other)) ∧
    ∀ limit other, subtreeSize db source.segments ≤ limit →
      subtreeSize db source.segments ≤ other →
      (Mutation.copy source destination parents limit resolution expiresAt).run now afterBump db =
        (Mutation.copy source destination parents other resolution expiresAt).run now afterBump
          db := by
  have consistent := reached.consistent
  have holds : TxInv host .any db (fun front => front <+: destination.segments) []
      (.start db root.id now) := TxInv.initial consistent isRoot now _
  refine ⟨fun limit committed positive result => ?_, fun limit other fits alsoFits => ?_⟩
  · rcases Mutation.run_eq_ok consistent result with ⟨tx, wrote, finished⟩
    rcases wrote.work with ⟨_, isOther, worked⟩
    cases isRoot.symm.trans isOther
    rcases bind_eq_ok worked with ⟨value, last, made, ends⟩
    cases ends
    rcases (copyNode_copies source.nonempty destination.valid rfl holds).of_ok made with
      ⟨done, middle, copies, later, copiedFrom⟩
    have copied := copiedFrom.committed (finalPath_cases ..) holds rfl later done finished
    refine ⟨copied, fun here isHere after run => ?_, fun other otherPositive => ?_⟩
    · have nextConsistent := finished.consistent wrote.done
      rcases copied.found with ⟨id, sourceAt⟩
      rcases isHere with rfl | rfl
      · exact (run.sameTree nextConsistent (copied.places id _ sourceAt)).1
      · rcases PathOf.exists_node sourceAt with ⟨node, member, rfl⟩
        rw [← List.append_nil source.segments] at sourceAt
        rcases copied.onto node member [] sourceAt with ⟨row, _, placed, _⟩
        rw [List.append_nil] at placed
        exact (run.sameTree nextConsistent placed).1
    · have outcome := copyNode_limit source.nonempty destination.valid holds made positive
        otherPositive
      split
      · rename_i fits
        rw [← result]
        refine reached.run_congr isRoot rfl rfl (Mutation.ignore_congr ?_)
        rw [outcome, made]
        exact if_pos fits
      · rename_i exceeds
        exact reached.run_error isRoot rfl (bind_of_error (outcome.trans (if_neg exceeds)))
  · exact reached.run_congr isRoot rfl rfl (Mutation.ignore_congr
      (copyNode_eq_of_fits source.nonempty destination.valid holds fits alsoFits))

namespace Small

/-- The directory `/d` with its file is copied to `/e`, and one node is not enough for it. -/
theorem copy_is_independent_beside :
    ∃ root, oneFile.findRoot = some root ∧ ∃ committed,
      (Mutation.copy directory elsewhere false 2 .exact none).run 3 (fun _ _ _ => .ok ()) oneFile =
        .ok committed ∧
      Copied Host.counting oneFile committed.db directory.segments elsewhere.segments
        (finalPath oneFile root.id directory.segments elsewhere.segments .exact) false none ∧
      (Mutation.copy directory elsewhere false 1 .exact none).run 3 (fun _ _ _ => .ok ()) oneFile =
        .error (.copyLimitExceeded 1) := by
  cases isRoot : oneFile.findRoot with
  | none => exact absurd isRoot (by decide +kernel)
  | some root =>
      refine ⟨root, rfl, ?_⟩
      cases result : (Mutation.copy directory elsewhere false 2 .exact none).run 3
          (fun _ _ _ => .ok ()) oneFile with
      | error error =>
          have commits : ((Mutation.copy directory elsewhere false 2 .exact none).run 3
            (fun _ _ _ => .ok ()) oneFile).toOption.isSome = true := by decide +kernel
          rw [result] at commits
          cases commits
      | ok committed =>
          have copied := (copy_is_independent reachable_oneFile isRoot directory elsewhere false
            .exact none 3 _).1 2 committed (by decide) result
          refine ⟨committed, rfl, copied.1, ?_⟩
          have refused : ((Mutation.copy directory elsewhere false 1 .exact none).run 3
            (fun _ _ _ => .ok ()) oneFile).toOption.isSome = false := by decide +kernel
          have outcome := copied.2.2 1 (by decide)
          split at outcome
          · rw [outcome] at refused
            cases refused
          · exact outcome

end Small

end Storix
