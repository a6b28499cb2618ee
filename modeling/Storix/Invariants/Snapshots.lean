import Storix.Invariants.Restore

/-! # Snapshots

A snapshot takes references of its own to the blobs it lists. Restoring a file from
one takes a reference for the file and gives up the one to the replaced content. -/

namespace Storix

open Foundation Foundation.Command

variable {host : Host} {effects : Effects} {base : Database}
  {scope : List JsString → Prop} {held : List Uuid}
  {tx : MutationTx} {fault : VfsError → Prop}

/-! ## Taking a snapshot -/

def withSnapshot (snapshot : Snapshot) (entries : List SnapshotEntry) (tx : MutationTx) :
    MutationTx :=
  { tx with
    db := { tx.db with
      snapshots := tx.db.snapshots ++ [snapshot]
      snapshotEntries := tx.db.snapshotEntries ++ entries
      namespaceRow := { tx.db.namespaceRow with
        retainedSnapshotNodeCount :=
          tx.db.namespaceRow.retainedSnapshotNodeCount + snapshot.nodeCount
        retainedSnapshotByteCount :=
          tx.db.namespaceRow.retainedSnapshotByteCount + snapshot.logicalBytes } }
    snapshotByteDelta := tx.snapshotByteDelta + snapshot.logicalBytes }

theorem TxInv.store {snapshot : Snapshot} {entries : List SnapshotEntry}
    (holds : TxInv host effects base scope (snapshotBlobs entries ++ held) tx)
    (drawn : Drawn host tx.db.issued snapshot.id)
    (fresh : snapshot.id ∉ tx.db.snapshots.map Snapshot.id)
    (own : ∀ entry ∈ entries, entry.snapshotId = snapshot.id)
    (count : snapshot.nodeCount = entries.length)
    (bytes : snapshot.logicalBytes = (entries.map SnapshotEntry.bytes).sum)
    (shaped : ∀ entry ∈ entries, ContentShape entry.type entry.blobId entry.size entry.mimeType)
    (paths : (entries.map SnapshotEntry.relativePath).Nodup)
    (paired : ∀ entry ∈ entries, JsString.hasLoneSurrogate entry.relativePath = false) :
    TxInv host effects base scope held (withSnapshot snapshot entries tx) := by
  refine
    { holds with
      refs := ?_
      snapshots := holds.snapshots.take fresh own count bytes shaped paths paired
      issued := ?_
      row := { holds.row with snapshotBytes := ?_ } }
  · refine holds.refs.perm (List.perm_iff_count.mpr fun id => ?_)
    simp only [Database.references, withSnapshot, snapshotBlobs, List.filterMap_append,
      List.count_append]
    omega
  · refine { holds.issued with snapshots := fun id isSnapshot => ?_ }
    change id ∈ (tx.db.snapshots ++ [snapshot]).map Snapshot.id at isSnapshot
    rw [List.map_append, List.mem_append, List.map_singleton, List.mem_singleton] at isSnapshot
    rcases isSnapshot with old | rfl
    · exact holds.issued.snapshots id old
    · exact drawn
  · have moved := holds.row.snapshotBytes
    simp only [withSnapshot]
    omega

def capturedEntries (snapshotId : Uuid) (trees : List TreeRow) : List SnapshotEntry :=
  (trees.map TreeRow.captured).map (snapshotEntryOf snapshotId)

theorem snapshotBlobs_captured (snapshotId : Uuid) {trees : List TreeRow}
    (shaped : ∀ row ∈ trees, row.node.Shaped) :
    snapshotBlobs (capturedEntries snapshotId trees) = fileBlobs (nodesOf trees) := by
  induction trees with
  | nil => rfl
  | cons row rest induction =>
      have later := induction fun other isOther => shaped other (List.mem_cons_of_mem _ isOther)
      have split : fileBlobs (nodesOf (row :: rest)) =
          fileBlobs [row.node] ++ fileBlobs (nodesOf rest) := fileBlobs_append [row.node] _
      have first : snapshotBlobs (capturedEntries snapshotId [row]) = fileBlobs [row.node] := by
        have ownShape := shaped row (List.mem_cons_self ..)
        cases isType : row.node.type with
        | file =>
            rcases ownShape.file isType with ⟨blobId, _, _, isBlob, _, _⟩
            rw [fileBlobs_of_file isType isBlob]
            simp [snapshotBlobs, capturedEntries, snapshotEntryOf, TreeRow.captured, isBlob]
        | directory =>
            have isBlob := (ownShape.directory isType).1
            simp [snapshotBlobs, capturedEntries, snapshotEntryOf, TreeRow.captured, isBlob,
              fileBlobs, isType]
      have whole : snapshotBlobs (capturedEntries snapshotId (row :: rest)) =
          snapshotBlobs (capturedEntries snapshotId [row]) ++
            snapshotBlobs (capturedEntries snapshotId rest) := by
        unfold snapshotBlobs capturedEntries
        rw [← List.filterMap_append, ← List.map_append, ← List.map_append, List.singleton_append]
      rw [whole, split, first, later]

theorem sum_bytes_captured (snapshotId : Uuid) (trees : List TreeRow) :
    ((capturedEntries snapshotId trees).map SnapshotEntry.bytes).sum =
      removedBytes (trees.map TreeRow.captured) := by
  rw [removedBytes_captured]
  unfold capturedEntries total nodesOf
  rw [List.map_map, List.map_map, List.map_map]
  rfl

theorem satisfies_pinSnapshotBlob {sourcePath : JsString} {entry : Uuid × Nat}
    {post : Unit → MutationTx → Prop}
    (pinned : Satisfies (incrementLiveReferenceCount entry.1 entry.2)
      (fun live after => live = true ∧ post () after) fault tx) :
    Satisfies (pinSnapshotBlob sourcePath entry) post fault tx := by
  unfold pinSnapshotBlob
  rw [satisfies_bind]
  refine pinned.imp ?_
  rintro live after ⟨rfl, ends⟩
  exact ends

theorem satisfies_chargeSnapshot {limits : SnapshotLimits} {count bytes : Nat}
    {post : Unit → MutationTx → Prop}
    (continues : post ()
      { tx with
        db := { tx.db with
          namespaceRow := { tx.db.namespaceRow with
            retainedSnapshotNodeCount := tx.db.namespaceRow.retainedSnapshotNodeCount + count
            retainedSnapshotByteCount := tx.db.namespaceRow.retainedSnapshotByteCount + bytes } }
        snapshotByteDelta := tx.snapshotByteDelta + bytes }) :
    Satisfies (chargeSnapshot limits count bytes) post Expected tx := by
  unfold chargeSnapshot
  rw [satisfies_bind, satisfies_state]
  exact satisfies_ite.mpr ⟨fun _ => continues, fun _ => trivial⟩

theorem fileSha256_ne_error {snapshot : Snapshot} {entries : List SnapshotEntry}
    (holds : TxInv host effects base scope held tx)
    (isEntries : ∀ entry ∈ tx.db.snapshotEntries, entry.snapshotId = snapshot.id →
      entry ∈ entries)
    (shaped : ∀ entry ∈ entries, ContentShape entry.type entry.blobId entry.size entry.mimeType)
    (root : snapshot.kind = .file → ∃ entry ∈ tx.db.snapshotEntries,
      entry.snapshotId = snapshot.id ∧ entry.relativePath = dot ∧ entry.type = .file ∧
        entry.sourceNodeId = snapshot.rootNodeId) (error : VfsError) :
    fileSha256 tx.db snapshot ≠ .error error := by
  unfold fileSha256
  cases isKind : snapshot.kind with
  | tree => simp
  | file =>
      rcases root isKind with ⟨entry, isEntry, isSnapshot, isDot, isFile, isRoot⟩
      have finds : ((tx.db.snapshotEntries.find? fun entry =>
          entry.snapshotId == snapshot.id && entry.relativePath == dot &&
            entry.type == .file && entry.sourceNodeId == snapshot.rootNodeId)).isSome := by
        rw [List.find?_isSome]
        exact ⟨entry, isEntry, by simp [isSnapshot, isDot, isFile, isRoot]⟩
      rcases Option.isSome_iff_exists.mp finds with ⟨found, isFound⟩
      have foundMember := List.mem_of_find?_eq_some isFound
      have facts := List.find?_some isFound
      simp only [Bool.and_eq_true, beq_iff_eq] at facts
      have shape := shaped found (isEntries found foundMember facts.1.1.1)
      rw [facts.1.2] at shape
      rcases Option.isSome_iff_exists.mp shape.1 with ⟨blobId, isBlob⟩
      have referenced : blobId ∈ tx.db.references ++ held := by
        refine List.mem_append_left _ (List.mem_append_right _ ?_)
        exact List.mem_filterMap.mpr ⟨found, foundMember, isBlob⟩
      rcases holds.refs.present blobId referenced with ⟨blob, blobMember, sameId⟩
      have blobFound : (tx.db.blobs.find? fun blob => blob.id == blobId).isSome := by
        rw [List.find?_isSome]
        exact ⟨blob, blobMember, by simp [sameId]⟩
      rcases Option.isSome_iff_exists.mp blobFound with ⟨stored, isStored⟩
      simp only [isFound, Option.bind_some, isBlob, isStored]
      simp

theorem captureSnapshot_spec {kind : SnapshotKind} {sourcePath : JsString} {trees : List TreeRow}
    (holds : TxInv host effects base scope held tx) (live : ∀ row ∈ trees, row.node ∈ tx.db.nodes)
    (paired : ∀ row ∈ trees, JsString.hasLoneSurrogate row.relativePath = false) :
    Satisfies (captureSnapshot host kind sourcePath (trees.map TreeRow.captured))
      (fun _ next => TxInv host effects base scope held next) Expected tx := by
  have shaped : ∀ row ∈ trees, row.node.Shaped := fun row isRow =>
    holds.layout.shapes _ (live row isRow)
  have blobs := removedBlobs_captured trees
  unfold captureSnapshot
  rw [satisfies_bind, satisfies_state]
  refine satisfies_ite.mpr ⟨fun _ => trivial, fun accepted => ?_⟩
  cases trees with
  | nil => trivial
  | cons first rest =>
      refine satisfies_ite.mpr ⟨fun _ => trivial, fun rowsAccepted => ?_⟩
      refine satisfies_ite.mpr ⟨fun _ => trivial, fun _ => ?_⟩
      rw [satisfies_bind]
      refine satisfies_chargeSnapshot ?_
      rw [satisfies_bind, blobs]
      generalize isTrees : first :: rest = trees at *
      have referenced : ∀ entry ∈ (OrderedMap.tally (fileBlobs (nodesOf trees))).entries,
          entry.1 ∈ tx.db.references ++ held := by
        intro entry isEntry
        have isBlob := OrderedMap.mem_of_mem_tally isEntry
        simp only [fileBlobs, nodesOf, List.mem_filterMap, List.mem_filter, List.mem_map,
          decide_eq_true_eq] at isBlob
        rcases isBlob with ⟨node, ⟨⟨row, isRow, rfl⟩, isFile⟩, isBlob⟩
        exact List.mem_append_left _ (mem_references_of_file (live row isRow) isFile isBlob)
      refine satisfies_forEach_pin base.blobs _ (fun entry _ next post => satisfies_pinSnapshotBlob)
        ?_ (fun entry isEntry => tally_pos isEntry) referenced ?_
      · exact holds.refs
      · let id := host.randomUUID tx.db.issued
        let snapshot : Snapshot :=
          { id := id, kind := kind, sourcePath := sourcePath, rootNodeId := first.captured.id,
            sourceRevision := first.captured.revision, rootType := first.captured.type,
            nodeCount := (trees.map TreeRow.captured).length,
            logicalBytes := removedBytes (trees.map TreeRow.captured), createdAt := tx.now }
        have fresh := holds.freshId
        have entryShapes : ∀ entry ∈ capturedEntries id trees,
            ContentShape entry.type entry.blobId entry.size entry.mimeType := by
          intro entry isEntry
          rcases List.mem_map.mp isEntry with ⟨row, isRow, rfl⟩
          rcases List.mem_map.mp isRow with ⟨tree, isTree, rfl⟩
          exact shaped tree isTree
        have own : ∀ entry ∈ capturedEntries id trees, entry.snapshotId = id := by
          intro entry isEntry
          rcases List.mem_map.mp isEntry with ⟨row, _, rfl⟩
          rfl
        have entryPaths : ((capturedEntries id trees).map SnapshotEntry.relativePath).Nodup := by
          have distinct := not_not.mp (not_or.mp rowsAccepted).1
          unfold capturedEntries
          rw [List.map_map]
          exact distinct
        have entryPaired : ∀ entry ∈ capturedEntries id trees,
            JsString.hasLoneSurrogate entry.relativePath = false := by
          intro entry isEntry
          rcases List.mem_map.mp isEntry with ⟨row, isRow, rfl⟩
          rcases List.mem_map.mp isRow with ⟨tree, isTree, rfl⟩
          exact paired tree isTree
        have sameBlobs := List.Perm.of_eq (snapshotBlobs_captured id shaped).symm
        have taken := (holds.draw.incrementAll _ referenced).held_perm
          (((expandCounts_tally _).trans sameBlobs).append_right held)
        have done : TxInv host effects base scope held
            (withSnapshot snapshot (capturedEntries id trees) _) :=
          taken.store fresh.drawn fresh.snapshot own (by simp [snapshot, capturedEntries])
            (sum_bytes_captured id trees).symm entryShapes entryPaths entryPaired
        unfold storeSnapshot
        simp only [satisfies_bind, satisfies_drawUuid, satisfies_state, satisfies_updateDb,
          satisfies_pure]
        refine (satisfies_lift _).mpr ⟨fun _ _ => done, fun error failed => ?_⟩
        refine absurd failed (fileSha256_ne_error done ?_ entryShapes ?_ error)
        · intro entry isEntry isOwn
          rcases List.mem_append.mp isEntry with old | new
          · have isSnapshot := holds.snapshots.nodes.owned entry old
            rw [isOwn] at isSnapshot
            exact absurd isSnapshot fresh.snapshot
          · exact new
        · intro isFile
          have isKind : kind = .file := isFile
          subst isTrees
          simp only [snapshotRootAccepted, List.map_cons, isKind, Bool.not_eq_false,
            Bool.and_eq_true, beq_iff_eq] at accepted
          refine ⟨snapshotEntryOf id first.captured, List.mem_append_right _ ?_, rfl, accepted.1,
            accepted.2.1, rfl⟩
          exact List.mem_map_of_mem (List.mem_map_of_mem (List.mem_cons_self ..))

theorem createSnapshot_spec {path : ResolvedPath host} {kind : SnapshotKind}
    {sourceRevision : Option Revision} (holds : TxInv host effects base scope held tx) :
    Satisfies (createSnapshot host path kind sourceRevision)
      (fun _ next => TxInv host effects base scope held next) Expected tx := by
  unfold createSnapshot
  rw [satisfies_bind, satisfies_state, satisfies_bind]
  refine (captureSnapshotRows_spec holds).imp ?_
  rintro rows next ⟨rfl, source, trees, captured⟩
  have live := captured.live
  have paired : ∀ row ∈ trees, JsString.hasLoneSurrogate row.relativePath = false := by
    intro row isRow
    rcases (mem_subtreeRows holds.tree holds.layout.valid captured.member captured.reached).mp
      (captured.inside row isRow) with ⟨_, segments, reached, text⟩
    rw [text]
    exact hasLoneSurrogate_joinRelative fun name isName =>
      (holds.layout.valid _ _ reached).paired name (List.mem_append_right _ isName)
  rw [captured.captured]
  cases trees with
  | nil => trivial
  | cons first rest =>
      refine satisfies_ite.mpr ⟨fun _ => trivial, fun _ => ?_⟩
      refine satisfies_ite.mpr ⟨fun _ => trivial, fun _ => ?_⟩
      refine satisfies_ite.mpr ⟨fun _ => ?_, fun _ => captureSnapshot_spec holds live paired⟩
      cases next.db.findNode first.captured.id with
      | none => trivial
      | some node => exact satisfies_stopPrecondition

/-! ## Dropping a snapshot -/

def dropped (snapshot : Snapshot) (tx : MutationTx) : MutationTx :=
  { tx with
    db := { tx.db with
      snapshots := tx.db.snapshots.filter fun other => other.id ≠ snapshot.id
      snapshotEntries := tx.db.snapshotEntries.filter fun entry => entry.snapshotId ≠ snapshot.id
      namespaceRow := { tx.db.namespaceRow with
        retainedSnapshotNodeCount :=
          tx.db.namespaceRow.retainedSnapshotNodeCount - snapshot.nodeCount
        retainedSnapshotByteCount :=
          tx.db.namespaceRow.retainedSnapshotByteCount - snapshot.logicalBytes } }
    snapshotByteDelta := tx.snapshotByteDelta - snapshot.logicalBytes }

theorem TxInv.drop (holds : TxInv host effects base scope held tx) {snapshot : Snapshot}
    (member : snapshot ∈ tx.db.snapshots) :
    TxInv host effects base scope (snapshotBlobs
        (postings SnapshotEntry.snapshotId tx.db.snapshotEntries snapshot.id) ++ held)
      (dropped snapshot tx) := by
  refine
    { holds with
      refs := ?_, snapshots := holds.snapshots.drop member, issued := ?_
      row := { holds.row with snapshotBytes := ?_ } }
  · refine holds.refs.perm (List.perm_iff_count.mpr fun id => ?_)
    have split := (List.filter_append_perm
      (fun entry : SnapshotEntry => decide (entry.snapshotId = snapshot.id))
      tx.db.snapshotEntries).symm
    have counts := (split.filterMap SnapshotEntry.blobId).count_eq id
    simp only [Database.references, dropped, snapshotBlobs, postings, List.filterMap_append,
      List.count_append] at counts ⊢
    simp only [ne_eq, decide_not]
    omega
  · refine { holds.issued with snapshots := fun id isSnapshot => ?_ }
    rcases List.mem_map.mp isSnapshot with ⟨other, isOther, rfl⟩
    exact holds.issued.snapshots _ (List.mem_map_of_mem (List.mem_filter.mp isOther).1)
  · have moved := holds.row.snapshotBytes
    simp only [dropped]
    omega

theorem satisfies_findForUpdate {snapshotId : Uuid} {post : Snapshot → MutationTx → Prop}
    (continues : ∀ snapshot ∈ tx.db.snapshots, snapshot.id = snapshotId → post snapshot tx) :
    Satisfies (findForUpdate snapshotId) post Expected tx := by
  unfold findForUpdate
  rw [satisfies_bind, satisfies_state]
  cases found : tx.db.snapshots.find? fun snapshot => snapshot.id == snapshotId with
  | none => trivial
  | some snapshot =>
      exact continues snapshot (List.mem_of_find?_eq_some found)
        (by simpa using List.find?_some found)

theorem removeSnapshot_spec {snapshotId : Uuid} (holds : TxInv host effects base scope held tx) :
    Satisfies (removeSnapshot host snapshotId)
      (fun _ next => TxInv host effects base scope held next) Expected tx := by
  unfold removeSnapshot
  rw [satisfies_bind]
  refine satisfies_findForUpdate fun snapshot member isId => ?_
  subst isId
  rw [satisfies_bind, satisfies_state, satisfies_bind, satisfies_forEach_decrementReferenceCount,
    satisfies_bind, satisfies_updateDb, satisfies_update]
  have blobs := (expandCounts_tally _).trans ((host.rowOrder_perm
    (postings SnapshotEntry.snapshotId tx.db.snapshotEntries snapshot.id)).filterMap
      SnapshotEntry.blobId)
  exact (holds.drop member).decrementAll _ blobs

end Storix
