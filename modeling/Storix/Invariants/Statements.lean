import Storix.Invariants.Transaction

/-! # Statements

The effect of each single statement of a mutation, and how the statements on nodes
and blobs keep the transaction invariant. -/

namespace Storix

open Foundation Foundation.Command

variable {host : Host} {effects : Effects} {base : Database}
  {scope : List JsString → Prop} {held : List Uuid}
  {tx : MutationTx} {fault : VfsError → Prop}

/-! ## Effects -/

theorem satisfies_of_eq {α : Type} {command : Mutating α} {post : α → MutationTx → Prop}
    {value : α} {next : MutationTx} (run : command tx = .ok (value, next))
    (holds : post value next) : Satisfies command post fault tx := by
  unfold Satisfies
  rw [run]
  exact holds

theorem satisfies_updateDb {transform : Database → Database}
    {post : Unit → MutationTx → Prop} :
    Satisfies (updateDb transform) post fault tx ↔
      post () { tx with db := transform tx.db } := Iff.rfl

theorem satisfies_drawUuid {post : Uuid → MutationTx → Prop} :
    Satisfies (drawUuid host) post fault tx ↔
      post (host.randomUUID tx.db.issued)
        { tx with db := { tx.db with issued := tx.db.issued + 1 } } := Iff.rfl

theorem satisfies_insertNode {node : VfsNode} {post : Unit → MutationTx → Prop} :
    Satisfies (insertNode node) post fault tx ↔
      post () { tx with db := { tx.db with nodes := tx.db.nodes ++ [node] } } := Iff.rfl

theorem satisfies_createNode {columns : NewNode} {post : VfsNode → MutationTx → Prop} :
    Satisfies (createNode host columns) post fault tx ↔
      post (columns.row (host.randomUUID tx.db.issued) tx.now)
        { tx with
          db := { tx.db with
            issued := tx.db.issued + 1
            nodes := tx.db.nodes ++ [columns.row (host.randomUUID tx.db.issued) tx.now] } } :=
  Iff.rfl

theorem satisfies_updateNode {id : Uuid} {transform : VfsNode → VfsNode}
    {post : Unit → MutationTx → Prop} :
    Satisfies (updateNode id transform) post fault tx ↔
      post () { tx with db := { tx.db with nodes := tx.db.nodes.map (rewriteRow id transform) } } :=
  Iff.rfl

theorem satisfies_saveNode {node : VfsNode} {post : VfsNode → MutationTx → Prop}
    (differs : tx.db.findNode node.id ≠ some node)
    (holds : post { node with version := node.version + 1, updatedAt := tx.now }
      { tx with
        db := { tx.db with
          nodes := tx.db.nodes.map (rewriteRow node.id fun _ =>
            { node with version := node.version + 1, updatedAt := tx.now }) } }) :
    Satisfies (saveNode node) post fault tx := by
  unfold saveNode
  simp only [satisfies_bind, satisfies_state]
  rw [if_neg differs]
  exact holds

theorem satisfies_recordLiveByteDelta {delta : Int} {post : Unit → MutationTx → Prop} :
    Satisfies (recordLiveByteDelta delta) post fault tx ↔
      post () { tx with liveFileByteDelta := tx.liveFileByteDelta + delta } := Iff.rfl

theorem satisfies_recordLiveNodeDelta {delta : Int} {post : Unit → MutationTx → Prop} :
    Satisfies (recordLiveNodeDelta delta) post fault tx ↔
      post () { tx with liveNodeDelta := tx.liveNodeDelta + delta } := Iff.rfl

theorem recordFolderFileDelta_eq (parentId : Uuid) (delta : Int) (tx : MutationTx) :
    ∃ folders, recordFolderFileDelta parentId delta tx =
        .ok ((), { tx with folderFileDeltas := folders }) ∧
      ∀ id, (folders.get id).getD 0 = tx.folderDelta id + if id = parentId then delta else 0 := by
  by_cases zero : delta = 0
  · refine ⟨tx.folderFileDeltas, ?_, ?_⟩
    · change Except.ok ((), if delta = 0 then tx else _) = _
      rw [if_pos zero]
    · intro id
      simp [MutationTx.folderDelta, zero]
  · refine ⟨tx.folderFileDeltas.set parentId
      ((tx.folderFileDeltas.get parentId).getD 0 + delta), ?_, ?_⟩
    · change Except.ok ((), if delta = 0 then tx else _) = _
      rw [if_neg zero]
    · intro id
      rw [OrderedMap.get_set]
      by_cases same : id = parentId
      · simp [same, MutationTx.folderDelta]
      · simp [same, MutationTx.folderDelta]

theorem satisfies_recordFolderFileDelta {parentId : Uuid} {delta : Int}
    {post : Unit → MutationTx → Prop}
    (holds : ∀ folders : OrderedMap Uuid Int,
      (∀ id, (folders.get id).getD 0 = tx.folderDelta id + if id = parentId then delta else 0) →
        post () { tx with folderFileDeltas := folders }) :
    Satisfies (recordFolderFileDelta parentId delta) post fault tx := by
  rcases recordFolderFileDelta_eq parentId delta tx with ⟨folders, run, deltas⟩
  exact satisfies_of_eq run (holds folders deltas)

theorem get_markOnce (changed : OrderedMap Uuid Bool) (id : Uuid) (increment : Bool) :
    (markOnce changed id increment).get = markAll changed.get [id] increment := by
  funext other
  unfold markOnce markAll
  by_cases marked : changed.get id = none
  · rw [if_neg (by simpa using marked), OrderedMap.get_set]
    by_cases same : other = id
    · subst same
      simp [marked]
    · simp [same]
  · rw [if_pos (by simpa using marked)]
    by_cases same : other = id
    · subst same
      cases value : changed.get other with
      | none => exact absurd value marked
      | some flag => simp
    · simp [same]

theorem satisfies_markChanged {id : Uuid} {increment : Bool} {post : Unit → MutationTx → Prop}
    (holds : ∀ changed : OrderedMap Uuid Bool,
      changed.get = markAll tx.changed.get [id] increment →
        post () { tx with changed := changed }) :
    Satisfies (markChanged id increment) post fault tx :=
  holds (markOnce tx.changed id increment) (get_markOnce tx.changed id increment)

theorem forEach_markChanged_eq {α : Type} (key : α → Uuid) (increment : Bool) (items : List α)
    (tx : MutationTx) :
    ∃ changed, forEach (fun item => markChanged (key item) increment) items tx =
        .ok ((), { tx with changed := changed }) ∧
      changed.get = markAll tx.changed.get (items.map key) increment := by
  induction items generalizing tx with
  | nil => exact ⟨tx.changed, rfl, by funext id; simp [markAll]⟩
  | cons item rest induction =>
      rcases induction { tx with changed := markOnce tx.changed (key item) increment } with
        ⟨changed, run, marks⟩
      refine ⟨changed, run, ?_⟩
      rw [marks]
      funext id
      simp only [get_markOnce, markAll, List.map_cons, List.mem_cons, List.not_mem_nil, or_false]
      cases tx.changed.get id with
      | some value => simp
      | none =>
          by_cases same : id = key item
          · simp [same]
          · simp [same]

theorem satisfies_forEach_markChanged {α : Type} {key : α → Uuid} {increment : Bool}
    {items : List α} {post : Unit → MutationTx → Prop}
    (holds : ∀ changed : OrderedMap Uuid Bool,
      changed.get = markAll tx.changed.get (items.map key) increment →
        post () { tx with changed := changed }) :
    Satisfies (forEach (fun item => markChanged (key item) increment) items) post fault tx := by
  rcases forEach_markChanged_eq key increment items tx with ⟨changed, run, marks⟩
  exact satisfies_of_eq run (holds changed marks)

/-! ## New nodes -/

theorem TxInv.create (columns : NewNode) {front : List JsString}
    (holds : TxInv host effects base scope
      (fileBlobs [columns.row (host.randomUUID tx.db.issued) tx.now] ++ held) tx)
    (parent : ∃ parent ∈ tx.db.nodes, parent.id = columns.parentId ∧ parent.type = .directory)
    (reached : PathOf tx.db.nodes columns.parentId front)
    (free : ∀ other ∈ tx.db.nodes, other.parentId = some columns.parentId →
      other.name ≠ columns.name)
    (valid : ValidPath host (front ++ [columns.name]))
    (shaped : ContentShape columns.type columns.blobId columns.size columns.mimeType)
    (marked : tx.changed.get columns.parentId ≠ none) (inScope : scope (front ++ [columns.name]))
    {changed : OrderedMap Uuid Bool} {folders : OrderedMap Uuid Int} {nodeDelta byteDelta : Int}
    (marks : changed.get = markAll tx.changed.get [host.randomUUID tx.db.issued] false)
    (deltas : ∀ id, (folders.get id).getD 0 = tx.folderDelta id +
      fileBelow id (columns.row (host.randomUUID tx.db.issued) tx.now))
    (counted : nodeDelta = tx.liveNodeDelta + 1)
    (weighed : byteDelta = tx.liveFileByteDelta +
      fileSize (columns.row (host.randomUUID tx.db.issued) tx.now)) :
    TxInv host effects base scope held
      { tx with
        db := { tx.db with
          issued := tx.db.issued + 1
          nodes := tx.db.nodes ++ [columns.row (host.randomUUID tx.db.issued) tx.now] }
        changed := changed
        folderFileDeltas := folders
        liveNodeDelta := nodeDelta
        liveFileByteDelta := byteDelta } := by
  have fresh := holds.freshId
  have plantable : Plantable host base { tx with db := { tx.db with issued := tx.db.issued + 1 } }
      (columns.row (host.randomUUID tx.db.issued) tx.now) columns.parentId front :=
    { fresh := fresh.node, below := rfl, parent := parent, reached := reached, free := free,
      valid := valid, shaped := shaped, numbered :=
        ⟨Nat.le_refl 1, (by decide : 1 ≤ MAX_VFS_VERSION)⟩,
      drawn := fresh.drawn, unused := fresh.unused holds.start, source := fresh.source,
      marked := marked, origin := .created fresh.new rfl, zero := rfl }
  exact holds.draw.insert plantable inScope marks deltas counted weighed

/-! ## Blobs -/

theorem satisfies_createBlob {data : BlobData} {post : Uuid → MutationTx → Prop} :
    Satisfies (createBlob host data) post fault tx ↔
      post (host.randomUUID tx.db.issued)
        { tx with
          db := { tx.db with
            issued := tx.db.issued + 1
            blobs := tx.db.blobs ++
              [{ toBlobData := data, id := host.randomUUID tx.db.issued, referenceCount := 1,
                 zeroSince := none, createdAt := tx.now }] } } := Iff.rfl

theorem TxInv.createBlob (holds : TxInv host effects base scope held tx) {data : BlobData}
    (isStored : effects.stores data) :
    TxInv host effects base scope (host.randomUUID tx.db.issued :: held)
      { tx with
        db := { tx.db with
          issued := tx.db.issued + 1
          blobs := tx.db.blobs ++
            [{ toBlobData := data, id := host.randomUUID tx.db.issued, referenceCount := 1,
               zeroSince := none, createdAt := tx.now }] } } := by
  have fresh := holds.freshId
  have unused : host.randomUUID tx.db.issued ∉ base.blobs.map Blob.id := fun member =>
    fresh.new (holds.start.issued.blobs _ member)
  refine { holds.draw with refs := ?_, issued := ?_, blobRows := ?_ }
  · have next := holds.refs.create
      { toBlobData := data, id := host.randomUUID tx.db.issued, referenceCount := 1,
        zeroSince := none, createdAt := tx.now }
      fresh.blob unused rfl rfl
    exact next.perm List.perm_middle.symm
  · refine { holds.draw.issued with blobs := fun id inside => ?_ }
    rcases List.mem_map.mp inside with ⟨blob, member, rfl⟩
    rcases List.mem_append.mp member with member | member
    · exact holds.draw.issued.blobs _ (List.mem_map_of_mem member)
    · rw [List.mem_singleton] at member
      rw [member]
      exact fresh.drawn
  · rcases holds.blobRows with ⟨added, rows, allowed⟩
    refine ⟨added ++ [(host.randomUUID tx.db.issued, data)], ?_, fun face isFace => ?_⟩
    · rw [List.map_append, rows, List.append_assoc]
      rfl
    · rcases List.mem_append.mp isFace with earlier | isNew
      · exact allowed face earlier
      · rw [List.mem_singleton] at isNew
        exact isNew ▸ ⟨isStored, fresh.new⟩

def incremented (blobs : List Blob) (id : Uuid) (count : Nat) : List Blob :=
  blobs.map fun blob =>
    if blob.id = id then { blob with referenceCount := blob.referenceCount + count } else blob

theorem map_face_incremented (blobs : List Blob) (id : Uuid) (count : Nat) :
    (incremented blobs id count).map Blob.face = blobs.map Blob.face := by
  unfold incremented
  rw [List.map_map]
  refine List.map_congr_left fun blob _ => ?_
  simp only [Function.comp]
  split <;> rfl

def decremented (blobs : List Blob) (id : Uuid) (count now : Nat) : List Blob :=
  blobs.map fun blob =>
    if blob.id = id then
      { blob with
        referenceCount := blob.referenceCount - count
        zeroSince := if blob.referenceCount - count = 0 then some now else blob.zeroSince }
    else blob

theorem map_face_decremented (blobs : List Blob) (id : Uuid) (count now : Nat) :
    (decremented blobs id count now).map Blob.face = blobs.map Blob.face := by
  unfold decremented
  rw [List.map_map]
  refine List.map_congr_left fun blob _ => ?_
  simp only [Function.comp]
  split <;> rfl

theorem Issued.blobsOf {db : Database} (issued : Issued host db) {blobs : List Blob}
    (same : blobs.map Blob.face = db.blobs.map Blob.face) :
    Issued host { db with blobs := blobs } :=
  { issued with
    blobs := fun id inside => by
      have ids := congrArg (List.map Prod.fst) same
      rw [List.map_map, List.map_map] at ids
      exact issued.blobs id (ids ▸ inside) }

theorem TxInv.increment (holds : TxInv host effects base scope held tx) {id : Uuid} (count : Nat)
    (referenced : id ∈ tx.db.references ++ held) :
    TxInv host effects base scope (List.replicate count id ++ held)
      { tx with db := { tx.db with blobs := incremented tx.db.blobs id count } } := by
  refine { holds with
    refs := ?_
    blobRows := holds.blobRows.imp fun _ rows => ⟨(map_face_incremented _ _ _).trans rows.1, rows.2⟩
    issued := holds.issued.blobsOf (map_face_incremented _ _ _) }
  refine (holds.refs.increment count referenced).perm (List.perm_iff_count.mpr fun other => ?_)
  simp only [Database.references, List.count_append]
  omega

theorem TxInv.decrement {id : Uuid} {count : Nat}
    (holds : TxInv host effects base scope (List.replicate count id ++ held) tx) :
    TxInv host effects base scope held
      { tx with db := { tx.db with blobs := decremented tx.db.blobs id count tx.now } } := by
  refine { holds with
    refs := ?_
    blobRows := holds.blobRows.imp fun _ rows =>
      ⟨(map_face_decremented _ _ _ _).trans rows.1, rows.2⟩
    issued := holds.issued.blobsOf (map_face_decremented _ _ _ _) }
  refine RefBooks.decrement (holds.refs.perm (List.perm_iff_count.mpr fun other => ?_)) tx.now
  simp only [Database.references, List.count_append]
  omega

theorem satisfies_incrementReferenceCount {id : Uuid} {count : Nat}
    {post : Unit → MutationTx → Prop} :
    Satisfies (incrementReferenceCount id count) post fault tx ↔
      post () { tx with db := { tx.db with blobs := incremented tx.db.blobs id count } } := Iff.rfl

theorem satisfies_decrementReferenceCount {id : Uuid} {count : Nat}
    {post : Unit → MutationTx → Prop} :
    Satisfies (decrementReferenceCount id count) post fault tx ↔
      post () { tx with db := { tx.db with blobs := decremented tx.db.blobs id count tx.now } } :=
  Iff.rfl

theorem satisfies_incrementLiveReferenceCount {before : List Blob} {references : List Uuid}
    (books : RefBooks before tx.db.blobs references) {id : Uuid} {count : Nat}
    (positive : 0 < count) (referenced : id ∈ references) {post : Bool → MutationTx → Prop}
    (continues : post true
      { tx with db := { tx.db with blobs := incremented tx.db.blobs id count } }) :
    Satisfies (incrementLiveReferenceCount id count) post fault tx := by
  have live : ∀ blob ∈ tx.db.blobs, (blob.id = id ∧ 0 < blob.referenceCount) ↔ blob.id = id := by
    intro blob member
    refine ⟨fun both => both.1, fun same => ⟨same, ?_⟩⟩
    exact books.live_of_mem member (same ▸ referenced)
  have once : (tx.db.blobs.filter fun blob => blob.id = id ∧ 0 < blob.referenceCount).length
      = 1 := by
    rcases books.present id referenced with ⟨blob, member, rfl⟩
    have same : (tx.db.blobs.filter fun other => other.id = blob.id ∧ 0 < other.referenceCount) =
        tx.db.blobs.filter fun other => other.id = blob.id := by
      refine List.filter_congr fun other otherMember => ?_
      simpa using live other otherMember
    rw [same, ← List.countP_eq_length_filter]
    have counted := List.count_eq_one_of_mem books.ids (List.mem_map_of_mem member)
    rw [List.count, List.countP_map] at counted
    rw [← counted]
    refine List.countP_congr fun other _ => ?_
    simp
  have sameRows : (tx.db.blobs.map fun blob =>
      if blob.id = id ∧ 0 < blob.referenceCount then
        { blob with referenceCount := blob.referenceCount + count } else blob) =
      incremented tx.db.blobs id count := by
    refine List.map_congr_left fun blob member => ?_
    simp only [live blob member]
  unfold incrementLiveReferenceCount
  rw [if_neg (by omega)]
  simp only [satisfies_bind, satisfies_state, satisfies_updateDb, satisfies_pure]
  rw [once, sameRows]
  exact continues

def incrementAll (counts : List (Uuid × Nat)) (blobs : List Blob) : List Blob :=
  counts.foldl (fun blobs entry => incremented blobs entry.1 entry.2) blobs

theorem satisfies_forEach_increment (counts : List (Uuid × Nat))
    {post : Unit → MutationTx → Prop} :
    Satisfies (forEach (fun entry => incrementReferenceCount entry.1 entry.2) counts) post fault
        tx ↔
      post () { tx with db := { tx.db with blobs := incrementAll counts tx.db.blobs } } := by
  induction counts generalizing tx with
  | nil => rfl
  | cons entry rest induction =>
      change Satisfies (incrementReferenceCount entry.1 entry.2 >>= fun _ => _) post fault tx ↔ _
      rw [satisfies_bind, satisfies_incrementReferenceCount, induction]
      rfl

theorem TxInv.incrementAll (counts : List (Uuid × Nat))
    (holds : TxInv host effects base scope held tx)
    (referenced : ∀ entry ∈ counts, entry.1 ∈ tx.db.references ++ held) :
    TxInv host effects base scope (expandCounts counts ++ held)
      { tx with db := { tx.db with blobs := incrementAll counts tx.db.blobs } } := by
  induction counts generalizing tx held with
  | nil => exact holds
  | cons entry rest induction =>
      have first := holds.increment entry.2 (referenced entry (List.mem_cons_self ..))
      have later := induction first fun other isOther => by
        rcases List.mem_append.mp (referenced other (List.mem_cons_of_mem _ isOther)) with
          inDb | inHeld
        · exact List.mem_append_left _ inDb
        · exact List.mem_append_right _ (List.mem_append_right _ inHeld)
      refine later.held_perm ?_
      change (expandCounts rest ++ (List.replicate entry.2 entry.1 ++ held)).Perm
        (List.replicate entry.2 entry.1 ++ expandCounts rest ++ held)
      rw [← List.append_assoc]
      exact List.perm_append_comm.append_right _

theorem satisfies_forEach_pin {pin : Uuid × Nat → Mutating Unit} (before : List Blob)
    (counts : List (Uuid × Nat))
    (isPin : ∀ entry ∈ counts, ∀ next post,
      Satisfies (incrementLiveReferenceCount entry.1 entry.2)
        (fun live after => live = true ∧ post () after) fault next →
      Satisfies (pin entry) post fault next)
    {references : List Uuid}
    (books : RefBooks before tx.db.blobs references)
    (positive : ∀ entry ∈ counts, 0 < entry.2) (referenced : ∀ entry ∈ counts, entry.1 ∈ references)
    {post : Unit → MutationTx → Prop}
    (continues : post ()
      { tx with db := { tx.db with blobs := incrementAll counts tx.db.blobs } }) :
    Satisfies (forEach pin counts) post fault tx := by
  induction counts generalizing tx references with
  | nil => exact continues
  | cons entry rest induction =>
      have isFirst := List.mem_cons_self (a := entry) (l := rest)
      have first := referenced entry isFirst
      change Satisfies (pin entry >>= fun _ => forEach pin rest) post fault tx
      rw [satisfies_bind]
      refine isPin entry isFirst tx _ ?_
      refine satisfies_incrementLiveReferenceCount books (positive entry isFirst) first ⟨rfl, ?_⟩
      refine induction (fun other isOther => isPin other (List.mem_cons_of_mem _ isOther))
        (books.increment entry.2 first) (fun other isOther =>
          positive other (List.mem_cons_of_mem _ isOther)) (fun other isOther => ?_) continues
      exact List.mem_append_right _ (referenced other (List.mem_cons_of_mem _ isOther))

def decrementAll (counts : List (Uuid × Nat)) (now : Nat) (blobs : List Blob) : List Blob :=
  counts.foldl (fun blobs entry => decremented blobs entry.1 entry.2 now) blobs

theorem satisfies_forEach_decrementReferenceCount (counts : List (Uuid × Nat))
    {post : Unit → MutationTx → Prop} :
    Satisfies (forEach (fun entry => decrementReferenceCount entry.1 entry.2) counts) post fault
        tx ↔
      post () { tx with db := { tx.db with blobs := decrementAll counts tx.now tx.db.blobs } } := by
  induction counts generalizing tx with
  | nil => rfl
  | cons entry rest induction =>
      change Satisfies (decrementReferenceCount entry.1 entry.2 >>= fun _ => _) post fault tx ↔ _
      rw [satisfies_bind, satisfies_decrementReferenceCount, induction]
      rfl

theorem TxInv.decrementAll (counts : List (Uuid × Nat)) {held released : List Uuid}
    (holds : TxInv host effects base scope (released ++ held) tx)
    (same : (expandCounts counts).Perm released) :
    TxInv host effects base scope held
      { tx with db := { tx.db with blobs := decrementAll counts tx.now tx.db.blobs } } := by
  have start : TxInv host effects base scope (expandCounts counts ++ held) tx :=
    holds.held_perm (same.symm.append_right held)
  clear holds same
  induction counts generalizing tx with
  | nil => exact start
  | cons entry rest induction =>
      have split : expandCounts (entry :: rest) ++ held =
          List.replicate entry.2 entry.1 ++ (expandCounts rest ++ held) := by
        simp [expandCounts, List.append_assoc]
      rw [split] at start
      exact induction start.decrement

end Storix
