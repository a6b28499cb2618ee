import Storix.Results.RetainedManifests

/-! # Out of the trash

What a delete puts into the trash comes back as it was: whatever is committed in between, a
restore plants the same nodes at the same places below its target, with the content they had. -/

namespace Storix

open Foundation Foundation.Command Relation

variable {host : Host} {effects : Effects} {base db middle next later restored : Database}
  {scope : List JsString → Prop} {held : List Uuid} {tx : MutationTx} {root rootId : Uuid}
  {now : Nat}

/-! ## Into the trash -/

structure Trashed (path : JsString) (rows : List SnapshotSourceRow) (item : TrashItem)
    (before after : Database) : Prop where
  originalPath : item.originalPath = path
  trash : after.trash = before.trash ++ [item]
  entries : after.trashEntries = before.trashEntries ++ rows.map (trashEntryOf item.id)

theorem Trashed.beside {path : JsString} {rows : List SnapshotSourceRow} {item : TrashItem}
    {first before after last : MutationTx} (trashed : Trashed path rows item before.db after.db)
    (earlier : BesideManifests first before) (closes : BesideManifests after last) :
    Trashed path rows item first.db last.db where
  originalPath := trashed.originalPath
  trash := by rw [closes.trash, trashed.trash, earlier.trash]
  entries := by rw [closes.trashEntries, trashed.entries, earlier.trashEntries]

theorem captureTrash_stores (path : JsString) (rows : List SnapshotSourceRow) (tx : MutationTx) :
    Satisfies (captureTrash host path rows)
      (fun _ next => ∃ item, Trashed path rows item tx.db next.db) (fun _ => True) tx := by
  unfold captureTrash
  cases rows with
  | nil => trivial
  | cons root rest =>
      apply satisfies_ite.mpr
      constructor
      · intro _
        trivial
      · intro _
        rw [satisfies_bind, satisfies_lift]
        constructor
        · intro bytes _
          rw [satisfies_bind, satisfies_state]
          apply satisfies_ite.mpr
          constructor
          · intro _
            trivial
          · intro _
            apply satisfies_ite.mpr
            constructor
            · intro _
              trivial
            · intro _
              apply satisfies_ite.mpr
              constructor
              · intro _
                trivial
              · intro _
                simp only [satisfies_bind, satisfies_drawUuid, satisfies_updateDb,
                  satisfies_update, satisfies_pure]
                exact ⟨_, rfl, rfl, rfl⟩
        · intro _ _
          trivial

theorem moveToTrash_stores (segments : List JsString) (rows : List SnapshotSourceRow)
    (enabled : tx.db.namespaceRow.settings.trashEnabled = true) :
    Satisfies (moveToTrash host segments rows)
      (fun _ next => ∃ item, Trashed (joinSegments segments) rows item tx.db next.db)
      (fun _ => True) tx := by
  unfold moveToTrash
  rw [satisfies_bind]
  apply (beside_trackChangeFeedBefore _ tx).imp
  intro _ tracked tracks
  rw [satisfies_bind, satisfies_state, satisfies_bind]
  apply (beside_recordRemovedFiles _ tracked).imp
  intro _ recorded records
  rw [satisfies_bind]
  apply (beside_recordLiveNodeDelta _ recorded).imp
  intro _ counted counts
  have first := trans_of BesideManifests (trans_of BesideManifests tracks records) counts
  apply satisfies_ite.mpr
  constructor
  · intro disabled
    rw [tracks.settings, enabled] at disabled
    cases disabled
  · intro _
    rw [satisfies_bind]
    apply (captureTrash_stores _ rows counted).imp
    intro trashId captured captures
    rcases captures with ⟨item, trashed⟩
    have rest : Beside (do
        forEach pinTrashBlob (sortedCounts (removedBlobs rows))
        deleteNodes rows
        recordLiveByteDelta (-(removedBytes rows))
        forEach (fun entry => decrementReferenceCount entry.1 entry.2)
          (sortedCounts (removedBlobs rows))
        return some trashId : Mutating (Option Uuid)) :=
      (respects_forEach beside_pinTrashBlob _).bind fun _ => (beside_deleteNodes _).bind fun _ =>
        (beside_recordLiveByteDelta _).bind fun _ =>
          (respects_forEach (fun _ => beside_decrementReferenceCount _ _) _).bind fun _ =>
            respects_pure _
    apply (rest captured).imp
    intro _ last closes
    exact ⟨item, trashed.beside first closes⟩

theorem removeNode_trashes {segments : List JsString} {recursive : Bool} {limit : Nat}
    (nonempty : segments ≠ []) (holds : TxInv host effects base scope held tx)
    (inScope : ∀ front, front <+: segments.dropLast → scope front) (outside : ¬scope segments)
    (removes : ∀ rest, effects.removes (segments ++ rest))
    (enabled : tx.db.namespaceRow.settings.trashEnabled = true) :
    Satisfies (removeNode host segments recursive limit)
      (fun _ next => ∃ source ∈ tx.db.nodes, ∃ (trees : List TreeRow) (item : TrashItem),
        PathOf tx.db.nodes source.id segments ∧
        trees.Perm (subtreeRows tx.db.nodes source) ∧
        Trashed (joinSegments segments) (trees.map TreeRow.captured) item tx.db next.db)
      Expected tx := by
  apply satisfies_removeNode nonempty holds inScope outside
  intro next target trees inv sameDb cut head
  have stores : Satisfies (moveToTrash host segments (trees.map TreeRow.captured))
      (fun _ last => ∃ item, Trashed (joinSegments segments) (trees.map TreeRow.captured) item
        next.db last.db) (fun _ => True) next := by
    apply moveToTrash_stores
    rw [sameDb]
    exact enabled
  apply ((moveToTrash_spec cut head inv removes).and stores).mono
  · intro _ last both
    rcases both.2 with ⟨item, trashed⟩
    rw [sameDb] at trashed
    have member := cut.member
    have reached := cut.reached
    have whole := cut.whole
    rw [sameDb] at member reached whole
    exact ⟨target, member, trees, item, reached, whole, trashed⟩
  · intro _ both
    exact both.1

/-! ## Out again -/

/-- The subtree at `source` stands at `target`, one version on. -/
structure RoundTrip (db restored : Database) (source target : List JsString) : Prop where
  nodes : ∀ node ∈ db.nodes, ∀ rest, PathOf db.nodes node.id (source ++ rest) →
    ∃ row ∈ restored.nodes, PathOf restored.nodes row.id (target ++ rest) ∧ row.id = node.id ∧
      row.type = node.type ∧ row.blobId = node.blobId ∧ row.size = node.size ∧
      row.mimeType = node.mimeType ∧ row.createdAt = node.createdAt ∧ row.expiresAt = none ∧
      row.version = node.version + 1
  only : ∀ id rest, PathOf restored.nodes id (target ++ rest) →
    PathOf db.nodes id (source ++ rest)
  contents : ∀ node ∈ db.nodes, ∀ rest, PathOf db.nodes node.id (source ++ rest) →
    ∀ blob ∈ db.blobs, node.blobId = some blob.id → ∃ kept ∈ restored.blobs,
      kept.face = blob.face

/-- The manifest of an item, as its entries say what stood below `source`. -/
structure ManifestOf (db later : Database) (source : List JsString) (item : TrashItem) :
    Prop where
  entries : ∀ entry, entry ∈ entriesOf later item ↔ ∃ node ∈ db.nodes, ∃ rest,
    PathOf db.nodes node.id (source ++ rest) ∧
      entry = trashEntryOf item.id (TreeRow.captured ⟨node, joinRelative rest⟩)

theorem settledRow_restored (done : TxDone host effects base scope held tx)
    {segments : List JsString} {nodeParentId : Uuid} {entry : TrashEntry}
    (fromBase : entry ∈ base.trashEntries)
    (member : restoredRow segments tx.now nodeParentId entry ∈ tx.db.nodes) :
    (settledRow tx (restoredRow segments tx.now nodeParentId entry)).version =
      entry.sourceRevision.version + 1 := by
  have notRaised : tx.changed.get entry.sourceNodeId ≠ some true := by
    intro raised
    rcases done.marks.raised _ member raised with ⟨old, isOld, sameId, _⟩
    apply done.start.separate entry fromBase
    have inside := mem_nodeIds_of_mem isOld
    rw [sameId] at inside
    exact inside
  rw [settledRow_version]
  change entry.sourceRevision.version + 1 +
    (if tx.changed.get entry.sourceNodeId = some true then 1 else 0) = _
  rw [if_neg notRaised, Nat.add_zero]

theorem Replanted.roundTrip {item : TrashItem} {source target : List JsString}
    (replanted : Replanted item target (.start later root now) tx)
    (done : TxDone host effects later scope held tx)
    (finished : Finished host later tx restored)
    (layout : Layout host db.nodes rootId)
    (manifest : ManifestOf db later source item)
    (contents : ∀ node ∈ db.nodes, ∀ rest, PathOf db.nodes node.id (source ++ rest) →
      ∀ blob ∈ db.blobs, node.blobId = some blob.id → ∃ kept ∈ restored.blobs,
        kept.face = blob.face) :
    RoundTrip db restored source target := by
  rcases finished.tables with ⟨feedState, feedEvents, issued, _, isNext⟩
  have nodes : restored.nodes = tx.db.nodes.map (settledRow tx) := by
    rw [isNext]
    rfl
  have keeps := done.keepsLinks_settled finished.raisable
  have targetOf : ∀ {node : VfsNode} {rest : List JsString},
      PathOf db.nodes node.id (source ++ rest) →
      (trashEntryOf item.id (TreeRow.captured ⟨node, joinRelative rest⟩)).target target =
        target ++ rest := by
    intro node rest reached
    have plain := layout.valid.plain reached
    exact congrArg (target ++ ·) (relativeSegments_joinRelative plain)
  constructor
  · intro node member rest reached
    have isEntry := (manifest.entries _).mpr ⟨node, member, rest, reached, rfl⟩
    have inBase : trashEntryOf item.id (TreeRow.captured ⟨node, joinRelative rest⟩) ∈
        later.trashEntries := (List.mem_filter.mp isEntry).1
    rcases replanted.placed _ isEntry with ⟨placed, nodeParentId, isRow⟩
    rw [targetOf reached] at placed
    refine ⟨settledRow tx _, nodes ▸ List.mem_map_of_mem isRow, ?_, ?_⟩
    · rw [nodes, settledRow_id]
      exact keeps.pathOf_iff.mpr placed
    · have content := settledRow_content tx (restoredRow target tx.now nodeParentId
        (trashEntryOf item.id (TreeRow.captured ⟨node, joinRelative rest⟩)))
      refine ⟨settledRow_id tx _, content.1, content.2.1, content.2.2.1, content.2.2.2.1,
        content.2.2.2.2.2, content.2.2.2.2.1, ?_⟩
      exact settledRow_restored done inBase isRow
  · intro id rest reached
    rw [nodes] at reached
    have planted := keeps.pathOf_iff.mp reached
    rcases PathOf.exists_node planted with ⟨node, member, rfl⟩
    rcases replanted.grown with ⟨added, isGrown, own⟩
    rw [isGrown] at member
    rcases List.mem_append.mp member with old | new
    · rcases done.start.tree.exists_path old with ⟨path, before⟩
      have after : PathOf tx.db.nodes node.id path := by
        rw [isGrown]
        exact PathTo.mono (List.map_subset _ (List.subset_append_left _ _)) before
      have same := PathTo.unique done.layout.tree after planted
      rw [same] at before
      rcases PathTo.of_append before with ⟨above, aboveReached⟩
      exact absurd aboveReached (replanted.vacant above)
    · rcases own node new with ⟨entry, isEntry, isId⟩
      rcases (manifest.entries entry).mp isEntry with ⟨source, sourceMember, other, before, rfl⟩
      have placed := (replanted.placed _ isEntry).1
      rw [targetOf before, ← isId] at placed
      have same := PathTo.unique done.layout.tree placed planted
      rw [List.append_cancel_left_eq] at same
      rw [← same, isId]
      exact before
  · exact contents

/-! ## The round trip -/

theorem Trashed.manifest {path : JsString} {rows : List SnapshotSourceRow} {item : TrashItem}
    (consistent : Consistent host db) (trashed : Trashed path rows item db next)
    (isNew : item.id ∉ db.trash.map TrashItem.id) :
    (next.trash.filter fun other => other.id = item.id) = [item] ∧
      (next.trashEntries.filter fun entry => entry.trashId = item.id) =
        rows.map (trashEntryOf item.id) := by
  constructor
  · have none : (db.trash.filter fun other => other.id = item.id) = [] := by
      apply List.filter_eq_nil_iff.mpr
      intro other member same
      rw [decide_eq_true_iff] at same
      exact isNew (same ▸ List.mem_map_of_mem member)
    rw [trashed.trash, List.filter_append, none]
    simp
  · have none : (db.trashEntries.filter fun entry => entry.trashId = item.id) = [] := by
      apply List.filter_eq_nil_iff.mpr
      intro entry member same
      rw [decide_eq_true_iff] at same
      exact isNew (same ▸ consistent.trash.nodes.owned entry member)
    have own : ((rows.map (trashEntryOf item.id)).filter fun entry => entry.trashId = item.id) =
        rows.map (trashEntryOf item.id) := by
      apply List.filter_eq_self.mpr
      intro entry member
      rcases List.mem_map.mp member with ⟨row, _, rfl⟩
      exact decide_eq_true rfl
    rw [trashed.entries, List.filter_append, none, own, List.nil_append]

theorem restorePath_eq {item : TrashItem} {segments : List JsString}
    (plain : ∀ name ∈ segments, PlainName name)
    (original : item.originalPath = joinSegments segments)
    (held : (later.trash.filter fun other => other.id = item.id) = [item])
    (target : Option (NodePath host)) :
    restorePath later item.id (target.map fun path => path.canonical) =
      (target.map fun path => path.segments).getD segments := by
  have found : (later.trash.find? fun other => other.id == item.id) = some item := by
    have single : ((later.trash.filter fun other => other.id = item.id).find? fun _ => true) =
        some item := by
      rw [held]
      rfl
    rw [← find?_of_key] at single
    simpa using single
  cases target with
  | none =>
      rw [restorePath, found]
      change pathSegments item.originalPath = segments
      rw [original, pathSegments_joinSegments plain]
  | some path =>
      change pathSegments (joinSegments path.segments) = path.segments
      exact pathSegments_joinSegments path.valid.plain

structure InTrash (db removed : Database) (segments : List JsString) (item : TrashItem) :
    Prop where
  isNew : item.id ∉ db.trash.map TrashItem.id
  trash : removed.trash = db.trash ++ [item]
  original : item.originalPath = joinSegments segments
  held : (removed.trash.filter fun other => other.id = item.id) = [item]
  manifest : ManifestOf db removed segments item
  contents : ∀ blob ∈ db.blobs, ∃ kept ∈ removed.blobs, kept.face = blob.face

theorem inTrash_of_run (reached : Reachable host db) (path : NodePath host) (recursive : Bool)
    (limit now : Nat) (enabled : db.namespaceRow.settings.trashEnabled = true)
    {afterBump : MutationTx → Unit → List AffectedRevision → Except VfsError Unit}
    {removed : Committed Unit}
    (removal : (Mutation.remove path recursive limit).run now afterBump db = .ok removed) :
    ∃ item, InTrash db removed.db path.segments item := by
  have consistent := reached.consistent
  rcases Mutation.run_eq_ok consistent removal with ⟨tx, wrote, finished⟩
  rcases wrote.work with ⟨root, isRoot, worked⟩
  have holds : TxInv host ((Mutation.remove path recursive limit).may db) db
      (aboveScope path.segments) [] (.start db root.id now) := TxInv.initial consistent isRoot now _
  have trashes : Satisfies (Mutation.remove path recursive limit).work
      (fun _ next => ∃ source ∈ db.nodes, ∃ (trees : List TreeRow) (item : TrashItem),
        PathOf db.nodes source.id path.segments ∧ trees.Perm (subtreeRows db.nodes source) ∧
        Trashed (joinSegments path.segments) (trees.map TreeRow.captured) item db next.db)
      Expected (.start db root.id now) := by
    apply satisfies_ignore
    exact removeNode_trashes path.nonempty holds (fun front isFront => isFront)
      (not_aboveScope_self path.nonempty) (fun _ => List.prefix_append _ _) enabled
  rcases trashes.of_ok worked with ⟨source, member, trees, item, atSource, whole, trashed⟩
  rcases finished.tables with ⟨feedState, feedEvents, issued, _, isNext⟩
  have trash : removed.db.trash = db.trash ++ [item] := by
    rw [isNext]
    exact trashed.trash
  have entries : removed.db.trashEntries = db.trashEntries ++
      (trees.map TreeRow.captured).map (trashEntryOf item.id) := by
    rw [isNext]
    exact trashed.entries
  have isNew : item.id ∉ db.trash.map TrashItem.id := by
    have keys := (finished.consistent wrote.done).trash.nodes.keys
    rw [trash, List.map_append, List.map_singleton] at keys
    intro old
    exact (List.nodup_append.mp keys).2.2 _ old _ (List.mem_singleton_self _) rfl
  have committed : Trashed (joinSegments path.segments) (trees.map TreeRow.captured) item db
      removed.db := ⟨trashed.originalPath, trash, entries⟩
  have manifest := committed.manifest consistent isNew
  refine ⟨item, isNew, trash, trashed.originalPath, manifest.1, ?_, ?_⟩
  · constructor
    intro entry
    have isPosting : entriesOf removed.db item =
        (trees.map TreeRow.captured).map (trashEntryOf item.id) := manifest.2
    have inside : ∀ row, row ∈ trees ↔ row.node ∈ db.nodes ∧ ∃ rest,
        PathOf db.nodes row.node.id (path.segments ++ rest) ∧
          row.relativePath = joinRelative rest := by
      intro row
      rw [whole.mem_iff]
      exact mem_subtreeRows consistent.tree holds.layout.valid member atSource
    rw [isPosting]
    constructor
    · intro isEntry
      rcases List.mem_map.mp isEntry with ⟨_, isRow, rfl⟩
      rcases List.mem_map.mp isRow with ⟨row, isTreeRow, rfl⟩
      rcases (inside row).mp isTreeRow with ⟨rowMember, rest, reachedRow, text⟩
      refine ⟨row.node, rowMember, rest, reachedRow, ?_⟩
      rw [← text]
    · intro found
      rcases found with ⟨node, nodeMember, rest, reachedNode, rfl⟩
      apply List.mem_map_of_mem
      apply List.mem_map_of_mem
      exact (inside _).mpr ⟨nodeMember, rest, reachedNode, rfl⟩
  · intro blob isBlob
    exact wrote.keeps_blob finished isBlob

/-- With the trash enabled, a deleted subtree is gone from the tree. Whatever is committed in
between, short of taking the item away, a restore to the old path or to another one plants the
same nodes at the same places below the target, and nothing else: every node has its id, type,
content and creation time again, in the version after the one that it was deleted in. -/
theorem trash_round_trip (reached : Reachable host db) (path : NodePath host) (recursive : Bool)
    (limit now : Nat) (enabled : db.namespaceRow.settings.trashEnabled = true)
    {afterBump : MutationTx → Unit → List AffectedRevision → Except VfsError Unit}
    {removed : Committed Unit}
    (removal : (Mutation.remove path recursive limit).run now afterBump db = .ok removed) :
    ∃ item, removed.db.trash = db.trash ++ [item] ∧
      (∀ id rest, PathOf db.nodes id (path.segments ++ rest) →
        id ∉ nodeIds removed.db.nodes) ∧
      ∀ later, ReflTransGen (SparingStep host item.id) removed.db later →
        ∀ (target : Option (NodePath host)) (time : Nat)
          (hook : MutationTx → Unit → List AffectedRevision → Except VfsError Unit)
          (restored : Committed Unit),
          (Mutation.restoreTrash item.id target).run time hook later = .ok restored →
          RoundTrip db restored.db path.segments
            ((target.map fun path => path.segments).getD path.segments) := by
  have consistent := reached.consistent
  have removedReached : Reachable host removed.db := .step reached (.mutation _ now _ removal)
  rcases consistent.layout with ⟨rootId, layout⟩
  rcases inTrash_of_run reached path recursive limit now enabled removal with ⟨item, inTrash⟩
  refine ⟨item, inTrash.trash, ?_, ?_⟩
  · intro id rest atPath
    rcases PathOf.exists_node atPath with ⟨node, member, rfl⟩
    have isEntry := (inTrash.manifest.entries _).mpr ⟨node, member, rest, atPath, rfl⟩
    exact removedReached.consistent.separate _ (List.mem_filter.mp isEntry).1
  · intro later run target time hook restored result
    have retained : removed.db.Retained item.id := by
      apply Or.inr
      rw [inTrash.trash]
      simp
    have same := (sameManifest_of_run removedReached retained run).1
    have laterReached := reachable_of_sparing removedReached run
    have laterConsistent := laterReached.consistent
    have rows := same.rows
    unfold Database.manifests at rows
    simp only [Prod.mk.injEq] at rows
    have held := rows.2.2.1.trans inTrash.held
    have manifest : ManifestOf db later path.segments item := by
      constructor
      intro entry
      rw [show entriesOf later item = entriesOf removed.db item from rows.2.2.2]
      exact inTrash.manifest.entries entry
    rcases Mutation.run_eq_ok laterConsistent result with ⟨tx, wrote, finished⟩
    rcases wrote.work with ⟨root, isRoot, worked⟩
    have holds : TxInv host ((Mutation.restoreTrash item.id target).may later) later
        (restoreScope (restorePath later item.id (target.map fun path => path.canonical))) []
        (.start later root.id time) := TxInv.initial laterConsistent isRoot time _
    have places : Satisfies (Mutation.restoreTrash item.id target).work
        (fun _ next => ∃ other, other.id = item.id ∧ Replanted other
          (restorePath later item.id (target.map fun path => path.canonical))
          (.start later root.id time) next) Expected (.start later root.id time) := by
      apply satisfies_ignore
      apply (restoreTrashItem_places rfl holds).imp
      intro _ _ planted
      exact planted.2
    rcases places.of_ok worked with ⟨other, sameId, replanted⟩
    have isItem : other = item := by
      have inside : other ∈ later.trash.filter fun other => other.id = item.id :=
        List.mem_filter.mpr ⟨replanted.member, decide_eq_true sameId⟩
      rw [held] at inside
      exact List.mem_singleton.mp inside
    rw [isItem, restorePath_eq path.valid.plain inTrash.original held target] at replanted
    apply replanted.roundTrip wrote.done finished layout manifest
    intro node member rest atPath blob isBlob refers
    rcases inTrash.contents blob isBlob with ⟨kept, isKept, keptFace⟩
    have keptId : kept.id = blob.id := congrArg Prod.fst keptFace
    have isFile : node.type = .file := by
      have shaped := layout.shapes node member
      unfold VfsNode.Shaped at shaped
      cases isType : node.type with
      | file => rfl
      | directory =>
          rw [isType, refers] at shaped
          exact absurd shaped.1 (by simp)
    have refersKept : kept.id ∈ removed.db.retainedBlobs item.id := by
      apply List.mem_append_left
      apply List.mem_filterMap.mpr
      have isEntry := (inTrash.manifest.entries _).mpr ⟨node, member, rest, atPath, rfl⟩
      refine ⟨_, List.mem_filter.mpr ⟨isEntry, decide_eq_true isFile⟩, ?_⟩
      rw [keptId]
      exact refers
    rcases same.contents kept isKept refersKept with ⟨held, isHeld, heldFace⟩
    rcases wrote.keeps_blob finished isHeld with ⟨last, isLast, lastFace⟩
    exact ⟨last, isLast, (lastFace.trans heldFace).trans keptFace⟩

namespace Small

def putBack (item : Uuid) : Mutation Host.counting := .restoreTrash item none

/-- The directory `/d` with its file goes to the trash and comes back. -/
theorem trash_round_trip_restored :
    ∃ removed item restored,
      (Mutation.remove directory true 100).run 2 (fun _ _ _ => .ok ()) oneFile = .ok removed ∧
      (putBack item).run 3 (fun _ _ _ => .ok ()) removed.db = .ok restored ∧
      RoundTrip oneFile restored.db directory.segments directory.segments := by
  cases removal : (Mutation.remove directory true 100).run 2 (fun _ _ _ => .ok ()) oneFile with
  | error error =>
      have commits : ((Mutation.remove directory true 100).run 2 (fun _ _ _ => .ok ())
        oneFile).toOption.isSome = true := by decide +kernel
      rw [removal] at commits
      cases commits
  | ok removed =>
      rcases trash_round_trip reachable_oneFile directory true 100 2 rfl removal with
        ⟨item, isTrash, _, comesBack⟩
      have isId : item.id = 4 := by
        have ids : (((Mutation.remove directory true 100).run 2 (fun _ _ _ => .ok ())
          oneFile).toOption.map fun committed => committed.db.trash.map TrashItem.id) =
            some [4] := by decide +kernel
        have isEmpty : oneFile.trash = [] := by decide +kernel
        rw [removal] at ids
        simp only [Except.toOption, Option.map_some, isTrash, isEmpty, List.nil_append,
          List.map_singleton, Option.some.injEq, List.cons.injEq, and_true] at ids
        exact ids
      have commits : (((Mutation.remove directory true 100).run 2 (fun _ _ _ => .ok ())
        oneFile).toOption.any fun committed => ((putBack 4).run 3
          (fun _ _ _ => .ok ()) committed.db).toOption.isSome) = true := by decide +kernel
      rw [removal] at commits
      simp only [Except.toOption, Option.any_some] at commits
      cases result : (putBack 4).run 3 (fun _ _ _ => .ok ()) removed.db with
      | error error =>
          rw [result] at commits
          cases commits
      | ok restored =>
          have whole := comesBack removed.db .refl none 3 (fun _ _ _ => .ok ()) restored
          rw [isId] at whole
          exact ⟨removed, 4, restored, rfl, result, whole result⟩

end Small

end Storix
