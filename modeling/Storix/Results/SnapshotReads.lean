import Storix.Results.RetainedManifests
import Storix.Results.SnapshotCapture
import Storix.Vfs.SnapshotPath

/-! # Reading a snapshot

Whatever has been committed since, a content request on a snapshot is answered with the file
that stood at its path when the snapshot was taken. -/

namespace Storix

open Foundation Foundation.Command Relation JsString

variable {host : Host} {db middle next : Database}

/-! ## Relative paths -/

theorem resolveSnapshotRelativePath_joinRelative {rest : List JsString}
    (valid : ValidPath host rest) :
    resolveSnapshotRelativePath host (joinRelative rest) = .ok (joinRelative rest, rest) := by
  have plain := valid.plain
  have segments : ((split (joinRelative rest)).filter fun segment =>
      !segment.isEmpty && segment != dot) = rest := by
    cases rest with
    | nil => decide
    | cons first names =>
        rw [joinRelative, if_neg (by simp),
          split_join (by simp) fun name member => (plain name member).noSlash]
        apply List.filter_eq_self.mpr
        intro name member
        have isPlain := plain name member
        simp [isPlain.nonempty, isPlain.notDot]
  have relative : (joinRelative rest).head? ≠ some slash := by
    cases rest with
    | nil => decide
    | cons first names =>
        have isPlain := plain first List.mem_cons_self
        cases first with
        | nil => exact absurd rfl isPlain.nonempty
        | cons unit units =>
            rw [joinRelative, if_neg (by simp)]
            cases names with
            | nil =>
                simp only [join, List.intercalate_singleton, List.head?_cons, ne_eq,
                  Option.some.injEq]
                intro isSlash
                exact isPlain.noSlash (isSlash ▸ List.mem_cons_self)
            | cons second others =>
                simp only [join, List.intercalate_cons_cons, List.cons_append, List.head?_cons,
                  ne_eq, Option.some.injEq]
                intro isSlash
                exact isPlain.noSlash (isSlash ▸ List.mem_cons_self)
  unfold resolveSnapshotRelativePath
  rw [if_neg relative, segments]
  dsimp only
  rw [show assertPathSegments host rest = .ok () from valid]
  rfl

/-- A request for the entry at `rest`: a file snapshot is asked for without a path. -/
inductive Asks (host : Host) : SnapshotKind → Option JsString → List JsString → Prop
  | file : Asks host .file none []
  | tree {rawPath : JsString} {rest : List JsString}
      (resolved : resolveSnapshotRelativePath host rawPath = .ok (joinRelative rest, rest)) :
      Asks host .tree (some rawPath) rest

theorem asks_joinRelative {rest : List JsString} (valid : ValidPath host rest) :
    Asks host .tree (some (joinRelative rest)) rest :=
  .tree (resolveSnapshotRelativePath_joinRelative valid)

/-! ## Lookups -/

/-- Where no two rows have the same key, looking for the key of a row finds the row. -/
theorem find?_of_distinct {α κ : Type} [BEq κ] [LawfulBEq κ] {key : α → κ} {items : List α}
    {item : α}
    (distinct : (items.map key).Nodup) (member : item ∈ items) :
    (items.find? fun other => key other == key item) = some item := by
  cases found : items.find? fun other => key other == key item with
  | none => exact absurd (List.find?_eq_none.mp found item member) (by simp)
  | some other =>
      have same := List.find?_some found
      rw [beq_iff_eq] at same
      rw [List.inj_on_of_nodup_map distinct (List.mem_of_find?_eq_some found) member same]

variable {path : ResolvedPath host} {kind : SnapshotKind} {sourceRevision : Option Revision}
  {source : VfsNode} {snapshot : Snapshot} {entries : List SnapshotEntry}

theorem ExactSnapshot.manifest (consistent : Consistent host db)
    (exact : ExactSnapshot host db next path kind sourceRevision source snapshot entries) :
    (next.snapshots.filter fun other => other.id = snapshot.id) = [snapshot] ∧
      (next.snapshotEntries.filter fun entry => entry.snapshotId = snapshot.id) = entries := by
  constructor
  · have none : (db.snapshots.filter fun other => other.id = snapshot.id) = [] := by
      apply List.filter_eq_nil_iff.mpr
      intro other member same
      rw [decide_eq_true_iff] at same
      exact exact.isNew (same ▸ List.mem_map_of_mem member)
    rw [exact.snapshots, List.filter_append, none]
    simp
  · have none : (db.snapshotEntries.filter fun entry => entry.snapshotId = snapshot.id) = [] := by
      apply List.filter_eq_nil_iff.mpr
      intro entry member same
      rw [decide_eq_true_iff] at same
      exact exact.isNew (same ▸ consistent.snapshots.nodes.owned entry member)
    have own : (entries.filter fun entry => entry.snapshotId = snapshot.id) = entries := by
      apply List.filter_eq_self.mpr
      intro entry member
      rcases (exact.exact entry).mp member with ⟨node, _, rest, _, rfl⟩
      exact decide_eq_true rfl
    rw [exact.tables, List.filter_append, none, own, List.nil_append]

theorem ExactSnapshot.retained
    (exact : ExactSnapshot host db next path kind sourceRevision source snapshot entries) :
    next.Retained snapshot.id := by
  apply Or.inl
  rw [exact.snapshots]
  simp

theorem find?_and_of_find? {α : Type} {first also : α → Bool} {items : List α} {item : α}
    (found : items.find? first = some item) (holds : also item = true) :
    (items.find? fun other => first other && also other) = some item := by
  rw [List.find?_eq_some_iff_append] at found ⊢
  rcases found with ⟨isFirst, front, back, isItems, before⟩
  refine ⟨by rw [isFirst, holds]; rfl, front, back, isItems, ?_⟩
  intro other isBefore
  have notFirst := before other isBefore
  rw [Bool.not_eq_true'] at notFirst
  rw [notFirst]
  rfl

/-- The tables hold the snapshot that was taken of `db`. -/
structure HoldsSnapshot (db later : Database) (path : ResolvedPath host) (source : VfsNode)
    (snapshot : Snapshot) : Prop where
  found : (later.snapshots.find? fun other => other.id == snapshot.id) = some snapshot
  entry : ∀ node ∈ db.nodes, ∀ rest, PathOf db.nodes node.id (path.segments ++ rest) →
    getEntry later snapshot.id (joinRelative rest) = some (entryAt snapshot.id rest node)
  absent : ∀ rest, (∀ name ∈ rest, PlainName name) →
    (∀ node ∈ db.nodes, ¬PathOf db.nodes node.id (path.segments ++ rest)) →
    getEntry later snapshot.id (joinRelative rest) = none
  fileEntry : snapshot.kind = .file →
    getFileEntry later snapshot.id = some (entryAt snapshot.id [] source)
  content : ∀ node ∈ db.nodes, ∀ rest, PathOf db.nodes node.id (path.segments ++ rest) →
    ∀ blob ∈ db.blobs, node.blobId = some blob.id → ∃ stored,
      (later.blobs.find? fun other => other.id == blob.id) = some stored ∧
        stored.face = blob.face

theorem ExactSnapshot.holds {later : Database} (consistent : Consistent host db)
    (exact : ExactSnapshot host db next path kind sourceRevision source snapshot entries)
    (reached : Reachable host next)
    (run : ReflTransGen (SparingStep host snapshot.id) next later) :
    HoldsSnapshot db later path source snapshot := by
  have same := (sameManifest_of_run reached exact.retained run).1
  have laterConsistent := (reachable_of_sparing reached run).consistent
  have rows := same.rows
  unfold Database.manifests at rows
  simp only [Prod.mk.injEq] at rows
  have snapshots := rows.1.trans (exact.manifest consistent).1
  have stored := rows.2.1.trans (exact.manifest consistent).2
  have isSnapshot : snapshot ∈ later.snapshots := by
    have inside : snapshot ∈ later.snapshots.filter fun other => other.id = snapshot.id := by
      rw [snapshots]
      exact List.mem_singleton_self snapshot
    exact (List.mem_filter.mp inside).1
  have looks : ∀ text, getEntry later snapshot.id text =
      entries.find? fun entry => entry.relativePath == text := by
    intro text
    rw [getEntry, find?_of_key, stored]
  have entryFound : ∀ node ∈ db.nodes, ∀ rest,
      PathOf db.nodes node.id (path.segments ++ rest) →
      (entries.find? fun entry => entry.relativePath == joinRelative rest) =
        some (entryAt snapshot.id rest node) := by
    intro node member rest reachedNode
    have isEntry := (exact.exact _).mpr ⟨node, member, rest, reachedNode, rfl⟩
    exact find?_of_distinct exact.distinct isEntry
  rcases consistent.layout with ⟨_, layout⟩
  constructor
  · exact find?_of_distinct laterConsistent.snapshots.nodes.keys isSnapshot
  · intro node member rest reachedNode
    rw [looks]
    exact entryFound node member rest reachedNode
  · intro rest plain absent
    rw [looks]
    apply List.find?_eq_none.mpr
    intro entry isEntry samePath
    rcases (exact.exact entry).mp isEntry with ⟨node, member, other, reachedNode, rfl⟩
    rw [beq_iff_eq] at samePath
    have isRest := joinRelative_injective (layout.valid.plain reachedNode) plain samePath
    rw [isRest] at reachedNode
    exact absent node member reachedNode
  · intro isFile
    have sourceReached : PathOf db.nodes source.id (path.segments ++ []) := by
      rw [List.append_nil]
      exact exact.reached
    have isType := exact.typed.mpr (exact.isKind.symm.trans isFile)
    have both : (entries.find? fun entry =>
        entry.relativePath == joinRelative [] && entry.type == .file) =
        some (entryAt snapshot.id [] source) :=
      find?_and_of_find? (entryFound source exact.member [] sourceReached)
        (beq_iff_eq.mpr isType)
    unfold getFileEntry
    simp only [Bool.and_assoc]
    rw [find?_of_key, find?_of_key, snapshots, stored]
    simp only [List.find?_singleton, isFile, beq_self_eq_true, if_true]
    exact both
  · intro node member rest reachedNode blob isBlob refers
    rcases exact.contents blob isBlob with ⟨held, isHeld, heldFace⟩
    have sameId : held.id = blob.id := congrArg Prod.fst heldFace
    have refersHeld : held.id ∈ next.retainedBlobs snapshot.id := by
      apply List.mem_append_right
      rw [(exact.manifest consistent).2, sameId]
      apply List.mem_filterMap.mpr
      exact ⟨entryAt snapshot.id rest node,
        (exact.exact _).mpr ⟨node, member, rest, reachedNode, rfl⟩, refers⟩
    rcases same.contents held isHeld refersHeld with ⟨kept, isKept, keptFace⟩
    have keptId : kept.id = blob.id := (congrArg Prod.fst keptFace).trans sameId
    refine ⟨kept, ?_, keptFace.trans heldFace⟩
    rw [← keptId]
    exact find?_of_distinct laterConsistent.refs.ids isKept

/-! ## Content requests -/

theorem validPath_of_resolved {rawPath text : JsString} {rest : List JsString}
    (resolved : resolveSnapshotRelativePath host rawPath = .ok (text, rest)) :
    ValidPath host rest := by
  unfold resolveSnapshotRelativePath at resolved
  split at resolved
  · cases resolved
  · dsimp only at resolved
    split at resolved
    · cases resolved
    · rename_i valid
      cases resolved
      exact valid

theorem HoldsSnapshot.getContent_eq {later : Database} {requested : Option JsString}
    {rest : List JsString} (holds : HoldsSnapshot db later path source snapshot)
    (asks : Asks host snapshot.kind requested rest)
    (reached : PathOf db.nodes source.id path.segments) (member : source ∈ db.nodes) :
    getContent host later snapshot.id requested =
      requireContent host later snapshot.id (joinRelative rest)
        (getEntry later snapshot.id (joinRelative rest)) := by
  unfold getContent
  rw [holds.found]
  dsimp only
  generalize isKind : snapshot.kind = kind at asks
  cases asks with
  | file =>
      have atSource : PathOf db.nodes source.id (path.segments ++ []) := by
        rw [List.append_nil]
        exact reached
      rw [holds.entry source member [] atSource, holds.fileEntry isKind]
      rfl
  | tree resolved =>
      dsimp only
      rw [resolved]

/-- A committed snapshot holds one entry for each node of the subtree at its source. Whatever is
committed later, short of removing it, a content request for the path of a captured file gets
the entry and the content of that moment, one for a directory is refused as a directory, and
one for a path that had no node finds nothing. -/
theorem snapshot_reads_back (reached : Reachable host db) (path : ResolvedPath host)
    (kind : SnapshotKind) (sourceRevision : Option Revision) (now : Nat)
    {afterBump : MutationTx → Unit → List AffectedRevision → Except VfsError Unit}
    {committed : Committed Unit}
    (result : (Mutation.createSnapshot path kind sourceRevision).run now afterBump db =
      .ok committed) :
    ∃ source snapshot entries,
      ExactSnapshot host db committed.db path kind sourceRevision source snapshot entries ∧
      ∀ later, ReflTransGen (SparingStep host snapshot.id) committed.db later →
        ∀ requested rest, Asks host kind requested rest →
          (∀ node ∈ db.nodes, PathOf db.nodes node.id (path.segments ++ rest) →
            (node.type = .directory → getContent host later snapshot.id requested =
              .error (.vfs (.isDirectory (joinRelative rest)))) ∧
            (node.type = .file → ∃ blob ∈ db.blobs, node.blobId = some blob.id ∧
              ∃ stored, stored.face = blob.face ∧
                getContent host later snapshot.id requested =
                  .ok (entryAt snapshot.id rest node, stored))) ∧
          ((∀ node ∈ db.nodes, ¬PathOf db.nodes node.id (path.segments ++ rest)) →
            getContent host later snapshot.id requested =
              .error (.vfs (.nodeNotFound (joinRelative rest)))) := by
  have consistent := reached.consistent
  rcases exactSnapshot_of_run reached path kind sourceRevision now result with
    ⟨source, snapshot, entries, exact⟩
  have nextReached : Reachable host committed.db := .step reached (.mutation _ now _ result)
  rcases consistent.layout with ⟨_, layout⟩
  refine ⟨source, snapshot, entries, exact, ?_⟩
  intro later run requested rest asks
  have holds := exact.holds consistent nextReached run
  rw [← exact.isKind] at asks
  have answer := holds.getContent_eq asks exact.reached exact.member
  constructor
  · intro node member reachedNode
    rw [holds.entry node member rest reachedNode] at answer
    constructor
    · intro isDirectory
      rw [answer, requireContent]
      exact if_pos isDirectory
    · intro isFile
      have shaped := layout.shapes node member
      unfold VfsNode.Shaped at shaped
      rw [isFile] at shaped
      rcases Option.isSome_iff_exists.mp shaped.1 with ⟨blobId, isBlob⟩
      have referenced := mem_references_of_file member isFile isBlob
      rcases consistent.refs.present blobId referenced with ⟨blob, blobMember, rfl⟩
      rcases holds.content node member rest reachedNode blob blobMember isBlob with
        ⟨stored, found, face⟩
      refine ⟨blob, blobMember, isBlob, stored, face, ?_⟩
      have notDirectory : (entryAt snapshot.id rest node).type ≠ .directory := by
        intro isDirectory
        rw [show (entryAt snapshot.id rest node).type = node.type from rfl, isFile] at isDirectory
        cases isDirectory
      have sameBlob : (entryAt snapshot.id rest node).blobId = some blob.id := isBlob
      rw [answer, requireContent, if_neg notDirectory, sameBlob]
      dsimp only
      rw [found]
  · intro absent
    have plain : ∀ name ∈ rest, PlainName name := by
      generalize snapshot.kind = asked at asks
      cases asks with
      | file => simp
      | tree resolved => exact (validPath_of_resolved resolved).plain
    rw [answer, holds.absent rest plain absent]
    rfl

namespace Small

/-- The request for a snapshot of `/d`. -/
def snapshotOfDirectory : Mutation Host.counting :=
  .createSnapshot directory.toResolvedPath .tree none

/-- The snapshot still has the file `f` after `/d` is deleted. -/
theorem snapshot_reads_back_deleted :
    ∃ committed, snapshotOfDirectory.run 2 (fun _ _ _ => .ok ()) oneFile = .ok committed ∧
      ∃ snapshot ∈ committed.db.snapshots, ∃ entry stored,
        getContent Host.counting
          ((Mutation.remove directory true 100).after 3 committed.db) snapshot.id (some [0x66]) =
            .ok (entry, stored) ∧ stored.storageKey = blob.storageKey := by
  cases result : snapshotOfDirectory.run 2 (fun _ _ _ => .ok ()) oneFile with
  | error error =>
      have commits : (snapshotOfDirectory.run 2 (fun _ _ _ => .ok ()) oneFile).toOption.isSome =
          true := by decide +kernel
      rw [result] at commits
      cases commits
  | ok committed =>
      rcases snapshot_reads_back reachable_oneFile directory.toResolvedPath .tree none 2 result with
        ⟨source, snapshot, entries, exact, reads⟩
      have run : ReflTransGen (SparingStep Host.counting snapshot.id) committed.db
          ((Mutation.remove directory true 100).after 3 committed.db) :=
        SparingStep.after (.remove directory true 100) not_false 3 committed.db
      have asks : Asks Host.counting .tree (some (joinRelative [[0x66]])) [[0x66]] :=
        asks_joinRelative (by decide +kernel)
      have top : PathOf oneFile.nodes 0 [] :=
        @Foundation.PathTo.root _ _ _ ⟨0, none, [], true⟩ (by decide +kernel) rfl
      have above : PathOf oneFile.nodes 1 ([] ++ [[0x64]]) :=
        @Foundation.PathTo.child _ _ _ ⟨1, some 0, [0x64], true⟩ 0 [] (by decide +kernel) rfl top
      have reached : PathOf oneFile.nodes 3 ([[0x64]] ++ [[0x66]]) :=
        @Foundation.PathTo.child _ _ _ ⟨3, some 1, [0x66], false⟩ 1 [[0x64]] (by decide +kernel)
          rfl above
      rcases PathOf.exists_node reached with ⟨node, member, isId⟩
      have isFile : node.type = .file := by
        have files : (oneFile.nodes.all fun other => other.id != 3 || other.type == .file) =
            true := by decide +kernel
        have whole := List.all_eq_true.mp files node member
        simpa [isId] using whole
      rw [← isId] at reached
      rcases ((reads _ run _ _ asks).1 node member reached).2 isFile with
        ⟨old, isOld, _, stored, face, answer⟩
      have keys : (oneFile.blobs.all fun other => other.storageKey == blob.storageKey) = true := by
        decide +kernel
      have sameKey : stored.storageKey = old.storageKey :=
        congrArg (fun face => face.2.storageKey) face
      refine ⟨committed, rfl, snapshot, ?_, _, stored, answer, ?_⟩
      · rw [exact.snapshots]
        exact List.mem_append_right _ (List.mem_singleton_self snapshot)
      · rw [sameKey]
        exact beq_iff_eq.mp (List.all_eq_true.mp keys old isOld)

end Small

end Storix
