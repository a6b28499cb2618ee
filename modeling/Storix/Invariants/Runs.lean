import Storix.Invariants.Feed
import Storix.Persistence.Run

/-! # Runs

Every committed transaction keeps the tables consistent, so every reachable state is.
What a committed mutation did to the rows is said once here, for every mutation; the
results about runs only use that. -/

namespace Storix

open Foundation Foundation.Command

variable {host : Host} {effects : Effects} {base : Database}
  {scope : List JsString → Prop} {held : List Uuid}
  {tx : MutationTx} {fault : VfsError → Prop}

/-! ## The end of a transaction -/

inductive FinishFault {α : Type} (host : Host)
    (afterBump : MutationTx → α → List AffectedRevision → Except VfsError Unit)
    (tx : MutationTx) (error : VfsError) : Prop
  | expected (allowed : Expected error)
  | limit (refused : LimitFault host tx error)
  | bytes (isBytes : error = .internal .liveFileBytesOutOfRange)
      (overflow : MAX_INT64 < total fileSize tx.db.nodes)
  | exhausted (isExhausted : error = .internal .sequenceExhausted)
  | hook (last : MutationTx) (value : α) (revisions : List AffectedRevision)
      (raised : afterBump last value revisions = .error error)

structure Finished (host : Host) (base : Database) (tx : MutationTx) (db : Database) : Prop where
  limits : WithinLimits host tx
  raisable : Raisable tx.db.nodes tx.raisedIds
  tables : ∃ feedState feedEvents issued, tx.db.issued ≤ issued ∧
    db = { tx.settled.db with
      feedState := feedState, feedEvents := feedEvents, issued := issued }
  unrecorded : tx.feedBefore = none →
    db.feedState = base.feedState ∧ db.feedEvents = base.feedEvents
  recorded : ∀ feed, base.feedState = some feed → feed.hasCheckpoint = true →
    ∃ events, Recorded base db tx.now feed events

theorem finish_spec {α : Type}
    (afterBump : MutationTx → α → List AffectedRevision → Except VfsError Unit) (value : α)
    (done : TxDone host effects base scope held tx) :
    Satisfies (finish host afterBump value)
      (fun _ next => Finished host base tx next.db) (FinishFault host afterBump tx) tx := by
  have weaken : ∀ error, Expected error → FinishFault host afterBump tx error := fun _ => .expected
  have bytes := done.books.bytes
  have versions : Satisfies (bumpAndReadChangedNodes host)
      (fun _ next => Raisable tx.db.nodes tx.raisedIds ∧ next = tx.settled) Expected
      tx.withCounters.withBytes :=
    satisfies_bumpAndReadChangedNodes done fun raisable _ => ⟨raisable, rfl⟩
  unfold finish
  rw [satisfies_bind]
  refine (satisfies_applyNodeCounters done fun nodesWithin foldersWithin => ?_).mono
    (fun _ _ ends => ends) fun _ => .limit
  rw [satisfies_bind]
  refine satisfies_applyLogicalByteQuota (bytes.symm ▸ total_nonneg fileSize_nonneg _)
    (fun exceeds => .limit (.bytes exceeds)) (fun overflow => .bytes rfl (overflow.trans_eq bytes))
    fun bytesWithin => ?_
  have limits : WithinLimits host tx := ⟨nodesWithin, foldersWithin, bytesWithin⟩
  rw [satisfies_bind]
  refine versions.mono ?_ weaken
  rintro revisions _ ⟨raisable, rfl⟩
  rw [satisfies_bind, satisfies_state, satisfies_bind, satisfies_lift]
  refine ⟨fun _ _ => ?_, fun error raised => .hook _ _ _ raised⟩
  have isFeed : tx.settled.feedBefore = tx.feedBefore := rfl
  rw [isFeed]
  cases isBefore : tx.feedBefore with
  | none =>
      refine ⟨limits, raisable, ⟨_, _, _, Nat.le_refl _, rfl⟩, fun _ =>
        ⟨done.feedState, done.feedEvents⟩,
        fun feed isState checked => ?_⟩
      have recorded := done.checkpoint
      rw [isBefore, isState, Option.any_some, checked] at recorded
      cases recorded
  | some before =>
      have started := done.checkpoint
      rw [isBefore] at started
      cases isState : base.feedState with
      | none =>
          rw [isState] at started
          cases started
      | some feed =>
          rw [satisfies_bind]
          refine satisfies_appendChangeFeedEvents done raisable isBefore isState
            (.exhausted rfl) fun feedState feedEvents issued events later recorded => ?_
          refine ⟨limits, raisable, ⟨_, _, _, later, rfl⟩, fun isNone =>
            ?_, fun other isOther _ => ?_⟩
          · cases isBefore.symm.trans isNone
          · cases isState.symm.trans isOther
            exact ⟨events, recorded⟩

/-! ## The work of a mutation -/

def Mutation.Stores (mutation : Mutation host) (data : BlobData) : Prop :=
  data.storageKey ∈ mutation.uploads

/-- The paths whose nodes a mutation may change: those on the way to a path it names, and
those inside what it moves, restores or overwrites. -/
def Mutation.addresses (db : Database) : Mutation host → List JsString → Prop
  | .mkdir path _, front => pathScope path.segments front
  | .touch path _ _, front => pathScope path.segments front
  | .put path _ _ _ _ _, front => pathScope path.segments front
  | .putConditional path _ _, front => pathScope path.segments front
  | .conditional command, front => conditionalScope command front
  | .move source destination _ _ _, front =>
      moveScope source.segments destination.segments front
  | .copy _ destination _ _ _ _, front => front <+: destination.segments
  | .remove path _ _, front => aboveScope path.segments front
  | .removeEmptyDirectory path, front => aboveScope path.segments front
  | .expire nodeId _, front => expireScope db nodeId front
  | .restoreTrash trashId target, front =>
      restoreScope (restorePath db trashId (target.map fun path => path.canonical)) front
  | .purgeTrash _, _ => False
  | .createSnapshot _ _ _, _ => False
  | .removeSnapshot _, _ => False
  | .restoreSnapshot _ path _, front => pathScope path.segments front
  | .extract request, front => ∃ entries,
      planEntries host (.create request.tarLike request.destination.segments request.excludes
        request.mimeTypes) request.source = .ok entries ∧
      extractScope request.destination.segments entries front
  | .configure _, _ => False

def Mutation.removes (db : Database) : Mutation host → List JsString → Prop
  | .conditional command, front => conditionalRemoves command front
  | .remove path _ _, front => path.segments <+: front
  | .removeEmptyDirectory path, front => path.segments <+: front
  | .expire nodeId _, front => ∃ path, PathOf db.nodes nodeId path ∧ path <+: front
  | .extract request, front => request.destination.segments <+: front
  | _, _ => False

def Mutation.may (db : Database) (mutation : Mutation host) : Effects :=
  ⟨mutation.Stores, mutation.removes db⟩

theorem satisfies_ignore {α : Type} {work : Mutating α} {post : Unit → MutationTx → Prop}
    (holds : Satisfies work (fun _ next => post () next) fault tx) :
    Satisfies (Mutation.ignore work) post fault tx := by
  unfold Mutation.ignore
  rw [satisfies_bind]
  exact holds

theorem Mutation.work_spec (mutation : Mutation host) (fromStart : tx.db = base)
    (start : ∀ scope, TxInv host (mutation.may base) base scope held tx) :
    Satisfies mutation.work
      (fun _ next => TxDone host (mutation.may base) base (mutation.addresses base) held next)
      Expected tx := by
  cases mutation with
  | mkdir path parents =>
      refine satisfies_ignore ((ensureDirectory_spec parents (start _) path.nonempty path.valid
        fun front isFront => isFront).imp ?_)
      rintro _ next ⟨inv, _⟩
      exact inv.toTxDone
  | touch path parents emptyBlob =>
      refine satisfies_ignore ((touchFile_spec path.nonempty path.valid ?_ (start _)).imp
        fun _ _ inv => inv.toTxDone)
      rintro data rfl
      exact List.mem_singleton.mpr rfl
  | put path parents blob ifMatchVersion force expiresAt =>
      refine satisfies_ignore ((putFileContent_spec path.nonempty path.valid ?_ (start _)).imp
        fun _ _ inv => inv.toTxDone)
      exact List.mem_singleton.mpr rfl
  | putConditional path condition blob =>
      refine satisfies_ignore ((putConditionalContent_spec ?_ (start _)).imp
        fun _ _ inv => inv.toTxDone)
      exact List.mem_singleton.mpr rfl
  | conditional command =>
      exact satisfies_ignore (applyConditionalMutation_spec command fromStart start fun _ => id)
  | move source destination destinationParents maxSyncMoveNodes resolution =>
      exact satisfies_ignore (moveNode_spec source.nonempty destination.valid (start _))
  | copy source destination destinationParents maxSyncCopyNodes resolution expiresAt =>
      exact satisfies_ignore (copyNode_spec source.nonempty destination.valid
        (congrArg Database.nodes fromStart) (start _))
  | remove path recursive maxSyncDeleteNodes =>
      exact satisfies_ignore ((removeNode_spec path.nonempty (start _)
        (fun front isFront => isFront) (not_aboveScope_self path.nonempty)
        fun _ => List.prefix_append _ _).imp fun _ _ inv => inv.toTxDone)
  | removeEmptyDirectory path =>
      exact satisfies_ignore ((removeEmptyDirectory_spec path.nonempty (start _)
        (fun front isFront => isFront) (not_aboveScope_self path.nonempty)
        fun _ => List.prefix_append _ _).imp fun _ _ inv => inv.toTxDone)
  | expire nodeId cutoff =>
      exact satisfies_ignore ((expireNode_spec (congrArg Database.nodes fromStart) (start _)
        fun path _ reached => ⟨path, reached, List.prefix_append _ _⟩).imp
        fun _ _ inv => inv.toTxDone)
  | restoreTrash trashId target =>
      exact satisfies_ignore ((restoreTrashItem_spec fromStart (start _)).imp
        fun _ _ inv => inv.toTxDone)
  | purgeTrash trashId =>
      exact (purgeTrashItem_spec (start _)).imp fun _ _ inv => inv.toTxDone
  | createSnapshot path kind sourceRevision =>
      exact satisfies_ignore ((createSnapshot_spec (start _)).imp fun _ _ inv => inv.toTxDone)
  | removeSnapshot snapshotId =>
      exact (removeSnapshot_spec (start _)).imp fun _ _ inv => inv.toTxDone
  | restoreSnapshot snapshotId path condition =>
      exact satisfies_ignore ((restoreSnapshot_spec (start _)).imp fun _ _ inv => inv.toTxDone)
  | extract request =>
      unfold Mutation.work
      rw [satisfies_bind, satisfies_lift]
      refine ⟨fun entries planned => ?_, fun error failed => planEntries_expected failed⟩
      refine satisfies_ignore ((applyExtract_spec request.destination.nonempty
        (planEntries_fits planned) (planEntries_uploaded planned)
        (fun _ => List.prefix_append _ _) (start _)).imp ?_)
      intro _ next inv
      exact (inv.mono fun front inScope => ⟨entries, planned, inScope⟩).toTxDone
  | configure settings =>
      have inv := start fun _ => False
      unfold Mutation.work
      rw [satisfies_updateDb]
      have issued := inv.issued
      have row := inv.row
      exact { inv with
        issued := ⟨issued.nodes, issued.sources, issued.blobs, issued.trash, issued.snapshots⟩
        row := ⟨row.liveNodes, row.liveBytes, row.trashBytes, row.snapshotBytes⟩ }

/-! ## One committed transaction -/

theorem lockNamespaceRoot_eq_ok {db : Database} {allowInactive : Bool} {root : VfsNode}
    (locked : lockNamespaceRoot db allowInactive = .ok root) : db.findRoot = some root := by
  unfold lockNamespaceRoot at locked
  split at locked
  · rename_i found isRoot
    split at locked
    · cases locked
      exact isRoot
    · split at locked
      · cases locked
      · split at locked
        · cases locked
        · cases locked
  · split at locked
    · cases locked
    · split at locked
      · cases locked
      · cases locked

theorem lockNamespaceRoot_expected {db : Database} {allowInactive : Bool} {error : VfsError}
    (failed : lockNamespaceRoot db allowInactive = .error error) : Expected error := by
  have inactive : ∀ {error : VfsError}, assertNamespaceActive db = .error error →
      Expected error := by
    intro error failed
    unfold assertNamespaceActive at failed
    split at failed
    · cases failed
    · cases failed
      trivial
  unfold lockNamespaceRoot at failed
  split at failed
  · split at failed
    · cases failed
    · split at failed
      · cases failed
        trivial
      · split at failed
        · rename_i cause isCause
          cases failed
          exact inactive isCause
        · cases failed
          trivial
  · split at failed
    · cases failed
      trivial
    · split at failed
      · rename_i cause isCause
        cases failed
        exact inactive isCause
      · cases failed
        trivial

variable {db : Database} {mutation : Mutation host} {now : Nat}
  {afterBump : MutationTx → Unit → List AffectedRevision → Except VfsError Unit}

theorem Mutation.work_from_start (mutation : Mutation host) (consistent : Consistent host db)
    {root : VfsNode} (isRoot : db.findRoot = some root) (now : Nat) :
    Satisfies mutation.work
      (fun _ next => TxDone host (mutation.may db) db (mutation.addresses db) [] next) Expected
      (.start db root.id now) :=
  mutation.work_spec rfl fun scope => TxInv.initial consistent isRoot now scope

structure Wrote (mutation : Mutation host) (now : Nat) (db : Database)
    (tx : MutationTx) : Prop where
  work : ∃ root, db.findRoot = some root ∧ mutation.work (.start db root.id now) = .ok ((), tx)
  done : TxDone host (mutation.may db) db (mutation.addresses db) [] tx

theorem Mutation.run_eq_ok (consistent : Consistent host db) {committed : Committed Unit}
    (result : mutation.run now afterBump db = .ok committed) :
    ∃ tx, Wrote mutation now db tx ∧ Finished host db tx committed.db := by
  unfold Mutation.run withMutation at result
  split at result
  · cases result
  · rename_i root locked
    have isRoot := lockNamespaceRoot_eq_ok locked
    have spec := mutation.work_from_start consistent isRoot now
    split at result
    · cases result
    · split at result
      · cases result
      · rename_i value tx worked
        unfold Satisfies at spec
        rw [worked] at spec
        split at result
        · cases result
        · rename_i revisions last finished
          have ends := finish_spec afterBump value spec
          unfold Satisfies at ends
          rw [finished] at ends
          cases result
          exact ⟨tx, ⟨⟨root, isRoot, worked⟩, spec⟩, ends⟩

/-- A mutation that fails stops with an error of the API, of its commit, or of the hook. -/
theorem Mutation.run_eq_error (consistent : Consistent host db) {error : VfsError}
    (result : mutation.run now afterBump db = .error error) :
    Expected error ∨ ∃ tx, Wrote mutation now db tx ∧ FinishFault host afterBump tx error := by
  unfold Mutation.run withMutation at result
  split at result
  · rename_i cause failed
    cases result
    exact .inl (lockNamespaceRoot_expected failed)
  · rename_i root locked
    have isRoot := lockNamespaceRoot_eq_ok locked
    have spec := mutation.work_from_start consistent isRoot now
    unfold Satisfies at spec
    split at result
    · rename_i cause failed
      cases result
      split at failed
      · cases failed
      · unfold assertNamespaceActive at failed
        split at failed
        · cases failed
        · cases failed
          exact .inl trivial
    · split at result
      · rename_i cause failed
        cases result
        rw [failed] at spec
        exact .inl spec
      · rename_i value tx worked
        rw [worked] at spec
        have ends := finish_spec afterBump value spec
        unfold Satisfies at ends
        split at result
        · rename_i cause failed
          cases result
          rw [failed] at ends
          exact .inr ⟨tx, ⟨⟨root, isRoot, worked⟩, spec⟩, ends⟩
        · cases result

theorem Finished.consistent {tx : MutationTx} {next : Database}
    (done : TxDone host effects db (mutation.addresses db) [] tx)
    (finished : Finished host db tx next) :
    Consistent host next := by
  rcases finished.tables with ⟨feedState, feedEvents, issued, later, rfl⟩
  exact done.consistent finished.raisable feedState feedEvents later

/-! ## Reachable states -/

theorem rooted_singleton {root : VfsNode} (top : root.parentId = none)
    (isDirectory : root.type = .directory) : Rooted [root] where
  ids := by simp
  root := ⟨root.link, by simp, top, link_branch_iff.mpr isDirectory⟩
  oneRoot := by
    intro left isLeft right isRight _ _
    simp only [List.map_cons, List.map_nil, List.mem_singleton] at isLeft isRight
    rw [isLeft, isRight]
  rooted := by
    intro link isLink
    simp only [List.map_cons, List.map_nil, List.mem_singleton] at isLink
    exact ⟨[], isLink ▸ PathTo.root (by simp) top⟩
  branches := by
    intro link isLink parent below
    simp only [List.map_cons, List.map_nil, List.mem_singleton] at isLink
    rw [isLink, link_parent, top] at below
    cases below
  siblings := by
    intro left isLeft right isRight _ _ _
    simp only [List.map_cons, List.map_nil, List.mem_singleton] at isLeft isRight
    rw [isLeft, isRight]

theorem consistent_createWithRoot (host : Host) (now : Nat) (settings : NamespaceSettings) :
    Consistent host (createWithRoot host now settings) := by
  have tree : Rooted (createWithRoot host now settings).nodes := rooted_singleton rfl rfl
  have onlyRoot :
      ∀ id path, PathOf (createWithRoot host now settings).nodes id path → path = [] := by
    intro id path reached
    rcases reached.exists_node with ⟨node, member, rfl⟩
    refine PathOf.eq_nil tree member reached ?_
    rw [List.mem_singleton.mp member]
  refine ⟨⟨host.randomUUID 0, tree, ?_, ?_, ?_, ?_⟩, ?_, ?_, ?_, ?_, ?_, ?_⟩
  · intro node member
    rw [List.mem_singleton.mp member]
    exact ⟨rfl, rfl, rfl⟩
  · intro id path reached
    rw [onlyRoot id path reached]
    exact validPath_nil host
  · exact PathTo.root (List.mem_map_of_mem List.mem_cons_self) rfl
  · intro node member
    rw [List.mem_singleton.mp member]
    have room : 1 ≤ MAX_VFS_VERSION := by decide
    exact ⟨Nat.le_refl 1, room⟩
  · refine ⟨rfl, rfl, ?_, ?_, fun _ _ => Int.le_refl 0, fun _ nonzero => absurd rfl nonzero, ?_, ?_⟩
    · intro node member _
      rw [List.mem_singleton.mp member]
      simp [createWithRoot, total, fileBelow]
    · intro node member
      rw [List.mem_singleton.mp member]
    · intro node member old oldMember _
      rw [List.mem_singleton.mp member, List.mem_singleton.mp oldMember]
    · exact fun node member new => absurd (mem_nodeIds_of_mem member) new
  · refine ⟨List.nodup_nil, ?_, ?_, ?_, ?_⟩
    all_goals
      intro _ member
      cases member
  · refine ⟨⟨List.nodup_nil, ?_, ?_⟩, ⟨List.nodup_nil, ?_, ?_⟩, rfl, rfl, ?_, List.nodup_nil⟩
    all_goals
      intro _ member
      cases member
  · refine ⟨⟨List.nodup_nil, ?_, ?_⟩, ⟨List.nodup_nil, ?_, ?_⟩, rfl, rfl, ?_, List.nodup_nil, ?_⟩
    all_goals
      intro _ member
      cases member
  · refine ⟨fun id isId => ?_, ?_, ?_, ?_, ?_⟩
    · rw [List.mem_singleton.mp isId]
      exact drawn_next host 0
    all_goals
      intro _ member
      cases member
  · intro _ member
    cases member

theorem Consistent.feed (consistent : Consistent host db) (feedState : Option ChangeFeedState)
    (feedEvents : List ChangeEvent) :
    Consistent host { db with feedState := feedState, feedEvents := feedEvents } :=
  have issued := consistent.issued
  { consistent with
    issued := ⟨issued.nodes, issued.sources, issued.blobs, issued.trash, issued.snapshots⟩ }

theorem createChangeFeedCheckpoint_eq_ok {cursor : Nat} {next : Database}
    (issued : createChangeFeedCheckpoint db = .ok (cursor, next)) :
    ∃ feed, next = { db with feedState := some { feed with hasCheckpoint := true } } ∧
      cursor = feed.lastSequence ∧
        (db.feedState = some feed ∨ db.feedState = none ∧ feed = ⟨0, 0, true⟩) := by
  unfold createChangeFeedCheckpoint at issued
  split at issued
  · cases issued
  · split at issued
    · cases issued
    · split at issued
      · rename_i missing
        cases issued
        exact ⟨⟨0, 0, true⟩, rfl, rfl, .inr ⟨missing, rfl⟩⟩
      · rename_i feed found
        cases issued
        exact ⟨feed, rfl, rfl, .inl found⟩

theorem pruneNamespacePrefix_tables {cutoff batchSize : Nat} {next : Database}
    (pruned : pruneNamespacePrefix db cutoff batchSize = some next) :
    ∃ feedState feedEvents,
      next = { db with feedState := feedState, feedEvents := feedEvents } := by
  unfold pruneNamespacePrefix at pruned
  split at pruned
  · cases pruned
  · dsimp only at pruned
    split at pruned
    · cases pruned
      exact ⟨_, _, rfl⟩
    · split at pruned
      · cases pruned
      · cases pruned
        exact ⟨_, _, rfl⟩

theorem RefBooks.collect {blobs : List Blob} {references ids : List Uuid}
    (books : RefBooks blobs blobs references)
    (orphaned : ∀ blob ∈ blobs, blob.id ∈ ids → blob.referenceCount = 0) :
    RefBooks (blobs.filter fun blob => !ids.contains blob.id)
      (blobs.filter fun blob => !ids.contains blob.id) references where
  ids := books.ids.sublist (List.filter_sublist.map _)
  exact := fun blob member => books.exact blob (List.mem_of_mem_filter member)
  present := by
    intro id referenced
    rcases books.present id referenced with ⟨blob, member, rfl⟩
    refine ⟨blob, List.mem_filter.mpr ⟨member, ?_⟩, rfl⟩
    have live := books.live_of_mem member referenced
    simp only [Bool.not_eq_true', List.contains_eq_mem, decide_eq_false_iff_not]
    intro collected
    rw [orphaned blob member collected] at live
    exact absurd live (Int.lt_irrefl 0)
  zero := fun blob member => books.zero blob (List.mem_of_mem_filter member)
  dead := fun old oldMember dead blob member same => by
    rwa [List.inj_on_of_nodup_map books.ids (List.mem_of_mem_filter member)
      (List.mem_of_mem_filter oldMember) same]

theorem Step.consistent {next : Database} (consistent : Consistent host db)
    (taken : Step host db next) : Consistent host next := by
  cases taken with
  | mutation mutation now afterBump result =>
      rcases Mutation.run_eq_ok consistent result with ⟨tx, wrote, finished⟩
      exact finished.consistent wrote.done
  | checkpoint issued =>
      rcases createChangeFeedCheckpoint_eq_ok issued with ⟨feed, rfl, _⟩
      exact consistent.feed _ _
  | prune cutoff batchSize pruned =>
      rcases pruneNamespacePrefix_tables pruned with ⟨feedState, feedEvents, rfl⟩
      exact consistent.feed _ _
  | collect ids orphaned =>
      have issued := consistent.issued
      refine { consistent with
        refs := consistent.refs.collect orphaned
        issued := ⟨issued.nodes, issued.sources, fun id isId => ?_, issued.trash,
          issued.snapshots⟩ }
      exact issued.blobs id ((List.filter_sublist.map _).subset isId)

theorem Reachable.consistent (reached : Reachable host db) : Consistent host db := by
  induction reached with
  | start now settings => exact consistent_createWithRoot host now settings
  | step _ taken induction => exact taken.consistent induction

end Storix
