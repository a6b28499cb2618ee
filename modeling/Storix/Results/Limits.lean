import Storix.Invariants.ByteDeltas
import Storix.Results.Tables

/-! # Limits

A mutation is refused for a limit of its namespace exactly if it makes the usage grow to
more than the limit. Usage is what the tables hold after the mutation, so one that only
moves bytes between components that count is never refused for the quota. -/

namespace Storix

open Foundation Foundation.Command

variable {host : Host} {db : Database}

/-! ## Usage -/

/-- The bytes of a namespace that count towards its quota. -/
def enforcedBytes (settings : NamespaceSettings) (row : Namespace) : Int :=
  enforced settings row.liveFileByteCount row.retainedTrashByteCount row.retainedSnapshotByteCount

/-- Between two states the enforced bytes did not grow, or they are within the quota. -/
def BytesWithin (host : Host) (db after : Database) : Prop :=
  let settings := after.namespaceRow.settings
  Within (byteQuota host settings)
    (enforcedBytes settings after.namespaceRow - enforcedBytes settings db.namespaceRow)
    (enforcedBytes settings after.namespaceRow)

def NodesWithin (host : Host) (db after : Database) : Prop :=
  Within (nodeLimit host after.namespaceRow.settings)
    (after.namespaceRow.liveNodeCount - db.namespaceRow.liveNodeCount)
    after.namespaceRow.liveNodeCount

def FoldersWithin (host : Host) (db after : Database) : Prop :=
  ∀ folder ∈ after.nodes, folder.type = .directory →
    Within (folderLimit host after.namespaceRow.settings)
      ((filesIn after.nodes folder.id).length - (filesIn db.nodes folder.id).length)
      (filesIn after.nodes folder.id).length

def Mutation.outcome (mutation : Mutation host) (now : Nat) (db : Database) : Option Database :=
  match db.findRoot with
  | none => none
  | some root =>
      match mutation.work (.start db root.id now) with
      | .error _ => none
      | .ok (_, tx) => some tx.settled.db

theorem Wrote.outcome {mutation : Mutation host} {now : Nat} {tx : MutationTx}
    (wrote : Wrote mutation now db tx) : mutation.outcome now db = some tx.settled.db := by
  rcases wrote.work with ⟨root, isRoot, worked⟩
  unfold Mutation.outcome
  rw [isRoot]
  dsimp only
  rw [worked]

/-! ## What the recorded changes say about the tables -/

section Recorded

variable {mutation : Mutation host} {now : Nat} {tx : MutationTx}

theorem TxDone.enforced_delta {effects : Effects} {scope : List JsString → Prop}
    {held : List Uuid} (done : TxDone host effects db scope held tx)
    (settings : NamespaceSettings) :
    enforced settings tx.liveFileByteDelta tx.trashByteDelta tx.snapshotByteDelta =
      enforcedBytes settings tx.settled.db.namespaceRow -
        enforcedBytes settings db.namespaceRow := by
  have row := done.row
  have live : tx.settled.db.namespaceRow.liveFileByteCount =
      db.namespaceRow.liveFileByteCount + tx.liveFileByteDelta :=
    congrArg (· + tx.liveFileByteDelta) row.liveBytes
  have trash : tx.settled.db.namespaceRow.retainedTrashByteCount = _ := row.trashBytes
  have snapshots : tx.settled.db.namespaceRow.retainedSnapshotByteCount = _ := row.snapshotBytes
  unfold enforcedBytes enforced
  rw [live, trash, snapshots]
  split <;> split <;> omega

theorem TxDone.type_eq {effects : Effects} {scope : List JsString → Prop}
    {held : List Uuid} (done : TxDone host effects db scope held tx) {node old : VfsNode}
    (member : node ∈ tx.db.nodes) (oldMember : old ∈ db.nodes) (same : old.id = node.id) :
    old.type = node.type := by
  cases isMark : tx.changed.get node.id with
  | none =>
      have kept := (done.marks.kept node member isMark).1
      rw [done.baseTree.eq_of_id oldMember kept same]
  | some increment =>
      cases increment with
      | true =>
          rcases done.marks.raised node member isMark with ⟨other, isOther, sameId, sameType, _⟩
          rw [done.baseTree.eq_of_id oldMember isOther (same.trans sameId.symm), sameType]
      | false =>
          cases done.marks.saved node member isMark with
          | changed other isOther sameId sameType _ =>
              rw [done.baseTree.eq_of_id oldMember isOther (same.trans sameId.symm), sameType]
          | created fresh _ =>
              have drawn := done.start.issued.nodes _ (mem_nodeIds_of_mem oldMember)
              exact absurd (same ▸ drawn) fresh
          | restored entry isEntry sameId _ _ =>
              refine absurd (mem_nodeIds_of_mem oldMember) ?_
              rw [same, ← sameId]
              exact done.start.separate entry isEntry

theorem TxDone.folder_delta {effects : Effects} {scope : List JsString → Prop}
    {held : List Uuid} (done : TxDone host effects db scope held tx) {node : VfsNode}
    (member : node ∈ tx.db.nodes) (isDirectory : node.type = .directory) :
    node.childFileCount = (filesIn db.nodes node.id).length ∧
      node.childFileCount + tx.folderDelta node.id =
        (filesIn tx.settled.db.nodes node.id).length := by
  have after := total_settled (fileBelow node.id) tx (fun row => by simp [fileBelow]) tx.db.nodes
  rw [← total_fileBelow, ← total_fileBelow]
  refine ⟨?_, (done.books.folders node member isDirectory).trans after.symm⟩
  by_cases known : node.id ∈ nodeIds db.nodes
  · rcases mem_nodeIds.mp known with ⟨old, oldMember, same⟩
    have books := done.start.books.folders old oldMember
      ((done.type_eq member oldMember same).trans isDirectory)
    rw [done.books.stored node member old oldMember same, ← same, ← books, Int.add_zero]
  · rw [done.books.unstored node member known, total_eq_zero]
    intro row rowMember
    refine if_neg fun both => ?_
    rcases done.baseTree.exists_parent rowMember both.2 with ⟨parent, isParent, sameId, _⟩
    exact known (sameId ▸ mem_nodeIds_of_mem isParent)

theorem TxDone.bytesWithin_iff {effects : Effects} {scope : List JsString → Prop}
    {held : List Uuid} (done : TxDone host effects db scope held tx) :
    Within (byteQuota host tx.db.namespaceRow.settings)
        (enforced tx.db.namespaceRow.settings tx.liveFileByteDelta tx.trashByteDelta
          tx.snapshotByteDelta)
        (enforced tx.db.namespaceRow.settings
          (tx.db.namespaceRow.liveFileByteCount + tx.liveFileByteDelta)
          tx.db.namespaceRow.retainedTrashByteCount
          tx.db.namespaceRow.retainedSnapshotByteCount) ↔
      BytesWithin host db tx.settled.db := by
  rw [done.enforced_delta]
  rfl

theorem TxDone.nodesWithin_iff {effects : Effects} {scope : List JsString → Prop}
    {held : List Uuid} (done : TxDone host effects db scope held tx) :
    Within (nodeLimit host tx.db.namespaceRow.settings) tx.liveNodeDelta
        (tx.db.namespaceRow.liveNodeCount + tx.liveNodeDelta) ↔
      NodesWithin host db tx.settled.db := by
  have live := done.row.liveNodes
  have isDelta : tx.settled.db.namespaceRow.liveNodeCount - db.namespaceRow.liveNodeCount =
      tx.liveNodeDelta := by
    simp only [MutationTx.settled]
    omega
  unfold NodesWithin
  rw [isDelta]
  rfl

theorem TxDone.folderWithin_iff {effects : Effects} {scope : List JsString → Prop}
    {held : List Uuid} (done : TxDone host effects db scope held tx) {node : VfsNode}
    (member : node ∈ tx.db.nodes) (isDirectory : node.type = .directory) (limit : Nat) :
    Within limit (tx.folderDelta node.id) (node.childFileCount + tx.folderDelta node.id) ↔
      Within limit
        ((filesIn tx.settled.db.nodes node.id).length - (filesIn db.nodes node.id).length)
        (filesIn tx.settled.db.nodes node.id).length := by
  rcases done.folder_delta member isDirectory with ⟨before, after⟩
  rw [← after, ← before, add_sub_cancel_left]

theorem TxDone.foldersWithin_iff {effects : Effects} {scope : List JsString → Prop}
    {held : List Uuid} (done : TxDone host effects db scope held tx) :
    (∀ node ∈ tx.db.nodes, node.type = .directory →
        Within (folderLimit host tx.db.namespaceRow.settings) (tx.folderDelta node.id)
          (node.childFileCount + tx.folderDelta node.id)) ↔
      FoldersWithin host db tx.settled.db := by
  constructor
  · intro within folder member isDirectory
    rcases List.mem_map.mp member with ⟨node, nodeMember, rfl⟩
    rw [settledRow_type] at isDirectory
    rw [settledRow_id]
    exact (done.folderWithin_iff nodeMember isDirectory _).mp (within node nodeMember isDirectory)
  · intro within node member isDirectory
    have later := within (settledRow tx node) (List.mem_map_of_mem member)
      ((settledRow_type tx node).trans isDirectory)
    rw [settledRow_id] at later
    exact (done.folderWithin_iff member isDirectory _).mpr later

end Recorded

/-! ## Mutations that the quota never refuses -/

def Mutation.sparesQuota (settings : NamespaceSettings) : Mutation host → Bool
  | .remove _ _ _ => true
  | .removeEmptyDirectory _ => true
  | .expire _ _ => true
  | .purgeTrash _ => true
  | .removeSnapshot _ => true
  | .move _ _ _ _ _ => true
  | .conditional (.delete _ _ _) => true
  | .conditional (.move _ _ _ _) => true
  | .restoreTrash _ _ => !settings.excludeTrashFromQuota
  | _ => false

def Spares {α : Type} (work : Mutating α) (tx : MutationTx) : Prop :=
  Satisfies work
    (fun _ next => enforced next.db.namespaceRow.settings next.liveFileByteDelta next.trashByteDelta
      next.snapshotByteDelta ≤ 0)
    (fun _ => True) tx

section Spares

variable {α : Type} {work : Mutating α} {root : VfsNode} {now : Nat}

theorem TakesAway.spares (takes : TakesAway work) : Spares work (.start db root.id now) := by
  refine (takes _).imp ?_
  rintro _ next ⟨taken, kept, bound, isNext⟩
  simp only [MutationTx.byteDeltas, Prod.mk.injEq, MutationTx.start] at isNext
  rw [isNext.1, isNext.2.1, isNext.2.2.1]
  unfold enforced
  split <;> split <;> omega

theorem KeepsBytes.spares (keeps : KeepsBytes work) : Spares work (.start db root.id now) :=
  keeps.takesAway.spares

end Spares

theorem takesAway_conditionalDelete (path : NodePath host) (revision : Revision)
    (recursive : Bool) :
    TakesAway (applyConditionalMutation host (.delete path revision recursive)) := by
  dsimp only [applyConditionalMutation]
  refine .after keeps_state fun tx => ?_
  split
  · exact takesAway_stop _
  · refine .after (keepsBytes_assertRevision _ _ _) fun _ => ?_
    split
    · exact (takesAway_removeEmptyDirectory _).before fun _ => keeps_pure _
    · exact (takesAway_removeNode _ _ _).before fun _ => keeps_pure _

theorem keepsBytes_conditionalMove (source : NodePath host) (destination : ResolvedPath host)
    (revision : Revision) (resolution : DestinationResolution) :
    KeepsBytes (applyConditionalMutation host (.move source destination revision resolution)) := by
  dsimp only [applyConditionalMutation]
  refine (keepsBytes_checkSource _ _).bind fun _ => keeps_state.bind fun tx => ?_
  exact (Keeps.rescue (keepsBytes_moveNode _ _ _ _ _) keepsBytes_destinationMustBeAbsent).bind
    fun _ => keeps_pure _

theorem Mutation.work_spares (consistent : Consistent host db) {root : VfsNode}
    (isRoot : db.findRoot = some root) {mutation : Mutation host} (now : Nat)
    (spares : mutation.sparesQuota db.namespaceRow.settings = true) :
    Spares mutation.work (.start db root.id now) := by
  cases mutation with
  | remove path recursive maxSyncDeleteNodes =>
      exact satisfies_ignore (takesAway_removeNode _ _ _).spares
  | removeEmptyDirectory path => exact satisfies_ignore (takesAway_removeEmptyDirectory _).spares
  | expire nodeId cutoff => exact satisfies_ignore (takesAway_expireNode _ _).spares
  | move source destination parents maxSyncMoveNodes resolution =>
      exact satisfies_ignore (KeepsBytes.spares (keepsBytes_moveNode _ _ _ _ _))
  | purgeTrash trashId =>
      refine (purgeTrashItem_bytes trashId _).imp ?_
      rintro _ next ⟨bytes, isNext⟩
      simp only [MutationTx.byteDeltas, Prod.mk.injEq, MutationTx.start] at isNext
      rw [isNext.1, isNext.2.1, isNext.2.2.1]
      unfold enforced
      split <;> split <;> omega
  | removeSnapshot snapshotId =>
      have holds : TxInv host .any db (fun _ => True) [] (.start db root.id now) :=
        .initial consistent isRoot now _
      refine (removeSnapshot_bytes snapshotId holds).imp ?_
      rintro _ next ⟨bytes, isNext⟩
      simp only [MutationTx.byteDeltas, Prod.mk.injEq, MutationTx.start] at isNext
      rw [isNext.1, isNext.2.1, isNext.2.2.1]
      unfold enforced
      split <;> split <;> omega
  | restoreTrash trashId target =>
      have counts : db.namespaceRow.settings.excludeTrashFromQuota = false := by
        simpa [Mutation.sparesQuota] using spares
      refine satisfies_ignore ((restoreTrashItem_bytes trashId _ _).imp ?_)
      rintro _ next ⟨bytes, isNext⟩
      simp only [MutationTx.byteDeltas, Prod.mk.injEq, MutationTx.start] at isNext
      rw [isNext.1, isNext.2.1, isNext.2.2.1, isNext.2.2.2]
      unfold enforced
      rw [if_neg (by simp [counts])]
      split <;> omega
  | conditional command =>
      cases command with
      | delete path revision recursive =>
          exact satisfies_ignore (takesAway_conditionalDelete path revision recursive).spares
      | move source destination revision resolution =>
          exact satisfies_ignore
            (KeepsBytes.spares (keepsBytes_conditionalMove source destination revision resolution))
      | _ => cases spares
  | _ => cases spares

/-! ## Limits of committed and refused mutations -/

theorem Mutation.limitFault_of_error (consistent : Consistent host db) {mutation : Mutation host}
    {now : Nat} {afterBump : MutationTx → Unit → List AffectedRevision → Except VfsError Unit}
    {error : VfsError} (result : mutation.run now afterBump db = .error error)
    (ours : ¬FromHook afterBump error)
    (isLimit : ¬Expected error ∧ ∀ fault, error ≠ .internal fault) :
    ∃ tx, Wrote mutation now db tx ∧ LimitFault host tx error := by
  rcases Mutation.run_eq_error consistent result with expected | ⟨tx, wrote, failed⟩
  · exact absurd expected isLimit.1
  · cases failed with
    | expected allowed => exact absurd allowed isLimit.1
    | limit refused => exact ⟨tx, wrote, refused⟩
    | bytes isBytes _ => exact absurd isBytes (isLimit.2 _)
    | exhausted isExhausted => exact absurd isExhausted (isLimit.2 _)
    | hook last value revisions raised => exact absurd ⟨last, revisions, raised⟩ ours

/-- A mutation commits only if its usage does not grow or stays within the limit, for bytes,
nodes and the files of every folder; and it is refused for a limit only if it does not keep to
it. Deletes, purges, removed snapshots and moves are never refused for the quota, nor is a
restore from a trash that counts. -/
theorem limits_enforced_on_growth (reached : Reachable host db) (mutation : Mutation host)
    (now : Nat) (afterBump : MutationTx → Unit → List AffectedRevision → Except VfsError Unit) :
    (∀ committed, mutation.run now afterBump db = .ok committed →
      (∃ after, mutation.outcome now db = some after ∧ committed.db.nodes = after.nodes ∧
        committed.db.namespaceRow = after.namespaceRow) ∧
      BytesWithin host db committed.db ∧ NodesWithin host db committed.db ∧
        FoldersWithin host db committed.db) ∧
    (∀ error, mutation.run now afterBump db = .error error → ¬FromHook afterBump error →
      (∀ limit requested, error = .quotaExceeded limit requested →
        ∃ after, mutation.outcome now db = some after ∧ ¬BytesWithin host db after) ∧
      (∀ limit requested, error = .namespaceNodeLimitExceeded limit requested →
        ∃ after, mutation.outcome now db = some after ∧ ¬NodesWithin host db after) ∧
      ∀ limit requested, error = .folderFileLimitExceeded limit requested →
        ∃ after, mutation.outcome now db = some after ∧ ¬FoldersWithin host db after) ∧
    (mutation.sparesQuota db.namespaceRow.settings = true → ∀ limit requested,
      mutation.run now afterBump db = .error (.quotaExceeded limit requested) →
        FromHook afterBump (.quotaExceeded limit requested)) := by
  have consistent := reached.consistent
  refine ⟨fun committed result => ?_, fun error result ours => ⟨?_, ?_, ?_⟩, ?_⟩
  · rcases Mutation.run_eq_ok consistent result with ⟨tx, wrote, finished⟩
    have bytes := wrote.done.bytesWithin_iff.mp finished.limits.bytes
    have nodes := wrote.done.nodesWithin_iff.mp finished.limits.nodes
    have folders := wrote.done.foldersWithin_iff.mp finished.limits.folders
    rcases finished.tables with ⟨feedState, feedEvents, issued, _, isDb⟩
    rw [isDb]
    exact ⟨⟨_, wrote.outcome, rfl, rfl⟩, bytes, nodes, folders⟩
  · rintro limit requested rfl
    rcases Mutation.limitFault_of_error consistent result ours ⟨nofun, nofun⟩ with
      ⟨tx, wrote, refused⟩
    cases refused with
    | bytes exceeds =>
        exact ⟨_, wrote.outcome, fun within => exceeds (wrote.done.bytesWithin_iff.mpr within)⟩
  · rintro limit requested rfl
    rcases Mutation.limitFault_of_error consistent result ours ⟨nofun, nofun⟩ with
      ⟨tx, wrote, refused⟩
    cases refused with
    | nodes exceeds =>
        exact ⟨_, wrote.outcome, fun within => exceeds (wrote.done.nodesWithin_iff.mpr within)⟩
  · rintro limit requested rfl
    rcases Mutation.limitFault_of_error consistent result ours ⟨nofun, nofun⟩ with
      ⟨tx, wrote, refused⟩
    cases refused with
    | folders node member isDirectory exceeds =>
        exact ⟨_, wrote.outcome, fun within =>
          exceeds (wrote.done.foldersWithin_iff.mpr within node member isDirectory)⟩
  · intro spares limit requested result
    by_contra ours
    rcases Mutation.limitFault_of_error consistent result ours ⟨nofun, nofun⟩ with
      ⟨tx, wrote, refused⟩
    rcases wrote.work with ⟨root, isRoot, worked⟩
    have shrinks := (Mutation.work_spares consistent isRoot now spares).of_ok worked
    cases refused with
    | bytes exceeds => exact exceeds (.inl shrinks)

namespace Small

def lowered : Database :=
  (Mutation.configure { settings with maxTotalLogicalBytes := some 1 } :
    Mutation Host.counting).after 2 oneFile

theorem reachable_lowered : Reachable Host.counting lowered := reachable_oneFile.after _ 2

/-- `/e` -/
def another : NodePath Host.counting :=
  ⟨⟨[[0x65]], by decide +kernel⟩, by simp⟩

/-- Over its quota a namespace takes no more files, and lets the one it has go to the trash. -/
theorem limits_enforced_on_growth_lowered :
    (∃ after, (Mutation.put another false blob none false none).outcome 3 lowered = some after ∧
      ¬BytesWithin Host.counting lowered after) ∧
    ∀ limit requested, (Mutation.remove directory true 100).run 3 (fun _ _ _ => .ok ()) lowered ≠
      .error (.quotaExceeded limit requested) := by
  have noHook : ∀ error, ¬FromHook (fun _ _ _ => .ok ()) error := by
    rintro error ⟨_, _, raised⟩
    cases raised
  constructor
  · have refused : (Mutation.put another false blob none false none).run 3 (fun _ _ _ => .ok ())
        lowered = .error (.quotaExceeded 1 10) := by
      have isError : ((Mutation.put another false blob none false none).run 3
          (fun _ _ _ => .ok ()) lowered).map (fun _ => ()) = .error (.quotaExceeded 1 10) := by
        decide +kernel
      cases result : (Mutation.put another false blob none false none).run 3
          (fun _ _ _ => .ok ()) lowered with
      | ok committed =>
          rw [result] at isError
          cases isError
      | error error =>
          rw [result] at isError
          cases isError
          rfl
    exact ((limits_enforced_on_growth reachable_lowered _ 3 _).2.1 _ refused (noHook _)).1 _ _ rfl
  · intro limit requested result
    exact noHook _ ((limits_enforced_on_growth reachable_lowered _ 3 _).2.2 rfl limit requested
      result)

end Small

end Storix
