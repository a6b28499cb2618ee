import Storix.Results.Listing
import Storix.Results.Prechecks

/-! # Requests that change nothing

A request that finds everything as it should be only looks: it records states for the
change feed and writes nothing. Two of the requests that change nothing do more than
that: they mark the chain of their parents before it is known whether there is anything
to do. -/

namespace Storix

open Foundation Foundation.Command

variable {host : Host} {effects : Effects} {base db : Database}
  {scope : List JsString → Prop} {held : List Uuid}
  {tx next : MutationTx} {segments : List JsString}

/-! ## Looking -/

/-- Between two points of a transaction only states were recorded. -/
def Looked (tx next : MutationTx) : Prop :=
  ∃ feedBefore, next = { tx with feedBefore := feedBefore }

theorem Looked.trans {middle : MutationTx} (first : Looked tx middle)
    (second : Looked middle next) : Looked tx next := by
  rcases first with ⟨_, rfl⟩
  rcases second with ⟨feedBefore, rfl⟩
  exact ⟨feedBefore, rfl⟩

theorem resolveFrom_cons {name : JsString} {rest : List JsString} {current target : VfsNode}
    (resolved : resolveFrom db (name :: rest) (some current) = some target) :
    current.type = .directory ∧ ∃ child, db.findChild current.id name = some child ∧
      resolveFrom db rest (some child) = some target := by
  unfold resolveFrom at resolved
  split at resolved
  · rename_i isDirectory
    refine ⟨isDirectory, ?_⟩
    cases found : db.findChild current.id name with
    | some child =>
        rw [found] at resolved
        exact ⟨child, rfl, resolved⟩
    | none =>
        rw [found] at resolved
        cases rest with
        | nil => cases resolved
        | cons _ _ => cases resolved
  · cases resolved

theorem lockParents_looks (parents : Bool) {rest visited : List JsString}
    {current target : VfsNode} (holds : TxInv host effects base scope held tx)
    (standing : Standing tx current.id current.type visited)
    (resolved : resolveFrom tx.db rest (some current) = some target) :
    Satisfies (lockParents host parents visited rest current.id current.type)
      (fun result last => result = (target.id, target.type) ∧
        TxInv host effects base scope held last ∧ Looked tx last ∧
        Standing last target.id target.type (visited ++ rest))
      (fun _ => False) tx := by
  induction rest generalizing tx visited current with
  | nil =>
      cases resolved
      unfold lockParents
      rw [satisfies_pure, List.append_nil]
      exact ⟨rfl, holds, ⟨tx.feedBefore, rfl⟩, standing⟩
  | cons name rest induction =>
      rcases resolveFrom_cons resolved with ⟨isDirectory, child, found, deeper⟩
      rcases findChild_eq_some found with ⟨member, below, rfl⟩
      have regroup : visited ++ child.name :: rest = (visited ++ [child.name]) ++ rest := by simp
      unfold lockParents
      rw [regroup, if_neg (not_not.mpr isDirectory), satisfies_bind]
      refine standing.track holds fun feedBefore inv _ seen nowStanding => ?_
      rw [satisfies_bind, satisfies_state]
      dsimp only
      rw [found]
      refine (induction inv (nowStanding.child inv.tree seen member below) deeper).imp ?_
      rintro result last ⟨isResult, lastInv, looked, lastStanding⟩
      exact ⟨isResult, lastInv, .trans ⟨feedBefore, rfl⟩ looked, lastStanding⟩

theorem lockParentChain_walks (parents markAncestors : Bool) {parent : VfsNode}
    (holds : TxInv host effects base scope held tx) (isDirectory : parent.type = .directory)
    (resolved : resolvePathInManager tx.db tx.rootId segments.dropLast = some parent)
    (inScope : markAncestors = true → ∀ front, front <+: segments.dropLast → scope front) :
    Satisfies (lockParentChain host segments parents markAncestors)
      (fun parentId last => parentId = parent.id ∧ TxInv host effects base scope held last ∧
        (last.db = tx.db ∧ last.rootId = tx.rootId) ∧ Locked last parent.id segments.dropLast ∧
        (markAncestors = false → Looked tx last))
      (fun _ => False) tx := by
  rcases holds.layout.exists_root with ⟨root, member, isRoot, _, rootDirectory⟩
  have found : tx.db.findNode tx.rootId = some root :=
    isRoot ▸ find_eq_some_of_mem holds.tree member
  have standing := holds.rootStanding
  unfold resolvePathInManager at resolved
  rw [found] at resolved
  unfold lockParentChain
  rw [satisfies_bind, satisfies_state, satisfies_bind]
  rw [← isRoot, ← rootDirectory] at standing ⊢
  refine (lockParents_looks parents holds standing resolved).imp ?_
  rintro _ middle ⟨rfl, inv, ⟨states, rfl⟩, stands⟩
  dsimp only
  rw [List.nil_append] at stands
  rw [if_neg (by simp [isDirectory, rootDirectory]), satisfies_bind]
  refine stands.track inv fun feedBefore tracked _ seen nowStanding => ?_
  rw [isDirectory] at nowStanding
  refine satisfies_ite.mpr ⟨fun marks => ?_, fun _ => ?_⟩
  · rw [satisfies_bind]
    refine satisfies_markAncestorChain tracked nowStanding.reached seen (inScope marks)
      fun changed chained marked self weaken => ?_
    refine ⟨rfl, marked, ⟨rfl, isRoot.symm⟩,
      ⟨nowStanding.directory, nowStanding.reached, .inl self⟩, ?_⟩
    intro leaves
    rw [marks] at leaves
    cases leaves
  · exact ⟨rfl, tracked, ⟨rfl, isRoot.symm⟩, ⟨nowStanding.directory, nowStanding.reached, seen⟩,
      fun _ => ⟨feedBefore, rfl⟩⟩

theorem lockParentChain_looks (parents : Bool) {parent : VfsNode}
    (holds : TxInv host effects base scope held tx) (isDirectory : parent.type = .directory)
    (resolved : resolvePathInManager tx.db tx.rootId segments.dropLast = some parent) :
    Satisfies (lockParentChain host segments parents false)
      (fun parentId last => parentId = parent.id ∧ TxInv host effects base scope held last ∧
        Looked tx last ∧ Locked last parent.id segments.dropLast)
      (fun _ => False) tx := by
  refine (lockParentChain_walks parents false holds isDirectory resolved nofun).imp ?_
  rintro parentId last ⟨isParent, inv, _, locked, looked⟩
  exact ⟨isParent, inv, looked rfl, locked⟩

theorem ensureDirectories_looks {rest visited : List JsString} {current target : VfsNode}
    {last : Option VfsNode} {created : Bool} (holds : TxInv host effects base scope held tx)
    (standing : Standing tx current.id current.type visited)
    (isLast : rest = [] → last = some current) (isDirectory : target.type = .directory)
    (resolved : resolveFrom tx.db rest (some current) = some target) :
    Satisfies (ensureDirectories host true segments visited rest current.id current.type last
        created)
      (fun result after => result.1 = some target ∧ Looked tx after) (fun _ => False) tx := by
  induction rest generalizing tx visited current last created with
  | nil =>
      cases resolved
      unfold ensureDirectories
      rw [satisfies_pure, isLast rfl]
      exact ⟨rfl, tx.feedBefore, rfl⟩
  | cons name rest induction =>
      rcases resolveFrom_cons resolved with ⟨goesOn, child, found, deeper⟩
      rcases findChild_eq_some found with ⟨member, below, rfl⟩
      unfold ensureDirectories
      rw [if_neg (not_not.mpr goesOn), satisfies_bind]
      refine standing.track holds fun feedBefore inv _ seen nowStanding => ?_
      rw [satisfies_bind, satisfies_state]
      dsimp only
      rw [found]
      have free : ¬(rest = [] ∧ (child.type = .file ∨ true = false)) := by
        rintro ⟨rfl, isFile | impossible⟩
        · cases deeper
          rw [isDirectory] at isFile
          cases isFile
        · cases impossible
      dsimp only
      rw [if_neg free]
      refine (induction inv (nowStanding.child inv.tree seen member below) (fun _ => rfl)
        deeper).imp ?_
      rintro result after ⟨isResult, looked⟩
      exact ⟨isResult, .trans ⟨feedBefore, rfl⟩ looked⟩

theorem ensureDirectory_looks {target : VfsNode} (holds : TxInv host effects base scope held tx)
    (nonempty : segments ≠ []) (isDirectory : target.type = .directory)
    (resolved : resolvePathInManager tx.db tx.rootId segments = some target) :
    Satisfies (ensureDirectory host segments true) (fun _ after => Looked tx after)
      (fun _ => False) tx := by
  rcases holds.layout.exists_root with ⟨root, member, isRoot, _, rootDirectory⟩
  have found : tx.db.findNode tx.rootId = some root :=
    isRoot ▸ find_eq_some_of_mem holds.tree member
  have standing := holds.rootStanding
  unfold resolvePathInManager at resolved
  rw [found] at resolved
  unfold ensureDirectory
  rw [satisfies_bind, satisfies_state, satisfies_bind]
  rw [← isRoot, ← rootDirectory] at standing ⊢
  refine (ensureDirectories_looks holds standing (fun empty => absurd empty nonempty) isDirectory
    resolved).imp ?_
  rintro ⟨_, created⟩ after ⟨rfl, looked⟩
  exact looked

theorem exists_parent_of_resolved {rootId : Uuid} {target : VfsNode}
    (layout : Layout host db.nodes rootId) (nonempty : segments ≠ [])
    (resolved : resolvePathInManager db rootId segments = some target) :
    ∃ parent, resolvePathInManager db rootId segments.dropLast = some parent ∧
      parent.type = .directory ∧ db.findChild parent.id (lastSegment segments) = some target := by
  rcases (resolvePathInManager_eq_some_iff layout.tree layout.root).mp resolved with
    ⟨member, reached⟩
  rw [← dropLast_append_lastSegment nonempty] at reached
  rcases PathOf.exists_child reached with
    ⟨node, nodeMember, sameId, sameName, parentId, below, above⟩
  have isTarget : node = target := layout.tree.eq_of_id nodeMember member sameId
  subst isTarget
  rcases layout.tree.exists_parent nodeMember below with ⟨parent, parentMember, rfl, isDirectory⟩
  refine ⟨parent, ?_, isDirectory, ?_⟩
  · exact (resolvePathInManager_eq_some_iff layout.tree layout.root).mpr ⟨parentMember, above⟩
  · rw [← sameName]
    exact findChild_eq_some_of_mem layout.tree nodeMember below

theorem assertRevision_of_eq (node : VfsNode) (path : JsString) (tx : MutationTx) :
    assertRevision node ⟨node.id, node.version⟩ path tx = .ok ((), tx) := by
  unfold assertRevision
  rw [if_neg (by simp)]
  rfl

theorem lockFile_looks {path : NodePath host} {target : VfsNode}
    (holds : TxInv host effects base scope held tx) (isFile : target.type = .file)
    (resolved : resolvePathInManager tx.db tx.rootId path.segments = some target) :
    Satisfies (lockFile host path ⟨target.id, target.version⟩)
      (fun result after => result.2 = target ∧ Looked tx after) (fun _ => False) tx := by
  rcases exists_parent_of_resolved holds.layout path.nonempty resolved with
    ⟨parent, isParent, isDirectory, found⟩
  unfold lockFile
  rw [satisfies_bind]
  refine (lockParentChain_looks false holds isDirectory isParent).imp ?_
  rintro _ middle ⟨rfl, inv, looked, locked⟩
  have sameDb : middle.db = tx.db := by
    rcases looked with ⟨_, rfl⟩
    rfl
  rw [← sameDb] at found
  rw [satisfies_bind]
  refine satisfies_lockTargetNode inv locked (fun free => ?_) ?_
  · rw [free] at found
    cases found
  · intro node feedBefore isNode _ _ _ _ _ _ _
    rw [found] at isNode
    cases isNode
    dsimp only
    rw [if_neg (by simp [isFile]), satisfies_bind]
    refine satisfies_of_eq (assertRevision_of_eq target path.canonical _) ?_
    exact ⟨rfl, looked.trans ⟨feedBefore, rfl⟩⟩

theorem persistNode_looks {path : NodePath host} {target : VfsNode}
    (holds : TxInv host effects base scope held tx) (isFile : target.type = .file)
    (forever : target.expiresAt = none)
    (resolved : resolvePathInManager tx.db tx.rootId path.segments = some target) :
    Satisfies (persistNode host path ⟨target.id, target.version⟩) (fun _ after => Looked tx after)
      (fun _ => False) tx := by
  unfold persistNode
  rw [satisfies_bind]
  refine (lockFile_looks holds isFile resolved).imp ?_
  rintro ⟨parentId, _⟩ after ⟨rfl, looked⟩
  dsimp only
  rw [if_pos forever]
  exact looked

theorem setMimeTypeNode_looks {path : NodePath host} {target : VfsNode} {mimeType : JsString}
    (holds : TxInv host effects base scope held tx) (isFile : target.type = .file)
    (same : target.mimeType = some mimeType)
    (resolved : resolvePathInManager tx.db tx.rootId path.segments = some target) :
    Satisfies (setMimeTypeNode host path ⟨target.id, target.version⟩ mimeType)
      (fun _ after => Looked tx after) (fun _ => False) tx := by
  unfold setMimeTypeNode
  rw [satisfies_bind]
  refine (lockFile_looks holds isFile resolved).imp ?_
  rintro ⟨parentId, _⟩ after ⟨rfl, looked⟩
  dsimp only
  rw [if_pos same]
  exact looked

/-! ## Committing a look -/

section Finish

variable {α : Type} {value : α} {root : VfsNode} {now : Nat}
  {afterBump : MutationTx → α → List AffectedRevision → Except VfsError Unit}

theorem settledRow_of_looked (looked : Looked (.start db root.id now) tx) (node : VfsNode) :
    settledRow tx node = node := by
  rcases looked with ⟨feedBefore, rfl⟩
  have sameCount : counted (fun _ => 0) node = node := counted_zero rfl
  change bumped [] now (counted (fun _ => 0) node) = node
  rw [sameCount]
  exact if_neg List.not_mem_nil

theorem settled_of_looked (looked : Looked (.start db root.id now) tx) : tx.settled = tx := by
  have rows : tx.db.nodes.map (settledRow tx) = tx.db.nodes :=
    (List.map_congr_left fun node _ => settledRow_of_looked looked node).trans (List.map_id _)
  rcases looked with ⟨feedBefore, rfl⟩
  unfold MutationTx.settled
  rw [rows]
  simp [MutationTx.start]

theorem appendChangeFeedEvents_of_looked {before : NodeStates}
    (looked : Looked (.start db root.id now) tx) (done : TxDone host effects db scope [] tx)
    (isBefore : tx.feedBefore = some before) :
    appendChangeFeedEvents host before tx.changed.keys tx = .ok ((), tx) := by
  have raisable : Raisable tx.db.nodes tx.raisedIds := by
    rcases looked with ⟨feedBefore, rfl⟩
    exact fun _ _ inside => absurd inside List.not_mem_nil
  have sameRows : tx.db.nodes = db.nodes := by
    rcases looked with ⟨feedBefore, rfl⟩
    rfl
  have layout := done.layout_settled raisable
  rcases done.statesOf raisable isBefore with ⟨after, run, states⟩
  rw [settled_of_looked looked] at run states layout
  rcases changesOf_eq_ok states done.baseTree layout.tree layout.versions
    (changedAncestors before after) (nodup_unionKeys before after) with ⟨changes, isChanges, about⟩
  -- A change would be the difference of a node from itself.
  have isEmpty : changes = [] := by
    refine List.eq_nil_iff_forall_not_mem.mpr fun change inside => ?_
    have same := about change.nodeId
    rw [sameRows, differenceOf_self, Option.toList_none, ite_self, List.map_eq_nil_iff,
      List.filter_eq_nil_iff] at same
    exact same change inside (by simp)
  unfold appendChangeFeedEvents
  rw [bind_of_ok (rfl : state tx = .ok (tx, tx)), run]
  refine (bind_of_ok rfl).trans ?_
  rw [isChanges]
  refine (bind_of_ok rfl).trans ?_
  rw [if_pos isEmpty]
  rfl

theorem finish_of_looked (looked : Looked (.start db root.id now) tx)
    (done : TxDone host effects db scope [] tx) (accepts : afterBump tx value [] = .ok ()) :
    finish host afterBump value tx = .ok ([], tx) := by
  have counters : applyNodeCounters host tx = .ok ((), tx) := by
    rcases looked with ⟨feedBefore, rfl⟩
    rfl
  have bytes : applyLogicalByteQuota host tx = .ok ((), tx) := by
    rcases looked with ⟨feedBefore, rfl⟩
    rfl
  have versions : bumpAndReadChangedNodes host tx = .ok ([], tx) := by
    rcases looked with ⟨feedBefore, rfl⟩
    have noChunks : ∀ size, chunked (size + 1) ([] : List Uuid) = [] := by
      intro size
      simp [chunked]
    have noRows : captureChangeFeedNodes host db.nodes [] .empty = .ok .empty := by
      unfold captureChangeFeedNodes findNodesIn
      rw [noChunks]
      rfl
    unfold bumpAndReadChangedNodes
    refine (bind_of_ok rfl).trans ?_
    refine (bind_of_ok
      (congrArg (fun chunks => forEach bumpChunk chunks _) (noChunks 499))).trans ?_
    refine (bind_of_ok rfl).trans ?_
    refine (bind_of_ok (congrArg (fun states => lift states _) noRows)).trans ?_
    rfl
  have hook : (lift (afterBump tx value []) : Mutating Unit) tx = .ok ((), tx) := by
    rw [accepts]
    rfl
  unfold finish
  rw [bind_of_ok counters, bind_of_ok bytes, bind_of_ok versions,
    bind_of_ok (rfl : state tx = .ok (tx, tx)), bind_of_ok hook]
  cases isBefore : tx.feedBefore with
  | none => rfl
  | some before =>
      dsimp only
      rw [bind_of_ok (appendChangeFeedEvents_of_looked looked done isBefore)]
      rfl

end Finish

/-! ## Requests that change nothing -/

/-- The tables that a request that changes nothing has to leave alone. -/
structure SameTables (db next : Database) : Prop where
  nodes : next.nodes = db.nodes
  namespaceRow : next.namespaceRow = db.namespaceRow
  blobs : next.blobs = db.blobs
  feedState : next.feedState = db.feedState
  feedEvents : next.feedEvents = db.feedEvents

def Mutation.LeavesNoTrace (mutation : Mutation host) (now : Nat) (db : Database) : Prop :=
  ∀ afterBump, (∀ tx revisions, afterBump tx () revisions = .ok ()) →
    ∃ committed, mutation.run now afterBump db = .ok committed ∧ SameTables db committed.db

inductive Idle (host : Host) (db : Database) (now : Nat) : Mutation host → Prop
  | touch {path : NodePath host} {parents : Bool} {root : VfsNode} {tx : MutationTx}
      (isRoot : db.findRoot = some root)
      (returns : touchFile host path.segments parents none (.start db root.id now) =
        .ok (⟨.absent, none⟩, tx)) :
      Idle host db now (.touch path parents none)
  | mkdir {path : NodePath host} {root node : VfsNode} (isRoot : db.findRoot = some root)
      (existing : resolvePathInManager db root.id path.segments = some node)
      (isDirectory : node.type = .directory) :
      Idle host db now (.mkdir path true)
  | persist {path : NodePath host} {root node : VfsNode} (isRoot : db.findRoot = some root)
      (existing : resolvePathInManager db root.id path.segments = some node)
      (isFile : node.type = .file) (forever : node.expiresAt = none) :
      Idle host db now (.conditional (.persist path ⟨node.id, node.version⟩))
  | setMimeType {path : NodePath host} {mimeType : JsString} {root node : VfsNode}
      (isRoot : db.findRoot = some root)
      (existing : resolvePathInManager db root.id path.segments = some node)
      (isFile : node.type = .file) (same : node.mimeType = some mimeType) :
      Idle host db now (.conditional (.setMimeType path ⟨node.id, node.version⟩ mimeType))
  | extract {request : ExtractRequest host} {root node : VfsNode}
      (isRoot : db.findRoot = some root)
      (existing : resolvePathInManager db root.id request.destination.segments = some node)
      (isDirectory : node.type = .directory) (overwrites : request.mode = .overwrite)
      (named : ∀ revision, request.destinationRevision = some revision →
        revision = ⟨node.id, node.version⟩)
      (selects : planEntries host (.create request.tarLike request.destination.segments
        request.excludes request.mimeTypes) request.source = .ok []) :
      Idle host db now (.extract request)

def Mutation.looksFirst : Mutation host → Bool
  | .mkdir _ _ => true
  | .conditional _ => true
  | _ => false

section Idle

variable {mutation : Mutation host} {root : VfsNode} {now : Nat}

theorem Reachable.run_eq (reached : Reachable host db) (isRoot : db.findRoot = some root)
    (isActive : mutation.allowInactive = false)
    (afterBump : MutationTx → Unit → List AffectedRevision → Except VfsError Unit) :
    mutation.run now afterBump db =
      match mutation.work (.start db root.id now) with
      | .error error => .error error
      | .ok (value, tx) =>
          match finish host afterBump value tx with
          | .error error => .error error
          | .ok (revisions, tx) => .ok ⟨value, revisions, tx.db⟩ := by
  rcases reached.consistent.layout with ⟨rootId, layout⟩
  have isDirectory : root.type = .directory := by
    rcases layout.exists_root with ⟨other, member, same, top, isDirectory⟩
    have found : PathOf db.nodes root.id [] :=
      PathTo.root (List.mem_map_of_mem (List.mem_of_find?_eq_some isRoot))
        (by simpa using List.find?_some isRoot)
    have sameId := PathTo.injective layout.tree found layout.root
    rw [layout.tree.eq_of_id (List.mem_of_find?_eq_some isRoot) member (sameId.trans same.symm)]
    exact isDirectory
  have locked : lockNamespaceRoot db false = .ok root := by
    unfold lockNamespaceRoot
    rw [isRoot]
    exact if_pos isDirectory
  have active : assertNamespaceActive db = .ok () := if_pos reached.active
  unfold Mutation.run withMutation
  rw [isActive, locked]
  dsimp only
  rw [if_neg Bool.false_ne_true, active]
  dsimp only
  cases mutation.work (.start db root.id now) with
  | error error => rfl
  | ok pair => rfl

theorem leavesNoTrace_of_looks (reached : Reachable host db) (isRoot : db.findRoot = some root)
    (isActive : mutation.allowInactive = false)
    (looks : Satisfies mutation.work (fun _ after => Looked (.start db root.id now) after)
      (fun _ => False) (.start db root.id now)) : mutation.LeavesNoTrace now db := by
  intro afterBump accepts
  have spec := mutation.work_from_start reached.consistent isRoot now
  rw [reached.run_eq isRoot isActive]
  cases worked : mutation.work (.start db root.id now) with
  | error error => exact (looks.of_error worked).elim
  | ok pair =>
      rcases pair with ⟨value, after⟩
      have looked := looks.of_ok worked
      have finished := finish_of_looked looked (spec.of_ok worked) (accepts after [])
      have sameDb : after.db = db := by
        rcases looked with ⟨_, rfl⟩
        rfl
      refine ⟨⟨(), [], db⟩, ?_, ⟨rfl, rfl, rfl, rfl, rfl⟩⟩
      dsimp only
      rw [finished]
      dsimp only
      rw [sameDb]

theorem not_sameTables_of_marks {committed : Committed Unit}
    {afterBump : MutationTx → Unit → List AffectedRevision → Except VfsError Unit}
    (consistent : Consistent host db) (isRoot : db.findRoot = some root)
    (marks : Satisfies mutation.work (fun _ after => ∃ id, after.changed.get id ≠ none)
      (fun _ => True) (.start db root.id now))
    (result : mutation.run now afterBump db = .ok committed) : committed.db.nodes ≠ db.nodes := by
  rcases Mutation.run_eq_ok consistent result with ⟨tx, ⟨⟨other, isOther, worked⟩, done⟩, finished⟩
  rw [isRoot] at isOther
  cases isOther
  rcases marks.of_ok worked with ⟨id, marked⟩
  have transition := finished.transition done
  rcases mem_nodeIds.mp (transition.live id marked) with ⟨node, member, rfl⟩
  intro same
  have raised := (transition.version consistent (same ▸ member) member rfl).1 marked
  omega

theorem touchFile_marks {path : NodePath host} (parents : Bool) (consistent : Consistent host db)
    (isRoot : db.findRoot = some root) :
    Satisfies (touchFile host path.segments parents none)
      (fun outcome after => outcome.kind = .absent → ∃ id, after.changed.get id ≠ none)
      (fun _ => True) (.start db root.id now) := by
  have holds : TxInv host .any db (aboveScope path.segments) [] (.start db root.id now) :=
    .initial consistent isRoot now _
  unfold touchFile
  rw [satisfies_bind]
  refine (lockParentChain_spec holds (fun _ => path.valid.of_prefix (List.dropLast_prefix _))
    fun _ front isFront => isFront).mono ?_ fun _ _ => trivial
  rintro parentId middle ⟨inv, _, locked, marked, _⟩
  rw [satisfies_bind]
  refine satisfies_lockTargetNode inv locked (fun _ _ => ⟨parentId, marked rfl⟩) ?_
  intro node feedBefore _ _ _ _ _ _ _ _
  dsimp only
  refine satisfies_ite.mpr ⟨fun _ => trivial, fun _ => ?_⟩
  rw [satisfies_bind, satisfies_state]
  refine satisfies_ite.mpr ⟨fun _ => trivial, fun _ => ?_⟩
  rw [satisfies_bind, satisfies_updateNode, satisfies_bind, satisfies_state]
  split
  · trivial
  · rw [satisfies_bind]
    exact satisfies_markChanged fun _ _ isAbsent => by cases isAbsent

theorem applyExtract_marks {plan : ExtractCommitPlan} {node : VfsNode}
    (consistent : Consistent host db) (isRoot : db.findRoot = some root)
    (nonempty : plan.destinationSegments ≠ [])
    (existing : resolvePathInManager db root.id plan.destinationSegments = some node)
    (overwrites : plan.mode = .overwrite) (selects : plan.entries = []) :
    Satisfies (applyExtract host plan) (fun _ after => ∃ id, after.changed.get id ≠ none) Expected
      (.start db root.id now) := by
  have holds : TxInv host .any db (aboveScope plan.destinationSegments) []
      (.start db root.id now) := .initial consistent isRoot now _
  unfold applyExtract
  rw [satisfies_bind, satisfies_lift]
  refine ⟨fun _ _ => ?_, fun error failed => assertPathSegments_expected failed⟩
  rw [satisfies_bind, satisfies_lift]
  refine ⟨fun _ _ => ?_, fun error failed => assertEntries_expected failed⟩
  rw [satisfies_bind]
  refine (lockParentChain_spec holds (fun isTrue => by cases isTrue)
    fun _ front isFront => isFront).imp ?_
  rintro parentId middle ⟨inv, grown, locked, _, _⟩
  have target := locked_target inv grown rfl holds.layout.root nonempty locked
  rw [satisfies_bind]
  refine satisfies_lockTargetNode inv locked (fun free => ?_) ?_
  · rw [free] at target
    cases target.trans existing
  · intro found feedBefore isFound _ _ _ reached tracked _ seen
    rw [dropLast_append_lastSegment nonempty] at reached
    refine satisfies_ite.mpr ⟨fun _ => trivial, fun _ => ?_⟩
    rw [satisfies_bind]
    refine satisfies_checkDestination ?_
    unfold prepareDestination
    dsimp only
    rw [if_neg (by simp [overwrites]), selects, satisfies_bind, satisfies_bind]
    refine satisfies_markAncestorChain (tracked.mono fun _ => pathScope_of_above) reached seen
      (fun front isFront => isFront) fun changed chained _ self _ => ?_
    exact ⟨found.id, self⟩

/-- Which of the requests that change nothing leave no trace: those that look before they mark.
A touch without a blob and an extract into an existing destination raise the version of the
root whenever they commit. -/
theorem idle_leaves_no_trace (reached : Reachable host db) (idle : Idle host db now mutation) :
    mutation.LeavesNoTrace now db ↔ mutation.looksFirst = true := by
  have consistent := reached.consistent
  have start : ∀ {root : VfsNode}, db.findRoot = some root →
      TxInv host .any db (fun _ => True) [] (.start db root.id now) :=
    fun isRoot => .initial consistent isRoot now _
  have rejects : ∀ {root : VfsNode}, db.findRoot = some root →
      Satisfies mutation.work (fun _ after => ∃ id, after.changed.get id ≠ none) (fun _ => True)
        (.start db root.id now) → ¬mutation.LeavesNoTrace now db := by
    intro root isRoot marks clean
    rcases clean (fun _ _ _ => .ok ()) fun _ _ => rfl with ⟨committed, result, same⟩
    exact not_sameTables_of_marks consistent isRoot marks result same.nodes
  cases idle with
  | touch isRoot returns =>
      refine iff_of_false (rejects isRoot (satisfies_ignore ?_)) nofun
      exact satisfies_of_eq returns ((touchFile_marks _ consistent isRoot).of_ok returns rfl)
  | mkdir isRoot existing isDirectory =>
      refine iff_of_true (leavesNoTrace_of_looks reached isRoot rfl (satisfies_ignore ?_)) rfl
      exact ensureDirectory_looks (start isRoot) (NodePath.nonempty _) isDirectory existing
  | persist isRoot existing isFile forever =>
      refine iff_of_true (leavesNoTrace_of_looks reached isRoot rfl (satisfies_ignore ?_)) rfl
      exact persistNode_looks (start isRoot) isFile forever existing
  | setMimeType isRoot existing isFile same =>
      refine iff_of_true (leavesNoTrace_of_looks reached isRoot rfl (satisfies_ignore ?_)) rfl
      exact setMimeTypeNode_looks (start isRoot) isFile same existing
  | extract isRoot existing isDirectory overwrites named selects =>
      refine iff_of_false (rejects isRoot ?_) nofun
      dsimp only [Mutation.work]
      rw [selects, satisfies_bind, satisfies_lift_ok]
      refine satisfies_ignore ?_
      refine (applyExtract_marks consistent isRoot (NodePath.nonempty _) existing overwrites
        rfl).mono
        (fun _ _ marked => marked) fun _ _ => trivial

end Idle

namespace Small

/-- To make `/d` where it is leaves the two nodes and the file at their versions. -/
theorem idle_leaves_no_trace_mkdir :
    ∃ committed, (Mutation.mkdir directory true).run 2 (fun _ _ _ => .ok ()) oneFile =
      .ok committed ∧ SameTables oneFile committed.db := by
  have idle : Idle Host.counting oneFile 2 (.mkdir directory true) := by
    cases existing : resolvePathInManager oneFile 0 directory.segments with
    | none => exact absurd existing (by decide +kernel)
    | some node =>
        refine .mkdir rfl existing ?_
        have isDirectory : (resolvePathInManager oneFile 0 directory.segments).map VfsNode.type =
            some .directory := by decide +kernel
        rw [existing] at isDirectory
        exact Option.some.inj isDirectory
  exact (idle_leaves_no_trace reachable_oneFile idle).mpr rfl _ fun _ _ => rfl

/-- A touch of `/d` in a new namespace answers that there is nothing, and raises the root. -/
theorem not_idle_leaves_no_trace :
    ¬∀ (db : Database) (now : Nat) (mutation : Mutation Host.counting),
      Reachable Host.counting db → Idle Host.counting db now mutation →
        mutation.LeavesNoTrace now db := by
  intro claimed
  have returns : ∃ tx, touchFile Host.counting directory.segments false none (.start empty 0 1) =
      .ok (⟨.absent, none⟩, tx) := ⟨_, rfl⟩
  rcases returns with ⟨tx, isAbsent⟩
  rcases claimed empty 1 (.touch directory false none) (.start 0 settings) (.touch rfl isAbsent)
    (fun _ _ _ => .ok ()) fun _ _ => rfl with ⟨committed, result, same⟩
  have raised :
      ((Mutation.touch directory false none).run 1 (fun _ _ _ => .ok ()) empty).toOption.map
      (fun committed => committed.db.nodes.map VfsNode.version) = some [2] := by decide +kernel
  rw [result] at raised
  have versions : committed.db.nodes.map VfsNode.version = [2] := Option.some.inj raised
  rw [same.nodes] at versions
  exact absurd versions (by decide)

end Small

end Storix
