import Storix.Results.Versions
import Storix.Persistence.Reads

/-! # Revision-consistent listing

A listing that reaches its last page returned the children that the directory had at the
first page. -/

namespace Storix

open Foundation

variable {host : Host} {db next : Database}

/-! ## The order of children -/

/-- `(left.name, left.id) < (right.name, right.id)` -/
def before (host : Host) (left right : VfsNodeRecord) : Prop :=
  if right.name = left.name then left.id < right.id else host.nameLe left.name right.name = true

instance (host : Host) : DecidableRel (before host) := fun _ _ => by
  unfold before
  infer_instance

theorem before_asymm {left right : VfsNodeRecord} (first : before host left right) :
    ¬before host right left := by
  unfold before at first ⊢
  by_cases same : right.name = left.name
  · rw [if_pos same] at first
    rw [if_pos same.symm]
    exact fun second => Nat.lt_asymm first second
  · rw [if_neg same] at first
    rw [if_neg (Ne.symm same)]
    exact fun second => same (host.nameLe_antisymm _ _ second first)

instance (host : Host) : Std.Total fun left right => childLe host left right = true where
  total := by
    intro left right
    unfold childLe
    by_cases same : left.name = right.name
    · simp only [same, if_true, decide_eq_true_eq]
      exact Nat.le_total _ _
    · simp only [if_neg same, if_neg (Ne.symm same)]
      simpa using host.nameLe_total left.name right.name

instance (host : Host) : IsTrans VfsNode fun left right => childLe host left right = true where
  trans := by
    intro left middle right first second
    unfold childLe at first second ⊢
    by_cases sameLeft : left.name = middle.name
    · rw [if_pos sameLeft] at first
      by_cases sameRight : middle.name = right.name
      · rw [if_pos sameRight] at second
        rw [if_pos (sameLeft.trans sameRight)]
        simp only [decide_eq_true_eq] at first second ⊢
        exact first.trans second
      · rw [if_neg sameRight] at second
        rw [if_neg (sameLeft ▸ sameRight), sameLeft]
        exact second
    · rw [if_neg sameLeft] at first
      by_cases sameRight : middle.name = right.name
      · rw [if_neg (sameRight ▸ sameLeft), ← sameRight]
        exact first
      · rw [if_neg sameRight] at second
        by_cases same : left.name = right.name
        · rw [← same] at second
          exact absurd (host.nameLe_antisymm _ _ first second) sameLeft
        · rw [if_neg same]
          exact host.nameLe_trans _ _ _ first second

def childRecords (host : Host) (nodes : List VfsNode) (id : Uuid) : List VfsNodeRecord :=
  (sortBy (childLe host) (nodes.filter fun node => node.parentId = some id)).map toRecord

theorem pairwise_children (host : Host) (tree : Rooted db.nodes) (id : Uuid) {rows : List VfsNode}
    (nodup : rows.Nodup) (children : ∀ node ∈ rows, node ∈ db.nodes ∧ node.parentId = some id) :
    ((sortBy (childLe host) rows).map toRecord).Pairwise (before host) := by
  rw [List.pairwise_map]
  have sorted := List.pairwise_insertionSort (fun left right => childLe host left right = true) rows
  have distinct : (sortBy (childLe host) rows).Nodup := (sortBy_perm _ _).nodup_iff.mpr nodup
  have both := sorted.and distinct
  refine both.imp_of_mem fun {left right} isLeft isRight facts => ?_
  have leftFacts := children left ((sortBy_perm _ _).mem_iff.mp isLeft)
  have rightFacts := children right ((sortBy_perm _ _).mem_iff.mp isRight)
  have apart : left.name ≠ right.name := fun same => facts.2
    (tree.eq_of_sibling leftFacts.1 rightFacts.1 leftFacts.2 rightFacts.2 same)
  have ordered := facts.1
  unfold childLe at ordered
  rw [if_neg apart] at ordered
  change if right.name = left.name then _ else _
  rw [if_neg (Ne.symm apart)]
  exact ordered

theorem Rooted.nodup {nodes : List VfsNode} (tree : Rooted nodes) : nodes.Nodup :=
  List.Nodup.of_map _ tree.ids_nodup

theorem eq_of_before (host : Host) {left right : List VfsNodeRecord} (same : left.Perm right)
    (leftSorted : left.Pairwise (before host)) (rightSorted : right.Pairwise (before host)) :
    left = right :=
  same.eq_of_pairwise (fun _ _ _ _ first second => absurd second (before_asymm first)) leftSorted
    rightSorted

theorem childRecords_filter (host : Host) (tree : Rooted db.nodes) (id : Uuid)
    (test : VfsNodeRecord → Bool) :
    (sortBy (childLe host)
      (db.nodes.filter fun node => node.parentId = some id ∧ test (toRecord node) = true)).map
        toRecord = (childRecords host db.nodes id).filter test := by
  have selected : (db.nodes.filter fun node => node.parentId = some id).filter
      (fun node => test (toRecord node)) =
      db.nodes.filter fun node => node.parentId = some id ∧ test (toRecord node) = true := by
    rw [List.filter_filter]
    refine List.filter_congr fun node _ => ?_
    by_cases below : node.parentId = some id
    · simp [below]
    · simp [below]
  refine eq_of_before host ?_ ?_ ?_
  · unfold childRecords
    rw [List.filter_map]
    refine ((sortBy_perm _ _).map _).trans (List.Perm.map _ ?_)
    rw [← selected]
    exact ((sortBy_perm _ _).filter _).symm
  · refine pairwise_children host tree id (tree.nodup.filter _) fun node isNode => ?_
    have parts := List.mem_filter.mp isNode
    simp only [decide_eq_true_eq] at parts
    exact ⟨parts.1, parts.2.1⟩
  · refine List.Pairwise.filter _
      (pairwise_children host tree id (tree.nodup.filter _) fun node isNode => ?_)
    have parts := List.mem_filter.mp isNode
    simp only [decide_eq_true_eq] at parts
    exact parts

theorem mem_childRecords {nodes : List VfsNode} {id : Uuid} {record : VfsNodeRecord} :
    record ∈ childRecords host nodes id ↔
      ∃ row ∈ nodes, row.parentId = some id ∧ toRecord row = record := by
  unfold childRecords
  rw [List.mem_map]
  constructor
  · rintro ⟨row, isRow, rfl⟩
    have parts := List.mem_filter.mp ((sortBy_perm _ _).mem_iff.mp isRow)
    exact ⟨row, parts.1, by simpa using parts.2, rfl⟩
  · rintro ⟨row, member, below, rfl⟩
    exact ⟨row, (sortBy_perm _ _).mem_iff.mpr (List.mem_filter.mpr ⟨member, by simpa using below⟩),
      rfl⟩

theorem childRecords_pairwise (host : Host) (tree : Rooted db.nodes) (id : Uuid) :
    (childRecords host db.nodes id).Pairwise (before host) := by
  refine pairwise_children host tree id (tree.nodup.filter _) fun node isNode => ?_
  have parts := List.mem_filter.mp isNode
  simp only [decide_eq_true_eq] at parts
  exact parts

theorem Steady.childRecords_eq {id : Uuid} (steady : Steady db next id) (oldTree : Rooted db.nodes)
    (tree : Rooted next.nodes) :
    childRecords host db.nodes id = childRecords host next.nodes id := by
  have oldSorted := childRecords_pairwise host oldTree id
  have sorted := childRecords_pairwise host tree id
  have distinct : ∀ {records : List VfsNodeRecord}, records.Pairwise (before host) →
      records.Nodup := fun ordered => ordered.imp fun first same => by
    subst same
    exact before_asymm first first
  refine eq_of_before host ?_ oldSorted sorted
  refine (List.perm_ext_iff_of_nodup (distinct oldSorted) (distinct sorted)).mpr fun record => ?_
  rw [mem_childRecords, mem_childRecords]
  exact steady.children record

/-! ## Pages -/

theorem filter_before_eq {front rest : List VfsNodeRecord} {last : VfsNodeRecord}
    (sorted : (front ++ last :: rest).Pairwise (before host)) :
    (front ++ last :: rest).filter (fun record => before host last record) = rest := by
  have parts := List.pairwise_append.mp sorted
  have behind := (List.pairwise_cons.mp parts.2.1).1
  have noFront : front.filter (fun record => before host last record) = [] := by
    refine List.filter_eq_nil_iff.mpr fun record isRecord => ?_
    have first := parts.2.2 record isRecord last List.mem_cons_self
    simpa using before_asymm first
  have notLast : ¬before host last last := fun first => before_asymm first first
  have allRest : rest.filter (fun record => before host last record) = rest :=
    List.filter_eq_self.mpr fun record isRecord => by simpa using behind record isRecord
  rw [List.filter_append, noFront, List.filter_cons_of_neg (by simpa using notLast), allRest,
    List.nil_append]

def afterToken (host : Host) (cursor : RevisionCursor) (record : VfsNodeRecord) : Bool :=
  if record.name = cursor.name then cursor.id < record.id
  else host.nameLe cursor.name record.name

def remaining (host : Host) (records : List VfsNodeRecord) : Option RevisionCursor →
    List VfsNodeRecord
  | none => records
  | some cursor => records.filter (afterToken host cursor)

structure PageOf (host : Host) (db : Database) (path : ResolvedPath host)
    (cursor : Option RevisionCursor) (limit : Nat) (directory : VfsNode)
    (page : RevisionPageResult) : Prop where
  member : directory ∈ db.nodes
  reached : PathOf db.nodes directory.id path.segments
  isDirectory : directory.type = .directory
  own : page.directoryRevision = ⟨directory.id, directory.version⟩
  revision : ∀ token, cursor = some token →
    token.directoryRevision = ⟨directory.id, directory.version⟩
  items : page.items = (remaining host (childRecords host db.nodes directory.id) cursor).take limit
  next : page.nextCursor =
    if limit < (remaining host (childRecords host db.nodes directory.id) cursor).length then
      page.items.getLast?.map fun last =>
        ⟨directory.id, ⟨directory.id, directory.version⟩, last.name, last.id⟩
    else none

/-- The errors of a page, by what the path names: a directory with another revision, no
node, or a node that is no directory. -/
inductive ListingError {host : Host} (db : Database) (path : ResolvedPath host)
    (stale : VfsNode → Prop) : VfsError → Prop
  | precondition {directory : VfsNode} (member : directory ∈ db.nodes)
      (reached : PathOf db.nodes directory.id path.segments)
      (isDirectory : directory.type = .directory) (isStale : stale directory)
      (current : PreconditionCurrent) :
      ListingError db path stale (.preconditionFailed path.canonical (some current))
  | missing (nothing : ∀ node ∈ db.nodes, ¬PathOf db.nodes node.id path.segments) :
      ListingError db path stale (.nodeNotFound path.canonical)
  | replaced {node : VfsNode} (member : node ∈ db.nodes)
      (reached : PathOf db.nodes node.id path.segments) (notDirectory : node.type ≠ .directory) :
      ListingError db path stale (.notDirectory path.canonical)

theorem ListingError.imp {path : ResolvedPath host} {stale other : VfsNode → Prop}
    {error : VfsError}
    (failed : ListingError db path stale error) (weaker : ∀ node, stale node → other node) :
    ListingError db path other error := by
  cases failed with
  | precondition member reached isDirectory isStale current =>
      exact .precondition member reached isDirectory (weaker _ isStale) current
  | missing nothing => exact .missing nothing
  | replaced member reached notDirectory => exact .replaced member reached notDirectory

theorem findRoot_path {root : VfsNode}
    (found : db.findRoot = some root) : PathOf db.nodes root.id [] :=
  PathTo.root (List.mem_map_of_mem (List.mem_of_find?_eq_some found))
    (by simpa using List.find?_some found)

theorem Consistent.exists_findRoot (consistent : Consistent host db) :
    ∃ root, db.findRoot = some root := by
  rcases consistent.layout with ⟨rootId, layout⟩
  rcases layout.exists_root with ⟨root, member, _, top, _⟩
  cases found : db.findRoot with
  | some root => exact ⟨root, rfl⟩
  | none =>
      have refused := List.find?_eq_none.mp found root member
      simp [top] at refused

theorem pageOf_take {path : ResolvedPath host} {cursor : Option RevisionCursor} {limit : Nat}
    {directory : VfsNode} {found : List VfsNode} (member : directory ∈ db.nodes)
    (reached : PathOf db.nodes directory.id path.segments)
    (isDirectory : directory.type = .directory)
    (fresh : ¬(cursor.any fun cursor =>
      cursor.directoryRevision ≠ ⟨directory.id, directory.version⟩) = true)
    (rows : found.map toRecord =
      remaining host (childRecords host db.nodes directory.id) cursor) :
    PageOf host db path cursor limit directory
      { directoryRevision := ⟨directory.id, directory.version⟩
        items := (if limit < (found.take (limit + 1)).length then
          (found.take (limit + 1)).take limit else found.take (limit + 1)).map toRecord
        nextCursor :=
          if limit < (found.take (limit + 1)).length then
            (if limit < (found.take (limit + 1)).length then
              (found.take (limit + 1)).take limit else found.take (limit + 1)).getLast?.map
              fun last => ⟨directory.id, ⟨directory.id, directory.version⟩, last.name, last.id⟩
          else none } := by
  have more : limit < (found.take (limit + 1)).length ↔
      limit < (remaining host (childRecords host db.nodes directory.id) cursor).length := by
    rw [← rows, List.length_map, List.length_take]
    omega
  have page : (if limit < (found.take (limit + 1)).length then
      (found.take (limit + 1)).take limit else found.take (limit + 1)) = found.take limit := by
    split
    · rw [List.take_take, Nat.min_eq_left (Nat.le_succ _)]
    · rename_i short
      rw [List.length_take] at short
      rw [List.take_of_length_le (by omega), List.take_of_length_le (by omega)]
  refine ⟨member, reached, isDirectory, rfl, fun token isToken => ?_, ?_, ?_⟩
  · rw [isToken] at fresh
    simpa using fresh
  · rw [page, List.map_take, rows]
  · simp only [more, List.getLast?_map, Option.map_map]
    rfl

theorem ls_spec (consistent : Consistent host db) (active : db.namespaceRow.status = .active)
    (path : ResolvedPath host) (cursor : Option RevisionCursor) (rawLimit : Option Nat) :
    (∀ page, ls host db path cursor rawLimit = .ok page →
      ∃ directory, PageOf host db path cursor (resolveLimit rawLimit) directory page) ∧
    ∀ error, ls host db path cursor rawLimit = .error error →
      ListingError db path (fun directory => ∃ token, cursor = some token ∧
        token.directoryRevision ≠ ⟨directory.id, directory.version⟩) error := by
  rcases consistent.exists_findRoot with ⟨root, isRoot⟩
  have rootReached := findRoot_path isRoot
  have tree := consistent.tree
  have required : requireRoot db = .ok root := by
    unfold requireRoot
    rw [if_neg (by simp [active]), isRoot]
  unfold ls listRevisionChildren
  rw [required]
  dsimp only
  cases resolved : resolvePathInManager db root.id path.segments with
  | none =>
      refine ⟨nofun, fun error failed => ?_⟩
      cases failed
      refine .missing fun node isNode isReached => ?_
      have found := (resolvePathInManager_eq_some_iff tree rootReached).mpr ⟨isNode, isReached⟩
      rw [resolved] at found
      cases found
  | some directory =>
      rcases (resolvePathInManager_eq_some_iff tree rootReached).mp resolved with ⟨member, reached⟩
      rcases consistent.layout with ⟨rootId, layout⟩
      have numbered := layout.versions directory member
      have encoded : encodeRevision directory.id directory.version = .ok _ :=
        encodeRevision_eq_ok numbered.1 numbered.2
      dsimp only
      by_cases isDirectory : directory.type ≠ .directory
      · rw [if_pos isDirectory]
        refine ⟨nofun, fun error failed => ?_⟩
        cases failed
        exact .replaced member reached isDirectory
      · rw [if_neg isDirectory, encoded]
        dsimp only
        by_cases stale : (cursor.any fun cursor =>
            cursor.directoryRevision ≠ ⟨directory.id, directory.version⟩) = true
        · rw [if_pos stale, currentOf, encoded]
          refine ⟨nofun, fun error failed => ?_⟩
          cases failed
          refine .precondition member reached (not_not.mp isDirectory) ?_ _
          rcases (Option.any_eq_true _ _).mp stale with ⟨token, isToken, differs⟩
          exact ⟨token, isToken, by simpa using differs⟩
        · rw [if_neg stale]
          dsimp only
          rw [encoded]
          dsimp only
          refine ⟨fun page isPage => ⟨directory, ?_⟩, nofun⟩
          have rows : (sortBy (childLe host) (db.nodes.filter fun node =>
              node.parentId = some directory.id ∧
                (cursor.all fun cursor => afterCursor host cursor node) = true)).map toRecord =
              remaining host (childRecords host db.nodes directory.id) cursor := by
            cases cursor with
            | none =>
                have all := childRecords_filter host tree directory.id fun _ => true
                rw [List.filter_true] at all
                exact all
            | some token => exact childRecords_filter host tree directory.id (afterToken host token)
          generalize sortBy (childLe host) (db.nodes.filter fun node =>
              node.parentId = some directory.id ∧
                (cursor.all fun cursor => afterCursor host cursor node) = true) = found
              at rows isPage
          cases isPage
          exact pageOf_take member reached (not_not.mp isDirectory) stale rows

/-! ## Following the cursors -/

/-- How a client that follows the cursors ends, and the tables that a failed page read. -/
inductive Outcome
  | finished
  | failed (db : Database) (error : VfsError)

theorem Outcome.failed_inj {db later : Database} {error other : VfsError}
    (same : Outcome.failed db error = .failed later other) : db = later ∧ error = other := by
  injection same with sameDb sameError
  exact ⟨sameDb, sameError⟩

theorem Outcome.finished_ne_failed (db : Database) (error : VfsError) :
    Outcome.finished ≠ .failed db error := by
  intro same
  injection same

/-- A client asks for page after page, with any page sizes and any committed transactions
in between. -/
inductive Follows (host : Host) (path : ResolvedPath host) :
    Database → Option RevisionCursor → List VfsNodeRecord → Outcome → Prop
  | failed {db : Database} {cursor : Option RevisionCursor} (rawLimit : Option Nat)
      {error : VfsError} (result : ls host db path cursor rawLimit = .error error) :
      Follows host path db cursor [] (.failed db error)
  | last {db : Database} {cursor : Option RevisionCursor} (rawLimit : Option Nat)
      {page : RevisionPageResult} (result : ls host db path cursor rawLimit = .ok page)
      (ends : page.nextCursor = none) : Follows host path db cursor page.items .finished
  | more {db later : Database} {cursor : Option RevisionCursor} (rawLimit : Option Nat)
      {page : RevisionPageResult} {token : RevisionCursor} {items : List VfsNodeRecord}
      {outcome : Outcome} (result : ls host db path cursor rawLimit = .ok page)
      (continues : page.nextCursor = some token) (between : Runs host db later)
      (rest : Follows host path later (some token) items outcome) :
      Follows host path db cursor (page.items ++ items) outcome

theorem Step.status (consistent : Consistent host db) (taken : Step host db next) :
    next.namespaceRow.status = db.namespaceRow.status := by
  cases taken with
  | mutation mutation now afterBump result =>
      rcases Mutation.run_eq_ok consistent result with ⟨tx, wrote, finished⟩
      rcases finished.tables with ⟨feedState, feedEvents, issued, _, isDb⟩
      rw [isDb]
      exact wrote.done.status
  | checkpoint issued =>
      rcases createChangeFeedCheckpoint_eq_ok issued with ⟨feed, rfl, _⟩
      rfl
  | prune cutoff batchSize pruned =>
      rcases pruneNamespacePrefix_tables pruned with ⟨feedState, feedEvents, rfl⟩
      rfl
  | collect ids orphaned => rfl

theorem Runs.status (consistent : Consistent host db) (run : Runs host db next) :
    next.namespaceRow.status = db.namespaceRow.status := by
  induction run with
  | refl => rfl
  | tail earlier taken induction =>
      exact (taken.status (earlier.consistent consistent)).trans induction

theorem Reachable.active (reached : Reachable host db) : db.namespaceRow.status = .active := by
  induction reached with
  | start now settings => rfl
  | step earlier taken induction => exact (taken.status earlier.consistent).trans induction

theorem Reachable.ls_finds (reached : Reachable host db) {path : ResolvedPath host}
    {directory : VfsNode} (member : directory ∈ db.nodes)
    (named : PathOf db.nodes directory.id path.segments) (isDirectory : directory.type = .directory)
    (cursor : Option RevisionCursor) (rawLimit : Option Nat) :
    ls host db path cursor rawLimit ≠ .error (.nodeNotFound path.canonical) ∧
      ls host db path cursor rawLimit ≠ .error (.notDirectory path.canonical) := by
  have failed := (ls_spec reached.consistent reached.active path cursor rawLimit).2
  have tree := reached.consistent.tree
  constructor
  · intro missing
    cases failed _ missing with
    | missing nothing => exact nothing directory member named
  · intro replaced
    cases failed _ replaced with
    | replaced other otherNamed notDirectory =>
        rw [tree.eq_of_id other member (PathTo.injective tree otherNamed named)] at notDirectory
        exact notDirectory isDirectory

theorem remaining_next {records page rest : List VfsNodeRecord} {last : VfsNodeRecord}
    {token : RevisionCursor} (sorted : records.Pairwise (before host))
    {cursor : Option RevisionCursor}
    (shown : remaining host records cursor = page ++ rest) (isLast : page.getLast? = some last)
    (name : token.name = last.name) (id : token.id = last.id)
    (suffix : remaining host records cursor <:+ records) :
    remaining host records (some token) = rest := by
  rcases suffix with ⟨front, whole⟩
  rcases List.getLast?_eq_some_iff.mp isLast with ⟨start, rfl⟩
  have isRecords : records = (front ++ start) ++ last :: rest := by
    rw [← whole, shown]
    simp
  have after : remaining host records (some token) =
      records.filter fun record => before host last record := by
    refine List.filter_congr fun record _ => ?_
    unfold afterToken before
    rw [name, id]
    by_cases same : record.name = last.name
    · simp [same]
    · simp [same]
  rw [after, isRecords]
  exact filter_before_eq (isRecords ▸ sorted)

/-- A page under the revision of the first page shows the children of the first page. -/
theorem PageOf.sameChildren {first : Database} {path : ResolvedPath host}
    {directory found : VfsNode} {cursor : Option RevisionCursor} {limit : Nat}
    {page : RevisionPageResult} (consistent : Consistent host first) (run : Runs host first db)
    (member : directory ∈ first.nodes)
    (token : ∀ token, cursor = some token →
      token.directoryRevision = ⟨directory.id, directory.version⟩)
    (listed : PathOf first.nodes directory.id path.segments) (fresh : cursor = none → db = first)
    (isPage : PageOf host db path cursor limit found page) :
    found.id = directory.id ∧ found.version = directory.version ∧
      childRecords host db.nodes found.id = childRecords host first.nodes directory.id := by
  cases cursor with
  | none =>
      cases fresh rfl
      have sameId := PathTo.injective consistent.tree isPage.reached listed
      rw [consistent.tree.eq_of_id isPage.member member sameId]
      exact ⟨rfl, rfl, rfl⟩
  | some cursor =>
      have same := (token cursor rfl).symm.trans (isPage.revision cursor rfl)
      have sameId : directory.id = found.id := congrArg Revision.id same
      have sameVersion : directory.version = found.version := congrArg Revision.version same
      have steady := run.steady consistent member isPage.member sameId sameVersion
      refine ⟨sameId.symm, sameVersion.symm, ?_⟩
      rw [← sameId]
      exact (steady.childRecords_eq consistent.tree (run.consistent consistent).tree).symm

/-- The path named another directory at the first page, or this one with another revision. -/
def Changed (first : Database) (path : ResolvedPath host) (directory : VfsNode) : Prop :=
  ∀ old ∈ first.nodes, PathOf first.nodes old.id path.segments →
    Revision.mk old.id old.version ≠ ⟨directory.id, directory.version⟩

/-- Where the first page starts the listing of this directory, and the run goes on from its
token. -/
theorem Follows.spec {first : Database} {path : ResolvedPath host} {directory : VfsNode}
    (consistent : Consistent host first) (active : first.namespaceRow.status = .active)
    (member : directory ∈ first.nodes) (listed : PathOf first.nodes directory.id path.segments)
    {cursor : Option RevisionCursor}
    {items : List VfsNodeRecord} {outcome : Outcome} (run : Runs host first db)
    (token : ∀ token, cursor = some token →
      token.directoryRevision = ⟨directory.id, directory.version⟩)
    (fresh : cursor = none → db = first)
    (suffix : remaining host (childRecords host first.nodes directory.id) cursor <:+
      childRecords host first.nodes directory.id)
    (follows : Follows host path db cursor items outcome) :
    (outcome = .finished →
      items = remaining host (childRecords host first.nodes directory.id) cursor) ∧
    ∀ last error, outcome = .failed last error →
      Runs host first last ∧ ListingError last path (Changed first path) error := by
  induction follows with
  | failed rawLimit result =>
      refine ⟨fun isFinished => absurd isFinished.symm (Outcome.finished_ne_failed _ _),
        fun last error isError => ?_⟩
      rcases Outcome.failed_inj isError with ⟨rfl, rfl⟩
      have failed := (ls_spec (run.consistent consistent) ((run.status consistent).trans active)
        path _ rawLimit).2 _ result
      refine ⟨run, failed.imp fun found isStale old isOld isReached => ?_⟩
      rcases isStale with ⟨cursor, isCursor, differs⟩
      have sameId := PathTo.injective consistent.tree isReached listed
      rw [consistent.tree.eq_of_id isOld member sameId, ← token cursor isCursor]
      exact differs
  | @last db cursor rawLimit page result ends =>
      refine ⟨fun _ => ?_, fun _ _ isError => absurd isError (Outcome.finished_ne_failed _ _)⟩
      have spec := ls_spec (run.consistent consistent) ((run.status consistent).trans active) path
        cursor rawLimit
      rcases spec.1 page result with ⟨found, isPage⟩
      have same := (isPage.sameChildren consistent run member token listed fresh).2.2
      have positive := resolveLimit_pos rawLimit
      have next := isPage.next
      rw [isPage.items, same]
      rw [ends, isPage.items, same] at next
      split at next
      · rename_i long
        have nonempty : ((remaining host (childRecords host first.nodes directory.id) cursor).take
            (resolveLimit rawLimit)) ≠ [] := by
          rw [Ne, List.take_eq_nil_iff]
          rintro (zero | isNil)
          · omega
          · rw [isNil] at long
            cases long
        rw [List.getLast?_eq_some_getLast nonempty] at next
        cases next
      · rename_i short
        exact List.take_of_length_le (Nat.not_lt.mp short)
  | @more db later cursor rawLimit page token' items outcome result continues between rest
      induction =>
      have spec := ls_spec (run.consistent consistent) ((run.status consistent).trans active) path
        cursor rawLimit
      rcases spec.1 page result with ⟨found, isPage⟩
      rcases isPage.sameChildren consistent run member token listed fresh with
        ⟨sameId, sameVersion, same⟩
      have next := isPage.next
      have isItems := isPage.items
      rw [same] at isItems
      rw [continues, same] at next
      split at next
      · cases isLast : page.items.getLast? with
        | none =>
            rw [isLast] at next
            cases next
        | some last =>
            rw [isLast] at next
            have isToken := Option.some.inj next
            have shown : remaining host (childRecords host first.nodes directory.id) cursor =
                page.items ++ (remaining host (childRecords host first.nodes directory.id)
                  cursor).drop (resolveLimit rawLimit) := by
              rw [isItems, List.take_append_drop]
            have after := remaining_next (childRecords_pairwise host consistent.tree directory.id)
              shown isLast (congrArg RevisionCursor.name isToken)
              (congrArg RevisionCursor.id isToken) suffix
            have nextSuffix : remaining host (childRecords host first.nodes directory.id)
                (some token') <:+ childRecords host first.nodes directory.id := by
              rw [after]
              exact (List.drop_suffix _ _).trans suffix
            have revision : ∀ token, some token' = some token →
                token.directoryRevision = ⟨directory.id, directory.version⟩ := by
              rintro token ⟨⟩
              rw [isToken, sameId, sameVersion]
            rcases induction (run.trans between) revision nofun nextSuffix with ⟨finished, failed⟩
            refine ⟨fun isFinished => ?_, failed⟩
            rw [finished isFinished, after]
            exact shown.symm
      · cases next

/-- Where the first page starts the listing, its directory is the one that is listed. -/
theorem Follows.outcome_spec (consistent : Consistent host db)
    (active : db.namespaceRow.status = .active) {path : ResolvedPath host}
    {items : List VfsNodeRecord} {outcome : Outcome}
    (follows : Follows host path db none items outcome) :
    (outcome = .finished → ∃ directory ∈ db.nodes,
      PathOf db.nodes directory.id path.segments ∧
      items = childRecords host db.nodes directory.id) ∧
    ∀ last error, outcome = .failed last error →
      Runs host db last ∧ ListingError last path (Changed db path) error := by
  have whole : ∀ rawLimit page, ls host db path none rawLimit = .ok page →
      (outcome = .finished → ∃ directory ∈ db.nodes,
        PathOf db.nodes directory.id path.segments ∧
        items = childRecords host db.nodes directory.id) ∧
      ∀ last error, outcome = .failed last error →
        Runs host db last ∧ ListingError last path (Changed db path) error := by
    intro rawLimit page result
    rcases (ls_spec consistent active path none rawLimit).1 page result with ⟨directory, isPage⟩
    rcases follows.spec consistent active isPage.member isPage.reached (.refl db)
      (fun _ isToken => by cases isToken) (fun _ => rfl) (List.suffix_refl _) with
      ⟨finished, failed⟩
    exact ⟨fun isFinished => ⟨directory, isPage.member, isPage.reached, finished isFinished⟩,
      failed⟩
  cases follows with
  | failed rawLimit result =>
      refine ⟨fun isFinished => absurd isFinished.symm (Outcome.finished_ne_failed _ _),
        fun last error isError => ?_⟩
      rcases Outcome.failed_inj isError with ⟨rfl, rfl⟩
      refine ⟨.refl db, ((ls_spec consistent active path none rawLimit).2 _ result).imp ?_⟩
      intro directory isStale
      rcases isStale with ⟨token, isToken, _⟩
      cases isToken
  | last rawLimit result ends => exact whole rawLimit _ result
  | more rawLimit result continues between rest => exact whole rawLimit _ result

/-- Following the cursors ends with the directory's children as they were at the first page,
or fails: with a failed precondition where the path names another directory now or one whose
revision has changed, with a missing node where it names none, and with no directory where it
names a file. -/
theorem listing_is_snapshot (reached : Reachable host db) (path : ResolvedPath host)
    {items : List VfsNodeRecord} {outcome : Outcome}
    (follows : Follows host path db none items outcome) :
    (outcome = .finished → ∃ directory ∈ db.nodes,
      PathOf db.nodes directory.id path.segments ∧
      items.Pairwise (before host) ∧
      ∀ record, record ∈ items ↔
        ∃ child ∈ db.nodes, child.parentId = some directory.id ∧ toRecord child = record) ∧
    ∀ last error, outcome = .failed last error →
      Runs host db last ∧ ListingError last path (Changed db path) error := by
  have consistent := reached.consistent
  rcases follows.outcome_spec consistent reached.active with ⟨finished, failed⟩
  refine ⟨fun isFinished => ?_, failed⟩
  rcases finished isFinished with ⟨directory, member, found, rfl⟩
  exact ⟨directory, member, found, childRecords_pairwise host consistent.tree directory.id,
    fun _ => mem_childRecords⟩

namespace Small

/-- `/d/g` -/
def second : NodePath Host.counting :=
  ⟨⟨[[0x64], [0x67]], by decide +kernel⟩, by simp⟩

def twoFiles : Database :=
  (Mutation.put second true blob none false none).after 2 oneFile

theorem reachable_twoFiles : Reachable Host.counting twoFiles := reachable_oneFile.after _ 2

def firstPage : Except VfsError RevisionPageResult :=
  ls Host.counting twoFiles directory.toResolvedPath none (some 1)

def token : RevisionCursor where
  directoryId := 1
  directoryRevision := ⟨1, 2⟩
  name := [0x66]
  id := 3

def emptied : Database := (Mutation.remove directory true 100).after 3 twoFiles

theorem firstPage_continues :
    firstPage.toOption.map (fun page => (page.items.map VfsNodeRecord.id, page.nextCursor)) =
      some ([3], some token) := by decide +kernel

end Small

/-- One page of one file, then the other one. -/
theorem listing_is_snapshot_twoFiles :
    ∃ items, Follows Host.counting Small.directory.toResolvedPath Small.twoFiles none items
        .finished ∧
      items.map VfsNodeRecord.id = [3, 5] ∧ items.Pairwise (before Host.counting) := by
  have first := Small.firstPage_continues
  have last : (ls Host.counting Small.twoFiles Small.directory.toResolvedPath (some Small.token)
      (some 1)).toOption.map (fun page => (page.items.map VfsNodeRecord.id, page.nextCursor)) =
        some ([5], none) := by decide +kernel
  unfold Small.firstPage at first
  cases firstResult : ls Host.counting Small.twoFiles Small.directory.toResolvedPath none
      (some 1) with
  | error error =>
      rw [firstResult] at first
      cases first
  | ok page =>
      cases lastResult : ls Host.counting Small.twoFiles Small.directory.toResolvedPath
          (some Small.token) (some 1) with
      | error error =>
          rw [lastResult] at last
          cases last
      | ok lastPage =>
          rw [firstResult] at first
          rw [lastResult] at last
          have firstFacts := Prod.mk.inj (Option.some.inj first)
          have lastFacts := Prod.mk.inj (Option.some.inj last)
          have follows : Follows Host.counting Small.directory.toResolvedPath Small.twoFiles none
              (page.items ++ lastPage.items) .finished :=
            .more (some 1) firstResult firstFacts.2 (.refl _)
              (.last (some 1) lastResult lastFacts.2)
          rcases (listing_is_snapshot Small.reachable_twoFiles _ follows).1 rfl with
            ⟨_, _, _, ordered, _⟩
          refine ⟨_, follows, ?_, ordered⟩
          rw [List.map_append, firstFacts.1, lastFacts.1]
          rfl

/-- The directory is removed after the first page: the next page is not found, which is
neither the end of the listing nor a failed precondition. -/
theorem listing_after_remove_not_found :
    ¬∀ items outcome, Follows Host.counting Small.directory.toResolvedPath Small.twoFiles none items
        outcome →
      outcome = .finished ∨ ∃ last path current,
        outcome = .failed last (.preconditionFailed path current) := by
  intro claim
  have first := Small.firstPage_continues
  have last : (match ls Host.counting Small.emptied Small.directory.toResolvedPath
      (some Small.token) (some 1) with
      | .error error => error
      | .ok _ => .invalidCursor) = VfsError.nodeNotFound [0x2f, 0x64] := by decide +kernel
  unfold Small.firstPage at first
  cases firstResult : ls Host.counting Small.twoFiles Small.directory.toResolvedPath none
      (some 1) with
  | error error =>
      rw [firstResult] at first
      cases first
  | ok page =>
      rw [firstResult] at first
      have firstFacts := Prod.mk.inj (Option.some.inj first)
      cases lastResult : ls Host.counting Small.emptied Small.directory.toResolvedPath
          (some Small.token) (some 1) with
      | error error =>
          rw [lastResult] at last
          dsimp only at last
          subst last
          have follows := Follows.more (some 1) firstResult firstFacts.2 (Runs.after _ 3 _)
            (Follows.failed (some 1) lastResult)
          rcases claim _ _ follows with isFinished | ⟨_, path, current, isFailed⟩
          · exact Outcome.finished_ne_failed _ _ isFinished.symm
          · cases (Outcome.failed_inj isFailed).2
      | ok lastPage =>
          rw [lastResult] at last
          cases last

end Storix
