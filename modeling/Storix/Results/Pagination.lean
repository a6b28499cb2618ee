import Storix.Invariants.Runs
import Storix.Namespace.NamespaceList
import Storix.Persistence.Lists
import Storix.Results.Listing
import Storix.TextDecoding

/-! # Pagination

Following the cursors of a list from its first page ends with the whole list, each row once and
in order. Rows that come and go between the pages disturb none of the others. -/

namespace Storix

open Foundation

variable {host : Host} {db : Database}

/-! ## The orders of the lists -/

def nameOrder (host : Host) : KeyOrder (JsString × Uuid) :=
  (KeyOrder.ofLe host.nameLe host.nameLe_total host.nameLe_trans host.nameLe_antisymm).lex
    KeyOrder.nat

def newestOrder : KeyOrder (Nat × Uuid) := KeyOrder.nat.reverse.lex KeyOrder.nat

theorem childLe_iff (left right : VfsNode) :
    childLe host left right = true ↔
      (nameOrder host).before (right.name, right.id) (left.name, left.id) = false := by
  unfold childLe nameOrder KeyOrder.lex KeyOrder.ofLe KeyOrder.nat
  dsimp only
  by_cases same : left.name = right.name
  · simp [same]
  · have either := host.nameLe_total left.name right.name
    rw [if_neg same, if_neg (Ne.symm same)]
    cases forwards : host.nameLe left.name right.name with
    | true =>
        cases backwards : host.nameLe right.name left.name with
        | true => exact absurd (host.nameLe_antisymm _ _ forwards backwards) same
        | false => simp
    | false =>
        rw [forwards, Bool.false_or] at either
        simp [either, Ne.symm same]

theorem afterKeyset_eq (key : JsString × Uuid) (node : VfsNode) :
    afterKeyset host ⟨key.1, key.2⟩ node = (nameOrder host).before key (node.name, node.id) := by
  unfold afterKeyset nameOrder KeyOrder.lex KeyOrder.ofLe KeyOrder.nat
  dsimp only
  by_cases same : node.name = key.1
  · rw [if_pos same, if_pos same.symm]
  · rw [if_neg same, if_neg (Ne.symm same), decide_eq_true (Ne.symm same), Bool.true_and]

theorem newestLe_iff {α : Type} {time : α → Nat} {id : α → Uuid} (left right : α) :
    newestLe time id left right = true ↔
      newestOrder.before (time right, id right) (time left, id left) = false := by
  unfold newestLe newestOrder KeyOrder.lex KeyOrder.reverse KeyOrder.nat
  dsimp only
  by_cases same : time left = time right
  · simp [same]
  · rw [if_neg same, if_neg (Ne.symm same)]
    simp

theorem afterNewest_eq (keys : TimestampKeys) (key : Nat × Uuid) (time : Nat) (id : Uuid) :
    afterNewest keys (keys.key key.1) key.2 time id = newestOrder.before key (time, id) := by
  unfold afterNewest newestOrder KeyOrder.lex KeyOrder.reverse KeyOrder.nat
  rw [keys.isBefore_key, keys.isAt_key]
  dsimp only
  by_cases same : key.1 = time
  · simp [same]
  · simp [same, Ne.symm same]

/-! ## Directories and searches -/

theorem paginate_eq {α γ : Type} (rows : List α) (limit : Nat) (cursorOf : α → γ) :
    paginate rows limit cursorOf =
      (rows.take limit,
        if limit < rows.length then ((rows.take limit).getLast?).map cursorOf else none) := by
  unfold paginate
  by_cases more : limit < rows.length
  · simp only [if_pos more]
  · simp only [if_neg more]
    rw [List.take_of_length_le (by omega)]

def keysetCursor (key : JsString × Uuid) : KeysetCursor := ⟨key.1, key.2⟩

theorem resolveBelow_mem {segments : List JsString} {parentId : Uuid} {parentType : VfsNodeType}
    {node : Option VfsNode} {found : VfsNode}
    (member : ∀ start, node = some start → start ∈ db.nodes)
    (isFound : resolveBelow db segments parentId parentType node = some found) :
    found ∈ db.nodes := by
  induction segments generalizing parentId parentType node with
  | nil => exact member found isFound
  | cons segment rest induction =>
      rw [resolveBelow] at isFound
      split at isFound
      · cases isFound
      · split at isFound
        · cases isFound
        · rename_i child isChild
          refine induction (fun start isStart => ?_) isFound
          cases isStart
          exact List.mem_of_find?_eq_some isChild

theorem requireDirectory_mem {path : ResolvedPath host} {target : VfsNode}
    (found : requireDirectory db path = .ok target) : target ∈ db.nodes := by
  unfold requireDirectory requireRoot at found
  split at found
  · cases found
  · rename_i root isRoot
    split at isRoot
    · cases isRoot
    · split at isRoot
      · cases isRoot
      · rename_i other isOther
        cases isRoot
        have rootMember := List.mem_of_find?_eq_some isOther
        split at found
        · cases found
        · rename_i resolved isTarget
          split at found
          · cases found
          · cases found
            unfold resolveTarget at isTarget
            split at isTarget
            · cases isTarget
              exact rootMember
            · exact resolveBelow_mem (fun _ isStart => by cases isStart) isTarget

def lsWhole (host : Host) (path : ResolvedPath host) (db : Database) :
    Option (List VfsNodeRecord) :=
  (requireDirectory db path).toOption.map fun target => childRecords host db.nodes target.id

def lsFetch (host : Host) (path : ResolvedPath host) (db : Database)
    (cursor : Option KeysetCursor) (limit : Nat) :
    Option (List VfsNodeRecord × Option KeysetCursor) :=
  (lsPage host db path cursor (some limit)).toOption

theorem nodup_positions {α κ : Type} {rows : List α} (front : α → κ) {id : α → Uuid}
    (distinct : (rows.map id).Nodup) : (rows.map fun row => (front row, id row)).Nodup := by
  refine List.Nodup.of_map Prod.snd ?_
  rw [List.map_map]
  exact distinct

theorem toOption_eq_some {ε α : Type} {answer : Except ε α} {value : α}
    (same : answer.toOption = some value) : answer = .ok value := by
  cases answer with
  | error error => cases same
  | ok other =>
      cases same
      rfl

theorem paginates_ls (host : Host) (path : ResolvedPath host) :
    Paginates (lsFetch host path) (lsWhole host path) (Reachable host) := by
  have distinct : ∀ {db : Database}, Reachable host db → ∀ parentId,
      ((db.nodes.filter fun node => node.parentId = some parentId).map
        fun node => (node.name, node.id)).Nodup := fun reached parentId =>
    nodup_positions VfsNode.name
      (reached.consistent.tree.ids_nodup.sublist (List.filter_sublist.map VfsNode.id))
  refine paginates_of_isPage (nameOrder host) (fun record => (record.name, record.id)) keysetCursor
    ?_ ?_ ?_
  · intro db rows reached isWhole
    rcases Option.map_eq_some_iff.mp isWhole with ⟨target, _, rfl⟩
    have ordered := (nameOrder host).ordered_insertionSort childLe_iff
      (distinct reached target.id)
    exact List.pairwise_map.mpr ordered
  · intro db rows limit reached isWhole _ start
    rcases Option.map_eq_some_iff.mp isWhole with ⟨target, isTarget, rfl⟩
    have selects : ∀ node ∈ db.nodes.filter fun node => node.parentId = some target.id,
        ((start.map keysetCursor).all fun cursor => afterKeyset host cursor node) =
          (nameOrder host).after start (node.name, node.id) := by
      intro node _
      cases start with
      | none => rfl
      | some key => exact afterKeyset_eq key node
    have page := isPage_query childLe_iff (distinct reached target.id) selects
      (resolveLimit_pos (some limit)) rfl
    refine ⟨_, _, ?_, page.map toRecord⟩
    have rows : listChildren host db target.id (start.map keysetCursor)
        (resolveLimit (some limit)) = ((((db.nodes.filter fun node =>
          node.parentId = some target.id).filter fun node => (start.map keysetCursor).all
            fun cursor => afterKeyset host cursor node).insertionSort fun left right =>
              childLe host left right = true).take (resolveLimit (some limit) + 1)).map
                toRecord := by
      unfold listChildren sortBy
      rw [List.filter_filter]
      congr 3
      refine List.filter_congr fun node _ => ?_
      rw [Bool.decide_and, Bool.decide_eq_true, Bool.and_comm]
    rw [lsFetch, lsPage, toOption_eq_some isTarget]
    dsimp only
    rw [rows, paginate_eq, List.length_map, ← List.map_take, List.getLast?_map]
    simp only [Except.toOption, Option.map_map]
    congr 2
    split
    · rw [Option.map_map]
      rfl
    · rfl
  · intro db start limit isWhole
    have refused := Option.map_eq_none_iff.mp isWhole
    rw [lsFetch, lsPage]
    cases found : requireDirectory db path with
    | error error => rfl
    | ok target =>
        rw [found] at refused
        cases refused

def findRows (filter : FindFilter) (db : Database) (target : VfsNode) : List TreeRow :=
  (descendantRows db.nodes target).filter fun row => filter.accepts row.node

def findWhole (host : Host) (path : ResolvedPath host) (options : FindOptions) (db : Database) :
    Option (List TreeRow) :=
  (requireDirectory db path).toOption.map fun target =>
    sortBy (matchLe host) (findRows options.filter db target)

def findFetch (host : Host) (path : ResolvedPath host) (options : FindOptions) (db : Database)
    (cursor : Option KeysetCursor) (limit : Nat) : Option (List TreeRow × Option KeysetCursor) :=
  (find host db path options cursor (some limit)).toOption

theorem paginates_find (host : Host) (path : ResolvedPath host) (options : FindOptions) :
    Paginates (findFetch host path options) (findWhole host path options) (Reachable host) := by
  have isLe : ∀ left right : TreeRow, matchLe host left right = true ↔
      (nameOrder host).before (right.node.name, right.node.id) (left.node.name, left.node.id) =
        false := fun left right => childLe_iff left.node right.node
  refine paginates_of_query (fun limit => resolveLimit (some limit)) keysetCursor isLe ?_
    (fun limit _ => resolveLimit_pos (some limit)) ?_ ?_
  · intro db target reached found
    have nodup := nodup_subtreeRows reached.consistent.tree
      (requireDirectory_mem (toOption_eq_some found))
    rw [subtreeRows_eq_cons, List.map_cons, List.nodup_cons] at nodup
    exact nodup_positions (fun row : TreeRow => row.node.name)
      (nodup.2.sublist (List.filter_sublist.map _))
  · intro db start limit refused
    rw [findFetch, find]
    cases found : requireDirectory db path with
    | error error => rfl
    | ok target =>
        rw [found] at refused
        cases refused
  · intro db target limit found _ start
    refine ⟨fun row => (start.map keysetCursor).all fun cursor => afterKeyset host cursor row.node,
      fun row _ => ?_, ?_⟩
    · cases start with
      | none => rfl
      | some key => exact afterKeyset_eq key row.node
    · rintro rows isRows
      have same : findRecursive host db target options.filter (start.map keysetCursor)
          (resolveLimit (some limit)) = rows := by
        rw [isRows, findRecursive, sortBy, findRows, List.filter_filter]
        congr 3
        funext row
        exact Bool.and_comm _ _
      rw [findFetch, find, toOption_eq_some found]
      dsimp only
      rw [same, paginate_eq]
      rfl

/-! ## The trash and the snapshots -/

def trashWhole (read : Database × Nat) : Option (List TrashItem) :=
  (requireRoot read.1).toOption.map fun _ =>
    sortBy (newestLe TrashItem.deletedAt TrashItem.id)
      (read.1.trash.filter fun item => read.2 < item.expiresAt)

def trashFetch (keys : TimestampKeys) (read : Database × Nat) (after : Option TrashListBoundary)
    (limit : Nat) : Option (List TrashItem × Option TrashListBoundary) :=
  trashPage keys read.1 read.2 after (some limit)

theorem paginates_trash (host : Host) (keys : TimestampKeys) :
    Paginates (trashFetch keys) trashWhole fun read => Reachable host read.1 := by
  have isLe : ∀ left right : TrashItem,
      newestLe TrashItem.deletedAt TrashItem.id left right = true ↔
        newestOrder.before (right.deletedAt, right.id) (left.deletedAt, left.id) = false :=
    newestLe_iff
  refine paginates_of_query (fun limit => resolveLimit (some limit))
    (fun key => ⟨keys.key key.1, key.2⟩)
      isLe ?_ (fun limit _ => resolveLimit_pos (some limit)) ?_ ?_
  · intro read _ reached _
    exact nodup_positions TrashItem.deletedAt
      (reached.consistent.trash.nodes.keys.sublist (List.filter_sublist.map TrashItem.id))
  · intro read start limit refused
    rw [trashFetch, trashPage]
    cases found : requireRoot read.1 with
    | error error => rfl
    | ok root =>
        rw [found] at refused
        cases refused
  · intro read root limit found _ start
    refine ⟨fun item => (start.map fun key => (⟨keys.key key.1, key.2⟩ : TrashListBoundary)).all
      fun after => afterNewest keys after.deletedAtKey after.trashId item.deletedAt item.id,
      fun item _ => ?_, ?_⟩
    · cases start with
      | none => rfl
      | some key => exact afterNewest_eq keys key item.deletedAt item.id
    · intro rows isRows
      have inRange : ¬(resolveLimit (some limit) < 1 ∨ 1000 < resolveLimit (some limit)) := by
        have positive := resolveLimit_pos (some limit)
        have most := resolveLimit_le (some limit)
        unfold MAX_LIMIT at most
        omega
      have same : (sortBy (newestLe TrashItem.deletedAt TrashItem.id)
          (read.1.trash.filter fun item => decide (read.2 < item.expiresAt) &&
            (start.map fun key => (⟨keys.key key.1, key.2⟩ : TrashListBoundary)).all fun after =>
              afterNewest keys after.deletedAtKey after.trashId item.deletedAt item.id)).take
          (resolveLimit (some limit) + 1) = rows := by
        rw [isRows, sortBy, List.filter_filter]
        congr 3
        funext item
        exact Bool.and_comm _ _
      rw [trashFetch, trashPage, toOption_eq_some found]
      dsimp only
      rw [listTrash, if_neg inRange]
      dsimp only
      rw [same]

theorem length_filter_le_one {α κ : Type} {rows : List α} {key : α → κ}
    (distinct : (rows.map key).Nodup)
    (select : α → Bool) (value : κ) (selects : ∀ row ∈ rows, select row = true → key row = value) :
    (rows.filter select).length ≤ 1 := by
  have nodup : ((rows.filter select).map key).Nodup :=
    distinct.sublist (List.filter_sublist.map key)
  have constant : (rows.filter select).map key =
      List.replicate (rows.filter select).length value := by
    rw [List.eq_replicate_iff]
    refine ⟨List.length_map _, fun other member => ?_⟩
    rcases List.mem_map.mp member with ⟨row, isRow, rfl⟩
    rcases List.mem_filter.mp isRow with ⟨isMember, isSelected⟩
    exact selects row isMember isSelected
  rw [constant] at nodup
  exact List.nodup_replicate.mp nodup

/-- The join gives a snapshot once at most: it has one root entry, and that has one blob. -/
theorem length_fileSnapshotRows (consistent : Consistent host db) (snapshot : Snapshot) :
    (fileSnapshotRows db snapshot).length ≤ 1 := by
  have entries := length_filter_le_one consistent.snapshots.paths
    (fun entry => decide (entry.snapshotId = snapshot.id ∧ entry.relativePath = dot ∧
      entry.type = .file ∧ entry.sourceNodeId = snapshot.rootNodeId))
    (snapshot.id, dot) fun entry _ isSelected => by
      rw [decide_eq_true_iff] at isSelected
      rw [isSelected.1, isSelected.2.1]
  have blobs : ∀ entry : SnapshotEntry,
      (db.blobs.filter fun blob => entry.blobId = some blob.id).length ≤ 1 := by
    intro entry
    cases entry.blobId with
    | none => simp
    | some blobId =>
        refine length_filter_le_one consistent.refs.ids _ blobId fun blob _ isSelected => ?_
        rw [decide_eq_true_iff] at isSelected
        exact (Option.some.inj isSelected).symm
  unfold fileSnapshotRows
  generalize db.snapshotEntries.filter _ = found at entries
  match found, entries with
  | [], _ => exact Nat.zero_le _
  | [entry], _ =>
      rw [List.flatMap_singleton, List.length_map]
      exact blobs entry

theorem nodup_fileSnapshots (consistent : Consistent host db) :
    ((db.snapshots.flatMap (fileSnapshotRows db)).map fun row => row.snapshot.id).Nodup := by
  have once : ∀ snapshot, ((fileSnapshotRows db snapshot).map fun row => row.snapshot.id).Sublist
      [snapshot.id] := by
    intro snapshot
    have own : ∀ row ∈ fileSnapshotRows db snapshot, row.snapshot = snapshot := by
      intro row isRow
      rcases List.mem_flatMap.mp isRow with ⟨_, _, inBlobs⟩
      rcases List.mem_map.mp inBlobs with ⟨_, _, rfl⟩
      rfl
    have short := length_fileSnapshotRows consistent snapshot
    match fileSnapshotRows db snapshot, short, own with
    | [], _, _ => exact List.nil_sublist _
    | [row], _, own =>
        rw [List.map_singleton, own row (List.mem_singleton_self row)]
  have all : ∀ snapshots : List Snapshot,
      ((snapshots.flatMap (fileSnapshotRows db)).map fun row => row.snapshot.id).Sublist
        (snapshots.map Snapshot.id) := by
    intro snapshots
    induction snapshots with
    | nil => exact List.Sublist.refl _
    | cons snapshot rest induction =>
        rw [List.flatMap_cons, List.map_append, List.map_cons]
        exact (once snapshot).append induction
  exact consistent.snapshots.nodes.keys.sublist (all db.snapshots)

def fileSnapshots (rootNodeId : Uuid) (db : Database) : List FileSnapshotRow :=
  (db.snapshots.flatMap (fileSnapshotRows db)).filter fun row =>
    row.snapshot.rootNodeId = rootNodeId ∧ row.snapshot.kind = .file

def fileSnapshotWhole (rootNodeId : Uuid) (db : Database) : Option (List FileSnapshotRow) :=
  (requireRoot db).toOption.map fun _ =>
    sortBy (newestLe (fun row => row.snapshot.createdAt) fun row => row.snapshot.id)
      (fileSnapshots rootNodeId db)

def fileSnapshotFetch (keys : TimestampKeys) (rootNodeId : Uuid) (db : Database)
    (after : Option FileSnapshotListBoundary) (limit : Nat) :
    Option (List FileSnapshotRow × Option FileSnapshotListBoundary) :=
  fileSnapshotPage keys db rootNodeId after (some limit)

theorem paginates_fileSnapshots (host : Host) (keys : TimestampKeys) (rootNodeId : Uuid) :
    Paginates (fileSnapshotFetch keys rootNodeId) (fileSnapshotWhole rootNodeId)
      (Reachable host) := by
  have isLe : ∀ left right : FileSnapshotRow,
      newestLe (fun row => row.snapshot.createdAt) (fun row => row.snapshot.id) left right = true ↔
        newestOrder.before (right.snapshot.createdAt, right.snapshot.id)
          (left.snapshot.createdAt, left.snapshot.id) = false := newestLe_iff
  refine paginates_of_query (fun limit => resolveLimit (some limit))
    (fun key => ⟨keys.key key.1, key.2⟩)
      isLe ?_ (fun limit _ => resolveLimit_pos (some limit)) ?_ ?_
  · intro db _ reached _
    exact nodup_positions (fun row : FileSnapshotRow => row.snapshot.createdAt)
      ((nodup_fileSnapshots reached.consistent).sublist (List.filter_sublist.map _))
  · intro db start limit refused
    rw [fileSnapshotFetch, fileSnapshotPage]
    cases found : requireRoot db with
    | error error => rfl
    | ok root =>
        rw [found] at refused
        cases refused
  · intro db root limit found _ start
    refine ⟨fun row =>
      (start.map fun key => (⟨keys.key key.1, key.2⟩ : FileSnapshotListBoundary)).all fun after =>
        afterNewest keys after.createdAtKey after.snapshotId row.snapshot.createdAt row.snapshot.id,
      fun row _ => ?_, ?_⟩
    · cases start with
      | none => rfl
      | some key => exact afterNewest_eq keys key row.snapshot.createdAt row.snapshot.id
    · rintro rows rfl
      have inRange : ¬resolveLimit (some limit) < 1 := by
        have positive := resolveLimit_pos (some limit)
        omega
      rw [fileSnapshotFetch, fileSnapshotPage, toOption_eq_some found]
      dsimp only
      rw [listFileSnapshots, if_neg inRange]
      rfl

/-! ## The entries of a snapshot -/

theorem hexLetter_injective {left right : Nat} (leftSmall : left < 16) (rightSmall : right < 16)
    (same : Json.hexLetter left = Json.hexLetter right) : left = right := by
  have digits := congrArg Json.hexDigit same
  rw [Json.hexDigit_hexLetter _ leftSmall, Json.hexDigit_hexLetter _ rightSmall] at digits
  exact Option.some.inj digits

theorem hexText_injective {left right : List UInt8} (same : hexText left = hexText right) :
    left = right := by
  induction left generalizing right with
  | nil =>
      cases right with
      | nil => rfl
      | cons byte rest => cases same
  | cons byte rest induction =>
      cases right with
      | nil => cases same
      | cons other more =>
          unfold hexText at same
          rw [List.flatMap_cons, List.flatMap_cons] at same
          simp only [List.cons_append, List.nil_append, List.cons.injEq] at same
          have bound := byte.toNat_lt
          have otherBound := other.toNat_lt
          have high := hexLetter_injective (by omega) (by omega) same.1
          have low := hexLetter_injective (by omega) (by omega) same.2.1
          have isByte : byte = other := UInt8.toNat_inj.mp (by omega)
          rw [isByte, induction same.2.2]

def requireTree (snapshotId : Uuid) (db : Database) : Option Snapshot :=
  (requireRoot db).toOption.bind fun _ =>
    (db.snapshots.find? fun snapshot => snapshot.id == snapshotId).filter fun snapshot =>
      snapshot.kind = .tree

def snapshotEntryWhole (snapshotId : Uuid) (db : Database) : Option (List SnapshotEntry) :=
  (requireTree snapshotId db).map fun _ =>
    sortBy (fun left right => !JsString.before right.pathKey left.pathKey)
      (db.snapshotEntries.filter fun entry => entry.snapshotId = snapshotId)

def snapshotEntryFetch (snapshotId : Uuid) (db : Database) (after : Option JsString)
    (limit : Nat) : Option (List SnapshotEntry × Option JsString) :=
  snapshotEntryPage db snapshotId after (some limit)

theorem nodup_pathKeys (consistent : Consistent host db) (snapshotId : Uuid) :
    ((db.snapshotEntries.filter fun entry => entry.snapshotId = snapshotId).map
      SnapshotEntry.pathKey).Nodup := by
  refine List.Nodup.map_on ?_ ((List.Nodup.of_map _ consistent.snapshots.paths).filter _)
  intro left isLeft right isRight same
  rcases List.mem_filter.mp isLeft with ⟨leftMember, leftOwn⟩
  rcases List.mem_filter.mp isRight with ⟨rightMember, rightOwn⟩
  rw [decide_eq_true_iff] at leftOwn rightOwn
  refine List.inj_on_of_nodup_map consistent.snapshots.paths leftMember rightMember ?_
  have samePath := JsString.utf8_injective (consistent.snapshots.paired left leftMember)
    (consistent.snapshots.paired right rightMember) (hexText_injective same)
  rw [leftOwn, rightOwn, samePath]

theorem paginates_snapshotEntries (host : Host) (snapshotId : Uuid) :
    Paginates (snapshotEntryFetch snapshotId) (snapshotEntryWhole snapshotId)
      (Reachable host) := by
  have isLe : ∀ left right : SnapshotEntry,
      (!JsString.before right.pathKey left.pathKey) = true ↔
        textOrder.before right.pathKey left.pathKey = false := by
    intro left right
    rw [Bool.not_eq_true']
    rfl
  refine paginates_of_query (fun limit => resolveLimit (some limit)) id isLe ?_
    (fun limit _ => resolveLimit_pos (some limit)) ?_ ?_
  · intro db _ reached _
    exact nodup_pathKeys reached.consistent snapshotId
  · intro db start limit refused
    rw [snapshotEntryFetch, snapshotEntryPage]
    unfold requireTree at refused
    cases found : requireRoot db with
    | error error => rfl
    | ok root =>
        rw [found] at refused
        dsimp only
        cases isSnapshot : db.snapshots.find? fun snapshot => snapshot.id == snapshotId with
        | none => rfl
        | some snapshot =>
            rw [isSnapshot] at refused
            dsimp only
            rw [if_pos]
            intro isTree
            simp [Except.toOption, isTree] at refused
  · intro db snapshot limit found _ start
    refine ⟨fun entry => (start.map id).all fun after => JsString.before after entry.pathKey,
      fun entry _ => ?_, ?_⟩
    · cases start with
      | none => rfl
      | some key => rfl
    · rintro rows rfl
      have inRange : ¬resolveLimit (some limit) < 1 := by
        have positive := resolveLimit_pos (some limit)
        omega
      rcases Option.bind_eq_some_iff.mp found with ⟨root, isRoot, isTree⟩
      rcases Option.filter_eq_some_iff.mp isTree with ⟨isSnapshot, isKind⟩
      rw [decide_eq_true_iff] at isKind
      rw [snapshotEntryFetch, snapshotEntryPage, toOption_eq_some isRoot]
      dsimp only
      rw [isSnapshot]
      dsimp only
      rw [if_neg (not_not.mpr isKind), listSnapshotEntries, if_neg inRange]
      rfl

/-! ## The list of namespaces -/

namespace NamespaceColumns

variable (columns : NamespaceColumns) {rows : List NamespaceEntity}

def listCursor (key : Option JsString × NamespaceId) : NamespaceListCursor := ⟨key.1, key.2⟩

theorem isNameLe (left right : NamespaceEntity) :
    columns.nameLe left right = true ↔
      columns.order.before (position right) (position left) = false := by
  unfold nameLe
  rw [Bool.not_eq_true']

theorem before_unnamed (left right : NamespaceId) :
    columns.order.before (none, left) (none, right) = columns.ids.before left right := by
  rw [order, KeyOrder.lex_before, if_pos rfl]

theorem named_before_unnamed (name : JsString) (left right : NamespaceId) :
    columns.order.before (some name, left) (none, right) = true := by
  rw [order, KeyOrder.lex_before, if_neg nofun]
  rfl

theorem unnamed_not_before_named (name : JsString) (left right : NamespaceId) :
    columns.order.before (none, left) (some name, right) = false := by
  rw [order, KeyOrder.lex_before, if_neg nofun]
  rfl

/-- The rows after a position: those with a name, then those without. -/
def following (rows : List NamespaceEntity) (start : Option (Option JsString × NamespaceId)) :
    List NamespaceEntity :=
  sortBy columns.nameLe ((named rows).filter fun row => columns.order.after start (position row)) ++
    sortBy columns.idLe ((unnamed rows).filter fun row => columns.order.after start (position row))

theorem following_none (rows : List NamespaceEntity) :
    columns.following rows none = columns.findAll rows := by
  unfold following findAll KeyOrder.after
  simp only [Option.all_none, List.filter_true]

theorem mem_following {start : Option (Option JsString × NamespaceId)} {row : NamespaceEntity} :
    row ∈ columns.following rows start ↔
      row ∈ columns.findAll rows ∧ columns.order.after start (position row) = true := by
  unfold following findAll sortBy
  simp only [List.mem_append, List.mem_insertionSort, List.mem_filter]
  tauto

theorem ordered_following (distinct : (rows.map NamespaceEntity.id).Nodup)
    (start : Option (Option JsString × NamespaceId)) :
    columns.order.Ordered position (columns.following rows start) := by
  have ids : ∀ {part : List NamespaceEntity}, part.Sublist rows →
      (part.map NamespaceEntity.id).Nodup := fun isPart => distinct.sublist (isPart.map _)
  have isNamed : ∀ row ∈ (named rows).filter fun row => columns.order.after start (position row),
      ∃ name, row.name = some name := by
    intro row isRow
    have facts := (List.mem_filter.mp (List.mem_filter.mp isRow).1).2
    rw [decide_eq_true_iff] at facts
    exact Option.isSome_iff_exists.mp facts.2
  have isUnnamed : ∀ row ∈ (unnamed rows).filter fun row =>
      columns.order.after start (position row), row.name = none := by
    intro row isRow
    have facts := (List.mem_filter.mp (List.mem_filter.mp isRow).1).2
    rw [decide_eq_true_iff] at facts
    exact facts.2
  have front : columns.order.Ordered position (sortBy columns.nameLe ((named rows).filter fun row =>
      columns.order.after start (position row))) := by
    refine columns.order.ordered_insertionSort columns.isNameLe ?_
    refine List.Nodup.of_map Prod.snd ?_
    rw [List.map_map]
    exact ids (List.filter_sublist.trans List.filter_sublist)
  have back : columns.order.Ordered position (sortBy columns.idLe ((unnamed rows).filter fun row =>
      columns.order.after start (position row))) := by
    have byId : ∀ left right, columns.idLe left right = true ↔
        columns.ids.before right.id left.id = false := by
      intro left right
      unfold idLe
      rw [Bool.not_eq_true']
    have distinctIds : (((unnamed rows).filter fun row =>
        columns.order.after start (position row)).map NamespaceEntity.id).Nodup :=
      ids (List.filter_sublist.trans List.filter_sublist)
    have sorted := columns.ids.ordered_insertionSort byId distinctIds
    refine sorted.imp_of_mem fun {left right} isLeft isRight isBefore => ?_
    unfold sortBy at isLeft isRight
    rw [List.mem_insertionSort] at isLeft isRight
    unfold position
    rw [isUnnamed left isLeft, isUnnamed right isRight, before_unnamed]
    exact isBefore
  refine List.pairwise_append.mpr ⟨front, back, fun left isLeft right isRight => ?_⟩
  unfold sortBy at isLeft isRight
  rw [List.mem_insertionSort] at isLeft isRight
  rcases isNamed left isLeft with ⟨name, isName⟩
  unfold position
  rw [isName, isUnnamed right isRight]
  exact columns.named_before_unnamed name left.id right.id

theorem findPage_eq (rows : List NamespaceEntity)
    (start : Option (Option JsString × NamespaceId)) (rawLimit : Option Nat) :
    columns.findPage rows (start.map listCursor) rawLimit =
      paginate ((columns.following rows start).take (resolveLimit rawLimit + 1))
        (resolveLimit rawLimit) fun last => listCursor (position last) := by
  generalize isLimit : resolveLimit rawLimit = limit
  generalize isFront : sortBy columns.nameLe ((named rows).filter fun row =>
    columns.order.after start (position row)) = front
  generalize isBack : sortBy columns.idLe ((unnamed rows).filter fun row =>
    columns.order.after start (position row)) = back
  have isFollowing : columns.following rows start = front ++ back := by
    rw [← isFront, ← isBack]
    rfl
  have namedRows : (if (if (start.map listCursor).any fun after => after.name = none then 0
      else limit + 1) = 0 then []
      else (sortBy columns.nameLe ((named rows).filter fun row =>
        (start.map listCursor).all fun after => after.name.all fun afterName =>
          columns.order.before (some afterName, after.id) (position row))).take
            (if (start.map listCursor).any fun after => after.name = none then 0
              else limit + 1)) = front.take (limit + 1) := by
    rw [← isFront]
    match start with
    | none => rfl
    | some (some afterName, afterId) => rfl
    | some (none, afterId) =>
        have empty : ((named rows).filter fun row =>
            columns.order.after (some (none, afterId)) (position row)) = [] := by
          refine List.filter_eq_nil_iff.mpr fun row isRow => ?_
          have facts := (List.mem_filter.mp isRow).2
          rw [decide_eq_true_iff] at facts
          rcases Option.isSome_iff_exists.mp facts.2 with ⟨name, isName⟩
          unfold position
          rw [isName]
          simp [KeyOrder.after, unnamed_not_before_named]
        rw [empty]
        rfl
  have unnamedRows : sortBy columns.idLe ((unnamed rows).filter fun row =>
      (start.map listCursor).all fun after =>
        after.name.isSome || columns.ids.before after.id row.id) = back := by
    rw [← isBack]
    refine congrArg _ (List.filter_congr fun row isRow => ?_)
    have facts := (List.mem_filter.mp isRow).2
    rw [decide_eq_true_iff] at facts
    unfold position
    rw [facts.2]
    match start with
    | none => rfl
    | some (some afterName, afterId) =>
        simp [listCursor, KeyOrder.after, named_before_unnamed]
    | some (none, afterId) =>
        simp [listCursor, KeyOrder.after, before_unnamed]
  have stitched : front.take (limit + 1) ++ (if (front.take (limit + 1)).length ≤ limit then
      back.take (limit + 1 - (front.take (limit + 1)).length) else []) =
      (front ++ back).take (limit + 1) := by
    rw [List.take_append, List.length_take]
    split
    · congr 2
      omega
    · rw [show limit + 1 - front.length = 0 by omega, List.take_zero]
  unfold findPage
  simp only [isLimit, namedRows, unnamedRows, stitched, isFollowing, paginate, decide_eq_true_eq]
  rfl

theorem paginates_namespaces :
    Paginates (fun rows after limit => some (columns.findPage rows after (some limit)))
      (fun rows => some (columns.findAll rows)) fun rows =>
        (rows.map NamespaceEntity.id).Nodup := by
  refine paginates_of_isPage columns.order position listCursor ?_ ?_ nofun
  · rintro rows _ distinct ⟨⟩
    rw [← following_none]
    exact columns.ordered_following distinct none
  · rintro rows _ limit distinct ⟨⟩ _ start
    have page := isPage_take (columns.ordered_following distinct start)
      (fun row => columns.mem_following) (resolveLimit_pos (some limit))
    refine ⟨_, _, ?_, page⟩
    have more : resolveLimit (some limit) < (columns.following rows start).length ↔
        resolveLimit (some limit) <
          ((columns.following rows start).take (resolveLimit (some limit) + 1)).length := by
      rw [List.length_take]
      omega
    dsimp only
    rw [findPage_eq, paginate_eq, List.take_take, Nat.min_eq_left (Nat.le_succ _)]
    simp only [← more]
    congr 2
    split
    · rw [Option.map_map]
      rfl
    · rfl

end NamespaceColumns

/-! ## Every list -/

/-- Every list is paginated: the namespaces, a directory, a search, the trash, the snapshots of a
file and the entries of a snapshot. -/
theorem lists_are_paginated (host : Host) (columns : NamespaceColumns) (keys : TimestampKeys) :
    Paginates (fun rows after limit => some (columns.findPage rows after (some limit)))
        (fun rows => some (columns.findAll rows))
        (fun rows => (rows.map NamespaceEntity.id).Nodup) ∧
      (∀ path, Paginates (lsFetch host path) (lsWhole host path) (Reachable host)) ∧
      (∀ path options, Paginates (findFetch host path options) (findWhole host path options)
        (Reachable host)) ∧
      Paginates (trashFetch keys) trashWhole (fun read => Reachable host read.1) ∧
      (∀ rootNodeId, Paginates (fileSnapshotFetch keys rootNodeId) (fileSnapshotWhole rootNodeId)
        (Reachable host)) ∧
      ∀ snapshotId, Paginates (snapshotEntryFetch snapshotId) (snapshotEntryWhole snapshotId)
        (Reachable host) :=
  ⟨columns.paginates_namespaces, paginates_ls host, paginates_find host,
    paginates_trash host keys, paginates_fileSnapshots host keys,
    paginates_snapshotEntries host⟩

namespace Small

def columns : NamespaceColumns where
  names := textOrder
  ids := idOrder

def namespaceRow (name : Option JsString) (uuid : Uuid) (status : NamespaceStatus) :
    NamespaceEntity where
  id := ⟨none, uuid⟩
  name := name
  encryptionPolicy := .none
  accessPolicy := .privateAccess
  status := status
  trashEnabled := true
  maxFileSizeBytes := none
  maxFilesPerFolder := none
  maxLiveNodes := none
  maxTotalLogicalBytes := none
  maxRetainedTrashBytes := none
  liveFileByteCount := 0
  retainedSnapshotByteCount := 0
  retainedTrashByteCount := 0
  retainedTrashNodeCount := 0
  excludeTrashFromQuota := false
  excludeSnapshotsFromQuota := false
  createdAt := 1
  updatedAt := 1

/-- Two namespaces of one name, two without a name and one that is being deleted. -/
def namespaceRows : List NamespaceEntity :=
  [namespaceRow none 3 .active, namespaceRow (some [0x61]) 4 .active,
    namespaceRow (some [0x62]) 5 .deleting, namespaceRow none 1 .active,
    namespaceRow (some [0x61]) 2 .active]

def shelf : Database :=
  (Mutation.createSnapshot directory.toResolvedPath .tree none).after 3
    ((Mutation.createSnapshot file.toResolvedPath .file none).after 3
      ((Mutation.createSnapshot file.toResolvedPath .file none).after 3 twoFiles))

theorem reachable_shelf : Reachable Host.counting shelf :=
  ((reachable_twoFiles.after _ 3).after _ 3).after _ 3

def trashed : Database :=
  (Mutation.remove second false 100).after 4 ((Mutation.remove file false 100).after 4 twoFiles)

theorem reachable_trashed : Reachable Host.counting trashed :=
  (reachable_twoFiles.after _ 4).after _ 4

theorem namespacePages :
    (followPages (fun rows after limit => some (columns.findPage rows after (some limit)))
      namespaceRows 2 8 none).map (List.map (List.map fun row => row.id.uuid)) =
      some [[2, 4], [1, 3]] := by decide +kernel

theorem childPages :
    (followPages (lsFetch Host.counting directory.toResolvedPath) shelf 1 8 none).map
      (List.map (List.map VfsNodeRecord.id)) = some [[3], [5]] := by decide +kernel

def anyFile : FindOptions := ⟨none, none, some .file⟩

theorem foundPages :
    (followPages (findFetch Host.counting directory.toResolvedPath anyFile) shelf 1 8 none).map
      (List.map (List.map fun row => row.node.id)) = some [[3], [5]] := by decide +kernel

theorem trashPages :
    (followPages (trashFetch .postgres) (trashed, 5) 1 8 none).map
      (List.map (List.map TrashItem.id)) = some [[6], [7]] := by decide +kernel

theorem fileSnapshotPages :
    (followPages (fileSnapshotFetch .postgres 3) shelf 1 8 none).map
      (List.map (List.map fun row => row.snapshot.id)) = some [[6], [7]] := by decide +kernel

theorem entryPages :
    (followPages (snapshotEntryFetch 8) shelf 2 8 none).map
      (List.map (List.map SnapshotEntry.relativePath)) = some [[dot, [0x66]], [[0x67]]] := by
  decide +kernel

end Small

theorem Reachable.read (reached : Reachable host db) (now : Nat) :
    (fun read : Database × Nat => Reachable host read.1) (db, now) := reached

/-- The first page of the namespaces ends with the last one that has a name. The files in the
trash and the snapshots of a file are on two pages although their times are the same. -/
theorem lists_are_paginated_small :
    Shows (fun rows after limit => some (Small.columns.findPage rows after (some limit)))
        (fun rows => some (Small.columns.findAll rows)) Small.namespaceRows 2
        (fun row => row.id.uuid) [[2, 4], [1, 3]] ∧
      Shows (lsFetch Host.counting Small.directory.toResolvedPath)
        (lsWhole Host.counting Small.directory.toResolvedPath) Small.shelf 1
        VfsNodeRecord.id [[3], [5]] ∧
      Shows (findFetch Host.counting Small.directory.toResolvedPath Small.anyFile)
        (findWhole Host.counting Small.directory.toResolvedPath Small.anyFile) Small.shelf 1
        (fun row => row.node.id) [[3], [5]] ∧
      Shows (trashFetch .postgres) trashWhole (Small.trashed, 5) 1 TrashItem.id [[6], [7]] ∧
      Shows (fileSnapshotFetch .postgres 3) (fileSnapshotWhole 3) Small.shelf 1
        (fun row => row.snapshot.id) [[6], [7]] ∧
      Shows (snapshotEntryFetch 8) (snapshotEntryWhole 8) Small.shelf 2
        SnapshotEntry.relativePath [[dot, [0x66]], [[0x67]]] := by
  rcases lists_are_paginated Host.counting Small.columns .postgres with
    ⟨namespaces, directories, searches, trash, fileSnapshots, entries⟩
  have distinct : (Small.namespaceRows.map NamespaceEntity.id).Nodup := by decide +kernel
  exact ⟨namespaces.shows distinct (by decide) Small.namespacePages,
    (directories _).shows Small.reachable_shelf (by decide) Small.childPages,
    (searches _ _).shows Small.reachable_shelf (by decide) Small.foundPages,
    trash.shows (Small.reachable_trashed.read 5) (by decide) Small.trashPages,
    (fileSnapshots 3).shows Small.reachable_shelf (by decide) Small.fileSnapshotPages,
    (entries 8).shows Small.reachable_shelf (by decide) Small.entryPages⟩

end Storix
