import Storix.Invariants.Moves

/-! # Copies

The copied rows in the order they are made: each is a copy of a row of the source
under an earlier copied directory. A table can be grown by such a list one row at a
time, in that order. -/

namespace Storix

open Foundation Foundation.Command

variable {host : Host} {effects : Effects} {base : Database}
  {scope : List JsString → Prop} {held : List Uuid}
  {tx : MutationTx} {fault : VfsError → Prop}

def copyColumns (expiresAt : Option Nat) (newParentId : Uuid) (child : VfsNode) : NewNode where
  parentId := newParentId
  type := child.type
  name := child.name
  blobId := child.blobId
  size := child.size
  mimeType := child.mimeType
  expiresAt := if child.type = .file then expiresAt else none

/-- The copy that takes the draw number `draw`. -/
def copyAt (host : Host) (draw now : Nat) (expiresAt : Option Nat) (newParentId : Uuid)
    (child : VfsNode) : CopiedRow where
  row := (copyColumns expiresAt newParentId child).row (host.randomUUID draw) now
  sourceId := child.id

structure CopyOf (expiresAt : Option Nat) (node row : VfsNode) : Prop where
  type : row.type = node.type
  blobId : row.blobId = node.blobId
  size : row.size = node.size
  mimeType : row.mimeType = node.mimeType
  expiry : row.expiresAt = if node.type = .file then expiresAt else none

inductive Grafted (host : Host) (nodes : List VfsNode) (start now : Nat)
    (expiresAt : Option Nat) (root : CopiedRow) : List CopiedRow → Prop
  | root : Grafted host nodes start now expiresAt root [root]
  | graft {done : List CopiedRow} (grafted : Grafted host nodes start now expiresAt root done)
      {child : VfsNode} (member : child ∈ nodes) {above : CopiedRow} (aboveMember : above ∈ done)
      (directory : above.row.type = .directory) (below : child.parentId = some above.sourceId)
      (fresh : child.id ∉ done.map CopiedRow.sourceId) :
      Grafted host nodes start now expiresAt root
        (done ++ [copyAt host (start + done.length) now expiresAt above.row.id child])

namespace Grafted

variable {nodes : List VfsNode} {start now : Nat} {expiresAt : Option Nat} {root : CopiedRow}
  {done : List CopiedRow}

theorem root_mem (grafted : Grafted host nodes start now expiresAt root done) : root ∈ done := by
  induction grafted with
  | root => exact List.mem_singleton_self _
  | graft _ _ _ _ _ _ induction => exact List.mem_append_left _ induction

theorem exists_draw (grafted : Grafted host nodes start now expiresAt root done)
    (rootDraw : root.row.id = host.randomUUID start) {copy : CopiedRow} (member : copy ∈ done) :
    ∃ index < done.length, copy.row.id = host.randomUUID (start + index) := by
  induction grafted with
  | root =>
      rw [List.mem_singleton] at member
      exact ⟨0, Nat.zero_lt_one, member ▸ rootDraw⟩
  | graft _ _ _ _ _ _ induction =>
      rw [List.length_append, List.length_singleton]
      rcases List.mem_append.mp member with member | member
      · rcases induction member with ⟨index, within, isDraw⟩
        exact ⟨index, by omega, isDraw⟩
      · rw [List.mem_singleton] at member
        exact ⟨_, Nat.lt_succ_self _, member ▸ rfl⟩

theorem eq_of_row_id (grafted : Grafted host nodes start now expiresAt root done)
    (rootDraw : root.row.id = host.randomUUID start) {left right : CopiedRow}
    (leftMember : left ∈ done) (rightMember : right ∈ done) (same : left.row.id = right.row.id) :
    left = right := by
  induction grafted with
  | root =>
      rw [List.mem_singleton] at leftMember rightMember
      rw [leftMember, rightMember]
  | @graft done grafted _ _ _ _ _ _ _ induction =>
      have earlier : ∀ copy ∈ done, copy.row.id ≠ host.randomUUID (start + done.length) := by
        intro copy member isNew
        rcases grafted.exists_draw rootDraw member with ⟨index, within, isDraw⟩
        have sameDraw := host.randomUUID_injective (isDraw.symm.trans isNew)
        omega
      rcases List.mem_append.mp leftMember with leftOld | leftNew <;>
        rcases List.mem_append.mp rightMember with rightOld | rightNew
      · exact induction leftOld rightOld
      · rw [List.mem_singleton] at rightNew
        rw [rightNew] at same
        exact absurd same (earlier left leftOld)
      · rw [List.mem_singleton] at leftNew
        rw [leftNew] at same
        exact absurd same.symm (earlier right rightOld)
      · rw [List.mem_singleton] at leftNew rightNew
        rw [leftNew, rightNew]

theorem sources_nodup (grafted : Grafted host nodes start now expiresAt root done) :
    (done.map CopiedRow.sourceId).Nodup := by
  induction grafted with
  | root => simp
  | graft _ _ _ _ _ fresh induction =>
      rw [List.map_append, List.nodup_append]
      refine ⟨induction, by simp, ?_⟩
      intro id old other isNew same
      rw [List.map_singleton, List.mem_singleton] at isNew
      rw [same, isNew] at old
      exact fresh old

theorem exists_child (grafted : Grafted host nodes start now expiresAt root done)
    {copy : CopiedRow} (member : copy ∈ done) :
    copy = root ∨ ∃ child ∈ nodes, ∃ above ∈ done, child.id = copy.sourceId ∧
      child.name = copy.row.name ∧ child.parentId = some above.sourceId ∧
      copy.row.parentId = some above.row.id ∧ CopyOf expiresAt child copy.row := by
  induction grafted with
  | root => exact .inl (List.mem_singleton.mp member)
  | graft _ childMember aboveMember _ below _ induction =>
      rcases List.mem_append.mp member with member | member
      · refine (induction member).imp_right ?_
        rintro ⟨child, isNode, above, isAbove, facts⟩
        exact ⟨child, isNode, above, List.mem_append_left _ isAbove, facts⟩
      · rw [List.mem_singleton] at member
        subst member
        exact .inr ⟨_, childMember, _, List.mem_append_left _ aboveMember, rfl, rfl, below, rfl,
          ⟨rfl, rfl, rfl, rfl, rfl⟩⟩

variable {source final : List JsString}

theorem inside (grafted : Grafted host nodes start now expiresAt root done)
    (rootReached : PathOf nodes root.sourceId source) {copy : CopiedRow} (member : copy ∈ done) :
    ∃ rest, PathOf nodes copy.sourceId (source ++ rest) := by
  induction grafted generalizing copy with
  | root =>
      rw [List.mem_singleton] at member
      exact ⟨[], by simpa [member] using rootReached⟩
  | @graft _ _ child childMember _ aboveMember _ below _ induction =>
      rcases List.mem_append.mp member with member | member
      · exact induction member
      · rw [List.mem_singleton] at member
        rcases induction aboveMember with ⟨rest, reached⟩
        refine ⟨rest ++ [child.name], ?_⟩
        rw [member, ← List.append_assoc]
        exact PathOf.child childMember below reached

/-- The copies are at the places that the rows they are copied from have in the
source. -/
theorem paths (grafted : Grafted host nodes start now expiresAt root done) (tree : Rooted nodes)
    (rootReached : PathOf nodes root.sourceId source)
    (rootPlaced : PathOf (nodes ++ [root.row]) root.row.id final) {copy : CopiedRow}
    (member : copy ∈ done) {rest : List JsString}
    (reached : PathOf nodes copy.sourceId (source ++ rest)) :
    PathOf (nodes ++ done.map CopiedRow.row) copy.row.id (final ++ rest) := by
  induction grafted generalizing copy rest with
  | root =>
      rw [List.mem_singleton] at member
      subst member
      have same := PathTo.unique tree reached rootReached
      have isNil : rest = [] := by simpa using same
      simpa [isNil] using rootPlaced
  | @graft done grafted child childMember above aboveMember _ below _ induction =>
      generalize isNew : copyAt host (start + done.length) now expiresAt above.row.id child = new
        at member ⊢
      have newSource : new.sourceId = child.id := isNew ▸ rfl
      have newBelow : new.row.parentId = some above.row.id := isNew ▸ rfl
      have newName : new.row.name = child.name := isNew ▸ rfl
      have grows : ∀ {id path}, PathOf (nodes ++ done.map CopiedRow.row) id path →
          PathOf (nodes ++ (done ++ [new]).map CopiedRow.row) id path := by
        intro id path old
        refine PathTo.mono (List.map_subset _ ?_) old
        rw [List.map_append, ← List.append_assoc]
        exact List.subset_append_left _ _
      rcases List.mem_append.mp member with member | member
      · exact grows (induction member reached)
      · rw [List.mem_singleton] at member
        rw [member, newSource] at reached
        rcases PathOf.above tree childMember reached below with ⟨front, aboveReached, isPath⟩
        rcases grafted.inside rootReached aboveMember with ⟨inner, innerReached⟩
        rw [← PathTo.unique tree innerReached aboveReached, List.append_assoc,
          List.append_cancel_left_eq] at isPath
        rw [member, isPath, ← List.append_assoc, ← newName]
        exact PathOf.child (by simp) newBelow (grows (induction aboveMember innerReached))

end Grafted

/-! ## Growing the table -/

structure GraftPlace (host : Host) (base : Database) (scope : List JsString → Prop)
    (tx : MutationTx) (start : Nat) (root : CopiedRow) (source final : List JsString) : Prop where
  rootDraw : root.row.id = host.randomUUID start
  rootPlant : ∃ parentId front, Plantable host base tx root.row parentId front ∧
    final = front ++ [root.row.name]
  rootReached : PathOf tx.db.nodes root.sourceId source
  valid : ∀ id rest, PathOf tx.db.nodes id (source ++ rest) → ValidPath host (final ++ rest)
  drawnNodes : ∀ id ∈ nodeIds tx.db.nodes, Drawn host start id
  drawnSources : ∀ entry ∈ tx.db.trashEntries, Drawn host start entry.sourceNodeId
  baseDrawn : base.issued ≤ start
  inScope : ∀ rest, scope (final ++ rest)

theorem exists_folders_without (tx : MutationTx) (row : VfsNode) {parentId : Uuid}
    (below : row.parentId = some parentId) :
    ∃ folders : OrderedMap Uuid Int, ∀ id,
      (folders.get id).getD 0 = tx.folderDelta id - fileBelow id row := by
  rcases recordFolderFileDelta_eq parentId (-if row.type = .file then 1 else 0) tx with
    ⟨folders, _, deltas⟩
  refine ⟨folders, fun id => ?_⟩
  rw [deltas id]
  unfold fileBelow
  rw [below]
  grind

theorem Grafted.fresh {nodes : List VfsNode} {start now : Nat} {expiresAt : Option Nat}
    {root : CopiedRow} {done : List CopiedRow}
    (grafted : Grafted host nodes start now expiresAt root done)
    (rootDraw : root.row.id = host.randomUUID start)
    (drawn : ∀ id ∈ nodeIds nodes, Drawn host start id) {id : Uuid} {copy : CopiedRow}
    (isCopy : copy ∈ done) (same : copy.row.id = id) : id ∉ nodeIds nodes := by
  intro live
  rcases grafted.exists_draw rootDraw isCopy with ⟨index, _, isDraw⟩
  rcases drawn id live with ⟨draw, early, isEarly⟩
  have sameDraw := host.randomUUID_injective (isDraw.symm.trans (same.trans isEarly))
  omega

theorem Grafted.plantable {start now : Nat} {expiresAt : Option Nat} {root above : CopiedRow}
    {done : List CopiedRow} {source final rest : List JsString} {child : VfsNode}
    {grown : MutationTx}
    (grafted : Grafted host tx.db.nodes start now expiresAt root done)
    (place : GraftPlace host base scope tx start root source final)
    (holds : TxInv host effects base scope held tx)
    (isDb : grown.db = { tx.db with nodes := tx.db.nodes ++ done.map CopiedRow.row })
    (marked : grown.changed.get above.row.id ≠ none) (enough : start + done.length < tx.db.issued)
    (childMember : child ∈ tx.db.nodes) (aboveMember : above ∈ done)
    (directory : above.row.type = .directory) (below : child.parentId = some above.sourceId)
    (fresh : child.id ∉ done.map CopiedRow.sourceId)
    (aboveReached : PathOf tx.db.nodes above.sourceId (source ++ rest)) :
    Plantable host base grown
      (copyAt host (start + done.length) now expiresAt above.row.id child).row above.row.id
      (final ++ rest) := by
  rcases place.rootPlant with ⟨rootParentId, rootFront, plantable, isFinal⟩
  have late : ∀ issued ≤ start, ¬Drawn host issued (host.randomUUID (start + done.length)) := by
    intro issued before drawn
    rcases drawn with ⟨draw, early, isEarly⟩
    have sameDraw := host.randomUUID_injective isEarly
    omega
  have oneLe : 1 ≤ MAX_VFS_VERSION := by decide
  have aboveNew : above.row.id ∉ nodeIds tx.db.nodes :=
    grafted.fresh place.rootDraw place.drawnNodes aboveMember rfl
  have rootPlaced : PathOf (tx.db.nodes ++ [root.row]) root.row.id final :=
    isFinal ▸ pathOf_insert_self plantable.below plantable.reached
  refine
    { fresh := ?_, below := rfl, parent := ?_, reached := ?_, free := ?_, valid := ?_,
      shaped := holds.layout.shapes child childMember, numbered := ⟨Nat.le_refl 1, oneLe⟩,
      drawn := ?_, unused := ?_, source := ?_, marked := marked,
      origin := .created (late base.issued place.baseDrawn) rfl, zero := rfl }
  · rw [isDb]
    change host.randomUUID (start + done.length) ∉ nodeIds (tx.db.nodes ++ _)
    unfold nodeIds
    rw [List.map_append, List.mem_append]
    rintro (old | copied)
    · exact late start (Nat.le_refl _) (place.drawnNodes _ old)
    · rw [List.map_map, List.mem_map] at copied
      rcases copied with ⟨copy, isCopy, same⟩
      rcases grafted.exists_draw place.rootDraw isCopy with ⟨index, within, isDraw⟩
      have sameDraw := host.randomUUID_injective (isDraw.symm.trans same)
      omega
  · rw [isDb]
    exact ⟨above.row, List.mem_append_right _ (List.mem_map_of_mem aboveMember), rfl, directory⟩
  · rw [isDb]
    exact grafted.paths holds.tree place.rootReached rootPlaced aboveMember aboveReached
  · -- A row of that name below the copied directory would be a copy of the same child.
    intro other isOther otherBelow sameName
    rw [isDb] at isOther
    rcases List.mem_append.mp isOther with old | copied
    · rcases holds.tree.exists_parent old otherBelow with ⟨parent, parentMember, isParent, _⟩
      exact aboveNew (isParent ▸ mem_nodeIds_of_mem parentMember)
    · rcases List.mem_map.mp copied with ⟨copy, isCopy, rfl⟩
      rcases grafted.exists_child isCopy with
        rfl | ⟨sibling, isSibling, copyAbove, isAbove, sourceId, sourceName, sourceBelow, copyBelow,
          _⟩
      · rw [plantable.below, Option.some.injEq] at otherBelow
        rcases plantable.parent with ⟨parent, parentMember, isParent, _⟩
        exact aboveNew (otherBelow ▸ isParent ▸ mem_nodeIds_of_mem parentMember)
      · rw [copyBelow, Option.some.injEq] at otherBelow
        rw [grafted.eq_of_row_id place.rootDraw isAbove aboveMember otherBelow] at sourceBelow
        have same := holds.tree.eq_of_sibling isSibling childMember sourceBelow below
          (sourceName.trans sameName)
        rw [same] at sourceId
        exact fresh (List.mem_map.mpr ⟨copy, isCopy, sourceId.symm⟩)
  · rw [List.append_assoc]
    refine place.valid child.id (rest ++ [child.name]) ?_
    rw [← List.append_assoc]
    exact PathOf.child childMember below aboveReached
  · rw [isDb]
    exact ⟨start + done.length, enough, rfl⟩
  · exact fun old => late base.issued place.baseDrawn (holds.start.issued.nodes _ old)
  · rw [isDb]
    intro entry isEntry same
    have drawn := place.drawnSources entry isEntry
    rw [same] at drawn
    exact late start (Nat.le_refl _) drawn

theorem Grafted.txInv {start now : Nat} {expiresAt : Option Nat} {root : CopiedRow}
    {done : List CopiedRow} {source final : List JsString}
    (place : GraftPlace host base scope tx start root source final)
    (grafted : Grafted host tx.db.nodes start now expiresAt root done)
    (enough : start + done.length ≤ tx.db.issued) {held : List Uuid}
    (holds : TxInv host effects base scope (fileBlobs (done.map CopiedRow.row) ++ held) tx)
    {changed : OrderedMap Uuid Bool} {folders : OrderedMap Uuid Int} {nodeDelta byteDelta : Int}
    (marks : changed.get = markAll tx.changed.get (done.map fun copy => copy.row.id) false)
    (deltas : ∀ id, (folders.get id).getD 0 =
      tx.folderDelta id + total (fileBelow id) (done.map CopiedRow.row))
    (counted : nodeDelta = tx.liveNodeDelta + done.length)
    (weighed : byteDelta = tx.liveFileByteDelta + total fileSize (done.map CopiedRow.row)) :
    TxInv host effects base scope held
      { tx with
        db := { tx.db with nodes := tx.db.nodes ++ done.map CopiedRow.row }
        changed := changed
        folderFileDeltas := folders
        liveNodeDelta := nodeDelta
        liveFileByteDelta := byteDelta } := by
  rcases place.rootPlant with ⟨rootParentId, rootFront, plantable, isFinal⟩
  induction grafted generalizing held changed folders nodeDelta byteDelta with
  | root =>
      refine TxInv.insert holds plantable ?_ marks (fun id => ?_) counted ?_
      · simpa [isFinal] using place.inScope []
      · rw [deltas id]
        simp [total]
      · rw [weighed]
        simp [total]
  | @graft done grafted child childMember above aboveMember directory below fresh induction =>
      generalize isNew : copyAt host (start + done.length) now expiresAt above.row.id child = new
        at *
      have newBelow : new.row.parentId = some above.row.id := isNew ▸ rfl
      have newName : new.row.name = child.name := isNew ▸ rfl
      have newId : new.row.id = host.randomUUID (start + done.length) := isNew ▸ rfl
      rw [List.length_append, List.length_singleton] at enough
      rcases grafted.inside place.rootReached aboveMember with ⟨rest, aboveReached⟩
      have childReached := PathOf.child childMember below aboveReached
      -- The state before the last row, with the maps that belong to it.
      rcases exists_folders_without { tx with folderFileDeltas := folders } new.row newBelow with
        ⟨foldersBefore, deltasBefore⟩
      rcases forEach_markChanged_eq (fun copy => copy.row.id) false done tx with
        ⟨changedBefore, _, marksBefore⟩
      let grown : MutationTx :=
        { tx with
          db := { tx.db with nodes := tx.db.nodes ++ done.map CopiedRow.row }
          changed := changedBefore
          folderFileDeltas := foldersBefore
          liveNodeDelta := tx.liveNodeDelta + done.length
          liveFileByteDelta := tx.liveFileByteDelta + total fileSize (done.map CopiedRow.row) }
      have before : TxInv host effects base scope (fileBlobs [new.row] ++ held) grown := by
        refine induction (by omega) (by simpa [fileBlobs_append] using holds) marksBefore ?_ rfl rfl
        intro id
        rw [deltasBefore id]
        change (folders.get id).getD 0 - _ = _
        rw [deltas id, List.map_append, List.map_singleton, total_insert]
        omega
      have aboveMarked : grown.changed.get above.row.id ≠ none := by
        change changedBefore.get above.row.id ≠ none
        rw [marksBefore, markAll_ne_none_iff]
        exact .inr (List.mem_map.mpr ⟨above, aboveMember, rfl⟩)
      have planted : Plantable host base grown new.row above.row.id (final ++ rest) :=
        isNew ▸ grafted.plantable place holds rfl aboveMarked (by omega) childMember aboveMember
          directory below fresh aboveReached
      rw [List.map_append, ← List.append_assoc]
      refine before.insert planted ?_ ?_ ?_ ?_ ?_
      · rw [List.append_assoc]
        exact place.inScope _
      · rw [marks]
        funext id
        change _ = markAll changedBefore.get [new.row.id] false id
        rw [marksBefore, markAll_markAll, List.map_append, List.map_singleton]
      · intro id
        change (folders.get id).getD 0 = (foldersBefore.get id).getD 0 + _
        rw [deltasBefore id]
        change _ = (folders.get id).getD 0 - _ + _
        omega
      · rw [counted, List.length_append, List.length_singleton]
        change _ = tx.liveNodeDelta + _ + 1
        omega
      · rw [weighed, List.map_append, List.map_singleton, total_insert]
        change _ = tx.liveFileByteDelta + _ + _
        omega

/-! ## Making the copies -/

/-- The state while the copies are made: ids are drawn and bytes are counted. -/
def copying (tx : MutationTx) (start : Nat) (done : List CopiedRow) : MutationTx :=
  { tx with
    db := { tx.db with issued := start + done.length }
    liveFileByteDelta := tx.liveFileByteDelta + total fileSize (done.map CopiedRow.row) }

theorem satisfies_copyChild {start : Nat} {done : List CopiedRow} {expiresAt : Option Nat}
    {newParentId : Uuid} {child : VfsNode} (shaped : child.Shaped)
    {post : CopiedRow → MutationTx → Prop}
    (continues : ∀ copy,
      copy = copyAt host (start + done.length) tx.now expiresAt newParentId child →
      post copy (copying tx start (done ++ [copy]))) :
    Satisfies (copyChild host expiresAt newParentId child) post fault (copying tx start done) := by
  have ends := continues _ rfl
  generalize isCopy : copyAt host (start + done.length) tx.now expiresAt newParentId child = copy
    at ends
  have advance : ∀ size : Int, fileSize child = size →
      copying tx start (done ++ [copy]) =
        { tx with
          db := { tx.db with issued := start + done.length + 1 }
          liveFileByteDelta :=
            tx.liveFileByteDelta + total fileSize (done.map CopiedRow.row) + size } := by
    intro size isSize
    have sameSize : fileSize copy.row = fileSize child := isCopy ▸ rfl
    unfold copying
    rw [List.length_append, List.length_singleton, List.map_append, List.map_singleton,
      total_insert, sameSize, isSize, ← Nat.add_assoc, ← Int.add_assoc]
  unfold copyChild
  rw [satisfies_bind, satisfies_drawUuid, satisfies_bind, satisfies_state]
  refine satisfies_ite.mpr ⟨fun isFile => ?_, fun notFile => ?_⟩
  · rcases shaped.file isFile with ⟨blobId, size, mimeType, isBlob, isSize, _⟩
    rw [advance size (fileSize_of_file isFile isSize), ← isCopy] at ends
    simp only [copyAt, copyColumns, isBlob, isSize] at ends ⊢
    exact ends
  · have isDirectory : fileSize child = 0 := if_neg notFile
    rw [advance 0 isDirectory, ← isCopy, Int.add_zero] at ends
    exact ends

section Loop

variable {nodes rows : List VfsNode} {start : Nat} {expiresAt : Option Nat} {root : CopiedRow}
  {sourceId : Uuid} {source : List JsString}

def CopiedTo (host : Host) (tx : MutationTx) (nodes : List VfsNode) (start : Nat)
    (expiresAt : Option Nat) (root : CopiedRow) (done : List CopiedRow) (next : MutationTx) :
    Prop :=
  Grafted host nodes start tx.now expiresAt root done ∧ next = copying tx start done

/-- The copies were made from children of `parentId`. -/
def CopiesBelow (nodes : List VfsNode) (copies : List CopiedRow) (parentIds : List Uuid) : Prop :=
  ∀ copy ∈ copies, ∃ child ∈ nodes, child.id = copy.sourceId ∧
    ∃ parentId ∈ parentIds, child.parentId = some parentId

def Uncopied (nodes : List VfsNode) (done : List CopiedRow) (parentId : Uuid) : Prop :=
  ∀ child ∈ nodes, child.parentId = some parentId → child.id ∉ done.map CopiedRow.sourceId

theorem Uncopied.append (tree : Rooted nodes) {done more : List CopiedRow} {parentId : Uuid}
    {others : List Uuid} (uncopied : Uncopied nodes done parentId)
    (below : CopiesBelow nodes more others) (apart : parentId ∉ others) :
    Uncopied nodes (done ++ more) parentId := by
  intro child member isBelow copied
  rw [List.map_append, List.mem_append] at copied
  rcases copied with old | new
  · exact uncopied child member isBelow old
  · rcases List.mem_map.mp new with ⟨copy, isCopy, sameId⟩
    rcases below copy isCopy with ⟨other, otherMember, isOther, otherParent, isParent, otherBelow⟩
    rw [tree.eq_of_id otherMember member (isOther.trans sameId), isBelow] at otherBelow
    cases otherBelow
    exact apart isParent

def Filled (rows : List VfsNode) (sourceId : Uuid) (copies : List CopiedRow) (parentId : Uuid) :
    Prop :=
  ∀ child ∈ rows, child.id ≠ sourceId → child.parentId = some parentId →
    child.id ∈ copies.map CopiedRow.sourceId

theorem Filled.mono {copies more : List CopiedRow} {parentId : Uuid} (included : copies ⊆ more)
    (filled : Filled rows sourceId copies parentId) : Filled rows sourceId more parentId :=
  fun child isRow notSource below =>
    List.map_subset _ included (filled child isRow notSource below)

theorem copyChildrenOf_spec (shapes : ∀ node ∈ nodes, node.Shaped)
    (within : ∀ row ∈ rows, row ∈ nodes) (distinct : (nodeIds rows).Nodup)
    {done : List CopiedRow} {above : CopiedRow} {current : MutationTx}
    (copied : CopiedTo host tx nodes start expiresAt root done current)
    (aboveMember : above ∈ done) (directory : above.row.type = .directory)
    (uncopied : Uncopied nodes done above.sourceId) :
    Satisfies
      (copyChildrenOf host expiresAt rows sourceId ⟨above.sourceId, above.row.id⟩)
      (fun copies next => CopiedTo host tx nodes start expiresAt root (done ++ copies) next ∧
        CopiesBelow nodes copies [above.sourceId] ∧
        Filled rows sourceId copies above.sourceId) fault current := by
  let invariant (rest : List VfsNode) (copies : List CopiedRow) (next : MutationTx) : Prop :=
    CopiedTo host tx nodes start expiresAt root (done ++ copies) next ∧
      CopiesBelow nodes copies [above.sourceId] ∧ (nodeIds rest).Nodup ∧
      (∀ child ∈ rest, child ∈ nodes ∧ child.parentId = some above.sourceId ∧
        child.id ∉ (done ++ copies).map CopiedRow.sourceId) ∧
      ∀ child ∈ rows, child.id ≠ sourceId → child.parentId = some above.sourceId →
        child ∈ rest ∨ child.id ∈ copies.map CopiedRow.sourceId
  have step : ∀ child rest copies next, invariant (child :: rest) copies next →
      Satisfies (copyChild host expiresAt above.row.id child)
        (fun copy after => invariant rest (copies ++ [copy]) after) fault next := by
    rintro child rest copies next ⟨⟨grafted, rfl⟩, below, nodup, fresh, covered⟩
    rcases fresh child (List.mem_cons_self ..) with ⟨member, isBelow, isFresh⟩
    rcases List.nodup_cons.mp nodup with ⟨notLater, restNodup⟩
    refine satisfies_copyChild (shapes child member) fun copy isCopy => ?_
    have isSource : copy.sourceId = child.id := isCopy ▸ rfl
    refine ⟨⟨?_, ?_⟩, ?_, restNodup, ?_, ?_⟩
    · rw [← List.append_assoc, isCopy]
      exact .graft grafted member (List.mem_append_left _ aboveMember) directory isBelow isFresh
    · rw [← List.append_assoc]
    · intro other isOther
      rcases List.mem_append.mp isOther with isOther | isOther
      · exact below other isOther
      · rw [List.mem_singleton] at isOther
        exact ⟨child, member, isOther ▸ isSource.symm, _, List.mem_singleton_self _, isBelow⟩
    · intro other isRest
      rcases fresh other (List.mem_cons_of_mem _ isRest) with ⟨otherMember, otherBelow, otherFresh⟩
      refine ⟨otherMember, otherBelow, ?_⟩
      rw [← List.append_assoc, List.map_append, List.map_singleton, List.mem_append,
        List.mem_singleton, isSource]
      rintro (old | same)
      · exact otherFresh old
      · exact notLater (same ▸ mem_nodeIds_of_mem isRest)
    · intro other isRow notSource otherBelow
      rw [List.map_append, List.map_singleton, List.mem_append, List.mem_singleton, isSource]
      rcases covered other isRow notSource otherBelow with waiting | old
      · rcases List.mem_cons.mp waiting with rfl | later
        · exact .inr (.inr rfl)
        · exact .inl later
      · exact .inr (.inl old)
  refine (satisfies_collect invariant step _ [] ?_).imp fun copies next holds => ?_
  · refine ⟨by simpa using copied, by simp [CopiesBelow], ?_, ?_, ?_⟩
    · exact distinct.sublist (List.filter_sublist.map _)
    · intro child isChild
      rcases List.mem_filter.mp isChild with ⟨isRow, isBelow⟩
      simp only [decide_eq_true_eq] at isBelow
      have member := within child isRow
      exact ⟨member, isBelow.2, by simpa using uncopied child member isBelow.2⟩
    · intro child isRow notSource below
      exact .inl (List.mem_filter.mpr ⟨isRow, by simp [notSource, below]⟩)
  · refine ⟨holds.1, holds.2.1, fun child isRow notSource below => ?_⟩
    exact (holds.2.2.2.2 child isRow notSource below).resolve_left (by simp)

theorem copyLevel_spec (tree : Rooted nodes) (shapes : ∀ node ∈ nodes, node.Shaped)
    (within : ∀ row ∈ rows, row ∈ nodes) (distinct : (nodeIds rows).Nodup)
    {done : List CopiedRow} {tasks : List CopyTask} {current : MutationTx}
    (copied : CopiedTo host tx nodes start expiresAt root done current)
    (queued : ∀ task ∈ tasks, ∃ above ∈ done, above.row.type = .directory ∧
      task = ⟨above.sourceId, above.row.id⟩ ∧ Uncopied nodes done above.sourceId)
    (nodup : (tasks.map CopyTask.oldParentId).Nodup) :
    Satisfies (collect (copyChildrenOf host expiresAt rows sourceId) tasks)
      (fun batches next =>
        CopiedTo host tx nodes start expiresAt root (done ++ batches.flatten) next ∧
        CopiesBelow nodes batches.flatten (tasks.map CopyTask.oldParentId) ∧
        ∀ task ∈ tasks, Filled rows sourceId batches.flatten task.oldParentId) fault current := by
  let invariant (rest : List CopyTask) (batches : List (List CopiedRow)) (next : MutationTx) :
      Prop :=
    CopiedTo host tx nodes start expiresAt root (done ++ batches.flatten) next ∧
      CopiesBelow nodes batches.flatten (tasks.map CopyTask.oldParentId) ∧ rest <:+ tasks ∧
      (∀ task ∈ rest, ∃ above ∈ done, above.row.type = .directory ∧
        task = ⟨above.sourceId, above.row.id⟩ ∧
        Uncopied nodes (done ++ batches.flatten) above.sourceId) ∧
      ∀ task ∈ tasks, task ∈ rest ∨ Filled rows sourceId batches.flatten task.oldParentId
  have step : ∀ task rest batches next, invariant (task :: rest) batches next →
      Satisfies (copyChildrenOf host expiresAt rows sourceId task)
        (fun copies after => invariant rest (batches ++ [copies]) after) fault next := by
    rintro task rest batches next ⟨soFar, below, isSuffix, waiting, filled⟩
    rcases waiting task (List.mem_cons_self ..) with ⟨above, aboveMember, directory, rfl, uncopied⟩
    refine (copyChildrenOf_spec shapes within distinct soFar
      (List.mem_append_left _ aboveMember) directory uncopied).imp ?_
    rintro copies after ⟨nextCopied, nextBelow, nextFilled⟩
    have whole : done ++ (batches ++ [copies]).flatten = done ++ batches.flatten ++ copies := by
      simp
    refine ⟨whole ▸ nextCopied, ?_, (List.suffix_cons _ _).trans isSuffix, ?_, ?_⟩
    · intro copy isCopy
      rw [List.flatten_append, List.mem_append] at isCopy
      rcases isCopy with old | new
      · exact below copy old
      · rcases nextBelow copy (by simpa using new) with
          ⟨child, member, same, parentId, isParent, isBelow⟩
        rw [List.mem_singleton] at isParent
        refine ⟨child, member, same, parentId, ?_, isBelow⟩
        rw [isParent]
        exact List.mem_map.mpr ⟨_, isSuffix.mem (List.mem_cons_self ..), rfl⟩
    · intro later isLater
      rcases waiting later (List.mem_cons_of_mem _ isLater) with
        ⟨laterAbove, laterMember, laterDirectory, rfl, laterUncopied⟩
      refine ⟨laterAbove, laterMember, laterDirectory, rfl, ?_⟩
      rw [whole]
      refine laterUncopied.append tree nextBelow ?_
      rw [List.mem_singleton]
      intro same
      have restNodup := nodup.sublist (isSuffix.sublist.map CopyTask.oldParentId)
      rw [List.map_cons, List.nodup_cons] at restNodup
      exact restNodup.1 (List.mem_map.mpr ⟨_, isLater, same⟩)
    · intro other isTask
      have earlier : batches.flatten ⊆ (batches ++ [copies]).flatten := by
        rw [List.flatten_append]
        exact List.subset_append_left _ _
      rcases filled other isTask with queue | done
      · rcases List.mem_cons.mp queue with rfl | later
        · exact .inr (nextFilled.mono (by simp))
        · exact .inl later
      · exact .inr (done.mono earlier)
  refine (satisfies_collect invariant step tasks [] ?_).imp fun batches next holds => ?_
  · exact ⟨by simpa using copied, by simp [CopiesBelow], List.suffix_refl _, by simpa using queued,
      fun task isTask => .inl isTask⟩
  · refine ⟨holds.1, holds.2.1, fun task isTask => ?_⟩
    exact (holds.2.2.2.2 task isTask).resolve_left (by simp)

structure CopySource (nodes rows : List VfsNode) (source : List JsString) : Prop where
  tree : Rooted nodes
  shapes : ∀ node ∈ nodes, node.Shaped
  within : ∀ row ∈ rows, row ∈ nodes
  distinct : (nodeIds rows).Nodup
  covers : ∀ id rest, PathOf nodes id (source ++ rest) → id ∈ nodeIds rows

theorem CopySource.length_le (rowsOf : CopySource nodes rows source) {id : Uuid}
    {rest : List JsString} (reached : PathOf nodes id (source ++ rest)) :
    rest.length ≤ rows.length := by
  rcases PathTo.exists_chain_below rowsOf.tree reached with ⟨chain, isLength, nodup, inside⟩
  have subset : chain ⊆ nodeIds rows := by
    intro member isMember
    rcases inside member isMember with ⟨middle, _, _, middleReached⟩
    exact rowsOf.covers member middle middleReached
  have bound := (nodup.subperm subset).length_le
  rw [isLength] at bound
  simpa [nodeIds] using bound

theorem copyLevels_spec (rowsOf : CopySource nodes rows source) {fuel depth : Nat}
    (enough : rows.length < fuel + depth) {done : List CopiedRow} {tasks : List CopyTask}
    {current : MutationTx} (copied : CopiedTo host tx nodes start expiresAt root done current)
    (queued : ∀ task ∈ tasks, ∃ above ∈ done, above.row.type = .directory ∧
      task = ⟨above.sourceId, above.row.id⟩)
    (nodup : (tasks.map CopyTask.oldParentId).Nodup)
    (depths : ∀ task ∈ tasks, ∃ rest, rest.length = depth ∧
      PathOf nodes task.oldParentId (source ++ rest))
    (shallow : ∀ copy ∈ done, ∀ rest, PathOf nodes copy.sourceId (source ++ rest) →
      rest.length ≤ depth) :
    Satisfies (copyLevels host expiresAt rows sourceId fuel tasks)
      (fun copies next => CopiedTo host tx nodes start expiresAt root (done ++ copies) next ∧
        (∀ task ∈ tasks, Filled rows sourceId copies task.oldParentId) ∧
        ∀ copy ∈ copies, copy.row.type = .directory → Filled rows sourceId copies copy.sourceId)
      fault current := by
  have tree := rowsOf.tree
  induction fuel generalizing depth done tasks current with
  | zero =>
      cases tasks with
      | nil => simpa [copyLevels] using copied
      | cons task _ =>
          rcases depths task (List.mem_cons_self ..) with ⟨rest, isDepth, reached⟩
          have bound := rowsOf.length_le reached
          omega
  | succ fuel induction =>
      cases tasks with
      | nil => simpa [copyLevels] using copied
      | cons task tasks =>
          -- A child of a queued directory is deeper than everything copied so far.
          have waiting : ∀ other ∈ task :: tasks, ∃ above ∈ done, above.row.type = .directory ∧
              other = ⟨above.sourceId, above.row.id⟩ ∧ Uncopied nodes done above.sourceId := by
            intro other isOther
            rcases queued other isOther with ⟨above, aboveMember, directory, rfl⟩
            refine ⟨above, aboveMember, directory, rfl, fun child member below isCopied => ?_⟩
            rcases depths _ isOther with ⟨rest, isDepth, reached⟩
            have childReached := PathOf.child member below reached
            rw [List.append_assoc] at childReached
            rcases List.mem_map.mp isCopied with ⟨copy, isCopy, same⟩
            have bound := shallow copy isCopy _ (same ▸ childReached)
            rw [List.length_append, List.length_singleton] at bound
            omega
          unfold copyLevels
          rw [satisfies_bind]
          refine (copyLevel_spec tree rowsOf.shapes rowsOf.within rowsOf.distinct copied waiting
            nodup).imp ?_
          rintro batches next ⟨levelCopied, below, levelFilled⟩
          have levelDepth : ∀ copy ∈ batches.flatten, ∃ rest, rest.length = depth + 1 ∧
              PathOf nodes copy.sourceId (source ++ rest) := by
            intro copy isCopy
            rcases below copy isCopy with ⟨child, member, same, parentId, isParent, isBelow⟩
            rcases List.mem_map.mp isParent with ⟨other, isOther, rfl⟩
            rcases depths other isOther with ⟨rest, isDepth, reached⟩
            refine ⟨rest ++ [child.name], by simp [isDepth], ?_⟩
            rw [← same, ← List.append_assoc]
            exact PathOf.child member isBelow reached
          rw [satisfies_bind]
          have deeperEnough : rows.length < fuel + (depth + 1) := by omega
          refine (induction deeperEnough levelCopied ?_ ?_ ?_ ?_).imp ?_
          · intro other isOther
            rcases List.mem_map.mp isOther with ⟨copy, isCopy, rfl⟩
            rcases List.mem_filter.mp isCopy with ⟨isCopy, directory⟩
            exact ⟨copy, List.mem_append_right _ isCopy, by simpa using directory, rfl⟩
          · have sources := levelCopied.1.sources_nodup
            rw [List.map_append] at sources
            rw [List.map_map]
            exact (List.nodup_append.mp sources).2.1.sublist (List.filter_sublist.map _)
          · intro other isOther
            rcases List.mem_map.mp isOther with ⟨copy, isCopy, rfl⟩
            exact levelDepth copy (List.mem_filter.mp isCopy).1
          · intro copy isCopy rest reached
            rcases List.mem_append.mp isCopy with old | new
            · exact Nat.le_succ_of_le (shallow copy old rest reached)
            · rcases levelDepth copy new with ⟨own, isDepth, ownReached⟩
              have same := PathTo.unique tree reached ownReached
              rw [List.append_cancel_left_eq] at same
              rw [same, isDepth]
          · rintro deeper after ⟨final, nextFilled, deeperFilled⟩
            rw [satisfies_pure, ← List.append_assoc]
            have earlier := List.subset_append_left batches.flatten deeper
            have later := List.subset_append_right batches.flatten deeper
            refine ⟨final, fun other isOther => (levelFilled other isOther).mono earlier, ?_⟩
            intro copy isCopy directory
            rcases List.mem_append.mp isCopy with own | deep
            · refine (nextFilled ⟨copy.sourceId, copy.row.id⟩
                (List.mem_map.mpr ⟨copy, ?_, rfl⟩)).mono
                later
              exact List.mem_filter.mpr ⟨own, by simpa using directory⟩
            · exact (deeperFilled copy deep directory).mono later

end Loop

/-! ## The statements after the loop -/

theorem satisfies_forEach_insertNode (rows : List VfsNode) {post : Unit → MutationTx → Prop} :
    Satisfies (forEach insertNode rows) post fault tx ↔
      post () { tx with db := { tx.db with nodes := tx.db.nodes ++ rows } } := by
  induction rows generalizing tx with
  | nil => simp [forEach]
  | cons row rest induction =>
      change Satisfies (insertNode row >>= fun _ => _) post fault tx ↔ _
      rw [satisfies_bind, satisfies_insertNode, induction]
      simp

theorem satisfies_forEach_folderDelta (counts : List (Uuid × Nat))
    {post : Unit → MutationTx → Prop}
    (continues : ∀ folders : OrderedMap Uuid Int,
      (∀ id, (folders.get id).getD 0 = tx.folderDelta id + (expandCounts counts).count id) →
      post () { tx with folderFileDeltas := folders }) :
    Satisfies (forEach (fun entry => recordFolderFileDelta entry.1 entry.2) counts) post fault
      tx := by
  induction counts generalizing tx with
  | nil =>
      exact continues tx.folderFileDeltas fun id => by simp [expandCounts, MutationTx.folderDelta]
  | cons entry rest induction =>
      change Satisfies (recordFolderFileDelta entry.1 entry.2 >>= fun _ => _) post fault tx
      rw [satisfies_bind]
      refine satisfies_recordFolderFileDelta fun first firstDeltas => ?_
      refine induction fun folders deltas => continues folders fun id => ?_
      have step := deltas id
      change (folders.get id).getD 0 = (first.get id).getD 0 + _ at step
      rw [step, firstDeltas id]
      change _ = _ + ((List.replicate entry.2 entry.1 ++ expandCounts rest).count id : Int)
      rw [List.count_append, List.count_replicate]
      grind

theorem count_fileParents (rows : List VfsNode) (id : Uuid) :
    ((fileParents rows).count id : Int) = total (fileBelow id) rows := by
  induction rows with
  | nil => rfl
  | cons row rest induction =>
      have split : fileParents (row :: rest) = fileParents [row] ++ fileParents rest := by
        simp [fileParents, ← List.filterMap_append, ← List.filter_append]
      have one : ((fileParents [row]).count id : Int) = fileBelow id row := by
        unfold fileParents fileBelow
        by_cases isFile : row.type = .file
        · cases isParent : row.parentId with
          | none => simp [isFile, isParent]
          | some parentId =>
              simp only [isFile, isParent, List.filter_cons, List.filter_nil, decide_true, if_true,
                List.filterMap_cons, List.filterMap_nil, List.count_cons, List.count_nil]
              grind
        · simp [isFile]
      rw [split, List.count_append]
      change _ = fileBelow id row + total (fileBelow id) rest
      omega

theorem TxInv.drawMany (holds : TxInv host effects base scope held tx) {issued : Nat}
    (later : tx.db.issued ≤ issued) :
    TxInv host effects base scope held { tx with db := { tx.db with issued := issued } } := by
  induction later with
  | refl => exact holds
  | step _ induction => exact induction.draw

/-! ## The operation -/

/-- What a copy adds to the rows: one for each row of the source, at the same place below the
final path. -/
structure CopiedTree (host : Host) (tx next : MutationTx) (source final : List JsString)
    (expiresAt : Option Nat) (copies : List CopiedRow) : Prop where
  nodes : next.db.nodes = tx.db.nodes ++ copies.map CopiedRow.row
  tables : next.db = { tx.db with
    nodes := next.db.nodes, blobs := next.db.blobs, issued := next.db.issued }
  drawn : ∀ copy ∈ copies, ∃ draw, tx.db.issued ≤ draw ∧ copy.row.id = host.randomUUID draw
  sources : (copies.map CopiedRow.sourceId).Nodup
  covers : ∀ id rest, PathOf tx.db.nodes id (source ++ rest) → id ∈ copies.map CopiedRow.sourceId
  copied : ∀ copy ∈ copies, ∃ node ∈ tx.db.nodes, node.id = copy.sourceId ∧
    CopyOf expiresAt node copy.row ∧ ∃ rest, PathOf tx.db.nodes node.id (source ++ rest) ∧
      PathOf next.db.nodes copy.row.id (final ++ rest)

theorem satisfies_copyFile {placement : Placement} {source : List JsString}
    {expiresAt : Option Nat} (holds : TxInv host effects base scope held tx)
    (placeable : Placeable host tx placement source false)
    (isFile : placement.sourceNode.type = .file) (inScope : scope placement.finalSegments) :
    Satisfies (copyFile host placement.sourceNode placement expiresAt)
      (fun _ next => TxInv host effects base scope held next ∧ ∃ copies,
        CopiedTree host tx next source placement.finalSegments expiresAt copies) fault tx := by
  have member := placeable.loaded.member
  rcases (holds.layout.shapes _ member).file isFile with
    ⟨blobId, size, mimeType, isBlob, isSize, isMime⟩
  rcases placeable.free.place with ⟨front, whole, locked⟩
  have referenced := mem_references_of_file member isFile isBlob
  have taken := holds.increment 1 (List.mem_append_left held referenced)
  unfold copyFile
  rw [isBlob, isSize]
  simp only [satisfies_bind]
  rw [satisfies_incrementReferenceCount, satisfies_createNode]
  refine satisfies_markChanged fun changed marks => ?_
  rw [satisfies_recordLiveByteDelta]
  refine satisfies_recordFolderFileDelta fun folders deltas => ?_
  rw [satisfies_recordLiveNodeDelta, satisfies_pure]
  let columns : NewNode :=
    { parentId := placement.finalParentId, type := .file, name := placement.finalName,
      blobId := some blobId, size := some size, mimeType := placement.sourceNode.mimeType,
      expiresAt := expiresAt }
  refine ⟨TxInv.createFile columns taken rfl rfl rfl (by simp [columns, isMime])
    ⟨locked.directory, locked.reached, locked.seen⟩ placeable.free.free
    (whole ▸ placeable.free.valid) placeable.free.marked (whole ▸ inScope) marks deltas,
    [⟨columns.row (host.randomUUID tx.db.issued) tx.now, placement.sourceNode.id⟩], ?_⟩
  have reached := placeable.loaded.reached
  refine
    { nodes := rfl, tables := rfl, drawn := ?_, sources := by simp, covers := ?_, copied := ?_ }
  · intro copy isCopy
    rw [List.mem_singleton.mp isCopy]
    exact ⟨tx.db.issued, Nat.le_refl _, rfl⟩
  · intro id rest inside
    have isNil := holds.layout.eq_nil_of_file member isFile reached inside
    rw [isNil, List.append_nil] at inside
    rw [PathTo.injective holds.tree inside reached]
    exact List.mem_singleton_self _
  · intro copy isCopy
    rw [List.mem_singleton.mp isCopy]
    refine ⟨placement.sourceNode, member, rfl, ⟨isFile.symm, isBlob.symm, isSize.symm, rfl, ?_⟩, [],
      by rwa [List.append_nil], ?_⟩
    · rw [if_pos isFile]
      rfl
    · rw [List.append_nil, whole]
      exact pathOf_insert_self rfl locked.reached

theorem Placeable.graftPlace {placement : Placement} {source : List JsString} {next : MutationTx}
    (holds : TxInv host effects base scope held tx)
    (placeable : Placeable host tx placement source false)
    (valid : ∀ id rest, PathOf tx.db.nodes id (source ++ rest) →
      ValidPath host (placement.finalSegments ++ rest))
    (inScope : ∀ rest, scope (placement.finalSegments ++ rest)) {blobs : List Blob} {issued : Nat}
    (later : tx.db.issued < issued)
    (isNext : next = { tx with db := { tx.db with issued := issued, blobs := blobs } }) :
    GraftPlace host base scope next tx.db.issued
      ⟨(NewNode.directory placement.finalParentId placement.finalName).row
        (host.randomUUID tx.db.issued) tx.now, placement.sourceNode.id⟩
      source placement.finalSegments := by
  subst isNext
  rcases placeable.free.place with ⟨front, whole, locked⟩
  have fresh := holds.freshId
  have oneLe : 1 ≤ MAX_VFS_VERSION := by decide
  have plantable : Plantable host base
      { tx with db := { tx.db with issued := issued, blobs := blobs } }
      ((NewNode.directory placement.finalParentId placement.finalName).row
        (host.randomUUID tx.db.issued) tx.now) placement.finalParentId front :=
    { fresh := fresh.node
      below := rfl
      parent := locked.directory
      reached := locked.reached
      free := fun other member below => findChild_eq_none placeable.free.free member below
      valid := whole ▸ placeable.free.valid
      shaped := ⟨rfl, rfl, rfl⟩
      numbered := ⟨Nat.le_refl 1, oneLe⟩
      drawn := ⟨tx.db.issued, later, rfl⟩
      unused := fresh.unused holds.start
      source := fresh.source
      marked := placeable.free.marked
      origin := .created fresh.new rfl
      zero := rfl }
  exact
    { rootDraw := rfl
      rootPlant := ⟨_, front, plantable, whole⟩
      rootReached := placeable.loaded.reached
      valid := valid
      drawnNodes := holds.issued.nodes
      drawnSources := holds.issued.sources
      baseDrawn := holds.drawn
      inScope := inScope }

def copyRoot (host : Host) (tx : MutationTx) (placement : Placement) : CopiedRow where
  row := (NewNode.directory placement.finalParentId placement.finalName).row
    (host.randomUUID tx.db.issued) tx.now
  sourceId := placement.sourceNode.id

theorem Grafted.referenced {placement : Placement} {expiresAt : Option Nat}
    {copies : List CopiedRow}
    (grafted : Grafted host tx.db.nodes tx.db.issued tx.now expiresAt
      (copyRoot host tx placement) (copyRoot host tx placement :: copies)) {id : Uuid}
    (member : id ∈ fileBlobs (copies.map CopiedRow.row)) : id ∈ tx.db.references := by
  simp only [fileBlobs, List.mem_filterMap, List.mem_filter, List.mem_map,
    decide_eq_true_eq] at member
  rcases member with ⟨row, ⟨⟨copy, isCopy, rfl⟩, isFile⟩, isBlob⟩
  rcases grafted.exists_child (List.mem_cons_of_mem _ isCopy) with
    isRoot | ⟨child, childMember, _, _, _, _, _, _, same⟩
  · rw [isRoot] at isFile
    cases isFile
  · exact mem_references_of_file childMember (same.type.symm.trans isFile)
      (same.blobId.symm.trans isBlob)

theorem Grafted.inserted {placement : Placement} {source : List JsString}
    {expiresAt : Option Nat} {copies : List CopiedRow}
    (holds : TxInv host effects base scope held tx)
    (placeable : Placeable host tx placement source false)
    (valid : ∀ id rest, PathOf tx.db.nodes id (source ++ rest) →
      ValidPath host (placement.finalSegments ++ rest))
    (inScope : ∀ rest, scope (placement.finalSegments ++ rest))
    (grafted : Grafted host tx.db.nodes tx.db.issued tx.now expiresAt
      (copyRoot host tx placement) (copyRoot host tx placement :: copies))
    {changed : OrderedMap Uuid Bool} {folders : OrderedMap Uuid Int} {nodeDelta : Int}
    (marks : changed.get = markAll (markAll tx.changed.get [(copyRoot host tx placement).row.id]
      false) ((copies.map CopiedRow.row).map VfsNode.id) false)
    (deltas : ∀ id, (folders.get id).getD 0 = tx.folderDelta id +
      (expandCounts (OrderedMap.tally (fileParents (copies.map CopiedRow.row))).entries).count id)
    (counted : nodeDelta = tx.liveNodeDelta + ((copies.map CopiedRow.row).length + 1)) :
    TxInv host effects base scope held
      { tx with
        db :=
          { tx.db with
            nodes := tx.db.nodes ++ [(copyRoot host tx placement).row] ++ copies.map CopiedRow.row
            issued := tx.db.issued + (copyRoot host tx placement :: copies).length
            blobs := Storix.incrementAll
              (sortedCounts (fileBlobs (copies.map CopiedRow.row))) tx.db.blobs }
        changed := changed
        folderFileDeltas := folders
        liveNodeDelta := nodeDelta
        liveFileByteDelta := tx.liveFileByteDelta +
          total fileSize ((copyRoot host tx placement :: copies).map CopiedRow.row) } := by
  generalize isRows : copies.map CopiedRow.row = newRows at *
  have drawn : TxInv host effects base scope held
      { tx with
        db := { tx.db with
          issued := tx.db.issued + (copyRoot host tx placement :: copies).length } } :=
    holds.drawMany (Nat.le_add_right _ _)
  -- The references are counted before the rows are added.
  have taken := (drawn.incrementAll (sortedCounts (fileBlobs newRows)) fun entry isEntry =>
      List.mem_append_left _ (grafted.referenced (isRows ▸
        OrderedMap.mem_of_mem_tally ((sortBy_perm _ _).mem_iff.mp isEntry)))).held_perm
    ((expandCounts_sortedCounts (fileBlobs newRows)).append_right held)
  let counting : MutationTx :=
    { tx with
      db := { tx.db with
        issued := tx.db.issued + (copyRoot host tx placement :: copies).length
        blobs := Storix.incrementAll (sortedCounts (fileBlobs newRows)) tx.db.blobs } }
  have place : GraftPlace host base scope counting tx.db.issued (copyRoot host tx placement) source
      placement.finalSegments :=
    placeable.graftPlace holds valid inScope
      (Nat.lt_add_of_pos_right (List.length_pos_of_mem grafted.root_mem)) rfl
  have isDirectory : (copyRoot host tx placement).row.type ≠ .file := by
    intro isFile
    cases isFile
  have noBlob : fileBlobs ((copyRoot host tx placement :: copies).map CopiedRow.row) =
      fileBlobs newRows := by
    rw [List.map_cons, isRows]
    unfold fileBlobs
    rw [List.filter_cons_of_neg (by simpa using isDirectory)]
  have whole : tx.db.nodes ++ [(copyRoot host tx placement).row] ++ newRows =
      tx.db.nodes ++ (copyRoot host tx placement :: copies).map CopiedRow.row := by
    rw [List.map_cons, isRows, List.append_assoc, List.singleton_append]
  rw [whole]
  refine Grafted.txInv place grafted (Nat.le_refl _) (noBlob ▸ taken) ?_ ?_ ?_ rfl
  · rw [marks, ← isRows, markAll_markAll, List.map_map]
    rfl
  · intro id
    rw [deltas id, (expandCounts_tally _).count_eq, count_fileParents, List.map_cons, isRows]
    change _ = tx.folderDelta id + (fileBelow id _ + total (fileBelow id) newRows)
    have zero : fileBelow id (copyRoot host tx placement).row = 0 := if_neg fun both =>
      isDirectory both.1
    omega
  · rw [counted, ← isRows, List.length_map, List.length_cons]
    rfl

/-- Everything in the source has been copied, once every copied directory is filled. -/
theorem Grafted.covers {nodes rows : List VfsNode} {start now : Nat} {expiresAt : Option Nat}
    {root : CopiedRow} {copies : List CopiedRow} {source : List JsString}
    (grafted : Grafted host nodes start now expiresAt root (root :: copies))
    (rowsOf : CopySource nodes rows source) (rootReached : PathOf nodes root.sourceId source)
    (rootDirectory : root.row.type = .directory)
    (filled : ∀ copy ∈ root :: copies, copy.row.type = .directory →
      Filled rows root.sourceId copies copy.sourceId)
    {id : Uuid} {rest : List JsString} (reached : PathOf nodes id (source ++ rest)) :
    id ∈ (root :: copies).map CopiedRow.sourceId := by
  have tree := rowsOf.tree
  induction rest using List.reverseRecOn generalizing id with
  | nil =>
      rw [List.append_nil] at reached
      rw [PathTo.injective tree reached rootReached]
      exact List.mem_cons_self
  | append_singleton rest name induction =>
      have whole := reached
      rw [← List.append_assoc] at reached
      rcases PathOf.exists_child reached with ⟨node, member, rfl, _, parentId, below, above⟩
      rcases List.mem_map.mp (induction above) with ⟨copy, isCopy, rfl⟩
      have directory : copy.row.type = .directory := by
        rcases grafted.exists_child isCopy with
          rfl | ⟨child, childMember, _, _, isId, _, _, _, same⟩
        · exact rootDirectory
        · rcases tree.exists_parent member below with ⟨parent, parentMember, isParent, isDirectory⟩
          rw [same.type, tree.eq_of_id childMember parentMember (isId.trans isParent.symm)]
          exact isDirectory
      have isRow : node ∈ rows := by
        rcases mem_nodeIds.mp (rowsOf.covers node.id _ whole) with ⟨row, isRow, sameId⟩
        rw [← tree.eq_of_id (rowsOf.within row isRow) member sameId]
        exact isRow
      have notSource : node.id ≠ root.sourceId := by
        intro same
        have paths := PathTo.unique tree whole (same ▸ rootReached)
        simp at paths
      exact List.mem_cons_of_mem _ (filled copy isCopy directory node isRow notSource below)

theorem mem_of_perm_subtree {rootId : Uuid} {nodes rows : List VfsNode} {sourceNode node : VfsNode}
    {source : List JsString} (layout : Layout host nodes rootId) (member : sourceNode ∈ nodes)
    (reached : PathOf nodes sourceNode.id source)
    (perm : rows.Perm ((subtreeRows nodes sourceNode).map TreeRow.node)) :
    node ∈ rows ↔ node ∈ nodes ∧ ∃ rest, PathOf nodes node.id (source ++ rest) := by
  rw [perm.mem_iff, List.mem_map]
  constructor
  · rintro ⟨row, isRow, rfl⟩
    rcases (mem_subtreeRows layout.tree layout.valid member reached).mp isRow
      with ⟨rowMember, rest, rowReached, _⟩
    exact ⟨rowMember, rest, rowReached⟩
  · rintro ⟨nodeMember, rest, nodeReached⟩
    exact ⟨⟨node, joinRelative rest⟩,
      (mem_subtreeRows layout.tree layout.valid member reached).mpr
        ⟨nodeMember, rest, nodeReached, rfl⟩, rfl⟩

theorem CopySource.of_subtree {rootId : Uuid} {nodes rows : List VfsNode} {sourceNode : VfsNode}
    {source : List JsString} (layout : Layout host nodes rootId) (member : sourceNode ∈ nodes)
    (reached : PathOf nodes sourceNode.id source)
    (perm : rows.Perm ((subtreeRows nodes sourceNode).map TreeRow.node)) :
    CopySource nodes rows source where
  tree := layout.tree
  shapes := layout.shapes
  within := fun row isRow => ((mem_of_perm_subtree layout member reached perm).mp isRow).1
  distinct := by
    have nodup := nodup_subtreeRows layout.tree member
    have same := perm.map VfsNode.id
    rw [List.map_map] at same
    exact same.nodup_iff.mpr nodup
  covers := by
    intro id rest below
    rcases PathOf.exists_node below with ⟨node, nodeMember, rfl⟩
    exact mem_nodeIds_of_mem
      ((mem_of_perm_subtree layout member reached perm).mpr ⟨nodeMember, rest, below⟩)

theorem Grafted.copiedTree {placement : Placement} {source : List JsString}
    {expiresAt : Option Nat} {copies : List CopiedRow} {rows : List VfsNode} {next : MutationTx}
    (grafted : Grafted host tx.db.nodes tx.db.issued tx.now expiresAt
      (copyRoot host tx placement) (copyRoot host tx placement :: copies))
    (layout : Layout host tx.db.nodes tx.rootId) (rowsOf : CopySource tx.db.nodes rows source)
    (placeable : Placeable host tx placement source false)
    (isDirectory : placement.sourceNode.type = .directory)
    (filled : ∀ copy ∈ copyRoot host tx placement :: copies, copy.row.type = .directory →
      Filled rows placement.sourceNode.id copies copy.sourceId)
    (nodes : next.db.nodes =
      tx.db.nodes ++ (copyRoot host tx placement :: copies).map CopiedRow.row)
    (tables : next.db = { tx.db with
      nodes := next.db.nodes, blobs := next.db.blobs, issued := next.db.issued }) :
    CopiedTree host tx next source placement.finalSegments expiresAt
      (copyRoot host tx placement :: copies) := by
  have loaded := placeable.loaded
  rcases placeable.free.place with ⟨front, whole, locked⟩
  have rootPlaced : PathOf (tx.db.nodes ++ [(copyRoot host tx placement).row])
      (copyRoot host tx placement).row.id placement.finalSegments := by
    rw [whole]
    exact pathOf_insert_self rfl locked.reached
  refine
    { nodes := nodes, tables := tables, drawn := ?_, sources := grafted.sources_nodup,
      covers := fun id rest => grafted.covers rowsOf loaded.reached rfl filled, copied := ?_ }
  · intro copy isCopy
    rcases grafted.exists_draw rfl isCopy with ⟨index, _, isDraw⟩
    exact ⟨tx.db.issued + index, Nat.le_add_right _ _, isDraw⟩
  · intro copy isCopy
    rcases grafted.inside loaded.reached isCopy with ⟨rest, reached⟩
    have placed := grafted.paths layout.tree loaded.reached rootPlaced isCopy reached
    rw [← nodes] at placed
    rcases grafted.exists_child isCopy with rfl | ⟨child, childMember, _, _, isId, _, _, _, same⟩
    · rcases (layout.shapes _ loaded.member).directory isDirectory with ⟨noBlob, noSize, noMime⟩
      refine ⟨placement.sourceNode, loaded.member, rfl,
        ⟨isDirectory.symm, noBlob.symm, noSize.symm, noMime.symm, ?_⟩, rest, reached, placed⟩
      rw [if_neg (by simp [isDirectory])]
      rfl
    · exact ⟨child, childMember, isId, same, rest, isId ▸ reached, placed⟩

theorem satisfies_copyDirectory {placement : Placement} {source : List JsString} {limit : Nat}
    {expiresAt : Option Nat} (holds : TxInv host effects base scope held tx)
    (placeable : Placeable host tx placement source false)
    (isDirectory : placement.sourceNode.type = .directory)
    (inScope : ∀ rest, scope (placement.finalSegments ++ rest)) :
    Satisfies (copyDirectory host placement.sourceNode placement limit expiresAt)
      (fun _ next => TxInv host effects base scope held next ∧ ∃ copies,
        CopiedTree host tx next source placement.finalSegments expiresAt copies) Expected tx := by
  have loaded := placeable.loaded
  unfold copyDirectory
  rw [satisfies_bind, satisfies_state]
  generalize isRows : ((host.rowOrder (subtreeRows tx.db.nodes placement.sourceNode)).take
    (limit + 1)).map TreeRow.node = rows
  refine satisfies_ite.mpr ⟨fun _ => trivial, fun within => ?_⟩
  have perm : rows.Perm ((subtreeRows tx.db.nodes placement.sourceNode).map TreeRow.node) := by
    rw [← isRows] at within ⊢
    refine (take_perm_of_length_lt host ?_).map _
    rw [List.length_map] at within
    omega
  have inside : ∀ node, node ∈ rows ↔ node ∈ tx.db.nodes ∧
      ∃ rest, PathOf tx.db.nodes node.id (source ++ rest) := fun _ =>
    mem_of_perm_subtree holds.layout loaded.member loaded.reached perm
  have rowsOf : CopySource tx.db.nodes rows source :=
    CopySource.of_subtree holds.layout loaded.member loaded.reached perm
  rw [satisfies_bind]
  refine (satisfies_lift _).mpr ⟨fun _ checked => ?_, fun error failed => ?_⟩
  · have valid : ∀ id rest, PathOf tx.db.nodes id (source ++ rest) →
        ValidPath host (placement.finalSegments ++ rest) := fun id rest reached =>
      assertSubtreeDestinationPaths_valid holds.tree loaded.reached
        (fun node member segments _ isInside => (inside node).mpr ⟨member, segments, isInside⟩)
        checked reached
    rw [satisfies_bind, satisfies_createNode, satisfies_bind]
    refine satisfies_markChanged fun rootChanged rootMarks => ?_
    rw [satisfies_bind]
    let root := copyRoot host tx placement
    let planted : MutationTx :=
      { tx with
        db := { tx.db with nodes := tx.db.nodes ++ [root.row] }
        changed := rootChanged }
    have current : copying planted tx.db.issued [root] =
        { planted with db := { planted.db with issued := tx.db.issued + 1 } } := by
      have noBytes : total fileSize ([root].map CopiedRow.row) = 0 := rfl
      unfold copying
      rw [noBytes, Int.add_zero]
      rfl
    have queued : CopiedTo host planted tx.db.nodes tx.db.issued expiresAt root [root]
        { planted with db := { planted.db with issued := tx.db.issued + 1 } } :=
      ⟨.root, current.symm⟩
    have enough : rows.length < rows.length + 1 + 0 := Nat.lt_succ_self _
    have atSource : PathOf tx.db.nodes placement.sourceNode.id (source ++ []) := by
      rw [List.append_nil]
      exact loaded.reached
    refine (copyLevels_spec rowsOf enough queued ?_ (by simp) ?_ ?_).imp ?_
    · intro task isTask
      rw [List.mem_singleton] at isTask
      exact ⟨root, List.mem_singleton_self _, rfl, isTask⟩
    · intro task isTask
      rw [List.mem_singleton] at isTask
      exact ⟨[], rfl, isTask ▸ atSource⟩
    · intro copy isCopy rest reached
      rw [List.mem_singleton] at isCopy
      rw [isCopy] at reached
      have same := PathTo.unique holds.tree reached atSource
      rw [List.append_cancel_left_eq] at same
      simp [same]
    · rintro copies next ⟨⟨grafted, rfl⟩, rootFilled, filled⟩
      rw [satisfies_bind, satisfies_forEach_insertNode, satisfies_bind]
      refine satisfies_forEach_markChanged fun changed marks => ?_
      rw [satisfies_bind, satisfies_recordLiveNodeDelta, satisfies_bind]
      refine satisfies_forEach_folderDelta _ fun folders deltas => ?_
      rw [satisfies_bind, satisfies_forEach_increment, satisfies_pure]
      change changed.get = markAll rootChanged.get _ false at marks
      rw [rootMarks] at marks
      refine ⟨Grafted.inserted holds placeable valid inScope grafted marks deltas rfl,
        root :: copies, Grafted.copiedTree grafted holds.layout rowsOf placeable isDirectory ?_
          ?_ rfl⟩
      · intro copy isCopy directory
        rcases List.mem_cons.mp isCopy with rfl | isCopy
        · exact rootFilled ⟨placement.sourceNode.id, root.row.id⟩ (List.mem_singleton_self _)
        · exact filled copy isCopy directory
      · exact List.append_assoc _ _ _
  · refine assertSubtreeDestinationPaths_expected ?_ failed
    intro row isRow notSource top
    rcases (inside row).mp isRow with ⟨member, rest, reached⟩
    have isNil := PathOf.eq_nil holds.tree member reached top
    have sourceReached := loaded.reached
    rw [(List.append_eq_nil_iff.mp isNil).1] at sourceReached
    rw [isNil] at reached
    exact notSource (PathTo.injective holds.tree reached sourceReached)

/-- Nothing of the start is inside the place of a copy, so its scope does not count. -/
theorem TxInv.narrow {final : List JsString}
    (holds : TxInv host effects base (fun path => scope path ∨ final <+: path) held tx)
    (vacant : ∀ id, ¬PathOf base.nodes id final) : TxDone host effects base scope held tx :=
  { holds.toTxDone with
    marks :=
      { holds.marks with
        allowed := by
          intro id marked path reached
          rcases holds.marks.allowed id marked path reached with inScope | inside
          · exact inScope
          · rcases PathTo.of_prefix reached inside with ⟨above, aboveReached⟩
            exact absurd aboveReached (vacant above) } }

/-- What a copy did to the tables: the missing parents were added, then a copy of the source at
a free place. -/
structure CopiedFrom (host : Host) (tx next : MutationTx)
    (source destination final : List JsString) (parents : Bool) (expiresAt : Option Nat)
    (middle : MutationTx) (copies : List CopiedRow) : Prop
    extends CopiedTree host middle next source final expiresAt copies where
  grown : Grown tx middle
  planted : Planted tx middle destination.dropLast
  unplanted : parents = false → middle.db = tx.db
  layout : Layout host middle.db.nodes middle.rootId
  found : ∃ id, PathOf middle.db.nodes id source
  apart : ¬source <+: final
  vacant : ∀ id, ¬PathOf middle.db.nodes id final

theorem copyNode_copies {source destination : List JsString} {parents : Bool} {limit : Nat}
    {resolution : DestinationResolution} {expiresAt : Option Nat} (nonempty : source ≠ [])
    (valid : ValidPath host destination) (fromStart : tx.db.nodes = base.nodes)
    (holds : TxInv host effects base (fun front => front <+: destination) held tx) :
    Satisfies (copyNode host source destination parents limit resolution expiresAt)
      (fun _ next => TxDone host effects base (fun front => front <+: destination) held next ∧
        ∃ middle copies, base.issued ≤ middle.db.issued ∧
          CopiedFrom host tx next source destination
            (finalPath tx.db tx.rootId source destination resolution) parents expiresAt middle
              copies)
      Expected tx := by
  unfold copyNode
  rw [satisfies_bind]
  refine (resolveDestinationPlacement_spec nonempty valid holds
    (fun marks => absurd marks Bool.false_ne_true) fun _ => id).imp ?_
  rintro placement middle ⟨⟨inv, grown, placeable, isFinal⟩, unplanted, planted⟩
  rw [← isFinal]
  have vacant : ∀ id, ¬PathOf middle.db.nodes id placement.finalSegments := by
    intro id reached
    rcases placeable.free.place with ⟨front, whole, locked⟩
    rw [whole] at reached
    rcases PathOf.exists_child reached with ⟨node, member, _, sameName, parentId, below, above⟩
    rw [PathTo.injective inv.tree above locked.reached] at below
    exact findChild_eq_none placeable.free.free member below sameName
  have vacantBefore : ∀ id, ¬PathOf base.nodes id placement.finalSegments :=
    fun id reached => vacant id (grown.pathOf (fromStart.symm ▸ reached))
  have wide : TxInv host effects base (fun path => path <+: destination ∨
      placement.finalSegments <+: path) held middle := inv.mono fun _ => .inl
  have result : ∀ {next : MutationTx} {copies : List CopiedRow},
      CopiedTree host middle next source placement.finalSegments expiresAt copies →
      CopiedFrom host tx next source destination placement.finalSegments parents expiresAt middle
        copies := fun tree =>
    { tree with
      grown := grown, planted := planted, unplanted := unplanted, layout := inv.layout,
      found := ⟨_, placeable.loaded.reached⟩, apart := placeable.apart inv.layout,
      vacant := vacant }
  refine satisfies_ite.mpr ⟨fun isFile => ?_, fun notFile => ?_⟩
  · rw [satisfies_bind]
    refine (satisfies_copyFile wide placeable isFile (.inr (List.prefix_refl _))).imp ?_
    rintro _ next ⟨done, copies, tree⟩
    exact ⟨done.narrow vacantBefore, middle, copies, inv.drawn, result tree⟩
  · have isDirectory : placement.sourceNode.type = .directory := by
      cases isType : placement.sourceNode.type with
      | file => exact absurd isType notFile
      | directory => rfl
    rw [satisfies_bind]
    refine (satisfies_copyDirectory wide placeable isDirectory fun rest =>
      .inr (List.prefix_append _ _)).imp ?_
    rintro _ next ⟨done, copies, tree⟩
    exact ⟨done.narrow vacantBefore, middle, copies, inv.drawn, result tree⟩

theorem copyNode_spec {source destination : List JsString} {parents : Bool} {limit : Nat}
    {resolution : DestinationResolution} {expiresAt : Option Nat} (nonempty : source ≠ [])
    (valid : ValidPath host destination) (fromStart : tx.db.nodes = base.nodes)
    (holds : TxInv host effects base (fun front => front <+: destination) held tx) :
    Satisfies (copyNode host source destination parents limit resolution expiresAt)
      (fun _ next => TxDone host effects base (fun front => front <+: destination) held next)
      Expected tx :=
  (copyNode_copies nonempty valid fromStart holds).imp fun _ _ done => done.1

end Storix
