import Mathlib.Data.Set.Card
import Storix.Results.NoTrace

/-! # Moves relocate one subtree

A committed move takes one subtree to its place and leaves every other path. A place
inside the source is refused before a row is written, and the limit counts the nodes of
the subtree, its root included. -/

namespace Storix

open Foundation Foundation.Command

variable {host : Host} {effects : Effects} {base db : Database}
  {scope : List JsString → Prop} {held : List Uuid} {tx : MutationTx}
  {source destination : List JsString} {parents : Bool} {resolution : DestinationResolution}

/-! ## A place inside the source -/

theorem compareSegments_ne_gt {left right : List JsString} (inside : left <+: right) :
    compareSegments left right ≠ .gt := by
  induction left generalizing right with
  | nil =>
      cases right with
      | nil => nofun
      | cons _ _ => nofun
  | cons name rest induction =>
      rcases inside with ⟨deeper, rfl⟩
      have same : JsString.order name name = .eq := by
        simp [JsString.order, JsString.before, List.lt_irrefl name]
      rw [List.cons_append, compareSegments, same]
      exact induction (List.prefix_append _ _)

theorem resolveSource_walks {node : VfsNode} (holds : TxInv host effects base scope held tx)
    (nonempty : source ≠ []) (resolved : resolvePathInManager tx.db tx.rootId source = some node)
    (markAncestors : Bool) (inScope : ∀ front, front <+: source.dropLast → scope front) :
    Satisfies (resolveSource host source markAncestors)
      (fun found last => found = node ∧ TxInv host effects base scope held last ∧
        last.db = tx.db ∧ last.rootId = tx.rootId) (fun _ => False) tx := by
  rcases exists_parent_of_resolved holds.layout nonempty resolved with
    ⟨parent, above, isDirectory, child⟩
  unfold resolveSource
  rw [satisfies_bind]
  refine (lockParentChain_walks false markAncestors holds isDirectory above fun _ => inScope).imp ?_
  rintro _ middle ⟨rfl, inv, ⟨sameDb, sameRoot⟩, locked, _⟩
  rw [satisfies_bind]
  rw [← sameDb] at child
  refine satisfies_lockTargetNode inv locked (fun free => ?_) ?_
  · rw [child] at free
    cases free
  · intro found feedBefore isChild _ _ _ _ tracked _ _
    rw [child] at isChild
    cases isChild
    exact ⟨rfl, tracked, sameDb, sameRoot⟩

theorem lockBoth_refuses {node : VfsNode} (holds : TxInv host effects base scope held tx)
    (nonempty : source ≠ []) (resolved : resolvePathInManager tx.db tx.rootId source = some node)
    (isDirectory : node.type = .directory) (inside : source <+: destination) (markSource : Bool)
    (inScope : ∀ front, front <+: source.dropLast → scope front) :
    Satisfies (lockBoth host source destination parents markSource) (fun _ _ => False)
      (fun error => error = .invalidOperation (joinSegments source)) tx := by
  unfold lockBoth
  rw [if_pos (compareSegments_ne_gt inside), satisfies_bind]
  refine (resolveSource_walks holds nonempty resolved markSource inScope).mono ?_
    fun _ => False.elim
  rintro _ middle ⟨rfl, _⟩
  rw [if_pos ⟨isDirectory, inside⟩]
  rfl

/-- A source and a parent that are there are found, and nothing is written on the way. -/
theorem lockBoth_walks {node parent : VfsNode} (holds : TxInv host effects base scope held tx)
    (nonempty : source ≠ []) (resolved : resolvePathInManager tx.db tx.rootId source = some node)
    (outside : ¬source <+: destination) (isDirectory : parent.type = .directory)
    (above : resolvePathInManager tx.db tx.rootId destination.dropLast = some parent)
    (markSource : Bool) (sourceScope : ∀ front, front <+: source.dropLast → scope front)
    (destinationScope : ∀ front, front <+: destination.dropLast → scope front) :
    Satisfies (lockBoth host source destination parents markSource)
      (fun result last => result = (node, parent.id) ∧ TxInv host effects base scope held last ∧
        last.db = tx.db ∧ Locked last parent.id destination.dropLast) (fun _ => False) tx := by
  unfold lockBoth
  refine satisfies_ite.mpr ⟨fun _ => ?_, fun _ => ?_⟩
  · rw [satisfies_bind]
    refine (resolveSource_walks holds nonempty resolved markSource sourceScope).imp ?_
    rintro _ middle ⟨rfl, inv, sameDb, sameRoot⟩
    rw [if_neg fun refused => outside refused.2, satisfies_bind]
    rw [← sameDb, ← sameRoot] at above
    refine (lockParentChain_walks parents true inv isDirectory above
      fun _ => destinationScope).imp ?_
    rintro _ last ⟨rfl, lastInv, same, locked, _⟩
    exact ⟨rfl, lastInv, same.1.trans sameDb, locked⟩
  · rw [satisfies_bind]
    refine (lockParentChain_walks parents true holds isDirectory above
      fun _ => destinationScope).imp ?_
    rintro _ middle ⟨rfl, inv, ⟨sameDb, sameRoot⟩, locked, _⟩
    rw [satisfies_bind]
    rw [← sameDb, ← sameRoot] at resolved
    have walks := resolveSource_walks inv nonempty resolved markSource sourceScope
    have grows := @resolveSource_spec _ _ _ _ _ _ _ markSource nonempty inv fun _ => sourceScope
    refine (walks.and grows).mono ?_ fun _ refused => refused.1
    rintro _ last ⟨⟨rfl, lastInv, same, _⟩, _, grown, _⟩
    exact ⟨rfl, lastInv, same.trans sameDb, locked.grown grown⟩

theorem placeAt_refuses {node : VfsNode} (valid : ValidPath host source)
    (isDirectory : node.type = .directory) (target : Option VfsNode) (parentId : Uuid)
    (name : JsString) :
    Satisfies (placeAt host node source target true parentId name source) (fun _ _ => False)
      (fun error => error = .invalidOperation (joinSegments source)) tx := by
  have checked : assertPathSegments host source = .ok () := valid
  unfold placeAt
  rw [checked, satisfies_bind, satisfies_lift_ok, if_pos ⟨isDirectory, List.prefix_refl _⟩]
  cases target with
  | none => exact rfl
  | some node =>
      rw [satisfies_bind]
      exact satisfies_markChanged fun _ _ => rfl

/-- The refusal of a destination that would nest the source into its own place. -/
theorem resolveDestinationPlacement_refuses {node target : VfsNode} {name : JsString}
    (holds : TxInv host effects base (transferScope (destination ++ [name]) destination) held tx)
    (resolved : resolvePathInManager tx.db tx.rootId (destination ++ [name]) = some node)
    (isDirectory : node.type = .directory)
    (isTarget : resolvePathInManager tx.db tx.rootId destination = some target)
    (targetDirectory : target.type = .directory) (markSource : Bool) :
    Satisfies (resolveDestinationPlacement host (destination ++ [name]) destination parents
      markSource .nest) (fun _ _ => False)
      (fun error => error = .invalidOperation (joinSegments (destination ++ [name]))) tx ∧
    Satisfies (lockBoth host (destination ++ [name]) destination parents markSource)
      (fun _ last => last.db = tx.db) (fun _ => False) tx := by
  have isName : lastSegment (destination ++ [name]) = name := by simp [lastSegment]
  have valid : ValidPath host (destination ++ [name]) := holds.layout.valid node.id _
    ((resolvePathInManager_eq_some_iff holds.tree holds.layout.root).mp resolved).2
  have outside : ¬destination ++ [name] <+: destination := by
    intro inside
    have short := inside.length_le
    rw [List.length_append, List.length_singleton] at short
    omega
  have above : ∃ parent, resolvePathInManager tx.db tx.rootId destination.dropLast = some parent ∧
      parent.type = .directory ∧ (destination ≠ [] →
        tx.db.findChild parent.id (lastSegment destination) = some target) := by
    by_cases isRoot : destination = []
    · subst isRoot
      exact ⟨target, isTarget, targetDirectory, fun notRoot => absurd rfl notRoot⟩
    · rcases exists_parent_of_resolved holds.layout isRoot isTarget with
        ⟨parent, found, parentDirectory, child⟩
      exact ⟨parent, found, parentDirectory, fun _ => child⟩
  rcases above with ⟨parent, found, parentDirectory, child⟩
  have walks : Satisfies (lockBoth host (destination ++ [name]) destination parents markSource)
      _ (fun _ => False) tx :=
    lockBoth_walks holds (by simp) resolved outside parentDirectory found markSource
      (fun _ isFront => .inl isFront)
      fun _ isFront => .inr (isFront.trans (List.dropLast_prefix _))
  refine ⟨?_, walks.imp fun _ _ walked => walked.2.2.1⟩
  unfold resolveDestinationPlacement
  rw [satisfies_bind]
  refine walks.mono ?_ fun _ => False.elim
  rintro _ middle ⟨rfl, inv, sameDb, locked⟩
  dsimp only
  rw [isName]
  by_cases isRoot : destination = []
  · subst isRoot
    rw [if_pos rfl, if_neg nofun]
    exact placeAt_refuses valid isDirectory none parent.id name
  · rw [if_neg isRoot, satisfies_bind]
    have isChild := child isRoot
    rw [← sameDb] at isChild
    refine satisfies_lockTargetNode inv locked (fun free => ?_) ?_
    · rw [isChild] at free
      cases free
    · intro other feedBefore isOther _ _ _ _ _ _ _
      rw [isChild] at isOther
      cases isOther
      dsimp only
      rw [if_pos ⟨rfl, targetDirectory⟩]
      exact placeAt_refuses valid isDirectory (some target) target.id name

/-- Where the refusal of a place inside the source stands: the steps before it find the
source, and for a place that comes from nesting also the parent, and write no row. -/
def RefusedFirst (host : Host) (source destination : List JsString) (parents : Bool)
    (tx : MutationTx) : Prop :=
  if source <+: destination then
    ∃ node next, resolveSource host source true tx = .ok (node, next) ∧ next.db = tx.db
  else
    ∃ locked next, lockBoth host source destination parents true tx = .ok (locked, next) ∧
      next.db = tx.db

theorem moveNode_refuses {node : VfsNode} (limit : Nat)
    (holds : TxInv host effects base (transferScope source destination) held tx)
    (nonempty : source ≠ []) (resolved : resolvePathInManager tx.db tx.rootId source = some node)
    (isDirectory : node.type = .directory)
    (inside : source <+: destination ∨
      source <+: finalPath tx.db tx.rootId source destination resolution) :
    moveNode host source destination parents limit resolution tx =
        .error (.invalidOperation (joinSegments source)) ∧
      RefusedFirst host source destination parents tx := by
  have sourceScope : ∀ front, front <+: source.dropLast → transferScope source destination front :=
    fun _ isFront => .inl isFront
  unfold RefusedFirst
  by_cases below : source <+: destination
  · rw [if_pos below]
    rcases (lockBoth_refuses holds nonempty resolved isDirectory below true
      sourceScope).exists_error
      fun _ _ => id with ⟨_, refused, rfl⟩
    rcases (resolveSource_walks holds nonempty resolved true sourceScope).exists_ok with
      ⟨found, next, run, _, _, sameDb, _⟩
    exact ⟨bind_of_error (bind_of_error refused), found, next, run, sameDb⟩
  · rw [if_neg below]
    have nested := inside.resolve_left below
    unfold finalPath at nested
    split at nested
    · rename_i nests
      -- Only its own name below its own parent brings a source back to its place.
      have whole : source = destination ++ [lastSegment source] :=
        (List.prefix_concat_iff.mp nested).resolve_right below
      generalize lastSegment source = name at whole
      subst whole
      rcases nests with ⟨rfl, isTarget⟩
      rcases (Option.any_eq_true _ _).mp isTarget with ⟨target, found, targetDirectory⟩
      rcases resolveDestinationPlacement_refuses holds resolved isDirectory found
        (of_decide_eq_true targetDirectory) true with ⟨refuses, walks⟩
      rcases refuses.exists_error fun _ _ => id with ⟨_, refused, rfl⟩
      rcases walks.exists_ok with ⟨locked, next, run, sameDb⟩
      exact ⟨bind_of_error refused, locked, next, run, sameDb⟩
    · exact absurd nested below

/-! ## The relocated subtree -/

/-- The rows of `next` are those of `db` with one subtree at another path, and the missing
parents of the destination. -/
structure Relocated (db next : Database) (source destination final : List JsString)
    (parents : Bool) : Prop where
  found : ∃ id, PathOf db.nodes id source
  inside : ∀ id rest, PathOf db.nodes id (source ++ rest) → PathOf next.nodes id (final ++ rest)
  outside : ∀ id path, PathOf db.nodes id path → ¬source <+: path → PathOf next.nodes id path
  content : ∀ old ∈ db.nodes, ∃ new ∈ next.nodes, SameContent old new
  blobs : next.blobs = db.blobs
  added : ∀ new ∈ next.nodes, new.id ∉ nodeIds db.nodes →
    parents = true ∧ new.type = .directory ∧ ∃ path, path <+: destination.dropLast ∧
      PathOf next.nodes new.id path ∧ ∀ id, ¬PathOf db.nodes id path

theorem settledRow_sameContent (tx : MutationTx) (node : VfsNode) :
    SameContent node (settledRow tx node) := by
  rcases settledRow_content tx node with ⟨type, blobId, size, mimeType, expiresAt, createdAt⟩
  exact ⟨settledRow_id tx node, type, blobId, size, mimeType, expiresAt, createdAt⟩

theorem SameContent.trans {first second third : VfsNode} (left : SameContent first second)
    (right : SameContent second third) : SameContent first third where
  id := right.id.trans left.id
  type := right.type.trans left.type
  blobId := right.blobId.trans left.blobId
  size := right.size.trans left.size
  mimeType := right.mimeType.trans left.mimeType
  expiresAt := right.expiresAt.trans left.expiresAt
  createdAt := right.createdAt.trans left.createdAt

section Relocates

variable {next middle : MutationTx} {final : List JsString} {moved saved : VfsNode}
  {parentId : Uuid}

theorem Relocates.row
    (relocates : Relocates host tx next source destination final parents middle moved saved
      parentId)
    {node : VfsNode} (member : node ∈ middle.db.nodes) :
    ∃ row ∈ next.db.nodes, SameContent node row := by
  rw [relocates.tables]
  refine ⟨rewriteRow saved.id (fun _ => saved) node, List.mem_map_of_mem member, ?_⟩
  unfold rewriteRow
  split
  · rename_i isMoved
    rw [relocates.layout.tree.eq_of_id member relocates.movable.member
      (isMoved.trans relocates.movable.id)]
    exact relocates.content
  · exact .refl node

theorem Relocates.origin
    (relocates : Relocates host tx next source destination final parents middle moved saved
      parentId)
    {row : VfsNode} (member : row ∈ next.db.nodes) :
    ∃ node ∈ middle.db.nodes, SameContent node row := by
  rw [relocates.tables] at member
  rcases mem_movedNodes member with ⟨old, _⟩ | rfl
  · exact ⟨row, old, .refl row⟩
  · exact ⟨moved, relocates.movable.member, relocates.content⟩

theorem Relocates.apart
    (relocates : Relocates host tx next source destination final parents middle moved saved
      parentId)
    (ends : final = destination ∨ final = destination ++ [lastSegment source]) :
    ¬source <+: destination.dropLast := by
  intro inside
  refine relocates.movable.outside (inside.trans ?_)
  rcases ends with rfl | rfl
  · exact List.prefix_refl _
  · rw [List.dropLast_concat]
    exact List.dropLast_prefix _

theorem Relocates.relocated
    (relocates : Relocates host tx next source destination final parents middle moved saved
      parentId)
    (before : Layout host tx.db.nodes tx.rootId)
    (ends : final = destination ∨ final = destination ++ [lastSegment source]) :
    Relocated tx.db next.db source destination final parents := by
  have tree := relocates.layout.tree
  have apart := relocates.apart ends
  have off : ∀ path, path <+: destination.dropLast → ¬source <+: path :=
    fun path isFront inside => apart (inside.trans isFront)
  have sameNodes : next.db.nodes = movedNodes middle.db.nodes saved := by rw [relocates.tables]
  refine
    { found := ⟨moved.id, ?_⟩, inside := ?_, outside := ?_, content := ?_, blobs := ?_,
      added := ?_ }
  · exact relocates.planted.pathOf relocates.grown before.tree tree apart relocates.movable.start
  · intro id rest reached
    rw [sameNodes, relocates.place]
    exact relocates.movable.pathOf_inside tree (relocates.grown.pathOf reached)
  · intro id path reached outside
    rw [sameNodes]
    exact relocates.movable.pathOf_outside tree outside (relocates.grown.pathOf reached)
  · exact fun old member => relocates.row (relocates.grown.mem member)
  · rcases relocates.grown.rows with ⟨rows, issued, isMiddle⟩
    rw [relocates.tables, isMiddle]
  · intro new member isNew
    rcases relocates.origin member with ⟨node, isNode, same⟩
    rw [same.id] at isNew ⊢
    rcases relocates.planted node isNode with old | ⟨isDirectory, path, isFront, reached⟩
    · exact absurd (mem_nodeIds_of_mem old) isNew
    · refine ⟨?_, same.type.trans isDirectory, path, isFront, ?_, ?_⟩
      · by_contra unplanted
        rw [relocates.unplanted (Bool.not_eq_true _ ▸ unplanted)] at isNode
        exact isNew (mem_nodeIds_of_mem isNode)
      · rw [sameNodes]
        exact relocates.movable.pathOf_outside tree (off path isFront) reached
      · intro id taken
        have sameId := PathTo.injective tree (relocates.grown.pathOf taken) reached
        exact isNew (sameId ▸ mem_nodeIds.mpr (PathOf.exists_node taken))

theorem Relocated.settled {last : Database}
    (relocated : Relocated db next.db source destination final parents)
    (done : TxDone host effects base scope held next) (finished : Finished host base next last) :
    Relocated db last source destination final parents := by
  rcases finished.tables with ⟨feedState, feedEvents, issued, _, isLast⟩
  have keeps := done.keepsLinks_settled finished.raisable
  have sameNodes : last.nodes = next.db.nodes.map (settledRow next) := by rw [isLast]; rfl
  have paths : ∀ {id path}, PathOf next.db.nodes id path → PathOf last.nodes id path := by
    intro id path reached
    rw [sameNodes]
    exact keeps.pathOf_iff.mpr reached
  refine
    { found := relocated.found
      inside := fun id rest reached => paths (relocated.inside id rest reached)
      outside := fun id path reached off => paths (relocated.outside id path reached off)
      content := ?_, blobs := ?_, added := ?_ }
  · intro old member
    rcases relocated.content old member with ⟨row, isRow, same⟩
    refine ⟨settledRow next row, ?_, same.trans (settledRow_sameContent next row)⟩
    rw [sameNodes]
    exact List.mem_map_of_mem isRow
  · rw [isLast]
    exact relocated.blobs
  · intro new member isNew
    rw [sameNodes] at member
    rcases List.mem_map.mp member with ⟨row, isRow, rfl⟩
    rw [settledRow_id] at isNew ⊢
    rw [settledRow_type]
    rcases relocated.added row isRow isNew with ⟨creates, isDirectory, path, isFront, reached, free⟩
    exact ⟨creates, isDirectory, path, isFront, paths reached, free⟩

end Relocates

/-! ## The limit -/

noncomputable def subtreeSize (db : Database) (source : List JsString) : Nat :=
  Set.ncard {id : Uuid | ∃ rest, PathOf db.nodes id (source ++ rest)}

theorem subtreeSize_eq {node : VfsNode} {rootId : Uuid} (layout : Layout host db.nodes rootId)
    (member : node ∈ db.nodes) (reached : PathOf db.nodes node.id source) :
    subtreeSize db source = (descendantRows db.nodes node).length + 1 := by
  have nodup := nodup_subtreeRows layout.tree member
  have isList : {id | ∃ rest, PathOf db.nodes id (source ++ rest)} =
      ((subtreeRows db.nodes node).map fun row => row.node.id).toFinset := by
    ext id
    rw [Set.mem_ofPred_eq, Finset.mem_coe, List.mem_toFinset, List.mem_map]
    constructor
    · rintro ⟨rest, inside⟩
      rcases PathOf.exists_node inside with ⟨below, isBelow, rfl⟩
      exact ⟨⟨below, joinRelative rest⟩,
        (mem_subtreeRows layout.tree layout.valid member reached).mpr
          ⟨isBelow, rest, inside, rfl⟩, rfl⟩
    · rintro ⟨row, isRow, rfl⟩
      rcases (mem_subtreeRows layout.tree layout.valid member reached).mp isRow with
        ⟨_, rest, inside, _⟩
      exact ⟨rest, inside⟩
  rw [subtreeSize, isList, Set.ncard_coe_finset, List.toFinset_card_of_nodup nodup, List.length_map,
    subtreeRows_eq_cons, List.length_cons]

section Limit

variable {placement : Placement} {middle : MutationTx}

theorem moveNode_within
    (placed : resolveDestinationPlacement host source destination parents true resolution tx =
      .ok (placement, middle)) {first second : Nat}
    (fits : (descendantRows middle.db.nodes placement.sourceNode).length + 1 ≤ first)
    (alsoFits : (descendantRows middle.db.nodes placement.sourceNode).length + 1 ≤ second) :
    moveNode host source destination parents first resolution tx =
      moveNode host source destination parents second resolution tx := by
  have length :=
    (host.rowOrder_perm (descendantRows middle.db.nodes placement.sourceNode)).length_eq
  have whole : ∀ limit, (descendantRows middle.db.nodes placement.sourceNode).length + 1 ≤ limit →
      (host.rowOrder (descendantRows middle.db.nodes placement.sourceNode)).take limit =
        host.rowOrder (descendantRows middle.db.nodes placement.sourceNode) :=
    fun limit fits => List.take_of_length_le (by omega)
  unfold moveNode
  rw [bind_of_ok placed, bind_of_ok placed]
  by_cases exhausted : MAX_VFS_VERSION ≤ placement.sourceNode.version
  · rw [if_pos exhausted, if_pos exhausted]
  · have read : (state : Mutating MutationTx) middle = .ok (middle, middle) := rfl
    rw [if_neg exhausted, if_neg exhausted, bind_of_ok read, bind_of_ok read, whole first fits,
      whole second alsoFits, if_neg (by omega), if_neg (by omega)]

theorem moveNode_over
    (placed : resolveDestinationPlacement host source destination parents true resolution tx =
      .ok (placement, middle)) (room : ¬MAX_VFS_VERSION ≤ placement.sourceNode.version)
        {limit : Nat}
    (exceeds : limit < (descendantRows middle.db.nodes placement.sourceNode).length + 1) :
    moveNode host source destination parents limit resolution tx =
      .error (.moveLimitExceeded limit) := by
  have length :=
    (host.rowOrder_perm (descendantRows middle.db.nodes placement.sourceNode)).length_eq
  have read : (state : Mutating MutationTx) middle = .ok (middle, middle) := rfl
  have cut : limit < ((host.rowOrder
      (descendantRows middle.db.nodes placement.sourceNode)).take limit).length + 1 := by
    rw [List.length_take]
    omega
  unfold moveNode
  rw [bind_of_ok placed, if_neg room, bind_of_ok read, if_pos cut]
  rfl

theorem moveNode_placed {limit : Nat} {result : VfsNodeRecord × JsString} {next : MutationTx}
    (worked : moveNode host source destination parents limit resolution tx = .ok (result, next)) :
    ∃ placement middle,
      resolveDestinationPlacement host source destination parents true resolution tx =
        .ok (placement, middle) ∧ ¬MAX_VFS_VERSION ≤ placement.sourceNode.version := by
  unfold moveNode at worked
  rcases bind_eq_ok worked with ⟨placement, middle, placed, rest⟩
  refine ⟨placement, middle, placed, fun exhausted => ?_⟩
  rw [if_pos exhausted] at rest
  cases rest

/-- The parents that a transfer adds are not inside its source, so the subtree has the size that
it had at the start. -/
theorem subtreeSize_planted {markSource : Bool} (before : Rooted tx.db.nodes)
    (layout : Layout host middle.db.nodes middle.rootId) (grown : Grown tx middle)
    (placeable : Placeable host middle placement source markSource)
    (isFinal : placement.finalSegments =
      finalPath tx.db tx.rootId source destination resolution)
    (planted : Planted tx middle destination.dropLast) :
    subtreeSize tx.db source =
      (descendantRows middle.db.nodes placement.sourceNode).length + 1 := by
  have apart : ¬source <+: destination.dropLast := by
    intro inside
    refine placeable.apart layout ?_
    rw [isFinal]
    have short := inside.trans (List.dropLast_prefix destination)
    rcases finalPath_cases tx.db tx.rootId source destination resolution with same | same
    · rw [same]
      exact short
    · rw [same]
      exact short.trans (List.prefix_append _ _)
  have sameIds : ∀ id, (∃ rest, PathOf tx.db.nodes id (source ++ rest)) ↔
      ∃ rest, PathOf middle.db.nodes id (source ++ rest) := by
    intro id
    constructor
    · rintro ⟨rest, reached⟩
      exact ⟨rest, grown.pathOf reached⟩
    · rintro ⟨rest, reached⟩
      refine ⟨rest, planted.pathOf grown before layout.tree (fun inside => apart ?_) reached⟩
      exact (List.prefix_append _ _).trans inside
  have sameSize : subtreeSize tx.db source = subtreeSize middle.db source := by
    unfold subtreeSize
    exact congrArg Set.ncard (Set.ext sameIds)
  rw [sameSize]
  exact subtreeSize_eq layout placeable.loaded.member placeable.loaded.reached

theorem subtreeSize_of_placed (nonempty : source ≠ []) (valid : ValidPath host destination)
    (holds : TxInv host effects base (transferScope source destination) held tx)
    (placed : resolveDestinationPlacement host source destination parents true resolution tx =
      .ok (placement, middle)) :
    subtreeSize tx.db source =
      (descendantRows middle.db.nodes placement.sourceNode).length + 1 := by
  rcases (resolveDestinationPlacement_spec nonempty valid holds (fun _ _ => .inl)
    fun _ => .inr).of_ok placed with ⟨⟨inv, grown, placeable, isFinal⟩, _, planted⟩
  exact subtreeSize_planted holds.tree inv.layout grown placeable isFinal planted

theorem moveNode_eq_of_fits (nonempty : source ≠ []) (valid : ValidPath host destination)
    (holds : TxInv host effects base (transferScope source destination) held tx)
    {first second : Nat}
    (fits : subtreeSize tx.db source ≤ first) (alsoFits : subtreeSize tx.db source ≤ second) :
    moveNode host source destination parents first resolution tx =
      moveNode host source destination parents second resolution tx := by
  cases placed : resolveDestinationPlacement host source destination parents true resolution tx with
  | error error =>
      unfold moveNode
      rw [bind_of_error placed, bind_of_error placed]
  | ok pair =>
      rw [subtreeSize_of_placed nonempty valid holds placed] at fits alsoFits
      exact moveNode_within placed fits alsoFits

theorem moveNode_limit (nonempty : source ≠ []) (valid : ValidPath host destination)
    (holds : TxInv host effects base (transferScope source destination) held tx) {limit : Nat}
    {result : VfsNodeRecord × JsString} {next : MutationTx}
    (worked : moveNode host source destination parents limit resolution tx = .ok (result, next))
    (other : Nat) :
    moveNode host source destination parents other resolution tx =
      if subtreeSize tx.db source ≤ other then .ok (result, next)
      else .error (.moveLimitExceeded other) := by
  rcases moveNode_placed worked with ⟨placement, middle, placed, room⟩
  have size := subtreeSize_of_placed nonempty valid holds placed
  have within : subtreeSize tx.db source ≤ limit := by
    by_contra exceeds
    rw [moveNode_over placed room (by omega)] at worked
    cases worked
  split
  · rename_i fits
    rw [moveNode_eq_of_fits nonempty valid holds fits within, worked]
  · rename_i exceeds
    exact moveNode_over placed room (by omega)

end Limit

/-! ## Moves as requests -/

theorem Mutation.ignore_congr {α : Type} {first second : Mutating α}
    (same : first tx = second tx) : Mutation.ignore first tx = Mutation.ignore second tx :=
  bind_congr_of_eq same

section Requests

variable {root : VfsNode} {now : Nat} {first second : Mutation host}
  {afterBump : MutationTx → Unit → List AffectedRevision → Except VfsError Unit}

theorem Reachable.run_congr (reached : Reachable host db) (isRoot : db.findRoot = some root)
    (firstActive : first.allowInactive = false) (secondActive : second.allowInactive = false)
    (same : first.work (.start db root.id now) = second.work (.start db root.id now)) :
    first.run now afterBump db = second.run now afterBump db := by
  rw [reached.run_eq isRoot firstActive, reached.run_eq isRoot secondActive, same]

theorem Reachable.run_error (reached : Reachable host db) (isRoot : db.findRoot = some root)
    (isActive : first.allowInactive = false) {error : VfsError}
    (failed : first.work (.start db root.id now) = .error error) :
    first.run now afterBump db = .error error := by
  rw [reached.run_eq isRoot isActive, failed]

end Requests

/-- A committed move relocates exactly one subtree, and it would commit the same under every
limit that the subtree fits in and be refused under every other. A limit that the subtree
fits in plays no role in any outcome. A directory is refused a place at or below its own, and
no row is written before that. -/
theorem move_relocates_one_subtree {root : VfsNode} (reached : Reachable host db)
    (isRoot : db.findRoot = some root) (source : NodePath host) (destination : ResolvedPath host)
    (parents : Bool) (resolution : DestinationResolution) (now : Nat)
    (afterBump : MutationTx → Unit → List AffectedRevision → Except VfsError Unit) :
    (∀ limit committed,
      (Mutation.move source destination parents limit resolution).run now afterBump db =
        .ok committed →
      Relocated db committed.db source.segments destination.segments
        (finalPath db root.id source.segments destination.segments resolution) parents ∧
      ∀ other, (Mutation.move source destination parents other resolution).run now afterBump db =
        if subtreeSize db source.segments ≤ other then .ok committed
        else .error (.moveLimitExceeded other)) ∧
    (∀ limit other, subtreeSize db source.segments ≤ limit →
      subtreeSize db source.segments ≤ other →
      (Mutation.move source destination parents limit resolution).run now afterBump db =
        (Mutation.move source destination parents other resolution).run now afterBump db) ∧
    ∀ node ∈ db.nodes, PathOf db.nodes node.id source.segments → node.type = .directory →
      source.segments <+: destination.segments ∨
        source.segments <+:
          finalPath db root.id source.segments destination.segments resolution →
      (∀ limit, (Mutation.move source destination parents limit resolution).run now afterBump db =
        .error (.invalidOperation source.canonical)) ∧
      RefusedFirst host source.segments destination.segments parents (.start db root.id now) := by
  have consistent := reached.consistent
  have holds : TxInv host .any db
      (transferScope source.segments destination.segments) [] (.start db root.id now) :=
    TxInv.initial consistent isRoot now _
  refine ⟨fun limit committed result => ?_, fun limit other fits alsoFits => ?_,
    fun node member isSource isDirectory inside => ?_⟩
  · rcases Mutation.run_eq_ok consistent result with ⟨tx, wrote, finished⟩
    rcases wrote.work with ⟨_, isOther, worked⟩
    cases isRoot.symm.trans isOther
    rcases bind_eq_ok worked with ⟨value, last, moved, ends⟩
    cases ends
    rcases (moveNode_relocates source.nonempty destination.valid holds).of_ok moved with
      ⟨_, middle, node, saved, parentId, relocates⟩
    refine ⟨(relocates.relocated holds.layout (finalPath_cases ..)).settled wrote.done finished,
      fun other => ?_⟩
    have outcome := moveNode_limit source.nonempty destination.valid holds moved other
    split
    · rename_i fits
      rw [← result]
      refine reached.run_congr isRoot rfl rfl (Mutation.ignore_congr ?_)
      rw [outcome, moved]
      exact if_pos fits
    · rename_i exceeds
      exact reached.run_error isRoot rfl (bind_of_error (outcome.trans (if_neg exceeds)))
  · exact reached.run_congr isRoot rfl rfl (Mutation.ignore_congr
      (moveNode_eq_of_fits source.nonempty destination.valid holds fits alsoFits))
  · have resolved : resolvePathInManager db root.id source.segments = some node :=
      (resolvePathInManager_eq_some_iff holds.tree holds.layout.root).mpr ⟨member, isSource⟩
    refine ⟨fun limit => reached.run_error isRoot rfl (bind_of_error ?_), ?_⟩
    · exact (moveNode_refuses limit holds source.nonempty resolved isDirectory inside).1
    · exact (moveNode_refuses 0 holds source.nonempty resolved isDirectory inside).2

namespace Small

theorem validPath_elsewhere : ValidPath Host.counting [[0x65]] := by
  decide +kernel

/-- `/e` -/
def elsewhere : ResolvedPath Host.counting :=
  ⟨[[0x65]], validPath_elsewhere⟩

/-- `/d/d` -/
def inside : ResolvedPath Host.counting :=
  ⟨[[0x64], [0x64]], by decide +kernel⟩

/-- The directory `/d` with its file goes to `/e`, and not below itself. -/
theorem move_relocates_one_subtree_renamed :
    (∃ committed, (Mutation.move directory elsewhere false 2 .exact).run 3 (fun _ _ _ => .ok ())
        oneFile = .ok committed ∧
      Relocated oneFile committed.db directory.segments elsewhere.segments elsewhere.segments
        false) ∧
    (Mutation.move directory inside true 2 .exact).run 3 (fun _ _ _ => .ok ()) oneFile =
      .error (.invalidOperation directory.canonical) := by
  cases isRoot : oneFile.findRoot with
  | none => exact absurd isRoot (by decide +kernel)
  | some root =>
      constructor
      · cases result :
          (Mutation.move directory elsewhere false 2 .exact).run 3 (fun _ _ _ => .ok ())
            oneFile with
        | error error =>
            have commits : ((Mutation.move directory elsewhere false 2 .exact).run 3
              (fun _ _ _ => .ok ()) oneFile).toOption.isSome = true := by decide +kernel
            rw [result] at commits
            cases commits
        | ok committed =>
            exact ⟨committed, rfl, ((move_relocates_one_subtree reachable_oneFile isRoot directory
              elsewhere false .exact 3 _).1 2 committed result).1⟩
      · have rootId : oneFile.findRoot.map VfsNode.id = some 0 := by decide +kernel
        rw [isRoot] at rootId
        have isDirectory : (resolvePathInManager oneFile 0 directory.segments).map VfsNode.type =
            some .directory := by decide +kernel
        rw [← Option.some.inj rootId] at isDirectory
        cases existing : resolvePathInManager oneFile root.id directory.segments with
        | none =>
            rw [existing] at isDirectory
            cases isDirectory
        | some node =>
            rw [existing] at isDirectory
            have start : TxInv Host.counting .any oneFile (fun _ => False) []
                (.start oneFile root.id 3) :=
              TxInv.initial reachable_oneFile.consistent isRoot 3 _
            rcases (resolvePathInManager_eq_some_iff start.tree start.layout.root).mp existing with
              ⟨member, reached⟩
            exact ((move_relocates_one_subtree reachable_oneFile isRoot directory inside true
              .exact 3
              _).2.2 node member reached (Option.some.inj isDirectory)
              (.inl (List.prefix_append [[0x64]] [[0x64]]))).1 2

end Small

end Storix
