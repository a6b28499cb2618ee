import Storix.Invariants.Content

/-! # Where a move or copy goes

The source and the destination of a move or a copy, locked in either order, and
the checks that leave a free, valid place outside the source. -/

namespace Storix

open Foundation Foundation.Command

variable {host : Host} {effects : Effects} {base : Database}
  {scope : List JsString → Prop} {held : List Uuid}
  {tx : MutationTx} {fault : VfsError → Prop}

structure Source (tx : MutationTx) (node : VfsNode) (segments : List JsString)
    (markAncestors : Bool) : Prop where
  member : node ∈ tx.db.nodes
  reached : PathOf tx.db.nodes node.id segments
  seen : tx.Seen node.id
  parent : ∃ parentId, node.parentId = some parentId ∧
    (markAncestors = true → tx.changed.get parentId ≠ none)

theorem Source.grown {next : MutationTx} {node : VfsNode} {segments : List JsString}
    {markAncestors : Bool} (source : Source tx node segments markAncestors)
    (grown : Grown tx next) : Source next node segments markAncestors where
  member := grown.mem source.member
  reached := grown.pathOf source.reached
  seen := grown.seen node.id source.seen
  parent := by
    rcases source.parent with ⟨parentId, below, marked⟩
    exact ⟨parentId, below, fun marks => grown.marked parentId (marked marks)⟩

theorem resolveSource_spec {segments : List JsString} {markAncestors : Bool}
    (nonempty : segments ≠ []) (holds : TxInv host effects base scope held tx)
    (inScope : markAncestors = true → ∀ front, front <+: segments.dropLast → scope front) :
    Satisfies (resolveSource host segments markAncestors)
      (fun node next => TxInv host effects base scope held next ∧ Grown tx next ∧
        Source next node segments markAncestors ∧ next.db = tx.db) Expected tx := by
  have whole := dropLast_append_lastSegment nonempty
  unfold resolveSource
  rw [satisfies_bind]
  refine (lockParentChain_spec holds (fun isTrue => by cases isTrue) fun marks =>
    inScope (marks.resolve_left Bool.false_ne_true)).imp ?_
  rintro parentId next ⟨inv, grown, locked, marked, same, _⟩
  rw [satisfies_bind]
  refine satisfies_lockTargetNode inv locked (fun _ => trivial) ?_
  intro node feedBefore _ member below _ reached tracked trackedGrown seen
  rw [whole] at reached
  exact ⟨tracked, grown.trans trackedGrown, ⟨member, reached, seen, parentId, below, marked⟩,
    same rfl⟩

theorem lockBoth_spec {source destination : List JsString} {parents markSource : Bool}
    (nonempty : source ≠ []) (valid : ValidPath host destination)
    (holds : TxInv host effects base scope held tx)
    (sourceScope : markSource = true → ∀ front, front <+: source.dropLast → scope front)
    (destinationScope : ∀ front, front <+: destination.dropLast → scope front) :
    Satisfies (lockBoth host source destination parents markSource)
      (fun result next => TxInv host effects base scope held next ∧ Grown tx next ∧
        Source next result.1 source markSource ∧
        Locked next result.2 destination.dropLast ∧ next.changed.get result.2 ≠ none ∧
        (parents = false → next.db = tx.db) ∧ Planted tx next destination.dropLast)
      Expected tx := by
  have validAbove : parents = true → ValidPath host destination.dropLast := fun _ =>
    valid.of_prefix (List.dropLast_prefix _)
  unfold lockBoth
  refine satisfies_ite.mpr ⟨fun _ => ?_, fun _ => ?_⟩
  · rw [satisfies_bind]
    refine (resolveSource_spec nonempty holds sourceScope).imp ?_
    rintro node middle ⟨inv, grown, loaded, same⟩
    refine satisfies_ite.mpr ⟨fun _ => trivial, fun _ => ?_⟩
    rw [satisfies_bind]
    refine (lockParentChain_spec inv validAbove fun _ => destinationScope).imp ?_
    rintro parentId next ⟨nextInv, nextGrown, locked, marked, nextSame, planted⟩
    rw [satisfies_pure]
    rw [same] at nextSame
    have fromStart := (Planted.of_nodes (congrArg Database.nodes same) _).trans nextGrown planted
    exact ⟨nextInv, grown.trans nextGrown, loaded.grown nextGrown, locked, marked rfl, nextSame,
      fromStart⟩
  · rw [satisfies_bind]
    refine (lockParentChain_spec holds validAbove fun _ => destinationScope).imp ?_
    rintro parentId middle ⟨inv, grown, locked, marked, same, planted⟩
    rw [satisfies_bind]
    refine (resolveSource_spec nonempty inv sourceScope).imp ?_
    rintro node next ⟨nextInv, nextGrown, loaded, nextSame⟩
    rw [satisfies_pure]
    exact ⟨nextInv, grown.trans nextGrown, loaded, locked.grown nextGrown,
      nextGrown.marked parentId (marked rfl), fun isFalse => nextSame.trans (same isFalse),
      planted.trans nextGrown (.of_nodes (congrArg Database.nodes nextSame) _)⟩

structure PlaceFree (host : Host) (tx : MutationTx) (parentId : Uuid) (name : JsString)
    (final : List JsString) : Prop where
  place : ∃ front, final = front ++ [name] ∧ Locked tx parentId front
  marked : tx.changed.get parentId ≠ none
  free : tx.db.findChild parentId name = none
  valid : ValidPath host final

structure Placeable (host : Host) (tx : MutationTx) (placement : Placement)
    (source : List JsString) (markSource : Bool) : Prop where
  loaded : Source tx placement.sourceNode source markSource
  free : PlaceFree host tx placement.finalParentId placement.finalName placement.finalSegments
  outside : placement.sourceNode.type = .directory → ¬source <+: placement.finalSegments

theorem TxInv.markOne (holds : TxInv host effects base scope held tx) {node : VfsNode}
    (member : node ∈ tx.db.nodes) (seen : tx.Seen node.id)
    (parentMarked : ∀ id, node.parentId = some id → tx.changed.get id ≠ none)
    {path : List JsString} (reached : PathOf tx.db.nodes node.id path) (inScope : scope path)
    {changed : OrderedMap Uuid Bool}
    (marks : changed.get = markAll tx.changed.get [node.id] true) :
    TxInv host effects base scope held { tx with changed := changed } := by
  have chain : ∀ id ∈ tx.ancestorChainMarked, id ∈ tx.ancestorChainMarked ∨ id ∈ [node.id] :=
    fun id inside => .inl inside
  refine holds.ancestors marks ?_ ?_ ?_ chain
  · intro other otherMember inside parentId below
    rw [List.mem_singleton] at inside
    rw [holds.tree.eq_of_id otherMember member inside] at below
    exact .inr (parentMarked parentId below)
  · intro id inside
    rw [List.mem_singleton] at inside
    exact inside ▸ seen
  · intro id inside
    rw [List.mem_singleton] at inside
    exact ⟨path, inside ▸ reached, inScope⟩

theorem assertPathSegments_expected {path : List JsString} {error : VfsError}
    (failed : assertPathSegments host path = .error error) : Expected error := by
  unfold assertPathSegments at failed
  split at failed
  · cases failed
    trivial
  · split at failed
    · cases failed
      trivial
    · cases failed

def Placed (host : Host) (effects : Effects) (base : Database)
    (scope : List JsString → Prop) (held : List Uuid) (tx : MutationTx)
    (source final : List JsString) (markSource : Bool)
    (placement : Placement) (next : MutationTx) : Prop :=
  TxInv host effects base scope held next ∧ Grown tx next ∧
    Placeable host next placement source markSource ∧ placement.finalSegments = final

theorem placeAt_nested_spec {sourceNode : VfsNode} {source front : List JsString}
    {markSource : Bool} {finalParentId : Uuid} {name : JsString} {target : Option VfsNode}
    (final : List JsString) (whole : front ++ [name] = final)
    (holds : TxInv host effects base scope held tx)
    (loaded : Source tx sourceNode source markSource)
    (locked : Locked tx finalParentId front)
    (marking : (target = none ∧ tx.changed.get finalParentId ≠ none) ∨
      ∃ node, target = some node ∧ node.id = finalParentId ∧ node ∈ tx.db.nodes ∧ scope front ∧
        ∀ id, node.parentId = some id → tx.changed.get id ≠ none) :
    Satisfies (placeAt host sourceNode source target true finalParentId name final)
      (fun placement next =>
        Placed host effects base scope held tx source final markSource placement next ∧
          next.db = tx.db) Expected tx := by
  subst whole
  -- The rest is the same whether the target is marked here or, as the root, was before.
  have rest : ∀ (ending : Option VfsNode → Mutating Placement) middle,
      ending none = pure ⟨sourceNode, finalParentId, name, front ++ [name]⟩ →
      (∀ node, ending (some node) = stop (.alreadyExists (joinSegments (front ++ [name])))) →
      TxInv host effects base scope held middle → Grown tx middle → middle.db = tx.db →
      middle.changed.get finalParentId ≠ none → ValidPath host (front ++ [name]) →
      Satisfies
        (if sourceNode.type = .directory ∧ source <+: front ++ [name] then
          stop (.invalidOperation (joinSegments source))
        else lockTargetNode host finalParentId name >>= ending)
        (fun placement next =>
          Placed host effects base scope held tx source (front ++ [name]) markSource placement
            next ∧
            next.db = tx.db) Expected middle := by
    intro ending middle isNone isSome inv grown same marked valid
    refine satisfies_ite.mpr ⟨fun _ => trivial, fun outside => ?_⟩
    rw [satisfies_bind]
    refine satisfies_lockTargetNode inv (locked.grown grown) (fun free => ?_)
      fun node _ _ _ _ _ _ _ _ _ => (isSome node).symm ▸ trivial
    rw [isNone, satisfies_pure]
    refine ⟨⟨inv, grown, ⟨loaded.grown grown,
      ⟨⟨front, rfl, locked.grown grown⟩, marked, free, valid⟩, ?_⟩, rfl⟩, same⟩
    exact fun directory isFront => outside ⟨directory, isFront⟩
  unfold placeAt
  rw [satisfies_bind]
  refine (satisfies_lift _).mpr
    ⟨fun _ valid => ?_, fun error failed => assertPathSegments_expected failed⟩
  rcases marking with ⟨rfl, marked⟩ | ⟨node, rfl, same, member, inScope, parentMarked⟩
  · exact rest _ tx rfl (fun _ => rfl) holds (.refl tx) rfl marked valid
  · rw [satisfies_bind]
    refine satisfies_markChanged fun changed marks => ?_
    have weaken : ∀ id, tx.changed.get id ≠ none → changed.get id ≠ none := by
      intro id marked
      rw [marks, markAll_ne_none_iff]
      exact .inl marked
    refine rest _ _ rfl (fun _ => rfl) (holds.markOne member (same ▸ locked.seen) parentMarked
      (same ▸ locked.reached) inScope marks) (grown_changed weaken) rfl ?_ valid
    change changed.get finalParentId ≠ none
    rw [marks, markAll_ne_none_iff]
    exact .inr (by simp [same])

theorem placeAt_exact_spec {sourceNode : VfsNode} {source front : List JsString}
    {markSource : Bool} {finalParentId : Uuid} {name : JsString} {target : Option VfsNode}
    (final : List JsString) (whole : front ++ [name] = final)
    (holds : TxInv host effects base scope held tx)
    (loaded : Source tx sourceNode source markSource)
    (locked : Locked tx finalParentId front) (marked : tx.changed.get finalParentId ≠ none)
    (free : target = none → tx.db.findChild finalParentId name = none) :
    Satisfies (placeAt host sourceNode source target false finalParentId name final)
      (fun placement next =>
        Placed host effects base scope held tx source final markSource placement next ∧
          next.db = tx.db) Expected tx := by
  subst whole
  unfold placeAt
  rw [satisfies_bind]
  refine (satisfies_lift _).mpr
    ⟨fun _ valid => ?_, fun error failed => assertPathSegments_expected failed⟩
  refine satisfies_ite.mpr ⟨fun _ => trivial, fun outside => ?_⟩
  rw [if_neg (by simp)]
  cases target with
  | some node => trivial
  | none =>
      refine ⟨⟨holds, .refl tx, ⟨loaded, ⟨⟨front, rfl, locked⟩, marked, free rfl, valid⟩, ?_⟩, rfl⟩,
        rfl⟩
      exact fun directory isFront => outside ⟨directory, isFront⟩

def transferScope (source destination front : List JsString) : Prop :=
  front <+: source.dropLast ∨ front <+: destination

/-- The path that a source ends at: below a directory that it may be nested into, else the
destination itself. -/
def finalPath (db : Database) (rootId : Uuid) (source destination : List JsString)
    (resolution : DestinationResolution) : List JsString :=
  if resolution = .nest ∧
      (resolvePathInManager db rootId destination).any fun node => node.type = .directory then
    destination ++ [lastSegment source]
  else destination

theorem finalPath_cases (db : Database) (rootId : Uuid) (source destination : List JsString)
    (resolution : DestinationResolution) :
    finalPath db rootId source destination resolution = destination ∨
      finalPath db rootId source destination resolution = destination ++ [lastSegment source] := by
  unfold finalPath
  split
  · exact .inr rfl
  · exact .inl rfl

theorem Planted.pathOf {next : MutationTx} {path other : List JsString} {id : Uuid}
    (planted : Planted tx next path) (grown : Grown tx next) (before : Rooted tx.db.nodes)
    (tree : Rooted next.db.nodes) (off : ¬other <+: path)
    (reached : PathOf next.db.nodes id other) :
    PathOf tx.db.nodes id other := by
  rcases PathOf.exists_node reached with ⟨node, member, rfl⟩
  rcases planted node member with old | ⟨_, front, isFront, frontReached⟩
  · rcases before.exists_path old with ⟨path, oldReached⟩
    rw [PathTo.unique tree reached (grown.pathOf oldReached)]
    exact oldReached
  · rw [PathTo.unique tree frontReached reached] at isFront
    exact absurd isFront off

/-- After the parents are locked, the target is the node that the path had before. -/
theorem Planted.target {next : MutationTx} {segments : List JsString} {parentId : Uuid}
    (planted : Planted tx next segments.dropLast) (grown : Grown tx next)
    (before : Layout host tx.db.nodes tx.rootId) (tree : Rooted next.db.nodes)
    (nonempty : segments ≠ []) (locked : Locked next parentId segments.dropLast) :
    next.db.findChild parentId (lastSegment segments) =
      resolvePathInManager tx.db tx.rootId segments := by
  have whole := dropLast_append_lastSegment nonempty
  have resolves : ∀ node, resolvePathInManager tx.db tx.rootId segments = some node ↔
      node ∈ tx.db.nodes ∧ PathOf tx.db.nodes node.id segments :=
    fun node => resolvePathInManager_eq_some_iff before.tree before.root
  cases found : next.db.findChild parentId (lastSegment segments) with
  | some node =>
      rcases findChild_eq_some found with ⟨member, below, sameName⟩
      have reached := PathOf.child member below locked.reached
      rw [sameName, whole] at reached
      have off : ¬segments <+: segments.dropLast := by
        intro isFront
        have short := isFront.length_le
        rw [List.length_dropLast] at short
        have := List.length_pos_of_ne_nil nonempty
        omega
      have older := planted.pathOf grown before.tree tree off reached
      rcases PathOf.exists_node older with ⟨old, isOld, sameId⟩
      rw [← tree.eq_of_id (grown.mem isOld) member sameId] at older ⊢
      exact ((resolves old).mpr ⟨isOld, older⟩).symm
  | none =>
      cases resolved : resolvePathInManager tx.db tx.rootId segments with
      | none => rfl
      | some node =>
          have later := grown.pathOf ((resolves node).mp resolved).2
          rw [← whole] at later
          rcases PathOf.exists_child later with
            ⟨child, childMember, _, sameName, above, below, aboveReached⟩
          rw [PathTo.injective tree aboveReached locked.reached] at below
          exact absurd sameName (findChild_eq_none found childMember below)

/-- The place a move or copy ends at: the destination, or below it under the
source's name. -/
theorem resolveDestinationPlacement_spec {source destination : List JsString}
    {parents markSource : Bool} {resolution : DestinationResolution}
    (nonempty : source ≠ []) (valid : ValidPath host destination)
    (holds : TxInv host effects base scope held tx)
    (sourceScope : markSource = true → ∀ front, front <+: source.dropLast → scope front)
    (destinationScope : ∀ front, front <+: destination → scope front) :
    Satisfies
      (resolveDestinationPlacement host source destination parents markSource resolution)
      (fun placement next =>
        Placed host effects base scope held tx source
          (finalPath tx.db tx.rootId source destination resolution) markSource placement next ∧
        (parents = false → next.db = tx.db) ∧ Planted tx next destination.dropLast)
      Expected tx := by
  have below : ∀ front, front <+: destination.dropLast → scope front :=
    fun front isFront => destinationScope front (isFront.trans (List.dropLast_prefix _))
  unfold resolveDestinationPlacement
  rw [satisfies_bind]
  refine (lockBoth_spec nonempty valid holds sourceScope below).imp ?_
  rintro ⟨sourceNode, parentId⟩ middle ⟨inv, grown, loaded, locked, marked, same, planted⟩
  have widen : ∀ {after placement next final}, Grown tx after → after.db = middle.db →
      finalPath tx.db tx.rootId source destination resolution = final →
      Placed host effects base scope held after source final markSource placement next ∧
        next.db = after.db →
      Placed host effects base scope held tx source
        (finalPath tx.db tx.rootId source destination resolution) markSource placement next ∧
      (parents = false → next.db = tx.db) ∧ Planted tx next destination.dropLast := by
    rintro after placement next final first fromMiddle rfl ⟨placed, sameDb⟩
    have later := sameDb.trans fromMiddle
    refine ⟨⟨placed.1, first.trans placed.2.1, placed.2.2⟩, fun isFalse =>
      later.trans (same isFalse),
      ?_⟩
    unfold Planted
    rw [later]
    exact planted
  refine satisfies_ite.mpr ⟨fun isRoot => ?_, fun notRoot => ?_⟩
  · subst isRoot
    refine satisfies_ite.mpr ⟨fun _ => trivial, fun nests => ?_⟩
    have isFinal : finalPath tx.db tx.rootId source [] resolution = [lastSegment source] := by
      rcases holds.layout.exists_root with ⟨root, member, isRoot, _, isDirectory⟩
      have resolved : resolvePathInManager tx.db tx.rootId [] = some root :=
        (resolvePathInManager_eq_some_iff holds.tree holds.layout.root).mpr
          ⟨member, isRoot ▸ holds.layout.root⟩
      have nested : resolution = .nest := by
        cases resolution with
        | nest => rfl
        | exact => exact absurd rfl nests
      rw [finalPath, resolved, if_pos ⟨nested, by simp [isDirectory]⟩, List.nil_append]
    refine (placeAt_nested_spec [lastSegment source] (List.nil_append _) inv loaded locked
      (.inl ⟨rfl, marked⟩)).imp ?_
    exact fun placement next placed => widen grown rfl isFinal placed
  · have whole := dropLast_append_lastSegment notRoot
    have sameTarget := planted.target grown holds.layout inv.tree notRoot locked
    rw [satisfies_bind]
    refine satisfies_lockTargetNode inv locked (fun free => ?_) ?_
    · have isFinal : finalPath tx.db tx.rootId source destination resolution = destination := by
        rw [finalPath, ← sameTarget, free]
        simp
      refine (placeAt_exact_spec destination whole inv loaded locked marked fun _ => free).imp ?_
      exact fun placement next placed => widen grown rfl isFinal placed
    · intro target feedBefore found member isBelow _ reached tracked trackedGrown seen
      rw [whole] at reached
      refine satisfies_ite.mpr ⟨fun nested => ?_, fun exact => ?_⟩
      · have isDirectory : Locked { middle with feedBefore := feedBefore } target.id destination :=
          ⟨⟨target, member, rfl, nested.2⟩, reached, seen⟩
        have inside : scope destination := destinationScope _ (List.prefix_refl _)
        have isFinal : finalPath tx.db tx.rootId source destination resolution =
            destination ++ [lastSegment source] := by
          rw [finalPath, ← sameTarget, found, if_pos ⟨nested.1, by simp [nested.2]⟩]
        refine (placeAt_nested_spec (destination ++ [lastSegment source]) rfl tracked
          (loaded.grown trackedGrown) isDirectory
          (.inr ⟨target, rfl, rfl, member, inside, fun id isParent => ?_⟩)).imp ?_
        · rw [isBelow] at isParent
          cases isParent
          exact marked
        · exact fun placement next placed => widen (grown.trans trackedGrown) rfl isFinal placed
      · have isFinal : finalPath tx.db tx.rootId source destination resolution = destination := by
          rw [finalPath, ← sameTarget, found, if_neg fun nests => exact ⟨nests.1, ?_⟩]
          simpa using nests.2
        refine (placeAt_exact_spec destination whole tracked (loaded.grown trackedGrown)
          (locked.grown trackedGrown) marked (fun isNone => by cases isNone)).imp ?_
        exact fun placement next placed => widen (grown.trans trackedGrown) rfl isFinal placed

end Storix
