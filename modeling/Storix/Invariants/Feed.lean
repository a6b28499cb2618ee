import Storix.Foundation.Replay
import Storix.Invariants.Commit

/-! # Change feed events

The events that a commit appends are the difference between the nodes before and
after it. The states before are captured on the way, so this rests on every node that
changes or goes away having been captured, and on the captured states being those of
the start. -/

namespace Storix

open Foundation Foundation.Command

/-! ## What the feed compares -/

structure NodeView where
  type : VfsNodeType
  path : JsString
  blobId : Option Uuid
  size : Option Nat
  mimeType : Option JsString
  version : Nat
  deriving DecidableEq

def ChangeFeedNodeState.view (state : ChangeFeedNodeState) : NodeView where
  type := state.node.type
  path := state.path
  blobId := state.node.blobId
  size := state.node.size
  mimeType := state.node.mimeType
  version := state.node.version

def stateAt (nodes : List VfsNode) (id : Uuid) : Option ChangeFeedNodeState :=
  match nodes.find? fun node => node.id == id with
  | none => none
  | some node =>
      match resolveSegments nodes .empty (nodes.length + 1) node with
      | .error _ => none
      | .ok segments => some ⟨node, segments⟩

theorem stateAt_eq_some_iff {nodes : List VfsNode} (tree : Rooted nodes) {id : Uuid}
    {state : ChangeFeedNodeState} : stateAt nodes id = some state ↔ ShowsNode nodes id state := by
  have found : ∀ {state : ChangeFeedNodeState}, ShowsNode nodes id state →
      stateAt nodes id = some state := by
    rintro state ⟨member, rfl, reached⟩
    unfold stateAt
    rw [find_eq_some_of_mem tree member]
    dsimp only
    rw [resolveSegments_eq_ok tree member reached (knownPaths_empty _)
      (Nat.lt_succ_of_lt (PathOf.length_lt tree reached))]
  refine ⟨fun isState => ?_, found⟩
  by_cases live : id ∈ nodeIds nodes
  · rcases mem_nodeIds.mp live with ⟨node, member, rfl⟩
    rcases tree.exists_path member with ⟨path, reached⟩
    have shows : ShowsNode nodes node.id ⟨node, path⟩ := ⟨member, rfl, reached⟩
    rw [found shows] at isState
    exact Option.some.inj isState ▸ shows
  · unfold stateAt at isState
    split at isState
    · cases isState
    · rename_i node isNode
      have facts := mem_of_find_eq_some isNode
      exact absurd (mem_nodeIds.mpr ⟨node, facts.1, facts.2⟩) live

def viewAt (nodes : List VfsNode) (id : Uuid) : Option NodeView :=
  (stateAt nodes id).map ChangeFeedNodeState.view

theorem viewAt_of_shows {nodes : List VfsNode} (tree : Rooted nodes) {id : Uuid}
    {state : ChangeFeedNodeState} (shows : ShowsNode nodes id state) :
    viewAt nodes id = some state.view := by
  unfold viewAt
  rw [(stateAt_eq_some_iff tree).mpr shows]
  rfl

theorem viewAt_eq_some_iff {nodes : List VfsNode} (tree : Rooted nodes) {id : Uuid}
    {view : NodeView} :
    viewAt nodes id = some view ↔ ∃ state, ShowsNode nodes id state ∧ state.view = view := by
  unfold viewAt
  rw [Option.map_eq_some_iff]
  simp only [stateAt_eq_some_iff tree]

theorem viewAt_eq_none_iff {nodes : List VfsNode} (tree : Rooted nodes) {id : Uuid} :
    viewAt nodes id = none ↔ id ∉ nodeIds nodes := by
  constructor
  · intro missing live
    rcases mem_nodeIds.mp live with ⟨node, member, rfl⟩
    rcases tree.exists_path member with ⟨path, reached⟩
    have shows : ShowsNode nodes node.id ⟨node, path⟩ := ⟨member, rfl, reached⟩
    rw [viewAt_of_shows tree shows] at missing
    cases missing
  · intro dead
    cases found : viewAt nodes id with
    | none => rfl
    | some view =>
        rcases (viewAt_eq_some_iff tree).mp found with ⟨state, ⟨member, rfl, _⟩, _⟩
        exact absurd (mem_nodeIds_of_mem member) dead

structure EventBody where
  kind : VfsChangeKind
  nodeType : VfsNodeType
  path : JsString
  previousPath : Option JsString
  revision : Option Revision
  deriving DecidableEq

def ChangeEvent.body (event : ChangeEvent) : EventBody where
  kind := event.kind
  nodeType := event.nodeType
  path := event.path
  previousPath := event.previousPath
  revision := event.revision

def differenceOf (id : Uuid) : Option NodeView → Option NodeView → Option EventBody
  | none, none => none
  | none, some new => some ⟨.created, new.type, new.path, none, some ⟨id, new.version⟩⟩
  | some old, none => some ⟨.deleted, old.type, old.path, none, none⟩
  | some old, some new =>
      if old = new then none
      else if old.path ≠ new.path then
        some ⟨.moved, new.type, new.path, some old.path, some ⟨id, new.version⟩⟩
      else some ⟨.updated, new.type, new.path, none, some ⟨id, new.version⟩⟩

theorem differenceOf_self (id : Uuid) (view : Option NodeView) :
    differenceOf id view view = none := by
  cases view with
  | none => rfl
  | some view => simp [differenceOf]

/-! ## The changes of one commit -/

def Change.body (change : Change) : EventBody where
  kind := change.kind
  nodeType := change.nodeType
  path := joinSegments change.segments
  previousPath := change.previousPath
  revision := change.revision

theorem sameNode_iff (old new : ChangeFeedNodeState) :
    sameNode old new = true ↔ old.view = new.view := by
  unfold sameNode ChangeFeedNodeState.view
  simp only [Bool.and_eq_true, beq_iff_eq, NodeView.mk.injEq]
  tauto

structure StatesOf (before after : NodeStates) (old new : List VfsNode) : Prop where
  showsOld : ∀ id state, before.get id = some state → ShowsNode old id state
  showsNew : ∀ id state, after.get id = some state → ShowsNode new id state
  gone : ∀ id, before.get id ≠ none → after.get id = none → id ∉ nodeIds new
  fresh : ∀ id, before.get id = none → after.get id ≠ none → id ∉ nodeIds old
  silent : ∀ id, before.get id = none → after.get id = none → viewAt old id = viewAt new id

variable {before after : NodeStates} {old new : List VfsNode}

theorem changeOf_eq_ok (states : StatesOf before after old new) (oldTree : Rooted old)
    (newTree : Rooted new) (numbered : ∀ node ∈ new, node.Numbered) (ancestors : List Uuid)
    (id : Uuid) :
    ∃ change, changeOf before after ancestors id = .ok change ∧
      (∀ found, change = some found → found.nodeId = id) ∧
      change.map Change.body = differenceOf id (viewAt old id) (viewAt new id) := by
  unfold changeOf
  cases isOld : before.get id with
  | none =>
      cases isNew : after.get id with
      | none =>
          refine ⟨none, rfl, nofun, ?_⟩
          rw [states.silent id isOld isNew, differenceOf_self]
          rfl
      | some state =>
          have shows := states.showsNew id state isNew
          have range := numbered state.node shows.1
          have absent := states.fresh id isOld (by simp [isNew])
          rw [(viewAt_eq_none_iff oldTree).mpr absent, viewAt_of_shows newTree shows]
          dsimp only
          rw [encodeRevision_eq_ok range.1 range.2]
          refine ⟨_, rfl, fun _ isSome => by cases isSome; rfl, ?_⟩
          simp only [differenceOf, shows.2.1]
          rfl
  | some oldState =>
      have oldShows := states.showsOld id oldState isOld
      rw [viewAt_of_shows oldTree oldShows]
      cases isNew : after.get id with
      | none =>
          rw [(viewAt_eq_none_iff newTree).mpr (states.gone id (by simp [isOld]) isNew)]
          exact ⟨_, rfl, fun _ isSome => by cases isSome; rfl, rfl⟩
      | some newState =>
          have shows := states.showsNew id newState isNew
          have range := numbered newState.node shows.1
          rw [viewAt_of_shows newTree shows]
          dsimp only
          by_cases same : oldState.view = newState.view
          · rw [if_pos (by simp [(sameNode_iff oldState newState).mpr same]), differenceOf,
              if_pos same]
            exact ⟨none, rfl, nofun, rfl⟩
          · have differs : sameNode oldState newState = false := by
              rw [← Bool.not_eq_true, sameNode_iff]
              exact same
            have meaningful : isMeaningful before after id = true := by
              simp [isMeaningful, isOld, isNew, differs]
            rw [if_neg (by simp [differs, meaningful]), encodeRevision_eq_ok range.1 range.2,
              differenceOf, if_neg same]
            dsimp only
            by_cases moved : oldState.path ≠ newState.path
            · have isMoved : oldState.view.path ≠ newState.view.path := moved
              rw [if_pos moved, if_pos isMoved]
              refine ⟨_, rfl, fun _ isSome => by cases isSome; rfl, ?_⟩
              simp only [shows.2.1]
              rfl
            · have stays : ¬oldState.view.path ≠ newState.view.path := moved
              rw [if_neg moved, if_neg stays]
              refine ⟨_, rfl, fun _ isSome => by cases isSome; rfl, ?_⟩
              simp only [shows.2.1]
              rfl

theorem changesOf_eq_ok (states : StatesOf before after old new) (oldTree : Rooted old)
    (newTree : Rooted new) (numbered : ∀ node ∈ new, node.Numbered) (ancestors : List Uuid)
    {ids : List Uuid} (nodup : ids.Nodup) :
    ∃ changes, changesOf before after ancestors ids = .ok changes ∧
      ∀ id, (changes.filter fun change => change.nodeId = id).map Change.body =
        if id ∈ ids then (differenceOf id (viewAt old id) (viewAt new id)).toList else [] := by
  induction ids with
  | nil => exact ⟨[], rfl, fun _ => rfl⟩
  | cons first rest induction =>
      rw [List.nodup_cons] at nodup
      rcases induction nodup.2 with ⟨changes, run, about⟩
      rcases changeOf_eq_ok states oldTree newTree numbered ancestors first with
        ⟨change, isChange, isFirst, body⟩
      have outside : ∀ id, id ∉ rest → changes.filter (fun other => other.nodeId = id) = [] := by
        intro id absent
        have none := about id
        rw [if_neg absent] at none
        exact List.map_eq_nil_iff.mp none
      unfold changesOf
      rw [isChange, run]
      cases change with
      | none =>
          refine ⟨changes, rfl, fun id => ?_⟩
          by_cases same : id = first
          · subst same
            rw [outside id nodup.1, if_pos List.mem_cons_self, ← body]
            rfl
          · rw [about id]
            simp [same]
      | some found =>
          have isId := isFirst found rfl
          refine ⟨found :: changes, rfl, fun id => ?_⟩
          by_cases same : id = first
          · subst same
            rw [List.filter_cons_of_pos (by simpa using isId), outside id nodup.1,
              if_pos List.mem_cons_self, ← body]
            rfl
          · rw [List.filter_cons_of_neg (by simpa [isId] using Ne.symm same), about id]
            simp [same]

theorem nodup_unionKeys (before after : NodeStates) : (unionKeys before after).Nodup := by
  refine List.Nodup.append before.keys_nodup (after.keys_nodup.filter _) ?_
  intro id isOld isNew
  have parts := (List.mem_filter.mp isNew).2
  rw [Bool.not_eq_true', OrderedMap.has_eq_false_iff] at parts
  exact (before.mem_keys_iff id).mp isOld parts

/-! ## Numbered events -/

def bodiesAbout (id : Uuid) (events : List ChangeEvent) : List EventBody :=
  (events.filter fun event => event.nodeId = id).map ChangeEvent.body

theorem bodiesAbout_eventsOf (start : Nat) (operationId : Uuid) (now : Nat)
    (changes : List Change) (id : Uuid) :
    bodiesAbout id (eventsOf start operationId now changes) =
      (changes.filter fun change => change.nodeId = id).map Change.body := by
  unfold eventsOf bodiesAbout
  rw [List.filter_map, List.map_map]
  have fromChange : ∀ pairs : List (Change × Nat),
      (pairs.filter fun pair => pair.1.nodeId = id).map (fun pair => pair.1.body) =
        ((pairs.map Prod.fst).filter fun change => change.nodeId = id).map Change.body := by
    intro pairs
    rw [List.filter_map, List.map_map]
    rfl
  have whole := fromChange changes.zipIdx
  rw [List.zipIdx_map_fst] at whole
  exact whole

theorem map_filter_perm {α β : Type} {left right : List α} (same : left.Perm right)
    (test : α → Bool) (image : α → β) {expected : Option β}
    (isLeft : (left.filter test).map image = expected.toList) :
    (right.filter test).map image = expected.toList := by
  have perm := ((same.filter test).map image).symm
  rw [isLeft] at perm
  cases expected with
  | none => exact List.perm_nil.mp perm
  | some value => exact List.perm_singleton.mp perm

/-! ## The states of a transaction -/

variable {host : Host} {effects : Effects} {base : Database}
  {scope : List JsString → Prop} {held : List Uuid}
  {tx : MutationTx} {fault : VfsError → Prop}

theorem TxDone.view_of_unmarked (done : TxDone host effects base scope held tx)
    (raisable : Raisable tx.db.nodes tx.raisedIds) {node : VfsNode} (member : node ∈ tx.db.nodes)
    (unmarked : tx.changed.get node.id = none) :
    viewAt base.nodes node.id = viewAt tx.settled.db.nodes node.id := by
  rcases done.marks.kept node member unmarked with ⟨inBase, samePath⟩
  rcases done.tree.exists_path member with ⟨path, reached⟩
  have oldShows : ShowsNode base.nodes node.id ⟨node, path⟩ := ⟨inBase, rfl, samePath path reached⟩
  have newShows : ShowsNode tx.settled.db.nodes node.id ⟨settledRow tx node, path⟩ :=
    ⟨List.mem_map_of_mem member, settledRow_id tx node,
      (done.keepsLinks_settled raisable).pathOf_iff.mpr reached⟩
  rw [viewAt_of_shows done.baseTree oldShows,
    viewAt_of_shows (done.layout_settled raisable).tree newShows]
  simp [ChangeFeedNodeState.view, ChangeFeedNodeState.path, settledRow_version, unmarked]

theorem TxDone.statesOf (done : TxDone host effects base scope held tx)
    (raisable : Raisable tx.db.nodes tx.raisedIds) {before : NodeStates}
    (isBefore : tx.feedBefore = some before) :
    ∃ after, captureChangeFeedNodes host tx.settled.db.nodes
        (before.keys ++ tx.changed.keys.filter fun id => !before.has id) .empty = .ok after ∧
      StatesOf before after base.nodes tx.settled.db.nodes := by
  have layout := done.layout_settled raisable
  have sameIds : nodeIds tx.settled.db.nodes = nodeIds tx.db.nodes :=
    (done.keepsLinks_settled raisable).nodeIds_eq
  rcases captureChangeFeedNodes_empty_eq_ok host layout.tree
    (before.keys ++ tx.changed.keys.filter fun id => !before.has id) with ⟨after, run, found⟩
  have asked : ∀ id, id ∈ before.keys ++ (tx.changed.keys.filter fun id => !before.has id) ↔
      before.get id ≠ none ∨ tx.changed.get id ≠ none := by
    intro id
    rw [List.mem_append, List.mem_filter, OrderedMap.mem_keys_iff, OrderedMap.mem_keys_iff]
    by_cases recorded : before.get id = none
    · simp [recorded]
    · simp [recorded]
  have live : ∀ id, before.get id ≠ none ∨ tx.changed.get id ≠ none → after.get id = none →
      id ∉ nodeIds tx.settled.db.nodes := by
    intro id isAsked missing isLive
    rcases mem_nodeIds.mp isLive with ⟨node, member, rfl⟩
    rcases layout.tree.exists_path member with ⟨path, reached⟩
    have isState := (found node.id ⟨node, path⟩).mpr ⟨(asked _).mpr isAsked, member, rfl, reached⟩
    rw [missing] at isState
    cases isState
  have covers : ∀ id ∈ nodeIds base.nodes, before.get id = none →
      tx.changed.get id = none ∧ id ∈ nodeIds tx.db.nodes := by
    intro id isOld missing
    rcases mem_nodeIds.mp isOld with ⟨old, member, rfl⟩
    constructor
    · by_contra marked
      exact done.feed.covers before isBefore old member (.inl marked) missing
    · by_contra gone
      exact done.feed.covers before isBefore old member (.inr gone) missing
  refine ⟨after, run, fun id state isState => done.feed.states before isBefore id state isState,
    fun id state isState => ((found id state).mp isState).2, fun id recorded =>
      live id (.inl recorded),
    fun id missing present isOld => ?_, fun id missing absent => ?_⟩
  · cases isState : after.get id with
    | none => exact present isState
    | some state =>
        have isAsked := (asked id).mp ((found id state).mp isState).1
        exact isAsked.elim (fun recorded => recorded missing)
          fun marked => marked (covers id isOld missing).1
  · have unmarked : tx.changed.get id = none ∨ id ∉ nodeIds tx.settled.db.nodes := by
      by_cases marked : tx.changed.get id = none
      · exact .inl marked
      · exact .inr (live id (.inr marked) absent)
    by_cases isLive : id ∈ nodeIds tx.db.nodes
    · rcases mem_nodeIds.mp isLive with ⟨node, member, rfl⟩
      refine done.view_of_unmarked raisable member ?_
      exact unmarked.resolve_right fun gone => gone (sameIds ▸ isLive)
    · have wasLive : id ∉ nodeIds base.nodes := fun isOld => isLive (covers id isOld missing).2
      rw [(viewAt_eq_none_iff done.baseTree).mpr wasLive,
        (viewAt_eq_none_iff layout.tree).mpr (sameIds ▸ isLive)]

/-! ## What a commit appends -/

/-- The events of one commit: numbered on from the last one, and about each node its
difference. -/
structure Recorded (db next : Database) (now : Nat) (feed : ChangeFeedState)
    (events : List ChangeEvent) : Prop where
  state : next.feedState = some { feed with lastSequence := feed.lastSequence + events.length }
  stored : next.feedEvents = db.feedEvents ++ events
  bodies : ∀ id, bodiesAbout id events =
    (differenceOf id (viewAt db.nodes id) (viewAt next.nodes id)).toList
  numbered : ∃ operationId changes, events = eventsOf feed.lastSequence operationId now changes

theorem length_eventsOf (start : Nat) (operationId : Uuid) (now : Nat) (changes : List Change) :
    (eventsOf start operationId now changes).length = changes.length := by
  simp [eventsOf]

theorem satisfies_appendChangeFeedEvents (done : TxDone host effects base scope held tx)
    (raisable : Raisable tx.db.nodes tx.raisedIds) {before : NodeStates}
    (isBefore : tx.feedBefore = some before) {feed : ChangeFeedState}
    (isFeed : base.feedState = some feed)
    (exhausted : fault (.internal .sequenceExhausted)) {post : Unit → MutationTx → Prop}
    (continues : ∀ feedState feedEvents issued events, tx.db.issued ≤ issued →
      Recorded base { tx.settled.db with
        feedState := feedState, feedEvents := feedEvents, issued := issued } tx.now feed events →
      post () { tx.settled with
        db := { tx.settled.db with
          feedState := feedState, feedEvents := feedEvents, issued := issued } }) :
    Satisfies (appendChangeFeedEvents host before tx.changed.keys) post fault tx.settled := by
  have layout := done.layout_settled raisable
  have sameFeed : tx.settled.db.feedState = some feed := done.feedState.trans isFeed
  have sameEvents : tx.settled.db.feedEvents = base.feedEvents := done.feedEvents
  have checked : feed.hasCheckpoint = true := by
    have recorded := done.checkpoint
    rw [isBefore, isFeed] at recorded
    exact recorded.symm
  rcases done.statesOf raisable isBefore with ⟨after, run, states⟩
  rcases changesOf_eq_ok states done.baseTree layout.tree layout.versions
    (changedAncestors before after) (nodup_unionKeys before after) with ⟨changes, isChanges, about⟩
  have bodies : ∀ id, (changes.filter fun change => change.nodeId = id).map Change.body =
      (differenceOf id (viewAt base.nodes id) (viewAt tx.settled.db.nodes id)).toList := by
    intro id
    rw [about id]
    split
    · rfl
    · rename_i outside
      -- Outside both maps there is nothing to tell.
      have neither : before.get id = none ∧ after.get id = none := by
        unfold unionKeys at outside
        rw [List.mem_append, List.mem_filter, not_or, OrderedMap.mem_keys_iff,
          OrderedMap.mem_keys_iff, not_not] at outside
        refine ⟨outside.1, not_not.mp fun present => outside.2 ⟨present, ?_⟩⟩
        rw [Bool.not_eq_true', OrderedMap.has_eq_false_iff]
        exact outside.1
      rw [states.silent id neither.1 neither.2, differenceOf_self]
      rfl
  unfold appendChangeFeedEvents
  rw [satisfies_bind, satisfies_state, satisfies_bind, run, satisfies_lift_ok, satisfies_bind,
    isChanges, satisfies_lift_ok]
  refine satisfies_ite.mpr ⟨fun isEmpty => ?_, fun _ => ?_⟩
  · have recorded : Recorded base { tx.settled.db with
        feedState := tx.settled.db.feedState, feedEvents := tx.settled.db.feedEvents,
        issued := tx.db.issued } tx.now feed [] := by
      refine ⟨sameFeed, by rw [sameEvents, List.append_nil], fun id => ?_, host.randomUUID 0,
        [], rfl⟩
      rw [← bodies id, isEmpty]
      rfl
    exact continues _ _ _ [] (Nat.le_refl _) recorded
  · rw [sameFeed]
    dsimp only
    rw [if_neg (by simp [checked])]
    refine satisfies_ite.mpr ⟨fun _ => exhausted, fun _ => ?_⟩
    rw [satisfies_bind, satisfies_drawUuid, satisfies_updateDb]
    refine continues _ _ (tx.db.issued + 1) (eventsOf feed.lastSequence
      (host.randomUUID tx.db.issued) tx.now (sortBy changeLe changes)) (Nat.le_succ _) ?_
    refine ⟨?_, ?_, fun id => ?_, _, _, rfl⟩
    · rw [length_eventsOf, (sortBy_perm changeLe changes).length_eq]
    · exact congrArg (· ++ _) sameEvents
    · rw [bodiesAbout_eventsOf]
      exact map_filter_perm (sortBy_perm changeLe changes).symm _ _ (bodies id)

end Storix
