import Storix.Results.Tables

/-! # The change feed

What each commit appends, what a page shows, and where a reader that replays the
events ends. -/

namespace Storix

open Foundation Foundation.Command

variable {host : Host} {db : Database}

/-! ## The events of one commit -/

structure FeedView where
  path : JsString
  type : VfsNodeType
  revision : Revision
  deriving DecidableEq

def feedViewAt (nodes : List VfsNode) (id : Uuid) : Option FeedView :=
  (viewAt nodes id).map fun view => ⟨view.path, view.type, ⟨id, view.version⟩⟩

def ChangeEvent.entry (event : ChangeEvent) : Uuid × Option FeedView :=
  (event.nodeId, event.revision.map fun revision => ⟨event.path, event.nodeType, revision⟩)

def EventBody.after (body : EventBody) : Option FeedView :=
  body.revision.map fun revision => ⟨body.path, body.nodeType, revision⟩

theorem differenceOf_after {id : Uuid} {old new : Option NodeView} {body : EventBody}
    (isBody : differenceOf id old new = some body) :
    body.after = new.map fun view => ⟨view.path, view.type, ⟨id, view.version⟩⟩ := by
  cases old with
  | none =>
      cases new with
      | none => cases isBody
      | some new =>
          cases isBody
          rfl
  | some old =>
      cases new with
      | none =>
          cases isBody
          rfl
      | some new =>
          rw [differenceOf] at isBody
          split at isBody
          · cases isBody
          · split at isBody
            · cases isBody
              rfl
            · cases isBody
              rfl

theorem differenceOf_eq_none {id : Uuid} {old new : Option NodeView}
    (isNone : differenceOf id old new = none) : old = new := by
  cases old with
  | none =>
      cases new with
      | none => rfl
      | some new => cases isNone
  | some old =>
      cases new with
      | none => cases isNone
      | some new =>
          rw [differenceOf] at isNone
          split at isNone
          · rename_i same
            rw [same]
          · split at isNone
            · cases isNone
            · cases isNone

/-- The events of a commit account for the way from the old map to the new one. -/
theorem Recorded.explains {next : Database} {now : Nat} {feed : ChangeFeedState}
    {events : List ChangeEvent} (recorded : Recorded db next now feed events) :
    Explains (feedViewAt db.nodes) (events.map ChangeEvent.entry) (feedViewAt next.nodes) := by
  refine .of_difference ?_ ?_
  · intro entry isEntry
    rcases List.mem_map.mp isEntry with ⟨event, isEvent, rfl⟩
    have isBody : event.body ∈ bodiesAbout event.nodeId events :=
      List.mem_map_of_mem (List.mem_filter.mpr ⟨isEvent, by simp⟩)
    rw [recorded.bodies, Option.mem_toList] at isBody
    exact differenceOf_after isBody
  · intro id differs
    cases isBody : differenceOf id (viewAt db.nodes id) (viewAt next.nodes id) with
    | none =>
        refine absurd ?_ differs
        unfold feedViewAt
        rw [differenceOf_eq_none isBody]
    | some body =>
        have about := recorded.bodies id
        rw [isBody] at about
        have inside : body ∈ bodiesAbout id events := about ▸ List.mem_singleton_self body
        rcases List.mem_map.mp inside with ⟨event, isEvent, _⟩
        have parts := List.mem_filter.mp isEvent
        rw [List.map_map]
        refine List.mem_map.mpr ⟨event, parts.1, ?_⟩
        simpa [ChangeEvent.entry] using parts.2

/-- Events of one operation, numbered on from `start`. -/
structure Numbered (start : Nat) (events : List ChangeEvent) : Prop where
  sequences : events.map ChangeEvent.sequence = List.range' (start + 1) events.length
  indices : events.map ChangeEvent.operationIndex = List.range events.length
  counts : ∀ event ∈ events, event.operationCount = events.length
  operation : ∀ left ∈ events, ∀ right ∈ events, left.operationId = right.operationId

theorem numbered_eventsOf (start : Nat) (operationId : Uuid) (now : Nat) (changes : List Change) :
    Numbered start (eventsOf start operationId now changes) where
  sequences := by
    rw [length_eventsOf]
    unfold eventsOf
    rw [List.map_map]
    have shift : (changes.zipIdx.map Prod.snd).map (fun index => start + index + 1) =
        List.range' (start + 1) changes.length := by
      rw [List.zipIdx_map_snd, List.range'_eq_map_range, List.range'_eq_map_range, List.map_map]
      refine List.map_congr_left fun index _ => ?_
      simp only [Function.comp_apply]
      omega
    rw [List.map_map] at shift
    exact shift
  indices := by
    rw [length_eventsOf]
    unfold eventsOf
    rw [List.map_map, List.range_eq_range', ← List.zipIdx_map_snd 0 changes]
    rfl
  counts := by
    intro event isEvent
    rw [length_eventsOf]
    rcases List.mem_map.mp isEvent with ⟨pair, _, rfl⟩
    rfl
  operation := by
    intro left isLeft right isRight
    rcases List.mem_map.mp isLeft with ⟨_, _, rfl⟩
    rcases List.mem_map.mp isRight with ⟨_, _, rfl⟩
    rfl

theorem events_are_difference (reached : Reachable host db) {feed : ChangeFeedState}
    (isFeed : db.feedState = some feed) (checked : feed.hasCheckpoint = true)
    (mutation : Mutation host) (now : Nat)
    (afterBump : MutationTx → Unit → List AffectedRevision → Except VfsError Unit)
    {committed : Committed Unit} (result : mutation.run now afterBump db = .ok committed) :
    ∃ events,
      committed.db.feedEvents = db.feedEvents ++ events ∧
      committed.db.feedState =
        some { feed with lastSequence := feed.lastSequence + events.length } ∧
      (∀ id, bodiesAbout id events =
        (differenceOf id (viewAt db.nodes id) (viewAt committed.db.nodes id)).toList) ∧
      replay (feedViewAt db.nodes) (events.map ChangeEvent.entry) =
        feedViewAt committed.db.nodes ∧
      Numbered feed.lastSequence events := by
  rcases Mutation.run_eq_ok reached.consistent result with ⟨tx, wrote, finished⟩
  rcases finished.recorded feed isFeed checked with ⟨events, recorded⟩
  have explains := recorded.explains
  refine ⟨events, recorded.stored, recorded.state, recorded.bodies,
    explains.replay_eq fun key absent => explains.unnamed key absent, ?_⟩
  rcases recorded.numbered with ⟨operationId, changes, rfl⟩
  exact numbered_eventsOf _ _ _ _

namespace Small

def recording : Database :=
  match createChangeFeedCheckpoint oneFile with
  | .ok (_, next) => next
  | .error _ => oneFile

theorem reachable_recording : Reachable Host.counting recording := by
  unfold recording
  split
  · rename_i issued
    exact .step reachable_oneFile (.checkpoint issued)
  · exact reachable_oneFile

end Small

/-- Removing the directory is told as two deletions and an update of the root. -/
theorem events_are_difference_remove :
    ∃ committed events,
      (Mutation.remove Small.directory true 100).run 3 (fun _ _ _ => .ok ()) Small.recording =
        .ok committed ∧
      committed.db.feedEvents = Small.recording.feedEvents ++ events ∧
      (∀ id, bodiesAbout id events = (differenceOf id (viewAt Small.recording.nodes id)
        (viewAt committed.db.nodes id)).toList) ∧
      Numbered 0 events := by
  have commits : ((Mutation.remove Small.directory true 100).run 3 (fun _ _ _ => .ok ())
      Small.recording).toOption.isSome = true := by decide +kernel
  cases result : (Mutation.remove Small.directory true 100).run 3 (fun _ _ _ => .ok ())
      Small.recording with
  | error error =>
      rw [result] at commits
      cases commits
  | ok committed =>
      have isFeed : Small.recording.feedState = some ⟨0, 0, true⟩ := by decide +kernel
      rcases events_are_difference Small.reachable_recording isFeed rfl _ _ _ result with
        ⟨events, stored, _, bodies, _, numbered⟩
      exact ⟨committed, events, rfl, stored, bodies, numbered⟩

end Storix
