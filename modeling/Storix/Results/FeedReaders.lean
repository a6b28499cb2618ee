import Storix.Results.ChangeFeed
import Storix.Results.Listing

/-! # Readers of the change feed

The stored events are the ones between the retention boundary and the last sequence. A
reader that follows the cursors gets every event once or is told that some are gone, and
a reader that lists the tree while it changes and then replays ends at the tree. -/

namespace Storix

open Foundation Foundation.Command

variable {host : Host} {db next : Database}

/-! ## Stored events -/

/-- The stored events are numbered from the boundary to the last sequence. -/
structure FeedBooks (db : Database) : Prop where
  absent : db.feedState = none → db.feedEvents = []
  checked : ∀ feed, db.feedState = some feed → feed.hasCheckpoint = true
  boundary : ∀ feed, db.feedState = some feed → feed.prunedThrough ≤ feed.lastSequence
  stored : ∀ feed, db.feedState = some feed → db.feedEvents.map ChangeEvent.sequence =
    List.range' (feed.prunedThrough + 1) (feed.lastSequence - feed.prunedThrough)

theorem FeedBooks.range (books : FeedBooks db) {feed : ChangeFeedState}
    (isFeed : db.feedState = some feed) {event : ChangeEvent} (isEvent : event ∈ db.feedEvents) :
    feed.prunedThrough < event.sequence ∧ event.sequence ≤ feed.lastSequence := by
  have mem : event.sequence ∈ List.range' (feed.prunedThrough + 1)
      (feed.lastSequence - feed.prunedThrough) :=
    books.stored feed isFeed ▸ List.mem_map_of_mem isEvent
  have range := List.mem_range'_1.mp mem
  omega

inductive FeedStep (db next : Database) (feed : ChangeFeedState) : Prop
  | recorded (now : Nat) (events : List ChangeEvent) (recorded : Recorded db next now feed events)
  | pruned (count : Nat) (few : count ≤ db.feedEvents.length)
      (sameNodes : next.nodes = db.nodes)
      (state : next.feedState = some { feed with prunedThrough := feed.prunedThrough + count })
      (events : next.feedEvents = db.feedEvents.drop count)

theorem sortBy_eq_self {events : List ChangeEvent} {start count : Nat}
    (numbered : events.map ChangeEvent.sequence = List.range' start count) :
    sortBy (fun left right => left.sequence ≤ right.sequence) events = events := by
  have sorted : (events.map ChangeEvent.sequence).Pairwise (· ≤ ·) := by
    rw [numbered]
    exact (List.pairwise_lt_range' (s := start) (n := count)).imp Nat.le_of_lt
  rw [List.pairwise_map] at sorted
  exact (sorted.imp fun ordered => by simpa using ordered).insertionSort_eq

theorem length_of_numbered {events : List ChangeEvent} {start count : Nat}
    (numbered : events.map ChangeEvent.sequence = List.range' start count) :
    events.length = count := by
  have lengths := congrArg List.length numbered
  simpa using lengths

theorem filter_prefix {events : List ChangeEvent} {start count : Nat}
    (numbered : events.map ChangeEvent.sequence = List.range' start count) (taken : Nat) :
    (events.filter fun event =>
      !((events.take taken).map ChangeEvent.sequence).contains event.sequence) =
      events.drop taken := by
  have nodup : (events.map ChangeEvent.sequence).Nodup := numbered ▸ List.nodup_range'
  have apart := nodup
  rw [← List.take_append_drop taken events, List.map_append] at apart
  have separate := (List.nodup_append.mp apart).2.2
  conv_lhs => rw [← List.take_append_drop taken events]
  rw [List.filter_append]
  have none : ((events.take taken).filter fun event =>
      !((((events.take taken) ++ events.drop taken).take taken).map
        ChangeEvent.sequence).contains event.sequence) = [] := by
    refine List.filter_eq_nil_iff.mpr fun event isEvent => ?_
    have inside : event.sequence ∈ (events.take taken).map ChangeEvent.sequence :=
      List.mem_map_of_mem isEvent
    rw [List.take_append_drop]
    simp only [List.contains_eq_mem, inside, decide_true, Bool.not_true]
    exact Bool.false_ne_true
  have all : ((events.drop taken).filter fun event =>
      !((((events.take taken) ++ events.drop taken).take taken).map
        ChangeEvent.sequence).contains event.sequence) = events.drop taken := by
    refine List.filter_eq_self.mpr fun event isEvent => ?_
    rw [List.take_append_drop]
    simp only [Bool.not_eq_true', List.contains_eq_mem, decide_eq_false_iff_not]
    exact fun inside => separate _ inside _ (List.mem_map_of_mem isEvent) rfl
  rw [none, all, List.nil_append]

def expiredBatch (db : Database) (cutoff batchSize : Nat) : List ChangeEvent :=
  (db.feedEvents.take batchSize).takeWhile fun event => event.occurredAt < cutoff

theorem expiredBatch_isFront (db : Database) (cutoff batchSize : Nat) :
    expiredBatch db cutoff batchSize <+: db.feedEvents :=
  (List.takeWhile_prefix _).trans (List.take_prefix _ _)

/-- Pruning takes a run from the front of the stored events and moves the boundary to its
last sequence. -/
theorem pruneNamespacePrefix_eq (books : FeedBooks db) {feed : ChangeFeedState}
    (isFeed : db.feedState = some feed) (cutoff batchSize : Nat) :
    pruneNamespacePrefix db cutoff batchSize =
      some { db with
        feedState := some { feed with
          prunedThrough := feed.prunedThrough + (expiredBatch db cutoff batchSize).length }
        feedEvents := db.feedEvents.drop (expiredBatch db cutoff batchSize).length } := by
  have numbered := books.stored feed isFeed
  have isFront := expiredBatch_isFront db cutoff batchSize
  unfold pruneNamespacePrefix
  rw [isFeed]
  dsimp only
  rw [sortBy_eq_self numbered]
  have isBatch : (db.feedEvents.take batchSize).takeWhile
      (fun event => decide (event.occurredAt < cutoff)) = expiredBatch db cutoff batchSize := rfl
  rw [isBatch]
  generalize expiredBatch db cutoff batchSize = expired at isFront
  have few : expired.length ≤ db.feedEvents.length := isFront.length_le
  have isTake : expired = db.feedEvents.take expired.length := List.prefix_iff_eq_take.mp isFront
  cases isLast : expired.getLast? with
  | none =>
      rw [List.getLast?_eq_none_iff.mp isLast, List.length_nil, Nat.add_zero, List.drop_zero,
        ← isFeed]
  | some last =>
      have lastSequence : last.sequence = feed.prunedThrough + expired.length := by
        have sequences : expired.map ChangeEvent.sequence =
            List.range' (feed.prunedThrough + 1) expired.length := by
          rw [isTake, List.map_take, numbered, List.length_take, Nat.min_eq_left few]
          exact List.take_range'_of_length_ge
            (few.trans (Nat.le_of_eq (length_of_numbered numbered)))
        have lasts := congrArg List.getLast? sequences
        rw [List.getLast?_map, isLast, List.getLast?_range'] at lasts
        split at lasts
        · cases lasts
        · rename_i nonempty
          have isSum := Option.some.inj lasts
          omega
      have range := books.range isFeed (isFront.subset (List.mem_of_getLast? isLast))
      have kept := filter_prefix numbered expired.length
      rw [← isTake] at kept
      dsimp only
      rw [if_neg (by omega), kept, lastSequence]

theorem pruneNamespacePrefix_step (books : FeedBooks db) {feed : ChangeFeedState}
    (isFeed : db.feedState = some feed) {cutoff batchSize : Nat}
    (pruned : pruneNamespacePrefix db cutoff batchSize = some next) :
    ∃ count ≤ db.feedEvents.length,
      next = { db with
        feedState := some { feed with prunedThrough := feed.prunedThrough + count }
        feedEvents := db.feedEvents.drop count } := by
  rw [pruneNamespacePrefix_eq books isFeed] at pruned
  cases pruned
  exact ⟨_, (expiredBatch_isFront db cutoff batchSize).length_le, rfl⟩

theorem FeedStep.books {feed : ChangeFeedState} (books : FeedBooks db)
    (isFeed : db.feedState = some feed) (step : FeedStep db next feed) : FeedBooks next := by
  have numbered := books.stored feed isFeed
  have ordered := books.boundary feed isFeed
  cases step with
  | recorded now events recorded =>
      rcases recorded.numbered with ⟨operationId, changes, isEvents⟩
      have sequences := (numbered_eventsOf feed.lastSequence operationId now changes).sequences
      rw [← isEvents] at sequences
      refine ⟨fun missing => ?_, fun later isLater => ?_, fun later isLater => ?_,
        fun later isLater => ?_⟩
      · rw [recorded.state] at missing
        cases missing
      · rw [recorded.state] at isLater
        cases isLater
        exact books.checked feed isFeed
      · rw [recorded.state] at isLater
        cases isLater
        exact ordered.trans (Nat.le_add_right _ _)
      · rw [recorded.state] at isLater
        cases isLater
        have joined : feed.prunedThrough + 1 + (feed.lastSequence - feed.prunedThrough) =
            feed.lastSequence + 1 := by omega
        have lengths : feed.lastSequence - feed.prunedThrough + events.length =
            feed.lastSequence + events.length - feed.prunedThrough := by omega
        rw [recorded.stored, List.map_append, numbered, sequences, ← lengths, ← joined]
        exact List.range'_append_1
  | pruned count few sameNodes state events =>
      have length := length_of_numbered numbered
      have within : feed.prunedThrough + count ≤ feed.lastSequence := by omega
      refine ⟨fun missing => ?_, fun later isLater => ?_, fun later isLater => ?_,
        fun later isLater => ?_⟩
      · rw [state] at missing
        cases missing
      · rw [state] at isLater
        cases isLater
        exact books.checked feed isFeed
      · rw [state] at isLater
        cases isLater
        exact within
      · rw [state] at isLater
        cases isLater
        have start : feed.prunedThrough + 1 + count * 1 = feed.prunedThrough + count + 1 := by
          omega
        have rest : feed.lastSequence - feed.prunedThrough - count =
            feed.lastSequence - (feed.prunedThrough + count) := by omega
        rw [events, List.map_drop, numbered, List.drop_range', start, rest]

theorem Step.feedStep (consistent : Consistent host db) (books : FeedBooks db)
    {feed : ChangeFeedState} (isFeed : db.feedState = some feed) (taken : Step host db next) :
    FeedStep db next feed := by
  have still : ∀ next : Database, next.nodes = db.nodes → next.feedState = some feed →
      next.feedEvents = db.feedEvents → FeedStep db next feed := by
    intro next sameNodes sameState sameEvents
    exact .pruned 0 (Nat.zero_le _) sameNodes sameState sameEvents
  cases taken with
  | mutation mutation now afterBump result =>
      rcases Mutation.run_eq_ok consistent result with ⟨tx, wrote, finished⟩
      rcases finished.recorded feed isFeed (books.checked feed isFeed) with ⟨events, recorded⟩
      exact .recorded _ events recorded
  | checkpoint issued =>
      rcases createChangeFeedCheckpoint_eq_ok issued with ⟨found, rfl, _, isFound⟩
      refine still _ rfl ?_ rfl
      rcases isFound with isFound | ⟨missing, _⟩
      · rw [isFeed] at isFound
        cases isFound
        rw [← books.checked feed isFeed]
      · rw [isFeed] at missing
        cases missing
  | prune cutoff batchSize pruned =>
      rcases pruneNamespacePrefix_step books isFeed pruned with ⟨count, few, rfl⟩
      exact .pruned count few rfl rfl rfl
  | collect ids orphaned => exact still _ rfl isFeed rfl

theorem Step.feedStart (consistent : Consistent host db) (books : FeedBooks db)
    (missing : db.feedState = none) (taken : Step host db next) : FeedBooks next := by
  have still : ∀ next : Database, next.feedState = db.feedState →
      next.feedEvents = db.feedEvents → FeedBooks next := by
    intro next sameState sameEvents
    rw [missing] at sameState
    refine ⟨fun _ => sameEvents.trans (books.absent missing), ?_, ?_, ?_⟩
    · rw [sameState]
      exact nofun
    · rw [sameState]
      exact nofun
    · rw [sameState]
      exact nofun
  cases taken with
  | mutation mutation now afterBump result =>
      rcases Mutation.run_eq_ok consistent result with ⟨tx, wrote, finished⟩
      have unrecorded : tx.feedBefore = none := by
        have started := wrote.done.checkpoint
        rw [missing] at started
        simpa using started
      have same := finished.unrecorded unrecorded
      exact still _ same.1 same.2
  | checkpoint issued =>
      rcases createChangeFeedCheckpoint_eq_ok issued with ⟨feed, rfl, _, isFound | ⟨_, rfl⟩⟩
      · rw [missing] at isFound
        cases isFound
      · refine ⟨nofun, ?_, ?_, ?_⟩
        · rintro _ ⟨⟩
          rfl
        · rintro _ ⟨⟩
          exact Nat.le_refl _
        · rintro _ ⟨⟩
          rw [books.absent missing]
          rfl
  | prune cutoff batchSize pruned =>
      unfold pruneNamespacePrefix at pruned
      rw [missing] at pruned
      cases pruned
  | collect ids orphaned => exact still _ rfl rfl

theorem Reachable.feedBooks (reached : Reachable host db) : FeedBooks db := by
  induction reached with
  | start now settings => exact ⟨fun _ => rfl, nofun, nofun, nofun⟩
  | @step db next earlier taken induction =>
      cases isFeed : db.feedState with
      | none => exact taken.feedStart earlier.consistent induction isFeed
      | some feed =>
          exact (taken.feedStep earlier.consistent induction isFeed).books induction isFeed

theorem FeedStep.state {feed : ChangeFeedState} (step : FeedStep db next feed) :
    ∃ later, next.feedState = some later ∧ feed.prunedThrough ≤ later.prunedThrough ∧
      feed.lastSequence ≤ later.lastSequence := by
  cases step with
  | recorded now events recorded =>
      exact ⟨_, recorded.state, Nat.le_refl _, Nat.le_add_right _ _⟩
  | pruned count few sameNodes state events =>
      exact ⟨_, state, Nat.le_add_right _ _, Nat.le_refl _⟩

theorem Runs.feedState (reached : Reachable host db) {feed : ChangeFeedState}
    (isFeed : db.feedState = some feed) (run : Runs host db next) :
    ∃ later, next.feedState = some later ∧ feed.prunedThrough ≤ later.prunedThrough ∧
      feed.lastSequence ≤ later.lastSequence := by
  induction run with
  | refl => exact ⟨feed, isFeed, Nat.le_refl _, Nat.le_refl _⟩
  | tail run taken induction =>
      rcases induction with ⟨middle, isMiddle, pruned, last⟩
      have earlier := run.reachable reached
      rcases (taken.feedStep earlier.consistent earlier.feedBooks isMiddle).state with
        ⟨later, isLater, laterPruned, laterLast⟩
      exact ⟨later, isLater, pruned.trans laterPruned, last.trans laterLast⟩

/-! ## Pages -/

theorem filter_numbered {events : List ChangeEvent} {start count : Nat}
    (numbered : events.map ChangeEvent.sequence = List.range' (start + 1) count) (skipped : Nat) :
    (events.filter fun event => start + skipped < event.sequence) = events.drop skipped := by
  induction events generalizing start count skipped with
  | nil => simp
  | cons event rest induction =>
      cases count with
      | zero => cases numbered
      | succ count =>
          rw [List.map_cons, List.range'_succ] at numbered
          have parts := List.cons.inj numbered
          cases skipped with
          | zero =>
              have inside : start + 0 < event.sequence := by omega
              rw [List.drop_zero, List.filter_cons_of_pos (by simpa using inside)]
              refine congrArg _ (List.filter_eq_self.mpr fun other isOther => ?_)
              have mem : other.sequence ∈ List.range' (start + 1 + 1) count :=
                parts.2 ▸ List.mem_map_of_mem isOther
              have low := (List.mem_range'_1.mp mem).1
              simp only [decide_eq_true_eq]
              omega
          | succ skipped =>
              have outside : ¬start + (skipped + 1) < event.sequence := by omega
              have shift : start + (skipped + 1) = start + 1 + skipped := by omega
              rw [List.filter_cons_of_neg (by simpa using outside), List.drop_succ_cons, shift]
              exact induction parts.2 skipped

theorem last_numbered {events : List ChangeEvent} {start : Nat}
    (numbered : events.map ChangeEvent.sequence = List.range' (start + 1) events.length) :
    (events.getLast?.map ChangeEvent.sequence).getD start = start + events.length := by
  rw [← List.getLast?_map, numbered, List.getLast?_range']
  split
  · rename_i isEmpty
    simp [isEmpty]
  · simp only [Option.getD_some]
    omega

def Database.eventsAfter (db : Database) (cursor : Nat) : List ChangeEvent :=
  db.feedEvents.filter fun event => cursor < event.sequence

theorem listChanges_eq (books : FeedBooks db) {feed : ChangeFeedState}
    (isFeed : db.feedState = some feed) {cursor : Nat} (issued : cursor ≤ feed.lastSequence)
    (rawLimit : Option Nat) :
    listChanges db cursor rawLimit =
      if cursor < feed.prunedThrough then .error .expired
      else
        .ok
          { changes := (db.eventsAfter cursor).take (resolveLimit rawLimit)
            nextCursor := (((db.eventsAfter cursor).take (resolveLimit rawLimit)).getLast?.map
              ChangeEvent.sequence).getD cursor
            hasMore := decide (resolveLimit rawLimit < (db.eventsAfter cursor).length) } := by
  have numbered := books.stored feed isFeed
  unfold listChanges
  rw [isFeed]
  dsimp only
  rw [if_neg (by simp [books.checked feed isFeed]), if_neg (Nat.not_lt.mpr issued)]
  split
  · rfl
  · rename_i kept
    obtain ⟨skipped, rfl⟩ := Nat.exists_eq_add_of_le (Nat.not_lt.mp kept)
    have after : db.eventsAfter (feed.prunedThrough + skipped) = db.feedEvents.drop skipped :=
      filter_numbered numbered skipped
    have rest : (db.eventsAfter (feed.prunedThrough + skipped)).map ChangeEvent.sequence =
        List.range' (feed.prunedThrough + 1 + skipped * 1)
          (feed.lastSequence - feed.prunedThrough - skipped) := by
      rw [after, List.map_drop, numbered, List.drop_range']
    have sorted := sortBy_eq_self rest
    have rows : readChangeFeedEvents db (feed.prunedThrough + skipped)
        (resolveLimit rawLimit + 1) =
          (db.eventsAfter (feed.prunedThrough + skipped)).take (resolveLimit rawLimit + 1) :=
      congrArg _ sorted
    rw [rows, List.take_take, Nat.min_eq_left (Nat.le_succ _), List.length_take]
    congr 2
    rw [decide_eq_decide]
    omega

/-! ## A reader that follows the cursors -/

def appended (db next : Database) : List ChangeEvent :=
  next.eventsAfter ((db.feedState.map ChangeFeedState.lastSequence).getD 0)

inductive History (host : Host) (start : Database) : List ChangeEvent → Database → Prop
  | refl : History host start [] start
  | tail {log : List ChangeEvent} {db next : Database} (history : History host start log db)
      (taken : Step host db next) : History host start (log ++ appended db next) next

/-- Pages read while the namespace goes on. `cursor` is the cursor of the next page and
`got` what the pages have shown. -/
inductive Polls (host : Host) (start : Database) (first : Nat) :
    List ChangeEvent → Database → Nat → List ChangeEvent → Prop
  | checkpoint : Polls host start first [] start first []
  | step {log got : List ChangeEvent} {db next : Database} {cursor : Nat}
      (polls : Polls host start first log db cursor got) (taken : Step host db next) :
      Polls host start first (log ++ appended db next) next cursor got
  | page {log got : List ChangeEvent} {db : Database} {cursor : Nat}
      (polls : Polls host start first log db cursor got) (rawLimit : Option Nat)
      {page : ChangeFeedPage} (result : listChanges db cursor rawLimit = .ok page) :
      Polls host start first log db page.nextCursor (got ++ page.changes)

theorem Polls.history {start : Database} {first cursor : Nat} {log got : List ChangeEvent}
    (polls : Polls host start first log db cursor got) : History host start log db := by
  induction polls with
  | checkpoint => exact .refl
  | step _ taken induction => exact .tail induction taken
  | page _ _ _ induction => exact induction

theorem History.runs {start : Database} {log : List ChangeEvent}
    (history : History host start log db) : Runs host start db := by
  induction history with
  | refl => exact .refl _
  | tail _ taken induction => exact .tail induction taken

/-- The log is numbered on from the checkpoint, and what is stored of it is what has not
been pruned. -/
structure Logged (first : Nat) (log : List ChangeEvent) (db : Database)
    (feed : ChangeFeedState) : Prop where
  isFeed : db.feedState = some feed
  length : first + log.length = feed.lastSequence
  numbered : log.map ChangeEvent.sequence = List.range' (first + 1) log.length
  stored : db.eventsAfter first = log.filter fun event => feed.prunedThrough < event.sequence

theorem appended_recorded {now : Nat} {feed : ChangeFeedState} {events : List ChangeEvent}
    (books : FeedBooks db) (isFeed : db.feedState = some feed)
    (recorded : Recorded db next now feed events) :
    appended db next = events ∧
      events.map ChangeEvent.sequence = List.range' (feed.lastSequence + 1) events.length := by
  rcases recorded.numbered with ⟨operationId, changes, isEvents⟩
  have sequences := (numbered_eventsOf feed.lastSequence operationId now changes).sequences
  rw [← isEvents] at sequences
  refine ⟨?_, sequences⟩
  unfold appended Database.eventsAfter
  rw [isFeed, recorded.stored, List.filter_append]
  have old : (db.feedEvents.filter fun event => feed.lastSequence < event.sequence) = [] := by
    refine List.filter_eq_nil_iff.mpr fun event isEvent => ?_
    simp only [decide_eq_true_eq, Nat.not_lt]
    exact (books.range isFeed isEvent).2
  have new := filter_numbered sequences 0
  rw [Nat.add_zero, List.drop_zero] at new
  change (db.feedEvents.filter fun event => feed.lastSequence < event.sequence) ++
    (events.filter fun event => feed.lastSequence < event.sequence) = events
  rw [old, new, List.nil_append]

theorem appended_pruned {count : Nat} {feed : ChangeFeedState} (books : FeedBooks db)
    (isFeed : db.feedState = some feed) (events : next.feedEvents = db.feedEvents.drop count) :
    appended db next = [] := by
  unfold appended Database.eventsAfter
  rw [isFeed, events]
  refine List.filter_eq_nil_iff.mpr fun event isEvent => ?_
  have range := books.range isFeed (List.mem_of_mem_drop isEvent)
  simp only [Option.map_some, Option.getD_some, decide_eq_true_eq, Nat.not_lt]
  exact range.2

theorem Logged.step {first : Nat} {log : List ChangeEvent} {feed : ChangeFeedState}
    (logged : Logged first log db feed) (books : FeedBooks db) (step : FeedStep db next feed) :
    ∃ later, Logged first (log ++ appended db next) next later := by
  have isFeed := logged.isFeed
  have numbered := books.stored feed isFeed
  have bound := logged.length
  cases step with
  | recorded now events recorded =>
      rcases appended_recorded books isFeed recorded with ⟨isAppended, sequences⟩
      rw [isAppended]
      refine ⟨_, recorded.state, ?_, ?_, ?_⟩
      · rw [List.length_append]
        dsimp only
        omega
      · rw [List.map_append, logged.numbered, sequences, List.length_append, ← bound]
        have joined : first + log.length + 1 = first + 1 + log.length := by omega
        rw [joined]
        exact List.range'_append_1
      · have later : ∀ event ∈ events, feed.lastSequence < event.sequence := by
          intro event isEvent
          have mem : event.sequence ∈ List.range' (feed.lastSequence + 1) events.length :=
            sequences ▸ List.mem_map_of_mem isEvent
          exact (List.mem_range'_1.mp mem).1
        have ordered := books.boundary feed isFeed
        have old := logged.stored
        unfold Database.eventsAfter at old ⊢
        rw [recorded.stored, List.filter_append, List.filter_append, old]
        congr 1
        rw [List.filter_eq_self.mpr, List.filter_eq_self.mpr]
        · intro event isEvent
          have low := later event isEvent
          simp only [decide_eq_true_eq]
          omega
        · intro event isEvent
          have low := later event isEvent
          simp only [decide_eq_true_eq]
          omega
  | pruned count few sameNodes state events =>
      have isDrop : next.feedEvents =
          db.feedEvents.filter fun event => feed.prunedThrough + count < event.sequence :=
        events.trans (filter_numbered numbered count).symm
      rw [appended_pruned books isFeed events, List.append_nil]
      refine ⟨_, state, bound, logged.numbered, ?_⟩
      have old := logged.stored
      unfold Database.eventsAfter at old ⊢
      have swap : (db.feedEvents.filter fun event =>
          feed.prunedThrough + count < event.sequence).filter (fun event =>
            first < event.sequence) =
          (db.feedEvents.filter fun event => first < event.sequence).filter fun event =>
            feed.prunedThrough + count < event.sequence := by
        rw [List.filter_filter, List.filter_filter]
        refine List.filter_congr fun event _ => ?_
        exact Bool.and_comm _ _
      rw [isDrop, swap, old, List.filter_filter]
      refine List.filter_congr fun event _ => ?_
      rw [← Bool.decide_and, decide_eq_decide]
      dsimp only
      omega

theorem History.logged {start : Database} {first : Nat} {log : List ChangeEvent}
    (reached : Reachable host start) {feed : ChangeFeedState}
    (isFeed : start.feedState = some feed) (isFirst : first = feed.lastSequence)
    (history : History host start log db) : ∃ later, Logged first log db later := by
  induction history with
  | refl =>
      refine ⟨feed, isFeed, isFirst, rfl, ?_⟩
      have books := reached.feedBooks
      unfold Database.eventsAfter
      rw [List.filter_nil]
      refine List.filter_eq_nil_iff.mpr fun event isEvent => ?_
      simp only [decide_eq_true_eq, Nat.not_lt, isFirst]
      exact (books.range isFeed isEvent).2
  | tail earlier taken induction =>
      rcases induction with ⟨middle, logged⟩
      have before := earlier.runs.reachable reached
      exact logged.step before.feedBooks
        (taken.feedStep before.consistent before.feedBooks logged.isFeed)

theorem Logged.eventsAfter {first : Nat} {log : List ChangeEvent} {feed : ChangeFeedState}
    (logged : Logged first log db feed) {read : Nat} (kept : feed.prunedThrough ≤ first + read) :
    db.eventsAfter (first + read) = log.drop read := by
  have narrowed : db.eventsAfter (first + read) =
      (db.eventsAfter first).filter fun event => first + read < event.sequence := by
    unfold Database.eventsAfter
    rw [List.filter_filter]
    refine List.filter_congr fun event _ => ?_
    rw [← Bool.decide_and, decide_eq_decide]
    omega
  rw [narrowed, logged.stored, List.filter_filter, ← filter_numbered logged.numbered read]
  refine List.filter_congr fun event _ => ?_
  rw [← Bool.decide_and, decide_eq_decide]
  omega

/-- A page at the cursor of a reader that has the first `read` events of the log. -/
theorem Logged.listChanges_eq {first : Nat} {log : List ChangeEvent} {feed : ChangeFeedState}
    (books : FeedBooks db) (logged : Logged first log db feed) {read : Nat}
    (within : read ≤ log.length) (rawLimit : Option Nat) :
    listChanges db (first + read) rawLimit =
      if first + read < feed.prunedThrough then .error .expired
      else
        .ok
          { changes := (log.drop read).take (resolveLimit rawLimit)
            nextCursor := first + read + ((log.drop read).take (resolveLimit rawLimit)).length
            hasMore := decide (resolveLimit rawLimit < (log.drop read).length) } := by
  have bound := logged.length
  have issued : first + read ≤ feed.lastSequence := by omega
  rw [Storix.listChanges_eq books logged.isFeed issued]
  split
  · rfl
  · rename_i kept
    rw [logged.eventsAfter (Nat.not_lt.mp kept)]
    have numbered : ((log.drop read).take (resolveLimit rawLimit)).map ChangeEvent.sequence =
        List.range' (first + read + 1) ((log.drop read).take (resolveLimit rawLimit)).length := by
      have start : first + 1 + read * 1 = first + read + 1 := by omega
      rw [List.map_take, List.map_drop, logged.numbered, List.drop_range', start,
        List.length_take, List.length_drop]
      rcases Nat.le_total (resolveLimit rawLimit) (log.length - read) with short | long
      · rw [Nat.min_eq_left short]
        exact List.take_range'_of_length_ge short
      · rw [Nat.min_eq_right long]
        exact List.take_range'_of_length_le long
    rw [last_numbered numbered]

theorem Polls.spec {start : Database} {first cursor : Nat} {log got : List ChangeEvent}
    (reached : Reachable host start) {feed : ChangeFeedState}
    (isFeed : start.feedState = some feed) (isFirst : first = feed.lastSequence)
    (polls : Polls host start first log db cursor got) :
    got <+: log ∧ cursor = first + got.length := by
  induction polls with
  | checkpoint => exact ⟨List.prefix_refl _, rfl⟩
  | step _ taken induction => exact ⟨induction.1.trans (List.prefix_append _ _), induction.2⟩
  | @page log got db cursor polls rawLimit page result induction =>
      rcases polls.history.logged reached isFeed isFirst with ⟨later, logged⟩
      have books := (polls.history.runs.reachable reached).feedBooks
      rw [induction.2, logged.listChanges_eq books induction.1.length_le] at result
      split at result
      · cases result
      · cases result
        have isTake := List.prefix_iff_eq_take.mp induction.1
        refine ⟨?_, ?_⟩
        · have whole : got ++ (log.drop got.length).take (resolveLimit rawLimit) =
              log.take (got.length + resolveLimit rawLimit) := by
            conv_lhs => rw [isTake]
            rw [List.length_take, Nat.min_eq_left induction.1.length_le, List.take_add]
          dsimp only
          rw [whole]
          exact List.take_prefix _ _
        · dsimp only
          rw [List.length_append, Nat.add_assoc]

/-! ## A reader that lists the tree and replays -/

theorem History.explains {start : Database} {log : List ChangeEvent}
    (reached : Reachable host start) {feed : ChangeFeedState}
    (isFeed : start.feedState = some feed) (history : History host start log db) :
    Explains (feedViewAt start.nodes) (log.map ChangeEvent.entry) (feedViewAt db.nodes) := by
  induction history with
  | refl => exact .refl _
  | tail earlier taken induction =>
      have before := earlier.runs.reachable reached
      rcases earlier.runs.feedState reached isFeed with ⟨middle, isMiddle, _⟩
      rw [List.map_append]
      refine induction.trans ?_
      cases taken.feedStep before.consistent before.feedBooks isMiddle with
      | recorded now events recorded =>
          rw [(appended_recorded before.feedBooks isMiddle recorded).1]
          exact recorded.explains
      | pruned count few sameNodes state events =>
          rw [appended_pruned before.feedBooks isMiddle events, sameNodes]
          exact .refl _

def During (host : Host) (start : Database) (log : List ChangeEvent) (final db : Database) : Prop :=
  ∃ before after, log = before ++ after ∧ History host start before db ∧
    History host db after final

/-- A directory that the reader listed to the end, from a first page at `state`. -/
structure Visit (host : Host) where
  path : ResolvedPath host
  state : Database
  items : List VfsNodeRecord
  follows : Follows host path state none items .finished

/-- The reader asked for the directory and was told that there is none. -/
def Gone (host : Host) (db : Database) (path : ResolvedPath host) : Prop :=
  ∃ cursor rawLimit, ls host db path cursor rawLimit = .error (.nodeNotFound path.canonical) ∨
    ls host db path cursor rawLimit = .error (.notDirectory path.canonical)

/-- The reader listed the root and asked for every directory that it saw. -/
structure Enumerates (host : Host) (start : Database) (log : List ChangeEvent) (final : Database)
    (visits : List (Visit host)) : Prop where
  during : ∀ visit ∈ visits, During host start log final visit.state
  root : ∃ visit ∈ visits, visit.path.segments = []
  below : ∀ visit ∈ visits, ∀ record ∈ visit.items, record.type = .directory →
    ∃ path : ResolvedPath host, path.segments = visit.path.segments ++ [record.name] ∧
      ((∃ child ∈ visits, child.path = path) ∨
        ∃ state, During host start log final state ∧ Gone host state path)

/-- What the listings show: each directory itself, and its children. -/
inductive Shown (visits : List (Visit host)) : Uuid → FeedView → Prop
  | directory {visit : Visit host} (isVisit : visit ∈ visits) {rawLimit : Option Nat}
      {page : RevisionPageResult}
        (result : ls host visit.state visit.path none rawLimit = .ok page) :
      Shown visits page.directoryRevision.id
        ⟨visit.path.canonical, .directory, page.directoryRevision⟩
  | child {visit : Visit host} (isVisit : visit ∈ visits) {record : VfsNodeRecord}
      (isItem : record ∈ visit.items) :
      Shown visits record.id ⟨joinSegments (visit.path.segments ++ [record.name]), record.type,
        ⟨record.id, record.version⟩⟩

/-- A map of what was shown, where any of several sightings of a node may have won. -/
structure Collected (visits : List (Visit host)) (map : Uuid → Option FeedView) : Prop where
  shown : ∀ id view, map id = some view → Shown visits id view
  all : ∀ id view, Shown visits id view → map id ≠ none

theorem feedViewAt_of_mem {nodes : List VfsNode} (tree : Rooted nodes) {node : VfsNode}
    (member : node ∈ nodes) {path : List JsString} (reached : PathOf nodes node.id path) :
    feedViewAt nodes node.id =
      some ⟨joinSegments path, node.type, ⟨node.id, node.version⟩⟩ := by
  have shows : ShowsNode nodes node.id ⟨node, path⟩ := ⟨member, rfl, reached⟩
  unfold feedViewAt
  rw [viewAt_of_shows tree shows]
  rfl

theorem mem_of_feedViewAt {nodes : List VfsNode} (tree : Rooted nodes) {id : Uuid}
    {view : FeedView} (found : feedViewAt nodes id = some view) :
    ∃ node ∈ nodes, node.id = id ∧
      ∃ path, PathOf nodes id path ∧ view.path = joinSegments path := by
  unfold feedViewAt at found
  rcases Option.map_eq_some_iff.mp found with ⟨seen, isSeen, rfl⟩
  rcases (viewAt_eq_some_iff tree).mp isSeen with ⟨state, ⟨member, sameId, reached⟩, rfl⟩
  exact ⟨state.node, member, sameId, state.segments, reached, rfl⟩

theorem Follows.first_page {path : ResolvedPath host} {cursor : Option RevisionCursor}
    {items : List VfsNodeRecord} (follows : Follows host path db cursor items .finished) :
    ∃ rawLimit page, ls host db path cursor rawLimit = .ok page := by
  cases follows with
  | last rawLimit result ends => exact ⟨rawLimit, _, result⟩
  | more rawLimit result continues between rest => exact ⟨rawLimit, _, result⟩

theorem Shown.sound {visits : List (Visit host)} {id : Uuid} {view : FeedView}
    (states : ∀ visit ∈ visits, Reachable host visit.state) (shown : Shown visits id view) :
    ∃ visit ∈ visits, feedViewAt visit.state.nodes id = some view := by
  cases shown with
  | @directory visit isVisit rawLimit page result =>
      have reached := states visit isVisit
      rcases (ls_spec reached.consistent reached.active visit.path none rawLimit).1 page result with
        ⟨directory, isPage⟩
      refine ⟨visit, isVisit, ?_⟩
      have found := feedViewAt_of_mem reached.consistent.tree isPage.member isPage.reached
      rw [isPage.own, found, isPage.isDirectory]
      rfl
  | @child visit isVisit record isItem =>
      have reached := states visit isVisit
      rcases (visit.follows.outcome_spec reached.consistent reached.active).1 rfl with
        ⟨directory, member, found, isItems⟩
      rcases mem_childRecords.mp (isItems ▸ isItem) with ⟨row, rowMember, below, rfl⟩
      exact ⟨visit, isVisit, feedViewAt_of_mem reached.consistent.tree rowMember
        (PathOf.child rowMember below found)⟩

/-- Every step down a path is a directory, and the next name is among its children. -/
theorem PathOf.exists_step {nodes : List VfsNode} (tree : Rooted nodes) {id : Uuid}
    {front rest : List JsString} {name : JsString}
    (reached : PathOf nodes id (front ++ name :: rest)) :
    ∃ directory ∈ nodes, PathOf nodes directory.id front ∧ directory.type = .directory ∧
      ∃ child ∈ nodes, child.name = name ∧ child.parentId = some directory.id ∧
        PathOf nodes child.id (front ++ [name]) := by
  have whole : front ++ name :: rest = (front ++ [name]) ++ rest := by simp
  rw [whole] at reached
  rcases PathTo.of_append reached with ⟨childId, childReached⟩
  rcases PathOf.exists_child childReached with ⟨child, member, rfl, isName, parentId, below, above⟩
  rcases tree.exists_parent member below with ⟨directory, isDirectory, rfl, type⟩
  exact ⟨directory, isDirectory, above, type, child, member, isName, below, childReached⟩

section Convergence

variable {start final : Database} {log : List ChangeEvent} {visits : List (Visit host)}

theorem During.reachable (reached : Reachable host start)
    (during : During host start log final db) : Reachable host db := by
  rcases during with ⟨before, after, rfl, first, second⟩
  exact first.runs.reachable reached

/-- A node that the log does not name looks the same at every state of the run. -/
theorem During.silent (reached : Reachable host start) {feed : ChangeFeedState}
    (isFeed : start.feedState = some feed) (during : During host start log final db) {id : Uuid}
    (unnamed : id ∉ (log.map ChangeEvent.entry).map Prod.fst) :
    feedViewAt db.nodes id = feedViewAt final.nodes id := by
  rcases during with ⟨before, after, rfl, first, second⟩
  rcases first.runs.feedState reached isFeed with ⟨middle, isMiddle, _⟩
  rw [List.map_append, List.map_append, List.mem_append, not_or] at unnamed
  exact (second.explains (first.runs.reachable reached) isMiddle).unnamed id unnamed.2

/-- A reader that asks for every directory it sees gets to the directories above a node
that stays where it is. -/
theorem Enumerates.visited (enumerates : Enumerates host start log final visits)
    (reached : Reachable host start) {id : Uuid} {path : List JsString}
    (stays : ∀ state, During host start log final state → PathOf state.nodes id path)
    {front rest : List JsString} {name : JsString} (isPath : path = front ++ name :: rest) :
    ∃ visit ∈ visits, visit.path.segments = front := by
  induction front using List.reverseRecOn generalizing name rest with
  | nil => exact enumerates.root
  | append_singleton above last induction =>
      have whole : path = above ++ last :: name :: rest := by simp [isPath]
      rcases induction whole with ⟨visit, isVisit, isAbove⟩
      have during := enumerates.during visit isVisit
      have state := during.reachable reached
      have tree := state.consistent.tree
      rcases (visit.follows.outcome_spec state.consistent state.active).1 rfl with
        ⟨directory, member, found, isItems⟩
      have path := stays _ during
      rw [whole] at path
      rcases PathOf.exists_step tree path with
        ⟨parent, _, parentReached, _, child, childMember, isName, below, _⟩
      rw [isAbove] at found
      rw [PathTo.injective tree parentReached found] at below
      have isDirectory : child.type = .directory := by
        rw [isPath] at whole
        have again := stays _ during
        rw [isPath] at again
        rcases PathOf.exists_step tree again with ⟨lower, lowerMember, lowerReached, type, _⟩
        have childReached : PathOf visit.state.nodes child.id (above ++ [last]) :=
          isName ▸ PathOf.child childMember below found
        rw [tree.eq_of_id childMember lowerMember
          (PathTo.injective tree childReached lowerReached)]
        exact type
      have isItem : toRecord child ∈ visit.items :=
        isItems ▸ mem_childRecords.mpr ⟨child, childMember, below, rfl⟩
      rcases enumerates.below visit isVisit _ isItem isDirectory with
        ⟨next, isNext, ⟨lower, isLower, rfl⟩ | ⟨other, otherDuring, cursor, rawLimit, missing⟩⟩
      · refine ⟨lower, isLower, ?_⟩
        rw [isNext, isAbove]
        exact congrArg (fun last => above ++ [last]) isName
      · -- The directory is there at every state, so no request can have missed it.
        have otherState := otherDuring.reachable reached
        have again := stays _ otherDuring
        rw [isPath] at again
        rcases PathOf.exists_step otherState.consistent.tree again with
          ⟨lower, lowerMember, lowerReached, type, _⟩
        have segments : next.segments = above ++ [last] := by
          rw [isNext, isAbove]
          exact congrArg (fun last => above ++ [last]) isName
        rw [← segments] at lowerReached
        have never := otherState.ls_finds lowerMember lowerReached type cursor rawLimit
        exact absurd missing (not_or.mpr ⟨never.1, never.2⟩)

theorem Enumerates.right (enumerates : Enumerates host start log final visits)
    (reached : Reachable host start) {feed : ChangeFeedState}
    (isFeed : start.feedState = some feed) (history : History host start log final)
    {map : Uuid → Option FeedView} (collected : Collected visits map) {id : Uuid}
    (unnamed : id ∉ (log.map ChangeEvent.entry).map Prod.fst) :
    map id = feedViewAt final.nodes id := by
  have states : ∀ visit ∈ visits, Reachable host visit.state :=
    fun visit isVisit => (enumerates.during visit isVisit).reachable reached
  have sound : ∀ view, Shown visits id view → feedViewAt final.nodes id = some view := by
    intro view shown
    rcases shown.sound states with ⟨visit, isVisit, found⟩
    rw [← found]
    exact ((enumerates.during visit isVisit).silent reached isFeed unnamed).symm
  cases isMap : map id with
  | some view => exact (sound view (collected.shown id view isMap)).symm
  | none =>
      cases isView : feedViewAt final.nodes id with
      | none => rfl
      | some view =>
          have whole : During host start log final final := ⟨log, [], by simp, history, .refl⟩
          rcases mem_of_feedViewAt (whole.reachable reached).consistent.tree isView with
            ⟨_, _, _, path, found, isPath⟩
          have plain : ∀ {state : Database}, Reachable host state → ∀ {path : List JsString},
              PathOf state.nodes id path → ∀ name ∈ path, PlainName name := by
            intro state earlier path isReached
            rcases earlier.consistent.layout with ⟨rootId, layout⟩
            exact (layout.valid id path isReached).plain
          have stays : ∀ state, During host start log final state → PathOf state.nodes id path := by
            intro state during
            have earlier := during.reachable reached
            have sameView := (during.silent reached isFeed unnamed).trans isView
            rcases mem_of_feedViewAt earlier.consistent.tree sameView with
              ⟨_, _, _, other, isReached, isOther⟩
            have same := joinSegments_injective (plain earlier isReached)
              (plain (whole.reachable reached) found) (isOther.symm.trans isPath)
            exact same ▸ isReached
          refine absurd isMap ?_
          rcases List.eq_nil_or_concat path with rfl | ⟨front, name, rfl⟩
          · rcases enumerates.root with ⟨visit, isVisit, isRoot⟩
            have state := states visit isVisit
            rcases visit.follows.first_page with ⟨rawLimit, page, result⟩
            rcases (ls_spec state.consistent state.active visit.path none rawLimit).1 page result
              with ⟨directory, isPage⟩
            have isReached := isPage.reached
            rw [isRoot] at isReached
            have sameId := PathTo.injective state.consistent.tree isReached
              (stays _ (enumerates.during visit isVisit))
            have shown := Shown.directory isVisit result
            rw [isPage.own] at shown
            dsimp only at shown
            rw [sameId] at shown
            exact collected.all id _ shown
          · have isConcat : front.concat name = front ++ name :: [] := List.concat_eq_append
            rcases enumerates.visited reached stays isConcat with ⟨visit, isVisit, isFront⟩
            have during := enumerates.during visit isVisit
            have state := states visit isVisit
            have tree := state.consistent.tree
            rcases (visit.follows.outcome_spec state.consistent state.active).1 rfl with
              ⟨directory, member, isReached, isItems⟩
            have isHere := stays _ during
            rw [List.concat_eq_append] at isHere
            rcases PathOf.exists_child isHere with
              ⟨node, nodeMember, rfl, _, parentId, below, above⟩
            rw [isFront] at isReached
            rw [PathTo.injective tree above isReached] at below
            have isItem : toRecord node ∈ visit.items :=
              isItems ▸ mem_childRecords.mpr ⟨node, nodeMember, below, rfl⟩
            exact collected.all _ _ (.child isVisit isItem)

end Convergence

/-! ## No event is missed -/

theorem checkpoint_feedState {first : Nat} {start : Database}
    (issued : createChangeFeedCheckpoint db = .ok (first, start)) :
    ∃ feed, start.feedState = some feed ∧ first = feed.lastSequence := by
  rcases createChangeFeedCheckpoint_eq_ok issued with ⟨feed, rfl, isFirst, _⟩
  exact ⟨_, rfl, isFirst⟩

/-- Of a page at the cursor of a reader: it has expired, or the pages go on to be the
beginning of the log, and all of it where there is no more. -/
def GoesOn (log got : List ChangeEvent) (cursor : Nat) (feed : ChangeFeedState) :
    Except ChangeCursorError ChangeFeedPage → Prop
  | .error error => error = .expired ∧ cursor < feed.prunedThrough
  | .ok page => got ++ page.changes <+: log ∧ feed.prunedThrough ≤ cursor ∧
      if page.hasMore then page.changes ≠ [] else got ++ page.changes = log

theorem Logged.goesOn {first : Nat} {log got : List ChangeEvent} {feed : ChangeFeedState}
    (books : FeedBooks db) (logged : Logged first log db feed) (isFront : got <+: log)
    (rawLimit : Option Nat) :
    GoesOn log got (first + got.length) feed (listChanges db (first + got.length) rawLimit) := by
  have positive := resolveLimit_pos rawLimit
  rcases isFront with ⟨rest, rfl⟩
  rw [logged.listChanges_eq books (by simp), List.drop_left]
  split
  · rename_i expired
    exact ⟨rfl, expired⟩
  · rename_i kept
    refine ⟨?_, Nat.not_lt.mp kept, ?_⟩
    · exact (List.prefix_append_right_inj got).mpr (List.take_prefix _ _)
    · dsimp only
      by_cases more : resolveLimit rawLimit < rest.length
      · rw [if_pos (decide_eq_true more), Ne, List.take_eq_nil_iff]
        rintro (isZero | rfl)
        · omega
        · cases more
      · rw [if_neg (by simpa using more), List.take_of_length_le (Nat.not_lt.mp more)]

theorem feed_never_skips (reached : Reachable host db) :
    (∀ feed, db.feedState = some feed →
      feed.prunedThrough ≤ feed.lastSequence ∧
      db.feedEvents.map ChangeEvent.sequence =
        List.range' (feed.prunedThrough + 1) (feed.lastSequence - feed.prunedThrough) ∧
      (∀ next, Runs host db next → ∃ later, next.feedState = some later ∧
        feed.prunedThrough ≤ later.prunedThrough) ∧
      ∀ cursor ≤ feed.lastSequence, ∀ rawLimit,
        (listChanges db cursor rawLimit = .error .expired ↔ cursor < feed.prunedThrough) ∧
        (feed.prunedThrough ≤ cursor → ∃ page, listChanges db cursor rawLimit = .ok page ∧
          page.changes = (db.feedEvents.filter fun event => cursor < event.sequence).take
            (resolveLimit rawLimit))) ∧
    ∀ first start, createChangeFeedCheckpoint db = .ok (first, start) →
      (∀ log next cursor got, Polls host start first log next cursor got →
        History host start log next ∧
        log.map ChangeEvent.sequence = List.range' (first + 1) log.length ∧
        got <+: log ∧
        ∃ feed, next.feedState = some feed ∧
          ∀ rawLimit, GoesOn log got cursor feed (listChanges next cursor rawLimit)) ∧
      ∀ log final visits map, History host start log final →
        Enumerates host start log final visits → Collected visits map →
        replay map (log.map ChangeEvent.entry) = feedViewAt final.nodes := by
  have books := reached.feedBooks
  refine ⟨fun feed isFeed => ⟨books.boundary feed isFeed, books.stored feed isFeed, ?_, ?_⟩, ?_⟩
  · intro next run
    rcases run.feedState reached isFeed with ⟨later, isLater, pruned, _⟩
    exact ⟨later, isLater, pruned⟩
  · intro cursor issued rawLimit
    rw [listChanges_eq books isFeed issued]
    by_cases expired : cursor < feed.prunedThrough
    · rw [if_pos expired]
      exact ⟨⟨fun _ => expired, fun _ => rfl⟩, fun kept => absurd expired (Nat.not_lt.mpr kept)⟩
    · rw [if_neg expired]
      exact ⟨⟨nofun, fun isExpired => absurd isExpired expired⟩, fun _ => ⟨_, rfl, rfl⟩⟩
  · intro first start issued
    have begins : Reachable host start := .step reached (.checkpoint issued)
    rcases checkpoint_feedState issued with ⟨feed, isFeed, isFirst⟩
    refine ⟨fun log next cursor got polls => ?_, ?_⟩
    · rcases polls.history.logged begins isFeed isFirst with ⟨later, logged⟩
      rcases polls.spec begins isFeed isFirst with ⟨isFront, rfl⟩
      exact ⟨polls.history, logged.numbered, isFront, later, logged.isFeed,
        logged.goesOn (polls.history.runs.reachable begins).feedBooks isFront⟩
    · intro log final visits map history enumerates collected
      exact (history.explains begins isFeed).replay_eq fun id unnamed =>
        enumerates.right begins isFeed history collected unnamed

namespace Small

def forgotten : Database := (Mutation.remove directory true 100).after 3 recording

theorem reachable_forgotten : Reachable Host.counting forgotten := reachable_recording.after _ 3

theorem history_forgotten :
    History Host.counting recording (appended recording forgotten) forgotten := by
  have commits : ((Mutation.remove directory true 100).run 3 (fun _ _ _ => .ok ())
      recording).toOption.isSome = true := by decide +kernel
  cases result : (Mutation.remove directory true 100).run 3 (fun _ _ _ => .ok ()) recording with
  | error error =>
      rw [result] at commits
      cases commits
  | ok committed =>
      have isNext : forgotten = committed.db := by
        rw [forgotten, Mutation.after, result]
      rw [isNext]
      exact .tail .refl (.mutation _ 3 _ result)

/-- `/` -/
def top : ResolvedPath Host.counting := ⟨[], validPath_nil _⟩

def rootPage : RevisionPageResult :=
  match ls Host.counting recording top none none with
  | .ok page => page
  | .error _ => ⟨⟨0, 0⟩, [], none⟩

theorem ls_recording : ls Host.counting recording top none none = .ok rootPage := by
  have lists : (ls Host.counting recording top none none).toOption.isSome = true := by
    decide +kernel
  rw [rootPage]
  cases result : ls Host.counting recording top none none with
  | error error =>
      rw [result] at lists
      cases lists
  | ok page => rfl

def forgottenPage : Except VfsError RevisionPageResult :=
  ls Host.counting forgotten directory.toResolvedPath none none

def refusal : Except VfsError RevisionPageResult → VfsError
  | .error error => error
  | .ok _ => .invalidCursor

theorem ls_forgotten : forgottenPage = .error (.nodeNotFound directory.canonical) := by
  have isRefused : refusal forgottenPage = .nodeNotFound directory.canonical := by decide +kernel
  cases result : forgottenPage with
  | error error =>
      rw [result] at isRefused
      exact congrArg Except.error isRefused
  | ok page =>
      rw [result] at isRefused
      cases isRefused

def rootVisit : Visit Host.counting where
  path := top
  state := recording
  items := rootPage.items
  follows := .last none ls_recording (by decide +kernel)

def listed (id : Uuid) : Option FeedView :=
  if id = rootPage.directoryRevision.id then
    some ⟨top.canonical, .directory, rootPage.directoryRevision⟩
  else
    (rootPage.items.find? fun record => record.id = id).map fun record =>
      ⟨joinSegments (top.segments ++ [record.name]), record.type, ⟨record.id, record.version⟩⟩

/-- The reader lists the root, and the directory in it is gone when it asks for it. -/
theorem enumerates_recording :
    Enumerates Host.counting recording (appended recording forgotten) forgotten [rootVisit] where
  during visit isVisit := by
    rw [List.mem_singleton.mp isVisit]
    exact ⟨[], appended recording forgotten, (List.nil_append _).symm, .refl, history_forgotten⟩
  root := ⟨rootVisit, List.mem_singleton_self _, rfl⟩
  below visit isVisit record isItem _ := by
    rw [List.mem_singleton.mp isVisit] at isItem ⊢
    have isName : ∀ record ∈ rootPage.items, record.name = [0x64] := by decide +kernel
    refine ⟨directory.toResolvedPath, ?_, .inr ⟨forgotten,
      ⟨appended recording forgotten, [], (List.append_nil _).symm, history_forgotten, .refl⟩,
      none, none, .inl ls_forgotten⟩⟩
    rw [isName record isItem]
    rfl

theorem collected_recording : Collected [rootVisit] listed where
  shown id view isShown := by
    rw [listed] at isShown
    split at isShown
    · rename_i isRoot
      cases isShown
      rw [isRoot]
      exact .directory (List.mem_singleton_self _) ls_recording
    · rcases Option.map_eq_some_iff.mp isShown with ⟨record, isRecord, rfl⟩
      have isId := List.find?_some isRecord
      rw [decide_eq_true_iff] at isId
      rw [← isId]
      exact .child (List.mem_singleton_self rootVisit) (List.mem_of_find?_eq_some isRecord)
  all id view isShown := by
    cases isShown with
    | @directory visit isVisit rawLimit page result =>
        rw [List.mem_singleton.mp isVisit] at result
        have consistent := reachable_recording.consistent
        have active := reachable_recording.active
        rcases (ls_spec consistent active top none rawLimit).1 page result with ⟨shown, isPage⟩
        rcases (ls_spec consistent active top none none).1 rootPage ls_recording with
          ⟨root, isRootPage⟩
        have same := PathTo.injective consistent.tree isPage.reached isRootPage.reached
        rw [listed, if_pos]
        · exact Option.some_ne_none _
        · rw [isPage.own, isRootPage.own]
          exact same
    | @child visit isVisit record isItem =>
        rw [List.mem_singleton.mp isVisit] at isItem
        rw [listed]
        split
        · exact Option.some_ne_none _
        · rw [Ne, Option.map_eq_none_iff, List.find?_eq_none]
          intro none
          exact none record isItem (by simp)

end Small

/-- After the removal three events are stored, and a page after the first shows the
second. A reader that took its checkpoint before it never skips one. One that listed the root
before the removal, and found the directory gone, has the tree after it replays the three. -/
theorem feed_never_skips_forgotten :
    Small.forgotten.feedState = some ⟨3, 0, true⟩ ∧
    Small.forgotten.feedEvents.map ChangeEvent.sequence = List.range' 1 3 ∧
    (∃ page, listChanges Small.forgotten 1 (some 1) = .ok page ∧
      page.changes = (Small.forgotten.feedEvents.filter fun event => 1 < event.sequence).take 1) ∧
    createChangeFeedCheckpoint Small.oneFile = .ok (0, Small.recording) ∧
    (∀ log next cursor got, Polls Host.counting Small.recording 0 log next cursor got →
      got <+: log) ∧
    (Small.listed 1).isSome = true ∧
    replay Small.listed ((appended Small.recording Small.forgotten).map ChangeEvent.entry) =
      feedViewAt Small.forgotten.nodes ∧
    feedViewAt Small.forgotten.nodes 1 = none := by
  have isFeed : Small.forgotten.feedState = some ⟨3, 0, true⟩ := by decide +kernel
  have issued : createChangeFeedCheckpoint Small.oneFile = .ok (0, Small.recording) := by
    have first : (createChangeFeedCheckpoint Small.oneFile).toOption.map Prod.fst = some 0 := by
      decide +kernel
    unfold Small.recording
    split
    · rename_i cursor next result
      rw [result] at first ⊢
      cases first
      rfl
    · rename_i failed
      rw [failed] at first
      cases first
  rcases (feed_never_skips Small.reachable_forgotten).1 _ isFeed with ⟨_, stored, _, pages⟩
  rcases (feed_never_skips Small.reachable_oneFile).2 0 Small.recording issued with
    ⟨readers, converges⟩
  exact ⟨isFeed, stored, (pages 1 (by decide) (some 1)).2 (by decide), issued,
    fun log next cursor got polls => (readers log next cursor got polls).2.2.1,
    by decide +kernel,
    converges _ _ _ _ Small.history_forgotten Small.enumerates_recording Small.collected_recording,
    by decide +kernel⟩

end Storix
