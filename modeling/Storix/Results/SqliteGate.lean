import Mathlib.Data.List.Basic
import Mathlib.Data.List.Pairwise
import Mathlib.Data.List.Nodup
import Storix.Persistence.SqliteGate

/-! # The gate gives the connection to one at a time

In every interleaving the calls get the gate in the order in which they asked, each of them is
resolved or rejected once, and while a runner's transaction is open no other runner's statement
reaches the connection. -/

namespace Storix.SqliteGate

open Foundation

variable {gate : SqliteGate}

/-! ## The queue -/

/-- The waiters are the calls that wait, in the order in which they came, with their timers set.
An `acquire` is settled once, and a rejected call is over. -/
structure QueueOf (waiters timers : List Nat) (settled : List (Nat × Bool))
    (calls : Nat → Option GateCall) (nextCall : Nat) : Prop where
  known : ∀ call entry, calls call = some entry → call < nextCall
  waiting : ∀ call, call ∈ waiters ↔ ∃ entry, calls call = some entry ∧ entry.phase = .waiting
  sameTimers : timers = waiters
  ordered : waiters.Pairwise (· < ·)
  once : (settled.map Prod.fst).Nodup
  settledKnown : ∀ call ok, (call, ok) ∈ settled → call < nextCall ∧ call ∉ waiters
  rejected : ∀ call, (call, false) ∈ settled → calls call = none

abbrev Queue (gate : SqliteGate) : Prop :=
  QueueOf gate.waiters gate.timers gate.settled gate.calls gate.nextCall

def HasGate (calls : Nat → Option GateCall) (call : Nat) : Prop :=
  ∃ entry, calls call = some entry ∧ (entry.phase = .granted ∨ entry.phase = .executed)

/-- The gate is locked exactly while one call or one runner has it. -/
structure HeldOf (owner : Option Nat) (locked : Bool) (waiters : List Nat)
    (calls : Nat → Option GateCall) : Prop where
  unique : ∀ call other, HasGate calls call → HasGate calls other → call = other
  free : ∀ call, HasGate calls call → owner = none
  isLocked : locked = true ↔ (∃ call, HasGate calls call) ∨ owner ≠ none
  queued : waiters ≠ [] → locked = true

abbrev Held (gate : SqliteGate) : Prop :=
  HeldOf gate.owner gate.locked gate.waiters gate.calls

theorem queue_initial : Queue initial where
  known _ _ found := by cases found
  waiting _ := by simp [initial]
  sameTimers := rfl
  ordered := .nil
  once := .nil
  settledKnown _ _ member := by cases member
  rejected _ _ := rfl

theorem held_initial : Held initial where
  unique _ _ hasGate := by
    rcases hasGate with ⟨_, found, _⟩
    cases found
  free _ _ := rfl
  isLocked := by simp [initial, HasGate]
  queued nonempty := absurd rfl nonempty

section

variable {waiters timers : List Nat} {settled : List (Nat × Bool)}
  {calls : Nat → Option GateCall} {nextCall : Nat}

theorem QueueOf.update (queue : QueueOf waiters timers settled calls nextCall) {call : Nat}
    {old : GateCall} (found : calls call = some old) (notWaiting : old.phase ≠ .waiting)
    {entry : Option GateCall} (stays : ∀ new, entry = some new → new.phase ≠ .waiting) :
    QueueOf waiters timers settled (Function.update calls call entry) nextCall where
  known other new isNew := by
    by_cases same : other = call
    · rw [same]
      exact queue.known call old found
    · rw [Function.update_of_ne same] at isNew
      exact queue.known other new isNew
  waiting other := by
    rw [queue.waiting]
    by_cases same : other = call
    · rw [same, Function.update_self, found]
      constructor
      · rintro ⟨_, isOld, waits⟩
        cases isOld
        exact absurd waits notWaiting
      · rintro ⟨new, isNew, waits⟩
        exact absurd waits (stays new isNew)
    · rw [Function.update_of_ne same]
  sameTimers := queue.sameTimers
  ordered := queue.ordered
  once := queue.once
  settledKnown := queue.settledKnown
  rejected other member := by
    have gone := queue.rejected other member
    by_cases same : other = call
    · rw [same, found] at gone
      cases gone
    · rw [Function.update_of_ne same]
      exact gone

theorem QueueOf.add (queue : QueueOf waiters timers settled calls nextCall) {entry : GateCall}
    (notWaiting : entry.phase ≠ .waiting) :
    QueueOf waiters timers settled (Function.update calls nextCall (some entry))
      (nextCall + 1) where
  known other new isNew := by
    by_cases same : other = nextCall
    · omega
    · rw [Function.update_of_ne same] at isNew
      exact Nat.lt_succ_of_lt (queue.known other new isNew)
  waiting other := by
    rw [queue.waiting]
    by_cases same : other = nextCall
    · rw [same, Function.update_self]
      constructor
      · rintro ⟨old, isOld, _⟩
        exact absurd (queue.known nextCall old isOld) (Nat.lt_irrefl _)
      · rintro ⟨_, isNew, waits⟩
        cases isNew
        exact absurd waits notWaiting
    · rw [Function.update_of_ne same]
  sameTimers := queue.sameTimers
  ordered := queue.ordered
  once := queue.once
  settledKnown other ok member :=
    ⟨Nat.lt_succ_of_lt (queue.settledKnown other ok member).1,
      (queue.settledKnown other ok member).2⟩
  rejected other member := by
    have isOld := (queue.settledKnown other false member).1
    rw [Function.update_of_ne (Nat.ne_of_lt isOld)]
    exact queue.rejected other member

theorem QueueOf.settle (queue : QueueOf waiters timers settled calls nextCall) {call : Nat}
    {ok : Bool} (isKnown : call < nextCall) (unsettled : call ∉ settled.map Prod.fst)
    (notWaiting : call ∉ waiters) (gone : ok = false → calls call = none) :
    QueueOf waiters timers (settled ++ [(call, ok)]) calls nextCall where
  known := queue.known
  waiting := queue.waiting
  sameTimers := queue.sameTimers
  ordered := queue.ordered
  once := by
    rw [List.map_append, List.map_singleton, List.nodup_append]
    refine ⟨queue.once, List.nodup_singleton _, ?_⟩
    intro other isOther new isNew same
    have isCall : other = call := same.trans (List.mem_singleton.mp isNew)
    exact unsettled (isCall ▸ isOther)
  settledKnown other result member := by
    rcases List.mem_append.mp member with isOld | isNew
    · exact queue.settledKnown other result isOld
    · cases List.mem_singleton.mp isNew
      exact ⟨isKnown, notWaiting⟩
  rejected other member := by
    rcases List.mem_append.mp member with isOld | isNew
    · exact queue.rejected other isOld
    · cases List.mem_singleton.mp isNew
      exact gone rfl

theorem QueueOf.leave (queue : QueueOf waiters timers settled calls nextCall) {call : Nat}
    (isWaiter : call ∈ waiters) {entry : Option GateCall}
    (stays : ∀ new, entry = some new → new.phase ≠ .waiting) :
    QueueOf (waiters.erase call) (timers.erase call) settled (Function.update calls call entry)
      nextCall where
  known other new isNew := by
    by_cases same : other = call
    · rcases (queue.waiting call).mp isWaiter with ⟨old, found, _⟩
      rw [same]
      exact queue.known call old found
    · rw [Function.update_of_ne same] at isNew
      exact queue.known other new isNew
  waiting other := by
    have distinct : waiters.Nodup := queue.ordered.imp Nat.ne_of_lt
    rw [distinct.mem_erase_iff, queue.waiting]
    by_cases same : other = call
    · rw [same, Function.update_self]
      constructor
      · rintro ⟨different, _⟩
        exact absurd rfl different
      · rintro ⟨new, isNew, waits⟩
        exact absurd waits (stays new isNew)
    · rw [Function.update_of_ne same]
      constructor
      · exact fun facts => facts.2
      · exact fun facts => ⟨same, facts⟩
  sameTimers := by rw [queue.sameTimers]
  ordered := queue.ordered.sublist List.erase_sublist
  once := queue.once
  settledKnown other ok member := by
    have facts := queue.settledKnown other ok member
    exact ⟨facts.1, fun inQueue => facts.2 (List.mem_of_mem_erase inQueue)⟩
  rejected other member := by
    have facts := queue.settledKnown other false member
    have different : other ≠ call := by
      rintro rfl
      exact facts.2 isWaiter
    rw [Function.update_of_ne different]
    exact queue.rejected other member

theorem QueueOf.join (queue : QueueOf waiters timers settled calls nextCall) {entry : GateCall}
    (waits : entry.phase = .waiting) :
    QueueOf (waiters ++ [nextCall]) (timers ++ [nextCall]) settled
      (Function.update calls nextCall (some entry)) (nextCall + 1) where
  known other new isNew := by
    by_cases same : other = nextCall
    · omega
    · rw [Function.update_of_ne same] at isNew
      exact Nat.lt_succ_of_lt (queue.known other new isNew)
  waiting other := by
    rw [List.mem_append, List.mem_singleton, queue.waiting]
    by_cases same : other = nextCall
    · rw [same, Function.update_self]
      constructor
      · exact fun _ => ⟨entry, rfl, waits⟩
      · exact fun _ => .inr rfl
    · rw [Function.update_of_ne same]
      constructor
      · exact fun facts => facts.resolve_right same
      · exact .inl
  sameTimers := by rw [queue.sameTimers]
  ordered := by
    rw [List.pairwise_append]
    refine ⟨queue.ordered, List.pairwise_singleton _ _, ?_⟩
    intro call isWaiter other isOther
    rcases (queue.waiting call).mp isWaiter with ⟨old, found, _⟩
    rw [List.mem_singleton.mp isOther]
    exact queue.known call old found
  once := queue.once
  settledKnown other ok member := by
    have facts := queue.settledKnown other ok member
    refine ⟨Nat.lt_succ_of_lt facts.1, ?_⟩
    rw [List.mem_append, List.mem_singleton]
    rintro (inQueue | isNew)
    · exact facts.2 inQueue
    · exact absurd facts.1 (by omega)
  rejected other member := by
    have isOld := (queue.settledKnown other false member).1
    rw [Function.update_of_ne (Nat.ne_of_lt isOld)]
    exact queue.rejected other member

theorem QueueOf.unsettled (queue : QueueOf waiters timers settled calls nextCall) {call : Nat}
    (isWaiter : call ∈ waiters) : call ∉ settled.map Prod.fst := by
  intro member
  rcases List.mem_map.mp member with ⟨⟨other, ok⟩, isSettled, rfl⟩
  exact (queue.settledKnown other ok isSettled).2 isWaiter

end

/-! ## The operations of the gate -/

theorem release_of_nil (isEmpty : gate.waiters = []) :
    gate.release = { gate with locked := false } := by
  rw [release]
  split
  · rfl
  · rename_i next rest isCons
    rw [isEmpty] at isCons
    cases isCons

def grant (gate : SqliteGate) (call : Nat) : Option GateCall :=
  (gate.calls call).map fun entry => { entry with phase := .granted }

theorem release_of_cons {first : Nat} {rest : List Nat} (isCons : gate.waiters = first :: rest) :
    gate.release =
      { gate.setCall first (gate.grant first) with
        waiters := rest
        timers := gate.timers.erase first
        settled := gate.settled ++ [(first, true)] } := by
  rw [release]
  split
  · rename_i isEmpty
    rw [isCons] at isEmpty
    cases isEmpty
  · rename_i other others isOther
    rw [isCons] at isOther
    cases isOther
    rfl

theorem queue_acquire (queue : Queue gate) (runner : Nat) (work : GateWork) :
    Queue (gate.acquire runner work) := by
  have unsettled : gate.nextCall ∉ gate.settled.map Prod.fst := by
    intro member
    rcases List.mem_map.mp member with ⟨⟨other, ok⟩, isSettled, isNext⟩
    have isOld := (queue.settledKnown other ok isSettled).1
    exact absurd isNext (Nat.ne_of_lt isOld)
  rw [acquire]
  split
  · have notWaiting : (⟨runner, work, .granted⟩ : GateCall).phase ≠ .waiting := by simp
    apply (queue.add notWaiting).settle
    · exact Nat.lt_succ_self _
    · exact unsettled
    · intro isWaiter
      rcases (queue.waiting _).mp isWaiter with ⟨old, found, _⟩
      exact absurd (queue.known _ old found) (Nat.lt_irrefl _)
    · exact fun isFalse => absurd isFalse (by decide)
  · exact queue.join rfl

theorem queue_release (queue : Queue gate) : Queue gate.release := by
  cases isWaiters : gate.waiters with
  | nil =>
      rw [release_of_nil isWaiters]
      exact queue
  | cons first rest =>
      have isWaiter : first ∈ gate.waiters := by simp [isWaiters]
      have isGrant : ∀ new, gate.grant first = some new → new.phase ≠ .waiting := by
        intro new isNew
        rcases Option.map_eq_some_iff.mp isNew with ⟨old, _, rfl⟩
        exact fun same => by cases same
      have left := queue.leave isWaiter isGrant
      rcases (queue.waiting first).mp isWaiter with ⟨old, found, _⟩
      have notWaiting : first ∉ gate.waiters.erase first := by
        have distinct : gate.waiters.Nodup := queue.ordered.imp Nat.ne_of_lt
        rw [distinct.mem_erase_iff]
        exact fun facts => facts.1 rfl
      have settled := @QueueOf.settle _ _ _ _ _ left first true (queue.known first old found)
        (queue.unsettled isWaiter) notWaiting (fun isFalse => by cases isFalse)
      have isRest : gate.waiters.erase first = rest := by rw [isWaiters, List.erase_cons_head]
      rw [release_of_cons isWaiters]
      rw [isRest] at settled
      exact settled

theorem queue_expire (queue : Queue gate) {call : Nat} (isTimer : call ∈ gate.timers) :
    Queue (gate.expire call) := by
  have isWaiter : call ∈ gate.waiters := queue.sameTimers ▸ isTimer
  have left := @QueueOf.leave _ _ _ _ _ queue call isWaiter none (fun _ isNew => by cases isNew)
  rcases (queue.waiting call).mp isWaiter with ⟨old, found, _⟩
  have settled := @QueueOf.settle _ _ _ _ _ left call false (queue.known call old found)
    (queue.unsettled isWaiter) (by
      have distinct : gate.waiters.Nodup := queue.ordered.imp Nat.ne_of_lt
      rw [distinct.mem_erase_iff]
      exact fun facts => facts.1 rfl) (fun _ => Function.update_self ..)
  rw [expire, spliceWaiter, if_pos isWaiter]
  exact settled

/-- Calls that have the gate are those that had it, where only calls without it changed. -/
theorem hasGate_update {calls : Nat → Option GateCall} {call : Nat} {entry : Option GateCall}
    (hadNot : ¬HasGate calls call)
    (hasNot : ∀ new, entry = some new → new.phase ≠ .granted ∧ new.phase ≠ .executed)
    (other : Nat) : HasGate (Function.update calls call entry) other ↔ HasGate calls other := by
  by_cases same : other = call
  · rw [same]
    constructor
    · rintro ⟨new, isNew, phase⟩
      rw [Function.update_self] at isNew
      have facts := hasNot new isNew
      exact absurd phase (not_or.mpr facts)
    · exact fun has => absurd has hadNot
  · rw [HasGate, HasGate, Function.update_of_ne same]

theorem HeldOf.of_hasGate_iff {owner : Option Nat} {locked : Bool} {waiters others : List Nat}
    {calls changed : Nat → Option GateCall} (held : HeldOf owner locked waiters calls)
    (same : ∀ call, HasGate changed call ↔ HasGate calls call)
    (queued : others ≠ [] → locked = true) : HeldOf owner locked others changed where
  unique call other has otherHas :=
    held.unique call other ((same call).mp has) ((same other).mp otherHas)
  free call has := held.free call ((same call).mp has)
  isLocked := by
    rw [held.isLocked]
    simp only [same]
  queued := queued

theorem held_acquire (queue : Queue gate) (held : Held gate) (runner : Nat) (work : GateWork) :
    Held (gate.acquire runner work) := by
  have isNew : ¬HasGate gate.calls gate.nextCall := by
    rintro ⟨entry, found, _⟩
    exact absurd (queue.known _ entry found) (Nat.lt_irrefl _)
  rw [acquire]
  split
  · rename_i unlocked
    have nobody : ¬((∃ call, HasGate gate.calls call) ∨ gate.owner ≠ none) := by
      rw [← held.isLocked, unlocked]
      decide
    rw [not_or, not_exists, not_not] at nobody
    have onlyNew : ∀ call, HasGate (Function.update gate.calls gate.nextCall
        (some ⟨runner, work, .granted⟩)) call → call = gate.nextCall := by
      rintro call ⟨entry, found, phase⟩
      by_contra different
      rw [Function.update_of_ne different] at found
      exact nobody.1 call ⟨entry, found, phase⟩
    exact {
      unique := fun call other has otherHas =>
        (onlyNew call has).trans (onlyNew other otherHas).symm
      free := fun _ _ => nobody.2
      isLocked := by
        refine iff_of_true rfl (.inl ⟨gate.nextCall, _, Function.update_self .., .inl rfl⟩)
      queued := fun _ => rfl }
  · rename_i isLocked
    apply held.of_hasGate_iff (hasGate_update isNew _)
    · exact fun _ => by simpa using isLocked
    · rintro new isEntry
      cases isEntry
      exact ⟨by simp, by simp⟩

theorem held_release (queue : Queue gate) (nobody : ∀ call, ¬HasGate gate.calls call)
    (noOwner : gate.owner = none) (isLocked : gate.locked = true) : Held gate.release := by
  cases isWaiters : gate.waiters with
  | nil =>
      rw [release_of_nil isWaiters]
      exact {
        unique := fun call _ has => absurd has (nobody call)
        free := fun call has => absurd has (nobody call)
        isLocked := by
          apply iff_of_false Bool.false_ne_true
          rintro (⟨call, has⟩ | isOwned)
          · exact nobody call has
          · exact isOwned noOwner
        queued := fun nonempty => absurd isWaiters nonempty }
  | cons first rest =>
      have isWaiter : first ∈ gate.waiters := by simp [isWaiters]
      rcases (queue.waiting first).mp isWaiter with ⟨old, found, _⟩
      have onlyFirst : ∀ call, HasGate (Function.update gate.calls first (gate.grant first)) call →
          call = first := by
        rintro call ⟨entry, isEntry, phase⟩
        by_contra different
        rw [Function.update_of_ne different] at isEntry
        exact nobody call ⟨entry, isEntry, phase⟩
      have firstHas : HasGate (Function.update gate.calls first (gate.grant first)) first := by
        refine ⟨{ old with phase := .granted }, ?_, .inl rfl⟩
        rw [Function.update_self, grant, found]
        rfl
      rw [release_of_cons isWaiters]
      exact {
        unique := fun call other has otherHas =>
          (onlyFirst call has).trans (onlyFirst other otherHas).symm
        free := fun _ _ => noOwner
        isLocked := iff_of_true isLocked (.inl ⟨first, firstHas⟩)
        queued := fun _ => isLocked }

theorem held_expire (queue : Queue gate) (held : Held gate) {call : Nat}
    (isTimer : call ∈ gate.timers) : Held (gate.expire call) := by
  have isWaiter : call ∈ gate.waiters := queue.sameTimers ▸ isTimer
  rcases (queue.waiting call).mp isWaiter with ⟨old, found, waits⟩
  apply held.of_hasGate_iff (hasGate_update _ _)
  · exact fun _ => held.queued (List.ne_nil_of_mem isWaiter)
  · rintro ⟨entry, isEntry, phase⟩
    rw [found] at isEntry
    cases isEntry
    rw [waits] at phase
    rcases phase with granted | executed
    · cases granted
    · cases executed
  · rintro new isNew
    cases isNew

/-! ## What the steps do -/

theorem execute_cases {call : Nat} {inTransaction : Bool} {after : SqliteGate}
    (taken : gate.execute call inTransaction = some after) : ∃ runner,
    gate.calls call = some ⟨runner, .query, .granted⟩ ∧
        after = { gate.setCall call (some ⟨runner, .query, .executed⟩) with inTransaction } ∨
      gate.calls call = some ⟨runner, .query, .passing⟩ ∧
        after = { gate.setCall call none with inTransaction } := by
  rw [execute] at taken
  split at taken
  · rename_i runner found
    exact ⟨runner, .inl ⟨found, (Option.some.inj taken).symm⟩⟩
  · rename_i runner found
    exact ⟨runner, .inr ⟨found, (Option.some.inj taken).symm⟩⟩
  · cases taken

theorem settle_cases {call : Nat} {after : SqliteGate} (taken : gate.settle call = some after) :
    ∃ entry, gate.calls call = some entry ∧
      ((entry.phase = .granted ∨ entry.phase = .executed) ∧
          after = release (gate.setCall call none) ∨
        entry.phase = .passing ∧ after = gate.setCall call none) := by
  rw [settle] at taken
  split at taken
  · rename_i found
    exact ⟨_, found, .inl ⟨.inl rfl, (Option.some.inj taken).symm⟩⟩
  · rename_i found
    exact ⟨_, found, .inl ⟨.inr rfl, (Option.some.inj taken).symm⟩⟩
  · rename_i found
    exact ⟨_, found, .inr ⟨rfl, (Option.some.inj taken).symm⟩⟩
  · cases taken

/-- The runner of a granted call owns the gate, and its scope, if it may take it. -/
theorem resume_cases {call : Nat} {after : SqliteGate} (taken : gate.resume call = some after) :
    ∃ runner scope, gate.calls call = some ⟨runner, .startTransaction scope, .granted⟩ ∧
      (after = { gate.setCall call (some ⟨runner, .startTransaction scope, .starting⟩) with
          owner := some runner } ∨
        ∃ taken, scope = some taken ∧ gate.takesScope taken = true ∧
          after = { gate.setCall call (some ⟨runner, .startTransaction scope, .starting⟩) with
            owner := some runner
            scopes := Function.update gate.scopes taken (some ⟨some runner, false⟩)
            runnerScope := Function.update gate.runnerScope runner (some taken) }) := by
  rw [resume] at taken
  split at taken
  · rename_i runner scope found
    refine ⟨runner, scope, found, ?_⟩
    cases scope with
    | none => exact .inl (Option.some.inj taken).symm
    | some scope =>
        dsimp only at taken
        split at taken
        · rename_i takes
          exact .inr ⟨scope, rfl, takes, (Option.some.inj taken).symm⟩
        · exact .inl (Option.some.inj taken).symm
  · cases taken

theorem started_cases {call : Nat} {opened : Bool} {after : SqliteGate}
    (taken : gate.started call opened = some after) : ∃ runner scope,
    gate.calls call = some ⟨runner, .startTransaction scope, .starting⟩ ∧
      after = if opened then
          { gate.setCall call none with
            gateDepth := Function.update gate.gateDepth runner 1 }
        else (gate.setCall call none).releaseOwnership runner := by
  rw [started] at taken
  split at taken
  · rename_i runner scope found
    exact ⟨runner, scope, found, (Option.some.inj taken).symm⟩
  · cases taken

theorem nested_cases {call : Nat} {opened : Bool} {after : SqliteGate}
    (taken : gate.nested call opened = some after) : ∃ runner scope,
    gate.calls call = some ⟨runner, .startTransaction scope, .nesting⟩ ∧
      after = if opened then
          { gate.setCall call none with
            gateDepth := Function.update gate.gateDepth runner (gate.gateDepth runner + 1) }
        else gate.setCall call none := by
  rw [nested] at taken
  split at taken
  · rename_i runner scope found
    exact ⟨runner, scope, found, (Option.some.inj taken).symm⟩
  · cases taken

def leaveScope (gate : SqliteGate) (runner : Nat) : SqliteGate :=
  match gate.runnerScope runner with
  | none => gate
  | some scope =>
      { gate with
        scopes := Function.update gate.scopes scope ((gate.scopes scope).map fun _ => ⟨none, true⟩)
        runnerScope := Function.update gate.runnerScope runner none }

theorem releaseOwnership_of_owner {runner : Nat} (isOwner : gate.owner = some runner) :
    gate.releaseOwnership runner = release { gate.leaveScope runner with owner := none } := by
  rw [releaseOwnership, if_neg (not_not.mpr isOwner)]
  rfl

theorem releaseOwnership_of_other {runner : Nat} (isOther : gate.owner ≠ some runner) :
    gate.releaseOwnership runner = gate := by
  rw [releaseOwnership, if_pos isOther]

/-- What a commit or rollback does: nothing, one level less, or the end of the transaction. -/
theorem leaveTransaction_cases (gate : SqliteGate) (runner : Nat) (closes : Bool) :
    gate.owner ≠ some runner ∧ gate.leaveTransaction runner closes = gate ∨
    gate.owner = some runner ∧ gate.leaveTransaction runner closes =
      { gate with
        gateDepth := Function.update gate.gateDepth runner (gate.gateDepth runner - 1) } ∨
    gate.owner = some runner ∧ gate.leaveTransaction runner closes =
      releaseOwnership { gate with
        gateDepth := Function.update gate.gateDepth runner (gate.gateDepth runner - 1)
        inTransaction := false } runner := by
  rw [leaveTransaction]
  by_cases isOwner : gate.owner = some runner
  · right
    rw [if_neg (not_not.mpr isOwner)]
    dsimp only
    split
    · exact .inl ⟨isOwner, rfl⟩
    · split
      · exact .inl ⟨isOwner, rfl⟩
      · exact .inr ⟨isOwner, rfl⟩
  · exact .inl ⟨isOwner, if_pos isOwner⟩

/-! ## One holder -/

structure Core (gate : SqliteGate) : Prop where
  queue : Queue gate
  held : Held gate

theorem leaveScope_frame (gate : SqliteGate) (runner : Nat) :
    (gate.leaveScope runner).waiters = gate.waiters ∧
      (gate.leaveScope runner).timers = gate.timers ∧
      (gate.leaveScope runner).settled = gate.settled ∧
      (gate.leaveScope runner).calls = gate.calls ∧
      (gate.leaveScope runner).nextCall = gate.nextCall ∧
      (gate.leaveScope runner).locked = gate.locked ∧
      (gate.leaveScope runner).gateDepth = gate.gateDepth ∧
      (gate.leaveScope runner).inTransaction = gate.inTransaction := by
  rw [leaveScope]
  split
  · exact ⟨rfl, rfl, rfl, rfl, rfl, rfl, rfl, rfl⟩
  · exact ⟨rfl, rfl, rfl, rfl, rfl, rfl, rfl, rfl⟩

theorem core_releaseOwnership (core : Core gate) (runner : Nat) :
    Core (gate.releaseOwnership runner) := by
  by_cases isOwner : gate.owner = some runner
  · have nobody : ∀ call, ¬HasGate gate.calls call := by
      intro call has
      have noOwner := core.held.free call has
      rw [isOwner] at noOwner
      cases noOwner
    have isLocked : gate.locked = true := by
      rw [core.held.isLocked]
      exact .inr (by rw [isOwner]; exact fun same => by cases same)
    rcases leaveScope_frame gate runner with
      ⟨waiters, timers, settled, calls, nextCall, locked, -, -⟩
    have queue : Queue { gate.leaveScope runner with owner := none } := by
      change QueueOf (gate.leaveScope runner).waiters (gate.leaveScope runner).timers
        (gate.leaveScope runner).settled (gate.leaveScope runner).calls
        (gate.leaveScope runner).nextCall
      rw [waiters, timers, settled, calls, nextCall]
      exact core.queue
    rw [releaseOwnership_of_owner isOwner]
    constructor
    · exact queue_release queue
    · apply held_release queue
      · rw [show ({ gate.leaveScope runner with owner := none } : SqliteGate).calls =
          gate.calls from calls]
        exact nobody
      · rfl
      · exact locked.trans isLocked
  · rw [releaseOwnership_of_other isOwner]
    exact core

theorem core_setCall (core : Core gate) {call : Nat} {old : GateCall}
    (found : gate.calls call = some old) (notWaiting : old.phase ≠ .waiting)
    (hadNot : ¬HasGate gate.calls call) (entry : Option GateCall)
    (stays : ∀ new, entry = some new →
      new.phase ≠ .waiting ∧ new.phase ≠ .granted ∧ new.phase ≠ .executed) :
    Core (gate.setCall call entry) where
  queue := core.queue.update found notWaiting fun new isNew => (stays new isNew).1
  held := core.held.of_hasGate_iff (hasGate_update hadNot fun new isNew => (stays new isNew).2)
    core.held.queued

theorem core_add (core : Core gate) (entry : GateCall)
    (stays : entry.phase ≠ .waiting ∧ entry.phase ≠ .granted ∧ entry.phase ≠ .executed) :
    Core { gate.setCall gate.nextCall (some entry) with nextCall := gate.nextCall + 1 } where
  queue := core.queue.add stays.1
  held := by
    apply core.held.of_hasGate_iff (hasGate_update _ _) core.held.queued
    · rintro ⟨old, found, _⟩
      exact absurd (core.queue.known _ old found) (Nat.lt_irrefl _)
    · rintro new isNew
      cases isNew
      exact stays.2

theorem not_hasGate {calls : Nat → Option GateCall} {call : Nat} {entry : GateCall}
    (found : calls call = some entry)
    (phase : entry.phase ≠ .granted ∧ entry.phase ≠ .executed) : ¬HasGate calls call := by
  rintro ⟨other, isOther, has⟩
  rw [found] at isOther
  cases isOther
  exact absurd has (not_or.mpr phase)

theorem nobody_of_unique (held : Held gate) {call : Nat} (has : HasGate gate.calls call)
    {entry : Option GateCall}
    (hasNot : ∀ new, entry = some new → new.phase ≠ .granted ∧ new.phase ≠ .executed)
    (other : Nat) : ¬HasGate (Function.update gate.calls call entry) other := by
  rintro ⟨new, isNew, phase⟩
  by_cases same : other = call
  · rw [same, Function.update_self] at isNew
    exact absurd phase (not_or.mpr (hasNot new isNew))
  · rw [Function.update_of_ne same] at isNew
    exact same (held.unique other call ⟨new, isNew, phase⟩ has)

theorem core_execute (core : Core gate) {call : Nat} {inTransaction : Bool} {after : SqliteGate}
    (taken : gate.execute call inTransaction = some after) : Core after := by
  rcases execute_cases taken with ⟨runner, ⟨found, rfl⟩ | ⟨found, rfl⟩⟩
  · have has : HasGate gate.calls call := ⟨_, found, .inl rfl⟩
    have same : ∀ other, HasGate (Function.update gate.calls call
        (some ⟨runner, .query, .executed⟩)) other ↔ HasGate gate.calls other := by
      intro other
      by_cases isCall : other = call
      · rw [isCall]
        exact iff_of_true ⟨_, Function.update_self .., .inr rfl⟩ has
      · rw [HasGate, HasGate, Function.update_of_ne isCall]
    constructor
    · apply core.queue.update found
      · simp
      · rintro new isNew
        cases isNew
        simp
    · exact core.held.of_hasGate_iff same core.held.queued
  · have changed := core_setCall core found (by simp)
      (not_hasGate found ⟨by simp, by simp⟩) none
      (fun _ isNew => by cases isNew)
    exact ⟨changed.queue, changed.held⟩

theorem core_settle (core : Core gate) {call : Nat} {after : SqliteGate}
    (taken : gate.settle call = some after) : Core after := by
  rcases settle_cases taken with ⟨entry, found, ⟨phase, rfl⟩ | ⟨phase, rfl⟩⟩
  · have has : HasGate gate.calls call := ⟨entry, found, phase⟩
    have queue : Queue (gate.setCall call none) := by
      apply core.queue.update found
      · rintro waits
        rw [waits] at phase
        rcases phase with granted | executed
        · cases granted
        · cases executed
      · exact fun _ isNew => by cases isNew
    constructor
    · exact queue_release queue
    · apply held_release queue
      · exact nobody_of_unique core.held has fun _ isNew => by cases isNew
      · exact core.held.free call has
      · exact core.held.isLocked.mpr (.inl ⟨call, has⟩)
  · apply core_setCall core found
    · rw [phase]
      simp
    · apply not_hasGate found
      rw [phase]
      exact ⟨by simp, by simp⟩
    · exact fun _ isNew => by cases isNew

theorem core_resume (core : Core gate) {call : Nat} {after : SqliteGate}
    (taken : gate.resume call = some after) : Core after := by
  rcases resume_cases taken with ⟨runner, scope, found, isAfter⟩
  have has : HasGate gate.calls call := ⟨_, found, .inl rfl⟩
  have queue : QueueOf gate.waiters gate.timers gate.settled
      (Function.update gate.calls call (some ⟨runner, .startTransaction scope, .starting⟩))
      gate.nextCall := by
    apply core.queue.update found
    · simp
    · rintro new isNew
      cases isNew
      simp
  have nobody := @nobody_of_unique _ core.held _ has
    (some ⟨runner, .startTransaction scope, .starting⟩) (by
      rintro new isNew
      cases isNew
      exact ⟨by simp, by simp⟩)
  have held : HeldOf (some runner) gate.locked gate.waiters
      (Function.update gate.calls call (some ⟨runner, .startTransaction scope, .starting⟩)) := {
    unique := fun other _ otherHas => absurd otherHas (nobody other)
    free := fun other otherHas => absurd otherHas (nobody other)
    isLocked := iff_of_true (core.held.isLocked.mpr (.inl ⟨call, has⟩))
      (.inr fun same => by cases same)
    queued := core.held.queued }
  rcases isAfter with rfl | ⟨taken, -, -, rfl⟩
  · exact ⟨queue, held⟩
  · exact ⟨queue, held⟩

theorem core_started (core : Core gate) {call : Nat} {opened : Bool} {after : SqliteGate}
    (taken : gate.started call opened = some after) : Core after := by
  rcases started_cases taken with ⟨runner, scope, found, rfl⟩
  have ended : Core (gate.setCall call none) :=
    core_setCall core found (by simp) (not_hasGate found ⟨by simp, by simp⟩) none
      (fun _ isNew => by cases isNew)
  cases opened with
  | true => exact ⟨ended.queue, ended.held⟩
  | false => exact core_releaseOwnership ended runner

theorem core_nested (core : Core gate) {call : Nat} {opened : Bool} {after : SqliteGate}
    (taken : gate.nested call opened = some after) : Core after := by
  rcases nested_cases taken with ⟨runner, scope, found, rfl⟩
  have ended : Core (gate.setCall call none) :=
    core_setCall core found (by simp) (not_hasGate found ⟨by simp, by simp⟩) none
      (fun _ isNew => by cases isNew)
  cases opened with
  | true => exact ⟨ended.queue, ended.held⟩
  | false => exact ended

theorem core_leaveTransaction (core : Core gate) (runner : Nat) (closes : Bool) :
    Core (gate.leaveTransaction runner closes) := by
  rcases leaveTransaction_cases gate runner closes with ⟨-, same⟩ | ⟨-, same⟩ | ⟨-, same⟩
  · rw [same]
    exact core
  · rw [same]
    exact ⟨core.queue, core.held⟩
  · rw [same]
    apply core_releaseOwnership
    exact ⟨core.queue, core.held⟩

theorem core_acquire (core : Core gate) (runner : Nat) (work : GateWork) :
    Core (gate.acquire runner work) :=
  ⟨queue_acquire core.queue runner work, held_acquire core.queue core.held runner work⟩

theorem query_cases {runner : Nat} {after : SqliteGate} (taken : gate.query runner = some after) :
    gate.owner = some runner ∧ (0 < gate.gateDepth runner → gate.inTransaction = true) ∧
        after = { gate.setCall gate.nextCall (some ⟨runner, .query, .passing⟩) with
          nextCall := gate.nextCall + 1 } ∨
      gate.owner ≠ some runner ∧ after = gate.acquire runner .query := by
  rw [query] at taken
  split at taken
  · rename_i isOwner
    split at taken
    · cases taken
    · rename_i notAborted
      refine .inl ⟨isOwner, ?_, (Option.some.inj taken).symm⟩
      intro deep
      rw [not_and, Bool.not_eq_false] at notAborted
      exact notAborted deep
  · rename_i isOther
    exact .inr ⟨isOther, (Option.some.inj taken).symm⟩

theorem core_next (core : Core gate) {action : Action} {after : SqliteGate}
    (taken : gate.next action = some after) : Core after := by
  cases action with
  | createQueryRunner scope =>
      cases taken
      rw [createQueryRunner]
      split
      · exact core
      · exact ⟨core.queue, core.held⟩
  | transaction current =>
      cases taken
      rw [transaction]
      split
      · exact core
      · exact ⟨core.queue, core.held⟩
  | query runner =>
      rw [next] at taken
      split at taken
      · rcases query_cases taken with ⟨-, -, rfl⟩ | ⟨-, rfl⟩
        · exact core_add core _ ⟨by simp, by simp, by simp⟩
        · exact core_acquire core runner .query
      · cases taken
  | execute call inTransaction => exact core_execute core taken
  | settle call => exact core_settle core taken
  | startTransaction runner scope =>
      rw [next] at taken
      split at taken
      · cases taken
        rw [startTransaction]
        split
        · exact core_add core _ ⟨by simp, by simp, by simp⟩
        · exact core_acquire core runner _
      · cases taken
  | resume call => exact core_resume core taken
  | started call opened => exact core_started core taken
  | nested call opened => exact core_nested core taken
  | leaveTransaction runner closes =>
      rw [next] at taken
      split at taken
      · cases taken
        exact core_leaveTransaction core runner closes
      · cases taken
  | expire call =>
      rw [next] at taken
      split at taken
      · rename_i isTimer
        cases taken
        exact ⟨queue_expire core.queue isTimer, held_expire core.queue core.held isTimer⟩
      · cases taken

theorem core_of_reachable {promises : SqliteGate → Action → Prop}
    (reached : machine.ReachableBy promises gate) : Core gate := by
  apply reached.invariant Core
  · rintro _ rfl
    exact ⟨queue_initial, held_initial⟩
  · exact fun _ _ _ _ core taken => core_next core taken

/-- The calls get the gate in the order in which they asked. In every state that any steps lead
to, the waiters stand in the order of their calls, the timers that are set are theirs, and as
long as there are any, a call or a runner has the gate that it will pass on to the first. Every
`acquire` is settled at most once, none that waits is settled, and a call that was rejected is
over: its statement is never executed. -/
theorem gate_is_passed_in_order (reached : machine.Reachable gate) :
    gate.waiters.Pairwise (· < ·) ∧ gate.timers = gate.waiters ∧
      (gate.waiters ≠ [] → (∃ call, HasGate gate.calls call) ∨ gate.owner ≠ none) ∧
      (gate.settled.map Prod.fst).Nodup ∧
      (∀ call ∈ gate.waiters, ∀ ok, (call, ok) ∉ gate.settled) ∧
      (∀ call, (call, false) ∈ gate.settled →
        ∀ inTransaction, gate.next (.execute call inTransaction) = none) ∧
      ∀ first rest, gate.waiters = first :: rest →
        ∀ entry, gate.calls first = some entry →
          gate.release.calls first = some { entry with phase := .granted } ∧
            gate.release.waiters = rest ∧ ∀ other ∈ rest, first < other := by
  have core := core_of_reachable reached
  refine ⟨core.queue.ordered, core.queue.sameTimers, ?_, core.queue.once, ?_, ?_, ?_⟩
  · exact fun nonempty => core.held.isLocked.mp (core.held.queued nonempty)
  · exact fun call isWaiter ok member => (core.queue.settledKnown call ok member).2 isWaiter
  · intro call member inTransaction
    rw [next, execute, core.queue.rejected call member]
  · intro first rest isWaiters entry found
    have ordered := core.queue.ordered
    rw [isWaiters, List.pairwise_cons] at ordered
    rw [release_of_cons isWaiters]
    refine ⟨?_, rfl, ordered.1⟩
    change Function.update gate.calls first (gate.grant first) first = _
    rw [Function.update_self, grant, found]
    rfl

/-- A call that waited too long: the second of three, while a transaction begins. -/
theorem gate_is_passed_in_order_expired : ∃ gate, machine.Reachable gate ∧
    gate.settled = [(0, true), (1, false)] ∧
      ∀ inTransaction, gate.next (.execute 1 inTransaction) = none := by
  have passes : (machine.trace initial [.createQueryRunner none, .createQueryRunner none,
      .createQueryRunner none, .startTransaction 0 none, .query 1, .query 2, .expire 1]).any
      (fun gate => gate.settled == [(0, true), (1, false)]) = true := by decide
  rcases Machine.exists_reachable (.start rfl) passes with ⟨gate, reached, isSettled⟩
  have settled := beq_iff_eq.mp isSettled
  refine ⟨gate, reached, settled, ?_⟩
  apply (gate_is_passed_in_order reached).2.2.2.2.2.1 1
  rw [settled]
  simp

/-! ## One transaction -/

def Inside (phase : GatePhase) : Prop :=
  phase = .passing ∨ phase = .nesting ∨ phase = .starting

/-- What belongs to a transaction belongs to the owner, and without an owner there is none. -/
structure Isolated (gate : SqliteGate) : Prop where
  inside : ∀ call entry, gate.calls call = some entry → Inside entry.phase →
    gate.owner = some entry.runner
  oneStart : ∀ call entry other otherEntry, gate.calls call = some entry →
    gate.calls other = some otherEntry → entry.phase = .starting →
    otherEntry.phase = .starting → call = other
  idle : gate.owner = none → gate.inTransaction = false

theorem isolated_initial : Isolated initial where
  inside _ _ found := by cases found
  oneStart _ _ _ _ found := by cases found
  idle _ := rfl

theorem Isolated.of_calls (isolated : Isolated gate) {after : SqliteGate}
    (inside : ∀ call entry, after.calls call = some entry → Inside entry.phase →
      gate.calls call = some entry)
    (owner : after.owner = gate.owner)
    (idle : after.owner = none → after.inTransaction = false) : Isolated after where
  inside call entry found isInside := by
    rw [owner]
    exact isolated.inside call entry (inside call entry found isInside) isInside
  oneStart call entry other otherEntry found otherFound starts otherStarts :=
    isolated.oneStart call entry other otherEntry
      (inside call entry found (.inr (.inr starts)))
      (inside other otherEntry otherFound (.inr (.inr otherStarts))) starts otherStarts
  idle := idle

theorem isolated_of_none {after : SqliteGate}
    (nothing : ∀ call entry, after.calls call = some entry → ¬Inside entry.phase)
    (idle : after.owner = none → after.inTransaction = false) : Isolated after where
  inside call entry found isInside := absurd isInside (nothing call entry found)
  oneStart call entry _ _ found _ starts :=
    absurd (.inr (.inr starts)) (nothing call entry found)
  idle := idle

theorem calls_of_update {calls : Nat → Option GateCall} {call : Nat} {entry : Option GateCall}
    (outside : ∀ new, entry = some new → ¬Inside new.phase) {other : Nat} {found : GateCall}
    (isFound : Function.update calls call entry other = some found)
    (isInside : Inside found.phase) :
    calls other = some found ∧ other ≠ call := by
  by_cases same : other = call
  · rw [same, Function.update_self] at isFound
    exact absurd isInside (outside found isFound)
  · rw [Function.update_of_ne same] at isFound
    exact ⟨isFound, same⟩

theorem granted_not_inside {entry : GateCall} (phase : entry.phase = .granted) :
    ¬Inside entry.phase := by
  rw [phase, Inside]
  simp

theorem release_inside {call : Nat} {entry : GateCall}
    (found : gate.release.calls call = some entry) (isInside : Inside entry.phase) :
    gate.calls call = some entry := by
  cases isWaiters : gate.waiters with
  | nil =>
      rw [release_of_nil isWaiters] at found
      exact found
  | cons first rest =>
      rw [release_of_cons isWaiters] at found
      apply (calls_of_update _ found isInside).1
      intro new isNew
      rcases Option.map_eq_some_iff.mp isNew with ⟨old, _, rfl⟩
      exact granted_not_inside rfl

@[simp] theorem release_owner (gate : SqliteGate) : gate.release.owner = gate.owner := by
  rw [release]
  split <;> rfl

@[simp] theorem release_inTransaction (gate : SqliteGate) :
    gate.release.inTransaction = gate.inTransaction := by
  rw [release]
  split <;> rfl

@[simp] theorem release_gateDepth (gate : SqliteGate) :
    gate.release.gateDepth = gate.gateDepth := by
  rw [release]
  split <;> rfl

theorem quiet_spec (queue : Queue gate) {runner : Nat} {phases : List GatePhase}
    (isQuiet : gate.quiet runner phases = true) {call : Nat} {entry : GateCall}
    (found : gate.calls call = some entry) (isRunner : entry.runner = runner) :
    entry.phase ∉ phases := by
  have isCall := List.mem_range.mpr (queue.known call entry found)
  have known := List.all_eq_true.mp isQuiet call isCall
  rw [found] at known
  simp only [Option.all_some, isRunner, beq_self_eq_true, Bool.true_and, Bool.not_eq_true',
    List.contains_eq_mem, decide_eq_false_iff_not] at known
  exact known

theorem acquire_inside {runner : Nat} {work : GateWork} {call : Nat} {entry : GateCall}
    (found : (gate.acquire runner work).calls call = some entry) (isInside : Inside entry.phase) :
    gate.calls call = some entry := by
  rw [acquire] at found
  split at found
  · apply (calls_of_update _ found isInside).1
    rintro new isNew
    cases isNew
    exact granted_not_inside rfl
  · apply (calls_of_update _ found isInside).1
    rintro new isNew
    cases isNew
    simp [Inside]

@[simp] theorem acquire_owner (gate : SqliteGate) (runner : Nat) (work : GateWork) :
    (gate.acquire runner work).owner = gate.owner := by
  rw [acquire]
  split <;> rfl

@[simp] theorem acquire_inTransaction (gate : SqliteGate) (runner : Nat) (work : GateWork) :
    (gate.acquire runner work).inTransaction = gate.inTransaction := by
  rw [acquire]
  split <;> rfl

@[simp] theorem acquire_gateDepth (gate : SqliteGate) (runner : Nat) (work : GateWork) :
    (gate.acquire runner work).gateDepth = gate.gateDepth := by
  rw [acquire]
  split <;> rfl

theorem isolated_acquire (isolated : Isolated gate) (runner : Nat) (work : GateWork) :
    Isolated (gate.acquire runner work) := by
  apply isolated.of_calls
  · exact fun call entry found isInside => acquire_inside found isInside
  · exact acquire_owner gate runner work
  · simpa using isolated.idle

theorem isolated_add (isolated : Isolated gate) {entry : GateCall}
    (isOwner : gate.owner = some entry.runner) (notStart : entry.phase ≠ .starting) :
    Isolated { gate.setCall gate.nextCall (some entry) with nextCall := gate.nextCall + 1 } where
  inside call new found isInside := by
    change Function.update gate.calls gate.nextCall (some entry) call = some new at found
    by_cases same : call = gate.nextCall
    · rw [same, Function.update_self] at found
      cases found
      exact isOwner
    · rw [Function.update_of_ne same] at found
      exact isolated.inside call new found isInside
  oneStart call new other otherNew found otherFound starts otherStarts := by
    change Function.update gate.calls gate.nextCall (some entry) call = some new at found
    change Function.update gate.calls gate.nextCall (some entry) other = some otherNew at otherFound
    by_cases same : call = gate.nextCall
    · rw [same, Function.update_self] at found
      cases found
      exact absurd starts notStart
    · by_cases otherSame : other = gate.nextCall
      · rw [otherSame, Function.update_self] at otherFound
        cases otherFound
        exact absurd otherStarts notStart
      · rw [Function.update_of_ne same] at found
        rw [Function.update_of_ne otherSame] at otherFound
        exact isolated.oneStart call new other otherNew found otherFound starts otherStarts
  idle noOwner := by
    rw [show gate.owner = none from noOwner] at isOwner
    cases isOwner

theorem releaseOwnership_inside {runner call : Nat} {entry : GateCall}
    (found : (gate.releaseOwnership runner).calls call = some entry)
    (isInside : Inside entry.phase) : gate.calls call = some entry := by
  by_cases isOwner : gate.owner = some runner
  · rw [releaseOwnership_of_owner isOwner] at found
    have before := release_inside found isInside
    rcases leaveScope_frame gate runner with ⟨-, -, -, calls, -, -, -, -⟩
    rw [show ({ gate.leaveScope runner with owner := none } : SqliteGate).calls = gate.calls
      from calls] at before
    exact before
  · rw [releaseOwnership_of_other isOwner] at found
    exact found

theorem isolated_releaseOwnership {runner : Nat}
    (nothing : ∀ call entry, gate.calls call = some entry → ¬Inside entry.phase)
    (closed : gate.inTransaction = false) : Isolated (gate.releaseOwnership runner) := by
  apply isolated_of_none
  · intro call entry found isInside
    exact nothing call entry (releaseOwnership_inside found isInside) isInside
  · intro _
    by_cases isOwner : gate.owner = some runner
    · rcases leaveScope_frame gate runner with ⟨-, -, -, -, -, -, -, inTransaction⟩
      rw [releaseOwnership_of_owner isOwner, release_inTransaction]
      exact inTransaction.trans closed
    · rw [releaseOwnership_of_other isOwner]
      exact closed

theorem nothing_inside_of_free (isolated : Isolated gate) (noOwner : gate.owner = none)
    {call : Nat} {entry : GateCall} (found : gate.calls call = some entry) :
    ¬Inside entry.phase := by
  intro isInside
  have owned := isolated.inside call entry found isInside
  rw [noOwner] at owned
  cases owned

theorem isolated_execute (core : Core gate) (isolated : Isolated gate) {call : Nat}
    {inTransaction : Bool} {after : SqliteGate}
    (taken : gate.execute call inTransaction = some after)
    (isAllowed : gate.allowed (.execute call inTransaction) = true) : Isolated after := by
  rcases execute_cases taken with ⟨runner, ⟨found, rfl⟩ | ⟨found, rfl⟩⟩
  · have noOwner := core.held.free call ⟨_, found, .inl rfl⟩
    rw [allowed, found] at isAllowed
    simp only [isolated.idle noOwner, Bool.or_false, Bool.not_eq_true'] at isAllowed
    apply isolated.of_calls
    · intro other entry isEntry isInside
      apply (calls_of_update _ isEntry isInside).1
      rintro new isNew
      cases isNew
      simp [Inside]
    · rfl
    · exact fun _ => isAllowed
  · have isOwner := isolated.inside call _ found (.inl rfl)
    apply isolated.of_calls
    · intro other entry isEntry isInside
      exact (calls_of_update (fun _ isNew => by cases isNew) isEntry isInside).1
    · rfl
    · intro noOwner
      rw [show gate.owner = none from noOwner] at isOwner
      cases isOwner

theorem isolated_settle (isolated : Isolated gate) {call : Nat} {after : SqliteGate}
    (taken : gate.settle call = some after) : Isolated after := by
  have ended : ∀ other entry, (gate.setCall call none).calls other = some entry →
      Inside entry.phase → gate.calls other = some entry := by
    intro other entry isEntry isInside
    exact (calls_of_update (fun _ isNew => by cases isNew) isEntry isInside).1
  rcases settle_cases taken with ⟨entry, found, ⟨-, rfl⟩ | ⟨-, rfl⟩⟩
  · apply isolated.of_calls
    · exact fun other entry isEntry isInside =>
        ended other entry (release_inside isEntry isInside) isInside
    · rw [release_owner]
      rfl
    · rw [release_owner, release_inTransaction]
      exact isolated.idle
  · exact isolated.of_calls ended rfl isolated.idle

theorem isolated_resume (core : Core gate) (isolated : Isolated gate) {call : Nat}
    {after : SqliteGate} (taken : gate.resume call = some after) : Isolated after := by
  rcases resume_cases taken with ⟨runner, scope, found, isAfter⟩
  have noOwner := core.held.free call ⟨_, found, .inl rfl⟩
  have calls : after.calls =
      Function.update gate.calls call (some ⟨runner, .startTransaction scope, .starting⟩) := by
    rcases isAfter with rfl | ⟨taken, -, -, rfl⟩ <;> rfl
  have owner : after.owner = some runner := by
    rcases isAfter with rfl | ⟨taken, -, -, rfl⟩ <;> rfl
  have onlyCall : ∀ other entry, after.calls other = some entry → Inside entry.phase →
      other = call ∧ entry.runner = runner := by
    intro other entry isEntry isInside
    rw [calls] at isEntry
    by_cases same : other = call
    · rw [same, Function.update_self] at isEntry
      cases isEntry
      exact ⟨same, rfl⟩
    · rw [Function.update_of_ne same] at isEntry
      exact absurd isInside (nothing_inside_of_free isolated noOwner isEntry)
  exact {
    inside := fun other entry isEntry isInside => by
      rw [owner, (onlyCall other entry isEntry isInside).2]
    oneStart := fun first entry second other isEntry isOther starts otherStarts =>
      (onlyCall first entry isEntry (.inr (.inr starts))).1.trans
        (onlyCall second other isOther (.inr (.inr otherStarts))).1.symm
    idle := fun isFree => by
      rw [owner] at isFree
      cases isFree }

theorem isolated_started (core : Core gate) (isolated : Isolated gate) {call : Nat}
    {opened : Bool} {after : SqliteGate} (taken : gate.started call opened = some after)
    (isAllowed : gate.allowed (.started call opened) = true) : Isolated after := by
  rcases started_cases taken with ⟨runner, scope, found, rfl⟩
  have isOwner := isolated.inside call _ found (.inr (.inr rfl))
  rw [allowed, found, Option.all_some, Bool.and_eq_true, Bool.or_eq_true] at isAllowed
  have nothing : ∀ other entry, (gate.setCall call none).calls other = some entry →
      ¬Inside entry.phase := by
    intro other entry isEntry isInside
    rcases calls_of_update (fun _ isNew => by cases isNew) isEntry isInside with ⟨before, different⟩
    have isRunner : entry.runner = runner := by
      have owned := isolated.inside other entry before isInside
      rw [isOwner] at owned
      exact (Option.some.inj owned).symm
    have isQuiet := quiet_spec core.queue isAllowed.1 before isRunner
    rcases isInside with passes | nests | starts
    · exact isQuiet (by rw [passes]; simp)
    · exact isQuiet (by rw [nests]; simp)
    · exact different (isolated.oneStart other entry call _ before found starts rfl)
  cases opened with
  | true =>
      have owned : gate.owner ≠ none := by
        rw [isOwner]
        simp
      rw [if_pos rfl]
      exact isolated_of_none nothing fun noOwner => absurd noOwner owned
  | false =>
      have closed : gate.inTransaction = false := by simpa using isAllowed.2
      exact isolated_releaseOwnership nothing closed

theorem isolated_nested (isolated : Isolated gate) {call : Nat} {opened : Bool}
    {after : SqliteGate} (taken : gate.nested call opened = some after) : Isolated after := by
  rcases nested_cases taken with ⟨runner, scope, found, rfl⟩
  have ended : ∀ other entry, (gate.setCall call none).calls other = some entry →
      Inside entry.phase → gate.calls other = some entry := by
    intro other entry isEntry isInside
    exact (calls_of_update (fun _ isNew => by cases isNew) isEntry isInside).1
  cases opened with
  | true => exact isolated.of_calls ended rfl isolated.idle
  | false => exact isolated.of_calls ended rfl isolated.idle

theorem nothing_inside_of_quiet (core : Core gate) (isolated : Isolated gate) {runner : Nat}
    (isOwner : gate.owner = some runner)
    (isQuiet : gate.quiet runner [.passing, .nesting, .starting] = true) {call : Nat}
    {entry : GateCall} (found : gate.calls call = some entry) : ¬Inside entry.phase := by
  intro isInside
  have isRunner : entry.runner = runner := by
    have owned := isolated.inside call entry found isInside
    rw [isOwner] at owned
    exact (Option.some.inj owned).symm
  apply quiet_spec core.queue isQuiet found isRunner
  simpa [Inside] using isInside

theorem isolated_leaveTransaction (core : Core gate) (isolated : Isolated gate) {runner : Nat}
    {closes : Bool} (isAllowed : gate.allowed (.leaveTransaction runner closes) = true) :
    Isolated (gate.leaveTransaction runner closes) := by
  rcases leaveTransaction_cases gate runner closes with ⟨-, same⟩ | ⟨-, same⟩ | ⟨isOwner, same⟩
  · rw [same]
    exact isolated
  · rw [same]
    exact isolated.of_calls (fun _ _ found _ => found) rfl isolated.idle
  · rw [same]
    apply isolated_releaseOwnership
    · exact fun _ _ found => nothing_inside_of_quiet core isolated isOwner isAllowed found
    · rfl

theorem isolated_next (core : Core gate) (isolated : Isolated gate) {action : Action}
    {after : SqliteGate} (isAllowed : gate.allowed action = true)
    (taken : gate.next action = some after) : Isolated after := by
  cases action with
  | createQueryRunner scope =>
      cases taken
      rw [createQueryRunner]
      split
      · exact isolated
      · exact isolated.of_calls (fun _ _ found _ => found) rfl isolated.idle
  | transaction current =>
      cases taken
      rw [transaction]
      split
      · exact isolated
      · exact isolated.of_calls (fun _ _ found _ => found) rfl isolated.idle
  | query runner =>
      rw [next] at taken
      split at taken
      · rcases query_cases taken with ⟨isOwner, -, rfl⟩ | ⟨-, rfl⟩
        · exact isolated_add isolated isOwner (by simp)
        · exact isolated_acquire isolated runner .query
      · cases taken
  | execute call inTransaction => exact isolated_execute core isolated taken isAllowed
  | settle call => exact isolated_settle isolated taken
  | startTransaction runner scope =>
      rw [next] at taken
      split at taken
      · cases taken
        rw [startTransaction]
        split
        · rename_i isOwner
          exact isolated_add isolated isOwner (by simp)
        · exact isolated_acquire isolated runner _
      · cases taken
  | resume call => exact isolated_resume core isolated taken
  | started call opened => exact isolated_started core isolated taken isAllowed
  | nested call opened => exact isolated_nested isolated taken
  | leaveTransaction runner closes =>
      rw [next] at taken
      split at taken
      · cases taken
        exact isolated_leaveTransaction core isolated isAllowed
      · cases taken
  | expire call =>
      rw [next] at taken
      split at taken
      · cases taken
        apply isolated.of_calls
        · intro other entry isEntry isInside
          exact (calls_of_update (fun _ isNew => by cases isNew) isEntry isInside).1
        · rfl
        · exact isolated.idle
      · cases taken

/-! ## Scopes -/

/-- A scope has the runner that owns the gate, and no other scope has one. -/
structure Scoped (gate : SqliteGate) : Prop where
  scope : ∀ scope runner done, gate.scopes scope = some ⟨some runner, done⟩ →
    gate.owner = some runner ∧ gate.runnerScope runner = some scope
  runner : ∀ runner scope, gate.runnerScope runner = some scope →
    gate.scopes scope = some ⟨some runner, false⟩
  known : ∀ scope entry, gate.scopes scope = some entry → scope < gate.nextScope

theorem scoped_initial : Scoped initial where
  scope _ _ _ found := by cases found
  runner _ _ found := by cases found
  known _ _ found := by cases found

theorem Scoped.of_eq (owns : Scoped gate) {after : SqliteGate} (owner : after.owner = gate.owner)
    (runnerScope : after.runnerScope = gate.runnerScope) (scopes : after.scopes = gate.scopes)
    (nextScope : after.nextScope = gate.nextScope) : Scoped after where
  scope := by
    rw [owner, runnerScope, scopes]
    exact owns.scope
  runner := by
    rw [runnerScope, scopes]
    exact owns.runner
  known := by
    rw [scopes, nextScope]
    exact owns.known

theorem scoped_acquire (owns : Scoped gate) (runner : Nat) (work : GateWork) :
    Scoped (gate.acquire runner work) := by
  rw [acquire]
  split
  · exact owns.of_eq rfl rfl rfl rfl
  · exact owns.of_eq rfl rfl rfl rfl

theorem scoped_release (owns : Scoped gate) : Scoped gate.release := by
  rw [release]
  split
  · exact owns.of_eq rfl rfl rfl rfl
  · exact owns.of_eq rfl rfl rfl rfl

theorem scoped_releaseOwnership (owns : Scoped gate) (runner : Nat) :
    Scoped (gate.releaseOwnership runner) := by
  by_cases isOwner : gate.owner = some runner
  · have onlyOwner : ∀ other scope, gate.runnerScope other = some scope → other = runner := by
      intro other scope isScope
      have owned := (owns.scope scope other false (owns.runner other scope isScope)).1
      rw [isOwner] at owned
      exact (Option.some.inj owned).symm
    have onlyRunner : ∀ scope other done, gate.scopes scope = some ⟨some other, done⟩ →
        gate.runnerScope runner = some scope := by
      intro scope other done found
      rcases owns.scope scope other done found with ⟨-, isScope⟩
      rw [← onlyOwner other scope isScope]
      exact isScope
    rw [releaseOwnership_of_owner isOwner]
    apply scoped_release
    rw [leaveScope]
    cases isScope : gate.runnerScope runner with
    | none =>
        exact {
          scope := fun scope other done found => by
            have isSome := onlyRunner scope other done found
            rw [isScope] at isSome
            cases isSome
          runner := fun other scope found => by
            have isSome : gate.runnerScope other = some scope := found
            rw [onlyOwner other scope isSome, isScope] at isSome
            cases isSome
          known := owns.known }
    | some taken =>
        have isTaken := owns.runner runner taken isScope
        exact {
          scope := fun scope other done found => by
            change Function.update gate.scopes taken _ scope = _ at found
            by_cases same : scope = taken
            · rw [same, Function.update_self, isTaken] at found
              cases found
            · rw [Function.update_of_ne same] at found
              have isSome := onlyRunner scope other done found
              rw [isScope] at isSome
              exact absurd (Option.some.inj isSome).symm same
          runner := fun other scope found => by
            change Function.update gate.runnerScope runner none other = some scope at found
            by_cases same : other = runner
            · rw [same, Function.update_self] at found
              cases found
            · rw [Function.update_of_ne same] at found
              exact absurd (onlyOwner other scope found) same
          known := fun scope entry found => by
            change Function.update gate.scopes taken _ scope = _ at found
            by_cases same : scope = taken
            · rw [same]
              exact owns.known taken _ isTaken
            · rw [Function.update_of_ne same] at found
              exact owns.known scope entry found }
  · rw [releaseOwnership_of_other isOwner]
    exact owns

theorem scoped_resume (core : Core gate) (owns : Scoped gate) {call : Nat} {after : SqliteGate}
    (taken : gate.resume call = some after) : Scoped after := by
  rcases resume_cases taken with ⟨runner, scope, found, isAfter⟩
  have noOwner := core.held.free call ⟨_, found, .inl rfl⟩
  have noRunner : ∀ scope other done, gate.scopes scope ≠ some ⟨some other, done⟩ := by
    intro scope other done isScope
    have owned := (owns.scope scope other done isScope).1
    rw [noOwner] at owned
    cases owned
  have noScope : ∀ other scope, gate.runnerScope other ≠ some scope :=
    fun other scope isScope => noRunner scope other false (owns.runner other scope isScope)
  rcases isAfter with rfl | ⟨place, -, takes, rfl⟩
  · exact {
      scope := fun scope other done isScope => absurd isScope (noRunner scope other done)
      runner := fun other scope isScope => absurd isScope (noScope other scope)
      known := owns.known }
  · exact {
      scope := fun scope other done isScope => by
        change Function.update gate.scopes place _ scope = _ at isScope
        by_cases same : scope = place
        · rw [same, Function.update_self] at isScope
          cases isScope
          rw [same]
          exact ⟨rfl, Function.update_self ..⟩
        · rw [Function.update_of_ne same] at isScope
          exact absurd isScope (noRunner scope other done)
      runner := fun other scope isScope => by
        change Function.update gate.runnerScope runner (some place) other = some scope at isScope
        by_cases same : other = runner
        · rw [same, Function.update_self] at isScope
          cases isScope
          rw [same]
          exact Function.update_self ..
        · rw [Function.update_of_ne same] at isScope
          exact absurd isScope (noScope other scope)
      known := fun scope entry isScope => by
        change Function.update gate.scopes place _ scope = _ at isScope
        by_cases same : scope = place
        · rw [same]
          cases isOld : gate.scopes place with
          | none =>
              rw [takesScope, isOld] at takes
              cases takes
          | some old => exact owns.known place old isOld
        · rw [Function.update_of_ne same] at isScope
          exact owns.known scope entry isScope }

theorem scoped_next (core : Core gate) (owns : Scoped gate) {action : Action} {after : SqliteGate}
    (taken : gate.next action = some after) : Scoped after := by
  cases action with
  | createQueryRunner scope =>
      cases taken
      rw [createQueryRunner]
      split
      · exact owns
      · exact owns.of_eq rfl rfl rfl rfl
  | transaction current =>
      cases taken
      rw [transaction]
      split
      · exact owns
      · have isNew : ∀ scope entry, gate.scopes scope = some entry → scope ≠ gate.nextScope :=
          fun scope entry found => Nat.ne_of_lt (owns.known scope entry found)
        exact {
          scope := fun scope runner done found => by
            change Function.update gate.scopes gate.nextScope _ scope = _ at found
            by_cases same : scope = gate.nextScope
            · rw [same, Function.update_self] at found
              cases found
            · rw [Function.update_of_ne same] at found
              exact owns.scope scope runner done found
          runner := fun runner scope found => by
            have isScope := owns.runner runner scope found
            change Function.update gate.scopes gate.nextScope _ scope = _
            rw [Function.update_of_ne (isNew scope _ isScope)]
            exact isScope
          known := fun scope entry found => by
            change Function.update gate.scopes gate.nextScope _ scope = _ at found
            by_cases same : scope = gate.nextScope
            · rw [same]
              exact Nat.lt_succ_self _
            · rw [Function.update_of_ne same] at found
              exact Nat.lt_succ_of_lt (owns.known scope entry found) }
  | query runner =>
      rw [next] at taken
      split at taken
      · rcases query_cases taken with ⟨-, -, rfl⟩ | ⟨-, rfl⟩
        · exact owns.of_eq rfl rfl rfl rfl
        · exact scoped_acquire owns runner .query
      · cases taken
  | execute call inTransaction =>
      rcases execute_cases taken with ⟨runner, ⟨-, rfl⟩ | ⟨-, rfl⟩⟩
      · exact owns.of_eq rfl rfl rfl rfl
      · exact owns.of_eq rfl rfl rfl rfl
  | settle call =>
      have ended : Scoped (gate.setCall call none) := owns.of_eq rfl rfl rfl rfl
      rcases settle_cases taken with ⟨entry, -, ⟨-, rfl⟩ | ⟨-, rfl⟩⟩
      · exact scoped_release ended
      · exact ended
  | startTransaction runner scope =>
      rw [next] at taken
      split at taken
      · cases taken
        rw [startTransaction]
        split
        · exact owns.of_eq rfl rfl rfl rfl
        · exact scoped_acquire owns runner _
      · cases taken
  | resume call => exact scoped_resume core owns taken
  | started call opened =>
      have ended : Scoped (gate.setCall call none) := owns.of_eq rfl rfl rfl rfl
      rcases started_cases taken with ⟨runner, scope, -, rfl⟩
      cases opened with
      | true => exact owns.of_eq rfl rfl rfl rfl
      | false => exact scoped_releaseOwnership ended runner
  | nested call opened =>
      rcases nested_cases taken with ⟨runner, scope, -, rfl⟩
      cases opened with
      | true => exact owns.of_eq rfl rfl rfl rfl
      | false => exact owns.of_eq rfl rfl rfl rfl
  | leaveTransaction runner closes =>
      rw [next] at taken
      split at taken
      · cases taken
        rcases leaveTransaction_cases gate runner closes with ⟨-, same⟩ | ⟨-, same⟩ | ⟨-, same⟩
        · rw [same]
          exact owns
        · rw [same]
          exact owns.of_eq rfl rfl rfl rfl
        · rw [same]
          apply scoped_releaseOwnership
          exact owns.of_eq rfl rfl rfl rfl
      · cases taken
  | expire call =>
      rw [next] at taken
      split at taken
      · cases taken
        exact owns.of_eq rfl rfl rfl rfl
      · cases taken

/-! ## Every interleaving -/

abbrev Promised (gate : SqliteGate) (action : Action) : Prop := gate.allowed action = true

theorem isolated_of_reachable (reached : machine.ReachableBy Promised gate) :
    Core gate ∧ Isolated gate ∧ Scoped gate := by
  apply reached.invariant fun gate => Core gate ∧ Isolated gate ∧ Scoped gate
  · rintro _ rfl
    exact ⟨⟨queue_initial, held_initial⟩, isolated_initial, scoped_initial⟩
  · rintro _ _ _ isAllowed ⟨core, isolated, owns⟩ taken
    exact ⟨core_next core taken, isolated_next core isolated isAllowed taken,
      scoped_next core owns taken⟩

/-- The runner that a scope hands out is the owner, in the scope that its transaction began in. -/
theorem scopeRunner_spec (owns : Scoped gate) {scope runner : Nat}
    (isRunner : gate.scopeRunner (some scope) = some runner) :
    gate.owner = some runner ∧ gate.runnerScope runner = some scope := by
  rw [scopeRunner, Option.bind_some, Option.bind_eq_some_iff] at isRunner
  rcases isRunner with ⟨⟨entryRunner, done⟩, found, isRunner⟩
  split at isRunner
  · rw [show entryRunner = some runner from isRunner] at found
    exact owns.scope scope runner done found
  · cases isRunner

/-- The gate keeps transactions apart. In every state that the callers' steps lead to, at most
one call has the gate and then nobody owns it; a statement that is executed belongs to the
owner's transaction, or there is no owner and no transaction; without an owner the connection
is in no transaction; and a scope hands out a runner only while that runner owns the gate, and
no other scope hands out any. -/
theorem gate_keeps_transactions_apart (reached : machine.ReachableBy Promised gate) :
    (∀ call other, HasGate gate.calls call → HasGate gate.calls other →
      call = other ∧ gate.owner = none) ∧
    (∀ call inTransaction after, gate.next (.execute call inTransaction) = some after →
      ∃ entry, gate.calls call = some entry ∧
        (gate.owner = some entry.runner ∨ gate.owner = none ∧ gate.inTransaction = false)) ∧
    (gate.owner = none → gate.inTransaction = false) ∧
    ∀ scope runner, gate.scopeRunner (some scope) = some runner → gate.owner = some runner ∧
      ∀ other, other ≠ scope → gate.scopeRunner (some other) = none := by
  rcases isolated_of_reachable reached with ⟨core, isolated, owns⟩
  refine ⟨?_, ?_, isolated.idle, ?_⟩
  · intro call other has otherHas
    exact ⟨core.held.unique call other has otherHas, core.held.free call has⟩
  · intro call inTransaction after taken
    rcases execute_cases taken with ⟨runner, ⟨found, -⟩ | ⟨found, -⟩⟩
    · have noOwner := core.held.free call ⟨_, found, .inl rfl⟩
      exact ⟨_, found, .inr ⟨noOwner, isolated.idle noOwner⟩⟩
    · exact ⟨_, found, .inl (isolated.inside call _ found (.inl rfl))⟩
  · intro scope runner isRunner
    rcases scopeRunner_spec owns isRunner with ⟨isOwner, isScope⟩
    refine ⟨isOwner, fun other different => ?_⟩
    cases isOther : gate.scopeRunner (some other) with
    | none => rfl
    | some otherRunner =>
        rcases scopeRunner_spec owns isOther with ⟨otherOwner, otherScope⟩
        rw [isOwner] at otherOwner
        cases otherOwner
        rw [isScope] at otherScope
        exact absurd (Option.some.inj otherScope).symm different

/-- A transaction that begins in scope 0 while another runner waits. -/
def beginning : List Action :=
  [.createQueryRunner none, .createQueryRunner none, .transaction none,
    .startTransaction 0 (some 0), .query 1, .resume 0, .query 0]

theorem gate_keeps_transactions_apart_begun : ∃ gate, machine.ReachableBy Promised gate ∧
    gate.waiters = [1] ∧ gate.owner = some 0 ∧
      ∀ other, other ≠ 0 → gate.scopeRunner (some other) = none := by
  have passes : (machine.traceBy allowed initial beginning).any
      (fun gate => gate.waiters == [1] && gate.scopeRunner (some 0) == some 0) = true := by decide
  rcases Machine.exists_reachableBy_of_check (.start rfl) passes with ⟨gate, reached, facts⟩
  rw [Bool.and_eq_true, beq_iff_eq, beq_iff_eq] at facts
  exact ⟨gate, reached, facts.1, (gate_keeps_transactions_apart reached).2.2.2 0 0 facts.2⟩

/-! ## Statements of a transaction stay in it -/

/-- A query of the owner that waits to be executed is in the transaction that was open when it
passed. -/
structure Guarded (gate : SqliteGate) : Prop where
  isOpen : ∀ call entry, gate.calls call = some entry → entry.phase = .passing →
    0 < gate.gateDepth entry.runner → gate.inTransaction = true
  one : ∀ call entry other otherEntry, gate.calls call = some entry →
    gate.calls other = some otherEntry → entry.phase = .passing →
    otherEntry.phase = .passing → call = other

theorem guarded_of_none {after : SqliteGate}
    (nothing : ∀ call entry, after.calls call = some entry → entry.phase ≠ .passing) :
    Guarded after where
  isOpen call entry found passes := absurd passes (nothing call entry found)
  one call entry _ _ found _ passes := absurd passes (nothing call entry found)

theorem Guarded.of_calls (guarded : Guarded gate) {after : SqliteGate}
    (calls : ∀ call entry, after.calls call = some entry → Inside entry.phase →
      gate.calls call = some entry)
    (gateDepth : after.gateDepth = gate.gateDepth)
    (inTransaction : after.inTransaction = gate.inTransaction) : Guarded after where
  isOpen call entry found passes := by
    rw [gateDepth, inTransaction]
    exact guarded.isOpen call entry (calls call entry found (.inl passes)) passes
  one call entry other otherEntry found otherFound passes otherPasses :=
    guarded.one call entry other otherEntry (calls call entry found (.inl passes))
      (calls other otherEntry otherFound (.inl otherPasses)) passes otherPasses

theorem no_passing_of_quiet (core : Core gate) (isolated : Isolated gate) {runner : Nat}
    (isOwner : gate.owner = some runner) {phases : List GatePhase} (member : .passing ∈ phases)
    (isQuiet : gate.quiet runner phases = true) {call : Nat} {entry : GateCall}
    (found : gate.calls call = some entry) : entry.phase ≠ .passing := by
  intro passes
  have isRunner : entry.runner = runner := by
    have owned := isolated.inside call entry found (.inl passes)
    rw [isOwner] at owned
    exact (Option.some.inj owned).symm
  apply quiet_spec core.queue isQuiet found isRunner
  rw [passes]
  exact member

theorem guarded_query (core : Core gate) (isolated : Isolated gate) (guarded : Guarded gate)
    {runner : Nat} {after : SqliteGate} (taken : gate.query runner = some after)
    (isAwaited : gate.awaited (.query runner) = true) : Guarded after := by
  rcases query_cases taken with ⟨isOwner, checked, rfl⟩ | ⟨-, rfl⟩
  · have isQuiet : gate.quiet runner [.passing] = true := by
      rw [awaited, isOwner] at isAwaited
      simpa using isAwaited
    have onlyNew : ∀ call entry, Function.update gate.calls gate.nextCall
        (some ⟨runner, .query, .passing⟩) call = some entry → entry.phase = .passing →
        call = gate.nextCall ∧ entry.runner = runner := by
      intro call entry found passes
      by_cases same : call = gate.nextCall
      · rw [same, Function.update_self] at found
        cases found
        exact ⟨same, rfl⟩
      · rw [Function.update_of_ne same] at found
        exact absurd passes
          (no_passing_of_quiet core isolated isOwner (by simp) isQuiet found)
    exact {
      isOpen := fun call entry found passes deep => by
        rw [(onlyNew call entry found passes).2] at deep
        exact checked deep
      one := fun call entry other otherEntry found otherFound passes otherPasses =>
        (onlyNew call entry found passes).1.trans
          (onlyNew other otherEntry otherFound otherPasses).1.symm }
  · exact guarded.of_calls (fun _ _ found isInside => acquire_inside found isInside)
      (acquire_gateDepth ..) (acquire_inTransaction ..)

theorem guarded_execute (core : Core gate) (isolated : Isolated gate) (guarded : Guarded gate)
    {call : Nat} {inTransaction : Bool} {after : SqliteGate}
    (taken : gate.execute call inTransaction = some after) : Guarded after := by
  rcases execute_cases taken with ⟨runner, ⟨found, rfl⟩ | ⟨found, rfl⟩⟩
  · have noOwner := core.held.free call ⟨_, found, .inl rfl⟩
    apply guarded_of_none
    intro other entry isEntry passes
    have before := calls_of_update (fun new isNew => by cases isNew; simp [Inside]) isEntry
      (.inl passes)
    exact nothing_inside_of_free isolated noOwner before.1 (.inl passes)
  · apply guarded_of_none
    intro other entry isEntry passes
    have before := calls_of_update (fun _ isNew => by cases isNew) isEntry (.inl passes)
    exact before.2 (guarded.one other entry call _ before.1 found passes rfl)

theorem guarded_settle (guarded : Guarded gate) {call : Nat} {after : SqliteGate}
    (taken : gate.settle call = some after) : Guarded after := by
  have ended : ∀ other entry, (gate.setCall call none).calls other = some entry →
      Inside entry.phase → gate.calls other = some entry := by
    intro other entry isEntry isInside
    exact (calls_of_update (fun _ isNew => by cases isNew) isEntry isInside).1
  rcases settle_cases taken with ⟨entry, -, ⟨-, rfl⟩ | ⟨-, rfl⟩⟩
  · apply guarded.of_calls
    · exact fun other entry isEntry isInside =>
        ended other entry (release_inside isEntry isInside) isInside
    · rw [release_gateDepth]
      rfl
    · rw [release_inTransaction]
      rfl
  · exact guarded.of_calls ended rfl rfl

/-- Steps that end what is pending inside of a transaction leave nothing that passes. -/
theorem guarded_started (core : Core gate) (isolated : Isolated gate) {call : Nat}
    {opened : Bool} {after : SqliteGate} (taken : gate.started call opened = some after)
    (isAllowed : gate.allowed (.started call opened) = true) : Guarded after := by
  rcases started_cases taken with ⟨runner, scope, found, rfl⟩
  have isOwner := isolated.inside call _ found (.inr (.inr rfl))
  rw [allowed, found, Option.all_some, Bool.and_eq_true] at isAllowed
  have nothing : ∀ other entry, (gate.setCall call none).calls other = some entry →
      entry.phase ≠ .passing := by
    intro other entry isEntry passes
    have before := calls_of_update (fun _ isNew => by cases isNew) isEntry (.inl passes)
    exact no_passing_of_quiet core isolated isOwner (by simp) isAllowed.1 before.1 passes
  cases opened with
  | true =>
      rw [if_pos rfl]
      exact guarded_of_none nothing
  | false =>
      apply guarded_of_none
      intro other entry isEntry passes
      exact nothing other entry (releaseOwnership_inside isEntry (.inl passes)) passes

theorem guarded_nested (core : Core gate) (isolated : Isolated gate) {call : Nat}
    {opened : Bool} {after : SqliteGate} (taken : gate.nested call opened = some after)
    (isAwaited : gate.awaited (.nested call opened) = true) : Guarded after := by
  rcases nested_cases taken with ⟨runner, scope, found, rfl⟩
  have isOwner := isolated.inside call _ found (.inr (.inl rfl))
  rw [awaited, found, Option.all_some] at isAwaited
  have nothing : ∀ other entry, (gate.setCall call none).calls other = some entry →
      entry.phase ≠ .passing := by
    intro other entry isEntry passes
    have before := calls_of_update (fun _ isNew => by cases isNew) isEntry (.inl passes)
    exact no_passing_of_quiet core isolated isOwner (by simp) isAwaited before.1 passes
  cases opened with
  | true =>
      rw [if_pos rfl]
      exact guarded_of_none nothing
  | false => exact guarded_of_none nothing

theorem guarded_leaveTransaction (core : Core gate) (isolated : Isolated gate)
    (guarded : Guarded gate) {runner : Nat} {closes : Bool}
    (isAllowed : gate.allowed (.leaveTransaction runner closes) = true) :
    Guarded (gate.leaveTransaction runner closes) := by
  rcases leaveTransaction_cases gate runner closes with
    ⟨-, same⟩ | ⟨isOwner, same⟩ | ⟨isOwner, same⟩
  · rw [same]
    exact guarded
  · rw [same]
    exact guarded_of_none fun _ _ found passes =>
      nothing_inside_of_quiet core isolated isOwner isAllowed found (.inl passes)
  · rw [same]
    apply guarded_of_none
    intro call entry found passes
    have before := releaseOwnership_inside found (.inl passes)
    exact nothing_inside_of_quiet core isolated isOwner isAllowed before (.inl passes)

theorem guarded_next (core : Core gate) (isolated : Isolated gate) (guarded : Guarded gate)
    {action : Action} {after : SqliteGate} (isAllowed : gate.allowed action = true)
    (isAwaited : gate.awaited action = true) (taken : gate.next action = some after) :
    Guarded after := by
  cases action with
  | createQueryRunner scope =>
      cases taken
      rw [createQueryRunner]
      split
      · exact guarded
      · exact guarded.of_calls (fun _ _ found _ => found) rfl rfl
  | transaction current =>
      cases taken
      rw [transaction]
      split
      · exact guarded
      · exact guarded.of_calls (fun _ _ found _ => found) rfl rfl
  | query runner =>
      rw [next] at taken
      split at taken
      · exact guarded_query core isolated guarded taken isAwaited
      · cases taken
  | execute call inTransaction => exact guarded_execute core isolated guarded taken
  | settle call => exact guarded_settle guarded taken
  | startTransaction runner scope =>
      rw [next] at taken
      split at taken
      · cases taken
        rw [startTransaction]
        split
        · have before : ∀ call entry, Function.update gate.calls gate.nextCall
              (some ⟨runner, .startTransaction scope, .nesting⟩) call = some entry →
              entry.phase = .passing → gate.calls call = some entry := by
            intro call entry found passes
            by_cases same : call = gate.nextCall
            · rw [same, Function.update_self] at found
              cases found
              cases passes
            · rw [Function.update_of_ne same] at found
              exact found
          exact {
            isOpen := fun call entry found passes =>
              guarded.isOpen call entry (before call entry found passes) passes
            one := fun call entry other otherEntry found otherFound passes otherPasses =>
              guarded.one call entry other otherEntry (before call entry found passes)
                (before other otherEntry otherFound otherPasses) passes otherPasses }
        · exact guarded.of_calls (fun _ _ found isInside => acquire_inside found isInside)
            (acquire_gateDepth ..) (acquire_inTransaction ..)
      · cases taken
  | resume call =>
      rcases resume_cases taken with ⟨runner, scope, found, isAfter⟩
      have noOwner := core.held.free call ⟨_, found, .inl rfl⟩
      apply guarded_of_none
      intro other entry isEntry passes
      have calls : after.calls = Function.update gate.calls call
          (some ⟨runner, .startTransaction scope, .starting⟩) := by
        rcases isAfter with rfl | ⟨place, -, -, rfl⟩ <;> rfl
      rw [calls] at isEntry
      by_cases same : other = call
      · rw [same, Function.update_self] at isEntry
        cases isEntry
        cases passes
      · rw [Function.update_of_ne same] at isEntry
        exact nothing_inside_of_free isolated noOwner isEntry (.inl passes)
  | started call opened => exact guarded_started core isolated taken isAllowed
  | nested call opened => exact guarded_nested core isolated taken isAwaited
  | leaveTransaction runner closes =>
      rw [next] at taken
      split at taken
      · cases taken
        exact guarded_leaveTransaction core isolated guarded isAllowed
      · cases taken
  | expire call =>
      rw [next] at taken
      split at taken
      · cases taken
        apply guarded.of_calls
        · intro other entry isEntry isInside
          exact (calls_of_update (fun _ isNew => by cases isNew) isEntry isInside).1
        · rfl
        · rfl
      · cases taken

/-- No statement of a transaction runs outside of it. Where the owner's queries follow one
another, a query that is executed between the opening and the end of its runner's transaction is
executed inside of the transaction: if SQLite rolled it back by itself, the query is refused
instead. -/
theorem statements_stay_in_their_transaction
    (reached : machine.ReachableBy
      (fun gate action => gate.allowed action = true ∧ gate.awaited action = true) gate)
    {call : Nat} {inTransaction : Bool} {after : SqliteGate}
    (taken : gate.next (.execute call inTransaction) = some after) :
    ∃ entry, gate.calls call = some entry ∧
      (gate.owner = some entry.runner → 0 < gate.gateDepth entry.runner →
        gate.inTransaction = true) := by
  have known : Core gate ∧ Isolated gate ∧ Guarded gate := by
    apply reached.invariant fun gate => Core gate ∧ Isolated gate ∧ Guarded gate
    · rintro _ rfl
      exact ⟨⟨queue_initial, held_initial⟩, isolated_initial,
        guarded_of_none fun _ _ found => by cases found⟩
    · rintro _ _ _ promised ⟨core, isolated, guarded⟩ taken
      exact ⟨core_next core taken, isolated_next core isolated promised.1 taken,
        guarded_next core isolated guarded promised.1 promised.2 taken⟩
  rcases known with ⟨core, isolated, guarded⟩
  rcases execute_cases taken with ⟨runner, ⟨found, -⟩ | ⟨found, -⟩⟩
  · refine ⟨_, found, fun isOwner => ?_⟩
    have noOwner := core.held.free call ⟨_, found, .inl rfl⟩
    rw [noOwner] at isOwner
    cases isOwner
  · exact ⟨_, found, fun _ deep => guarded.isOpen call _ found rfl deep⟩

theorem statements_stay_in_their_transaction_begun : ∃ gate : SqliteGate, ∃ after,
    gate.gateDepth 0 = 1 ∧ gate.owner = some 0 ∧
      gate.next (.execute 3 true) = some after ∧ gate.inTransaction = true := by
  have passes : (machine.traceBy (fun gate action => gate.allowed action && gate.awaited action)
      initial (beginning ++ [.execute 2 true, .started 0 true, .query 0])).any
      (fun gate => gate.gateDepth 0 == 1 && gate.owner == some 0 &&
        gate.calls 3 == some ⟨0, .query, .passing⟩) = true := by decide
  rcases Machine.exists_reachableBy_of_check (.start rfl) passes with ⟨gate, reached, facts⟩
  simp only [Bool.and_eq_true, beq_iff_eq] at facts
  have promised := reached.weaken fun gate action =>
    (Bool.and_eq_true (gate.allowed action) (gate.awaited action)).mp
  have taken : gate.next (.execute 3 true) =
      some { gate.setCall 3 none with inTransaction := true } := by
    rw [next, execute, facts.2]
  rcases statements_stay_in_their_transaction promised taken with ⟨entry, found, isInside⟩
  rw [facts.2] at found
  cases found
  refine ⟨gate, _, facts.1.1, facts.1.2, taken, isInside facts.1.2 ?_⟩
  rw [facts.1.1]
  decide

end Storix.SqliteGate
