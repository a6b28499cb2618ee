import Storix.Vfs.MutationService

/-! # What statements do to a receipt

Each statement of a request leaves the row as it is, claims it, deletes it or completes
it. -/

namespace Storix

open Foundation Foundation.Command

variable {host : Host} {settings : ReceiptSettings} {request : ReceiptRequest host}
  {clock : Nat} {db : Database} {row : ReceiptRow} {phase : ReceiptPhase}
  {performed : Performed}

/-! ## Statements on the row -/

namespace ReceiptRow

theorem updateWhere_eq (test : VfsMutationReceipt → Bool)
    (change : VfsMutationReceipt → VfsMutationReceipt) (row : ReceiptRow) :
    (∃ receipt, row = some receipt ∧ test receipt = true ∧
      row.updateWhere test change = (some (change receipt), true)) ∨
    row.updateWhere test change = (row, false) := by
  cases row with
  | none => exact .inr rfl
  | some receipt =>
      by_cases passes : test receipt = true
      · exact .inl ⟨receipt, rfl, passes, by rw [updateWhere, if_pos passes]⟩
      · exact .inr (by rw [updateWhere, if_neg passes])

theorem deleteWhere_eq (test : VfsMutationReceipt → Bool) (row : ReceiptRow) :
    (∃ receipt, row = some receipt ∧ test receipt = true ∧ row.deleteWhere test = none) ∨
    row.deleteWhere test = row := by
  cases row with
  | none => exact .inr rfl
  | some receipt =>
      by_cases passes : test receipt = true
      · exact .inl ⟨receipt, rfl, passes, by rw [deleteWhere, if_pos passes]⟩
      · exact .inr (by rw [deleteWhere, if_neg passes])

end ReceiptRow

theorem VfsMutationReceipt.isReserved_iff {receipt : VfsMutationReceipt} :
    receipt.isReserved = true ↔ receipt.state = .reserved := decide_eq_true_iff

theorem VfsMutationReceipt.isComplete_iff {receipt : VfsMutationReceipt} :
    receipt.isComplete = true ↔ receipt.state = .complete := decide_eq_true_iff

structure Stores (receipt : VfsMutationReceipt) (method fingerprint : JsString)
    (response : ReceiptResponse) : Prop where
  state : receipt.state = .complete
  method : receipt.method = some method
  fingerprint : receipt.fingerprint = some fingerprint
  status : receipt.responseStatus = some response.status
  body : receipt.responseBody = some response.body
  headers : receipt.responseHeaders = some response.headers

/-- A replay with the method and the fingerprint of the receipt gives its response. -/
theorem Stores.replay {receipt : VfsMutationReceipt} {method fingerprint : JsString}
    {response : ReceiptResponse} (stores : Stores receipt method fingerprint response)
    (settings : ReceiptSettings) (requestId : JsString) :
    replayReceipt settings receipt method fingerprint requestId = response := by
  unfold replayReceipt
  rw [if_neg (by simp [stores.method, stores.fingerprint]), stores.status, stores.body,
    stores.headers]
  rfl

theorem completeWith_eq (clock generation : Nat) (fingerprint method : JsString)
    (response : ReceiptResponse) (requestBodyBytes : Option Nat) (row : ReceiptRow) :
    (∃ receipt completed, row = some receipt ∧ receipt.state = .reserved ∧
      receipt.generation = generation ∧ completed.generation = generation ∧
      Stores completed method fingerprint response ∧
      row.completeWith clock generation fingerprint method response requestBodyBytes =
        (some completed, true)) ∨
    row.completeWith clock generation fingerprint method response requestBodyBytes =
      (row, false) := by
  unfold ReceiptRow.completeWith
  cases row with
  | none => exact .inr rfl
  | some receipt =>
      unfold ReceiptRow.updateWhere
      dsimp only
      split
      · rename_i passes
        simp only [Bool.and_eq_true, beq_iff_eq, VfsMutationReceipt.isReserved_iff] at passes
        refine .inl ⟨receipt, _, rfl, passes.1.1, passes.1.2, ?_, ?_, rfl⟩
        · exact passes.1.2
        · exact ⟨rfl, rfl, rfl, rfl, rfl, rfl⟩
      · exact .inr rfl

/-! ## The commit of a mutation -/

theorem finish_afterBump {α : Type}
    (afterBump : MutationTx → α → List AffectedRevision → Except VfsError Unit) (value : α)
    (tx : MutationTx) :
    Satisfies (finish host afterBump value)
      (fun revisions _ => ∃ last, afterBump last value revisions = .ok ()) (fun _ => True) tx := by
  have any : ∀ {β : Type} (command : Mutating β) (start : MutationTx),
      Satisfies command (fun _ _ => True) (fun _ => True) start := by
    intro β command start
    unfold Satisfies
    split
    · trivial
    · trivial
  unfold finish
  refine (any _ _).bind fun _ counted _ => (any _ _).bind fun _ charged _ => ?_
  refine (any _ _).bind fun revisions bumped _ => ?_
  rw [satisfies_bind, satisfies_state, satisfies_bind, satisfies_lift]
  refine ⟨fun _ isOk => ?_, fun _ _ => trivial⟩
  cases bumped.feedBefore with
  | none => exact ⟨bumped, isOk⟩
  | some before => exact (any _ _).bind fun _ _ _ => ⟨bumped, isOk⟩

theorem withMutation_afterBump {α : Type} {allowInactive : Bool} {work : Mutating α}
    {afterBump : MutationTx → α → List AffectedRevision → Except VfsError Unit} {now : Nat}
    {committed : Committed α}
    (result : withMutation host now allowInactive work afterBump db = .ok committed) :
    ∃ last, afterBump last committed.value committed.affectedRevisions = .ok () := by
  unfold withMutation at result
  split at result
  · cases result
  · split at result
    · cases result
    · split at result
      · cases result
      · split at result
        · cases result
        · rename_i finished
          cases result
          exact (finish_afterBump _ _ _).of_ok finished

/-! ## Statements of a request -/

inductive Effect (request : ReceiptRequest host) (clock : Nat) (db : Database) (row : ReceiptRow)
    (phase : ReceiptPhase) (performed : Performed) : Prop
  | kept (sameDb : performed.db = db) (sameRow : performed.row = row)
      (completed : performed.completed = none) (claimed : performed.claimed = false)
      (answer : ∀ response, performed.phase = .answered response → response.status = 409 ∨
        ∃ receipt, row = some receipt ∧ receipt.state = .complete ∧
          receipt.method = some request.method ∧ receipt.fingerprint = some request.fingerprint ∧
          response.status = receipt.responseStatus.getD 0 ∧
          response.body = receipt.responseBody.getD [] ∧
          response.headers = receipt.responseHeaders.getD [])
      (held : performed.phase.held = none ∨ performed.phase.held = phase.held ∨
        phase.isRereading = true ∧ ∃ receipt, row = some receipt ∧
          performed.phase.held = some receipt.generation)
      (reread : performed.phase.isRereading = false)
  | inserted (isNone : row = none) (receipt : VfsMutationReceipt)
      (isRow : performed.row = some receipt) (reserved : receipt.state = .reserved)
      (first : receipt.generation = 1) (isPhase : performed.phase = .owner 1) (attempt : Nat)
      (claiming : phase = .inserting attempt) (few : attempt < MAX_CLAIM_ATTEMPTS)
      (sameDb : performed.db = db) (completed : performed.completed = none)
      (claimed : performed.claimed = true)
  | tookOver (old receipt : VfsMutationReceipt) (isOld : row = some old)
      (oldReserved : old.state = .reserved) (isRow : performed.row = some receipt)
      (reserved : receipt.state = .reserved) (later : receipt.generation = old.generation + 1)
      (isPhase : performed.phase.isRereading = true) (attempt : Nat)
      (claiming : phase = .takingOver attempt) (ranOut : old.leaseExpired clock = true)
      (sameDb : performed.db = db) (completed : performed.completed = none)
      (claimed : performed.claimed = true)
  | discarded (old : VfsMutationReceipt) (isOld : row = some old)
      (oldComplete : old.state = .complete)
      (attempt : Nat) (isPhase : phase = .discarding attempt)
        (expired : old.expiresAt ≤ request.now)
      (isRow : performed.row = none) (later : performed.phase = .inserting (attempt + 1))
      (sameDb : performed.db = db) (completed : performed.completed = none)
      (claimed : performed.claimed = false)
  | released (old : VfsMutationReceipt) (isOld : row = some old)
      (oldReserved : old.state = .reserved)
      (holds : phase.held = some old.generation) (isRow : performed.row = none)
      (later : performed.phase = .threw) (sameDb : performed.db = db)
      (completed : performed.completed = none) (claimed : performed.claimed = false)
  | completed (old receipt : VfsMutationReceipt) (isOld : row = some old)
      (oldReserved : old.state = .reserved) (holds : phase.held = some old.generation)
      (isRow : performed.row = some receipt) (same : receipt.generation = old.generation)
      (applied : Bool) (response : ReceiptResponse)
      (stores : Stores receipt request.method request.fingerprint response)
      (isPhase : performed.phase = .answered response)
      (completed : performed.completed = some (applied, response))
      (status : applied = true ↔ response.status < 400)
      (unchanged : applied = false → performed.db = db) (claimed : performed.claimed = false)

theorem Effect.still {next : ReceiptPhase} (noAnswer : ∀ response, next ≠ .answered response)
    (held : next.held = none ∨ next.held = phase.held) (reread : next.isRereading = false) :
    Effect request clock db row phase (onlyRow db row next) :=
  .kept rfl rfl rfl rfl (fun response isAnswer => absurd isAnswer (noAnswer response))
    (held.elim .inl fun same => .inr (.inl same)) reread

theorem Effect.conflict {response : ReceiptResponse} (isConflict : response.status = 409) :
    Effect request clock db row phase (onlyRow db row (.answered response)) :=
  .kept rfl rfl rfl rfl
    (fun other isAnswer => by
      cases isAnswer
      exact .inl isConflict)
    (.inl rfl) rfl

theorem claimStatement_effect (attempt : Nat) :
    Effect request clock db row (.inserting attempt)
      (claimStatement settings request clock db row attempt) := by
  unfold claimStatement
  split
  · exact .conflict rfl
  · rename_i few
    cases row with
    | none => exact .inserted rfl _ rfl rfl rfl rfl attempt rfl (Nat.not_le.mp few) rfl rfl rfl
    | some receipt => exact .still nofun (.inl rfl) rfl

theorem takeOverStatement_effect (attempt : Nat) :
    Effect request clock db row (.takingOver attempt)
      (takeOverStatement settings clock db row attempt) := by
  unfold takeOverStatement ReceiptRow.takeOver
  rcases ReceiptRow.updateWhere_eq
    (fun receipt => receipt.isReserved && receipt.leaseExpired clock)
    (fun receipt => { receipt with
      generation := receipt.generation + 1, leaseExpiresAt := some (clock + settings.leaseMs) })
    row with ⟨receipt, isRow, passes, isResult⟩ | unchanged
  · rw [isResult]
    simp only [Bool.and_eq_true, VfsMutationReceipt.isReserved_iff] at passes
    exact .tookOver receipt _ isRow passes.1 rfl passes.1 rfl rfl attempt rfl passes.2 rfl rfl rfl
  · rw [unchanged]
    exact .still nofun (.inl rfl) rfl

theorem rereadStatement_effect (attempt : Nat) (isPhase : phase.isRereading = true) :
    Effect request clock db row phase (rereadStatement db row attempt) := by
  unfold rereadStatement
  cases row with
  | none => exact .still nofun (.inl rfl) rfl
  | some receipt =>
      exact .kept rfl rfl rfl rfl nofun (.inr (.inr ⟨isPhase, receipt, rfl, rfl⟩)) rfl

theorem readStatement_effect (attempt : Nat) :
    Effect request clock db row phase (readStatement settings request db row attempt) := by
  unfold readStatement
  cases row with
  | none => exact .still nofun (.inl rfl) rfl
  | some receipt =>
      dsimp only
      split
      · rename_i isComplete
        split
        · exact .still nofun (.inl rfl) rfl
        · unfold replayReceipt
          split
          · exact .conflict rfl
          · rename_i same
            rw [not_or, not_not, not_not] at same
            refine .kept rfl rfl rfl rfl (fun response isAnswer => ?_) (.inl rfl) rfl
            cases isAnswer
            exact .inr ⟨receipt, rfl, isComplete, same.1, same.2, rfl, rfl, rfl⟩
      · exact .conflict rfl

theorem applyStatement_effect {generation : Nat} (isPhase : phase.held = some generation) :
    Effect request clock db row phase (applyStatement request clock db row generation) := by
  unfold applyStatement
  split
  · exact .still nofun (.inr isPhase.symm) rfl
  · split
    · exact .still nofun (.inr isPhase.symm) rfl
    · rename_i committed result
      rcases withMutation_afterBump result with ⟨_, isOk⟩
      unfold completes at isOk
      rcases completeWith_eq clock generation request.fingerprint request.method
        (request.respond committed.affectedRevisions) request.requestBodyBytes row with
        ⟨receipt, completed, isRow, reserved, isGeneration, sameGeneration, stores, isResult⟩ |
        unchanged
      · dsimp only
        rw [isResult]
        have answers := request.succeeds committed.affectedRevisions
        exact .completed receipt completed isRow reserved (isGeneration ▸ isPhase) rfl
          (sameGeneration.trans isGeneration.symm) true _ stores rfl rfl
          ⟨fun _ => answers, fun _ => rfl⟩ nofun rfl
      · rw [unchanged] at isOk
        cases isOk

theorem replayed_status {error : Option VfsError} {requestId : JsString}
    {response : ReceiptResponse}
    (isResponse : (error.bind fun error => (replayableStatus error).map fun status =>
      errorResponse settings error status requestId) = some response) : 400 ≤ response.status := by
  rcases Option.bind_eq_some_iff.mp isResponse with ⟨error, _, isMapped⟩
  rcases Option.map_eq_some_iff.mp isMapped with ⟨status, isStatus, rfl⟩
  unfold replayableStatus at isStatus
  split at isStatus
  · cases isStatus
  · have range := (Option.filter_eq_some_iff.mp isStatus).2
    simp only [decide_eq_true_eq] at range
    exact range.1

theorem storeErrorStatement_effect {generation : Nat} (error : Option VfsError)
    (isPhase : phase.held = some generation) :
    Effect request clock db row phase
      (storeErrorStatement settings request clock db row generation error) := by
  unfold storeErrorStatement
  split
  · exact .still nofun (.inr isPhase.symm) rfl
  · rename_i response isResponse
    rcases completeWith_eq clock generation request.fingerprint request.method response
      request.requestBodyBytes row with
      ⟨receipt, completed, isRow, reserved, isGeneration, sameGeneration, stores, isResult⟩ |
      unchanged
    · rw [isResult]
      refine .completed receipt completed isRow reserved (isGeneration ▸ isPhase) rfl
        (sameGeneration.trans isGeneration.symm) false response stores rfl rfl ⟨nofun, ?_⟩
        (fun _ => rfl) rfl
      intro success
      exact absurd success (Nat.not_lt.mpr (replayed_status isResponse))
    · rw [unchanged]
      exact .still nofun (.inr isPhase.symm) rfl

theorem perform_effect
    (isPerformed : perform settings request clock db row phase = some performed) :
    Effect request clock db row phase performed := by
  cases phase with
  | inserting attempt => exact Option.some.inj isPerformed ▸ claimStatement_effect attempt
  | takingOver attempt => exact Option.some.inj isPerformed ▸ takeOverStatement_effect attempt
  | rereading attempt => exact Option.some.inj isPerformed ▸ rereadStatement_effect attempt rfl
  | reading attempt => exact Option.some.inj isPerformed ▸ readStatement_effect attempt
  | discarding attempt =>
      rw [← Option.some.inj isPerformed]
      rcases ReceiptRow.deleteWhere_eq
        (fun receipt => receipt.isComplete && receipt.expiresAt ≤ request.now) row with
        ⟨receipt, isRow, passes, isResult⟩ | unchanged
      · simp only [Bool.and_eq_true, decide_eq_true_eq, VfsMutationReceipt.isComplete_iff] at passes
        exact .discarded receipt isRow passes.1 attempt rfl passes.2 isResult rfl rfl rfl rfl
      · have same : row.deleteExpired request.now = row := unchanged
        rw [same]
        exact .still nofun (.inl rfl) rfl
  | owner generation => exact Option.some.inj isPerformed ▸ applyStatement_effect rfl
  | failed generation error =>
      exact Option.some.inj isPerformed ▸ storeErrorStatement_effect error rfl
  | releasing generation =>
      rw [← Option.some.inj isPerformed]
      rcases ReceiptRow.deleteWhere_eq
        (fun receipt => receipt.isReserved && receipt.generation == generation) row with
        ⟨receipt, isRow, passes, isResult⟩ | unchanged
      · simp only [Bool.and_eq_true, beq_iff_eq, VfsMutationReceipt.isReserved_iff] at passes
        exact .released receipt isRow passes.1 (congrArg some passes.2.symm)
          isResult rfl rfl rfl rfl
      · have same : row.release generation = row := unchanged
        rw [same]
        exact .still nofun (.inl rfl) rfl
  | answered response => cases isPerformed
  | threw => cases isPerformed

/-! ## Steps of the system -/

variable {requests : Nat → ReceiptRequest host} {system next : ReceiptSystem}
  {action : ReceiptAction host}

/-- A phase that follows without a result: the request gave up, or goes on as before. -/
structure Retreats (old new : ReceiptPhase) : Prop where
  held : new.held = none ∨ new.held = old.held
  reread : new.isRereading = true → old.isRereading = true
  answer : ∀ response, new = .answered response → old = .answered response

theorem Retreats.refl (phase : ReceiptPhase) : Retreats phase phase :=
  ⟨.inr rfl, id, fun _ => id⟩

theorem Retreats.threw (phase : ReceiptPhase) : Retreats phase .threw := ⟨.inl rfl, nofun, nofun⟩

theorem Retreats.interrupted (phase : ReceiptPhase) : Retreats phase phase.interrupted := by
  cases phase with
  | owner generation => exact ⟨.inr rfl, nofun, nofun⟩
  | failed generation error => exact ⟨.inr rfl, nofun, nofun⟩
  | answered response => exact .refl _
  | _ => exact .threw _

theorem retreats_update {id : Nat} {phase : ReceiptPhase}
    (retreats : Retreats (system.phase id) phase)
    (other : Nat) :
    Retreats (system.phase other) (Function.update system.phase id phase other) := by
  by_cases same : other = id
  · subst same
    rw [Function.update_self]
    exact retreats
  · rw [Function.update_of_ne same]
    exact .refl _

inductive ReceiptStep (requests : Nat → ReceiptRequest host) (system next : ReceiptSystem)
    (action : ReceiptAction host) : Prop
  | quiet (sameRow : next.row = system.row) (history : next.history = system.history)
      (epoch : next.epoch = system.epoch) (superseded : next.superseded = system.superseded)
      (phases : ∀ id, Retreats (system.phase id) (next.phase id))
  | renewed (id : Nat) (old receipt : VfsMutationReceipt) (isOld : system.row = some old)
      (oldReserved : old.state = .reserved) (holds : (system.phase id).held = some old.generation)
      (isRow : next.row = some receipt) (reserved : receipt.state = .reserved)
      (same : receipt.generation = old.generation) (history : next.history = system.history)
      (epoch : next.epoch = system.epoch) (superseded : next.superseded = system.superseded)
      (phases : ∀ id, Retreats (system.phase id) (next.phase id))
  | pruned (now : Nat) (isAction : action = .prune now) (old : VfsMutationReceipt)
      (isOld : system.row = some old) (gone : next.row = none)
      (expired : old.state = .complete → old.expiresAt ≤ now)
      (history : next.history = system.history)
      (epoch : next.epoch = if old.state = .complete then [] else system.epoch)
      (superseded : next.superseded = system.superseded) (phases : next.phase = system.phase)
  | performed (id : Nat) (fate : Fate) (isAction : action = .statement id fate)
      (tookEffect : fate ≠ .failed) (performed : Performed)
      (effect : Effect (requests id) system.clock system.db system.row (system.phase id) performed)
      (phase : ReceiptPhase)
      (isPhase : phase = performed.phase ∨ phase = (system.phase id).interrupted)
      (isNext : next = system.after requests id performed phase)

theorem renewed_step {id generation : Nat} (isPhase : system.phase id = .owner generation)
    (fate : Fate) :
    ReceiptStep requests system (system.renewed settings id generation fate) action := by
  have retreats : Retreats (system.phase id)
      (.failed generation (some (.internal .claimLost))) := by
    rw [isPhase]
    exact ⟨.inr rfl, nofun, nofun⟩
  have held : (system.phase id).held = some generation := by rw [isPhase]; rfl
  have result := ReceiptRow.updateWhere_eq
    (fun receipt => receipt.isReserved && receipt.generation == generation)
    (fun receipt => { receipt with
      leaseExpiresAt := some (system.clock + settings.leaseMs) }) system.row
  unfold ReceiptSystem.renewed ReceiptRow.renew
  rcases result with ⟨old, isOld, passes, isResult⟩ | unchanged
  · simp only [Bool.and_eq_true, beq_iff_eq, VfsMutationReceipt.isReserved_iff] at passes
    have holds : (system.phase id).held = some old.generation := passes.2 ▸ held
    rw [isResult]
    cases fate with
    | done =>
        exact .renewed id old _ isOld passes.1 holds rfl passes.1 rfl rfl rfl rfl fun _ => .refl _
    | lost =>
        exact .renewed id old _ isOld passes.1 holds rfl passes.1 rfl rfl rfl rfl
          (retreats_update retreats)
    | failed => exact .quiet rfl rfl rfl rfl (retreats_update retreats)
  · rw [unchanged]
    cases fate with
    | done => exact .quiet rfl rfl rfl rfl (retreats_update retreats)
    | lost => exact .quiet rfl rfl rfl rfl (retreats_update retreats)
    | failed => exact .quiet rfl rfl rfl rfl (retreats_update retreats)

theorem pruned_step (now : Nat) :
    ReceiptStep requests system
      { system with
        row := system.row.pruneExpired system.clock now
        epoch := ReceiptSystem.remains system.row (system.row.pruneExpired system.clock now)
          system.epoch } (.prune now : ReceiptAction host) := by
  rcases ReceiptRow.deleteWhere_eq (fun receipt =>
    receipt.isComplete && receipt.expiresAt ≤ now ||
      receipt.isReserved && receipt.expiresAt ≤ now && receipt.leaseExpired system.clock)
    system.row with ⟨old, isOld, passes, isResult⟩ | unchanged
  · have gone : system.row.pruneExpired system.clock now = none := isResult
    rw [gone]
    refine .pruned now rfl old isOld rfl (fun isComplete => ?_) rfl ?_ rfl rfl
    · simp only [Bool.or_eq_true, Bool.and_eq_true, decide_eq_true_eq,
        VfsMutationReceipt.isReserved_iff] at passes
      rcases passes with expired | ⟨⟨_, expired⟩, _⟩
      · exact expired.2
      · exact expired
    · unfold ReceiptSystem.remains
      rw [isOld]
      simp [VfsMutationReceipt.isComplete]
  · have same : system.row.pruneExpired system.clock now = system.row := unchanged
    rw [same]
    refine .quiet rfl rfl ?_ rfl fun _ => .refl _
    unfold ReceiptSystem.remains
    cases system.row with
    | none => rfl
    | some receipt => simp

theorem receiptStep (taken : system.next settings requests action = some next) :
    ReceiptStep requests system next action := by
  cases action with
  | tick elapsed =>
      cases taken
      exact .quiet rfl rfl rfl rfl fun _ => .refl _
  | statement id fate =>
      unfold ReceiptSystem.next at taken
      dsimp only at taken
      split at taken
      · cases taken
      · rename_i performed isPerformed
        have effect := perform_effect isPerformed
        cases fate with
        | done =>
            cases taken
            exact .performed id _ rfl (by decide) performed effect _ (.inl rfl) rfl
        | lost =>
            cases taken
            exact .performed id _ rfl (by decide) performed effect _ (.inr rfl) rfl
        | failed =>
            cases taken
            exact .quiet rfl rfl rfl rfl (retreats_update (.interrupted _))
  | renew id fate =>
      unfold ReceiptSystem.next at taken
      dsimp only at taken
      split at taken
      · rename_i generation isPhase
        cases taken
        exact renewed_step isPhase fate
      · cases taken
  | crash id =>
      cases taken
      exact .quiet rfl rfl rfl rfl (retreats_update (.threw _))
  | prune now =>
      cases taken
      exact pruned_step now
  | other mutation =>
      unfold ReceiptSystem.next at taken
      dsimp only at taken
      split at taken
      · cases taken
      · cases taken
        exact .quiet rfl rfl rfl rfl fun _ => .refl _

end Storix
