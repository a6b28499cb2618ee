import Storix.Storage.PutOwnership

/-! # A claim keeps writers out

While a cleanup holds the claim of a key, every attempt on the key has settled or belongs
to an execution that is known to have stopped, and no new attempt begins. -/

namespace Storix

open Foundation

variable {puts aborts : Nat → OwnershipCall} {system next : OwnershipSystem}
  {tables later : PutOwnership} {key : JsString}

/-! ## Transactions -/

namespace PutOwnership

theorem confirmed_registerExecution (executionId other : Nat) :
    (tables.registerExecution executionId).confirmed other = tables.confirmed other := by
  unfold confirmed registerExecution
  by_cases same : other = executionId
  · subst same
    dsimp only
    rw [Function.update_self]
    cases tables.executions other with
    | none => rfl
    | some row => rfl
  · dsimp only
    rw [Function.update_of_ne same]

theorem confirmed_confirmExecutionStopped {executionId now : Nat} {evidence : JsString}
    (result : tables.confirmExecutionStopped executionId now evidence = some later)
    {other : Nat} (isConfirmed : tables.confirmed other = true) : later.confirmed other = true := by
  unfold confirmExecutionStopped at result
  split at result
  · cases result
  · cases result
    unfold confirmed at isConfirmed ⊢
    by_cases same : other = executionId
    · subst same
      dsimp only
      rw [Function.update_self]
      cases isRow : tables.executions other with
      | none =>
          rw [isRow] at isConfirmed
          cases isConfirmed
      | some row =>
          rw [isRow] at isConfirmed
          rw [Option.map_some, Option.any_some]
          split
          · rfl
          · exact isConfirmed
    · dsimp only
      rw [Function.update_of_ne same]
      exact isConfirmed

theorem confirmExecutionStopped_rest {executionId now : Nat} {evidence : JsString}
    (result : tables.confirmExecutionStopped executionId now evidence = some later) :
    later.keys = tables.keys ∧ later.attempts = tables.attempts := by
  unfold confirmExecutionStopped at result
  split at result
  · cases result
  · cases result
    exact ⟨rfl, rfl⟩

theorem beginPut_eq_some {executionId attemptId : Nat}
    (result : tables.beginPut key executionId attemptId = some later) :
    (∀ row, tables.keys key = some row → row.gcClaimId = none) ∧
      later.executions = tables.executions ∧
      later.attempts = tables.attempts ++ [⟨attemptId, executionId, key, .active⟩] ∧
      ∃ row, later.keys = Function.update tables.keys key (some row) ∧ row.gcClaimId = none := by
  unfold beginPut at result
  dsimp only at result
  split at result
  · cases result
  · rename_i row isRow
    split at result
    · cases result
    · rename_i free
      cases result
      rw [not_not] at free
      unfold ensureKey at isRow
      dsimp only at isRow
      rw [Function.update_self] at isRow
      refine ⟨fun old isOld => ?_, rfl, rfl, row, ?_, free⟩
      · rw [isOld, Option.getD_some] at isRow
        exact Option.some.inj isRow ▸ free
      · unfold ensureKey
        dsimp only
        rw [isRow]

theorem claimForGc_claimed {claimId executionId : Nat}
    (result : tables.claimForGc key claimId executionId = (.claimed, later)) :
    (∃ row, tables.keys key = some row ∧ tables.claimProtects row = false) ∧
      later = { tables with
        keys := Function.update tables.keys key (some ⟨some claimId, some executionId⟩) } ∧
      (∃ attempt ∈ tables.attempts, attempt.storageKey = key) ∧
      ∀ attempt ∈ tables.attempts, attempt.storageKey = key →
        attempt.state = .settled ∨ tables.confirmed attempt.executionId = true := by
  unfold claimForGc at result
  split at result
  · cases result
  · rename_i row isRow
    split at result
    · cases result
    · rename_i unprotected
      dsimp only at result
      split at result
      · cases result
      · rename_i some
        split at result
        · cases result
        · rename_i quiet
          cases result
          refine ⟨⟨row, isRow, by simpa using unprotected⟩, rfl, ?_, ?_⟩
          · rcases List.exists_mem_of_length_pos (Nat.pos_of_ne_zero some) with ⟨attempt, isOwner⟩
            have parts := List.mem_filter.mp isOwner
            exact ⟨attempt, parts.1, by simpa using parts.2⟩
          · intro attempt isAttempt isKey
            have isOwner : attempt ∈ tables.attempts.filter fun attempt =>
                attempt.storageKey = key := List.mem_filter.mpr ⟨isAttempt, decide_eq_true isKey⟩
            have settled : ¬(decide (attempt.state ≠ .settled) &&
                !tables.confirmed attempt.executionId) = true :=
              fun active => quiet (List.any_eq_true.mpr ⟨attempt, isOwner, active⟩)
            by_cases isSettled : attempt.state = .settled
            · exact .inl isSettled
            · refine .inr ?_
              simpa [isSettled] using settled

end PutOwnership

/-! ## Claims -/

structure ClaimsHeld (puts aborts : Nat → OwnershipCall) (system : OwnershipSystem) : Prop where
  held : ∀ call, system.aborts call = .aborting ∨ system.aborts call = .releasing →
    system.tables.confirmed (aborts call).executionId = false →
    system.tables.keys (aborts call).key = some ⟨some call, some (aborts call).executionId⟩
  recorded : ∀ key row, system.tables.keys key = some row → row.gcClaimId ≠ none →
    ∃ attempt ∈ system.tables.attempts, attempt.storageKey = key
  quiet : ∀ key row, system.tables.keys key = some row → row.gcClaimId ≠ none →
    ∀ attempt ∈ system.tables.attempts, attempt.storageKey = key →
      attempt.state = .settled ∨ system.tables.confirmed attempt.executionId = true
  putting : ∀ call, system.puts call = .putting →
    ⟨call, (puts call).executionId, (puts call).key, .active⟩ ∈ system.tables.attempts

namespace ClaimsHeld

theorem initial (start : system.Initial) : ClaimsHeld puts aborts system := by
  refine ⟨fun call isHeld => ?_, ?_, ?_, fun call isPutting => ?_⟩
  · rw [start.aborts call] at isHeld
    rcases isHeld with impossible | impossible
    · cases impossible
    · cases impossible
  · intro key row isRow
    rw [start.keys key] at isRow
    cases isRow
  · intro key row isRow
    rw [start.keys key] at isRow
    cases isRow
  · rw [start.puts call] at isPutting
    cases isPutting

/-- A step that only ends calls, or records that executions have started or stopped. -/
theorem of_tables (holds : ClaimsHeld puts aborts system)
    (keys : next.tables.keys = system.tables.keys)
    (attempts : next.tables.attempts = system.tables.attempts)
    (confirmed : ∀ executionId, system.tables.confirmed executionId = true →
      next.tables.confirmed executionId = true)
    (held : ∀ call, next.aborts call = .aborting ∨ next.aborts call = .releasing →
      system.aborts call = .aborting ∨ system.aborts call = .releasing)
    (putting : ∀ call, next.puts call = .putting → system.puts call = .putting) :
    ClaimsHeld puts aborts next := by
  refine ⟨fun call isHeld running => ?_, ?_, ?_, ?_⟩
  · rw [keys]
    refine holds.held call (held call isHeld) ?_
    rw [← Bool.not_eq_true] at running ⊢
    exact fun stopped => running (confirmed _ stopped)
  · rw [keys, attempts]
    exact holds.recorded
  · rw [keys, attempts]
    intro key row isRow claimed attempt isAttempt isKey
    exact (holds.quiet key row isRow claimed attempt isAttempt isKey).imp_right (confirmed _)
  · rw [attempts]
    exact fun call isPutting => holds.putting call (putting call isPutting)

theorem movePut (holds : ClaimsHeld puts aborts system) {call : Nat} {phase : PutPhase}
    (ends : phase ≠ .putting) : ClaimsHeld puts aborts (system.movePut call phase) := by
  refine holds.of_tables rfl rfl (fun _ same => same) (fun _ same => same) fun other isPutting => ?_
  change Function.update system.puts call phase other = _ at isPutting
  by_cases same : other = call
  · subst same
    rw [Function.update_self] at isPutting
    exact absurd isPutting ends
  · rw [Function.update_of_ne same] at isPutting
    exact isPutting

theorem moveAbort (holds : ClaimsHeld puts aborts system) {call : Nat} {phase : AbortPhase}
    (keeps : phase = .ended ∨ phase = .releasing ∧ system.aborts call = .aborting) :
    ClaimsHeld puts aborts (system.moveAbort call phase) := by
  refine holds.of_tables rfl rfl (fun _ same => same) (fun other isHeld => ?_) fun _ same => same
  change Function.update system.aborts call phase other = _ ∨
    Function.update system.aborts call phase other = _ at isHeld
  by_cases same : other = call
  · subst same
    rw [Function.update_self] at isHeld
    rcases keeps with rfl | ⟨_, wasAborting⟩
    · rcases isHeld with impossible | impossible
      · cases impossible
      · cases impossible
    · exact .inl wasAborting
  · rw [Function.update_of_ne same] at isHeld
    exact isHeld

theorem begun (holds : ClaimsHeld puts aborts system) {call : Nat}
    (result : system.tables.beginPut (puts call).key (puts call).executionId call = some later) :
    ClaimsHeld puts aborts { system with tables := later } ∧
      ⟨call, (puts call).executionId, (puts call).key, .active⟩ ∈ later.attempts := by
  rcases PutOwnership.beginPut_eq_some result with
    ⟨free, executions, attempts, row, keys, isFree⟩
  have confirmed : ∀ executionId, later.confirmed executionId =
      system.tables.confirmed executionId := by
    intro executionId
    unfold PutOwnership.confirmed
    rw [executions]
  have claimedKey : ∀ key found, later.keys key = some found → found.gcClaimId ≠ none →
      key ≠ (puts call).key ∧ system.tables.keys key = some found := by
    intro key found isFound claimed
    rw [keys] at isFound
    by_cases same : key = (puts call).key
    · subst same
      rw [Function.update_self] at isFound
      cases isFound
      exact absurd isFree claimed
    · rw [Function.update_of_ne same] at isFound
      exact ⟨same, isFound⟩
  refine ⟨⟨fun other isHeld running => ?_, ?_, ?_, fun other isPutting => ?_⟩, ?_⟩
  · dsimp only at running ⊢
    rw [confirmed] at running
    have isRow := holds.held other isHeld running
    have different : (aborts other).key ≠ (puts call).key := by
      intro same
      rw [same] at isRow
      cases free _ isRow
    rw [keys, Function.update_of_ne different]
    exact isRow
  · intro key found isFound claimed
    rcases claimedKey key found isFound claimed with ⟨_, wasFound⟩
    rcases holds.recorded key found wasFound claimed with ⟨attempt, isAttempt, isKey⟩
    exact ⟨attempt, attempts ▸ List.mem_append_left _ isAttempt, isKey⟩
  · intro key found isFound claimed attempt isAttempt isKey
    rcases claimedKey key found isFound claimed with ⟨different, wasFound⟩
    dsimp only at isAttempt ⊢
    rw [attempts, List.mem_append, List.mem_singleton] at isAttempt
    rw [confirmed]
    rcases isAttempt with earlier | rfl
    · exact holds.quiet key found wasFound claimed attempt earlier isKey
    · exact absurd isKey.symm different
  · exact attempts ▸ List.mem_append_left _ (holds.putting other isPutting)
  · exact attempts ▸ List.mem_append_right _ (List.mem_singleton_self _)

theorem settled (holds : ClaimsHeld puts aborts system) {call : Nat}
    (isSettling : system.puts call = .settling) :
    ClaimsHeld puts aborts { system with tables := system.tables.settlePut call } := by
  refine ⟨holds.held, fun key row isRow claimed => ?_, fun key row isRow claimed attempt isAttempt
    isKey => ?_, fun other isPutting => ?_⟩
  · rcases holds.recorded key row isRow claimed with ⟨attempt, isAttempt, isKey⟩
    refine ⟨_, List.mem_map_of_mem isAttempt, ?_⟩
    split
    · exact isKey
    · exact isKey
  · rcases List.mem_map.mp isAttempt with ⟨old, isOld, rfl⟩
    by_cases own : old.attemptId = call
    · rw [if_pos own]
      exact .inl rfl
    · rw [if_neg own] at isKey ⊢
      exact holds.quiet key row isRow claimed old isOld isKey
  · have different : other ≠ call := by
      rintro rfl
      rw [isSettling] at isPutting
      cases isPutting
    refine List.mem_map.mpr ⟨_, holds.putting other isPutting, ?_⟩
    rw [if_neg different]

theorem claimed (holds : ClaimsHeld puts aborts system) {call : Nat}
    (result : system.tables.claimForGc (aborts call).key call (aborts call).executionId =
      (.claimed, later)) (phase : AbortPhase) :
    ClaimsHeld puts aborts ({ system with tables := later }.moveAbort call phase) := by
  rcases PutOwnership.claimForGc_claimed result with
    ⟨⟨row, isRow, unprotected⟩, isLater, recorded, quiet⟩
  subst isLater
  refine ⟨fun other isHeld running => ?_, fun key found isFound claimed => ?_,
    fun key found isFound claimed => ?_, holds.putting⟩
  · change Function.update system.aborts call phase other = _ ∨
      Function.update system.aborts call phase other = _ at isHeld
    change Function.update system.tables.keys (aborts call).key _ (aborts other).key = _
    by_cases same : other = call
    · subst same
      exact Function.update_self _ _ _
    · rw [Function.update_of_ne same] at isHeld
      have isOwn := holds.held other isHeld running
      have different : (aborts other).key ≠ (aborts call).key := by
        intro sameKey
        rw [sameKey, isRow] at isOwn
        cases isOwn
        have stopped : system.tables.confirmed (aborts other).executionId = true := by
          simpa [PutOwnership.claimProtects] using unprotected
        exact absurd (running.symm.trans stopped) Bool.false_ne_true
      rw [Function.update_of_ne different]
      exact isOwn
  · change Function.update system.tables.keys (aborts call).key _ key = _ at isFound
    by_cases same : key = (aborts call).key
    · subst same
      exact recorded
    · rw [Function.update_of_ne same] at isFound
      exact holds.recorded key found isFound claimed
  · change Function.update system.tables.keys (aborts call).key _ key = _ at isFound
    by_cases same : key = (aborts call).key
    · subst same
      exact quiet
    · rw [Function.update_of_ne same] at isFound
      exact holds.quiet key found isFound claimed

theorem releaseGcClaim_keys (tables : PutOwnership) (released : JsString) (claimId : Nat)
    (key : JsString) :
    (tables.releaseGcClaim released claimId).keys key = tables.keys key ∨
      key = released ∧ (tables.releaseGcClaim released claimId).keys key = some ⟨none, none⟩ ∧
        ∃ row, tables.keys key = some row ∧ row.gcClaimId = some claimId := by
  unfold PutOwnership.releaseGcClaim
  dsimp only
  by_cases same : key = released
  · subst same
    rw [Function.update_self]
    cases isRow : tables.keys key with
    | none => exact .inl rfl
    | some row =>
        rw [Option.map_some]
        by_cases own : row.gcClaimId = some claimId
        · rw [if_pos own]
          exact .inr ⟨rfl, rfl, row, rfl, own⟩
        · rw [if_neg own]
          exact .inl rfl
  · rw [Function.update_of_ne same]
    exact .inl rfl

theorem released (holds : ClaimsHeld puts aborts system) (call : Nat) :
    ClaimsHeld puts aborts ({ system with
      tables := system.tables.releaseGcClaim (aborts call).key call }.moveAbort call .ended) := by
  have before : ∀ key row, (system.tables.releaseGcClaim (aborts call).key call).keys key =
      some row → row.gcClaimId ≠ none → system.tables.keys key = some row := by
    intro key row isRow claimed
    rcases releaseGcClaim_keys system.tables (aborts call).key call key with same | ⟨_, free, _⟩
    · exact same ▸ isRow
    · rw [free] at isRow
      cases isRow
      exact absurd rfl claimed
  refine ⟨fun other isHeld running => ?_, fun key row isRow claimed => ?_,
    fun key row isRow claimed => ?_, holds.putting⟩
  · change Function.update system.aborts call .ended other = _ ∨
      Function.update system.aborts call .ended other = _ at isHeld
    have different : other ≠ call := by
      rintro rfl
      rw [Function.update_self] at isHeld
      rcases isHeld with impossible | impossible
      · cases impossible
      · cases impossible
    rw [Function.update_of_ne different] at isHeld
    have isOwn := holds.held other isHeld running
    rcases releaseGcClaim_keys system.tables (aborts call).key call (aborts other).key with
      same | ⟨_, _, row, isRow, own⟩
    · exact same.trans isOwn
    · rw [isOwn] at isRow
      cases isRow
      exact absurd (Option.some.inj own) different
  · exact holds.recorded key row (before key row isRow claimed) claimed
  · exact holds.quiet key row (before key row isRow claimed) claimed

theorem step (holds : ClaimsHeld puts aborts system) {action : OwnershipAction}
    (taken : system.next puts aborts action = some next) : ClaimsHeld puts aborts next := by
  cases action with
  | register executionId =>
      cases taken
      refine holds.of_tables rfl rfl (fun other isConfirmed => ?_) (fun _ same => same)
        fun _ same => same
      exact (PutOwnership.confirmed_registerExecution executionId other).trans isConfirmed
  | confirm executionId now evidence =>
      rcases Option.map_eq_some_iff.mp taken with ⟨tables, result, rfl⟩
      rcases PutOwnership.confirmExecutionStopped_rest result with ⟨keys, attempts⟩
      exact holds.of_tables keys attempts
        (fun _ => PutOwnership.confirmed_confirmExecutionStopped result) (fun _ same => same)
        fun _ same => same
  | beginPut call fate =>
      unfold OwnershipSystem.next at taken
      dsimp only at taken
      split at taken
      · cases taken
        unfold OwnershipSystem.beginPut
        split
        · exact holds.movePut nofun
        · rename_i tables result
          rcases holds.begun result with ⟨begun, isAttempt⟩
          cases fate with
          | done =>
              refine ⟨begun.held, begun.recorded, begun.quiet, fun other isPutting => ?_⟩
              change Function.update system.puts call .putting other = _ at isPutting
              by_cases same : other = call
              · subst same
                exact isAttempt
              · rw [Function.update_of_ne same] at isPutting
                exact begun.putting other isPutting
          | lost => exact begun.movePut nofun
          | failed => exact holds.movePut nofun
      · cases taken
  | putSettles call =>
      unfold OwnershipSystem.next at taken
      dsimp only at taken
      split at taken
      · cases taken
        exact holds.movePut nofun
      · cases taken
  | settlePut call fate =>
      unfold OwnershipSystem.next at taken
      dsimp only at taken
      split at taken
      · rename_i isSettling
        cases taken
        cases fate with
        | done => exact (holds.settled isSettling.1).movePut nofun
        | lost => exact holds.settled isSettling.1
        | failed => exact holds
      · cases taken
  | claim call fate =>
      unfold OwnershipSystem.next at taken
      dsimp only at taken
      split at taken
      · cases taken
        unfold OwnershipSystem.claim
        split
        · rename_i tables result
          cases fate with
          | done => exact holds.claimed result .aborting
          | lost => exact holds.claimed result .ended
          | failed => exact holds.moveAbort (.inl rfl)
        · exact holds.moveAbort (.inl rfl)
      · cases taken
  | abortSettles call =>
      unfold OwnershipSystem.next at taken
      dsimp only at taken
      split at taken
      · rename_i isAborting
        cases taken
        exact holds.moveAbort (.inr ⟨rfl, isAborting.1⟩)
      · cases taken
  | release call fate =>
      unfold OwnershipSystem.next at taken
      dsimp only at taken
      split at taken
      · cases taken
        cases fate with
        | done => exact holds.released call
        | lost => exact holds.released call
        | failed => exact holds.moveAbort (.inl rfl)
      · cases taken

theorem of_reachable (reached : (ownershipMachine puts aborts).Reachable system) :
    ClaimsHeld puts aborts system :=
  reached.invariant (ClaimsHeld puts aborts) (fun _ start => initial start)
    fun _ _ _ _ holds taken => holds.step taken

end ClaimsHeld

theorem beginPut_refused {row : StoragePutKey} (isRow : system.tables.keys key = some row)
    (claimed : row.gcClaimId ≠ none) {call : Nat} {fate : Fate} (isKey : (puts call).key = key)
    (taken : system.next puts aborts (.beginPut call fate) = some next) :
    next.puts call = .ended ∧ next.tables.attempts = system.tables.attempts := by
  unfold OwnershipSystem.next at taken
  dsimp only at taken
  split at taken
  · cases taken
    unfold OwnershipSystem.beginPut
    split
    · exact ⟨Function.update_self _ _ _, rfl⟩
    · rename_i tables result
      have free := (PutOwnership.beginPut_eq_some result).1 row (isKey ▸ isRow)
      exact absurd free claimed
  · cases taken

theorem claim_keeps_writers_out (reached : (ownershipMachine puts aborts).Reachable system) :
    (∀ call, system.aborts call = .aborting →
      system.tables.confirmed (aborts call).executionId = false →
      (∀ put, system.puts put = .putting → (puts put).key = (aborts call).key →
        system.tables.confirmed (puts put).executionId = true) ∧
      (∀ attempt ∈ system.tables.attempts, attempt.storageKey = (aborts call).key →
        attempt.state = .active → system.tables.confirmed attempt.executionId = true) ∧
      (∃ attempt ∈ system.tables.attempts, attempt.storageKey = (aborts call).key) ∧
      ∃ row, system.tables.keys (aborts call).key = some row ∧ row.gcClaimId = some call) ∧
    (∀ key row, system.tables.keys key = some row → row.gcClaimId ≠ none →
      ∀ put fate next, (puts put).key = key →
        system.next puts aborts (.beginPut put fate) = some next →
        next.puts put = .ended ∧ next.tables.attempts = system.tables.attempts) ∧
    (∀ left right, (aborts left).key = (aborts right).key →
      (system.aborts left = .aborting ∨ system.aborts left = .releasing) →
      (system.aborts right = .aborting ∨ system.aborts right = .releasing) →
      system.tables.confirmed (aborts left).executionId = false →
      system.tables.confirmed (aborts right).executionId = false → left = right) ∧
    ∀ call fate next, system.next puts aborts (.release call fate) = some next → ∀ key,
      next.tables.keys key = system.tables.keys key ∨
        ∃ row, system.tables.keys key = some row ∧ row.gcClaimId = some call := by
  have holds := ClaimsHeld.of_reachable reached
  refine ⟨fun call isAborting running => ?_, ?_, ?_, ?_⟩
  · have isRow := holds.held call (.inl isAborting) running
    have quiet := holds.quiet _ _ isRow nofun
    refine ⟨fun put isPutting isKey => ?_, fun attempt isAttempt isKey isActive => ?_,
      holds.recorded _ _ isRow nofun, _, isRow, rfl⟩
    · exact (quiet _ (holds.putting put isPutting) isKey).resolve_left nofun
    · refine (quiet attempt isAttempt isKey).resolve_left fun isSettled => ?_
      rw [isActive] at isSettled
      cases isSettled
  · intro key row isRow claimed put fate next isKey taken
    exact beginPut_refused isRow claimed isKey taken
  · intro left right sameKey isLeft isRight leftRunning rightRunning
    have leftRow := holds.held left isLeft leftRunning
    have rightRow := holds.held right isRight rightRunning
    rw [sameKey, rightRow] at leftRow
    cases leftRow
    rfl
  · intro call fate next taken key
    unfold OwnershipSystem.next at taken
    dsimp only at taken
    split at taken
    · cases taken
      have either : (system.tables.releaseGcClaim (aborts call).key call).keys key =
          system.tables.keys key ∨
            ∃ row, system.tables.keys key = some row ∧ row.gcClaimId = some call :=
        (ClaimsHeld.releaseGcClaim_keys system.tables (aborts call).key call key).imp_right
          fun own => own.2.2
      cases fate with
      | done => exact either
      | lost => exact either
      | failed => exact .inl rfl
    · cases taken

namespace Small

def ownershipCall (executionId : Nat) (_ : Nat) : OwnershipCall := ⟨[0x6b], executionId⟩

def ownershipStart : OwnershipSystem where
  tables := ⟨fun _ => none, fun _ => none, []⟩
  puts := fun _ => .beginning
  aborts := fun _ => .claiming

end Small

/-- The write has settled, so the cleanup gets the claim and the next write is refused. -/
theorem claim_keeps_writers_out_settled :
    ∃ system : OwnershipSystem, system.aborts 0 = .aborting ∧ system.puts 0 = .ended ∧
      (∃ attempt ∈ system.tables.attempts, attempt.storageKey = [0x6b]) ∧
      ∀ next, system.next (Small.ownershipCall 0) (Small.ownershipCall 1) (.beginPut 1 .done) =
        some next → next.puts 1 = .ended := by
  have passes : (((ownershipMachine (Small.ownershipCall 0) (Small.ownershipCall 1)).trace
      Small.ownershipStart
      [.register 0, .register 1, .beginPut 0 .done, .putSettles 0, .settlePut 0 .done,
        .claim 0 .done]).any fun system =>
          system.aborts 0 == .aborting && system.puts 0 == .ended &&
            !system.tables.confirmed 1) = true := by decide +kernel
  have start : (ownershipMachine (Small.ownershipCall 0) (Small.ownershipCall 1)).Reachable
      Small.ownershipStart := .start ⟨fun _ => rfl, fun _ => rfl, rfl, fun _ => rfl, fun _ => rfl⟩
  rcases Machine.exists_reachable start passes with ⟨system, reached, test⟩
  rw [Bool.and_eq_true, Bool.and_eq_true, beq_iff_eq, beq_iff_eq, Bool.not_eq_true'] at test
  rcases claim_keeps_writers_out reached with ⟨aborting, refused, _⟩
  rcases aborting 0 test.1.1 test.2 with ⟨_, _, recorded, row, isRow, own⟩
  refine ⟨system, test.1.1, test.1.2, recorded, fun next taken => ?_⟩
  exact (refused _ row isRow (by simp [own]) 1 .done next rfl taken).1

end Storix
