import Storix.Invariants.Finalize
import Storix.Results.Tables

/-! # Completing an upload session

Whatever calls of `complete` do at the same time, a session changes the tree at most once,
and its file holds the bodies that were uploaded for its parts. -/

namespace Storix

open Foundation

namespace FinalizeSystem

variable {host : FinalizeHost} {system : FinalizeSystem}

/-- A session that was found closed keeps its row for as long as the row is there, and one that
was answered gives the same answer to every later call, which changes nothing else. -/
theorem answers_stand {after : FinalizeSystem} {session : UploadSession}
    (reached : (finalizeMachine host).Reachable system)
    (isSession : session ∈ system.tables.sessions) (isClosed : session.state.terminal = true)
    (run : (finalizeMachine host).Runs system after) :
    (∀ row ∈ after.tables.sessions, row.id = session.id → row = session) ∧
      (session.state = .completed ∨ session.state = .failed → session ∈ after.tables.sessions →
        after.tables.active session.namespaceId = true →
          ∃ response, replay session = some response ∧
            ∀ worker token leaseDurationMs now, after.workers worker = .idle →
              token ∉ after.tokens →
                after.next (.claim worker session.namespaceId session.id token leaseDurationMs now :
                  FinalizeAction host) =
                    some (after.setWorker worker (.finished (some response)))) := by
  have sound : Sound host (fun row => row = session) (fun _ => False) after := by
    apply sound_of_run reached _ (fun _ isFalse => isFalse.elim) run
    intro row isFinal
    rw [isFinal]
    exact ⟨isSession, isClosed⟩
  have kept := (sound.kept session rfl).2.2
  refine ⟨kept, ?_⟩
  intro isAnswered isThere isActive
  rcases Option.isSome_iff_exists.mp (sound.answered session isThere isAnswered) with
    ⟨response, isResponse⟩
  refine ⟨response, isResponse, ?_⟩
  intro worker token leaseDurationMs now isIdle isNew
  have found : (after.tables.sessions.find? fun row =>
      row.isRow session.namespaceId session.id) = some session := by
    cases isFound : after.tables.sessions.find? fun row =>
        row.isRow session.namespaceId session.id with
    | none =>
        have absent := List.find?_eq_none.mp isFound session isThere
        simp [UploadSession.isRow] at absent
    | some row =>
        have isRow := List.find?_some isFound
        rw [UploadSession.isRow, Bool.and_eq_true, beq_iff_eq] at isRow
        rw [kept row (List.mem_of_find?_eq_some isFound) isRow.1]
  have isComplete : after.tables.claimFinalize session.namespaceId session.id now =
      .complete session := by
    rw [UploadTables.claimFinalize, found]
    simp [isActive, isAnswered]
  simp [FinalizeSystem.next, isNew, isIdle, FinalizeSystem.claim, isComplete, isResponse]

/-! ## Superseded calls -/

def callOf (worker : Nat) : FinalizeAction host → Bool
  | .renew caller _ _ => caller == worker
  | .confirm caller _ _ => caller == worker
  | .failFinalize caller _ _ _ => caller == worker
  | .finalize caller _ _ _ _ _ => caller == worker
  | .release caller _ _ => caller == worker
  | _ => false

structure Untouched (system after : FinalizeSystem) : Prop where
  sessions : after.tables.sessions = system.tables.sessions
  parts : after.tables.parts = system.tables.parts
  databases : after.databases = system.databases
  finalized : after.finalized = system.finalized

theorem Untouched.setWorker {after : FinalizeSystem} (untouched : Untouched system after)
    (worker : Nat) (phase : FinalizePhase) : Untouched system (after.setWorker worker phase) :=
  ⟨untouched.sessions, untouched.parts, untouched.databases, untouched.finalized⟩

theorem Untouched.refl (system : FinalizeSystem) : Untouched system system :=
  ⟨rfl, rfl, rfl, rfl⟩

/-- No session is `FINALIZING` under the token. -/
def Lost (system : FinalizeSystem) (token : Nat) : Prop :=
  ∀ session ∈ system.tables.sessions, session.state = .finalizing → session.leaseToken ≠ some token

variable {token : Nat}

theorem Lost.holds (lost : Lost system token) (namespaceId sessionId : Nat)
    {session : UploadSession} (member : session ∈ system.tables.sessions) :
    session.holdsLease namespaceId sessionId token = false := by
  rw [← Bool.not_eq_true]
  intro holds
  rw [UploadSession.holdsLease, Bool.and_eq_true, Bool.and_eq_true, beq_iff_eq, beq_iff_eq] at holds
  exact lost session member holds.1.2 holds.2

theorem Lost.updateSessions (lost : Lost system token) (namespaceId sessionId : Nat)
    (test : UploadSession → Bool) (transform : UploadSession → UploadSession) :
    Untouched system { system with
      tables := system.tables.updateSessions (fun session =>
        session.holdsLease namespaceId sessionId token && test session) transform } := by
  refine ⟨?_, rfl, rfl, rfl⟩
  apply updated_of_false
  intro session member
  rw [lost.holds namespaceId sessionId member, Bool.false_and]

theorem Lost.renewFinalize (lost : Lost system token)
    (namespaceId sessionId leaseDurationMs now : Nat) :
    Untouched system { system with
      tables := system.tables.renewFinalize namespaceId sessionId token leaseDurationMs now } :=
  lost.updateSessions namespaceId sessionId _ _

theorem Lost.releaseFinalize (lost : Lost system token) (namespaceId sessionId : Nat)
    (code : JsString) (failedAt : Nat) :
    Untouched system { system with
      tables := system.tables.releaseFinalize namespaceId sessionId token code failedAt } := by
  refine ⟨?_, rfl, rfl, rfl⟩
  apply updated_of_false
  intro session member
  exact lost.holds namespaceId sessionId member

theorem Lost.any_holds (lost : Lost system token) (namespaceId sessionId now : Nat) :
    (system.tables.sessions.any fun session =>
      session.holdsLease namespaceId sessionId token && session.leaseLive now) = false := by
  rw [List.any_eq_false]
  intro session member
  rw [lost.holds namespaceId sessionId member, Bool.false_and]
  exact Bool.false_ne_true

theorem Lost.failFinalize (lost : Lost system token) {namespaceId sessionId now : Nat}
    {body requestId : JsString} {written : UploadTables × Bool}
    (isWritten : system.tables.transact (.failFinalize namespaceId sessionId token body requestId
      now) = some written) :
    written.2 = false ∧ Untouched system { system with tables := written.1 } := by
  have rows := UploadTables.ensureUsage_rows system.tables namespaceId
  have noRow := lost.any_holds namespaceId sessionId now
  rw [← rows.1] at noRow
  change system.tables.write (.failSession _ _ _ _ _ _) = some written at isWritten
  dsimp only [UploadTables.write] at isWritten
  rw [UploadTables.updateSession, noRow] at isWritten
  cases isWritten
  exact ⟨rfl, rows.1, rows.2.1, rfl, rfl⟩

theorem Lost.finalizeTransaction {claim : FinalizeClaim} (lost : Lost system claim.token)
    (leaseDurationMs : Nat) (storageKey requestId : JsString) (content : Bytes)
    (encryptionIv : Option (List UInt8)) (now : Nat) :
    system.finalizeTransaction host leaseDurationMs claim storageKey content encryptionIv requestId
      now = none := by
  cases result : system.finalizeTransaction host leaseDurationMs claim storageKey content
      encryptionIv requestId now with
  | none => rfl
  | some pair =>
      rcases finalizeTransaction_cases result with ⟨_, written, _, isWritten, _⟩
      rcases Option.bind_eq_some_iff.mp isWritten with ⟨planned, decided, _⟩
      dsimp only [UploadOperation.decide] at decided
      rw [lost.any_holds, if_neg Bool.false_ne_true] at decided
      cases decided

/-- A call whose claim was taken away writes nothing, at no later time of the run. -/
theorem superseded_call_writes_nothing {after last : FinalizeSystem} {worker : Nat}
    {claim : FinalizeClaim} (reached : (finalizeMachine host).Reachable system)
    (isClaim : (system.workers worker).claim = some claim) (lost : Lost system claim.token)
    (run : (finalizeMachine host).Runs system after)
    (stillClaim : (after.workers worker).claim = some claim) {action : FinalizeAction host}
    (isCall : callOf worker action = true) (taken : after.next action = some last) :
    Untouched after last := by
  have isDrawn := ((FinalizeSystem.sound reached).claims worker claim isClaim).token
  have sound : Sound host (fun _ => False) (fun token => token = claim.token) after := by
    apply sound_of_run reached (fun _ isFalse => isFalse.elim) _ run
    intro token isLost
    rw [isLost]
    exact ⟨isDrawn, lost⟩
  have stillLost : Lost after claim.token := (sound.lost claim.token rfl).2
  -- The claim that the step reads is the one that was lost.
  have same : ∀ {phase : FinalizePhase} {held : FinalizeClaim}, after.workers worker = phase →
      phase.claim = some held → held = claim := by
    intro phase held isPhase isHeld
    rw [← isPhase, stillClaim] at isHeld
    exact (Option.some.inj isHeld).symm
  cases action with
  | renew caller leaseDurationMs now =>
      rw [beq_iff_eq.mp isCall] at taken
      rcases Option.map_eq_some_iff.mp taken with ⟨held, isHeld, rfl⟩
      rw [same rfl isHeld]
      exact stillLost.renewFinalize _ _ _ _
  | confirm caller leaseDurationMs now =>
      rw [beq_iff_eq.mp isCall] at taken
      dsimp only [FinalizeSystem.next] at taken
      split at taken
      · rename_i held storageKey content isPhase
        cases taken
        rw [same isPhase rfl, FinalizeSystem.confirm, if_pos (stillLost.any_holds _ _ _)]
        exact (Untouched.refl after).setWorker _ _
      · cases taken
  | failFinalize caller requestId now fate =>
      rw [beq_iff_eq.mp isCall] at taken
      dsimp only [FinalizeSystem.next] at taken
      split at taken
      · rename_i held isPhase
        cases taken
        rw [same isPhase rfl]
        unfold FinalizeSystem.failFinalize
        dsimp only
        split
        · rename_i isWritten
          have applied := (stillLost.failFinalize isWritten).1
          cases applied
        · rename_i isWritten
          exact (stillLost.failFinalize isWritten).2.setWorker _ _
        · exact (Untouched.refl after).setWorker _ _
      · cases taken
  | finalize caller leaseDurationMs encryptionIv requestId now fate =>
      rw [beq_iff_eq.mp isCall] at taken
      dsimp only [FinalizeSystem.next] at taken
      split at taken
      · rename_i held storageKey content isPhase
        cases taken
        rw [same isPhase rfl]
        unfold FinalizeSystem.finalize
        rw [stillLost.finalizeTransaction]
        cases fate with
        | done => exact (Untouched.refl after).setWorker _ _
        | lost => exact (Untouched.refl after).setWorker _ _
        | failed => exact (Untouched.refl after).setWorker _ _
      · cases taken
  | release caller code failedAt =>
      rw [beq_iff_eq.mp isCall] at taken
      dsimp only [FinalizeSystem.next] at taken
      split at taken
      · rename_i held isPhase
        cases taken
        rw [same isPhase rfl]
        exact (stillLost.releaseFinalize _ _ _ _).setWorker _ _
      · cases taken
  | _ => cases isCall

/-! ## A session of two parts -/

def plainHost : FinalizeHost where
  toHost := Host.counting
  sha256 := fun text => text.map fun byte => byte.toUInt16
  completedBody := fun _ _ => [0x6f, 0x6b]
  mismatchBody := fun requestId => requestId

def empty : FinalizeSystem where
  tables := ⟨[], [], [], ⟨0, 0⟩, [], fun _ => true⟩
  databases := fun _ => createWithRoot Host.counting 0 Small.settings
  workers := fun _ => .idle
  bodies := fun _ => none
  sessionIds := []
  tokens := []
  observed := []
  finalized := []

theorem empty_initial : (empty).Initial plainHost :=
  ⟨rfl, rfl, rfl, rfl, rfl, fun _ => .start 0 Small.settings, fun _ => rfl, rfl, rfl, rfl, rfl⟩

/-- Two calls complete a session of two parts. The answer to the first is lost after its claim
ended, and the second finds the session completed. -/
def twoParts : List (FinalizeAction plainHost) :=
  let caps : UploadPolicyCaps := ⟨⟨100, 10⟩, ⟨100, 10⟩⟩
  [.create
      { id := 1, namespaceId := 7, scope := [], creationKey := [], fingerprint := [],
        targetPath := [0x2f, 0x66], sizeBytes := 3, sha256 := none, mimeType := [],
        condition := .ifAbsent none, partSizeBytes := 2, partCount := 2,
        expiresAt := 1000, maxExpiresAt := 1000, requestId := none } caps 2 1000 1000 0,
    .reserve 1 0 [0x61] [1, 2] caps 60 0,
    .commitPart 1 0 [0x61] none 1000 0,
    .reserve 1 1 [0x62] [3] caps 60 0,
    .commitPart 1 1 [0x62] none 1000 0,
    .claim 0 7 1 50 1000 1,
    .read 0 [0x6b] fun key => if key = [0x61] then some [[1], [2]] else some [[3]],
    .confirm 0 1000 2,
    .finalize 0 1000 none [0x72] 3 .lost,
    .claim 1 7 1 51 1000 4]

theorem answers_stand_small : ∃ system session, (finalizeMachine plainHost).Reachable system ∧
    session ∈ system.tables.sessions ∧ session.state = .completed ∧
      ∀ row ∈ system.tables.sessions, row.id = session.id → row = session := by
  have passes : ((finalizeMachine plainHost).trace empty twoParts).any
      (fun system => system.tables.sessions.any fun session => session.state == .completed) =
        true := by
    decide +kernel
  rcases Machine.exists_reachable (.start empty_initial) passes with ⟨system, reached, completed⟩
  rcases List.any_eq_true.mp completed with ⟨session, isSession, isCompleted⟩
  rw [beq_iff_eq] at isCompleted
  have isClosed : session.state.terminal = true := by
    rw [isCompleted]
    rfl
  exact ⟨system, session, reached, isSession, isCompleted,
    (answers_stand reached isSession isClosed .refl).1⟩

def claimedTwice : List (FinalizeAction plainHost) :=
  twoParts.take 5 ++
    [.claim 0 7 1 50 10 1, .recoverStaleFinalizingLeases [1] 100, .claim 1 7 1 51 1000 101]

theorem superseded_call_writes_nothing_small : ∃ system last,
    (finalizeMachine plainHost).Reachable system ∧
      system.next (.renew 0 1000 102 : FinalizeAction plainHost) = some last ∧
        Untouched system last := by
  have passes : ((finalizeMachine plainHost).trace empty claimedTwice).any (fun system =>
      ((system.workers 0).claim.any fun claim => claim.token == 50) &&
        system.tables.sessions.all fun session => session.leaseToken != some 50) = true := by
    decide +kernel
  rcases Machine.exists_reachable (.start empty_initial) passes with ⟨system, reached, facts⟩
  rw [Bool.and_eq_true] at facts
  cases isClaim : (system.workers 0).claim with
  | none =>
      rw [isClaim] at facts
      cases facts.1
  | some claim =>
      have isToken : claim.token = 50 := by
        have isToken := facts.1
        rw [isClaim] at isToken
        exact beq_iff_eq.mp isToken
      have lost : Lost system claim.token := by
        intro session isSession _ isHeld
        have notHeld := List.all_eq_true.mp facts.2 session isSession
        rw [isHeld, isToken] at notHeld
        cases notHeld
      have isTaken : system.next (.renew 0 1000 102 : FinalizeAction plainHost) =
          some _ := congrArg (Option.map _) isClaim
      exact ⟨system, _, reached, isTaken,
        superseded_call_writes_nothing reached isClaim lost .refl isClaim rfl isTaken⟩

end FinalizeSystem

end Storix
