import Storix.Invariants.UploadWrites
import Storix.Vfs.UploadSessionFinalize

/-! # What a transaction does to the rows of a session

A closed session never changes. A session is `FINALIZING` under a token only from the claim
that drew it, and while it is, its stored parts stay as they are. -/

namespace Storix

open Foundation

variable {tables next : UploadTables} {namespaceId : Nat} {claims : Option Nat} {completes : Bool}

def UploadSession.plan (session : UploadSession) :
    Nat × Nat × JsString × Nat × Option JsString × JsString × ContentPrecondition × Nat × Nat :=
  (session.id, session.namespaceId, session.targetPath, session.sizeBytes, session.sha256,
    session.mimeType, session.condition, session.partSizeBytes, session.partCount)

/-- What one transaction can do to a session row: claim it under the named token, complete it
where that is allowed, and what every transaction may do. -/
structure SessionStep (claims : Option Nat) (completes : Bool)
    (old new : UploadSession) : Prop where
  plan : new.plan = old.plan
  closed : old.state.terminal = true → new = old
  token : new.state = .finalizing →
    old.state = .finalizing ∧ old.leaseToken = new.leaseToken ∨
      new.leaseToken = claims ∧ claims.isSome = true
  completed : new.state = .completed → new = old ∨ completes = true
  answered : new.state = .completed ∨ new.state = .failed →
    new = old ∨ (FinalizeSystem.replay new).isSome = true

theorem SessionStep.refl (session : UploadSession) :
    SessionStep claims completes session session where
  plan := rfl
  closed := fun _ => rfl
  token := fun isFinalizing => .inl ⟨isFinalizing, rfl⟩
  completed := fun _ => .inl rfl
  answered := fun _ => .inl rfl

namespace UploadTables

def storedOf (tables : UploadTables) (sessionId : Nat) : List UploadPart :=
  tables.parts.filter fun part => part.sessionId == sessionId && part.state == .stored

theorem storedParts_congr {sessionId : Nat}
    (same : next.storedOf sessionId = tables.storedOf sessionId) :
    next.storedParts sessionId = tables.storedParts sessionId := by
  unfold storedParts
  unfold storedOf at same
  rw [same]

/-- What a transaction that neither creates a session, nor reserves nor commits a part, does
to the tables. -/
structure Advance (claims : Option Nat) (completes : Bool) (tables next : UploadTables) : Prop where
  sessions : ∀ new ∈ next.sessions, ∃ old ∈ tables.sessions, SessionStep claims completes old new
  parts : ∀ new ∈ next.parts, ∃ old ∈ tables.parts, old.stagingKey = new.stagingKey ∧
    (new.state = .stored → new = old)
  frozen : ∀ session ∈ tables.sessions, session.state = .finalizing →
    next.storedOf session.id = tables.storedOf session.id

theorem Advance.refl (tables : UploadTables) : Advance claims completes tables tables where
  sessions := fun session member => ⟨session, member, .refl session⟩
  parts := fun part member => ⟨part, member, rfl, fun _ => rfl⟩
  frozen := fun _ _ _ => rfl

theorem Advance.ofRows (advance : Advance claims completes tables next)
    {before after : UploadTables}
    (sameSessions : before.sessions = tables.sessions) (sameParts : before.parts = tables.parts)
    (nextSessions : after.sessions = next.sessions) (nextParts : after.parts = next.parts) :
    Advance claims completes before after where
  sessions := by
    rw [sameSessions, nextSessions]
    exact advance.sessions
  parts := by
    rw [sameParts, nextParts]
    exact advance.parts
  frozen := by
    unfold storedOf
    rw [sameSessions, sameParts, nextParts]
    exact advance.frozen

theorem Advance.updateSessions {test : UploadSession → Bool}
    {transform : UploadSession → UploadSession}
    (steps : ∀ session ∈ tables.sessions, test session = true →
      SessionStep claims completes session (transform session)) :
    Advance claims completes tables (tables.updateSessions test transform) where
  sessions := by
    intro new member
    rcases mem_updated member with ⟨old, isOld, passes, rfl⟩ | ⟨isOld, _⟩
    · exact ⟨old, isOld, steps old isOld passes⟩
    · exact ⟨new, isOld, .refl new⟩
  parts := fun part member => ⟨part, member, rfl, fun _ => rfl⟩
  frozen := fun _ _ _ => rfl

/-- An UPDATE of parts that neither starts nor ends at `STORED`, but in sessions that are not
being finalized. -/
theorem Advance.updateParts {test : UploadPart → Bool} {transform : UploadPart → UploadPart}
    (keys : ∀ part, (transform part).stagingKey = part.stagingKey)
    (leaves : ∀ part ∈ tables.parts, test part = true → (transform part).state ≠ .stored)
    (outside : ∀ part ∈ tables.parts, test part = true → part.state = .stored →
      ∀ session ∈ tables.sessions, session.id = part.sessionId → session.state ≠ .finalizing) :
    Advance claims completes tables (tables.updateParts test transform) where
  sessions := fun session member => ⟨session, member, .refl session⟩
  parts := by
    intro new member
    rcases mem_updated member with ⟨old, isOld, passes, rfl⟩ | ⟨isOld, _⟩
    · exact ⟨old, isOld, (keys old).symm, fun stored => absurd stored (leaves old isOld passes)⟩
    · exact ⟨new, isOld, rfl, fun _ => rfl⟩
  frozen := by
    intro session isSession isFinalizing
    refine filter_updated fun part member passes => ?_
    have after := leaves part member passes
    refine ⟨?_, by simp [after]⟩
    by_contra kept
    rw [Bool.not_eq_false, Bool.and_eq_true, beq_iff_eq, beq_iff_eq] at kept
    exact outside part member passes kept.2 session isSession kept.1.symm isFinalizing

theorem Advance.deleteParts {test : UploadPart → Bool}
    (outside : ∀ part ∈ tables.parts, test part = true → part.state ≠ .stored) :
    Advance claims completes tables (tables.deleteParts test) where
  sessions := fun session member => ⟨session, member, .refl session⟩
  parts := fun part member => ⟨part, List.mem_of_mem_filter member, rfl, fun _ => rfl⟩
  frozen := by
    intro session _ _
    refine filter_remaining fun part member passes => ?_
    simp [outside part member passes]

theorem Advance.deleteSessions (rows : Rows tables) {test : UploadSession → Bool}
    (closed : ∀ session ∈ tables.sessions, test session = true → session.state.terminal = true) :
    Advance claims completes tables (tables.deleteSessions test) where
  sessions := fun session member => ⟨session, List.mem_of_mem_filter member, .refl session⟩
  parts := fun part member => ⟨part, List.mem_of_mem_filter member, rfl, fun _ => rfl⟩
  frozen := by
    intro session isSession isFinalizing
    refine filter_remaining fun part _ isGone => ?_
    rcases List.mem_map.mp (List.contains_iff_mem.mp isGone) with ⟨other, isIn, sameId⟩
    rcases List.mem_filter.mp isIn with ⟨isOther, passes⟩
    by_contra kept
    rw [Bool.not_eq_false, Bool.and_eq_true, beq_iff_eq, beq_iff_eq] at kept
    have same := List.inj_on_of_nodup_map rows.sessionIds isOther isSession (sameId.trans kept.1)
    have isClosed := closed other isOther passes
    rw [same, isFinalizing] at isClosed
    cases isClosed

end UploadTables

/-! ## Writes -/

/-- A step from a session that is not closed, to one that is neither `FINALIZING` nor closed. -/
theorem SessionStep.reopened {old new : UploadSession} (plan : new.plan = old.plan)
    (isLive : old.state.terminal = false) (isOpen : new.state = .opened) :
    SessionStep claims completes old new where
  plan := plan
  closed := fun isClosed => by rw [isLive] at isClosed; cases isClosed
  token := fun isFinalizing => by rw [isOpen] at isFinalizing; cases isFinalizing
  completed := fun isCompleted => by rw [isOpen] at isCompleted; cases isCompleted
  answered := fun isAnswered => by
    rw [isOpen] at isAnswered
    rcases isAnswered with isAnswered | isAnswered
    · cases isAnswered
    · cases isAnswered

theorem SessionStep.closing {old new : UploadSession} (plan : new.plan = old.plan)
    (isLive : old.state.terminal = false) (next : TerminalTransition)
    (isClosed : new.state = next.state) : SessionStep claims completes old new where
  plan := plan
  closed := fun wasClosed => by rw [isLive] at wasClosed; cases wasClosed
  token := fun isFinalizing => by rw [isClosed] at isFinalizing; cases next <;> cases isFinalizing
  completed := fun isCompleted => by rw [isClosed] at isCompleted; cases next <;> cases isCompleted
  answered := fun isAnswered => by
    rw [isClosed] at isAnswered
    rcases isAnswered with isAnswered | isAnswered
    · cases next <;> cases isAnswered
    · cases next <;> cases isAnswered

theorem SessionStep.answering {old new : UploadSession} (plan : new.plan = old.plan)
    (isLive : old.state.terminal = false)
    (ends : new.state = .failed ∨ new.state = .completed ∧ completes = true)
    (hasAnswer : (FinalizeSystem.replay new).isSome = true) :
    SessionStep claims completes old new where
  plan := plan
  closed := fun wasClosed => by rw [isLive] at wasClosed; cases wasClosed
  token := fun isFinalizing => by
    rcases ends with isFailed | ⟨isCompleted, _⟩
    · rw [isFailed] at isFinalizing
      cases isFinalizing
    · rw [isCompleted] at isFinalizing
      cases isFinalizing
  completed := fun isCompleted => by
    rcases ends with isFailed | ⟨_, allowed⟩
    · rw [isFailed] at isCompleted
      cases isCompleted
    · exact .inr allowed
  answered := fun _ => .inr hasAnswer

/-- What keeps a planned write from the stored parts of a session that is being finalized. -/
def UploadWrite.Quiet (claims : Option Nat) (completes : Bool) (tables : UploadTables) :
    UploadWrite → Prop
  | .insertSession _ => False
  | .insertPart _ _ _ => False
  | .storePart _ _ _ _ _ _ _ _ => False
  | .cleanUpPart _ sessionId partIndex =>
      ∀ part ∈ tables.parts, part.isRow sessionId partIndex = true → part.state ≠ .stored
  | .removePart _ sessionId partIndex _ =>
      ∀ part ∈ tables.parts, part.isRow sessionId partIndex = true → part.state ≠ .stored
  | .deletePart _ sessionId _ _ expectedState _ _ => expectedState = .stored →
      ∀ session ∈ tables.sessions, session.id = sessionId → session.state ≠ .finalizing
  | .claimSession _ _ token _ _ => claims = some token
  | .completeSession _ _ _ _ _ _ _ => completes = true
  | _ => True

namespace UploadTables

theorem Advance.updateSession {test : UploadSession → Bool}
    {transform : UploadSession → UploadSession}
    (isUpdated : tables.updateSession test transform = some next)
    (steps : ∀ session ∈ tables.sessions, test session = true →
      SessionStep claims completes session (transform session)) :
    Advance claims completes tables next := by
  unfold UploadTables.updateSession at isUpdated
  split at isUpdated
  · cases isUpdated
    exact .updateSessions steps
  · cases isUpdated

theorem Advance.changeUsage (advance : Advance claims completes tables next) (namespaceId : Nat)
    (activeSessions stagedBytes : Int) :
    Advance claims completes tables (next.changeUsage namespaceId activeSessions stagedBytes) :=
  advance.ofRows rfl rfl rfl rfl

theorem Advance.ensured (tables : UploadTables) (namespaceId : Nat)
    (advance : Advance claims completes (tables.ensureUsage namespaceId) next) :
    Advance claims completes tables next :=
  advance.ofRows (ensureUsage_rows tables namespaceId).1.symm
    (ensureUsage_rows tables namespaceId).2.1.symm rfl rfl

theorem holdsLease_live {session : UploadSession} {sessionId token : Nat}
    (holds : session.holdsLease namespaceId sessionId token = true) :
    session.state.terminal = false := by
  unfold UploadSession.holdsLease at holds
  rw [Bool.and_eq_true, Bool.and_eq_true, beq_iff_eq] at holds
  rw [holds.1.2]
  rfl

theorem isOpen_live {session : UploadSession} {now : Nat} (isOpen : session.isOpen now = true) :
    session.state = .opened := by
  unfold UploadSession.isOpen at isOpen
  rw [Bool.and_eq_true, Bool.and_eq_true, beq_iff_eq] at isOpen
  exact isOpen.1.1

theorem live_of_opened {session : UploadSession} (isOpen : session.state = .opened) :
    session.state.terminal = false := by
  rw [isOpen]
  rfl

theorem Advance.write (rows : Rows tables) {planned : UploadWrite} {written : UploadTables × Bool}
    (quiet : planned.Quiet claims completes tables)
    (isWritten : tables.write planned = some written) :
    Advance claims completes tables written.1 := by
  cases planned with
  | insertSession session => exact quiet.elim
  | insertPart namespaceId caps part => exact quiet.elim
  | storePart namespaceId sessionId partIndex stagingKey digest encryptionIv expiresAt now =>
      exact quiet.elim
  | nothing namespaceId =>
      cases isWritten
      exact .ensured tables namespaceId (.refl _)
  | retirePart namespaceId sessionId partIndex stagingKey sizeBytes now =>
      refine .ensured tables namespaceId ?_
      dsimp only [UploadTables.write] at isWritten
      split at isWritten
      · cases isWritten
        exact .refl _
      · split at isWritten
        · cases isWritten
        · cases isWritten
          refine Advance.ofRows (Advance.deleteParts ?_) rfl rfl rfl rfl
          intro part _ passes stored
          simp [stored] at passes
  | settleTombstone namespaceId stagingKey now =>
      cases isWritten
      exact .ensured tables namespaceId ((Advance.refl _).ofRows rfl rfl rfl rfl)
  | refundTombstone namespaceId stagingKey sizeBytes =>
      cases isWritten
      exact .ensured tables namespaceId ((Advance.refl _).ofRows rfl rfl rfl rfl)
  | markTombstone namespaceId stagingKey now =>
      cases isWritten
      exact .ensured tables namespaceId ((Advance.refl _).ofRows rfl rfl rfl rfl)
  | rechargePart namespaceId sessionId partIndex stagingKey sizeBytes =>
      refine .ensured tables namespaceId ?_
      dsimp only [UploadTables.write] at isWritten
      split at isWritten
      · cases isWritten
        exact .refl _
      · cases isWritten
        refine Advance.changeUsage (Advance.updateParts ?_ ?_ ?_) _ _ _
        · intro part
          rfl
        · intro part _ _ isStored
          cases isStored
        · intro part _ passes isStored
          simp [isStored] at passes
  | cleanUpPart namespaceId sessionId partIndex =>
      cases isWritten
      refine .ensured tables namespaceId (Advance.updateParts (fun _ => rfl) ?_ ?_)
      · intro part _ _ isStored
        cases isStored
      · intro part member passes isStored
        exact absurd isStored
          (quiet part ((ensureUsage_rows tables namespaceId).2.1 ▸ member) passes)
  | removePart namespaceId sessionId partIndex sizeBytes =>
      cases isWritten
      refine .ensured tables namespaceId (Advance.changeUsage (Advance.deleteParts ?_) _ _ _)
      intro part member passes
      exact quiet part ((ensureUsage_rows tables namespaceId).2.1 ▸ member) passes
  | deletePart namespaceId sessionId partIndex stagingKey expectedState sizeBytes now =>
      refine .ensured tables namespaceId ?_
      dsimp only [UploadTables.write] at isWritten
      split at isWritten
      · cases isWritten
        exact .refl _
      · cases isWritten
        refine Advance.changeUsage (Advance.updateParts ?_ ?_ ?_) _ _ _
        · intro part
          rfl
        · intro part _ _ isStored
          cases isStored
        · intro part _ passes isStored session isSession sameId
          rw [Bool.and_eq_true, Bool.and_eq_true, beq_iff_eq, beq_iff_eq] at passes
          have sameSession : part.sessionId = sessionId :=
            congrArg Prod.fst (partKey_of_isRow passes.1.1)
          exact quiet (passes.2.symm.trans isStored) session
            ((ensureUsage_rows tables namespaceId).1 ▸ isSession) (sameId.trans sameSession)
  | closeSession namespaceId sessionId transition now =>
      refine .ensured tables namespaceId ?_
      dsimp only [UploadTables.write] at isWritten
      split at isWritten
      · cases isWritten
        exact .refl _
      · rename_i updated isUpdated
        cases isWritten
        refine Advance.changeUsage (Advance.updateSession isUpdated ?_) _ _ _
        intro session _ passes
        rw [Bool.and_eq_true, Bool.and_eq_true, beq_iff_eq] at passes
        exact .closing rfl (live_of_opened passes.1.2) transition rfl
  | claimSession namespaceId sessionId token leaseExpiresAt now =>
      refine .ensured tables namespaceId ?_
      dsimp only [UploadTables.write] at isWritten
      split at isWritten
      · cases isWritten
        exact .refl _
      · rename_i updated isUpdated
        cases isWritten
        refine Advance.updateSession isUpdated fun session _ passes => ?_
        rw [Bool.and_eq_true] at passes
        have isLive := live_of_opened (isOpen_live passes.2)
        refine ⟨rfl, ?_, ?_, ?_, ?_⟩
        · intro isClosed
          rw [isLive] at isClosed
          cases isClosed
        · intro _
          rw [quiet]
          exact .inr ⟨rfl, rfl⟩
        · intro isCompleted
          cases isCompleted
        · intro isAnswered
          rcases isAnswered with isAnswered | isAnswered
          · cases isAnswered
          · cases isAnswered
  | completeSession namespaceId sessionId token status body requestId now =>
      refine .ensured tables namespaceId ?_
      rcases Option.map_eq_some_iff.mp isWritten with ⟨updated, isUpdated, rfl⟩
      refine Advance.changeUsage (Advance.updateSession isUpdated ?_) _ _ _
      intro session _ passes
      exact .answering rfl (holdsLease_live passes) (.inr ⟨rfl, quiet⟩) rfl
  | failSession namespaceId sessionId token body requestId now =>
      refine .ensured tables namespaceId ?_
      dsimp only [UploadTables.write] at isWritten
      split at isWritten
      · cases isWritten
        exact .refl _
      · rename_i updated isUpdated
        cases isWritten
        refine Advance.changeUsage (Advance.updateSession isUpdated ?_) _ _ _
        intro session _ passes
        rw [Bool.and_eq_true] at passes
        exact .answering rfl (holdsLease_live passes.1) (.inl rfl) rfl
  | renewSession namespaceId sessionId expiresAt now =>
      refine .ensured tables namespaceId ?_
      dsimp only [UploadTables.write] at isWritten
      split at isWritten
      · cases isWritten
        exact .refl _
      · rename_i updated isUpdated
        cases isWritten
        refine Advance.updateSession isUpdated fun session _ passes => ?_
        rw [Bool.and_eq_true] at passes
        have isOpen := isOpen_live passes.2
        exact .reopened rfl (live_of_opened isOpen) isOpen
  | deleteSettledSessions namespaceId =>
      cases isWritten
      refine .ensured tables namespaceId (Advance.deleteSessions ?_ ?_)
      · exact rows.ofFaces (congrArg _ (ensureUsage_rows tables namespaceId).1)
          (ensureUsage_rows tables namespaceId).2.1 (ensureUsage_rows tables namespaceId).2.2.1
      · intro session _ passes
        rw [Bool.and_eq_true, Bool.and_eq_true] at passes
        exact passes.1.2

/-! ## Transactions -/

theorem after_cases (tables : UploadTables) (operation : UploadOperation) :
    tables.after operation = tables ∨ ∃ planned written, operation.decide tables = some planned ∧
      tables.write planned = some written ∧ tables.after operation = written.1 := by
  unfold after transact
  cases decided : operation.decide tables with
  | none => exact .inl rfl
  | some planned =>
      rw [Option.bind_some]
      cases isWritten : tables.write planned with
      | none => exact .inl rfl
      | some written => exact .inr ⟨planned, written, rfl, isWritten, rfl⟩

theorem Books.after (books : Books tables) (operation : UploadOperation) :
    Books (tables.after operation) := by
  rcases tables.after_cases operation with same | ⟨planned, written, decided, isWritten, same⟩
  · exact same.symm ▸ books
  · exact same.symm ▸ books.write (operation.decide_fits books.toRows decided) isWritten

theorem Advance.after (rows : Rows tables) {operation : UploadOperation}
    (quiet : ∀ planned, operation.decide tables = some planned →
      planned.Quiet claims completes tables) :
    Advance claims completes tables (tables.after operation) := by
  rcases tables.after_cases operation with same | ⟨planned, written, decided, isWritten, same⟩
  · exact same.symm ▸ .refl tables
  · exact same.symm ▸ .write rows (quiet planned decided) isWritten

end UploadTables

theorem UploadOperation.quiet_release (rows : tables.Rows) {sessionId partIndex now : Nat}
    {objectMayExist : Bool} {stagingKey : Option JsString} {planned : UploadWrite}
    (decided : (UploadOperation.releasePartReservation sessionId partIndex objectMayExist stagingKey
      now).decide tables = some planned) : planned.Quiet claims completes tables := by
  rcases Option.map_eq_some_iff.mp decided with ⟨session, _, rfl⟩
  split
  · split
    · trivial
    · split
      · trivial
      · split
        · trivial
        · trivial
  · rename_i part isPart
    rcases Option.filter_eq_some_iff.mp isPart with ⟨foundPart, _⟩
    have notStored (isReserved : part.state = .reserved) : ∀ other ∈ tables.parts,
        other.isRow sessionId partIndex = true → other.state ≠ .stored := by
      intro other isOther isRow isStored
      rw [rows.onlyPart foundPart isOther isRow, isReserved] at isStored
      cases isStored
    cases isState : part.state with
    | deleted =>
        cases stagingKey with
        | none => trivial
        | some key =>
            dsimp only
            split
            · trivial
            · trivial
    | reserved =>
        dsimp only
        split
        · exact notStored isState
        · exact notStored isState
    | stored => trivial
    | cleanup => trivial

theorem UploadOperation.quiet_mark {sessionId partIndex now : Nat} {stagingKey : JsString}
    {expectedState : UploadPartState} {planned : UploadWrite}
    (outside : expectedState = .stored → ∀ session ∈ tables.sessions, session.id = sessionId →
      session.state ≠ .finalizing)
    (decided : (UploadOperation.markStagingObjectDeleted sessionId partIndex stagingKey
      expectedState
      now).decide tables = some planned) : planned.Quiet claims completes tables := by
  dsimp only [UploadOperation.decide] at decided
  split at decided
  · cases decided
  · rcases Option.map_eq_some_iff.mp decided with ⟨session, _, rfl⟩
    split
    · trivial
    · split
      · trivial
      · exact outside

theorem UploadOperation.quiet_housekeeping (rows : tables.Rows) {operation : UploadOperation}
    (isHousekeeping : operation.isHousekeeping = true) {planned : UploadWrite}
    (decided : operation.decide tables = some planned) :
    planned.Quiet claims completes tables := by
  cases operation with
  | retireExpiredPartReservation sessionId partIndex stagingKey now =>
      rcases Option.map_eq_some_iff.mp decided with ⟨session, _, rfl⟩
      split
      · trivial
      · trivial
  | releasePartReservation sessionId partIndex objectMayExist stagingKey now =>
      exact UploadOperation.quiet_release rows decided
  | claimTerminalTransition namespaceId sessionId transition now =>
      dsimp only [UploadOperation.decide] at decided
      split at decided
      · split at decided
        · cases decided
          trivial
        · cases decided
          trivial
      · cases decided
        trivial
  | renewSession namespaceId sessionId inactivitySeconds now =>
      dsimp only [UploadOperation.decide] at decided
      split at decided
      · cases decided
      · split at decided
        · split at decided
          · cases decided
            trivial
          · cases decided
            trivial
        · cases decided
          trivial
  | markTombstoneDeleted stagingKey observedPutSettledAt now =>
      rcases Option.map_eq_some_iff.mp decided with ⟨old, _, rfl⟩
      split
      · trivial
      · trivial
  | markStagingObjectDeleted sessionId partIndex stagingKey expectedState now =>
      refine UploadOperation.quiet_mark ?_ decided
      intro isStored
      rw [isStored] at isHousekeeping
      cases isHousekeeping
  | deleteSettledSessions namespaceId =>
      cases decided
      trivial
  | createSession input caps => cases isHousekeeping
  | reservePart sessionId partIndex sizeBytes stagingKey caps leaseSeconds now =>
      cases isHousekeeping
  | commitPart sessionId partIndex digest encryptionIv stagingKey inactivitySeconds now =>
      cases isHousekeeping
  | claimFinalize namespaceId sessionId token leaseDurationMs now => cases isHousekeeping
  | completeFinalize namespaceId sessionId token leaseDurationMs status body requestId now =>
      cases isHousekeeping
  | failFinalize namespaceId sessionId token body requestId now => cases isHousekeeping

theorem UploadOperation.quiet_claim {sessionId token leaseDurationMs now : Nat}
    {planned : UploadWrite}
    (decided : (UploadOperation.claimFinalize namespaceId sessionId token leaseDurationMs
      now).decide tables = some planned) : planned.Quiet (some token) completes tables := by
  dsimp only [UploadOperation.decide] at decided
  split at decided
  · cases decided
    rfl
  · cases decided
  · cases decided
  · cases decided
    trivial

theorem UploadOperation.quiet_complete {sessionId token leaseDurationMs status now : Nat}
    {body requestId : JsString} {planned : UploadWrite}
    (decided : (UploadOperation.completeFinalize namespaceId sessionId token leaseDurationMs status
      body requestId now).decide tables = some planned) : planned.Quiet claims true tables := by
  dsimp only [UploadOperation.decide] at decided
  split at decided
  · cases decided
    rfl
  · cases decided

theorem UploadOperation.quiet_fail {sessionId token now : Nat} {body requestId : JsString}
    {planned : UploadWrite}
    (decided : (UploadOperation.failFinalize namespaceId sessionId token body requestId
      now).decide tables = some planned) : planned.Quiet claims completes tables := by
  cases decided
  trivial

/-! ## Statements without the usage lock -/

namespace UploadTables

theorem Advance.renewPartLease (tables : UploadTables) (sessionId partIndex : Nat)
    (stagingKey : JsString) (leaseSeconds now : Nat) :
    Advance claims completes tables
      (tables.renewPartLease sessionId partIndex stagingKey leaseSeconds now) := by
  have reserved : ∀ part : UploadPart, (part.isRow sessionId partIndex &&
      part.stagingKey == stagingKey && part.state == .reserved && part.leaseExpiresAt.isSome &&
        !part.leaseOver now) = true → part.state = .reserved := by
    intro part passes
    simp only [Bool.and_eq_true, beq_iff_eq] at passes
    exact passes.1.1.2
  refine Advance.updateParts ?_ ?_ ?_
  · intro part
    rfl
  · intro part _ passes isStored
    have isReserved : part.state = .stored := isStored
    rw [reserved part passes] at isReserved
    cases isReserved
  · intro part _ passes isStored
    rw [reserved part passes] at isStored
    cases isStored

theorem Advance.renewFinalize (tables : UploadTables)
    (namespaceId sessionId token leaseDurationMs now : Nat) :
    Advance claims completes tables
      (tables.renewFinalize namespaceId sessionId token leaseDurationMs now) := by
  refine Advance.updateSessions fun session _ passes => ?_
  rw [Bool.and_eq_true] at passes
  have isFinalizing := (holdsLease_named passes.1).2.2
  refine ⟨rfl, ?_, ?_, ?_, ?_⟩
  · intro isClosed
    rw [holdsLease_live passes.1] at isClosed
    cases isClosed
  · intro _
    exact .inl ⟨isFinalizing, rfl⟩
  · intro isCompleted
    have same : session.state = .completed := isCompleted
    rw [isFinalizing] at same
    cases same
  · intro isAnswered
    have same : session.state = .completed ∨ session.state = .failed := isAnswered
    rw [isFinalizing] at same
    rcases same with same | same
    · cases same
    · cases same

theorem Advance.releaseFinalize (tables : UploadTables) (namespaceId sessionId token : Nat)
    (code : JsString) (failedAt : Nat) :
    Advance claims completes tables
      (tables.releaseFinalize namespaceId sessionId token code failedAt) :=
  Advance.updateSessions fun _ _ passes => .reopened rfl (holdsLease_live passes) rfl

theorem Advance.recoverStaleFinalizingLeases (tables : UploadTables) (ids : List Nat) (now : Nat) :
    Advance claims completes tables (tables.recoverStaleFinalizingLeases ids now) := by
  refine Advance.updateSessions fun session _ passes => .reopened rfl ?_ rfl
  rw [Bool.and_eq_true, Bool.and_eq_true, beq_iff_eq] at passes
  rw [passes.1.2]
  rfl

theorem Advance.pruneSession (rows : Rows tables) (sessionId before : Nat) :
    Advance claims completes tables (tables.pruneSession sessionId before) := by
  refine Advance.deleteSessions rows fun session _ passes => ?_
  rw [Bool.and_eq_true, Bool.and_eq_true] at passes
  exact passes.1.2

end UploadTables

end Storix
