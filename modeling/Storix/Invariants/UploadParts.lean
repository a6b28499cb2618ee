import Storix.Invariants.UploadSteps
import Storix.Vfs.UploadSessionStaging
import Storix.Persistence.UploadAccounting

/-! # The parts of a session are those of its plan

In every run of the requests that the services make, a session has the number of parts that
its size takes, the index of a part is below that number, no two parts of a session share
an index, and a stored part has a digest. -/

namespace Storix

open Foundation

variable {tables next : UploadTables} {namespaceId : Nat}

/-! ## The invariant of the tables -/

/-- The number of parts is the one that `planNewUploadSession` gave the session. -/
structure UploadSession.Planned (session : UploadSession) : Prop where
  positive : 0 < session.partSizeBytes
  partCount : session.partCount =
    (session.sizeBytes + session.partSizeBytes - 1) / session.partSizeBytes
  bounded : session.partCount ≤ MAX_PART_COUNT

def UploadPart.Digested (part : UploadPart) : Prop :=
  part.state = .stored → ∃ digest, part.digest = some digest ∧ digest ≠ []

namespace UploadTables

structure PartsPlanned (tables : UploadTables) : Prop where
  sessionIds : (tables.sessions.map UploadSession.id).Nodup
  partKeys : (tables.parts.map partKey).Nodup
  planned : ∀ session ∈ tables.sessions, session.Planned
  owned : ∀ part ∈ tables.parts, ∃ session ∈ tables.sessions,
    session.id = part.sessionId ∧ part.partIndex < session.partCount
  digested : ∀ part ∈ tables.parts, part.Digested

theorem PartsPlanned.ofRows (planned : PartsPlanned tables)
    (sameSessions : next.sessions = tables.sessions) (sameParts : next.parts = tables.parts) :
    PartsPlanned next where
  sessionIds := sameSessions ▸ planned.sessionIds
  partKeys := sameParts ▸ planned.partKeys
  planned := sameSessions ▸ planned.planned
  owned := by
    rw [sameSessions, sameParts]
    exact planned.owned
  digested := sameParts ▸ planned.digested

theorem PartsPlanned.ensureUsage (planned : PartsPlanned tables) (namespaceId : Nat) :
    PartsPlanned (tables.ensureUsage namespaceId) :=
  have rows := ensureUsage_rows tables namespaceId
  planned.ofRows rows.1 rows.2.1

theorem PartsPlanned.changeUsage (planned : PartsPlanned tables) (namespaceId : Nat)
    (activeSessions stagedBytes : Int) :
    PartsPlanned (tables.changeUsage namespaceId activeSessions stagedBytes) :=
  planned.ofRows rfl rfl

/-! ## Statements -/

theorem planned_of_plan {session old : UploadSession} (same : session.plan = old.plan)
    (planned : old.Planned) : session.Planned := by
  simp only [UploadSession.plan, Prod.mk.injEq] at same
  have ⟨_, _, _, sameSize, _, _, _, samePartSize, sameCount⟩ := same
  constructor
  · rw [samePartSize]
    exact planned.positive
  · rw [sameCount, sameSize, samePartSize]
    exact planned.partCount
  · rw [sameCount]
    exact planned.bounded

theorem plan_id {session old : UploadSession} (same : session.plan = old.plan) :
    session.id = old.id :=
  congrArg Prod.fst same

theorem plan_partCount {session old : UploadSession} (same : session.plan = old.plan) :
    session.partCount = old.partCount := by
  simp only [UploadSession.plan, Prod.mk.injEq] at same
  have ⟨_, _, _, _, _, _, _, _, sameCount⟩ := same
  exact sameCount

theorem PartsPlanned.updateSessions (planned : PartsPlanned tables) (test : UploadSession → Bool)
    {transform : UploadSession → UploadSession}
    (keeps : ∀ session, (transform session).plan = session.plan) :
    PartsPlanned (tables.updateSessions test transform) where
  sessionIds := by
    have same : (updated test transform tables.sessions).map UploadSession.id =
        tables.sessions.map UploadSession.id :=
      map_updated UploadSession.id fun session _ _ => plan_id (keeps session)
    change ((updated test transform tables.sessions).map UploadSession.id).Nodup
    rw [same]
    exact planned.sessionIds
  partKeys := planned.partKeys
  planned := by
    intro session member
    cases mem_updated member with
    | inl found =>
        have ⟨old, isOld, _, isSession⟩ := found
        rw [isSession]
        exact planned_of_plan (keeps old) (planned.planned old isOld)
    | inr found => exact planned.planned session found.1
  owned := by
    intro part member
    have ⟨session, isSession, sameId, inRange⟩ := planned.owned part member
    refine ⟨_, List.mem_map_of_mem isSession, ?_⟩
    split
    · rw [plan_id (keeps session), plan_partCount (keeps session)]
      exact ⟨sameId, inRange⟩
    · exact ⟨sameId, inRange⟩
  digested := planned.digested

theorem PartsPlanned.updateSession (planned : PartsPlanned tables) {test : UploadSession → Bool}
    {transform : UploadSession → UploadSession}
    (isUpdated : tables.updateSession test transform = some next)
    (keeps : ∀ session, (transform session).plan = session.plan) : PartsPlanned next := by
  rw [UploadTables.updateSession] at isUpdated
  split at isUpdated
  · cases isUpdated
    exact planned.updateSessions test keeps
  · cases isUpdated

theorem PartsPlanned.updateParts (planned : PartsPlanned tables) {test : UploadPart → Bool}
    {transform : UploadPart → UploadPart} (keeps : ∀ part, partKey (transform part) = partKey part)
    (digested : ∀ part ∈ tables.parts, test part = true → (transform part).Digested) :
    PartsPlanned (tables.updateParts test transform) where
  sessionIds := planned.sessionIds
  partKeys := by
    have same : (updated test transform tables.parts).map partKey = tables.parts.map partKey :=
      map_updated partKey fun part _ _ => keeps part
    change ((updated test transform tables.parts).map partKey).Nodup
    rw [same]
    exact planned.partKeys
  planned := planned.planned
  owned := by
    intro part member
    cases mem_updated member with
    | inl found =>
        have ⟨old, isOld, _, isPart⟩ := found
        have sameKey := keeps old
        rw [← isPart] at sameKey
        have ⟨session, isSession, sameId, inRange⟩ := planned.owned old isOld
        have sameSession : part.sessionId = old.sessionId := congrArg Prod.fst sameKey
        have sameIndex : part.partIndex = old.partIndex := congrArg Prod.snd sameKey
        rw [sameSession, sameIndex]
        exact ⟨session, isSession, sameId, inRange⟩
    | inr found => exact planned.owned part found.1
  digested := by
    intro part member
    cases mem_updated member with
    | inl found =>
        have ⟨old, isOld, passes, isPart⟩ := found
        rw [isPart]
        exact digested old isOld passes
    | inr found => exact planned.digested part found.1

theorem PartsPlanned.deleteParts (planned : PartsPlanned tables) (test : UploadPart → Bool) :
    PartsPlanned (tables.deleteParts test) where
  sessionIds := planned.sessionIds
  partKeys := planned.partKeys.sublist (List.filter_sublist.map _)
  planned := planned.planned
  owned := fun part member => planned.owned part (List.mem_of_mem_filter member)
  digested := fun part member => planned.digested part (List.mem_of_mem_filter member)

theorem PartsPlanned.deleteSessions (planned : PartsPlanned tables)
    (test : UploadSession → Bool) : PartsPlanned (tables.deleteSessions test) where
  sessionIds := planned.sessionIds.sublist (List.filter_sublist.map _)
  partKeys := planned.partKeys.sublist (List.filter_sublist.map _)
  planned := fun session member => planned.planned session (List.mem_of_mem_filter member)
  owned := by
    intro part member
    have ⟨isPart, kept⟩ := mem_deleteSessions.mp member
    have ⟨session, isSession, sameId, inRange⟩ := planned.owned part isPart
    refine ⟨session, List.mem_filter.mpr ⟨isSession, ?_⟩, sameId, inRange⟩
    rw [kept session isSession sameId]
    rfl
  digested := fun part member => planned.digested part (List.mem_of_mem_filter member)

theorem PartsPlanned.insertSession (planned : PartsPlanned tables) {session : UploadSession}
    (isPlanned : session.Planned) (isNew : tables.mentions session.id = false)
    (sessions : next.sessions = tables.sessions ++ [session]) (parts : next.parts = tables.parts) :
    PartsPlanned next where
  sessionIds := by
    rw [sessions, List.map_append, List.map_singleton, List.nodup_append]
    refine ⟨planned.sessionIds, List.nodup_singleton _, ?_⟩
    intro id isOld other isOther same
    rw [List.mem_singleton] at isOther
    have ⟨old, isRow, isId⟩ := List.mem_map.mp isOld
    have found : (tables.sessions.any fun old => old.id == session.id) = true :=
      List.any_eq_true.mpr ⟨old, isRow, beq_iff_eq.mpr (isId.trans (same.trans isOther))⟩
    rw [mentions, found] at isNew
    cases isNew
  partKeys := parts ▸ planned.partKeys
  planned := by
    rw [sessions]
    intro other member
    cases List.mem_append.mp member with
    | inl isOld => exact planned.planned other isOld
    | inr isSession => exact List.mem_singleton.mp isSession ▸ isPlanned
  owned := by
    rw [sessions, parts]
    intro part member
    have ⟨owner, isOwner, owns⟩ := planned.owned part member
    exact ⟨owner, List.mem_append_left _ isOwner, owns⟩
  digested := parts ▸ planned.digested

theorem PartsPlanned.insertPart (planned : PartsPlanned tables) {part : UploadPart}
    (isReserved : part.state = .reserved)
    (owned : ∃ session ∈ tables.sessions, session.id = part.sessionId ∧
      part.partIndex < session.partCount)
    (isNew : ∀ old ∈ tables.parts, old.isRow part.sessionId part.partIndex = false)
    (sessions : next.sessions = tables.sessions) (parts : next.parts = tables.parts ++ [part]) :
    PartsPlanned next where
  sessionIds := sessions ▸ planned.sessionIds
  partKeys := by
    rw [parts, List.map_append, List.map_singleton, List.nodup_append]
    refine ⟨planned.partKeys, List.nodup_singleton _, ?_⟩
    intro key isOld other isOther same
    rw [List.mem_singleton] at isOther
    have ⟨old, isRow, isKey⟩ := List.mem_map.mp isOld
    have sameKey : partKey old = partKey part := isKey.trans (same.trans isOther)
    simp only [partKey, Prod.mk.injEq] at sameKey
    have absent := isNew old isRow
    simp [UploadPart.isRow, sameKey.1, sameKey.2] at absent
  planned := sessions ▸ planned.planned
  owned := by
    rw [sessions, parts]
    intro other member
    cases List.mem_append.mp member with
    | inl isOld => exact planned.owned other isOld
    | inr isPart => exact List.mem_singleton.mp isPart ▸ owned
  digested := by
    rw [parts]
    intro other member
    cases List.mem_append.mp member with
    | inl isOld => exact planned.digested other isOld
    | inr isPart =>
        rw [List.mem_singleton.mp isPart]
        intro isStored
        rw [isReserved] at isStored
        cases isStored

end UploadTables

/-! ## Writes -/

def UploadWrite.Serves (tables : UploadTables) : UploadWrite → Prop
  | .insertSession session => session.Planned
  | .insertPart _ _ part => part.state = .reserved ∧
      ∀ session ∈ tables.sessions, session.id = part.sessionId →
        part.partIndex < session.partCount
  | .storePart _ _ _ _ digest _ _ _ => digest ≠ []
  | _ => True

namespace UploadTables

theorem PartsPlanned.write (planned : PartsPlanned tables) {write : UploadWrite}
    {written : UploadTables × Bool} (serves : write.Serves tables)
    (isWritten : tables.write write = some written) : PartsPlanned written.1 := by
  cases write with
  | nothing namespaceId =>
      cases isWritten
      exact planned.ensureUsage namespaceId
  | insertSession session =>
      dsimp only [UploadTables.write] at isWritten
      split at isWritten
      · cases isWritten
      · rename_i isNew
        cases isWritten
        have rows := ensureUsage_rows tables session.namespaceId
        apply PartsPlanned.changeUsage
        apply planned.insertSession serves
        · rw [Bool.not_eq_true] at isNew
          exact isNew
        · dsimp only
          rw [rows.1]
        · exact rows.2.1
  | insertPart namespaceId caps part =>
      dsimp only [UploadTables.write] at isWritten
      split at isWritten
      · cases isWritten
      · rename_i isFree
        rw [Bool.or_eq_true, not_or, Bool.not_eq_true, List.any_eq_false, Option.isNone_iff_eq_none]
          at isFree
        cases isWritten
        have emptied := (planned.ensureUsage namespaceId).deleteParts fun old =>
          old.isRow part.sessionId part.partIndex && old.state == .deleted
        apply PartsPlanned.changeUsage
        apply emptied.insertPart serves.1
        · have ⟨session, found⟩ := Option.ne_none_iff_exists'.mp isFree.2
          have ⟨isSession, sameId⟩ := findSession_eq_some found
          refine ⟨session, isSession, sameId, serves.2 session ?_ sameId⟩
          exact (ensureUsage_rows tables namespaceId).1 ▸ isSession
        · intro old isOld
          have absent := isFree.1 old isOld
          rw [Bool.or_eq_true, not_or, Bool.not_eq_true] at absent
          exact absent.1
        · rfl
        · rfl
  | storePart namespaceId sessionId partIndex stagingKey digest encryptionIv expiresAt now =>
      dsimp only [UploadTables.write] at isWritten
      split at isWritten
      · cases isWritten
        exact planned.ensureUsage namespaceId
      · split at isWritten
        · cases isWritten
        · cases isWritten
          apply PartsPlanned.updateParts
          · apply (planned.ensureUsage namespaceId).updateSessions
            intro session
            rfl
          · intro part
            rfl
          · intro part _ _ _
            exact ⟨digest, rfl, serves⟩
  | retirePart namespaceId sessionId partIndex stagingKey sizeBytes now =>
      dsimp only [UploadTables.write] at isWritten
      split at isWritten
      · cases isWritten
        exact planned.ensureUsage namespaceId
      · split at isWritten
        · cases isWritten
        · cases isWritten
          exact ((planned.ensureUsage namespaceId).deleteParts _).ofRows rfl rfl
  | settleTombstone namespaceId stagingKey now =>
      cases isWritten
      exact (planned.ensureUsage namespaceId).ofRows rfl rfl
  | refundTombstone namespaceId stagingKey sizeBytes =>
      cases isWritten
      exact (planned.ensureUsage namespaceId).ofRows rfl rfl
  | markTombstone namespaceId stagingKey now =>
      cases isWritten
      exact (planned.ensureUsage namespaceId).ofRows rfl rfl
  | rechargePart namespaceId sessionId partIndex stagingKey sizeBytes =>
      dsimp only [UploadTables.write] at isWritten
      split at isWritten
      · cases isWritten
        exact planned.ensureUsage namespaceId
      · cases isWritten
        apply PartsPlanned.changeUsage
        apply (planned.ensureUsage namespaceId).updateParts
        · intro part
          rfl
        · intro part _ _ isStored
          cases isStored
  | cleanUpPart namespaceId sessionId partIndex =>
      cases isWritten
      apply (planned.ensureUsage namespaceId).updateParts
      · intro part
        rfl
      · intro part _ _ isStored
        cases isStored
  | removePart namespaceId sessionId partIndex sizeBytes =>
      cases isWritten
      exact ((planned.ensureUsage namespaceId).deleteParts _).changeUsage _ _ _
  | deletePart namespaceId sessionId partIndex stagingKey expectedState sizeBytes now =>
      dsimp only [UploadTables.write] at isWritten
      split at isWritten
      · cases isWritten
        exact planned.ensureUsage namespaceId
      · cases isWritten
        apply PartsPlanned.changeUsage
        apply (planned.ensureUsage namespaceId).updateParts
        · intro part
          rfl
        · intro part _ _ isStored
          cases isStored
  | closeSession namespaceId sessionId transition now =>
      dsimp only [UploadTables.write] at isWritten
      split at isWritten
      · cases isWritten
        exact planned.ensureUsage namespaceId
      · rename_i updated isUpdated
        cases isWritten
        apply PartsPlanned.changeUsage
        exact (planned.ensureUsage namespaceId).updateSession isUpdated fun _ => rfl
  | claimSession namespaceId sessionId token leaseExpiresAt now =>
      dsimp only [UploadTables.write] at isWritten
      split at isWritten
      · cases isWritten
        exact planned.ensureUsage namespaceId
      · rename_i updated isUpdated
        cases isWritten
        exact (planned.ensureUsage namespaceId).updateSession isUpdated fun _ => rfl
  | completeSession namespaceId sessionId token status body requestId now =>
      have ⟨updated, isUpdated, isResult⟩ := Option.map_eq_some_iff.mp isWritten
      cases isResult
      apply PartsPlanned.changeUsage
      exact (planned.ensureUsage namespaceId).updateSession isUpdated fun _ => rfl
  | failSession namespaceId sessionId token body requestId now =>
      dsimp only [UploadTables.write] at isWritten
      split at isWritten
      · cases isWritten
        exact planned.ensureUsage namespaceId
      · rename_i updated isUpdated
        cases isWritten
        apply PartsPlanned.changeUsage
        exact (planned.ensureUsage namespaceId).updateSession isUpdated fun _ => rfl
  | renewSession namespaceId sessionId expiresAt now =>
      dsimp only [UploadTables.write] at isWritten
      split at isWritten
      · cases isWritten
        exact planned.ensureUsage namespaceId
      · rename_i updated isUpdated
        cases isWritten
        exact (planned.ensureUsage namespaceId).updateSession isUpdated fun _ => rfl
  | deleteSettledSessions namespaceId =>
      cases isWritten
      exact (planned.ensureUsage namespaceId).deleteSessions _

end UploadTables

/-! ## Requests -/

/-- What the services ask for: a new session is planned under a policy, and a part is
committed with the digest of its bytes. -/
def UploadOperation.Requested : UploadOperation → Prop
  | .createSession input _ => ∃ policy : ResolvedUploadSessionPolicy, ∃ now,
      policy.plan input.sizeBytes now =
        some ⟨input.partSizeBytes, input.partCount, input.expiresAt, input.maxExpiresAt⟩
  | .commitPart _ _ digest _ _ _ _ => digest ≠ []
  | _ => True

theorem planned_of_plan_eq {policy : ResolvedUploadSessionPolicy} {now : Nat}
    {input : CreateUploadSessionInput}
    (isPlanned : policy.plan input.sizeBytes now =
      some ⟨input.partSizeBytes, input.partCount, input.expiresAt, input.maxExpiresAt⟩) :
    input.session.Planned := by
  dsimp only [ResolvedUploadSessionPolicy.plan, planNewUploadSession] at isPlanned
  split at isPlanned
  · cases isPlanned
  · rename_i fits
    simp only [Option.some.injEq, NewUploadSessionPlan.mk.injEq] at isPlanned
    have ⟨samePartSize, sameCount, _⟩ := isPlanned
    constructor
    · change 0 < input.partSizeBytes
      rw [← samePartSize]
      exact policy.partSizeBytes.pos
    · change input.partCount = (input.sizeBytes + input.partSizeBytes - 1) / input.partSizeBytes
      rw [← samePartSize, ← sameCount]
    · change input.partCount ≤ MAX_PART_COUNT
      rw [← sameCount]
      exact Nat.le_of_not_lt fits

theorem UploadOperation.decide_serves (planned : tables.PartsPlanned) {operation : UploadOperation}
    {write : UploadWrite} (requested : operation.Requested)
    (decided : operation.decide tables = some write) : write.Serves tables := by
  have plans := operation.decide_plans decided
  cases write with
  | insertSession session =>
      rcases plans with ⟨input, caps, rfl, rfl⟩
      rcases requested with ⟨policy, now, isPlanned⟩
      exact planned_of_plan_eq isPlanned
  | insertPart namespaceId caps part =>
      rcases plans with ⟨session, found, _, inRange, isReserved, _⟩
      rcases UploadTables.findSession_eq_some found with ⟨isSession, sameId⟩
      refine ⟨isReserved, fun other isOther otherId => ?_⟩
      rw [List.inj_on_of_nodup_map planned.sessionIds isOther isSession
        (otherId.trans sameId.symm)]
      exact inRange
  | storePart namespaceId sessionId partIndex stagingKey digest encryptionIv expiresAt now =>
      rcases plans with ⟨inactivitySeconds, rfl⟩
      exact requested
  | _ => trivial

/-! ## Runs -/

namespace UploadSystem

variable {system after : UploadSystem}

/-- The requests that take the usage lock come from the services. -/
def Requested (_ : UploadSystem) : UploadAction → Prop
  | .lock operation => operation.Requested
  | _ => True

/-- The parts are planned, and a planned write serves its request. -/
structure Planned (system : UploadSystem) : Prop where
  tables : system.tables.PartsPlanned
  serves : ∀ write, system.holder = some write → write.Serves system.tables

theorem Initial.planned (first : Initial system) : Planned system where
  tables :=
    { sessionIds := by rw [first.sessions]; exact List.nodup_nil
      partKeys := by rw [first.parts]; exact List.nodup_nil
      planned := by rw [first.sessions]; exact fun _ member => absurd member List.not_mem_nil
      owned := by rw [first.parts]; exact fun _ member => absurd member List.not_mem_nil
      digested := by rw [first.parts]; exact fun _ member => absurd member List.not_mem_nil }
  serves := by
    intro write isPlanned
    rw [first.holder] at isPlanned
    cases isPlanned

/-- A statement without the lock keeps the plan of every session that it leaves. -/
theorem Planned.meanwhile (planned : Planned system) {tables : UploadTables}
    {prunes : Nat → PrunePhase} (isPlanned : tables.PartsPlanned)
    (kept : ∀ session ∈ tables.sessions, ∃ old ∈ system.tables.sessions,
      session.plan = old.plan) :
    Planned { system with tables := tables, prunes := prunes } where
  tables := isPlanned
  serves := by
    intro write isHeld
    have serves := planned.serves write isHeld
    cases write with
    | insertPart namespaceId caps part =>
        refine ⟨serves.1, ?_⟩
        intro session isSession sameId
        have ⟨old, isOld, samePlan⟩ := kept session isSession
        rw [UploadTables.plan_partCount samePlan]
        exact serves.2 old isOld ((UploadTables.plan_id samePlan).symm.trans sameId)
    | insertSession session => exact serves
    | storePart namespaceId sessionId partIndex stagingKey digest encryptionIv expiresAt now =>
        exact serves
    | _ => trivial

theorem Planned.updateSessions (planned : Planned system) (test : UploadSession → Bool)
    {transform : UploadSession → UploadSession}
    (keeps : ∀ session, (transform session).plan = session.plan) :
    Planned { system with tables := system.tables.updateSessions test transform } := by
  apply planned.meanwhile (planned.tables.updateSessions test keeps)
  intro session member
  cases mem_updated member with
  | inl found =>
      have ⟨old, isOld, _, isSession⟩ := found
      rw [isSession]
      exact ⟨old, isOld, keeps old⟩
  | inr found => exact ⟨session, found.1, rfl⟩

theorem Planned.step (planned : Planned system) {action : UploadAction}
    (requested : system.Requested action) (taken : system.next action = some after) :
    Planned after := by
  cases action with
  | lock operation =>
      dsimp only [UploadSystem.next] at taken
      split at taken
      · cases taken
      · cases taken
        exact ⟨planned.tables, fun write isPlanned =>
          operation.decide_serves planned.tables requested isPlanned⟩
  | commit =>
      have ⟨write, isPlanned, isAfter⟩ := Option.map_eq_some_iff.mp taken
      rw [← isAfter]
      split
      · exact ⟨planned.tables, fun _ isNone => nomatch isNone⟩
      · rename_i tables applied isWritten
        exact ⟨planned.tables.write (planned.serves write isPlanned) isWritten,
          fun _ isNone => nomatch isNone⟩
  | rollback =>
      cases taken
      exact ⟨planned.tables, fun _ isNone => nomatch isNone⟩
  | deactivate namespaceId =>
      dsimp only [UploadSystem.next] at taken
      split at taken
      · cases taken
      · rename_i isFree
        cases taken
        refine ⟨(planned.tables.ensureUsage namespaceId).ofRows rfl rfl, ?_⟩
        intro write isPlanned
        rw [isPlanned] at isFree
        exact absurd rfl isFree
  | renewPartLease sessionId partIndex stagingKey leaseSeconds now =>
      cases taken
      apply planned.meanwhile
      · apply planned.tables.updateParts
        · intro part
          rfl
        · intro part member _
          exact planned.tables.digested part member
      · intro session member
        exact ⟨session, member, rfl⟩
  | renewFinalize namespaceId sessionId token leaseDurationMs now =>
      cases taken
      exact planned.updateSessions _ fun _ => rfl
  | releaseFinalize namespaceId sessionId token code failedAt =>
      cases taken
      exact planned.updateSessions _ fun _ => rfl
  | recoverStaleFinalizingLeases ids now =>
      cases taken
      exact planned.updateSessions _ fun _ => rfl
  | pruneSelect run sessionId before =>
      dsimp only [UploadSystem.next] at taken
      split at taken
      · cases taken
        exact ⟨planned.tables, planned.serves⟩
      · cases taken
  | pruneCount run =>
      dsimp only [UploadSystem.next] at taken
      split at taken
      · split at taken
        · cases taken
          exact ⟨planned.tables, planned.serves⟩
        · cases taken
          exact ⟨planned.tables, planned.serves⟩
      · cases taken
  | pruneDelete run =>
      dsimp only [UploadSystem.next] at taken
      split at taken
      · cases taken
        apply planned.meanwhile (planned.tables.deleteSessions _)
        intro session member
        exact ⟨session, List.mem_of_mem_filter member, rfl⟩
      · cases taken

theorem planned (reached : uploadMachine.ReachableBy Requested system) : Planned system :=
  reached.invariant Planned (fun _ first => Initial.planned first)
    fun _ _ _ requested planned taken => planned.step requested taken

end UploadSystem

end Storix
