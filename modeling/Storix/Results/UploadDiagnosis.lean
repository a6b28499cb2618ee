import Storix.Invariants.UploadParts
import Storix.Results.UploadAccounting

/-! # The status of an upload session tells the next step

The diagnosis counts the indices that it finds in a snapshot, and the transactions decide
index by index under their locks. In every run of the services' requests the two agree. -/

namespace Storix

open Foundation

variable {tables : UploadTables} {session : UploadSession} {now : Nat}

/-! ## The claim of a session -/

namespace UploadTables

/-- Whether `claimFinalize` claims the session: its last UPDATE found the row. -/
def claims (tables : UploadTables) (session : UploadSession) (token leaseDurationMs now : Nat) :
    Bool :=
  (tables.transact (.claimFinalize session.namespaceId session.id token leaseDurationMs
    now)).map Prod.snd == some true

theorem storedAt_iff {sessionId index : Nat} :
    StoredAt (tables.statusParts sessionId) index ↔
      index ∈ (tables.storedParts sessionId).map UploadPart.partIndex := by
  simp only [StoredAt, statusParts, storedParts, List.mem_map, List.mem_insertionSort,
    List.mem_filter, Bool.and_eq_true, beq_iff_eq]
  constructor
  · rintro ⟨part, ⟨member, sameId⟩, stored, isIndex⟩
    exact ⟨part, ⟨member, sameId, stored⟩, isIndex⟩
  · rintro ⟨part, ⟨member, sameId, stored⟩, isIndex⟩
    exact ⟨part, ⟨member, sameId⟩, stored, isIndex⟩

theorem mem_storedParts {sessionId : Nat} {part : UploadPart} :
    part ∈ tables.storedParts sessionId ↔
      part ∈ tables.parts ∧ part.sessionId = sessionId ∧ part.state = .stored := by
  simp [storedParts]

theorem PartsPlanned.storedIndices (planned : PartsPlanned tables) (sessionId : Nat) :
    ((tables.storedParts sessionId).map UploadPart.partIndex).Pairwise (· ≤ ·) ∧
      ((tables.storedParts sessionId).map UploadPart.partIndex).Nodup := by
  let found := tables.parts.filter fun part =>
    part.sessionId == sessionId && part.state == .stored
  let le := fun left right : UploadPart => left.partIndex ≤ right.partIndex
  have total : ∀ left right, le left right ∨ le right left := fun left right => Nat.le_total ..
  have trans : ∀ left middle right, le left middle → le middle right → le left right :=
    fun _ _ _ => Nat.le_trans
  have sorted : (found.insertionSort le).Pairwise le :=
    @List.pairwise_insertionSort _ le _ ⟨total⟩ ⟨trans⟩ found
  have keys : (found.map partKey).Nodup := planned.partKeys.sublist (List.filter_sublist.map _)
  have distinct : (found.map UploadPart.partIndex).Nodup := by
    apply List.Nodup.map_on _ (List.Nodup.of_map partKey keys)
    intro left isLeft right isRight sameIndex
    have leftId := (List.mem_filter.mp isLeft).2
    have rightId := (List.mem_filter.mp isRight).2
    rw [Bool.and_eq_true, beq_iff_eq] at leftId rightId
    apply List.inj_on_of_nodup_map keys isLeft isRight
    rw [partKey, partKey, leftId.1, rightId.1, sameIndex]
  constructor
  · exact List.pairwise_map.mpr sorted
  · exact ((List.perm_insertionSort le found).map UploadPart.partIndex).nodup_iff.mpr distinct

/-- All parts are stored where the stored parts, by their index, are those of the plan. -/
theorem PartsPlanned.storedParts_iff (planned : PartsPlanned tables)
    (member : session ∈ tables.sessions) :
    (∀ index < session.partCount, StoredAt (tables.statusParts session.id) index) ↔
      (tables.storedParts session.id).map UploadPart.partIndex =
        List.range session.partCount := by
  constructor
  · intro all
    have ⟨sorted, distinct⟩ := planned.storedIndices session.id
    have perm : ((tables.storedParts session.id).map UploadPart.partIndex).Perm
        (List.range session.partCount) := by
      apply (List.perm_ext_iff_of_nodup distinct List.nodup_range).mpr
      intro index
      constructor
      · intro isIndex
        have ⟨part, isPart, sameIndex⟩ := List.mem_map.mp isIndex
        have ⟨isRow, sameId, _⟩ := mem_storedParts.mp isPart
        have ⟨owner, isOwner, ownerId, inRange⟩ := planned.owned part isRow
        have same := List.inj_on_of_nodup_map planned.sessionIds isOwner member
          (ownerId.trans sameId)
        rw [List.mem_range, ← sameIndex, ← same]
        exact inRange
      · intro isIndex
        exact storedAt_iff.mp (all index (List.mem_range.mp isIndex))
    apply perm.eq_of_pairwise
    · intro left right _ _ below above
      exact Nat.le_antisymm below above
    · exact sorted
    · exact List.pairwise_le_range
  · intro same index inRange
    rw [storedAt_iff, same]
    exact List.mem_range.mpr inRange

theorem PartsPlanned.find_session (planned : PartsPlanned tables)
    (member : session ∈ tables.sessions) :
    (tables.sessions.find? fun other => other.isRow session.namespaceId session.id) =
      some session := by
  cases found : tables.sessions.find? fun other =>
      other.isRow session.namespaceId session.id with
  | none =>
      have absent := List.find?_eq_none.mp found session member
      simp [UploadSession.isRow] at absent
  | some other =>
      have isRow := List.find?_some found
      rw [UploadSession.isRow, Bool.and_eq_true, beq_iff_eq] at isRow
      rw [List.inj_on_of_nodup_map planned.sessionIds (List.mem_of_find?_eq_some found) member
        isRow.1]

/-- The parts that `claimFinalize` accepts. -/
def Complete (parts : List UploadPart) (partCount : Nat) : Prop :=
  parts.length = partCount ∧ parts.map UploadPart.partIndex = List.range parts.length ∧
    (parts.any fun part => part.digest.all fun digest => digest == []) = false

theorem claimFinalize_claimed {namespaceId sessionId : Nat} {found : UploadSession}
    {parts : List UploadPart}
    (isFound : (tables.sessions.find? fun other => other.isRow namespaceId sessionId) =
      some found) :
    tables.claimFinalize namespaceId sessionId now = .claimed session parts ↔
      found = session ∧ tables.storedParts sessionId = parts ∧
        tables.active namespaceId = true ∧ found.isOpen now = true ∧
        Complete (tables.storedParts sessionId) found.partCount := by
  rw [claimFinalize, isFound, Complete]
  dsimp only
  split
  · rename_i inactive
    simp [inactive]
  · rename_i isActive
    split
    · rename_i finished
      have notOpen : found.isOpen now = false := by
        cases finished with
        | inl completed => simp [UploadSession.isOpen, completed]
        | inr failed => simp [UploadSession.isOpen, failed]
      simp [notOpen]
    · split
      · rename_i finalizing
        simp [UploadSession.isOpen, finalizing]
      · split
        · rename_i notOpen
          simp [notOpen]
        · rename_i isOpen
          rw [Bool.not_eq_false] at isActive isOpen
          split
          · rename_i incomplete
            rw [← Bool.not_eq_true]
            simp only [reduceCtorEq, false_iff]
            tauto
          · rename_i complete
            simp only [not_or, Classical.not_not, Bool.not_eq_true] at complete
            simp only [ClaimFinalizeResult.claimed.injEq, isActive, isOpen, complete.1,
              complete.2.1, complete.2.2, and_true]

/-- Where the parts are planned, complete parts are those that are all stored. -/
theorem PartsPlanned.complete_iff (planned : PartsPlanned tables)
    (member : session ∈ tables.sessions) :
    Complete (tables.storedParts session.id) session.partCount ↔
      ∀ index < session.partCount, StoredAt (tables.statusParts session.id) index := by
  rw [Complete, planned.storedParts_iff member]
  constructor
  · intro ⟨length, indices, _⟩
    rw [indices, length]
  · intro same
    have length : (tables.storedParts session.id).length = session.partCount := by
      have lengths := congrArg List.length same
      rwa [List.length_map, List.length_range] at lengths
    refine ⟨length, length ▸ same, ?_⟩
    rw [List.any_eq_false]
    intro part isPart
    have ⟨isRow, _, isStored⟩ := mem_storedParts.mp isPart
    have ⟨digest, isDigest, nonempty⟩ := planned.digested part isRow isStored
    simp [isDigest, nonempty]

theorem claims_iff (token leaseDurationMs : Nat) :
    tables.claims session token leaseDurationMs now = true ↔
      ∃ found parts, tables.claimFinalize session.namespaceId session.id now =
        .claimed found parts := by
  rw [claims, transact, UploadOperation.decide, beq_iff_eq]
  cases decided : tables.claimFinalize session.namespaceId session.id now with
  | claimed claimed parts =>
      cases isFound : tables.sessions.find? fun other =>
          other.isRow session.namespaceId session.id with
      | none =>
          rw [claimFinalize, isFound] at decided
          cases decided
      | some found =>
          have ⟨isClaimed, _, _, isOpen, _⟩ := (claimFinalize_claimed isFound).mp decided
          have isRow := List.find?_some isFound
          have isOther : ((tables.ensureUsage session.namespaceId).sessions.any fun other =>
              other.isRow session.namespaceId session.id && other.isOpen now) = true := by
            rw [(ensureUsage_rows tables session.namespaceId).1, List.any_eq_true]
            refine ⟨found, List.mem_of_find?_eq_some isFound, ?_⟩
            rw [Bool.and_eq_true]
            exact ⟨isRow, isOpen⟩
          simp [UploadTables.write, updateSession, isOther]
  | notFound => simp
  | incomplete => simp [UploadTables.write]
  | busy => simp [UploadTables.write]
  | closed => simp [UploadTables.write]
  | complete completed => simp [UploadTables.write]
  | inactive => simp

end UploadTables

/-! ## The diagnosis -/

theorem assessUploadPartAdmission_fileTooLarge (policy : UploadSessionPolicy)
    (namespaceId sizeBytes amountBytes : Nat) (globalStagedBytes namespaceStagedBytes : Int) :
    assessUploadPartAdmission sizeBytes amountBytes
        (resolveUploadSessionPolicy policy namespaceId).caps globalStagedBytes
        namespaceStagedBytes = .fileTooLarge ↔
      (resolveUploadSessionPolicy policy namespaceId).effectiveMaxStagedBytes < sizeBytes := by
  rw [assessUploadPartAdmission]
  constructor
  · intro refused
    split at refused
    · rename_i large
      exact large
    · split at refused
      · cases refused
      · split at refused
        · cases refused
        · cases refused
  · intro large
    exact if_pos large

theorem status_iff (planned : session.Planned) (parts : List UploadPart)
    (policy : ResolvedUploadSessionPolicy) (now : Nat) :
    ((diagnoseUploadSessionStaging session parts (some policy) now).status = some .partsStored ↔
        session.isOpen now = true ∧ ∀ index < session.partCount, StoredAt parts index) ∧
      ((diagnoseUploadSessionStaging session parts (some policy) now).status =
          some .partsInProgress ↔
        session.isOpen now = true ∧
          (∀ index < session.partCount, StoredAt parts index ∨ ReservedAt parts now index) ∧
          ∃ index < session.partCount, ¬ StoredAt parts index) ∧
      ((diagnoseUploadSessionStaging session parts (some policy) now).status =
          some .fileTooLarge →
        policy.effectiveMaxStagedBytes < session.sizeBytes) ∧
      ((diagnoseUploadSessionStaging session parts (some policy) now).status =
          some .withinLimit →
        session.sizeBytes ≤ policy.effectiveMaxStagedBytes ∧
          ∃ index < session.partCount, ¬ StoredAt parts index ∧ ¬ ReservedAt parts now index) := by
  rw [diagnose_status]
  by_cases isOpen : session.isOpen now = true
  · rw [if_pos isOpen]
    simp only [Option.some.injEq, isOpen, true_and]
    rcases stagingStatus_cases planned.bounded parts policy now with
      ⟨status, facts⟩ | ⟨status, facts⟩ | ⟨status, facts⟩ | ⟨status, facts⟩
    · simp only [status, reduceCtorEq, false_iff, false_implies, and_self, and_true, true_iff]
      refine ⟨facts, ?_⟩
      intro ⟨_, index, inRange, missing⟩
      exact missing (facts index inRange)
    · simp only [status, reduceCtorEq, false_iff, false_implies, and_self, and_true, true_iff]
      refine ⟨?_, facts⟩
      intro all
      have ⟨_, index, inRange, missing⟩ := facts
      exact missing (all index inRange)
    · have ⟨large, index, inRange, notStored, notReserved⟩ := facts
      simp only [status, reduceCtorEq, false_iff, false_implies, and_true, forall_const]
      refine ⟨?_, ?_, large⟩
      · intro all
        exact notStored (all index inRange)
      · intro ⟨all, _⟩
        exact (all index inRange).elim notStored notReserved
    · have ⟨_, index, inRange, notStored, notReserved⟩ := facts
      simp only [status, reduceCtorEq, false_iff, false_implies, true_and, forall_const]
      refine ⟨?_, ?_, facts⟩
      · intro all
        exact notStored (all index inRange)
      · intro ⟨all, _⟩
        exact (all index inRange).elim notStored notReserved
  · simp [isOpen]

theorem plan_lengths {policy : ResolvedUploadSessionPolicy} {sizeBytes : Nat}
    {plan : NewUploadSessionPlan} (isPlan : policy.plan sizeBytes now = some plan) :
    (∀ index < plan.partCount,
      0 < expectedPartSize sizeBytes plan.partSizeBytes plan.partCount index ∧
        expectedPartSize sizeBytes plan.partSizeBytes plan.partCount index ≤
          plan.partSizeBytes) ∧
      ((List.range plan.partCount).map
        (expectedPartSize sizeBytes plan.partSizeBytes plan.partCount)).sum = sizeBytes := by
  dsimp only [ResolvedUploadSessionPolicy.plan, planNewUploadSession] at isPlan
  split at isPlan
  · cases isPlan
  · cases isPlan
    constructor
    · intro index inRange
      exact expectedPartSize_bounds policy.partSizeBytes.pos inRange
    · exact sum_expectedPartSize policy.partSizeBytes.pos

/-- In every state that the services' requests lead to, the diagnosis of a session agrees
with what the next transaction on the same rows decides. A session in a namespace that is
being deleted is never claimed. -/
theorem diagnosis_tells_next_step {system : UploadSystem}
    (reached : uploadMachine.ReachableBy UploadSystem.Requested system) {session : UploadSession}
    (member : session ∈ system.tables.sessions) (policy : UploadSessionPolicy) (now : Nat) :
    let parts := system.tables.statusParts session.id
    let resolved := resolveUploadSessionPolicy policy session.namespaceId
    let status := (diagnoseUploadSessionStaging session parts (some resolved) now).status
    (∀ token leaseDurationMs,
      system.tables.claims session token leaseDurationMs now = true ↔
        status = some .partsStored ∧ system.tables.active session.namespaceId = true) ∧
      (status = some .fileTooLarge →
        ∀ amountBytes globalStagedBytes namespaceStagedBytes,
          assessUploadPartAdmission session.sizeBytes amountBytes resolved.caps globalStagedBytes
            namespaceStagedBytes = .fileTooLarge) ∧
      (status = some .withinLimit →
        (∀ amountBytes globalStagedBytes namespaceStagedBytes,
          assessUploadPartAdmission session.sizeBytes amountBytes resolved.caps globalStagedBytes
            namespaceStagedBytes ≠ .fileTooLarge) ∧
          ∃ index < session.partCount, ¬ StoredAt parts index ∧ ¬ ReservedAt parts now index) ∧
      (status = some .partsInProgress ↔
        session.isOpen now = true ∧
          (∀ index < session.partCount, StoredAt parts index ∨ ReservedAt parts now index) ∧
          ∃ index < session.partCount, ¬ StoredAt parts index) ∧
      ∀ (anyPolicy : ResolvedUploadSessionPolicy) sizeBytes createdAt plan,
        anyPolicy.plan sizeBytes createdAt = some plan →
          (∀ index < plan.partCount,
            0 < expectedPartSize sizeBytes plan.partSizeBytes plan.partCount index ∧
              expectedPartSize sizeBytes plan.partSizeBytes plan.partCount index ≤
                plan.partSizeBytes) ∧
            ((List.range plan.partCount).map
              (expectedPartSize sizeBytes plan.partSizeBytes plan.partCount)).sum =
                sizeBytes := by
  have planned := (UploadSystem.planned reached).tables
  intro parts resolved status
  have ⟨stored, inProgress, tooLarge, within⟩ :=
    status_iff (planned.planned session member) parts resolved now
  refine ⟨?_, ?_, ?_, inProgress, ?_⟩
  · intro token leaseDurationMs
    have isFound := planned.find_session member
    rw [UploadTables.claims_iff, stored, ← planned.complete_iff member]
    constructor
    · intro ⟨found, claimedParts, claimed⟩
      have ⟨_, _, isActive, isOpen, complete⟩ :=
        (UploadTables.claimFinalize_claimed isFound).mp claimed
      exact ⟨⟨isOpen, complete⟩, isActive⟩
    · intro ⟨⟨isOpen, complete⟩, isActive⟩
      exact ⟨session, _, (UploadTables.claimFinalize_claimed isFound).mpr
        ⟨rfl, rfl, isActive, isOpen, complete⟩⟩
  · intro isTooLarge amountBytes globalStagedBytes namespaceStagedBytes
    apply (assessUploadPartAdmission_fileTooLarge policy session.namespaceId ..).mpr
    exact tooLarge isTooLarge
  · intro isWithin
    have ⟨fits, missing⟩ := within isWithin
    refine ⟨?_, missing⟩
    intro amountBytes globalStagedBytes namespaceStagedBytes refused
    have large := (assessUploadPartAdmission_fileTooLarge policy session.namespaceId ..).mp refused
    exact absurd fits (Int.not_le.mpr large)
  · intro anyPolicy sizeBytes createdAt plan isPlan
    exact plan_lengths isPlan

/-! ## A session whose only part is stored -/

def fiveBytePolicy : UploadSessionPolicy where
  globalPolicy := ⟨⟨100, 10⟩, 5, 1, 1⟩
  namespaces := fun _ => none

def uploadedPart : List UploadAction :=
  let caps := (resolveUploadSessionPolicy fiveBytePolicy 7).caps
  [.lock (.createSession
      { id := 1, namespaceId := 7, scope := [], creationKey := [], fingerprint := [],
        targetPath := [], sizeBytes := 5, sha256 := none, mimeType := [],
        condition := .ifAbsent none, partSizeBytes := 5, partCount := 1,
        expiresAt := 1000, maxExpiresAt := 1000, requestId := none } caps),
    .commit,
    .lock (.reservePart 1 0 5 [0x6b] caps 60 0), .commit,
    .lock (.commitPart 1 0 [0x64] none (some [0x6b]) (some 1) 1), .commit]

theorem uploadedPart_requested :
    ∀ action ∈ uploadedPart, ∀ system, UploadSystem.Requested system action := by
  intro action member system
  simp only [uploadedPart, List.mem_cons, List.not_mem_nil, or_false] at member
  rcases member with rfl | rfl | rfl | rfl | rfl | rfl
  · exact ⟨resolveUploadSessionPolicy fiveBytePolicy 7, 0, by decide⟩
  · trivial
  · trivial
  · trivial
  · exact List.cons_ne_nil _ _
  · trivial

/-- The diagnosis of the session and whether it is claimed, one millisecond later. -/
def diagnosed (system : UploadSystem) (session : UploadSession) :
    Option UploadSessionStagingStatus × Bool :=
  ((diagnoseUploadSessionStaging session (system.tables.statusParts session.id)
      (some (resolveUploadSessionPolicy fiveBytePolicy session.namespaceId)) 2).status,
    system.tables.claims session 99 1000 2)

/-- The part is stored, and so the session is claimed. -/
theorem stored_session_is_claimed :
    ∃ system session, uploadMachine.ReachableBy UploadSystem.Requested system ∧
      session ∈ system.tables.sessions ∧
      diagnosed system session = (some .partsStored, true) := by
  have passes : (uploadMachine.trace UploadSystem.empty uploadedPart).any (fun system =>
      system.tables.sessions.any fun session =>
        decide ((diagnosed system session).1 = some .partsStored) &&
          system.tables.active session.namespaceId) = true := by
    decide +kernel
  have ⟨system, reached, facts⟩ := Machine.exists_reachableBy
    (.start UploadSystem.empty_initial) uploadedPart_requested passes
  have ⟨session, member, stored⟩ := List.any_eq_true.mp facts
  rw [Bool.and_eq_true, decide_eq_true_eq] at stored
  have ⟨claimed, _⟩ := diagnosis_tells_next_step reached member fiveBytePolicy 2
  refine ⟨system, session, reached, member, ?_⟩
  exact Prod.ext stored.1 ((claimed 99 1000).mpr stored)

/-- Once the deletion of the namespace is accepted, the status still says that all parts are
stored, and `claimFinalize` refuses. -/
theorem stored_session_is_not_claimed :
    ¬ ∀ system session, uploadMachine.ReachableBy UploadSystem.Requested system →
      session ∈ system.tables.sessions →
        ((diagnosed system session).1 = some .partsStored ↔
          (diagnosed system session).2 = true) := by
  intro always
  have requested : ∀ action ∈ uploadedPart ++ [.deactivate 7],
      ∀ system, UploadSystem.Requested system action := by
    intro action member system
    cases List.mem_append.mp member with
    | inl isEarlier => exact uploadedPart_requested action isEarlier system
    | inr isLast =>
        rw [List.mem_singleton.mp isLast]
        trivial
  have passes : (uploadMachine.trace UploadSystem.empty
      (uploadedPart ++ [.deactivate 7])).any (fun system =>
        system.tables.sessions.any fun session =>
          decide (diagnosed system session = (some .partsStored, false))) = true := by
    decide +kernel
  have ⟨system, reached, facts⟩ := Machine.exists_reachableBy
    (.start UploadSystem.empty_initial) requested passes
  have ⟨session, member, different⟩ := List.any_eq_true.mp facts
  rw [decide_eq_true_eq] at different
  have same := always system session reached member
  rw [different] at same
  exact Bool.noConfusion (same.mp rfl)

end Storix
