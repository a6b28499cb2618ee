import Storix.Persistence.UploadAccounting
import Storix.Invariants.UploadWrites

/-! # Staging is accounted exactly

The books are right in every state that a run leads to, in whatever order the transactions
run, as long as a prune deletes no session with a charged part. -/

namespace Storix

open Foundation

/-! ## Runs -/

namespace UploadSystem

variable {system after : UploadSystem}

structure Accounted (system : UploadSystem) : Prop where
  books : system.tables.Books
  fits : ∀ planned, system.holder = some planned → planned.Fits system.tables

theorem Accounted.meanwhile (accounted : Accounted system) {tables : UploadTables}
    {prunes : Nat → PrunePhase} (books : tables.Books)
    (meanwhile : UploadTables.Meanwhile system.tables tables) :
    Accounted { system with tables := tables, prunes := prunes } where
  books := books
  fits := fun planned isPlanned => meanwhile.fits (accounted.fits planned isPlanned)

theorem Initial.accounted (first : Initial system) : Accounted system where
  books :=
    { sessionIds := by rw [first.sessions]; exact List.nodup_nil
      partKeys := by rw [first.parts]; exact List.nodup_nil
      owned := by rw [first.parts]; exact fun _ member => absurd member List.not_mem_nil
      cleanupKeys := by rw [first.cleanups]; exact List.nodup_nil
      cleanupHome := by rw [first.cleanups]; exact fun _ member => absurd member List.not_mem_nil
      usageIds := by rw [first.usage]; exact List.nodup_nil
      sessionUsage := by rw [first.sessions]; exact fun _ member => absurd member List.not_mem_nil
      cleanupUsage := by rw [first.cleanups]; exact fun _ member => absurd member List.not_mem_nil
      counted := by rw [first.usage]; exact fun _ member => absurd member List.not_mem_nil
      globalActive := by rw [first.usage, first.globalUsage]; rfl
      globalStaged := by rw [first.usage, first.globalUsage]; rfl }
  fits := by
    intro planned isPlanned
    rw [first.holder] at isPlanned
    cases isPlanned

theorem Accounted.step (accounted : Accounted system) {action : UploadAction}
    (settled : system.PrunesSettled action) (taken : system.next action = some after) :
    Accounted after := by
  cases action with
  | lock operation =>
      dsimp only [UploadSystem.next] at taken
      split at taken
      · cases taken
      · cases taken
        exact ⟨accounted.books, fun planned isPlanned =>
          operation.decide_fits accounted.books.toRows isPlanned⟩
  | commit =>
      rcases Option.map_eq_some_iff.mp taken with ⟨planned, isPlanned, rfl⟩
      split
      · exact ⟨accounted.books, fun _ isNone => nomatch isNone⟩
      · rename_i tables applied isWritten
        exact ⟨accounted.books.write (accounted.fits planned isPlanned) isWritten,
          fun _ isNone => nomatch isNone⟩
  | rollback =>
      cases taken
      exact ⟨accounted.books, fun _ isNone => nomatch isNone⟩
  | deactivate namespaceId =>
      dsimp only [UploadSystem.next] at taken
      split at taken
      · cases taken
      · rename_i isFree
        cases taken
        have ensured := accounted.books.ensureUsage namespaceId
        refine ⟨⟨⟨ensured.sessionIds, ensured.partKeys, ensured.owned, ensured.cleanupKeys,
          ensured.cleanupHome⟩, ensured.usageIds, ensured.sessionUsage, ensured.cleanupUsage,
          ensured.counted, ensured.globalActive, ensured.globalStaged⟩, ?_⟩
        intro planned isPlanned
        rw [isPlanned] at isFree
        exact absurd rfl isFree
  | renewPartLease sessionId partIndex stagingKey leaseSeconds now =>
      cases taken
      exact accounted.meanwhile (accounted.books.renewPartLease ..) (.renewPartLease ..)
  | renewFinalize namespaceId sessionId token leaseDurationMs now =>
      cases taken
      exact accounted.meanwhile (accounted.books.renewFinalize ..)
        (.updateSessions _ fun _ => rfl)
  | releaseFinalize namespaceId sessionId token code failedAt =>
      cases taken
      exact accounted.meanwhile (accounted.books.releaseFinalize ..)
        (.updateSessions _ fun _ => rfl)
  | recoverStaleFinalizingLeases ids now =>
      cases taken
      exact accounted.meanwhile (accounted.books.recoverStaleFinalizingLeases ..)
        (.updateSessions _ fun _ => rfl)
  | pruneSelect run sessionId before =>
      dsimp only [UploadSystem.next] at taken
      split at taken
      · cases taken
        exact accounted.meanwhile accounted.books (.refl _)
      · cases taken
  | pruneCount run =>
      dsimp only [UploadSystem.next] at taken
      split at taken
      · split at taken
        · cases taken
          exact accounted.meanwhile accounted.books (.refl _)
        · cases taken
          exact accounted.meanwhile accounted.books (.refl _)
      · cases taken
  | pruneDelete run =>
      dsimp only [UploadSystem.next] at taken
      split at taken
      · rename_i sessionId before isCounted
        cases taken
        have none := settled sessionId before isCounted
        exact accounted.meanwhile (accounted.books.pruneSession before none)
          (.deleteSessions (UploadTables.prune_free none))
      · cases taken

theorem accounted (reached : uploadMachine.ReachableBy PrunesSettled system) : Accounted system :=
  reached.invariant Accounted (fun _ first => Initial.accounted first)
    fun _ _ _ settled accounted taken => accounted.step settled taken

end UploadSystem

/-- In every run whose prunes delete no session with a charged part, every counter is the
sum over its rows, and an admitted reservation is within both caps. -/
theorem staging_accounted {system : UploadSystem}
    (reached : uploadMachine.ReachableBy UploadSystem.PrunesSettled system) :
    (∀ namespaceId,
      (system.tables.usageOf namespaceId).stagedBytes = system.tables.staged namespaceId ∧
        (system.tables.usageOf namespaceId).activeSessions = system.tables.live namespaceId ∧
        0 ≤ (system.tables.usageOf namespaceId).stagedBytes ∧
        0 ≤ (system.tables.usageOf namespaceId).activeSessions) ∧
      (system.tables.usage.map UploadUsage.namespaceId).Nodup ∧
      system.tables.globalUsage.stagedBytes =
        (system.tables.usage.map fun row => row.stagedBytes).sum ∧
      system.tables.globalUsage.activeSessions =
        (system.tables.usage.map fun row => row.activeSessions).sum ∧
      0 ≤ system.tables.globalUsage.stagedBytes ∧
      0 ≤ system.tables.globalUsage.activeSessions ∧
      ∀ namespaceId caps part written,
        system.holder = some (.insertPart namespaceId caps part) →
          system.tables.write (.insertPart namespaceId caps part) = some written →
            written.1.globalUsage.stagedBytes ≤ caps.globalLimits.maxStagedBytes ∧
              (written.1.usageOf namespaceId).stagedBytes ≤
                caps.namespaceLimits.maxStagedBytes := by
  have accounted := UploadSystem.accounted reached
  have books := accounted.books
  refine ⟨?_, books.usageIds, books.globalStaged, books.globalActive, books.global_nonneg.2,
    books.global_nonneg.1, ?_⟩
  · intro namespaceId
    rcases books.usageOf namespaceId with ⟨active, bytes⟩
    rw [active, bytes]
    exact ⟨rfl, rfl, system.tables.staged_nonneg namespaceId, system.tables.live_nonneg namespaceId⟩
  · intro namespaceId caps part written isPlanned isWritten
    have fits := accounted.fits _ isPlanned
    rcases books.reserve fits isWritten with ⟨_, globalBytes, bytes⟩
    rw [globalBytes, bytes]
    exact fits.2.2

/-! ## A session that is uploaded, closed and pruned -/

def UploadSystem.empty : UploadSystem where
  tables := ⟨[], [], [], ⟨0, 0⟩, [], fun _ => true⟩
  holder := none
  prunes := fun _ => .idle

theorem UploadSystem.empty_initial : UploadSystem.empty.Initial :=
  ⟨rfl, rfl, rfl, rfl, rfl, rfl, fun _ => rfl⟩

def uploadedAndDeleted : List UploadAction :=
  let caps : UploadPolicyCaps := ⟨⟨100, 10⟩, ⟨100, 10⟩⟩
  [.lock (.createSession
      { id := 1, namespaceId := 7, scope := [], creationKey := [], fingerprint := [],
        targetPath := [], sizeBytes := 5, sha256 := none, mimeType := [],
        condition := .ifAbsent none, partSizeBytes := 5, partCount := 1,
        expiresAt := 1000, maxExpiresAt := 1000, requestId := none } caps),
    .commit,
    .lock (.reservePart 1 0 5 [0x6b] caps 60 0), .commit,
    .lock (.commitPart 1 0 [0x64] none (some [0x6b]) (some 1) 1), .commit,
    .lock (.claimFinalize 7 1 99 1000 2), .commit,
    .lock (.completeFinalize 7 1 99 1000 201 [] [] 3), .commit,
    .lock (.markStagingObjectDeleted 1 0 [0x6b] .stored 4), .commit]

/-- The late cleanup of the PUT charges the part again, and then the part is charged. -/
theorem staging_accounted_recharged :
    ∃ system, uploadMachine.ReachableBy UploadSystem.PrunesSettled system ∧
      (system.tables.usageOf 7).stagedBytes = 5 ∧ system.tables.staged 7 = 5 := by
  have isAllowed : ∀ action ∈ uploadedAndDeleted ++
      [.lock (.releasePartReservation 1 0 true (some [0x6b]) 5), .commit],
        ∀ system, UploadSystem.PrunesSettled system action := by
    intro action member system
    cases action with
    | pruneDelete run =>
        rw [uploadedAndDeleted] at member
        simp at member
    | _ => trivial
  have passes : (uploadMachine.trace UploadSystem.empty (uploadedAndDeleted ++
      [.lock (.releasePartReservation 1 0 true (some [0x6b]) 5), .commit])).any
        (fun system => (system.tables.usageOf 7).stagedBytes == 5) = true := by
    decide +kernel
  rcases Machine.exists_reachableBy (.start UploadSystem.empty_initial) isAllowed passes with
    ⟨system, reached, bytes⟩
  have counted := ((staging_accounted reached).1 7).1
  exact ⟨system, reached, by simpa using bytes, by simpa [counted] using bytes⟩

/-- The same between the count and the DELETE of a prune: the bytes stay charged to no row. -/
theorem not_staging_accounted :
    ¬ ∀ system, uploadMachine.Reachable system → ∀ namespaceId,
      (system.tables.usageOf namespaceId).stagedBytes = system.tables.staged namespaceId := by
  intro always
  have passes : (uploadMachine.trace UploadSystem.empty (uploadedAndDeleted ++
      [.pruneSelect 0 1 10, .pruneCount 0,
        .lock (.releasePartReservation 1 0 true (some [0x6b]) 5), .commit, .pruneDelete 0])).any
        (fun system => (system.tables.usageOf 7).stagedBytes == 5 &&
          system.tables.staged 7 == 0) = true := by
    decide +kernel
  rcases Machine.exists_reachable (.start UploadSystem.empty_initial) passes with
    ⟨system, reached, facts⟩
  rw [Bool.and_eq_true, beq_iff_eq, beq_iff_eq] at facts
  have same := always system reached 7
  rw [facts.1, facts.2] at same
  exact absurd same (by decide)

end Storix
