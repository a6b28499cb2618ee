import Storix.Invariants.UploadBooks

/-! # What transactions do to the books

A transaction under the usage lock plans its write from what it read. The statements of the
others leave that in place until it commits, and then the write changes the counters and
the rows by the same amount. -/

namespace Storix

open Foundation

variable {tables next : UploadTables} {namespaceId : Nat}

/-! ## What a transaction found is still so when it writes -/

def UploadTables.Sized (tables : UploadTables) (sessionId partIndex sizeBytes : Nat) : Prop :=
  ∀ part ∈ tables.parts, part.isRow sessionId partIndex = true → part.sizeBytes = sizeBytes

def UploadWrite.Fits (tables : UploadTables) : UploadWrite → Prop
  | .insertSession session => session.state = .opened
  | .insertPart namespaceId caps part =>
      tables.Home part.sessionId namespaceId ∧ part.state = .reserved ∧
        tables.globalUsage.stagedBytes + part.sizeBytes ≤ caps.globalLimits.maxStagedBytes ∧
        (tables.usageOf namespaceId).stagedBytes + part.sizeBytes ≤
          caps.namespaceLimits.maxStagedBytes
  | .retirePart namespaceId sessionId partIndex _ sizeBytes _ =>
      tables.Home sessionId namespaceId ∧ tables.Sized sessionId partIndex sizeBytes
  | .refundTombstone namespaceId stagingKey sizeBytes =>
      ∃ old ∈ tables.cleanups, old.stagingKey = stagingKey ∧ old.namespaceId = namespaceId ∧
        old.sizeBytes = sizeBytes
  | .rechargePart namespaceId sessionId partIndex _ sizeBytes =>
      tables.Home sessionId namespaceId ∧ tables.Sized sessionId partIndex sizeBytes
  | .cleanUpPart _ sessionId partIndex =>
      ∀ part ∈ tables.parts, part.isRow sessionId partIndex = true → part.state ≠ .deleted
  | .removePart namespaceId sessionId partIndex sizeBytes =>
      tables.Home sessionId namespaceId ∧ tables.Sized sessionId partIndex sizeBytes ∧
        ∃ part ∈ tables.parts, part.isRow sessionId partIndex = true ∧ part.state ≠ .deleted
  | .deletePart namespaceId sessionId partIndex _ expectedState sizeBytes _ =>
      tables.Home sessionId namespaceId ∧ tables.Sized sessionId partIndex sizeBytes ∧
        expectedState ≠ .deleted
  | _ => True

structure UploadTables.Meanwhile (tables next : UploadTables) : Prop where
  sessions : ∀ session ∈ next.sessions, ∃ old ∈ tables.sessions,
    old.id = session.id ∧ old.namespaceId = session.namespaceId
  parts : ∀ part ∈ next.parts, ∃ old ∈ tables.parts, old.sessionId = part.sessionId ∧
    old.partIndex = part.partIndex ∧ old.sizeBytes = part.sizeBytes ∧ old.state = part.state
  charged : ∀ old ∈ tables.parts, old.state ≠ .deleted → ∃ part ∈ next.parts,
    part.sessionId = old.sessionId ∧ part.partIndex = old.partIndex ∧ part.state = old.state
  cleanups : next.cleanups = tables.cleanups
  globalUsage : next.globalUsage = tables.globalUsage
  usage : next.usage = tables.usage

theorem UploadPart.isRow_congr {part old : UploadPart} {sessionId partIndex : Nat}
    (sameSession : old.sessionId = part.sessionId) (sameIndex : old.partIndex = part.partIndex)
    (isRow : part.isRow sessionId partIndex = true) : old.isRow sessionId partIndex = true := by
  unfold UploadPart.isRow at isRow ⊢
  rw [sameSession, sameIndex]
  exact isRow

namespace UploadTables.Meanwhile

theorem home (meanwhile : Meanwhile tables next) {sessionId : Nat}
    (home : tables.Home sessionId namespaceId) : next.Home sessionId namespaceId := by
  intro session member sameId
  rcases meanwhile.sessions session member with ⟨old, isOld, oldId, oldNamespace⟩
  exact oldNamespace.symm.trans (home old isOld (oldId.trans sameId))

theorem sized (meanwhile : Meanwhile tables next) {sessionId partIndex sizeBytes : Nat}
    (sized : tables.Sized sessionId partIndex sizeBytes) :
    next.Sized sessionId partIndex sizeBytes := by
  intro part member isRow
  rcases meanwhile.parts part member with ⟨old, isOld, sameSession, sameIndex, sameSize, _⟩
  exact sameSize.symm.trans
    (sized old isOld (UploadPart.isRow_congr sameSession sameIndex isRow))

theorem fits (meanwhile : Meanwhile tables next) {planned : UploadWrite}
    (fits : planned.Fits tables) : planned.Fits next := by
  cases planned with
  | insertPart namespaceId caps part =>
      rcases fits with ⟨home, isReserved, globalRoom, room⟩
      refine ⟨meanwhile.home home, isReserved, meanwhile.globalUsage ▸ globalRoom, ?_⟩
      unfold usageOf
      rw [meanwhile.usage]
      exact room
  | retirePart namespaceId sessionId partIndex stagingKey sizeBytes now =>
      exact ⟨meanwhile.home fits.1, meanwhile.sized fits.2⟩
  | refundTombstone namespaceId stagingKey sizeBytes =>
      rcases fits with ⟨old, isOld, same⟩
      exact ⟨old, meanwhile.cleanups ▸ isOld, same⟩
  | rechargePart namespaceId sessionId partIndex stagingKey sizeBytes =>
      exact ⟨meanwhile.home fits.1, meanwhile.sized fits.2⟩
  | cleanUpPart namespaceId sessionId partIndex =>
      intro part member isRow
      rcases meanwhile.parts part member with ⟨old, isOld, sameSession, sameIndex, _, sameState⟩
      exact sameState ▸ fits old isOld (UploadPart.isRow_congr sameSession sameIndex isRow)
  | removePart namespaceId sessionId partIndex sizeBytes =>
      rcases fits with ⟨home, sized, old, isOld, isRow, isCharged⟩
      rcases meanwhile.charged old isOld isCharged with
        ⟨part, isPart, sameSession, sameIndex, sameState⟩
      exact ⟨meanwhile.home home, meanwhile.sized sized, part, isPart,
        UploadPart.isRow_congr sameSession sameIndex isRow, sameState ▸ isCharged⟩
  | deletePart namespaceId sessionId partIndex stagingKey expectedState sizeBytes now =>
      exact ⟨meanwhile.home fits.1, meanwhile.sized fits.2.1, fits.2.2⟩
  | insertSession session => exact fits
  | _ => trivial

end UploadTables.Meanwhile

/-! ## What a transaction finds -/

namespace UploadTables

theorem Rows.homeOf (rows : Rows tables) {sessionId : Nat} {session : UploadSession}
    (found : tables.findSession sessionId = some session) :
    tables.Home sessionId session.namespaceId := by
  rcases findSession_eq_some found with ⟨member, sameId⟩
  intro other isOther otherId
  rw [List.inj_on_of_nodup_map rows.sessionIds isOther member (otherId.trans sameId.symm)]

theorem findPart_eq_some {sessionId partIndex : Nat} {part : UploadPart}
    (found : tables.findPart sessionId partIndex = some part) :
    part ∈ tables.parts ∧ part.isRow sessionId partIndex = true :=
  ⟨List.mem_of_find?_eq_some found, by simpa using List.find?_some found⟩

theorem Rows.onlyPart (rows : Rows tables) {sessionId partIndex : Nat} {part : UploadPart}
    (found : tables.findPart sessionId partIndex = some part) {other : UploadPart}
    (member : other ∈ tables.parts) (isRow : other.isRow sessionId partIndex = true) :
    other = part := by
  rcases findPart_eq_some found with ⟨isPart, isPartRow⟩
  exact List.inj_on_of_nodup_map rows.partKeys member isPart
    ((partKey_of_isRow isRow).trans (partKey_of_isRow isPartRow).symm)

theorem Rows.sizedOf (rows : Rows tables) {sessionId partIndex : Nat} {part : UploadPart}
    (found : tables.findPart sessionId partIndex = some part) :
    tables.Sized sessionId partIndex part.sizeBytes := by
  intro other member isRow
  rw [rows.onlyPart found member isRow]

theorem createSession_created {input : CreateUploadSessionInput} {caps : UploadPolicyCaps}
    {session : UploadSession} (created : tables.createSession input caps = .created session) :
    session = input.session := by
  unfold createSession at created
  split at created
  · cases created
  · split at created
    · split at created
      · cases created
      · cases created
    · split at created
      · cases created
      · cases created
        rfl

theorem reservePart_reserved {sessionId partIndex sizeBytes leaseSeconds now : Nat}
    {stagingKey : JsString} {caps : UploadPolicyCaps} {session : UploadSession} {part : UploadPart}
    (found : tables.findSession sessionId = some session)
    (reserved : tables.reservePart sessionId partIndex sizeBytes stagingKey caps leaseSeconds now =
      .reserved part) :
    part.sessionId = sessionId ∧ part.partIndex < session.partCount ∧ part.state = .reserved ∧
      tables.globalUsage.stagedBytes + part.sizeBytes ≤ caps.globalLimits.maxStagedBytes ∧
      (tables.usageOf session.namespaceId).stagedBytes + part.sizeBytes ≤
        caps.namespaceLimits.maxStagedBytes := by
  unfold reservePart at reserved
  split at reserved
  · cases reserved
  · rw [found] at reserved
    dsimp only at reserved
    iterate 3
      split at reserved
      · cases reserved
    split at reserved
    · cases reserved
    · iterate 2
        split at reserved
        · cases reserved
      split at reserved
      · cases reserved
      · rename_i inRange
        split at reserved
        · cases reserved
        · cases reserved
        · rename_i allowed
          cases reserved
          exact ⟨rfl, Nat.lt_of_not_le inRange, rfl, assessUploadPartAdmission_allowed allowed⟩

end UploadTables

structure UploadTables.FoundPart (tables : UploadTables) (namespaceId sessionId partIndex : Nat)
    (part : UploadPart) : Prop where
  session : ∃ session, tables.findSession sessionId = some session ∧
    session.namespaceId = namespaceId
  part : tables.findPart sessionId partIndex = some part

namespace UploadTables.FoundPart

variable {sessionId partIndex : Nat} {part : UploadPart}

theorem home (found : tables.FoundPart namespaceId sessionId partIndex part) (rows : tables.Rows) :
    tables.Home sessionId namespaceId := by
  rcases found.session with ⟨session, isSession, rfl⟩
  exact rows.homeOf isSession

theorem sized (found : tables.FoundPart namespaceId sessionId partIndex part) (rows : tables.Rows) :
    tables.Sized sessionId partIndex part.sizeBytes := rows.sizedOf found.part

end UploadTables.FoundPart

def UploadOperation.Plans (tables : UploadTables) (operation : UploadOperation) :
    UploadWrite → Prop
  | .insertSession session => ∃ input caps,
      operation = .createSession input caps ∧ session = input.session
  | .insertPart namespaceId caps part => ∃ session,
      tables.findSession part.sessionId = some session ∧ session.namespaceId = namespaceId ∧
        part.partIndex < session.partCount ∧ part.state = .reserved ∧
        tables.globalUsage.stagedBytes + part.sizeBytes ≤ caps.globalLimits.maxStagedBytes ∧
        (tables.usageOf namespaceId).stagedBytes + part.sizeBytes ≤
          caps.namespaceLimits.maxStagedBytes
  | .storePart _ sessionId partIndex stagingKey digest encryptionIv _ now => ∃ inactivitySeconds,
      operation =
        .commitPart sessionId partIndex digest encryptionIv stagingKey inactivitySeconds now
  | .retirePart namespaceId sessionId partIndex _ sizeBytes _ => ∃ part,
      tables.FoundPart namespaceId sessionId partIndex part ∧ part.sizeBytes = sizeBytes
  | .refundTombstone namespaceId stagingKey sizeBytes => ∃ old ∈ tables.cleanups,
      old.stagingKey = stagingKey ∧ old.sizeBytes = sizeBytes ∧
        (old.namespaceId = namespaceId ∨ ∃ session,
          tables.findSession old.sessionId = some session ∧ session.namespaceId = namespaceId)
  | .rechargePart namespaceId sessionId partIndex _ sizeBytes => ∃ part,
      tables.FoundPart namespaceId sessionId partIndex part ∧ part.sizeBytes = sizeBytes
  | .cleanUpPart namespaceId sessionId partIndex => ∃ part,
      tables.FoundPart namespaceId sessionId partIndex part ∧ part.state = .reserved
  | .removePart namespaceId sessionId partIndex sizeBytes => ∃ part,
      tables.FoundPart namespaceId sessionId partIndex part ∧ part.sizeBytes = sizeBytes ∧
        part.state = .reserved
  | .deletePart namespaceId sessionId partIndex _ expectedState sizeBytes _ => ∃ part,
      tables.FoundPart namespaceId sessionId partIndex part ∧ part.sizeBytes = sizeBytes ∧
        expectedState ≠ .deleted
  | _ => True

theorem UploadOperation.decide_plans {operation : UploadOperation} {planned : UploadWrite}
    (decided : operation.decide tables = some planned) : operation.Plans tables planned := by
  cases operation with
  | createSession input caps =>
      dsimp only [UploadOperation.decide] at decided
      split at decided
      · rename_i session created
        cases decided
        exact ⟨input, caps, rfl, UploadTables.createSession_created created⟩
      · cases decided
      · cases decided
        trivial
  | reservePart sessionId partIndex sizeBytes stagingKey caps leaseSeconds now =>
      rcases Option.bind_eq_some_iff.mp decided with ⟨session, found, decided⟩
      split at decided
      · rename_i part reserved
        cases decided
        rcases UploadTables.reservePart_reserved found reserved with ⟨sameId, facts⟩
        exact ⟨session, sameId ▸ found, rfl, facts⟩
      · cases decided
      · cases decided
        trivial
  | commitPart sessionId partIndex digest encryptionIv stagingKey inactivitySeconds now =>
      rcases Option.map_eq_some_iff.mp decided with ⟨session, found, rfl⟩
      split
      · exact ⟨inactivitySeconds, rfl⟩
      · trivial
  | retireExpiredPartReservation sessionId partIndex stagingKey now =>
      rcases Option.map_eq_some_iff.mp decided with ⟨session, found, rfl⟩
      split
      · rename_i part isPart
        rcases Option.filter_eq_some_iff.mp isPart with ⟨foundPart, _⟩
        exact ⟨part, ⟨⟨session, found, rfl⟩, foundPart⟩, rfl⟩
      · trivial
  | releasePartReservation sessionId partIndex objectMayExist stagingKey now =>
      rcases Option.map_eq_some_iff.mp decided with ⟨session, found, rfl⟩
      split
      · split
        · trivial
        · split
          · trivial
          · rename_i old isOld
            split
            · trivial
            · have passes := List.find?_some isOld
              rw [Bool.and_eq_true, Bool.and_eq_true, beq_iff_eq, beq_iff_eq] at passes
              exact ⟨old, List.mem_of_find?_eq_some isOld, passes.1.1, rfl,
                .inr ⟨session, passes.1.2 ▸ found, rfl⟩⟩
      · rename_i part isPart
        rcases Option.filter_eq_some_iff.mp isPart with ⟨foundPart, _⟩
        have isFound : tables.FoundPart session.namespaceId sessionId partIndex part :=
          ⟨⟨session, found, rfl⟩, foundPart⟩
        cases isState : part.state with
        | deleted =>
            cases stagingKey with
            | none => trivial
            | some key =>
                dsimp only
                split
                · exact ⟨part, isFound, rfl⟩
                · trivial
        | reserved =>
            dsimp only
            split
            · exact ⟨part, isFound, isState⟩
            · exact ⟨part, isFound, rfl, isState⟩
        | stored => trivial
        | cleanup => trivial
  | claimTerminalTransition namespaceId sessionId next now =>
      dsimp only [UploadOperation.decide] at decided
      split at decided
      · split at decided
        · cases decided
          trivial
        · cases decided
          trivial
      · cases decided
        trivial
  | claimFinalize namespaceId sessionId token leaseDurationMs now =>
      dsimp only [UploadOperation.decide] at decided
      split at decided
      · cases decided
        trivial
      · cases decided
      · cases decided
      · cases decided
        trivial
  | completeFinalize namespaceId sessionId token leaseDurationMs status body requestId now =>
      dsimp only [UploadOperation.decide] at decided
      split at decided
      · cases decided
        trivial
      · cases decided
  | failFinalize namespaceId sessionId token body requestId now =>
      cases decided
      trivial
  | renewSession namespaceId sessionId inactivitySeconds now =>
      dsimp only [UploadOperation.decide] at decided
      split at decided
      · cases decided
      · split at decided
        · split at decided
          · cases decided
            trivial
          · cases decided
            trivial
        · cases decided
          trivial
  | markTombstoneDeleted stagingKey observedPutSettledAt now =>
      rcases Option.map_eq_some_iff.mp decided with ⟨old, found, rfl⟩
      split
      · have passes := List.find?_some found
        exact ⟨old, List.mem_of_find?_eq_some found, by simpa using passes, rfl, .inl rfl⟩
      · trivial
  | markStagingObjectDeleted sessionId partIndex stagingKey expectedState now =>
      dsimp only [UploadOperation.decide] at decided
      split at decided
      · cases decided
      · rename_i expected
        rcases Option.map_eq_some_iff.mp decided with ⟨session, found, rfl⟩
        split
        · trivial
        · rename_i part isPart
          rcases Option.filter_eq_some_iff.mp isPart with ⟨foundPart, _⟩
          split
          · trivial
          · exact ⟨part, ⟨⟨session, found, rfl⟩, foundPart⟩, rfl,
              fun deleted => expected (.inl deleted)⟩
  | deleteSettledSessions namespaceId =>
      cases decided
      trivial

theorem UploadOperation.decide_fits (rows : tables.Rows) {operation : UploadOperation}
    {planned : UploadWrite} (decided : operation.decide tables = some planned) :
    planned.Fits tables := by
  have plans := operation.decide_plans decided
  cases planned with
  | insertSession session =>
      rcases plans with ⟨input, caps, rfl, rfl⟩
      rfl
  | insertPart namespaceId caps part =>
      rcases plans with ⟨session, found, rfl, _, facts⟩
      exact ⟨rows.homeOf found, facts⟩
  | retirePart namespaceId sessionId partIndex stagingKey sizeBytes now =>
      rcases plans with ⟨part, found, rfl⟩
      exact ⟨found.home rows, found.sized rows⟩
  | refundTombstone namespaceId stagingKey sizeBytes =>
      rcases plans with ⟨old, isOld, sameKey, sameSize, same | ⟨session, found, same⟩⟩
      · exact ⟨old, isOld, sameKey, same, sameSize⟩
      · rcases UploadTables.findSession_eq_some found with ⟨member, sameId⟩
        have home := rows.cleanupHome old isOld session member sameId
        exact ⟨old, isOld, sameKey, home.symm.trans same, sameSize⟩
  | rechargePart namespaceId sessionId partIndex stagingKey sizeBytes =>
      rcases plans with ⟨part, found, rfl⟩
      exact ⟨found.home rows, found.sized rows⟩
  | cleanUpPart namespaceId sessionId partIndex =>
      rcases plans with ⟨part, found, isReserved⟩
      intro other isOther isRow deleted
      rw [rows.onlyPart found.part isOther isRow, isReserved] at deleted
      cases deleted
  | removePart namespaceId sessionId partIndex sizeBytes =>
      rcases plans with ⟨part, found, rfl, isReserved⟩
      rcases UploadTables.findPart_eq_some found.part with ⟨member, isRow⟩
      refine ⟨found.home rows, found.sized rows, part, member, isRow, ?_⟩
      rw [isReserved]
      exact UploadPartState.noConfusion
  | deletePart namespaceId sessionId partIndex stagingKey expectedState sizeBytes now =>
      rcases plans with ⟨part, found, rfl, expected⟩
      exact ⟨found.home rows, found.sized rows, expected⟩
  | _ => trivial

/-! ## Writes keep the books -/

theorem UploadWrite.Fits.ensureUsage {planned : UploadWrite} (fits : planned.Fits tables)
    (namespaceId : Nat) : planned.Fits (tables.ensureUsage namespaceId) := by
  cases planned with
  | insertPart home caps part =>
      dsimp only [UploadWrite.Fits, UploadTables.Home]
      rw [UploadTables.usageOf_ensureUsage, (UploadTables.ensureUsage_rows tables namespaceId).1,
        (UploadTables.ensureUsage_rows tables namespaceId).2.2.2.1]
      exact fits
  | _ =>
      unfold UploadTables.ensureUsage
      split
      · exact fits
      · exact fits

namespace UploadTables

theorem Books.write_session (books : Books tables) {test : UploadSession → Bool}
    {transform : UploadSession → UploadSession} (sessionId : Nat) {updated : UploadTables}
    (isUpdated : tables.updateSession test transform = some updated)
    (locked : namespaceId ∈ tables.usage.map UploadUsage.namespaceId)
    (keeps : ∀ session, sessionFace (transform session) = sessionFace session)
    (closes : ∀ session, (transform session).state.terminal = true)
    (named : ∀ session, test session = true → session.id = sessionId ∧
      session.namespaceId = namespaceId ∧ session.state.terminal = false) :
    Books (updated.changeUsage namespaceId (-1) 0) := by
  unfold updateSession at isUpdated
  split at isUpdated
  · rename_i found
    cases isUpdated
    exact books.closeSession locked keeps closes found named
  · cases isUpdated

theorem Books.write_sessionKept (books : Books tables) {test : UploadSession → Bool}
    {transform : UploadSession → UploadSession} {updated : UploadTables}
    (isUpdated : tables.updateSession test transform = some updated)
    (keeps : ∀ session, sessionFace (transform session) = sessionFace session)
    (counts : ∀ session, test session = true →
      (transform session).state.terminal = session.state.terminal) : Books updated := by
  unfold updateSession at isUpdated
  split at isUpdated
  · cases isUpdated
    exact books.updateSessions keeps counts
  · cases isUpdated

theorem Books.retire (books : Books tables) {sessionId partIndex sizeBytes now : Nat}
    {stagingKey : JsString} (home : tables.Home sessionId namespaceId)
    (sized : tables.Sized sessionId partIndex sizeBytes)
    (found : (tables.parts.any fun part => part.isRow sessionId partIndex &&
      part.stagingKey == stagingKey && part.state == .reserved && part.leaseOver now) = true)
    (isNew : (tables.findCleanupTombstone stagingKey).isSome = false) :
    Books { tables.deleteParts fun part => part.isRow sessionId partIndex &&
        part.stagingKey == stagingKey && part.state == .reserved && part.leaseOver now with
      cleanups := tables.cleanups ++
        [{ stagingKey := stagingKey, sessionId := sessionId, partIndex := partIndex,
           namespaceId := namespaceId, sizeBytes := sizeBytes, deletedAt := none,
           putSettledAt := none }] } := by
  rcases List.any_eq_true.mp found with ⟨part, member, passes⟩
  have facts := passes
  rw [Bool.and_eq_true, Bool.and_eq_true, Bool.and_eq_true, beq_iff_eq, beq_iff_eq] at facts
  have sameSession : part.sessionId = sessionId :=
    congrArg Prod.fst (partKey_of_isRow facts.1.1.1)
  have named : ∀ other : UploadPart, (other.isRow sessionId partIndex &&
      other.stagingKey == stagingKey && other.state == .reserved && other.leaseOver now) = true →
        other.isRow sessionId partIndex = true := by
    intro other isOther
    rw [Bool.and_eq_true, Bool.and_eq_true, Bool.and_eq_true] at isOther
    exact isOther.1.1.1
  have names := books.toRows.partNames named member passes
  refine books.retirePart names (sameSession ▸ home) sameSession.symm ?_ ?_
  · unfold partBytes
    rw [facts.1.2, sized part member facts.1.1.1]
    rfl
  · intro old isOld same
    rw [Option.isSome_eq_false_iff, Option.isNone_iff_eq_none] at isNew
    have absent := List.find?_eq_none.mp isNew old isOld
    simp [same] at absent

theorem Books.reserve (books : Books tables) {caps : UploadPolicyCaps} {part : UploadPart}
    {written : UploadTables × Bool}
    (fits : (UploadWrite.insertPart namespaceId caps part).Fits tables)
    (isWritten : tables.write (.insertPart namespaceId caps part) = some written) :
    Books written.1 ∧
      written.1.globalUsage.stagedBytes = tables.globalUsage.stagedBytes + part.sizeBytes ∧
      (written.1.usageOf namespaceId).stagedBytes =
        (tables.usageOf namespaceId).stagedBytes + part.sizeBytes := by
  rcases fits.ensureUsage namespaceId with ⟨home, isReserved, _⟩
  dsimp only [write] at isWritten
  split at isWritten
  · cases isWritten
  · rename_i isFree
    cases isWritten
    rw [Bool.or_eq_true, not_or, List.any_eq_true, not_exists] at isFree
    have locked := mem_ensureUsage tables namespaceId
    have bytes : partBytes part = part.sizeBytes := by
      unfold partBytes
      rw [isReserved]
      rfl
    have cleared : Books ((tables.ensureUsage namespaceId).deleteParts fun old =>
        old.isRow part.sessionId part.partIndex && old.state == .deleted) := by
      refine (books.ensureUsage namespaceId).deleteParts fun old _ passes => ?_
      rw [Bool.and_eq_true, beq_iff_eq] at passes
      exact passes.2
    refine ⟨?_, ?_, ?_⟩
    · rw [← bytes]
      refine cleared.insertPart locked ?_ ?_ home
      · intro old member sameKey
        refine isFree.1 old ⟨member, ?_⟩
        have isRow : old.isRow part.sessionId part.partIndex = true := by
          unfold UploadPart.isRow
          rw [Bool.and_eq_true, beq_iff_eq, beq_iff_eq]
          exact ⟨congrArg Prod.fst sameKey, congrArg Prod.snd sameKey⟩
        rw [isRow, Bool.true_or]
      · rw [Option.isNone_iff_eq_none] at isFree
        rcases Option.ne_none_iff_exists'.mp isFree.2 with ⟨session, isFound⟩
        rcases findSession_eq_some isFound with ⟨member, sameId⟩
        exact ⟨session, member, sameId⟩
    · change (tables.ensureUsage namespaceId).globalUsage.stagedBytes + (part.sizeBytes : Int) = _
      rw [(ensureUsage_rows tables namespaceId).2.2.2.1]
    · have raised := usageOf_changeUsage locked 0 (part.sizeBytes : Int)
      rw [usageOf_ensureUsage] at raised
      exact congrArg UsageCounters.stagedBytes raised

theorem Books.write_part (books : Books tables) {test : UploadPart → Bool}
    {transform : UploadPart → UploadPart} {sessionId : Nat} (partIndex : Nat) {stagedBytes : Int}
    (found : (tables.parts.any test) ≠ false)
    (locked : namespaceId ∈ tables.usage.map UploadUsage.namespaceId)
    (home : tables.Home sessionId namespaceId)
    (keeps : ∀ part, partKey (transform part) = partKey part)
    (named : ∀ part, test part = true → part.isRow sessionId partIndex = true)
    (charge : ∀ part ∈ tables.parts, test part = true →
      partBytes (transform part) = partBytes part + stagedBytes) :
    Books ((tables.updateParts test transform).changeUsage namespaceId 0 stagedBytes) := by
  rw [Bool.ne_false_iff] at found
  rcases List.any_eq_true.mp found with ⟨part, member, passes⟩
  have sameSession : part.sessionId = sessionId :=
    congrArg Prod.fst (partKey_of_isRow (named part passes))
  exact books.chargePart locked keeps (books.toRows.partNames named member passes)
    (sameSession ▸ home) (charge part member passes)

theorem settled_parts {sessionId : Nat} {part : UploadPart}
    (isSettled : tables.settled sessionId = true) (member : part ∈ tables.parts)
    (sameId : part.sessionId = sessionId) : part.state = .deleted := by
  unfold settled at isSettled
  rw [Bool.and_eq_true, List.all_eq_true] at isSettled
  have facts := isSettled.1 part member
  rw [sameId] at facts
  simpa using facts

theorem isRow_of_isOpen {session : UploadSession} {sessionId now : Nat}
    (passes : (session.isRow namespaceId sessionId && session.isOpen now) = true) :
    session.state = .opened := by
  unfold UploadSession.isOpen at passes
  rw [Bool.and_eq_true, Bool.and_eq_true, Bool.and_eq_true, beq_iff_eq] at passes
  exact passes.2.1.1

theorem holdsLease_named {session : UploadSession} {sessionId token : Nat}
    (holds : session.holdsLease namespaceId sessionId token = true) :
    session.id = sessionId ∧ session.namespaceId = namespaceId ∧ session.state = .finalizing := by
  unfold UploadSession.holdsLease UploadSession.isRow at holds
  simp only [Bool.and_eq_true, beq_iff_eq] at holds
  exact ⟨holds.1.1.1, holds.1.1.2, holds.1.2⟩

theorem Books.write (books : Books tables) {planned : UploadWrite} {written : UploadTables × Bool}
    (fits : planned.Fits tables) (isWritten : tables.write planned = some written) :
    Books written.1 := by
  cases planned with
  | nothing namespaceId =>
      cases isWritten
      exact books.ensureUsage namespaceId
  | insertSession session =>
      dsimp only [UploadTables.write] at isWritten
      split at isWritten
      · cases isWritten
      · rename_i isNew
        cases isWritten
        have ensured := books.ensureUsage session.namespaceId
        have rows := ensureUsage_rows tables session.namespaceId
        refine ensured.insertSession (mem_ensureUsage tables _) ?_ fits
        unfold mentions at isNew ⊢
        rw [rows.1, rows.2.2.1]
        exact Bool.not_eq_true _ ▸ isNew
  | insertPart namespaceId caps part => exact (books.reserve fits isWritten).1
  | storePart namespaceId sessionId partIndex stagingKey digest encryptionIv expiresAt now =>
      have ensured := books.ensureUsage namespaceId
      dsimp only [UploadTables.write] at isWritten
      split at isWritten
      · cases isWritten
        exact ensured
      · split at isWritten
        · cases isWritten
        · cases isWritten
          refine (ensured.updateSessions ?_ ?_).updateParts ?_ ?_
          · intro session
            rfl
          · intro session _
            rfl
          · intro part
            rfl
          · intro part _ passes
            rw [Bool.and_eq_true, Bool.and_eq_true, beq_iff_eq] at passes
            refine ⟨rfl, ?_⟩
            rw [passes.1.2]
            exact ⟨UploadPartState.noConfusion, UploadPartState.noConfusion⟩
  | retirePart namespaceId sessionId partIndex stagingKey sizeBytes now =>
      have ensured := books.ensureUsage namespaceId
      rcases fits.ensureUsage namespaceId with ⟨home, sized⟩
      dsimp only [UploadTables.write] at isWritten
      split at isWritten
      · cases isWritten
        exact ensured
      · rename_i found
        split at isWritten
        · cases isWritten
        · rename_i isNew
          cases isWritten
          exact ensured.retire home sized (Bool.not_eq_false _ ▸ found)
            (Bool.not_eq_true _ ▸ isNew)
  | settleTombstone namespaceId stagingKey now =>
      cases isWritten
      exact (books.ensureUsage namespaceId).updateCleanups fun old => ⟨rfl, rfl, rfl, rfl⟩
  | refundTombstone namespaceId stagingKey sizeBytes =>
      cases isWritten
      rcases fits.ensureUsage namespaceId with ⟨old, member, rfl, rfl, rfl⟩
      exact (books.ensureUsage _).refundTombstone member
  | markTombstone namespaceId stagingKey now =>
      cases isWritten
      exact (books.ensureUsage namespaceId).updateCleanups fun old => ⟨rfl, rfl, rfl, rfl⟩
  | rechargePart namespaceId sessionId partIndex stagingKey sizeBytes =>
      have ensured := books.ensureUsage namespaceId
      rcases fits.ensureUsage namespaceId with ⟨home, sized⟩
      dsimp only [UploadTables.write] at isWritten
      split at isWritten
      · cases isWritten
        exact ensured
      · rename_i found
        cases isWritten
        refine ensured.write_part partIndex found (mem_ensureUsage tables namespaceId) home
          (fun _ => rfl) ?_ ?_
        · intro part passes
          rw [Bool.and_eq_true, Bool.and_eq_true] at passes
          exact passes.1.1
        · intro part member passes
          rw [Bool.and_eq_true, Bool.and_eq_true, beq_iff_eq, beq_iff_eq] at passes
          unfold partBytes
          rw [if_pos passes.2, Int.zero_add]
          exact congrArg Nat.cast (sized part member passes.1.1)
  | cleanUpPart namespaceId sessionId partIndex =>
      cases isWritten
      refine (books.ensureUsage namespaceId).updateParts (fun _ => rfl) fun part member passes => ?_
      exact ⟨rfl, UploadPartState.noConfusion,
        fun deleted => absurd deleted (fits.ensureUsage namespaceId part member passes)⟩
  | removePart namespaceId sessionId partIndex sizeBytes =>
      cases isWritten
      rcases fits.ensureUsage namespaceId with ⟨home, sized, part, member, isRow, isCharged⟩
      have names := (books.ensureUsage namespaceId).toRows.partNames (fun _ isRow => isRow) member
        isRow
      have sameSession : part.sessionId = sessionId := congrArg Prod.fst (partKey_of_isRow isRow)
      have bytes : partBytes part = sizeBytes := by
        unfold partBytes
        rw [if_neg isCharged, sized part member isRow]
      rw [← bytes]
      exact (books.ensureUsage namespaceId).removePart (mem_ensureUsage tables namespaceId) names
        (sameSession ▸ home)
  | deletePart namespaceId sessionId partIndex stagingKey expectedState sizeBytes now =>
      have ensured := books.ensureUsage namespaceId
      rcases fits.ensureUsage namespaceId with ⟨home, sized, expected⟩
      dsimp only [UploadTables.write] at isWritten
      split at isWritten
      · cases isWritten
        exact ensured
      · rename_i found
        cases isWritten
        refine ensured.write_part partIndex found (mem_ensureUsage tables namespaceId) home
          (fun _ => rfl) ?_ ?_
        · intro part passes
          rw [Bool.and_eq_true, Bool.and_eq_true] at passes
          exact passes.1.1
        · intro part member passes
          rw [Bool.and_eq_true, Bool.and_eq_true, beq_iff_eq, beq_iff_eq] at passes
          have isCharged : part.state ≠ .deleted :=
            fun deleted => expected (passes.2.symm.trans deleted)
          have isFree :
              partBytes { part with state := .deleted, objectDeletedAt := some now } = 0 :=
            rfl
          have bytes : partBytes part = sizeBytes := by
            unfold partBytes
            rw [if_neg isCharged, sized part member passes.1.1]
          rw [isFree, bytes]
          omega
  | closeSession namespaceId sessionId next now =>
      have ensured := books.ensureUsage namespaceId
      dsimp only [UploadTables.write] at isWritten
      split at isWritten
      · cases isWritten
        exact ensured
      · rename_i updated isUpdated
        cases isWritten
        refine ensured.write_session sessionId isUpdated (mem_ensureUsage tables namespaceId)
          (fun _ => rfl) ?_ ?_
        · intro session
          cases next with
          | cancelled => rfl
          | expired => rfl
        · intro session passes
          rw [Bool.and_eq_true, Bool.and_eq_true] at passes
          rcases passes with ⟨⟨isRow, isOpen⟩, _⟩
          unfold UploadSession.isRow at isRow
          rw [Bool.and_eq_true, beq_iff_eq, beq_iff_eq] at isRow
          refine ⟨isRow.1, isRow.2, ?_⟩
          rw [beq_iff_eq.mp isOpen]
          rfl
  | claimSession namespaceId sessionId token leaseExpiresAt now =>
      have ensured := books.ensureUsage namespaceId
      dsimp only [UploadTables.write] at isWritten
      split at isWritten
      · cases isWritten
        exact ensured
      · rename_i updated isUpdated
        cases isWritten
        refine ensured.write_sessionKept isUpdated (fun _ => rfl) ?_
        intro session passes
        rw [isRow_of_isOpen passes]
        rfl
  | completeSession namespaceId sessionId token status body requestId now =>
      rcases Option.map_eq_some_iff.mp isWritten with ⟨updated, isUpdated, rfl⟩
      refine (books.ensureUsage namespaceId).write_session sessionId isUpdated
        (mem_ensureUsage tables namespaceId) (fun _ => rfl) (fun _ => rfl) ?_
      intro session passes
      rcases holdsLease_named passes with ⟨sameId, sameNamespace, isFinalizing⟩
      refine ⟨sameId, sameNamespace, ?_⟩
      rw [isFinalizing]
      rfl
  | failSession namespaceId sessionId token body requestId now =>
      have ensured := books.ensureUsage namespaceId
      dsimp only [UploadTables.write] at isWritten
      split at isWritten
      · cases isWritten
        exact ensured
      · rename_i updated isUpdated
        cases isWritten
        refine ensured.write_session sessionId isUpdated (mem_ensureUsage tables namespaceId)
          (fun _ => rfl) (fun _ => rfl) ?_
        intro session passes
        rw [Bool.and_eq_true] at passes
        rcases holdsLease_named passes.1 with ⟨sameId, sameNamespace, isFinalizing⟩
        refine ⟨sameId, sameNamespace, ?_⟩
        rw [isFinalizing]
        rfl
  | renewSession namespaceId sessionId expiresAt now =>
      have ensured := books.ensureUsage namespaceId
      dsimp only [UploadTables.write] at isWritten
      split at isWritten
      · cases isWritten
        exact ensured
      · rename_i updated isUpdated
        cases isWritten
        exact ensured.write_sessionKept isUpdated (fun _ => rfl) (fun _ _ => rfl)
  | deleteSettledSessions namespaceId =>
      cases isWritten
      refine (books.ensureUsage namespaceId).deleteSessions ?_ ?_
      · intro session _ passes
        rw [Bool.and_eq_true, Bool.and_eq_true] at passes
        exact passes.1.2
      · intro session _ passes part member sameId
        rw [Bool.and_eq_true] at passes
        exact settled_parts passes.2 member sameId

/-! ## Statements without the usage lock -/

theorem Meanwhile.refl (tables : UploadTables) : Meanwhile tables tables where
  sessions := fun session member => ⟨session, member, rfl, rfl⟩
  parts := fun part member => ⟨part, member, rfl, rfl, rfl, rfl⟩
  charged := fun old member _ => ⟨old, member, rfl, rfl, rfl⟩
  cleanups := rfl
  globalUsage := rfl
  usage := rfl

theorem Meanwhile.updateSessions (test : UploadSession → Bool)
    {transform : UploadSession → UploadSession}
    (keeps : ∀ session, sessionFace (transform session) = sessionFace session) :
    Meanwhile tables (tables.updateSessions test transform) where
  sessions := by
    have faces : (tables.updateSessions test transform).sessions.map sessionFace =
        tables.sessions.map sessionFace := map_updated sessionFace fun session _ _ => keeps session
    exact fun session member => mem_face faces member
  parts := (Meanwhile.refl tables).parts
  charged := (Meanwhile.refl tables).charged
  cleanups := rfl
  globalUsage := rfl
  usage := rfl

theorem Meanwhile.renewPartLease (tables : UploadTables) (sessionId partIndex : Nat)
    (stagingKey : JsString) (leaseSeconds now : Nat) :
    Meanwhile tables (tables.renewPartLease sessionId partIndex stagingKey leaseSeconds now) where
  sessions := (Meanwhile.refl tables).sessions
  parts := by
    intro part member
    rcases mem_updated member with ⟨old, isOld, _, rfl⟩ | ⟨isOld, _⟩
    · exact ⟨old, isOld, rfl, rfl, rfl, rfl⟩
    · exact ⟨part, isOld, rfl, rfl, rfl, rfl⟩
  charged := by
    intro old isOld _
    refine ⟨_, List.mem_map_of_mem isOld, ?_⟩
    split
    · exact ⟨rfl, rfl, rfl⟩
    · exact ⟨rfl, rfl, rfl⟩
  cleanups := rfl
  globalUsage := rfl
  usage := rfl

theorem Meanwhile.deleteSessions {test : UploadSession → Bool}
    (free : ∀ session ∈ tables.sessions, test session = true → ∀ part ∈ tables.parts,
      part.sessionId = session.id → part.state = .deleted) :
    Meanwhile tables (tables.deleteSessions test) where
  sessions := fun session member => ⟨session, List.mem_of_mem_filter member, rfl, rfl⟩
  parts := fun part member => ⟨part, List.mem_of_mem_filter member, rfl, rfl, rfl, rfl⟩
  charged := by
    intro old isOld isCharged
    refine ⟨old, mem_deleteSessions.mpr ⟨isOld, fun session member sameId => ?_⟩, rfl, rfl, rfl⟩
    by_contra passes
    rw [Bool.not_eq_false] at passes
    exact isCharged (free session member passes old isOld sameId.symm)
  cleanups := rfl
  globalUsage := rfl
  usage := rfl

theorem Books.renewPartLease (books : Books tables) (sessionId partIndex : Nat)
    (stagingKey : JsString) (leaseSeconds now : Nat) :
    Books (tables.renewPartLease sessionId partIndex stagingKey leaseSeconds now) :=
  books.updateParts (fun _ => rfl) fun _ _ _ => ⟨rfl, Iff.rfl⟩

theorem Books.renewFinalize (books : Books tables)
    (namespaceId sessionId token leaseDurationMs now : Nat) :
    Books (tables.renewFinalize namespaceId sessionId token leaseDurationMs now) :=
  books.updateSessions (fun _ => rfl) fun _ _ => rfl

theorem Books.releaseFinalize (books : Books tables) (namespaceId sessionId token : Nat)
    (code : JsString) (failedAt : Nat) :
    Books (tables.releaseFinalize namespaceId sessionId token code failedAt) := by
  refine books.updateSessions (fun _ => rfl) fun session passes => ?_
  rw [(holdsLease_named passes).2.2]
  rfl

theorem Books.recoverStaleFinalizingLeases (books : Books tables) (ids : List Nat) (now : Nat) :
    Books (tables.recoverStaleFinalizingLeases ids now) := by
  refine books.updateSessions (fun _ => rfl) fun session passes => ?_
  rw [Bool.and_eq_true, Bool.and_eq_true, beq_iff_eq] at passes
  rw [passes.1.2]
  rfl

theorem remainingParts_eq_zero {sessionId : Nat} (none : tables.remainingParts sessionId = 0)
    {part : UploadPart} (member : part ∈ tables.parts) (sameId : part.sessionId = sessionId) :
    part.state = .deleted := by
  have empty := List.filter_eq_nil_iff.mp (List.length_eq_zero_iff.mp none) part member
  rw [sameId] at empty
  simpa using empty

theorem prune_free {sessionId before : Nat} (none : tables.remainingParts sessionId = 0) :
    ∀ session ∈ tables.sessions, (session.id == sessionId && session.state.terminal &&
      session.terminalAt.any fun closedAt => decide (closedAt < before)) = true →
        ∀ part ∈ tables.parts, part.sessionId = session.id → part.state = .deleted := by
  intro session _ passes part isPart sameId
  rw [Bool.and_eq_true, Bool.and_eq_true, beq_iff_eq] at passes
  exact remainingParts_eq_zero none isPart (sameId.trans passes.1.1)

theorem Books.pruneSession (books : Books tables) {sessionId : Nat} (before : Nat)
    (none : tables.remainingParts sessionId = 0) :
    Books (tables.pruneSession sessionId before) := by
  refine books.deleteSessions ?_ (prune_free none)
  intro session _ passes
  rw [Bool.and_eq_true, Bool.and_eq_true] at passes
  exact passes.1.2

/-! ## What the books say -/

theorem Books.usageOf (books : Books tables) (namespaceId : Nat) :
    (tables.usageOf namespaceId).activeSessions = tables.live namespaceId ∧
      (tables.usageOf namespaceId).stagedBytes = tables.staged namespaceId := by
  unfold UploadTables.usageOf
  cases found : tables.usage.find? fun row => row.namespaceId == namespaceId with
  | none =>
      have unknown : namespaceId ∉ tables.usage.map UploadUsage.namespaceId := by
        intro member
        rcases List.mem_map.mp member with ⟨row, isRow, same⟩
        have absent := List.find?_eq_none.mp found row isRow
        simp [same] at absent
      rcases books.staged_of_unknown unknown with ⟨noBytes, noSessions⟩
      exact ⟨noSessions.symm, noBytes.symm⟩
  | some row =>
      have same : row.namespaceId = namespaceId := by simpa using List.find?_some found
      exact same ▸ books.counted row (List.mem_of_find?_eq_some found)

theorem staged_nonneg (tables : UploadTables) (namespaceId : Nat) :
    0 ≤ tables.staged namespaceId := by
  unfold staged
  have parts : 0 ≤ (tables.parts.map (partCharge tables.namespaceOf namespaceId)).sum := by
    refine List.sum_nonneg fun charge isCharge => ?_
    rcases List.mem_map.mp isCharge with ⟨part, _, rfl⟩
    unfold partCharge
    split
    · exact Int.natCast_nonneg _
    · exact Int.le_refl 0
  have cleanups : 0 ≤ (tables.cleanups.map (cleanupCharge namespaceId)).sum := by
    refine List.sum_nonneg fun charge isCharge => ?_
    rcases List.mem_map.mp isCharge with ⟨old, _, rfl⟩
    unfold cleanupCharge
    split
    · exact Int.natCast_nonneg _
    · exact Int.le_refl 0
  omega

theorem live_nonneg (tables : UploadTables) (namespaceId : Nat) : 0 ≤ tables.live namespaceId := by
  refine List.sum_nonneg fun count isCount => ?_
  rcases List.mem_map.mp isCount with ⟨session, _, rfl⟩
  unfold liveCount
  split
  · exact Int.one_nonneg
  · exact Int.le_refl 0

theorem Books.global_nonneg (books : Books tables) :
    0 ≤ tables.globalUsage.activeSessions ∧ 0 ≤ tables.globalUsage.stagedBytes := by
  rw [books.globalActive, books.globalStaged]
  constructor
  · refine List.sum_nonneg fun count isCount => ?_
    rcases List.mem_map.mp isCount with ⟨row, member, rfl⟩
    rw [(books.counted row member).1]
    exact live_nonneg tables row.namespaceId
  · refine List.sum_nonneg fun count isCount => ?_
    rcases List.mem_map.mp isCount with ⟨row, member, rfl⟩
    rw [(books.counted row member).2]
    exact staged_nonneg tables row.namespaceId

end UploadTables

end Storix
