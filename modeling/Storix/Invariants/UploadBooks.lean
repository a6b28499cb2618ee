import Storix.Persistence.UploadSessions

/-! # The books of the upload tables

The counters of a namespace are sums over its rows. Each statement keeps the keys of the
tables, and changes the sums by what its rows are charged. -/

namespace Storix

open Foundation

variable {tables next : UploadTables} {namespaceId : Nat}

namespace UploadTables

/-! ## Sums over the rows -/

def namespaceOf (tables : UploadTables) (sessionId : Nat) : Option Nat :=
  (tables.findSession sessionId).map UploadSession.namespaceId

def partCharge (home : Nat → Option Nat) (namespaceId : Nat) (part : UploadPart) : Int :=
  if home part.sessionId = some namespaceId ∧ part.state ≠ .deleted then part.sizeBytes else 0

def cleanupCharge (namespaceId : Nat) (old : UploadStagingCleanup) : Int :=
  if old.namespaceId = namespaceId then old.sizeBytes else 0

/-- One for a session that is `OPEN` or `FINALIZING`. -/
def liveCount (namespaceId : Nat) (session : UploadSession) : Int :=
  if session.namespaceId = namespaceId ∧ session.state.terminal = false then 1 else 0

def staged (tables : UploadTables) (namespaceId : Nat) : Int :=
  (tables.parts.map (partCharge tables.namespaceOf namespaceId)).sum +
    (tables.cleanups.map (cleanupCharge namespaceId)).sum

def live (tables : UploadTables) (namespaceId : Nat) : Int :=
  (tables.sessions.map (liveCount namespaceId)).sum

/-! ## The invariant of the tables -/

structure Rows (tables : UploadTables) : Prop where
  sessionIds : (tables.sessions.map UploadSession.id).Nodup
  partKeys : (tables.parts.map fun part => (part.sessionId, part.partIndex)).Nodup
  owned : ∀ part ∈ tables.parts, ∃ session ∈ tables.sessions, session.id = part.sessionId
  cleanupKeys : (tables.cleanups.map UploadStagingCleanup.stagingKey).Nodup
  cleanupHome : ∀ old ∈ tables.cleanups, ∀ session ∈ tables.sessions,
    session.id = old.sessionId → session.namespaceId = old.namespaceId

structure Books (tables : UploadTables) : Prop extends Rows tables where
  usageIds : (tables.usage.map UploadUsage.namespaceId).Nodup
  sessionUsage : ∀ session ∈ tables.sessions,
    session.namespaceId ∈ tables.usage.map UploadUsage.namespaceId
  cleanupUsage : ∀ old ∈ tables.cleanups,
    old.namespaceId ∈ tables.usage.map UploadUsage.namespaceId
  counted : ∀ row ∈ tables.usage, row.activeSessions = tables.live row.namespaceId ∧
    row.stagedBytes = tables.staged row.namespaceId
  globalActive : tables.globalUsage.activeSessions =
    (tables.usage.map fun row => row.activeSessions).sum
  globalStaged : tables.globalUsage.stagedBytes =
    (tables.usage.map fun row => row.stagedBytes).sum

theorem Books.change (books : Books tables) {activeSessions stagedBytes : Int}
    (sameUsage : next.usage = tables.usage) (sameGlobal : next.globalUsage = tables.globalUsage)
    (locked : namespaceId ∈ tables.usage.map UploadUsage.namespaceId) (rows : Rows next)
    (sessionUsage : ∀ session ∈ next.sessions,
      session.namespaceId ∈ tables.usage.map UploadUsage.namespaceId)
    (cleanupUsage : ∀ old ∈ next.cleanups,
      old.namespaceId ∈ tables.usage.map UploadUsage.namespaceId)
    (live : ∀ other, next.live other =
      tables.live other + if other = namespaceId then activeSessions else 0)
    (staged : ∀ other, next.staged other =
      tables.staged other + if other = namespaceId then stagedBytes else 0) :
    Books (next.changeUsage namespaceId activeSessions stagedBytes) := by
  rcases List.mem_map.mp locked with ⟨own, isOwn, isNamespace⟩
  have names : Names tables.usage (fun row => row.namespaceId == namespaceId) own :=
    names_of_key books.usageIds isOwn (by simpa using isNamespace)
      fun other _ isOther => (by simpa using isOther : other.namespaceId = namespaceId).trans
        isNamespace.symm
  have sameIds : (next.changeUsage namespaceId activeSessions stagedBytes).usage.map
      UploadUsage.namespaceId = tables.usage.map UploadUsage.namespaceId := by
    rw [← sameUsage]
    exact map_updated _ fun _ _ _ => rfl
  have nodup := books.usageIds.of_map
  refine
    { toRows := ⟨rows.sessionIds, rows.partKeys, rows.owned, rows.cleanupKeys, rows.cleanupHome⟩
      usageIds := sameIds ▸ books.usageIds
      sessionUsage := fun session member => sameIds ▸ sessionUsage session member
      cleanupUsage := fun old member => sameIds ▸ cleanupUsage old member
      counted := ?_, globalActive := ?_, globalStaged := ?_ }
  · intro row member
    change row ∈ updated _ _ next.usage at member
    change row.activeSessions = next.live row.namespaceId ∧
      row.stagedBytes = next.staged row.namespaceId
    rw [sameUsage] at member
    rw [live, staged]
    rcases mem_updated member with ⟨old, isOld, isRow, rfl⟩ | ⟨isOld, isOther⟩
    · have isNamespace : old.namespaceId = namespaceId := by simpa using isRow
      rcases books.counted old isOld with ⟨active, bytes⟩
      rw [if_pos isNamespace, if_pos isNamespace, ← active, ← bytes]
      exact ⟨rfl, rfl⟩
    · have different : row.namespaceId ≠ namespaceId := by simpa using isOther
      rw [if_neg different, if_neg different, Int.add_zero, Int.add_zero]
      exact books.counted row isOld
  · change next.globalUsage.activeSessions + activeSessions =
      ((updated _ _ next.usage).map fun row => row.activeSessions).sum
    rw [sameUsage, sum_updated nodup names, sameGlobal, books.globalActive]
    change _ = _ + (own.activeSessions + activeSessions - own.activeSessions)
    omega
  · change next.globalUsage.stagedBytes + stagedBytes =
      ((updated _ _ next.usage).map fun row => row.stagedBytes).sum
    rw [sameUsage, sum_updated nodup names, sameGlobal, books.globalStaged]
    change _ = _ + (own.stagedBytes + stagedBytes - own.stagedBytes)
    omega

theorem Books.same (books : Books tables) (sameUsage : next.usage = tables.usage)
    (sameGlobal : next.globalUsage = tables.globalUsage) (rows : Rows next)
    (sessionUsage : ∀ session ∈ next.sessions,
      session.namespaceId ∈ tables.usage.map UploadUsage.namespaceId)
    (cleanupUsage : ∀ old ∈ next.cleanups,
      old.namespaceId ∈ tables.usage.map UploadUsage.namespaceId)
    (live : ∀ other, next.live other = tables.live other)
    (staged : ∀ other, next.staged other = tables.staged other) : Books next where
  toRows := rows
  usageIds := sameUsage ▸ books.usageIds
  sessionUsage := sameUsage ▸ sessionUsage
  cleanupUsage := sameUsage ▸ cleanupUsage
  counted := by
    intro row member
    rw [live, staged]
    exact books.counted row (sameUsage ▸ member)
  globalActive := by rw [sameGlobal, sameUsage, books.globalActive]
  globalStaged := by rw [sameGlobal, sameUsage, books.globalStaged]

/-! ## The usage rows -/

theorem findSession_eq_some {sessionId : Nat} {session : UploadSession}
    (found : tables.findSession sessionId = some session) :
    session ∈ tables.sessions ∧ session.id = sessionId :=
  ⟨List.mem_of_find?_eq_some found, by simpa using List.find?_some found⟩

theorem Rows.findSession (rows : Rows tables) {session : UploadSession}
    (member : session ∈ tables.sessions) : tables.findSession session.id = some session := by
  cases found : tables.findSession session.id with
  | none =>
      have absent := List.find?_eq_none.mp found session member
      simp at absent
  | some other =>
      rcases findSession_eq_some found with ⟨isOther, sameId⟩
      rw [List.inj_on_of_nodup_map rows.sessionIds isOther member sameId]

theorem Rows.namespaceOf (rows : Rows tables) {session : UploadSession}
    (member : session ∈ tables.sessions) :
    tables.namespaceOf session.id = some session.namespaceId := by
  unfold UploadTables.namespaceOf
  rw [rows.findSession member]
  rfl

theorem Books.staged_of_unknown (books : Books tables)
    (unknown : namespaceId ∉ tables.usage.map UploadUsage.namespaceId) :
    tables.staged namespaceId = 0 ∧ tables.live namespaceId = 0 := by
  refine ⟨?_, List.sum_eq_zero ?_⟩
  · have parts : (tables.parts.map (partCharge tables.namespaceOf namespaceId)).sum = 0 := by
      refine List.sum_eq_zero fun charge isCharge => ?_
      rcases List.mem_map.mp isCharge with ⟨part, member, rfl⟩
      rcases books.owned part member with ⟨session, isSession, sameId⟩
      unfold partCharge
      refine if_neg fun facts => unknown ?_
      rw [← sameId, books.namespaceOf isSession] at facts
      exact Option.some.inj facts.1 ▸ books.sessionUsage session isSession
    have cleanups : (tables.cleanups.map (cleanupCharge namespaceId)).sum = 0 := by
      refine List.sum_eq_zero fun charge isCharge => ?_
      rcases List.mem_map.mp isCharge with ⟨old, member, rfl⟩
      unfold cleanupCharge
      refine if_neg fun same => unknown ?_
      exact same ▸ books.cleanupUsage old member
    rw [staged, parts, cleanups, Int.add_zero]
  · intro count isCount
    rcases List.mem_map.mp isCount with ⟨session, member, rfl⟩
    unfold liveCount
    refine if_neg fun facts => unknown ?_
    exact facts.1 ▸ books.sessionUsage session member

theorem ensureUsage_rows (tables : UploadTables) (namespaceId : Nat) :
    (tables.ensureUsage namespaceId).sessions = tables.sessions ∧
      (tables.ensureUsage namespaceId).parts = tables.parts ∧
      (tables.ensureUsage namespaceId).cleanups = tables.cleanups ∧
      (tables.ensureUsage namespaceId).globalUsage = tables.globalUsage ∧
      (tables.ensureUsage namespaceId).active = tables.active := by
  unfold ensureUsage
  split
  · exact ⟨rfl, rfl, rfl, rfl, rfl⟩
  · exact ⟨rfl, rfl, rfl, rfl, rfl⟩

theorem mem_ensureUsage (tables : UploadTables) (namespaceId : Nat) :
    namespaceId ∈ (tables.ensureUsage namespaceId).usage.map UploadUsage.namespaceId := by
  unfold ensureUsage
  split
  · rename_i found
    rcases List.any_eq_true.mp found with ⟨row, member, same⟩
    exact List.mem_map.mpr ⟨row, member, by simpa using same⟩
  · simp

theorem usageOf_ensureUsage (tables : UploadTables) (namespaceId other : Nat) :
    (tables.ensureUsage namespaceId).usageOf other = tables.usageOf other := by
  unfold ensureUsage
  split
  · rfl
  · unfold usageOf
    dsimp only
    rw [List.find?_append]
    cases tables.usage.find? fun row => row.namespaceId == other with
    | some row => rfl
    | none =>
        rw [Option.none_or, List.find?_singleton]
        split
        · rfl
        · rfl

theorem usageOf_changeUsage (locked : namespaceId ∈ tables.usage.map UploadUsage.namespaceId)
    (activeSessions stagedBytes : Int) :
    (tables.changeUsage namespaceId activeSessions stagedBytes).usageOf namespaceId =
      UsageCounters.add (tables.usageOf namespaceId) activeSessions stagedBytes := by
  unfold usageOf changeUsage updated
  dsimp only
  rw [List.find?_map]
  have sameTest : ((fun row : UploadUsage => row.namespaceId == namespaceId) ∘ fun row =>
      if (row.namespaceId == namespaceId) = true then
        { row with
          toUsageCounters := UsageCounters.add row.toUsageCounters activeSessions stagedBytes }
      else row) = fun row => row.namespaceId == namespaceId := by
    funext row
    rw [Function.comp_apply]
    split
    · rfl
    · rfl
  rw [sameTest]
  cases found : tables.usage.find? fun row => row.namespaceId == namespaceId with
  | none =>
      rcases List.mem_map.mp locked with ⟨row, member, same⟩
      have absent := List.find?_eq_none.mp found row member
      simp [same] at absent
  | some row =>
      have isRow := List.find?_some found
      rw [Option.map_some, if_pos isRow]
      rfl

theorem Books.ensureUsage (books : Books tables) (namespaceId : Nat) :
    Books (tables.ensureUsage namespaceId) := by
  unfold UploadTables.ensureUsage
  split
  · exact books
  · rename_i absent
    have unknown : namespaceId ∉ tables.usage.map UploadUsage.namespaceId := by
      intro member
      rcases List.mem_map.mp member with ⟨row, isRow, same⟩
      exact absent (List.any_eq_true.mpr ⟨row, isRow, by simpa using same⟩)
    rcases books.staged_of_unknown unknown with ⟨noBytes, noSessions⟩
    have widen : ∀ {other}, other ∈ tables.usage.map UploadUsage.namespaceId →
        other ∈ (tables.usage ++ [(⟨⟨0, 0⟩, namespaceId⟩ : UploadUsage)]).map
          UploadUsage.namespaceId := by
      intro other member
      rw [List.map_append]
      exact List.mem_append_left _ member
    refine
      { toRows := ⟨books.sessionIds, books.partKeys, books.owned, books.cleanupKeys,
          books.cleanupHome⟩
        usageIds := ?_
        sessionUsage := fun session member => widen (books.sessionUsage session member)
        cleanupUsage := fun old member => widen (books.cleanupUsage old member)
        counted := ?_, globalActive := ?_, globalStaged := ?_ }
    · rw [List.map_append]
      refine List.nodup_append.mpr ⟨books.usageIds, List.nodup_singleton _, ?_⟩
      rintro other isOther _ isNew rfl
      rw [List.map_singleton, List.mem_singleton] at isNew
      have same : other = namespaceId := isNew
      exact unknown (same ▸ isOther)
    · intro row member
      rcases List.mem_append.mp member with isOld | isNew
      · exact books.counted row isOld
      · rw [List.mem_singleton.mp isNew]
        exact ⟨noSessions.symm, noBytes.symm⟩
    · rw [List.map_append, List.sum_append, ← books.globalActive]
      simp
    · rw [List.map_append, List.sum_append, ← books.globalStaged]
      simp

/-! ## Statements on sessions -/

def sessionFace (session : UploadSession) : Nat × Nat := (session.id, session.namespaceId)

theorem namespaceOf_face (tables : UploadTables) (sessionId : Nat) :
    tables.namespaceOf sessionId =
      ((tables.sessions.map sessionFace).find? fun face => face.1 == sessionId).map Prod.snd := by
  unfold UploadTables.namespaceOf findSession
  rw [List.find?_map, Option.map_map]
  rfl

theorem mem_face {session : UploadSession}
    (faces : next.sessions.map sessionFace = tables.sessions.map sessionFace)
    (member : session ∈ next.sessions) :
    ∃ old ∈ tables.sessions, old.id = session.id ∧ old.namespaceId = session.namespaceId := by
  have isFace : sessionFace session ∈ tables.sessions.map sessionFace :=
    faces ▸ List.mem_map_of_mem member
  rcases List.mem_map.mp isFace with ⟨old, isOld, same⟩
  exact ⟨old, isOld, congrArg Prod.fst same, congrArg Prod.snd same⟩

theorem Rows.ofFaces (rows : Rows tables)
    (faces : next.sessions.map sessionFace = tables.sessions.map sessionFace)
    (sameParts : next.parts = tables.parts) (sameCleanups : next.cleanups = tables.cleanups) :
    Rows next where
  sessionIds := by
    have ids := congrArg (List.map Prod.fst) faces
    rw [List.map_map, List.map_map] at ids
    change next.sessions.map UploadSession.id = tables.sessions.map UploadSession.id at ids
    exact ids ▸ rows.sessionIds
  partKeys := sameParts ▸ rows.partKeys
  owned := by
    intro part member
    rcases rows.owned part (sameParts ▸ member) with ⟨session, isSession, sameId⟩
    rcases mem_face faces.symm isSession with ⟨kept, isKept, keptId, _⟩
    exact ⟨kept, isKept, keptId.trans sameId⟩
  cleanupKeys := sameCleanups ▸ rows.cleanupKeys
  cleanupHome := by
    intro old isOld session isSession sameId
    rcases mem_face faces isSession with ⟨before, isBefore, beforeId, beforeNamespace⟩
    rw [← beforeNamespace]
    exact rows.cleanupHome old (sameCleanups ▸ isOld) before isBefore (beforeId.trans sameId)

theorem staged_ofFaces (faces : next.sessions.map sessionFace = tables.sessions.map sessionFace)
    (sameParts : next.parts = tables.parts) (sameCleanups : next.cleanups = tables.cleanups)
    (other : Nat) : next.staged other = tables.staged other := by
  have homes : next.namespaceOf = tables.namespaceOf := by
    funext sessionId
    rw [namespaceOf_face, namespaceOf_face, faces]
  unfold staged
  rw [homes, sameParts, sameCleanups]

theorem Books.updateSessions (books : Books tables) {test : UploadSession → Bool}
    {transform : UploadSession → UploadSession}
    (keeps : ∀ session, sessionFace (transform session) = sessionFace session)
    (counts : ∀ session, test session = true →
      (transform session).state.terminal = session.state.terminal) :
    Books (tables.updateSessions test transform) := by
  have faces : (tables.updateSessions test transform).sessions.map sessionFace =
      tables.sessions.map sessionFace := map_updated sessionFace fun session _ _ => keeps session
  refine books.same rfl rfl (books.toRows.ofFaces faces rfl rfl) ?_ books.cleanupUsage ?_
    (staged_ofFaces faces rfl rfl)
  · intro session member
    rcases mem_face faces member with ⟨old, isOld, _, sameNamespace⟩
    exact sameNamespace ▸ books.sessionUsage old isOld
  · intro other
    refine congrArg List.sum (map_updated (liveCount other) fun session _ passes => ?_)
    have sameNamespace : (transform session).namespaceId = session.namespaceId :=
      congrArg Prod.snd (keeps session)
    unfold liveCount
    rw [counts session passes, sameNamespace]

theorem Books.closeSession (books : Books tables) {test : UploadSession → Bool}
    {transform : UploadSession → UploadSession} {sessionId : Nat}
    (locked : namespaceId ∈ tables.usage.map UploadUsage.namespaceId)
    (keeps : ∀ session, sessionFace (transform session) = sessionFace session)
    (closes : ∀ session, (transform session).state.terminal = true)
    (found : tables.sessions.any test = true)
    (named : ∀ session, test session = true → session.id = sessionId ∧
      session.namespaceId = namespaceId ∧ session.state.terminal = false) :
    Books ((tables.updateSessions test transform).changeUsage namespaceId (-1) 0) := by
  have faces : (tables.updateSessions test transform).sessions.map sessionFace =
      tables.sessions.map sessionFace := map_updated sessionFace fun session _ _ => keeps session
  rcases List.any_eq_true.mp found with ⟨session, member, passes⟩
  have names : Names tables.sessions test session :=
    names_of_key books.sessionIds member passes fun other _ isOther =>
      (named other isOther).1.trans (named session passes).1.symm
  rcases named session passes with ⟨_, isNamespace, isLive⟩
  refine books.change rfl rfl locked (books.toRows.ofFaces faces rfl rfl) ?_ books.cleanupUsage ?_
    ?_
  · intro session member
    rcases mem_face faces member with ⟨old, isOld, _, sameNamespace⟩
    exact sameNamespace ▸ books.sessionUsage old isOld
  · intro other
    have sum := sum_updated books.sessionIds.of_map names transform (liveCount other)
    have gone : liveCount other (transform session) = 0 := by
      unfold liveCount
      refine if_neg fun facts => ?_
      rw [closes] at facts
      cases facts.2
    have counted : liveCount other session = if other = namespaceId then 1 else 0 := by
      unfold liveCount
      by_cases same : other = namespaceId
      · rw [if_pos ⟨isNamespace.trans same.symm, isLive⟩, if_pos same]
      · rw [if_neg fun facts => same (facts.1.symm.trans isNamespace), if_neg same]
    change ((updated test transform tables.sessions).map (liveCount other)).sum = _
    rw [sum, gone, counted]
    unfold UploadTables.live
    split
    · omega
    · omega
  · intro other
    rw [staged_ofFaces faces rfl rfl, ite_self, Int.add_zero]

theorem Books.insertSession (books : Books tables) {session : UploadSession}
    (locked : session.namespaceId ∈ tables.usage.map UploadUsage.namespaceId)
    (isNew : tables.mentions session.id = false) (isOpen : session.state = .opened) :
    Books (({ tables with sessions := tables.sessions ++ [session] }).changeUsage
      session.namespaceId 1 0) := by
  unfold mentions at isNew
  rw [Bool.or_eq_false_iff, List.any_eq_false, List.any_eq_false] at isNew
  have freshSession : ∀ old ∈ tables.sessions, old.id ≠ session.id :=
    fun old member same => isNew.1 old member (by simpa using same)
  have freshCleanup : ∀ old ∈ tables.cleanups, old.sessionId ≠ session.id :=
    fun old member same => isNew.2 old member (by simpa using same)
  refine books.change rfl rfl locked ⟨?_, books.partKeys, ?_, books.cleanupKeys, ?_⟩ ?_
    books.cleanupUsage ?_ ?_
  · change ((tables.sessions ++ [session]).map UploadSession.id).Nodup
    rw [List.map_append]
    refine List.nodup_append.mpr ⟨books.sessionIds, List.nodup_singleton _, ?_⟩
    intro oldId isOld newId isId same
    rcases List.mem_map.mp isOld with ⟨old, member, rfl⟩
    rw [List.map_singleton, List.mem_singleton] at isId
    exact freshSession old member (same.trans isId)
  · intro part member
    rcases books.owned part member with ⟨owner, isOwner, sameId⟩
    exact ⟨owner, List.mem_append_left _ isOwner, sameId⟩
  · intro old isOld other isOther sameId
    rcases List.mem_append.mp isOther with isBefore | isAdded
    · exact books.cleanupHome old isOld other isBefore sameId
    · rw [List.mem_singleton.mp isAdded] at sameId
      exact absurd sameId.symm (freshCleanup old isOld)
  · intro other isOther
    rcases List.mem_append.mp isOther with isBefore | isAdded
    · exact books.sessionUsage other isBefore
    · rw [List.mem_singleton.mp isAdded]
      exact locked
  · intro other
    change ((tables.sessions ++ [session]).map (liveCount other)).sum = _
    rw [List.map_append, List.sum_append, List.map_singleton, List.sum_singleton]
    unfold UploadTables.live liveCount
    rw [isOpen]
    simp only [UploadSessionState.terminal, and_true, eq_comm]
  · intro other
    rw [ite_self, Int.add_zero]
    unfold staged
    have charges : ∀ part ∈ tables.parts,
        partCharge (UploadTables.namespaceOf
            { tables with sessions := tables.sessions ++ [session] }) other part =
          partCharge tables.namespaceOf other part := by
      intro part member
      rcases books.owned part member with ⟨owner, isOwner, sameId⟩
      have before := books.findSession isOwner
      have after : UploadTables.findSession
          { tables with sessions := tables.sessions ++ [session] } owner.id = some owner := by
        unfold UploadTables.findSession at before ⊢
        rw [List.find?_append, before]
        rfl
      unfold partCharge UploadTables.namespaceOf
      rw [← sameId, before, after]
    rw [List.map_congr_left charges]

/-! ## Statements on parts -/

def partKey (part : UploadPart) : Nat × Nat := (part.sessionId, part.partIndex)

theorem partKey_of_isRow {part : UploadPart} {sessionId partIndex : Nat}
    (isRow : part.isRow sessionId partIndex = true) : partKey part = (sessionId, partIndex) := by
  unfold UploadPart.isRow at isRow
  rw [Bool.and_eq_true, beq_iff_eq, beq_iff_eq] at isRow
  unfold partKey
  rw [isRow.1, isRow.2]

theorem Rows.partNames (rows : Rows tables) {test : UploadPart → Bool} {sessionId partIndex : Nat}
    (named : ∀ part, test part = true → part.isRow sessionId partIndex = true) {part : UploadPart}
    (member : part ∈ tables.parts) (passes : test part = true) : Names tables.parts test part :=
  names_of_key rows.partKeys member passes fun other _ isOther =>
    (partKey_of_isRow (named other isOther)).trans (partKey_of_isRow (named part passes)).symm

theorem Rows.updateParts (rows : Rows tables) {test : UploadPart → Bool}
    {transform : UploadPart → UploadPart}
    (keeps : ∀ part, partKey (transform part) = partKey part) :
    Rows (tables.updateParts test transform) where
  sessionIds := rows.sessionIds
  partKeys := by
    have same : (updated test transform tables.parts).map partKey = tables.parts.map partKey :=
      map_updated partKey fun part _ _ => keeps part
    change (List.map partKey (updated test transform tables.parts)).Nodup
    exact same ▸ rows.partKeys
  owned := by
    intro part member
    rcases mem_updated member with ⟨old, isOld, _, rfl⟩ | ⟨isOld, _⟩
    · rcases rows.owned old isOld with ⟨session, isSession, sameId⟩
      exact ⟨session, isSession, sameId.trans (congrArg Prod.fst (keeps old)).symm⟩
    · exact rows.owned part isOld
  cleanupKeys := rows.cleanupKeys
  cleanupHome := rows.cleanupHome

theorem Books.updateParts (books : Books tables) {test : UploadPart → Bool}
    {transform : UploadPart → UploadPart} (keeps : ∀ part, partKey (transform part) = partKey part)
    (charges : ∀ part ∈ tables.parts, test part = true →
      (transform part).sizeBytes = part.sizeBytes ∧
      ((transform part).state = .deleted ↔ part.state = .deleted)) :
    Books (tables.updateParts test transform) := by
  refine books.same rfl rfl (books.toRows.updateParts keeps) books.sessionUsage books.cleanupUsage
    (fun _ => rfl) ?_
  intro other
  have same : ((updated test transform tables.parts).map
      (partCharge tables.namespaceOf other)) =
        tables.parts.map (partCharge tables.namespaceOf other) := by
    refine map_updated _ fun part member passes => ?_
    have sameSession : (transform part).sessionId = part.sessionId := congrArg Prod.fst (keeps part)
    rcases charges part member passes with ⟨sameSize, sameDeleted⟩
    unfold partCharge
    rw [sameSession, sameSize]
    simp only [ne_eq, sameDeleted]
  change ((updated test transform tables.parts).map (partCharge tables.namespaceOf other)).sum + _ =
    _
  rw [same]
  rfl

def partBytes (part : UploadPart) : Int :=
  if part.state = .deleted then 0 else part.sizeBytes

theorem partCharge_home {home : Nat → Option Nat} {part : UploadPart}
    (isHome : home part.sessionId = some namespaceId) (other : Nat) :
    partCharge home other part = if other = namespaceId then partBytes part else 0 := by
  unfold partCharge partBytes
  rw [isHome]
  by_cases same : other = namespaceId
  · rw [if_pos same]
    by_cases deleted : part.state = .deleted
    · rw [if_neg fun facts => facts.2 deleted, if_pos deleted]
    · rw [if_pos ⟨congrArg some same.symm, deleted⟩, if_neg deleted]
  · rw [if_neg fun facts => same (Option.some.inj facts.1).symm, if_neg same]

def Home (tables : UploadTables) (sessionId namespaceId : Nat) : Prop :=
  ∀ session ∈ tables.sessions, session.id = sessionId → session.namespaceId = namespaceId

theorem Rows.home (rows : Rows tables) {part : UploadPart} (member : part ∈ tables.parts)
    (home : Home tables part.sessionId namespaceId) :
    tables.namespaceOf part.sessionId = some namespaceId := by
  rcases rows.owned part member with ⟨session, isSession, sameId⟩
  rw [← sameId, rows.namespaceOf isSession, home session isSession sameId]

theorem Books.chargePart (books : Books tables) {test : UploadPart → Bool}
    {transform : UploadPart → UploadPart} {part : UploadPart} {stagedBytes : Int}
    (locked : namespaceId ∈ tables.usage.map UploadUsage.namespaceId)
    (keeps : ∀ part, partKey (transform part) = partKey part)
    (names : Names tables.parts test part) (home : Home tables part.sessionId namespaceId)
    (charge : partBytes (transform part) = partBytes part + stagedBytes) :
    Books ((tables.updateParts test transform).changeUsage namespaceId 0 stagedBytes) := by
  refine books.change rfl rfl locked (books.toRows.updateParts keeps) books.sessionUsage
    books.cleanupUsage ?_ ?_
  · intro other
    rw [ite_self, Int.add_zero]
    rfl
  · intro other
    have isHome := books.home names.member home
    have sameSession : (transform part).sessionId = part.sessionId := congrArg Prod.fst (keeps part)
    have before := partCharge_home isHome other
    have after : partCharge tables.namespaceOf other (transform part) = _ :=
      partCharge_home (sameSession ▸ isHome) other
    have sum := sum_updated books.partKeys.of_map names transform
      (partCharge tables.namespaceOf other)
    change ((updated test transform tables.parts).map (partCharge tables.namespaceOf other)).sum +
      (tables.cleanups.map (cleanupCharge other)).sum = _
    rw [sum, before, after, charge]
    unfold staged
    split
    · omega
    · omega

theorem Rows.deleteParts (rows : Rows tables) (test : UploadPart → Bool) :
    Rows (tables.deleteParts test) where
  sessionIds := rows.sessionIds
  partKeys := rows.partKeys.sublist (List.filter_sublist.map _)
  owned := fun part member => rows.owned part (List.mem_of_mem_filter member)
  cleanupKeys := rows.cleanupKeys
  cleanupHome := rows.cleanupHome

theorem Books.deleteParts (books : Books tables) {test : UploadPart → Bool}
    (free : ∀ part ∈ tables.parts, test part = true → part.state = .deleted) :
    Books (tables.deleteParts test) := by
  refine books.same rfl rfl (books.toRows.deleteParts test) books.sessionUsage books.cleanupUsage
    (fun _ => rfl) ?_
  intro other
  have sum : ((Foundation.remaining test tables.parts).map
      (partCharge tables.namespaceOf other)).sum =
      (tables.parts.map (partCharge tables.namespaceOf other)).sum := by
    refine sum_remaining_of_zero fun part member passes => ?_
    unfold partCharge
    exact if_neg fun facts => facts.2 (free part member passes)
  change ((Foundation.remaining test tables.parts).map
    (partCharge tables.namespaceOf other)).sum + _ = _
  rw [sum]
  rfl

theorem staged_deleteParts (rows : Rows tables) {test : UploadPart → Bool} {part : UploadPart}
    (names : Names tables.parts test part) (home : Home tables part.sessionId namespaceId)
    (other : Nat) : (tables.deleteParts test).staged other =
      tables.staged other + if other = namespaceId then -partBytes part else 0 := by
  have charge := partCharge_home (rows.home names.member home) other
  have sum := sum_remaining rows.partKeys.of_map names (partCharge tables.namespaceOf other)
  change ((Foundation.remaining test tables.parts).map (partCharge tables.namespaceOf other)).sum +
    (tables.cleanups.map (cleanupCharge other)).sum = _
  rw [sum, charge]
  unfold staged
  split
  · omega
  · omega

theorem Books.removePart (books : Books tables) {test : UploadPart → Bool} {part : UploadPart}
    (locked : namespaceId ∈ tables.usage.map UploadUsage.namespaceId)
    (names : Names tables.parts test part) (home : Home tables part.sessionId namespaceId) :
    Books ((tables.deleteParts test).changeUsage namespaceId 0 (-partBytes part)) := by
  refine books.change rfl rfl locked (books.toRows.deleteParts test) books.sessionUsage
    books.cleanupUsage ?_ (staged_deleteParts books.toRows names home)
  intro other
  rw [ite_self, Int.add_zero]
  rfl

theorem Books.insertPart (books : Books tables) {part : UploadPart}
    (locked : namespaceId ∈ tables.usage.map UploadUsage.namespaceId)
    (isNew : ∀ old ∈ tables.parts, partKey old ≠ partKey part)
    (owned : ∃ session ∈ tables.sessions, session.id = part.sessionId)
    (home : Home tables part.sessionId namespaceId) :
    Books (({ tables with parts := tables.parts ++ [part] }).changeUsage namespaceId 0
      (partBytes part)) := by
  refine books.change rfl rfl locked ⟨books.sessionIds, ?_, ?_, books.cleanupKeys,
    books.cleanupHome⟩ books.sessionUsage books.cleanupUsage ?_ ?_
  · change ((tables.parts ++ [part]).map partKey).Nodup
    rw [List.map_append]
    refine List.nodup_append.mpr ⟨books.partKeys, List.nodup_singleton _, ?_⟩
    intro oldKey isOld newKey isKey same
    rcases List.mem_map.mp isOld with ⟨old, member, rfl⟩
    rw [List.map_singleton, List.mem_singleton] at isKey
    exact isNew old member (same.trans isKey)
  · intro other isOther
    rcases List.mem_append.mp isOther with isBefore | isAdded
    · exact books.owned other isBefore
    · rw [List.mem_singleton.mp isAdded]
      exact owned
  · intro other
    rw [ite_self, Int.add_zero]
    rfl
  · intro other
    rcases owned with ⟨session, isSession, sameId⟩
    have isHome : tables.namespaceOf part.sessionId = some namespaceId := by
      rw [← sameId, books.namespaceOf isSession, home session isSession sameId]
    change ((tables.parts ++ [part]).map (partCharge tables.namespaceOf other)).sum +
      (tables.cleanups.map (cleanupCharge other)).sum = _
    rw [List.map_append, List.sum_append, List.map_singleton, List.sum_singleton,
      partCharge_home isHome]
    unfold staged
    omega

/-! ## Statements on tombstones -/

theorem Books.updateCleanups (books : Books tables) {test : UploadStagingCleanup → Bool}
    {transform : UploadStagingCleanup → UploadStagingCleanup}
    (keeps : ∀ old, (transform old).stagingKey = old.stagingKey ∧
      (transform old).sessionId = old.sessionId ∧ (transform old).namespaceId = old.namespaceId ∧
      (transform old).sizeBytes = old.sizeBytes) :
    Books (tables.updateCleanups test transform) := by
  refine books.same rfl rfl ⟨books.sessionIds, books.partKeys, books.owned, ?_, ?_⟩
    books.sessionUsage ?_ (fun _ => rfl) ?_
  · have same : (updated test transform tables.cleanups).map UploadStagingCleanup.stagingKey =
        tables.cleanups.map UploadStagingCleanup.stagingKey :=
      map_updated _ fun old _ _ => (keeps old).1
    change ((updated test transform tables.cleanups).map UploadStagingCleanup.stagingKey).Nodup
    exact same ▸ books.cleanupKeys
  · intro old member session isSession sameId
    rcases mem_updated member with ⟨before, isBefore, _, rfl⟩ | ⟨isBefore, _⟩
    · rw [(keeps before).2.2.1]
      exact books.cleanupHome before isBefore session isSession (sameId.trans (keeps before).2.1)
    · exact books.cleanupHome old isBefore session isSession sameId
  · intro old member
    rcases mem_updated member with ⟨before, isBefore, _, rfl⟩ | ⟨isBefore, _⟩
    · rw [(keeps before).2.2.1]
      exact books.cleanupUsage before isBefore
    · exact books.cleanupUsage old isBefore
  · intro other
    have same : (updated test transform tables.cleanups).map (cleanupCharge other) =
        tables.cleanups.map (cleanupCharge other) := by
      refine map_updated _ fun old _ _ => ?_
      unfold cleanupCharge
      rw [(keeps old).2.2.1, (keeps old).2.2.2]
    change _ + ((updated test transform tables.cleanups).map (cleanupCharge other)).sum = _
    rw [same]
    rfl

theorem Books.refundTombstone (books : Books tables) {old : UploadStagingCleanup}
    (member : old ∈ tables.cleanups) :
    Books ((tables.deleteCleanups fun other => other.stagingKey == old.stagingKey).changeUsage
      old.namespaceId 0 (-old.sizeBytes)) := by
  have names : Names tables.cleanups (fun other => other.stagingKey == old.stagingKey) old :=
    names_of_key books.cleanupKeys member (by simp) fun other _ isOther => by simpa using isOther
  refine books.change rfl rfl (books.cleanupUsage old member) ⟨books.sessionIds, books.partKeys,
    books.owned, books.cleanupKeys.sublist (List.filter_sublist.map _), ?_⟩ books.sessionUsage ?_
    ?_ ?_
  · intro other isOther
    exact books.cleanupHome other (List.mem_of_mem_filter isOther)
  · intro other isOther
    exact books.cleanupUsage other (List.mem_of_mem_filter isOther)
  · intro other
    rw [ite_self, Int.add_zero]
    rfl
  · intro other
    have sum := sum_remaining books.cleanupKeys.of_map names (cleanupCharge other)
    change (tables.parts.map (partCharge tables.namespaceOf other)).sum +
      ((Foundation.remaining _ tables.cleanups).map (cleanupCharge other)).sum = _
    rw [sum]
    unfold staged
    by_cases same : other = old.namespaceId
    · have charge : cleanupCharge other old = old.sizeBytes := if_pos same.symm
      rw [if_pos same, charge]
      omega
    · have charge : cleanupCharge other old = 0 := if_neg fun isSame => same isSame.symm
      rw [if_neg same, charge]
      omega

theorem Books.retirePart (books : Books tables) {test : UploadPart → Bool} {part : UploadPart}
    {old : UploadStagingCleanup} (names : Names tables.parts test part)
    (home : Home tables part.sessionId old.namespaceId)
    (sameSession : old.sessionId = part.sessionId)
    (charge : partBytes part = old.sizeBytes)
    (isNew : ∀ other ∈ tables.cleanups, other.stagingKey ≠ old.stagingKey) :
    Books { tables.deleteParts test with
      cleanups := (tables.deleteParts test).cleanups ++ [old] } := by
  have rows := books.toRows.deleteParts test
  rcases books.owned part names.member with ⟨session, isSession, sameId⟩
  refine books.same rfl rfl ⟨rows.sessionIds, rows.partKeys, rows.owned, ?_, ?_⟩ books.sessionUsage
    ?_ (fun _ => rfl) ?_
  · change ((tables.cleanups ++ [old]).map UploadStagingCleanup.stagingKey).Nodup
    rw [List.map_append]
    refine List.nodup_append.mpr ⟨books.cleanupKeys, List.nodup_singleton _, ?_⟩
    intro oldKey isOld newKey isKey same
    rcases List.mem_map.mp isOld with ⟨other, member, rfl⟩
    rw [List.map_singleton, List.mem_singleton] at isKey
    exact isNew other member (same.trans isKey)
  · intro other isOther owner isOwner ownerId
    rcases List.mem_append.mp isOther with isBefore | isAdded
    · exact books.cleanupHome other isBefore owner isOwner ownerId
    · rw [List.mem_singleton.mp isAdded] at ownerId ⊢
      exact home owner isOwner (ownerId.trans sameSession)
  · intro other isOther
    rcases List.mem_append.mp isOther with isBefore | isAdded
    · exact books.cleanupUsage other isBefore
    · rw [List.mem_singleton.mp isAdded, ← home session isSession sameId]
      exact books.sessionUsage session isSession
  · intro other
    have parts := staged_deleteParts books.toRows names home other
    have added : UploadTables.staged { tables.deleteParts test with
        cleanups := (tables.deleteParts test).cleanups ++ [old] } other =
          (tables.deleteParts test).staged other + cleanupCharge other old := by
      unfold staged
      rw [List.map_append, List.sum_append, List.map_singleton, List.sum_singleton, Int.add_assoc]
      rfl
    rw [added, parts, charge]
    unfold cleanupCharge
    by_cases same : other = old.namespaceId
    · rw [if_pos same, if_pos same.symm]
      omega
    · rw [if_neg same, if_neg fun isSame => same isSame.symm]
      omega

/-! ## Deleting sessions -/

theorem mem_deleteSessions {test : UploadSession → Bool} {part : UploadPart} :
    part ∈ (tables.deleteSessions test).parts ↔
      part ∈ tables.parts ∧ ∀ session ∈ tables.sessions, session.id = part.sessionId →
        test session = false := by
  unfold deleteSessions Foundation.remaining
  rw [List.mem_filter]
  refine and_congr_right fun _ => ?_
  constructor
  · intro notGone session member sameId
    by_contra passes
    rw [Bool.not_eq_false] at passes
    have gone : part.sessionId ∈ (tables.sessions.filter test).map UploadSession.id :=
      List.mem_map.mpr ⟨session, List.mem_filter.mpr ⟨member, passes⟩, sameId⟩
    dsimp only at notGone
    rw [List.contains_iff_mem.mpr gone] at notGone
    cases notGone
  · intro kept
    rw [Bool.not_eq_true', ← Bool.not_eq_true, List.contains_iff_mem]
    intro gone
    rcases List.mem_map.mp gone with ⟨session, isGone, sameId⟩
    rcases List.mem_filter.mp isGone with ⟨member, passes⟩
    rw [kept session member sameId] at passes
    cases passes

theorem Rows.deleteSessions (rows : Rows tables) (test : UploadSession → Bool) :
    Rows (tables.deleteSessions test) where
  sessionIds := rows.sessionIds.sublist (List.filter_sublist.map _)
  partKeys := rows.partKeys.sublist (List.filter_sublist.map _)
  owned := by
    intro part member
    rcases mem_deleteSessions.mp member with ⟨isPart, kept⟩
    rcases rows.owned part isPart with ⟨session, isSession, sameId⟩
    refine ⟨session, List.mem_filter.mpr ⟨isSession, ?_⟩, sameId⟩
    rw [kept session isSession sameId]
    rfl
  cleanupKeys := rows.cleanupKeys
  cleanupHome := fun old isOld session isSession =>
    rows.cleanupHome old isOld session (List.mem_of_mem_filter isSession)

theorem Books.deleteSessions (books : Books tables) {test : UploadSession → Bool}
    (closed : ∀ session ∈ tables.sessions, test session = true → session.state.terminal = true)
    (free : ∀ session ∈ tables.sessions, test session = true → ∀ part ∈ tables.parts,
      part.sessionId = session.id → part.state = .deleted) :
    Books (tables.deleteSessions test) := by
  have rows := books.toRows.deleteSessions test
  refine books.same rfl rfl rows
    (fun session member => books.sessionUsage session (List.mem_of_mem_filter member))
    books.cleanupUsage ?_ ?_
  · intro other
    refine sum_remaining_of_zero fun session member passes => ?_
    unfold liveCount
    refine if_neg fun facts => ?_
    rw [closed session member passes] at facts
    cases facts.2
  · intro other
    have homes : ∀ part ∈ (tables.deleteSessions test).parts,
        partCharge (tables.deleteSessions test).namespaceOf other part =
          partCharge tables.namespaceOf other part := by
      intro part member
      rcases rows.owned part member with ⟨session, isSession, sameId⟩
      have before := books.namespaceOf (List.mem_of_mem_filter isSession)
      have after := rows.namespaceOf isSession
      unfold partCharge
      rw [← sameId, before, after]
    have sum : (((tables.deleteSessions test).parts).map
        (partCharge tables.namespaceOf other)).sum =
          (tables.parts.map (partCharge tables.namespaceOf other)).sum := by
      refine sum_remaining_of_zero fun part member isGone => ?_
      rcases List.mem_map.mp (List.contains_iff_mem.mp isGone) with ⟨session, isIn, sameId⟩
      rcases List.mem_filter.mp isIn with ⟨isSession, passes⟩
      unfold partCharge
      exact if_neg fun facts => facts.2 (free session isSession passes part member sameId.symm)
    unfold staged
    rw [List.map_congr_left homes, sum]
    rfl

end UploadTables

end Storix
