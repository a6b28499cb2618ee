import Storix.Invariants.UploadSteps
import Mathlib.Data.List.Forall2
import Mathlib.Data.List.Sort

/-! # What completing an upload keeps

A call of `complete` relies on what other calls leave alone between its transactions: the
stored parts of the session it claimed, the bodies under their keys, and the rows of the
sessions that are closed. -/

namespace Storix

open Foundation

variable {host : FinalizeHost} {tables next : UploadTables} {claims : Option Nat} {completes : Bool}

namespace UploadTables

/-! ## Transactions that add rows -/

/-- What a transaction does to the tables: new sessions are among `opens`, and parts that it
stores are among `stores`. -/
structure Change (claims : Option Nat) (completes : Bool) (opens : UploadSession → Prop)
    (stores : UploadPart → Prop) (tables next : UploadTables) : Prop where
  sessions : ∀ new ∈ next.sessions,
    (∃ old ∈ tables.sessions, SessionStep claims completes old new) ∨ opens new
  stored : ∀ new ∈ next.parts, new.state = .stored → new ∈ tables.parts ∨ stores new
  frozen : ∀ session ∈ tables.sessions, session.state = .finalizing →
    next.storedOf session.id = tables.storedOf session.id

variable {opens : UploadSession → Prop} {stores : UploadPart → Prop}

theorem Advance.change (advance : Advance claims completes tables next) :
    Change claims completes opens stores tables next where
  sessions := fun new member => .inl (advance.sessions new member)
  stored := by
    intro new member isStored
    rcases advance.parts new member with ⟨old, isOld, _, same⟩
    exact .inl (same isStored ▸ isOld)
  frozen := advance.frozen

theorem Change.mono {opens' : UploadSession → Prop} {stores' : UploadPart → Prop}
    (change : Change claims completes opens stores tables next)
    (opened : ∀ session, opens session → opens' session)
    (stored : ∀ part, stores part → stores' part) :
    Change claims completes opens' stores' tables next where
  sessions := fun new member => (change.sessions new member).imp_right (opened new)
  stored := fun new member isStored => (change.stored new member isStored).imp_right (stored new)
  frozen := change.frozen

theorem Change.refl (tables : UploadTables) : Change claims completes opens stores tables tables :=
  (Advance.refl tables).change

theorem Change.ofRows (change : Change claims completes opens stores tables next)
    {before after : UploadTables} (sameSessions : before.sessions = tables.sessions)
    (sameParts : before.parts = tables.parts) (nextSessions : after.sessions = next.sessions)
    (nextParts : after.parts = next.parts) :
    Change claims completes opens stores before after where
  sessions := by
    rw [sameSessions, nextSessions]
    exact change.sessions
  stored := by
    rw [sameParts, nextParts]
    exact change.stored
  frozen := by
    unfold storedOf
    rw [sameSessions, sameParts, nextParts]
    exact change.frozen

theorem Change.ensured (tables : UploadTables) (namespaceId : Nat)
    (change : Change claims completes opens stores (tables.ensureUsage namespaceId) next) :
    Change claims completes opens stores tables next :=
  change.ofRows (ensureUsage_rows tables namespaceId).1.symm
    (ensureUsage_rows tables namespaceId).2.1.symm rfl rfl

theorem Change.nothing (tables : UploadTables) (namespaceId : Nat) :
    Change claims completes opens stores tables (tables.ensureUsage namespaceId) :=
  .ensured tables namespaceId (.refl _)

theorem Change.createSession (tables : UploadTables) (input : CreateUploadSessionInput)
    (caps : UploadPolicyCaps) :
    Change claims completes (fun new => new.state = .opened ∧ new.id = input.id)
      (fun _ => False) tables
      (tables.after (.createSession input caps)) := by
  rcases tables.after_cases (.createSession input caps) with same | ⟨planned, written, decided,
    isWritten, same⟩
  · rw [same]
    exact .refl tables
  · rw [same]
    dsimp only [UploadOperation.decide] at decided
    split at decided
    · rename_i session created
      rw [createSession_created created] at decided
      cases decided
      dsimp only [UploadTables.write] at isWritten
      split at isWritten
      · cases isWritten
      · cases isWritten
        apply Change.ensured tables input.namespaceId
        constructor
        · intro new member
          rcases List.mem_append.mp member with isOld | isNew
          · exact .inl ⟨new, isOld, .refl new⟩
          · rw [List.mem_singleton.mp isNew]
            exact .inr ⟨rfl, rfl⟩
        · intro new member _
          exact .inl member
        · intro _ _ _
          rfl
    · cases decided
    · cases decided
      cases isWritten
      exact .nothing tables input.namespaceId

theorem Change.reservePart (tables : UploadTables) (sessionId partIndex sizeBytes : Nat)
    (stagingKey : JsString) (caps : UploadPolicyCaps) (leaseSeconds now : Nat) :
    Change claims completes opens stores tables
      (tables.after (.reservePart sessionId partIndex sizeBytes stagingKey caps leaseSeconds
        now)) := by
  rcases tables.after_cases (.reservePart sessionId partIndex sizeBytes stagingKey caps leaseSeconds
    now) with same | ⟨planned, written, decided, isWritten, same⟩
  · rw [same]
    exact .refl tables
  · rw [same]
    rcases Option.bind_eq_some_iff.mp decided with ⟨session, found, decided⟩
    split at decided
    · rename_i part reserved
      cases decided
      have isReserved := (reservePart_reserved found reserved).2.2.1
      dsimp only [UploadTables.write] at isWritten
      split at isWritten
      · cases isWritten
      · cases isWritten
        apply Change.ensured tables session.namespaceId
        constructor
        · intro new member
          exact .inl ⟨new, member, .refl new⟩
        · intro new member isStored
          rcases List.mem_append.mp member with isOld | isNew
          · exact .inl (List.mem_of_mem_filter isOld)
          · rw [List.mem_singleton.mp isNew, isReserved] at isStored
            cases isStored
        · intro other _ _
          change ((Foundation.remaining _ _ ++ [part]).filter _) = _
          rw [List.filter_append, filter_remaining]
          · simp [storedOf, isReserved]
          · intro old _ passes
            rw [Bool.and_eq_true, beq_iff_eq] at passes
            simp [passes.2]
    · cases decided
    · cases decided
      cases isWritten
      exact .nothing tables session.namespaceId

theorem Change.commitPart (rows : Rows tables) (sessionId partIndex : Nat) (digest : JsString)
    (encryptionIv : Option JsString) (stagingKey : JsString) (inactivitySeconds now : Nat) :
    Change claims completes (fun _ => False)
      (fun part => part.stagingKey = stagingKey ∧ part.digest = some digest) tables
      (tables.after (.commitPart sessionId partIndex digest encryptionIv (some stagingKey)
        (some inactivitySeconds) now)) := by
  rcases tables.after_cases (.commitPart sessionId partIndex digest encryptionIv (some stagingKey)
    (some inactivitySeconds) now) with same | ⟨planned, written, decided, isWritten, same⟩
  · rw [same]
    exact .refl tables
  · rw [same]
    rcases Option.map_eq_some_iff.mp decided with ⟨owner, found, rfl⟩
    split at isWritten
    · dsimp only [UploadTables.write] at isWritten
      split at isWritten
      · cases isWritten
        exact .nothing tables owner.namespaceId
      · rename_i isLive
        split at isWritten
        · cases isWritten
        · cases isWritten
          have anyOpen : ((tables.ensureUsage owner.namespaceId).sessions.any fun session =>
              session.id == sessionId && session.isOpen now) = true := by
            rw [not_and, Bool.not_eq_false] at isLive
            exact isLive rfl
          rcases List.any_eq_true.mp anyOpen with ⟨live, isMember, passes⟩
          rw [Bool.and_eq_true, beq_iff_eq] at passes
          have ensuredRows : Rows (tables.ensureUsage owner.namespaceId) := rows.ofFaces
            (congrArg _ (ensureUsage_rows tables owner.namespaceId).1)
            (ensureUsage_rows tables owner.namespaceId).2.1
            (ensureUsage_rows tables owner.namespaceId).2.2.1
          apply Change.ensured tables owner.namespaceId
          constructor
          · intro new member
            rcases mem_updated member with ⟨old, isOld, isOpen, rfl⟩ | ⟨isOld, _⟩
            · rw [Bool.and_eq_true] at isOpen
              have isOpened := isOpen_live isOpen.2
              exact .inl ⟨old, isOld, .reopened rfl (live_of_opened isOpened) isOpened⟩
            · exact .inl ⟨new, isOld, .refl new⟩
          · intro new member isStored
            rcases mem_updated member with ⟨old, isOld, passes, rfl⟩ | ⟨isOld, _⟩
            · rw [Bool.and_eq_true] at passes
              exact .inr ⟨beq_iff_eq.mp passes.2, rfl⟩
            · exact .inl isOld
          · intro session isSession isFinalizing
            apply filter_updated
            intro part _ isReserved
            rw [Bool.and_eq_true, Bool.and_eq_true, beq_iff_eq] at isReserved
            have sameSession : part.sessionId = sessionId :=
              congrArg Prod.fst (partKey_of_isRow isReserved.1.1)
            have different : part.sessionId ≠ session.id := by
              intro same
              have only := List.inj_on_of_nodup_map ensuredRows.sessionIds isMember isSession
                (passes.1.trans (sameSession.symm.trans same))
              have isOpened := isOpen_live passes.2
              rw [only, isFinalizing] at isOpened
              cases isOpened
            simp [different]
    · cases isWritten
      exact .nothing tables owner.namespaceId

end UploadTables

/-! ## What a system keeps -/

def UploadPart.HasBody (host : FinalizeHost) (bodies : JsString → Option Bytes)
    (part : UploadPart) : Prop :=
  ∃ body, bodies part.stagingKey = some body ∧ part.digest = some (host.sha256 body)

def FinalizeHost.Reads (host : FinalizeHost) (parts : List UploadPart) (content : Bytes) : Prop :=
  ∃ reads, List.Forall₂ (fun part read => part.digest = some (host.sha256 read)) parts reads ∧
    content = reads.flatten

def FinalizePhase.Sound (host : FinalizeHost) : FinalizePhase → Prop
  | .stored claim _ content => host.Reads claim.parts content
  | .confirmed claim _ content =>
      host.Reads claim.parts content ∧ content.length = claim.session.sizeBytes ∧
        ∀ expected, claim.session.sha256 = some expected → host.sha256 content = expected
  | _ => True

structure FinalizeClaim.Sound (host : FinalizeHost) (system : FinalizeSystem)
    (claim : FinalizeClaim) : Prop where
  token : claim.token ∈ system.tokens
  session : claim.session.id ∈ system.sessionIds
  indices : claim.parts.map UploadPart.partIndex = List.range claim.session.partCount
  bodies : ∀ part ∈ claim.parts, part.HasBody host system.bodies
  plan : ∀ session ∈ system.tables.sessions, session.id = claim.session.id →
    session.plan = claim.session.plan
  held : ∀ session ∈ system.tables.sessions, session.id = claim.session.id →
    session.state = .finalizing → session.leaseToken = some claim.token →
      system.tables.storedParts claim.session.id = claim.parts

structure Finalized.Sound (host : FinalizeHost) (system : FinalizeSystem) (done : Finalized) :
    Prop where
  session : done.session.id ∈ system.sessionIds
  rows : ∀ session ∈ system.tables.sessions, session.id = done.session.id →
    session.plan = done.session.plan ∧ session.state = .completed ∧
      FinalizeSystem.replay session = some done.response
  indices : done.parts.map UploadPart.partIndex = List.range done.session.partCount
  bodies : ∀ part ∈ done.parts, part.HasBody host system.bodies
  reads : host.Reads done.parts done.content
  size : done.content.length = done.session.sizeBytes
  checksum : ∀ expected, done.session.sha256 = some expected → host.sha256 done.content = expected

namespace FinalizeSystem

variable {system after : FinalizeSystem} {final : UploadSession → Prop}
  {lost : Nat → Prop}

/-- The invariant of the runs. Of interest are sessions that were found closed, and tokens that
were found to be lost. -/
structure Sound (host : FinalizeHost) (final : UploadSession → Prop) (lost : Nat → Prop)
    (system : FinalizeSystem) : Prop where
  books : system.tables.Books
  sessionIds : ∀ session ∈ system.tables.sessions, session.id ∈ system.sessionIds
  tokens : ∀ session ∈ system.tables.sessions, session.state = .finalizing →
    ∀ token, session.leaseToken = some token → token ∈ system.tokens
  stored : ∀ part ∈ system.tables.parts, part.state = .stored → part.HasBody host system.bodies
  claims : ∀ worker claim, (system.workers worker).claim = some claim → claim.Sound host system
  phases : ∀ worker, (system.workers worker).Sound host
  alone : ∀ worker other claim rival, (system.workers worker).claim = some claim →
    (system.workers other).claim = some rival → claim.token = rival.token → worker = other
  observed : ∀ target ∈ system.observed, target.sessionId ∈ system.sessionIds ∧
    ∀ session ∈ system.tables.sessions, session.id = target.sessionId →
      session.state.terminal = true
  finalized : ∀ done ∈ system.finalized, done.Sound host system
  once : (system.finalized.map fun done => done.session.id).Nodup
  completed : ∀ session ∈ system.tables.sessions, session.state = .completed →
    ∃ done ∈ system.finalized, done.session.id = session.id
  answered : ∀ session ∈ system.tables.sessions,
    session.state = .completed ∨ session.state = .failed → (replay session).isSome = true
  kept : ∀ session, final session → session.state.terminal = true ∧
    session.id ∈ system.sessionIds ∧
      ∀ row ∈ system.tables.sessions, row.id = session.id → row = session
  lost : ∀ token, lost token → token ∈ system.tokens ∧
    ∀ session ∈ system.tables.sessions, session.state = .finalizing →
      session.leaseToken ≠ some token
  databases : ∀ namespaceId, Reachable host.toHost (system.databases namespaceId)

theorem Initial.sound (first : Initial host system) :
    Sound host (fun _ => False) (fun _ => False) system where
  books :=
    { sessionIds := by rw [first.sessions]; exact List.nodup_nil
      partKeys := by rw [first.parts]; exact List.nodup_nil
      owned := by rw [first.parts]; exact List.forall_mem_nil _
      cleanupKeys := by rw [first.cleanups]; exact List.nodup_nil
      cleanupHome := by rw [first.cleanups]; exact List.forall_mem_nil _
      usageIds := by rw [first.usage]; exact List.nodup_nil
      sessionUsage := by rw [first.sessions]; exact List.forall_mem_nil _
      cleanupUsage := by rw [first.cleanups]; exact List.forall_mem_nil _
      counted := by rw [first.usage]; exact List.forall_mem_nil _
      globalActive := by rw [first.globalUsage, first.usage]; rfl
      globalStaged := by rw [first.globalUsage, first.usage]; rfl }
  sessionIds := by rw [first.sessions]; exact List.forall_mem_nil _
  tokens := by rw [first.sessions]; exact List.forall_mem_nil _
  stored := by rw [first.parts]; exact List.forall_mem_nil _
  claims := by
    intro worker claim isClaim
    rw [first.workers worker] at isClaim
    cases isClaim
  phases := by
    intro worker
    rw [first.workers worker]
    trivial
  alone := by
    intro worker other claim rival isClaim
    rw [first.workers worker] at isClaim
    cases isClaim
  observed := by rw [first.observed]; exact List.forall_mem_nil _
  finalized := by rw [first.finalized]; exact List.forall_mem_nil _
  once := by rw [first.finalized]; exact List.nodup_nil
  completed := by rw [first.sessions]; exact List.forall_mem_nil _
  answered := by rw [first.sessions]; exact List.forall_mem_nil _
  kept := fun _ isFalse => isFalse.elim
  lost := fun _ isFalse => isFalse.elim
  databases := first.databases

/-- What every step does to the tables and to the ids, tokens and bodies that were drawn. -/
structure Evolves (host : FinalizeHost) (claims : Option Nat) (completes : Bool)
    (system after : FinalizeSystem) : Prop where
  tables : UploadTables.Change claims completes
    (fun new => new.state = .opened ∧ new.id ∉ system.sessionIds ∧ new.id ∈ after.sessionIds)
    (fun part => part.HasBody host after.bodies) system.tables after.tables
  bodies : ∀ key body, system.bodies key = some body → after.bodies key = some body
  sessionIds : ∀ id ∈ system.sessionIds, id ∈ after.sessionIds
  tokens : ∀ token ∈ system.tokens, token ∈ after.tokens
  fresh : ∀ token, claims = some token → token ∉ system.tokens ∧ token ∈ after.tokens

theorem Evolves.hasBody (evolves : Evolves host claims completes system after) {part : UploadPart}
    (hasBody : part.HasBody host system.bodies) : part.HasBody host after.bodies := by
  rcases hasBody with ⟨body, isBody, isDigest⟩
  exact ⟨body, evolves.bodies _ body isBody, isDigest⟩

theorem Evolves.old (evolves : Evolves host claims completes system after) {new : UploadSession}
    (member : new ∈ after.tables.sessions) (isKnown : new.id ∈ system.sessionIds) :
    ∃ old ∈ system.tables.sessions, old.id = new.id ∧ SessionStep claims completes old new := by
  rcases evolves.tables.sessions new member with ⟨old, isOld, step⟩ | ⟨_, isNew, _⟩
  · exact ⟨old, isOld, (congrArg Prod.fst step.plan).symm, step⟩
  · exact absurd isKnown isNew

theorem Evolves.closed (evolves : Evolves host claims completes system after) {id : Nat}
    (isKnown : id ∈ system.sessionIds)
    (closed : ∀ session ∈ system.tables.sessions, session.id = id → session.state.terminal = true)
    {new : UploadSession} (member : new ∈ after.tables.sessions) (sameId : new.id = id) :
    new ∈ system.tables.sessions := by
  rcases evolves.old member (sameId ▸ isKnown) with ⟨old, isOld, isSame, step⟩
  rw [step.closed (closed old isOld (isSame.trans sameId))]
  exact isOld

theorem Evolves.claim (evolves : Evolves host claims completes system after)
    {claim : FinalizeClaim} (sound : claim.Sound host system) : claim.Sound host after where
  token := evolves.tokens _ sound.token
  session := evolves.sessionIds _ sound.session
  indices := sound.indices
  bodies := fun part member => evolves.hasBody (sound.bodies part member)
  plan := by
    intro new member sameId
    rcases evolves.old member (sameId ▸ sound.session) with ⟨old, isOld, isSame, step⟩
    rw [step.plan]
    exact sound.plan old isOld (isSame.trans sameId)
  held := by
    intro new member sameId isFinalizing isHeld
    rcases evolves.old member (sameId ▸ sound.session) with ⟨old, isOld, isSame, step⟩
    rcases step.token isFinalizing with ⟨wasFinalizing, sameToken⟩ | ⟨isClaimed, _⟩
    · have same := sound.held old isOld (isSame.trans sameId) wasFinalizing
        (sameToken.trans isHeld)
      have frozen := evolves.tables.frozen old isOld wasFinalizing
      rw [isSame.trans sameId] at frozen
      rw [← same]
      exact UploadTables.storedParts_congr frozen
    · exact absurd sound.token (evolves.fresh claim.token (isClaimed.symm.trans isHeld)).1

theorem Evolves.done (evolves : Evolves host claims completes system after) {done : Finalized}
    (sound : done.Sound host system) : done.Sound host after where
  session := evolves.sessionIds _ sound.session
  rows := by
    intro new member sameId
    apply sound.rows new _ sameId
    apply evolves.closed sound.session _ member sameId
    intro old isOld isSame
    rw [(sound.rows old isOld isSame).2.1]
    rfl
  indices := sound.indices
  bodies := fun part member => evolves.hasBody (sound.bodies part member)
  reads := sound.reads
  size := sound.size
  checksum := sound.checksum

/-- A step that evolves the system keeps the invariant, if it does for the phases, the
observations and the sessions that it changes. -/
theorem Sound.evolve (sound : Sound host final lost system)
    (evolves : Evolves host claims completes system after) (books : after.tables.Books)
    (workers : ∀ worker, after.workers worker = system.workers worker ∨
      (after.workers worker).Sound host ∧ ∀ claim, (after.workers worker).claim = some claim →
        (system.workers worker).claim = some claim ∨
          claims = some claim.token ∧ claim.Sound host after ∧
            ∀ other, other ≠ worker → after.workers other = system.workers other)
    (observed : ∀ target ∈ after.observed, target ∈ system.observed ∨
      target.sessionId ∈ system.sessionIds ∧ ∀ session ∈ system.tables.sessions,
        session.id = target.sessionId → session.state.terminal = true)
    (finalized : ∀ done ∈ after.finalized, done ∈ system.finalized ∨ done.Sound host after)
    (once : (after.finalized.map fun done => done.session.id).Nodup)
    (completed : ∀ session ∈ after.tables.sessions, session.state = .completed →
      ∃ done ∈ after.finalized, done.session.id = session.id)
    (databases : ∀ namespaceId, Reachable host.toHost (after.databases namespaceId)) :
    Sound host final lost after := by
  have held : ∀ worker claim, (after.workers worker).claim = some claim →
      (system.workers worker).claim = some claim ∨
        claims = some claim.token ∧ claim.Sound host after ∧
          ∀ other, other ≠ worker → after.workers other = system.workers other := by
    intro worker claim isClaim
    rcases workers worker with same | ⟨_, changed⟩
    · exact .inl (same ▸ isClaim)
    · exact changed claim isClaim
  -- A token that is drawn is the token of no claim that stood before.
  have drawn : ∀ worker claim token, claims = some token →
      (system.workers worker).claim = some claim → claim.token ≠ token := by
    intro worker claim token isDrawn isClaim same
    have wasDrawn := (sound.claims worker claim isClaim).token
    rw [same] at wasDrawn
    exact (evolves.fresh token isDrawn).1 wasDrawn
  refine
  { books := books
    sessionIds := by
      intro new member
      rcases evolves.tables.sessions new member with ⟨old, isOld, step⟩ | ⟨_, _, isDrawn⟩
      · rw [show new.id = old.id from congrArg Prod.fst step.plan]
        exact evolves.sessionIds _ (sound.sessionIds old isOld)
      · exact isDrawn
    tokens := by
      intro new member isFinalizing token isToken
      rcases evolves.tables.sessions new member with ⟨old, isOld, step⟩ | ⟨isOpened, _⟩
      · rcases step.token isFinalizing with ⟨wasFinalizing, sameToken⟩ | ⟨isClaimed, _⟩
        · exact evolves.tokens _
            (sound.tokens old isOld wasFinalizing token (sameToken.trans isToken))
        · exact (evolves.fresh token (isClaimed.symm.trans isToken)).2
      · rw [isOpened] at isFinalizing
        cases isFinalizing
    stored := by
      intro part member isStored
      rcases evolves.tables.stored part member isStored with isOld | isNew
      · exact evolves.hasBody (sound.stored part isOld isStored)
      · exact isNew
    claims := by
      intro worker claim isClaim
      rcases held worker claim isClaim with before | ⟨_, isSound, _⟩
      · exact evolves.claim (sound.claims worker claim before)
      · exact isSound
    phases := by
      intro worker
      rcases workers worker with same | ⟨changed, _⟩
      · exact same ▸ sound.phases worker
      · exact changed
    alone := by
      intro worker other claim rival isClaim isRival same
      by_contra different
      rcases held worker claim isClaim with before | ⟨isDrawn, _, others⟩
      · rcases held other rival isRival with beforeRival | ⟨isDrawn, _, _⟩
        · exact different (sound.alone worker other claim rival before beforeRival same)
        · exact drawn worker claim rival.token isDrawn before same
      · rw [others other (Ne.symm different)] at isRival
        exact drawn other rival claim.token isDrawn isRival same.symm
    observed := by
      intro target member
      have before : target.sessionId ∈ system.sessionIds ∧ ∀ session ∈ system.tables.sessions,
          session.id = target.sessionId → session.state.terminal = true := by
        rcases observed target member with isOld | isNew
        · exact sound.observed target isOld
        · exact isNew
      constructor
      · exact evolves.sessionIds _ before.1
      · intro session isSession sameId
        exact before.2 session (evolves.closed before.1 before.2 isSession sameId) sameId
    finalized := by
      intro done member
      rcases finalized done member with isOld | isSound
      · exact evolves.done (sound.finalized done isOld)
      · exact isSound
    once := once
    completed := completed
    answered := by
      intro new member isAnswered
      rcases evolves.tables.sessions new member with ⟨old, isOld, step⟩ | ⟨isOpened, _⟩
      · rcases step.answered isAnswered with same | isSome
        · rw [same] at isAnswered ⊢
          exact sound.answered old isOld isAnswered
        · exact isSome
      · rw [isOpened] at isAnswered
        cases isAnswered with
        | inl isCompleted => cases isCompleted
        | inr isFailed => cases isFailed
    kept := by
      intro session isFinal
      have before := sound.kept session isFinal
      refine ⟨before.1, evolves.sessionIds _ before.2.1, ?_⟩
      intro row isRow sameId
      apply before.2.2 row _ sameId
      apply evolves.closed before.2.1 _ isRow sameId
      intro old isOld isSame
      rw [before.2.2 old isOld isSame]
      exact before.1
    lost := by
      intro token isLost
      have before := sound.lost token isLost
      refine ⟨evolves.tokens _ before.1, ?_⟩
      intro new member isFinalizing isToken
      rcases evolves.tables.sessions new member with ⟨old, isOld, step⟩ | ⟨isOpened, _⟩
      · rcases step.token isFinalizing with ⟨wasFinalizing, sameToken⟩ | ⟨isClaimed, _⟩
        · exact before.2 old isOld wasFinalizing (sameToken.trans isToken)
        · exact (evolves.fresh token (isClaimed.symm.trans isToken)).1 before.1
      · rw [isOpened] at isFinalizing
        cases isFinalizing
    databases := databases }

theorem Sound.keep (sound : Sound host final lost system)
    (evolves : Evolves host claims false system after)
    (books : after.tables.Books) (sameFinalized : after.finalized = system.finalized)
    (workers : ∀ worker, after.workers worker = system.workers worker ∨
      (after.workers worker).Sound host ∧ ∀ claim, (after.workers worker).claim = some claim →
        (system.workers worker).claim = some claim ∨
          claims = some claim.token ∧ claim.Sound host after ∧
            ∀ other, other ≠ worker → after.workers other = system.workers other)
    (observed : ∀ target ∈ after.observed, target ∈ system.observed ∨
      target.sessionId ∈ system.sessionIds ∧ ∀ session ∈ system.tables.sessions,
        session.id = target.sessionId → session.state.terminal = true)
    (databases : ∀ namespaceId, Reachable host.toHost (after.databases namespaceId)) :
    Sound host final lost after := by
  apply sound.evolve evolves books workers observed _ _ _ databases
  · intro done member
    exact .inl (sameFinalized ▸ member)
  · rw [sameFinalized]
    exact sound.once
  · intro new member isCompleted
    rw [sameFinalized]
    rcases evolves.tables.sessions new member with ⟨old, isOld, step⟩ | ⟨isOpened, _⟩
    · rcases step.completed isCompleted with same | isAllowed
      · rw [same] at isCompleted ⊢
        exact sound.completed old isOld isCompleted
      · cases isAllowed
    · rw [isOpened] at isCompleted
      cases isCompleted

/-! ## Steps on the tables or on one call -/

theorem Evolves.ofAdvance {tables : UploadTables}
    (advance : UploadTables.Advance none false system.tables tables) :
    Evolves host none false system { system with tables := tables } where
  tables := advance.change
  bodies := fun _ _ isBody => isBody
  sessionIds := fun _ member => member
  tokens := fun _ member => member
  fresh := fun _ isNone => by cases isNone

theorem Evolves.same (sameTables : after.tables = system.tables)
    (sameBodies : after.bodies = system.bodies) (sameIds : after.sessionIds = system.sessionIds)
    (sameTokens : after.tokens = system.tokens) :
    Evolves host none false system after where
  tables := by
    rw [sameTables]
    exact .refl system.tables
  bodies := fun _ _ isBody => sameBodies ▸ isBody
  sessionIds := fun _ member => sameIds ▸ member
  tokens := fun _ member => sameTokens ▸ member
  fresh := fun _ isNone => by cases isNone

theorem Sound.advance (sound : Sound host final lost system) {tables : UploadTables}
    (advance : UploadTables.Advance none false system.tables tables) (books : tables.Books) :
    Sound host final lost { system with tables := tables } :=
  sound.keep (.ofAdvance advance) books rfl (fun _ => .inl rfl) (fun _ member => .inl member)
    sound.databases

theorem Sound.setWorker (sound : Sound host final lost system) (worker : Nat)
    {phase : FinalizePhase}
    (isSound : phase.Sound host)
    (claims : ∀ claim, phase.claim = some claim → (system.workers worker).claim = some claim) :
    Sound host final lost (system.setWorker worker phase) := by
  have evolves : Evolves host none false system (system.setWorker worker phase) :=
    .same rfl rfl rfl rfl
  apply sound.keep evolves sound.books rfl _ (fun _ member => .inl member) sound.databases
  intro other
  by_cases same : other = worker
  · right
    have isPhase : (system.setWorker worker phase).workers other = phase := by
      rw [same]
      exact Function.update_self worker phase system.workers
    rw [isPhase, same]
    exact ⟨isSound, fun claim isClaim => .inl (claims claim isClaim)⟩
  · left
    exact Function.update_of_ne same _ _

theorem Sound.leave (sound : Sound host final lost system) (worker : Nat) {phase : FinalizePhase}
    (isSound : phase.Sound host) (isFree : phase.claim = none) :
    Sound host final lost (system.setWorker worker phase) := by
  apply sound.setWorker worker isSound
  intro claim isClaim
  rw [isFree] at isClaim
  cases isClaim

theorem Sound.fail (sound : Sound host final lost system) (worker : Nat) {claim : FinalizeClaim}
    (held : (system.workers worker).claim = some claim) :
    Sound host final lost (system.setWorker worker (.failing claim)) := by
  have isPhase : FinalizePhase.Sound host (.failing claim) := trivial
  apply sound.setWorker worker isPhase
  intro other isClaim
  cases isClaim
  exact held

theorem Sound.createSession (sound : Sound host final lost system)
    (input : CreateUploadSessionInput)
    (caps : UploadPolicyCaps) (isNew : input.id ∉ system.sessionIds) :
    Sound host final lost { system with
      tables := system.tables.after (.createSession input caps)
      sessionIds := input.id :: system.sessionIds } := by
  have evolves : Evolves host none false system { system with
      tables := system.tables.after (.createSession input caps)
      sessionIds := input.id :: system.sessionIds } := by
    constructor
    · apply (UploadTables.Change.createSession _ input caps).mono
      · rintro session ⟨isOpened, sameId⟩
        rw [sameId]
        exact ⟨isOpened, isNew, List.mem_cons_self⟩
      · intro _ isFalse
        exact isFalse.elim
    · intro _ _ isBody
      exact isBody
    · intro id member
      exact List.mem_cons_of_mem _ member
    · intro _ member
      exact member
    · intro _ isNone
      cases isNone
  exact sound.keep evolves (sound.books.after _) rfl (fun _ => .inl rfl)
    (fun _ member => .inl member) sound.databases

theorem Sound.reservePart (sound : Sound host final lost system)
    (sessionId partIndex sizeBytes : Nat)
    {stagingKey : JsString} (isNew : (system.bodies stagingKey).isSome ≠ true) (body : Bytes)
    (caps : UploadPolicyCaps) (leaseSeconds now : Nat) :
    Sound host final lost { system with
      tables := system.tables.after (.reservePart sessionId partIndex sizeBytes stagingKey caps
        leaseSeconds now)
      bodies := Function.update system.bodies stagingKey (some body) } := by
  have evolves : Evolves host none false system { system with
      tables := system.tables.after (.reservePart sessionId partIndex sizeBytes stagingKey caps
        leaseSeconds now)
      bodies := Function.update system.bodies stagingKey (some body) } := by
    constructor
    · exact .reservePart _ _ _ _ _ _ _ _
    · intro key other isBody
      dsimp only
      rw [Function.update_of_ne]
      · exact isBody
      · intro same
        rw [← same, isBody] at isNew
        exact isNew rfl
    · intro _ member
      exact member
    · intro _ member
      exact member
    · intro _ isNone
      cases isNone
  exact sound.keep evolves (sound.books.after _) rfl (fun _ => .inl rfl)
    (fun _ member => .inl member) sound.databases

theorem Sound.commitPart (sound : Sound host final lost system) (sessionId partIndex : Nat)
    {stagingKey : JsString} {body : Bytes} (isBody : system.bodies stagingKey = some body)
    (encryptionIv : Option JsString) (inactivitySeconds now : Nat) :
    Sound host final lost { system with
      tables := system.tables.after (.commitPart sessionId partIndex (host.sha256 body)
        encryptionIv (some stagingKey) (some inactivitySeconds) now) } := by
  have evolves : Evolves host none false system { system with
      tables := system.tables.after (.commitPart sessionId partIndex (host.sha256 body)
        encryptionIv (some stagingKey) (some inactivitySeconds) now) } := by
    constructor
    · apply (UploadTables.Change.commitPart sound.books.toRows sessionId
        partIndex (host.sha256 body) encryptionIv stagingKey inactivitySeconds now).mono
      · intro _ isFalse
        exact isFalse.elim
      · rintro part ⟨sameKey, isDigest⟩
        exact ⟨body, sameKey ▸ isBody, isDigest⟩
    · intro _ _ isBody
      exact isBody
    · intro _ member
      exact member
    · intro _ member
      exact member
    · intro _ isNone
      cases isNone
  exact sound.keep evolves (sound.books.after _) rfl (fun _ => .inl rfl)
    (fun _ member => .inl member) sound.databases

theorem Sound.observe (sound : Sound host final lost system) {target : UploadStagingTarget}
    (found : system.tables.findCleanupPart target = some .stored) :
    Sound host final lost { system with observed := target :: system.observed } := by
  have evolves : Evolves host none false system
      { system with observed := target :: system.observed } := .same rfl rfl rfl rfl
  apply sound.keep evolves sound.books rfl (fun _ => .inl rfl) _ sound.databases
  intro other member
  rcases List.mem_cons.mp member with rfl | isOld
  · right
    rcases Option.bind_eq_some_iff.mp found with ⟨part, isPart, found⟩
    rcases Option.bind_eq_some_iff.mp found with ⟨session, isSession, found⟩
    rcases UploadTables.findSession_eq_some isSession with ⟨isMember, sameId⟩
    split at found
    · rename_i facts
      rw [Option.some.injEq] at found
      rw [found] at facts
      rcases facts.2 with isCleanup | isClosed
      · cases isCleanup
      · constructor
        · rw [← sameId]
          exact sound.sessionIds session isMember
        · intro row isRow sameRow
          rw [List.inj_on_of_nodup_map sound.books.sessionIds isRow isMember
            (sameRow.trans sameId.symm)]
          exact isClosed.1
    · cases found
  · exact .inl isOld

/-! ## The transactions of a call -/

theorem claimFinalize_facts {namespaceId sessionId now : Nat} {session : UploadSession}
    {parts : List UploadPart}
    (claimed : tables.claimFinalize namespaceId sessionId now = .claimed session parts) :
    session ∈ tables.sessions ∧ session.id = sessionId ∧ parts = tables.storedParts sessionId ∧
      parts.map UploadPart.partIndex = List.range session.partCount := by
  rw [UploadTables.claimFinalize] at claimed
  split at claimed
  · cases claimed
  · rename_i row found
    have isRow := List.find?_some found
    rw [UploadSession.isRow, Bool.and_eq_true, beq_iff_eq] at isRow
    iterate 4
      split at claimed
      · cases claimed
    dsimp only at claimed
    split at claimed
    · cases claimed
    · rename_i complete
      cases claimed
      rw [not_or, not_or, not_not, not_not] at complete
      refine ⟨List.mem_of_find?_eq_some found, isRow.1, rfl, ?_⟩
      rw [complete.2.1, complete.1]

theorem after_claimFinalize_parts (tables : UploadTables)
    (namespaceId sessionId token leaseDurationMs now : Nat) :
    (tables.after (.claimFinalize namespaceId sessionId token leaseDurationMs now)).parts =
      tables.parts := by
  have kept := (UploadTables.ensureUsage_rows tables namespaceId).2.1
  rcases tables.after_cases (.claimFinalize namespaceId sessionId token leaseDurationMs now) with
    same | ⟨planned, written, decided, isWritten, same⟩
  · rw [same]
  · rw [same]
    dsimp only [UploadOperation.decide] at decided
    split at decided
    · cases decided
      dsimp only [UploadTables.write] at isWritten
      split at isWritten
      · cases isWritten
        exact kept
      · rename_i updated isUpdated
        cases isWritten
        rw [UploadTables.updateSession] at isUpdated
        split at isUpdated
        · cases isUpdated
          exact kept
        · cases isUpdated
    · cases decided
    · cases decided
    · cases decided
      cases isWritten
      exact kept

theorem Sound.claim (sound : Sound host final lost system) (worker namespaceId sessionId : Nat)
    {token : Nat}
    (isNew : token ∉ system.tokens) (leaseDurationMs now : Nat) :
    Sound host final lost
      (system.claim worker namespaceId sessionId token leaseDurationMs now) := by
  rw [FinalizeSystem.claim]
  split
  · rename_i session parts claimed
    rcases claimFinalize_facts claimed with ⟨isSession, sameId, isStored, indices⟩
    have evolves : Evolves host (some token) false system (FinalizeSystem.setWorker { system with
        tables := system.tables.after
          (.claimFinalize namespaceId sessionId token leaseDurationMs now)
        tokens := token :: system.tokens } worker
          (.claimed ⟨namespaceId, token, session, parts⟩)) := by
      constructor
      · exact (UploadTables.Advance.after sound.books.toRows
          fun _ decided => UploadOperation.quiet_claim decided).change
      · intro _ _ isBody
        exact isBody
      · intro _ member
        exact member
      · intro _ member
        exact List.mem_cons_of_mem _ member
      · intro other isToken
        cases isToken
        exact ⟨isNew, List.mem_cons_self⟩
    apply sound.keep evolves (sound.books.after _) rfl _ (fun _ member => .inl member)
      sound.databases
    intro other
    by_cases different : other ≠ worker
    · exact .inl (Function.update_of_ne different _ _)
    rw [not_not] at different
    right
    have isPhase : (FinalizeSystem.setWorker { system with
        tables := system.tables.after
          (.claimFinalize namespaceId sessionId token leaseDurationMs now)
        tokens := token :: system.tokens } worker
          (.claimed ⟨namespaceId, token, session, parts⟩)).workers other =
            .claimed ⟨namespaceId, token, session, parts⟩ := by
      rw [different]
      exact Function.update_self _ _ _
    rw [isPhase, different]
    refine ⟨trivial, ?_⟩
    intro claim isClaim
    cases isClaim
    refine .inr ⟨rfl, ?_, fun other isOther => Function.update_of_ne isOther _ _⟩
    constructor
    · exact List.mem_cons_self
    · exact sound.sessionIds session isSession
    · exact indices
    · intro part member
      rw [isStored] at member
      have facts := List.mem_filter.mp ((List.mem_insertionSort _).mp member)
      rw [Bool.and_eq_true, beq_iff_eq, beq_iff_eq] at facts
      exact evolves.hasBody (sound.stored part facts.1 facts.2.2)
    · intro new member isSame
      rcases evolves.old member (isSame ▸ sound.sessionIds session isSession) with
        ⟨old, isOld, oldId, step⟩
      rw [step.plan, List.inj_on_of_nodup_map sound.books.sessionIds isOld isSession
        (oldId.trans isSame)]
    · intro _ _ _ _ _
      rw [isStored, sameId]
      apply UploadTables.storedParts_congr
      have sameParts := after_claimFinalize_parts system.tables namespaceId sessionId token
        leaseDurationMs now
      exact congrArg (List.filter _) sameParts
  · exact sound.leave worker trivial rfl
  · exact sound.leave worker trivial rfl

theorem readParts_reads {streams : JsString → Option (List Bytes)} {parts : List UploadPart}
    {content : Bytes} (read : host.readParts streams parts = some content) :
    host.Reads parts content := by
  induction parts generalizing content with
  | nil =>
      cases read
      exact ⟨[], .nil, rfl⟩
  | cons part rest induction =>
      rcases Option.bind_eq_some_iff.mp read with ⟨chunks, _, read⟩
      rcases Option.bind_eq_some_iff.mp read with ⟨first, isFirst, read⟩
      rcases Option.map_eq_some_iff.mp read with ⟨others, isOthers, rfl⟩
      rcases Option.bind_eq_some_iff.mp isFirst with ⟨whole, _, checked⟩
      rcases induction isOthers with ⟨reads, digests, rfl⟩
      split at checked
      · cases checked
      · rename_i passes
        cases checked
        rw [not_or, not_not, not_not] at passes
        exact ⟨first :: reads, .cons passes.2.symm digests, rfl⟩

theorem Sound.read (sound : Sound host final lost system) (worker : Nat) (storageKey : JsString)
    {claim : FinalizeClaim} {content : Bytes} (held : (system.workers worker).claim = some claim)
    (reads : host.Reads claim.parts content) :
    Sound host final lost (system.setWorker worker (.stored claim storageKey content)) := by
  have isPhase : FinalizePhase.Sound host (.stored claim storageKey content) := reads
  apply sound.setWorker worker isPhase
  intro other isClaim
  cases isClaim
  exact held

theorem Sound.renewFinalize (sound : Sound host final lost system)
    (namespaceId sessionId token leaseDurationMs now : Nat) :
    Sound host final lost { system with
      tables := system.tables.renewFinalize namespaceId sessionId token leaseDurationMs now } :=
  sound.advance (.renewFinalize _ _ _ _ _ _) (sound.books.renewFinalize _ _ _ _ _)

theorem Sound.confirm (sound : Sound host final lost system) (worker leaseDurationMs now : Nat)
    {claim : FinalizeClaim} {storageKey : JsString} {content : Bytes}
    (held : system.workers worker = .stored claim storageKey content) :
    Sound host final lost
      (system.confirm host worker leaseDurationMs now claim storageKey content) := by
  have isClaim : (system.workers worker).claim = some claim := by
    rw [held]
    rfl
  have reads : host.Reads claim.parts content := by
    have isPhase := sound.phases worker
    rw [held] at isPhase
    exact isPhase
  have renewed := sound.renewFinalize claim.namespaceId claim.session.id claim.token
    leaseDurationMs now
  rw [FinalizeSystem.confirm]
  split
  · exact sound.fail worker isClaim
  · split
    · exact renewed.fail worker isClaim
    · rename_i sized
      rw [not_not] at sized
      split
      · rename_i checked
        have isPhase : FinalizePhase.Sound host (.confirmed claim storageKey content) := by
          refine ⟨reads, sized, ?_⟩
          intro expected isExpected
          rw [isExpected] at checked
          exact beq_iff_eq.mp checked
        apply renewed.setWorker worker isPhase
        intro other isOther
        cases isOther
        exact isClaim
      · have isPhase : FinalizePhase.Sound host (.mismatched claim) := trivial
        apply renewed.setWorker worker isPhase
        intro other isOther
        cases isOther
        exact isClaim

theorem after_of_transact {operation : UploadOperation} {written : UploadTables × Bool}
    (isWritten : tables.transact operation = some written) :
    tables.after operation = written.1 := by
  rw [UploadTables.after, isWritten]
  rfl

theorem Sound.failFinalize (sound : Sound host final lost system) (worker : Nat)
    (requestId : JsString)
    (now : Nat) (fate : Fate) {claim : FinalizeClaim}
    (isClaim : (system.workers worker).claim = some claim) :
    Sound host final lost (system.failFinalize host worker requestId now fate claim) := by
  have failed : ∀ written, system.tables.transact (.failFinalize claim.namespaceId claim.session.id
      claim.token (host.mismatchBody requestId) requestId now) = some written →
        Sound host final lost { system with tables := written.1 } := by
    intro written isWritten
    rw [← after_of_transact isWritten]
    exact sound.advance (.after sound.books.toRows fun _ decided =>
      UploadOperation.quiet_fail decided) (sound.books.after _)
  unfold FinalizeSystem.failFinalize
  dsimp only
  split
  · rename_i written isWritten
    exact (failed _ isWritten).leave worker trivial rfl
  · rename_i written applied isWritten
    exact (failed _ isWritten).fail worker isClaim
  · exact sound.fail worker isClaim

/-! ## The node mutation -/

theorem transact_completeFinalize (rows : tables.Rows)
    {namespaceId sessionId token leaseDurationMs status now : Nat} {body requestId : JsString}
    {written : UploadTables × Bool}
    (isWritten : tables.transact (.completeFinalize namespaceId sessionId token leaseDurationMs
      status body requestId now) = some written) :
    (∃ held ∈ tables.sessions, held.id = sessionId ∧ held.state = .finalizing ∧
      held.leaseToken = some token) ∧
    ∀ new ∈ written.1.sessions,
      (new.id = sessionId → new.state = .completed ∧ replay new = some ⟨status, body, requestId⟩) ∧
        (new.id = sessionId ∨ new ∈ tables.sessions) := by
  rcases Option.bind_eq_some_iff.mp isWritten with ⟨planned, decided, isWritten⟩
  dsimp only [UploadOperation.decide] at decided
  split at decided
  · rename_i fenced
    cases decided
    rcases List.any_eq_true.mp fenced with ⟨held, isHeld, passes⟩
    rw [Bool.and_eq_true] at passes
    have lease := passes.1
    rw [UploadSession.holdsLease, UploadSession.isRow, Bool.and_eq_true, Bool.and_eq_true,
      Bool.and_eq_true, beq_iff_eq, beq_iff_eq, beq_iff_eq, beq_iff_eq] at lease
    constructor
    · exact ⟨held, isHeld, lease.1.1.1, lease.1.2, lease.2⟩
    · intro new member
      rcases Option.map_eq_some_iff.mp isWritten with ⟨updated, isUpdated, rfl⟩
      rw [UploadTables.updateSession] at isUpdated
      split at isUpdated
      · cases isUpdated
        rcases mem_updated member with ⟨old, _, isNamed, rfl⟩ | ⟨isOld, fails⟩
        · constructor
          · intro _
            exact ⟨rfl, rfl⟩
          · exact .inl (UploadTables.holdsLease_named isNamed).1
        · rw [(UploadTables.ensureUsage_rows tables namespaceId).1] at isOld
          constructor
          · intro sameId
            rw [List.inj_on_of_nodup_map rows.sessionIds isOld isHeld
              (sameId.trans lease.1.1.1.symm), passes.1] at fails
            cases fails
          · exact .inr isOld
      · cases isUpdated
  · cases decided

theorem withMutation_ignore {α : Type} (work : Mutating α) (now : Nat) (db : Database) :
    withMutation host.toHost now false (Mutation.ignore work) (fun _ _ _ => .ok ()) db =
      (withMutation host.toHost now false work (fun _ _ _ => .ok ()) db).map fun committed =>
        ⟨(), committed.affectedRevisions, committed.db⟩ := by
  unfold withMutation
  cases lockNamespaceRoot db false with
  | error error => rfl
  | ok root =>
      dsimp only
      cases (if false = true then Except.ok () else assertNamespaceActive db) with
      | error error => rfl
      | ok _ =>
          dsimp only
          have ignored : Mutation.ignore work (.start db root.id now) =
              (work (.start db root.id now)).map fun done => ((), done.2) := by
            unfold Mutation.ignore
            change (work (.start db root.id now)).bind _ = _
            cases work (.start db root.id now) with
            | error error => rfl
            | ok done => rfl
          rw [ignored]
          cases work (.start db root.id now) with
          | error error => rfl
          | ok done =>
              have same : finish host.toHost (fun _ _ _ => .ok ()) () done.2 =
                  finish host.toHost (fun _ _ _ => .ok ()) done.1 done.2 := rfl
              dsimp only [Except.map]
              rw [same]
              cases finish host.toHost (fun _ _ _ => .ok ()) done.1 done.2 with
              | error error => rfl
              | ok _ => rfl

theorem run_putConditional {path : NodePath host.toHost} {condition : ContentPrecondition}
    {blob : BlobData} {now : Nat} {db : Database} {committed : Committed PutFileOutcome}
    (result : withMutation host.toHost now false (putConditionalContent host.toHost path condition
      blob) (fun _ _ _ => .ok ()) db = .ok committed) :
    ∃ other, (Mutation.putConditional path condition blob).run now (fun _ _ _ => .ok ()) db =
      .ok other ∧ other.db = committed.db := by
  refine ⟨⟨(), committed.affectedRevisions, committed.db⟩, ?_, rfl⟩
  change withMutation host.toHost now false (Mutation.ignore _) _ db = _
  rw [withMutation_ignore, result]
  rfl

/-- The transaction of the node mutation: the call's claim stands, the tree changes by one
mutation and the session is completed with the response. -/
theorem finalizeTransaction_cases {leaseDurationMs now : Nat} {claim : FinalizeClaim}
    {storageKey requestId : JsString} {content : Bytes} {encryptionIv : Option (List UInt8)}
    {committed : FinalizeSystem} {response : FinalizeResponse}
    (result : system.finalizeTransaction host leaseDurationMs claim storageKey content encryptionIv
      requestId now = some (committed, response)) :
    ∃ db written, Step host.toHost (system.databases claim.namespaceId) db ∧
      system.tables.transact (.completeFinalize claim.namespaceId claim.session.id claim.token
        leaseDurationMs response.status response.body response.requestId now) = some written ∧
      committed = { system with
        tables := written.1
        databases := Function.update system.databases claim.namespaceId db
        finalized := system.finalized ++ [⟨claim.session,
          system.tables.storedParts claim.session.id, storageKey, content, response⟩] } := by
  unfold finalizeTransaction at result
  split at result
  · cases result
  · split at result
    · dsimp only at result
      split at result
      · cases result
      · rename_i changed isChanged
        rcases Option.map_eq_some_iff.mp result with ⟨written, isWritten, same⟩
        cases same
        rcases run_putConditional isChanged with ⟨other, isRun, sameDb⟩
        exact ⟨changed.db, written, sameDb ▸ .mutation _ now _ isRun, isWritten, rfl⟩
    · cases result

theorem Sound.finalizeTransaction (sound : Sound host final lost system) {leaseDurationMs now : Nat}
    {claim : FinalizeClaim} {storageKey requestId : JsString} {content : Bytes}
    {encryptionIv : Option (List UInt8)} {committed : FinalizeSystem} {response : FinalizeResponse}
    (isClaim : claim.Sound host system)
    (isPhase : FinalizePhase.Sound host (.confirmed claim storageKey content))
    (result : system.finalizeTransaction host leaseDurationMs claim storageKey content encryptionIv
      requestId now = some (committed, response)) : Sound host final lost committed := by
  rcases finalizeTransaction_cases result with ⟨db, written, changed, isWritten, rfl⟩
  rcases transact_completeFinalize sound.books.toRows isWritten with
    ⟨⟨held, isHeld, sameId, isFinalizing, isToken⟩, answered⟩
  have sameTables := after_of_transact isWritten
  have evolves : Evolves host none true system { system with
      tables := written.1
      databases := Function.update system.databases claim.namespaceId db
      finalized := system.finalized ++ [⟨claim.session,
        system.tables.storedParts claim.session.id, storageKey, content, response⟩] } := by
    constructor
    · rw [← sameTables]
      exact (UploadTables.Advance.after sound.books.toRows
        fun _ decided => UploadOperation.quiet_complete decided).change
    · intro _ _ isBody
      exact isBody
    · intro _ member
      exact member
    · intro _ member
      exact member
    · intro _ isNone
      cases isNone
  have sameParts := isClaim.held held isHeld sameId isFinalizing isToken
  apply sound.evolve evolves _ (fun _ => .inl rfl) (fun _ member => .inl member)
  · intro done member
    rcases List.mem_append.mp member with isOld | isNew
    · exact .inl isOld
    · right
      rw [List.mem_singleton.mp isNew]
      constructor
      · exact isClaim.session
      · intro new isRow isSame
        exact ⟨(evolves.claim isClaim).plan new isRow isSame, (answered new isRow).1 isSame⟩
      · rw [sameParts]
        exact isClaim.indices
      · rw [sameParts]
        exact isClaim.bodies
      · rw [sameParts]
        exact isPhase.1
      · exact isPhase.2.1
      · exact isPhase.2.2
  · -- The row of a session that has its mutation is closed, and the claim's row is not.
    rw [List.map_append, List.nodup_append]
    refine ⟨sound.once, List.nodup_singleton _, ?_⟩
    intro first isFirst second isSecond same
    rcases List.mem_map.mp isFirst with ⟨done, isDone, rfl⟩
    rw [List.map_singleton, List.mem_singleton] at isSecond
    have isCompleted := ((sound.finalized done isDone).rows held isHeld
      (sameId.trans (same.trans isSecond).symm)).2.1
    rw [isFinalizing] at isCompleted
    cases isCompleted
  · intro new member isCompleted
    rcases (answered new member).2 with sameSession | isOld
    · refine ⟨_, List.mem_append_right _ (List.mem_singleton_self _), ?_⟩
      exact sameSession.symm
    · rcases sound.completed new isOld isCompleted with ⟨done, isDone, isSame⟩
      exact ⟨done, List.mem_append_left _ isDone, isSame⟩
  · intro namespaceId
    by_cases same : namespaceId = claim.namespaceId
    · change Reachable host.toHost (Function.update system.databases claim.namespaceId db _)
      rw [same, Function.update_self]
      exact .step (sound.databases _) changed
    · change Reachable host.toHost (Function.update system.databases claim.namespaceId db _)
      rw [Function.update_of_ne same]
      exact sound.databases namespaceId
  · exact sameTables ▸ sound.books.after _

theorem Sound.finalize (sound : Sound host final lost system) (worker leaseDurationMs : Nat)
    {claim : FinalizeClaim} {storageKey : JsString} {content : Bytes}
    (held : system.workers worker = .confirmed claim storageKey content)
    (encryptionIv : Option (List UInt8)) (requestId : JsString) (now : Nat) (fate : Fate) :
    Sound host final lost
      (system.finalize host worker leaseDurationMs claim storageKey content encryptionIv
      requestId now fate) := by
  have isClaim : (system.workers worker).claim = some claim := by
    rw [held]
    rfl
  have isPhase : FinalizePhase.Sound host (.confirmed claim storageKey content) := by
    have isPhase := sound.phases worker
    rw [held] at isPhase
    exact isPhase
  have committed : ∀ committed response, system.finalizeTransaction host leaseDurationMs claim
      storageKey content encryptionIv requestId now = some (committed, response) →
        Sound host final lost committed ∧ (committed.workers worker).claim = some claim := by
    intro committed response result
    constructor
    · exact sound.finalizeTransaction (sound.claims worker claim isClaim) isPhase result
    · rcases finalizeTransaction_cases result with ⟨_, _, _, _, rfl⟩
      exact isClaim
  unfold FinalizeSystem.finalize
  split
  · rename_i isResult
    exact (committed _ _ isResult).1.leave worker trivial rfl
  · rename_i isResult
    have facts := committed _ _ isResult
    exact facts.1.fail worker facts.2
  · exact sound.fail worker isClaim

/-! ## Runs -/

theorem Sound.step (sound : Sound host final lost system) {action : FinalizeAction host}
    (taken : system.next action = some after) : Sound host final lost after := by
  cases action with
  | create input caps partSizeBytes inactivitySeconds maxLifetimeSeconds now =>
      dsimp only [FinalizeSystem.next] at taken
      split at taken
      · cases taken
      · rename_i isNew
        rcases Option.map_eq_some_iff.mp taken with ⟨plan, _, rfl⟩
        exact sound.createSession (plannedInput input plan) caps fun member => isNew (.inr member)
  | reserve sessionId partIndex stagingKey body caps leaseSeconds now =>
      dsimp only [FinalizeSystem.next] at taken
      split at taken
      · cases taken
      · rename_i isNew
        rcases Option.map_eq_some_iff.mp taken with ⟨session, _, rfl⟩
        exact sound.reservePart _ _ _ isNew body caps leaseSeconds now
  | commitPart sessionId partIndex stagingKey encryptionIv inactivitySeconds now =>
      rcases Option.bind_eq_some_iff.mp taken with ⟨session, _, taken⟩
      rcases Option.bind_eq_some_iff.mp taken with ⟨body, isBody, taken⟩
      split at taken
      · cases taken
        exact sound.commitPart sessionId partIndex isBody encryptionIv inactivitySeconds now
      · cases taken
  | transact operation =>
      dsimp only [FinalizeSystem.next] at taken
      split at taken
      · rename_i isHousekeeping
        cases taken
        exact sound.advance (.after sound.books.toRows fun _ decided =>
          UploadOperation.quiet_housekeeping sound.books.toRows isHousekeeping decided)
          (sound.books.after operation)
      · cases taken
  | findCleanupPart target =>
      dsimp only [FinalizeSystem.next] at taken
      split at taken
      · rename_i found
        cases taken
        exact sound.observe found
      · cases taken
        exact sound
  | markStagingObjectDeleted target now =>
      dsimp only [FinalizeSystem.next] at taken
      split at taken
      · rename_i isObserved
        cases taken
        apply sound.advance _ (sound.books.after _)
        apply UploadTables.Advance.after sound.books.toRows
        intro planned decided
        apply UploadOperation.quiet_mark _ decided
        intro _ session isSession sameId isFinalizing
        have isClosed := (sound.observed target isObserved).2 session isSession sameId
        rw [isFinalizing] at isClosed
        cases isClosed
      · cases taken
  | deactivate namespaceId =>
      cases taken
      apply sound.advance
      · exact (UploadTables.Advance.refl system.tables).ofRows rfl rfl
          (UploadTables.ensureUsage_rows system.tables namespaceId).1
          (UploadTables.ensureUsage_rows system.tables namespaceId).2.1
      · have ensured := sound.books.ensureUsage namespaceId
        exact ensured.same rfl rfl ⟨ensured.sessionIds, ensured.partKeys, ensured.owned,
          ensured.cleanupKeys, ensured.cleanupHome⟩ ensured.sessionUsage ensured.cleanupUsage
          (fun _ => rfl) (fun _ => rfl)
  | renewPartLease sessionId partIndex stagingKey leaseSeconds now =>
      cases taken
      exact sound.advance (.renewPartLease _ _ _ _ _ _) (sound.books.renewPartLease _ _ _ _ _)
  | recoverStaleFinalizingLeases ids now =>
      cases taken
      exact sound.advance (.recoverStaleFinalizingLeases _ _ _)
        (sound.books.recoverStaleFinalizingLeases _ _)
  | prune sessionId before =>
      dsimp only [FinalizeSystem.next] at taken
      split at taken
      · rename_i isFree
        cases taken
        exact sound.advance (.pruneSession sound.books.toRows _ _)
          (sound.books.pruneSession before isFree)
      · cases taken
        exact sound
  | mutate namespaceId mutation now =>
      dsimp only [FinalizeSystem.next] at taken
      split at taken
      · cases taken
        exact sound
      · rename_i committed result
        cases taken
        have evolves : Evolves host none false system { system with
            databases := Function.update system.databases namespaceId committed.db } :=
          .same rfl rfl rfl rfl
        apply sound.keep evolves sound.books rfl (fun _ => .inl rfl) fun _ member => .inl member
        intro other
        change Reachable host.toHost (Function.update system.databases namespaceId committed.db _)
        by_cases same : other = namespaceId
        · rw [same, Function.update_self]
          exact .step (sound.databases namespaceId) (.mutation mutation now _ result)
        · rw [Function.update_of_ne same]
          exact sound.databases other
  | claim worker namespaceId sessionId token leaseDurationMs now =>
      dsimp only [FinalizeSystem.next] at taken
      split at taken
      · cases taken
      · rename_i isNew
        split at taken
        · cases taken
          exact sound.claim worker namespaceId sessionId isNew leaseDurationMs now
        · cases taken
  | read worker storageKey streams =>
      dsimp only [FinalizeSystem.next] at taken
      split at taken
      · rename_i claim held
        have isClaim : (system.workers worker).claim = some claim := by
          rw [held]
          rfl
        split at taken
        · rename_i content isRead
          cases taken
          exact sound.read worker storageKey isClaim (readParts_reads isRead)
        · cases taken
          exact sound.fail worker isClaim
      · cases taken
  | renew worker leaseDurationMs now =>
      rcases Option.map_eq_some_iff.mp taken with ⟨claim, _, rfl⟩
      exact sound.renewFinalize _ _ _ _ _
  | confirm worker leaseDurationMs now =>
      dsimp only [FinalizeSystem.next] at taken
      split at taken
      · rename_i held
        cases taken
        exact sound.confirm worker leaseDurationMs now held
      · cases taken
  | failFinalize worker requestId now fate =>
      dsimp only [FinalizeSystem.next] at taken
      split at taken
      · rename_i claim held
        cases taken
        apply sound.failFinalize worker requestId now fate
        rw [held]
        rfl
      · cases taken
  | finalize worker leaseDurationMs encryptionIv requestId now fate =>
      dsimp only [FinalizeSystem.next] at taken
      split at taken
      · rename_i held
        cases taken
        exact sound.finalize worker leaseDurationMs held encryptionIv requestId now fate
      · cases taken
  | release worker code failedAt =>
      dsimp only [FinalizeSystem.next] at taken
      split at taken
      · rename_i claim held
        cases taken
        have released := sound.advance (.releaseFinalize system.tables claim.namespaceId
          claim.session.id claim.token code failedAt) (sound.books.releaseFinalize _ _ _ _ _)
        exact released.leave worker trivial rfl
      · cases taken
  | crash worker =>
      cases taken
      exact sound.leave worker trivial rfl

theorem sound (reached : (finalizeMachine host).Reachable system) :
    Sound host (fun _ => False) (fun _ => False) system :=
  reached.invariant (Sound host (fun _ => False) fun _ => False)
    (fun _ first => Initial.sound first) fun _ _ _ _ sound taken => sound.step taken

/-- From a system where sessions are closed and tokens are lost, a run keeps them so. -/
theorem sound_of_run (reached : (finalizeMachine host).Reachable system)
    (closed : ∀ session, final session →
      session ∈ system.tables.sessions ∧ session.state.terminal = true)
    (gone : ∀ token, lost token → token ∈ system.tokens ∧
      ∀ session ∈ system.tables.sessions, session.state = .finalizing →
        session.leaseToken ≠ some token)
    (run : (finalizeMachine host).Runs system after) : Sound host final lost after := by
  have start := FinalizeSystem.sound reached
  apply run.invariant (Sound host final lost) (fun _ _ _ _ sound taken => sound.step taken)
  refine { start with kept := ?_, lost := gone }
  intro session isFinal
  rcases closed session isFinal with ⟨isSession, isClosed⟩
  refine ⟨isClosed, start.sessionIds session isSession, ?_⟩
  intro other isOther sameId
  exact List.inj_on_of_nodup_map start.books.sessionIds isOther isSession sameId

end FinalizeSystem

end Storix
