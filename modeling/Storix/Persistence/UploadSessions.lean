import Storix.Foundation.Rows
import Storix.Persistence.Conditionals
import Storix.Vfs.UploadSessionPolicy
import Mathlib.Data.List.Sort

/-! # Upload sessions

The tables of resumable uploads and the transactions on them. A transaction that changes a
counter first locks the usage rows, then reads, and then writes. What it writes is kept
apart from how it decides, because transactions without the lock may run in between. -/

namespace Storix

open Foundation

/-! ## Tables -/

inductive UploadSessionState
  | opened
  | finalizing
  | completed
  | cancelled
  | expired
  | failed
  deriving DecidableEq, Repr

/-- `COMPLETED`, `CANCELLED`, `EXPIRED` and `FAILED` -/
def UploadSessionState.terminal : UploadSessionState → Bool
  | .opened => false
  | .finalizing => false
  | _ => true

structure UploadSession where
  id : Nat
  namespaceId : Nat
  scope : JsString
  creationKey : JsString
  fingerprint : JsString
  targetPath : JsString
  sizeBytes : Nat
  sha256 : Option JsString
  mimeType : JsString
  condition : ContentPrecondition
  partSizeBytes : Nat
  partCount : Nat
  state : UploadSessionState
  leaseExpiresAt : Option Nat
  leaseToken : Option Nat
  expiresAt : Nat
  maxExpiresAt : Nat
  terminalAt : Option Nat
  responseStatus : Option Nat
  responseBody : Option JsString
  lastCompleteFailureCode : Option JsString
  lastCompleteFailureAt : Option Nat
  requestId : Option JsString
  deriving DecidableEq

inductive UploadPartState
  | reserved
  | stored
  | cleanup
  | deleted
  deriving DecidableEq, Repr

structure UploadPart where
  sessionId : Nat
  partIndex : Nat
  sizeBytes : Nat
  stagingKey : JsString
  digest : Option JsString
  encryptionIv : Option JsString
  state : UploadPartState
  objectDeletedAt : Option Nat
  leaseExpiresAt : Option Nat
  deriving DecidableEq

structure UploadStagingCleanup where
  stagingKey : JsString
  sessionId : Nat
  partIndex : Nat
  namespaceId : Nat
  sizeBytes : Nat
  deletedAt : Option Nat
  putSettledAt : Option Nat
  deriving DecidableEq

structure UploadStagingTarget where
  sessionId : Nat
  partIndex : Nat
  stagingKey : JsString
  deriving DecidableEq

structure UsageCounters where
  activeSessions : Int
  stagedBytes : Int
  deriving DecidableEq

structure UploadUsage extends UsageCounters where
  namespaceId : Nat
  deriving DecidableEq

structure UploadTables where
  sessions : List UploadSession
  parts : List UploadPart
  cleanups : List UploadStagingCleanup
  globalUsage : UsageCounters
  usage : List UploadUsage
  /-- The namespaces whose status is `ACTIVE`. -/
  active : Nat → Bool

structure CreateUploadSessionInput where
  id : Nat
  namespaceId : Nat
  scope : JsString
  creationKey : JsString
  fingerprint : JsString
  targetPath : JsString
  sizeBytes : Nat
  sha256 : Option JsString
  mimeType : JsString
  condition : ContentPrecondition
  partSizeBytes : Nat
  partCount : Nat
  expiresAt : Nat
  maxExpiresAt : Nat
  requestId : Option JsString
  deriving DecidableEq

def CreateUploadSessionInput.session (input : CreateUploadSessionInput) : UploadSession where
  id := input.id
  namespaceId := input.namespaceId
  scope := input.scope
  creationKey := input.creationKey
  fingerprint := input.fingerprint
  targetPath := input.targetPath
  sizeBytes := input.sizeBytes
  sha256 := input.sha256
  mimeType := input.mimeType
  condition := input.condition
  partSizeBytes := input.partSizeBytes
  partCount := input.partCount
  state := .opened
  leaseExpiresAt := none
  leaseToken := none
  expiresAt := input.expiresAt
  maxExpiresAt := input.maxExpiresAt
  terminalAt := none
  responseStatus := none
  responseBody := none
  lastCompleteFailureCode := none
  lastCompleteFailureAt := none
  requestId := input.requestId

namespace UploadSession

def isOpen (session : UploadSession) (now : Nat) : Bool :=
  session.state == .opened && decide (now < session.expiresAt) &&
    decide (now < session.maxExpiresAt)

/-- The row of `id = :sessionId AND namespace_id = :namespaceId`. -/
def isRow (session : UploadSession) (namespaceId sessionId : Nat) : Bool :=
  session.id == sessionId && session.namespaceId == namespaceId

/-- The row is `FINALIZING` under this token. -/
def holdsLease (session : UploadSession) (namespaceId sessionId token : Nat) : Bool :=
  session.isRow namespaceId sessionId && session.state == .finalizing &&
    session.leaseToken == some token

/-- `lease_expires_at > :now` -/
def leaseLive (session : UploadSession) (now : Nat) : Bool :=
  session.leaseExpiresAt.any fun expiresAt => decide (now < expiresAt)

/-- `lease_expires_at <= :now` -/
def leaseStale (session : UploadSession) (now : Nat) : Bool :=
  session.leaseExpiresAt.any fun expiresAt => decide (expiresAt ≤ now)

end UploadSession

namespace UploadPart

def isRow (part : UploadPart) (sessionId partIndex : Nat) : Bool :=
  part.sessionId == sessionId && part.partIndex == partIndex

def leaseOver (part : UploadPart) (now : Nat) : Bool :=
  part.leaseExpiresAt.all fun expiresAt => decide (expiresAt ≤ now)

def hasKey (part : UploadPart) (stagingKey : Option JsString) : Bool :=
  stagingKey.all fun key => part.stagingKey == key

end UploadPart

namespace UploadTables

def findSession (tables : UploadTables) (sessionId : Nat) : Option UploadSession :=
  tables.sessions.find? fun session => session.id == sessionId

def findPart (tables : UploadTables) (sessionId partIndex : Nat) : Option UploadPart :=
  tables.parts.find? fun part => part.isRow sessionId partIndex

def findCleanupTombstone (tables : UploadTables) (stagingKey : JsString) :
    Option UploadStagingCleanup :=
  tables.cleanups.find? fun old => old.stagingKey == stagingKey

/-! ## Usage rows -/

def ensureUsage (tables : UploadTables) (namespaceId : Nat) : UploadTables :=
  if tables.usage.any fun row => row.namespaceId == namespaceId then tables
  else { tables with usage := tables.usage ++ [⟨⟨0, 0⟩, namespaceId⟩] }

/-- The counters of a namespace after `lockUsage`. -/
def usageOf (tables : UploadTables) (namespaceId : Nat) : UsageCounters :=
  ((tables.usage.find? fun row => row.namespaceId == namespaceId).map
    UploadUsage.toUsageCounters).getD ⟨0, 0⟩

def UsageCounters.add (counters : UsageCounters) (activeSessions stagedBytes : Int) :
    UsageCounters where
  activeSessions := counters.activeSessions + activeSessions
  stagedBytes := counters.stagedBytes + stagedBytes

/-- `changeUsage` on the global row and the row of the namespace. -/
def changeUsage (tables : UploadTables) (namespaceId : Nat) (activeSessions stagedBytes : Int) :
    UploadTables :=
  { tables with
    globalUsage := UsageCounters.add tables.globalUsage activeSessions stagedBytes
    usage := updated (fun row => row.namespaceId == namespaceId) (fun row =>
      { row with
        toUsageCounters := UsageCounters.add row.toUsageCounters activeSessions stagedBytes })
      tables.usage }

/-! ## Statements -/

def updateSessions (tables : UploadTables) (test : UploadSession → Bool)
    (transform : UploadSession → UploadSession) : UploadTables :=
  { tables with sessions := updated test transform tables.sessions }

def updateParts (tables : UploadTables) (test : UploadPart → Bool)
    (transform : UploadPart → UploadPart) : UploadTables :=
  { tables with parts := updated test transform tables.parts }

def deleteParts (tables : UploadTables) (test : UploadPart → Bool) : UploadTables :=
  { tables with parts := Foundation.remaining test tables.parts }

def updateCleanups (tables : UploadTables) (test : UploadStagingCleanup → Bool)
    (transform : UploadStagingCleanup → UploadStagingCleanup) : UploadTables :=
  { tables with cleanups := updated test transform tables.cleanups }

def deleteCleanups (tables : UploadTables) (test : UploadStagingCleanup → Bool) : UploadTables :=
  { tables with cleanups := Foundation.remaining test tables.cleanups }

def deleteSessions (tables : UploadTables) (test : UploadSession → Bool) : UploadTables :=
  let gone := (tables.sessions.filter test).map UploadSession.id
  { tables with
    sessions := Foundation.remaining test tables.sessions
    parts := Foundation.remaining (fun part => gone.contains part.sessionId) tables.parts }

/-! ## Decisions -/

inductive CreateUploadSessionResult
  | created (session : UploadSession)
  | replay (session : UploadSession)
  | conflict
  | limit
  /-- `VfsNamespaceNotFoundError` of an inactive namespace. -/
  | inactive

def createSession (tables : UploadTables) (input : CreateUploadSessionInput)
    (caps : UploadPolicyCaps) : CreateUploadSessionResult :=
  if tables.active input.namespaceId = false then .inactive
  else
    match tables.sessions.find? fun session =>
        session.namespaceId == input.namespaceId && session.scope == input.scope &&
          session.creationKey == input.creationKey with
    | some existing =>
        if existing.fingerprint = input.fingerprint then .replay existing else .conflict
    | none =>
        if caps.globalLimits.maxActiveSessions ≤ tables.globalUsage.activeSessions ∨
            caps.namespaceLimits.maxActiveSessions ≤
              (tables.usageOf input.namespaceId).activeSessions then .limit
        else .created input.session

inductive ReserveUploadPartResult
  | reserved (part : UploadPart)
  | existing (part : UploadPart)
  | limit
  | closed
  | invalid
  | inProgress
  | fileTooLarge
  /-- `VfsNamespaceNotFoundError` of an inactive namespace. -/
  | inactive

def reservePart (tables : UploadTables) (sessionId partIndex sizeBytes : Nat)
    (stagingKey : JsString) (caps : UploadPolicyCaps) (leaseSeconds now : Nat) :
    ReserveUploadPartResult :=
  if sizeBytes = 0 then .invalid
  else
    match tables.findSession sessionId with
    | none => .closed
    | some session =>
        if session.state ≠ .opened then .closed
        else if tables.active session.namespaceId = false then .inactive
        else if session.isOpen now = false then .closed
        else
          let existing := tables.findPart sessionId partIndex
          match existing.filter fun part =>
              part.state ≠ .deleted || part.objectDeletedAt.isNone with
          | some part => .existing part
          | none =>
              if tables.cleanups.any fun old => old.sessionId == sessionId &&
                  old.partIndex == partIndex && old.deletedAt.isNone then .inProgress
              else if existing.any fun part => part.stagingKey == stagingKey then .invalid
              else if session.partCount ≤ partIndex then .invalid
              else
                match assessUploadPartAdmission session.sizeBytes sizeBytes caps
                    tables.globalUsage.stagedBytes
                    (tables.usageOf session.namespaceId).stagedBytes with
                | .fileTooLarge => .fileTooLarge
                | .limit => .limit
                | .allowed =>
                    .reserved
                      { sessionId := sessionId, partIndex := partIndex, sizeBytes := sizeBytes,
                        stagingKey := stagingKey, digest := none, encryptionIv := none,
                        state := .reserved, objectDeletedAt := none,
                        leaseExpiresAt := some (now + leaseSeconds * 1000) }

inductive ClaimFinalizeResult
  | claimed (session : UploadSession) (parts : List UploadPart)
  | notFound
  | incomplete
  | busy
  | closed
  | complete (session : UploadSession)
  | inactive

def storedParts (tables : UploadTables) (sessionId : Nat) : List UploadPart :=
  (tables.parts.filter fun part =>
    part.sessionId == sessionId && part.state == .stored).insertionSort
    fun left right => left.partIndex ≤ right.partIndex

def claimFinalize (tables : UploadTables) (namespaceId sessionId now : Nat) :
    ClaimFinalizeResult :=
  match tables.sessions.find? fun session => session.isRow namespaceId sessionId with
  | none => .notFound
  | some session =>
      if tables.active namespaceId = false then .inactive
      else if session.state = .completed ∨ session.state = .failed then .complete session
      else if session.state = .finalizing then .busy
      else if session.isOpen now = false then .closed
      else
        let parts := tables.storedParts sessionId
        if parts.length ≠ session.partCount ∨
            (parts.map UploadPart.partIndex ≠ List.range parts.length) ∨
            parts.any fun part => part.digest.all fun digest => digest == [] then .incomplete
        else .claimed session parts

end UploadTables

/-! ## Transactions under the usage lock -/

/-- The states that `claimTerminalTransition` moves to. -/
inductive TerminalTransition
  | cancelled
  | expired
  deriving DecidableEq, Repr

def TerminalTransition.state : TerminalTransition → UploadSessionState
  | .cancelled => .cancelled
  | .expired => .expired

/-- A transaction that takes the usage lock, with its arguments and the time it reads. -/
inductive UploadOperation
  | createSession (input : CreateUploadSessionInput) (caps : UploadPolicyCaps)
  | reservePart (sessionId partIndex sizeBytes : Nat) (stagingKey : JsString)
      (caps : UploadPolicyCaps) (leaseSeconds now : Nat)
  | commitPart (sessionId partIndex : Nat) (digest : JsString) (encryptionIv : Option JsString)
      (stagingKey : Option JsString) (inactivitySeconds : Option Nat) (now : Nat)
  | retireExpiredPartReservation (sessionId partIndex : Nat) (stagingKey : JsString) (now : Nat)
  | releasePartReservation (sessionId partIndex : Nat) (objectMayExist : Bool)
      (stagingKey : Option JsString) (now : Nat)
  | claimTerminalTransition (namespaceId sessionId : Nat) (next : TerminalTransition) (now : Nat)
  | claimFinalize (namespaceId sessionId token leaseDurationMs now : Nat)
  | completeFinalize (namespaceId sessionId token leaseDurationMs status : Nat)
      (body requestId : JsString) (now : Nat)
  | failFinalize (namespaceId sessionId token : Nat) (body requestId : JsString) (now : Nat)
  | renewSession (namespaceId sessionId inactivitySeconds now : Nat)
  | markTombstoneDeleted (stagingKey : JsString) (observedPutSettledAt : Option Nat) (now : Nat)
  | markStagingObjectDeleted (sessionId partIndex : Nat) (stagingKey : JsString)
      (expectedState : UploadPartState) (now : Nat)
  | deleteSettledSessions (namespaceId : Nat)
  deriving DecidableEq

/-- What a transaction writes after it has read. The namespace is the one it locked. -/
inductive UploadWrite
  | nothing (namespaceId : Nat)
  | insertSession (session : UploadSession)
  | insertPart (namespaceId : Nat) (caps : UploadPolicyCaps) (part : UploadPart)
  | storePart (namespaceId sessionId partIndex : Nat) (stagingKey : Option JsString)
      (digest : JsString) (encryptionIv : Option JsString) (expiresAt : Option Nat) (now : Nat)
  | retirePart (namespaceId sessionId partIndex : Nat) (stagingKey : JsString) (sizeBytes now : Nat)
  | settleTombstone (namespaceId : Nat) (stagingKey : JsString) (now : Nat)
  | refundTombstone (namespaceId : Nat) (stagingKey : JsString) (sizeBytes : Nat)
  | markTombstone (namespaceId : Nat) (stagingKey : JsString) (now : Nat)
  | rechargePart (namespaceId sessionId partIndex : Nat) (stagingKey : JsString) (sizeBytes : Nat)
  | cleanUpPart (namespaceId sessionId partIndex : Nat)
  | removePart (namespaceId sessionId partIndex sizeBytes : Nat)
  | deletePart (namespaceId sessionId partIndex : Nat) (stagingKey : JsString)
      (expectedState : UploadPartState) (sizeBytes now : Nat)
  | closeSession (namespaceId sessionId : Nat) (next : TerminalTransition) (now : Nat)
  | claimSession (namespaceId sessionId token leaseExpiresAt now : Nat)
  | completeSession (namespaceId sessionId token status : Nat) (body requestId : JsString)
      (now : Nat)
  | failSession (namespaceId sessionId token : Nat) (body requestId : JsString) (now : Nat)
  | renewSession (namespaceId sessionId expiresAt now : Nat)
  | deleteSettledSessions (namespaceId : Nat)
  deriving DecidableEq

/-- The transaction holds the usage lock and has read: what it will write. `none` when it
returned or threw without a write. -/
def UploadOperation.decide (tables : UploadTables) : UploadOperation → Option UploadWrite
  | .createSession input caps =>
      match tables.createSession input caps with
      | .created session => some (.insertSession session)
      | .inactive => none
      | _ => some (.nothing input.namespaceId)
  | .reservePart sessionId partIndex sizeBytes stagingKey caps leaseSeconds now =>
      (tables.findSession sessionId).bind fun session =>
        match tables.reservePart sessionId partIndex sizeBytes stagingKey caps leaseSeconds now with
        | .reserved part => some (.insertPart session.namespaceId caps part)
        | .inactive => none
        | _ => some (.nothing session.namespaceId)
  | .commitPart sessionId partIndex digest encryptionIv stagingKey inactivitySeconds now =>
      (tables.findSession sessionId).map fun session =>
        if session.isOpen now = true ∧
            ((tables.findPart sessionId partIndex).any fun part =>
              part.state == .reserved && part.leaseExpiresAt.isSome && !part.leaseOver now &&
                part.hasKey stagingKey) = true then
          .storePart session.namespaceId sessionId partIndex stagingKey digest encryptionIv
            (inactivitySeconds.map fun seconds => min (now + seconds * 1000) session.maxExpiresAt)
            now
        else .nothing session.namespaceId
  | .retireExpiredPartReservation sessionId partIndex stagingKey now =>
      (tables.findSession sessionId).map fun session =>
        match (tables.findPart sessionId partIndex).filter fun part =>
            part.state == .reserved && part.stagingKey == stagingKey && part.leaseOver now with
        | some part =>
            .retirePart session.namespaceId sessionId partIndex stagingKey part.sizeBytes now
        | none => .nothing session.namespaceId
  | .releasePartReservation sessionId partIndex objectMayExist stagingKey now =>
      (tables.findSession sessionId).map fun session =>
        match (tables.findPart sessionId partIndex).filter fun part => part.hasKey stagingKey with
        | none =>
            match stagingKey with
            | none => .nothing session.namespaceId
            | some key =>
                match tables.cleanups.find? fun old => old.stagingKey == key &&
                    old.sessionId == sessionId && old.partIndex == partIndex with
                | none => .nothing session.namespaceId
                | some old =>
                    if objectMayExist then .settleTombstone session.namespaceId key now
                    else .refundTombstone session.namespaceId key old.sizeBytes
        | some part =>
            match part.state, stagingKey with
            | .deleted, some key =>
                if objectMayExist ∧ part.objectDeletedAt.isSome then
                  .rechargePart session.namespaceId sessionId partIndex key part.sizeBytes
                else .nothing session.namespaceId
            | .reserved, _ =>
                if objectMayExist then .cleanUpPart session.namespaceId sessionId partIndex
                else .removePart session.namespaceId sessionId partIndex part.sizeBytes
            | _, _ => .nothing session.namespaceId
  | .claimTerminalTransition namespaceId sessionId next now =>
      match tables.sessions.find? fun session => session.isRow namespaceId sessionId with
      | some session =>
          if session.state = .opened then some (.closeSession namespaceId sessionId next now)
          else some (.nothing namespaceId)
      | none => some (.nothing namespaceId)
  | .claimFinalize namespaceId sessionId token leaseDurationMs now =>
      match tables.claimFinalize namespaceId sessionId now with
      | .claimed _ _ =>
          some (.claimSession namespaceId sessionId token (now + leaseDurationMs) now)
      | .notFound => none
      | .inactive => none
      | _ => some (.nothing namespaceId)
  | .completeFinalize namespaceId sessionId token _ status body requestId now =>
      -- The fence of the same transaction: the claim stands and its lease is live.
      if tables.sessions.any fun session =>
          session.holdsLease namespaceId sessionId token && session.leaseLive now then
        some (.completeSession namespaceId sessionId token status body requestId now)
      else none
  | .failFinalize namespaceId sessionId token body requestId now =>
      some (.failSession namespaceId sessionId token body requestId now)
  | .renewSession namespaceId sessionId inactivitySeconds now =>
      if tables.active namespaceId = false then none
      else
        match tables.sessions.find? fun session => session.isRow namespaceId sessionId with
        | some session =>
            if session.isOpen now then
              some (.renewSession namespaceId sessionId
                (min (now + inactivitySeconds * 1000) session.maxExpiresAt) now)
            else some (.nothing namespaceId)
        | none => some (.nothing namespaceId)
  | .markTombstoneDeleted stagingKey observedPutSettledAt now =>
      (tables.findCleanupTombstone stagingKey).map fun old =>
        if observedPutSettledAt.isSome ∧ old.putSettledAt = observedPutSettledAt then
          .refundTombstone old.namespaceId stagingKey old.sizeBytes
        else .markTombstone old.namespaceId stagingKey now
  | .markStagingObjectDeleted sessionId partIndex stagingKey expectedState now =>
      if expectedState = .deleted ∨ expectedState = .reserved then none
      else
        (tables.findSession sessionId).map fun session =>
          match (tables.findPart sessionId partIndex).filter fun part =>
              part.state == expectedState && part.stagingKey == stagingKey with
          | none => .nothing session.namespaceId
          | some part =>
              if session.state = .opened ∧ expectedState ≠ .cleanup then
                .nothing session.namespaceId
              else
                .deletePart session.namespaceId sessionId partIndex stagingKey expectedState
                  part.sizeBytes now
  | .deleteSettledSessions namespaceId => some (.deleteSettledSessions namespaceId)

namespace UploadTables

def closed (state : UploadSessionState) (now : Nat) (session : UploadSession) : UploadSession :=
  { session with
    state := state, terminalAt := some now, leaseExpiresAt := none, leaseToken := none,
    lastCompleteFailureCode := none, lastCompleteFailureAt := none }

/-- Every part of the session is `DELETED` and it has no tombstone. -/
def settled (tables : UploadTables) (sessionId : Nat) : Bool :=
  (tables.parts.all fun part => part.sessionId != sessionId || part.state == .deleted) &&
    tables.cleanups.all fun old => old.sessionId != sessionId

/-- Whether a session id was ever used. Ids are random and never repeat. -/
def mentions (tables : UploadTables) (sessionId : Nat) : Bool :=
  (tables.sessions.any fun session => session.id == sessionId) ||
    tables.cleanups.any fun old => old.sessionId == sessionId

def updateSession (tables : UploadTables) (test : UploadSession → Bool)
    (transform : UploadSession → UploadSession) : Option UploadTables :=
  if tables.sessions.any test then some (tables.updateSessions test transform) else none

/-- Write what the transaction decided; the rows that its WHERE clauses no longer find stay
as they are, and the flag says whether it applied. `none` is a thrown error, which rolls
back. -/
def write (tables : UploadTables) : UploadWrite → Option (UploadTables × Bool)
  | .nothing namespaceId => some (tables.ensureUsage namespaceId, false)
  | .insertSession session =>
      if tables.mentions session.id then none
      else
        let ensured := tables.ensureUsage session.namespaceId
        some (({ ensured with sessions := ensured.sessions ++ [session] }).changeUsage
          session.namespaceId 1 0, true)
  | .insertPart namespaceId _ part =>
      let ensured := (tables.ensureUsage namespaceId).deleteParts fun old =>
        old.isRow part.sessionId part.partIndex && old.state == .deleted
      -- The primary key, the unique staging key and the foreign key of the new row.
      if (ensured.parts.any fun old =>
            old.isRow part.sessionId part.partIndex || old.stagingKey == part.stagingKey) ||
          (ensured.findSession part.sessionId).isNone then none
      else
        some (({ ensured with parts := ensured.parts ++ [part] }).changeUsage namespaceId 0
          part.sizeBytes, true)
  | .storePart namespaceId sessionId partIndex stagingKey digest encryptionIv expiresAt now =>
      let ensured := tables.ensureUsage namespaceId
      let isOpen := fun session : UploadSession => session.id == sessionId && session.isOpen now
      let isReserved := fun part : UploadPart =>
        part.isRow sessionId partIndex && part.state == .reserved && part.hasKey stagingKey
      if expiresAt.isSome ∧ (ensured.sessions.any isOpen) = false then some (ensured, false)
      else if (ensured.parts.any isReserved) = false then none
      else
        some ((ensured.updateSessions isOpen fun session =>
            { session with expiresAt := expiresAt.getD session.expiresAt }).updateParts isReserved
          fun part =>
            { part with state := .stored, digest := some digest, encryptionIv := encryptionIv },
          true)
  | .retirePart namespaceId sessionId partIndex stagingKey sizeBytes now =>
      let ensured := tables.ensureUsage namespaceId
      let isOver := fun part : UploadPart =>
        part.isRow sessionId partIndex && part.stagingKey == stagingKey &&
          part.state == .reserved && part.leaseOver now
      if (ensured.parts.any isOver) = false then some (ensured, false)
      else if (ensured.findCleanupTombstone stagingKey).isSome then none
      else
        let retired := ensured.deleteParts isOver
        some ({ retired with
          cleanups := retired.cleanups ++
            [{ stagingKey := stagingKey, sessionId := sessionId, partIndex := partIndex,
               namespaceId := namespaceId, sizeBytes := sizeBytes, deletedAt := none,
               putSettledAt := none }] }, true)
  | .settleTombstone namespaceId stagingKey now =>
      some ((tables.ensureUsage namespaceId).updateCleanups
        (fun old => old.stagingKey == stagingKey)
        fun old => { old with putSettledAt := some now }, true)
  | .refundTombstone namespaceId stagingKey sizeBytes =>
      some (((tables.ensureUsage namespaceId).deleteCleanups fun old =>
        old.stagingKey == stagingKey).changeUsage namespaceId 0 (-sizeBytes), true)
  | .markTombstone namespaceId stagingKey now =>
      some ((tables.ensureUsage namespaceId).updateCleanups
        (fun old => old.stagingKey == stagingKey)
        fun old => { old with deletedAt := some now }, true)
  | .rechargePart namespaceId sessionId partIndex stagingKey sizeBytes =>
      let ensured := tables.ensureUsage namespaceId
      let isDeleted := fun part : UploadPart =>
        part.isRow sessionId partIndex && part.stagingKey == stagingKey && part.state == .deleted
      if (ensured.parts.any isDeleted) = false then some (ensured, false)
      else
        some ((ensured.updateParts isDeleted fun part =>
          { part with state := .cleanup, objectDeletedAt := none }).changeUsage namespaceId 0
            sizeBytes, true)
  | .cleanUpPart namespaceId sessionId partIndex =>
      some ((tables.ensureUsage namespaceId).updateParts
        (fun part => part.isRow sessionId partIndex)
        fun part => { part with state := .cleanup }, true)
  | .removePart namespaceId sessionId partIndex sizeBytes =>
      some (((tables.ensureUsage namespaceId).deleteParts fun part =>
        part.isRow sessionId partIndex).changeUsage namespaceId 0 (-sizeBytes), true)
  | .deletePart namespaceId sessionId partIndex stagingKey expectedState sizeBytes now =>
      let ensured := tables.ensureUsage namespaceId
      let isExpected := fun part : UploadPart =>
        part.isRow sessionId partIndex && part.stagingKey == stagingKey &&
          part.state == expectedState
      if (ensured.parts.any isExpected) = false then some (ensured, false)
      else
        some ((ensured.updateParts isExpected fun part =>
          { part with state := .deleted, objectDeletedAt := some now }).changeUsage namespaceId 0
            (-sizeBytes), true)
  | .closeSession namespaceId sessionId next now =>
      let ensured := tables.ensureUsage namespaceId
      let isRow := fun session : UploadSession =>
        session.isRow namespaceId sessionId && session.state == .opened &&
          (next == .cancelled || decide (session.expiresAt ≤ now) ||
            decide (session.maxExpiresAt ≤ now))
      match ensured.updateSession isRow (closed next.state now) with
      | none => some (ensured, false)
      | some updated => some (updated.changeUsage namespaceId (-1) 0, true)
  | .claimSession namespaceId sessionId token leaseExpiresAt now =>
      let ensured := tables.ensureUsage namespaceId
      let isRow := fun session : UploadSession =>
        session.isRow namespaceId sessionId && session.isOpen now
      match ensured.updateSession isRow fun session =>
          { session with
            state := .finalizing, leaseToken := some token, leaseExpiresAt := some leaseExpiresAt,
            lastCompleteFailureCode := none, lastCompleteFailureAt := none } with
      | none => some (ensured, false)
      | some updated => some (updated, true)
  | .completeSession namespaceId sessionId token status body requestId now =>
      let ensured := tables.ensureUsage namespaceId
      let isRow := fun session : UploadSession => session.holdsLease namespaceId sessionId token
      (ensured.updateSession isRow fun session =>
        { closed .completed now session with
          responseStatus := some status, responseBody := some body,
          requestId := some requestId }).map fun updated =>
        (updated.changeUsage namespaceId (-1) 0, true)
  | .failSession namespaceId sessionId token body requestId now =>
      let ensured := tables.ensureUsage namespaceId
      let isRow := fun session : UploadSession =>
        session.holdsLease namespaceId sessionId token && session.leaseLive now
      match ensured.updateSession isRow fun session =>
          { closed .failed now session with
            responseStatus := some 422, responseBody := some body,
            requestId := some requestId } with
      | none => some (ensured, false)
      | some updated => some (updated.changeUsage namespaceId (-1) 0, true)
  | .renewSession namespaceId sessionId expiresAt now =>
      let ensured := tables.ensureUsage namespaceId
      let isRow := fun session : UploadSession =>
        session.isRow namespaceId sessionId && session.isOpen now
      match ensured.updateSession isRow fun session => { session with expiresAt := expiresAt } with
      | none => some (ensured, false)
      | some updated => some (updated, true)
  | .deleteSettledSessions namespaceId =>
      let ensured := tables.ensureUsage namespaceId
      some (ensured.deleteSessions fun session =>
        session.namespaceId == namespaceId && session.state.terminal && ensured.settled session.id,
        true)

/-! ## Whole transactions -/

def transact (tables : UploadTables) (operation : UploadOperation) :
    Option (UploadTables × Bool) :=
  (operation.decide tables).bind tables.write

def after (tables : UploadTables) (operation : UploadOperation) : UploadTables :=
  ((tables.transact operation).map Prod.fst).getD tables

/-- The part of `findCleanupPart`. -/
def findCleanupPart (tables : UploadTables) (target : UploadStagingTarget) :
    Option UploadPartState :=
  (tables.findPart target.sessionId target.partIndex).bind fun part =>
    (tables.findSession target.sessionId).bind fun session =>
      if part.stagingKey = target.stagingKey ∧
          (part.state = .cleanup ∨ session.state.terminal = true ∧ part.state = .stored) then
        some part.state
      else none

/-! ## Transactions without the lock -/

def renewPartLease (tables : UploadTables) (sessionId partIndex : Nat) (stagingKey : JsString)
    (leaseSeconds now : Nat) : UploadTables :=
  tables.updateParts
    (fun part => part.isRow sessionId partIndex && part.stagingKey == stagingKey &&
      part.state == .reserved && part.leaseExpiresAt.isSome && !part.leaseOver now)
    fun part => { part with leaseExpiresAt := some (now + leaseSeconds * 1000) }

def renewFinalize (tables : UploadTables) (namespaceId sessionId token leaseDurationMs now : Nat) :
    UploadTables :=
  tables.updateSessions
    (fun session => session.holdsLease namespaceId sessionId token && session.leaseLive now)
    fun session => { session with leaseExpiresAt := some (now + leaseDurationMs) }

def releaseFinalize (tables : UploadTables) (namespaceId sessionId token : Nat) (code : JsString)
    (failedAt : Nat) : UploadTables :=
  tables.updateSessions (fun session => session.holdsLease namespaceId sessionId token)
    fun session =>
      { session with
        state := .opened, leaseToken := none, leaseExpiresAt := none,
        lastCompleteFailureCode := some code, lastCompleteFailureAt := some failedAt }

/-- The UPDATE of `recoverStaleFinalizingLeases` on the sessions that its SELECT listed. -/
def recoverStaleFinalizingLeases (tables : UploadTables) (ids : List Nat) (now : Nat) :
    UploadTables :=
  tables.updateSessions
    (fun session => ids.contains session.id && session.state == .finalizing &&
      session.leaseStale now)
    fun session => { session with state := .opened, leaseToken := none, leaseExpiresAt := none }

/-- The SELECT of `pruneTerminalSessions`. -/
def isPrunable (tables : UploadTables) (sessionId before : Nat) : Bool :=
  (tables.sessions.any fun session => session.id == sessionId && session.state.terminal &&
    session.terminalAt.any fun closedAt => decide (closedAt < before)) &&
    tables.settled sessionId

def remainingParts (tables : UploadTables) (sessionId : Nat) : Nat :=
  (tables.parts.filter fun part => part.sessionId == sessionId && part.state != .deleted).length

/-- The DELETE of `pruneTerminalSessions`. -/
def pruneSession (tables : UploadTables) (sessionId before : Nat) : UploadTables :=
  tables.deleteSessions fun session => session.id == sessionId && session.state.terminal &&
    session.terminalAt.any fun closedAt => decide (closedAt < before)

end UploadTables

end Storix
