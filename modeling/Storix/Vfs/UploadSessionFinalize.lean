import Storix.Persistence.UploadSessions
import Storix.Persistence.Run
import Storix.Foundation.Machine

/-! # Completing an upload session

Any number of calls of `complete` on the upload tables, with the other participants of an
upload in between. A call claims the session, copies its parts into one object, and then
changes the tree and the session in one transaction. Each transaction is one step. -/

namespace Storix

open Foundation

abbrev Bytes := List UInt8

/-- What `complete` uses besides the tables: the digest and the texts of its answers. -/
structure FinalizeHost extends Host where
  sha256 : Bytes → JsString
  completedBody : PutFileOutcome → List AffectedRevision → JsString
  mismatchBody : JsString → JsString

namespace FinalizeHost

variable (host : FinalizeHost)

/-! ## Reading the parts -/

def pullChunks (sizeBytes : Nat) (read : Bytes) : List Bytes → Option Bytes
  | [] => some read
  | chunk :: rest =>
      if sizeBytes < (read ++ chunk).length then none
      else pullChunks sizeBytes (read ++ chunk) rest

def readPart (part : UploadPart) (chunks : List Bytes) : Option Bytes :=
  (pullChunks part.sizeBytes [] chunks).bind fun read =>
    if read.length ≠ part.sizeBytes ∨ some (host.sha256 read) ≠ part.digest then none
    else some read

def readParts (streams : JsString → Option (List Bytes)) : List UploadPart → Option Bytes
  | [] => some []
  | part :: rest =>
      (streams part.stagingKey).bind fun chunks =>
        (host.readPart part chunks).bind fun read =>
          (readParts streams rest).map fun others => read ++ others

end FinalizeHost

/-! ## The states of a call -/

/-- What `claimFinalize` hands to the call that claimed the session. -/
structure FinalizeClaim where
  namespaceId : Nat
  token : Nat
  session : UploadSession
  parts : List UploadPart

structure FinalizeResponse where
  status : Nat
  body : JsString
  requestId : JsString
  deriving DecidableEq

inductive FinalizePhase
  | idle
  /-- The parts are being read. -/
  | claimed (claim : FinalizeClaim)
  /-- The content is stored under the key. -/
  | stored (claim : FinalizeClaim) (storageKey : JsString) (content : Bytes)
  /-- The lease was renewed, and the size and the digest are right. -/
  | confirmed (claim : FinalizeClaim) (storageKey : JsString) (content : Bytes)
  /-- The digest is not the one the session was created with. -/
  | mismatched (claim : FinalizeClaim)
  /-- An exception is being handled. -/
  | failing (claim : FinalizeClaim)
  /-- The call returned a response or threw. -/
  | finished (response : Option FinalizeResponse)

def FinalizePhase.claim : FinalizePhase → Option FinalizeClaim
  | .claimed claim => some claim
  | .stored claim _ _ => some claim
  | .confirmed claim _ _ => some claim
  | .mismatched claim => some claim
  | .failing claim => some claim
  | _ => none

structure Finalized where
  session : UploadSession
  /-- The stored parts of the session at that moment. -/
  parts : List UploadPart
  storageKey : JsString
  content : Bytes
  response : FinalizeResponse

structure FinalizeSystem where
  tables : UploadTables
  databases : Nat → Database
  workers : Nat → FinalizePhase
  /-- The body that is uploaded under each staging key. -/
  bodies : JsString → Option Bytes
  /-- The session ids and the lease tokens that were ever drawn. -/
  sessionIds : List Nat
  tokens : List Nat
  /-- The stored parts that `findCleanupPart` found in a closed session. -/
  observed : List UploadStagingTarget
  finalized : List Finalized

def UploadOperation.isHousekeeping : UploadOperation → Bool
  | .retireExpiredPartReservation _ _ _ _ => true
  | .releasePartReservation _ _ _ _ _ => true
  | .claimTerminalTransition _ _ _ _ => true
  | .renewSession _ _ _ _ => true
  | .markTombstoneDeleted _ _ _ => true
  | .markStagingObjectDeleted _ _ _ .cleanup _ => true
  | .deleteSettledSessions _ => true
  | _ => false

/-! ## Steps -/

inductive FinalizeAction (host : FinalizeHost)
  /-- A new session, with the parts that `planNewUploadSession` plans. -/
  | create (input : CreateUploadSessionInput) (caps : UploadPolicyCaps)
      (partSizeBytes inactivitySeconds maxLifetimeSeconds now : Nat)
  /-- `putPart` reserves a part for a body. -/
  | reserve (sessionId partIndex : Nat) (stagingKey : JsString) (body : Bytes)
      (caps : UploadPolicyCaps) (leaseSeconds now : Nat)
  /-- `putPart` commits the part whose body it uploaded. -/
  | commitPart (sessionId partIndex : Nat) (stagingKey : JsString)
      (encryptionIv : Option JsString) (inactivitySeconds now : Nat)
  | transact (operation : UploadOperation)
  | findCleanupPart (target : UploadStagingTarget)
  | markStagingObjectDeleted (target : UploadStagingTarget) (now : Nat)
  | deactivate (namespaceId : Nat)
  | renewPartLease (sessionId partIndex : Nat) (stagingKey : JsString) (leaseSeconds now : Nat)
  | recoverStaleFinalizingLeases (ids : List Nat) (now : Nat)
  | prune (sessionId before : Nat)
  /-- Another mutation of a namespace. -/
  | mutate (namespaceId : Nat) (mutation : Mutation host.toHost) (now : Nat)
  /-- A call of `complete` that claims the session or returns. -/
  | claim (worker namespaceId sessionId token leaseDurationMs now : Nat)
  | read (worker : Nat) (storageKey : JsString) (streams : JsString → Option (List Bytes))
  | renew (worker leaseDurationMs now : Nat)
  | confirm (worker leaseDurationMs now : Nat)
  | failFinalize (worker : Nat) (requestId : JsString) (now : Nat) (fate : Fate)
  | finalize (worker leaseDurationMs : Nat) (encryptionIv : Option (List UInt8))
      (requestId : JsString) (now : Nat) (fate : Fate)
  | release (worker : Nat) (code : JsString) (failedAt : Nat)
  | crash (worker : Nat)

namespace FinalizeSystem

variable {host : FinalizeHost} (system : FinalizeSystem)

def setWorker (worker : Nat) (phase : FinalizePhase) : FinalizeSystem :=
  { system with workers := Function.update system.workers worker phase }

def replay (session : UploadSession) : Option FinalizeResponse :=
  session.responseStatus.bind fun status =>
    session.responseBody.bind fun body =>
      session.requestId.map fun requestId => ⟨status, body, requestId⟩

/-- The first transaction of `complete`. -/
def claim (worker namespaceId sessionId token leaseDurationMs now : Nat) : FinalizeSystem :=
  match system.tables.claimFinalize namespaceId sessionId now with
  | .claimed session parts =>
      { system with
        tables := system.tables.after
          (.claimFinalize namespaceId sessionId token leaseDurationMs now)
        tokens := token :: system.tokens }.setWorker worker
          (.claimed ⟨namespaceId, token, session, parts⟩)
  | .complete session => system.setWorker worker (.finished (replay session))
  | _ => system.setWorker worker (.finished none)

def confirm (host : FinalizeHost) (worker leaseDurationMs now : Nat) (claim : FinalizeClaim)
    (storageKey : JsString) (content : Bytes) : FinalizeSystem :=
  let renewed :=
    { system with
      tables := system.tables.renewFinalize claim.namespaceId claim.session.id claim.token
        leaseDurationMs now }
  if (system.tables.sessions.any fun session =>
      session.holdsLease claim.namespaceId claim.session.id claim.token &&
        session.leaseLive now) = false then system.setWorker worker (.failing claim)
  else if content.length ≠ claim.session.sizeBytes then renewed.setWorker worker (.failing claim)
  else if claim.session.sha256.all fun expected => host.sha256 content == expected then
    renewed.setWorker worker (.confirmed claim storageKey content)
  else renewed.setWorker worker (.mismatched claim)

def failFinalize (host : FinalizeHost) (worker : Nat) (requestId : JsString) (now : Nat)
    (fate : Fate) (claim : FinalizeClaim) : FinalizeSystem :=
  let body := host.mismatchBody requestId
  match fate, system.tables.transact
      (.failFinalize claim.namespaceId claim.session.id claim.token body requestId now) with
  | .done, some (tables, true) =>
      { system with tables := tables }.setWorker worker (.finished (some ⟨422, body, requestId⟩))
  | .lost, some (tables, _) => { system with tables := tables }.setWorker worker (.failing claim)
  | _, _ => system.setWorker worker (.failing claim)

def finalBlob (host : FinalizeHost) (session : UploadSession) (storageKey : JsString)
    (content : Bytes) (encryptionIv : Option (List UInt8)) : BlobData where
  storageKey := storageKey
  size := content.length
  mimeType := session.mimeType
  sha256 := host.sha256 content
  encryptionIv := encryptionIv

/-- The transaction that fences the claim, changes the tree and completes the session. `none`
when it rolls back. -/
def finalizeTransaction (host : FinalizeHost) (leaseDurationMs : Nat) (claim : FinalizeClaim)
    (storageKey : JsString) (content : Bytes) (encryptionIv : Option (List UInt8))
    (requestId : JsString) (now : Nat) : Option (FinalizeSystem × FinalizeResponse) :=
  match resolve host.toHost claim.session.targetPath with
  | .error _ => none
  | .ok path =>
      -- The root is refused when the session is created.
      if nonempty : path.segments ≠ [] then
        let blob := finalBlob host claim.session storageKey content encryptionIv
        let work := putConditionalContent host.toHost ⟨path, nonempty⟩ claim.session.condition blob
        match withMutation host.toHost now false work (fun _ _ _ => .ok ())
            (system.databases claim.namespaceId) with
        | .error _ => none
        | .ok committed =>
            let response : FinalizeResponse :=
              { status := if committed.value.kind = .created then 201 else 200
                body := host.completedBody committed.value committed.affectedRevisions
                requestId := requestId }
            (system.tables.transact (.completeFinalize claim.namespaceId claim.session.id
                claim.token leaseDurationMs response.status response.body requestId now)).map
              fun written =>
                ({ system with
                    tables := written.1
                    databases := Function.update system.databases claim.namespaceId committed.db
                    finalized := system.finalized ++
                      [⟨claim.session, system.tables.storedParts claim.session.id, storageKey,
                        content, response⟩] },
                  response)
      else none

def finalize (host : FinalizeHost) (worker leaseDurationMs : Nat) (claim : FinalizeClaim)
    (storageKey : JsString) (content : Bytes) (encryptionIv : Option (List UInt8))
    (requestId : JsString) (now : Nat) (fate : Fate) : FinalizeSystem :=
  match fate, system.finalizeTransaction host leaseDurationMs claim storageKey content
      encryptionIv requestId now with
  | .done, some (committed, response) => committed.setWorker worker (.finished (some response))
  | .lost, some (committed, _) => committed.setWorker worker (.failing claim)
  | _, _ => system.setWorker worker (.failing claim)

def plannedInput (input : CreateUploadSessionInput) (plan : NewUploadSessionPlan) :
    CreateUploadSessionInput :=
  { input with
    partSizeBytes := plan.partSizeBytes, partCount := plan.partCount,
    expiresAt := plan.expiresAt, maxExpiresAt := plan.maxExpiresAt }

def next (system : FinalizeSystem) : FinalizeAction host → Option FinalizeSystem
  | .create input caps partSizeBytes inactivitySeconds maxLifetimeSeconds now =>
      if partSizeBytes = 0 ∨ input.id ∈ system.sessionIds then none
      else
        (planNewUploadSession input.sizeBytes partSizeBytes inactivitySeconds maxLifetimeSeconds
          now).map fun plan =>
          { system with
            tables := system.tables.after (.createSession (plannedInput input plan) caps)
            sessionIds := input.id :: system.sessionIds }
  | .reserve sessionId partIndex stagingKey body caps leaseSeconds now =>
      if (system.bodies stagingKey).isSome then none
      else
        (system.tables.findSession sessionId).map fun session =>
          { system with
            tables := system.tables.after (.reservePart sessionId partIndex
              (expectedPartSize session.sizeBytes session.partSizeBytes session.partCount partIndex)
              stagingKey caps leaseSeconds now)
            bodies := Function.update system.bodies stagingKey (some body) }
  | .commitPart sessionId partIndex stagingKey encryptionIv inactivitySeconds now =>
      (system.tables.findSession sessionId).bind fun session =>
        (system.bodies stagingKey).bind fun body =>
          if body.length = expectedPartSize session.sizeBytes session.partSizeBytes
              session.partCount partIndex then
            some { system with
              tables := system.tables.after (.commitPart sessionId partIndex (host.sha256 body)
                encryptionIv (some stagingKey) (some inactivitySeconds) now) }
          else none
  | .transact operation =>
      if operation.isHousekeeping then
        some { system with tables := system.tables.after operation }
      else none
  | .findCleanupPart target =>
      if system.tables.findCleanupPart target = some .stored then
        some { system with observed := target :: system.observed }
      else some system
  | .markStagingObjectDeleted target now =>
      if target ∈ system.observed then
        some { system with
          tables := system.tables.after (.markStagingObjectDeleted target.sessionId
            target.partIndex target.stagingKey .stored now) }
      else none
  | .deactivate namespaceId =>
      some { system with
        tables := { system.tables.ensureUsage namespaceId with
          active := Function.update system.tables.active namespaceId false } }
  | .renewPartLease sessionId partIndex stagingKey leaseSeconds now =>
      some { system with
        tables := system.tables.renewPartLease sessionId partIndex stagingKey leaseSeconds now }
  | .recoverStaleFinalizingLeases ids now =>
      some { system with tables := system.tables.recoverStaleFinalizingLeases ids now }
  | .prune sessionId before =>
      if system.tables.remainingParts sessionId = 0 then
        some { system with tables := system.tables.pruneSession sessionId before }
      else some system
  | .mutate namespaceId mutation now =>
      match mutation.run now (fun _ _ _ => .ok ()) (system.databases namespaceId) with
      | .error _ => some system
      | .ok committed =>
          some { system with
            databases := Function.update system.databases namespaceId committed.db }
  | .claim worker namespaceId sessionId token leaseDurationMs now =>
      if token ∈ system.tokens then none
      else
        match system.workers worker with
        | .idle => some (system.claim worker namespaceId sessionId token leaseDurationMs now)
        | _ => none
  | .read worker storageKey streams =>
      match system.workers worker with
      | .claimed claim =>
          match host.readParts streams claim.parts with
          | some content => some (system.setWorker worker (.stored claim storageKey content))
          | none => some (system.setWorker worker (.failing claim))
      | _ => none
  | .renew worker leaseDurationMs now =>
      (system.workers worker).claim.map fun claim =>
        { system with
          tables := system.tables.renewFinalize claim.namespaceId claim.session.id claim.token
            leaseDurationMs now }
  | .confirm worker leaseDurationMs now =>
      match system.workers worker with
      | .stored claim storageKey content =>
          some (system.confirm host worker leaseDurationMs now claim storageKey content)
      | _ => none
  | .failFinalize worker requestId now fate =>
      match system.workers worker with
      | .mismatched claim => some (system.failFinalize host worker requestId now fate claim)
      | _ => none
  | .finalize worker leaseDurationMs encryptionIv requestId now fate =>
      match system.workers worker with
      | .confirmed claim storageKey content =>
          some (system.finalize host worker leaseDurationMs claim storageKey content encryptionIv
            requestId now fate)
      | _ => none
  | .release worker code failedAt =>
      match system.workers worker with
      | .failing claim =>
          some ({ system with
            tables := system.tables.releaseFinalize claim.namespaceId claim.session.id claim.token
              code failedAt }.setWorker worker (.finished none))
      | _ => none
  | .crash worker => some (system.setWorker worker .idle)

/-- No session, and every database is one that transactions of the code lead to. -/
structure Initial (host : FinalizeHost) (system : FinalizeSystem) : Prop where
  sessions : system.tables.sessions = []
  parts : system.tables.parts = []
  cleanups : system.tables.cleanups = []
  globalUsage : system.tables.globalUsage = ⟨0, 0⟩
  usage : system.tables.usage = []
  databases : ∀ namespaceId, Reachable host.toHost (system.databases namespaceId)
  workers : ∀ worker, system.workers worker = .idle
  sessionIds : system.sessionIds = []
  tokens : system.tokens = []
  observed : system.observed = []
  finalized : system.finalized = []

end FinalizeSystem

def finalizeMachine (host : FinalizeHost) : Machine FinalizeSystem (FinalizeAction host) where
  initial := FinalizeSystem.Initial host
  next := FinalizeSystem.next

end Storix
