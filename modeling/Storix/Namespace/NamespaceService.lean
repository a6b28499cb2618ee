import Storix.Namespace.NamespaceResponse
import Storix.Foundation.Machine
import Storix.Foundation.OrderedMap
import Storix.Foundation.Rows

/-! # Requests that create a namespace

Any number of requests, each a sequence of statements: the lookup of the receipt, the
transaction that inserts the namespace and its receipt, the second lookup after a failure,
and the receipt of a conflict. Between two statements other requests run, a namespace is
deleted, the process dies, or an acknowledgement is lost. -/

namespace Storix

open Foundation

/-- What the hash of a request covers. A field without a value is left out of it. -/
structure CreateNamespaceFields where
  name : Option JsString
  idPrefix : Option JsString
  encryptionPolicy : EncryptionPolicy
  accessPolicy : AccessPolicy
  maxTotalLogicalBytes : Option Nat
  deriving DecidableEq

inductive NamespaceError
  | alreadyExists (name : Option JsString)
  | idempotencyKeyReused (key : JsString)
  | encryptionNotConfigured
  | quotaLimitExceedsGlobal
  /-- Anything that is no domain error, a failure of the database above all. -/
  | unexpected
  deriving DecidableEq

inductive CreateNamespaceBody
  | created (response : NamespaceResponse)
  | refused (code : String) (message : JsString)
  deriving DecidableEq

/-- `이미 존재하는 namespace name: ${name ?? ''}` -/
def alreadyExistsMessage (name : Option JsString) : JsString :=
  ("이미 존재하는 namespace name: ".toList.map fun char => UInt16.ofNat char.toNat) ++ name.getD []

/-- `idempotency_key`, less its key. -/
structure IdempotencyKeyEntity where
  requestHash : JsString
  responseStatus : Nat
  responseBody : CreateNamespaceBody
  deriving DecidableEq

/-- A call of `create`, with the configuration of the process that serves it. -/
structure CreateNamespaceRequest extends CreateNamespaceFields where
  idempotencyKey : JsString
  hasMasterKey : Bool
  globalLimits : NamespaceGlobalLimits

structure NamespaceHost where
  /-- `canonicalJsonHash` of the fields. -/
  canonicalJsonHash : CreateNamespaceFields → JsString
  randomUUID : Nat → Uuid
  randomUUID_injective : Function.Injective randomUUID

def CreateNamespaceRequest.requestHash (host : NamespaceHost) (request : CreateNamespaceRequest) :
    JsString :=
  host.canonicalJsonHash request.toCreateNamespaceFields

/-- `assertNamespaceQuotaWithinGlobalLimit` passes. -/
def quotaWithinGlobalLimit (namespaceLimit : Option Nat) (globalBytes : Nat) : Bool :=
  match namespaceLimit with
  | none => true
  | some limit => (parsePositiveLimit limit).any fun bytes => bytes ≤ globalBytes

structure NamespaceTables where
  namespaces : List NamespaceEntity
  receipts : OrderedMap JsString IdempotencyKeyEntity

/-- `UQ_namespace_active_name` has this name. -/
def NamespaceTables.hasActiveName (tables : NamespaceTables) (name : JsString) : Bool :=
  tables.namespaces.any fun entity => entity.status == .active && entity.name == some name

def CreateNamespaceRequest.entity (request : CreateNamespaceRequest) (uuid : Uuid) (now : Nat) :
    NamespaceEntity where
  id := ⟨request.idPrefix, uuid⟩
  name := request.name
  encryptionPolicy := request.encryptionPolicy
  accessPolicy := request.accessPolicy
  status := .active
  trashEnabled := false
  maxFileSizeBytes := none
  maxFilesPerFolder := none
  maxLiveNodes := none
  maxTotalLogicalBytes := request.maxTotalLogicalBytes
  maxRetainedTrashBytes := none
  liveFileByteCount := 0
  retainedSnapshotByteCount := 0
  retainedTrashByteCount := 0
  retainedTrashNodeCount := 0
  excludeTrashFromQuota := false
  excludeSnapshotsFromQuota := false
  createdAt := now
  updatedAt := now

/-- `createWithRoot`: a unique violation, of the name or of the receipt's key, is a conflict
and rolls everything back. -/
def NamespaceTables.createWithRoot (host : NamespaceHost) (tables : NamespaceTables)
    (request : CreateNamespaceRequest) (uuid : Uuid) (now : Nat) :
    Except NamespaceError (NamespaceResponse × NamespaceTables) :=
  let entity := request.entity uuid now
  if request.name.any tables.hasActiveName then .error (.alreadyExists request.name)
  else
    match toNamespaceResponse entity request.globalLimits with
    | none => .error .unexpected
    | some response =>
        if tables.receipts.has request.idempotencyKey then .error (.alreadyExists request.name)
        else
          .ok (response,
            { namespaces := tables.namespaces ++ [entity]
              receipts := tables.receipts.set request.idempotencyKey
                { requestHash := request.requestHash host
                  responseStatus := 201
                  responseBody := .created response } })

/-- The result of `create`. -/
abbrev CreateOutcome := Except NamespaceError (Nat × CreateNamespaceBody)

inductive CreatePhase
  | lookingUp
  | provisioning
  /-- The transaction threw, and the receipt is looked up again. -/
  | failed (error : NamespaceError)
  | recording
  | answered (outcome : CreateOutcome)
  | gone

def afterLookup (host : NamespaceHost) (request : CreateNamespaceRequest)
    (existing : Option IdempotencyKeyEntity) : CreatePhase :=
  match existing with
  | some existing =>
      if existing.requestHash ≠ request.requestHash host then
        .answered (.error (.idempotencyKeyReused request.idempotencyKey))
      else if existing.responseStatus = 409 then
        .answered (.error (.alreadyExists request.name))
      else .answered (.ok (existing.responseStatus, existing.responseBody))
  | none =>
      if request.encryptionPolicy = .encrypted ∧ request.hasMasterKey = false then
        .answered (.error .encryptionNotConfigured)
      else if quotaWithinGlobalLimit request.maxTotalLogicalBytes
          request.globalLimits.maxTotalLogicalBytes = false then
        .answered (.error .quotaLimitExceedsGlobal)
      else .provisioning

/-- Without a winner, the error of the transaction stands. A conflict gets a receipt first. -/
def withoutWinner : NamespaceError → CreatePhase
  | .alreadyExists _ => .recording
  | error => .answered (.error error)

def afterFailure (host : NamespaceHost) (request : CreateNamespaceRequest)
    (error : NamespaceError) (winner : Option IdempotencyKeyEntity) : CreatePhase :=
  match winner with
  | some winner =>
      if winner.requestHash ≠ request.requestHash host then
        .answered (.error (.idempotencyKeyReused request.idempotencyKey))
      else if winner.responseStatus = 201 then
        .answered (.ok (winner.responseStatus, winner.responseBody))
      else if winner.responseStatus = 409 then
        .answered (.error (.alreadyExists request.name))
      else withoutWinner error
  | none => withoutWinner error

/-- `recordIdempotency` of a conflict; a unique violation is swallowed. -/
def recordConflict (host : NamespaceHost) (tables : NamespaceTables)
    (request : CreateNamespaceRequest) : NamespaceTables :=
  if tables.receipts.has request.idempotencyKey then tables
  else
    { tables with
      receipts := tables.receipts.set request.idempotencyKey
        { requestHash := request.requestHash host
          responseStatus := 409
          responseBody :=
            .refused "NAMESPACE_ALREADY_EXISTS" (alreadyExistsMessage request.name) } }

structure NamespaceCreation where
  request : Nat
  entity : NamespaceEntity
  response : NamespaceResponse

/-- The tables and the requests. `created` is what an observer has seen: every namespace
whose transaction committed. -/
structure NamespaceSystem where
  tables : NamespaceTables
  phase : Nat → CreatePhase
  drawn : Nat
  created : List NamespaceCreation

inductive NamespaceAction
  /-- The next statement of a request at a time of the database. -/
  | statement (request : Nat) (now : Nat) (fate : Fate)
  | crash (request : Nat)
  /-- Accepting a deletion frees the name. -/
  | acceptDeletion (id : NamespaceId)
  | completeDeletion (id : NamespaceId)

namespace NamespaceSystem

variable (host : NamespaceHost) (requests : Nat → CreateNamespaceRequest)

def move (system : NamespaceSystem) (id : Nat) (phase : CreatePhase) : NamespaceSystem :=
  { system with phase := Function.update system.phase id phase }

/-- The transaction of a request. Where its result is lost, the request sees a failure. -/
def provision (system : NamespaceSystem) (id now : Nat) (fate : Fate) : NamespaceSystem :=
  let uuid := host.randomUUID system.drawn
  let drawing := { system with drawn := system.drawn + 1 }
  match fate with
  | .failed => drawing.move id (.failed .unexpected)
  | _ =>
      match system.tables.createWithRoot host (requests id) uuid now with
      | .error error => drawing.move id (.failed (if fate = .done then error else .unexpected))
      | .ok (response, tables) =>
          let creation : NamespaceCreation := ⟨id, (requests id).entity uuid now, response⟩
          let committed :=
            { drawing with tables := tables, created := system.created ++ [creation] }
          committed.move id
            (if fate = .done then .answered (.ok (201, .created response))
            else .failed .unexpected)

def perform (system : NamespaceSystem) (id now : Nat) (fate : Fate) : Option NamespaceSystem :=
  let request := requests id
  let found := system.tables.receipts.get request.idempotencyKey
  match system.phase id with
  | .lookingUp =>
      if fate = .done then some (system.move id (afterLookup host request found))
      else some (system.move id (.answered (.error .unexpected)))
  | .provisioning => some (system.provision host requests id now fate)
  | .failed error =>
      if fate = .done then some (system.move id (afterFailure host request error found))
      else some (system.move id (withoutWinner error))
  | .recording =>
      -- Also a receipt that could not be stored leaves the conflict as the answer.
      let tables :=
        if fate = .failed then system.tables else recordConflict host system.tables request
      some ({ system with tables := tables }.move id
        (.answered (.error (.alreadyExists request.name))))
  | .answered _ => none
  | .gone => none

/-- `UPDATE namespace SET status` of one id in one status. -/
def setStatus (system : NamespaceSystem) (id : NamespaceId) (old new : NamespaceStatus) :
    NamespaceSystem :=
  { system with
    tables :=
      { system.tables with
        namespaces := updated (fun entity => entity.id == id && entity.status == old)
          (fun entity => { entity with status := new }) system.tables.namespaces } }

def next (system : NamespaceSystem) : NamespaceAction → Option NamespaceSystem
  | .statement id now fate => system.perform host requests id now fate
  | .crash id => some (system.move id .gone)
  | .acceptDeletion id => some (system.setStatus id .active .deleting)
  | .completeDeletion id => some (system.setStatus id .deleting .deleted)

def DistinctNames (namespaces : List NamespaceEntity) : Prop :=
  namespaces.Pairwise fun left right =>
    left.status = .active → right.status = .active → left.name.isSome = true →
      left.name ≠ right.name

structure Initial (system : NamespaceSystem) : Prop where
  names : DistinctNames system.tables.namespaces
  receipts : system.tables.receipts = .empty
  phase : ∀ id, system.phase id = .lookingUp
  created : system.created = []

end NamespaceSystem

def namespaceMachine (host : NamespaceHost) (requests : Nat → CreateNamespaceRequest) :
    Machine NamespaceSystem NamespaceAction where
  initial := NamespaceSystem.Initial
  next := NamespaceSystem.next host requests

end Storix
