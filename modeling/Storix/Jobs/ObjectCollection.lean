import Storix.Persistence.Run
import Storix.Foundation.Machine

/-! # Collecting storage objects

A request writes its objects and then commits the blob rows that name them. Objects
without a row and rows without a reference are collected by jobs that hold no lock
between what they read and what they delete. -/

namespace Storix

open Foundation

/-- The namespaces of one installation. Their ids are drawn apart. -/
structure Deployment where
  hostOf : Nat → Host
  drawnApart : ∀ left right leftDraw rightDraw,
    (hostOf left).randomUUID leftDraw = (hostOf right).randomUUID rightDraw → left = right
  gracePeriod : Nat

/-! ## Requests -/

/-- What a request fails with: a `DomainError` and its status, or another error. -/
inductive RequestError
  | domain (status : Nat)
  | other
  deriving DecidableEq

/-- The decision of `deleteUnreferencedUpload`. -/
def deletesUpload (referenced : Bool) : RequestError → Bool
  | .domain status => !referenced && decide (status < 500)
  | .other => false

/-- The errors under which a COMMIT may still take effect. Its own failures are
classified as 5xx or are no domain errors; every other error follows a ROLLBACK. -/
def RequestError.leavesCommitOpen : RequestError → Bool
  | .domain status => decide (500 ≤ status)
  | .other => true

inductive UploadPhase
  | working
  /-- The COMMIT was sent and its answer is lost. -/
  | uncertain
  /-- The transaction took effect, or never will. -/
  | settled
  deriving DecidableEq, Repr

structure UploadRequest where
  keys : List JsString
  phase : UploadPhase
  /-- The keys it decided to delete. -/
  condemned : List JsString

/-- The empty object that `touch` deletes itself, when the file was there after all. -/
def Mutation.replacedUpload {host : Host} (mutation : Mutation host) (now : Nat) (db : Database) :
    List JsString :=
  match mutation, db.findRoot with
  | .touch path parents (some blob), some root =>
      match touchFile host path.segments parents (some blob) (.start db root.id now) with
      | .ok (outcome, _) => if outcome.kind = .replaced then [blob.storageKey] else []
      | .error _ => []
  | _, _ => []

/-! ## Jobs -/

/-- A run of `collectOrphanObjectsUnder`. -/
structure ObjectRun where
  now : Nat
  candidates : List JsString
  condemned : List JsString

/-- A run of `collectOrphanBlobs`. -/
structure BlobRun where
  now : Nat
  orphans : List (Uuid × JsString)
  deletedIds : List Uuid

/-! ## The system -/

structure StoredObject where
  lastModified : Nat
  deleted : Bool
  deriving DecidableEq

structure ContentSystem where
  clock : Nat
  namespaces : List Nat
  tables : Nat → Database
  objects : JsString → Option StoredObject
  requests : Nat → UploadRequest
  objectRuns : Nat → ObjectRun
  blobRuns : Nat → BlobRun

inductive ContentAction (deployment : Deployment)
  | tick (elapsed : Nat)
  | createNamespace (id : Nat) (settings : NamespaceSettings)
  | putObject (request : Nat) (key : JsString)
  | commit (request id : Nat) (mutation : Mutation (deployment.hostOf id))
      (afterBump : MutationTx → Unit → List AffectedRevision → Except VfsError Unit)
  | rollback (request : Nat)
  | loseCommit (request : Nat)
  | checkUpload (request : Nat) (key : JsString) (readable : Bool) (error : RequestError)
  | deleteUpload (request : Nat) (key : JsString)
  | checkpoint (id : Nat)
  | prune (id cutoff batchSize : Nat)
  | startObjectRun (run : Nat)
  | listPage (run : Nat) (page : List JsString)
  | findKnown (run : Nat)
  | deleteKey (run : Nat) (key : JsString)
  | startBlobRun (run : Nat)
  | findOrphanBlobsPage (run : Nat) (page : List (Nat × Blob))
  | deleteOrphan (run : Nat) (id : Uuid) (key : JsString) (acknowledged : Bool)
  | deleteBlobRows (run : Nat) (ids : List Uuid)

namespace ContentSystem

def present (system : ContentSystem) (key : JsString) : Bool :=
  (system.objects key).any fun object => !object.deleted

def expired (deployment : Deployment) (system : ContentSystem) (key : JsString) : Bool :=
  (system.objects key).any fun object =>
    decide (object.lastModified + deployment.gracePeriod < system.clock)

/-- A key of `findKnownStorageKeys`: a row of any namespace names it. -/
def known (system : ContentSystem) (key : JsString) : Bool :=
  system.namespaces.any fun id => (system.tables id).blobs.any fun blob => blob.storageKey == key

def deleteObject (system : ContentSystem) (key : JsString) : ContentSystem :=
  { system with
    objects := Function.update system.objects key
      ((system.objects key).map fun object => { object with deleted := true }) }

def setRequest (system : ContentSystem) (request : Nat) (value : UploadRequest) : ContentSystem :=
  { system with requests := Function.update system.requests request value }

def putObject (system : ContentSystem) (request : Nat) (key : JsString) : ContentSystem :=
  { system with
    objects := Function.update system.objects key (some ⟨system.clock, false⟩)
    requests := Function.update system.requests request
      { system.requests request with keys := (system.requests request).keys ++ [key] } }

def setObjectRun (system : ContentSystem) (run : Nat) (value : ObjectRun) : ContentSystem :=
  { system with objectRuns := Function.update system.objectRuns run value }

def setBlobRun (system : ContentSystem) (run : Nat) (value : BlobRun) : ContentSystem :=
  { system with blobRuns := Function.update system.blobRuns run value }

def setTables (system : ContentSystem) (id : Nat) (db : Database) : ContentSystem :=
  { system with tables := Function.update system.tables id db }

variable {deployment : Deployment}

/-- The transaction of a request commits, while it waits for it or after it lost the
answer. `UQ_blob_storage_key` holds, and the objects are within their grace period. -/
def commit (system : ContentSystem) (request id : Nat) (mutation : Mutation (deployment.hostOf id))
    (afterBump : MutationTx → Unit → List AffectedRevision → Except VfsError Unit) :
    Option ContentSystem :=
  let upload := system.requests request
  if id ∈ system.namespaces ∧ upload.phase ≠ .settled ∧
      ∀ key ∈ mutation.uploads, key ∈ upload.keys ∧ system.expired deployment key = false then
    match mutation.run system.clock afterBump (system.tables id) with
    | .error _ => none
    | .ok committed =>
        if (committed.db.blobs.map fun blob => blob.storageKey).Nodup then
          let replaced :=
            if upload.phase = .working then
              mutation.replacedUpload system.clock (system.tables id)
            else []
          some ((system.setTables id committed.db).setRequest request
            { upload with phase := .settled, condemned := upload.condemned ++ replaced })
        else none
  else none

/-- A row of a page of `findOrphanBlobsPage`. -/
def isOrphan (system : ContentSystem) (cutoff : Int) (row : Nat × Blob) : Bool :=
  system.namespaces.contains row.1 && (system.tables row.1).blobs.contains row.2 &&
    row.2.referenceCount == 0 && row.2.zeroSince.any fun since => decide ((since : Int) < cutoff)

def next (system : ContentSystem) : ContentAction deployment → Option ContentSystem
  | .tick elapsed => some { system with clock := system.clock + elapsed }
  | .createNamespace id settings =>
      if id ∈ system.namespaces then none
      else
        some ({ system with namespaces := id :: system.namespaces }.setTables id
          (createWithRoot (deployment.hostOf id) system.clock settings))
  | .putObject request key =>
      if (system.requests request).phase = .working ∧ system.objects key = none then
        some (system.putObject request key)
      else none
  | .commit request id mutation afterBump => system.commit request id mutation afterBump
  | .rollback request =>
      some (system.setRequest request { system.requests request with phase := .settled })
  | .loseCommit request =>
      let upload := system.requests request
      if upload.phase = .working then
        some (system.setRequest request { upload with phase := .uncertain })
      else none
  | .checkUpload request key readable error =>
      let upload := system.requests request
      let certain := upload.phase = .settled ∨
        upload.phase = .uncertain ∧ error.leavesCommitOpen = true
      if certain ∧ key ∈ upload.keys then
        let referenced := !readable || system.known key
        if deletesUpload referenced error then
          some (system.setRequest request { upload with condemned := key :: upload.condemned })
        else some system
      else none
  | .deleteUpload request key =>
      if key ∈ (system.requests request).condemned then some (system.deleteObject key) else none
  | .checkpoint id =>
      if id ∈ system.namespaces then
        match createChangeFeedCheckpoint (system.tables id) with
        | .ok (_, db) => some (system.setTables id db)
        | .error _ => none
      else none
  | .prune id cutoff batchSize =>
      if id ∈ system.namespaces then
        (pruneNamespacePrefix (system.tables id) cutoff batchSize).map (system.setTables id)
      else none
  | .startObjectRun run => some (system.setObjectRun run ⟨system.clock, [], []⟩)
  | .listPage run page =>
      let job := system.objectRuns run
      let old := fun key => (system.objects key).any fun object =>
        !object.deleted &&
          decide ((object.lastModified : Int) < job.now - deployment.gracePeriod)
      some (system.setObjectRun run { job with candidates := page.filter old })
  | .findKnown run =>
      let job := system.objectRuns run
      let unknown := job.candidates.filter fun key => !system.known key
      some (system.setObjectRun run { job with condemned := unknown ++ job.condemned })
  | .deleteKey run key =>
      if key ∈ (system.objectRuns run).condemned then some (system.deleteObject key) else none
  | .startBlobRun run => some (system.setBlobRun run ⟨system.clock, [], []⟩)
  | .findOrphanBlobsPage run page =>
      let job := system.blobRuns run
      if page.all (system.isOrphan (job.now - deployment.gracePeriod)) then
        some (system.setBlobRun run
          { job with
            orphans := page.map (fun row => (row.2.id, row.2.storageKey)) ++ job.orphans })
      else none
  | .deleteOrphan run id key acknowledged =>
      let job := system.blobRuns run
      if (id, key) ∈ job.orphans then
        let deletedIds := if acknowledged then id :: job.deletedIds else job.deletedIds
        some ((system.deleteObject key).setBlobRun run { job with deletedIds := deletedIds })
      else none
  | .deleteBlobRows run ids =>
      if ∀ id ∈ ids, id ∈ (system.blobRuns run).deletedIds then
        some { system with tables := fun id => Storix.deleteBlobRows (system.tables id) ids }
      else none

structure Initial (system : ContentSystem) : Prop where
  namespaces : system.namespaces = []
  objects : ∀ key, system.objects key = none
  requests : ∀ request, system.requests request = ⟨[], .working, []⟩
  objectRuns : ∀ run, system.objectRuns run = ⟨0, [], []⟩
  blobRuns : ∀ run, system.blobRuns run = ⟨0, [], []⟩

end ContentSystem

def contentMachine (deployment : Deployment) :
    Machine ContentSystem (ContentAction deployment) where
  initial := ContentSystem.Initial
  next := ContentSystem.next

end Storix
