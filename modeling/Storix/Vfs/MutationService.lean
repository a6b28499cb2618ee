import Storix.Foundation.Machine
import Storix.Persistence.MutationReceipts
import Storix.Persistence.Run

/-! # Requests with a mutation key

Any number of requests with one key, each a sequence of statements: the claim of the
receipt, the mutation that completes it in the same transaction, the error receipt after
a rollback, and the release. Between two statements anything may happen: other requests
run, the lease runs out, the process dies, an acknowledgement is lost. -/

namespace Storix

open Foundation

/-- The HTTP status of a domain error. An internal fault is no domain error. -/
def VfsError.status : VfsError → Option Nat
  | .invalidPath _ => some 400
  | .invalidRevision => some 400
  | .invalidCursor => some 400
  | .namespaceNotFound => some 404
  | .nodeNotFound _ => some 404
  | .notDirectory _ => some 409
  | .isDirectory _ => some 409
  | .alreadyExists _ => some 409
  | .invalidOperation _ => some 409
  | .directoryNotEmpty _ => some 409
  | .versionConflict _ => some 409
  | .preconditionFailed _ _ => some 412
  | .revisionExhausted => some 409
  | .quotaExceeded _ _ => some 413
  | .folderFileLimitExceeded _ _ => some 413
  | .namespaceNodeLimitExceeded _ _ => some 413
  | .moveLimitExceeded _ => some 413
  | .copyLimitExceeded _ => some 413
  | .deleteLimitExceeded _ => some 413
  | .trashLimitExceeded _ => some 413
  | .trashItemNotFound _ => some 404
  | .trashItemExpired _ => some 410
  | .snapshotNotFound _ => some 404
  | .snapshotLimitExceeded => some 413
  | .extractInvalidEntry _ _ _ => some 400
  | .extractTypeConflict _ _ _ => some 409
  | .internal _ => none

def replayableStatus (error : VfsError) : Option Nat :=
  if error = .namespaceNotFound then none
  else error.status.filter fun status => 400 ≤ status ∧ status ≤ 499 ∧ status ≠ 401

structure ReceiptSettings where
  /-- `mutationLeaseSeconds`, in milliseconds. -/
  leaseMs : Nat
  /-- The JSON text of a body with a code, a message and the request's id. -/
  receiptBody : String → String → JsString → JsString
  /-- The JSON text of the body of a domain error. -/
  errorBody : VfsError → JsString → JsString

def requestIdHeader (requestId : JsString) : List (String × JsString) :=
  [("x-request-id", requestId)]

def errorResponse (settings : ReceiptSettings) (error : VfsError) (status : Nat)
    (requestId : JsString) : ReceiptResponse where
  status := status
  body := settings.errorBody error requestId
  headers := requestIdHeader requestId

def busyResponse (settings : ReceiptSettings) (retryAfterSeconds : Nat) (requestId : JsString) :
    ReceiptResponse where
  status := 409
  body := settings.receiptBody "MUTATION_IN_PROGRESS" "mutation 처리 중" requestId
  headers := ("retry-after", decimal retryAfterSeconds) :: requestIdHeader requestId

def replayReceipt (settings : ReceiptSettings) (receipt : VfsMutationReceipt)
    (method fingerprint requestId : JsString) : ReceiptResponse :=
  if receipt.method ≠ some method ∨ receipt.fingerprint ≠ some fingerprint then
    { status := 409
      body := settings.receiptBody "MUTATION_KEY_REUSED" "다른 요청에 사용한 mutation key" requestId
      headers := requestIdHeader requestId }
  else
    { status := receipt.responseStatus.getD 0
      body := receipt.responseBody.getD []
      headers := receipt.responseHeaders.getD [] }

/-- One request. `now` is what its own clock says, and `respond` makes the answer of a
mutation that is applied. -/
structure ReceiptRequest (host : Host) where
  method : JsString
  fingerprint : JsString
  requestId : JsString
  requestBodyBytes : Option Nat
  now : Nat
  parseError : Option VfsError
  mutation : Mutation host
  respond : List AffectedRevision → ReceiptResponse
  succeeds : ∀ revisions, (respond revisions).status < 400

inductive ReceiptPhase
  | inserting (attempt : Nat)
  | takingOver (attempt : Nat)
  | rereading (attempt : Nat)
  | reading (attempt : Nat)
  | discarding (attempt : Nat)
  | owner (generation : Nat)
  /-- The work failed. No error stands for one that is no domain error. -/
  | failed (generation : Nat) (error : Option VfsError)
  | releasing (generation : Nat)
  | answered (response : ReceiptResponse)
  | threw
  deriving DecidableEq

namespace ReceiptPhase

/-- The generation that `claim` returned, while the request is not finished. -/
def held : ReceiptPhase → Option Nat
  | owner generation => some generation
  | failed generation _ => some generation
  | releasing generation => some generation
  | _ => none

def isRereading : ReceiptPhase → Bool
  | rereading _ => true
  | _ => false

def interrupted : ReceiptPhase → ReceiptPhase
  | owner generation => failed generation none
  | failed generation _ => releasing generation
  | answered response => answered response
  | _ => threw

end ReceiptPhase

/-- A receipt that became complete, by the commit of a mutation or for an error. -/
structure Completion where
  request : Nat
  applied : Bool
  method : JsString
  fingerprint : JsString
  response : ReceiptResponse
  deriving DecidableEq

structure Performed where
  db : Database
  row : ReceiptRow
  phase : ReceiptPhase
  /-- The receipt became complete with this response, by a commit of the mutation or not. -/
  completed : Option (Bool × ReceiptResponse)
  /-- The row got a new generation. -/
  claimed : Bool

section Statements

variable {host : Host} (settings : ReceiptSettings) (request : ReceiptRequest host)
  (clock : Nat) (db : Database) (row : ReceiptRow)

def onlyRow (next : ReceiptRow) (phase : ReceiptPhase) : Performed := ⟨db, next, phase, none, false⟩

def claimStatement (attempt : Nat) : Performed :=
  if MAX_CLAIM_ATTEMPTS ≤ attempt then
    onlyRow db row (.answered (busyResponse settings 1 request.requestId))
  else
    match row.insertClaim settings.leaseMs clock request.now with
    | (next, true) => ⟨db, next, .owner 1, none, true⟩
    | (next, false) => onlyRow db next (.takingOver attempt)

def takeOverStatement (attempt : Nat) : Performed :=
  match row.takeOver settings.leaseMs clock with
  | (next, true) => ⟨db, next, .rereading attempt, none, true⟩
  | (next, false) => onlyRow db next (.reading attempt)

def rereadStatement (attempt : Nat) : Performed :=
  match row with
  | some receipt => onlyRow db row (.owner receipt.generation)
  | none => onlyRow db row (.inserting (attempt + 1))

def retryAfterSeconds (receipt : VfsMutationReceipt) (now : Nat) : Nat :=
  max 1 ((receipt.leaseExpiresAt.getD now - now + 999) / 1000)

def readStatement (attempt : Nat) : Performed :=
  match row with
  | none => onlyRow db row (.inserting (attempt + 1))
  | some receipt =>
      if receipt.state = .complete then
        if receipt.expiresAt ≤ request.now then onlyRow db row (.discarding attempt)
        else
          onlyRow db row (.answered
            (replayReceipt settings receipt request.method request.fingerprint request.requestId))
      else
        onlyRow db row (.answered
          (busyResponse settings (retryAfterSeconds receipt request.now) request.requestId))

def completes (generation : Nat) (revisions : List AffectedRevision) : Except VfsError Unit :=
  if (row.completeWith clock generation request.fingerprint request.method
      (request.respond revisions) request.requestBodyBytes).2 then .ok ()
  else .error (.internal .claimLost)

def applyStatement (generation : Nat) : Performed :=
  match request.parseError with
  | some error => onlyRow db row (.failed generation (some error))
  | none =>
      match request.mutation.run clock
        (fun _ _ revisions => completes request clock row generation revisions) db with
      | .error error => onlyRow db row (.failed generation (some error))
      | .ok committed =>
          let response := request.respond committed.affectedRevisions
          { db := committed.db
            row := (row.completeWith clock generation request.fingerprint request.method response
              request.requestBodyBytes).1
            phase := .answered response
            completed := some (true, response)
            claimed := false }

/-- `storeErrorReceipt`: an error that is replayed completes the receipt. -/
def storeErrorStatement (generation : Nat) (error : Option VfsError) : Performed :=
  match error.bind fun error => (replayableStatus error).map fun status =>
    errorResponse settings error status request.requestId with
  | none => onlyRow db row (.releasing generation)
  | some response =>
      match row.completeWith clock generation request.fingerprint request.method response
        request.requestBodyBytes with
      | (next, true) => ⟨db, next, .answered response, some (false, response), false⟩
      | (next, false) => onlyRow db next (.releasing generation)

def perform : ReceiptPhase → Option Performed
  | .inserting attempt => some (claimStatement settings request clock db row attempt)
  | .takingOver attempt => some (takeOverStatement settings clock db row attempt)
  | .rereading attempt => some (rereadStatement db row attempt)
  | .reading attempt => some (readStatement settings request db row attempt)
  | .discarding attempt =>
      some (onlyRow db (row.deleteExpired request.now) (.inserting (attempt + 1)))
  | .owner generation => some (applyStatement request clock db row generation)
  | .failed generation error =>
      some (storeErrorStatement settings request clock db row generation error)
  | .releasing generation => some (onlyRow db (row.release generation) .threw)
  | .answered _ => none
  | .threw => none

end Statements

inductive ReceiptAction (host : Host)
  | tick (elapsed : Nat)
  | statement (request : Nat) (fate : Fate)
  | renew (request : Nat) (fate : Fate)
  | crash (request : Nat)
  | prune (now : Nat)
  /-- A transaction without this key. -/
  | other (mutation : Mutation host)

/-- The database, the row of the key and its requests. The last three fields are what an
observer has seen: all receipts that became complete, those since a complete one was last
deleted, and the owners since whose claim another request has claimed the key. -/
structure ReceiptSystem where
  db : Database
  row : ReceiptRow
  clock : Nat
  phase : Nat → ReceiptPhase
  history : List Completion
  epoch : List Completion
  superseded : Nat → Bool

namespace ReceiptSystem

variable {host : Host} (settings : ReceiptSettings) (requests : Nat → ReceiptRequest host)

def move (system : ReceiptSystem) (request : Nat) (phase : ReceiptPhase) : ReceiptSystem :=
  { system with phase := Function.update system.phase request phase }

def remains (old new : ReceiptRow) (epoch : List Completion) : List Completion :=
  if old.any VfsMutationReceipt.isComplete && new.isNone then [] else epoch

def after (system : ReceiptSystem) (id : Nat) (performed : Performed) (phase : ReceiptPhase) :
    ReceiptSystem :=
  let completions := (performed.completed.map fun completed =>
    (⟨id, completed.1, (requests id).method, (requests id).fingerprint, completed.2⟩ :
      Completion)).toList
  { db := performed.db
    row := performed.row
    clock := system.clock
    phase := Function.update system.phase id phase
    history := completions ++ system.history
    epoch := remains system.row performed.row (completions ++ system.epoch)
    superseded := fun other =>
      (system.phase other).held.isSome &&
        (system.superseded other || performed.claimed && other != id) }

def renewed (system : ReceiptSystem) (id generation : Nat) : Fate → ReceiptSystem
  | .done =>
      match system.row.renew settings.leaseMs system.clock generation with
      | (next, true) => { system with row := next }
      | (next, false) =>
          { system with row := next }.move id (.failed generation (some (.internal .claimLost)))
  | .lost =>
      { system with row := (system.row.renew settings.leaseMs system.clock generation).1 }.move id
        (.failed generation (some (.internal .claimLost)))
  | .failed => system.move id (.failed generation (some (.internal .claimLost)))

def next (system : ReceiptSystem) : ReceiptAction host → Option ReceiptSystem
  | .tick elapsed => some { system with clock := system.clock + elapsed }
  | .statement id fate =>
      match perform settings (requests id) system.clock system.db system.row (system.phase id) with
      | none => none
      | some performed =>
          match fate with
          | .done => some (system.after requests id performed performed.phase)
          | .lost => some (system.after requests id performed (system.phase id).interrupted)
          | .failed => some (system.move id (system.phase id).interrupted)
  | .renew id fate =>
      match system.phase id with
      | .owner generation => some (system.renewed settings id generation fate)
      | _ => none
  | .crash id => some (system.move id .threw)
  | .prune now =>
      let row := system.row.pruneExpired system.clock now
      some { system with row := row, epoch := remains system.row row system.epoch }
  | .other mutation =>
      match mutation.run system.clock (fun _ _ _ => .ok ()) system.db with
      | .error _ => none
      | .ok committed => some { system with db := committed.db }

structure Initial (system : ReceiptSystem) : Prop where
  row : system.row = none
  phase : ∀ id, system.phase id = .inserting 0
  history : system.history = []
  epoch : system.epoch = []
  superseded : ∀ id, system.superseded id = false

end ReceiptSystem

def receiptMachine {host : Host} (settings : ReceiptSettings)
    (requests : Nat → ReceiptRequest host) : Machine ReceiptSystem (ReceiptAction host) where
  initial := ReceiptSystem.Initial
  next := ReceiptSystem.next settings requests

end Storix
