import Storix.Foundation.Machine
import Storix.Text
import Mathlib.Logic.Function.Basic

/-! # Ownership of storage uploads

The tables that say which execution writes which storage key, the transactions on them,
and the calls that use them: a protected PUT, and the cleanup that aborts a multipart
upload under a claim. An execution may die between any two of its steps. -/

namespace Storix

open Foundation

/-! ## Tables -/

inductive PutState
  | active
  | settled
  deriving DecidableEq, Repr

structure StoragePutAttempt where
  attemptId : Nat
  executionId : Nat
  storageKey : JsString
  state : PutState
  deriving DecidableEq

structure StoragePutExecution where
  stoppedConfirmedAt : Option Nat
  stoppedConfirmationEvidence : Option JsString
  deriving DecidableEq

structure StoragePutKey where
  gcClaimId : Option Nat
  gcExecutionId : Option Nat
  deriving DecidableEq

/-- `storage_put_execution` and `storage_put_key` by their keys, and the rows of
`storage_put_attempt`. -/
structure PutOwnership where
  executions : Nat → Option StoragePutExecution
  keys : JsString → Option StoragePutKey
  attempts : List StoragePutAttempt

namespace PutOwnership

def confirmed (tables : PutOwnership) (executionId : Nat) : Bool :=
  (tables.executions executionId).any fun row => row.stoppedConfirmedAt.isSome

def registerExecution (tables : PutOwnership) (executionId : Nat) : PutOwnership :=
  { tables with
    executions := Function.update tables.executions executionId
      (some ((tables.executions executionId).getD ⟨none, none⟩)) }

def ensureKey (tables : PutOwnership) (key : JsString) : PutOwnership :=
  { tables with
    keys := Function.update tables.keys key (some ((tables.keys key).getD ⟨none, none⟩)) }

/-- Register an attempt; `none` where the key is being reclaimed. -/
def beginPut (tables : PutOwnership) (key : JsString) (executionId attemptId : Nat) :
    Option PutOwnership :=
  let ensured := tables.ensureKey key
  match ensured.keys key with
  | none => none
  | some row =>
      if row.gcClaimId ≠ none then none
      else
        some { ensured with
          attempts := ensured.attempts ++ [⟨attemptId, executionId, key, .active⟩] }

def settlePut (tables : PutOwnership) (attemptId : Nat) : PutOwnership :=
  { tables with
    attempts := tables.attempts.map fun attempt =>
      if attempt.attemptId = attemptId then { attempt with state := .settled } else attempt }

/-- Record the evidence that an execution has stopped. Only a first record counts. -/
def confirmExecutionStopped (tables : PutOwnership) (executionId now : Nat) (evidence : JsString) :
    Option PutOwnership :=
  if evidence = [] then none
  else
    some { tables with
      executions := Function.update tables.executions executionId
        ((tables.executions executionId).map fun row =>
          if row.stoppedConfirmationEvidence = none then
            ⟨some (row.stoppedConfirmedAt.getD now), some evidence⟩
          else row) }

inductive GcClaimResult
  | unknown
  | protect
  | claimed
  deriving DecidableEq, Repr

def claimProtects (tables : PutOwnership) (row : StoragePutKey) : Bool :=
  row.gcClaimId.isSome && !(row.gcExecutionId.any fun executionId => tables.confirmed executionId)

def claimForGc (tables : PutOwnership) (key : JsString) (claimId executionId : Nat) :
    GcClaimResult × PutOwnership :=
  match tables.keys key with
  | none => (.unknown, tables)
  | some row =>
      if tables.claimProtects row then (.protect, tables)
      else
        let owners := tables.attempts.filter fun attempt => attempt.storageKey = key
        if owners.length = 0 then (.unknown, tables)
        else if owners.any fun owner =>
            owner.state ≠ .settled && !tables.confirmed owner.executionId then
          (.protect, tables)
        else
          (.claimed,
            { tables with
              keys := Function.update tables.keys key
                (some ⟨some claimId, some executionId⟩) })

def releaseGcClaim (tables : PutOwnership) (key : JsString) (claimId : Nat) : PutOwnership :=
  { tables with
    keys := Function.update tables.keys key
      ((tables.keys key).map fun row =>
        if row.gcClaimId = some claimId then ⟨none, none⟩ else row) }

end PutOwnership

/-! ## Calls -/

/-- A call of `PutProtectedBlobStorage.put`, or of `OwnedMultipartCleanup.abort`. Its
number stands for the random id that it draws. -/
structure OwnershipCall where
  key : JsString
  executionId : Nat

inductive PutPhase
  | beginning
  | putting
  | settling
  | ended
  deriving DecidableEq, Repr

inductive AbortPhase
  | claiming
  | aborting
  | releasing
  | ended
  deriving DecidableEq, Repr

structure OwnershipSystem where
  tables : PutOwnership
  puts : Nat → PutPhase
  aborts : Nat → AbortPhase

inductive OwnershipAction
  | register (executionId : Nat)
  | confirm (executionId now : Nat) (evidence : JsString)
  | beginPut (call : Nat) (fate : Fate)
  /-- The promise of the storage PUT settles. -/
  | putSettles (call : Nat)
  | settlePut (call : Nat) (fate : Fate)
  | claim (call : Nat) (fate : Fate)
  /-- The abort of the multipart upload settles. -/
  | abortSettles (call : Nat)
  | release (call : Nat) (fate : Fate)
  deriving DecidableEq

namespace OwnershipSystem

def movePut (system : OwnershipSystem) (call : Nat) (phase : PutPhase) : OwnershipSystem :=
  { system with puts := Function.update system.puts call phase }

def moveAbort (system : OwnershipSystem) (call : Nat) (phase : AbortPhase) : OwnershipSystem :=
  { system with aborts := Function.update system.aborts call phase }

variable (puts aborts : Nat → OwnershipCall)

/-- `beginPut`, and then the storage PUT unless it threw. -/
def beginPut (system : OwnershipSystem) (call : Nat) (fate : Fate) : OwnershipSystem :=
  match system.tables.beginPut (puts call).key (puts call).executionId call with
  | none => system.movePut call .ended
  | some tables =>
      match fate with
      | .done => { system with tables := tables }.movePut call .putting
      | .lost => { system with tables := tables }.movePut call .ended
      | .failed => system.movePut call .ended

/-- One turn of `settleUntilRecorded`. -/
def settlePut (system : OwnershipSystem) (call : Nat) (fate : Fate) : OwnershipSystem :=
  match fate with
  | .done => { system with tables := system.tables.settlePut call }.movePut call .ended
  | .lost => { system with tables := system.tables.settlePut call }
  | .failed => system

def claim (system : OwnershipSystem) (call : Nat) (fate : Fate) : OwnershipSystem :=
  match system.tables.claimForGc (aborts call).key call (aborts call).executionId with
  | (.claimed, tables) =>
      match fate with
      | .done => { system with tables := tables }.moveAbort call .aborting
      | .lost => { system with tables := tables }.moveAbort call .ended
      | .failed => system.moveAbort call .ended
  | (_, _) => system.moveAbort call .ended

def release (system : OwnershipSystem) (call : Nat) (fate : Fate) : OwnershipSystem :=
  match fate with
  | .failed => system.moveAbort call .ended
  | _ =>
      { system with tables := system.tables.releaseGcClaim (aborts call).key call }.moveAbort call
        .ended

/-- A step of a call. A confirmed execution takes no further step. -/
def next (system : OwnershipSystem) : OwnershipAction → Option OwnershipSystem
  | .register executionId =>
      some { system with tables := system.tables.registerExecution executionId }
  | .confirm executionId now evidence =>
      (system.tables.confirmExecutionStopped executionId now evidence).map fun tables =>
        { system with tables := tables }
  | .beginPut call fate =>
      if system.puts call = .beginning ∧
          system.tables.confirmed (puts call).executionId = false then
        some (system.beginPut puts call fate)
      else none
  | .putSettles call =>
      if system.puts call = .putting ∧ system.tables.confirmed (puts call).executionId = false then
        some (system.movePut call .settling)
      else none
  | .settlePut call fate =>
      if system.puts call = .settling ∧ system.tables.confirmed (puts call).executionId = false then
        some (system.settlePut call fate)
      else none
  | .claim call fate =>
      if system.aborts call = .claiming ∧
          system.tables.confirmed (aborts call).executionId = false then
        some (system.claim aborts call fate)
      else none
  | .abortSettles call =>
      if system.aborts call = .aborting ∧
          system.tables.confirmed (aborts call).executionId = false then
        some (system.moveAbort call .releasing)
      else none
  | .release call fate =>
      if system.aborts call = .releasing ∧
          system.tables.confirmed (aborts call).executionId = false then
        some (system.release aborts call fate)
      else none

structure Initial (system : OwnershipSystem) : Prop where
  executions : ∀ executionId, system.tables.executions executionId = none
  keys : ∀ key, system.tables.keys key = none
  attempts : system.tables.attempts = []
  puts : ∀ call, system.puts call = .beginning
  aborts : ∀ call, system.aborts call = .claiming

end OwnershipSystem

def ownershipMachine (puts aborts : Nat → OwnershipCall) :
    Machine OwnershipSystem OwnershipAction where
  initial := OwnershipSystem.Initial
  next := OwnershipSystem.next puts aborts

end Storix
