import Storix.Persistence.UploadSessions
import Storix.Foundation.Machine

/-! # Concurrent transactions on the upload tables

Transactions that take the usage lock run one after another, each in two steps: it locks
and reads, and it writes and commits. The statements of the others may fall in between. -/

namespace Storix

open Foundation

/-- A run of `pruneTerminalSessions` on one session. -/
inductive PrunePhase
  | idle
  | selected (sessionId before : Nat)
  | counted (sessionId before : Nat)
  deriving DecidableEq, Repr

structure UploadSystem where
  tables : UploadTables
  /-- What the transaction that holds the usage lock will write. -/
  holder : Option UploadWrite
  prunes : Nat → PrunePhase

inductive UploadAction
  | lock (operation : UploadOperation)
  | commit
  | rollback
  /-- A namespace deletion is accepted, under the lock. -/
  | deactivate (namespaceId : Nat)
  | renewPartLease (sessionId partIndex : Nat) (stagingKey : JsString) (leaseSeconds now : Nat)
  | renewFinalize (namespaceId sessionId token leaseDurationMs now : Nat)
  | releaseFinalize (namespaceId sessionId token : Nat) (code : JsString) (failedAt : Nat)
  | recoverStaleFinalizingLeases (ids : List Nat) (now : Nat)
  | pruneSelect (run sessionId before : Nat)
  | pruneCount (run : Nat)
  | pruneDelete (run : Nat)
  deriving DecidableEq

namespace UploadSystem

def setPrune (system : UploadSystem) (run : Nat) (phase : PrunePhase) : UploadSystem :=
  { system with prunes := Function.update system.prunes run phase }

def next (system : UploadSystem) : UploadAction → Option UploadSystem
  | .lock operation =>
      if system.holder.isSome then none
      else some { system with holder := operation.decide system.tables }
  | .commit =>
      system.holder.map fun planned =>
        match system.tables.write planned with
        | none => { system with holder := none }
        | some (tables, _) => { system with tables := tables, holder := none }
  | .rollback => some { system with holder := none }
  | .deactivate namespaceId =>
      if system.holder.isSome then none
      else
        some { system with
          tables := { system.tables.ensureUsage namespaceId with
            active := Function.update system.tables.active namespaceId false } }
  | .renewPartLease sessionId partIndex stagingKey leaseSeconds now =>
      some { system with
        tables := system.tables.renewPartLease sessionId partIndex stagingKey leaseSeconds now }
  | .renewFinalize namespaceId sessionId token leaseDurationMs now =>
      some { system with
        tables := system.tables.renewFinalize namespaceId sessionId token leaseDurationMs now }
  | .releaseFinalize namespaceId sessionId token code failedAt =>
      some { system with
        tables := system.tables.releaseFinalize namespaceId sessionId token code failedAt }
  | .recoverStaleFinalizingLeases ids now =>
      some { system with tables := system.tables.recoverStaleFinalizingLeases ids now }
  | .pruneSelect run sessionId before =>
      if system.tables.isPrunable sessionId before then
        some (system.setPrune run (.selected sessionId before))
      else none
  | .pruneCount run =>
      match system.prunes run with
      | .selected sessionId before =>
          if system.tables.remainingParts sessionId = 0 then
            some (system.setPrune run (.counted sessionId before))
          else some (system.setPrune run .idle)
      | _ => none
  | .pruneDelete run =>
      match system.prunes run with
      | .counted sessionId before =>
          some ({ system with tables := system.tables.pruneSession sessionId before }.setPrune run
            .idle)
      | _ => none

structure Initial (system : UploadSystem) : Prop where
  sessions : system.tables.sessions = []
  parts : system.tables.parts = []
  cleanups : system.tables.cleanups = []
  globalUsage : system.tables.globalUsage = ⟨0, 0⟩
  usage : system.tables.usage = []
  holder : system.holder = none
  prunes : ∀ run, system.prunes run = .idle

def PrunesSettled (system : UploadSystem) : UploadAction → Prop
  | .pruneDelete run => ∀ sessionId before, system.prunes run = .counted sessionId before →
      system.tables.remainingParts sessionId = 0
  | _ => True

end UploadSystem

def uploadMachine : Machine UploadSystem UploadAction where
  initial := UploadSystem.Initial
  next := UploadSystem.next

end Storix
