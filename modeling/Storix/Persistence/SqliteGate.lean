import Mathlib.Logic.Function.Basic
import Storix.Foundation.Machine

/-! # The query gate of SQLite

All callers share one connection. `QueryGate` hands its use from one to the next in the order
in which they asked; a runner that opens a transaction keeps it until the transaction ends. The
code between two `await`s is one step. What TypeORM does inside a call reaches the gate as
queries of the same runner, and whether the connection is in a transaction after a statement
is the environment's choice. -/

namespace Storix

open Foundation

/-! ## Calls -/

inductive GateWork
  | query
  /-- With the asynchronous scope that the call was made in. -/
  | startTransaction (scope : Option Nat)
  deriving DecidableEq, Repr

inductive GatePhase
  /-- It awaits the gate. -/
  | waiting
  /-- It has got the gate and does not know yet. -/
  | granted
  /-- Its statement was executed, and the gate is not released yet. -/
  | executed
  /-- A query of the owner that passed the gate and was not executed yet. -/
  | passing
  /-- The runner owns the gate, and its transaction is being opened. -/
  | starting
  /-- A savepoint is being opened inside the owner's transaction. -/
  | nesting
  deriving DecidableEq, Repr

structure GateCall where
  runner : Nat
  work : GateWork
  phase : GatePhase
  deriving DecidableEq, Repr

structure TransactionScope where
  runner : Option Nat
  done : Bool
  deriving DecidableEq, Repr

structure SqliteGate where
  owner : Option Nat
  locked : Bool
  waiters : List Nat
  /-- The waiters whose timers are set. -/
  timers : List Nat
  /-- The calls whose `acquire` was resolved (`true`) or rejected (`false`), in that order. -/
  settled : List (Nat × Bool)
  calls : Nat → Option GateCall
  nextCall : Nat
  nextRunner : Nat
  nextScope : Nat
  gateDepth : Nat → Nat
  /-- The `scope` field of a runner. -/
  runnerScope : Nat → Option Nat
  scopes : Nat → Option TransactionScope
  inTransaction : Bool

namespace SqliteGate

/-- The gate as `installSqliteGate` makes it. -/
def initial : SqliteGate where
  owner := none
  locked := false
  waiters := []
  timers := []
  settled := []
  calls := fun _ => none
  nextCall := 0
  nextRunner := 0
  nextScope := 0
  gateDepth := fun _ => 0
  runnerScope := fun _ => none
  scopes := fun _ => none
  inTransaction := false

def setCall (gate : SqliteGate) (call : Nat) (entry : Option GateCall) : SqliteGate :=
  { gate with calls := Function.update gate.calls call entry }

/-! ## QueryGate -/

/-- `acquire`, for a new call. -/
def acquire (gate : SqliteGate) (runner : Nat) (work : GateWork) : SqliteGate :=
  let call := gate.nextCall
  let counted := { gate with nextCall := gate.nextCall + 1 }
  if gate.locked = false then
    { counted.setCall call (some ⟨runner, work, .granted⟩) with
      locked := true
      settled := gate.settled ++ [(call, true)] }
  else
    { counted.setCall call (some ⟨runner, work, .waiting⟩) with
      waiters := gate.waiters ++ [call]
      timers := gate.timers ++ [call] }

/-- `waiters.splice(waiters.indexOf(waiter), 1)`: for a waiter that is not in the queue, the
index is -1 and the last one is removed. -/
def spliceWaiter (waiters : List Nat) (waiter : Nat) : List Nat :=
  if waiter ∈ waiters then waiters.erase waiter else waiters.dropLast

def expire (gate : SqliteGate) (call : Nat) : SqliteGate :=
  { gate.setCall call none with
    waiters := spliceWaiter gate.waiters call
    timers := gate.timers.erase call
    settled := gate.settled ++ [(call, false)] }

def release (gate : SqliteGate) : SqliteGate :=
  match gate.waiters with
  | [] => { gate with locked := false }
  | next :: rest =>
      { gate.setCall next ((gate.calls next).map fun call => { call with phase := .granted }) with
        waiters := rest
        timers := gate.timers.erase next
        settled := gate.settled ++ [(next, true)] }

/-! ## GatedQueryRunner -/

def releaseOwnership (gate : SqliteGate) (runner : Nat) : SqliteGate :=
  if gate.owner ≠ some runner then gate
  else
    let left :=
      match gate.runnerScope runner with
      | none => gate
      | some scope =>
          { gate with
            scopes := Function.update gate.scopes scope
              ((gate.scopes scope).map fun _ => ⟨none, true⟩)
            runnerScope := Function.update gate.runnerScope runner none }
    release { left with owner := none }

/-- `query` up to its first `await`; `none` is `SqliteTransactionAbortedError`. -/
def query (gate : SqliteGate) (runner : Nat) : Option SqliteGate :=
  if gate.owner = some runner then
    if 0 < gate.gateDepth runner ∧ gate.inTransaction = false then none
    else
      some { gate.setCall gate.nextCall (some ⟨runner, .query, .passing⟩) with
        nextCall := gate.nextCall + 1 }
  else some (gate.acquire runner .query)

/-- The statement of a query, after which the connection is in a transaction or not. -/
def execute (gate : SqliteGate) (call : Nat) (inTransaction : Bool) : Option SqliteGate :=
  match gate.calls call with
  | some ⟨runner, .query, .granted⟩ =>
      some { gate.setCall call (some ⟨runner, .query, .executed⟩) with inTransaction }
  | some ⟨_, .query, .passing⟩ => some { gate.setCall call none with inTransaction }
  | _ => none

/-- A query ends, after its statement or with an error before it. -/
def settle (gate : SqliteGate) (call : Nat) : Option SqliteGate :=
  match gate.calls call with
  | some ⟨_, .query, .granted⟩ => some (release (gate.setCall call none))
  | some ⟨_, .query, .executed⟩ => some (release (gate.setCall call none))
  | some ⟨_, .query, .passing⟩ => some (gate.setCall call none)
  | _ => none

/-- `startTransaction` up to its first `await`. -/
def startTransaction (gate : SqliteGate) (runner : Nat) (scope : Option Nat) : SqliteGate :=
  if gate.owner = some runner then
    { gate.setCall gate.nextCall (some ⟨runner, .startTransaction scope, .nesting⟩) with
      nextCall := gate.nextCall + 1 }
  else gate.acquire runner (.startTransaction scope)

/-- `scope && !scope.done && !scope.runner` -/
def takesScope (gate : SqliteGate) (scope : Nat) : Bool :=
  (gate.scopes scope).any fun entry => !entry.done && entry.runner.isNone

/-- `startTransaction` after it got the gate. -/
def resume (gate : SqliteGate) (call : Nat) : Option SqliteGate :=
  match gate.calls call with
  | some ⟨runner, .startTransaction scope, .granted⟩ =>
      let owned :=
        { gate.setCall call (some ⟨runner, .startTransaction scope, .starting⟩) with
          owner := some runner }
      match scope with
      | none => some owned
      | some scope =>
          if gate.takesScope scope then
            some { owned with
              scopes := Function.update gate.scopes scope (some ⟨some runner, false⟩)
              runnerScope := Function.update gate.runnerScope runner (some scope) }
          else some owned
  | _ => none

/-- The end of `super.startTransaction`, where it opened a transaction. -/
def started (gate : SqliteGate) (call : Nat) (opened : Bool) : Option SqliteGate :=
  match gate.calls call with
  | some ⟨runner, .startTransaction _, .starting⟩ =>
      let ended := gate.setCall call none
      some (if opened then { ended with gateDepth := Function.update gate.gateDepth runner 1 }
        else ended.releaseOwnership runner)
  | _ => none

/-- The end of `super.startTransaction`, where it opened a savepoint. -/
def nested (gate : SqliteGate) (call : Nat) (opened : Bool) : Option SqliteGate :=
  match gate.calls call with
  | some ⟨runner, .startTransaction _, .nesting⟩ =>
      let ended := gate.setCall call none
      some (if opened then
          { ended with
            gateDepth := Function.update gate.gateDepth runner (gate.gateDepth runner + 1) }
        else ended)
  | _ => none

/-- `leaveTransaction`, after a commit or whatever the rollback did. `closes` says whether the
`ROLLBACK` that it sends itself closes the transaction. -/
def leaveTransaction (gate : SqliteGate) (runner : Nat) (closes : Bool) : SqliteGate :=
  if gate.owner ≠ some runner then gate
  else
    let depth := gate.gateDepth runner - 1
    let left := { gate with gateDepth := Function.update gate.gateDepth runner depth }
    if 0 < depth then left
    else if gate.inTransaction = true ∧ closes = false then left
    else releaseOwnership { left with inTransaction := false } runner

/-! ## installSqliteGate -/

/-- The runner that `createQueryRunner` takes over from the scope. -/
def scopeRunner (gate : SqliteGate) (scope : Option Nat) : Option Nat :=
  (scope.bind gate.scopes).bind fun entry =>
    if entry.done = false ∧ entry.runner.isSome = true ∧ gate.owner = entry.runner then entry.runner
    else none

def createQueryRunner (gate : SqliteGate) (scope : Option Nat) : SqliteGate × Nat :=
  match gate.scopeRunner scope with
  | some runner => (gate, runner)
  | none => ({ gate with nextRunner := gate.nextRunner + 1 }, gate.nextRunner)

/-- `manager.transaction`: the scope that its callback runs in. -/
def transaction (gate : SqliteGate) (current : Option Nat) : SqliteGate × Nat :=
  match current.bind fun scope => (gate.scopes scope).map fun entry => (scope, entry.done) with
  | some (scope, false) => (gate, scope)
  | _ =>
      ({ gate with
        scopes := Function.update gate.scopes gate.nextScope (some ⟨none, false⟩)
        nextScope := gate.nextScope + 1 }, gate.nextScope)

/-! ## Steps -/

inductive Action
  | createQueryRunner (scope : Option Nat)
  | transaction (current : Option Nat)
  | query (runner : Nat)
  | execute (call : Nat) (inTransaction : Bool)
  | settle (call : Nat)
  | startTransaction (runner : Nat) (scope : Option Nat)
  | resume (call : Nat)
  | started (call : Nat) (opened : Bool)
  | nested (call : Nat) (opened : Bool)
  | leaveTransaction (runner : Nat) (closes : Bool)
  | expire (call : Nat)
  deriving DecidableEq, Repr

def next (gate : SqliteGate) : Action → Option SqliteGate
  | .createQueryRunner scope => some (gate.createQueryRunner scope).1
  | .transaction current => some (gate.transaction current).1
  | .query runner => if runner < gate.nextRunner then gate.query runner else none
  | .execute call inTransaction => gate.execute call inTransaction
  | .settle call => gate.settle call
  | .startTransaction runner scope =>
      if runner < gate.nextRunner then some (gate.startTransaction runner scope) else none
  | .resume call => gate.resume call
  | .started call opened => gate.started call opened
  | .nested call opened => gate.nested call opened
  | .leaveTransaction runner closes =>
      if runner < gate.nextRunner then some (gate.leaveTransaction runner closes) else none
  | .expire call => if call ∈ gate.timers then some (gate.expire call) else none

def machine : Machine SqliteGate Action where
  initial gate := gate = initial
  next := next

/-! ## What the callers promise -/

def quiet (gate : SqliteGate) (runner : Nat) (phases : List GatePhase) : Bool :=
  (List.range gate.nextCall).all fun call =>
    (gate.calls call).all fun entry => !(entry.runner == runner && phases.contains entry.phase)

/-- A statement outside of a transaction opens none. A transaction is opened, fails to open and
is left when the queries that belong to it have ended, and a transaction that failed to open is
none. -/
def allowed (gate : SqliteGate) : Action → Bool
  | .execute call inTransaction =>
      match gate.calls call with
      | some ⟨_, _, .granted⟩ => !inTransaction || gate.inTransaction
      | _ => true
  | .started call opened =>
      (gate.calls call).all fun entry =>
        gate.quiet entry.runner [.passing, .nesting] && (opened || !gate.inTransaction)
  | .leaveTransaction runner _ => gate.quiet runner [.passing, .nesting, .starting]
  | _ => true

def awaited (gate : SqliteGate) : Action → Bool
  | .query runner => gate.owner != some runner || gate.quiet runner [.passing]
  | .nested call _ => (gate.calls call).all fun entry => gate.quiet entry.runner [.passing]
  | _ => true

end SqliteGate

end Storix
