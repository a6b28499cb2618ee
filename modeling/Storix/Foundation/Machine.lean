import Mathlib.Logic.Basic

/-! # Machines

A machine is a set of first states and a partial step for each action. What holds at
first and is kept by every step holds of every state that is reached, also when only
some steps are allowed. Where a step is a call to another party, its fate says what the
caller learns of it. -/

namespace Storix.Foundation

structure Machine (σ α : Type) where
  initial : σ → Prop
  next : σ → α → Option σ

namespace Machine

variable {σ α : Type} {machine : Machine σ α} {allowed : σ → α → Prop}

inductive ReachableBy (machine : Machine σ α) (allowed : σ → α → Prop) : σ → Prop
  | start {state : σ} (isInitial : machine.initial state) : ReachableBy machine allowed state
  | step {state next : σ} {action : α} (reached : ReachableBy machine allowed state)
      (isAllowed : allowed state action) (taken : machine.next state action = some next) :
      ReachableBy machine allowed next

abbrev Reachable (machine : Machine σ α) : σ → Prop := machine.ReachableBy fun _ _ => True

inductive RunsBy (machine : Machine σ α) (allowed : σ → α → Prop) (first : σ) : σ → Prop
  | refl : RunsBy machine allowed first first
  | tail {state next : σ} {action : α} (run : RunsBy machine allowed first state)
      (isAllowed : allowed state action) (taken : machine.next state action = some next) :
      RunsBy machine allowed first next

abbrev Runs (machine : Machine σ α) : σ → σ → Prop := machine.RunsBy fun _ _ => True

theorem ReachableBy.invariant (holds : σ → Prop)
    (begins : ∀ state, machine.initial state → holds state)
    (kept : ∀ state action next, allowed state action → holds state →
      machine.next state action = some next → holds next)
    {state : σ} (reached : machine.ReachableBy allowed state) : holds state := by
  induction reached with
  | start isInitial => exact begins _ isInitial
  | step _ isAllowed taken induction => exact kept _ _ _ isAllowed induction taken

theorem ReachableBy.weaken {other : σ → α → Prop} {state : σ}
    (reached : machine.ReachableBy allowed state)
    (weaker : ∀ state action, allowed state action → other state action) :
    machine.ReachableBy other state := by
  induction reached with
  | start isInitial => exact .start isInitial
  | step _ isAllowed taken induction => exact .step induction (weaker _ _ isAllowed) taken

theorem RunsBy.invariant (holds : σ → Prop)
    (kept : ∀ state action next, allowed state action → holds state →
      machine.next state action = some next → holds next)
    {first state : σ} (begins : holds first) (run : machine.RunsBy allowed first state) :
    holds state := by
  induction run with
  | refl => exact begins
  | tail _ isAllowed taken induction => exact kept _ _ _ isAllowed induction taken

def trace (machine : Machine σ α) : σ → List α → Option σ
  | state, [] => some state
  | state, action :: rest => (machine.next state action).bind fun next => machine.trace next rest

theorem reachableBy_of_trace {actions : List α} {first last : σ}
    (reached : machine.ReachableBy allowed first)
    (isAllowed : ∀ action ∈ actions, ∀ state, allowed state action)
    (taken : machine.trace first actions = some last) : machine.ReachableBy allowed last := by
  induction actions generalizing first with
  | nil => exact Option.some.inj taken ▸ reached
  | cons action rest induction =>
      rcases Option.bind_eq_some_iff.mp taken with ⟨next, isNext, isRest⟩
      exact induction (.step reached (isAllowed action List.mem_cons_self first) isNext)
        (fun later member => isAllowed later (List.mem_cons_of_mem _ member)) isRest

theorem exists_reachableBy {actions : List α} {first : σ} {test : σ → Bool}
    (reached : machine.ReachableBy allowed first)
    (isAllowed : ∀ action ∈ actions, ∀ state, allowed state action)
    (passes : (machine.trace first actions).any test = true) :
    ∃ last, machine.ReachableBy allowed last ∧ test last = true := by
  cases taken : machine.trace first actions with
  | none =>
      rw [taken] at passes
      cases passes
  | some last =>
      rw [taken] at passes
      exact ⟨last, reachableBy_of_trace reached isAllowed taken, passes⟩

theorem exists_reachable {actions : List α} {first : σ} {test : σ → Bool}
    (reached : machine.Reachable first)
    (passes : (machine.trace first actions).any test = true) :
    ∃ last, machine.Reachable last ∧ test last = true :=
  exists_reachableBy reached (fun _ _ _ => trivial) passes

def traceBy (machine : Machine σ α) (check : σ → α → Bool) : σ → List α → Option σ
  | state, [] => some state
  | state, action :: rest =>
      if check state action then
        (machine.next state action).bind fun next => machine.traceBy check next rest
      else none

theorem exists_reachableBy_of_check {check : σ → α → Bool} {actions : List α} {first : σ}
    {test : σ → Bool}
    (reached : machine.ReachableBy (fun state action => check state action = true) first)
    (passes : (machine.traceBy check first actions).any test = true) :
    ∃ last, machine.ReachableBy (fun state action => check state action = true) last ∧
      test last = true := by
  induction actions generalizing first with
  | nil => exact ⟨first, reached, passes⟩
  | cons action rest induction =>
      rw [traceBy] at passes
      split at passes
      · rename_i isAllowed
        cases taken : machine.next first action with
        | none =>
            rw [taken] at passes
            cases passes
        | some next =>
            rw [taken] at passes
            exact induction (.step reached isAllowed taken) passes
      · cases passes

end Machine

/-- How a call ends for its caller: with its result, with an exception although it took
effect, or with an exception and without effect. -/
inductive Fate
  | done
  | lost
  | failed
  deriving DecidableEq, Repr

end Storix.Foundation
