import Mathlib.Data.List.Basic
import Mathlib.Data.List.Forall2

/-! # Commands

A command reads and rewrites one state and may stop with an error. A stopped
command hands no state back, which is how a transaction that rolls back behaves.
The rules below are the pre- and postcondition calculus the development uses. -/

namespace Storix.Foundation

/-- A computation over a state `σ` that returns a value or stops with an error. -/
abbrev Command (σ ε α : Type) := StateT σ (Except ε) α

namespace Command

variable {σ ε α β : Type}

def state : Command σ ε σ := fun current => .ok (current, current)

def update (transform : σ → σ) : Command σ ε Unit :=
  fun current => .ok ((), transform current)

def stop (error : ε) : Command σ ε α := fun _ => .error error

def lift (result : Except ε α) : Command σ ε α := fun current =>
  match result with
  | .ok value => .ok (value, current)
  | .error error => .error error

/-- Handle an error. The handler starts from the state the command started from. -/
def rescue (command : Command σ ε α) (handler : ε → Command σ ε α) : Command σ ε α :=
  fun current =>
    match command current with
    | .ok result => .ok result
    | .error error => handler error current

/-- Run `body` on every item, left to right. -/
def forEach (body : α → Command σ ε Unit) : List α → Command σ ε Unit
  | [] => pure ()
  | item :: rest => do
      body item
      forEach body rest

/-- Run `body` on every item, left to right, and collect the results. -/
def collect (body : α → Command σ ε β) : List α → Command σ ε (List β)
  | [] => pure []
  | item :: rest => do
      let value ← body item
      let values ← collect body rest
      return value :: values

/-! ## Postconditions -/

/-- Started in `current`, the command either ends with `post` or stops with an
error that `fault` allows. -/
def Satisfies (command : Command σ ε α) (post : α → σ → Prop)
    (fault : ε → Prop) (current : σ) : Prop :=
  match command current with
  | .ok (value, next) => post value next
  | .error error => fault error

variable {post : α → σ → Prop} {fault : ε → Prop} {current : σ}

@[simp] theorem satisfies_pure (value : α) :
    Satisfies (pure value : Command σ ε α) post fault current ↔
      post value current := Iff.rfl

@[simp] theorem satisfies_bind (first : Command σ ε β) (rest : β → Command σ ε α) :
    Satisfies (first >>= rest) post fault current ↔
      Satisfies first (fun value next => Satisfies (rest value) post fault next)
        fault current := by
  change (match (StateT.bind first rest) current with
    | .ok (value, next) => post value next
    | .error error => fault error) ↔ _
  unfold StateT.bind Satisfies
  cases first current <;> rfl

@[simp] theorem satisfies_state {post : σ → σ → Prop} :
    Satisfies (state : Command σ ε σ) post fault current ↔ post current current := Iff.rfl

@[simp] theorem satisfies_update (transform : σ → σ) {post : Unit → σ → Prop} :
    Satisfies (update transform : Command σ ε Unit) post fault current ↔
      post () (transform current) := Iff.rfl

@[simp] theorem satisfies_stop (error : ε) :
    Satisfies (stop error : Command σ ε α) post fault current ↔ fault error := Iff.rfl

@[simp] theorem satisfies_lift_ok (value : α) :
    Satisfies (lift (.ok value) : Command σ ε α) post fault current ↔
      post value current := Iff.rfl

theorem satisfies_lift (result : Except ε α) :
    Satisfies (lift result : Command σ ε α) post fault current ↔
      (∀ value, result = .ok value → post value current) ∧
        ∀ error, result = .error error → fault error := by
  cases result with
  | ok value => simp
  | error error =>
      change fault error ↔ _
      simp

theorem satisfies_ite {condition : Prop} [Decidable condition] {left right : Command σ ε α} :
    Satisfies (if condition then left else right) post fault current ↔
      (condition → Satisfies left post fault current) ∧
        (¬condition → Satisfies right post fault current) := by
  by_cases holds : condition
  · simp [holds]
  · simp [holds]

theorem satisfies_true (command : Command σ ε α) :
    Satisfies command (fun _ _ => True) (fun _ => True) current := by
  unfold Satisfies
  split
  · trivial
  · trivial

theorem Satisfies.mono {command : Command σ ε α} {post' : α → σ → Prop}
    {fault' : ε → Prop} (holds : Satisfies command post fault current)
    (weaken : ∀ value next, post value next → post' value next)
    (weakenFault : ∀ error, fault error → fault' error) :
    Satisfies command post' fault' current := by
  unfold Satisfies at holds ⊢
  cases result : command current with
  | ok pair =>
      rw [result] at holds
      exact weaken _ _ holds
  | error error =>
      rw [result] at holds
      exact weakenFault _ holds

theorem Satisfies.and {command : Command σ ε α} {post' : α → σ → Prop} {fault' : ε → Prop}
    (holds : Satisfies command post fault current)
    (also : Satisfies command post' fault' current) :
    Satisfies command (fun value next => post value next ∧ post' value next)
      (fun error => fault error ∧ fault' error) current := by
  unfold Satisfies at holds also ⊢
  cases result : command current with
  | ok pair =>
      rw [result] at holds also
      exact ⟨holds, also⟩
  | error error =>
      rw [result] at holds also
      exact ⟨holds, also⟩

/-- Weaken the postcondition of a command that keeps its error set. -/
theorem Satisfies.imp {command : Command σ ε α} {post' : α → σ → Prop}
    (holds : Satisfies command post fault current)
    (weaken : ∀ value next, post value next → post' value next) :
    Satisfies command post' fault current :=
  holds.mono weaken fun _ allowed => allowed

theorem Satisfies.rescue {command : Command σ ε α} {handler : ε → Command σ ε α}
    {raised : ε → Prop} (holds : Satisfies command post raised current)
    (handled : ∀ error, raised error → Satisfies (handler error) post fault current) :
    Satisfies (rescue command handler) post fault current := by
  unfold Satisfies Command.rescue at *
  cases result : command current with
  | ok pair =>
      rw [result] at holds
      exact holds
  | error error =>
      rw [result] at holds
      exact handled error holds

theorem bind_of_ok {first : Command σ ε β} {rest : β → Command σ ε α} {value : β} {next : σ}
    (result : first current = .ok (value, next)) :
    (first >>= rest) current = rest value next := by
  change (StateT.bind first rest) current = _
  unfold StateT.bind
  rw [result]
  rfl

theorem bind_of_error {first : Command σ ε β} {rest : β → Command σ ε α} {error : ε}
    (result : first current = .error error) : (first >>= rest) current = .error error := by
  change (StateT.bind first rest) current = _
  unfold StateT.bind
  rw [result]
  rfl

theorem bind_congr_of_eq {first second : Command σ ε β} {rest : β → Command σ ε α} {current : σ}
    (same : first current = second current) :
    (first >>= rest) current = (second >>= rest) current := by
  cases result : second current with
  | error error => rw [bind_of_error (same.trans result), bind_of_error result]
  | ok pair => rw [bind_of_ok (same.trans result), bind_of_ok result]

theorem bind_eq_ok {first : Command σ ε β} {rest : β → Command σ ε α} {value : α} {last : σ}
    (result : (first >>= rest) current = .ok (value, last)) :
    ∃ middle next, first current = .ok (middle, next) ∧ rest middle next = .ok (value, last) := by
  change (StateT.bind first rest) current = _ at result
  unfold StateT.bind at result
  cases started : first current with
  | error error =>
      rw [started] at result
      cases result
  | ok pair =>
      rw [started] at result
      exact ⟨pair.1, pair.2, rfl, result⟩

/-- Sequencing: the rest is proved from the postcondition of the first part. -/
theorem Satisfies.bind {first : Command σ ε β} {rest : β → Command σ ε α}
    {middle : β → σ → Prop} (holds : Satisfies first middle fault current)
    (continues : ∀ value next, middle value next →
      Satisfies (rest value) post fault next) :
    Satisfies (first >>= rest) post fault current :=
  (satisfies_bind first rest).mpr (holds.imp continues)

theorem Satisfies.of_ok {command : Command σ ε α} {value : α} {next : σ}
    (holds : Satisfies command post fault current)
    (result : command current = .ok (value, next)) : post value next := by
  unfold Satisfies at holds
  rw [result] at holds
  exact holds

theorem Satisfies.of_error {command : Command σ ε α} {error : ε}
    (holds : Satisfies command post fault current)
    (result : command current = .error error) : fault error := by
  unfold Satisfies at holds
  rw [result] at holds
  exact holds

theorem Satisfies.exists_ok {command : Command σ ε α}
    (holds : Satisfies command post (fun _ => False) current) :
    ∃ value next, command current = .ok (value, next) ∧ post value next := by
  cases result : command current with
  | ok pair => exact ⟨pair.1, pair.2, rfl, holds.of_ok result⟩
  | error error => exact (holds.of_error result).elim

/-- A command whose postcondition is impossible stops with an allowed error. -/
theorem Satisfies.exists_error {command : Command σ ε α}
    (holds : Satisfies command post fault current)
    (impossible : ∀ value next, ¬post value next) :
    ∃ error, command current = .error error ∧ fault error := by
  unfold Satisfies at holds
  cases result : command current with
  | ok pair =>
      rw [result] at holds
      exact absurd holds (impossible pair.1 pair.2)
  | error error =>
      rw [result] at holds
      exact ⟨error, rfl, holds⟩

/-- The loop rule for loops that collect their results. `invariant` relates the
items still to come and the results so far. -/
theorem satisfies_collect {body : α → Command σ ε β}
    (invariant : List α → List β → σ → Prop)
    (step : ∀ item rest values next, invariant (item :: rest) values next →
      Satisfies (body item)
        (fun value after => invariant rest (values ++ [value]) after) fault next)
    (items : List α) (values : List β) (start : invariant items values current) :
    Satisfies (collect body items)
      (fun more next => invariant [] (values ++ more) next) fault current := by
  induction items generalizing current values with
  | nil => simpa [collect] using start
  | cons item rest induction =>
      refine (step item rest values current start).bind fun value next holds => ?_
      refine (induction (values ++ [value]) holds).bind fun more after final => ?_
      simpa using final

/-- What each result has to do with its item, whatever state the item is handled in. -/
theorem satisfies_collect_forall₂ {body : α → Command σ ε β} {related : α → β → Prop}
    (each : ∀ item next, Satisfies (body item) (fun value _ => related item value) fault next)
    (items : List α) :
    Satisfies (collect body items) (fun values _ => List.Forall₂ related items values) fault
      current := by
  induction items generalizing current with
  | nil => exact .nil
  | cons item rest induction =>
      apply (each item current).bind
      intro value next holds
      apply induction.bind
      intro values last later
      exact .cons holds later

/-! ## What a command leaves alone -/

def Keeps {γ : Type} (view : σ → γ) (command : Command σ ε α) : Prop :=
  ∀ current, Satisfies command (fun _ next => view next = view current) (fun _ => True) current

section Keeps

variable {γ : Type} {view : σ → γ}

theorem keeps_pure (value : α) : Keeps view (pure value : Command σ ε α) := fun _ => rfl

theorem keeps_state : Keeps view (state : Command σ ε σ) := fun _ => rfl

theorem keeps_stop (error : ε) : Keeps view (stop error : Command σ ε α) := fun _ => trivial

theorem keeps_lift (result : Except ε α) : Keeps view (lift result : Command σ ε α) := by
  intro current
  cases result with
  | ok value => rfl
  | error error => trivial

theorem keeps_update {transform : σ → σ}
    (same : ∀ current, view (transform current) = view current) :
    Keeps view (update transform : Command σ ε Unit) := same

theorem Keeps.bind {first : Command σ ε β} {rest : β → Command σ ε α} (keeps : Keeps view first)
    (continues : ∀ value, Keeps view (rest value)) : Keeps view (first >>= rest) := by
  intro current
  refine (keeps current).bind fun value next same => ?_
  exact (continues value next).imp fun _ _ later => later.trans same

theorem Keeps.ite {condition : Prop} [Decidable condition] {left right : Command σ ε α}
    (keeps : Keeps view left) (otherwise : Keeps view right) :
    Keeps view (if condition then left else right) := by
  by_cases holds : condition
  · rwa [if_pos holds]
  · rwa [if_neg holds]

theorem Keeps.rescue {command : Command σ ε α} {handler : ε → Command σ ε α}
    (keeps : Keeps view command) (handled : ∀ error, Keeps view (handler error)) :
    Keeps view (rescue command handler) :=
  fun current => (keeps current).rescue fun error _ => handled error current

theorem keeps_forEach {body : α → Command σ ε Unit} (keeps : ∀ item, Keeps view (body item))
    (items : List α) : Keeps view (forEach body items) := by
  induction items with
  | nil => exact keeps_pure ()
  | cons item rest induction => exact (keeps item).bind fun _ => induction

end Keeps

end Command

end Storix.Foundation
