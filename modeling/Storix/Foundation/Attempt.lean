import Mathlib.Data.List.Basic

/-! # Attempts

An attempt reads and rewrites one state and may fail, and what it did to the state before it
failed stays done. The rules prove an invariant of the state that holds however the attempt
ends, together with a postcondition of the attempts that succeed. -/

namespace Storix.Foundation

/-- A computation over a state `σ` that may fail with an `ε`. The state outlives the failure. -/
abbrev Attempt (σ ε α : Type) := ExceptT ε (StateM σ) α

namespace Attempt

variable {σ ε α β : Type}

def outcome (attempt : Attempt σ ε α) (current : σ) : Except ε α × σ :=
  StateT.run (ExceptT.run attempt) current

def state : Attempt σ ε σ := ExceptT.mk fun current => (.ok current, current)

def update (transform : σ → σ) : Attempt σ ε Unit :=
  ExceptT.mk fun current => (.ok (), transform current)

def fail (error : ε) : Attempt σ ε α := ExceptT.mk fun current => (.error error, current)

def refuseIf (condition : Prop) [Decidable condition] (error : ε) : Attempt σ ε Unit :=
  if condition then fail error else pure ()

def lift (result : Except ε α) : Attempt σ ε α := ExceptT.mk fun current => (result, current)

@[simp] theorem outcome_pure (value : α) (current : σ) :
    outcome (pure value : Attempt σ ε α) current = (.ok value, current) := rfl

@[simp] theorem outcome_state (current : σ) :
    outcome (state : Attempt σ ε σ) current = (.ok current, current) := rfl

@[simp] theorem outcome_update (transform : σ → σ) (current : σ) :
    outcome (update transform : Attempt σ ε Unit) current = (.ok (), transform current) := rfl

theorem outcome_bind (first : Attempt σ ε β) (rest : β → Attempt σ ε α) (current : σ) :
    outcome (first >>= rest) current =
      match outcome first current with
      | (.ok value, next) => outcome (rest value) next
      | (.error error, next) => (.error error, next) := by
  change (StateT.bind (ExceptT.run first) fun result => match result with
    | .ok value => ExceptT.run (rest value)
    | .error error => pure (.error error)) current = _
  unfold StateT.bind
  simp only [outcome, StateT.run, ExceptT.run]
  rcases first current with ⟨result, next⟩
  cases result <;> rfl

/-- However the attempt ends, `invariant` holds of the state; if it succeeds, so does `post`. -/
def Ensures (attempt : Attempt σ ε α) (invariant : σ → Prop) (post : α → σ → Prop)
    (current : σ) : Prop :=
  invariant (outcome attempt current).2 ∧
    ∀ value, (outcome attempt current).1 = .ok value → post value (outcome attempt current).2

variable {invariant : σ → Prop} {post : α → σ → Prop} {current : σ}

theorem ensures_pure {value : α} (holds : invariant current) (isPost : post value current) :
    Ensures (pure value : Attempt σ ε α) invariant post current :=
  ⟨holds, fun _ isValue => Except.ok.inj isValue ▸ isPost⟩

theorem ensures_fail {error : ε} (holds : invariant current) :
    Ensures (fail error : Attempt σ ε α) invariant post current :=
  ⟨holds, fun _ isValue => by cases isValue⟩

theorem ensures_lift {result : Except ε α} (holds : invariant current)
    (isPost : ∀ value, result = .ok value → post value current) :
    Ensures (lift result : Attempt σ ε α) invariant post current :=
  ⟨holds, isPost⟩

theorem Ensures.imp {attempt : Attempt σ ε α} {post' : α → σ → Prop}
    (ensures : Ensures attempt invariant post current)
    (weaken : ∀ value next, invariant next → post value next → post' value next) :
    Ensures attempt invariant post' current :=
  ⟨ensures.1, fun value isValue => weaken value _ ensures.1 (ensures.2 value isValue)⟩

/-- Sequencing: the rest is proved from the postcondition of the first part. -/
theorem Ensures.bind {first : Attempt σ ε β} {rest : β → Attempt σ ε α} {middle : β → σ → Prop}
    (ensures : Ensures first invariant middle current)
    (continues : ∀ value next, invariant next → middle value next →
      Ensures (rest value) invariant post next) :
    Ensures (first >>= rest) invariant post current := by
  rcases ensures with ⟨holds, succeeds⟩
  unfold Ensures
  rw [outcome_bind]
  cases result : outcome first current with
  | mk value next =>
      rw [result] at holds succeeds
      cases value with
      | error error => exact ⟨holds, fun _ isValue => by cases isValue⟩
      | ok value => exact continues value next holds (succeeds value rfl)

theorem ensures_ite {condition : Prop} [Decidable condition] {left right : Attempt σ ε α}
    (whenTrue : condition → Ensures left invariant post current)
    (whenFalse : ¬condition → Ensures right invariant post current) :
    Ensures (if condition then left else right) invariant post current := by
  by_cases holds : condition
  · rw [if_pos holds]
    exact whenTrue holds
  · rw [if_neg holds]
    exact whenFalse holds

/-! ## First steps that leave the rest to prove -/

theorem ensures_state_bind {rest : σ → Attempt σ ε α}
    (continues : Ensures (rest current) invariant post current) :
    Ensures (state >>= rest) invariant post current := by
  unfold Ensures
  rw [outcome_bind]
  exact continues

theorem ensures_update_bind {transform : σ → σ} {rest : Unit → Attempt σ ε α}
    (continues : Ensures (rest ()) invariant post (transform current)) :
    Ensures (update transform >>= rest) invariant post current := by
  unfold Ensures
  rw [outcome_bind]
  exact continues

theorem ensures_update {transform : σ → σ} {post : Unit → σ → Prop}
    (holds : invariant (transform current)) (isPost : post () (transform current)) :
    Ensures (update transform : Attempt σ ε Unit) invariant post current :=
  ⟨holds, fun _ _ => isPost⟩

theorem ensures_refuseIf_bind {condition : Prop} [Decidable condition] {error : ε}
    {rest : Unit → Attempt σ ε α} (holds : invariant current)
    (continues : ¬condition → Ensures (rest ()) invariant post current) :
    Ensures (refuseIf condition error >>= rest) invariant post current := by
  by_cases refused : condition
  · unfold Ensures
    rw [outcome_bind, refuseIf, if_pos refused]
    exact ⟨holds, fun _ isValue => by cases isValue⟩
  · unfold Ensures
    rw [outcome_bind, refuseIf, if_neg refused]
    exact continues refused

theorem ensures_refuseIf {condition : Prop} [Decidable condition] {error : ε}
    {post : Unit → σ → Prop} (holds : invariant current)
    (isPost : ¬condition → post () current) :
    Ensures (refuseIf condition error : Attempt σ ε Unit) invariant post current :=
  ensures_ite (fun _ => ensures_fail holds) fun allowed => ensures_pure holds (isPost allowed)

/-! ## Attempts that succeed -/

/-- The attempt succeeds with `post`. -/
def Returns (attempt : Attempt σ ε α) (post : α → σ → Prop) (current : σ) : Prop :=
  ∃ value next, outcome attempt current = (.ok value, next) ∧ post value next

theorem returns_pure {value : α} (isPost : post value current) :
    Returns (pure value : Attempt σ ε α) post current :=
  ⟨value, current, rfl, isPost⟩

theorem returns_update {transform : σ → σ} {post : Unit → σ → Prop}
    (isPost : post () (transform current)) :
    Returns (update transform : Attempt σ ε Unit) post current :=
  ⟨(), transform current, rfl, isPost⟩

theorem Returns.imp {attempt : Attempt σ ε α} {post' : α → σ → Prop}
    (returns : Returns attempt post current)
    (weaken : ∀ value next, post value next → post' value next) :
    Returns attempt post' current := by
  rcases returns with ⟨value, next, result, holds⟩
  exact ⟨value, next, result, weaken value next holds⟩

theorem Returns.bind {first : Attempt σ ε β} {rest : β → Attempt σ ε α} {middle : β → σ → Prop}
    (returns : Returns first middle current)
    (continues : ∀ value next, middle value next → Returns (rest value) post next) :
    Returns (first >>= rest) post current := by
  rcases returns with ⟨value, next, result, holds⟩
  unfold Returns
  rw [outcome_bind, result]
  exact continues value next holds

/-- What is ensured of an attempt that succeeds holds when it does. -/
theorem Returns.ensured {attempt : Attempt σ ε α} {post' : α → σ → Prop}
    (returns : Returns attempt post' current) (ensures : Ensures attempt invariant post current) :
    Returns attempt (fun value next => invariant next ∧ post value next) current := by
  rcases returns with ⟨value, next, result, -⟩
  rcases ensures with ⟨holds, isPost⟩
  rw [result] at holds isPost
  exact ⟨value, next, result, holds, isPost value rfl⟩

theorem returns_refuseIf {condition : Prop} [Decidable condition] {error : ε}
    {post : Unit → σ → Prop} (allowed : ¬condition) (isPost : post () current) :
    Returns (refuseIf condition error : Attempt σ ε Unit) post current := by
  rw [refuseIf, if_neg allowed]
  exact returns_pure isPost

theorem returns_refuseIf_bind {condition : Prop} [Decidable condition] {error : ε}
    {rest : Unit → Attempt σ ε α} (allowed : ¬condition)
    (continues : Returns (rest ()) post current) :
    Returns (refuseIf condition error >>= rest) post current := by
  rw [refuseIf, if_neg allowed]
  exact continues

theorem returns_state_bind {rest : σ → Attempt σ ε α}
    (continues : Returns (rest current) post current) :
    Returns (state >>= rest) post current :=
  continues

theorem returns_update_bind {transform : σ → σ} {rest : Unit → Attempt σ ε α}
    (continues : Returns (rest ()) post (transform current)) :
    Returns (update transform >>= rest) post current :=
  continues

theorem returns_lift_bind {value : β} {rest : β → Attempt σ ε α}
    (continues : Returns (rest value) post current) :
    Returns (lift (.ok value) >>= rest) post current :=
  continues

end Attempt

end Storix.Foundation
