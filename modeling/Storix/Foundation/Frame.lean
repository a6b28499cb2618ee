import Storix.Foundation.Command
import Mathlib.Order.Defs.Unbundled

/-! # Frames

What a command may do to the state, as a relation between the state before and after. The
relation is a preorder, so what every part of a command respects, the whole respects. -/

namespace Storix.Foundation.Command

variable {σ ε α β : Type} {relation : σ → σ → Prop}

def Respects (relation : σ → σ → Prop) (command : Command σ ε α) : Prop :=
  ∀ current, Satisfies command (fun _ next => relation current next) (fun _ => True) current

theorem respects_stop (error : ε) : Respects relation (stop error : Command σ ε α) :=
  fun _ => trivial

theorem respects_update {transform : σ → σ}
    (related : ∀ current, relation current (transform current)) :
    Respects relation (update transform : Command σ ε Unit) := related

theorem Respects.of_ok {command : Command σ ε α} (respects : Respects relation command)
    {current next : σ} {value : α} (result : command current = .ok (value, next)) :
    relation current next := by
  have holds := respects current
  unfold Satisfies at holds
  rw [result] at holds
  exact holds

theorem Respects.mono {other : σ → σ → Prop} {command : Command σ ε α}
    (respects : Respects relation command)
    (weaken : ∀ current next, relation current next → other current next) :
    Respects other command :=
  fun current => (respects current).imp fun _ next related => weaken current next related

theorem Respects.ite {condition : Prop} [Decidable condition] {left right : Command σ ε α}
    (respects : Respects relation left) (otherwise : Respects relation right) :
    Respects relation (if condition then left else right) := by
  by_cases holds : condition
  · rw [if_pos holds]
    exact respects
  · rw [if_neg holds]
    exact otherwise

theorem Respects.rescue {command : Command σ ε α} {handler : ε → Command σ ε α}
    (respects : Respects relation command) (handled : ∀ error, Respects relation (handler error)) :
    Respects relation (rescue command handler) :=
  fun current => (respects current).rescue fun error _ => handled error current

variable [IsPreorder σ relation]

theorem respects_pure (value : α) : Respects relation (pure value : Command σ ε α) :=
  fun current => refl_of relation current

theorem respects_state : Respects relation (state : Command σ ε σ) :=
  fun current => refl_of relation current

theorem respects_lift (result : Except ε α) :
    Respects relation (lift result : Command σ ε α) := by
  intro current
  cases result with
  | ok value => exact refl_of relation current
  | error error => trivial

theorem Respects.bind {first : Command σ ε β} {rest : β → Command σ ε α}
    (respects : Respects relation first) (continues : ∀ value, Respects relation (rest value)) :
    Respects relation (first >>= rest) := by
  intro current
  apply (respects current).bind
  intro value next related
  apply (continues value next).imp
  intro _ last later
  exact trans_of relation related later

theorem respects_forEach {body : α → Command σ ε Unit}
    (respects : ∀ item, Respects relation (body item)) (items : List α) :
    Respects relation (forEach body items) := by
  induction items with
  | nil => exact respects_pure ()
  | cons item rest induction => exact (respects item).bind fun _ => induction

theorem respects_collect {body : α → Command σ ε β}
    (respects : ∀ item, Respects relation (body item)) (items : List α) :
    Respects relation (collect body items) := by
  induction items with
  | nil => exact respects_pure []
  | cons item rest induction =>
      exact (respects item).bind fun _ => induction.bind fun _ => respects_pure _

end Storix.Foundation.Command
