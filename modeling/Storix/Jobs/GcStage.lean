import Mathlib.Data.Nat.Basic

/-! # Stages of a collection run

A run gives each stage a budget. A stage that works through a table keeps its place in
`gc_cursor`: when the budget is used up the place is stored, and the next run goes on from
there. -/

namespace Storix

variable {ω γ τ : Type}

/-- `GcStageBudget.consume`: every call uses at least one. -/
def consumeBudget (used units : Nat) : Nat := used + max 1 units

theorem used_lt_consumeBudget (used units : Nat) : used < consumeBudget used units := by
  unfold consumeBudget
  omega

structure StageStep (ω γ : Type) where
  world : ω
  next : Option γ
  examined : Nat

/-- A stage that goes on from a cursor: its step, and how a cursor is stored. -/
structure CursorStage (ω γ τ : Type) where
  step : ω → Option γ → StageStep ω γ
  /-- `JSON.stringify(cursor)` -/
  text : γ → τ
  /-- `parse(JSON.parse(stored))`; `none` is a text that cannot be read. -/
  parse : τ → Option γ

namespace CursorStage

/-- The loop of `runCursorStage`. The cursor at its end is stored; without one the stored
cursor is cleared. -/
def loop (stage : CursorStage ω γ τ) (budgetLimit : Nat) (world : ω) (cursor : Option γ)
    (used : Nat) : ω × Option γ :=
  let result := stage.step world cursor
  match result.next with
  | none => (result.world, none)
  | some next =>
      if budgetLimit ≤ consumeBudget used result.examined then (result.world, some next)
      else stage.loop budgetLimit result.world (some next) (consumeBudget used result.examined)
termination_by budgetLimit - used
decreasing_by
  have more := used_lt_consumeBudget used result.examined
  change budgetLimit - consumeBudget used result.examined < _
  omega

/-- `readCursor`: a text that cannot be read starts the stage over. -/
def readCursor (stage : CursorStage ω γ τ) (stored : Option τ) : Option γ :=
  stored.bind stage.parse

/-- A run of the stage, with what `gc_cursor` holds before and after it. -/
def run (stage : CursorStage ω γ τ) (budgetLimit : Nat) (state : ω × Option τ) : ω × Option τ :=
  let result := stage.loop budgetLimit state.1 (stage.readCursor state.2) 0
  (result.1, result.2.map stage.text)

end CursorStage

/-- The loop of `runBudgetedStage`, for steps that say themselves when they are done. The rows
they work off are no candidates afterwards. -/
def budgetedLoop (step : ω → ω × Bool × Nat) (budgetLimit : Nat) (world : ω) (used : Nat) : ω :=
  let result := step world
  if result.2.1 then result.1
  else if budgetLimit ≤ consumeBudget used result.2.2 then result.1
  else budgetedLoop step budgetLimit result.1 (consumeBudget used result.2.2)
termination_by budgetLimit - used
decreasing_by
  have more := used_lt_consumeBudget used result.2.2
  change budgetLimit - consumeBudget used result.2.2 < _
  omega

def runBudgetedStage (step : ω → ω × Bool × Nat) (budgetLimit : Nat) (world : ω) : ω :=
  budgetedLoop step budgetLimit world 0

end Storix
