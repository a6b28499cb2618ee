import Mathlib.Data.List.Chain
import Mathlib.Logic.Function.Iterate
import Storix.Namespace.NamespaceList
import Storix.Persistence.ChangeFeedRetention
import Storix.Results.FeedReaders

/-! # Stages of a collection run

A run takes at most as many steps as its budget, whatever they return. A stage that pages through
an ordered table visits, from one start of the order to the next, every row that stays, and the
pruning of the change feed leaves no expired prefix behind. -/

namespace Storix

open Foundation

variable {ω γ τ α : Type}

/-! ## Steps of a run -/

namespace CursorStage

variable (stage : CursorStage ω γ τ) {budgetLimit : Nat}

def logged : CursorStage (ω × List (ω × Option γ)) γ τ where
  step world cursor :=
    let result := stage.step world.1 cursor
    ⟨(result.world, world.2 ++ [(world.1, cursor)]), result.next, result.examined⟩
  text := stage.text
  parse := stage.parse

def calls (budgetLimit : Nat) (state : ω × Option τ) : List (ω × Option γ) :=
  (stage.logged.run budgetLimit ((state.1, []), state.2)).1.2

/-- Calls that go on from each other, whatever happens to the world in between. -/
inductive Chain : Option γ → List (ω × Option γ) → Option γ → Prop
  | last (world : ω) (cursor : Option γ) :
      Chain cursor [(world, cursor)] (stage.step world cursor).next
  | next {world : ω} {cursor stop : Option γ} {middle : γ} {calls : List (ω × Option γ)}
      (isNext : (stage.step world cursor).next = some middle)
      (rest : Chain (some middle) calls stop) : Chain cursor ((world, cursor) :: calls) stop

variable {stage}

/-- The log of the loop: its calls go on from each other to the cursor at the end, there are no
more of them than the budget has left, and the world is the one without a log. -/
theorem logged_loop (budgetLimit : Nat) (world : ω) (log : List (ω × Option γ))
    (cursor : Option γ) (used : Nat) :
    ∃ calls, stage.logged.loop budgetLimit (world, log) cursor used =
        (((stage.loop budgetLimit world cursor used).1, log ++ calls),
          (stage.loop budgetLimit world cursor used).2) ∧
      stage.Chain cursor calls (stage.loop budgetLimit world cursor used).2 ∧
      calls.length ≤ max 1 (budgetLimit - used) := by
  induction left : budgetLimit - used using Nat.strong_induction_on
    generalizing world log cursor used with
  | _ bound induction =>
      rw [loop, loop]
      have isNext : (stage.logged.step (world, log) cursor).next =
          (stage.step world cursor).next := rfl
      have chained : stage.Chain cursor [(world, cursor)] (stage.step world cursor).next :=
        .last world cursor
      rw [isNext]
      cases next : (stage.step world cursor).next with
      | none =>
          rw [next] at chained
          exact ⟨[(world, cursor)], rfl, chained, by simp⟩
      | some middle =>
          dsimp only
          have more := used_lt_consumeBudget used (stage.step world cursor).examined
          have sameExamined : (stage.logged.step (world, log) cursor).examined =
              (stage.step world cursor).examined := rfl
          rw [sameExamined]
          by_cases exhausted :
              budgetLimit ≤ consumeBudget used (stage.step world cursor).examined
          · rw [if_pos exhausted, if_pos exhausted]
            rw [next] at chained
            exact ⟨[(world, cursor)], rfl, chained, by simp⟩
          · rw [if_neg exhausted, if_neg exhausted]
            rcases induction (budgetLimit - consumeBudget used (stage.step world cursor).examined)
              (by omega) (stage.step world cursor).world (log ++ [(world, cursor)]) (some middle) _
              rfl with ⟨calls, same, chain, few⟩
            refine ⟨(world, cursor) :: calls, ?_, .next next chain, ?_⟩
            · refine same.trans ?_
              rw [List.append_assoc]
              rfl
            · rw [List.length_cons]
              omega

/-- The calls of a run go on from the stored cursor to the one that is stored next, and there are
no more of them than the budget. -/
theorem calls_spec (budgetLimit : Nat) (state : ω × Option τ) : ∃ stop,
    stage.Chain (stage.readCursor state.2) (stage.calls budgetLimit state) stop ∧
      (stage.run budgetLimit state).2 = stop.map stage.text ∧
      (stage.calls budgetLimit state).length ≤ max 1 budgetLimit := by
  rcases stage.logged_loop budgetLimit state.1 [] (stage.readCursor state.2) 0 with
    ⟨calls, same, chain, few⟩
  have isCalls : stage.calls budgetLimit state = calls := by
    change (stage.logged.loop budgetLimit (state.1, []) (stage.readCursor state.2) 0).1.2 = calls
    rw [same]
    rfl
  rw [isCalls]
  exact ⟨_, chain, rfl, few⟩

theorem length_calls (positive : 1 ≤ budgetLimit) (state : ω × Option τ) :
    (stage.calls budgetLimit state).length ≤ budgetLimit := by
  rcases stage.calls_spec budgetLimit state with ⟨_, _, _, few⟩
  omega

/-! ## Successive runs -/

/-- A call that goes on where another one ended, or that starts over because the place was lost. -/
def Resumes (stage : CursorStage ω γ τ) (lost : Prop) (earlier later : ω × Option γ) : Prop :=
  later.2 = (stage.step earlier.1 earlier.2).next ∨ lost ∧ later.2 = none

theorem Chain.isChain {start stop : Option γ} {calls : List (ω × Option γ)}
    (chain : stage.Chain start calls stop) (lost : Prop) :
    calls.IsChain (stage.Resumes lost) ∧ (∀ call, calls.head? = some call → call.2 = start) ∧
      ∀ call, calls.getLast? = some call → (stage.step call.1 call.2).next = stop := by
  induction chain with
  | last world cursor =>
      refine ⟨.singleton _, ?_, ?_⟩
      · rintro _ ⟨⟩
        rfl
      · rintro _ ⟨⟩
        rfl
  | @next world cursor stop middle calls isNext rest induction =>
      rcases induction with ⟨isChain, isHead, isLast⟩
      refine ⟨?_, ?_, ?_⟩
      · refine List.isChain_cons.mpr ⟨fun later isLater => .inl ?_, isChain⟩
        rw [isHead later isLater, isNext]
      · rintro _ ⟨⟩
        rfl
      · intro call isCall
        cases rest with
        | last => exact isLast call isCall
        | next => exact isLast call isCall

def Unreadable (stage : CursorStage ω γ τ) (stored : Option τ) : Prop :=
  ∃ text, stored = some text ∧ stage.parse text = none

/-- Runs one after the other, with anything happening to the world in between. Each finds the
cursor that the one before left, or one that cannot be read. -/
def Successive (stage : CursorStage ω γ τ) (budgetLimit : Nat) (runs : List (ω × Option τ)) :
    Prop :=
  runs.IsChain fun earlier later =>
    later.2 = (stage.run budgetLimit earlier).2 ∨ stage.Unreadable later.2

theorem Unreadable.readCursor {stored : Option τ} (unreadable : stage.Unreadable stored) :
    stage.readCursor stored = none := by
  rcases unreadable with ⟨text, rfl, failed⟩
  exact failed

theorem readCursor_text (readable : ∀ cursor, stage.parse (stage.text cursor) = some cursor)
    (cursor : Option γ) : stage.readCursor (cursor.map stage.text) = cursor := by
  cases cursor with
  | none => rfl
  | some cursor => exact readable cursor

/-- The calls of all runs go on from each other, or start over after a cursor that could not be
read. -/
theorem Successive.resumes {runs : List (ω × Option τ)}
    (successive : stage.Successive budgetLimit runs)
    (readable : ∀ cursor, stage.parse (stage.text cursor) = some cursor) {lost : Prop}
    (loses : ∀ run ∈ runs, stage.Unreadable run.2 → lost) :
    ((runs.map (stage.calls budgetLimit)).flatten).IsChain (stage.Resumes lost) := by
  induction runs with
  | nil => exact .nil
  | cons earlier rest induction =>
      rcases stage.calls_spec budgetLimit earlier with ⟨stop, chain, isStored, _⟩
      rcases chain.isChain lost with ⟨isChain, _, isLast⟩
      rw [List.map_cons, List.flatten_cons]
      cases rest with
      | nil => simpa using isChain
      | cons later more =>
          rcases List.isChain_cons_cons.mp successive with ⟨follows, others⟩
          refine List.isChain_append.mpr ⟨isChain, induction others fun run isRun =>
            loses run (List.mem_cons_of_mem _ isRun), ?_⟩
          intro call isCall next isNext
          rcases stage.calls_spec budgetLimit later with ⟨_, laterChain, _, _⟩
          have isHead := (laterChain.isChain lost).2.1
          have nonempty : stage.calls budgetLimit later ≠ [] := by
            intro empty
            rw [empty] at laterChain
            cases laterChain
          rw [List.map_cons, List.flatten_cons, List.head?_append_of_ne_nil _ nonempty] at isNext
          have isCursor := isHead next isNext
          rcases follows with same | unreadable
          · refine .inl ?_
            rw [isCursor, isLast call isCall, same, isStored, readCursor_text readable]
          · exact .inr ⟨loses later (List.mem_cons_of_mem _ (List.mem_cons_self ..)) unreadable,
              isCursor.trans unreadable.readCursor⟩

variable {order : KeyOrder γ} {key : α → γ} {rows : ω → List α} {items : ω → Option γ → List α}

/-- Calls that go on from each other to the end of the order are a scan of it. -/
theorem scan_of_isChain
    (isPage : ∀ world cursor, IsPage order key (rows world) cursor (items world cursor)
      (stage.step world cursor).next) {first last : ω × Option γ} {rest : List (ω × Option γ)}
    {lost : Prop} (isChain : (first :: rest).IsChain (stage.Resumes lost))
    (within : ∀ call ∈ rest, call.2 ≠ none)
    (isLast : (first :: rest).getLast? = some last) :
    Scan order key first.2
      ((first :: rest).map fun call => (rows call.1, items call.1 call.2))
      (stage.step last.1 last.2).next := by
  induction rest generalizing first with
  | nil =>
      cases isLast
      exact .page (isPage _ _)
  | cons second others induction =>
      rcases List.isChain_cons_cons.mp isChain with ⟨resumes, later⟩
      have notStart := within second (List.mem_cons_self ..)
      have scan := induction later (fun call isCall => within call (List.mem_cons_of_mem _ isCall))
        isLast
      have page := isPage first.1 first.2
      rcases resumes with isNext | restarts
      · cases isCursor : second.2 with
        | none => exact absurd isCursor notStart
        | some middle =>
            rw [isCursor] at isNext scan
            rw [← isNext] at page
            exact .next page scan
      · exact absurd restarts.2 notStart

def tick (stage : CursorStage ω γ τ) (state : ω × Option γ) : ω × Option γ :=
  ((stage.step state.1 state.2).world, (stage.step state.1 state.2).next)

theorem loop_eq_iterate (budgetLimit : Nat) (world : ω) (cursor : Option γ) (used : Nat) :
    ∃ count, 1 ≤ count ∧
      stage.loop budgetLimit world cursor used = stage.tick^[count] (world, cursor) := by
  induction left : budgetLimit - used using Nat.strong_induction_on
    generalizing world cursor used with
  | _ bound induction =>
      rw [loop]
      have more := used_lt_consumeBudget used (stage.step world cursor).examined
      have one : stage.tick^[1] (world, cursor) =
          ((stage.step world cursor).world, (stage.step world cursor).next) := rfl
      cases next : (stage.step world cursor).next with
      | none =>
          rw [next] at one
          exact ⟨1, Nat.le_refl 1, one.symm⟩
      | some middle =>
          rw [next] at one
          dsimp only
          by_cases exhausted :
              budgetLimit ≤ consumeBudget used (stage.step world cursor).examined
          · rw [if_pos exhausted]
            exact ⟨1, Nat.le_refl 1, one.symm⟩
          · rw [if_neg exhausted]
            rcases induction _ (by omega) (stage.step world cursor).world (some middle)
              (consumeBudget used (stage.step world cursor).examined) rfl with
              ⟨count, _, same⟩
            refine ⟨count + 1, Nat.le_add_left _ _, ?_⟩
            rw [same, Function.iterate_succ_apply, tick, next]

theorem run_iterate (readable : ∀ cursor, stage.parse (stage.text cursor) = some cursor)
    (budgetLimit : Nat) (state : ω × Option τ) (runs : Nat) :
    ∃ count, runs ≤ count ∧
      (((stage.run budgetLimit)^[runs] state).1,
        stage.readCursor ((stage.run budgetLimit)^[runs] state).2) =
        stage.tick^[count] (state.1, stage.readCursor state.2) := by
  induction runs with
  | zero => exact ⟨0, Nat.le_refl 0, rfl⟩
  | succ runs induction =>
      rcases induction with ⟨count, enough, same⟩
      rw [Function.iterate_succ_apply']
      generalize (stage.run budgetLimit)^[runs] state = middle at same
      rcases stage.loop_eq_iterate budgetLimit middle.1 (stage.readCursor middle.2) 0 with
        ⟨more, positive, isLoop⟩
      refine ⟨more + count, by omega, ?_⟩
      rw [Function.iterate_add_apply, ← same, ← isLoop, run, readCursor_text readable]

/-- A stage over an ordered table whose rows only become fewer while it is at work. -/
structure Shrinks (stage : CursorStage ω γ τ) (order : KeyOrder γ) (key : α → γ)
    (rows : ω → List α) (items : ω → Option γ → List α) (sound : ω → Prop) : Prop where
  isPage : ∀ world cursor, sound world →
    IsPage order key (rows world) cursor (items world cursor) (stage.step world cursor).next
  keeps : ∀ world cursor, sound world → sound (stage.step world cursor).world
  fewer : ∀ world cursor, sound world →
    ∀ row ∈ rows (stage.step world cursor).world, row ∈ rows world
  distinct : ∀ world, sound world → (rows world).Nodup

section Shrinks

variable {sound : ω → Prop} (shrinks : stage.Shrinks order key rows items sound)
  {state : ω × Option γ}
include shrinks

theorem Shrinks.iterate (isSound : sound state.1) (count : Nat) :
    sound (stage.tick^[count] state).1 ∧
      ∀ row ∈ rows (stage.tick^[count] state).1, row ∈ rows state.1 := by
  induction count with
  | zero => exact ⟨isSound, fun _ member => member⟩
  | succ count induction =>
      rw [Function.iterate_succ_apply']
      refine ⟨shrinks.keeps _ _ induction.1, ?_⟩
      intro row member
      exact induction.2 row (shrinks.fewer _ _ induction.1 row member)

/-- From any cursor the steps reach the end of the order, and their pages are a scan of it. -/
theorem Shrinks.exists_scan (isSound : sound state.1) : ∃ count pages,
    Scan order key state.2 pages none ∧
      (∀ page ∈ pages, ∃ index ≤ count, page =
        (rows (stage.tick^[index] state).1,
          items (stage.tick^[index] state).1 (stage.tick^[index] state).2)) ∧
      (stage.tick^[count + 1] state).2 = none := by
  -- The rows after the cursor become fewer with every page that has a next one.
  induction size : ((rows state.1).filter fun row => order.after state.2 (key row)).length using
    Nat.strong_induction_on generalizing state with
  | _ bound induction =>
      have page : IsPage order key (rows state.1) state.2 (items state.1 state.2)
          (stage.tick state).2 := shrinks.isPage _ _ isSound
      cases isNext : (stage.tick state).2 with
      | none =>
          rw [isNext] at page
          refine ⟨0, _, .page page, ?_, isNext⟩
          intro other isOther
          rw [List.mem_singleton.mp isOther]
          exact ⟨0, Nat.le_refl 0, rfl⟩
      | some middle =>
          rw [isNext] at page
          have laterSound : sound (stage.tick state).1 := shrinks.keeps _ _ isSound
          have subset : ∀ row ∈ rows (stage.tick state).1, row ∈ rows state.1 :=
            shrinks.fewer _ _ isSound
          have fewer : ((rows (stage.tick state).1).filter fun row =>
              order.after (stage.tick state).2 (key row)).length < bound := by
            have ⟨last, isLast, isMiddle⟩ := (page.stops middle rfl).1
            have ⟨inRows, isAfter⟩ := page.sound last isLast
            rw [isNext, ← size, ← isMiddle]
            change (last :: _).length ≤ _
            apply List.Subperm.length_le
            apply List.subperm_of_subset
            · refine List.nodup_cons.mpr ⟨?_, (shrinks.distinct _ laterSound).filter _⟩
              intro inside
              have isBefore := (List.mem_filter.mp inside).2
              change order.before (key last) (key last) = true at isBefore
              rw [order.irrefl] at isBefore
              cases isBefore
            · intro row member
              cases List.mem_cons.mp member with
              | inl isLastRow =>
                  rw [isLastRow]
                  exact List.mem_filter.mpr ⟨inRows, isAfter⟩
              | inr inside =>
                  have ⟨later, isLater⟩ := List.mem_filter.mp inside
                  exact List.mem_filter.mpr ⟨subset row later, order.after_trans isAfter isLater⟩
          have ⟨count, pages, scan, isPages, isEnd⟩ := induction _ fewer laterSound rfl
          rw [isNext] at scan
          refine ⟨count + 1, _, .next page scan, ?_, isEnd⟩
          intro other isOther
          cases List.mem_cons.mp isOther with
          | inl isFirst => exact ⟨0, Nat.zero_le _, isFirst⟩
          | inr isLater =>
              have ⟨index, within, isPage⟩ := isPages other isLater
              exact ⟨index + 1, Nat.succ_le_succ within, isPage⟩

/-- A row that does not outlast a visit is gone after the second scan at the latest. -/
theorem Shrinks.eventually_gone (isSound : sound state.1) {goes : α → Prop}
    (visited : ∀ world cursor, sound world → ∀ row ∈ items world cursor, goes row →
      row ∉ rows (stage.step world cursor).world) :
    ∃ enough, ∀ count, enough ≤ count →
      ∀ row ∈ rows (stage.tick^[count] state).1, ¬ goes row := by
  have ⟨first, _, _, _, atStart⟩ := shrinks.exists_scan isSound
  have middleSound := (shrinks.iterate isSound (first + 1)).1
  have ⟨second, pages, scan, isPages, _⟩ := shrinks.exists_scan middleSound
  rw [atStart] at scan
  refine ⟨second + 1 + (first + 1), ?_⟩
  intro count isEnough row member isGoing
  -- The row is still there at the end, so it was there all the time.
  have present : ∀ index ≤ count, row ∈ rows (stage.tick^[index] state).1 := by
    intro index isBefore
    have isSplit := Function.iterate_add_apply stage.tick (count - index) index state
    rw [Nat.sub_add_cancel isBefore] at isSplit
    rw [isSplit] at member
    exact (shrinks.iterate (shrinks.iterate isSound index).1 (count - index)).2 row member
  have inPages : ∀ page ∈ pages, row ∈ page.1 := by
    intro page isPage
    have ⟨index, within, isItems⟩ := isPages page isPage
    rw [isItems, ← Function.iterate_add_apply]
    exact present _ (by omega)
  have ⟨shown, isShown, inShown⟩ := List.mem_flatten.mp (scan.visits inPages rfl nofun)
  have ⟨page, isPage, isItems⟩ := List.mem_map.mp isShown
  have ⟨index, within, isTick⟩ := isPages page isPage
  rw [← isItems, isTick, ← Function.iterate_add_apply] at inShown
  apply visited _ _ (shrinks.iterate isSound _).1 row inShown isGoing
  have later := present (index + (first + 1) + 1) (by omega)
  rw [Function.iterate_succ_apply'] at later
  exact later

end Shrinks

end CursorStage

/-! ## Stages without a cursor -/

theorem budgetedLoop_eq_iterate (step : ω → ω × Bool × Nat) (budgetLimit : Nat) (world : ω)
    (used : Nat) :
    ∃ count, 1 ≤ count ∧
      budgetedLoop step budgetLimit world used = (fun world => (step world).1)^[count] world := by
  induction left : budgetLimit - used using Nat.strong_induction_on
    generalizing world used with
  | _ bound induction =>
      rw [budgetedLoop]
      have more := used_lt_consumeBudget used (step world).2.2
      split
      · exact ⟨1, Nat.le_refl 1, rfl⟩
      · split
        · exact ⟨1, Nat.le_refl 1, rfl⟩
        · have ⟨count, _, same⟩ := induction _ (by omega) (step world).1
            (consumeBudget used (step world).2.2) rfl
          exact ⟨count + 1, Nat.le_add_left _ _, same⟩

theorem runBudgetedStage_iterate (step : ω → ω × Bool × Nat) (budgetLimit : Nat) (world : ω)
    (runs : Nat) :
    ∃ count, runs ≤ count ∧
      (runBudgetedStage step budgetLimit)^[runs] world =
        (fun world => (step world).1)^[count] world := by
  induction runs with
  | zero => exact ⟨0, Nat.le_refl 0, rfl⟩
  | succ runs induction =>
      have ⟨count, enough, same⟩ := induction
      rw [Function.iterate_succ_apply', same]
      have ⟨more, positive, isLoop⟩ := budgetedLoop_eq_iterate step budgetLimit
        ((fun world => (step world).1)^[count] world) 0
      refine ⟨more + count, by omega, ?_⟩
      rw [runBudgetedStage, isLoop, Function.iterate_add_apply]

def countedStep (step : ω → ω × Bool × Nat) (world : ω × Nat) : (ω × Nat) × Bool × Nat :=
  (((step world.1).1, world.2 + 1), (step world.1).2)

theorem countedStep_loop (step : ω → ω × Bool × Nat) (budgetLimit : Nat) (world : ω)
    (count used : Nat) :
    (budgetedLoop (countedStep step) budgetLimit (world, count) used).1 =
        budgetedLoop step budgetLimit world used ∧
      (budgetedLoop (countedStep step) budgetLimit (world, count) used).2 ≤
        count + max 1 (budgetLimit - used) := by
  induction left : budgetLimit - used using Nat.strong_induction_on
    generalizing world count used with
  | _ bound induction =>
      have more := used_lt_consumeBudget used (step world).2.2
      have isCounted : budgetedLoop (countedStep step) budgetLimit (world, count) used =
          if (step world).2.1 = true then ((step world).1, count + 1)
          else if budgetLimit ≤ consumeBudget used (step world).2.2 then ((step world).1, count + 1)
          else budgetedLoop (countedStep step) budgetLimit ((step world).1, count + 1)
            (consumeBudget used (step world).2.2) := by
        rw [budgetedLoop]
        rfl
      have isPlain : budgetedLoop step budgetLimit world used =
          if (step world).2.1 = true then (step world).1
          else if budgetLimit ≤ consumeBudget used (step world).2.2 then (step world).1
          else budgetedLoop step budgetLimit (step world).1
            (consumeBudget used (step world).2.2) := by
        rw [budgetedLoop]
      rw [isCounted, isPlain]
      by_cases done : (step world).2.1 = true
      · rw [if_pos done, if_pos done]
        exact ⟨rfl, by dsimp only; omega⟩
      · rw [if_neg done, if_neg done]
        by_cases exhausted : budgetLimit ≤ consumeBudget used (step world).2.2
        · rw [if_pos exhausted, if_pos exhausted]
          exact ⟨rfl, by dsimp only; omega⟩
        · rw [if_neg exhausted, if_neg exhausted]
          rcases induction (budgetLimit - consumeBudget used (step world).2.2) (by omega)
            (step world).1 (count + 1) _ rfl with ⟨same, few⟩
          exact ⟨same, by omega⟩

/-! ## Pruned feeds -/

def expiredPrefix (cutoff : Nat) (db : Database) : List ChangeEvent :=
  db.feedEvents.takeWhile fun event => event.occurredAt < cutoff

theorem takeWhile_drop {test : α → Bool} {items : List α} {count : Nat}
    (few : count ≤ (items.takeWhile test).length) :
    (items.drop count).takeWhile test = (items.takeWhile test).drop count := by
  induction items generalizing count with
  | nil => simp
  | cons item rest induction =>
      cases count with
      | zero => rfl
      | succ count =>
          by_cases passes : test item = true
          · rw [List.takeWhile_cons_of_pos passes] at few ⊢
            exact induction (Nat.le_of_succ_le_succ few)
          · rw [List.takeWhile_cons_of_neg passes] at few
            cases few

structure Pruned (cutoff : Nat) (db next : Database) : Prop where
  books : FeedBooks next
  events : ∃ count ≤ (expiredPrefix cutoff db).length, next.feedEvents = db.feedEvents.drop count

namespace Pruned

variable {cutoff : Nat} {db middle next : Database}

theorem refl (books : FeedBooks db) : Pruned cutoff db db := ⟨books, 0, Nat.zero_le _, rfl⟩

theorem trans (first : Pruned cutoff db middle) (second : Pruned cutoff middle next) :
    Pruned cutoff db next := by
  rcases first.events with ⟨count, few, isMiddle⟩
  rcases second.events with ⟨more, fewMore, isNext⟩
  refine ⟨second.books, count + more, ?_, ?_⟩
  · unfold expiredPrefix at fewMore few ⊢
    rw [isMiddle, takeWhile_drop few, List.length_drop] at fewMore
    omega
  · rw [isNext, isMiddle, List.drop_drop]

theorem length_le (pruned : Pruned cutoff db next) :
    (expiredPrefix cutoff next).length ≤ (expiredPrefix cutoff db).length := by
  rcases pruned.events with ⟨count, few, isNext⟩
  unfold expiredPrefix at few ⊢
  rw [isNext, takeWhile_drop few, List.length_drop]
  omega

theorem events_eq (pruned : Pruned cutoff db next)
    (same : (expiredPrefix cutoff next).length = (expiredPrefix cutoff db).length) :
    next.feedEvents = db.feedEvents := by
  rcases pruned.events with ⟨count, few, isNext⟩
  unfold expiredPrefix at few same
  rw [isNext, takeWhile_drop few, List.length_drop] at same
  rw [isNext, show count = 0 by omega, List.drop_zero]

theorem events_of_nil (pruned : Pruned cutoff db next) (gone : expiredPrefix cutoff next = []) :
    next.feedEvents = db.feedEvents.dropWhile fun event => event.occurredAt < cutoff := by
  rcases pruned.events with ⟨count, few, isNext⟩
  unfold expiredPrefix at few gone
  rw [isNext, takeWhile_drop few, List.drop_eq_nil_iff] at gone
  have split : db.feedEvents.takeWhile (fun event => decide (event.occurredAt < cutoff)) ++
      db.feedEvents.dropWhile (fun event => decide (event.occurredAt < cutoff)) = db.feedEvents :=
    List.takeWhile_append_dropWhile
  have rest : (db.feedEvents.takeWhile (fun event => decide (event.occurredAt < cutoff)) ++
      db.feedEvents.dropWhile fun event => decide (event.occurredAt < cutoff)).drop
        (db.feedEvents.takeWhile fun event => decide (event.occurredAt < cutoff)).length =
      db.feedEvents.dropWhile fun event => decide (event.occurredAt < cutoff) := List.drop_left
  rw [split] at rest
  rw [isNext, Nat.le_antisymm few gone]
  exact rest

end Pruned

theorem length_expiredBatch_le (db : Database) (cutoff batchSize : Nat) :
    (expiredBatch db cutoff batchSize).length ≤ (expiredPrefix cutoff db).length := by
  unfold expiredBatch expiredPrefix
  induction db.feedEvents generalizing batchSize with
  | nil => simp
  | cons event rest induction =>
      cases batchSize with
      | zero => simp
      | succ size =>
          rw [List.take_succ_cons]
          by_cases expired : event.occurredAt < cutoff
          · rw [List.takeWhile_cons_of_pos (by simpa using expired),
              List.takeWhile_cons_of_pos (by simpa using expired)]
            exact Nat.succ_le_succ (induction size)
          · rw [List.takeWhile_cons_of_neg (by simpa using expired)]
            exact Nat.zero_le _

theorem length_expiredBatch_pos {db : Database} {cutoff batchSize : Nat} (positive : 1 ≤ batchSize)
    (nonempty : expiredPrefix cutoff db ≠ []) :
    0 < (expiredBatch db cutoff batchSize).length := by
  unfold expiredPrefix at nonempty
  unfold expiredBatch
  cases batchSize with
  | zero => cases positive
  | succ size =>
      cases isEvents : db.feedEvents with
      | nil =>
          rw [isEvents] at nonempty
          exact absurd rfl nonempty
      | cons event rest =>
          rw [isEvents] at nonempty
          by_cases expired : event.occurredAt < cutoff
          · rw [List.take_succ_cons, List.takeWhile_cons_of_pos (by simpa using expired)]
            exact Nat.succ_pos _
          · rw [List.takeWhile_cons_of_neg (by simpa using expired)] at nonempty
            exact absurd rfl nonempty

/-- A batch deletes a part of the prefix, and something of it where it is not empty. -/
theorem pruneNamespace_spec {db : Database} (books : FeedBooks db) (locked : Bool)
    (cutoff : Nat) {batchSize : Nat} (positive : 1 ≤ batchSize) :
    pruneNamespace locked db cutoff batchSize = .skipped ∧
        (locked = true ∨ expiredPrefix cutoff db = []) ∨
      ∃ count next, pruneNamespace locked db cutoff batchSize = .deleted count next ∧
        Pruned cutoff db next ∧
        (expiredPrefix cutoff db ≠ [] →
          (expiredPrefix cutoff next).length < (expiredPrefix cutoff db).length) := by
  unfold pruneNamespace
  cases isFeed : db.feedState with
  | none =>
      refine .inl ⟨by simp, .inr ?_⟩
      rw [expiredPrefix, books.absent isFeed]
      rfl
  | some feed =>
      cases locked with
      | true => exact .inl ⟨by simp, .inl rfl⟩
      | false =>
          have few := length_expiredBatch_le db cutoff batchSize
          rw [if_neg (by simp), pruneNamespacePrefix_eq books isFeed]
          have step : FeedStep db
              { db with
                feedState := some { feed with
                  prunedThrough := feed.prunedThrough + (expiredBatch db cutoff batchSize).length }
                feedEvents := db.feedEvents.drop (expiredBatch db cutoff batchSize).length } feed :=
            .pruned _ (expiredBatch_isFront db cutoff batchSize).length_le rfl rfl rfl
          refine .inr ⟨_, _, rfl, ⟨step.books books isFeed, _, few, rfl⟩, fun nonempty => ?_⟩
          have some := length_expiredBatch_pos positive nonempty
          have left : (expiredPrefix cutoff db).length ≠ 0 := fun empty =>
            nonempty (List.eq_nil_of_length_eq_zero empty)
          unfold expiredPrefix at few left ⊢
          dsimp only
          rw [takeWhile_drop few, List.length_drop]
          omega

/-! ## A page of expired events -/

structure ChangeFeeds.Booked (feeds : ChangeFeeds) : Prop where
  namespaces : feeds.namespaces.Nodup
  books : ∀ id, FeedBooks (feeds.tables id)

structure FeedsPruned (cutoff : Nat) (feeds next : ChangeFeeds) : Prop where
  namespaces : next.namespaces = feeds.namespaces
  tables : ∀ id, Pruned cutoff (feeds.tables id) (next.tables id)

namespace FeedsPruned

variable {cutoff : Nat} {feeds middle next : ChangeFeeds}

theorem refl (books : ∀ id, FeedBooks (feeds.tables id)) : FeedsPruned cutoff feeds feeds :=
  ⟨rfl, fun id => .refl (books id)⟩

theorem trans (first : FeedsPruned cutoff feeds middle) (second : FeedsPruned cutoff middle next) :
    FeedsPruned cutoff feeds next :=
  ⟨second.namespaces.trans first.namespaces, fun id => (first.tables id).trans (second.tables id)⟩

theorem setTables (books : ∀ id, FeedBooks (feeds.tables id)) {id : NamespaceId} {db : Database}
    (pruned : Pruned cutoff (feeds.tables id) db) :
    FeedsPruned cutoff feeds (feeds.setTables id db) := by
  refine ⟨rfl, fun other => ?_⟩
  unfold ChangeFeeds.setTables
  dsimp only
  by_cases same : other = id
  · subst same
    rw [Function.update_self]
    exact pruned
  · rw [Function.update_of_ne same]
    exact .refl (books other)

theorem booked (pruned : FeedsPruned cutoff feeds next) (booked : feeds.Booked) : next.Booked :=
  ⟨pruned.namespaces ▸ booked.namespaces, fun id => (pruned.tables id).books⟩

end FeedsPruned

section PruneRows

variable {locked : NamespaceId → Bool} {cutoff batchSize : Nat}

def visitedRows (rows : List ExpiredRow) (index : Nat) :
    Option (Nat × ExpiredRow) → List ExpiredRow
  | some (examined, _) => rows.take (examined - index)
  | none => rows

/-- What the loop does from a state on. It deletes parts of expired prefixes, it stops at a row it
looked at, and it deletes something of every unlocked prefix whose first event it looked at. -/
structure RowsPruned (locked : NamespaceId → Bool) (cutoff : Nat) (rows : List ExpiredRow)
    (feeds : ChangeFeeds) (index : Nat) (result : PruneProgress × Option (Nat × ExpiredRow)) :
    Prop where
  pruned : FeedsPruned cutoff feeds result.1.feeds
  stops : ∀ examined row, result.2 = some (examined, row) →
    ∃ front rest, rows = front ++ row :: rest ∧ examined = index + front.length + 1
  heads : ∀ row ∈ visitedRows rows index result.2, row.isHead = true →
    locked row.position.namespaceId = false →
    expiredPrefix cutoff (feeds.tables row.position.namespaceId) ≠ [] →
    (expiredPrefix cutoff (result.1.feeds.tables row.position.namespaceId)).length <
      (expiredPrefix cutoff (feeds.tables row.position.namespaceId)).length

theorem RowsPruned.cons {first : ExpiredRow} {rest : List ExpiredRow} {feeds middle : ChangeFeeds}
    {index : Nat} {result : PruneProgress × Option (Nat × ExpiredRow)}
    (done : FeedsPruned cutoff feeds middle)
    (head : first.isHead = true → locked first.position.namespaceId = false →
      expiredPrefix cutoff (feeds.tables first.position.namespaceId) ≠ [] →
      (expiredPrefix cutoff (middle.tables first.position.namespaceId)).length <
        (expiredPrefix cutoff (feeds.tables first.position.namespaceId)).length)
    (later : RowsPruned locked cutoff rest middle (index + 1) result) :
    RowsPruned locked cutoff (first :: rest) feeds index result := by
  refine ⟨done.trans later.pruned, ?_, ?_⟩
  · intro examined row stopped
    rcases later.stops examined row stopped with ⟨front, back, rfl, rfl⟩
    refine ⟨first :: front, back, rfl, ?_⟩
    rw [List.length_cons]
    omega
  · intro row visited isHead unlocked nonempty
    have either : row = first ∨ row ∈ visitedRows rest (index + 1) result.2 := by
      cases isStop : result.2 with
      | none =>
          rw [isStop] at visited
          exact List.mem_cons.mp visited
      | some stop =>
          rcases stop with ⟨examined, stopRow⟩
          rw [isStop] at visited
          rcases later.stops examined stopRow isStop with ⟨front, back, _, isExamined⟩
          change row ∈ (first :: rest).take (examined - index) at visited
          rw [show examined - index = (examined - (index + 1)) + 1 by omega, List.take_succ_cons]
            at visited
          exact List.mem_cons.mp visited
    have less := (done.tables row.position.namespaceId).length_le
    have lessLater := (later.pruned.tables row.position.namespaceId).length_le
    rcases either with rfl | visitedLater
    · exact Nat.lt_of_le_of_lt lessLater (head isHead unlocked nonempty)
    · by_cases gone : expiredPrefix cutoff (middle.tables row.position.namespaceId) = []
      · rw [gone, List.length_nil] at lessLater
        exact Nat.lt_of_le_of_lt lessLater (List.length_pos_iff.mpr nonempty)
      · exact Nat.lt_of_lt_of_le (later.heads row visitedLater isHead unlocked gone) less

theorem pruneRows_spec (locked : NamespaceId → Bool) (cutoff : Nat) (positive : 1 ≤ batchSize)
    (rows : List ExpiredRow) (progress : PruneProgress) (index : Nat)
    (books : ∀ id, FeedBooks (progress.feeds.tables id)) :
    RowsPruned locked cutoff rows progress.feeds index
      (pruneRows locked cutoff batchSize rows progress index) := by
  induction rows generalizing progress index with
  | nil => exact ⟨.refl books, nofun, nofun⟩
  | cons first rest induction =>
      rw [pruneRows]
      by_cases isHead : first.isHead = false
      · rw [if_pos isHead]
        refine .cons (.refl books) (fun claims => ?_) (induction progress (index + 1) books)
        rw [isHead] at claims
        cases claims
      · rw [if_neg isHead]
        dsimp only
        rcases pruneNamespace_spec (books first.position.namespaceId)
          (locked first.position.namespaceId) cutoff positive with
          ⟨skipped, why⟩ | ⟨count, next, deleted, pruned, less⟩
        · rw [skipped]
          refine .cons (.refl books) (fun _ unlocked nonempty => ?_)
            (induction progress (index + 1) books)
          rcases why with isLocked | empty
          · rw [unlocked] at isLocked
            cases isLocked
          · exact absurd empty nonempty
        · rw [deleted]
          dsimp only
          have done := FeedsPruned.setTables books pruned
          have head : expiredPrefix cutoff (progress.feeds.tables first.position.namespaceId) ≠ [] →
              (expiredPrefix cutoff ((progress.feeds.setTables first.position.namespaceId
                next).tables first.position.namespaceId)).length <
                (expiredPrefix cutoff
                  (progress.feeds.tables first.position.namespaceId)).length := by
            intro nonempty
            unfold ChangeFeeds.setTables
            dsimp only
            rw [Function.update_self]
            exact less nonempty
          by_cases stop : batchSize ≤ count
          · rw [if_pos stop]
            refine ⟨done, ?_, ?_⟩
            · rintro examined row ⟨⟩
              exact ⟨[], rest, rfl, rfl⟩
            · intro row visited _ _ nonempty
              change row ∈ (first :: rest).take (index + 1 - index) at visited
              rw [Nat.add_sub_cancel_left, List.take_succ_cons, List.take_zero,
                List.mem_singleton] at visited
              subst visited
              exact head nonempty
          · rw [if_neg stop]
            exact .cons done (fun _ _ nonempty => head nonempty)
              (induction ⟨progress.feeds.setTables first.position.namespaceId next,
                progress.deleted + count, progress.failed⟩ (index + 1)
                fun id => (done.tables id).books)

end PruneRows

section PruneNext

variable {ids : KeyOrder NamespaceId} {locked : NamespaceId → Bool} {feeds : ChangeFeeds}
  {cutoff : Nat} {limits : PruneLimits} {after : Option ChangeFeedPruneCursor}

def positions (feeds : ChangeFeeds) (cutoff : Nat) : List ChangeFeedPruneCursor :=
  (expiredRows feeds cutoff).map ExpiredRow.position

theorem mem_positions {position : ChangeFeedPruneCursor} :
    position ∈ positions feeds cutoff ↔ position.namespaceId ∈ feeds.namespaces ∧
      position.occurredAt < cutoff ∧ ∃ event ∈ (feeds.tables position.namespaceId).feedEvents,
        event.occurredAt = position.occurredAt ∧ event.sequence = position.sequence := by
  unfold positions expiredRows
  simp only [List.mem_map, List.mem_flatMap, List.mem_filter, decide_eq_true_eq]
  constructor
  · rintro ⟨_, ⟨id, isId, event, ⟨isEvent, isExpired⟩, rfl⟩, rfl⟩
    exact ⟨isId, isExpired, event, isEvent, rfl, rfl⟩
  · rintro ⟨isId, isExpired, event, isEvent, sameTime, sameSequence⟩
    refine ⟨_, ⟨position.namespaceId, isId, event, ⟨isEvent, by omega⟩, rfl⟩, ?_⟩
    dsimp only
    rw [sameTime, sameSequence]

theorem FeedBooks.nodup_sequences {db : Database} (books : FeedBooks db) :
    (db.feedEvents.map ChangeEvent.sequence).Nodup := by
  cases isFeed : db.feedState with
  | none =>
      rw [books.absent isFeed]
      exact List.nodup_nil
  | some feed =>
      rw [books.stored feed isFeed]
      exact List.nodup_range'

theorem nodup_positions_of_booked (booked : feeds.Booked) : (positions feeds cutoff).Nodup := by
  unfold positions expiredRows
  rw [List.map_flatMap, List.nodup_flatMap]
  refine ⟨fun id _ => ?_, ?_⟩
  · rw [List.map_map]
    refine List.Nodup.of_map ChangeFeedPruneCursor.sequence ?_
    rw [List.map_map]
    exact (booked.books id).nodup_sequences.sublist (List.filter_sublist.map _)
  · refine booked.namespaces.imp fun {left right} different => ?_
    intro position inLeft inRight
    dsimp only at inLeft inRight
    rw [List.map_map] at inLeft inRight
    rcases List.mem_map.mp inLeft with ⟨_, _, rfl⟩
    rcases List.mem_map.mp inRight with ⟨_, _, same⟩
    exact different (congrArg ChangeFeedPruneCursor.namespaceId same).symm

def examinedRows (ids : KeyOrder NamespaceId) (locked : NamespaceId → Bool) (feeds : ChangeFeeds)
    (cutoff : Nat) (limits : PruneLimits) (after : Option ChangeFeedPruneCursor) :
    List ExpiredRow :=
  visitedRows (expiredPage ids feeds cutoff after limits.scanLimit) 0
    (pruneRows locked cutoff limits.batchSize
      (expiredPage ids feeds cutoff after limits.scanLimit) ⟨feeds, 0, 0⟩ 0).2

theorem pruneNext_isPage (booked : feeds.Booked) :
    IsPage (pruneOrder ids) id (positions feeds cutoff) after
      ((examinedRows ids locked feeds cutoff limits after).map ExpiredRow.position)
      (pruneNext ids locked feeds cutoff limits after).next := by
  have spec := pruneRows_spec locked cutoff limits.batchSize_pos
    (expiredPage ids feeds cutoff after limits.scanLimit) ⟨feeds, 0, 0⟩ 0 booked.books
  have isLe : ∀ left right : ExpiredRow,
      (!(pruneOrder ids).before right.position left.position) = true ↔
        (pruneOrder ids).before right.position left.position = false := by
    intro left right
    rw [Bool.not_eq_true']
  generalize isFound : sortBy (fun left right : ExpiredRow =>
      !(pruneOrder ids).before right.position left.position)
    ((expiredRows feeds cutoff).filter fun row =>
      after.all fun after => (pruneOrder ids).before after row.position) = found
  have ordered : (pruneOrder ids).Ordered ExpiredRow.position found := by
    rw [← isFound]
    exact (pruneOrder ids).ordered_insertionSort isLe
      ((nodup_positions_of_booked booked).sublist (List.filter_sublist.map _))
  have selects : ∀ row, row ∈ found ↔ row ∈ expiredRows feeds cutoff ∧
      (pruneOrder ids).after after row.position = true := by
    intro row
    rw [← isFound, sortBy, List.mem_insertionSort, List.mem_filter]
    rfl
  have isPage : expiredPage ids feeds cutoff after limits.scanLimit =
      found.take limits.scanLimit := by
    rw [← isFound]
    rfl
  suffices page : IsPage (pruneOrder ids) ExpiredRow.position (expiredRows feeds cutoff) after
      (examinedRows ids locked feeds cutoff limits after)
      (pruneNext ids locked feeds cutoff limits after).next from page.map ExpiredRow.position
  unfold examinedRows pruneNext
  rw [isPage] at spec ⊢
  dsimp only
  rcases result : pruneRows locked cutoff limits.batchSize (found.take limits.scanLimit)
    ⟨feeds, 0, 0⟩ 0 with ⟨progress, stop⟩
  rw [result] at spec
  cases stop with
  | none =>
      dsimp only [visitedRows]
      by_cases short : (found.take limits.scanLimit).length < limits.scanLimit
      · rw [if_pos short]
        rw [List.length_take] at short
        rw [List.take_of_length_le (by omega)]
        exact isPage_all ordered selects
      · rw [if_neg short]
        refine isPage_front ordered selects (List.ne_nil_of_length_pos ?_)
        have positive := limits.scanLimit_pos
        omega
  | some stop =>
      rcases stop with ⟨examined, row⟩
      rcases spec.stops examined row rfl with ⟨front, rest, isSplit, rfl⟩
      have front_eq : (found.take limits.scanLimit).take (0 + front.length + 1 - 0) =
          found.take (front.length + 1) := by
        have length := congrArg List.length isSplit
        rw [List.length_append, List.length_cons, List.length_take] at length
        rw [List.take_take]
        congr 1
        omega
      have isLast : (found.take (front.length + 1)).getLast? = some row := by
        rw [← front_eq, isSplit, Nat.zero_add, Nat.sub_zero, ← List.singleton_append,
          ← List.append_assoc, List.take_left' (by simp), List.getLast?_concat]
      dsimp only [visitedRows]
      rw [front_eq]
      have nonempty : found.take (front.length + 1) ≠ [] := by
        intro empty
        rw [empty] at isLast
        cases isLast
      have page := isPage_front ordered selects nonempty
      rw [isLast] at page
      exact page

theorem pruneNext_feeds : (pruneNext ids locked feeds cutoff limits after).feeds =
    (pruneRows locked cutoff limits.batchSize
      (expiredPage ids feeds cutoff after limits.scanLimit) ⟨feeds, 0, 0⟩ 0).1.feeds := by
  unfold pruneNext
  dsimp only
  split
  · rename_i result
    rw [result]
  · rename_i result
    rw [result]

theorem pruneNext_pruned (booked : feeds.Booked) :
    FeedsPruned cutoff feeds (pruneNext ids locked feeds cutoff limits after).feeds := by
  rw [pruneNext_feeds]
  exact (pruneRows_spec locked cutoff limits.batchSize_pos _ ⟨feeds, 0, 0⟩ 0 booked.books).pruned

/-- The first event of a feed with an expired prefix is expired, and it has the least sequence. -/
theorem exists_head {id : NamespaceId} (booked : feeds.Booked) (isId : id ∈ feeds.namespaces)
    (nonempty : expiredPrefix cutoff (feeds.tables id) ≠ []) :
    ∃ event rest, (feeds.tables id).feedEvents = event :: rest ∧
      (⟨event.occurredAt, id, event.sequence⟩ : ChangeFeedPruneCursor) ∈ positions feeds cutoff ∧
      ∀ row ∈ expiredRows feeds cutoff,
        row.position = ⟨event.occurredAt, id, event.sequence⟩ → row.isHead = true := by
  unfold expiredPrefix at nonempty
  cases isEvents : (feeds.tables id).feedEvents with
  | nil =>
      rw [isEvents] at nonempty
      exact absurd rfl nonempty
  | cons event rest =>
      have isExpired : event.occurredAt < cutoff := by
        by_contra fresh
        rw [isEvents, List.takeWhile_cons_of_neg (by simpa using fresh)] at nonempty
        exact nonempty rfl
      have least : ∀ other ∈ (feeds.tables id).feedEvents, event.sequence ≤ other.sequence := by
        have books := booked.books id
        cases isFeed : (feeds.tables id).feedState with
        | none =>
            rw [books.absent isFeed] at isEvents
            cases isEvents
        | some feed =>
            have numbered := books.stored feed isFeed
            have first : feed.prunedThrough + 1 = event.sequence := by
              have heads := congrArg List.head? numbered
              rw [isEvents, List.map_cons, List.head?_cons, List.head?_range'] at heads
              split at heads
              · cases heads
              · exact (Option.some.inj heads).symm
            intro other isOther
            have range := books.range isFeed isOther
            omega
      refine ⟨event, rest, rfl, ?_, ?_⟩
      · exact mem_positions.mpr
          ⟨isId, isExpired, event, isEvents ▸ List.mem_cons_self .., rfl, rfl⟩
      · intro row isRow samePosition
        unfold expiredRows at isRow
        rcases List.mem_flatMap.mp isRow with ⟨other, _, inOther⟩
        rcases List.mem_map.mp inOther with ⟨found, _, rfl⟩
        have sameId : other = id := congrArg ChangeFeedPruneCursor.namespaceId samePosition
        have sameSequence : found.sequence = event.sequence :=
          congrArg ChangeFeedPruneCursor.sequence samePosition
        subst sameId
        dsimp only
        rw [List.all_eq_true]
        intro later isLater
        rw [decide_eq_true_iff, sameSequence]
        exact least later isLater

/-- A call that looks at the first event of an unlocked feed deletes something of its prefix. -/
theorem pruneNext_visits (booked : feeds.Booked) {position : ChangeFeedPruneCursor}
    (visited : position ∈
      (examinedRows ids locked feeds cutoff limits after).map ExpiredRow.position)
    (isHead : ∀ row ∈ expiredRows feeds cutoff, row.position = position → row.isHead = true)
    (unlocked : locked position.namespaceId = false)
    (nonempty : expiredPrefix cutoff (feeds.tables position.namespaceId) ≠ []) :
    (expiredPrefix cutoff ((pruneNext ids locked feeds cutoff limits after).feeds.tables
        position.namespaceId)).length <
      (expiredPrefix cutoff (feeds.tables position.namespaceId)).length := by
  have spec := pruneRows_spec locked cutoff limits.batchSize_pos
    (expiredPage ids feeds cutoff after limits.scanLimit) ⟨feeds, 0, 0⟩ 0 booked.books
  rcases List.mem_map.mp visited with ⟨row, isVisited, rfl⟩
  rw [pruneNext_feeds]
  refine spec.heads row isVisited (isHead row ?_ rfl) unlocked nonempty
  have inPage : row ∈ expiredPage ids feeds cutoff after limits.scanLimit := by
    unfold examinedRows visitedRows at isVisited
    split at isVisited
    · exact List.mem_of_mem_take isVisited
    · exact isVisited
  have inFound := List.mem_of_mem_take inPage
  rw [sortBy, List.mem_insertionSort] at inFound
  exact (List.mem_filter.mp inFound).1

end PruneNext

/-! ## Pruning to the end -/

section PruneStage

variable (job : PruneJob τ) {state : PruneWorld × Option ChangeFeedPruneCursor}

theorem iterate_pruned (booked : state.1.feeds.Booked) (count : Nat) :
    FeedsPruned job.cutoff state.1.feeds (job.stage.tick^[count] state).1.feeds := by
  induction count with
  | zero => exact .refl booked.books
  | succ count induction =>
      rw [Function.iterate_succ_apply']
      exact induction.trans (pruneNext_pruned (induction.booked booked))

def PruneJob.examined (state : PruneWorld × Option ChangeFeedPruneCursor) :
    List ChangeFeedPruneCursor :=
  (examinedRows job.ids (job.locked state.1.calls) state.1.feeds job.cutoff job.limits state.2).map
    ExpiredRow.position

theorem FeedsPruned.positions_subset {cutoff : Nat} {feeds next : ChangeFeeds}
    (pruned : FeedsPruned cutoff feeds next) {position : ChangeFeedPruneCursor}
    (member : position ∈ positions next cutoff) : position ∈ positions feeds cutoff := by
  rw [mem_positions] at member ⊢
  rcases member with ⟨isId, isExpired, event, isEvent, rest⟩
  rcases (pruned.tables position.namespaceId).events with ⟨count, _, isNext⟩
  refine ⟨pruned.namespaces ▸ isId, isExpired, event, ?_, rest⟩
  rw [isNext] at isEvent
  exact List.mem_of_mem_drop isEvent

theorem PruneJob.shrinks : job.stage.Shrinks (pruneOrder job.ids) id
    (fun world => positions world.feeds job.cutoff)
    (fun world cursor => job.examined (world, cursor)) fun world => world.feeds.Booked where
  isPage _ _ booked := pruneNext_isPage booked
  keeps _ _ booked := (pruneNext_pruned booked).booked booked
  fewer _ _ booked _ member := (pruneNext_pruned booked).positions_subset member
  distinct _ booked := nodup_positions_of_booked booked

/-- As long as an unlocked feed has an expired prefix, some step deletes from it: in the next
cycle its first event is looked at, unless it is gone by then. -/
theorem exists_shorter (booked : state.1.feeds.Booked) {id : NamespaceId}
    (isId : id ∈ state.1.feeds.namespaces) (unlocked : ∀ call, job.locked call id = false)
    (nonempty : expiredPrefix job.cutoff (state.1.feeds.tables id) ≠ []) :
    ∃ count, (expiredPrefix job.cutoff
        ((job.stage.tick^[count] state).1.feeds.tables id)).length <
      (expiredPrefix job.cutoff (state.1.feeds.tables id)).length := by
  by_contra never
  rw [not_exists] at never
  have pruned := iterate_pruned job booked
  have same : ∀ count, ((job.stage.tick^[count] state).1.feeds.tables id).feedEvents =
      (state.1.feeds.tables id).feedEvents := by
    intro count
    have less := ((pruned count).tables id).length_le
    have notLess := never count
    exact ((pruned count).tables id).events_eq (by omega)
  have samePrefix : ∀ count, expiredPrefix job.cutoff
      ((job.stage.tick^[count] state).1.feeds.tables id) =
      expiredPrefix job.cutoff (state.1.feeds.tables id) := by
    intro count
    unfold expiredPrefix
    rw [same count]
  rcases exists_head booked isId nonempty with ⟨event, rest, isEvents, _, _⟩
  have heads : ∀ count, (⟨event.occurredAt, id, event.sequence⟩ : ChangeFeedPruneCursor) ∈
      positions (job.stage.tick^[count] state).1.feeds job.cutoff ∧
      ∀ row ∈ expiredRows (job.stage.tick^[count] state).1.feeds job.cutoff,
        row.position = ⟨event.occurredAt, id, event.sequence⟩ → row.isHead = true := by
    intro count
    have laterBooked := (pruned count).booked booked
    have laterId : id ∈ (job.stage.tick^[count] state).1.feeds.namespaces :=
      (pruned count).namespaces ▸ isId
    rcases exists_head laterBooked laterId (by rw [samePrefix count]; exact nonempty) with
      ⟨other, others, isOthers, inside, isHead⟩
    rw [same count, isEvents] at isOthers
    cases isOthers
    exact ⟨inside, isHead⟩
  rcases job.shrinks.exists_scan booked with ⟨first, _, _, _, atStart⟩
  rcases job.shrinks.exists_scan ((pruned (first + 1)).booked booked) with
    ⟨second, pages, scan, isPages, _⟩
  rw [atStart] at scan
  have present : ∀ page ∈ pages,
      (⟨event.occurredAt, id, event.sequence⟩ : ChangeFeedPruneCursor) ∈ page.1 := by
    intro page isPage
    rcases isPages page isPage with ⟨index, _, rfl⟩
    rw [← Function.iterate_add_apply]
    exact (heads _).1
  have visited := scan.visits present rfl nofun
  rcases List.mem_flatten.mp visited with ⟨items, isItems, inItems⟩
  rcases List.mem_map.mp isItems with ⟨page, isPage, rfl⟩
  rcases isPages page isPage with ⟨index, _, rfl⟩
  rw [← Function.iterate_add_apply] at inItems
  have less := pruneNext_visits ((pruned _).booked booked) inItems (heads _).2 (unlocked _)
    (by rw [samePrefix]; exact nonempty)
  rw [samePrefix] at less
  exact never (index + (first + 1) + 1) (by rw [Function.iterate_succ_apply']; exact less)

theorem eventually_pruned (booked : state.1.feeds.Booked) {id : NamespaceId}
    (isId : id ∈ state.1.feeds.namespaces) (unlocked : ∀ call, job.locked call id = false) :
    ∃ enough, ∀ count, enough ≤ count →
      expiredPrefix job.cutoff ((job.stage.tick^[count] state).1.feeds.tables id) = [] := by
  induction size : (expiredPrefix job.cutoff (state.1.feeds.tables id)).length using
    Nat.strong_induction_on generalizing state with
  | _ bound induction =>
      by_cases nonempty : expiredPrefix job.cutoff (state.1.feeds.tables id) = []
      · refine ⟨0, fun count _ => List.eq_nil_of_length_eq_zero ?_⟩
        have less := ((iterate_pruned job booked count).tables id).length_le
        rw [nonempty, List.length_nil] at less
        omega
      · rcases exists_shorter job booked isId unlocked nonempty with ⟨first, shorter⟩
        have pruned := iterate_pruned job booked first
        rcases induction _ (size ▸ shorter) (pruned.booked booked) (pruned.namespaces ▸ isId) rfl
          with ⟨enough, all⟩
        refine ⟨enough + first, fun count isEnough => ?_⟩
        have gone := all (count - first) (by omega)
        rw [← Function.iterate_add_apply, Nat.sub_add_cancel (by omega)] at gone
        exact gone

end PruneStage

/-! ## The stages -/

/-- What a stage over an ordered table does. Its calls go on from each other, run after run; a
cursor that cannot be read only starts the stage over. From the start of the order to its end,
every row that stays is visited, and no row twice: what comes up before the cursor is visited in
the next cycle. -/
structure VisitsAll (budgetLimit : Nat) (stage : CursorStage ω γ τ) (rows : ω → List α)
    (items : ω → Option γ → List α) : Prop where
  resumes : ∀ runs, stage.Successive budgetLimit runs →
    ((runs.map (stage.calls budgetLimit)).flatten).IsChain
      (stage.Resumes (∃ run ∈ runs, stage.Unreadable run.2))
  restarts : ∀ world stored, stage.Unreadable stored →
    stage.run budgetLimit (world, stored) = stage.run budgetLimit (world, none)
  cycles : ∀ runs, stage.Successive budgetLimit runs → ∀ before first rest after last,
    (runs.map (stage.calls budgetLimit)).flatten = before ++ (first :: rest) ++ after →
    first.2 = none → (∀ call ∈ rest, call.2 ≠ none) → (first :: rest).getLast? = some last →
    (stage.step last.1 last.2).next = none →
    (((first :: rest).map fun call => items call.1 call.2).flatten).Nodup ∧
      ∀ row, (∀ call ∈ first :: rest, row ∈ rows call.1) →
        row ∈ ((first :: rest).map fun call => items call.1 call.2).flatten

theorem visitsAll (budgetLimit : Nat) {stage : CursorStage ω γ τ} {order : KeyOrder γ}
    {key : α → γ} {rows : ω → List α} {items : ω → Option γ → List α}
    (readable : ∀ cursor, stage.parse (stage.text cursor) = some cursor)
    (isPage : ∀ world cursor, IsPage order key (rows world) cursor (items world cursor)
      (stage.step world cursor).next) : VisitsAll budgetLimit stage rows items := by
  refine ⟨fun runs successive => ?_, fun world stored unreadable => ?_, ?_⟩
  · exact successive.resumes readable fun run isRun unreadable => ⟨run, isRun, unreadable⟩
  · unfold CursorStage.run
    dsimp only
    rw [unreadable.readCursor]
    rfl
  · intro runs successive before first rest after last isCalls isStart within isLast isEnd
    have isChain := successive.resumes readable fun _ _ _ => trivial
    rw [isCalls] at isChain
    have scan := CursorStage.scan_of_isChain isPage
      isChain.left_of_append.right_of_append within isLast
    rw [isStart, isEnd] at scan
    have isScanned : scanned ((first :: rest).map fun call => (rows call.1, items call.1 call.2)) =
        ((first :: rest).map fun call => items call.1 call.2).flatten := by
      unfold scanned
      rw [List.map_map]
      rfl
    rw [← isScanned]
    refine ⟨scan.ordered.nodup, fun row present => scan.visits (fun page isPage => ?_) rfl nofun⟩
    rcases List.mem_map.mp isPage with ⟨call, isCall, rfl⟩
    exact present call isCall

/-- A run takes no more steps than its budget, whatever they return: the log and the count leave
the run as it is. A stage over an ordered table visits every row that stays. Pruning the change
feed again and again, with time standing still, deletes from every namespace that nobody locks
the expired events at the front, and nothing else. -/
theorem stages_starve_nothing {budgetLimit : Nat} (positive : 1 ≤ budgetLimit) :
    (∀ (stage : CursorStage ω γ τ) state,
      (stage.calls budgetLimit state).length ≤ budgetLimit) ∧
      (∀ (step : ω → ω × Bool × Nat) world,
        (runBudgetedStage (countedStep step) budgetLimit (world, 0)).1 =
            runBudgetedStage step budgetLimit world ∧
          (runBudgetedStage (countedStep step) budgetLimit (world, 0)).2 ≤ budgetLimit) ∧
      (∀ (stage : CursorStage ω γ τ) (order : KeyOrder γ) (key : α → γ) (rows : ω → List α)
        (items : ω → Option γ → List α),
        (∀ cursor, stage.parse (stage.text cursor) = some cursor) →
        (∀ world cursor, IsPage order key (rows world) cursor (items world cursor)
          (stage.step world cursor).next) →
        VisitsAll budgetLimit stage rows items) ∧
      ∀ (job : PruneJob τ) (feeds : ChangeFeeds) calls stored, feeds.namespaces.Nodup →
        (∀ id, ∃ host, Reachable host (feeds.tables id)) →
        ∀ id ∈ feeds.namespaces, (∀ call, job.locked call id = false) →
        ∃ enough, ∀ runs, enough ≤ runs →
          (((job.stage.run budgetLimit)^[runs] (⟨feeds, calls⟩, stored)).1.feeds.tables
              id).feedEvents =
            (feeds.tables id).feedEvents.dropWhile fun event => event.occurredAt < job.cutoff := by
  refine ⟨fun stage => stage.length_calls positive, fun step world => ?_,
    fun stage order key rows items readable isPage => visitsAll budgetLimit readable isPage, ?_⟩
  · rcases countedStep_loop step budgetLimit world 0 0 with ⟨same, few⟩
    exact ⟨same, by unfold runBudgetedStage; omega⟩
  · intro job feeds calls stored distinct reached id isId unlocked
    have booked : feeds.Booked := by
      refine ⟨distinct, fun other => ?_⟩
      rcases reached other with ⟨host, isReached⟩
      exact isReached.feedBooks
    let begins : PruneWorld × Option ChangeFeedPruneCursor :=
      (⟨feeds, calls⟩, job.stage.readCursor stored)
    have isBegin : begins.1.feeds.Booked := booked
    rcases eventually_pruned job isBegin isId unlocked with ⟨enough, all⟩
    refine ⟨enough, fun runs isEnough => ?_⟩
    have readable : ∀ cursor, job.stage.parse (job.stage.text cursor) = some cursor :=
      job.parse_text
    rcases CursorStage.run_iterate readable budgetLimit (⟨feeds, calls⟩, stored) runs with
      ⟨count, more, same⟩
    have isWorld := congrArg Prod.fst same
    dsimp only at isWorld
    rw [isWorld]
    exact ((iterate_pruned job isBegin count).tables id).events_of_nil (all count (by omega))

namespace Small

def expiredFeeds : ChangeFeeds where
  namespaces := [⟨none, 1⟩, ⟨none, 2⟩]
  tables := fun _ => forgotten

def pruneJob : PruneJob ChangeFeedPruneCursor where
  ids := idOrder
  locked := fun _ id => id.uuid == 2
  cutoff := 4
  limits := ⟨1, 1, by decide, by decide, by decide, by decide⟩
  text := id
  parse := some
  parse_text := fun _ => rfl

end Small

/-- With pages, batches and a budget of one, the events of the first namespace are deleted. -/
theorem stages_starve_nothing_small :
    Small.forgotten.feedEvents.length = 3 ∧
    ∃ enough, ∀ runs, enough ≤ runs →
      ((((Small.pruneJob.stage.run 1)^[runs] (⟨Small.expiredFeeds, 0⟩, none)).1.feeds.tables
        ⟨none, 1⟩).feedEvents = []) := by
  have length : Small.forgotten.feedEvents.length = 3 := by decide +kernel
  have all : Small.forgotten.feedEvents.dropWhile (fun event => event.occurredAt < 4) = [] := by
    decide +kernel
  have isTables : ∀ id, Small.expiredFeeds.tables id = Small.forgotten := by
    intro id
    unfold Small.expiredFeeds
    with_reducible rfl
  have reached : ∀ id, ∃ host, Reachable host (Small.expiredFeeds.tables id) := by
    intro id
    rw [isTables]
    exact ⟨_, Small.reachable_forgotten⟩
  have pruned := (stages_starve_nothing (ω := Unit) (γ := Unit) (τ := ChangeFeedPruneCursor)
    (α := Unit) (Nat.le_refl 1)).2.2.2 Small.pruneJob Small.expiredFeeds 0 none
    (by decide) reached ⟨none, 1⟩ (by decide) (fun _ => rfl)
  rcases pruned with ⟨enough, isPruned⟩
  refine ⟨length, enough, fun runs isEnough => ?_⟩
  have isCutoff : Small.pruneJob.cutoff = 4 := rfl
  have final := isPruned runs isEnough
  rw [isTables, isCutoff, all] at final
  exact final

end Storix
