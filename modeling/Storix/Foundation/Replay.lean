import Mathlib.Data.List.Basic
import Mathlib.Logic.Function.Basic

/-! # Replay

A store maps keys to values. A log names keys, each with what it holds from then on;
replaying the log sets them in order. A log explains the way from one store to another
when it names every key that differs and ends each key it names at its last value. -/

namespace Storix.Foundation

variable {κ α : Type} [DecidableEq κ]

def replay (store : κ → Option α) (log : List (κ × Option α)) : κ → Option α :=
  log.foldl (fun store entry => Function.update store entry.1 entry.2) store

theorem replay_cons (store : κ → Option α) (entry : κ × Option α)
    (log : List (κ × Option α)) :
    replay store (entry :: log) = replay (Function.update store entry.1 entry.2) log := rfl

theorem replay_append (store : κ → Option α) (left right : List (κ × Option α)) :
    replay store (left ++ right) = replay (replay store left) right := List.foldl_append

theorem replay_of_not_mem {log : List (κ × Option α)} {key : κ}
    (absent : key ∉ log.map Prod.fst) (store : κ → Option α) :
    replay store log key = store key := by
  induction log generalizing store with
  | nil => rfl
  | cons entry rest induction =>
      rw [List.map_cons, List.mem_cons, not_or] at absent
      rw [replay_cons, induction absent.2, Function.update_of_ne absent.1]

/-- Where all entries of the log agree with a store, the keys it names end there. -/
theorem replay_of_mem {log : List (κ × Option α)} {after : κ → Option α}
    (agrees : ∀ entry ∈ log, entry.2 = after entry.1) {key : κ}
    (named : key ∈ log.map Prod.fst) (store : κ → Option α) :
    replay store log key = after key := by
  induction log generalizing store with
  | nil => cases named
  | cons entry rest induction =>
      have restAgrees : ∀ other ∈ rest, other.2 = after other.1 :=
        fun other isOther => agrees other (List.mem_cons_of_mem _ isOther)
      rw [replay_cons]
      by_cases later : key ∈ rest.map Prod.fst
      · exact induction restAgrees later _
      · have isKey : key = entry.1 := (List.mem_cons.mp named).resolve_right later
        rw [replay_of_not_mem later, isKey, Function.update_self]
        exact agrees entry List.mem_cons_self

structure Explains (before : κ → Option α) (log : List (κ × Option α))
    (after : κ → Option α) : Prop where
  unnamed : ∀ key, key ∉ log.map Prod.fst → before key = after key
  named : ∀ key, key ∈ log.map Prod.fst → ∀ store, replay store log key = after key

theorem Explains.refl (store : κ → Option α) : Explains store [] store where
  unnamed := fun _ _ => rfl
  named := fun _ isNamed => by cases isNamed

/-- One operation: the log names what differs, at its value afterwards. -/
theorem Explains.of_difference {before after : κ → Option α} {log : List (κ × Option α)}
    (agrees : ∀ entry ∈ log, entry.2 = after entry.1)
    (covers : ∀ key, before key ≠ after key → key ∈ log.map Prod.fst) :
    Explains before log after where
  unnamed := fun key absent => not_not.mp fun differs => absent (covers key differs)
  named := fun _ isNamed store => replay_of_mem agrees isNamed store

theorem Explains.trans {first middle last : κ → Option α} {left right : List (κ × Option α)}
    (begins : Explains first left middle) (continues : Explains middle right last) :
    Explains first (left ++ right) last where
  unnamed := by
    intro key absent
    rw [List.map_append, List.mem_append, not_or] at absent
    exact (begins.unnamed key absent.1).trans (continues.unnamed key absent.2)
  named := by
    intro key isNamed store
    rw [replay_append]
    by_cases later : key ∈ right.map Prod.fst
    · exact continues.named key later _
    · rw [List.map_append, List.mem_append] at isNamed
      rw [replay_of_not_mem later, begins.named key (isNamed.resolve_right later)]
      exact continues.unnamed key later

/-- A reader whose store is right wherever the log is silent ends at the last store. -/
theorem Explains.replay_eq {before after : κ → Option α} {log : List (κ × Option α)}
    (explains : Explains before log after) {store : κ → Option α}
    (silent : ∀ key, key ∉ log.map Prod.fst → store key = after key) :
    replay store log = after := by
  funext key
  by_cases isNamed : key ∈ log.map Prod.fst
  · exact explains.named key isNamed store
  · rw [replay_of_not_mem isNamed]
    exact silent key isNamed

end Storix.Foundation
