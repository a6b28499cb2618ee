import Mathlib.Algebra.GroupWithZero.Nat
import Mathlib.Algebra.Ring.Int.Defs
import Mathlib.Data.List.Nodup
import Mathlib.Algebra.Order.BigOperators.Group.List

/-! # Rows

An UPDATE rewrites the rows that pass a test and a DELETE drops them. Where the test names
one row, a sum over the table changes by what that row contributes. -/

namespace Storix.Foundation

variable {ρ κ α : Type} {rows : List ρ} {test : ρ → Bool} {row : ρ}

def updated (test : ρ → Bool) (transform : ρ → ρ) (rows : List ρ) : List ρ :=
  rows.map fun row => if test row then transform row else row

def remaining (test : ρ → Bool) (rows : List ρ) : List ρ :=
  rows.filter fun row => !test row

structure Names (rows : List ρ) (test : ρ → Bool) (row : ρ) : Prop where
  member : row ∈ rows
  passes : test row = true
  only : ∀ other ∈ rows, test other = true → other = row

theorem names_of_key {key : ρ → κ} (nodup : (rows.map key).Nodup) (member : row ∈ rows)
    (passes : test row = true) (pinned : ∀ other ∈ rows, test other = true → key other = key row) :
    Names rows test row where
  member := member
  passes := passes
  only := fun other isOther isTrue =>
    List.inj_on_of_nodup_map nodup isOther member (pinned other isOther isTrue)

/-- Rewriting that keeps a column keeps the column of the whole table. -/
theorem map_updated {transform : ρ → ρ} (column : ρ → α)
    (keeps : ∀ row ∈ rows, test row = true → column (transform row) = column row) :
    (updated test transform rows).map column = rows.map column := by
  unfold updated
  rw [List.map_map]
  refine List.map_congr_left fun row member => ?_
  rw [Function.comp_apply]
  split
  · rename_i passes
    exact keeps row member passes
  · rfl

theorem mem_updated {transform : ρ → ρ} {next : ρ} (member : next ∈ updated test transform rows) :
    (∃ row ∈ rows, test row = true ∧ next = transform row) ∨ next ∈ rows ∧ test next = false := by
  rcases List.mem_map.mp member with ⟨row, isRow, same⟩
  split at same
  · rename_i passes
    exact .inl ⟨row, isRow, passes, same.symm⟩
  · rename_i fails
    rw [Bool.not_eq_true] at fails
    subst same
    exact .inr ⟨isRow, fails⟩

theorem updated_of_false {transform : ρ → ρ} (fails : ∀ row ∈ rows, test row = false) :
    updated test transform rows = rows := by
  unfold updated
  have same : ∀ row ∈ rows, (if test row = true then transform row else row) = row :=
    fun row member => if_neg (by rw [fails row member]; exact Bool.false_ne_true)
  rw [List.map_congr_left same, List.map_id']

theorem sum_updated (nodup : rows.Nodup) (names : Names rows test row) (transform : ρ → ρ)
    (measure : ρ → Int) :
    ((updated test transform rows).map measure).sum =
      (rows.map measure).sum + (measure (transform row) - measure row) := by
  induction rows with
  | nil => cases names.member
  | cons first rest induction =>
      have parts := List.nodup_cons.mp nodup
      have split : updated test transform (first :: rest) =
          (if test first then transform first else first) :: updated test transform rest := rfl
      rw [split, List.map_cons, List.sum_cons, List.map_cons, List.sum_cons]
      by_cases same : first = row
      · subst same
        have others : ∀ other ∈ rest, test other = false := by
          intro other isOther
          by_contra passes
          rw [Bool.not_eq_false] at passes
          exact parts.1 (names.only other (List.mem_cons_of_mem _ isOther) passes ▸ isOther)
        rw [updated_of_false others, if_pos names.passes]
        omega
      · have fails : test first ≠ true := fun passes =>
          same (names.only first List.mem_cons_self passes)
        have below : Names rest test row :=
          ⟨(List.mem_cons.mp names.member).resolve_left fun isRow => same isRow.symm,
            names.passes, fun other isOther => names.only other (List.mem_cons_of_mem _ isOther)⟩
        rw [if_neg fails, induction parts.2 below]
        omega

theorem sum_remaining (nodup : rows.Nodup) (names : Names rows test row) (measure : ρ → Int) :
    ((remaining test rows).map measure).sum = (rows.map measure).sum - measure row := by
  induction rows with
  | nil => cases names.member
  | cons first rest induction =>
      have parts := List.nodup_cons.mp nodup
      unfold remaining at induction ⊢
      by_cases same : first = row
      · subst same
        have others : rest.filter (fun other => !test other) = rest := by
          refine List.filter_eq_self.mpr fun other isOther => ?_
          by_contra passes
          rw [Bool.not_eq_true, Bool.not_eq_false'] at passes
          exact parts.1 (names.only other (List.mem_cons_of_mem _ isOther) passes ▸ isOther)
        rw [List.filter_cons_of_neg (by simp [names.passes]), others, List.map_cons, List.sum_cons]
        omega
      · have fails : test first = false := by
          by_contra passes
          rw [Bool.not_eq_false] at passes
          exact same (names.only first List.mem_cons_self passes)
        have below : Names rest test row :=
          ⟨(List.mem_cons.mp names.member).resolve_left fun isRow => same isRow.symm,
            names.passes, fun other isOther => names.only other (List.mem_cons_of_mem _ isOther)⟩
        rw [List.filter_cons_of_pos (by simp [fails]), List.map_cons, List.sum_cons,
          induction parts.2 below, List.map_cons, List.sum_cons]
        omega

theorem sum_remaining_of_zero {measure : ρ → Int}
    (zero : ∀ row ∈ rows, test row = true → measure row = 0) :
    ((remaining test rows).map measure).sum = (rows.map measure).sum := by
  induction rows with
  | nil => rfl
  | cons first rest induction =>
      have below := induction fun row member => zero row (List.mem_cons_of_mem _ member)
      unfold remaining at below ⊢
      by_cases passes : test first = true
      · rw [List.filter_cons_of_neg (by simp [passes]), below, List.map_cons, List.sum_cons,
          zero first List.mem_cons_self passes, Int.zero_add]
      · rw [List.filter_cons_of_pos (by simpa using passes), List.map_cons, List.sum_cons, below,
          List.map_cons, List.sum_cons]

theorem filter_updated {keep : ρ → Bool} {transform : ρ → ρ}
    (outside : ∀ row ∈ rows, test row = true → keep row = false ∧ keep (transform row) = false) :
    (updated test transform rows).filter keep = rows.filter keep := by
  induction rows with
  | nil => rfl
  | cons first rest induction =>
      have below := induction fun row member => outside row (List.mem_cons_of_mem _ member)
      have split : updated test transform (first :: rest) =
          (if test first then transform first else first) :: updated test transform rest := rfl
      rw [split]
      by_cases passes : test first = true
      · rcases outside first List.mem_cons_self passes with ⟨before, after⟩
        rw [if_pos passes, List.filter_cons_of_neg (by simp [after]), below,
          List.filter_cons_of_neg (by simp [before])]
      · rw [if_neg passes, List.filter_cons, List.filter_cons, below]

theorem filter_remaining {keep : ρ → Bool}
    (outside : ∀ row ∈ rows, test row = true → keep row = false) :
    (remaining test rows).filter keep = rows.filter keep := by
  unfold remaining
  rw [List.filter_filter]
  refine List.filter_congr fun row member => ?_
  by_cases passes : test row = true
  · rw [outside row member passes, Bool.false_and]
  · rw [Bool.not_eq_true] at passes
    rw [passes, Bool.not_false, Bool.and_true]

end Storix.Foundation
