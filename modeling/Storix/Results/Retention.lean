import Mathlib.Algebra.Order.BigOperators.Group.List
import Mathlib.Algebra.Order.Group.Nat
import Storix.Jobs.Retention
import Storix.Results.GcStages

/-! # Items that keep failing

A file that cannot be deleted blocks nothing, because the stage goes on from its cursor. A trash
item that cannot be purged stays in front of the later ones, and a batch is full of such items as
soon as there are as many of them as a batch has rows. -/

namespace Storix

open Foundation

variable {α κ : Type}

/-! ## The front of an ordered table -/

theorem mem_take_of_few {rows front rest : List α} {row : α}
    (isSplit : rows = front ++ row :: rest) {limit : Nat} (few : front.length < limit) :
    row ∈ rows.take limit := by
  rw [isSplit, List.take_append, List.mem_append]
  right
  have positive : limit - front.length = (limit - front.length - 1) + 1 := by omega
  rw [positive, List.take_succ_cons]
  exact List.mem_cons_self

theorem not_mem_take_of_many {order : KeyOrder κ} {key : α → κ} {rows : List α}
    (ordered : order.Ordered key rows) {row : α} {limit : Nat}
    (many : limit ≤ (rows.filter fun other => order.before (key other) (key row)).length) :
    row ∉ rows.take limit := by
  intro member
  have ⟨front, rest, isFront⟩ := List.append_of_mem member
  have isRows : rows = front ++ row :: (rest ++ rows.drop limit) := by
    have parts := List.take_append_drop limit rows
    rw [isFront, List.append_assoc, List.cons_append] at parts
    exact parts.symm
  rw [isRows] at ordered many
  have later : ∀ other ∈ row :: (rest ++ rows.drop limit),
      order.before (key other) (key row) = false := by
    intro other isOther
    have afterRow := (List.pairwise_append.mp ordered).2.1
    cases List.mem_cons.mp isOther with
    | inl isRow =>
        rw [isRow]
        exact order.irrefl _
    | inr isLater => exact order.asymm ((List.pairwise_cons.mp afterRow).1 other isLater)
  have none : (row :: (rest ++ rows.drop limit)).filter
      (fun other => order.before (key other) (key row)) = [] := by
    apply List.filter_eq_nil_iff.mpr
    intro other isOther
    rw [later other isOther]
    exact Bool.false_ne_true
  rw [List.filter_append, none, List.append_nil] at many
  have short := List.length_filter_le (fun other => order.before (key other) (key row)) front
  have length := congrArg List.length isFront
  rw [List.length_take, List.length_append, List.length_cons] at length
  omega

/-! ## Loops that delete rows -/

section Loops

variable {σ : Type} (rowId : α → Uuid) (gone : α → Bool)

def outlasts (batch : List α) (other : α) : Bool :=
  batch.all fun row => !gone row || rowId row != rowId other

variable {rowId gone}

theorem foldl_outlasts {turn : σ → α → σ} {table : σ → List α}
    (turns : ∀ state row, table (turn state row) =
      if gone row then
        Foundation.remaining (fun other => rowId other == rowId row) (table state)
      else table state) (batch : List α) (state : σ) :
    table (batch.foldl turn state) = (table state).filter (outlasts rowId gone batch) := by
  induction batch generalizing state with
  | nil => exact (List.filter_eq_self.mpr fun _ _ => rfl).symm
  | cons row rest induction =>
      rw [List.foldl_cons, induction, turns]
      cases isGone : gone row with
      | true =>
          rw [if_pos rfl, Foundation.remaining, List.filter_filter]
          apply List.filter_congr
          intro other _
          have symmetric : (rowId row == rowId other) = (rowId other == rowId row) := by
            rw [Bool.eq_iff_iff, beq_iff_eq, beq_iff_eq]
            exact eq_comm
          simp [outlasts, isGone, bne, symmetric, Bool.and_comm]
      | false =>
          rw [if_neg Bool.false_ne_true]
          apply List.filter_congr
          intro other _
          simp [outlasts, isGone]

theorem outlasts_iff {rows batch : List α} (ids : (rows.map rowId).Nodup)
    (within : ∀ row ∈ batch, row ∈ rows) {other : α} (member : other ∈ rows) :
    outlasts rowId gone batch other = true ↔ (other ∈ batch → gone other = false) := by
  rw [outlasts, List.all_eq_true]
  constructor
  · intro kept isOther
    have isKept := kept other isOther
    simpa using isKept
  · intro kept row isRow
    by_cases same : rowId row = rowId other
    · have isSame := List.inj_on_of_nodup_map ids (within row isRow) member same
      rw [isSame] at isRow
      rw [isSame, kept isRow]
      rfl
    · simp [same]

end Loops

/-! ## Trash items -/

/-- The rows of `vfs_trash`. Every counted node is a row of another table. -/
structure TrashTable where
  rows : List ExpiringTrash
  ids : (rows.map ExpiringTrash.id).Nodup
  nodes : (rows.map ExpiringTrash.nodeCount).sum ≤ 9007199254740991

namespace TrashRetention

variable (job : TrashRetention) {rows : List ExpiringTrash}

theorem purgeRow_rows (progress : List ExpiringTrash × PrunedTrashBatch) (row : ExpiringTrash) :
    (job.purgeRow progress row).1 =
      if (job.purge row).isNone then
        Foundation.remaining (fun other => other.id == row.id) progress.1
      else progress.1 := by
  rw [purgeRow]
  cases purged : job.purge row with
  | none => rfl
  | some error =>
      cases error with
      | trashItemNotFound => rfl
      | namespaceNotFound => rfl
      | nodeNotFound =>
          dsimp only
          split
          · rfl
          · rfl
      | unexpected => rfl

def after (rows : List ExpiringTrash) : List ExpiringTrash := (job.pruneTrash rows).1

theorem mem_selected {row : ExpiringTrash} {limit : Nat} (member : row ∈ job.selected rows limit) :
    row ∈ rows ∧ job.isDue row = true := by
  have inSorted := List.mem_of_mem_take member
  rw [sortBy, List.mem_insertionSort] at inSorted
  exact List.mem_filter.mp inSorted

theorem sum_selected_le (rows : List ExpiringTrash) (limit : Nat) :
    ((job.selected rows limit).map ExpiringTrash.nodeCount).sum ≤
      (rows.map ExpiringTrash.nodeCount).sum := by
  have perm : (sortBy (fun left right => !job.order.before (position right) (position left))
      (rows.filter job.isDue)).Perm (rows.filter job.isDue) := List.perm_insertionSort _ _
  calc ((job.selected rows limit).map ExpiringTrash.nodeCount).sum
      ≤ ((sortBy (fun left right => !job.order.before (position right) (position left))
          (rows.filter job.isDue)).map ExpiringTrash.nodeCount).sum :=
        ((List.take_sublist _ _).map _).sum_le_sum fun _ _ => Nat.zero_le _
    _ = ((rows.filter job.isDue).map ExpiringTrash.nodeCount).sum := (perm.map _).sum_eq
    _ ≤ (rows.map ExpiringTrash.nodeCount).sum :=
        (List.filter_sublist.map _).sum_le_sum fun _ _ => Nat.zero_le _

theorem after_eq (table : TrashTable) :
    job.after table.rows =
      table.rows.filter (outlasts ExpiringTrash.id (fun row => (job.purge row).isNone)
        (job.selected table.rows CLEANUP_BATCH_SIZE)) := by
  have countable := (job.sum_selected_le table.rows CLEANUP_BATCH_SIZE).trans table.nodes
  rw [after, pruneTrash, pruneExpiredBatch, if_neg (Nat.not_lt.mpr countable)]
  exact foldl_outlasts job.purgeRow_rows _ _

def tableAfter (table : TrashTable) : TrashTable where
  rows := job.after table.rows
  ids := by
    rw [after_eq]
    exact table.ids.sublist (List.filter_sublist.map _)
  nodes := by
    rw [after_eq]
    exact ((List.filter_sublist.map _).sum_le_sum fun _ _ => Nat.zero_le _).trans table.nodes

theorem mem_after (table : TrashTable) {row : ExpiringTrash} :
    row ∈ job.after table.rows ↔ row ∈ table.rows ∧
      (row ∈ job.selected table.rows CLEANUP_BATCH_SIZE → job.purge row ≠ none) := by
  rw [after_eq, List.mem_filter]
  apply and_congr_right
  intro member
  rw [outlasts_iff table.ids (fun row isSelected => (job.mem_selected isSelected).1) member]
  simp [Option.ne_none_iff_isSome]

/-! ### Items in front of others -/

def failingBefore (rows : List ExpiringTrash) (row : ExpiringTrash) : Nat :=
  (rows.filter fun other => job.isDue other && (job.purge other).isSome &&
    job.order.before (position other) (position row)).length

def sorted (rows : List ExpiringTrash) : List ExpiringTrash :=
  sortBy (fun left right => !job.order.before (position right) (position left))
    (rows.filter job.isDue)

theorem sorted_perm (rows : List ExpiringTrash) :
    (job.sorted rows).Perm (rows.filter job.isDue) :=
  List.perm_insertionSort _ _

theorem sorted_ordered (table : TrashTable) :
    job.order.Ordered position (job.sorted table.rows) := by
  have isLe : ∀ left right : ExpiringTrash,
      (!job.order.before (position right) (position left)) = true ↔
        job.order.before (position right) (position left) = false := by
    intro left right
    rw [Bool.not_eq_true']
  apply job.order.ordered_insertionSort isLe
  apply List.Nodup.of_map fun place : Nat × NamespaceId × Uuid => place.2.2
  rw [List.map_map]
  exact table.ids.sublist (List.filter_sublist.map _)

theorem failingBefore_after (table : TrashTable) (row : ExpiringTrash) :
    job.failingBefore (job.after table.rows) row = job.failingBefore table.rows row := by
  rw [failingBefore, failingBefore, after_eq, List.filter_filter]
  apply congrArg List.length
  apply List.filter_congr
  intro other member
  by_cases fails : (job.purge other).isSome = true
  · have stays : other ∈ job.after table.rows := by
      apply (job.mem_after table).mpr
      exact ⟨member, fun _ => Option.isSome_iff_ne_none.mp fails⟩
    rw [after_eq] at stays
    rw [(List.mem_filter.mp stays).2, Bool.and_true]
  · rw [Bool.not_eq_true] at fails
    rw [fails, Bool.and_false, Bool.false_and, Bool.false_and]

theorem not_selected_of_many (table : TrashTable) {row : ExpiringTrash} {limit : Nat}
    (many : limit ≤ job.failingBefore table.rows row) :
    row ∉ job.selected table.rows limit := by
  apply not_mem_take_of_many (job.sorted_ordered table)
  have perm := (job.sorted_perm table.rows).filter fun other =>
    job.order.before (position other) (position row)
  rw [perm.length_eq, List.filter_filter]
  apply many.trans
  rw [failingBefore]
  apply List.Sublist.length_le
  apply List.monotone_filter_right
  intro other passes
  rw [Bool.and_eq_true, Bool.and_eq_true] at passes
  rw [Bool.and_eq_true]
  exact ⟨passes.2, passes.1.1⟩

/-- An item that few others hold up, in front of all that can be purged, is selected. -/
theorem exists_selected (table : TrashTable) {limit : Nat}
    (few : ∀ row ∈ table.rows, job.isDue row = true → job.purge row = none →
      job.failingBefore table.rows row < limit)
    {row : ExpiringTrash} (member : row ∈ table.rows) (isDue : job.isDue row = true)
    (purged : job.purge row = none) :
    ∃ first ∈ job.selected table.rows limit, job.purge first = none := by
  have inSorted : row ∈ job.sorted table.rows :=
    (job.sorted_perm table.rows).mem_iff.mpr (List.mem_filter.mpr ⟨member, isDue⟩)
  cases found : (job.sorted table.rows).find? fun other => (job.purge other).isNone with
  | none =>
      have absent := List.find?_eq_none.mp found row inSorted
      simp [purged] at absent
  | some first =>
      have ⟨isPurged, front, rest, isSplit, fails⟩ := List.find?_eq_some_iff_append.mp found
      have firstIn : first ∈ job.sorted table.rows := List.mem_of_find?_eq_some found
      have ⟨inRows, firstDue⟩ := List.mem_filter.mp
        ((job.sorted_perm table.rows).mem_iff.mp firstIn)
      rw [Option.isNone_iff_eq_none] at isPurged
      have ordered := job.sorted_ordered table
      rw [isSplit] at ordered
      have across := (List.pairwise_append.mp ordered).2.2
      -- What is in front of it is due, before it, and cannot be purged.
      have short : front.length ≤ job.failingBefore table.rows first := by
        have perm := (job.sorted_perm table.rows).filter fun other =>
          (job.purge other).isSome && job.order.before (position other) (position first)
        have isFront : front.filter (fun other => (job.purge other).isSome &&
            job.order.before (position other) (position first)) = front := by
          apply List.filter_eq_self.mpr
          intro other isOther
          rw [Bool.and_eq_true]
          refine ⟨?_, across other isOther first List.mem_cons_self⟩
          have notPurged := fails other isOther
          simpa using notPurged
        calc front.length
            ≤ ((job.sorted table.rows).filter fun other => (job.purge other).isSome &&
                job.order.before (position other) (position first)).length := by
              rw [isSplit, List.filter_append, isFront, List.length_append]
              exact Nat.le_add_right _ _
          _ = job.failingBefore table.rows first := by
              rw [perm.length_eq, List.filter_filter, failingBefore]
              apply congrArg List.length
              apply List.filter_congr
              intro other _
              rw [Bool.and_comm, Bool.and_assoc]
      refine ⟨first, mem_take_of_few isSplit ?_, isPurged⟩
      exact Nat.lt_of_le_of_lt short (few first inRows firstDue isPurged)

/-! ### Runs -/

def Purged (rows : List ExpiringTrash) : Prop :=
  ∀ row ∈ rows, job.isDue row = true → job.purge row ≠ none

theorem blocked (table : TrashTable) {row : ExpiringTrash} (member : row ∈ table.rows)
    (many : CLEANUP_BATCH_SIZE ≤ job.failingBefore table.rows row) (count : Nat) :
    row ∈ job.after^[count] table.rows := by
  induction count generalizing table with
  | zero => exact member
  | succ count induction =>
      rw [Function.iterate_succ_apply]
      apply induction (job.tableAfter table)
      · apply (job.mem_after table).mpr
        exact ⟨member, fun isSelected => absurd isSelected (job.not_selected_of_many table many)⟩
      · exact (job.failingBefore_after table row).symm ▸ many

theorem Purged.after {table : TrashTable} (purged : job.Purged table.rows) (count : Nat) :
    job.Purged (job.after^[count] table.rows) := by
  induction count generalizing table with
  | zero => exact purged
  | succ count induction =>
      rw [Function.iterate_succ_apply]
      apply @induction (job.tableAfter table)
      intro row member
      exact purged row ((job.mem_after table).mp member).1

/-- Where a batch is never full of items that cannot be purged, every step purges one. -/
theorem eventually_purged (table : TrashTable)
    (few : ∀ row ∈ table.rows, job.isDue row = true → job.purge row = none →
      job.failingBefore table.rows row < CLEANUP_BATCH_SIZE) :
    ∃ enough, ∀ count, enough ≤ count → job.Purged (job.after^[count] table.rows) := by
  induction size : (table.rows.filter fun row =>
      job.isDue row && (job.purge row).isNone).length using Nat.strong_induction_on
    generalizing table with
  | _ bound induction =>
      by_cases purged : job.Purged table.rows
      · exact ⟨0, fun count _ => purged.after job count⟩
      · rw [Purged] at purged
        push Not at purged
        have ⟨row, member, isDue, isPurged⟩ := purged
        have ⟨first, isSelected, firstPurged⟩ := job.exists_selected table few member isDue isPurged
        have ⟨inRows, firstDue⟩ := job.mem_selected isSelected
        have fewer : ((job.tableAfter table).rows.filter fun row =>
            job.isDue row && (job.purge row).isNone).length < bound := by
          rw [← size]
          change (first :: _).length ≤ _
          apply List.Subperm.length_le
          apply List.subperm_of_subset
          · refine List.nodup_cons.mpr
              ⟨?_, (List.Nodup.of_map _ (job.tableAfter table).ids).filter _⟩
            intro inside
            have kept := ((job.mem_after table).mp (List.mem_filter.mp inside).1).2
            exact kept isSelected firstPurged
          · intro other isOther
            cases List.mem_cons.mp isOther with
            | inl isFirst =>
                rw [isFirst, List.mem_filter, firstDue, firstPurged]
                exact ⟨inRows, rfl⟩
            | inr isLater =>
                have ⟨inAfter, passes⟩ := List.mem_filter.mp isLater
                exact List.mem_filter.mpr ⟨((job.mem_after table).mp inAfter).1, passes⟩
        have stillFew : ∀ row ∈ (job.tableAfter table).rows, job.isDue row = true →
            job.purge row = none →
            job.failingBefore (job.tableAfter table).rows row < CLEANUP_BATCH_SIZE := by
          intro other isOther otherDue otherPurged
          have same := job.failingBefore_after table other
          change job.failingBefore (job.after table.rows) other < _
          rw [same]
          exact few other ((job.mem_after table).mp isOther).1 otherDue otherPurged
        have ⟨enough, all⟩ := induction _ fewer (job.tableAfter table) stillFew rfl
        refine ⟨enough + 1, ?_⟩
        intro count isEnough
        have later := all (count - 1) (by omega)
        have isCount : count = (count - 1) + 1 := by omega
        rw [isCount, Function.iterate_succ_apply]
        exact later

/-- Runs of the stage purge all items that can be purged exactly where fewer items than a batch
has are in front of each of them that cannot. -/
theorem purged_iff (table : TrashTable) (budgetLimit : Nat) :
    (∃ enough, ∀ runs, enough ≤ runs →
      job.Purged ((runBudgetedStage job.pruneTrash budgetLimit)^[runs] table.rows)) ↔
      ∀ row ∈ table.rows, job.isDue row = true → job.purge row = none →
        job.failingBefore table.rows row < CLEANUP_BATCH_SIZE := by
  constructor
  · intro ⟨enough, all⟩ row member isDue purged
    by_contra many
    have ⟨count, _, same⟩ := runBudgetedStage_iterate job.pruneTrash budgetLimit table.rows enough
    have isGone := all enough (Nat.le_refl _)
    rw [same] at isGone
    exact isGone row (job.blocked table member (Nat.le_of_not_lt many) count) isDue purged
  · intro few
    have ⟨enough, all⟩ := job.eventually_purged table few
    refine ⟨enough, ?_⟩
    intro runs isEnough
    have ⟨count, more, same⟩ := runBudgetedStage_iterate job.pruneTrash budgetLimit table.rows runs
    rw [same]
    exact all count (isEnough.trans more)

end TrashRetention

/-! ## Files -/

/-- The rows of `vfs_node`. -/
structure ExpiringTable where
  rows : List ExpiringNode
  ids : (rows.map ExpiringNode.id).Nodup

namespace FileExpiry

variable {τ : Type} (job : FileExpiry τ) {rows : List ExpiringNode}

theorem expireRow_rows (progress : List ExpiringNode × Nat × Nat) (row : ExpiringNode) :
    (job.expireRow progress row).1 =
      if decide (job.attempt row = .expired) = true then
        Foundation.remaining (fun other => other.id == row.id) progress.1
      else progress.1 := by
  rw [expireRow]
  cases attempted : job.attempt row with
  | expired => rfl
  | skipped => rfl
  | failed => rfl

theorem mem_selected {row : ExpiringNode} {after : Option FileExpiryCursor} {limit : Nat}
    (member : row ∈ job.selected rows limit after) : row ∈ rows := by
  have inSorted := List.mem_of_mem_take member
  rw [sortBy, List.mem_insertionSort] at inSorted
  exact List.mem_of_mem_filter (List.mem_of_mem_filter inSorted)

theorem mem_step (ids : (rows.map ExpiringNode.id).Nodup) (cursor : Option FileExpiryCursor)
    {row : ExpiringNode} :
    row ∈ (job.stage.step rows cursor).world ↔ row ∈ rows ∧
      (row ∈ job.selected rows CLEANUP_BATCH_SIZE cursor → job.attempt row ≠ .expired) := by
  have isWorld : (job.stage.step rows cursor).world = rows.filter
      (outlasts ExpiringNode.id (fun row => decide (job.attempt row = .expired))
        (job.selected rows CLEANUP_BATCH_SIZE cursor)) :=
    foldl_outlasts job.expireRow_rows _ _
  rw [isWorld, List.mem_filter]
  apply and_congr_right
  intro member
  rw [outlasts_iff ids (fun row isSelected => job.mem_selected isSelected) member]
  simp

theorem step_sublist (rows : List ExpiringNode) (cursor : Option FileExpiryCursor) :
    (job.stage.step rows cursor).world.Sublist rows := by
  have isWorld : (job.stage.step rows cursor).world = rows.filter
      (outlasts ExpiringNode.id (fun row => decide (job.attempt row = .expired))
        (job.selected rows CLEANUP_BATCH_SIZE cursor)) :=
    foldl_outlasts job.expireRow_rows _ _
  rw [isWorld]
  exact List.filter_sublist

theorem step_isPage (ids : (rows.map ExpiringNode.id).Nodup)
    (cursor : Option FileExpiryCursor) :
    IsPage job.order position (rows.filter job.isDue) cursor
      (job.selected rows CLEANUP_BATCH_SIZE cursor) (job.stage.step rows cursor).next := by
  have isLe : ∀ left right : ExpiringNode,
      (!job.order.before (position right) (position left)) = true ↔
        job.order.before (position right) (position left) = false := by
    intro left right
    rw [Bool.not_eq_true']
  generalize isFound : sortBy (fun left right : ExpiringNode =>
      !job.order.before (position right) (position left))
    ((rows.filter job.isDue).filter fun row =>
      cursor.all fun cursor => job.order.before cursor (position row)) = found
  have ordered : job.order.Ordered position found := by
    rw [← isFound]
    apply job.order.ordered_insertionSort isLe
    apply List.Nodup.of_map FileExpiryCursor.id
    rw [List.map_map]
    exact ids.sublist ((List.filter_sublist.trans List.filter_sublist).map _)
  have selects : ∀ row, row ∈ found ↔ row ∈ rows.filter job.isDue ∧
      job.order.after cursor (position row) = true := by
    intro row
    rw [← isFound, sortBy, List.mem_insertionSort, List.mem_filter]
    rfl
  have isSelected : job.selected rows CLEANUP_BATCH_SIZE cursor =
      found.take CLEANUP_BATCH_SIZE := by
    rw [← isFound]
    rfl
  have isNext : (job.stage.step rows cursor).next =
      if (job.selected rows CLEANUP_BATCH_SIZE cursor).length < CLEANUP_BATCH_SIZE then none
      else (job.selected rows CLEANUP_BATCH_SIZE cursor).getLast?.map position := rfl
  rw [isNext, isSelected]
  split
  · rename_i short
    rw [List.length_take] at short
    rw [List.take_of_length_le (by omega)]
    exact isPage_all ordered selects
  · rename_i full
    apply isPage_front ordered selects
    apply List.ne_nil_of_length_pos
    have positive := CLEANUP_BATCH_SIZE.2.1
    omega

theorem shrinks : job.stage.Shrinks job.order position (fun rows => rows.filter job.isDue)
    (fun rows cursor => job.selected rows CLEANUP_BATCH_SIZE cursor)
    (fun rows => (rows.map ExpiringNode.id).Nodup) where
  isPage _ cursor ids := job.step_isPage ids cursor
  keeps rows cursor ids := ids.sublist ((job.step_sublist rows cursor).map _)
  fewer rows cursor _ _ member := (job.step_sublist rows cursor).filter job.isDue |>.subset member
  distinct _ ids := (List.Nodup.of_map _ ids).filter _

def Expired (rows : List ExpiringNode) : Prop :=
  ∀ row ∈ rows, job.isDue row = true → job.attempt row ≠ .expired

/-- Runs of the stage delete every file that can be deleted, from any stored cursor on. -/
theorem eventually_expired (table : ExpiringTable) (stored : Option τ) (budgetLimit : Nat) :
    ∃ enough, ∀ runs, enough ≤ runs →
      job.Expired ((job.stage.run budgetLimit)^[runs] (table.rows, stored)).1 := by
  let begins : List ExpiringNode × Option FileExpiryCursor :=
    (table.rows, job.stage.readCursor stored)
  have isSound : (begins.1.map ExpiringNode.id).Nodup := table.ids
  have visited : ∀ rows cursor, (rows.map ExpiringNode.id).Nodup →
      ∀ row ∈ job.selected rows CLEANUP_BATCH_SIZE cursor, job.attempt row = .expired →
        row ∉ (job.stage.step rows cursor).world.filter job.isDue := by
    intro rows cursor ids row isSelected isExpired inside
    have kept := ((job.mem_step ids cursor).mp (List.mem_of_mem_filter inside)).2
    exact kept isSelected isExpired
  have ⟨enough, all⟩ := job.shrinks.eventually_gone isSound visited
  refine ⟨enough, ?_⟩
  intro runs isEnough row member isDue isExpired
  have readable : ∀ cursor, job.stage.parse (job.stage.text cursor) = some cursor :=
    job.parse_text
  have ⟨count, more, same⟩ :=
    CursorStage.run_iterate readable budgetLimit (table.rows, stored) runs
  have isWorld := congrArg Prod.fst same
  dsimp only at isWorld
  rw [isWorld] at member
  exact all count (isEnough.trans more) row (List.mem_filter.mpr ⟨member, isDue⟩) isExpired

end FileExpiry

/-! ## Both stages -/

/-- With time standing still, repeated runs process every item outside the ones that fail
exactly where fewer trash items than a batch has, that cannot be purged, are in front of each
one that can. The files never hold each other up. -/
theorem failing_items_block_trash {τ : Type} (trash : TrashRetention) (files : FileExpiry τ)
    (items : TrashTable) (nodes : ExpiringTable) (stored : Option τ) (budgetLimit : Nat) :
    (((∃ enough, ∀ runs, enough ≤ runs →
        trash.Purged ((runBudgetedStage trash.pruneTrash budgetLimit)^[runs] items.rows)) ∧
      ∃ enough, ∀ runs, enough ≤ runs →
        files.Expired ((files.stage.run budgetLimit)^[runs] (nodes.rows, stored)).1) ↔
      ∀ row ∈ items.rows, trash.isDue row = true → trash.purge row = none →
        trash.failingBefore items.rows row < CLEANUP_BATCH_SIZE) ∧
      ∃ enough, ∀ runs, enough ≤ runs →
        files.Expired ((files.stage.run budgetLimit)^[runs] (nodes.rows, stored)).1 := by
  have expired := files.eventually_expired nodes stored budgetLimit
  refine ⟨?_, expired⟩
  rw [trash.purged_iff items budgetLimit]
  exact and_iff_left expired

namespace Small

def retention : TrashRetention where
  ids := KeyOrder.nat
  namespaceIds := pruneJob.ids
  now := 1000
  status := fun _ => some .active
  purge := fun row => if row.id < 500 then some .unexpected else none

def item (index : Nat) : ExpiringTrash := ⟨index, ⟨none, 1⟩, index, 1, 1⟩

def trashItems : TrashTable where
  rows := (List.range 500).map item ++ [item 500]
  ids := by
    rw [List.map_append, List.map_map, List.map_singleton]
    change (List.range 500).map id ++ [500] |>.Nodup
    rw [List.map_id, ← List.range_succ]
    exact List.nodup_range
  nodes := by decide +kernel

end Small

namespace Small

def fileExpiry : FileExpiry FileExpiryCursor where
  ids := KeyOrder.nat
  now := 1000
  status := fun _ => some .active
  attempt := fun row => if row.id = 1 then .failed else .expired
  text := id
  parse := some
  parse_text := fun _ => rfl

def expiringFile (id : Uuid) : ExpiringNode := ⟨id, ⟨none, 1⟩, true, some 7, 3⟩

def fileTable : ExpiringTable where
  rows := [expiringFile 1, expiringFile 2]
  ids := by decide

end Small

/-- The file behind the failing one is deleted, also from a stored cursor that is past both. -/
theorem failing_items_block_trash_files :
    ∃ enough, ∀ runs, enough ≤ runs →
      Small.expiringFile 2 ∉ ((Small.fileExpiry.stage.run 200000)^[runs]
        (Small.fileTable.rows, some ⟨7, 5⟩)).1 := by
  rcases (failing_items_block_trash Small.retention Small.fileExpiry Small.trashItems
    Small.fileTable (some ⟨7, 5⟩) 200000).2 with ⟨enough, expired⟩
  refine ⟨enough, fun runs isEnough member => ?_⟩
  exact expired runs isEnough _ member (by decide) (by decide)

theorem Small.retention_failingBefore :
    CLEANUP_BATCH_SIZE.val ≤
      Small.retention.failingBefore Small.trashItems.rows (Small.item 500) := by
  have fail : ∀ row ∈ (List.range 500).map Small.item,
      (Small.retention.isDue row && (Small.retention.purge row).isSome &&
        Small.retention.order.before (TrashRetention.position row)
          (TrashRetention.position (Small.item 500))) = true := by
    intro row member
    have ⟨index, isIndex, isRow⟩ := List.mem_map.mp member
    have below := List.mem_range.mp isIndex
    have different : index ≠ 500 := by omega
    have inTime : index ≤ 1000 := by omega
    rw [← isRow]
    simp [Small.item, TrashRetention.isDue, Small.retention, TrashRetention.order,
      TrashRetention.position, KeyOrder.lex_before, KeyOrder.nat, below, different, inTime]
  rw [TrashRetention.failingBefore, Small.trashItems, List.filter_append,
    List.filter_eq_self.mpr fail, List.length_append, List.length_map, List.length_range]
  exact Nat.le_add_right _ _

/-- The item behind them is never purged. -/
theorem item_behind_a_failing_batch_stays :
    ¬ ∃ runs, Small.retention.Purged
      ((runBudgetedStage Small.retention.pruneTrash 200000)^[runs] Small.trashItems.rows) := by
  intro ⟨runs, purged⟩
  have ⟨count, _, same⟩ :=
    runBudgetedStage_iterate Small.retention.pruneTrash 200000 Small.trashItems.rows runs
  rw [same] at purged
  have member : Small.item 500 ∈ Small.trashItems.rows := by
    rw [Small.trashItems]
    exact List.mem_append_right _ (List.mem_singleton_self _)
  have stays := Small.retention.blocked Small.trashItems member Small.retention_failingBefore count
  exact purged _ stays (by decide) (by decide)

end Storix
