import Mathlib.Data.List.Nodup
import Mathlib.Data.List.Flatten
import Mathlib.Data.List.Induction
import Mathlib.Data.List.Perm.Subperm
import Mathlib.Order.Basic

/-! # Trees stored as parent links

A table of rows, each naming its parent, is a tree when every row is reached from
the one row without a parent. Rows carry a label, and the labels on the way from
the root are the row's path. The lemmas describe how the paths change when a row
is added, when a whole subtree is taken out, and when a subtree is moved. -/

namespace Storix.Foundation

structure Link (ι κ : Type) where
  id : ι
  parent : Option ι
  label : κ
  branch : Bool
  deriving DecidableEq

variable {ι κ : Type}

inductive PathTo (links : List (Link ι κ)) : ι → List κ → Prop
  | root {link : Link ι κ} (member : link ∈ links) (top : link.parent = none) :
      PathTo links link.id []
  | child {link : Link ι κ} {parent : ι} {path : List κ} (member : link ∈ links)
      (below : link.parent = some parent) (above : PathTo links parent path) :
      PathTo links link.id (path ++ [link.label])

/-- The rows form one tree: a single root, every row reached from it, only
branches have children, and siblings have different labels. -/
structure WellFormed (links : List (Link ι κ)) : Prop where
  ids : (links.map Link.id).Nodup
  root : ∃ link ∈ links, link.parent = none ∧ link.branch = true
  oneRoot : ∀ left ∈ links, ∀ right ∈ links,
    left.parent = none → right.parent = none → left = right
  rooted : ∀ link ∈ links, ∃ path, PathTo links link.id path
  branches : ∀ link ∈ links, ∀ parent, link.parent = some parent →
    ∃ above ∈ links, above.id = parent ∧ above.branch = true
  siblings : ∀ left ∈ links, ∀ right ∈ links, left.parent = right.parent →
    left.parent ≠ none → left.label = right.label → left = right

/-! ## Paths -/

theorem WellFormed.eq_of_id {links : List (Link ι κ)} (tree : WellFormed links)
    {left right : Link ι κ} (leftMember : left ∈ links) (rightMember : right ∈ links)
    (same : left.id = right.id) : left = right :=
  List.inj_on_of_nodup_map tree.ids leftMember rightMember same

namespace PathTo

variable {links : List (Link ι κ)}

theorem exists_link {id : ι} {path : List κ} (reached : PathTo links id path) :
    ∃ link ∈ links, link.id = id := by
  cases reached with
  | root member _ => exact ⟨_, member, rfl⟩
  | child member _ _ => exact ⟨_, member, rfl⟩

theorem above (tree : WellFormed links) {link : Link ι κ} (member : link ∈ links)
    {path : List κ} (reached : PathTo links link.id path) {parent : ι}
    (below : link.parent = some parent) :
    ∃ front, PathTo links parent front ∧ path = front ++ [link.label] := by
  generalize same : link.id = id at reached
  cases reached with
  | @root other otherMember top =>
      have equal := tree.eq_of_id member otherMember same
      subst other
      rw [below] at top
      cases top
  | @child other otherParent front otherMember otherBelow reached =>
      have equal := tree.eq_of_id member otherMember same
      subst other
      rw [below] at otherBelow
      cases otherBelow
      exact ⟨front, reached, rfl⟩

theorem eq_nil (tree : WellFormed links) {link : Link ι κ} (member : link ∈ links)
    {path : List κ} (reached : PathTo links link.id path) (top : link.parent = none) :
    path = [] := by
  generalize same : link.id = id at reached
  cases reached with
  | root _ _ => rfl
  | @child other _ _ otherMember otherBelow _ =>
      have equal := tree.eq_of_id member otherMember same
      subst other
      rw [top] at otherBelow
      cases otherBelow

theorem unique (tree : WellFormed links) {id : ι} {left right : List κ}
    (leftReached : PathTo links id left) (rightReached : PathTo links id right) :
    left = right := by
  induction leftReached generalizing right with
  | root member top => exact (eq_nil tree member rightReached top).symm
  | child member below _ induction =>
      rcases above tree member rightReached below with ⟨front, reached, rfl⟩
      rw [induction reached]

theorem injective (tree : WellFormed links) {left right : ι} {path : List κ}
    (leftReached : PathTo links left path) (rightReached : PathTo links right path) :
    left = right := by
  induction leftReached generalizing right with
  | @root link member top =>
      generalize shape : ([] : List κ) = path at rightReached
      cases rightReached with
      | root otherMember otherTop =>
          rw [tree.oneRoot _ member _ otherMember top otherTop]
      | child _ _ _ => simp at shape
  | @child link parent front member below _ induction =>
      generalize shape : front ++ [link.label] = path at rightReached
      cases rightReached with
      | root _ _ => simp at shape
      | @child other otherParent otherFront otherMember otherBelow otherReached =>
          have parts := List.append_inj' shape rfl
          rw [← parts.1] at otherReached
          have parents := induction otherReached
          subst parents
          have labels : link.label = other.label := by simpa using parts.2
          rw [tree.siblings _ member _ otherMember (below.trans otherBelow.symm)
            (by simp [below]) labels]

theorem of_append {id : ι} {front back : List κ}
    (reached : PathTo links id (front ++ back)) : ∃ above, PathTo links above front := by
  induction back using List.reverseRecOn generalizing id with
  | nil => exact ⟨id, by simpa using reached⟩
  | append_singleton back label induction =>
      rw [← List.append_assoc] at reached
      generalize shape : front ++ back ++ [label] = path at reached
      cases reached with
      | root _ _ => simp at shape
      | @child link parent path member below reached =>
          have parts := List.append_inj' shape rfl
          rw [← parts.1] at reached
          exact induction reached

theorem of_prefix {id : ι} {front path : List κ} (reached : PathTo links id path)
    (isFront : front <+: path) : ∃ above, PathTo links above front := by
  rcases isFront with ⟨back, rfl⟩
  exact reached.of_append

theorem exists_parent {id : ι} {front : List κ} {label : κ}
    (reached : PathTo links id (front ++ [label])) :
    ∃ link ∈ links, link.id = id ∧ link.label = label ∧
      ∃ parent, link.parent = some parent ∧ PathTo links parent front := by
  generalize shape : front ++ [label] = path at reached
  cases reached with
  | root _ _ => simp at shape
  | @child link parent path member below reached =>
      have parts := List.append_inj' shape rfl
      rw [← parts.1] at reached
      exact ⟨link, member, rfl, by simpa using parts.2.symm, parent, below, reached⟩

theorem mono {more : List (Link ι κ)} (included : links ⊆ more) {id : ι} {path : List κ}
    (reached : PathTo links id path) : PathTo more id path := by
  induction reached with
  | root member top => exact .root (included member) top
  | child member below _ induction => exact .child (included member) below induction

/-- The rows on the way from one row down to another, the lower one included. -/
theorem exists_chain_below (tree : WellFormed links) {id : ι} {front back : List κ}
    (reached : PathTo links id (front ++ back)) :
    ∃ chain : List ι, chain.length = back.length ∧ chain.Nodup ∧
      ∀ member ∈ chain, ∃ middle, middle ≠ [] ∧ middle <+: back ∧
        PathTo links member (front ++ middle) := by
  induction back using List.reverseRecOn generalizing id with
  | nil => exact ⟨[], rfl, List.nodup_nil, by simp⟩
  | append_singleton back label induction =>
      have whole := reached
      rw [← List.append_assoc] at reached
      rcases reached.exists_parent with ⟨_, _, _, _, parent, _, above⟩
      rcases induction above with ⟨chain, length, nodup, middles⟩
      refine ⟨id :: chain, by simp [length], ?_, ?_⟩
      · refine List.nodup_cons.mpr ⟨fun inside => ?_, nodup⟩
        rcases middles id inside with ⟨middle, _, isFront, shortReached⟩
        have same := List.append_cancel_left (unique tree whole shortReached)
        have bound := isFront.length_le
        rw [← same] at bound
        simp only [List.length_append, List.length_singleton] at bound
        omega
      · intro member inside
        rcases List.mem_cons.mp inside with rfl | inside
        · exact ⟨back ++ [label], by simp, List.prefix_refl _, whole⟩
        · rcases middles member inside with ⟨middle, nonempty, isFront, shortReached⟩
          exact ⟨middle, nonempty, isFront.trans (List.prefix_append _ _), shortReached⟩

/-- A path is shorter than the table, so following parents ends. -/
theorem length_lt (tree : WellFormed links) {id : ι} {path : List κ}
    (reached : PathTo links id path) : path.length < links.length := by
  have whole : PathTo links id ([] ++ path) := reached
  rcases exists_chain_below tree whole with ⟨chain, length, nodup, middles⟩
  rcases tree.root with ⟨root, rootMember, top, _⟩
  have rootReached : PathTo links root.id [] := .root rootMember top
  have included : root.id :: chain ⊆ links.map Link.id := by
    intro member inside
    rcases List.mem_cons.mp inside with rfl | inside
    · exact List.mem_map_of_mem rootMember
    · rcases middles member inside with ⟨_, _, _, memberReached⟩
      rcases memberReached.exists_link with ⟨link, linkMember, rfl⟩
      exact List.mem_map_of_mem linkMember
  have separate : root.id ∉ chain := by
    intro inside
    rcases middles _ inside with ⟨middle, nonempty, _, memberReached⟩
    exact nonempty (unique tree rootReached memberReached).symm
  have bound := (List.subperm_of_subset (List.nodup_cons.mpr ⟨separate, nodup⟩) included).length_le
  rw [List.length_map, List.length_cons, length] at bound
  omega

end PathTo

/-! ## Adding a row -/

section Insert

variable {links : List (Link ι κ)} {link : Link ι κ} {parent : ι}

theorem pathTo_insert_of_ne (tree : WellFormed links)
    (fresh : link.id ∉ links.map Link.id) {id : ι} (different : id ≠ link.id)
    {path : List κ} (reached : PathTo (links ++ [link]) id path) :
    PathTo links id path := by
  induction reached with
  | @root other member top =>
      rcases List.mem_append.mp member with member | member
      · exact .root member top
      · rw [List.mem_singleton] at member
        exact absurd (congrArg Link.id member) different
  | @child other above front member below _ induction =>
      rcases List.mem_append.mp member with member | member
      · refine .child member below (induction fun same => ?_)
        rcases tree.branches _ member _ below with ⟨branch, branchMember, same', _⟩
        exact fresh (List.mem_map.mpr ⟨branch, branchMember, same'.trans same⟩)
      · rw [List.mem_singleton] at member
        exact absurd (congrArg Link.id member) different

theorem pathTo_insert_iff (tree : WellFormed links)
    (fresh : link.id ∉ links.map Link.id) {id : ι} (different : id ≠ link.id)
    {path : List κ} : PathTo (links ++ [link]) id path ↔ PathTo links id path :=
  ⟨pathTo_insert_of_ne tree fresh different,
    fun reached => reached.mono (List.subset_append_left _ _)⟩

theorem pathTo_insert_self {path : List κ} (below : link.parent = some parent)
    (reached : PathTo links parent path) :
    PathTo (links ++ [link]) link.id (path ++ [link.label]) :=
  .child (by simp) below (reached.mono (List.subset_append_left _ _))

/-- A new row under a branch, with a label its siblings do not have. -/
theorem WellFormed.insert (tree : WellFormed links)
    (fresh : link.id ∉ links.map Link.id) (below : link.parent = some parent)
    (branch : ∃ above ∈ links, above.id = parent ∧ above.branch = true)
    (free : ∀ other ∈ links, other.parent = some parent → other.label ≠ link.label) :
    WellFormed (links ++ [link]) := by
  have under : ∀ other ∈ links ++ [link], other ∈ links ∨ other = link := by
    intro other member
    simpa using member
  refine
    { ids := ?_, root := ?_, oneRoot := ?_, rooted := ?_, branches := ?_, siblings := ?_ }
  · rw [List.map_append, List.nodup_append]
    refine ⟨tree.ids, by simp, ?_⟩
    intro id inside other otherInside same
    simp only [List.map_cons, List.map_nil, List.mem_singleton] at otherInside
    subst otherInside
    exact fresh (same ▸ inside)
  · rcases tree.root with ⟨root, member, top⟩
    exact ⟨root, List.mem_append_left _ member, top⟩
  · intro left leftMember right rightMember leftTop rightTop
    rcases under left leftMember with leftMember | rfl
    · rcases under right rightMember with rightMember | rfl
      · exact tree.oneRoot _ leftMember _ rightMember leftTop rightTop
      · rw [below] at rightTop
        cases rightTop
    · rw [below] at leftTop
      cases leftTop
  · intro other member
    rcases under other member with member | rfl
    · rcases tree.rooted _ member with ⟨path, reached⟩
      exact ⟨path, reached.mono (List.subset_append_left _ _)⟩
    · rcases branch with ⟨above, aboveMember, same, _⟩
      rcases tree.rooted _ aboveMember with ⟨path, reached⟩
      exact ⟨_, pathTo_insert_self below (same ▸ reached)⟩
  · intro other member id otherBelow
    rcases under other member with member | rfl
    · rcases tree.branches _ member _ otherBelow with ⟨above, aboveMember, rest⟩
      exact ⟨above, List.mem_append_left _ aboveMember, rest⟩
    · rw [below] at otherBelow
      cases otherBelow
      rcases branch with ⟨above, aboveMember, rest⟩
      exact ⟨above, List.mem_append_left _ aboveMember, rest⟩
  · intro left leftMember right rightMember sameParent notTop sameLabel
    rcases under left leftMember with oldLeft | rfl
    · rcases under right rightMember with oldRight | rfl
      · exact tree.siblings _ oldLeft _ oldRight sameParent notTop sameLabel
      · exact absurd sameLabel (free _ oldLeft (sameParent.trans below))
    · rcases under right rightMember with oldRight | rfl
      · exact absurd sameLabel.symm (free _ oldRight (sameParent.symm.trans below))
      · rfl

end Insert

/-! ## Taking a subtree out -/

section Remove

variable {links : List (Link ι κ)} {gone : Link ι κ → Bool}

/-- The rows that `gone` selects are whole subtrees and leave the root. -/
structure DownClosed (links : List (Link ι κ)) (gone : Link ι κ → Bool) : Prop where
  children : ∀ link ∈ links, ∀ above ∈ links, link.parent = some above.id →
    gone above = true → gone link = true
  root : ∀ link ∈ links, link.parent = none → gone link = false

theorem pathTo_remove_of_mem (tree : WellFormed links) (closed : DownClosed links gone)
    {link : Link ι κ} (member : link ∈ links) (kept : gone link = false)
    {path : List κ} (reached : PathTo links link.id path) :
    PathTo (links.filter fun link => !gone link) link.id path := by
  generalize same : link.id = id at reached
  induction reached generalizing link with
  | @root other otherMember top =>
      have equal := tree.eq_of_id member otherMember same
      subst other
      exact .root (by simp [member, kept]) top
  | @child other parent front otherMember below _ induction =>
      have equal := tree.eq_of_id member otherMember same
      subst other
      rcases tree.branches _ member _ below with ⟨above, aboveMember, rfl, _⟩
      have aboveKept : gone above = false := by
        cases removed : gone above with
        | false => rfl
        | true =>
            have contradiction := closed.children _ member _ aboveMember below removed
            rw [kept] at contradiction
            cases contradiction
      exact .child (by simp [member, kept]) below (induction aboveMember aboveKept rfl)

theorem WellFormed.remove (tree : WellFormed links) (closed : DownClosed links gone) :
    WellFormed (links.filter fun link => !gone link) := by
  have inside : ∀ link ∈ links.filter fun link => !gone link,
      link ∈ links ∧ gone link = false := by
    intro link member
    simpa using member
  refine
    { ids := ?_, root := ?_, oneRoot := ?_, rooted := ?_, branches := ?_, siblings := ?_ }
  · exact tree.ids.sublist (List.filter_sublist.map _)
  · rcases tree.root with ⟨root, member, top, branch⟩
    exact ⟨root, by simp [member, closed.root _ member top], top, branch⟩
  · intro left leftMember right rightMember
    exact tree.oneRoot _ (inside _ leftMember).1 _ (inside _ rightMember).1
  · intro link member
    rcases tree.rooted _ (inside _ member).1 with ⟨path, reached⟩
    exact ⟨path, pathTo_remove_of_mem tree closed (inside _ member).1 (inside _ member).2 reached⟩
  · intro link member parent below
    rcases tree.branches _ (inside _ member).1 _ below with ⟨above, aboveMember, rfl, branch⟩
    refine ⟨above, ?_, rfl, branch⟩
    have aboveKept : gone above = false := by
      cases removed : gone above with
      | false => rfl
      | true =>
          have contradiction :=
            closed.children _ (inside _ member).1 _ aboveMember below removed
          rw [(inside _ member).2] at contradiction
          cases contradiction
    simp [aboveMember, aboveKept]
  · intro left leftMember right rightMember
    exact tree.siblings _ (inside _ leftMember).1 _ (inside _ rightMember).1

end Remove

/-! ## Moving a subtree -/

section Relocate

variable [DecidableEq ι] {links : List (Link ι κ)}

/-- Hang the row `target` under `parent` with a new label. -/
def relocate (target parent : ι) (label : κ) (link : Link ι κ) : Link ι κ :=
  if link.id = target then { link with parent := some parent, label := label } else link

@[simp] theorem relocate_id (target parent : ι) (label : κ) (link : Link ι κ) :
    (relocate target parent label link).id = link.id := by
  unfold relocate
  split <;> rfl

@[simp] theorem relocate_branch (target parent : ι) (label : κ) (link : Link ι κ) :
    (relocate target parent label link).branch = link.branch := by
  unfold relocate
  split <;> rfl

theorem relocate_of_ne {target parent : ι} {label : κ} {link : Link ι κ}
    (different : link.id ≠ target) : relocate target parent label link = link :=
  if_neg different

theorem relocate_self {target parent : ι} {label : κ} {link : Link ι κ}
    (same : link.id = target) :
    relocate target parent label link =
      { link with parent := some parent, label := label } :=
  if_pos same

variable {moved : Link ι κ} {parent : ι} {label : κ} {source front : List κ}

theorem pathTo_relocate_outside (start : PathTo links moved.id source) {id : ι}
    {path : List κ} (outside : ¬source <+: path) (reached : PathTo links id path)
    (tree : WellFormed links) :
    PathTo (links.map (relocate moved.id parent label)) id path := by
  induction reached with
  | @root link member top =>
      have different : link.id ≠ moved.id := by
        intro same
        have nothing := PathTo.unique tree (.root member top) (same ▸ start)
        exact outside (nothing ▸ List.prefix_refl _)
      have inside := List.mem_map_of_mem member (f := relocate moved.id parent label)
      rw [relocate_of_ne different] at inside
      exact .root inside top
  | @child link above path member below above' induction =>
      have different : link.id ≠ moved.id := by
        intro same
        have whole := PathTo.unique tree (.child member below above') (same ▸ start)
        exact outside (whole ▸ List.prefix_refl _)
      have inside := List.mem_map_of_mem member (f := relocate moved.id parent label)
      rw [relocate_of_ne different] at inside
      exact .child inside below
        (induction fun isFront => outside (isFront.trans (List.prefix_append _ _)))

/-- Rows inside the moved subtree trade the old front part for the new one. -/
theorem pathTo_relocate_inside (tree : WellFormed links) (member : moved ∈ links)
    (start : PathTo links moved.id source) (destination : PathTo links parent front)
    (outside : ¬source <+: front) {id : ι} {rest : List κ}
    (reached : PathTo links id (source ++ rest)) :
    PathTo (links.map (relocate moved.id parent label)) id (front ++ [label] ++ rest) := by
  induction rest using List.reverseRecOn generalizing id with
  | nil =>
      rw [List.append_nil] at reached ⊢
      have same := PathTo.injective tree reached start
      subst same
      have inside := List.mem_map_of_mem member (f := relocate moved.id parent label)
      rw [relocate_self rfl] at inside
      exact .child inside rfl (pathTo_relocate_outside start outside destination tree)
  | append_singleton rest last induction =>
      rw [← List.append_assoc] at reached
      rcases reached.exists_parent with ⟨link, linkMember, rfl, rfl, above, below, aboveReached⟩
      have different : link.id ≠ moved.id := by
        intro same
        have whole := PathTo.unique tree reached (same ▸ start)
        have lengths := congrArg List.length whole
        simp at lengths
      have inside := List.mem_map_of_mem linkMember (f := relocate moved.id parent label)
      rw [relocate_of_ne different] at inside
      rw [← List.append_assoc]
      exact .child inside below (induction aboveReached)

theorem WellFormed.relocate (tree : WellFormed links) (member : moved ∈ links)
    (start : PathTo links moved.id source) (destination : PathTo links parent front)
    (outside : ¬source <+: front) (notRoot : moved.parent ≠ none)
    (branch : ∃ above ∈ links, above.id = parent ∧ above.branch = true)
    (free : ∀ other ∈ links, other.parent = some parent → other.label = label →
      other.id = moved.id) :
    WellFormed (links.map (Foundation.relocate moved.id parent label)) := by
  have back : ∀ link ∈ links.map (Foundation.relocate moved.id parent label),
      ∃ old ∈ links, link = Foundation.relocate moved.id parent label old := by
    intro link inside
    rcases List.mem_map.mp inside with ⟨old, oldMember, rfl⟩
    exact ⟨old, oldMember, rfl⟩
  have carry : ∀ above ∈ links, ∃ next ∈ links.map (Foundation.relocate moved.id parent label),
      next.id = above.id ∧ next.branch = above.branch := by
    intro above aboveMember
    exact ⟨_, List.mem_map_of_mem aboveMember, by simp⟩
  have keepsTop : ∀ old ∈ links,
      (Foundation.relocate moved.id parent label old).parent = none →
        old.parent = none ∧ Foundation.relocate moved.id parent label old = old := by
    intro old oldMember top
    by_cases same : old.id = moved.id
    · rw [relocate_self same] at top
      cases top
    · rw [relocate_of_ne same] at top ⊢
      exact ⟨top, rfl⟩
  refine
    { ids := ?_, root := ?_, oneRoot := ?_, rooted := ?_, branches := ?_, siblings := ?_ }
  · rw [List.map_map]
    have same : Link.id ∘ Foundation.relocate moved.id parent label =
        (Link.id : Link ι κ → ι) := by
      funext link
      simp
    rw [same]
    exact tree.ids
  · rcases tree.root with ⟨root, rootMember, top, rootBranch⟩
    have different : root.id ≠ moved.id := by
      intro same
      have equal := tree.eq_of_id rootMember member same
      exact notRoot (equal ▸ top)
    refine ⟨root, ?_, top, rootBranch⟩
    have inside := List.mem_map_of_mem rootMember (f := Foundation.relocate moved.id parent label)
    rwa [relocate_of_ne different] at inside
  · intro left leftInside right rightInside leftTop rightTop
    rcases back _ leftInside with ⟨oldLeft, leftMember, rfl⟩
    rcases back _ rightInside with ⟨oldRight, rightMember, rfl⟩
    rcases keepsTop _ leftMember leftTop with ⟨oldLeftTop, leftSame⟩
    rcases keepsTop _ rightMember rightTop with ⟨oldRightTop, rightSame⟩
    rw [leftSame, rightSame]
    exact tree.oneRoot _ leftMember _ rightMember oldLeftTop oldRightTop
  · intro link inside
    rcases back _ inside with ⟨old, oldMember, rfl⟩
    rw [relocate_id]
    rcases tree.rooted _ oldMember with ⟨path, reached⟩
    by_cases isFront : source <+: path
    · rcases isFront with ⟨rest, rfl⟩
      exact ⟨_, pathTo_relocate_inside tree member start destination outside reached⟩
    · exact ⟨path, pathTo_relocate_outside start isFront reached tree⟩
  · intro link inside above below
    rcases back _ inside with ⟨old, oldMember, rfl⟩
    by_cases same : old.id = moved.id
    · rw [relocate_self same] at below
      cases below
      rcases branch with ⟨top, topMember, rfl, topBranch⟩
      rcases carry _ topMember with ⟨next, nextInside, nextId, nextBranch⟩
      exact ⟨next, nextInside, nextId, nextBranch.trans topBranch⟩
    · rw [relocate_of_ne same] at below
      rcases tree.branches _ oldMember _ below with ⟨top, topMember, rfl, topBranch⟩
      rcases carry _ topMember with ⟨next, nextInside, nextId, nextBranch⟩
      exact ⟨next, nextInside, nextId, nextBranch.trans topBranch⟩
  · intro left leftInside right rightInside sameParent notTop sameLabel
    rcases back _ leftInside with ⟨oldLeft, leftMember, rfl⟩
    rcases back _ rightInside with ⟨oldRight, rightMember, rfl⟩
    by_cases leftSame : oldLeft.id = moved.id
    · by_cases rightSame : oldRight.id = moved.id
      · rw [tree.eq_of_id leftMember rightMember (leftSame.trans rightSame.symm)]
      · rw [relocate_self leftSame, relocate_of_ne rightSame] at sameParent sameLabel
        exact absurd (free _ rightMember sameParent.symm sameLabel.symm) rightSame
    · by_cases rightSame : oldRight.id = moved.id
      · rw [relocate_of_ne leftSame, relocate_self rightSame] at sameParent sameLabel
        exact absurd (free _ leftMember sameParent sameLabel) leftSame
      · rw [relocate_of_ne leftSame] at sameParent sameLabel notTop ⊢
        rw [relocate_of_ne rightSame] at sameParent sameLabel ⊢
        exact tree.siblings _ leftMember _ rightMember sameParent notTop sameLabel

end Relocate

/-! ## Breadth-first order

A queue that appends the children of each visited item visits the items level by
level. -/

section Levels

variable {α : Type}

/-- The items `depth` steps below `start`. -/
def generation (children : α → List α) : Nat → List α → List α
  | 0, start => start
  | depth + 1, start => generation children depth (start.flatMap children)

/-- The first `fuel` levels, nearest first. -/
def levels (children : α → List α) : Nat → List α → List α
  | 0, _ => []
  | fuel + 1, start => start ++ levels children fuel (start.flatMap children)

@[simp] theorem levels_nil (children : α → List α) (fuel : Nat) :
    levels children fuel [] = [] := by
  induction fuel with
  | zero => rfl
  | succ fuel induction => simpa [levels] using induction

theorem generation_succ (children : α → List α) (depth : Nat) (start : List α) :
    generation children (depth + 1) start = (generation children depth start).flatMap children := by
  induction depth generalizing start with
  | zero => rfl
  | succ depth induction => exact induction (start.flatMap children)

theorem mem_levels {children : α → List α} {fuel : Nat} {start : List α} {item : α} :
    item ∈ levels children fuel start ↔
      ∃ depth < fuel, item ∈ generation children depth start := by
  induction fuel generalizing start with
  | zero => simp [levels]
  | succ fuel induction =>
      rw [levels, List.mem_append, induction]
      constructor
      · rintro (inStart | ⟨depth, bound, inside⟩)
        · exact ⟨0, by omega, inStart⟩
        · exact ⟨depth + 1, by omega, inside⟩
      · rintro ⟨depth, bound, inside⟩
        cases depth with
        | zero => exact .inl inside
        | succ depth => exact .inr ⟨depth, by omega, inside⟩

variable {key : α → ι} (rank : ι → Nat → Prop) {children : α → List α}

private theorem rank_of_mem_levels
    (descends : ∀ item depth, rank (key item) depth →
      ∀ child ∈ children item, rank (key child) (depth + 1))
    {fuel depth : Nat} {start : List α} (ranked : ∀ item ∈ start, rank (key item) depth) :
    ∀ item ∈ levels children fuel start, ∃ deeper, depth ≤ deeper ∧ rank (key item) deeper := by
  induction fuel generalizing start depth with
  | zero => simp [levels]
  | succ fuel induction =>
      intro item inside
      rcases List.mem_append.mp inside with inStart | below
      · exact ⟨depth, Nat.le_refl _, ranked item inStart⟩
      · have next : ∀ item ∈ start.flatMap children, rank (key item) (depth + 1) := by
          intro child inChildren
          rcases List.mem_flatMap.mp inChildren with ⟨above, aboveInside, isChild⟩
          exact descends above depth (ranked above aboveInside) child isChild
        rcases induction next item below with ⟨deeper, bound, isRank⟩
        exact ⟨deeper, by omega, isRank⟩

/-- Items whose keys have one rank and one parent are visited once. -/
theorem nodup_levels
    (functional : ∀ id left right, rank id left → rank id right → left = right)
    (descends : ∀ item depth, rank (key item) depth →
      ∀ child ∈ children item, rank (key child) (depth + 1))
    (own : ∀ item, ((children item).map key).Nodup)
    (separate : ∀ left right, ∀ leftChild ∈ children left, ∀ rightChild ∈ children right,
      key leftChild = key rightChild → key left = key right)
    {fuel depth : Nat} {start : List α} (ranked : ∀ item ∈ start, rank (key item) depth)
    (nodup : (start.map key).Nodup) :
    ((levels children fuel start).map key).Nodup := by
  induction fuel generalizing start depth with
  | zero => simp [levels]
  | succ fuel induction =>
      have next : ∀ item ∈ start.flatMap children, rank (key item) (depth + 1) := by
        intro child inChildren
        rcases List.mem_flatMap.mp inChildren with ⟨above, aboveInside, isChild⟩
        exact descends above depth (ranked above aboveInside) child isChild
      have nextNodup : ((start.flatMap children).map key).Nodup := by
        rw [List.map_flatMap, List.nodup_flatMap]
        refine ⟨fun item _ => own item, ?_⟩
        refine (List.pairwise_map.mp nodup).imp fun {left right} different => ?_
        intro id inLeft inRight
        rcases List.mem_map.mp inLeft with ⟨leftChild, isLeft, rfl⟩
        rcases List.mem_map.mp inRight with ⟨rightChild, isRight, same⟩
        exact different (separate left right leftChild isLeft rightChild isRight same.symm)
      rw [levels, List.map_append, List.nodup_append]
      refine ⟨nodup, induction next nextNodup, ?_⟩
      intro id inStart other below same
      rcases List.mem_map.mp inStart with ⟨item, itemInside, rfl⟩
      rcases List.mem_map.mp below with ⟨deep, deepInside, rfl⟩
      rcases rank_of_mem_levels rank descends next deep deepInside with ⟨deeper, bound, isRank⟩
      have equal := functional _ _ _ (ranked item itemInside) (same ▸ isRank)
      omega

end Levels

end Storix.Foundation
