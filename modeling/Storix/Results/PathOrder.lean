import Storix.Persistence.Lists
import Storix.Results.Prechecks

/-! # Canonical paths and their order

Resolving a path twice changes nothing, the canonical text determines the node, and in the
order of segments the nodes of a subtree stand together. -/

namespace Storix

open Foundation JsString

/-! ## Canonical paths -/

section Canonical

variable {host : Host} {left right : ResolvedPath host}

theorem filter_split_joinSegments {segments : List JsString}
    (plain : ∀ name ∈ segments, PlainName name) :
    ((split (joinSegments segments)).filter fun segment => !segment.isEmpty && segment != dot) =
      segments := by
  have kept : ∀ segment ∈ segments, (segment != dot) = true :=
    fun segment member => bne_iff_ne.mpr (plain segment member).notDot
  have pieces : ((split (joinSegments segments)).filter fun segment => !segment.isEmpty) =
      segments := pathSegments_joinSegments plain
  have both := congrArg (List.filter fun segment => segment != dot) pieces
  rw [List.filter_filter, List.filter_eq_self.mpr kept] at both
  simpa only [Bool.and_comm] using both

theorem resolve_canonical (path : ResolvedPath host) : resolve host path.canonical = .ok path := by
  have segments := filter_split_joinSegments path.valid.plain
  unfold resolve
  rw [if_neg (by simp [ResolvedPath.canonical, joinSegments])]
  dsimp only
  split
  case h_1 error failed =>
    rw [ResolvedPath.canonical, segments, path.valid] at failed
    cases failed
  case h_2 =>
    cases path
    simp only [ResolvedPath.canonical, Except.ok.injEq, ResolvedPath.mk.injEq]
    exact segments

theorem canonical_eq_iff : left.canonical = right.canonical ↔ left = right := by
  constructor
  · intro same
    have segments := joinSegments_injective left.valid.plain right.valid.plain same
    cases left
    cases right
    cases segments
    rfl
  · intro same
    rw [same]

theorem split_join_segments (path : ResolvedPath host) (nonempty : path.segments ≠ []) :
    split (join path.segments) = path.segments :=
  split_join nonempty fun name member => (path.valid.plain name member).noSlash

theorem ne_dotDot_of_not_rejected {name : JsString} (accepted : rejectedSegment host name = false) :
    name ≠ dotDot := by
  simp only [rejectedSegment, invalidSegment, Bool.or_eq_false_iff] at accepted
  have notDots := accepted.2.1.1.1.1.1
  simpa using notDots

theorem resolveTarget_inj {db : Database} {root : VfsNode}
    (layout : Layout host db.nodes root.id) {first second : List JsString} {node : VfsNode}
    (isFirst : resolveTarget db root first = some node)
    (isSecond : resolveTarget db root second = some node) : first = second := by
  have path : ∀ segments, resolveTarget db root segments = some node →
      PathOf db.nodes node.id segments := by
    intro segments result
    unfold resolveTarget at result
    split at result
    case isTrue isEmpty =>
      cases result
      rw [isEmpty]
      exact layout.root
    case isFalse nonempty =>
      rw [resolvePath_eq layout nonempty,
        resolvePathInManager_eq_some_iff layout.tree layout.root] at result
      exact result.2
  exact PathTo.unique layout.tree (path first isFirst) (path second isSecond)

end Canonical

/-! ## The order of segments -/

section Order

theorem order_iff (left right : JsString) :
    (order left right = .lt ↔ left < right) ∧ (order left right = .gt ↔ right < left) ∧
      (order left right = .eq ↔ left = right) := by
  unfold order JsString.before
  by_cases less : left < right
  · have notGreater : ¬right < left := List.lt_asymm less
    have different : left ≠ right := fun same => List.lt_irrefl right (same ▸ less)
    simp [less, notGreater, different]
  · by_cases greater : right < left
    · have different : left ≠ right := fun same => List.lt_irrefl right (same ▸ greater)
      simp [less, greater, different]
    · have same : left = right := List.le_antisymm (List.not_lt.mp greater) (List.not_lt.mp less)
      simp [same, List.lt_irrefl]

theorem compareSegments_iff (left right : List JsString) :
    (compareSegments left right = .lt ↔ left < right) ∧
      (compareSegments left right = .gt ↔ right < left) ∧
      (compareSegments left right = .eq ↔ left = right) := by
  induction left generalizing right with
  | nil =>
      cases right with
      | nil => simp [compareSegments]
      | cons name rest => simp [compareSegments]
  | cons name rest induction =>
      cases right with
      | nil => simp [compareSegments]
      | cons other others =>
          have ⟨less, greater, same⟩ := order_iff name other
          have ⟨restLess, restGreater, restSame⟩ := induction others
          rw [compareSegments, List.cons_lt_cons_iff, List.cons_lt_cons_iff, List.cons.injEq]
          cases compared : order name other with
          | lt =>
              have isLess := less.mp compared
              have notGreater : ¬other < name := List.lt_asymm isLess
              have different : name ≠ other := fun equal => List.lt_irrefl other (equal ▸ isLess)
              simp [isLess, notGreater, different, different.symm]
          | gt =>
              have isGreater := greater.mp compared
              have notLess : ¬name < other := List.lt_asymm isGreater
              have different : name ≠ other := fun equal => List.lt_irrefl other (equal ▸ isGreater)
              simp [isGreater, notLess, different, different.symm]
          | eq =>
              have equal := same.mp compared
              simp [equal, List.lt_irrefl, restLess, restGreater, restSame]

theorem compareSegments_ne_gt_iff {left right : List JsString} :
    compareSegments left right ≠ .gt ↔ left ≤ right := by
  rw [Ne, (compareSegments_iff left right).2.1, List.not_lt]

theorem lt_append {front back : List JsString} (nonempty : back ≠ []) : front < front ++ back := by
  induction front with
  | nil =>
      cases back with
      | nil => exact absurd rfl nonempty
      | cons name rest => simp
  | cons name rest induction =>
      rw [List.cons_append, List.cons_lt_cons_iff]
      exact .inr ⟨rfl, induction⟩

theorem prefix_of_between {front middle leftRest rightRest : List JsString}
    (low : front ++ leftRest ≤ middle) (high : middle ≤ front ++ rightRest) :
    front <+: middle := by
  induction front generalizing middle with
  | nil => exact List.nil_prefix
  | cons name rest induction =>
      cases middle with
      | nil => simp at low
      | cons other others =>
          rw [List.cons_append, List.cons_le_cons_iff] at low high
          have same : name = other := by
            rcases low with less | ⟨same, _⟩
            · rcases high with greater | ⟨same, _⟩
              · exact absurd greater (List.lt_asymm less)
              · exact same.symm
            · exact same
          subst same
          have below : rest ++ leftRest ≤ others := by
            rcases low with less | ⟨_, le⟩
            · exact absurd less (List.lt_irrefl name)
            · exact le
          have above : others ≤ rest ++ rightRest := by
            rcases high with less | ⟨_, le⟩
            · exact absurd less (List.lt_irrefl name)
            · exact le
          exact List.cons_prefix_cons.mpr ⟨rfl, induction below above⟩

end Order

/-! ## Paths -/

theorem resolveTarget_eq_iff {host : Host} {db : Database} (consistent : Consistent host db)
    {root node : VfsNode} (isRoot : db.findRoot = some root) {left right : ResolvedPath host}
    (isLeft : resolveTarget db root left.segments = some node) :
    resolveTarget db root right.segments = some node ↔ left.canonical = right.canonical := by
  have ⟨rootId, layout⟩ := consistent.layout
  have isTop : PathOf db.nodes root.id [] :=
    PathTo.root (List.mem_map_of_mem (List.mem_of_find?_eq_some isRoot))
      (by simpa using List.find?_some isRoot)
  have rooted : Layout host db.nodes root.id := { layout with root := isTop }
  rw [canonical_eq_iff]
  constructor
  · intro isRight
    have segments := resolveTarget_inj rooted isLeft isRight
    cases left
    cases right
    cases segments
    rfl
  · intro same
    rw [← same]
    exact isLeft

/-- Canonical paths stand for themselves and for one node each, and the order of segments is
the order of the tree. -/
theorem paths_are_canonical_and_ordered (host : Host) :
    (∀ (rawPath : JsString) (path : ResolvedPath host), resolve host rawPath = .ok path →
      resolve host path.canonical = .ok path ∧
      pathSegments path.canonical = path.segments ∧
      (path.segments ≠ [] → split (join path.segments) = path.segments) ∧
      ∀ segment ∈ path.segments, segment ≠ [] ∧ segment ≠ dot ∧ segment ≠ dotDot) ∧
    (∀ (leftRaw rightRaw : JsString) (left right : ResolvedPath host),
      resolve host leftRaw = .ok left → resolve host rightRaw = .ok right →
      (left.segments = right.segments ↔ left.canonical = right.canonical) ∧
      ∀ (db : Database) (root node : VfsNode), Consistent host db → db.findRoot = some root →
        resolveTarget db root left.segments = some node →
        (resolveTarget db root right.segments = some node ↔
          left.canonical = right.canonical)) ∧
    (∀ left right : List JsString,
      (compareSegments left right = .eq ↔ left = right) ∧
      compareSegments right left = (compareSegments left right).swap) ∧
    (∀ left middle right : List JsString, compareSegments left middle = .lt →
      compareSegments middle right = .lt → compareSegments left right = .lt) ∧
    (∀ front back : List JsString, back ≠ [] → compareSegments front (front ++ back) = .lt) ∧
    (∀ front left middle right : List JsString, front <+: left → front <+: right →
      compareSegments left middle ≠ .gt → compareSegments middle right ≠ .gt →
      front <+: middle) ∧
    ∀ source destination : List JsString, source <+: destination →
      compareSegments source destination ≠ .gt ∧ compareSegments destination source ≠ .lt := by
  refine ⟨?_, ?_, ?_, ?_, ?_, ?_, ?_⟩
  · intro rawPath path _
    refine ⟨resolve_canonical path, pathSegments_joinSegments path.valid.plain,
      split_join_segments path, ?_⟩
    intro segment member
    have plain := path.valid.plain segment member
    exact ⟨plain.nonempty, plain.notDot,
      ne_dotDot_of_not_rejected ((validPath_iff.mp path.valid).2 segment member)⟩
  · intro leftRaw rightRaw left right _ _
    constructor
    · constructor
      · intro same
        exact congrArg joinSegments same
      · intro same
        exact congrArg ResolvedPath.segments (canonical_eq_iff.mp same)
    · intro db root node consistent isRoot isLeft
      exact resolveTarget_eq_iff consistent isRoot isLeft
  · intro left right
    refine ⟨(compareSegments_iff left right).2.2, ?_⟩
    have ⟨less, greater, same⟩ := compareSegments_iff left right
    have ⟨swapLess, swapGreater, swapSame⟩ := compareSegments_iff right left
    cases compared : compareSegments left right with
    | lt => exact swapGreater.mpr (less.mp compared)
    | gt => exact swapLess.mpr (greater.mp compared)
    | eq => exact swapSame.mpr (same.mp compared).symm
  · intro left middle right low high
    rw [(compareSegments_iff _ _).1] at low high ⊢
    exact List.lt_trans low high
  · intro front back nonempty
    exact (compareSegments_iff _ _).1.mpr (lt_append nonempty)
  · intro front left middle right isLeft isRight low high
    rcases isLeft with ⟨leftRest, rfl⟩
    rcases isRight with ⟨rightRest, rfl⟩
    exact prefix_of_between (compareSegments_ne_gt_iff.mp low) (compareSegments_ne_gt_iff.mp high)
  · intro source destination inside
    rcases inside with ⟨back, rfl⟩
    have le : source ≤ source ++ back := by
      cases back with
      | nil =>
          rw [List.append_nil]
          exact List.le_refl source
      | cons name rest => exact List.le_of_lt (lt_append (by simp))
    refine ⟨compareSegments_ne_gt_iff.mpr le, ?_⟩
    rw [Ne, (compareSegments_iff _ _).1, List.not_lt]
    exact le

/-- `/a//./b/` stands for `/a/b`. -/
theorem dotted_path_stands_for_canonical :
    ∃ path : ResolvedPath Host.counting,
      resolve Host.counting [0x2f, 0x61, 0x2f, 0x2f, 0x2e, 0x2f, 0x62, 0x2f] = .ok path ∧
      path.canonical = [0x2f, 0x61, 0x2f, 0x62] ∧
        resolve Host.counting path.canonical = .ok path := by
  let path : ResolvedPath Host.counting := ⟨[[0x61], [0x62]], by decide⟩
  have resolved : resolve Host.counting [0x2f, 0x61, 0x2f, 0x2f, 0x2e, 0x2f, 0x62, 0x2f] =
      .ok path := rfl
  exact ⟨path, resolved, rfl,
    ((paths_are_canonical_and_ordered Host.counting).1 _ path resolved).1⟩

end Storix
