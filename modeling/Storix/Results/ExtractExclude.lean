import Storix.Vfs.ExtractExclude
import Storix.Foundation.Wildcard

/-! # Exclude patterns mean what they say

The matcher of one segment remembers a single `*`, and the matcher of a name follows a set of
states. Both decide the declarative meaning of a pattern. -/

namespace Storix

open Foundation JsString

/-! ## The meaning -/

def IsAsterisk (unit : UInt16) : Prop := unit = asterisk

def IsGlobstar (segment : JsString) : Prop := segment = GLOBSTAR

/-- Inside a segment, `*` takes any text and every other code unit itself. -/
def SegmentMatches : JsString → JsString → Prop := Matches IsAsterisk Eq

/-- Between segments, `**` takes any number of segments. -/
def PatternMatches : List JsString → List JsString → Prop := Matches IsGlobstar SegmentMatches

variable {pattern text : JsString} {star : Option LastStar}

theorem segmentMatches_star :
    SegmentMatches (asterisk :: pattern) text ↔
      ∃ rest, rest <:+ text ∧ SegmentMatches pattern rest :=
  Matches.wild_iff rfl

theorem segmentMatches_unit {unit : UInt16} (isPlain : unit ≠ asterisk) :
    SegmentMatches (unit :: pattern) text ↔
      ∃ rest, text = unit :: rest ∧ SegmentMatches pattern rest := by
  have notStar : ¬IsAsterisk unit := isPlain
  constructor
  · intro isMatch
    rcases (Matches.plain_iff notStar).mp isMatch with ⟨element, rest, whole, rfl, isMatch⟩
    exact ⟨rest, whole, isMatch⟩
  · intro found
    rcases found with ⟨rest, whole, isMatch⟩
    exact (Matches.plain_iff notStar).mpr ⟨unit, rest, whole, rfl, isMatch⟩

/-! ## One segment -/

theorem suffix_iff {α : Type} {rest text : List α} :
    rest <:+ text ↔ rest = text ∨ rest <:+ text.tail := by
  cases text with
  | nil => simp
  | cons first text => exact List.suffix_cons_iff

/-- What was matched since the last `*` is a literal. -/
def LastStar.Follows (star : Option LastStar) (pattern text : JsString) : Prop :=
  ∀ old, star = some old → ∃ literal, (∀ unit ∈ literal, unit ≠ asterisk) ∧
    old.after = literal ++ pattern ∧ old.resume = literal ++ text

theorem LastStar.follows_self (pattern text : JsString) :
    LastStar.Follows (some ⟨pattern, text⟩) pattern text := by
  intro old same
  cases same
  exact ⟨[], fun _ member => absurd member List.not_mem_nil, rfl, rfl⟩

/-- The rest of the pattern takes the rest of the text, or the pattern after the last `*`
takes the text from a later place. -/
def MatchesFrom (pattern text : JsString) (star : Option LastStar) : Prop :=
  SegmentMatches pattern text ∨
    ∃ old, star = some old ∧ ∃ later, later <:+ old.resume.tail ∧ SegmentMatches old.after later

theorem matchesFrom_self (pattern text : JsString) :
    MatchesFrom pattern text (some ⟨pattern, text⟩) ↔
      ∃ later, later <:+ text ∧ SegmentMatches pattern later := by
  constructor
  · intro found
    rcases found with isMatch | ⟨old, same, later, isLater, isMatch⟩
    · exact ⟨text, List.suffix_refl text, isMatch⟩
    · cases same
      exact ⟨later, suffix_iff.mpr (.inr isLater), isMatch⟩
  · intro found
    rcases found with ⟨later, isLater, isMatch⟩
    rcases suffix_iff.mp isLater with rfl | isLater
    · exact .inl isMatch
    · exact .inr ⟨_, rfl, later, isLater, isMatch⟩

theorem segmentMatches_nil_iff (pattern : JsString) :
    SegmentMatches pattern [] ↔
      (pattern.dropWhile fun unit => unit == asterisk).isEmpty = true := by
  induction pattern with
  | nil => simp [SegmentMatches]
  | cons first pattern induction =>
      by_cases isStar : first = asterisk
      · subst isStar
        rw [segmentMatches_star, List.dropWhile_cons_of_pos (by simp), ← induction]
        simp
      · rw [segmentMatches_unit isStar, List.dropWhile_cons_of_neg (by simpa using isStar)]
        simp

theorem matchesFrom_nil (follows : LastStar.Follows star pattern []) :
    MatchesFrom pattern [] star ↔ SegmentMatches pattern [] := by
  constructor
  · intro found
    rcases found with isMatch | ⟨old, same, later, isLater, isMatch⟩
    · exact isMatch
    · rcases follows old same with ⟨literal, plain, isAfter, isResume⟩
      rw [isAfter] at isMatch
      rw [isResume, List.append_nil] at isLater
      rcases (Matches.literal_iff plain).mp isMatch with ⟨rest, whole, isMatch⟩
      have short := isLater.length_le
      rw [whole, List.length_append, List.length_tail] at short
      have isEmpty : rest = [] := List.length_eq_zero_iff.mp (by omega)
      exact isEmpty ▸ isMatch
  · exact fun isMatch => .inl isMatch

theorem matchesFrom_star (follows : LastStar.Follows star (asterisk :: pattern) text) :
    MatchesFrom (asterisk :: pattern) text star ↔
      ∃ later, later <:+ text ∧ SegmentMatches pattern later := by
  rw [← segmentMatches_star]
  constructor
  · intro found
    rcases found with isMatch | ⟨old, same, later, isLater, isMatch⟩
    · exact isMatch
    · rcases follows old same with ⟨literal, plain, isAfter, isResume⟩
      rw [isAfter] at isMatch
      rw [isResume] at isLater
      exact Matches.later_start rfl plain (suffix_iff.mpr (.inr isLater)) isMatch
  · exact fun isMatch => .inl isMatch

/-- The pattern takes its first code unit, and the last `*` is followed by one more. -/
theorem matchesFrom_unit {unit : UInt16} (isPlain : unit ≠ asterisk) :
    MatchesFrom (unit :: pattern) (unit :: text) star ↔ MatchesFrom pattern text star := by
  unfold MatchesFrom
  rw [segmentMatches_unit isPlain]
  simp

theorem not_segmentMatches {unit : UInt16} (notStar : pattern.head? ≠ some asterisk)
    (notUnit : pattern.head? ≠ some unit) : ¬SegmentMatches pattern (unit :: text) := by
  cases pattern with
  | nil => simp [SegmentMatches]
  | cons first pattern =>
      rw [segmentMatches_unit (by simpa using notStar)]
      rintro ⟨rest, same, _⟩
      cases same
      exact notUnit rfl

theorem matchFrom_iff (pattern text : JsString) (star : Option LastStar)
    (covered : ∀ old, star = some old → old.Covers pattern text)
    (follows : LastStar.Follows star pattern text) :
    matchFrom pattern text star covered = true ↔ MatchesFrom pattern text star := by
  fun_induction matchFrom pattern text star covered with
  | case1 pattern star => rw [matchesFrom_nil follows, segmentMatches_nil_iff]
  | case2 pattern star unit rest _ isStar _ induction =>
      rcases List.head?_eq_some_iff.mp isStar with ⟨later, rfl⟩
      rw [induction (LastStar.follows_self _ _), matchesFrom_star follows, List.tail_cons,
        matchesFrom_self]
  | case3 pattern star unit rest _ notStar isUnit _ induction =>
      rcases List.head?_eq_some_iff.mp isUnit with ⟨later, rfl⟩
      have isPlain : unit ≠ asterisk := fun same => notStar (same ▸ rfl)
      rw [matchesFrom_unit isPlain, induction]
      · rfl
      · intro old same
        rcases follows old same with ⟨literal, plain, isAfter, isResume⟩
        refine ⟨literal ++ [unit], ?_, by simp [isAfter], by simp [isResume]⟩
        intro other member
        rcases List.mem_append.mp member with isOld | isNew
        · exact plain other isOld
        · exact List.mem_singleton.mp isNew ▸ isPlain
  | case4 pattern unit rest notStar notUnit old _ _ _ induction =>
      rw [induction (LastStar.follows_self _ _), matchesFrom_self]
      constructor
      · exact fun found => .inr ⟨old, rfl, found⟩
      · intro found
        rcases found with isMatch | ⟨other, same, found⟩
        · exact absurd isMatch (not_segmentMatches notStar notUnit)
        · exact Option.some.inj same ▸ found
  | case5 pattern unit rest notStar notUnit =>
      constructor
      · exact fun isTrue => nomatch isTrue
      · intro found
        rcases found with isMatch | ⟨old, same, _⟩
        · exact absurd isMatch (not_segmentMatches notStar notUnit)
        · cases same

theorem matchSegment_iff (pattern text : JsString) :
    matchSegment pattern text = true ↔ SegmentMatches pattern text := by
  unfold matchSegment
  split
  · rename_i noStar
    have plain : ∀ unit ∈ pattern, ¬IsAsterisk unit := by
      intro unit member same
      rw [← Bool.not_eq_true, List.contains_iff_mem] at noStar
      exact noStar (same ▸ member)
    rw [beq_iff_eq]
    exact (Matches.literal_eq plain).symm
  · rw [matchFrom_iff _ _ _ _ (fun _ same => by cases same)]
    constructor
    · intro found
      rcases found with isMatch | ⟨old, same, _⟩
      · exact isMatch
      · cases same
    · exact fun isMatch => .inl isMatch

/-! ## Whole names -/

section Names

variable {pattern segments : List JsString} {active : List Nat} {state : Nat}

def Accepts (pattern : List JsString) (state : Nat) (segments : List JsString) : Prop :=
  PatternMatches (pattern.drop state) segments

theorem accepts_globstar (isGlobstar : pattern[state]? = some GLOBSTAR) :
    Accepts pattern state segments ↔
      ∃ rest, rest <:+ segments ∧ Accepts pattern (state + 1) rest := by
  rcases List.getElem?_eq_some_iff.mp isGlobstar with ⟨bound, isItem⟩
  unfold Accepts
  rw [List.drop_eq_getElem_cons bound, isItem]
  exact Matches.wild_iff rfl

theorem accepts_segment {item : JsString} (isItem : pattern[state]? = some item)
    (isPlain : ¬IsGlobstar item) :
    Accepts pattern state segments ↔
      ∃ segment rest, segments = segment :: rest ∧ SegmentMatches item segment ∧
        Accepts pattern (state + 1) rest := by
  rcases List.getElem?_eq_some_iff.mp isItem with ⟨bound, isItem⟩
  unfold Accepts
  rw [List.drop_eq_getElem_cons bound, isItem]
  exact Matches.plain_iff isPlain

/-- The states are in the pattern, and one behind a `**` is active with it. -/
structure Closed (pattern : List JsString) (active : List Nat) : Prop where
  bounded : ∀ state ∈ active, state ≤ pattern.length
  behind : ∀ state ∈ active, pattern[state]? = some GLOBSTAR → state + 1 ∈ active

theorem lt_takeWhile_length {items : List JsString} {index : Nat} :
    index < (items.takeWhile fun item => item == GLOBSTAR).length ↔
      ∀ passed ≤ index, items[passed]? = some GLOBSTAR := by
  induction items generalizing index with
  | nil => simpa using ⟨0, Nat.zero_le index⟩
  | cons first items induction =>
      by_cases isGlobstar : first = GLOBSTAR
      · rw [List.takeWhile_cons_of_pos (by simpa using isGlobstar), List.length_cons]
        cases index with
        | zero => simpa using isGlobstar
        | succ index =>
            rw [Nat.succ_lt_succ_iff, induction]
            constructor
            · intro run passed bound
              cases passed with
              | zero => simpa using isGlobstar
              | succ passed => simpa using run passed (Nat.le_of_succ_le_succ bound)
            · intro run passed bound
              simpa using run (passed + 1) (Nat.succ_le_succ bound)
      · rw [List.takeWhile_cons_of_neg (by simpa using isGlobstar)]
        constructor
        · intro impossible
          cases impossible
        · intro run
          exact absurd (by simpa using run 0 (Nat.zero_le index)) isGlobstar

theorem mem_globstarRun {next : Nat} :
    next ∈ globstarRun pattern state ↔ state < next ∧
      ∀ passed, state ≤ passed → passed < next → pattern[passed]? = some GLOBSTAR := by
  unfold globstarRun
  rw [List.mem_map]
  constructor
  · intro found
    rcases found with ⟨count, isRun, rfl⟩
    have run := lt_takeWhile_length.mp (List.mem_range.mp isRun)
    refine ⟨by omega, fun passed low high => ?_⟩
    have here := run (passed - state) (by omega)
    rw [List.getElem?_drop, Nat.add_sub_cancel' low] at here
    exact here
  · intro facts
    rcases facts with ⟨later, run⟩
    refine ⟨next - state - 1, List.mem_range.mpr (lt_takeWhile_length.mpr ?_), by omega⟩
    intro passed bound
    rw [List.getElem?_drop]
    exact run (state + passed) (by omega) (by omega)

theorem closed_closeOverGlobstar {pattern : List JsString} {active : List Nat}
    (bounded : ∀ state ∈ active, state ≤ pattern.length) :
    Closed pattern (closeOverGlobstar pattern active) := by
  constructor
  · intro state member
    unfold closeOverGlobstar at member
    rw [List.mem_append, List.mem_flatMap] at member
    rcases member with isActive | ⟨first, _, isRun⟩
    · exact bounded state isActive
    · rcases mem_globstarRun.mp isRun with ⟨later, run⟩
      rcases List.getElem?_eq_some_iff.mp (run (state - 1) (by omega) (by omega)) with ⟨bound, _⟩
      omega
  · intro state member isGlobstar
    unfold closeOverGlobstar at member ⊢
    rw [List.mem_append, List.mem_flatMap] at member ⊢
    right
    rcases member with isActive | ⟨first, isActive, isRun⟩
    · refine ⟨state, isActive, mem_globstarRun.mpr ⟨Nat.lt_succ_self state, ?_⟩⟩
      intro passed low high
      rw [Nat.le_antisymm (Nat.le_of_lt_succ high) low]
      exact isGlobstar
    · rcases mem_globstarRun.mp isRun with ⟨later, run⟩
      refine ⟨first, isActive, mem_globstarRun.mpr ⟨Nat.lt_succ_of_lt later, ?_⟩⟩
      intro passed low high
      rcases Nat.lt_or_ge passed state with isBefore | isState
      · exact run passed low isBefore
      · rw [Nat.le_antisymm (Nat.le_of_lt_succ high) isState]
        exact isGlobstar

theorem accepts_of_run {next : Nat} (isRun : next ∈ globstarRun pattern state)
    (accepts : Accepts pattern next segments) : Accepts pattern state segments := by
  rcases mem_globstarRun.mp isRun with ⟨later, run⟩
  clear isRun
  induction next, later using Nat.le_induction with
  | base =>
      exact (accepts_globstar (run state (Nat.le_refl _) (Nat.lt_succ_self _))).mpr
        ⟨segments, List.suffix_refl _, accepts⟩
  | succ next later induction =>
      refine induction ?_ fun passed low high => run passed low (Nat.lt_succ_of_lt high)
      exact (accepts_globstar (run next (Nat.le_of_lt later) (Nat.lt_succ_self _))).mpr
        ⟨segments, List.suffix_refl _, accepts⟩

theorem accepts_closeOverGlobstar :
    (∃ state ∈ closeOverGlobstar pattern active, Accepts pattern state segments) ↔
      ∃ state ∈ active, Accepts pattern state segments := by
  constructor
  · intro found
    rcases found with ⟨state, member, accepts⟩
    unfold closeOverGlobstar at member
    rw [List.mem_append, List.mem_flatMap] at member
    rcases member with isActive | ⟨first, isActive, isRun⟩
    · exact ⟨state, isActive, accepts⟩
    · exact ⟨first, isActive, accepts_of_run isRun accepts⟩
  · intro found
    rcases found with ⟨state, isActive, accepts⟩
    exact ⟨state, List.mem_append_left _ isActive, accepts⟩

theorem mem_stepStates {segment : JsString} {next : Nat} :
    next ∈ stepStates pattern segment active ↔
      ∃ state ∈ active, ∃ item, pattern[state]? = some item ∧
        (IsGlobstar item ∧ next = state ∨
          ¬IsGlobstar item ∧ SegmentMatches item segment ∧ next = state + 1) := by
  unfold stepStates
  rw [List.mem_flatMap]
  refine exists_congr fun state => and_congr_right fun _ => ?_
  cases isItem : pattern[state]? with
  | none => simp
  | some item =>
      simp only [Option.some.injEq, exists_eq_left', IsGlobstar]
      by_cases isGlobstar : item = GLOBSTAR
      · simp [isGlobstar]
      · rw [if_neg isGlobstar, ← matchSegment_iff]
        by_cases isMatch : matchSegment item segment = true
        · simp [isGlobstar, isMatch]
        · simp [isGlobstar, isMatch]

theorem bounded_stepStates (segment : JsString) :
    ∀ state ∈ stepStates pattern segment active, state ≤ pattern.length := by
  intro next member
  rcases mem_stepStates.mp member with ⟨state, _, item, isItem, found⟩
  rcases List.getElem?_eq_some_iff.mp isItem with ⟨bound, _⟩
  rcases found with ⟨_, rfl⟩ | ⟨_, _, rfl⟩
  · exact Nat.le_of_lt bound
  · exact bound

/-- A closed set is followed through its `**` to a state that takes the segment. -/
theorem step_of_accepts (closed : Closed pattern active) {segment : JsString} (fuel : Nat) :
    ∀ state ∈ active, pattern.length - state ≤ fuel →
      Accepts pattern state (segment :: segments) →
        ∃ next ∈ stepStates pattern segment active, Accepts pattern next segments := by
  induction fuel with
  | zero =>
      intro state _ bound accepts
      unfold Accepts at accepts
      rw [List.drop_eq_nil_of_le (by omega)] at accepts
      cases accepts
  | succ fuel induction =>
      intro state isActive bound accepts
      cases isItem : pattern[state]? with
      | none =>
          unfold Accepts at accepts
          rw [List.drop_eq_nil_of_le (List.getElem?_eq_none_iff.mp isItem)] at accepts
          cases accepts
      | some item =>
          by_cases isGlobstar : IsGlobstar item
          · rw [isGlobstar] at isItem
            rcases (accepts_globstar isItem).mp accepts with ⟨rest, isRest, below⟩
            rcases suffix_iff.mp isRest with rfl | isRest
            · exact induction (state + 1) (closed.behind state isActive isItem) (by omega) below
            · refine ⟨state, mem_stepStates.mpr ⟨state, isActive, GLOBSTAR, isItem,
                .inl ⟨rfl, rfl⟩⟩, ?_⟩
              exact (accepts_globstar isItem).mpr ⟨rest, isRest, below⟩
          · rcases (accepts_segment isItem isGlobstar).mp accepts with
              ⟨first, rest, whole, isMatch, below⟩
            cases whole
            exact ⟨state + 1, mem_stepStates.mpr ⟨state, isActive, item, isItem,
              .inr ⟨isGlobstar, isMatch, rfl⟩⟩, below⟩

/-- Reading one segment: what a closed set accepts, its successors accept without it. -/
theorem accepts_stepStates (closed : Closed pattern active) (segment : JsString) :
    (∃ state ∈ active, Accepts pattern state (segment :: segments)) ↔
      ∃ state ∈ stepStates pattern segment active, Accepts pattern state segments := by
  constructor
  · intro found
    rcases found with ⟨state, isActive, accepts⟩
    exact step_of_accepts closed _ state isActive (Nat.le_refl _) accepts
  · intro found
    rcases found with ⟨next, isNext, accepts⟩
    rcases mem_stepStates.mp isNext with ⟨state, isActive, item, isItem, step⟩
    refine ⟨state, isActive, ?_⟩
    rcases step with ⟨isGlobstar, rfl⟩ | ⟨isPlain, isMatch, rfl⟩
    · rw [isGlobstar] at isItem
      rcases (accepts_globstar isItem).mp accepts with ⟨rest, isRest, below⟩
      exact (accepts_globstar isItem).mpr ⟨rest, suffix_iff.mpr (.inr isRest), below⟩
    · exact (accepts_segment isItem isPlain).mpr ⟨segment, segments, rfl, isMatch, accepts⟩

theorem accept_of_accepts_nil (closed : Closed pattern active) (fuel : Nat) :
    ∀ state ∈ active, pattern.length - state ≤ fuel → Accepts pattern state [] →
      pattern.length ∈ active := by
  induction fuel with
  | zero =>
      intro state isActive bound _
      have isEnd : state = pattern.length :=
        Nat.le_antisymm (closed.bounded state isActive) (by omega)
      exact isEnd ▸ isActive
  | succ fuel induction =>
      intro state isActive bound accepts
      cases isItem : pattern[state]? with
      | none =>
          have isEnd : state = pattern.length :=
            Nat.le_antisymm (closed.bounded state isActive) (List.getElem?_eq_none_iff.mp isItem)
          exact isEnd ▸ isActive
      | some item =>
          by_cases isGlobstar : IsGlobstar item
          · rw [isGlobstar] at isItem
            rcases (accepts_globstar isItem).mp accepts with ⟨rest, isRest, below⟩
            rw [List.suffix_nil.mp isRest] at below
            exact induction (state + 1) (closed.behind state isActive isItem) (by omega) below
          · rcases (accepts_segment isItem isGlobstar).mp accepts with ⟨_, _, whole, _⟩
            cases whole

theorem contains_accept_iff (closed : Closed pattern active) :
    active.contains pattern.length = true ↔ ∃ state ∈ active, Accepts pattern state [] := by
  rw [List.contains_iff_mem]
  constructor
  · intro isActive
    refine ⟨pattern.length, isActive, ?_⟩
    unfold Accepts
    rw [List.drop_length]
    exact .nil
  · intro found
    rcases found with ⟨state, isActive, accepts⟩
    exact accept_of_accepts_nil closed _ state isActive (Nat.le_refl _) accepts

/-- The loop finds a nonempty front of the name that some active state accepts. -/
theorem matchesFrom_iff (closed : Closed pattern active) (segments : List JsString) :
    matchesFrom pattern active segments = true ↔
      ∃ front, front ≠ [] ∧ front <+: segments ∧ ∃ state ∈ active, Accepts pattern state front := by
  induction segments generalizing active with
  | nil => simp [matchesFrom]
  | cons segment rest induction =>
      have nextClosed := closed_closeOverGlobstar (@bounded_stepStates pattern active segment)
      have read : ∀ front, (∃ state ∈ active, Accepts pattern state (segment :: front)) ↔
          ∃ state ∈ closeOverGlobstar pattern (stepStates pattern segment active),
            Accepts pattern state front := by
        intro front
        rw [accepts_closeOverGlobstar, accepts_stepStates closed]
      have fronts : (∃ front, front ≠ [] ∧ front <+: segment :: rest ∧
          ∃ state ∈ active, Accepts pattern state front) ↔
            ∃ front, front <+: rest ∧
              ∃ state ∈ closeOverGlobstar pattern (stepStates pattern segment active),
                Accepts pattern state front := by
        constructor
        · intro found
          rcases found with ⟨front, nonempty, isFront, accepts⟩
          cases front with
          | nil => exact absurd rfl nonempty
          | cons first front =>
              rcases List.cons_prefix_cons.mp isFront with ⟨rfl, inRest⟩
              exact ⟨front, inRest, (read front).mp accepts⟩
        · intro found
          rcases found with ⟨front, isFront, accepts⟩
          exact ⟨segment :: front, List.cons_ne_nil _ _, List.cons_prefix_cons.mpr ⟨rfl, isFront⟩,
            (read front).mpr accepts⟩
      rw [fronts]
      unfold matchesFrom
      dsimp only
      split
      · rename_i isAccepted
        exact ⟨fun _ => ⟨[], List.nil_prefix, (contains_accept_iff nextClosed).mp isAccepted⟩,
          fun _ => rfl⟩
      · rename_i notAccepted
        have notHere : ∀ front, front <+: rest →
            (∃ state ∈ closeOverGlobstar pattern (stepStates pattern segment active),
              Accepts pattern state front) → front ≠ [] := by
          intro front _ accepts isEmpty
          exact notAccepted ((contains_accept_iff nextClosed).mpr (isEmpty ▸ accepts))
        split
        · rename_i isEmpty
          constructor
          · exact fun isTrue => nomatch isTrue
          · intro found
            rcases found with ⟨_, _, state, member, _⟩
            rw [List.isEmpty_iff.mp isEmpty] at member
            cases member
        · rw [induction nextClosed]
          constructor
          · intro found
            rcases found with ⟨front, _, isFront, accepts⟩
            exact ⟨front, isFront, accepts⟩
          · intro found
            rcases found with ⟨front, isFront, accepts⟩
            exact ⟨front, notHere front isFront accepts, isFront, accepts⟩

theorem matchesPrefix_iff (pattern segments : List JsString) :
    matchesPrefix pattern segments = true ↔
      ∃ front, front ≠ [] ∧ front <+: segments ∧ PatternMatches pattern front := by
  unfold matchesPrefix
  rw [matchesFrom_iff (closed_closeOverGlobstar (by simp))]
  refine exists_congr fun front => and_congr_right fun _ => and_congr_right fun _ => ?_
  rw [accepts_closeOverGlobstar]
  simp [Accepts]

end Names

/-! ## Compiled patterns -/

theorem parseSegments_iff {segments rest parsed : List JsString}
    (isParsed : parseSegments segments rest = some parsed) (text : List JsString) :
    PatternMatches parsed text ↔ PatternMatches (segments ++ rest) text := by
  induction rest generalizing segments with
  | nil =>
      cases isParsed
      rw [List.append_nil]
  | cons segment rest induction =>
      unfold parseSegments at isParsed
      split at isParsed
      · cases isParsed
      · split at isParsed
        · cases isParsed
        · split at isParsed
          · rename_i doubled
            rw [Bool.and_eq_true, beq_iff_eq, beq_iff_eq] at doubled
            rcases doubled with ⟨rfl, isLast⟩
            rcases List.getLast?_eq_some_iff.mp isLast with ⟨front, rfl⟩
            rw [induction isParsed, List.append_assoc, List.append_assoc]
            have isGlobstar : IsGlobstar GLOBSTAR := rfl
            exact Matches.append_congr
              (fun _ => (Matches.collapse isGlobstar isGlobstar).symm) front
              text
          · rw [induction isParsed, List.append_assoc]
            rfl

theorem parsePattern_iff {pattern : JsString} {parsed : List JsString}
    (isParsed : parsePattern pattern = some parsed) (text : List JsString) :
    PatternMatches parsed text ↔ PatternMatches (split pattern) text :=
  parseSegments_iff isParsed text

theorem parsed_of_mapM {patterns : List JsString} {compiled : List (List JsString)}
    (isCompiled : patterns.mapM parsePattern = some compiled) :
    List.Forall₂ (fun pattern parsed => parsePattern pattern = some parsed) patterns compiled := by
  induction patterns generalizing compiled with
  | nil =>
      cases isCompiled
      exact .nil
  | cons pattern patterns induction =>
      rw [List.mapM_cons] at isCompiled
      rcases Option.bind_eq_some_iff.mp isCompiled with ⟨parsed, isParsed, isCompiled⟩
      rcases Option.bind_eq_some_iff.mp isCompiled with ⟨rest, isRest, isCompiled⟩
      cases isCompiled
      exact .cons isParsed (induction isRest)

/-- Some parsed pattern matches a front of the name when some pattern as written does. -/
theorem exists_parsed {patterns : List JsString} {compiled : List (List JsString)}
    (parsed : List.Forall₂ (fun pattern parsed => parsePattern pattern = some parsed) patterns
      compiled) (front : List JsString) :
    (∃ pattern ∈ compiled, PatternMatches pattern front) ↔
      ∃ pattern ∈ patterns, PatternMatches (split pattern) front := by
  induction parsed with
  | nil => simp
  | cons isParsed _ induction =>
      simp only [List.exists_mem_cons_iff, parsePattern_iff isParsed, induction]

/-- The compiled predicate holds of a name when the segments of a pattern, as they were
written, take a nonempty front of the segments of the name; and the matcher of one segment
decides the meaning of every segment. -/
theorem exclude_means {patterns : List JsString} {excludes : JsString → Bool}
    (compiled : compileExclude patterns = some excludes) :
    (∀ name, excludes name = true ↔
      ∃ pattern ∈ patterns, ∃ front, front ≠ [] ∧ front <+: split name ∧
        PatternMatches (split pattern) front) ∧
      (∀ pattern parsed, parsePattern pattern = some parsed →
        ∀ text, PatternMatches parsed text ↔ PatternMatches (split pattern) text) ∧
      ∀ pattern text, matchSegment pattern text = true ↔ SegmentMatches pattern text := by
  rcases Option.map_eq_some_iff.mp compiled with ⟨parsed, isParsed, rfl⟩
  refine ⟨?_, fun _ _ isParsed => parsePattern_iff isParsed, matchSegment_iff⟩
  intro name
  have pairs := parsed_of_mapM isParsed
  rw [List.any_eq_true]
  simp only [matchesPrefix_iff]
  constructor
  · intro found
    rcases found with ⟨pattern, member, front, nonempty, isFront, isMatch⟩
    rcases (exists_parsed pairs front).mp ⟨pattern, member, isMatch⟩ with
      ⟨written, isWritten, means⟩
    exact ⟨written, isWritten, front, nonempty, isFront, means⟩
  · intro found
    rcases found with ⟨written, isWritten, front, nonempty, isFront, means⟩
    rcases (exists_parsed pairs front).mpr ⟨written, isWritten, means⟩ with
      ⟨pattern, member, isMatch⟩
    exact ⟨pattern, member, front, nonempty, isFront, isMatch⟩

/-- `**/*.l` excludes `a.l`: nothing for `**`, and `a` for `*`. -/
theorem exclude_means_log :
    ∃ excludes, compileExclude [[0x2a, 0x2a, 0x2f, 0x2a, 0x2e, 0x6c]] = some excludes ∧
      excludes [0x61, 0x2e, 0x6c] = true := by
  have compiled : compileExclude [[0x2a, 0x2a, 0x2f, 0x2a, 0x2e, 0x6c]] =
      some fun name => [[GLOBSTAR, [asterisk, 0x2e, 0x6c]]].any fun pattern =>
        matchesPrefix pattern (split name) := by
    rfl
  refine ⟨_, compiled, ((exclude_means compiled).1 _).mpr ⟨_, List.mem_singleton_self _,
    [[0x61, 0x2e, 0x6c]], List.cons_ne_nil _ _, ?_, ?_⟩⟩
  · exact List.prefix_refl _
  · have isStar : IsAsterisk asterisk := rfl
    have isGlobstar : IsGlobstar GLOBSTAR := rfl
    have plain : ¬IsGlobstar [asterisk, 0x2e, 0x6c] := by
      unfold IsGlobstar
      decide
    have dot : ¬IsAsterisk 0x2e := by
      unfold IsAsterisk
      decide
    have letter : ¬IsAsterisk 0x6c := by
      unfold IsAsterisk
      decide
    have fit : SegmentMatches [asterisk, 0x2e, 0x6c] [0x61, 0x2e, 0x6c] :=
      Matches.skip isStar [0x61] (.take dot rfl (.take letter rfl .nil))
    exact Matches.skip isGlobstar [] (.take plain fit .nil)

end Storix
