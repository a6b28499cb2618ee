import Storix.Vfs.ExtractEntryPlan
import Storix.Foundation.Trie

/-! # The planner decides the conflicts of an archive

The trie of the planner stands for the entries that were accepted. An entry is refused when
it would share its path with another, or when one of the two is a file above the other; in
whatever order they come. -/

namespace Storix

open Foundation JsString

/-! ## The conflict rule -/

abbrev ArchivePath := List JsString × VfsNodeType

def Above (left right : ArchivePath) : Prop :=
  left.2 = .file ∧ left.1 <+: right.1 ∧ left.1 ≠ right.1

def Compatible (entries : List ArchivePath) : Prop :=
  entries.Pairwise (fun left right => left.1 ≠ right.1) ∧
    ∀ left ∈ entries, ∀ right ∈ entries, ¬Above left right

instance (left right : ArchivePath) : Decidable (Above left right) :=
  inferInstanceAs (Decidable (_ ∧ _))

instance (entries : List ArchivePath) : Decidable (Compatible entries) :=
  inferInstanceAs (Decidable (_ ∧ _))

theorem Compatible.perm {entries others : List ArchivePath} (same : entries.Perm others) :
    Compatible entries ↔ Compatible others := by
  unfold Compatible
  rw [same.pairwise_iff fun different isSame => different isSame.symm]
  simp only [same.mem_iff]

theorem Compatible.of_append {entries others : List ArchivePath}
    (compatible : Compatible (entries ++ others)) : Compatible entries :=
  ⟨(List.pairwise_append.mp compatible.1).1, fun left isLeft right isRight =>
    compatible.2 left (List.mem_append_left _ isLeft) right (List.mem_append_left _ isRight)⟩

structure Joins (entries : List ArchivePath) (entry : ArchivePath) : Prop where
  distinct : ∀ old ∈ entries, old.1 ≠ entry.1
  notBelow : ∀ old ∈ entries, ¬Above old entry
  notAbove : ∀ old ∈ entries, ¬Above entry old

theorem compatible_append {entries : List ArchivePath} {entry : ArchivePath} :
    Compatible (entries ++ [entry]) ↔ Compatible entries ∧ Joins entries entry := by
  unfold Compatible
  rw [List.pairwise_append]
  constructor
  · intro facts
    rcases facts with ⟨⟨pairwise, _, distinct⟩, free⟩
    refine ⟨⟨pairwise, fun left isLeft right isRight => free left (List.mem_append_left _ isLeft)
      right (List.mem_append_left _ isRight)⟩, ?_, ?_, ?_⟩
    · exact fun old isOld => distinct old isOld entry (List.mem_singleton_self entry)
    · exact fun old isOld => free old (List.mem_append_left _ isOld) entry (by simp)
    · exact fun old isOld => free entry (by simp) old (List.mem_append_left _ isOld)
  · intro facts
    rcases facts with ⟨⟨pairwise, free⟩, joins⟩
    refine ⟨⟨pairwise, List.pairwise_singleton _ _, ?_⟩, ?_⟩
    · intro old isOld other isOther
      rw [List.mem_singleton.mp isOther]
      exact joins.distinct old isOld
    · intro left isLeft right isRight
      rcases List.mem_append.mp isLeft with oldLeft | newLeft
      · rcases List.mem_append.mp isRight with oldRight | newRight
        · exact free left oldLeft right oldRight
        · rw [List.mem_singleton.mp newRight]
          exact joins.notBelow left oldLeft
      · rw [List.mem_singleton.mp newLeft]
        rcases List.mem_append.mp isRight with oldRight | newRight
        · exact joins.notAbove right oldRight
        · rw [List.mem_singleton.mp newRight]
          exact fun above => above.2.2 rfl

/-! ## What the trie holds -/

def plainNode : TrieNode := ⟨false, false, false⟩

open Classical in
noncomputable def expectedNode (entries : List ArchivePath) (path : List JsString) :
    Option TrieNode :=
  if path = [] ∨ ∃ entry ∈ entries, path <+: entry.1 then
    some
      { isExplicit := decide (∃ entry ∈ entries, entry.1 = path)
        isFile := decide (∃ entry ∈ entries, entry.1 = path ∧ entry.2 = .file)
        hasChildren := decide (∃ entry ∈ entries, path <+: entry.1 ∧ path ≠ entry.1) }
  else none

namespace ExtractEntryPlanner

variable {planner : ExtractEntryPlanner} {node : Nat} {front segments path : List JsString}
variable {type : VfsNodeType} {entries : List ArchivePath}

def trie (planner : ExtractEntryPlanner) : Trie JsString TrieNode :=
  ⟨planner.children, planner.nodes⟩

structure Holds (planner : ExtractEntryPlanner) (entries : List ArchivePath) : Prop where
  formed : planner.trie.WellFormed
  nonempty : ∀ entry ∈ entries, entry.1 ≠ []
  value : ∀ path, planner.trie.value path = expectedNode entries path

/-! ## Reading the trie -/

theorem locate_none (planner : ExtractEntryPlanner) (segments : List JsString) :
    planner.locate none segments = List.replicate segments.length none := by
  induction segments with
  | nil => rfl
  | cons segment rest induction =>
      rw [locate, induction]
      rfl

theorem locate_getElem? (planner : ExtractEntryPlanner) (start : Nat) (segments : List JsString)
    (depth : Nat) (bound : depth < segments.length) :
    (planner.locate (some start) segments)[depth]? =
      some (planner.trie.walk start (segments.take (depth + 1))) := by
  induction segments generalizing start depth with
  | nil => cases bound
  | cons segment rest induction =>
      have isChild : planner.trie.child start segment = planner.children.get (start, segment) := rfl
      rw [locate]
      cases depth with
      | zero =>
          rw [List.getElem?_cons_zero, List.take_succ_cons, List.take_zero, Trie.walk_singleton,
            isChild]
      | succ depth =>
          have below : depth < rest.length := Nat.lt_of_succ_lt_succ bound
          rw [List.getElem?_cons_succ, List.take_succ_cons, Trie.walk, isChild]
          cases planner.children.get (start, segment) with
          | none =>
              rw [locate_none, List.getElem?_replicate, if_pos below]
              rfl
          | some next =>
              rw [induction next depth below]
              rfl

theorem locate_length (planner : ExtractEntryPlanner) (start : Option Nat)
    (segments : List JsString) : (planner.locate start segments).length = segments.length := by
  induction segments generalizing start with
  | nil =>
      cases start with
      | none => rfl
      | some _ => rfl
  | cons segment rest induction =>
      cases start with
      | none => simp [locate, induction]
      | some _ => simp [locate, induction]

theorem isFileNode_walk (planner : ExtractEntryPlanner) (path : List JsString) :
    planner.isFileNode (planner.trie.walk 0 path) = (planner.trie.value path).any TrieNode.isFile :=
  rfl

/-- No file is found on the way exactly if no proper part of the path is one. -/
theorem fileAbove_eq_none (planner : ExtractEntryPlanner) (segments : List JsString) :
    planner.fileAbove (planner.locate (some 0) segments) segments = none ↔
      ∀ depth, depth + 1 < segments.length →
        (planner.trie.value (segments.take (depth + 1))).any TrieNode.isFile = false := by
  unfold fileAbove
  rw [Option.map_eq_none_iff, List.findIdx?_eq_none_iff]
  constructor
  · intro free depth bound
    rw [← isFileNode_walk]
    refine free _ (List.mem_iff_getElem?.mpr ⟨depth, ?_⟩)
    rw [List.getElem?_dropLast, locate_length, if_pos (by omega),
      locate_getElem? _ _ _ _ (by omega)]
  · intro free node member
    rcases List.mem_iff_getElem?.mp member with ⟨depth, isNode⟩
    rw [List.getElem?_dropLast, locate_length] at isNode
    split at isNode
    · rename_i bound
      rw [locate_getElem? _ _ _ _ (by omega)] at isNode
      cases isNode
      rw [isFileNode_walk]
      exact free depth (by omega)
    · cases isNode

theorem locate_last (planner : ExtractEntryPlanner) (nonempty : segments ≠ []) :
    ((planner.locate (some 0) segments).getLast?.join.bind fun index => planner.nodes[index]?) =
      planner.trie.value segments := by
  have positive : 0 < segments.length := List.length_pos_iff.mpr nonempty
  have whole : segments.take (segments.length - 1 + 1) = segments :=
    List.take_of_length_le (by omega)
  rw [List.getLast?_eq_getElem?, locate_length, locate_getElem? _ _ _ _ (by omega), whole]
  rfl

/-! ## The conflicts it finds -/

theorem value_isFile (holds : planner.Holds entries) :
    (planner.trie.value path).any TrieNode.isFile = true ↔ (path, .file) ∈ entries := by
  rw [holds.value]
  unfold expectedNode
  constructor
  · intro isFile
    split at isFile
    · rcases of_decide_eq_true isFile with ⟨entry, member, rfl, type⟩
      rw [← type]
      exact member
    · cases isFile
  · intro member
    rw [if_pos (.inr ⟨_, member, List.prefix_rfl⟩)]
    exact decide_eq_true ⟨_, member, rfl, rfl⟩

theorem fileAbove_none_iff (holds : planner.Holds entries) :
    planner.fileAbove (planner.locate (some 0) segments) segments = none ↔
      ∀ old ∈ entries, ¬Above old (segments, type) := by
  rw [fileAbove_eq_none]
  constructor
  · rintro free ⟨path, oldType⟩ member ⟨isFile, ⟨rest, isRest⟩, different⟩
    dsimp only at isFile isRest different
    subst isFile
    have nonempty := List.length_pos_iff.mpr (holds.nonempty _ member)
    have longer : 0 < rest.length := by
      refine List.length_pos_iff.mpr fun isNil => different ?_
      rw [← isRest, isNil, List.append_nil]
    dsimp only at nonempty
    have isPath : segments.take (path.length - 1 + 1) = path := by
      rw [Nat.sub_add_cancel nonempty, ← isRest, List.take_left]
    have plain := free (path.length - 1) (by rw [← isRest, List.length_append]; omega)
    rw [isPath, (value_isFile holds).mpr member] at plain
    cases plain
  · intro free depth bound
    by_contra isFile
    rw [Bool.not_eq_false, value_isFile holds] at isFile
    refine free _ isFile ⟨rfl, List.take_prefix _ _, fun same => ?_⟩
    have sameLength := congrArg List.length same
    simp at sameLength
    omega

theorem expectedNode_eq_none (isNone : expectedNode entries path = none) :
    ∀ entry ∈ entries, ¬path <+: entry.1 := by
  unfold expectedNode at isNone
  split at isNone
  · cases isNone
  · rename_i absent
    exact fun entry member isFront => absent (.inr ⟨entry, member, isFront⟩)

theorem expectedNode_eq_some {found : TrieNode} (isSome : expectedNode entries path = some found) :
    (found.isExplicit = true ↔ ∃ entry ∈ entries, entry.1 = path) ∧
      (found.hasChildren = true ↔ ∃ entry ∈ entries, path <+: entry.1 ∧ path ≠ entry.1) := by
  unfold expectedNode at isSome
  split at isSome
  · cases isSome
    exact ⟨decide_eq_true_iff, decide_eq_true_iff⟩
  · cases isSome

/-- The planner refuses an entry exactly if it conflicts with an accepted one. -/
theorem conflict_eq_none (holds : planner.Holds entries) (nonempty : segments ≠ []) :
    planner.conflict (planner.locate (some 0) segments) segments type = none ↔
      Joins entries (segments, type) := by
  have free : planner.fileAbove (planner.locate (some 0) segments) segments = none ↔
      ∀ old ∈ entries, ¬Above old (segments, type) := fileAbove_none_iff holds
  unfold conflict
  rw [locate_last planner nonempty, holds.value]
  cases above : planner.fileAbove (planner.locate (some 0) segments) segments with
  | some file =>
      rw [above] at free
      simp only [reduceCtorEq, false_iff] at free ⊢
      exact fun joins => free joins.notBelow
  | none =>
      have notBelow := free.mp above
      cases found : expectedNode entries segments with
      | none =>
          have absent := expectedNode_eq_none found
          simp only [true_iff]
          refine ⟨?_, notBelow, ?_⟩
          · intro old member same
            exact absent old member (same ▸ List.prefix_rfl)
          · intro old member isAbove
            exact absent old member isAbove.2.1
      | some node =>
          rcases expectedNode_eq_some found with ⟨explicit, parent⟩
          dsimp only
          by_cases isExplicit : node.isExplicit = true
          · rw [if_pos isExplicit]
            rcases explicit.mp isExplicit with ⟨old, member, same⟩
            simp only [reduceCtorEq, false_iff]
            exact fun joins => joins.distinct old member same
          · rw [if_neg isExplicit]
            have distinct : ∀ old ∈ entries, old.1 ≠ segments :=
              fun old member same => isExplicit (explicit.mpr ⟨old, member, same⟩)
            by_cases blocked : type = .file ∧ node.hasChildren = true
            · rw [if_pos blocked]
              rcases parent.mp blocked.2 with ⟨old, member, isFront, different⟩
              simp only [reduceCtorEq, false_iff]
              exact fun joins => joins.notAbove old member ⟨blocked.1, isFront, different⟩
            · rw [if_neg blocked]
              simp only [true_iff]
              refine ⟨distinct, notBelow, ?_⟩
              intro old member isAbove
              exact blocked ⟨isAbove.1, parent.mpr ⟨old, member, isAbove.2⟩⟩

/-! ## Recording an entry -/

def mark (segments : List JsString) (type : VfsNodeType) (path : List JsString) (old : TrieNode) :
    TrieNode :=
  if path = segments then
    { old with isExplicit := true, isFile := old.isFile || type == .file }
  else { old with hasChildren := true }

theorem locate_congr {other : ExtractEntryPlanner} (same : other.children = planner.children)
    (start : Option Nat) (segments : List JsString) :
    other.locate start segments = planner.locate start segments := by
  induction segments generalizing start with
  | nil =>
      cases start with
      | none => rfl
      | some _ => rfl
  | cons segment rest induction =>
      cases start with
      | none => rw [locate, locate, induction]
      | some _ => rw [locate, locate, induction, same]

theorem locate_fresh (fresh : ∀ segment, planner.children.get (node, segment) = none)
    (segments : List JsString) :
    planner.locate (some node) segments = List.replicate segments.length none := by
  cases segments with
  | nil => rfl
  | cons segment rest =>
      rw [locate, fresh, locate_none]
      rfl

/-- A path on the way from `front` is `front` itself or passes its next segment. -/
theorem prefix_snoc_iff {segment : JsString} {rest : List JsString} (different : path ≠ front)
    (isFront : path <+: front ++ segment :: rest) :
    front ++ [segment] <+: path ↔ front <+: path := by
  constructor
  · exact fun longer => (List.prefix_append front [segment]).trans longer
  · rintro ⟨back, rfl⟩
    cases back with
    | nil => exact absurd (List.append_nil front) different
    | cons key back =>
        rcases (List.prefix_append_right_inj front).mp isFront with ⟨tail, isTail⟩
        cases isTail
        exact ⟨back, by simp⟩

/-- The planner after the step of `record` below a node. -/
structure Entered (planner entered : ExtractEntryPlanner) (front : List JsString)
    (segment : JsString) (next : Nat) : Prop where
  formed : entered.trie.WellFormed
  found : entered.trie.walk 0 (front ++ [segment]) = some next
  value : ∀ path, entered.trie.value path =
    if path = front then (planner.trie.value path).map fun old => { old with hasChildren := true }
    else if path = front ++ [segment] then some ((planner.trie.value path).getD plainNode)
    else planner.trie.value path

/-- One step of `record` goes to the next node, which it adds if it is missing. -/
theorem record_step (type : VfsNodeType) (formed : planner.trie.WellFormed)
    (found : planner.trie.walk 0 front = some node) (segment : JsString) (rest : List JsString) :
    ∃ entered next, Entered planner entered front segment next ∧
      record type planner node
          ((segment :: rest).zip (planner.locate (some node) (segment :: rest))) =
        record type entered next (rest.zip (entered.locate (some next) rest)) := by
  let parent : TrieNode → TrieNode := fun old => { old with hasChildren := true }
  have walked :
      planner.trie.walk 0 (front ++ [segment]) = planner.children.get (node, segment) := by
    rw [Trie.walk_snoc, found]
    rfl
  have longer : front ++ [segment] ≠ front := by simp
  rw [locate, List.zip_cons_cons]
  cases isChild : planner.children.get (node, segment) with
  | some child =>
      rw [isChild] at walked
      refine ⟨planner.setNode node parent, child, ⟨formed.modify _ _, ?_, fun path => ?_⟩, ?_⟩
      · rw [← walked]
        exact Trie.walk_modify planner.trie node parent _
      · refine (formed.value_modify found parent path).trans ?_
        by_cases isFront : path = front
        · rw [if_pos isFront, if_pos isFront]
        · rw [if_neg isFront, if_neg isFront]
          by_cases isNext : path = front ++ [segment]
          · rcases formed.value_of_walk walked with ⟨old, isOld⟩
            rw [if_pos isNext, isNext, isOld]
            rfl
          · rw [if_neg isNext]
      · have sameChildren : (planner.setNode node parent).children = planner.children := rfl
        have isLocated := locate_congr sameChildren (some child) rest
        rw [record, isLocated]
  | none =>
      rw [isChild] at walked
      have bound := formed.walk_lt found
      let entered : ExtractEntryPlanner :=
        { planner with
          children := planner.children.set (node, segment) planner.nodes.length
          nodes := planner.nodes ++ [plainNode] }
      have isExtended : entered.trie = planner.trie.extend node segment plainNode := rfl
      have extended : entered.trie.WellFormed := isExtended ▸ formed.extend bound segment plainNode
      have walkExtended := formed.walk_extend found isChild plainNode
      have stays : entered.trie.walk 0 front = some node := by
        rw [isExtended, walkExtended, if_neg longer.symm, found]
      refine ⟨entered.setNode node parent, planner.nodes.length,
        ⟨extended.modify _ _, ?_, fun path => ?_⟩, ?_⟩
      · refine (Trie.walk_modify entered.trie node parent _).trans ?_
        rw [isExtended, walkExtended, if_pos rfl]
        rfl
      · refine (extended.value_modify stays parent path).trans ?_
        rw [isExtended, formed.value_extend found isChild]
        by_cases isFront : path = front
        · rw [if_pos isFront, if_pos isFront, if_neg (isFront ▸ longer.symm)]
        · rw [if_neg isFront, if_neg isFront]
          by_cases isNext : path = front ++ [segment]
          · rw [if_pos isNext, if_pos isNext, isNext, Trie.value_of_walk_none walked]
            rfl
          · rw [if_neg isNext, if_neg isNext]
      · have isLocated : (entered.setNode node parent).locate (some planner.nodes.length) rest =
            planner.locate none rest := by
          rw [locate_none]
          refine locate_fresh (fun key => ?_) rest
          refine (planner.trie.child_extend node segment plainNode _ key).trans ?_
          have other : (planner.nodes.length, key) ≠ (node, segment) := by
            intro same
            cases same
            exact Nat.lt_irrefl _ bound
          rw [if_neg other]
          cases isEdge : planner.trie.child planner.nodes.length key with
          | none => rfl
          | some further => exact absurd (formed.inside _ _ _ isEdge).1 (Nat.lt_irrefl _)
        rw [record, isLocated]
        rfl

theorem record_spec (formed : planner.trie.WellFormed)
    (found : planner.trie.walk 0 front = some node) :
    let recorded := record type planner node (segments.zip (planner.locate (some node) segments))
    recorded.trie.WellFormed ∧
      ∀ path, recorded.trie.value path =
        if front <+: path ∧ path <+: front ++ segments then
          some (mark (front ++ segments) type path ((planner.trie.value path).getD plainNode))
        else planner.trie.value path := by
  induction segments generalizing planner node front with
  | nil =>
      refine ⟨formed.modify _ _, fun path => ?_⟩
      have changed := formed.value_modify found
        (fun old => { old with isExplicit := true, isFile := old.isFile || type == .file }) path
      refine changed.trans ?_
      rw [List.append_nil]
      by_cases same : path = front
      · subst same
        rcases formed.value_of_walk found with ⟨old, isOld⟩
        simp [isOld, mark]
      · have outside : ¬(front <+: path ∧ path <+: front) := by
          intro both
          exact same (both.2.eq_of_length (Nat.le_antisymm both.2.length_le both.1.length_le))
        rw [if_neg same, if_neg outside]
  | cons segment rest induction =>
      rcases record_step type formed found segment rest with ⟨entered, next, step, isStep⟩
      have later := induction step.formed step.found
      rw [isStep]
      refine ⟨later.1, fun path => ?_⟩
      rw [later.2 path, step.value, List.append_assoc, List.singleton_append]
      by_cases isFront : path = front
      · subst isFront
        rcases formed.value_of_walk found with ⟨old, isOld⟩
        simp [isOld, mark]
      · rw [if_neg isFront]
        by_cases onWay : path <+: front ++ segment :: rest
        · have onWayIff := prefix_snoc_iff isFront onWay
          simp only [onWayIff, onWay, and_true]
          by_cases isNext : path = front ++ [segment]
          · rw [if_pos isNext]
            simp [isNext]
          · rw [if_neg isNext]
        · have notNext : path ≠ front ++ [segment] := by
            intro isNext
            exact onWay (isNext ▸ by simp)
          simp only [onWay, and_false, if_false, if_neg notNext]

theorem expectedNode_getD (entries : List ArchivePath) (path : List JsString) :
    (expectedNode entries path).getD plainNode =
      open Classical in
      { isExplicit := decide (∃ entry ∈ entries, entry.1 = path)
        isFile := decide (∃ entry ∈ entries, entry.1 = path ∧ entry.2 = .file)
        hasChildren := decide (∃ entry ∈ entries, path <+: entry.1 ∧ path ≠ entry.1) } := by
  unfold expectedNode
  split
  · rfl
  · rename_i absent
    have notFront : ∀ entry ∈ entries, ¬path <+: entry.1 :=
      fun entry member isFront => absent (.inr ⟨entry, member, isFront⟩)
    have notSame : ∀ entry ∈ entries, entry.1 ≠ path :=
      fun entry member same => notFront entry member (same ▸ List.prefix_rfl)
    simp only [Option.getD_none, plainNode, TrieNode.mk.injEq]
    refine ⟨?_, ?_, ?_⟩
    · exact (decide_eq_false fun ⟨entry, member, same⟩ => notSame entry member same).symm
    · exact (decide_eq_false fun ⟨entry, member, same, _⟩ => notSame entry member same).symm
    · exact (decide_eq_false fun ⟨entry, member, isFront, _⟩ => notFront entry member isFront).symm

theorem expectedNode_append (entries : List ArchivePath) (segments : List JsString)
    (type : VfsNodeType) (path : List JsString) :
    expectedNode (entries ++ [(segments, type)]) path =
      if path <+: segments then
        some (mark segments type path ((expectedNode entries path).getD plainNode))
      else expectedNode entries path := by
  rw [expectedNode_getD]
  have present : ∀ holds : ArchivePath → Prop,
      (∃ entry ∈ entries ++ [(segments, type)], holds entry) ↔
        (∃ entry ∈ entries, holds entry) ∨ holds (segments, type) := by
    intro holds
    simp only [List.mem_append, List.mem_singleton, or_and_right, exists_or, exists_eq_left]
  have explicit := present fun entry => entry.1 = path
  have file := present fun entry => entry.1 = path ∧ entry.2 = .file
  have parent := present fun entry => path <+: entry.1 ∧ path ≠ entry.1
  have front := present fun entry => path <+: entry.1
  unfold expectedNode
  by_cases isFront : path <+: segments
  · rw [if_pos isFront, if_pos (.inr (front.mpr (.inr isFront)))]
    unfold mark
    by_cases same : path = segments
    · subst same
      simp only [explicit, file, parent, or_true, decide_true, true_and, ne_eq, not_true,
        and_false, or_false, if_true, Bool.decide_or]
      cases type with
      | file => rfl
      | directory => rfl
    · have different : segments ≠ path := fun isSame => same isSame.symm
      simp only [explicit, file, parent, same, different, isFront, if_false, false_and, or_false,
        ne_eq, not_false_eq_true, and_true, or_true, decide_true]
  · have different : segments ≠ path := fun isSame => isFront (isSame ▸ List.prefix_rfl)
    simp only [explicit, file, parent, front, different, isFront, if_false, false_and, or_false]

theorem Holds.record (type : VfsNodeType) (holds : planner.Holds entries)
    (nonempty : segments ≠ []) :
    (record type planner 0 (segments.zip (planner.locate (some 0) segments))).Holds
      (entries ++ [(segments, type)]) := by
  have isRoot : planner.trie.walk 0 [] = some 0 := rfl
  rcases record_spec holds.formed isRoot with ⟨formed, value⟩
  refine ⟨formed, ?_, fun path => ?_⟩
  · intro entry member
    rcases List.mem_append.mp member with old | new
    · exact holds.nonempty entry old
    · rw [List.mem_singleton.mp new]
      exact nonempty
  · rw [value, expectedNode_append, holds.value]
    simp only [List.nil_append, List.nil_prefix, true_and]

/-! ## One call -/

def archivePath (planner : ExtractEntryPlanner) (entry : JsString × VfsNodeType) : ArchivePath :=
  (split (planner.normalizedName entry.1 entry.2), entry.2)

structure Selectable (host : Host) (planner : ExtractEntryPlanner)
    (entry : JsString × VfsNodeType) : Prop where
  notRoot : ¬(planner.tarLike = true ∧ entry.2 = .directory ∧ entry.1 = [0x2e, slash])
  valid : validArchiveEntryName host (planner.normalizedName entry.1 entry.2) = true
  short : byteLength
    (joinSegments (planner.destinationSegments ++ (planner.archivePath entry).1)) ≤ 4096
  kept : planner.excludes (planner.normalizedName entry.1 entry.2) = false

def accept (planner : ExtractEntryPlanner) (entry : JsString × VfsNodeType) :
    ExtractEntryPlanner :=
  let segments := (planner.archivePath entry).1
  { record entry.2 planner 0 (segments.zip (planner.locate (some 0) segments)) with
    selected := planner.selected + 1 }

structure IsPlanned (planner : ExtractEntryPlanner) (entry : JsString × VfsNodeType)
    (planned : PlannedEntry) : Prop where
  index : planned.entryIndex = planner.selected
  name : planned.name = planner.normalizedName entry.1 entry.2
  segments : planned.segments = (planner.archivePath entry).1
  type : planned.type = entry.2

variable {host : Host} {entry : JsString × VfsNodeType}

theorem archivePath_nonempty (planner : ExtractEntryPlanner) (entry : JsString × VfsNodeType) :
    (planner.archivePath entry).1 ≠ [] :=
  List.splitOn_ne_nil _ _

/-- A call returns nothing, or it throws, or it records a selectable entry without conflict. -/
theorem plan_cases (host : Host) (planner : ExtractEntryPlanner) (entry : JsString × VfsNodeType) :
    let path := (planner.archivePath entry).1
    let conflict := planner.conflict (planner.locate (some 0) path) path entry.2
    (planner.plan host entry.1 entry.2 = .ok (none, planner) ∧ ¬planner.Selectable host entry) ∨
      (∃ error, planner.plan host entry.1 entry.2 = .error error ∧
        (planner.Selectable host entry → conflict ≠ none)) ∨
      (planner.Selectable host entry ∧ conflict = none ∧
        ∃ planned, planner.IsPlanned entry planned ∧
          planner.plan host entry.1 entry.2 = .ok (some planned, planner.accept entry)) := by
  unfold plan
  dsimp only
  by_cases isRoot : planner.tarLike = true ∧ entry.2 = .directory ∧ entry.1 = [0x2e, slash]
  · rw [if_pos isRoot]
    exact .inl ⟨rfl, fun selectable => selectable.notRoot isRoot⟩
  · rw [if_neg isRoot]
    by_cases invalid : validArchiveEntryName host (planner.normalizedName entry.1 entry.2) = false
    · rw [if_pos invalid]
      refine .inr (.inl ⟨_, rfl, fun selectable => ?_⟩)
      rw [selectable.valid] at invalid
      cases invalid
    · rw [if_neg invalid]
      by_cases long : 4096 < byteLength (joinSegments
          (planner.destinationSegments ++ split (planner.normalizedName entry.1 entry.2)))
      · rw [if_pos long]
        exact .inr (.inl ⟨_, rfl, fun selectable => absurd selectable.short (Nat.not_le.mpr long)⟩)
      · rw [if_neg long]
        by_cases excluded : planner.excludes (planner.normalizedName entry.1 entry.2) = true
        · rw [if_pos excluded]
          refine .inl ⟨rfl, fun selectable => ?_⟩
          rw [selectable.kept] at excluded
          cases excluded
        · rw [if_neg excluded]
          have selectable : planner.Selectable host entry :=
            ⟨isRoot, by simpa using invalid, Nat.not_lt.mp long, by simpa using excluded⟩
          refine .inr ?_
          unfold archivePath
          dsimp only
          split
          · rename_i reason isConflict
            refine .inl ⟨_, rfl, fun _ => ?_⟩
            rw [isConflict]
            simp
          · rename_i noConflict
            exact .inr ⟨selectable, noConflict, _, ⟨rfl, rfl, rfl, rfl⟩, rfl⟩

theorem accept_settings (planner : ExtractEntryPlanner) (entry : JsString × VfsNodeType) :
    (planner.accept entry).tarLike = planner.tarLike ∧
      (planner.accept entry).destinationSegments = planner.destinationSegments ∧
      (planner.accept entry).excludes = planner.excludes :=
  have settings := record_settings entry.2 planner 0
    ((planner.archivePath entry).1.zip (planner.locate (some 0) (planner.archivePath entry).1))
  ⟨settings.1, settings.2.1, settings.2.2.1⟩

theorem planStatements_run (host : Host) (planner : ExtractEntryPlanner)
    (entry : JsString × VfsNodeType) :
    (planStatements host entry.1 entry.2).run.run planner =
      match planner.plan host entry.1 entry.2 with
      | .error error => (.error error, planner)
      | .ok (planned, next) => (.ok planned, next) := by
  rcases entry with ⟨rawName, type⟩
  have started : ∀ statements : ExtractEntryPlanner → ExceptT VfsError (StateM ExtractEntryPlanner)
      (Option PlannedEntry),
      (get >>= statements).run.run planner = (statements planner).run.run planner := fun _ => rfl
  unfold planStatements plan
  rw [started]
  dsimp only
  split
  · rfl
  · split
    · rfl
    · split
      · rfl
      · split
        · rfl
        · split
          · rfl
          · generalize isSteps : (split (planner.normalizedName rawName type)).zip _ = steps
            have settings := record_settings type planner 0 steps
            rcases settings with ⟨_, _, _, mimeTypes, selected⟩
            have sameMimeType :
                ∀ basename, (record type planner 0 steps).resolveMimeType host basename =
                planner.resolveMimeType host basename := by
              intro basename
              unfold resolveMimeType
              rw [mimeTypes]
            rw [← selected]
            simp only [← sameMimeType]
            rfl

theorem archivePath_accept (planner : ExtractEntryPlanner) (entry other : JsString × VfsNodeType) :
    (planner.accept entry).archivePath other = planner.archivePath other := by
  unfold archivePath normalizedName
  rw [(planner.accept_settings entry).1]

theorem selectable_accept (planner : ExtractEntryPlanner) (entry other : JsString × VfsNodeType) :
    (planner.accept entry).Selectable host other ↔ planner.Selectable host other := by
  rcases planner.accept_settings entry with ⟨tarLike, destination, excludes⟩
  have sameName : (planner.accept entry).normalizedName other.1 other.2 =
      planner.normalizedName other.1 other.2 := by
    unfold normalizedName
    rw [tarLike]
  constructor
  · intro selectable
    refine ⟨?_, ?_, ?_, ?_⟩
    · rw [← tarLike]
      exact selectable.notRoot
    · rw [← sameName]
      exact selectable.valid
    · rw [← destination, ← archivePath_accept planner entry]
      exact selectable.short
    · rw [← sameName, ← excludes]
      exact selectable.kept
  · intro selectable
    refine ⟨?_, ?_, ?_, ?_⟩
    · rw [tarLike]
      exact selectable.notRoot
    · rw [sameName]
      exact selectable.valid
    · rw [destination, archivePath_accept planner entry]
      exact selectable.short
    · rw [sameName, excludes]
      exact selectable.kept

/-! ## A run of calls -/

/-- A call of `plan`: its answer, and the planner after it. -/
def call (host : Host) (planner : ExtractEntryPlanner) (entry : JsString × VfsNodeType) :
    Except VfsError (Option PlannedEntry) × ExtractEntryPlanner :=
  (planStatements host entry.1 entry.2).run.run planner

def calls (host : Host) : ExtractEntryPlanner → List (JsString × VfsNodeType) →
    List (Except VfsError (Option PlannedEntry)) × ExtractEntryPlanner
  | planner, [] => ([], planner)
  | planner, entry :: rest =>
      let answer := call host planner entry
      let later := calls host answer.2 rest
      (answer.1 :: later.1, later.2)

def selectedEntry : Except VfsError (Option PlannedEntry) → Option PlannedEntry
  | .ok planned => planned
  | .error _ => none

def selectedEntries (answers : List (Except VfsError (Option PlannedEntry))) :
    List PlannedEntry :=
  answers.filterMap selectedEntry

def AllSelected (answers : List (Except VfsError (Option PlannedEntry))) : Prop :=
  ∀ answer ∈ answers, (selectedEntry answer).isSome = true

theorem call_cases (host : Host) (planner : ExtractEntryPlanner)
    (entry : JsString × VfsNodeType) :
    let path := (planner.archivePath entry).1
    let conflict := planner.conflict (planner.locate (some 0) path) path entry.2
    (selectedEntry (call host planner entry).1 = none ∧ (call host planner entry).2 = planner ∧
        (planner.Selectable host entry → conflict ≠ none)) ∨
      ∃ planned, call host planner entry = (.ok (some planned), planner.accept entry) ∧
        planner.Selectable host entry ∧ conflict = none ∧ planner.IsPlanned entry planned := by
  unfold call
  rw [planStatements_run]
  rcases plan_cases host planner entry with
    ⟨isNone, notSelectable⟩ | ⟨error, isError, blocked⟩ |
      ⟨selectable, free, planned, isPlanned, isSome⟩
  · rw [isNone]
    exact .inl ⟨rfl, rfl, fun selectable => absurd selectable notSelectable⟩
  · rw [isError]
    exact .inl ⟨rfl, rfl, blocked⟩
  · rw [isSome]
    exact .inr ⟨planned, rfl, selectable, free, isPlanned⟩

theorem Holds.accept (holds : planner.Holds entries) :
    (planner.accept entry).Holds (entries ++ [planner.archivePath entry]) :=
  have recorded := Holds.record entry.2 holds (planner.archivePath_nonempty entry)
  ⟨recorded.formed, recorded.nonempty, recorded.value⟩

/-- All entries of a run are selected exactly if they join the earlier ones without conflict. -/
theorem calls_allSelected (holds : planner.Holds entries) (compatible : Compatible entries)
    (archive : List (JsString × VfsNodeType))
    (selectable : ∀ entry ∈ archive, planner.Selectable host entry) :
    AllSelected (calls host planner archive).1 ↔
      Compatible (entries ++ archive.map planner.archivePath) := by
  induction archive generalizing planner entries with
  | nil =>
      rw [List.map_nil, List.append_nil]
      exact ⟨fun _ => compatible, fun _ _ member => absurd member (List.not_mem_nil)⟩
  | cons entry rest induction =>
      have whole : entries ++ (entry :: rest).map planner.archivePath =
          (entries ++ [planner.archivePath entry]) ++ rest.map planner.archivePath := by simp
      have judged : _ ↔ Joins entries (planner.archivePath entry) :=
        conflict_eq_none holds (planner.archivePath_nonempty entry)
      unfold calls AllSelected
      dsimp only
      rw [whole, List.forall_mem_cons]
      rcases call_cases host planner entry with
        ⟨isNone, _, blocked⟩ | ⟨planned, isCall, _, free, _⟩
      · rw [isNone]
        simp only [Option.isSome_none, Bool.false_eq_true, false_and, false_iff]
        intro later
        have joins := (compatible_append.mp later.of_append).2
        exact blocked (selectable entry List.mem_cons_self) (judged.mpr joins)
      · have joined := compatible_append.mpr ⟨compatible, judged.mp free⟩
        have later := induction holds.accept joined fun other member =>
          (planner.selectable_accept entry other).mpr
            (selectable other (List.mem_cons_of_mem entry member))
        have samePaths : (planner.accept entry).archivePath = planner.archivePath :=
          funext fun other => planner.archivePath_accept entry other
        rw [samePaths] at later
        rw [isCall]
        exact ⟨fun both => later.mp both.2, fun all => ⟨rfl, later.mpr all⟩⟩

/-- The selected entries are numbered on from the count, and each was selectable. -/
theorem calls_selected (host : Host) (planner : ExtractEntryPlanner)
    (archive : List (JsString × VfsNodeType)) :
    let chosen := selectedEntries (calls host planner archive).1
    chosen.map PlannedEntry.entryIndex = List.range' planner.selected chosen.length ∧
      ∀ planned ∈ chosen, ∃ entry ∈ archive, planner.Selectable host entry ∧
        planned.segments = (planner.archivePath entry).1 := by
  induction archive generalizing planner with
  | nil => exact ⟨rfl, fun _ member => absurd member List.not_mem_nil⟩
  | cons entry rest induction =>
      unfold calls selectedEntries
      dsimp only
      rcases call_cases host planner entry with
        ⟨isNone, isNext, _⟩ | ⟨planned, isCall, selectable, _, isPlanned⟩
      · rw [List.filterMap_cons_none isNone, isNext]
        rcases induction planner with ⟨indices, origin⟩
        refine ⟨indices, fun planned member => ?_⟩
        rcases origin planned member with ⟨other, isOther, facts⟩
        exact ⟨other, List.mem_cons_of_mem entry isOther, facts⟩
      · have isSelected : selectedEntry (call host planner entry).1 = some planned := by
          rw [isCall]
          rfl
        rw [List.filterMap_cons_some isSelected, isCall]
        rcases induction (planner.accept entry) with ⟨indices, origin⟩
        constructor
        · rw [List.map_cons, List.length_cons, List.range'_succ, isPlanned.index]
          exact congrArg _ indices
        · intro other member
          rcases List.mem_cons.mp member with rfl | later
          · exact ⟨entry, List.mem_cons_self, selectable, isPlanned.segments⟩
          · rcases origin other later with ⟨source, isSource, fits, isPath⟩
            rw [archivePath_accept] at isPath
            exact ⟨source, List.mem_cons_of_mem entry isSource,
              (planner.selectable_accept entry source).mp fits, isPath⟩

theorem create_holds (tarLike : Bool) (destinationSegments : List JsString)
    (excludes : JsString → Bool) (mimeTypes : JsString → Option JsString) :
    (create tarLike destinationSegments excludes mimeTypes).Holds [] where
  formed :=
    { root := Nat.one_pos
      inside := fun node key next isChild => absurd isChild (by simp [trie, create, Trie.child])
      single := fun node key other otherKey next isChild =>
        absurd isChild (by simp [trie, create, Trie.child]) }
  nonempty := fun entry member => absurd member List.not_mem_nil
  value := by
    intro path
    cases path with
    | nil => simp [expectedNode, trie, create, Trie.value, Trie.walk]
    | cons segment rest =>
        simp [expectedNode, trie, create, Trie.value, Trie.walk, Trie.child]

end ExtractEntryPlanner

/-! ## The segments of a selected entry -/

/-- Normalization passes over slashes: it neither merges them with what stands beside them
nor makes new ones. -/
structure Host.SlashInert (host : Host) : Prop where
  append : ∀ left right, host.normalizeNFC (left ++ slash :: right) =
    host.normalizeNFC left ++ slash :: host.normalizeNFC right
  noNew : ∀ text, slash ∈ host.normalizeNFC text → slash ∈ text

/-- What a checked name promises of each part between two slashes. -/
structure CheckedPart (host : Host) (part : JsString) : Prop where
  noSlash : slash ∉ part
  noBackslash : backslash ∉ part
  noControl : ∀ unit ∈ part, isControl unit = false
  noBidi : ∀ unit ∈ part, isBidiControl unit = false
  paired : hasLoneSurrogate part = false
  normal : host.normalizeNFC part = part
  nonempty : part ≠ []
  notDot : part ≠ dot
  notDotDot : part ≠ dotDot
  short : byteLength part ≤ 255

theorem normalized_parts {host : Host} (inert : host.SlashInert) (left right : JsString)
    (plain : slash ∉ left)
    (whole : host.normalizeNFC (left ++ slash :: right) = left ++ slash :: right) :
    host.normalizeNFC left = left ∧ host.normalizeNFC right = right := by
  have untilSlash : ∀ front back : JsString, slash ∉ front →
      (front ++ slash :: back).takeWhile (fun unit => decide (unit ≠ slash)) = front := by
    intro front back noSlash
    rw [List.takeWhile_append_of_pos]
    · simp
    · intro unit member
      exact decide_eq_true fun isSlash => noSlash (isSlash ▸ member)
  rw [inert.append] at whole
  have stillPlain : slash ∉ host.normalizeNFC left := fun member => plain (inert.noNew left member)
  have sameLeft : host.normalizeNFC left = left := by
    rw [← untilSlash _ (host.normalizeNFC right) stillPlain, whole, untilSlash _ _ plain]
  rw [sameLeft] at whole
  exact ⟨sameLeft, (List.cons.inj (List.append_cancel_left whole)).2⟩

theorem checkedPart_of_valid {host : Host} (inert : host.SlashInert) {name : JsString}
    (valid : validArchiveEntryName host name = true) :
    ∀ part ∈ split name, CheckedPart host part := by
  unfold validArchiveEntryName at valid
  simp only [Bool.not_eq_true', Bool.or_eq_false_iff] at valid
  rcases valid with
    ⟨⟨⟨⟨⟨⟨⟨⟨⟨_, normal⟩, _⟩, noBackslash⟩, _⟩, noControl⟩, paired⟩, noBidi⟩, _⟩, parts⟩
  have isNormal : host.normalizeNFC name = name := by simpa using normal
  have passNormal := @forall_split (fun text => host.normalizeNFC text = text)
    (normalized_parts inert) name isNormal
  have passPaired := @forall_split (fun text => hasLoneSurrogate text = false)
    (fun left right _ whole => by
      rw [hasLoneSurrogate_append_slash, Bool.or_eq_false_iff] at whole
      exact whole) name paired
  have passUnits := @forall_split (fun text => ∀ unit ∈ text, unit ∈ name)
    (fun left right _ whole =>
      ⟨fun unit member => whole unit (List.mem_append_left _ member),
        fun unit member => whole unit (List.mem_append_right _ (List.mem_cons_of_mem _ member))⟩)
    name (fun _ member => member)
  intro part member
  have accepted := List.any_eq_false.mp parts part member
  simp only [Bool.not_eq_true, Bool.or_eq_false_iff] at accepted
  rcases accepted with ⟨⟨⟨nonempty, notDot⟩, notDotDot⟩, short⟩
  have units := (passUnits part member).2
  exact
    { noSlash := (passUnits part member).1
      noBackslash := fun inPart => by
        have inName : name.contains backslash = true := List.contains_iff_mem.mpr (units _ inPart)
        rw [inName] at noBackslash
        cases noBackslash
      noControl := fun unit inPart => by
        simpa using List.any_eq_false.mp noControl unit (units unit inPart)
      noBidi := fun unit inPart => by
        simpa using List.any_eq_false.mp noBidi unit (units unit inPart)
      paired := (passPaired part member).2
      normal := (passNormal part member).2
      nonempty := by simpa using nonempty
      notDot := by simpa using notDot
      notDotDot := by simpa using notDotDot
      short := by simpa using short }

theorem CheckedPart.accepted {host : Host} {part : JsString} (checked : CheckedPart host part) :
    rejectedSegment host part = false := by
  have units : ∀ unit ∈ part, (isControl unit || isBidiControl unit) = false := by
    intro unit member
    rw [checked.noControl unit member, checked.noBidi unit member]
    rfl
  simp only [rejectedSegment, invalidSegment, Bool.or_eq_false_iff]
  refine ⟨⟨⟨?_, ?_⟩, ?_⟩, ⟨⟨⟨⟨?_, ?_⟩, ?_⟩, checked.paired⟩, ?_⟩, ?_⟩
  · simpa using checked.nonempty
  · simpa using checked.notDot
  · simpa using checked.noSlash
  · simpa using checked.notDotDot
  · simpa using checked.noBackslash
  · exact List.any_eq_false.mpr fun unit member => by simp [units unit member]
  · simpa using checked.normal
  · simpa using checked.short

/-! ## The rule -/

namespace ExtractEntryPlanner

theorem compatible_nil : Compatible [] :=
  ⟨List.Pairwise.nil, fun _ member => absurd member List.not_mem_nil⟩

/-- Entries that are valid and not excluded are all selected exactly if their paths are
distinct and no file is above another entry. -/
theorem allSelected_iff (host : Host) (tarLike : Bool) (destination : List JsString)
    (excludes : JsString → Bool) (mimeTypes : JsString → Option JsString)
    (archive : List (JsString × VfsNodeType))
    (selectable : ∀ entry ∈ archive,
      (create tarLike destination excludes mimeTypes).Selectable host entry) :
    AllSelected (calls host (create tarLike destination excludes mimeTypes) archive).1 ↔
      Compatible (archive.map (create tarLike destination excludes mimeTypes).archivePath) :=
  calls_allSelected (create_holds tarLike destination excludes mimeTypes) compatible_nil archive
    selectable

theorem selected_valid {host : Host} (inert : host.SlashInert) {planner : ExtractEntryPlanner}
    (valid : ValidPath host planner.destinationSegments) {entry : JsString × VfsNodeType}
    (selectable : planner.Selectable host entry) :
    (∀ part ∈ (planner.archivePath entry).1, CheckedPart host part) ∧
      ValidPath host (planner.destinationSegments ++ (planner.archivePath entry).1) := by
  have checked := checkedPart_of_valid inert selectable.valid
  refine ⟨checked, validPath_iff.mpr ⟨selectable.short, fun segment member => ?_⟩⟩
  rcases List.mem_append.mp member with inDestination | inEntry
  · exact (validPath_iff.mp valid).2 segment inDestination
  · exact (checked segment inEntry).accepted

end ExtractEntryPlanner

open ExtractEntryPlanner in
/-- The planner decides the plain rule on the paths of the archive, whatever their order. It
numbers the selected entries from zero, a call that selects nothing leaves no trace, and the
selected paths are valid below the destination. -/
theorem planner_decides (host : Host) (inert : host.SlashInert) (tarLike : Bool)
    (destination : List JsString) (validDestination : ValidPath host destination)
    (excludes : JsString → Bool) (mimeTypes : JsString → Option JsString)
    (archive : List (JsString × VfsNodeType)) :
    let planner := create tarLike destination excludes mimeTypes
    let answers := (calls host planner archive).1
    ((∀ entry ∈ archive, planner.Selectable host entry) →
      (AllSelected answers ↔ Compatible (archive.map planner.archivePath)) ∧
        ∀ others, archive.Perm others →
          (AllSelected answers ↔ AllSelected (calls host planner others).1)) ∧
      (selectedEntries answers).map PlannedEntry.entryIndex =
        List.range (selectedEntries answers).length ∧
      (∀ entry, selectedEntry (call host (calls host planner archive).2 entry).1 = none →
        (call host (calls host planner archive).2 entry).2 = (calls host planner archive).2) ∧
      ∀ planned ∈ selectedEntries answers,
        (∀ segment ∈ planned.segments, segment ≠ [] ∧ segment ≠ dot ∧ segment ≠ dotDot ∧
          slash ∉ segment ∧ backslash ∉ segment ∧ ∀ unit ∈ segment, isControl unit = false) ∧
        assertPathSegments host (destination ++ planned.segments) = .ok () := by
  intro planner answers
  rcases calls_selected host planner archive with ⟨indices, origin⟩
  refine ⟨fun selectable => ?_, ?_, fun entry isNone => ?_, fun planned member => ?_⟩
  · have decided := allSelected_iff host tarLike destination excludes mimeTypes archive selectable
    refine ⟨decided, fun others perm => ?_⟩
    have otherDecided := allSelected_iff host tarLike destination excludes mimeTypes others
      fun entry member => selectable entry (perm.mem_iff.mpr member)
    rw [otherDecided]
    exact decided.trans (Compatible.perm (perm.map _))
  · exact indices.trans (List.range_eq_range' ▸ rfl)
  · rcases call_cases host (calls host planner archive).2 entry with
      ⟨_, isSame, _⟩ | ⟨_, isCall, _⟩
    · exact isSame
    · rw [isCall] at isNone
      cases isNone
  · rcases origin planned member with ⟨entry, _, selectable, isPath⟩
    rcases selected_valid inert validDestination selectable with ⟨checked, valid⟩
    rw [isPath]
    refine ⟨fun segment inPath => ?_, valid⟩
    have part := checked segment inPath
    exact ⟨part.nonempty, part.notDot, part.notDotDot, part.noSlash, part.noBackslash,
      part.noControl⟩

def lateDirectory : List (JsString × VfsNodeType) :=
  [([0x2e, slash, 0x61, slash, 0x62], .file), ([0x61, slash], .directory)]

theorem counting_slashInert : Host.counting.SlashInert :=
  ⟨fun _ _ => rfl, fun _ member => member⟩

open ExtractEntryPlanner in
theorem planner_decides_lateDirectory :
    AllSelected (calls Host.counting (create true [[0x78]] (fun _ => false) fun _ => none)
      lateDirectory).1 := by
  have rules := planner_decides Host.counting counting_slashInert true [[0x78]] (by decide)
    (fun _ => false) (fun _ => none) lateDirectory
  refine (rules.1 ?_).1.mpr ?_
  · intro entry member
    simp [lateDirectory] at member
    rcases member with rfl | rfl
    · exact ⟨by decide, by decide, by decide, rfl⟩
    · exact ⟨by decide, by decide, by decide, rfl⟩
  · decide

end Storix
