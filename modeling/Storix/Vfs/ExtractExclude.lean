import Storix.Text

/-! # Exclude patterns

The compiled form of the exclude patterns of an extract. A pattern is a list of segments; the
matcher follows the set of positions in it that the name so far leads to. Positions in a
string are kept as what is left of the string from there. -/

namespace Storix

open JsString

def asterisk : UInt16 := 0x2a

def GLOBSTAR : JsString := [asterisk, asterisk]

/-- `text.includes('**')` -/
def includesGlobstar : JsString → Bool
  | first :: second :: rest =>
      first == asterisk && second == asterisk || includesGlobstar (second :: rest)
  | _ => false

/-- The loop of `parsePattern` over the segments that are left. -/
def parseSegments (segments : List JsString) : List JsString → Option (List JsString)
  | [] => some segments
  | segment :: rest =>
      if segment.length = 0 then none
      else if includesGlobstar segment && segment != GLOBSTAR then none
      else if segment == GLOBSTAR && segments.getLast? == some GLOBSTAR then
        parseSegments segments rest
      else parseSegments (segments ++ [segment]) rest

/-- The segments of a pattern, in which consecutive `**` are one; `none` for
`VfsExtractInvalidRequestError`. -/
def parsePattern (pattern : JsString) : Option (List JsString) :=
  parseSegments [] (split pattern)

/-! ## One segment -/

/-- The last `*` that was passed: the pattern after it, and where the text resumes when the
rest fails. -/
structure LastStar where
  after : JsString
  resume : JsString

/-- Both pointers are at or behind those that the `*` remembers. -/
structure LastStar.Covers (star : LastStar) (pattern text : JsString) : Prop where
  pattern : pattern.length ≤ star.after.length
  text : text.length ≤ star.resume.length

theorem LastStar.Covers.self (pattern text : JsString) :
    (⟨pattern, text⟩ : LastStar).Covers pattern text :=
  ⟨Nat.le_refl _, Nat.le_refl _⟩

theorem LastStar.Covers.tail {star : LastStar} {pattern rest : JsString} {unit : UInt16}
    (covers : star.Covers pattern (unit :: rest)) : star.Covers pattern.tail rest where
  pattern := Nat.le_trans (by simp) covers.pattern
  text := Nat.le_of_succ_le covers.text

/-- The loop of `matchSegment`. -/
def matchFrom (pattern text : JsString) (star : Option LastStar)
    (covered : ∀ old, star = some old → old.Covers pattern text) : Bool :=
  match text, covered with
  | [], _ => (pattern.dropWhile fun unit => unit == asterisk).isEmpty
  | unit :: rest, covered =>
      if isStar : pattern.head? = some asterisk then
        matchFrom pattern.tail (unit :: rest) (some ⟨pattern.tail, unit :: rest⟩)
          fun _ same => Option.some.inj same ▸ .self _ _
      else if isUnit : pattern.head? = some unit then
        matchFrom pattern.tail rest star fun old same => (covered old same).tail
      else
        match star, covered with
        | some old, covered =>
            matchFrom old.after old.resume.tail (some ⟨old.after, old.resume.tail⟩)
              fun _ same => Option.some.inj same ▸ .self _ _
        | none, _ => false
-- Every step passes a later `*`, resumes later in the text, or moves on in it.
termination_by
  ((star.map fun old => old.after.length).getD (pattern.length + 1),
    (star.map fun old => old.resume.length).getD (text.length + 1), text.length)
decreasing_by
  · refine Prod.Lex.left _ _ ?_
    have shorter : pattern.tail.length < pattern.length := by
      cases pattern with
      | nil => cases isStar
      | cons first pattern => simp
    cases star with
    | none => exact Nat.lt_succ_of_lt shorter
    | some old => exact Nat.lt_of_lt_of_le shorter (covered old rfl).pattern
  · cases star with
    | none =>
        refine Prod.Lex.left _ _ ?_
        cases pattern with
        | nil => cases isUnit
        | cons first pattern => simp
    | some old => exact Prod.Lex.right _ (Prod.Lex.right _ (by simp))
  · have bound := (covered old rfl).text
    refine Prod.Lex.right _ (Prod.Lex.left _ _ ?_)
    simp only [List.length_cons] at bound
    simp only [Option.map_some, Option.getD_some, List.length_tail]
    omega

/-- One segment of a pattern against one segment of a name; only `*` is special. -/
def matchSegment (pattern text : JsString) : Bool :=
  if pattern.contains asterisk = false then pattern == text
  else matchFrom pattern text none fun _ same => nomatch same

example : matchSegment [0x61, 0x2a, 0x62, 0x63] [0x61, 0x62, 0x62, 0x63] = true := by
  simp [matchSegment, matchFrom, asterisk]

/-! ## Whole names -/

/-- The states behind the run of `**` at a state. -/
def globstarRun (pattern : List JsString) (state : Nat) : List Nat :=
  (List.range ((pattern.drop state).takeWhile fun segment => segment == GLOBSTAR).length).map
    fun passed => state + passed + 1

def closeOverGlobstar (pattern : List JsString) (active : List Nat) : List Nat :=
  active ++ active.flatMap (globstarRun pattern)

def stepStates (pattern : List JsString) (segment : JsString) (active : List Nat) : List Nat :=
  active.flatMap fun state =>
    match pattern[state]? with
    | none => []
    | some item =>
        if item = GLOBSTAR then [state]
        else if matchSegment item segment then [state + 1] else []

/-- The loop of `matchesPrefix` over the segments that are left. -/
def matchesFrom (pattern : List JsString) (active : List Nat) : List JsString → Bool
  | [] => false
  | segment :: rest =>
      let next := closeOverGlobstar pattern (stepStates pattern segment active)
      if next.contains pattern.length then true
      else if next.isEmpty then false
      else matchesFrom pattern next rest

def matchesPrefix (pattern segments : List JsString) : Bool :=
  matchesFrom pattern (closeOverGlobstar pattern [0]) segments

/-- `none` when a pattern is refused. -/
def compileExclude (patterns : List JsString) : Option (JsString → Bool) :=
  (patterns.mapM parsePattern).map fun compiled name =>
    compiled.any fun pattern => matchesPrefix pattern (split name)

end Storix
