import Storix.Persistence.Lists

/-! # Name filters are literal

A filter of a search compares names with its value as it was given, whatever wildcards and
escapes stand in the value. -/

namespace Storix

open Foundation

def NameFilterMode.Holds : NameFilterMode → JsString → JsString → Prop
  | .exact, value, name => name = value
  | .contains, value, name => value <:+: name
  | .startsWith, value, name => value <+: name
  | .endsWith, value, name => value <:+ name

@[simp] theorem like_nil {text : JsString} : like [] text = true ↔ text = [] :=
  List.isEmpty_iff

theorem like_cons (unit : UInt16) (pattern text : JsString) :
    like (unit :: pattern) text =
      if unit = percent then text.tails.any fun rest => like pattern rest
      else if unit = underscore then
        match text with
        | high :: low :: rest =>
            if JsString.isHighSurrogate high && JsString.isLowSurrogate low then like pattern rest
            else like pattern (low :: rest)
        | [_] => like pattern []
        | [] => false
      else if unit = backslash then
        match pattern, text with
        | literal :: pattern, other :: rest => literal == other && like pattern rest
        | _, _ => false
      else
        match text with
        | other :: rest => unit == other && like pattern rest
        | [] => false := by
  rcases pattern with _ | ⟨literal, pattern⟩
  · rcases text with _ | ⟨first, _ | ⟨second, rest⟩⟩
    · rfl
    · rfl
    · rfl
  · rcases text with _ | ⟨first, _ | ⟨second, rest⟩⟩
    · rfl
    · rfl
    · rfl

theorem like_percent {pattern text : JsString} :
    like (percent :: pattern) text = true ↔ ∃ rest, rest <:+ text ∧ like pattern rest = true := by
  rw [like_cons, if_pos rfl]
  simp

theorem like_escaped {unit : UInt16} {pattern text : JsString} :
    like (backslash :: unit :: pattern) text = true ↔
      ∃ rest, text = unit :: rest ∧ like pattern rest = true := by
  have notPercent : backslash ≠ percent := by decide
  have notUnderscore : backslash ≠ underscore := by decide
  rw [like_cons, if_neg notPercent, if_neg notUnderscore, if_pos rfl]
  cases text with
  | nil => simp
  | cons other rest => simp [@eq_comm _ unit]

theorem like_plain {unit : UInt16} {pattern text : JsString}
    (plain : ¬(unit = backslash ∨ unit = percent ∨ unit = underscore)) :
    like (unit :: pattern) text = true ↔
      ∃ rest, text = unit :: rest ∧ like pattern rest = true := by
  rw [not_or, not_or] at plain
  have ⟨notBackslash, notPercent, notUnderscore⟩ := plain
  rw [like_cons, if_neg notPercent, if_neg notUnderscore, if_neg notBackslash]
  cases text with
  | nil => simp
  | cons other rest => simp [@eq_comm _ unit]

/-- The escaped value takes the value, and leaves the rest of the name to the rest of the
pattern. -/
theorem like_escapeLikeValue {value pattern text : JsString} :
    like (escapeLikeValue value ++ pattern) text = true ↔
      ∃ rest, text = value ++ rest ∧ like pattern rest = true := by
  induction value generalizing text with
  | nil => simp [escapeLikeValue]
  | cons unit value induction =>
      have first : like (escapeLikeValue (unit :: value) ++ pattern) text = true ↔
          ∃ rest, text = unit :: rest ∧ like (escapeLikeValue value ++ pattern) rest = true := by
        unfold escapeLikeValue
        rw [List.flatMap_cons, List.append_assoc]
        split
        case isTrue => exact like_escaped
        case isFalse plain => exact like_plain plain
      rw [first]
      constructor
      · intro ⟨tail, isTail, matchesTail⟩
        have ⟨rest, isRest, matchesRest⟩ := induction.mp matchesTail
        exact ⟨rest, by rw [isTail, isRest, List.cons_append], matchesRest⟩
      · intro ⟨rest, isRest, matchesRest⟩
        exact ⟨value ++ rest, isRest, induction.mpr ⟨rest, rfl, matchesRest⟩⟩

theorem like_escapeLikeValue_end {value text : JsString} :
    like (escapeLikeValue value) text = true ↔ text = value := by
  have whole := @like_escapeLikeValue value [] text
  simpa using whole

theorem like_escapeLikeValue_percent {value text : JsString} :
    like (escapeLikeValue value ++ [percent]) text = true ↔ value <+: text := by
  rw [like_escapeLikeValue]
  constructor
  · intro ⟨rest, isRest, _⟩
    exact ⟨rest, isRest.symm⟩
  · intro ⟨rest, isRest⟩
    refine ⟨rest, isRest.symm, ?_⟩
    rw [like_percent]
    exact ⟨[], List.nil_suffix, like_nil.mpr rfl⟩

/-- A filter holds of the names that its mode says, and a search keeps those. -/
theorem name_filters_are_literal (mode : NameFilterMode) (value : JsString) (node : VfsNode) :
    (like (buildLikePattern mode value) node.name = true ↔ mode.Holds value node.name) ∧
      (FindFilter.accepts ⟨none, some ⟨mode, value⟩⟩ node = true ↔
        mode.Holds value node.name) := by
  have literal : like (buildLikePattern mode value) node.name = true ↔
      mode.Holds value node.name := by
    cases mode with
    | exact => exact like_escapeLikeValue_end
    | startsWith => exact like_escapeLikeValue_percent
    | endsWith =>
        rw [buildLikePattern, like_percent]
        simp [like_escapeLikeValue_end, NameFilterMode.Holds]
    | contains =>
        rw [buildLikePattern, List.cons_append, like_percent]
        simp only [like_escapeLikeValue_percent, NameFilterMode.Holds, List.infix_iff_prefix_suffix]
        constructor
        · intro ⟨rest, isRest, isFront⟩
          exact ⟨rest, isFront, isRest⟩
        · intro ⟨rest, isFront, isRest⟩
          exact ⟨rest, isRest, isFront⟩
  refine ⟨literal, ?_⟩
  rw [← literal]
  cases mode with
  | exact => simp [FindFilter.accepts, literal, NameFilterMode.Holds]
  | contains => simp [FindFilter.accepts]
  | startsWith => simp [FindFilter.accepts]
  | endsWith => simp [FindFilter.accepts]

/-- `1%_` does not start `123`. -/
example : like (buildLikePattern .startsWith [0x31, 0x25, 0x5f]) [0x31, 0x32, 0x33] = false := by
  decide

end Storix
