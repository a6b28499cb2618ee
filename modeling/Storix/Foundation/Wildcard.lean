import Mathlib.Data.List.Infix

/-! # Wildcards

A pattern is a list of items. A wild item takes any run of the text, and every other item
takes one element that it fits. -/

namespace Storix.Foundation

variable {α β : Type} {wild : α → Prop} {fits : α → β → Prop}
variable {item : α} {pattern : List α} {text : List β}

inductive Matches (wild : α → Prop) (fits : α → β → Prop) : List α → List β → Prop
  | nil : Matches wild fits [] []
  | skip {item : α} {pattern : List α} {text : List β} (isWild : wild item) (skipped : List β)
      (rest : Matches wild fits pattern text) :
        Matches wild fits (item :: pattern) (skipped ++ text)
  | take {item : α} {element : β} {pattern : List α} {text : List β} (isPlain : ¬wild item)
      (fit : fits item element) (rest : Matches wild fits pattern text) :
      Matches wild fits (item :: pattern) (element :: text)

namespace Matches

@[simp] theorem nil_iff : Matches wild fits [] text ↔ text = [] := by
  constructor
  · intro isMatch
    cases isMatch
    rfl
  · intro isEmpty
    rw [isEmpty]
    exact .nil

/-- A wild item leaves some end of the text to the rest of the pattern. -/
theorem wild_iff (isWild : wild item) :
    Matches wild fits (item :: pattern) text ↔
      ∃ rest, rest <:+ text ∧ Matches wild fits pattern rest := by
  constructor
  · intro isMatch
    cases isMatch with
    | skip _ skipped rest => exact ⟨_, List.suffix_append _ _, rest⟩
    | take isPlain _ _ => exact absurd isWild isPlain
  · intro found
    rcases found with ⟨rest, ⟨skipped, whole⟩, isMatch⟩
    rw [← whole]
    exact .skip isWild skipped isMatch

theorem plain_iff (isPlain : ¬wild item) :
    Matches wild fits (item :: pattern) text ↔
      ∃ element rest, text = element :: rest ∧ fits item element ∧
        Matches wild fits pattern rest := by
  constructor
  · intro isMatch
    cases isMatch with
    | skip isWild _ _ => exact absurd isWild isPlain
    | take _ fit rest => exact ⟨_, _, rfl, fit, rest⟩
  · intro found
    rcases found with ⟨element, rest, whole, fit, isMatch⟩
    rw [whole]
    exact .take isPlain fit isMatch

theorem afterWild (isWild : wild item) (isMatch : Matches wild fits pattern text) :
    Matches wild fits (item :: pattern) text :=
  (wild_iff isWild).mpr ⟨text, List.suffix_refl text, isMatch⟩

theorem collapse {other : α} (isWild : wild item) (otherWild : wild other) :
    Matches wild fits (other :: item :: pattern) text ↔
      Matches wild fits (item :: pattern) text := by
  constructor
  · intro isMatch
    rcases (wild_iff otherWild).mp isMatch with ⟨rest, isRest, isMatch⟩
    rcases (wild_iff isWild).mp isMatch with ⟨last, isLast, isMatch⟩
    exact (wild_iff isWild).mpr ⟨last, isLast.trans isRest, isMatch⟩
  · exact fun isMatch => isMatch.afterWild otherWild

theorem append_congr {left right : List α}
    (same : ∀ text, Matches wild fits left text ↔ Matches wild fits right text)
    (front : List α) (text : List β) :
    Matches wild fits (front ++ left) text ↔ Matches wild fits (front ++ right) text := by
  induction front generalizing text with
  | nil => exact same text
  | cons item front induction =>
      by_cases isWild : wild item
      · rw [List.cons_append, List.cons_append, wild_iff isWild, wild_iff isWild]
        simp only [induction]
      · rw [List.cons_append, List.cons_append, plain_iff isWild, plain_iff isWild]
        simp only [induction]

end Matches

/-! ## Items that take themselves -/

section Literal

variable {literal text : List α} {pattern : List α}

theorem Matches.literal_iff (plain : ∀ item ∈ literal, ¬wild item) :
    Matches wild Eq (literal ++ pattern) text ↔
      ∃ rest, text = literal ++ rest ∧ Matches wild Eq pattern rest := by
  induction literal generalizing text with
  | nil => simp
  | cons first literal induction =>
      have below := fun text => @induction text fun item member =>
        plain item (List.mem_cons_of_mem _ member)
      rw [List.cons_append, Matches.plain_iff (plain first List.mem_cons_self)]
      constructor
      · intro found
        rcases found with ⟨element, tail, whole, same, isMatch⟩
        rcases (below tail).mp isMatch with ⟨rest, isTail, isMatch⟩
        exact ⟨rest, by rw [whole, same, isTail, List.cons_append], isMatch⟩
      · intro found
        rcases found with ⟨rest, whole, isMatch⟩
        exact ⟨first, literal ++ rest, by rw [whole, List.cons_append], rfl,
          (below _).mpr ⟨rest, rfl, isMatch⟩⟩

theorem Matches.literal_eq (plain : ∀ item ∈ literal, ¬wild item) :
    Matches wild Eq literal text ↔ literal = text := by
  have whole := @Matches.literal_iff α wild literal text [] plain
  rw [List.append_nil] at whole
  rw [whole]
  simp [eq_comm]

/-- A later start of the pattern `literal ++ wild :: pattern` gains nothing over the wild item
once the literal matched: what is left of the text from the later start is an end of what is
left from the earlier one. -/
theorem Matches.later_start {star : α} (isWild : wild star) (plain : ∀ item ∈ literal, ¬wild item)
    {later : List α} (isLater : later <:+ literal ++ text)
    (isMatch : Matches wild Eq (literal ++ star :: pattern) later) :
    Matches wild Eq (star :: pattern) text := by
  rcases (Matches.literal_iff plain).mp isMatch with ⟨rest, whole, isMatch⟩
  have restSuffix : rest <:+ literal ++ text :=
    List.IsSuffix.trans (whole ▸ List.suffix_append literal rest) isLater
  have shorter : rest.length ≤ text.length := by
    have bound := isLater.length_le
    rw [whole, List.length_append, List.length_append] at bound
    omega
  have inText : rest <:+ text :=
    List.suffix_of_suffix_length_le restSuffix (List.suffix_append literal text) shorter
  rcases (Matches.wild_iff isWild).mp isMatch with ⟨last, isLast, isMatch⟩
  exact (Matches.wild_iff isWild).mpr ⟨last, isLast.trans inText, isMatch⟩

end Literal

end Storix.Foundation
