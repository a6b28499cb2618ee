import Mathlib.Data.List.Basic
import Mathlib.Data.List.Induction
import Mathlib.Data.Nat.Basic
import Mathlib.Algebra.Order.Group.Nat

/-! # Decimal texts

A number written in digits without leading zeros has one text. -/

namespace Storix.Foundation

def isDigit (unit : UInt16) : Bool := 0x30 ≤ unit && unit ≤ 0x39

/-- `[0-9a-f]` -/
def isLowerHex (unit : UInt16) : Bool := isDigit unit || (0x61 ≤ unit && unit ≤ 0x66)

/-- `/^(0|[1-9][0-9]*)$/` -/
def isDecimal (text : List UInt16) : Bool :=
  text == [0x30] || (!text.isEmpty && text.head? != some 0x30 && text.all isDigit)

def digitValue (unit : UInt16) : Nat := unit.toNat - 0x30

def ofDecimal (text : List UInt16) : Nat :=
  text.foldl (fun value unit => value * 10 + digitValue unit) 0

theorem isDigit_iff {unit : UInt16} :
    isDigit unit = true ↔ 0x30 ≤ unit.toNat ∧ unit.toNat ≤ 0x39 := by
  simp [isDigit, UInt16.le_iff_toNat_le]

theorem digitValue_injective {left right : UInt16} (isLeft : isDigit left = true)
    (isRight : isDigit right = true) (same : digitValue left = digitValue right) :
    left = right := by
  rw [isDigit_iff] at isLeft isRight
  unfold digitValue at same
  apply UInt16.toNat_inj.mp
  omega

theorem ofDecimal_append_singleton (text : List UInt16) (unit : UInt16) :
    ofDecimal (text ++ [unit]) = ofDecimal text * 10 + digitValue unit := by
  simp [ofDecimal]

theorem ofDecimal_lt {text : List UInt16} (digits : ∀ unit ∈ text, isDigit unit = true) :
    ofDecimal text < 10 ^ text.length := by
  induction text using List.reverseRecOn with
  | nil => simp [ofDecimal]
  | append_singleton text unit induction =>
      have below := induction fun unit member => digits unit (List.mem_append_left _ member)
      have isLast := isDigit_iff.mp (digits unit (by simp))
      rw [ofDecimal_append_singleton, List.length_append, List.length_singleton, Nat.pow_succ]
      unfold digitValue
      omega

theorem eq_of_ofDecimal_eq {left right : List UInt16} (sameLength : left.length = right.length)
    (isLeft : ∀ unit ∈ left, isDigit unit = true) (isRight : ∀ unit ∈ right, isDigit unit = true)
    (same : ofDecimal left = ofDecimal right) : left = right := by
  induction left using List.reverseRecOn generalizing right with
  | nil => exact (List.length_eq_zero_iff.mp sameLength.symm).symm
  | append_singleton left last induction =>
      cases right using List.reverseRecOn with
      | nil => simp at sameLength
      | append_singleton right other =>
          have lastDigit := isLeft last (by simp)
          have otherDigit := isRight other (by simp)
          have lastBound := isDigit_iff.mp lastDigit
          have otherBound := isDigit_iff.mp otherDigit
          rw [ofDecimal_append_singleton, ofDecimal_append_singleton] at same
          have lastSame : digitValue last = digitValue other := by
            unfold digitValue at same ⊢
            omega
          have frontSame : left = right := by
            apply induction
            · simpa using sameLength
            · exact fun unit member => isLeft unit (List.mem_append_left _ member)
            · exact fun unit member => isRight unit (List.mem_append_left _ member)
            · omega
          rw [frontSame, digitValue_injective lastDigit otherDigit lastSame]

/-- A text that does not start with a zero spells a large number. -/
theorem le_ofDecimal {first : UInt16} {text : List UInt16} (isFirst : 1 ≤ digitValue first) :
    10 ^ text.length ≤ ofDecimal (first :: text) := by
  induction text using List.reverseRecOn with
  | nil => simpa [ofDecimal] using isFirst
  | append_singleton text unit induction =>
      rw [← List.cons_append, ofDecimal_append_singleton, List.length_append,
        List.length_singleton, Nat.pow_succ]
      omega

theorem isDecimal_cases {text : List UInt16} (decimal : isDecimal text = true) :
    text = [0x30] ∨ ∃ first rest, text = first :: rest ∧ 1 ≤ digitValue first ∧
      ∀ unit ∈ text, isDigit unit = true := by
  simp only [isDecimal, Bool.or_eq_true, beq_iff_eq, Bool.and_eq_true, Bool.not_eq_true',
    bne_iff_ne, List.all_eq_true] at decimal
  rcases decimal with zero | ⟨⟨nonempty, notZero⟩, digits⟩
  · exact .inl zero
  · cases text with
    | nil => cases nonempty
    | cons first rest =>
        right
        refine ⟨first, rest, rfl, ?_, digits⟩
        have isFirst := isDigit_iff.mp (digits first List.mem_cons_self)
        have different : first ≠ 0x30 := fun zero => notZero (by simp [zero])
        have notThirty : first.toNat ≠ 0x30 := fun zero =>
          different (UInt16.toNat_inj.mp zero)
        unfold digitValue
        omega

theorem isDecimal_digits {text : List UInt16} (decimal : isDecimal text = true) :
    ∀ unit ∈ text, isDigit unit = true := by
  rcases isDecimal_cases decimal with zero | ⟨_, _, _, _, digits⟩
  · rw [zero]
    exact List.forall_mem_singleton.mpr (by decide)
  · exact digits

theorem length_le_of_ofDecimal_le {left right : List UInt16} (isLeft : isDecimal left = true)
    (isRight : isDecimal right = true) (le : ofDecimal left ≤ ofDecimal right) :
    left.length ≤ right.length := by
  rcases isDecimal_cases isLeft with zero | ⟨first, rest, isText, large, _⟩
  · have nonempty : right ≠ [] := by
      intro isEmpty
      rw [isEmpty] at isRight
      cases isRight
    rw [zero]
    exact List.length_pos_iff.mpr nonempty
  · have below := ofDecimal_lt (isDecimal_digits isRight)
    have above := @le_ofDecimal first rest large
    rw [isText] at le ⊢
    have powers : 10 ^ rest.length < 10 ^ right.length := by omega
    exact (Nat.pow_lt_pow_iff_right (by decide)).mp powers

theorem ofDecimal_injective {left right : List UInt16} (isLeft : isDecimal left = true)
    (isRight : isDecimal right = true) (same : ofDecimal left = ofDecimal right) :
    left = right := by
  apply eq_of_ofDecimal_eq
  · exact Nat.le_antisymm (length_le_of_ofDecimal_le isLeft isRight same.le)
      (length_le_of_ofDecimal_le isRight isLeft same.ge)
  · exact isDecimal_digits isLeft
  · exact isDecimal_digits isRight
  · exact same

/-! ## The text of a number -/

def toDecimal (value : Nat) : List UInt16 :=
  (Nat.toDigits 10 value).map fun digit => digit.toNat.toUInt16

theorem digitChar_unit : ∀ digit < 10,
    isDigit (Nat.digitChar digit).toNat.toUInt16 = true ∧
      digitValue (Nat.digitChar digit).toNat.toUInt16 = digit := by
  decide

theorem toDecimal_spec (value : Nat) :
    (∀ unit ∈ toDecimal value, isDigit unit = true) ∧ ofDecimal (toDecimal value) = value := by
  induction value using Nat.strongRecOn with
  | ind value induction =>
      by_cases small : value < 10
      · have ⟨digit, isValue⟩ := digitChar_unit value small
        rw [toDecimal, Nat.toDigits_of_lt_base small]
        simpa [ofDecimal] using ⟨digit, isValue⟩
      · have ⟨digit, isValue⟩ := digitChar_unit (value % 10) (Nat.mod_lt _ (by decide))
        have ⟨digits, isQuotient⟩ := induction (value / 10) (by omega)
        have whole : toDecimal value =
            toDecimal (value / 10) ++ [(Nat.digitChar (value % 10)).toNat.toUInt16] := by
          rw [toDecimal, Nat.toDigits_of_base_le (by decide) (by omega), List.map_append]
          rfl
        rw [whole, ofDecimal_append_singleton, isQuotient, isValue]
        refine ⟨?_, by omega⟩
        intro unit member
        rcases List.mem_append.mp member with inFront | isLast
        · exact digits unit inFront
        · rw [List.mem_singleton.mp isLast]
          exact digit

end Storix.Foundation
