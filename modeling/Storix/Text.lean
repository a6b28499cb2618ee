import Mathlib.Data.List.Basic
import Mathlib.Data.List.Infix

/-! # JavaScript strings

A string is its list of UTF-16 code units. Byte lengths and byte orders are those
of the UTF-8 encoding, in which an unpaired surrogate is the replacement
character. -/

namespace Storix

abbrev JsString := List UInt16

instance : LawfulBEq JsString := inferInstanceAs (LawfulBEq (List UInt16))

def ascii (text : String) : JsString := text.toList.map fun letter => letter.toNat.toUInt16

/-- `toLowerCase` on ASCII. -/
def asciiLowerCase (text : JsString) : JsString :=
  text.map fun unit => if 0x41 ≤ unit && unit ≤ 0x5a then unit + 0x20 else unit

namespace JsString

def slash : UInt16 := 0x2f

def isHighSurrogate (unit : UInt16) : Bool := 0xd800 ≤ unit && unit ≤ 0xdbff

def isLowSurrogate (unit : UInt16) : Bool := 0xdc00 ≤ unit && unit ≤ 0xdfff

/-- The bytes of a code unit that is not half of a surrogate pair. -/
def encodeUnit (unit : UInt16) : List UInt8 :=
  let code := unit.toNat
  if code < 0x80 then [UInt8.ofNat code]
  else if code < 0x800 then
    [UInt8.ofNat (0xc0 + code / 0x40), UInt8.ofNat (0x80 + code % 0x40)]
  else if isHighSurrogate unit || isLowSurrogate unit then [0xef, 0xbf, 0xbd]
  else
    [UInt8.ofNat (0xe0 + code / 0x1000), UInt8.ofNat (0x80 + code / 0x40 % 0x40),
      UInt8.ofNat (0x80 + code % 0x40)]

/-- The four bytes of a surrogate pair. -/
def encodePair (high low : UInt16) : List UInt8 :=
  let code := 0x10000 + (high.toNat - 0xd800) * 0x400 + (low.toNat - 0xdc00)
  [UInt8.ofNat (0xf0 + code / 0x40000), UInt8.ofNat (0x80 + code / 0x1000 % 0x40),
    UInt8.ofNat (0x80 + code / 0x40 % 0x40), UInt8.ofNat (0x80 + code % 0x40)]

/-- `Buffer.from(text, 'utf8')` -/
def utf8 : JsString → List UInt8
  | [] => []
  | [unit] => encodeUnit unit
  | high :: low :: rest =>
      if isHighSurrogate high && isLowSurrogate low then encodePair high low ++ utf8 rest
      else encodeUnit high ++ utf8 (low :: rest)

/-- `Buffer.byteLength(text, 'utf8')` -/
def byteLength (text : JsString) : Nat := (utf8 text).length

/-- A surrogate that is not half of a pair, which is what `[\uD800-\uDFFF]` finds
under the `u` flag. -/
def hasLoneSurrogate : JsString → Bool
  | [] => false
  | [unit] => isHighSurrogate unit || isLowSurrogate unit
  | high :: low :: rest =>
      if isHighSurrogate high && isLowSurrogate low then hasLoneSurrogate rest
      else isHighSurrogate high || isLowSurrogate high || hasLoneSurrogate (low :: rest)

/-- `parts.join('/')` -/
def join (parts : List JsString) : JsString := [slash].intercalate parts

/-- `text.split('/')` -/
def split (text : JsString) : List JsString := text.splitOn slash

/-- `left < right` compares code units. -/
def before (left right : JsString) : Bool := decide (left < right)

def order (left right : JsString) : Ordering :=
  if before left right then .lt else if before right left then .gt else .eq

example : byteLength [0x2f, 0x61, 0xe9, 0xd55c, 0xd83d, 0xde00] = 11 := by decide

example : hasLoneSurrogate [0x61, 0xd83d] = true := by decide

/-! ## Byte lengths grow with the text -/

theorem encodeUnit_length_le (unit : UInt16) : (encodeUnit unit).length ≤ 3 := by
  unfold encodeUnit
  dsimp only
  split
  · simp
  · split
    · simp
    · split <;> simp

theorem byteLength_le_append (front back : JsString) :
    byteLength front ≤ byteLength (front ++ back) := by
  unfold byteLength
  induction front using utf8.induct with
  | case1 => simp [utf8]
  | case2 unit =>
      cases back with
      | nil => simp
      | cons low rest =>
          simp only [List.singleton_append, utf8]
          have short := encodeUnit_length_le unit
          split
          · simp [encodePair]
            omega
          · simp
  | case3 high low rest pair induction =>
      simp only [List.cons_append, utf8, if_pos pair, List.length_append]
      omega
  | case4 high low rest single induction =>
      simp only [List.cons_append, utf8, if_neg single, List.length_append]
      simp only [List.cons_append] at induction
      omega

theorem byteLength_le_of_front {front text : JsString} (isFront : front <+: text) :
    byteLength front ≤ byteLength text := by
  rcases isFront with ⟨back, rfl⟩
  exact byteLength_le_append front back

/-! ## Joining and splitting -/

theorem join_cons_cons (first second : JsString) (rest : List JsString) :
    join (first :: second :: rest) = first ++ slash :: join (second :: rest) := by
  simp [join, List.intercalate]

theorem join_prefix_of_append (front back : List JsString) :
    join front <+: join (front ++ back) := by
  induction front with
  | nil => exact List.nil_prefix
  | cons first rest induction =>
      cases rest with
      | nil =>
          cases back with
          | nil => simp
          | cons next more =>
              exact ⟨slash :: join (next :: more), by simp [join, List.intercalate]⟩
      | cons second others =>
          rcases induction with ⟨tail, equal⟩
          refine ⟨tail, ?_⟩
          rw [join_cons_cons, List.cons_append, List.cons_append, join_cons_cons,
            ← List.cons_append, ← equal]
          simp

theorem join_append_singleton {parts : List JsString} (last : JsString) (nonempty : parts ≠ []) :
    join (parts ++ [last]) = join parts ++ slash :: last := by
  induction parts with
  | nil => exact absurd rfl nonempty
  | cons first rest induction =>
      cases rest with
      | nil => simp [join, List.intercalate]
      | cons second others =>
          rw [join_cons_cons, List.cons_append, List.cons_append, join_cons_cons,
            ← List.cons_append, induction (by simp)]
          simp

theorem split_join {parts : List JsString} (nonempty : parts ≠ [])
    (plain : ∀ part ∈ parts, slash ∉ part) : split (join parts) = parts :=
  List.splitOn_intercalate slash plain nonempty

/-- A text without a slash is one segment; otherwise the first segment ends at the first slash. -/
theorem split_cases (text : JsString) :
    slash ∉ text ∧ split text = [text] ∨
      ∃ left right, slash ∉ left ∧ text = left ++ slash :: right ∧
        split text = left :: split right := by
  by_cases member : slash ∈ text
  · rcases List.eq_append_cons_of_mem member with ⟨left, right, isText, notMember⟩
    refine .inr ⟨left, right, notMember, isText, ?_⟩
    unfold split
    rw [isText, List.splitOn_append_cons_of_beq _ _ (by simp), List.splitOn_eq_singleton notMember]
    rfl
  · exact .inl ⟨member, List.splitOn_eq_singleton member⟩

/-- What holds of a text and passes to both sides of a slash holds of the segments. -/
theorem forall_split {holds : JsString → Prop}
    (passes : ∀ left right, slash ∉ left → holds (left ++ slash :: right) →
      holds left ∧ holds right)
    {text : JsString} (begins : holds text) :
    ∀ segment ∈ split text, slash ∉ segment ∧ holds segment := by
  induction length : text.length using Nat.strong_induction_on generalizing text with
  | _ bound induction =>
      rcases split_cases text with ⟨plain, isSplit⟩ | ⟨left, right, plain, isText, isSplit⟩
      · rw [isSplit]
        intro segment member
        rw [List.mem_singleton.mp member]
        exact ⟨plain, begins⟩
      · rcases passes left right plain (isText ▸ begins) with ⟨ofLeft, ofRight⟩
        have shorter : right.length < bound := by
          rw [← length, isText]
          simp
          omega
        rw [isSplit]
        intro segment member
        rcases List.mem_cons.mp member with rfl | inRight
        · exact ⟨plain, ofLeft⟩
        · exact induction right.length shorter ofRight rfl segment inRight

theorem hasLoneSurrogate_append {unit : UInt16} (notHigh : isHighSurrogate unit = false)
    (notLow : isLowSurrogate unit = false) (left right : JsString) :
    hasLoneSurrogate (left ++ unit :: right) =
      (hasLoneSurrogate left || hasLoneSurrogate right) := by
  have fromUnit : hasLoneSurrogate (unit :: right) = hasLoneSurrogate right := by
    cases right with
    | nil => simp [hasLoneSurrogate, notHigh, notLow]
    | cons next rest => simp [hasLoneSurrogate, notHigh, notLow]
  induction left using hasLoneSurrogate.induct with
  | case1 => simpa [hasLoneSurrogate] using fromUnit
  | case2 last =>
      rw [List.singleton_append]
      simp only [hasLoneSurrogate, notLow, Bool.and_false, Bool.false_eq_true, if_false, fromUnit]
  | case3 high low rest pair induction =>
      simp only [List.cons_append, hasLoneSurrogate, if_pos pair]
      exact induction
  | case4 high low rest single induction =>
      simp only [List.cons_append, hasLoneSurrogate, if_neg single]
      simp only [List.cons_append] at induction
      rw [induction]
      simp only [Bool.or_assoc]

theorem hasLoneSurrogate_append_slash (left right : JsString) :
    hasLoneSurrogate (left ++ slash :: right) =
      (hasLoneSurrogate left || hasLoneSurrogate right) :=
  hasLoneSurrogate_append (by decide) (by decide) left right

theorem utf8_append {unit : UInt16} (notLow : isLowSurrogate unit = false)
    (left right : JsString) : utf8 (left ++ unit :: right) = utf8 left ++ utf8 (unit :: right) := by
  induction left using utf8.induct with
  | case1 => rfl
  | case2 last => simp [utf8, notLow]
  | case3 high low rest pair induction =>
      rw [utf8, if_pos pair, List.append_assoc, ← induction]
      simp only [List.cons_append]
      rw [utf8, if_pos pair]
  | case4 high low rest single induction =>
      rw [utf8, if_neg single, List.append_assoc, ← induction]
      simp only [List.cons_append]
      rw [utf8, if_neg single]

theorem utf8_cons_ascii {unit : UInt16} (isAscii : unit.toNat < 0x80) (rest : JsString) :
    utf8 (unit :: rest) = UInt8.ofNat unit.toNat :: utf8 rest := by
  have notHigh : isHighSurrogate unit = false := by
    simp only [isHighSurrogate, Bool.and_eq_false_iff, decide_eq_false_iff_not]
    left
    rw [UInt16.le_iff_toNat_le]
    exact fun large => absurd isAscii (by simp at large; omega)
  have single : encodeUnit unit = [UInt8.ofNat unit.toNat] := if_pos isAscii
  cases rest with
  | nil => exact single
  | cons next rest => simp [utf8, notHigh, single]

theorem hasLoneSurrogate_join {parts : List JsString}
    (paired : ∀ part ∈ parts, hasLoneSurrogate part = false) :
    hasLoneSurrogate (join parts) = false := by
  induction parts with
  | nil => rfl
  | cons first rest induction =>
      have later := induction fun part member => paired part (List.mem_cons_of_mem _ member)
      have here := paired first (List.mem_cons_self ..)
      cases rest with
      | nil => simpa [join] using here
      | cons second others =>
          rw [join_cons_cons, hasLoneSurrogate_append_slash, here, later]
          rfl

end JsString

/-- `String(value)` of a whole number. -/
def decimal (value : Nat) : JsString :=
  (toString value).toList.map fun digit => digit.toNat.toUInt16

end Storix
