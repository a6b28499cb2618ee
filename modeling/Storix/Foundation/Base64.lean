import Mathlib.Data.List.Induction
import Mathlib.Data.List.Basic
import Mathlib.Algebra.Order.Group.Nat

/-! # Numbers as bytes and bytes as text

Big-endian bytes of a number, and base64 with the alphabet for URLs and without padding.
Both lose nothing. -/

namespace Storix.Foundation

/-! ## Bytes -/

/-- The lowest `count` bytes of a number, the highest first. -/
def bigEndian : Nat → Nat → List UInt8
  | 0, _ => []
  | count + 1, value => bigEndian count (value / 256) ++ [UInt8.ofNat value]

def ofBigEndian (bytes : List UInt8) : Nat :=
  bytes.foldl (fun value byte => value * 256 + byte.toNat) 0

@[simp] theorem bigEndian_length (count value : Nat) : (bigEndian count value).length = count := by
  induction count generalizing value with
  | zero => rfl
  | succ count induction => rw [bigEndian, List.length_append, induction, List.length_singleton]

theorem ofBigEndian_append_singleton (bytes : List UInt8) (byte : UInt8) :
    ofBigEndian (bytes ++ [byte]) = ofBigEndian bytes * 256 + byte.toNat := by
  unfold ofBigEndian
  rw [List.foldl_append]
  rfl

theorem ofBigEndian_bigEndian {count value : Nat} (bound : value < 256 ^ count) :
    ofBigEndian (bigEndian count value) = value := by
  induction count generalizing value with
  | zero =>
      have isZero : value = 0 := by simpa using bound
      rw [isZero]
      rfl
  | succ count induction =>
      have below : value / 256 < 256 ^ count := by
        rw [Nat.pow_succ] at bound
        exact Nat.div_lt_of_lt_mul (by rw [Nat.mul_comm]; exact bound)
      have isByte : (UInt8.ofNat value).toNat = value % 256 := rfl
      rw [bigEndian, ofBigEndian_append_singleton, induction below, isByte]
      omega

theorem ofBigEndian_lt (bytes : List UInt8) : ofBigEndian bytes < 256 ^ bytes.length := by
  induction bytes using List.reverseRecOn with
  | nil => exact Nat.one_pos
  | append_singleton bytes byte induction =>
      have isByte := byte.toNat_lt
      rw [ofBigEndian_append_singleton, List.length_append, List.length_singleton, Nat.pow_succ]
      omega

theorem bigEndian_ofBigEndian (bytes : List UInt8) :
    bigEndian bytes.length (ofBigEndian bytes) = bytes := by
  induction bytes using List.reverseRecOn with
  | nil => rfl
  | append_singleton bytes byte induction =>
      have isByte := byte.toNat_lt
      have high : (ofBigEndian bytes * 256 + byte.toNat) / 256 = ofBigEndian bytes := by omega
      have low : UInt8.ofNat (ofBigEndian bytes * 256 + byte.toNat) = byte := by
        apply UInt8.toNat_inj.mp
        rw [UInt8.toNat_ofNat']
        omega
      rw [ofBigEndian_append_singleton, List.length_append, List.length_singleton, bigEndian, high,
        induction, low]

theorem bigEndian_injective {count left right : Nat} (leftBound : left < 256 ^ count)
    (rightBound : right < 256 ^ count) (same : bigEndian count left = bigEndian count right) :
    left = right := by
  rw [← ofBigEndian_bigEndian leftBound, ← ofBigEndian_bigEndian rightBound, same]

/-! ## Base64 -/

def base64Unit (value : Nat) : UInt16 :=
  if value < 26 then UInt16.ofNat (0x41 + value)
  else if value < 52 then UInt16.ofNat (0x61 + (value - 26))
  else if value < 62 then UInt16.ofNat (0x30 + (value - 52))
  else if value = 62 then 0x2d
  else 0x5f

def base64Value (unit : UInt16) : Option Nat :=
  let code := unit.toNat
  if 0x41 ≤ code ∧ code ≤ 0x5a then some (code - 0x41)
  else if 0x61 ≤ code ∧ code ≤ 0x7a then some (code - 0x61 + 26)
  else if 0x30 ≤ code ∧ code ≤ 0x39 then some (code - 0x30 + 52)
  else if code = 0x2d then some 62
  else if code = 0x5f then some 63
  else none

def base64url : List UInt8 → List UInt16
  | [] => []
  | [first] => [base64Unit (first.toNat / 4), base64Unit (first.toNat % 4 * 16)]
  | [first, second] =>
      [base64Unit (first.toNat / 4), base64Unit (first.toNat % 4 * 16 + second.toNat / 16),
        base64Unit (second.toNat % 16 * 4)]
  | first :: second :: third :: rest =>
      base64Unit (first.toNat / 4) :: base64Unit (first.toNat % 4 * 16 + second.toNat / 16) ::
        base64Unit (second.toNat % 16 * 4 + third.toNat / 64) ::
        base64Unit (third.toNat % 64) :: base64url rest

theorem base64Value_base64Unit : ∀ value < 64, base64Value (base64Unit value) = some value := by
  decide

/-- The number that a unit of the alphabet stands for. -/
def base64Digit (unit : UInt16) : Nat := (base64Value unit).getD 0

/-- `Buffer.from(text, 'base64url')` of a text of the alphabet. Bits behind the last whole byte
are dropped. -/
def base64Bytes : List UInt16 → List UInt8
  | first :: second :: third :: fourth :: rest =>
      UInt8.ofNat (base64Digit first * 4 + base64Digit second / 16) ::
        UInt8.ofNat (base64Digit second % 16 * 16 + base64Digit third / 4) ::
        UInt8.ofNat (base64Digit third % 4 * 64 + base64Digit fourth) :: base64Bytes rest
  | [first, second, third] =>
      [UInt8.ofNat (base64Digit first * 4 + base64Digit second / 16),
        UInt8.ofNat (base64Digit second % 16 * 16 + base64Digit third / 4)]
  | [first, second] => [UInt8.ofNat (base64Digit first * 4 + base64Digit second / 16)]
  | _ => []

def inAlphabet (unit : UInt16) : Bool := (base64Value unit).isSome

theorem base64Digit_base64Unit {value : Nat} (small : value < 64) :
    base64Digit (base64Unit value) = value := by
  rw [base64Digit, base64Value_base64Unit value small, Option.getD_some]

theorem inAlphabet_base64Unit {value : Nat} (small : value < 64) :
    inAlphabet (base64Unit value) = true := by
  rw [inAlphabet, base64Value_base64Unit value small, Option.isSome_some]

theorem base64Bytes_base64url (bytes : List UInt8) : base64Bytes (base64url bytes) = bytes := by
  have same : ∀ (byte : UInt8) (value : Nat), value = byte.toNat → UInt8.ofNat value = byte := by
    intro byte value isValue
    rw [isValue, UInt8.ofNat_toNat]
  induction bytes using base64url.induct with
  | case1 => rfl
  | case2 first =>
      have firstBound := first.toNat_lt
      rw [base64url, base64Bytes, base64Digit_base64Unit (by omega),
        base64Digit_base64Unit (by omega), same first _ (by omega)]
  | case3 first second =>
      have firstBound := first.toNat_lt
      have secondBound := second.toNat_lt
      rw [base64url, base64Bytes, base64Digit_base64Unit (by omega),
        base64Digit_base64Unit (by omega), base64Digit_base64Unit (by omega),
        same first _ (by omega), same second _ (by omega)]
  | case4 first second third rest induction =>
      have firstBound := first.toNat_lt
      have secondBound := second.toNat_lt
      have thirdBound := third.toNat_lt
      rw [base64url, base64Bytes, induction, base64Digit_base64Unit (by omega),
        base64Digit_base64Unit (by omega), base64Digit_base64Unit (by omega),
        base64Digit_base64Unit (by omega), same first _ (by omega), same second _ (by omega),
        same third _ (by omega)]

theorem base64url_alphabet (bytes : List UInt8) :
    (base64url bytes).all inAlphabet = true := by
  induction bytes using base64url.induct with
  | case1 => rfl
  | case2 first =>
      have firstBound := first.toNat_lt
      simp only [base64url, List.all_cons, List.all_nil, Bool.and_true]
      rw [inAlphabet_base64Unit (by omega), inAlphabet_base64Unit (by omega)]
      rfl
  | case3 first second =>
      have firstBound := first.toNat_lt
      have secondBound := second.toNat_lt
      simp only [base64url, List.all_cons, List.all_nil, Bool.and_true]
      rw [inAlphabet_base64Unit (by omega), inAlphabet_base64Unit (by omega),
        inAlphabet_base64Unit (by omega)]
      rfl
  | case4 first second third rest induction =>
      have firstBound := first.toNat_lt
      have secondBound := second.toNat_lt
      have thirdBound := third.toNat_lt
      simp only [base64url, List.all_cons]
      rw [induction, inAlphabet_base64Unit (by omega), inAlphabet_base64Unit (by omega),
        inAlphabet_base64Unit (by omega), inAlphabet_base64Unit (by omega)]
      rfl

theorem base64url_length (bytes : List UInt8) :
    (base64url bytes).length = (bytes.length * 4 + 2) / 3 := by
  induction bytes using base64url.induct with
  | case1 => rfl
  | case2 first => simp [base64url]
  | case3 first second => simp [base64url]
  | case4 first second third rest induction =>
      simp only [base64url, List.length_cons]
      rw [induction]
      omega

end Storix.Foundation
