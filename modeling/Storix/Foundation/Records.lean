import Mathlib.Algebra.GroupWithZero.Nat
import Mathlib.Data.List.Basic

/-! # Binary records

Slices of byte strings, little-endian fields, and the CRC-32 that archives use. -/

namespace Storix.Foundation

/-! ## Slices -/

/-- `length` bytes from `start` on, or what there is of them. -/
def slice (bytes : List UInt8) (start length : Nat) : List UInt8 := (bytes.drop start).take length

theorem length_slice {bytes : List UInt8} {start length : Nat}
    (inside : start + length ≤ bytes.length) : (slice bytes start length).length = length := by
  rw [slice, List.length_take, List.length_drop]
  omega

theorem slice_slice {bytes : List UInt8} {start length from_ count : Nat}
    (inside : from_ + count ≤ length) :
    slice (slice bytes start length) from_ count = slice bytes (start + from_) count := by
  unfold slice
  rw [List.drop_take, List.take_take, List.drop_drop]
  congr 1
  omega

theorem slice_append_right (front back : List UInt8) (start length : Nat) :
    slice (front ++ back) (front.length + start) length = slice back start length := by
  unfold slice
  rw [List.drop_append, List.drop_eq_nil_of_le (by omega), List.nil_append,
    Nat.add_sub_cancel_left]

theorem slice_append_left {front : List UInt8} (back : List UInt8) {start length : Nat}
    (inside : start + length ≤ front.length) :
    slice (front ++ back) start length = slice front start length := by
  unfold slice
  rw [List.drop_append_of_le_length (by omega), List.take_append_of_le_length]
  rw [List.length_drop]
  omega

theorem slice_zero_length (bytes : List UInt8) : slice bytes 0 bytes.length = bytes := by
  simp [slice]

/-! ## Little-endian fields -/

/-- The lowest `count` bytes of a number, the lowest first. -/
def littleEndian : Nat → Nat → List UInt8
  | 0, _ => []
  | count + 1, value => UInt8.ofNat value :: littleEndian count (value / 256)

def ofLittleEndian : List UInt8 → Nat
  | [] => 0
  | byte :: rest => byte.toNat + 256 * ofLittleEndian rest

@[simp] theorem littleEndian_length (count value : Nat) :
    (littleEndian count value).length = count := by
  induction count generalizing value with
  | zero => rfl
  | succ count induction => rw [littleEndian, List.length_cons, induction]

theorem ofLittleEndian_littleEndian {count value : Nat} (bound : value < 256 ^ count) :
    ofLittleEndian (littleEndian count value) = value := by
  induction count generalizing value with
  | zero =>
      have isZero : value = 0 := by simpa using bound
      rw [isZero]
      rfl
  | succ count induction =>
      have below : value / 256 < 256 ^ count := by
        rw [Nat.pow_succ] at bound
        exact Nat.div_lt_of_lt_mul (by rw [Nat.mul_comm]; exact bound)
      have isByte : (UInt8.ofNat value).toNat = value % 256 := rfl
      rw [littleEndian, ofLittleEndian, induction below, isByte]
      omega

theorem ofLittleEndian_lt (bytes : List UInt8) : ofLittleEndian bytes < 256 ^ bytes.length := by
  induction bytes with
  | nil => exact Nat.one_pos
  | cons byte rest induction =>
      have isByte := byte.toNat_lt
      rw [ofLittleEndian, List.length_cons, Nat.pow_succ]
      omega

/-- `buffer.readUInt16LE(offset)` -/
def readUInt16LE (bytes : List UInt8) (offset : Nat) : Nat := ofLittleEndian (slice bytes offset 2)

/-- `buffer.readUInt32LE(offset)` -/
def readUInt32LE (bytes : List UInt8) (offset : Nat) : Nat := ofLittleEndian (slice bytes offset 4)

private theorem ofLittleEndian_slice_lt (bytes : List UInt8) (offset length : Nat) :
    ofLittleEndian (slice bytes offset length) < 256 ^ length := by
  have short : (slice bytes offset length).length ≤ length := by
    rw [slice, List.length_take]
    exact Nat.min_le_left ..
  exact Nat.lt_of_lt_of_le (ofLittleEndian_lt _) (Nat.pow_le_pow_right (by decide) short)

/-! ## CRC-32 -/

def crcShift : Nat → UInt32 → UInt32
  | 0, crc => crc
  | count + 1, crc =>
      crcShift count (if crc &&& 1 = 1 then (crc >>> 1) ^^^ 0xedb88320 else crc >>> 1)

def crcByte (crc : UInt32) (byte : UInt8) : UInt32 := crcShift 8 (crc ^^^ byte.toUInt32)

/-- `crc32(bytes, crc)`: continue a checksum. -/
def crc32 (bytes : List UInt8) (crc : UInt32) : UInt32 :=
  bytes.foldl crcByte (crc ^^^ 0xffffffff) ^^^ 0xffffffff

example : crc32 [0x31, 0x32, 0x33, 0x34, 0x35, 0x36, 0x37, 0x38, 0x39] 0 = 0xcbf43926 := by
  decide +kernel

/-- The checksum of a part and then of the next is the checksum of both. -/
theorem crc32_append (front back : List UInt8) (crc : UInt32) :
    crc32 (front ++ back) crc = crc32 back (crc32 front crc) := by
  unfold crc32
  rw [List.foldl_append, UInt32.xor_assoc, UInt32.xor_self, UInt32.xor_zero]

@[simp] theorem crc32_nil (crc : UInt32) : crc32 [] crc = crc := by
  unfold crc32
  rw [List.foldl_nil, UInt32.xor_assoc, UInt32.xor_self, UInt32.xor_zero]

end Storix.Foundation
