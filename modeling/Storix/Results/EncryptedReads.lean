import Storix.Encryption.EncryptedContent

/-! # Encrypted reads

A read of a range of encrypted content gives the bytes of that range of the plaintext, for
every way the storage cuts its answer into chunks. -/

namespace Storix

open Foundation

/-! ## The counter -/

theorem addCarry_length (bytes : List UInt8) (carry : Nat) :
    (addCarry bytes carry).length = bytes.length := by
  induction bytes generalizing carry with
  | nil => rfl
  | cons byte rest induction =>
      rw [addCarry]
      split
      · rfl
      · rw [List.length_cons, induction, List.length_cons]

theorem ofBigEndian_addCarry (bytes : List UInt8) (carry : Nat) :
    ofBigEndian (addCarry bytes carry).reverse =
      (ofBigEndian bytes.reverse + carry) % 256 ^ bytes.length := by
  induction bytes generalizing carry with
  | nil => simp [addCarry, ofBigEndian, Nat.mod_one]
  | cons byte rest induction =>
      rw [addCarry, List.reverse_cons, ofBigEndian_append_singleton, List.length_cons]
      split
      · rename_i noCarry
        have bound := ofBigEndian_lt (byte :: rest).reverse
        rw [List.length_reverse, List.length_cons, List.reverse_cons,
          ofBigEndian_append_singleton] at bound
        rw [List.reverse_cons, ofBigEndian_append_singleton, noCarry, Nat.add_zero,
          Nat.mod_eq_of_lt bound]
      · generalize isSum : byte.toNat + carry = sum
        have isByte : (UInt8.ofNat ((sum % 2 ^ 32) &&& 0xff)).toNat = sum % 256 := by
          have masked := Nat.and_two_pow_sub_one_eq_mod (sum % 2 ^ 32) 8
          rw [UInt8.toNat_ofNat', masked]
          omega
        rw [List.reverse_cons, ofBigEndian_append_singleton, induction, isByte, Nat.pow_succ,
          Nat.mul_comm (256 ^ rest.length), Nat.mod_mul, Nat.add_assoc, isSum]
        have low : (ofBigEndian rest.reverse * 256 + sum) % 256 = sum % 256 := by omega
        have high : (ofBigEndian rest.reverse * 256 + sum) / 256 =
            ofBigEndian rest.reverse + sum / 256 := by omega
        rw [low, high]
        omega

theorem incrementCounter_eq {iv : List UInt8} (isIv : iv.length = IV_LENGTH) (blocks : Nat) :
    incrementCounter iv blocks = bigEndian IV_LENGTH ((ofBigEndian iv + blocks) % 2 ^ 128) := by
  have isLength : (incrementCounter iv blocks).length = IV_LENGTH := by
    rw [incrementCounter, List.length_reverse, addCarry_length, List.length_reverse, isIv]
  have isValue := ofBigEndian_addCarry iv.reverse blocks
  rw [List.reverse_reverse, List.length_reverse, isIv] at isValue
  have width : 256 ^ IV_LENGTH = 2 ^ 128 := rfl
  rw [← bigEndian_ofBigEndian (incrementCounter iv blocks), isLength, incrementCounter, isValue,
    width]

section Cipher

variable {Key : Type} (blockCipher : Key → List UInt8 → Fin 16 → UInt8)

/-- From an advanced counter on the key bytes are those of the blocks that follow. -/
theorem counterStream_incrementCounter {iv : List UInt8} (isIv : iv.length = IV_LENGTH) (key : Key)
    (blocks index : Nat) :
    counterStream blockCipher key (incrementCounter iv blocks) index =
      counterStream blockCipher key iv (blocks * BLOCK_SIZE + index) := by
  have bound : (ofBigEndian iv + blocks) % 2 ^ 128 < 256 ^ IV_LENGTH :=
    Nat.mod_lt _ (Nat.pow_pos (by decide))
  have counter : (ofBigEndian (incrementCounter iv blocks) + index / 16) % 2 ^ 128 =
      (ofBigEndian iv + (blocks * BLOCK_SIZE + index) / 16) % 2 ^ 128 := by
    have whole : (blocks * BLOCK_SIZE + index) / 16 = blocks + index / 16 := by
      unfold BLOCK_SIZE
      omega
    rw [incrementCounter_eq isIv, ofBigEndian_bigEndian bound, whole, Nat.mod_add_mod,
      Nat.add_assoc]
  have offset : (blocks * BLOCK_SIZE + index) % 16 = index % 16 := by
    unfold BLOCK_SIZE
    omega
  unfold counterStream
  rw [counter]
  exact congrArg _ (Fin.ext offset.symm)

/-! ## Chunks -/

theorem dropChunks_flatten (remaining : Nat) (chunks : List (List UInt8)) :
    (dropChunks remaining chunks).flatten = chunks.flatten.drop remaining := by
  induction chunks generalizing remaining with
  | nil => simp [dropChunks]
  | cons chunk rest induction =>
      rw [dropChunks, List.flatten_cons, List.drop_append]
      split
      · rename_i none
        rw [none, List.flatten_cons, induction, Nat.zero_sub]
        rfl
      · split
        · rename_i whole
          rw [induction, List.drop_eq_nil_of_le whole, List.nil_append]
        · rename_i part
          have noMore : remaining - chunk.length = 0 := by omega
          rw [List.flatten_cons, induction, noMore]

theorem dropLeadingBytes_flatten (source : List (List UInt8)) (count : Nat) :
    (dropLeadingBytes source count).flatten = source.flatten.drop count := by
  unfold dropLeadingBytes
  split
  · rename_i none
    rw [none, List.drop_zero]
  · exact dropChunks_flatten count source

/-! ## Reads -/

/-- The storage holds an object: whatever it is asked for, the chunks of its answer are the
bytes of that range. -/
structure Holds (get : Option BlobRange → List (List UInt8)) (object : List UInt8) : Prop where
  whole : (get none).flatten = object
  ranges : ∀ range, range.start ≤ range.last → range.last < object.length →
    (get (some range)).flatten = range.slice object

variable {blockCipher} {get : Option BlobRange → List (List UInt8)} {iv plaintext : List UInt8}
  {key : Key}

theorem getEncrypted_whole (holds : Holds get (encrypted blockCipher key iv plaintext)) :
    (getEncrypted blockCipher get iv key none).flatten = plaintext := by
  rw [getEncrypted, cipheriv, xorChunks_flatten, holds.whole]
  exact xorFrom_xorFrom 0 0 (fun _ => rfl) plaintext

theorem getEncrypted_range (isIv : iv.length = IV_LENGTH)
    (holds : Holds get (encrypted blockCipher key iv plaintext)) {range : BlobRange}
    (ordered : range.start ≤ range.last) (within : range.last < plaintext.length) :
    (getEncrypted blockCipher get iv key (some range)).flatten = range.slice plaintext := by
  have positive : 0 < BLOCK_SIZE := by decide
  have isOffset : range.start / BLOCK_SIZE * BLOCK_SIZE / BLOCK_SIZE = range.start / BLOCK_SIZE :=
    Nat.mul_div_cancel _ positive
  have below : range.start / BLOCK_SIZE * BLOCK_SIZE ≤ range.start := Nat.div_mul_le_self _ _
  unfold getEncrypted
  dsimp only
  rw [isOffset]
  generalize isBlocks : range.start / BLOCK_SIZE = blocks at below
  rw [dropLeadingBytes_flatten, cipheriv, xorChunks_flatten,
    holds.ranges ⟨blocks * BLOCK_SIZE, range.last⟩ (below.trans ordered)
      (by rw [encrypted, xorFrom_length]; exact within)]
  unfold BlobRange.slice encrypted
  dsimp only
  have sameStream : ∀ index,
      counterStream blockCipher key (incrementCounter iv blocks) (0 + index) =
        counterStream blockCipher key iv (0 + blocks * BLOCK_SIZE + index) := by
    intro index
    rw [Nat.zero_add, Nat.zero_add]
    exact counterStream_incrementCounter blockCipher isIv key blocks index
  rw [xorFrom_drop 0 (blocks * BLOCK_SIZE), xorFrom_take, xorFrom_xorFrom _ _ sameStream,
    List.drop_take, List.drop_drop]
  have start : blocks * BLOCK_SIZE + (range.start - blocks * BLOCK_SIZE) = range.start := by omega
  have count : range.last + 1 - blocks * BLOCK_SIZE - (range.start - blocks * BLOCK_SIZE) =
      range.last + 1 - range.start := by omega
  rw [start, count]

/-- Reads of encrypted content are reads of the plaintext, and the counter of a block is the
IV plus its number. -/
theorem encrypted_reads_are_slices (isIv : iv.length = IV_LENGTH)
    (holds : Holds get (encrypted blockCipher key iv plaintext)) :
    (getEncrypted blockCipher get iv key none).flatten = plaintext ∧
    (∀ range : BlobRange, range.start ≤ range.last → range.last < plaintext.length →
      (getEncrypted blockCipher get iv key (some range)).flatten = range.slice plaintext) ∧
    ∀ blocks < 2 ^ 49,
      incrementCounter iv blocks = bigEndian IV_LENGTH ((ofBigEndian iv + blocks) % 2 ^ 128) :=
  ⟨getEncrypted_whole holds,
    fun _ ordered within => getEncrypted_range isIv holds ordered within,
    fun blocks _ => incrementCounter_eq isIv blocks⟩

end Cipher

/-- Twenty bytes under an IV whose counter wraps at the second block, answered one byte a chunk:
the range 15 to 17 crosses the blocks. -/
theorem encrypted_reads_are_slices_wrapped :
    ∃ (blockCipher : Nat → List UInt8 → Fin 16 → UInt8)
      (get : Option BlobRange → List (List UInt8)),
      Holds get (encrypted blockCipher 7 (List.replicate 16 0xff) (List.replicate 20 1)) ∧
      (getEncrypted blockCipher get (List.replicate 16 0xff) 7 (some ⟨15, 17⟩)).flatten =
        [1, 1, 1] := by
  let blockCipher (key : Nat) (counter : List UInt8) (index : Fin 16) : UInt8 :=
    UInt8.ofNat (key * ofBigEndian counter + index)
  let object := encrypted blockCipher 7 (List.replicate 16 0xff) (List.replicate 20 1)
  let get (range : Option BlobRange) : List (List UInt8) :=
    (range.elim object fun range => range.slice object).map fun byte => [byte]
  have flattens : ∀ bytes : List UInt8, (bytes.map fun byte => [byte]).flatten = bytes := by
    intro bytes
    induction bytes with
    | nil => rfl
    | cons byte rest induction => rw [List.map_cons, List.flatten_cons, induction]; rfl
  have holds : Holds get object := ⟨flattens _, fun _ _ _ => flattens _⟩
  exact ⟨blockCipher, get, holds,
    (encrypted_reads_are_slices rfl holds).2.1 ⟨15, 17⟩ (by decide) (by decide)⟩

end Storix
