import Storix.Foundation.Base64
import Storix.Foundation.Keystream

/-! # Encrypted content

Content is stored under AES in counter mode. A read of a range starts at a block boundary
with the counter of that block and drops the bytes in front of the range. A stream is the
list of its chunks; the block cipher is any function of the key and the counter block.
`pipeThrough` passes the chunks on. -/

namespace Storix

open Foundation

def IV_LENGTH : Nat := 16

def BLOCK_SIZE : Nat := 16

/-- An inclusive range of bytes. -/
structure BlobRange where
  start : Nat
  last : Nat

def BlobRange.slice (range : BlobRange) (bytes : List UInt8) : List UInt8 :=
  (bytes.drop range.start).take (range.last + 1 - range.start)

/-- The loop of `incrementCounter`, from the last byte to the first. A sum stays far below
2^53, so number arithmetic is exact; `&` takes its operand modulo 2^32 first. -/
def addCarry : List UInt8 → Nat → List UInt8
  | [], _ => []
  | byte :: rest, carry =>
      if carry = 0 then byte :: rest
      else
        let sum := byte.toNat + carry
        UInt8.ofNat ((sum % 2 ^ 32) &&& 0xff) :: addCarry rest (sum / 256)

def incrementCounter (iv : List UInt8) (blocks : Nat) : List UInt8 :=
  (addCarry iv.reverse blocks).reverse

section Cipher

variable {Key : Type} (blockCipher : Key → List UInt8 → Fin 16 → UInt8)

/-- The key bytes of counter mode: the counter starts at the IV and goes up by one for each
block, modulo 2^128. -/
def counterStream (key : Key) (iv : List UInt8) (index : Nat) : UInt8 :=
  blockCipher key (bigEndian 16 ((ofBigEndian iv + index / 16) % 2 ^ 128))
    ⟨index % 16, Nat.mod_lt _ (by decide)⟩

/-- `createCipheriv` and `createDecipheriv`, which are the same in counter mode. -/
def cipheriv (key : Key) (iv : List UInt8) (chunks : List (List UInt8)) : List (List UInt8) :=
  xorChunks (counterStream blockCipher key iv) 0 chunks

def encrypted (key : Key) (iv plaintext : List UInt8) : List UInt8 :=
  xorFrom (counterStream blockCipher key iv) 0 plaintext

/-- The transform of `dropLeadingBytes`, with the bytes that remain to be dropped. -/
def dropChunks : Nat → List (List UInt8) → List (List UInt8)
  | _, [] => []
  | remaining, chunk :: rest =>
      if remaining = 0 then chunk :: dropChunks 0 rest
      else if chunk.length ≤ remaining then dropChunks (remaining - chunk.length) rest
      else chunk.drop remaining :: dropChunks 0 rest

def dropLeadingBytes (source : List (List UInt8)) (count : Nat) : List (List UInt8) :=
  if count = 0 then source else dropChunks count source

/-- `get` is the chunks that the storage answers with. -/
def getEncrypted (get : Option BlobRange → List (List UInt8)) (iv : List UInt8) (key : Key)
    (range : Option BlobRange) : List (List UInt8) :=
  match range with
  | none => cipheriv blockCipher key iv (get none)
  | some range =>
      let blockOffset := range.start / BLOCK_SIZE * BLOCK_SIZE
      let discard := range.start - blockOffset
      let cipherStream := get (some ⟨blockOffset, range.last⟩)
      let counter := incrementCounter iv (blockOffset / BLOCK_SIZE)
      dropLeadingBytes (cipheriv blockCipher key counter cipherStream) discard

end Cipher

end Storix
