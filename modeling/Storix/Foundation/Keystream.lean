import Mathlib.Data.List.Basic

/-! # Key streams

Bytes combined with an endless stream of key bytes, from a position of it on. Work in chunks
is work on the whole. -/

namespace Storix.Foundation

def xorFrom (stream : Nat → UInt8) : Nat → List UInt8 → List UInt8
  | _, [] => []
  | position, byte :: rest => (byte ^^^ stream position) :: xorFrom stream (position + 1) rest

variable {stream : Nat → UInt8}

@[simp] theorem xorFrom_length (position : Nat) (bytes : List UInt8) :
    (xorFrom stream position bytes).length = bytes.length := by
  induction bytes generalizing position with
  | nil => rfl
  | cons byte rest induction => rw [xorFrom, List.length_cons, induction, List.length_cons]

theorem xorFrom_append (position : Nat) (front back : List UInt8) :
    xorFrom stream position (front ++ back) =
      xorFrom stream position front ++ xorFrom stream (position + front.length) back := by
  induction front generalizing position with
  | nil => rfl
  | cons byte rest induction =>
      rw [List.cons_append, xorFrom, xorFrom, induction, List.cons_append, List.length_cons,
        Nat.add_assoc, Nat.add_comm 1]

theorem xorFrom_drop (position count : Nat) (bytes : List UInt8) :
    (xorFrom stream position bytes).drop count =
      xorFrom stream (position + count) (bytes.drop count) := by
  induction count generalizing position bytes with
  | zero => rfl
  | succ count induction =>
      cases bytes with
      | nil => rfl
      | cons byte rest =>
          rw [xorFrom, List.drop_succ_cons, List.drop_succ_cons, induction, Nat.add_assoc,
            Nat.add_comm 1]

theorem xorFrom_take (position count : Nat) (bytes : List UInt8) :
    (xorFrom stream position bytes).take count = xorFrom stream position (bytes.take count) := by
  induction count generalizing position bytes with
  | zero => rfl
  | succ count induction =>
      cases bytes with
      | nil => rfl
      | cons byte rest => rw [xorFrom, List.take_succ_cons, List.take_succ_cons, xorFrom, induction]

theorem xorFrom_xorFrom {other : Nat → UInt8} (position start : Nat)
    (same : ∀ index, other (start + index) = stream (position + index)) (bytes : List UInt8) :
    xorFrom other start (xorFrom stream position bytes) = bytes := by
  induction bytes generalizing position start with
  | nil => rfl
  | cons byte rest induction =>
      have head : other start = stream position := same 0
      rw [xorFrom, xorFrom, head, UInt8.xor_assoc, UInt8.xor_self, UInt8.xor_zero]
      refine congrArg _ (induction (position + 1) (start + 1) fun index => ?_)
      have later := same (index + 1)
      rwa [Nat.add_comm index, ← Nat.add_assoc, ← Nat.add_assoc] at later

def xorChunks (stream : Nat → UInt8) : Nat → List (List UInt8) → List (List UInt8)
  | _, [] => []
  | position, chunk :: rest =>
      xorFrom stream position chunk :: xorChunks stream (position + chunk.length) rest

theorem xorChunks_flatten (position : Nat) (chunks : List (List UInt8)) :
    (xorChunks stream position chunks).flatten = xorFrom stream position chunks.flatten := by
  induction chunks generalizing position with
  | nil => rfl
  | cons chunk rest induction =>
      rw [xorChunks, List.flatten_cons, induction, List.flatten_cons, xorFrom_append]

end Storix.Foundation
