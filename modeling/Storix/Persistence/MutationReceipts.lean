import Storix.Vfs.Errors

/-! # Mutation receipts

The receipt row of one mutation key, and the statements that read and write it. Each
statement is one update of the row under its own condition. -/

namespace Storix

structure ReceiptResponse where
  status : Nat
  /-- The JSON text of the body. -/
  body : JsString
  headers : List (String × JsString)
  deriving DecidableEq

inductive ReceiptState
  | reserved
  | complete
  deriving DecidableEq, Repr

/-- `vfs_mutation_receipt`, less its key. -/
structure VfsMutationReceipt where
  state : ReceiptState
  generation : Nat
  leaseExpiresAt : Option Nat
  expiresAt : Nat
  method : Option JsString
  fingerprint : Option JsString
  responseStatus : Option Nat
  responseBody : Option JsString
  responseHeaders : Option (List (String × JsString))
  requestBodyBytes : Option Nat
  deriving DecidableEq

/-- `RECEIPT_DAYS`, in milliseconds. -/
def RECEIPT_MS : Nat := 30 * 86400000

def MAX_CLAIM_ATTEMPTS : Nat := 3

namespace VfsMutationReceipt

def isReserved (receipt : VfsMutationReceipt) : Bool := receipt.state = .reserved

def isComplete (receipt : VfsMutationReceipt) : Bool := receipt.state = .complete

/-- `lease_expires_at <= now`; a comparison with NULL is not true. -/
def leaseExpired (receipt : VfsMutationReceipt) (now : Nat) : Bool :=
  receipt.leaseExpiresAt.any fun lease => lease ≤ now

/-- `lease_expires_at > now` -/
def leaseLive (receipt : VfsMutationReceipt) (now : Nat) : Bool :=
  receipt.leaseExpiresAt.any fun lease => now < lease

end VfsMutationReceipt

abbrev ReceiptRow := Option VfsMutationReceipt

namespace ReceiptRow

/-- `UPDATE … WHERE`: the row afterwards, and whether it was affected. -/
def updateWhere (test : VfsMutationReceipt → Bool)
    (change : VfsMutationReceipt → VfsMutationReceipt) : ReceiptRow → ReceiptRow × Bool
  | none => (none, false)
  | some receipt => if test receipt then (some (change receipt), true) else (some receipt, false)

/-- `DELETE … WHERE` -/
def deleteWhere (test : VfsMutationReceipt → Bool) : ReceiptRow → ReceiptRow
  | none => none
  | some receipt => if test receipt then none else some receipt

/-- `INSERT … ON CONFLICT DO NOTHING`: the claim of a key that has no row. `clock` is the
time of the database and `now` that of the request. -/
def insertClaim (leaseMs clock now : Nat) : ReceiptRow → ReceiptRow × Bool
  | none =>
      (some
        { state := .reserved, generation := 1, leaseExpiresAt := some (clock + leaseMs),
          expiresAt := now + RECEIPT_MS, method := none, fingerprint := none,
          responseStatus := none, responseBody := none, responseHeaders := none,
          requestBodyBytes := none }, true)
  | some receipt => (some receipt, false)

def takeOver (leaseMs clock : Nat) : ReceiptRow → ReceiptRow × Bool :=
  updateWhere (fun receipt => receipt.isReserved && receipt.leaseExpired clock) fun receipt =>
    { receipt with
      generation := receipt.generation + 1
      leaseExpiresAt := some (clock + leaseMs) }

def deleteExpired (now : Nat) : ReceiptRow → ReceiptRow :=
  deleteWhere fun receipt => receipt.isComplete && receipt.expiresAt ≤ now

def renew (leaseMs clock generation : Nat) : ReceiptRow → ReceiptRow × Bool :=
  updateWhere (fun receipt => receipt.isReserved && receipt.generation == generation)
    fun receipt => { receipt with leaseExpiresAt := some (clock + leaseMs) }

def completeWith (clock generation : Nat) (fingerprint method : JsString)
    (response : ReceiptResponse) (requestBodyBytes : Option Nat) :
    ReceiptRow → ReceiptRow × Bool :=
  updateWhere
    (fun receipt =>
      receipt.isReserved && receipt.generation == generation && receipt.leaseLive clock)
    fun receipt =>
      { receipt with
        state := .complete
        leaseExpiresAt := none
        expiresAt := clock + RECEIPT_MS
        method := some method
        fingerprint := some fingerprint
        responseStatus := some response.status
        responseBody := some response.body
        responseHeaders := some response.headers
        requestBodyBytes := requestBodyBytes }

def release (generation : Nat) : ReceiptRow → ReceiptRow :=
  deleteWhere fun receipt => receipt.isReserved && receipt.generation == generation

/-- The `DELETE` of `pruneExpired` for a row that was selected before. -/
def pruneExpired (clock now : Nat) : ReceiptRow → ReceiptRow :=
  deleteWhere fun receipt =>
    receipt.isComplete && receipt.expiresAt ≤ now ||
      receipt.isReserved && receipt.expiresAt ≤ now && receipt.leaseExpired clock

end ReceiptRow

end Storix
