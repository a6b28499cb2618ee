import Storix.Encryption.EncryptedContent
import Storix.Foundation.Machine

/-! # Uploads of a stream

The loop of `uploadStream` writes the chunks of its source into a sink while the PUT of the
storage reads the sink at its own pace. The PUT may fail at any moment; one that succeeds has
stored what was written to the ended sink. The chunks that the PUT reads need not be those
that were written. SHA-256 is a function of the bytes that the hash was given. -/

namespace Storix

open Foundation

variable {Key Failure : Type}

/-- A source yields its chunks and then ends, with an error or without one. -/
structure UploadSource (Failure : Type) where
  chunks : List (List UInt8)
  failure : Option Failure

structure StreamedUpload where
  size : Nat
  sha256 : String
  deriving DecidableEq, Repr

inductive UploadError (Failure : Type)
  | fileTooLarge (maxBytes : Nat)
  | thrown (error : Failure)
  deriving DecidableEq, Repr

section Hash

variable (sha256 : List UInt8 → String)

/-- The loop of `hashStream`, with the bytes that the hash was given. -/
def hashChunks (maxBytes : Nat) (failure : Option Failure) :
    List (List UInt8) → Nat → List UInt8 → Except (UploadError Failure) StreamedUpload
  | [], size, hashed =>
      match failure with
      | some error => .error (.thrown error)
      | none => .ok ⟨size, sha256 hashed⟩
  | chunk :: rest, size, hashed =>
      if maxBytes < size + chunk.length then .error (.fileTooLarge maxBytes)
      else hashChunks maxBytes failure rest (size + chunk.length) (hashed ++ chunk)

def hashStream (source : UploadSource Failure) (maxBytes : Nat) :
    Except (UploadError Failure) StreamedUpload :=
  hashChunks sha256 maxBytes source.failure source.chunks 0 []

end Hash

/-! ## The target of a PUT -/

/-- The storage itself, or an `EncryptingPutTarget` with the IV that its `put` draws. -/
inductive PutTarget (Key : Type)
  | storage
  | encrypting (masterKey : Key) (iv : List UInt8)

namespace PutTarget

variable (blockCipher : Key → List UInt8 → Fin 16 → UInt8)

def piped : PutTarget Key → List (List UInt8) → List (List UInt8)
  | .storage, chunks => chunks
  | .encrypting masterKey iv, chunks => cipheriv blockCipher masterKey iv chunks

/-- The field `iv` once the inner `put` has succeeded. -/
def iv : PutTarget Key → Option (List UInt8)
  | .storage => none
  | .encrypting _ iv => some iv

/-- The object that stands for a content. -/
def object : PutTarget Key → List UInt8 → List UInt8
  | .storage, content => content
  | .encrypting masterKey iv, content => encrypted blockCipher masterKey iv content

theorem piped_flatten (target : PutTarget Key) (chunks : List (List UInt8)) :
    (target.piped blockCipher chunks).flatten = target.object blockCipher chunks.flatten := by
  cases target with
  | storage => rfl
  | encrypting masterKey iv => exact xorChunks_flatten 0 chunks

end PutTarget

/-! ## The upload -/

inductive StreamPhase (Failure : Type)
  /-- The loop asks its source for a chunk. -/
  | reading
  /-- The sink is full; the loop waits for `drain` or for the PUT. -/
  | draining
  /-- The loop was left and the sink has ended. -/
  | settling (exceeded : Bool)
  /-- The source failed and the sink has ended. -/
  | failing (error : Failure)
  /-- The object is being deleted. -/
  | deleting (error : UploadError Failure)
  | finished (outcome : Except (UploadError Failure) StreamedUpload)

inductive StorageEvent
  | putResolved
  | putRejected
  | delete
  deriving DecidableEq, Repr

/-- An upload under way. `putSettled` holds the value of the promise of that name: nothing
for a success (`undefined`), else the error. `putResult` is the loop's copy of it. -/
structure StreamUpload (Failure : Type) where
  phase : StreamPhase Failure := .reading
  rest : List (List UInt8)
  total : Nat := 0
  hashed : List UInt8 := []
  written : List (List UInt8) := []
  buffered : List UInt8 := []
  ended : Bool := false
  drained : Bool := false
  taken : List (List UInt8) := []
  putSettled : Option (Option Failure) := none
  putResult : Option (Option Failure) := none
  stored : Option (List UInt8) := none
  iv : Option (List UInt8) := none
  events : List StorageEvent := []

inductive StreamAction (Failure : Type)
  /-- The source yields a chunk; the answer of `write` is given. -/
  | read (accepted : Bool)
  /-- The source ends. -/
  | finish
  /-- The sink emits `drain`. -/
  | drain
  /-- The race in the loop is over. -/
  | wake
  /-- `putResult` is set. -/
  | record
  /-- `await putSettled` is over. -/
  | settle
  /-- The delete is over; a failure of it is ignored. -/
  | deleted
  /-- The PUT reads from the sink. -/
  | take (count : Nat)
  | resolve
  | reject (error : Failure)

def StreamAction.ofPut : StreamAction Failure → Bool
  | .drain | .take _ | .resolve | .reject _ => true
  | _ => false

structure UploadCall (Key Failure : Type) where
  source : UploadSource Failure
  maxBytes : Nat
  target : PutTarget Key

namespace StreamUpload

variable (sha256 : List UInt8 → String) (blockCipher : Key → List UInt8 → Fin 16 → UInt8)
  (call : UploadCall Key Failure) (state : StreamUpload Failure)

def start : StreamUpload Failure where
  rest := call.source.chunks

def readChunk (accepted : Bool) : Option (StreamUpload Failure) :=
  match state.phase, state.rest with
  | .reading, chunk :: rest =>
      if call.maxBytes < state.total + chunk.length then
        some { state with
          rest, total := state.total + chunk.length, ended := true, phase := .settling true }
      else
        some { state with
          rest
          total := state.total + chunk.length
          hashed := state.hashed ++ chunk
          written := state.written ++ [chunk]
          buffered := state.buffered ++ chunk
          drained := false
          phase := if accepted then .reading else .draining }
  | _, _ => none

def sourceEnds : Option (StreamUpload Failure) :=
  match state.phase, state.rest with
  | .reading, [] =>
      match call.source.failure with
      | none => some { state with ended := true, phase := .settling false }
      | some error => some { state with ended := true, phase := .failing error }
  | _, _ => none

/-- The race between `drain` and the PUT is over. The copy of the result is set before the
race sees that the PUT has settled. -/
def wakeUp : Option (StreamUpload Failure) :=
  match state.phase with
  | .draining =>
      if state.drained || state.putResult.isSome then
        match state.putResult with
        | some (some _) => some { state with ended := true, phase := .settling false }
        | _ => some { state with phase := .reading }
      else none
  | _ => none

def discard (error : UploadError Failure) : StreamUpload Failure :=
  { state with phase := .deleting error, events := state.events ++ [.delete] }

/-- The error is thrown, after a delete where the PUT has succeeded. -/
def abandon (error : UploadError Failure) (putFailure : Option Failure) : StreamUpload Failure :=
  match putFailure with
  | none => state.discard error
  | some _ => { state with phase := .finished (.error error) }

/-- What follows `await putSettled`. -/
def settled : Option (StreamUpload Failure) :=
  match state.putSettled with
  | none => none
  | some putFailure =>
      match state.phase with
      | .failing error => some (state.abandon (.thrown error) putFailure)
      | .settling true => some (state.abandon (.fileTooLarge call.maxBytes) putFailure)
      | .settling false =>
          match putFailure with
          | some error => some { state with phase := .finished (.error (.thrown error)) }
          | none =>
              some { state with phase := .finished (.ok ⟨state.total, sha256 state.hashed⟩) }
      | _ => none

def putResolves : Option (StreamUpload Failure) :=
  if state.putSettled.isNone && state.ended && state.buffered.isEmpty then
    some { state with
      putSettled := some none
      stored := some (call.target.piped blockCipher state.taken).flatten
      iv := call.target.iv
      events := state.events ++ [.putResolved] }
  else none

def next : StreamAction Failure → Option (StreamUpload Failure)
  | .read accepted => state.readChunk call accepted
  | .finish => state.sourceEnds call
  | .drain =>
      match state.phase, state.drained with
      | .draining, false => some { state with drained := true }
      | _, _ => none
  | .wake => state.wakeUp
  | .record =>
      if state.putSettled.isSome && state.putResult.isNone then
        some { state with putResult := state.putSettled }
      else none
  | .settle => state.settled sha256 call
  | .deleted =>
      match state.phase with
      | .deleting error => some { state with phase := .finished (.error error) }
      | _ => none
  | .take count =>
      if 0 < count && count ≤ state.buffered.length then
        some { state with
          taken := state.taken ++ [state.buffered.take count]
          buffered := state.buffered.drop count }
      else none
  | .resolve => state.putResolves blockCipher call
  | .reject error =>
      if state.putSettled.isNone then
        some { state with
          putSettled := some (some error), events := state.events ++ [.putRejected] }
      else none

end StreamUpload

/-- `uploadStream`, with the PUT and the sink. -/
def uploadStream (sha256 : List UInt8 → String)
    (blockCipher : Key → List UInt8 → Fin 16 → UInt8) (call : UploadCall Key Failure) :
    Machine (StreamUpload Failure) (StreamAction Failure) where
  initial state := state = .start call
  next state action := state.next sha256 blockCipher call action

/-! ## The ingress of content -/

structure ContentIngressResult where
  size : Nat
  sha256 : String
  encryptionIv : Option (List UInt8)
  deriving DecidableEq, Repr

namespace ContentIngressService

def requireMasterKey (masterKey : Option Key) : Except String Key :=
  match masterKey with
  | none => .error "ENCRYPTED namespace master key missing"
  | some key => .ok key

/-- The target of `upload`; `drawn` are the bytes of `randomBytes` in the `put` of the target. -/
def target (masterKey : Option Key) (encrypted : Bool) (drawn : List UInt8) :
    Except String (PutTarget Key) :=
  if encrypted then (requireMasterKey masterKey).map fun key => .encrypting key drawn
  else .ok .storage

def getIv (iv : Option (List UInt8)) : Except String (List UInt8) :=
  match iv with
  | none => .error "put()을 호출하기 전에는 IV가 없음"
  | some iv => .ok iv

/-- What `upload` makes of a result of `uploadStream`. -/
def result (target : PutTarget Key) (iv : Option (List UInt8)) (uploaded : StreamedUpload) :
    Except String ContentIngressResult :=
  match target with
  | .storage => .ok ⟨uploaded.size, uploaded.sha256, none⟩
  | .encrypting _ _ => (getIv iv).map fun iv => ⟨uploaded.size, uploaded.sha256, some iv⟩

end ContentIngressService

end Storix
