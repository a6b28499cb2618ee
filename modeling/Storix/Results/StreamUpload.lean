import Storix.Storage.StreamUpload

/-! # Recorded uploads are true

An upload returns exactly when its source ended well within the cap and the PUT succeeded,
and what it returns is true of the stored object. -/

namespace Storix

open Foundation

variable {Key Failure : Type} {sha256 : List UInt8 → String}
  {blockCipher : Key → List UInt8 → Fin 16 → UInt8} {call : UploadCall Key Failure}
  {state next : StreamUpload Failure}

/-! ## The hash of a stream -/

theorem hashChunks_eq_ok {maxBytes : Nat} {failure : Option Failure}
    {chunks : List (List UInt8)} {size : Nat} {hashed : List UInt8} {uploaded : StreamedUpload}
    (fits : size ≤ maxBytes) :
    hashChunks sha256 maxBytes failure chunks size hashed = .ok uploaded ↔
      failure = none ∧ size + chunks.flatten.length ≤ maxBytes ∧
        uploaded = ⟨size + chunks.flatten.length, sha256 (hashed ++ chunks.flatten)⟩ := by
  induction chunks generalizing size hashed with
  | nil =>
      cases failure with
      | none => simp [hashChunks, fits, eq_comm]
      | some error => simp [hashChunks]
  | cons chunk rest induction =>
      rw [hashChunks]
      split
      case isTrue exceeds =>
        simp only [List.flatten_cons, List.length_append]
        constructor
        · intro isOk
          cases isOk
        · intro ⟨_, within, _⟩
          omega
      case isFalse within =>
        rw [induction (by omega)]
        simp only [List.flatten_cons, List.length_append, Nat.add_assoc, List.append_assoc]

theorem hashStream_eq_ok {source : UploadSource Failure} {maxBytes : Nat}
    {uploaded : StreamedUpload} :
    hashStream sha256 source maxBytes = .ok uploaded ↔
      source.failure = none ∧ source.chunks.flatten.length ≤ maxBytes ∧
        uploaded = ⟨source.chunks.flatten.length, sha256 source.chunks.flatten⟩ := by
  rw [hashStream, hashChunks_eq_ok (Nat.zero_le _), Nat.zero_add, List.nil_append]

/-! ## What holds of an upload -/

namespace StreamUpload

def putEvents : Option (Option Failure) → List StorageEvent
  | none => []
  | some none => [.putResolved]
  | some (some _) => [.putRejected]

def deleteEvents : StreamPhase Failure → Option (Option Failure) → List StorageEvent
  | .deleting _, _ => [.delete]
  | .finished (.error _), some none => [.delete]
  | _, _ => []

/-- What the phase says of the rest of the upload. While the loop runs, the hash of the whole
source is the hash of what is left of it, from the loop's own values. -/
def Outlook (sha256 : List UInt8 → String) (call : UploadCall Key Failure)
    (state : StreamUpload Failure) : Prop :=
  let hash := hashStream sha256 call.source call.maxBytes
  match state.phase with
  | .reading | .draining =>
      state.ended = false ∧ call.source.chunks = state.written ++ state.rest ∧
        hash = hashChunks sha256 call.maxBytes call.source.failure state.rest state.total
          state.hashed
  | .settling true => state.ended = true ∧ hash = .error (.fileTooLarge call.maxBytes)
  | .settling false =>
      state.ended = true ∧ ((∃ error, state.putSettled = some (some error)) ∨
        call.source.chunks = state.written ∧ hash = .ok ⟨state.total, sha256 state.hashed⟩)
  | .failing error => state.ended = true ∧ hash = .error (.thrown error)
  | .deleting error => state.putSettled = some none ∧ hash = .error error
  | .finished outcome =>
      state.putSettled = some none ∧ outcome = hash ∧
          (∀ uploaded, outcome = .ok uploaded → call.source.chunks = state.written) ∨
        (∃ error, state.putSettled = some (some error)) ∧ ∃ error, outcome = .error error

structure Invariant (sha256 : List UInt8 → String)
    (blockCipher : Key → List UInt8 → Fin 16 → UInt8) (call : UploadCall Key Failure)
    (state : StreamUpload Failure) : Prop where
  inOrder : state.written <+: call.source.chunks
  bytes : state.taken.flatten ++ state.buffered = state.written.flatten
  copied : state.putResult = none ∨ state.putResult = state.putSettled
  object : state.putSettled = some none →
    state.ended = true ∧ state.iv = call.target.iv ∧
      state.stored = some (call.target.object blockCipher state.written.flatten)
  outlook : state.Outlook sha256 call
  log : state.events = putEvents state.putSettled ++ deleteEvents state.phase state.putSettled

theorem Invariant.start : (start call).Invariant sha256 blockCipher call where
  inOrder := List.nil_prefix
  bytes := rfl
  copied := .inl rfl
  object := nofun
  outlook := ⟨rfl, rfl, rfl⟩
  log := rfl

/-! ## Steps -/

section Steps

variable (holds : state.Invariant sha256 blockCipher call)
include holds

theorem Invariant.not_resolved (isOpen : state.ended = false) :
    state.putSettled ≠ some none := by
  intro resolved
  rw [(holds.object resolved).1] at isOpen
  cases isOpen

theorem Invariant.withPhase (phase : StreamPhase Failure)
    (outlook : Outlook sha256 call { state with phase })
    (log : deleteEvents phase state.putSettled = deleteEvents state.phase state.putSettled) :
    Invariant sha256 blockCipher call { state with phase } :=
  { holds with
    outlook
    log := by rw [holds.log, log] }

theorem Invariant.readChunk {accepted : Bool}
    (taken : state.readChunk call accepted = some next) :
    next.Invariant sha256 blockCipher call := by
  have outlook := holds.outlook
  have log := holds.log
  rw [StreamUpload.readChunk] at taken
  split at taken
  case h_1 chunk rest phase isRest =>
    rw [Outlook, phase, isRest, hashChunks] at outlook
    rw [phase] at log
    have ⟨isOpen, split, hash⟩ := outlook
    have pending := holds.not_resolved isOpen
    split at taken
    case isTrue exceeds =>
      cases taken
      rw [if_pos exceeds] at hash
      exact ⟨holds.inOrder, holds.bytes, holds.copied, fun resolved => absurd resolved pending,
        ⟨rfl, hash⟩, log⟩
    case isFalse within =>
      cases taken
      rw [if_neg within] at hash
      have chunks : call.source.chunks = (state.written ++ [chunk]) ++ rest := by
        rw [List.append_assoc]
        exact split
      constructor
      · exact ⟨rest, chunks.symm⟩
      · simp [← holds.bytes]
      · exact holds.copied
      · exact fun resolved => absurd resolved pending
      · cases accepted with
        | true => exact ⟨isOpen, chunks, hash⟩
        | false => exact ⟨isOpen, chunks, hash⟩
      · cases accepted with
        | true => exact log
        | false => exact log
  case h_2 => cases taken

theorem Invariant.sourceEnds (taken : state.sourceEnds call = some next) :
    next.Invariant sha256 blockCipher call := by
  have outlook := holds.outlook
  have log := holds.log
  rw [StreamUpload.sourceEnds] at taken
  split at taken
  case h_1 phase isRest =>
    rw [Outlook, phase, isRest] at outlook
    rw [phase] at log
    have ⟨isOpen, split, hash⟩ := outlook
    have pending := holds.not_resolved isOpen
    cases failure : call.source.failure with
    | none =>
        rw [failure] at taken hash
        cases taken
        exact ⟨holds.inOrder, holds.bytes, holds.copied, fun resolved => absurd resolved pending,
          ⟨rfl, .inr ⟨by simpa using split, hash⟩⟩, log⟩
    | some error =>
        rw [failure] at taken hash
        cases taken
        exact ⟨holds.inOrder, holds.bytes, holds.copied, fun resolved => absurd resolved pending,
          ⟨rfl, hash⟩, log⟩
  case h_2 => cases taken

theorem Invariant.wakeUp (taken : state.wakeUp = some next) :
    next.Invariant sha256 blockCipher call := by
  have outlook := holds.outlook
  have log := holds.log
  rw [StreamUpload.wakeUp] at taken
  split at taken
  case h_1 phase =>
    rw [Outlook, phase] at outlook
    rw [phase] at log
    split at taken
    case isTrue =>
      split at taken
      case h_1 error isResult =>
        cases taken
        have rejected : state.putSettled = some (some error) := by
          rcases holds.copied with absent | same
          · rw [absent] at isResult
            cases isResult
          · rw [← same, isResult]
        refine ⟨holds.inOrder, holds.bytes, holds.copied, ?_, ⟨rfl, .inl ⟨error, rejected⟩⟩, log⟩
        intro resolved
        exact ⟨rfl, (holds.object resolved).2⟩
      case h_2 =>
        cases taken
        apply holds.withPhase .reading
        · exact outlook
        · rw [phase]
          rfl
    case isFalse => cases taken
  case h_2 => cases taken

theorem Invariant.abandon {error : UploadError Failure} {putFailure : Option Failure}
    (settled : state.putSettled = some putFailure)
    (hash : hashStream sha256 call.source call.maxBytes = .error error)
    (noDelete : deleteEvents state.phase state.putSettled = []) :
    (state.abandon error putFailure).Invariant sha256 blockCipher call := by
  cases putFailure with
  | none =>
      refine ⟨holds.inOrder, holds.bytes, holds.copied, holds.object, ⟨settled, hash⟩, ?_⟩
      simp only [StreamUpload.abandon, discard, holds.log, noDelete, List.append_nil]
      rfl
  | some failure =>
      apply holds.withPhase (.finished (.error error))
      · exact Or.inr ⟨⟨failure, settled⟩, error, rfl⟩
      · rw [noDelete, settled]
        rfl

theorem Invariant.settled (taken : state.settled sha256 call = some next) :
    next.Invariant sha256 blockCipher call := by
  have outlook := holds.outlook
  rw [StreamUpload.settled] at taken
  cases settled : state.putSettled with
  | none =>
      rw [settled] at taken
      cases taken
  | some putFailure =>
      rw [settled] at taken
      dsimp only at taken
      split at taken
      case h_1 error phase =>
        cases taken
        rw [Outlook, phase] at outlook
        apply holds.abandon settled outlook.2
        rw [phase]
        rfl
      case h_2 phase =>
        cases taken
        rw [Outlook, phase] at outlook
        apply holds.abandon settled outlook.2
        rw [phase]
        rfl
      case h_3 phase =>
        rw [Outlook, phase] at outlook
        cases putFailure with
        | some error =>
            cases taken
            rw [← settled]
            apply holds.withPhase
            · exact Or.inr ⟨⟨error, settled⟩, _, rfl⟩
            · rw [phase, settled]
              rfl
        | none =>
            cases taken
            rcases outlook.2 with ⟨error, rejected⟩ | ⟨chunks, hash⟩
            · rw [settled] at rejected
              cases rejected
            · rw [← settled]
              apply holds.withPhase
              · exact Or.inl ⟨settled, hash.symm, fun _ _ => chunks⟩
              · rw [phase]
                rfl
      case h_4 => cases taken

theorem Invariant.noDelete (pending : state.putSettled = none) (putFailure : Option Failure) :
    deleteEvents state.phase (some putFailure) = [] ∧
      deleteEvents state.phase state.putSettled = [] := by
  have outlook := holds.outlook
  cases phase : state.phase with
  | reading => exact ⟨rfl, rfl⟩
  | draining => exact ⟨rfl, rfl⟩
  | settling exceeded => exact ⟨rfl, rfl⟩
  | failing error => exact ⟨rfl, rfl⟩
  | deleting error =>
      rw [Outlook, phase] at outlook
      rw [outlook.1] at pending
      cases pending
  | finished outcome =>
      rw [Outlook, phase] at outlook
      rcases outlook with ⟨resolved, _⟩ | ⟨⟨error, rejected⟩, _⟩
      · rw [resolved] at pending
        cases pending
      · rw [rejected] at pending
        cases pending

theorem Invariant.outlook_of_settled {putFailure : Option Failure}
    {stored iv : Option (List UInt8)} {events : List StorageEvent}
    (pending : state.putSettled = none) :
    Outlook sha256 call { state with putSettled := some putFailure, stored, iv, events } := by
  have outlook := holds.outlook
  cases phase : state.phase with
  | reading =>
      simp only [Outlook, phase] at outlook ⊢
      exact outlook
  | draining =>
      simp only [Outlook, phase] at outlook ⊢
      exact outlook
  | settling exceeded =>
      cases exceeded with
      | true =>
          simp only [Outlook, phase] at outlook ⊢
          exact outlook
      | false =>
          simp only [Outlook, phase] at outlook ⊢
          rcases outlook with ⟨ended, ⟨error, rejected⟩ | isHash⟩
          · rw [pending] at rejected
            cases rejected
          · exact ⟨ended, .inr isHash⟩
  | failing error =>
      simp only [Outlook, phase] at outlook ⊢
      exact outlook
  | deleting error =>
      rw [Outlook, phase, pending] at outlook
      exact nomatch outlook.1
  | finished outcome =>
      rw [Outlook, phase, pending] at outlook
      rcases outlook with ⟨resolved, _⟩ | ⟨⟨error, rejected⟩, _⟩
      · cases resolved
      · cases rejected

theorem Invariant.putResolves (taken : state.putResolves blockCipher call = some next) :
    next.Invariant sha256 blockCipher call := by
  rw [StreamUpload.putResolves] at taken
  split at taken
  case isTrue guard =>
    simp only [Bool.and_eq_true, Option.isNone_iff_eq_none, List.isEmpty_iff] at guard
    have ⟨⟨pending, ended⟩, empty⟩ := guard
    have bytes := holds.bytes
    rw [empty, List.append_nil] at bytes
    cases taken
    refine ⟨holds.inOrder, holds.bytes, ?_, ?_, holds.outlook_of_settled pending, ?_⟩
    · left
      rcases holds.copied with absent | same
      · exact absent
      · rw [same, pending]
    · intro _
      refine ⟨ended, rfl, ?_⟩
      simp only [PutTarget.piped_flatten, bytes]
    · simp only [holds.log, (holds.noDelete pending none).2, List.append_nil]
      rw [(holds.noDelete pending none).1, pending]
      rfl
  case isFalse => cases taken

theorem Invariant.step {action : StreamAction Failure}
    (taken : state.next sha256 blockCipher call action = some next) :
    next.Invariant sha256 blockCipher call := by
  cases action with
  | read accepted => exact holds.readChunk taken
  | finish => exact holds.sourceEnds taken
  | wake => exact holds.wakeUp taken
  | settle => exact holds.settled taken
  | resolve => exact holds.putResolves taken
  | drain =>
      rw [StreamUpload.next] at taken
      split at taken
      case h_1 =>
        cases taken
        exact { holds with outlook := holds.outlook }
      case h_2 => cases taken
  | record =>
      rw [StreamUpload.next] at taken
      split at taken
      case isTrue =>
        cases taken
        exact { holds with copied := .inr rfl, outlook := holds.outlook }
      case isFalse => cases taken
  | deleted =>
      rw [StreamUpload.next] at taken
      split at taken
      case h_1 error phase =>
        cases taken
        have outlook := holds.outlook
        rw [Outlook, phase] at outlook
        apply holds.withPhase
        · exact Or.inl ⟨outlook.1, outlook.2.symm, nofun⟩
        · rw [phase, outlook.1]
          rfl
      case h_2 => cases taken
  | take count =>
      rw [StreamUpload.next] at taken
      split at taken
      case isTrue =>
        cases taken
        refine { holds with bytes := ?_, outlook := holds.outlook }
        simp [← holds.bytes]
      case isFalse => cases taken
  | reject error =>
      rw [StreamUpload.next] at taken
      split at taken
      case isTrue guard =>
        have pending := Option.isNone_iff_eq_none.mp guard
        cases taken
        refine ⟨holds.inOrder, holds.bytes, ?_, nofun, holds.outlook_of_settled pending, ?_⟩
        · left
          rcases holds.copied with absent | same
          · exact absent
          · rw [same, pending]
        · simp only [holds.log, (holds.noDelete pending (some error)).2, List.append_nil]
          rw [(holds.noDelete pending (some error)).1, pending]
          rfl
      case isFalse => cases taken

end Steps

theorem Invariant.reachable
    (reached : (uploadStream sha256 blockCipher call).Reachable state) :
    state.Invariant sha256 blockCipher call := by
  apply Machine.ReachableBy.invariant _ _ _ reached
  · intro first isFirst
    rw [isFirst]
    exact .start
  · intro earlier action later _ holds taken
    exact holds.step taken

/-! ## Every upload ends -/

def rank : StreamPhase Failure → Bool → Nat
  | .reading, _ => 4
  | .draining, false => 6
  | .draining, true => 5
  | .settling _, _ => 3
  | .failing _, _ => 3
  | .deleting _, _ => 2
  | .finished _, _ => 1

def fuel (state : StreamUpload Failure) : Nat :=
  4 * state.rest.length + state.rest.flatten.length + state.buffered.length +
    rank state.phase state.drained + state.putSettled.isNone.toNat +
    state.putResult.isNone.toNat

theorem rank_le (phase : StreamPhase Failure) (drained : Bool) : rank phase drained ≤ 6 := by
  cases phase with
  | draining => cases drained <;> simp [rank]
  | _ => simp [rank]

theorem fuel_readChunk {accepted : Bool} (taken : state.readChunk call accepted = some next) :
    next.fuel < state.fuel := by
  rw [readChunk] at taken
  split at taken
  case h_1 chunk rest phase isRest =>
    split at taken
    case isTrue =>
      cases taken
      simp only [fuel, isRest, phase, rank, List.length_cons, List.flatten_cons,
        List.length_append]
      omega
    case isFalse =>
      cases taken
      have now : rank (.reading : StreamPhase Failure) state.drained = 4 := rfl
      have later := rank_le (if accepted then .reading else .draining : StreamPhase Failure) false
      simp only [fuel, isRest, phase, now, List.length_cons, List.flatten_cons,
        List.length_append]
      omega
  case h_2 => cases taken

theorem fuel_sourceEnds (taken : state.sourceEnds call = some next) :
    next.fuel < state.fuel := by
  rw [sourceEnds] at taken
  split at taken
  case h_1 phase isRest =>
    split at taken
    case h_1 =>
      cases taken
      simp [fuel, phase, rank]
    case h_2 =>
      cases taken
      simp [fuel, phase, rank]
  case h_2 => cases taken

theorem fuel_wakeUp (taken : state.wakeUp = some next) : next.fuel < state.fuel := by
  rw [wakeUp] at taken
  split at taken
  case h_1 phase =>
    have waits : 4 < rank (.draining : StreamPhase Failure) state.drained := by
      cases state.drained <;> simp [rank]
    split at taken
    case isTrue =>
      split at taken
      case h_1 =>
        cases taken
        simp only [fuel, phase, rank] at waits ⊢
        omega
      case h_2 =>
        cases taken
        simp only [fuel, phase, rank] at waits ⊢
        omega
    case isFalse => cases taken
  case h_2 => cases taken

theorem fuel_abandon {error : UploadError Failure} {putFailure : Option Failure}
    (waits : 2 < rank state.phase state.drained) :
    (state.abandon error putFailure).fuel < state.fuel := by
  cases putFailure with
  | none =>
      have later : rank (.deleting error) state.drained = 2 := rfl
      simp only [abandon, discard, fuel, later]
      omega
  | some failure =>
      have later : rank (.finished (.error error)) state.drained = 1 := rfl
      simp only [abandon, fuel, later]
      omega

theorem fuel_settled (taken : state.settled sha256 call = some next) :
    next.fuel < state.fuel := by
  rw [settled] at taken
  split at taken
  case h_1 => cases taken
  case h_2 putFailure isSettled =>
    split at taken
    case h_1 error phase =>
      cases taken
      apply fuel_abandon
      simp [phase, rank]
    case h_2 phase =>
      cases taken
      apply fuel_abandon
      simp [phase, rank]
    case h_3 phase =>
      cases putFailure with
      | none =>
          cases taken
          simp [fuel, phase, rank]
      | some error =>
          cases taken
          simp [fuel, phase, rank]
    case h_4 => cases taken

theorem fuel_next {action : StreamAction Failure}
    (taken : state.next sha256 blockCipher call action = some next) :
    next.fuel < state.fuel := by
  cases action with
  | read accepted => exact fuel_readChunk taken
  | finish => exact fuel_sourceEnds taken
  | wake => exact fuel_wakeUp taken
  | settle => exact fuel_settled taken
  | resolve =>
      rw [StreamUpload.next, putResolves] at taken
      split at taken
      case isTrue guard =>
        simp only [Bool.and_eq_true, Option.isNone_iff_eq_none] at guard
        cases taken
        simp [fuel, guard.1.1]
      case isFalse => cases taken
  | drain =>
      rw [StreamUpload.next] at taken
      split at taken
      case h_1 phase drained =>
        cases taken
        simp [fuel, phase, drained, rank]
      case h_2 => cases taken
  | record =>
      rw [StreamUpload.next] at taken
      split at taken
      case isTrue guard =>
        simp only [Bool.and_eq_true, Option.isNone_iff_eq_none, Option.isSome_iff_exists] at guard
        have ⟨⟨putFailure, settled⟩, unset⟩ := guard
        cases taken
        simp [fuel, settled, unset]
      case isFalse => cases taken
  | deleted =>
      rw [StreamUpload.next] at taken
      split at taken
      case h_1 error phase =>
        cases taken
        simp [fuel, phase, rank]
      case h_2 => cases taken
  | take count =>
      rw [StreamUpload.next] at taken
      split at taken
      case isTrue guard =>
        simp only [Bool.and_eq_true, decide_eq_true_eq] at guard
        cases taken
        simp only [fuel, List.length_drop]
        omega
      case isFalse => cases taken
  | reject error =>
      rw [StreamUpload.next] at taken
      split at taken
      case isTrue guard =>
        cases taken
        simp [fuel, guard]
      case isFalse => cases taken

/-- An upload that has not ended waits for a PUT that has not settled, or has a step of its
own to take. -/
theorem next_of_settled (call : UploadCall Key Failure) (state : StreamUpload Failure) :
    (∃ outcome, state.phase = .finished outcome) ∨ state.putSettled = none ∨
      ∃ action : StreamAction Failure, action.ofPut = false ∧
        (state.next sha256 blockCipher call action).isSome := by
  cases isSettled : state.putSettled with
  | none => exact .inr (.inl rfl)
  | some putFailure =>
      cases phase : state.phase with
      | finished outcome => exact .inl ⟨outcome, rfl⟩
      | reading =>
          right
          right
          cases isRest : state.rest with
          | nil =>
              refine ⟨.finish, rfl, ?_⟩
              cases failure : call.source.failure with
              | none => simp [StreamUpload.next, sourceEnds, phase, isRest, failure]
              | some error => simp [StreamUpload.next, sourceEnds, phase, isRest, failure]
          | cons chunk rest =>
              refine ⟨.read true, rfl, ?_⟩
              simp only [StreamUpload.next, readChunk, phase, isRest]
              split <;> rfl
      | draining =>
          right
          right
          cases isResult : state.putResult with
          | none =>
              refine ⟨.record, rfl, ?_⟩
              simp [StreamUpload.next, isSettled, isResult]
          | some result =>
              refine ⟨.wake, rfl, ?_⟩
              cases result with
              | none => simp [StreamUpload.next, wakeUp, phase, isResult]
              | some error => simp [StreamUpload.next, wakeUp, phase, isResult]
      | settling exceeded =>
          refine .inr (.inr ⟨.settle, rfl, ?_⟩)
          cases exceeded with
          | true => simp [StreamUpload.next, settled, isSettled, phase]
          | false =>
              cases putFailure with
              | none => simp [StreamUpload.next, settled, isSettled, phase]
              | some error => simp [StreamUpload.next, settled, isSettled, phase]
      | failing error =>
          refine .inr (.inr ⟨.settle, rfl, ?_⟩)
          simp [StreamUpload.next, settled, isSettled, phase]
      | deleting error =>
          refine .inr (.inr ⟨.deleted, rfl, ?_⟩)
          simp [StreamUpload.next, phase]

theorem written_next {action : StreamAction Failure}
    (taken : state.next sha256 blockCipher call action = some next) :
    next.written = state.written ∨ state.phase = .reading ∧
      ∃ chunk, state.rest = chunk :: next.rest ∧ next.written = state.written ++ [chunk] := by
  cases action with
  | read accepted =>
      rw [StreamUpload.next, readChunk] at taken
      split at taken
      case h_1 chunk rest phase isRest =>
        split at taken
        case isTrue =>
          cases taken
          exact .inl rfl
        case isFalse =>
          cases taken
          exact .inr ⟨phase, chunk, isRest, rfl⟩
      case h_2 => cases taken
  | settle =>
      left
      simp only [StreamUpload.next, settled, abandon, discard] at taken
      grind
  | _ =>
      left
      simp only [StreamUpload.next, sourceEnds, wakeUp, putResolves] at taken
      grind

end StreamUpload

/-! ## Recorded metadata -/

theorem ContentIngressService.result_of_target {masterKey : Option Key} {isEncrypted : Bool}
    {drawn : List UInt8} {target : PutTarget Key}
    (isTarget : ContentIngressService.target masterKey isEncrypted drawn = .ok target)
    (blockCipher : Key → List UInt8 → Fin 16 → UInt8) (uploaded : StreamedUpload)
    (content : List UInt8) :
    ∃ result, ContentIngressService.result target target.iv uploaded = .ok result ∧
      result.size = uploaded.size ∧ result.sha256 = uploaded.sha256 ∧
      (isEncrypted = false →
        result.encryptionIv = none ∧ target.object blockCipher content = content) ∧
      (isEncrypted = true → ∃ key iv, masterKey = some key ∧ result.encryptionIv = some iv ∧
        target.object blockCipher content = encrypted blockCipher key iv content) := by
  cases isEncrypted with
  | false =>
      cases isTarget
      exact ⟨_, rfl, rfl, rfl, fun _ => ⟨rfl, rfl⟩, nofun⟩
  | true =>
      cases masterKey with
      | none => cases isTarget
      | some key =>
          cases isTarget
          exact ⟨_, rfl, rfl, rfl, nofun, fun _ => ⟨key, drawn, rfl, rfl, rfl⟩⟩

/-- What `upload` returns is true of the stored object. -/
theorem recorded_upload_is_true {masterKey : Option Key} {isEncrypted : Bool}
    {drawn : List UInt8} {target : PutTarget Key} {source : UploadSource Failure} {maxBytes : Nat}
    (isTarget : ContentIngressService.target masterKey isEncrypted drawn = .ok target)
    (reached : (uploadStream sha256 blockCipher ⟨source, maxBytes, target⟩).Reachable state) :
    let content := source.chunks.flatten
    let hash := hashStream sha256 source maxBytes
    -- chunks are written in order, each once and none after the end
    state.written <+: source.chunks ∧
    (∀ action next, state.next sha256 blockCipher ⟨source, maxBytes, target⟩ action = some next →
      next.fuel < state.fuel ∧ (next.written = state.written ∨ state.ended = false ∧
        ∃ chunk, state.rest = chunk :: next.rest ∧ next.written = state.written ++ [chunk])) ∧
    -- the upload waits only for a PUT that has not settled
    ((∃ outcome, state.phase = .finished outcome) ∨ state.putSettled = none ∨
      ∃ action : StreamAction Failure, action.ofPut = false ∧
        (state.next sha256 blockCipher ⟨source, maxBytes, target⟩ action).isSome) ∧
    ∀ outcome, state.phase = .finished outcome →
      ((∃ uploaded, outcome = .ok uploaded) ↔
        source.failure = none ∧ content.length ≤ maxBytes ∧ state.putSettled = some none) ∧
      (∀ uploaded, outcome = .ok uploaded →
        state.events = [.putResolved] ∧
        ∃ result, ContentIngressService.result target state.iv uploaded = .ok result ∧
          result.size = content.length ∧ result.sha256 = sha256 content ∧
          (isEncrypted = false → result.encryptionIv = none ∧ state.stored = some content) ∧
          (isEncrypted = true → ∃ key iv, masterKey = some key ∧ result.encryptionIv = some iv ∧
            state.stored = some (encrypted blockCipher key iv content))) ∧
      (∀ error, outcome = .error error → state.putSettled = some none →
        state.events = [.putResolved, .delete]) ∧
      ((∀ error, state.putSettled ≠ some (some error)) → outcome = hash) := by
  have holds := StreamUpload.Invariant.reachable reached
  refine ⟨holds.inOrder, ?_, StreamUpload.next_of_settled _ _, ?_⟩
  · intro action next taken
    refine ⟨StreamUpload.fuel_next taken, ?_⟩
    rcases StreamUpload.written_next taken with same | ⟨phase, chunk, isRest, written⟩
    · exact .inl same
    · have outlook := holds.outlook
      rw [StreamUpload.Outlook, phase] at outlook
      exact .inr ⟨outlook.1, chunk, isRest, written⟩
  · intro outcome phase
    have log := holds.log
    rw [phase] at log
    have outlook := holds.outlook
    rw [StreamUpload.Outlook, phase] at outlook
    rcases outlook with ⟨resolved, isHash, whole⟩ | ⟨⟨failure, rejected⟩, error, isError⟩
    · rw [resolved] at log ⊢
      have ⟨_, iv, stored⟩ := holds.object resolved
      refine ⟨?_, ?_, ?_, fun _ => isHash⟩
      · rw [isHash]
        simp [hashStream_eq_ok]
      · intro uploaded isOk
        have ⟨_, _, isUploaded⟩ := hashStream_eq_ok.mp (isHash ▸ isOk)
        have ⟨result, isResult, size, digest, plain, cipher⟩ :=
          ContentIngressService.result_of_target isTarget blockCipher uploaded
            source.chunks.flatten
        rw [← whole uploaded isOk] at stored
        refine ⟨?_, result, iv ▸ isResult, ?_, ?_, ?_, ?_⟩
        · rw [log, isOk]
          rfl
        · rw [size, isUploaded]
        · rw [digest, isUploaded]
        · intro isPlain
          have ⟨noIv, same⟩ := plain isPlain
          exact ⟨noIv, stored.trans (congrArg some same)⟩
        · intro isCipher
          have ⟨key, iv, hasKey, hasIv, same⟩ := cipher isCipher
          exact ⟨key, iv, hasKey, hasIv, stored.trans (congrArg some same)⟩
      · intro error isError _
        rw [log, isError]
        rfl
    · rw [rejected]
      refine ⟨?_, ?_, nofun, fun notRejected => absurd rfl (notRejected failure)⟩
      · rw [isError]
        simp
      · rw [isError]
        exact nofun

namespace Small

def uploadSource : UploadSource Nat where
  chunks := [[97], [98, 99]]
  failure := none

def uploadCall : UploadCall Unit Nat where
  source := uploadSource
  maxBytes := 3
  target := .storage

/-- The digest of `abc`. -/
def uploadDigest : String := "ba7816bf8f01cfea414140de5dae2223b00361a396177a9cb410ff61f20015ad"

def uploadSha256 (bytes : List UInt8) : String :=
  if bytes = [97, 98, 99] then uploadDigest else ""

end Small

/-- An upload whose sink is full once. -/
theorem recorded_upload_of_three_bytes :
    ∃ state : StreamUpload Nat,
      (uploadStream Small.uploadSha256 (fun _ _ _ => 0) Small.uploadCall).Reachable state ∧
      state.phase = .finished (.ok ⟨3, Small.uploadDigest⟩) ∧
      state.stored = some [97, 98, 99] := by
  have passes : ((uploadStream Small.uploadSha256 (fun _ _ _ => 0) Small.uploadCall).trace
      (.start Small.uploadCall)
      [.read true, .read false, .take 2, .drain, .wake, .take 1, .finish, .resolve, .settle]).any
        (fun state => match state.phase with
          | .finished outcome => outcome.toOption.isSome && state.putSettled == some none
          | _ => false) = true := by decide
  rcases Machine.exists_reachable (.start rfl) passes with ⟨state, reached, test⟩
  have isTarget : ContentIngressService.target (none : Option Unit) false [] = .ok .storage := rfl
  have ⟨_, _, _, recorded⟩ := recorded_upload_is_true isTarget reached
  split at test
  case h_1 outcome phase =>
    rw [Bool.and_eq_true, beq_iff_eq] at test
    have ⟨_, returned, _, same⟩ := recorded outcome phase
    have isOk : outcome = .ok ⟨3, Small.uploadDigest⟩ := by
      rw [same (by simp [test.2])]
      rfl
    have ⟨_, result, _, _, _, plain, _⟩ := returned _ isOk
    exact ⟨state, reached, isOk ▸ phase, (plain rfl).2⟩
  case h_2 => cases test

end Storix
