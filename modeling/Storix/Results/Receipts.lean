import Storix.Invariants.Receipts
import Storix.Results.Tables

/-! # One effect for one mutation key

A receipt becomes complete together with the commit of its mutation or after a rollback,
so as long as it is there no other mutation with the key commits. Generations keep an
owner whose claim was taken from writing, as long as no generation comes back. -/

namespace Storix

open Foundation

variable {host : Host} {settings : ReceiptSettings} {requests : Nat → ReceiptRequest host}
  {system next : ReceiptSystem} {action : ReceiptAction host}

/-! ## Complete receipts -/

/-- The receipts that became complete and are not yet deleted as expired: none while the
key is free or claimed, and the stored one while the receipt is complete. -/
structure ReceiptBooks (requests : Nat → ReceiptRequest host) (system : ReceiptSystem) : Prop where
  absent : system.row = none → system.epoch = []
  reserved : ∀ receipt, system.row = some receipt → receipt.state = .reserved → system.epoch = []
  complete : ∀ receipt, system.row = some receipt → receipt.state = .complete →
    ∃ completion, system.epoch = [completion] ∧ completion ∈ system.history ∧
      Stores receipt completion.method completion.fingerprint completion.response
  kinds : ∀ completion ∈ system.history,
    completion.applied = true ↔ completion.response.status < 400
  answers : ∀ id response, system.phase id = .answered response → response.status < 400 →
    ∃ completion ∈ system.history, completion.applied = true ∧ completion.response = response ∧
      completion.method = (requests id).method ∧
      completion.fingerprint = (requests id).fingerprint

theorem after_quiet {id : Nat} {performed : Performed} {phase : ReceiptPhase}
    (completed : performed.completed = none) :
    (system.after requests id performed phase).history = system.history ∧
    (system.after requests id performed phase).epoch =
      ReceiptSystem.remains system.row performed.row system.epoch := by
  unfold ReceiptSystem.after
  rw [completed]
  exact ⟨rfl, rfl⟩

theorem remains_of_some {old : ReceiptRow} {receipt : VfsMutationReceipt}
    (epoch : List Completion) : ReceiptSystem.remains old (some receipt) epoch = epoch := by
  simp [ReceiptSystem.remains]

theorem remains_self (row : ReceiptRow) (epoch : List Completion) :
    ReceiptSystem.remains row row epoch = epoch := by
  unfold ReceiptSystem.remains
  cases row with
  | none => rfl
  | some receipt => simp

theorem after_answer {id other : Nat} {performed : Performed} {phase : ReceiptPhase}
    (isPhase : phase = performed.phase ∨ phase = (system.phase id).interrupted)
    {response : ReceiptResponse}
    (answered : (system.after requests id performed phase).phase other = .answered response) :
    system.phase other = .answered response ∨
      other = id ∧ performed.phase = .answered response := by
  change Function.update system.phase id phase other = _ at answered
  by_cases same : other = id
  · subst same
    rw [Function.update_self] at answered
    rcases isPhase with rfl | rfl
    · exact .inr ⟨rfl, answered⟩
    · exact .inl ((Retreats.interrupted _).answer response answered)
  · rw [Function.update_of_ne same] at answered
    exact .inl answered

namespace ReceiptBooks

theorem of_history (books : ReceiptBooks requests system)
    (history : next.history = system.history)
    (answers : ∀ id response, next.phase id = .answered response → response.status < 400 →
      system.phase id = .answered response ∨
        ∃ completion ∈ system.history, completion.response = response ∧
          completion.method = (requests id).method ∧
          completion.fingerprint = (requests id).fingerprint)
    (absent : next.row = none → next.epoch = [])
    (reserved : ∀ receipt, next.row = some receipt → receipt.state = .reserved → next.epoch = [])
    (complete : ∀ receipt, next.row = some receipt → receipt.state = .complete →
      system.row = some receipt ∧ next.epoch = system.epoch) :
    ReceiptBooks requests next where
  absent := absent
  reserved := reserved
  complete := by
    intro receipt isRow isComplete
    rcases complete receipt isRow isComplete with ⟨sameRow, sameEpoch⟩
    rw [history, sameEpoch]
    exact books.complete receipt sameRow isComplete
  kinds := by
    rw [history]
    exact books.kinds
  answers := by
    intro id response answered success
    rw [history]
    rcases answers id response answered success with before | ⟨completion, isMember, same, rest⟩
    · exact books.answers id response before success
    · refine ⟨completion, isMember, ?_, same, rest⟩
      exact (books.kinds completion isMember).mpr (same ▸ success)

theorem of_row (books : ReceiptBooks requests system) (sameRow : next.row = system.row)
    (history : next.history = system.history) (epoch : next.epoch = system.epoch)
    (answers : ∀ id response, next.phase id = .answered response → response.status < 400 →
      system.phase id = .answered response ∨
        ∃ completion ∈ system.history, completion.response = response ∧
          completion.method = (requests id).method ∧
          completion.fingerprint = (requests id).fingerprint) :
    ReceiptBooks requests next := by
  refine books.of_history history answers ?_ ?_ ?_
  · rw [sameRow, epoch]
    exact books.absent
  · rw [sameRow, epoch]
    exact books.reserved
  · rw [sameRow, epoch]
    exact fun receipt isRow _ => ⟨isRow, rfl⟩

/-- An answer that a request reads from a complete receipt is the stored one. -/
theorem replayed (books : ReceiptBooks requests system) {id : Nat} {response : ReceiptResponse}
    {receipt : VfsMutationReceipt} (isRow : system.row = some receipt)
    (isComplete : receipt.state = .complete)
    (method : receipt.method = some (requests id).method)
    (fingerprint : receipt.fingerprint = some (requests id).fingerprint)
    (status : response.status = receipt.responseStatus.getD 0)
    (body : response.body = receipt.responseBody.getD [])
    (headers : response.headers = receipt.responseHeaders.getD []) :
    ∃ completion ∈ system.history, completion.response = response ∧
      completion.method = (requests id).method ∧
      completion.fingerprint = (requests id).fingerprint := by
  rcases books.complete receipt isRow isComplete with ⟨completion, _, isMember, stores⟩
  rw [stores.status, Option.getD_some] at status
  rw [stores.body, Option.getD_some] at body
  rw [stores.headers, Option.getD_some] at headers
  refine ⟨completion, isMember, ?_, ?_, ?_⟩
  · rcases response with ⟨_, _, _⟩
    dsimp only at status body headers
    rw [status, body, headers]
  · exact Option.some.inj (stores.method.symm.trans method)
  · exact Option.some.inj (stores.fingerprint.symm.trans fingerprint)

theorem performed (books : ReceiptBooks requests system) {id : Nat} {performed : Performed}
    (effect : Effect (requests id) system.clock system.db system.row (system.phase id) performed)
    {phase : ReceiptPhase}
    (isPhase : phase = performed.phase ∨ phase = (system.phase id).interrupted) :
    ReceiptBooks requests (system.after requests id performed phase) := by
  have silent : (∀ response, performed.phase ≠ .answered response) →
      ∀ other response,
        (system.after requests id performed phase).phase other = .answered response →
        response.status < 400 → system.phase other = .answered response ∨
          ∃ completion ∈ system.history, completion.response = response ∧
            completion.method = (requests other).method ∧
            completion.fingerprint = (requests other).fingerprint := by
    intro noAnswer other response answered _
    rcases after_answer isPhase answered with before | ⟨_, isAnswer⟩
    · exact .inl before
    · exact absurd isAnswer (noAnswer response)
  have isRow : (system.after requests id performed phase).row = performed.row := rfl
  cases effect with
  | kept sameDb sameRow completed claimed answer held reread =>
      have parts := @after_quiet _ requests system id performed phase completed
      have epoch := parts.2
      rw [sameRow, remains_self] at epoch
      refine books.of_row sameRow parts.1 epoch fun other response answered success => ?_
      rcases after_answer isPhase answered with before | ⟨rfl, isAnswer⟩
      · exact .inl before
      · rcases answer response isAnswer with conflict | ⟨receipt, isReceipt, isComplete, method,
          fingerprint, status, body, headers⟩
        · rw [conflict] at success
          exact absurd success (by decide)
        · exact .inr (books.replayed isReceipt isComplete method fingerprint status body headers)
  | inserted isNone receipt isReceipt reserved first isOwner attempt claiming few sameDb
      completed claimed =>
      have parts := @after_quiet _ requests system id performed phase completed
      have epoch := parts.2
      rw [isReceipt, remains_of_some, books.absent isNone] at epoch
      refine books.of_history parts.1 (silent (by simp [isOwner])) ?_ ?_ ?_
      · exact fun _ => epoch
      · exact fun _ _ _ => epoch
      · intro other isOther isComplete
        rw [isRow, isReceipt] at isOther
        cases isOther
        rw [reserved] at isComplete
        cases isComplete
  | tookOver old receipt isOld oldReserved isReceipt reserved later isReread attempt claiming ranOut
      sameDb completed claimed =>
      have parts := @after_quiet _ requests system id performed phase completed
      have epoch := parts.2
      rw [isReceipt, remains_of_some, books.reserved old isOld oldReserved] at epoch
      have noAnswer : ∀ response, performed.phase ≠ .answered response := by
        intro response isAnswer
        rw [isAnswer] at isReread
        cases isReread
      refine books.of_history parts.1 (silent noAnswer) ?_ ?_ ?_
      · exact fun _ => epoch
      · exact fun _ _ _ => epoch
      · intro other isOther isComplete
        rw [isRow, isReceipt] at isOther
        cases isOther
        rw [reserved] at isComplete
        cases isComplete
  | discarded old isOld oldComplete attempt isDiscarding expired gone later sameDb completed
      claimed =>
      have parts := @after_quiet _ requests system id performed phase completed
      have epoch := parts.2
      have isComplete := VfsMutationReceipt.isComplete_iff.mpr oldComplete
      rw [gone, isOld, ReceiptSystem.remains, if_pos (by simpa using isComplete)] at epoch
      refine books.of_history parts.1 (silent (by simp [later])) ?_ ?_ ?_
      · exact fun _ => epoch
      · exact fun _ _ _ => epoch
      · intro other isOther
        rw [isRow, gone] at isOther
        cases isOther
  | released old isOld oldReserved holds gone later sameDb completed claimed =>
      have parts := @after_quiet _ requests system id performed phase completed
      have epoch := parts.2
      have notComplete : old.isComplete = false := by
        simp [VfsMutationReceipt.isComplete, oldReserved]
      rw [gone, isOld, ReceiptSystem.remains, if_neg (by simp [notComplete]),
        books.reserved old isOld oldReserved] at epoch
      refine books.of_history parts.1 (silent (by simp [later])) ?_ ?_ ?_
      · exact fun _ => epoch
      · exact fun _ _ _ => epoch
      · intro other isOther
        rw [isRow, gone] at isOther
        cases isOther
  | completed old receipt isOld oldReserved holds isReceipt same applied response stores isAnswer
      completed status unchanged claimed =>
      have history : (system.after requests id performed phase).history =
          ⟨id, applied, (requests id).method, (requests id).fingerprint, response⟩ ::
            system.history := by
        unfold ReceiptSystem.after
        rw [completed]
        rfl
      have epoch : (system.after requests id performed phase).epoch =
          [⟨id, applied, (requests id).method, (requests id).fingerprint, response⟩] := by
        unfold ReceiptSystem.after
        rw [completed, isReceipt]
        dsimp only
        rw [remains_of_some, books.reserved old isOld oldReserved]
        rfl
      rw [isReceipt] at isRow
      refine ⟨?_, ?_, ?_, ?_, ?_⟩
      · intro isNone
        rw [isRow] at isNone
        cases isNone
      · intro other isOther isReserved
        rw [isRow] at isOther
        cases isOther
        rw [stores.state] at isReserved
        cases isReserved
      · intro other isOther _
        rw [isRow] at isOther
        cases isOther
        exact ⟨_, epoch, history ▸ List.mem_cons_self, stores⟩
      · rw [history]
        intro completion isMember
        rcases List.mem_cons.mp isMember with rfl | earlier
        · exact status
        · exact books.kinds completion earlier
      · intro other told answered success
        rw [history]
        rcases after_answer isPhase answered with before | ⟨rfl, isTold⟩
        · rcases books.answers other told before success with ⟨completion, isMember, rest⟩
          exact ⟨completion, List.mem_cons_of_mem _ isMember, rest⟩
        · rw [isAnswer] at isTold
          cases isTold
          exact ⟨_, List.mem_cons_self, status.mpr success, rfl, rfl, rfl⟩

theorem step (books : ReceiptBooks requests system)
    (taken : ReceiptStep requests system next action) : ReceiptBooks requests next := by
  cases taken with
  | quiet sameRow history epoch superseded phases =>
      exact books.of_row sameRow history epoch fun id response answered _ =>
        .inl ((phases id).answer response answered)
  | renewed id old receipt isOld oldReserved holds isRow reserved same history epoch superseded
      phases =>
      have isEmpty := books.reserved old isOld oldReserved
      refine books.of_history history
        (fun id response answered _ => .inl ((phases id).answer response answered)) ?_ ?_ ?_
      · rw [isRow]
        exact nofun
      · exact fun _ _ _ => epoch.trans isEmpty
      · intro other isOther isComplete
        rw [isRow] at isOther
        cases isOther
        rw [reserved] at isComplete
        cases isComplete
  | pruned now isAction old isOld gone expired history epoch superseded phases =>
      refine books.of_history history (fun id response answered _ => .inl (phases ▸ answered))
        (fun _ => ?_) ?_ ?_
      · rw [epoch]
        split
        · rfl
        · rename_i notComplete
          refine books.reserved old isOld ?_
          cases isState : old.state with
          | reserved => rfl
          | complete => exact absurd isState notComplete
      · rw [gone]
        exact nofun
      · rw [gone]
        exact nofun
  | performed id fate isAction tookEffect performed effect phase isPhase isNext =>
      rw [isNext]
      exact books.performed effect isPhase

theorem of_reachable (reached : (receiptMachine settings requests).Reachable system) :
    ReceiptBooks requests system := by
  refine reached.invariant (ReceiptBooks requests) (fun system initial => ?_)
    fun system action next _ books taken =>
    books.step (receiptStep taken)
  refine ⟨fun _ => initial.epoch, fun _ _ _ => initial.epoch, ?_, ?_, ?_⟩
  · rw [initial.row]
    exact nofun
  · rw [initial.history]
    exact nofun
  · intro id response answered
    rw [initial.phase id] at answered
    cases answered

end ReceiptBooks

def ReceiptAction.expiry (requests : Nat → ReceiptRequest host) (system : ReceiptSystem) :
    ReceiptAction host → Option Nat
  | .statement id _ =>
      match system.phase id with
      | .discarding _ => some (requests id).now
      | _ => none
  | .prune now => some now
  | _ => none

/-- No clock that the step reads has come to the expiry of the receipt. -/
def Unexpired (requests : Nat → ReceiptRequest host) (receipt : VfsMutationReceipt)
    (system : ReceiptSystem) (action : ReceiptAction host) : Prop :=
  ∀ now, action.expiry requests system = some now → now < receipt.expiresAt

/-- A complete receipt stays until it has expired, and nothing else becomes complete. -/
theorem ReceiptStep.stays {receipt : VfsMutationReceipt} (isRow : system.row = some receipt)
    (isComplete : receipt.state = .complete) (unexpired : Unexpired requests receipt system action)
    (taken : ReceiptStep requests system next action) :
    next.row = some receipt ∧ next.history = system.history ∧ next.epoch = system.epoch := by
  have notReserved : ∀ old, system.row = some old → old.state = .reserved → False := by
    intro old isOld reserved
    rw [isRow] at isOld
    cases isOld
    rw [isComplete] at reserved
    cases reserved
  cases taken with
  | quiet sameRow history epoch superseded phases => exact ⟨sameRow.trans isRow, history, epoch⟩
  | renewed id old receipt isOld oldReserved holds isNext reserved same history epoch superseded
      phases => exact (notReserved old isOld oldReserved).elim
  | pruned now isAction old isOld gone expired history epoch superseded phases =>
      rw [isRow] at isOld
      cases isOld
      have early := unexpired now (isAction ▸ rfl)
      exact absurd (expired isComplete) (Nat.not_le.mpr early)
  | performed id fate isAction tookEffect performed effect phase isPhase isNext =>
      subst isNext
      cases effect with
      | kept sameDb sameRow completed claimed answer held reread =>
          have parts := @after_quiet _ requests system id performed phase completed
          have epoch := parts.2
          rw [sameRow, remains_self] at epoch
          exact ⟨sameRow.trans isRow, parts.1, epoch⟩
      | inserted isNone receipt isReceipt reserved first isOwner attempt claiming few sameDb
          completed claimed =>
          rw [isRow] at isNone
          cases isNone
      | tookOver old receipt isOld oldReserved isReceipt reserved later isReread attempt
          claiming ranOut
          sameDb completed claimed => exact (notReserved old isOld oldReserved).elim
      | discarded old isOld oldComplete attempt isDiscarding expired gone later sameDb completed
          claimed =>
          rw [isRow] at isOld
          cases isOld
          have reads : action.expiry requests system = some (requests id).now := by
            rw [isAction, ReceiptAction.expiry, isDiscarding]
          exact absurd expired (Nat.not_le.mpr (unexpired _ reads))
      | released old isOld oldReserved holds gone later sameDb completed claimed =>
          exact (notReserved old isOld oldReserved).elim
      | completed old receipt isOld oldReserved holds isReceipt same applied response stores
          isAnswer completed status unchanged claimed =>
          exact (notReserved old isOld oldReserved).elim

namespace Small

def receiptSettings : ReceiptSettings where
  leaseMs := 60000
  receiptBody := fun _ _ requestId => requestId
  errorBody := fun _ requestId => requestId

/-- All requests want to make `/d`, each with its own clock. -/
def makeDirectory (clocks : Nat → Nat) (id : Nat) : ReceiptRequest Host.counting where
  method := [0x50]
  fingerprint := [0x66]
  requestId := []
  requestBodyBytes := none
  now := clocks id
  parseError := none
  mutation := .mkdir directory false
  respond := fun _ => ⟨201, [], []⟩
  succeeds := fun _ => by decide

def receiptStart : ReceiptSystem where
  db := empty
  row := none
  clock := 0
  phase := fun _ => .inserting 0
  history := []
  epoch := []
  superseded := fun _ => false

theorem reachable_receiptStart (requests : Nat → ReceiptRequest Host.counting) :
    (receiptMachine receiptSettings requests).Reachable receiptStart :=
  .start ⟨rfl, fun _ => rfl, rfl, rfl, fun _ => rfl⟩

end Small

/-- No two owners hold one generation, and an owner whose claim was taken cannot write:
its renewals return false, its completions throw and its release deletes nothing. -/
def GenerationsFence (settings : ReceiptSettings) (system : ReceiptSystem) : Prop :=
  (∀ left right generation, left ≠ right → (system.phase left).held = some generation →
    (system.phase right).held ≠ some generation) ∧
  ∀ id generation, system.superseded id = true → (system.phase id).held = some generation →
    system.row.renew settings.leaseMs system.clock generation = (system.row, false) ∧
    (∀ fingerprint method response requestBodyBytes,
      system.row.completeWith system.clock generation fingerprint method response
        requestBodyBytes = (system.row, false)) ∧
    system.row.release generation = system.row

/-- The generation that the next statement of a request gives to the row, when it claims
the row: one for a new row, and one more for a claim whose lease has run out. -/
def claimedGeneration (system : ReceiptSystem) : ReceiptPhase → Option Nat
  | .inserting attempt =>
      if attempt < MAX_CLAIM_ATTEMPTS ∧ system.row = none then some 1 else none
  | .takingOver _ =>
      (system.row.filter fun receipt =>
        receipt.isReserved && receipt.leaseExpired system.clock).map fun receipt =>
          receipt.generation + 1
  | _ => none

/-- A statement that takes effect gives the row a generation only while no other unfinished
request holds that generation or waits to read its own. -/
def ClaimsAlone (system : ReceiptSystem) (action : ReceiptAction host) : Prop :=
  ∀ id fate generation, action = .statement id fate → fate ≠ .failed →
    claimedGeneration system (system.phase id) = some generation →
    ∀ other, other ≠ id → (system.phase other).held ≠ some generation ∧
      (system.phase other).isRereading = false

/-- What keeps the generations apart: a request that took the claim over reads the
generation that it wrote. -/
structure Apart (system : ReceiptSystem) : Prop where
  owners : ∀ left right generation, left ≠ right → (system.phase left).held = some generation →
    (system.phase right).held ≠ some generation
  reading : ∀ id, (system.phase id).isRereading = true → ∀ other, other ≠ id →
    (system.phase other).isRereading = false ∧
      ∀ receipt, system.row = some receipt →
        (system.phase other).held ≠ some receipt.generation
  fenced : ∀ id generation receipt, system.superseded id = true →
    (system.phase id).held = some generation → system.row = some receipt →
    receipt.generation ≠ generation

namespace Apart

/-- A step that claims nothing: holders stay or give up, and the row keeps its generation
or goes. -/
theorem of_retreat (apart : Apart system)
    (held : ∀ id, (next.phase id).held = none ∨ (next.phase id).held = (system.phase id).held)
    (reread : ∀ id, (next.phase id).isRereading = true → (system.phase id).isRereading = true)
    (row : ∀ receipt, next.row = some receipt → ∃ old, system.row = some old ∧
      receipt.generation = old.generation)
    (superseded : ∀ id, next.superseded id = true → system.superseded id = true) :
    Apart next := by
  have holds : ∀ {id generation}, (next.phase id).held = some generation →
      (system.phase id).held = some generation := by
    intro id generation isHeld
    rcases held id with none | same
    · rw [none] at isHeld
      cases isHeld
    · exact same ▸ isHeld
  refine ⟨?_, ?_, ?_⟩
  · intro left right generation different isLeft isRight
    exact apart.owners left right generation different (holds isLeft) (holds isRight)
  · intro id isReading other different
    rcases apart.reading id (reread id isReading) other different with ⟨waits, free⟩
    refine ⟨?_, ?_⟩
    · rw [← Bool.not_eq_true]
      intro again
      rw [reread other again] at waits
      cases waits
    · intro receipt isRow isHeld
      rcases row receipt isRow with ⟨old, isOld, same⟩
      exact free old isOld (same ▸ holds isHeld)
  · intro id generation receipt isSuperseded isHeld isRow
    rcases row receipt isRow with ⟨old, isOld, same⟩
    rw [same]
    exact apart.fenced id generation old (superseded id isSuperseded) (holds isHeld) isOld

section After

variable {id : Nat} {performed : Performed} {phase : ReceiptPhase}

theorem after_self : (system.after requests id performed phase).phase id = phase :=
  Function.update_self _ _ _

theorem after_of_ne {other : Nat} (different : other ≠ id) :
    (system.after requests id performed phase).phase other = system.phase other :=
  Function.update_of_ne different _ _

theorem held_after (isPhase : phase = performed.phase ∨ phase = (system.phase id).interrupted)
    (held : performed.phase.held = none ∨ performed.phase.held = (system.phase id).held)
    (other : Nat) :
    ((system.after requests id performed phase).phase other).held = none ∨
      ((system.after requests id performed phase).phase other).held =
        (system.phase other).held := by
  by_cases same : other = id
  · subst same
    rw [after_self]
    rcases isPhase with rfl | rfl
    · exact held
    · exact (Retreats.interrupted _).held
  · rw [after_of_ne same]
    exact .inr rfl

theorem reread_after (isPhase : phase = performed.phase ∨ phase = (system.phase id).interrupted)
    (reread : performed.phase.isRereading = false) (other : Nat)
    (isReading : ((system.after requests id performed phase).phase other).isRereading = true) :
    (system.phase other).isRereading = true := by
  by_cases same : other = id
  · subst same
    rw [after_self] at isReading
    rcases isPhase with rfl | rfl
    · rw [reread] at isReading
      cases isReading
    · exact (Retreats.interrupted _).reread isReading
  · rw [after_of_ne same] at isReading
    exact isReading

theorem superseded_after (claimed : performed.claimed = false) (other : Nat)
    (isSuperseded : (system.after requests id performed phase).superseded other = true) :
    system.superseded other = true := by
  unfold ReceiptSystem.after at isSuperseded
  simp only [claimed, Bool.false_and, Bool.or_false, Bool.and_eq_true] at isSuperseded
  exact isSuperseded.2

theorem owners_after (apart : Apart system) {own : Nat}
    (held : phase.held = none ∨ phase.held = some own)
    (free : ∀ other, other ≠ id → (system.phase other).held ≠ some own) :
    ∀ left right generation, left ≠ right →
      ((system.after requests id performed phase).phase left).held = some generation →
      ((system.after requests id performed phase).phase right).held ≠ some generation := by
  intro left right generation different isLeft isRight
  have isOwn : ∀ {generation : Nat}, phase.held = some generation → generation = own := by
    intro generation isHeld
    rcases held with none | isOwn
    · rw [none] at isHeld
      cases isHeld
    · exact Option.some.inj (isHeld.symm.trans isOwn)
  by_cases leftSame : left = id
  · subst leftSame
    rw [after_self] at isLeft
    rw [after_of_ne (Ne.symm different)] at isRight
    exact free right (Ne.symm different) (isOwn isLeft ▸ isRight)
  · rw [after_of_ne leftSame] at isLeft
    by_cases rightSame : right = id
    · subst rightSame
      rw [after_self] at isRight
      exact free left leftSame (isOwn isRight ▸ isLeft)
    · rw [after_of_ne rightSame] at isRight
      exact apart.owners left right generation different isLeft isRight

theorem claimed (apart : Apart system) {receipt : VfsMutationReceipt}
    (isRow : performed.row = some receipt) (fresh : (system.phase id).held = none)
    (held : phase.held = none ∨ phase.held = some receipt.generation)
    (alone : ∀ other, other ≠ id → (system.phase other).held ≠ some receipt.generation ∧
      (system.phase other).isRereading = false) :
    Apart (system.after requests id performed phase) := by
  have row : (system.after requests id performed phase).row = some receipt := isRow
  refine ⟨?_, ?_, ?_⟩
  · exact apart.owners_after held fun other different => (alone other different).1
  · intro reader isReading other different
    by_cases same : reader = id
    · subst same
      rw [after_of_ne different, row]
      refine ⟨(alone other different).2, ?_⟩
      rintro found ⟨⟩
      exact (alone other different).1
    · rw [after_of_ne same, (alone reader same).2] at isReading
      cases isReading
  · intro other generation found isSuperseded isHeld isFound
    rw [row] at isFound
    cases isFound
    by_cases same : other = id
    · subst same
      unfold ReceiptSystem.after at isSuperseded
      simp [fresh] at isSuperseded
    · rw [after_of_ne same] at isHeld
      rintro rfl
      exact (alone other same).1 isHeld

/-- A request that reads the generation it wrote becomes the only owner of it. -/
theorem reread (apart : Apart system) (isReading : (system.phase id).isRereading = true)
    {receipt : VfsMutationReceipt} (isRow : system.row = some receipt)
    (sameRow : performed.row = system.row) (notReading : phase.isRereading = false)
    (held : phase.held = none ∨ phase.held = some receipt.generation)
    (unclaimed : performed.claimed = false) :
    Apart (system.after requests id performed phase) := by
  have row : (system.after requests id performed phase).row = some receipt :=
    sameRow.trans isRow
  have fresh : (system.phase id).held = none := by
    cases isPhase : system.phase id with
    | rereading attempt => rfl
    | _ =>
        rw [isPhase] at isReading
        cases isReading
  have free : ∀ other, other ≠ id → (system.phase other).held ≠ some receipt.generation :=
    fun other different => (apart.reading id isReading other different).2 receipt isRow
  have nobody : ∀ other, ((system.after requests id performed phase).phase other).isRereading =
      false := by
    intro other
    by_cases same : other = id
    · subst same
      rw [after_self]
      exact notReading
    · rw [after_of_ne same]
      exact (apart.reading id isReading other same).1
  refine ⟨?_, ?_, ?_⟩
  · exact apart.owners_after held free
  · intro reader isReader
    rw [nobody reader] at isReader
    cases isReader
  · intro other generation found isSuperseded isHeld isFound
    rw [row] at isFound
    cases isFound
    by_cases same : other = id
    · subst same
      unfold ReceiptSystem.after at isSuperseded
      simp [fresh] at isSuperseded
    · rw [after_of_ne same] at isHeld
      exact apart.fenced other generation receipt (superseded_after unclaimed other isSuperseded)
        isHeld isRow

end After

theorem performed (apart : Apart system) {id : Nat} {performed : Performed}
    (effect : Effect (requests id) system.clock system.db system.row (system.phase id) performed)
    {phase : ReceiptPhase}
    (isPhase : phase = performed.phase ∨ phase = (system.phase id).interrupted)
    (alone : ∀ generation, claimedGeneration system (system.phase id) = some generation →
      ∀ other, other ≠ id → (system.phase other).held ≠ some generation ∧
        (system.phase other).isRereading = false) :
    Apart (system.after requests id performed phase) := by
  have sameRow : performed.row = system.row → ∀ receipt,
      (system.after requests id performed phase).row = some receipt →
        ∃ old, system.row = some old ∧ receipt.generation = old.generation :=
    fun same receipt isRow => ⟨receipt, same ▸ isRow, rfl⟩
  have noRow : performed.row = none → ∀ receipt,
      (system.after requests id performed phase).row = some receipt →
        ∃ old, system.row = some old ∧ receipt.generation = old.generation := by
    intro gone receipt isRow
    change performed.row = some receipt at isRow
    rw [gone] at isRow
    cases isRow
  cases effect with
  | kept sameDb same completed claimed answer held reread =>
      rcases held with none | unchanged | ⟨isReading, receipt, isRow, isHeld⟩
      · exact apart.of_retreat (held_after isPhase (.inl none)) (reread_after isPhase reread)
          (sameRow same) (superseded_after claimed)
      · exact apart.of_retreat (held_after isPhase (.inr unchanged)) (reread_after isPhase reread)
          (sameRow same) (superseded_after claimed)
      · have gone : ∀ phase : ReceiptPhase, phase.isRereading = true →
            phase.interrupted = .threw := by
          intro phase isReading
          cases phase with
          | rereading attempt => rfl
          | _ => cases isReading
        rcases isPhase with rfl | rfl
        · exact apart.reread isReading isRow same reread (.inr isHeld) claimed
        · rw [gone _ isReading]
          exact apart.reread isReading isRow same rfl (.inl rfl) claimed
  | inserted isNone receipt isRow reserved first isOwner attempt claiming few sameDb completed
      claimed =>
      have isClaimed : claimedGeneration system (system.phase id) = some 1 := by
        rw [claiming, claimedGeneration, if_pos ⟨few, isNone⟩]
      refine apart.claimed isRow (by rw [claiming]; rfl) ?_ (first ▸ alone 1 isClaimed)
      rcases isPhase with rfl | rfl
      · rw [isOwner, first]
        exact .inr rfl
      · rw [claiming]
        exact .inl rfl
  | tookOver old receipt isOld oldReserved isRow reserved later isReread attempt claiming ranOut
      sameDb completed claimed =>
      have isClaimed : claimedGeneration system (system.phase id) = some receipt.generation := by
        have isReserved := VfsMutationReceipt.isReserved_iff.mpr oldReserved
        rw [claiming, claimedGeneration, isOld, later]
        simp [isReserved, ranOut]
      refine apart.claimed isRow (by rw [claiming]; rfl) (.inl ?_) (alone _ isClaimed)
      rcases isPhase with rfl | rfl
      · cases isPhase : performed.phase with
        | rereading attempt => rfl
        | _ =>
            rw [isPhase] at isReread
            cases isReread
      · rw [claiming]
        rfl
  | discarded old isOld oldComplete attempt isDiscarding expired gone later sameDb completed
      claimed =>
      exact apart.of_retreat (held_after isPhase (.inl (by rw [later]; rfl)))
        (reread_after isPhase (by rw [later]; rfl)) (noRow gone) (superseded_after claimed)
  | released old isOld oldReserved holds gone later sameDb completed claimed =>
      exact apart.of_retreat (held_after isPhase (.inl (by rw [later]; rfl)))
        (reread_after isPhase (by rw [later]; rfl)) (noRow gone) (superseded_after claimed)
  | completed old receipt isOld oldReserved holds isRow same applied response stores isAnswer
      completed status unchanged claimed =>
      refine apart.of_retreat (held_after isPhase (.inl (by rw [isAnswer]; rfl)))
        (reread_after isPhase (by rw [isAnswer]; rfl)) ?_ (superseded_after claimed)
      intro found isFound
      change performed.row = some found at isFound
      rw [isRow] at isFound
      cases isFound
      exact ⟨old, isOld, same⟩

theorem step (apart : Apart system) (alone : ClaimsAlone system action)
    (taken : ReceiptStep requests system next action) : Apart next := by
  cases taken with
  | quiet sameRow history epoch superseded phases =>
      refine apart.of_retreat (fun id => (phases id).held) (fun id => (phases id).reread) ?_ ?_
      · exact fun receipt isRow => ⟨receipt, sameRow ▸ isRow, rfl⟩
      · rw [superseded]
        exact fun _ same => same
  | renewed id old receipt isOld oldReserved holds isRow reserved same history epoch superseded
      phases =>
      refine apart.of_retreat (fun id => (phases id).held) (fun id => (phases id).reread) ?_ ?_
      · intro found isFound
        rw [isRow] at isFound
        cases isFound
        exact ⟨old, isOld, same⟩
      · rw [superseded]
        exact fun _ same => same
  | pruned now isAction old isOld gone expired history epoch superseded phases =>
      refine apart.of_retreat (fun other => .inr (by rw [phases])) (fun other => ?_) ?_ ?_
      · rw [phases]
        exact fun same => same
      · rw [gone]
        exact nofun
      · rw [superseded]
        exact fun _ same => same
  | performed id fate isAction tookEffect performed effect phase isPhase isNext =>
      rw [isNext]
      exact apart.performed effect isPhase fun generation =>
        alone id fate generation isAction tookEffect

theorem of_reachable
    (reached : (receiptMachine settings requests).ReachableBy ClaimsAlone system) :
    Apart system := by
  refine reached.invariant Apart (fun system initial => ?_)
    fun system action next alone apart taken =>
    apart.step alone (receiptStep taken)
  have free : ∀ id, (system.phase id).held = none := by
    intro id
    rw [initial.phase id]
    rfl
  refine ⟨?_, ?_, ?_⟩
  · intro left right generation _ isLeft
    rw [free left] at isLeft
    cases isLeft
  · intro id isReading
    rw [initial.phase id] at isReading
    cases isReading
  · intro id generation receipt _ isHeld
    rw [free id] at isHeld
    cases isHeld

theorem fence (apart : Apart system) {id generation : Nat}
    (isSuperseded : system.superseded id = true)
    (isHeld : (system.phase id).held = some generation)
    {test : VfsMutationReceipt → Bool}
    (own : ∀ receipt, test receipt = true → receipt.generation = generation) :
    (∀ change, system.row.updateWhere test change = (system.row, false)) ∧
      system.row.deleteWhere test = system.row := by
  have refused : ∀ receipt, system.row = some receipt → test receipt ≠ true :=
    fun receipt isRow passes =>
      apart.fenced id generation receipt isSuperseded isHeld isRow (own receipt passes)
  constructor
  · intro change
    rcases ReceiptRow.updateWhere_eq test change system.row with ⟨receipt, isRow, passes, _⟩ | same
    · exact absurd passes (refused receipt isRow)
    · exact same
  · rcases ReceiptRow.deleteWhere_eq test system.row with ⟨receipt, isRow, passes, _⟩ | same
    · exact absurd passes (refused receipt isRow)
    · exact same

end Apart

theorem generations_fence_when_alone
    (reached : (receiptMachine settings requests).ReachableBy ClaimsAlone system) :
    GenerationsFence settings system := by
  have apart := Apart.of_reachable reached
  refine ⟨apart.owners, fun id generation isSuperseded isHeld => ⟨?_, ?_, ?_⟩⟩
  · refine (apart.fence isSuperseded isHeld fun receipt passes => ?_).1 _
    simp only [Bool.and_eq_true, beq_iff_eq] at passes
    exact passes.2
  · intro fingerprint method response requestBodyBytes
    refine (apart.fence isSuperseded isHeld fun receipt passes => ?_).1 _
    simp only [Bool.and_eq_true, beq_iff_eq] at passes
    exact passes.1.2
  · refine (apart.fence isSuperseded isHeld fun receipt passes => ?_).2
    simp only [Bool.and_eq_true, beq_iff_eq] at passes
    exact passes.2

namespace Small

def stepped (system : ReceiptSystem) (action : ReceiptAction Host.counting) : ReceiptSystem :=
  (system.next receiptSettings (makeDirectory fun _ => 0) action).getD system

/-- Request 0 claims the key, its lease runs out, and request 1 finds the claim. -/
def contested : ReceiptSystem :=
  stepped (stepped (stepped receiptStart (.statement 0 .done)) (.tick 60000)) (.statement 1 .done)

def takenOver : ReceiptSystem :=
  stepped (stepped contested (.statement 1 .done)) (.statement 1 .done)

theorem reachable_stepped {system : ReceiptSystem} {action : ReceiptAction Host.counting}
    (reached : (receiptMachine receiptSettings (makeDirectory fun _ => 0)).ReachableBy
      ClaimsAlone system) (alone : ClaimsAlone system action) :
    (receiptMachine receiptSettings (makeDirectory fun _ => 0)).ReachableBy ClaimsAlone
      (stepped system action) := by
  unfold stepped
  cases taken : system.next receiptSettings (makeDirectory fun _ => 0) action with
  | none => exact reached
  | some next => exact .step reached alone taken

theorem alone_of_none {system : ReceiptSystem} {id : Nat} {fate : Fate}
    (unclaimed : claimedGeneration system (system.phase id) = none) :
    ClaimsAlone system (.statement id fate : ReceiptAction Host.counting) := by
  rintro _ _ generation ⟨⟩ _ claimed
  rw [unclaimed] at claimed
  cases claimed

theorem reachable_takenOver :
    (receiptMachine receiptSettings (makeDirectory fun _ => 0)).ReachableBy ClaimsAlone
      takenOver := by
  have first : ClaimsAlone receiptStart (.statement 0 .done : ReceiptAction Host.counting) :=
    fun _ _ _ _ _ _ other _ => ⟨nofun, rfl⟩
  have second : ClaimsAlone contested (.statement 1 .done : ReceiptAction Host.counting) := by
    rintro _ _ generation ⟨⟩ _ claimed other different
    have isTwo : claimedGeneration contested (contested.phase 1) = some 2 := by decide +kernel
    rw [isTwo] at claimed
    cases claimed
    rcases other with _ | _ | other
    · exact ⟨by decide +kernel, by decide +kernel⟩
    · exact absurd rfl different
    · exact ⟨nofun, rfl⟩
  refine reachable_stepped (reachable_stepped ?_ second) (alone_of_none rfl)
  refine reachable_stepped (reachable_stepped (reachable_stepped (.start ?_) first) nofun)
    (alone_of_none (by decide +kernel))
  exact ⟨rfl, fun _ => rfl, rfl, rfl, fun _ => rfl⟩

end Small

/-- After one takeover the two owners hold different generations, and the first one can
no longer renew, complete or release. -/
theorem generations_fence_when_alone_takenOver :
    (Small.takenOver.phase 0).held = some 1 ∧ (Small.takenOver.phase 1).held = some 2 ∧
    Small.takenOver.superseded 0 = true ∧
    Small.takenOver.row.renew 60000 Small.takenOver.clock 1 = (Small.takenOver.row, false) ∧
    Small.takenOver.row.release 1 = Small.takenOver.row := by
  have isSuperseded : Small.takenOver.superseded 0 = true := by decide +kernel
  have isHeld : (Small.takenOver.phase 0).held = some 1 := by decide +kernel
  rcases (generations_fence_when_alone Small.reachable_takenOver).2 0 1 isSuperseded isHeld with
    ⟨renews, _, releases⟩
  exact ⟨isHeld, by decide +kernel, isSuperseded, renews, releases⟩

/-- Two requests take the claim over one after the other before either reads its
generation: both become owners of generation 3. And where a release deletes the row, a new
claim starts at generation 1 again, and the first owner renews the claim of another. -/
theorem generations_come_back :
    (¬∀ system, (receiptMachine Small.receiptSettings (Small.makeDirectory fun _ => 0)).Reachable
        system →
      ∀ left right generation, left ≠ right → (system.phase left).held = some generation →
        (system.phase right).held ≠ some generation) ∧
    ¬∀ system, (receiptMachine Small.receiptSettings (Small.makeDirectory fun _ => 0)).Reachable
        system →
      ∀ id generation, system.superseded id = true →
        (system.phase id).held = some generation →
        system.row.renew Small.receiptSettings.leaseMs system.clock generation =
          (system.row, false) := by
  constructor
  · intro claim
    have passes : (((receiptMachine Small.receiptSettings (Small.makeDirectory fun _ => 0)).trace
        Small.receiptStart
        [.statement 0 .done, .tick 60000, .statement 1 .done, .statement 1 .done, .tick 60000,
          .statement 2 .done, .statement 2 .done, .statement 1 .done, .statement 2 .done]).any
            fun system => (system.phase 1).held == some 3 && (system.phase 2).held == some 3) =
        true := by decide +kernel
    rcases Machine.exists_reachable (Small.reachable_receiptStart _) passes with
      ⟨system, reached, test⟩
    rw [Bool.and_eq_true, beq_iff_eq, beq_iff_eq] at test
    exact claim system reached 1 2 3 (by decide) test.1 test.2
  · intro claim
    have passes : (((receiptMachine Small.receiptSettings (Small.makeDirectory fun _ => 0)).trace
        Small.receiptStart
        [.statement 0 .done, .tick 60000, .statement 1 .done, .statement 1 .done,
          .statement 1 .done, .statement 1 .failed, .statement 1 .done, .statement 1 .done,
          .statement 2 .done]).any fun system =>
            system.superseded 0 && (system.phase 0).held == some 1 &&
              (system.row.renew Small.receiptSettings.leaseMs system.clock 1).2) = true := by
      decide +kernel
    rcases Machine.exists_reachable (Small.reachable_receiptStart _) passes with
      ⟨system, reached, test⟩
    rw [Bool.and_eq_true, Bool.and_eq_true, beq_iff_eq] at test
    have refused := claim system reached 0 1 test.1.1 test.1.2
    rw [refused] at test
    exact Bool.false_ne_true test.2

end Storix
