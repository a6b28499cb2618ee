import Storix.Persistence.UploadSessions
import Mathlib.Data.Finset.Card
import Mathlib.Data.PNat.Basic

/-! # What the status of an upload session says

The policy of a namespace, and the diagnosis that a status request makes of a session and
its parts: whether all parts are stored, and whether the missing ones would be admitted. -/

namespace Storix

/-! ## Policy -/

/-- The limits of all namespaces together, and what a new session is given. -/
structure UploadSessionGlobalPolicy extends UploadSessionLimits where
  partSizeBytes : ℕ+
  inactivitySeconds : ℕ+
  maxLifetimeSeconds : ℕ+

structure UploadSessionNamespacePolicy extends UploadSessionLimits where
  partSizeBytes : Option ℕ+

structure UploadSessionPolicy where
  globalPolicy : UploadSessionGlobalPolicy
  namespaces : Nat → Option UploadSessionNamespacePolicy

structure ResolvedUploadSessionPolicy where
  caps : UploadPolicyCaps
  effectiveMaxStagedBytes : Int
  partSizeBytes : ℕ+
  inactivitySeconds : ℕ+
  maxLifetimeSeconds : ℕ+

def resolveUploadSessionPolicy (policy : UploadSessionPolicy) (namespaceId : Nat) :
    ResolvedUploadSessionPolicy :=
  let globalLimits := policy.globalPolicy.toUploadSessionLimits
  let namespaceLimits :=
    ((policy.namespaces namespaceId).map
      UploadSessionNamespacePolicy.toUploadSessionLimits).getD globalLimits
  { caps := ⟨globalLimits, namespaceLimits⟩
    effectiveMaxStagedBytes :=
      effectiveMaxStagedBytes globalLimits.maxStagedBytes namespaceLimits.maxStagedBytes
    partSizeBytes :=
      ((policy.namespaces namespaceId).bind UploadSessionNamespacePolicy.partSizeBytes).getD
        policy.globalPolicy.partSizeBytes
    inactivitySeconds := policy.globalPolicy.inactivitySeconds
    maxLifetimeSeconds := policy.globalPolicy.maxLifetimeSeconds }

def ResolvedUploadSessionPolicy.plan (policy : ResolvedUploadSessionPolicy) (sizeBytes now : Nat) :
    Option NewUploadSessionPlan :=
  planNewUploadSession sizeBytes policy.partSizeBytes policy.inactivitySeconds
    policy.maxLifetimeSeconds now

/-! ## Diagnosis -/

inductive UploadSessionStagingStatus
  | partsStored
  | partsInProgress
  | fileTooLarge
  | withinLimit
  deriving DecidableEq, Repr

structure UploadSessionStaging where
  maxStagedBytes : Int
  status : UploadSessionStagingStatus
  deriving DecidableEq

structure UploadSessionStagingDiagnosis where
  expired : Bool
  staging : Option UploadSessionStaging
  deriving DecidableEq

structure PartIndices where
  stored : Finset Nat
  reserved : Finset Nat

/-- The lease of a `RESERVED` part is not over. -/
def UploadPart.reservedAt (part : UploadPart) (now : Nat) : Bool :=
  part.state == .reserved && part.leaseExpiresAt.any fun expiresAt => decide (now < expiresAt)

namespace PartIndices

/-- One turn of the loop. `Number.isSafeInteger` is tested before the range. -/
def add (partCount now : Nat) (indices : PartIndices) (part : UploadPart) : PartIndices :=
  if 9007199254740991 < part.partIndex ∨ partCount ≤ part.partIndex then indices
  else
    { stored :=
        if part.state = .stored then insert part.partIndex indices.stored else indices.stored
      reserved :=
        if part.reservedAt now then insert part.partIndex indices.reserved else indices.reserved }

def ofParts (partCount now : Nat) (parts : List UploadPart) : PartIndices :=
  parts.foldl (add partCount now) ⟨∅, ∅⟩

end PartIndices

def stagingStatus (session : UploadSession) (parts : List UploadPart)
    (policy : ResolvedUploadSessionPolicy) (now : Nat) : UploadSessionStagingStatus :=
  let indices := PartIndices.ofParts session.partCount now parts
  let reservedMissing := (indices.reserved.filter fun index => index ∉ indices.stored).card
  if indices.stored.card = session.partCount then .partsStored
  else if indices.stored.card + reservedMissing = session.partCount then .partsInProgress
  else if policy.effectiveMaxStagedBytes < session.sizeBytes then .fileTooLarge
  else .withinLimit

def diagnoseUploadSessionStaging (session : UploadSession) (parts : List UploadPart)
    (policy : Option ResolvedUploadSessionPolicy) (now : Nat) : UploadSessionStagingDiagnosis :=
  let expired := decide (session.state = .opened ∧
    (session.expiresAt ≤ now ∨ session.maxExpiresAt ≤ now))
  match policy with
  | none => ⟨expired, none⟩
  | some policy =>
      if session.state ≠ .opened ∨ expired then ⟨expired, none⟩
      else
        ⟨expired, some ⟨policy.effectiveMaxStagedBytes, stagingStatus session parts policy now⟩⟩

/-- The parts of `findStatusSnapshot`. -/
def UploadTables.statusParts (tables : UploadTables) (sessionId : Nat) : List UploadPart :=
  (tables.parts.filter fun part => part.sessionId == sessionId).insertionSort
    fun left right => left.partIndex ≤ right.partIndex

def UploadSessionStagingDiagnosis.status (diagnosis : UploadSessionStagingDiagnosis) :
    Option UploadSessionStagingStatus :=
  diagnosis.staging.map UploadSessionStaging.status

/-! ## What the loop finds -/

namespace PartIndices

variable {partCount now : Nat} {parts : List UploadPart}

def Counts (partCount : Nat) (part : UploadPart) : Prop :=
  part.partIndex ≤ 9007199254740991 ∧ part.partIndex < partCount

theorem mem_add {indices : PartIndices} {part : UploadPart} {index : Nat} :
    (index ∈ (add partCount now indices part).stored ↔
      index ∈ indices.stored ∨
        Counts partCount part ∧ part.state = .stored ∧ part.partIndex = index) ∧
      (index ∈ (add partCount now indices part).reserved ↔
        index ∈ indices.reserved ∨
          Counts partCount part ∧ part.reservedAt now = true ∧ part.partIndex = index) := by
  rw [add]
  split
  · rename_i isOut
    have ignored : ¬ Counts partCount part := by
      rw [Counts]
      omega
    simp [ignored]
  · rename_i isIn
    have counted : Counts partCount part := by
      rw [Counts]
      omega
    constructor
    · by_cases stored : part.state = .stored
      · simp [stored, counted, eq_comm, or_comm]
      · simp [stored]
    · by_cases reserved : part.reservedAt now = true
      · simp [reserved, counted, eq_comm, or_comm]
      · simp [reserved]

theorem mem_foldl {σ ρ : Type} (turn : σ → ρ → σ) (set : σ → Finset Nat) {adds : ρ → Nat → Prop}
    (mem_turn : ∀ state row index,
      index ∈ set (turn state row) ↔ index ∈ set state ∨ adds row index)
    (rows : List ρ) (state : σ) (index : Nat) :
    index ∈ set (rows.foldl turn state) ↔
      index ∈ set state ∨ ∃ row ∈ rows, adds row index := by
  induction rows generalizing state with
  | nil => simp
  | cons row rest induction =>
      rw [List.foldl_cons, induction, mem_turn]
      simp [or_assoc]

theorem mem_stored {index : Nat} :
    index ∈ (ofParts partCount now parts).stored ↔
      ∃ part ∈ parts, Counts partCount part ∧ part.state = .stored ∧ part.partIndex = index := by
  rw [ofParts, mem_foldl (add partCount now) PartIndices.stored fun _ _ _ => mem_add.1]
  simp

theorem mem_reserved {index : Nat} :
    index ∈ (ofParts partCount now parts).reserved ↔
      ∃ part ∈ parts, Counts partCount part ∧ part.reservedAt now = true ∧
        part.partIndex = index := by
  rw [ofParts, mem_foldl (add partCount now) PartIndices.reserved fun _ _ _ => mem_add.2]
  simp

theorem stored_subset : (ofParts partCount now parts).stored ⊆ Finset.range partCount := by
  intro index member
  have ⟨part, _, counts, _, isIndex⟩ := mem_stored.mp member
  rw [Finset.mem_range, ← isIndex]
  exact counts.2

theorem reserved_subset : (ofParts partCount now parts).reserved ⊆ Finset.range partCount := by
  intro index member
  have ⟨part, _, counts, _, isIndex⟩ := mem_reserved.mp member
  rw [Finset.mem_range, ← isIndex]
  exact counts.2

end PartIndices

/-- A set of indices below a bound has all of them as soon as it has that many. -/
theorem card_eq_iff_range {indices : Finset Nat} {bound : Nat}
    (below : indices ⊆ Finset.range bound) :
    indices.card = bound ↔ ∀ index < bound, index ∈ indices := by
  constructor
  · intro full index isBelow
    have same : indices = Finset.range bound := by
      apply Finset.eq_of_subset_of_card_le below
      rw [Finset.card_range, full]
    rw [same, Finset.mem_range]
    exact isBelow
  · intro all
    have same : indices = Finset.range bound := by
      apply Finset.Subset.antisymm below
      intro index member
      exact all index (Finset.mem_range.mp member)
    rw [same, Finset.card_range]

/-! ## What the status says of the parts -/

section Status

variable {session : UploadSession} {parts : List UploadPart} {now : Nat}

def StoredAt (parts : List UploadPart) (index : Nat) : Prop :=
  ∃ part ∈ parts, part.state = .stored ∧ part.partIndex = index

/-- A row of the list reserves this part, and its lease is not over. -/
def ReservedAt (parts : List UploadPart) (now index : Nat) : Prop :=
  ∃ part ∈ parts, part.reservedAt now = true ∧ part.partIndex = index

theorem mem_stored_iff (bounded : session.partCount ≤ MAX_PART_COUNT) {index : Nat}
    (inRange : index < session.partCount) :
    index ∈ (PartIndices.ofParts session.partCount now parts).stored ↔ StoredAt parts index := by
  rw [PartIndices.mem_stored, StoredAt]
  constructor
  · intro ⟨part, member, _, found⟩
    exact ⟨part, member, found⟩
  · intro ⟨part, member, stored, isIndex⟩
    rw [MAX_PART_COUNT] at bounded
    have counts : PartIndices.Counts session.partCount part := by
      rw [PartIndices.Counts]
      omega
    exact ⟨part, member, counts, stored, isIndex⟩

theorem mem_reserved_iff (bounded : session.partCount ≤ MAX_PART_COUNT) {index : Nat}
    (inRange : index < session.partCount) :
    index ∈ (PartIndices.ofParts session.partCount now parts).reserved ↔
      ReservedAt parts now index := by
  rw [PartIndices.mem_reserved, ReservedAt]
  constructor
  · intro ⟨part, member, _, found⟩
    exact ⟨part, member, found⟩
  · intro ⟨part, member, reserved, isIndex⟩
    rw [MAX_PART_COUNT] at bounded
    have counts : PartIndices.Counts session.partCount part := by
      rw [PartIndices.Counts]
      omega
    exact ⟨part, member, counts, reserved, isIndex⟩

theorem allStored_iff (bounded : session.partCount ≤ MAX_PART_COUNT) :
    (PartIndices.ofParts session.partCount now parts).stored.card = session.partCount ↔
      ∀ index < session.partCount, StoredAt parts index := by
  rw [card_eq_iff_range PartIndices.stored_subset]
  apply forall₂_congr
  intro index inRange
  exact mem_stored_iff bounded inRange

theorem allTaken_iff (bounded : session.partCount ≤ MAX_PART_COUNT) :
    (PartIndices.ofParts session.partCount now parts).stored.card +
        ((PartIndices.ofParts session.partCount now parts).reserved.filter fun index =>
          index ∉ (PartIndices.ofParts session.partCount now parts).stored).card =
      session.partCount ↔
      ∀ index < session.partCount, StoredAt parts index ∨ ReservedAt parts now index := by
  let indices := PartIndices.ofParts session.partCount now parts
  let missing := indices.reserved.filter fun index => index ∉ indices.stored
  have disjoint : Disjoint indices.stored missing := by
    rw [Finset.disjoint_right]
    intro index member
    exact (Finset.mem_filter.mp member).2
  have below : indices.stored ∪ missing ⊆ Finset.range session.partCount := by
    apply Finset.union_subset PartIndices.stored_subset
    exact (Finset.filter_subset _ _).trans PartIndices.reserved_subset
  change indices.stored.card + missing.card = session.partCount ↔ _
  rw [← Finset.card_union_of_disjoint disjoint, card_eq_iff_range below]
  apply forall₂_congr
  intro index inRange
  rw [Finset.mem_union, Finset.mem_filter, mem_stored_iff bounded inRange,
    mem_reserved_iff bounded inRange]
  tauto

theorem diagnose_status (session : UploadSession) (parts : List UploadPart)
    (policy : ResolvedUploadSessionPolicy) (now : Nat) :
    (diagnoseUploadSessionStaging session parts (some policy) now).status =
      if session.isOpen now then some (stagingStatus session parts policy now) else none := by
  rw [diagnoseUploadSessionStaging]
  by_cases isOpen : session.isOpen now = true
  · have facts := isOpen
    simp only [UploadSession.isOpen, Bool.and_eq_true, beq_iff_eq, decide_eq_true_eq] at facts
    have notExpired : ¬ (session.expiresAt ≤ now ∨ session.maxExpiresAt ≤ now) := by omega
    simp [facts.1.1, notExpired, isOpen, UploadSessionStagingDiagnosis.status]
  · have facts := isOpen
    simp only [UploadSession.isOpen, Bool.and_eq_true, beq_iff_eq, decide_eq_true_eq] at facts
    have closed : session.state ≠ .opened ∨
        session.state = .opened ∧ (session.expiresAt ≤ now ∨ session.maxExpiresAt ≤ now) := by
      by_cases opened : session.state = .opened
      · simp only [opened, true_and] at facts
        right
        exact ⟨opened, by omega⟩
      · exact .inl opened
    simp [closed, isOpen, UploadSessionStagingDiagnosis.status]

theorem stagingStatus_cases (bounded : session.partCount ≤ MAX_PART_COUNT)
    (parts : List UploadPart) (policy : ResolvedUploadSessionPolicy) (now : Nat) :
    (stagingStatus session parts policy now = .partsStored ∧
        ∀ index < session.partCount, StoredAt parts index) ∨
      (stagingStatus session parts policy now = .partsInProgress ∧
        (∀ index < session.partCount, StoredAt parts index ∨ ReservedAt parts now index) ∧
        ∃ index < session.partCount, ¬ StoredAt parts index) ∨
      (stagingStatus session parts policy now = .fileTooLarge ∧
        policy.effectiveMaxStagedBytes < session.sizeBytes ∧
        ∃ index < session.partCount, ¬ StoredAt parts index ∧ ¬ ReservedAt parts now index) ∨
      (stagingStatus session parts policy now = .withinLimit ∧
        session.sizeBytes ≤ policy.effectiveMaxStagedBytes ∧
        ∃ index < session.partCount, ¬ StoredAt parts index ∧ ¬ ReservedAt parts now index) := by
  dsimp only [stagingStatus]
  by_cases stored : ∀ index < session.partCount, StoredAt parts index
  · exact .inl ⟨if_pos ((allStored_iff bounded).mpr stored), stored⟩
  · rw [if_neg fun all => stored ((allStored_iff bounded).mp all)]
    push Not at stored
    by_cases taken : ∀ index < session.partCount,
        StoredAt parts index ∨ ReservedAt parts now index
    · exact .inr (.inl ⟨if_pos ((allTaken_iff bounded).mpr taken), taken, stored⟩)
    · rw [if_neg fun all => taken ((allTaken_iff bounded).mp all)]
      push Not at taken
      by_cases large : policy.effectiveMaxStagedBytes < session.sizeBytes
      · exact .inr (.inr (.inl ⟨if_pos large, large, taken⟩))
      · exact .inr (.inr (.inr ⟨if_neg large, by omega, taken⟩))

end Status

/-! ## Planned lengths -/

section Lengths

variable {sizeBytes partSizeBytes : Nat}

/-- The parts before the last one end inside the file, and the last one ends with it. -/
theorem partCount_bounds (positive : 0 < partSizeBytes) (index : Nat)
    (inRange : index < (sizeBytes + partSizeBytes - 1) / partSizeBytes) :
    index * partSizeBytes < sizeBytes ∧
      sizeBytes ≤ (sizeBytes + partSizeBytes - 1) / partSizeBytes * partSizeBytes := by
  have before := (Nat.le_div_iff_mul_le positive).mp (Nat.succ_le_of_lt inRange)
  have after : sizeBytes + partSizeBytes - 1 <
      (sizeBytes + partSizeBytes - 1) / partSizeBytes * partSizeBytes + partSizeBytes :=
    Nat.lt_div_mul_add positive
  rw [Nat.succ_mul] at before
  omega

theorem expectedPartSize_bounds (positive : 0 < partSizeBytes) {index : Nat}
    (inRange : index < (sizeBytes + partSizeBytes - 1) / partSizeBytes) :
    0 < expectedPartSize sizeBytes partSizeBytes
        ((sizeBytes + partSizeBytes - 1) / partSizeBytes) index ∧
      expectedPartSize sizeBytes partSizeBytes
        ((sizeBytes + partSizeBytes - 1) / partSizeBytes) index ≤ partSizeBytes := by
  have ⟨before, after⟩ := partCount_bounds positive index inRange
  rw [expectedPartSize]
  split
  · rename_i isLast
    rw [← isLast, Nat.succ_mul] at after
    omega
  · omega

theorem sum_expectedPartSize (positive : 0 < partSizeBytes) :
    ((List.range ((sizeBytes + partSizeBytes - 1) / partSizeBytes)).map
      (expectedPartSize sizeBytes partSizeBytes
        ((sizeBytes + partSizeBytes - 1) / partSizeBytes))).sum = sizeBytes := by
  cases isCount : (sizeBytes + partSizeBytes - 1) / partSizeBytes with
  | zero =>
      have few := (Nat.div_eq_zero_iff.mp isCount).resolve_left (by omega)
      have empty : sizeBytes = 0 := by omega
      simp [empty]
  | succ last =>
      have isBelow : last < (sizeBytes + partSizeBytes - 1) / partSizeBytes := by omega
      have ⟨before, _⟩ := partCount_bounds positive last isBelow
      have full : (List.range last).map (expectedPartSize sizeBytes partSizeBytes (last + 1)) =
          List.replicate last partSizeBytes := by
        apply List.eq_replicate_iff.mpr
        constructor
        · simp
        · intro length member
          have ⟨index, isBefore, isLength⟩ := List.mem_map.mp member
          rw [expectedPartSize, if_neg] at isLength
          · exact isLength.symm
          · have := List.mem_range.mp isBefore
            omega
      rw [List.range_succ, List.map_append, List.sum_append, full, List.sum_replicate_nat,
        List.map_singleton, List.sum_singleton, expectedPartSize, if_pos rfl]
      omega

end Lengths

end Storix
