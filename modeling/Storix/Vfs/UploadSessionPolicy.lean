import Mathlib.Algebra.BigOperators.Group.List.Basic
import Mathlib.Data.List.Basic

/-! # The policy of upload sessions

How many parts a session has, how large each is, and whether a part is admitted. -/

namespace Storix

/-! ## Admission -/

structure UploadSessionLimits where
  maxStagedBytes : Int
  maxActiveSessions : Int
  deriving DecidableEq

structure UploadPolicyCaps where
  globalLimits : UploadSessionLimits
  namespaceLimits : UploadSessionLimits
  deriving DecidableEq

def effectiveMaxStagedBytes (globalMax namespaceMax : Int) : Int :=
  if globalMax < namespaceMax then globalMax else namespaceMax

inductive UploadPartAdmission
  | allowed
  | limit
  | fileTooLarge
  deriving DecidableEq, Repr

def assessUploadPartAdmission (sizeBytes amountBytes : Nat) (caps : UploadPolicyCaps)
    (globalStagedBytes namespaceStagedBytes : Int) : UploadPartAdmission :=
  if effectiveMaxStagedBytes caps.globalLimits.maxStagedBytes
      caps.namespaceLimits.maxStagedBytes < sizeBytes then .fileTooLarge
  else if caps.globalLimits.maxStagedBytes < globalStagedBytes + amountBytes then .limit
  else if caps.namespaceLimits.maxStagedBytes < namespaceStagedBytes + amountBytes then .limit
  else .allowed

theorem assessUploadPartAdmission_allowed {sizeBytes amountBytes : Nat} {caps : UploadPolicyCaps}
    {globalStagedBytes namespaceStagedBytes : Int}
    (allowed : assessUploadPartAdmission sizeBytes amountBytes caps globalStagedBytes
      namespaceStagedBytes = .allowed) :
    globalStagedBytes + amountBytes ≤ caps.globalLimits.maxStagedBytes ∧
      namespaceStagedBytes + amountBytes ≤ caps.namespaceLimits.maxStagedBytes := by
  unfold assessUploadPartAdmission at allowed
  split at allowed
  · cases allowed
  · split at allowed
    · cases allowed
    · split at allowed
      · cases allowed
      · omega

/-! ## Parts -/

def MAX_PART_COUNT : Nat := 2147483647

structure NewUploadSessionPlan where
  partSizeBytes : Nat
  partCount : Nat
  expiresAt : Nat
  maxExpiresAt : Nat
  deriving DecidableEq

/-- The fixed values of a new session; `none` for `part-count-overflow`. -/
def planNewUploadSession (sizeBytes partSizeBytes inactivitySeconds maxLifetimeSeconds now : Nat) :
    Option NewUploadSessionPlan :=
  let partCount := (sizeBytes + partSizeBytes - 1) / partSizeBytes
  if MAX_PART_COUNT < partCount then none
  else
    some
      { partSizeBytes := partSizeBytes
        partCount := partCount
        expiresAt := now + inactivitySeconds * 1000
        maxExpiresAt := now + maxLifetimeSeconds * 1000 }

/-- The size that `putPart` expects of a part. The last one takes the rest. -/
def expectedPartSize (sizeBytes partSizeBytes partCount index : Nat) : Nat :=
  if index + 1 = partCount then sizeBytes - index * partSizeBytes else partSizeBytes

end Storix
