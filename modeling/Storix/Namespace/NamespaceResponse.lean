import Storix.Persistence.Entities

/-! # Namespace rows and their responses

The row of a namespace with the columns that its response shows, and the limits of the
server that answers. -/

namespace Storix

inductive EncryptionPolicy
  | none
  | encrypted
  deriving DecidableEq, Repr

inductive AccessPolicy
  | privateAccess
  | publicAccess
  deriving DecidableEq, Repr

/-- A prefix that the caller may choose, and a UUID without its hyphens. -/
structure NamespaceId where
  idPrefix : Option JsString
  uuid : Uuid
  deriving DecidableEq

structure NamespaceEntity where
  id : NamespaceId
  name : Option JsString
  encryptionPolicy : EncryptionPolicy
  accessPolicy : AccessPolicy
  status : NamespaceStatus
  trashEnabled : Bool
  maxFileSizeBytes : Option Nat
  maxFilesPerFolder : Option Nat
  maxLiveNodes : Option Nat
  maxTotalLogicalBytes : Option Nat
  maxRetainedTrashBytes : Option Nat
  liveFileByteCount : Nat
  retainedSnapshotByteCount : Nat
  retainedTrashByteCount : Nat
  retainedTrashNodeCount : Nat
  excludeTrashFromQuota : Bool
  excludeSnapshotsFromQuota : Bool
  createdAt : Nat
  updatedAt : Nat
  deriving DecidableEq

structure NamespaceGlobalLimits where
  defaultMaxFileSizeBytes : Nat
  maxFileSizeBytes : Nat
  defaultMaxTotalLogicalBytes : Nat
  maxTotalLogicalBytes : Nat
  maxRetainedTrashNodes : Nat
  defaultMaxFilesPerFolder : Nat
  maxFilesPerFolder : Nat
  defaultMaxLiveNodes : Nat
  maxLiveNodes : Nat
  deriving DecidableEq

structure NamespaceResponse where
  id : NamespaceId
  name : Option JsString
  encryptionPolicy : EncryptionPolicy
  accessPolicy : AccessPolicy
  status : NamespaceStatus
  createdAt : Nat
  updatedAt : Nat
  maxFileSizeBytes : Nat
  maxFilesPerFolder : Nat
  maxNodes : Nat
  limitBytes : Nat
  usedBytes : Nat
  liveBytes : Nat
  trashBytes : Nat
  snapshotBytes : Nat
  enforcedBytes : Nat
  excludeTrash : Bool
  excludeSnapshots : Bool
  trashIsEnabled : Bool
  retainedNodeCount : Nat
  maxRetainedNodes : Nat
  maxRetainedBytes : Nat
  deriving DecidableEq

/-- The largest value of a `bigint` column. -/
def MAX_SQLITE_AND_POSTGRES_BIGINT : Nat := 9223372036854775807

/-- `parsePositiveLimit` on a decimal number. -/
def parsePositiveLimit (value : Nat) : Option Nat :=
  if value = 0 ∨ MAX_SQLITE_AND_POSTGRES_BIGINT < value then none else some value

def resolveNamespaceQuota (namespaceLimit : Option Nat) (ceilingBytes defaultBytes : Nat) :
    Option Nat :=
  match namespaceLimit with
  | none => some defaultBytes
  | some limit => (parsePositiveLimit limit).map fun bytes => min bytes ceilingBytes

def resolveCountOverride (override : Option Nat) (fallback ceiling : Nat) : Nat :=
  match override with
  | none => fallback
  | some value => min value ceiling

def resolveTotalLogicalBytes (live snapshot trash : Nat) : Option Nat :=
  if MAX_SQLITE_AND_POSTGRES_BIGINT < live + snapshot + trash then none
  else some (live + snapshot + trash)

def resolveEnforcedLogicalBytes (live trash snapshot : Nat) (excludeTrash excludeSnapshots : Bool) :
    Nat :=
  live + (if excludeTrash then 0 else trash) + (if excludeSnapshots then 0 else snapshot)

/-- `Number.MAX_SAFE_INTEGER` bounds the count of the retained nodes. -/
def toSafeRetainedNodeCount (count : Nat) : Option Nat :=
  if 9007199254740991 < count then none else some count

/-- The response of a namespace; nothing where the source throws. -/
def toNamespaceResponse (entity : NamespaceEntity) (globalLimits : NamespaceGlobalLimits) :
    Option NamespaceResponse := do
  let limitBytes ← resolveNamespaceQuota entity.maxTotalLogicalBytes
    globalLimits.maxTotalLogicalBytes globalLimits.defaultMaxTotalLogicalBytes
  let usedBytes ← resolveTotalLogicalBytes entity.liveFileByteCount
    entity.retainedSnapshotByteCount entity.retainedTrashByteCount
  let retainedNodeCount ← toSafeRetainedNodeCount entity.retainedTrashNodeCount
  return {
    id := entity.id
    name := entity.name
    encryptionPolicy := entity.encryptionPolicy
    accessPolicy := entity.accessPolicy
    status := entity.status
    createdAt := entity.createdAt
    updatedAt := entity.updatedAt
    maxFileSizeBytes := resolveCountOverride entity.maxFileSizeBytes
      globalLimits.defaultMaxFileSizeBytes globalLimits.maxFileSizeBytes
    maxFilesPerFolder := resolveCountOverride entity.maxFilesPerFolder
      globalLimits.defaultMaxFilesPerFolder globalLimits.maxFilesPerFolder
    maxNodes := resolveCountOverride entity.maxLiveNodes
      globalLimits.defaultMaxLiveNodes globalLimits.maxLiveNodes
    limitBytes := limitBytes
    usedBytes := usedBytes
    liveBytes := entity.liveFileByteCount
    trashBytes := entity.retainedTrashByteCount
    snapshotBytes := entity.retainedSnapshotByteCount
    enforcedBytes := resolveEnforcedLogicalBytes entity.liveFileByteCount
      entity.retainedTrashByteCount entity.retainedSnapshotByteCount
      entity.excludeTrashFromQuota entity.excludeSnapshotsFromQuota
    excludeTrash := entity.excludeTrashFromQuota
    excludeSnapshots := entity.excludeSnapshotsFromQuota
    trashIsEnabled := entity.trashEnabled
    retainedNodeCount := retainedNodeCount
    maxRetainedNodes := globalLimits.maxRetainedTrashNodes
    maxRetainedBytes :=
      match entity.maxRetainedTrashBytes with
      | none => limitBytes
      | some bytes => min bytes globalLimits.maxTotalLogicalBytes }

end Storix
