import Storix.Host
import Storix.Foundation.ParentTree

/-! # Rows

The tables of one namespace. Columns keep their source names; sizes are natural
numbers, counters are integers because the code subtracts from them, and times
are milliseconds. -/

namespace Storix

inductive VfsNodeType
  | file
  | directory
  deriving DecidableEq, Repr

theorem VfsNodeType.eq_file_of_ne {type : VfsNodeType} (notDirectory : type ≠ .directory) :
    type = .file := by
  cases type with
  | file => rfl
  | directory => exact absurd rfl notDirectory

structure VfsNode where
  id : Uuid
  parentId : Option Uuid
  type : VfsNodeType
  name : JsString
  blobId : Option Uuid
  size : Option Nat
  mimeType : Option JsString
  childFileCount : Int
  expiresAt : Option Nat
  createdAt : Nat
  updatedAt : Nat
  version : Nat
  deriving DecidableEq

def VfsNode.link (node : VfsNode) : Foundation.Link Uuid JsString where
  id := node.id
  parent := node.parentId
  label := node.name
  branch := node.type == .directory

structure BlobData where
  storageKey : JsString
  size : Nat
  mimeType : JsString
  sha256 : JsString
  encryptionIv : Option (List UInt8)
  deriving DecidableEq

structure Blob extends BlobData where
  id : Uuid
  referenceCount : Int
  zeroSince : Option Nat
  createdAt : Nat
  deriving DecidableEq

structure Revision where
  id : Uuid
  version : Nat
  deriving DecidableEq, Repr

structure TrashItem where
  id : Uuid
  rootType : VfsNodeType
  originalPath : JsString
  rootNodeId : Uuid
  rootRevision : Revision
  nodeCount : Int
  logicalBytes : Int
  deletedAt : Nat
  expiresAt : Nat
  deriving DecidableEq

structure TrashEntry where
  trashId : Uuid
  relativePath : JsString
  type : VfsNodeType
  sourceNodeId : Uuid
  sourceRevision : Revision
  blobId : Option Uuid
  size : Option Nat
  mimeType : Option JsString
  createdAt : Nat
  deriving DecidableEq

inductive SnapshotKind
  | file
  | tree
  deriving DecidableEq, Repr

structure Snapshot where
  id : Uuid
  kind : SnapshotKind
  sourcePath : JsString
  rootNodeId : Uuid
  sourceRevision : Revision
  rootType : VfsNodeType
  nodeCount : Int
  logicalBytes : Int
  createdAt : Nat
  deriving DecidableEq

structure SnapshotEntry where
  snapshotId : Uuid
  relativePath : JsString
  type : VfsNodeType
  sourceNodeId : Uuid
  sourceRevision : Revision
  blobId : Option Uuid
  size : Option Nat
  mimeType : Option JsString
  deriving DecidableEq

inductive NamespaceStatus
  | active
  | deleting
  | deleted
  deriving DecidableEq, Repr

structure NamespaceSettings where
  trashEnabled : Bool
  maxSyncDeleteNodes : Option Nat
  maxSyncCopyNodes : Option Nat
  maxSyncMoveNodes : Option Nat
  maxSyncSnapshotNodes : Option Nat
  maxSnapshotBytes : Option Nat
  maxRetainedSnapshotNodes : Option Nat
  maxRetainedSnapshotBytes : Option Nat
  maxTotalLogicalBytes : Option Nat
  maxFilesPerFolder : Option Nat
  maxLiveNodes : Option Nat
  excludeTrashFromQuota : Bool
  excludeSnapshotsFromQuota : Bool
  maxRetainedTrashBytes : Option Nat
  deriving DecidableEq

structure Namespace where
  status : NamespaceStatus
  settings : NamespaceSettings
  liveNodeCount : Int
  liveFileByteCount : Int
  retainedTrashNodeCount : Int
  retainedTrashByteCount : Int
  retainedSnapshotNodeCount : Int
  retainedSnapshotByteCount : Int
  deriving DecidableEq

inductive VfsChangeKind
  | created
  | updated
  | moved
  | deleted
  deriving DecidableEq, Repr

structure ChangeEvent where
  sequence : Nat
  operationId : Uuid
  operationIndex : Nat
  operationCount : Nat
  kind : VfsChangeKind
  nodeId : Uuid
  nodeType : VfsNodeType
  path : JsString
  previousPath : Option JsString
  revision : Option Revision
  occurredAt : Nat
  deriving DecidableEq

structure ChangeFeedState where
  lastSequence : Nat
  prunedThrough : Nat
  hasCheckpoint : Bool
  deriving DecidableEq

/-- The rows of one namespace, and how many random ids were drawn so far. -/
structure Database where
  nodes : List VfsNode
  blobs : List Blob
  namespaceRow : Namespace
  trash : List TrashItem
  trashEntries : List TrashEntry
  snapshots : List Snapshot
  snapshotEntries : List SnapshotEntry
  feedState : Option ChangeFeedState
  feedEvents : List ChangeEvent
  issued : Nat

namespace Database

/-- `findOneBy({ id })` -/
def findNode (db : Database) (id : Uuid) : Option VfsNode :=
  db.nodes.find? fun node => node.id == id

/-- `findOneBy({ parentId, name })` -/
def findChild (db : Database) (parentId : Uuid) (name : JsString) : Option VfsNode :=
  db.nodes.find? fun node => node.parentId == some parentId && node.name == name

def findRoot (db : Database) : Option VfsNode :=
  db.nodes.find? fun node => node.parentId == none

def links (db : Database) : List (Foundation.Link Uuid JsString) :=
  db.nodes.map VfsNode.link

end Database

structure VfsNodeRecord where
  id : Uuid
  name : JsString
  type : VfsNodeType
  blobId : Option Uuid
  size : Option Nat
  mimeType : Option JsString
  createdAt : Nat
  updatedAt : Nat
  version : Nat
  expiresAt : Option Nat
  deriving DecidableEq

def toRecord (node : VfsNode) : VfsNodeRecord where
  id := node.id
  name := node.name
  type := node.type
  blobId := node.blobId
  size := node.size
  mimeType := node.mimeType
  createdAt := node.createdAt
  updatedAt := node.updatedAt
  version := node.version
  expiresAt := node.expiresAt

end Storix
