import Storix.Vfs.PathResolver
import Storix.Foundation.Command
import Storix.Foundation.OrderedMap
import Mathlib.Data.List.Sort

/-! # The mutation transaction

The state that one transaction of `withMutation` threads through its work: the
tables, the nodes whose version changes, the node states recorded for the change
feed, and the counter changes that are applied at the end. -/

namespace Storix

open Foundation Foundation.Command

structure ChangeFeedNodeState where
  node : VfsNode
  segments : List JsString
  deriving DecidableEq

namespace ChangeFeedNodeState

def path (state : ChangeFeedNodeState) : JsString := joinSegments state.segments

end ChangeFeedNodeState

structure MutationTx where
  db : Database
  rootId : Uuid
  now : Nat
  /-- The changed nodes. `true` asks for the common version increment at the end. -/
  changed : OrderedMap Uuid Bool
  /-- The nodes from which the chain up to the root is already marked. -/
  ancestorChainMarked : List Uuid
  /-- The states before the mutation, when the namespace has a feed checkpoint. -/
  feedBefore : Option (OrderedMap Uuid ChangeFeedNodeState)
  liveFileByteDelta : Int
  liveNodeDelta : Int
  trashByteDelta : Int
  snapshotByteDelta : Int
  folderFileDeltas : OrderedMap Uuid Int

abbrev Mutating (α : Type) := Command MutationTx VfsError α

structure AffectedRevision where
  path : JsString
  revision : Revision
  deriving DecidableEq

/-! ## Helpers -/

/-- Stable sort, as `Array.prototype.sort` with a comparator. -/
def sortBy {α : Type} (le : α → α → Bool) (items : List α) : List α :=
  items.insertionSort fun left right => le left right = true

/-- `chunked(items, size)`, for a positive size. -/
def chunked {α : Type} (size : Nat) (items : List α) : List (List α) :=
  (List.range ((items.length + size - 1) / size)).map fun index =>
    (items.drop (index * size)).take size

def NODE_BULK_CHUNK_SIZE : Nat := 500

/-! ## Statements -/

def fail {α : Type} (fault : InternalFault) : Mutating α := stop (.internal fault)

def updateDb (transform : Database → Database) : Mutating Unit :=
  update fun tx => { tx with db := transform tx.db }

def drawUuid (host : Host) : Mutating Uuid := do
  let tx ← state
  updateDb fun db => { db with issued := db.issued + 1 }
  return host.randomUUID tx.db.issued

structure NewNode where
  parentId : Uuid
  type : VfsNodeType
  name : JsString
  blobId : Option Uuid
  size : Option Nat
  mimeType : Option JsString
  expiresAt : Option Nat

def NewNode.row (columns : NewNode) (id : Uuid) (now : Nat) : VfsNode where
  id := id
  parentId := some columns.parentId
  type := columns.type
  name := columns.name
  blobId := columns.blobId
  size := columns.size
  mimeType := columns.mimeType
  childFileCount := 0
  expiresAt := columns.expiresAt
  createdAt := now
  updatedAt := now
  version := 1

def NewNode.directory (parentId : Uuid) (name : JsString) : NewNode where
  parentId := parentId
  type := .directory
  name := name
  blobId := none
  size := none
  mimeType := none
  expiresAt := none

def insertNode (node : VfsNode) : Mutating Unit :=
  updateDb fun db => { db with nodes := db.nodes ++ [node] }

/-- `nodeRepo.save(nodeRepo.create(columns))` -/
def createNode (host : Host) (columns : NewNode) : Mutating VfsNode := do
  let id ← drawUuid host
  let tx ← state
  insertNode (columns.row id tx.now)
  return columns.row id tx.now

def updateNode (id : Uuid) (transform : VfsNode → VfsNode) : Mutating Unit :=
  updateDb fun db =>
    { db with nodes := db.nodes.map fun node => if node.id = id then transform node else node }

/-- `nodeRepo.save(node)` of a loaded entity: no UPDATE when nothing changed, else
the version column goes up by one. -/
def saveNode (node : VfsNode) : Mutating VfsNode := do
  let tx ← state
  if tx.db.findNode node.id = some node then return node
  else
    let saved := { node with version := node.version + 1, updatedAt := tx.now }
    updateNode node.id fun _ => saved
    return saved

/-- `blobRepo.save(blobRepo.create({ ...data, referenceCount: 1 }))` -/
def createBlob (host : Host) (data : BlobData) : Mutating Uuid := do
  let id ← drawUuid host
  let tx ← state
  updateDb fun db =>
    { db with
      blobs := db.blobs ++
        [{ toBlobData := data, id := id, referenceCount := 1, zeroSince := none,
           createdAt := tx.now }] }
  return id

/-- `blobRepo.increment({ id }, 'referenceCount', count)` -/
def incrementReferenceCount (id : Uuid) (count : Nat) : Mutating Unit :=
  updateDb fun db =>
    { db with
      blobs := db.blobs.map fun blob =>
        if blob.id = id then { blob with referenceCount := blob.referenceCount + count }
        else blob }

def incrementLiveReferenceCount (id : Uuid) (count : Nat) : Mutating Bool := do
  if count < 1 then fail .invalidBlobIncrement
  else
    let tx ← state
    updateDb fun db =>
      { db with
        blobs := db.blobs.map fun blob =>
          if blob.id = id ∧ 0 < blob.referenceCount then
            { blob with referenceCount := blob.referenceCount + count }
          else blob }
    return (tx.db.blobs.filter fun blob => blob.id = id ∧ 0 < blob.referenceCount).length == 1

def decrementReferenceCount (id : Uuid) (count : Nat) : Mutating Unit := do
  let tx ← state
  updateDb fun db =>
    { db with
      blobs := db.blobs.map fun blob =>
        if blob.id = id then
          { blob with
            referenceCount := blob.referenceCount - count
            zeroSince :=
              if blob.referenceCount - count = 0 then some tx.now else blob.zeroSince }
        else blob }

def recordLiveByteDelta (delta : Int) : Mutating Unit :=
  update fun tx => { tx with liveFileByteDelta := tx.liveFileByteDelta + delta }

def recordFolderFileDelta (parentId : Uuid) (delta : Int) : Mutating Unit :=
  update fun tx =>
    if delta = 0 then tx
    else
      { tx with
        folderFileDeltas :=
          tx.folderFileDeltas.set parentId
            ((tx.folderFileDeltas.get parentId).getD 0 + delta) }

def recordLiveNodeDelta (delta : Int) : Mutating Unit :=
  update fun tx => { tx with liveNodeDelta := tx.liveNodeDelta + delta }

def markOnce (changed : OrderedMap Uuid Bool) (id : Uuid) (increment : Bool) :
    OrderedMap Uuid Bool :=
  if changed.has id then changed else changed.set id increment

def markChanged (id : Uuid) (increment : Bool) : Mutating Unit :=
  update fun tx => { tx with changed := markOnce tx.changed id increment }

/-! ## The states the change feed compares -/

/-- The segments of a node: those of its parent and its own name. Out of fuel means
that the parents form a cycle. -/
def resolveSegments (nodes : List VfsNode) (known : OrderedMap Uuid ChangeFeedNodeState) :
    Nat → VfsNode → Except VfsError (List JsString)
  | 0, _ => .error (.internal .nodeParentCycle)
  | fuel + 1, node =>
      match known.get node.id with
      | some state => .ok state.segments
      | none =>
          match node.parentId with
          | none => .ok []
          | some parentId =>
              match nodes.find? fun other => other.id == parentId with
              | none => .error (.internal .nodeParentMissing)
              | some parent =>
                  match resolveSegments nodes known fuel parent with
                  | .error error => .error error
                  | .ok segments => .ok (segments ++ [node.name])

/-- `repo.find({ where: { id: In(ids) } })`, 250 ids at a time. -/
def findNodesIn (host : Host) (nodes : List VfsNode) (ids : List Uuid) : List VfsNode :=
  (chunked 250 ids).flatMap fun chunk =>
    host.rowOrder (nodes.filter fun node => chunk.contains node.id)

def captureRows (nodes : List VfsNode) (known : OrderedMap Uuid ChangeFeedNodeState) :
    List VfsNode → OrderedMap Uuid ChangeFeedNodeState →
      Except VfsError (OrderedMap Uuid ChangeFeedNodeState)
  | [], result => .ok result
  | node :: rest, result =>
      match resolveSegments nodes known (nodes.length + 1) node with
      | .error error => .error error
      | .ok segments => captureRows nodes known rest (result.set node.id ⟨node, segments⟩)

def captureChangeFeedNodes (host : Host) (nodes : List VfsNode) (ids : List Uuid)
    (known : OrderedMap Uuid ChangeFeedNodeState) :
    Except VfsError (OrderedMap Uuid ChangeFeedNodeState) :=
  captureRows nodes known (findNodesIn host nodes ids) .empty

/-- Record the states of nodes that this transaction has not created or marked. -/
def trackChangeFeedBefore (host : Host) (ids : List Uuid) : Mutating Unit := do
  let tx ← state
  match tx.feedBefore with
  | none => pure ()
  | some before =>
      let missing := ids.filter fun id => !before.has id && !tx.changed.has id
      let captured ← lift (captureChangeFeedNodes host tx.db.nodes missing before)
      update fun tx =>
        { tx with
          feedBefore := some (before.merge captured) }

/-! ## Marking and locking -/

/-- The nodes from `id` up to the root or to a node whose chain is already marked. -/
def walkAncestors (nodes : List VfsNode) (marked : List Uuid) :
    Nat → Option Uuid → Except VfsError (List Uuid)
  | 0, _ => .error (.internal .nodeParentCycle)
  | _ + 1, none => .ok []
  | fuel + 1, some id =>
      if marked.contains id then .ok []
      else
        match nodes.find? fun node => node.id == id with
        | none => .error (.nodeNotFound (joinSegments []))
        | some node =>
            match walkAncestors nodes marked fuel node.parentId with
            | .error error => .error error
            | .ok walked => .ok (id :: walked)

/-- Mark the chain from `id` up to the root. The marks of the walk do not decide
where it ends, so the walk is taken first. -/
def markAncestorChain (host : Host) (id : Uuid) : Mutating Unit := do
  let tx ← state
  let walked ← lift
    (walkAncestors tx.db.nodes tx.ancestorChainMarked (tx.db.nodes.length + 1) (some id))
  forEach (fun id => markChanged id true) walked
  trackChangeFeedBefore host walked
  update fun tx => { tx with ancestorChainMarked := tx.ancestorChainMarked ++ walked }

/-- The loop of `resolvePathInManager` below a starting node. -/
def resolveFrom (db : Database) : List JsString → Option VfsNode → Option VfsNode
  | [], node => node
  | segment :: rest, some node =>
      if node.type = .directory then resolveFrom db rest (db.findChild node.id segment)
      else none
  | _ :: _, none => none

def resolvePathInManager (db : Database) (rootId : Uuid) (segments : List JsString) :
    Option VfsNode :=
  resolveFrom db segments (db.findNode rootId)

def createParentDirectory (host : Host) (parentId : Uuid) (name : JsString) :
    Mutating VfsNode := do
  let child ← createNode host (.directory parentId name)
  recordLiveNodeDelta 1
  markAncestorChain host parentId
  markChanged child.id false
  return child

/-- The loop of `lockParentChain`: `visited` are the segments already walked. -/
def lockParents (host : Host) (parents : Bool) :
    List JsString → List JsString → Uuid → VfsNodeType → Mutating (Uuid × VfsNodeType)
  | _, [], parentId, parentType => pure (parentId, parentType)
  | visited, name :: rest, parentId, parentType => do
      if parentType ≠ .directory then stop (.notDirectory (joinSegments visited))
      else
        trackChangeFeedBefore host [parentId]
        let tx ← state
        match tx.db.findChild parentId name with
        | some child => lockParents host parents (visited ++ [name]) rest child.id child.type
        | none =>
            if parents = false then
              stop (.nodeNotFound (joinSegments (visited ++ [name])))
            else
              let child ← createParentDirectory host parentId name
              lockParents host parents (visited ++ [name]) rest child.id child.type

def lockParentChain (host : Host) (segments : List JsString) (parents markAncestors : Bool) :
    Mutating Uuid := do
  let tx ← state
  let (parentId, parentType) ←
    lockParents host parents [] segments.dropLast tx.rootId .directory
  if parentType ≠ .directory then stop (.notDirectory (joinSegments segments.dropLast))
  else
    trackChangeFeedBefore host [parentId]
    if markAncestors then markAncestorChain host parentId
    return parentId

def lockTargetNode (host : Host) (parentId : Uuid) (name : JsString) :
    Mutating (Option VfsNode) := do
  let tx ← state
  match tx.db.findChild parentId name with
  | none => return none
  | some node =>
      trackChangeFeedBefore host [node.id]
      return some node

end Storix
