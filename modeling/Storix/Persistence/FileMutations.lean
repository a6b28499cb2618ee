import Storix.Persistence.WithMutation

/-! # Directories, file content and moves -/

namespace Storix

open Foundation Foundation.Command

/-! ## Directories -/

/-- The loop of `ensureDirectory`. -/
def ensureDirectories (host : Host) (parents : Bool) (segments : List JsString) :
    List JsString → List JsString → Uuid → VfsNodeType → Option VfsNode → Bool →
      Mutating (Option VfsNode × Bool)
  | _, [], _, _, current, created => pure (current, created)
  | visited, name :: rest, parentId, parentType, _, _ => do
      if parentType ≠ .directory then stop (.notDirectory (joinSegments visited))
      else
        trackChangeFeedBefore host [parentId]
        let tx ← state
        match tx.db.findChild parentId name with
        | some child =>
            if rest = [] ∧ (child.type = .file ∨ parents = false) then
              stop (.alreadyExists (joinSegments segments))
            else
              ensureDirectories host parents segments (visited ++ [name]) rest
                child.id child.type (some child) false
        | none =>
            if rest ≠ [] ∧ parents = false then
              stop (.nodeNotFound (joinSegments (visited ++ [name])))
            else
              let child ← createParentDirectory host parentId name
              ensureDirectories host parents segments (visited ++ [name]) rest
                child.id child.type (some child) (rest = [])

/-- Create a directory, and its missing parents when `parents` is set. -/
def ensureDirectory (host : Host) (segments : List JsString) (parents : Bool) :
    Mutating (VfsNode × Bool) := do
  let tx ← state
  let (current, created) ←
    ensureDirectories host parents segments [] segments tx.rootId .directory none false
  match current with
  | none => fail .nodeRowMissing
  | some node => return (node, created)

/-! ## File content -/

inductive PutKind
  | created
  | replaced
  | absent
  deriving DecidableEq, Repr

structure PutFileOutcome where
  kind : PutKind
  node : Option VfsNodeRecord

def lastSegment (segments : List JsString) : JsString := segments.getLastD []

def fileColumns (parentId : Uuid) (name : JsString) (blobId : Uuid) (size : Nat)
    (mimeType : JsString) (expiresAt : Option Nat) : NewNode where
  parentId := parentId
  type := .file
  name := name
  blobId := some blobId
  size := some size
  mimeType := some mimeType
  expiresAt := expiresAt

def createFile (host : Host) (parentId : Uuid) (name : JsString) (data : BlobData)
    (expiresAt : Option Nat) : Mutating VfsNode := do
  let blobId ← createBlob host data
  let created ← createNode host
    (fileColumns parentId name blobId data.size data.mimeType expiresAt)
  markChanged created.id false
  recordLiveByteDelta data.size
  recordFolderFileDelta parentId 1
  recordLiveNodeDelta 1
  return created

/-- Raise the version of an existing file, or create an empty one. Without a blob a
missing file stays missing. -/
def touchFile (host : Host) (segments : List JsString) (parents : Bool)
    (emptyBlob : Option BlobData) : Mutating PutFileOutcome := do
  let parentId ← lockParentChain host segments parents true
  let existing ← lockTargetNode host parentId (lastSegment segments)
  match existing with
  | some node =>
      if node.type = .directory then stop (.isDirectory (joinSegments segments))
      else
        let tx ← state
        if (tx.db.nodes.filter fun other =>
            other.id = node.id ∧ other.version < MAX_VFS_VERSION).length ≠ 1 then
          stop .revisionExhausted
        else
          updateNode node.id fun other =>
            { other with version := other.version + 1, updatedAt := tx.now }
          let tx ← state
          match tx.db.findNode node.id with
          | none => fail .nodeRowMissing
          | some touched =>
              markChanged touched.id false
              return ⟨.replaced, some (toRecord touched)⟩
  | none =>
      match emptyBlob with
      | none => return ⟨.absent, none⟩
      | some data =>
          let created ← createFile host parentId (lastSegment segments) data none
          return ⟨.created, some (toRecord created)⟩

def replaceContent (host : Host) (node : VfsNode) (data : BlobData) :
    Mutating PutFileOutcome := do
  let blobId ← createBlob host data
  match node.blobId, node.size with
  | none, _ => fail .fileWithoutBlob
  | _, none => fail .fileWithoutSize
  | some previousBlobId, some previousSize =>
      let saved ← saveNode
        { node with
          blobId := some blobId, size := some data.size, mimeType := some data.mimeType }
      markChanged saved.id false
      recordLiveByteDelta (data.size - previousSize)
      decrementReferenceCount previousBlobId 1
      return ⟨.replaced, some (toRecord saved)⟩

def putFileContent (host : Host) (segments : List JsString) (parents : Bool)
    (newBlob : BlobData) (ifMatchVersion : Option Nat) (force : Bool)
    (expiresAt : Option Nat) : Mutating PutFileOutcome := do
  let parentId ← lockParentChain host segments parents true
  let existing ← lockTargetNode host parentId (lastSegment segments)
  match existing with
  | some node =>
      if node.type = .directory then stop (.isDirectory (joinSegments segments))
      else if MAX_VFS_VERSION ≤ node.version then stop .revisionExhausted
      else
        let versionMatches : Bool :=
          match ifMatchVersion with
          | some version => version == node.version
          | none => force
        if versionMatches = false then stop (.versionConflict (joinSegments segments))
        else replaceContent host node newBlob
  | none =>
      if ifMatchVersion.isSome then stop (.versionConflict (joinSegments segments))
      else
        let created ← createFile host parentId (lastSegment segments) newBlob expiresAt
        return ⟨.created, some (toRecord created)⟩

/-! ## Subtrees -/

/-- A row of a recursive query: the node, and its path below the starting node. -/
structure TreeRow where
  node : VfsNode
  relativePath : JsString
  deriving DecidableEq

def childRelativePath (relativePath name : JsString) : JsString :=
  if relativePath = dot then name else relativePath ++ [JsString.slash] ++ name

def childRows (nodes : List VfsNode) (row : TreeRow) : List TreeRow :=
  (nodes.filter fun node => node.parentId = some row.node.id).map fun node =>
    ⟨node, childRelativePath row.relativePath node.name⟩

/-- The rows of `WITH RECURSIVE` from a starting node. -/
def subtreeRows (nodes : List VfsNode) (source : VfsNode) : List TreeRow :=
  levels (childRows nodes) (nodes.length + 1) [⟨source, dot⟩]

def descendantRows (nodes : List VfsNode) (source : VfsNode) : List TreeRow :=
  levels (childRows nodes) nodes.length (childRows nodes ⟨source, dot⟩)

/-- The rows a subtree check visits: a node id and the segments it would have. -/
structure PlacedRow where
  id : Uuid
  segments : List JsString
  deriving DecidableEq

def placedRows (rows : List VfsNode) (sourceId : Uuid) (finalSegments : List JsString) :
    List PlacedRow :=
  levels
    (fun parent =>
      (rows.filter fun row => row.id ≠ sourceId ∧ row.parentId = some parent.id).map
        fun row => ⟨row.id, parent.segments ++ [row.name]⟩)
    (rows.length + 1) [⟨sourceId, finalSegments⟩]

def assertEach (host : Host) : List PlacedRow → Except VfsError Unit
  | [] => .ok ()
  | row :: rest =>
      match assertPathSegments host row.segments with
      | .error error => .error error
      | .ok () => assertEach host rest

def assertSubtreeDestinationPaths (host : Host) (sourceId : Uuid)
    (finalSegments : List JsString) (rows : List VfsNode) : Except VfsError Unit :=
  if rows.any fun row => row.id != sourceId && row.parentId == none then
    .error (.internal .subtreeParentMissing)
  else assertEach host (placedRows rows sourceId finalSegments)

/-! ## Moves -/

inductive DestinationResolution
  | nest
  | exact
  deriving DecidableEq, Repr

structure Placement where
  sourceNode : VfsNode
  finalParentId : Uuid
  finalName : JsString
  finalSegments : List JsString

def resolveSource (host : Host) (sourceSegments : List JsString) (markAncestors : Bool) :
    Mutating VfsNode := do
  let parentId ← lockParentChain host sourceSegments false markAncestors
  let node ← lockTargetNode host parentId (lastSegment sourceSegments)
  match node with
  | none => stop (.nodeNotFound (joinSegments sourceSegments))
  | some node => return node

/-- Lock source and destination in the global order of their segments. -/
def lockBoth (host : Host) (sourceSegments destinationSegments : List JsString)
    (destinationParents markSourceAncestors : Bool) : Mutating (VfsNode × Uuid) := do
  if compareSegments sourceSegments destinationSegments ≠ .gt then
    let sourceNode ← resolveSource host sourceSegments markSourceAncestors
    if sourceNode.type = .directory ∧ sourceSegments <+: destinationSegments then
      stop (.invalidOperation (joinSegments sourceSegments))
    else
      let parentId ← lockParentChain host destinationSegments destinationParents true
      return (sourceNode, parentId)
  else
    let parentId ← lockParentChain host destinationSegments destinationParents true
    let sourceNode ← resolveSource host sourceSegments markSourceAncestors
    return (sourceNode, parentId)

/-- The last checks of a placement, once it is clear whether the source goes into
an existing directory. -/
def placeAt (host : Host) (sourceNode : VfsNode) (sourceSegments : List JsString)
    (destinationTarget : Option VfsNode) (nested : Bool) (finalParentId : Uuid)
    (finalName : JsString) (finalSegments : List JsString) : Mutating Placement := do
  lift (assertPathSegments host finalSegments)
  match nested, destinationTarget with
  | true, some target => markChanged target.id true
  | _, _ => pure ()
  if sourceNode.type = .directory ∧ sourceSegments <+: finalSegments then
    stop (.invalidOperation (joinSegments sourceSegments))
  else
    let collision ←
      if nested then lockTargetNode host finalParentId finalName else pure destinationTarget
    match collision with
    | some _ => stop (.alreadyExists (joinSegments finalSegments))
    | none => return ⟨sourceNode, finalParentId, finalName, finalSegments⟩

def resolveDestinationPlacement (host : Host)
    (sourceSegments destinationSegments : List JsString)
    (destinationParents markSourceAncestors : Bool) (resolution : DestinationResolution) :
    Mutating Placement := do
  let (sourceNode, destinationParentId) ←
    lockBoth host sourceSegments destinationSegments destinationParents markSourceAncestors
  if destinationSegments = [] then
    if resolution = .exact then stop (.alreadyExists (joinSegments destinationSegments))
    else
      placeAt host sourceNode sourceSegments none true destinationParentId
        (lastSegment sourceSegments) [lastSegment sourceSegments]
  else
    let destinationTarget ←
      lockTargetNode host destinationParentId (lastSegment destinationSegments)
    match destinationTarget with
    | some target =>
        if resolution = .nest ∧ target.type = .directory then
          placeAt host sourceNode sourceSegments (some target) true target.id
            (lastSegment sourceSegments) (destinationSegments ++ [lastSegment sourceSegments])
        else
          placeAt host sourceNode sourceSegments (some target) false destinationParentId
            (lastSegment destinationSegments) destinationSegments
    | none =>
        placeAt host sourceNode sourceSegments none false destinationParentId
          (lastSegment destinationSegments) destinationSegments

def recordMovedFile (node : VfsNode) (finalParentId : Uuid) : Mutating Unit := do
  if node.type = .file ∧ node.parentId ≠ some finalParentId then
    match node.parentId with
    | none => fail .fileParentMissing
    | some previousParentId =>
        recordFolderFileDelta previousParentId (-1)
        recordFolderFileDelta finalParentId 1
  else pure ()

def moveNode (host : Host) (sourceSegments destinationSegments : List JsString)
    (destinationParents : Bool) (maxSyncMoveNodes : Nat) (resolution : DestinationResolution) :
    Mutating (VfsNodeRecord × JsString) := do
  let placement ← resolveDestinationPlacement host sourceSegments destinationSegments
    destinationParents true resolution
  let sourceNode := placement.sourceNode
  if MAX_VFS_VERSION ≤ sourceNode.version then stop .revisionExhausted
  else
    let tx ← state
    let descendants :=
      (host.rowOrder (descendantRows tx.db.nodes sourceNode)).take maxSyncMoveNodes
    if maxSyncMoveNodes < descendants.length + 1 then
      stop (.moveLimitExceeded maxSyncMoveNodes)
    else
      trackChangeFeedBefore host (descendants.map fun row => row.node.id)
      lift (assertSubtreeDestinationPaths host sourceNode.id placement.finalSegments
        (descendants.map TreeRow.node))
      let saved ← saveNode
        { sourceNode with
          parentId := some placement.finalParentId, name := placement.finalName }
      recordMovedFile sourceNode placement.finalParentId
      markChanged saved.id false
      forEach (fun row => markChanged row.node.id true) descendants
      return (toRecord saved, joinSegments placement.finalSegments)

end Storix
