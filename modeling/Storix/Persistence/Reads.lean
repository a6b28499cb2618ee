import Storix.Persistence.Trash

/-! # Reads

Pages of a directory and of the change feed. Each read sees one committed state. -/

namespace Storix

open Foundation

/-! ## Limits -/

def DEFAULT_LIMIT : Nat := 100

def MAX_LIMIT : Nat := 1000

/-- The page size of a request. A parameter that is no positive integer counts as none. -/
def resolveLimit : Option Nat → Nat
  | none => DEFAULT_LIMIT
  | some 0 => DEFAULT_LIMIT
  | some (limit + 1) => min (limit + 1) MAX_LIMIT

theorem resolveLimit_pos (raw : Option Nat) : 0 < resolveLimit raw := by
  unfold resolveLimit
  split
  · decide
  · decide
  · unfold MAX_LIMIT
    omega

theorem resolveLimit_le (raw : Option Nat) : resolveLimit raw ≤ MAX_LIMIT := by
  unfold resolveLimit
  split
  · decide
  · decide
  · exact Nat.min_le_right _ _

/-! ## Paths -/

/-- The loop of `resolvePath`. -/
def resolveBelow (db : Database) : List JsString → Uuid → VfsNodeType → Option VfsNode →
    Option VfsNode
  | [], _, _, node => node
  | segment :: rest, parentId, parentType, _ =>
      if parentType ≠ .directory then none
      else
        match db.findChild parentId segment with
        | none => none
        | some node => resolveBelow db rest node.id node.type (some node)

def resolvePath (db : Database) (rootId : Uuid) (segments : List JsString) : Option VfsNode :=
  resolveBelow db segments rootId .directory none

/-- The loop of `assertParentChain`: `visited` are the segments already walked. -/
def assertParents (db : Database) :
    List JsString → List JsString → Uuid → VfsNodeType → Except VfsError Unit
  | visited, [], _, parentType =>
      if parentType ≠ .directory then .error (.notDirectory (joinSegments visited)) else .ok ()
  | visited, name :: rest, parentId, parentType =>
      if parentType ≠ .directory then .error (.notDirectory (joinSegments visited))
      else
        match db.findChild parentId name with
        | none => .error (.nodeNotFound (joinSegments (visited ++ [name])))
        | some child => assertParents db (visited ++ [name]) rest child.id child.type

/-- The checks of `lockParentChain` without its locks. -/
def assertParentChain (db : Database) (rootId : Uuid) (segments : List JsString) :
    Except VfsError Unit :=
  assertParents db [] segments.dropLast rootId .directory

/-! ## Directories -/

structure RevisionCursor where
  directoryId : Uuid
  directoryRevision : Revision
  name : JsString
  id : Uuid
  deriving DecidableEq

/-- `ORDER BY name ASC, id ASC` -/
def childLe (host : Host) (left right : VfsNode) : Bool :=
  if left.name = right.name then left.id ≤ right.id else host.nameLe left.name right.name

/-- `(n.name, n.id) > (:cursorName, :cursorId)` -/
def afterCursor (host : Host) (cursor : RevisionCursor) (node : VfsNode) : Bool :=
  if node.name = cursor.name then cursor.id < node.id else host.nameLe cursor.name node.name

/-- The directory and at most `limit + 1` of its children after the cursor. -/
def listRevisionChildren (host : Host) (db : Database) (rootId : Uuid)
    (segments : List JsString) (canonicalPath : JsString) (cursor : Option RevisionCursor)
    (limit : Nat) : Except VfsError (VfsNode × List VfsNode) :=
  match resolvePathInManager db rootId segments with
  | none => .error (.nodeNotFound canonicalPath)
  | some directory =>
      if directory.type ≠ .directory then .error (.notDirectory canonicalPath)
      else
        match encodeRevision directory.id directory.version with
        | .error error => .error error
        | .ok revision =>
            if cursor.any fun cursor => cursor.directoryRevision ≠ revision then
              match currentOf directory canonicalPath with
              | .error error => .error error
              | .ok current => .error (.preconditionFailed canonicalPath (some current))
            else
              let rows := sortBy (childLe host)
                (db.nodes.filter fun node =>
                  node.parentId = some directory.id ∧
                    (cursor.all fun cursor => afterCursor host cursor node) = true)
              .ok (directory, rows.take (limit + 1))

structure RevisionPageResult where
  directoryRevision : Revision
  items : List VfsNodeRecord
  nextCursor : Option RevisionCursor

def requireRoot (db : Database) : Except VfsError VfsNode :=
  if db.namespaceRow.status ≠ .active then .error .namespaceNotFound
  else
    match db.findRoot with
    | none => .error .namespaceNotFound
    | some root => .ok root

def ls (host : Host) (db : Database) (path : ResolvedPath host) (cursor : Option RevisionCursor)
    (rawLimit : Option Nat) : Except VfsError RevisionPageResult :=
  match requireRoot db with
  | .error error => .error error
  | .ok root =>
      let limit := resolveLimit rawLimit
      match listRevisionChildren host db root.id path.segments path.canonical cursor limit with
      | .error error => .error error
      | .ok (directory, rows) =>
          match encodeRevision directory.id directory.version with
          | .error error => .error error
          | .ok directoryRevision =>
              let page := if limit < rows.length then rows.take limit else rows
              .ok
                { directoryRevision := directoryRevision
                  items := page.map toRecord
                  nextCursor :=
                    if limit < rows.length then
                      page.getLast?.map fun last =>
                        ⟨directory.id, directoryRevision, last.name, last.id⟩
                    else none }

/-! ## The change feed -/

inductive ChangeCursorError
  | invalid
  | expired
  deriving DecidableEq, Repr

structure ChangeFeedPage where
  changes : List ChangeEvent
  nextCursor : Nat
  hasMore : Bool

def readChangeFeedEvents (db : Database) (afterSequence limit : Nat) : List ChangeEvent :=
  (sortBy (fun left right => left.sequence ≤ right.sequence)
    (db.feedEvents.filter fun event => afterSequence < event.sequence)).take limit

def listChanges (db : Database) (cursor : Nat) (rawLimit : Option Nat) :
    Except ChangeCursorError ChangeFeedPage :=
  match db.feedState with
  | none => .error .invalid
  | some feed =>
      if feed.hasCheckpoint = false then .error .invalid
      else if feed.lastSequence < cursor then .error .invalid
      else if cursor < feed.prunedThrough then .error .expired
      else
        let limit := resolveLimit rawLimit
        let rows := readChangeFeedEvents db cursor (limit + 1)
        let page := rows.take limit
        .ok
          { changes := page
            nextCursor := (page.getLast?.map ChangeEvent.sequence).getD cursor
            hasMore := limit < rows.length }

end Storix
