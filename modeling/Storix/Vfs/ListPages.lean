import Storix.Namespace.NamespaceList
import Storix.Vfs.ListCursors

/-! # Pages by text

The services read the cursor of a request before they ask for the page, and write the next one
after it. An error of either is an error of the request. -/

namespace Storix

open Foundation JsString

/-! ## Ids -/

def hexNumber (text : JsString) : Nat :=
  text.foldl (fun value unit => value * 16 + (Json.hexDigit unit).getD 0) 0

/-- The id that a text of hexadecimal digits and hyphens stands for. -/
def uuidOfText (text : JsString) : Uuid := hexNumber (text.filter (· ≠ 0x2d))

def NamespaceId.start (id : NamespaceId) : JsString :=
  match id.idPrefix with
  | some idPrefix => idPrefix ++ [underscore]
  | none => []

/-- `generateNamespaceId` -/
def NamespaceId.text (id : NamespaceId) : JsString := id.start ++ hexText (bigEndian 16 id.uuid)

/-- The id of a text with 32 digits at its end. The ids of older namespaces have hyphens, and
no `NamespaceId` stands for them. -/
def namespaceIdOfText (text : JsString) : Option NamespaceId :=
  let start := text.take (text.length - 32)
  if Cursors.isPrefixedId text = false then none
  else
    some
      { idPrefix := if start = [] then none else some start.dropLast
        uuid := hexNumber (text.drop (text.length - 32)) }

/-! ## Namespaces -/

def readNamespaceListCursor (raw : JsString) : Option NamespaceListCursor := do
  let cursor ← (Cursors.decodeNamespaceListCursor raw).toOption
  let id ← namespaceIdOfText cursor.id
  return ⟨cursor.name, id⟩

def writeNamespaceListCursor (cursor : NamespaceListCursor) : Option JsString :=
  (Cursors.encodeNamespaceListCursor ⟨cursor.name, cursor.id.text⟩).toOption

/-- `NamespaceService.findPage` -/
def NamespaceColumns.findPageByText (columns : NamespaceColumns) (rows : List NamespaceEntity)
    (rawCursor : Option JsString) (rawLimit : Option Nat) :
    Option (List NamespaceEntity × Option JsString) :=
  pageByText readNamespaceListCursor writeNamespaceListCursor
    (fun after => some (columns.findPage rows after rawLimit)) rawCursor

/-! ## The trash -/

def readTrashCursor (namespaceId raw : JsString) : Option TrashListBoundary :=
  (Cursors.decodeTrashCursor raw namespaceId).toOption.map fun cursor =>
    ⟨cursor.deletedAtKey, uuidOfText cursor.trashId⟩

def writeTrashCursor (namespaceId : JsString) (boundary : TrashListBoundary) : Option JsString :=
  (Cursors.encodeTrashCursor
    ⟨namespaceId, Cursors.trashOrder, boundary.deletedAtKey, Cursors.uuidText boundary.trashId⟩)
    |>.toOption

/-- `VfsTrashService.list` -/
def trashPageByText (keys : TimestampKeys) (db : Database) (now : Nat) (namespaceId : JsString)
    (rawCursor : Option JsString) (rawLimit : Option Nat) :
    Option (List TrashItem × Option JsString) :=
  pageByText (readTrashCursor namespaceId) (writeTrashCursor namespaceId)
    (fun after => trashPage keys db now after rawLimit) rawCursor

/-! ## Snapshots -/

def readSnapshotListCursor (namespaceId : JsString) (rootNodeId : Uuid) (raw : JsString) :
    Option FileSnapshotListBoundary :=
  (Cursors.decodeSnapshotListCursor asciiLowerCase raw namespaceId
    (Cursors.uuidText rootNodeId)).toOption.map fun cursor =>
      ⟨cursor.createdAtKey, uuidOfText cursor.snapshotId⟩

def writeSnapshotListCursor (namespaceId : JsString) (rootNodeId : Uuid)
    (boundary : FileSnapshotListBoundary) : Option JsString :=
  (Cursors.encodeSnapshotListCursor
    ⟨namespaceId, Cursors.uuidText rootNodeId, boundary.createdAtKey,
      Cursors.uuidText boundary.snapshotId⟩).toOption

/-- `VfsSnapshotService.listFileSnapshots` -/
def fileSnapshotPageByText (keys : TimestampKeys) (db : Database) (namespaceId : JsString)
    (rootNodeId : Uuid) (rawCursor : Option JsString) (rawLimit : Option Nat) :
    Option (List FileSnapshotRow × Option JsString) :=
  pageByText (readSnapshotListCursor namespaceId rootNodeId)
    (writeSnapshotListCursor namespaceId rootNodeId)
    (fun after => fileSnapshotPage keys db rootNodeId after rawLimit) rawCursor

def readSnapshotCursor (snapshotId : Uuid) (raw : JsString) : Option JsString :=
  (Cursors.decodeSnapshotCursor raw (some (Cursors.uuidText snapshotId))).toOption.map
    Cursors.SnapshotCursor.pathKey

def writeSnapshotCursor (snapshotId : Uuid) (pathKey : JsString) : Option JsString :=
  (Cursors.encodeSnapshotCursor ⟨Cursors.uuidText snapshotId, pathKey⟩).toOption

/-- `VfsSnapshotService.listEntries` -/
def snapshotEntryPageByText (db : Database) (snapshotId : Uuid) (rawCursor : Option JsString)
    (rawLimit : Option Nat) : Option (List SnapshotEntry × Option JsString) :=
  pageByText (readSnapshotCursor snapshotId) (writeSnapshotCursor snapshotId)
    (fun afterPathKey => snapshotEntryPage db snapshotId afterPathKey rawLimit) rawCursor

/-! ## Directories -/

def readRevisionCursor (raw : JsString) : Option RevisionCursor := do
  let cursor ← (Cursors.decodeRevisionCursor raw).toOption
  let revision ← (decodeRevisionToken cursor.directoryRevision).toOption
  return ⟨uuidOfText cursor.directoryId, revision, cursor.name, uuidOfText cursor.id⟩

def writeRevisionCursor (cursor : RevisionCursor) : Option JsString := do
  let revision ← (encodeRevisionToken cursor.directoryRevision.id
    cursor.directoryRevision.version).toOption
  return Cursors.encodeRevisionCursor
    ⟨Cursors.uuidText cursor.directoryId, revision, cursor.name, Cursors.uuidText cursor.id⟩

/-- `VfsService.ls` of one revision. -/
def lsByText (host : Host) (db : Database) (path : ResolvedPath host) (rawCursor : Option JsString)
    (rawLimit : Option Nat) : Option (List VfsNodeRecord × Option JsString) :=
  pageByText readRevisionCursor writeRevisionCursor
    (fun cursor => (ls host db path cursor rawLimit).toOption.map fun page =>
      (page.items, page.nextCursor)) rawCursor

end Storix
