import Storix.Persistence.Conditionals
import Storix.Persistence.Lists

/-! # Paths and content of a snapshot -/

namespace Storix

open JsString

def resolveSnapshotRelativePath (host : Host) (rawPath : JsString) :
    Except VfsError (JsString × List JsString) :=
  if rawPath.head? = some slash then .error (.invalidPath rawPath)
  else
    let segments := (split rawPath).filter fun segment => !segment.isEmpty && segment != dot
    match assertPathSegments host segments with
    | .error error => .error error
    | .ok () => .ok (if segments = [] then dot else join segments, segments)

def getEntry (db : Database) (snapshotId : Uuid) (relativePath : JsString) :
    Option SnapshotEntry :=
  db.snapshotEntries.find? fun entry =>
    entry.snapshotId == snapshotId && entry.relativePath == relativePath

inductive ContentRefusal
  | invalidMutationRequest
  | vfs (error : VfsError)
  deriving DecidableEq

/-- The checks of `getContent` on the entry that was found. -/
def requireContent (host : Host) (db : Database) (snapshotId : Uuid) (path : JsString)
    (entry : Option SnapshotEntry) : Except ContentRefusal (SnapshotEntry × Blob) :=
  match entry with
  | none => .error (.vfs (.nodeNotFound path))
  | some entry =>
      if entry.type = .directory then .error (.vfs (.isDirectory path))
      else
        match entry.blobId with
        | none => .error (.vfs (.nodeNotFound path))
        | some blobId =>
            match db.blobs.find? fun blob => blob.id == blobId with
            | none => .error (.vfs (.nodeNotFound (host.uuidText snapshotId)))
            | some blob => .ok (entry, blob)

/-- `VfsSnapshotService.getContent` up to the stream: the entry that is served, and its blob. -/
def getContent (host : Host) (db : Database) (snapshotId : Uuid)
    (relativePath : Option JsString) : Except ContentRefusal (SnapshotEntry × Blob) :=
  match db.snapshots.find? fun snapshot => snapshot.id == snapshotId with
  | none => .error (.vfs (.snapshotNotFound snapshotId))
  | some snapshot =>
      match snapshot.kind, relativePath with
      | .file, some _ => .error .invalidMutationRequest
      | .tree, none => .error .invalidMutationRequest
      | .file, none => requireContent host db snapshotId dot (getFileEntry db snapshotId)
      | .tree, some rawPath =>
          match resolveSnapshotRelativePath host rawPath with
          | .error error => .error (.vfs error)
          | .ok (path, _) => requireContent host db snapshotId path (getEntry db snapshotId path)

end Storix
