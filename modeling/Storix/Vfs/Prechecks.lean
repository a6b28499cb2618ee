import Storix.Persistence.Conditionals
import Storix.Persistence.Reads
import Storix.Vfs.RevisionToken

/-! # Checks before an upload

What the services check without locks before they take the bytes of a request. The
transaction that follows decides. -/

namespace Storix

/-- The precondition of an upload session, with the revision as its token. -/
inductive UploadCondition
  | ifAbsent (expiresInSeconds : Option Nat)
  | ifRevision (token : JsString)
  deriving DecidableEq

def UploadCondition.contentPrecondition : UploadCondition → Except VfsError ContentPrecondition
  | .ifAbsent expiresInSeconds => .ok (.ifAbsent expiresInSeconds)
  | .ifRevision token => (decodeRevisionToken token).map .ifRevision

def preconditionFailedBy (node : VfsNode) (path : JsString) : VfsError :=
  match currentOf node path with
  | .error error => error
  | .ok current => .preconditionFailed path (some current)

def checkTarget (condition : UploadCondition) (target : Option VfsNode) (path : JsString) :
    Except VfsError Unit :=
  match condition, target with
  | .ifAbsent _, none => .ok ()
  | .ifAbsent _, some node => .error (preconditionFailedBy node path)
  | .ifRevision _, none => .error (.nodeNotFound path)
  | .ifRevision token, some node =>
      match encodeRevisionToken node.id node.version with
      | .error error => .error error
      | .ok encoded =>
          if encoded ≠ token then .error (preconditionFailedBy node path) else .ok ()

/-- The checks of `UploadSessionService.create`. -/
def createSessionPrecheck {host : Host} (db : Database) (rootId : Uuid) (path : NodePath host)
    (condition : UploadCondition) : Except VfsError Unit := do
  let target := resolvePath db rootId path.segments
  checkTarget condition target path.canonical
  assertParentChain db rootId path.segments
  if target.any fun node => node.type = .directory then throw (.isDirectory path.canonical)

/-- The version check of `putFileContent` on the target that was read. -/
def willConflict (target : Option VfsNode) (ifMatchVersion : Option Nat) (force : Bool) : Bool :=
  match ifMatchVersion with
  | some version =>
      match target with
      | none => true
      | some node => node.type != .file || version != node.version
  | none => (target.any fun node => node.type = .file) && !force

/-- The checks of `ContentService.putContent`. -/
def putContentPrecheck {host : Host} (db : Database) (rootId : Uuid) (path : NodePath host)
    (ifMatchVersion : Option Nat) (force : Bool) : Except VfsError Unit :=
  let target := resolvePath db rootId path.segments
  if target.any fun node => node.type = .directory then .error (.isDirectory path.canonical)
  else if willConflict target ifMatchVersion force then .error (.versionConflict path.canonical)
  else .ok ()

end Storix
