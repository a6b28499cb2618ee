import Storix.Foundation.Decimal
import Storix.Foundation.JsonValue
import Storix.Vfs.RevisionToken

/-! # Requests for an upload session

The body of a request, as `create` reads it before it looks at the session's key, and the
fingerprint that it stores with the session. -/

namespace Storix

open Foundation

/-! ## Fingerprints -/

/-- What `hashParts` gives to the hash: each part after its length in four bytes. -/
def frameParts : List JsString → List UInt8
  | [] => []
  | part :: rest => bigEndian 4 (JsString.utf8 part).length ++ JsString.utf8 part ++ frameParts rest

/-- `hashParts` throws where a length does not fit (`writeUInt32BE`). -/
def hashParts (sha256 : List UInt8 → String) (parts : List JsString) : Option String :=
  if parts.all fun part => (JsString.utf8 part).length < 2 ^ 32 then
    some (sha256 (frameParts parts))
  else none

/-! ## The body -/

inductive CreateRequestError
  | invalidMutationRequest
  | invalidChecksum
  | invalidExpiry
  | preconditionRequired
  | vfs (error : VfsError)
  deriving DecidableEq

structure UploadSessionCreateRequest where
  path : JsString
  sizeBytes : JsString
  mimeType : JsString
  ifAbsent : Bool
  ifRevision : Option JsString
  sha256 : Option JsString
  expiresInSeconds : Option JsonValue

def createRequestKeys : List JsString :=
  ["path", "sizeBytes", "mimeType", "ifAbsent", "ifRevision", "sha256",
    "expiresInSeconds"].map ascii

/-- `/^[0-9a-f]{64}$/` -/
def isChecksum (text : JsString) : Bool := text.length == 64 && text.all isLowerHex

def isAlphanumeric (unit : UInt16) : Bool :=
  isDigit unit || (0x41 ≤ unit && unit ≤ 0x5a) || (0x61 ≤ unit && unit ≤ 0x7a)

/-- `[a-zA-Z0-9!#$&^_.+-]` -/
def isMimeUnit (unit : UInt16) : Bool := isAlphanumeric unit || (ascii "!#$&^_.+-").contains unit

/-- `[a-zA-Z0-9][a-zA-Z0-9!#$&^_.+-]*` -/
def isMimeToken : JsString → Bool
  | [] => false
  | first :: rest => isAlphanumeric first && rest.all isMimeUnit

def isMimeType (text : JsString) : Bool :=
  match JsString.split text with
  | [type, subtype] => isMimeToken type && isMimeToken subtype
  | _ => false

def parseCreateFields (row : List (JsString × JsonValue)) (ifRevision : Option JsString)
    (sha256 : Option JsString) : Except CreateRequestError UploadSessionCreateRequest :=
  match (JsonOf.property row (ascii "path")).bind JsonOf.text?,
    (JsonOf.property row (ascii "sizeBytes")).bind JsonOf.text?,
    (JsonOf.property row (ascii "mimeType")).bind JsonOf.text? with
  | some path, some sizeBytes, some mimeType =>
      if !isDecimal sizeBytes || 255 < mimeType.length || !isMimeType mimeType then
        .error .invalidMutationRequest
      else
        let parsed : UploadSessionCreateRequest :=
          { path, sizeBytes, mimeType := asciiLowerCase mimeType, ifAbsent := ifRevision.isNone,
            ifRevision, sha256,
            expiresInSeconds := JsonOf.property row (ascii "expiresInSeconds") }
        match ifRevision with
        | none => .ok parsed
        | some revision =>
            match decodeRevisionToken revision with
            | .error error => .error (.vfs error)
            | .ok _ => .ok parsed
  | _, _, _ => .error .invalidMutationRequest

def parseUploadSessionCreateRequest : JsonValue →
    Except CreateRequestError UploadSessionCreateRequest
  | .object row =>
      let sha256 := JsonOf.property row (ascii "sha256")
      let ifAbsent := JsonOf.property row (ascii "ifAbsent")
      let ifRevision := JsonOf.property row (ascii "ifRevision")
      let hasExpiry := (JsonOf.property row (ascii "expiresInSeconds")).isSome
      if row.any fun member => !createRequestKeys.contains member.1 then
        .error .invalidMutationRequest
      else if sha256.any fun value => !value.text?.any isChecksum then .error .invalidChecksum
      else if hasExpiry && (!ifAbsent.any JsonOf.isTrue || ifRevision.isSome) then
        .error .invalidExpiry
      else if ifAbsent.isNone && ifRevision.isNone then .error .preconditionRequired
      else if ifAbsent.isSome == ifRevision.isSome ||
          ifAbsent.any (fun value => !value.isTrue) ||
          ifRevision.any (fun value => value.text?.isNone) then
        .error .invalidMutationRequest
      else
        parseCreateFields row (ifRevision.bind JsonOf.text?) (sha256.bind JsonOf.text?)
  | _ => .error .invalidMutationRequest

def MAX_FILE_EXPIRY_SECONDS : Nat := 2147483647

def parseExpirySeconds : JsonValue → Except CreateRequestError Nat
  | .number (some value) =>
      if value < 1 ∨ MAX_FILE_EXPIRY_SECONDS < value then .error .invalidExpiry else .ok value.toNat
  | _ => .error .invalidExpiry

/-! ## The creation of a session -/

/-- What `create` has read when it computes the fingerprint. -/
structure SessionCreation (host : Host) where
  request : UploadSessionCreateRequest
  path : NodePath host
  fileExpiresInSeconds : Option Nat

def creationExpiry (request : UploadSessionCreateRequest) :
    Except CreateRequestError (Option Nat) :=
  match request.expiresInSeconds with
  | none => .ok none
  | some value =>
      if !request.ifAbsent then .error .invalidExpiry else (parseExpirySeconds value).map some

/-- `create`, up to the fingerprint. -/
def readCreation (host : Host) (body : JsonValue) :
    Except CreateRequestError (SessionCreation host) :=
  match parseUploadSessionCreateRequest body with
  | .error error => .error error
  | .ok request =>
      match creationExpiry request with
      | .error error => .error error
      | .ok fileExpiresInSeconds =>
          match resolve host request.path with
          | .error error => .error (.vfs error)
          | .ok resolved =>
              if nonempty : resolved.segments ≠ [] then
                .ok ⟨request, ⟨resolved, nonempty⟩, fileExpiresInSeconds⟩
              else .error .invalidMutationRequest

namespace SessionCreation

variable {host : Host} (creation : SessionCreation host)

def parts : List JsString :=
  [ascii "POST", ascii "upload-sessions", creation.path.canonical, creation.request.sizeBytes,
    creation.request.mimeType,
    if creation.request.ifAbsent then ascii "ABSENT" else creation.request.ifRevision.getD []] ++
  creation.request.sha256.toList ++
  (creation.fileExpiresInSeconds.map fun seconds => ascii "expires:" ++ decimal seconds).toList

def fingerprint (sha256 : List UInt8 → String) : Option String := hashParts sha256 creation.parts

end SessionCreation

end Storix
