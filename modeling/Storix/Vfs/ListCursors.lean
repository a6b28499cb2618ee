import Storix.Foundation.Decimal
import Storix.JsonText
import Storix.Persistence.Lists
import Storix.TextDecoding
import Storix.Vfs.RevisionToken

/-! # List cursors

The texts with which a client asks for the next page of a list. Each is a mark of its kind and
the base64 of a JSON object that says where the last page ended. A reader checks the fields of
the object, and writes it again to compare it with the text it was given. -/

namespace Storix.Cursors

open Foundation Foundation.Json JsonText

inductive CursorError
  /-- `VfsInvalidCursorError` -/
  | invalidCursor (cursor : JsString)
  /-- `VfsInvalidChangeCursorError` -/
  | invalidChangeCursor
  deriving DecidableEq

/-! ## The texts of the fields -/

/-- `[0-9a-f]` under the `i` flag -/
def isHex (unit : UInt16) : Bool := (hexDigit unit).isSome

/-- Digits in groups of 8, 4, 4, 4 and 12 with hyphens between them. -/
def isHyphenated (isDigit : UInt16 → Bool) (text : JsString) : Bool :=
  text.length == 36 && text.zipIdx.all fun (unit, index) =>
    if index = 8 ∨ index = 13 ∨ index = 18 ∨ index = 23 then unit == 0x2d else isDigit unit

/-- `isUuid` of `common/uuid.ts` -/
def isUuid (value : JsString) : Bool := isHyphenated isHex value

/-- `[a-z]` -/
def isLowerLetter (unit : UInt16) : Bool := 0x61 ≤ unit && unit ≤ 0x7a

/-- `[a-z0-9_-]` -/
def isNameUnit (unit : UInt16) : Bool :=
  isLowerLetter unit || (0x30 ≤ unit && unit ≤ 0x39) || unit == 0x5f || unit == 0x2d

/-- `[a-z][a-z0-9_-]{0,11}` -/
def isIdPrefix (text : JsString) : Bool :=
  text.head?.any isLowerLetter && text.tail.all isNameUnit && text.length ≤ 12

/-- `(?:[a-z][a-z0-9_-]{0,11}_)?[0-9a-f]{32}` -/
def isPrefixedId (value : JsString) : Bool :=
  let start := value.take (value.length - 32)
  let digits := value.drop (value.length - 32)
  digits.length == 32 && digits.all isLowerHex &&
    (start.isEmpty || (start.getLast? == some 0x5f && isIdPrefix start.dropLast))

def NAMESPACE_ID_MAX_LENGTH : Nat := 45

def isNamespaceId (value : JsString) : Bool :=
  value.length ≤ NAMESPACE_ID_MAX_LENGTH && (isHyphenated isLowerHex value || isPrefixedId value)

/-- `/^[a-z0-9_-]{1,128}$/` -/
def isNamespaceName (value : JsString) : Bool :=
  1 ≤ value.length && value.length ≤ 128 && value.all isNameUnit

/-- `/^\d{4}-\d{2}-\d{2}T\d{2}:\d{2}:\d{2}\.\d{3}(?:\d{3})?Z$/` -/
def isTimestampShape (key : JsString) : Bool :=
  (key.length == 24 || key.length == 27) && key.zipIdx.all fun (unit, index) =>
    if index = 4 ∨ index = 7 then unit == 0x2d
    else if index = 10 then unit == 0x54
    else if index = 13 ∨ index = 16 then unit == 0x3a
    else if index = 19 then unit == 0x2e
    else if index + 1 = key.length then unit == 0x5a
    else isDigit unit

def daysInMonth (year month : Nat) : Nat :=
  if month = 2 then
    if year % 4 = 0 ∧ (year % 100 ≠ 0 ∨ year % 400 = 0) then 29 else 28
  else if month = 4 ∨ month = 6 ∨ month = 9 ∨ month = 11 then 30
  else 31

def keyNumber (key : JsString) (start length : Nat) : Nat :=
    ofDecimal ((key.drop start).take length)

/-- A time that exists: `Date` reads it and writes it as it was. The year 0 is refused. -/
def isValidTimestampKey (key : JsString) : Bool :=
  let year := keyNumber key 0 4
  let month := keyNumber key 5 2
  let day := keyNumber key 8 2
  isTimestampShape key && year ≠ 0 && 1 ≤ month && month ≤ 12 && 1 ≤ day &&
    day ≤ daysInMonth year month && keyNumber key 11 2 < 24 && keyNumber key 14 2 < 60 &&
    keyNumber key 17 2 < 60

/-! ## Records -/

abbrev Record := List (JsString × JsonTree)

/-- `Buffer.from(JSON.stringify(record), 'utf8').toString('base64url')` -/
def recordText (record : Record) : JsString :=
  base64url (JsString.utf8 (stringify (.object record)))

def readRecord (payload : JsString) : Option Record :=
  match parse (utf8Text (base64Bytes payload)) with
  | some (.object members) => some members
  | _ => none

/-- What follows the mark: `/^…\.[A-Za-z0-9_-]+$/` -/
def payloadOf (start raw : JsString) : Option JsString :=
  let payload := raw.drop start.length
  if raw.take start.length = start ∧ payload ≠ [] ∧ payload.all inAlphabet = true then some payload
  else none

/-- `record.name`, where it is a string. -/
def textProperty (record : Record) (name : JsString) : Option JsString :=
  (JsonOf.property record name).bind JsonOf.text?

def orInvalid {α : Type} (shown : JsString) : Option α → Except CursorError α
  | some value => .ok value
  | none => .error (.invalidCursor shown)

def snapshotStart : JsString := ascii "sc1."

def snapshotListStart : JsString := ascii "sl1."

def trashStart : JsString := ascii "tr1."

def namespaceListStart : JsString := ascii "nl1."

def revisionStart : JsString := ascii "rc1."

def changeFeedStart : JsString := ascii "cf1."

def snapshotIdName : JsString := ascii "snapshotId"

def pathKeyName : JsString := ascii "pathKey"

def namespaceIdName : JsString := ascii "namespaceId"

def rootNodeIdName : JsString := ascii "rootNodeId"

def createdAtKeyName : JsString := ascii "createdAtKey"

def deletedAtKeyName : JsString := ascii "deletedAtKey"

def trashIdName : JsString := ascii "trashId"

def orderName : JsString := ascii "order"

def nameName : JsString := ascii "name"

def idName : JsString := ascii "id"

def directoryIdName : JsString := ascii "directoryId"

def directoryRevisionName : JsString := ascii "directoryRevision"

def sequenceName : JsString := ascii "sequence"

/-! ## The entries of a snapshot -/

structure SnapshotCursor where
  snapshotId : JsString
  pathKey : JsString
  deriving DecidableEq

namespace SnapshotCursor

def valid (cursor : SnapshotCursor) : Bool :=
  isUuid cursor.snapshotId && (cursor.pathKey ≠ [] && cursor.pathKey.all isLowerHex) &&
    cursor.pathKey.length % 2 == 0

def record (cursor : SnapshotCursor) : Record :=
  [(snapshotIdName, .string cursor.snapshotId), (pathKeyName, .string cursor.pathKey)]

end SnapshotCursor

def encodeSnapshotCursor (cursor : SnapshotCursor) : Except CursorError JsString :=
  if cursor.valid = false then .error (.invalidCursor (stringify (.object cursor.record)))
  else .ok (snapshotStart ++ recordText cursor.record)

def decodeSnapshotCursor (raw : JsString) (expectedSnapshotId : Option JsString) :
    Except CursorError SnapshotCursor :=
  orInvalid raw do
    let payload ← payloadOf snapshotStart raw
    let record ← readRecord payload
    if record.length ≠ 2 then none
    else
      let snapshotId ← textProperty record snapshotIdName
      let pathKey ← textProperty record pathKeyName
      let cursor : SnapshotCursor := ⟨snapshotId, pathKey⟩
      if cursor.valid = false ∨ (expectedSnapshotId.any (· ≠ snapshotId)) = true then none
      else if encodeSnapshotCursor cursor ≠ .ok raw then none
      else some cursor

/-! ## The list of namespaces -/

structure NamespaceListCursor where
  name : Option JsString
  id : JsString
  deriving DecidableEq

namespace NamespaceListCursor

def valid (cursor : NamespaceListCursor) : Bool :=
  cursor.name.all isNamespaceName && isNamespaceId cursor.id

def record (cursor : NamespaceListCursor) : Record :=
  [(nameName, cursor.name.elim .null .string), (idName, .string cursor.id)]

end NamespaceListCursor

def MAX_RAW_LENGTH : Nat := 512

def encodeNamespaceListCursor (cursor : NamespaceListCursor) : Except CursorError JsString :=
  if cursor.valid = false then .error (.invalidCursor (stringify (.object cursor.record)))
  else .ok (namespaceListStart ++ recordText cursor.record)

/-- `record.name === null || typeof record.name === 'string'` -/
def nullableText : Option JsonTree → Option (Option JsString)
  | some .null => some none
  | some (.string text) => some (some text)
  | _ => none

def decodeNamespaceListCursor (raw : JsString) : Except CursorError NamespaceListCursor :=
  orInvalid (raw.take 64) do
    if MAX_RAW_LENGTH < raw.length then none
    else
      let payload ← payloadOf namespaceListStart raw
      let record ← readRecord payload
      if record.length ≠ 2 then none
      else
        let name ← nullableText (JsonOf.property record nameName)
        let id ← textProperty record idName
        let cursor : NamespaceListCursor := ⟨name, id⟩
        if cursor.valid = false ∨ encodeNamespaceListCursor cursor ≠ .ok raw then none
        else some cursor

/-! ## Listings of one revision of a directory -/

structure RevisionCursor where
  directoryId : JsString
  directoryRevision : JsString
  name : JsString
  id : JsString
  deriving DecidableEq

def hyphenate (hex : JsString) : JsString :=
  hex.take 8 ++ 0x2d :: (hex.drop 8).take 4 ++ 0x2d :: (hex.drop 12).take 4 ++
    0x2d :: (hex.drop 16).take 4 ++ 0x2d :: hex.drop 20

def uuidText (id : Uuid) : JsString := hyphenate (hexText (bigEndian 16 id))

namespace RevisionCursor

def record (cursor : RevisionCursor) : Record :=
  [(directoryIdName, .string cursor.directoryId),
    (directoryRevisionName, .string cursor.directoryRevision), (nameName, .string cursor.name),
    (idName, .string cursor.id)]

/-- The checks of `decodeRevisionCursor`: a name that the database takes, and a revision of the
directory. -/
def valid (cursor : RevisionCursor) : Bool :=
  isUuid cursor.directoryId && cursor.name ≠ [] && !cursor.name.contains 0 && isUuid cursor.id &&
    match decodeRevisionToken cursor.directoryRevision with
    | .ok revision => uuidText revision.id == cursor.directoryId
    | .error _ => false

end RevisionCursor

def encodeRevisionCursor (cursor : RevisionCursor) : JsString :=
  revisionStart ++ recordText cursor.record

def decodeRevisionCursor (raw : JsString) : Except CursorError RevisionCursor :=
  orInvalid raw do
    let payload ← payloadOf revisionStart raw
    let record ← readRecord payload
    let directoryId ← textProperty record directoryIdName
    let directoryRevision ← textProperty record directoryRevisionName
    let name ← textProperty record nameName
    let id ← textProperty record idName
    let cursor : RevisionCursor := ⟨directoryId, directoryRevision, name, id⟩
    if cursor.valid = false then none
    else if encodeRevisionCursor cursor ≠ raw then none
    else some cursor

/-! ## The change feed -/

/-- `createHmac('sha256', Buffer.from(signingSecret, 'hex')).update(message).digest()` -/
abbrev Hmac := JsString → List UInt8 → List UInt8

def signatureContext : JsString := ascii "storix-vfs-change-feed-v1:"

def MAX_SEQUENCE : Nat := 9223372036854775807

def signature (hmac : Hmac) (payload signingSecret : JsString) : List UInt8 :=
  hmac signingSecret (JsString.utf8 (signatureContext ++ payload))

def changeFeedRecord (namespaceId sequence : JsString) : Record :=
  [(namespaceIdName, .string namespaceId), (sequenceName, .string sequence)]

def encodeChangeFeedCursor (hmac : Hmac) (namespaceId sequence signingSecret : JsString) :
    JsString :=
  let payload := recordText (changeFeedRecord namespaceId sequence)
  changeFeedStart ++ payload ++ 0x2e :: base64url (signature hmac payload signingSecret)

/-- `/^cf1\.([A-Za-z0-9_-]+)\.([A-Za-z0-9_-]{43})$/`: the payload and its signature. -/
def matchChangeFeed (raw : JsString) : Option (JsString × JsString) :=
  let rest := raw.drop 4
  let payload := rest.take (rest.length - 44)
  let mac := rest.drop (rest.length - 43)
  if raw.take 4 = changeFeedStart ∧ payload ≠ [] ∧ payload.all inAlphabet = true ∧
      rest = payload ++ 0x2e :: mac ∧ mac.length = 43 ∧ mac.all inAlphabet = true then
    some (payload, mac)
  else none

def decodeChangeFeedCursor (hmac : Hmac) (raw namespaceId signingSecret : JsString) :
    Except CursorError JsString :=
  match matchChangeFeed raw with
  | none => .error .invalidChangeCursor
  | some (payload, mac) =>
      let macBytes := base64Bytes mac
      if 230 < raw.length ∨ macBytes.length ≠ 32 ∨ base64url macBytes ≠ mac ∨
          macBytes ≠ signature hmac payload signingSecret ∨
          base64url (base64Bytes payload) ≠ payload then
        .error .invalidChangeCursor
      else
        match readRecord payload with
        | none => .error .invalidChangeCursor
        | some record =>
            match textProperty record namespaceIdName, textProperty record sequenceName with
            | some recordNamespaceId, some sequence =>
                if isNamespaceId recordNamespaceId = false ∨ recordNamespaceId ≠ namespaceId ∨
                    isDecimal sequence = false ∨ MAX_SEQUENCE < ofDecimal sequence ∨
                    encodeChangeFeedCursor hmac recordNamespaceId sequence signingSecret ≠ raw then
                  .error .invalidChangeCursor
                else .ok sequence
            | _, _ => .error .invalidChangeCursor

/-! ## The snapshots of a file -/

structure SnapshotListCursor where
  namespaceId : JsString
  rootNodeId : JsString
  createdAtKey : JsString
  snapshotId : JsString
  deriving DecidableEq

namespace SnapshotListCursor

def valid (cursor : SnapshotListCursor) : Bool :=
  isNamespaceId cursor.namespaceId && isUuid cursor.rootNodeId && isUuid cursor.snapshotId &&
    isValidTimestampKey cursor.createdAtKey

/-- The object that `listFileSnapshots` builds. -/
def record (cursor : SnapshotListCursor) : Record :=
  [(namespaceIdName, .string cursor.namespaceId), (rootNodeIdName, .string cursor.rootNodeId),
    (createdAtKeyName, .string cursor.createdAtKey), (snapshotIdName, .string cursor.snapshotId)]

end SnapshotListCursor

/-- `encodeSnapshotListCursor` of an object: it is written with its properties in their order. -/
def encodeSnapshotListRecord (cursor : SnapshotListCursor) (record : Record) :
    Except CursorError JsString :=
  if cursor.valid = false then .error (.invalidCursor (stringify (.object record)))
  else .ok (snapshotListStart ++ recordText record)

def encodeSnapshotListCursor (cursor : SnapshotListCursor) : Except CursorError JsString :=
  encodeSnapshotListRecord cursor cursor.record

def decodeSnapshotListCursor (toLowerCase : JsString → JsString)
    (raw namespaceId rootNodeId : JsString) : Except CursorError SnapshotListCursor :=
  orInvalid raw do
    let payload ← payloadOf snapshotListStart raw
    let record ← readRecord payload
    if record.length ≠ 4 then none
    else
      let recordNamespaceId ← textProperty record namespaceIdName
      let recordRootNodeId ← textProperty record rootNodeIdName
      let createdAtKey ← textProperty record createdAtKeyName
      let snapshotId ← textProperty record snapshotIdName
      let cursor : SnapshotListCursor :=
        ⟨recordNamespaceId, recordRootNodeId, createdAtKey, snapshotId⟩
      if cursor.valid = false ∨ recordNamespaceId ≠ namespaceId ∨
          toLowerCase recordRootNodeId ≠ toLowerCase rootNodeId then none
      else if encodeSnapshotListRecord cursor record ≠ .ok raw then none
      else some cursor

/-! ## The trash -/

def trashOrder : JsString := ascii "deletedAtDescTrashIdAsc"

structure TrashCursor where
  namespaceId : JsString
  order : JsString
  deletedAtKey : JsString
  trashId : JsString
  deriving DecidableEq

namespace TrashCursor

def valid (cursor : TrashCursor) : Bool :=
  isNamespaceId cursor.namespaceId && isUuid cursor.trashId && cursor.order == trashOrder &&
    isValidTimestampKey cursor.deletedAtKey

/-- The object that `list` builds. -/
def record (cursor : TrashCursor) : Record :=
  [(namespaceIdName, .string cursor.namespaceId), (orderName, .string cursor.order),
    (deletedAtKeyName, .string cursor.deletedAtKey), (trashIdName, .string cursor.trashId)]

end TrashCursor

/-- `encode` of an object: it is written with its properties in their order. -/
def encodeTrashRecord (cursor : TrashCursor) (record : Record) : Except CursorError JsString :=
  if cursor.valid = false then .error (.invalidCursor (stringify (.object record)))
  else .ok (trashStart ++ recordText record)

def encodeTrashCursor (cursor : TrashCursor) : Except CursorError JsString :=
  encodeTrashRecord cursor cursor.record

def decodeTrashCursor (raw namespaceId : JsString) : Except CursorError TrashCursor :=
  orInvalid raw do
    let payload ← payloadOf trashStart raw
    let record ← readRecord payload
    if record.length ≠ 4 then none
    else
      let recordNamespaceId ← textProperty record namespaceIdName
      let deletedAtKey ← textProperty record deletedAtKeyName
      let trashId ← textProperty record trashIdName
      let order ← textProperty record orderName
      let cursor : TrashCursor := ⟨recordNamespaceId, order, deletedAtKey, trashId⟩
      if cursor.valid = false ∨ recordNamespaceId ≠ namespaceId then none
      else if encodeTrashRecord cursor record ≠ .ok raw then none
      else some cursor

end Storix.Cursors
