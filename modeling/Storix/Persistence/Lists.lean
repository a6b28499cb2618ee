import Storix.Foundation.Calendar
import Storix.Foundation.Json
import Storix.Persistence.Reads
import Storix.Persistence.Snapshots

/-! # Lists

What a client reads page by page: the children of a directory, the nodes found below one, the
trash, the snapshots of a file and the entries of a snapshot. A query reads one row more than
the page shows, to see whether there is a next page. -/

namespace Storix

open Foundation

/-! ## Directories -/

structure KeysetCursor where
  name : JsString
  id : Uuid
  deriving DecidableEq

def paginate {α γ : Type} (rows : List α) (limit : Nat) (cursorOf : α → γ) :
    List α × Option γ :=
  let page := if limit < rows.length then rows.take limit else rows
  (page, if limit < rows.length then page.getLast?.map cursorOf else none)

def resolveTarget (db : Database) (root : VfsNode) (segments : List JsString) : Option VfsNode :=
  if segments = [] then some root else resolvePath db root.id segments

/-- The directory that `ls` and `find` are asked about. -/
def requireDirectory {host : Host} (db : Database) (path : ResolvedPath host) :
    Except VfsError VfsNode :=
  match requireRoot db with
  | .error error => .error error
  | .ok root =>
      match resolveTarget db root path.segments with
      | none => .error (.nodeNotFound path.canonical)
      | some target =>
          if target.type ≠ .directory then .error (.notDirectory path.canonical) else .ok target

/-- `(name, id) > (:cursorName, :cursorId)` -/
def afterKeyset (host : Host) (cursor : KeysetCursor) (node : VfsNode) : Bool :=
  if node.name = cursor.name then cursor.id < node.id else host.nameLe cursor.name node.name

def listChildren (host : Host) (db : Database) (parentId : Uuid) (cursor : Option KeysetCursor)
    (limit : Nat) : List VfsNodeRecord :=
  ((sortBy (childLe host) (db.nodes.filter fun node =>
    node.parentId = some parentId ∧
      (cursor.all fun cursor => afterKeyset host cursor node) = true)).take (limit + 1)).map
    toRecord

def lsPage (host : Host) (db : Database) (path : ResolvedPath host) (cursor : Option KeysetCursor)
    (rawLimit : Option Nat) : Except VfsError (List VfsNodeRecord × Option KeysetCursor) :=
  match requireDirectory db path with
  | .error error => .error error
  | .ok target =>
      let limit := resolveLimit rawLimit
      let rows := listChildren host db target.id cursor limit
      .ok (paginate rows limit fun last => ⟨last.name, last.id⟩)

/-! ## Searches -/

inductive NameFilterMode
  | exact
  | contains
  | startsWith
  | endsWith
  deriving DecidableEq, Repr

structure NameFilter where
  mode : NameFilterMode
  value : JsString
  deriving DecidableEq

structure FindFilter where
  type : Option VfsNodeType
  name : Option NameFilter
  deriving DecidableEq

def percent : UInt16 := 0x25

def underscore : UInt16 := 0x5f

/-- `value.replace(/[\\%_]/g, (ch) => '\\' + ch)` -/
def escapeLikeValue (value : JsString) : JsString :=
  value.flatMap fun unit =>
    if unit = backslash ∨ unit = percent ∨ unit = underscore then [backslash, unit] else [unit]

def buildLikePattern (mode : NameFilterMode) (value : JsString) : JsString :=
  let escaped := escapeLikeValue value
  match mode with
  | .contains => percent :: escaped ++ [percent]
  | .startsWith => escaped ++ [percent]
  | .endsWith => percent :: escaped
  | .exact => escaped

/-- `text LIKE pattern ESCAPE '\'` -/
def like : JsString → JsString → Bool
  | [], text => text.isEmpty
  | unit :: pattern, text =>
      if unit = percent then
        text.tails.any fun rest => like pattern rest
      else if unit = underscore then
        match text with
        | high :: low :: rest =>
            -- A surrogate pair is one character.
            if JsString.isHighSurrogate high && JsString.isLowSurrogate low then like pattern rest
            else like pattern (low :: rest)
        | [_] => like pattern []
        | [] => false
      else if unit = backslash then
        match pattern, text with
        | literal :: pattern, other :: rest => literal == other && like pattern rest
        | _, _ => false
      else
        match text with
        | other :: rest => unit == other && like pattern rest
        | [] => false

/-- The conditions of `WHERE` that the filter adds. -/
def FindFilter.accepts (filter : FindFilter) (node : VfsNode) : Bool :=
  (filter.type.all fun type => node.type = type) &&
    filter.name.all fun name =>
      match name.mode with
      | .exact => node.name == name.value
      | mode => like (buildLikePattern mode name.value) node.name

/-- `ORDER BY name ASC, id ASC` -/
def matchLe (host : Host) (left right : TreeRow) : Bool := childLe host left.node right.node

def findRecursive (host : Host) (db : Database) (start : VfsNode) (filter : FindFilter)
    (cursor : Option KeysetCursor) (limit : Nat) : List TreeRow :=
  (sortBy (matchLe host) ((descendantRows db.nodes start).filter fun row =>
    filter.accepts row.node &&
      cursor.all fun cursor => afterKeyset host cursor row.node)).take (limit + 1)

/-- The parameters of a search. One that is not of the form asked for counts as none. -/
structure FindOptions where
  name : Option JsString
  mode : Option NameFilterMode
  type : Option VfsNodeType

def FindOptions.filter (options : FindOptions) : FindFilter where
  type := options.type
  name :=
    match options.name with
    | some (first :: rest) => some ⟨options.mode.getD .exact, first :: rest⟩
    | _ => none

def find (host : Host) (db : Database) (path : ResolvedPath host) (options : FindOptions)
    (cursor : Option KeysetCursor) (rawLimit : Option Nat) :
    Except VfsError (List TreeRow × Option KeysetCursor) :=
  match requireDirectory db path with
  | .error error => .error error
  | .ok target =>
      let limit := resolveLimit rawLimit
      let rows := findRecursive host db target options.filter cursor limit
      .ok (paginate rows limit fun last => ⟨last.node.name, last.node.id⟩)

/-! ## Times in cursors -/

/-- How the database writes the time of a column into a cursor, and compares the column with
it: PostgreSQL reads the text back as a time, SQLite compares texts of one format. -/
structure TimestampKeys where
  /-- `to_char(column AT TIME ZONE 'UTC', …)`, or `strftime('%Y-%m-%dT%H:%M:%fZ', column)` -/
  key : Nat → JsString
  /-- `column < $2::timestamptz`, or `strftime(…, column) < ?` -/
  isBefore : Nat → JsString → Bool
  /-- `column = $2::timestamptz`, or `strftime(…, column) = ?` -/
  isAt : Nat → JsString → Bool
  isBefore_key : ∀ time other, isBefore time (key other) = decide (time < other)
  isAt_key : ∀ time other, isAt time (key other) = decide (time = other)

/-- The columns hold milliseconds, and the texts show microseconds. -/
def TimestampKeys.postgres : TimestampKeys where
  key time := timestampText (1000 * time)
  isBefore time text := decide (1000 * time < readTimestamp text)
  isAt time text := decide (1000 * time = readTimestamp text)
  isBefore_key time other := by
    rw [readTimestamp_timestampText, decide_eq_decide]
    omega
  isAt_key time other := by
    rw [readTimestamp_timestampText, decide_eq_decide]
    omega

/-- `ORDER BY time DESC, id ASC` -/
def newestLe {α : Type} (time : α → Nat) (id : α → Uuid) (left right : α) : Bool :=
  if time left = time right then id left ≤ id right else time right ≤ time left

/-- `(time < :key OR (time = :key AND id > :id))` -/
def afterNewest (keys : TimestampKeys) (key : JsString) (lastId : Uuid) (time : Nat) (id : Uuid) :
    Bool :=
  keys.isBefore time key || (keys.isAt time key && decide (lastId < id))

/-! ## The trash -/

structure TrashListBoundary where
  deletedAtKey : JsString
  trashId : Uuid
  deriving DecidableEq

/-- `VfsTrashRepository.list`; a limit out of range is an error. -/
def listTrash (keys : TimestampKeys) (db : Database) (now : Nat)
    (after : Option TrashListBoundary) (limit : Nat) :
    Option (List TrashItem × Option TrashListBoundary) :=
  if limit < 1 ∨ 1000 < limit then none
  else
    let raw := (sortBy (newestLe TrashItem.deletedAt TrashItem.id) (db.trash.filter fun item =>
      decide (now < item.expiresAt) &&
        after.all fun after =>
          afterNewest keys after.deletedAtKey after.trashId item.deletedAt item.id)).take
            (limit + 1)
    let items := raw.take limit
    some (items,
      if limit < raw.length then
        items.getLast?.map fun last => ⟨keys.key last.deletedAt, last.id⟩
      else none)

/-- `VfsTrashService.list`; `none` is an error. -/
def trashPage (keys : TimestampKeys) (db : Database) (now : Nat)
    (after : Option TrashListBoundary) (rawLimit : Option Nat) :
    Option (List TrashItem × Option TrashListBoundary) :=
  match requireRoot db with
  | .error _ => none
  | .ok _ => listTrash keys db now after (resolveLimit rawLimit)

/-! ## The snapshots of a file -/

structure FileSnapshotListBoundary where
  createdAtKey : JsString
  snapshotId : Uuid
  deriving DecidableEq

/-- A row of the list: the snapshot and the checksum of its content. -/
structure FileSnapshotRow where
  snapshot : Snapshot
  sha256 : JsString
  deriving DecidableEq

def fileSnapshotRows (db : Database) (snapshot : Snapshot) : List FileSnapshotRow :=
  (db.snapshotEntries.filter fun entry =>
    entry.snapshotId = snapshot.id ∧ entry.relativePath = dot ∧ entry.type = .file ∧
      entry.sourceNodeId = snapshot.rootNodeId).flatMap fun entry =>
    (db.blobs.filter fun blob => entry.blobId = some blob.id).map fun blob =>
      ⟨snapshot, blob.sha256⟩

def listFileSnapshots (keys : TimestampKeys) (db : Database) (rootNodeId : Uuid)
    (after : Option FileSnapshotListBoundary) (limit : Nat) :
    Option (List FileSnapshotRow × Option FileSnapshotListBoundary) :=
  if limit < 1 then none
  else
    let raw := (sortBy (newestLe (fun row => row.snapshot.createdAt) fun row => row.snapshot.id)
      (((db.snapshots.flatMap (fileSnapshotRows db)).filter fun row =>
        decide (row.snapshot.rootNodeId = rootNodeId ∧ row.snapshot.kind = .file)).filter fun row =>
          after.all fun after => afterNewest keys after.createdAtKey after.snapshotId
            row.snapshot.createdAt row.snapshot.id)).take (limit + 1)
    let items := raw.take limit
    some (items,
      if limit < raw.length then
        items.getLast?.map fun last => ⟨keys.key last.snapshot.createdAt, last.snapshot.id⟩
      else none)

/-- `VfsSnapshotService.listFileSnapshots`; `none` is an error. -/
def fileSnapshotPage (keys : TimestampKeys) (db : Database) (rootNodeId : Uuid)
    (after : Option FileSnapshotListBoundary) (rawLimit : Option Nat) :
    Option (List FileSnapshotRow × Option FileSnapshotListBoundary) :=
  match requireRoot db with
  | .error _ => none
  | .ok _ => listFileSnapshots keys db rootNodeId after (resolveLimit rawLimit)

/-! ## The entries of a snapshot -/

/-- `Buffer.toString('hex')` -/
def hexText (bytes : List UInt8) : JsString :=
  bytes.flatMap fun byte => [Json.hexLetter (byte.toNat / 16), Json.hexLetter (byte.toNat % 16)]

def snapshotPathKey (relativePath : JsString) : JsString := hexText (JsString.utf8 relativePath)

def SnapshotEntry.pathKey (entry : SnapshotEntry) : JsString := snapshotPathKey entry.relativePath

/-- `VfsSnapshotRepository.listEntries`; a limit below one is an error. -/
def listSnapshotEntries (db : Database) (snapshotId : Uuid) (afterPathKey : Option JsString)
    (limit : Nat) : Option (List SnapshotEntry × Option JsString) :=
  if limit < 1 then none
  else
    let rows := (sortBy (fun left right => !JsString.before right.pathKey left.pathKey)
      ((db.snapshotEntries.filter fun entry => entry.snapshotId = snapshotId).filter fun entry =>
        afterPathKey.all fun afterPathKey =>
          JsString.before afterPathKey entry.pathKey)).take (limit + 1)
    let entries := rows.take limit
    some (entries,
      if limit < rows.length then entries.getLast?.map SnapshotEntry.pathKey else none)

/-- `VfsSnapshotService.listEntries`; `none` is an error. -/
def snapshotEntryPage (db : Database) (snapshotId : Uuid) (afterPathKey : Option JsString)
    (rawLimit : Option Nat) : Option (List SnapshotEntry × Option JsString) :=
  match requireRoot db with
  | .error _ => none
  | .ok _ =>
      match db.snapshots.find? fun snapshot => snapshot.id == snapshotId with
      | none => none
      | some snapshot =>
          if snapshot.kind ≠ .tree then none
          else listSnapshotEntries db snapshotId afterPathKey (resolveLimit rawLimit)

end Storix
