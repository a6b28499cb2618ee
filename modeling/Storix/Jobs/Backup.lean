import Mathlib.Logic.Function.Basic
import Storix.Foundation.Machine
import Storix.Text

/-! # Backup and restore

The backup job dumps the database and then copies the objects one by one, while the server
goes on. The restore job loads the dump, puts the objects back and, if forced, deletes what the
backup does not have. A run may fail at each of its steps. -/

namespace Storix

open Foundation

abbrev StoredBytes := List UInt8

/-! ## Storage keys -/

/-- `blobs/` -/
def BLOB_KEY_PREFIX : JsString := [0x62, 0x6c, 0x6f, 0x62, 0x73, 0x2f]

/-- `upload-staging/` -/
def UPLOAD_STAGING_KEY_PREFIX : JsString :=
  [0x75, 0x70, 0x6c, 0x6f, 0x61, 0x64, 0x2d, 0x73, 0x74, 0x61, 0x67, 0x69, 0x6e, 0x67, 0x2f]

def STORIX_KEY_PREFIXES : List JsString := [BLOB_KEY_PREFIX, UPLOAD_STAGING_KEY_PREFIX]

/-- `key.startsWith(start)` -/
def hasStart (key start : JsString) : Bool := start.isPrefixOf key

def isStorixKey (key : JsString) : Bool := STORIX_KEY_PREFIXES.any (hasStart key)

/-! ## The directory of a backup -/

/-- `.` -/
def currentSegment : JsString := [0x2e]

/-- `..` -/
def parentSegment : JsString := [0x2e, 0x2e]

/-- `path.relative(dir, path.join(dir, …segments))`; `none` is a path outside of the
directory. -/
def normalizeSegments : List JsString → List JsString → Option (List JsString)
  | stack, [] => some stack
  | stack, segment :: rest =>
      if segment = [] ∨ segment = currentSegment then normalizeSegments stack rest
      else if segment = parentSegment then
        if stack = [] then none else normalizeSegments stack.dropLast rest
      else normalizeSegments (stack ++ [segment]) rest

/-- Where an object is copied to. A key that leads out of the directory or that is no path in
normal form fails the backup. -/
def mirrorPath (key : JsString) : Option (List JsString) :=
  match normalizeSegments [] (JsString.split key) with
  | none => none
  | some path => if JsString.join path = key then some path else none

/-- The files below `blobs/` with their paths. -/
abbrev Files := List (List JsString × StoredBytes)

/-- `mkdir` and `createWriteStream`: a file stands neither where a directory is nor below a
file. -/
def writeFile (files : Files) (path : List JsString) (bytes : StoredBytes) : Option Files :=
  if files.any fun file => file.1 != path && (file.1.isPrefixOf path || path.isPrefixOf file.1) then
    none
  else some (files.filter (fun file => file.1 != path) ++ [(path, bytes)])

/-- A directory that `BackupJob` or an operator left. -/
structure BackupDir (δ : Type) where
  /-- Its name ends in `.partial`. -/
  isPartial : Bool
  dump : Option δ
  files : Files
  /-- Directories other than `blobs`. -/
  unknownDirectories : List JsString

abbrev Storage := JsString → Option StoredBytes

/-! ## BackupJob -/

inductive BackupPhase
  | idle
  /-- The prefixes that are left, of which the first is being listed. -/
  | mirroring (prefixes : List JsString)
  | done
  | failed
  deriving DecidableEq

structure BackupRun (δ : Type) where
  database : δ
  storage : Storage
  phase : BackupPhase
  directory : BackupDir δ
  /-- The keys that the listing gave so far. -/
  listed : List JsString
  /-- The objects at the time of the dump, and the keys that were deleted since. -/
  atDump : Storage
  gone : List JsString

namespace BackupRun

variable {δ : Type}

inductive Action (δ : Type)
  /-- Whatever the server's requests and jobs do to the database. -/
  | commit (database : δ)
  | putObject (key : JsString) (bytes : StoredBytes)
  | deleteObject (key : JsString)
  /-- `dumpTool.dump` -/
  | dump
  /-- The next key of the listing, and its copy. -/
  | copy (key : JsString)
  /-- The listing of a prefix ends. -/
  | endOfList
  /-- `fs.rename` -/
  | rename
  | fail

def next (run : BackupRun δ) : Action δ → Option (BackupRun δ)
  | .commit database => some { run with database }
  | .putObject key bytes =>
      some { run with storage := Function.update run.storage key (some bytes) }
  | .deleteObject key =>
      some { run with
        storage := Function.update run.storage key none
        gone := key :: run.gone }
  | .dump =>
      if run.phase ≠ .idle then none
      else
        some { run with
          phase := .mirroring STORIX_KEY_PREFIXES
          directory := { run.directory with dump := some run.database }
          atDump := run.storage
          gone := [] }
  | .copy key =>
      match run.phase with
      | .mirroring (start :: _) =>
          if hasStart key start = false then none
          else
            match mirrorPath key, run.storage key with
            | some path, some bytes =>
                match writeFile run.directory.files path bytes with
                | some files =>
                    some { run with
                      directory := { run.directory with files }
                      listed := run.listed ++ [key] }
                | none => some { run with phase := .failed }
            | _, _ => some { run with phase := .failed }
      | _ => none
  | .endOfList =>
      match run.phase with
      | .mirroring (_ :: rest) => some { run with phase := .mirroring rest }
      | _ => none
  | .rename =>
      match run.phase with
      | .mirroring [] =>
          some { run with phase := .done, directory := { run.directory with isPartial := false } }
      | _ => none
  | .fail => if run.phase = .done then none else some { run with phase := .failed }

structure IsStart (run : BackupRun δ) : Prop where
  phase : run.phase = .idle
  directory : run.directory = ⟨true, none, [], []⟩
  listed : run.listed = []

def machine : Machine (BackupRun δ) (Action δ) where
  initial := IsStart
  next := next

/-- An object is never written over. The dump finds the objects that its rows refer to, and they
are not deleted before the run ends. A listing has every object that is there throughout. -/
def allowed (referenced : δ → List JsString) (run : BackupRun δ) : Action δ → Prop
  | .putObject key _ => run.storage key = none
  | .deleteObject key =>
      ∀ start rest, run.phase = .mirroring (start :: rest) →
        ∀ dump, run.directory.dump = some dump → key ∉ referenced dump
  | .dump => ∀ key ∈ referenced run.database, run.storage key ≠ none
  | .endOfList =>
      ∀ start rest, run.phase = .mirroring (start :: rest) →
        ∀ key, hasStart key start = true → run.atDump key ≠ none → key ∉ run.gone →
          key ∈ run.listed
  | _ => True

end BackupRun

/-! ## RestoreJob -/

inductive RestorePhase
  | idle
  /-- The backup was accepted. -/
  | accepted
  /-- The files that are left to put, and the keys that were put. -/
  | restoring (files : Files) (keys : List JsString)
  /-- The prefixes that are left to clean. -/
  | cleaning (prefixes keys : List JsString)
  /-- The listed keys that are left of one prefix. -/
  | deleting (items prefixes keys : List JsString)
  | done

structure RestoreRun (δ : Type) where
  database : δ
  storage : Storage
  phase : RestorePhase

namespace RestoreRun

variable {δ : Type}

inductive Action (δ : Type)
  /-- The checks of `run` before it changes anything. -/
  | start
  /-- `dumpTool.restore`, which may fail and leave anything. -/
  | restoreDump (failed : Option δ)
  /-- The next file; a failed `put` may have taken effect. -/
  | put (fate : Fate)
  | endOfFiles
  | list (items : List JsString)
  /-- The next listed key. -/
  | delete (fate : Fate)
  | endOfItems
  | finish

def fileKey (path : List JsString) : JsString := JsString.join path

/-- `RestoreJob.run`, one step at a time. A run may stop anywhere and another one start.
`hasNamespaces` is `hasExistingNamespaces`, where `none` is an error. -/
def next (source : BackupDir δ) (force : Bool) (hasNamespaces : δ → Option Bool)
    (run : RestoreRun δ) : Action δ → Option (RestoreRun δ)
  | .start =>
      if source.isPartial = true ∨ source.dump.isNone = true ∨ source.unknownDirectories ≠ [] then
        none
      else if force = false ∧ hasNamespaces run.database ≠ some false then none
      else some { run with phase := .accepted }
  | .restoreDump failed =>
      match run.phase, source.dump with
      | .accepted, some dump =>
          match failed with
          | none => some { run with database := dump, phase := .restoring source.files [] }
          | some left => some { run with database := left, phase := .idle }
      | _, _ => none
  | .put fate =>
      match run.phase with
      | .restoring ((path, bytes) :: files) keys =>
          let key := fileKey path
          if isStorixKey key = false then some { run with phase := .restoring files keys }
          else
            match fate with
            | .done =>
                some { run with
                  storage := Function.update run.storage key (some bytes)
                  phase := .restoring files (keys ++ [key]) }
            | .lost =>
                some { run with
                  storage := Function.update run.storage key (some bytes), phase := .idle }
            | .failed => some { run with phase := .idle }
      | _ => none
  | .endOfFiles =>
      match run.phase with
      | .restoring [] keys =>
          some { run with phase := if force then .cleaning STORIX_KEY_PREFIXES keys else .done }
      | _ => none
  | .list items =>
      match run.phase with
      | .cleaning (_ :: prefixes) keys => some { run with phase := .deleting items prefixes keys }
      | _ => none
  | .delete fate =>
      match run.phase with
      | .deleting (item :: items) prefixes keys =>
          if item ∈ keys then some { run with phase := .deleting items prefixes keys }
          else
            match fate with
            | .done =>
                some { run with
                  storage := Function.update run.storage item none
                  phase := .deleting items prefixes keys }
            | .lost =>
                some { run with storage := Function.update run.storage item none, phase := .idle }
            | .failed => some { run with phase := .idle }
      | _ => none
  | .endOfItems =>
      match run.phase with
      | .deleting [] prefixes keys => some { run with phase := .cleaning prefixes keys }
      | _ => none
  | .finish =>
      match run.phase with
      | .cleaning [] _ => some { run with phase := .done }
      | _ => none

def machine (source : BackupDir δ) (force : Bool) (hasNamespaces : δ → Option Bool)
    (target : Storage) : Machine (RestoreRun δ) (Action δ) where
  initial run := run.phase = .idle ∧ run.storage = target
  next := next source force hasNamespaces

def allowed (run : RestoreRun δ) : Action δ → Prop
  | .list items =>
      ∀ start prefixes keys, run.phase = .cleaning (start :: prefixes) keys →
        ∀ key, key ∈ items ↔ hasStart key start = true ∧ run.storage key ≠ none
  | _ => True

end RestoreRun

end Storix
