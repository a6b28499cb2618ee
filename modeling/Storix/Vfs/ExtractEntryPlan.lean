import Storix.Vfs.PathResolver
import Storix.Foundation.OrderedMap

/-! # Extract entries

The planner takes the entries of an archive one by one. It normalizes and checks
the name, applies the exclude patterns, refuses names that collide with an earlier
entry, and numbers the selected entries. -/

namespace Storix

open Foundation JsString

/-- `/^[a-z]:/i` -/
def startsWithDrive : JsString → Bool
  | letter :: colon :: _ =>
      ((0x61 ≤ letter && letter ≤ 0x7a) || (0x41 ≤ letter && letter ≤ 0x5a)) && colon == 0x3a
  | _ => false

/-- `validateArchiveEntryName` accepts the name. -/
def validArchiveEntryName (host : Host) (name : JsString) : Bool :=
  !(name.isEmpty ||
    host.normalizeNFC name != name ||
    name.head? == some slash ||
    name.contains backslash ||
    startsWithDrive name ||
    name.any isControl ||
    hasLoneSurrogate name ||
    name.any isBidiControl ||
    decide (4095 < byteLength name) ||
    (split name).any fun part =>
      part.isEmpty || part == dot || part == dotDot || decide (255 < byteLength part))

def ancestorNames (name : JsString) : List JsString :=
  ((List.range name.length).filter fun index => name[index]? == some slash).map name.take

/-- The first loop of `validateArchiveEntryNames`: the set of the names. -/
def seenNames (host : Host) (seen : List JsString) : List JsString → Option (List JsString)
  | [] => some seen
  | name :: rest =>
      if validArchiveEntryName host name then
        if seen.contains name then none else seenNames host (name :: seen) rest
      else none

/-- `validateArchiveEntryNames` accepts the names. -/
def validArchiveEntryNames (host : Host) (names : List JsString) : Bool :=
  match seenNames host [] names with
  | none => false
  | some seen => names.all fun name => (ancestorNames name).all fun front => !seen.contains front

structure PlannedEntry where
  entryIndex : Nat
  name : JsString
  segments : List JsString
  type : VfsNodeType
  mimeType : JsString

structure TrieNode where
  isExplicit : Bool
  isFile : Bool
  hasChildren : Bool
  deriving DecidableEq

structure ExtractEntryPlanner where
  tarLike : Bool
  destinationSegments : List JsString
  excludes : JsString → Bool
  mimeTypes : JsString → Option JsString
  /-- From a parent node and a segment to a node. Node 0 is the destination. -/
  children : OrderedMap (Nat × JsString) Nat
  nodes : List TrieNode
  selected : Nat

def ExtractEntryPlanner.create (tarLike : Bool) (destinationSegments : List JsString)
    (excludes : JsString → Bool) (mimeTypes : JsString → Option JsString) :
    ExtractEntryPlanner where
  tarLike := tarLike
  destinationSegments := destinationSegments
  excludes := excludes
  mimeTypes := mimeTypes
  children := .empty
  nodes := [⟨false, false, false⟩]
  selected := 0

namespace ExtractEntryPlanner

/-- `application/octet-stream` -/
def defaultMimeType : JsString :=
  "application/octet-stream".toList.map fun char => UInt16.ofNat char.toNat

/-- The nodes on the way that already exist; `none` from the first missing one. -/
def locate (planner : ExtractEntryPlanner) : Option Nat → List JsString → List (Option Nat)
  | _, [] => []
  | none, _ :: rest => none :: locate planner none rest
  | some node, segment :: rest =>
      let child := planner.children.get (node, segment)
      child :: locate planner child rest

def isFileNode (planner : ExtractEntryPlanner) (node : Option Nat) : Bool :=
  (node.bind fun index => planner.nodes[index]?).any TrieNode.isFile

def fileAbove (planner : ExtractEntryPlanner) (path : List (Option Nat))
    (segments : List JsString) : Option JsString :=
  (path.dropLast.findIdx? planner.isFileNode).map fun depth => join (segments.take (depth + 1))

def conflict (planner : ExtractEntryPlanner) (path : List (Option Nat))
    (segments : List JsString) (type : VfsNodeType) : Option ExtractEntryReason :=
  match planner.fileAbove path segments with
  | some file => some (.belowFile file)
  | none =>
      match path.getLast?.join.bind fun index => planner.nodes[index]? with
      | none => none
      | some node =>
          if node.isExplicit then some .duplicate
          else if type = .file ∧ node.hasChildren then some .fileOverDirectory
          else none

def setNode (planner : ExtractEntryPlanner) (index : Nat)
    (transform : TrieNode → TrieNode) : ExtractEntryPlanner :=
  { planner with nodes := planner.nodes.modify index transform }

def record (type : VfsNodeType) :
    ExtractEntryPlanner → Nat → List (JsString × Option Nat) → ExtractEntryPlanner
  | planner, node, [] =>
      planner.setNode node fun old =>
        { old with isExplicit := true, isFile := old.isFile || type == .file }
  | planner, node, (segment, existing) :: rest =>
      match existing with
      | some child =>
          record type (planner.setNode node fun old => { old with hasChildren := true })
            child rest
      | none =>
          let child := planner.nodes.length
          let extended :=
            { planner with
              children := planner.children.set (node, segment) child
              nodes := planner.nodes ++ [(⟨false, false, false⟩ : TrieNode)] }
          record type (extended.setNode node fun old => { old with hasChildren := true })
            child rest

/-- The extension of the last segment decides the type; a leading dot is no
extension. -/
def resolveMimeType (planner : ExtractEntryPlanner) (host : Host) (basename : JsString) :
    JsString :=
  let fromDot := basename.reverse.takeWhile (· ≠ 0x2e)
  let position := basename.length - fromDot.length
  if basename.contains 0x2e = false ∨ position ≤ 1 ∨ fromDot = [] then defaultMimeType
  else (planner.mimeTypes (host.toLowerCase (0x2e :: fromDot.reverse))).getD defaultMimeType

/-- The name without a leading `./` of a tar and without the slash that ends a
directory. -/
def normalizedName (planner : ExtractEntryPlanner) (rawName : JsString)
    (type : VfsNodeType) : JsString :=
  let name := if planner.tarLike ∧ [0x2e, slash] <+: rawName then rawName.drop 2 else rawName
  if type = .directory ∧ name.getLast? = some slash then name.dropLast else name

def plan (host : Host) (planner : ExtractEntryPlanner) (rawName : JsString)
    (type : VfsNodeType) : Except VfsError (Option PlannedEntry × ExtractEntryPlanner) :=
  if planner.tarLike ∧ type = .directory ∧ rawName = [0x2e, slash] then .ok (none, planner)
  else
    let name := planner.normalizedName rawName type
    let segments := split name
    let refuse := fun reason =>
      (.error (.extractInvalidEntry planner.selected rawName reason) :
        Except VfsError (Option PlannedEntry × ExtractEntryPlanner))
    if validArchiveEntryName host name = false then refuse .invalidName
    else if 4096 < byteLength (joinSegments (planner.destinationSegments ++ segments)) then
      refuse .pathTooLong
    else if planner.excludes name then .ok (none, planner)
    else
      let path := planner.locate (some 0) segments
      match planner.conflict path segments type with
      | some reason => refuse reason
      | none =>
          let recorded := record type planner 0 (segments.zip path)
          .ok
            (some
              { entryIndex := planner.selected, name := name, segments := segments,
                type := type,
                mimeType :=
                  if type = .file then planner.resolveMimeType host (segments.getLastD [])
                  else defaultMimeType },
              { recorded with selected := planner.selected + 1 })

/-- The statements of `plan` on the planner they change. A throw keeps what was written
before it. -/
def planStatements (host : Host) (rawName : JsString) (type : VfsNodeType) :
    ExceptT VfsError (StateM ExtractEntryPlanner) (Option PlannedEntry) := do
  let planner ← get
  if planner.tarLike ∧ type = .directory ∧ rawName = [0x2e, slash] then return none
  let name := planner.normalizedName rawName type
  let segments := split name
  if validArchiveEntryName host name = false then
    throw (.extractInvalidEntry planner.selected rawName .invalidName)
  if 4096 < byteLength (joinSegments (planner.destinationSegments ++ segments)) then
    throw (.extractInvalidEntry planner.selected rawName .pathTooLong)
  if planner.excludes name then return none
  let path := planner.locate (some 0) segments
  match planner.conflict path segments type with
  | some reason => throw (.extractInvalidEntry planner.selected rawName reason)
  | none =>
      modify fun planner => record type planner 0 (segments.zip path)
      let recorded ← get
      modify fun planner => { planner with selected := planner.selected + 1 }
      return some
        { entryIndex := recorded.selected, name := name, segments := segments, type := type,
          mimeType :=
            if type = .file then recorded.resolveMimeType host (segments.getLastD [])
            else defaultMimeType }

end ExtractEntryPlanner

/-- An entry of the archive, with the uploaded content of a file. -/
structure ExtractSourceEntry where
  name : JsString
  type : VfsNodeType
  storageKey : JsString
  size : Nat
  sha256 : JsString
  encryptionIv : Option (List UInt8)

structure ExtractCommitEntry where
  entryIndex : Nat
  name : JsString
  segments : List JsString
  type : VfsNodeType
  blob : Option BlobData

def commitEntry (entry : ExtractSourceEntry) (planned : PlannedEntry) : ExtractCommitEntry where
  entryIndex := planned.entryIndex
  name := entry.name
  segments := planned.segments
  type := planned.type
  blob :=
    if planned.type = .file then
      some
        { storageKey := entry.storageKey, size := entry.size, mimeType := planned.mimeType,
          sha256 := entry.sha256, encryptionIv := entry.encryptionIv }
    else none

/-- `readEntries`: plan the entries in order and keep the selected ones. -/
def planEntries (host : Host) :
    ExtractEntryPlanner → List ExtractSourceEntry → Except VfsError (List ExtractCommitEntry)
  | _, [] => .ok []
  | planner, entry :: rest =>
      match planner.plan host entry.name entry.type with
      | .error error => .error error
      | .ok (none, planner) => planEntries host planner rest
      | .ok (some planned, planner) =>
          match planEntries host planner rest with
          | .error error => .error error
          | .ok entries => .ok (commitEntry entry planned :: entries)

/-! ## What the planner promises -/

theorem ExtractEntryPlanner.record_settings (type : VfsNodeType) (planner : ExtractEntryPlanner)
    (node : Nat) (steps : List (JsString × Option Nat)) :
    let recorded := record type planner node steps
    recorded.tarLike = planner.tarLike ∧
      recorded.destinationSegments = planner.destinationSegments ∧
      recorded.excludes = planner.excludes ∧ recorded.mimeTypes = planner.mimeTypes ∧
      recorded.selected = planner.selected := by
  induction steps generalizing planner node with
  | nil => exact ⟨rfl, rfl, rfl, rfl, rfl⟩
  | cons step rest induction =>
      rcases step with ⟨segment, existing⟩
      cases existing with
      | none => exact induction _ _
      | some child => exact induction _ _

theorem ExtractEntryPlanner.plan_keeps_destination {host : Host}
    {planner next : ExtractEntryPlanner} {rawName : JsString} {type : VfsNodeType}
    {planned : Option PlannedEntry}
    (result : planner.plan host rawName type = .ok (planned, next)) :
    next.destinationSegments = planner.destinationSegments := by
  unfold plan at result
  split at result
  · cases result
    rfl
  · dsimp only at result
    split at result
    · cases result
    · split at result
      · cases result
      · split at result
        · cases result
          rfl
        · split at result
          · cases result
          · cases result
            exact (record_settings _ _ _ _).2.1

theorem ExtractEntryPlanner.plan_fits {host : Host} {planner next : ExtractEntryPlanner}
    {rawName : JsString} {type : VfsNodeType} {planned : PlannedEntry}
    (result : planner.plan host rawName type = .ok (some planned, next)) :
    byteLength (joinSegments (planner.destinationSegments ++ planned.segments)) ≤ 4096 ∧
      planned.segments ≠ [] := by
  unfold plan at result
  split at result
  · cases result
  · dsimp only at result
    split at result
    · cases result
    · split at result
      · cases result
      · rename_i short
        split at result
        · cases result
        · split at result
          · cases result
          · cases result
            exact ⟨Nat.not_lt.mp short, List.splitOn_ne_nil _ _⟩

theorem ExtractEntryPlanner.plan_type {host : Host} {planner next : ExtractEntryPlanner}
    {rawName : JsString} {type : VfsNodeType} {planned : PlannedEntry}
    (result : planner.plan host rawName type = .ok (some planned, next)) :
    planned.type = type := by
  unfold plan at result
  split at result
  · cases result
  · dsimp only at result
    split at result
    · cases result
    · split at result
      · cases result
      · split at result
        · cases result
        · split at result
          · cases result
          · cases result
            rfl

def uploadedKeys (source : List ExtractSourceEntry) : List JsString :=
  (source.filter fun entry => entry.type == .file).map ExtractSourceEntry.storageKey

theorem planEntries_uploaded {host : Host} {planner : ExtractEntryPlanner}
    {source : List ExtractSourceEntry} {entries : List ExtractCommitEntry}
    (result : planEntries host planner source = .ok entries) :
    ∀ entry ∈ entries, ∀ blob, entry.blob = some blob → blob.storageKey ∈ uploadedKeys source := by
  induction source generalizing planner entries with
  | nil =>
      cases result
      simp
  | cons first rest induction =>
      have later : ∀ {key}, key ∈ uploadedKeys rest → key ∈ uploadedKeys (first :: rest) := by
        intro key member
        rcases List.mem_map.mp member with ⟨entry, selected, same⟩
        refine List.mem_map.mpr ⟨entry, ?_, same⟩
        rw [List.mem_filter] at selected ⊢
        exact ⟨List.mem_cons_of_mem _ selected.1, selected.2⟩
      unfold planEntries at result
      split at result
      · cases result
      · exact fun entry member blob isBlob => later (induction result entry member blob isBlob)
      · rename_i plannedEntry next planned
        split at result
        · cases result
        · rename_i others found
          cases result
          intro entry member blob isBlob
          rcases List.mem_cons.mp member with rfl | member
          · unfold commitEntry at isBlob
            dsimp only at isBlob
            split at isBlob
            · rename_i isFile
              cases isBlob
              have isType := ExtractEntryPlanner.plan_type planned
              refine List.mem_map.mpr ⟨first, List.mem_filter.mpr ⟨List.mem_cons_self, ?_⟩, rfl⟩
              simpa using isType.symm.trans isFile
            · cases isBlob
          · exact later (induction found entry member blob isBlob)

/-- An entry to commit that fits under the destination, with its content. -/
structure ExtractCommitEntry.Fits (destinationSegments : List JsString)
    (entry : ExtractCommitEntry) : Prop where
  short : byteLength (joinSegments (destinationSegments ++ entry.segments)) ≤ 4096
  nonempty : entry.segments ≠ []
  blob : entry.type = .file → ∃ blob, entry.blob = some blob

theorem planEntries_fits {host : Host} {planner : ExtractEntryPlanner}
    {source : List ExtractSourceEntry} {entries : List ExtractCommitEntry}
    (result : planEntries host planner source = .ok entries) :
    ∀ entry ∈ entries, entry.Fits planner.destinationSegments := by
  induction source generalizing planner entries with
  | nil =>
      cases result
      simp
  | cons first rest induction =>
      unfold planEntries at result
      split at result
      · cases result
      · rename_i next planned
        have same := ExtractEntryPlanner.plan_keeps_destination planned
        rw [← same]
        exact induction result
      · rename_i plannedEntry next planned
        have same := ExtractEntryPlanner.plan_keeps_destination planned
        split at result
        · cases result
        · rename_i others found
          cases result
          intro entry member
          rcases List.mem_cons.mp member with rfl | member
          · rcases ExtractEntryPlanner.plan_fits planned with ⟨short, nonempty⟩
            exact ⟨short, nonempty, fun isFile => ⟨_, if_pos isFile⟩⟩
          · rw [← same]
            exact induction found entry member

end Storix
