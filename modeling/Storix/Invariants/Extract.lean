import Storix.Invariants.Conditionals

/-! # Extracted archives

The entries are committed one by one under the destination. The directories already
found or made are remembered by their path below it; what is remembered stays right,
since no directory moves or goes away in between. -/

namespace Storix

open Foundation Foundation.Command JsString

variable {host : Host} {effects : Effects} {base : Database}
  {scope : List JsString → Prop} {held : List Uuid}
  {tx : MutationTx} {fault : VfsError → Prop}

/-! ## Remembered directories -/

def KeepsDirectories (tx next : MutationTx) : Prop :=
  ∀ id path, Locked tx id path → Locked next id path

theorem Grown.keepsDirectories {next : MutationTx} (grown : Grown tx next) :
    KeepsDirectories tx next := fun _ _ locked => locked.grown grown

theorem KeepsDirectories.trans {middle next : MutationTx} (first : KeepsDirectories tx middle)
    (second : KeepsDirectories middle next) : KeepsDirectories tx next :=
  fun id path locked => second id path (first id path locked)

structure KnownDirectories (tx : MutationTx) (destination : List JsString) (destinationId : Uuid)
    (directoryIds : DirectoryIds) : Prop where
  top : directoryIds.get [] = some destinationId
  known : ∀ key id, directoryIds.get key = some id → ∃ segments,
    (∀ name ∈ segments, PlainName name) ∧ key = join segments ∧
      Locked tx id (destination ++ segments)

section Directories

variable {destination : List JsString} {destinationId : Uuid} {directoryIds : DirectoryIds}

theorem KnownDirectories.keeps {next : MutationTx}
    (directories : KnownDirectories tx destination destinationId directoryIds)
    (keeps : KeepsDirectories tx next) :
    KnownDirectories next destination destinationId directoryIds where
  top := directories.top
  known := by
    intro key id isKnown
    rcases directories.known key id isKnown with ⟨segments, plain, isKey, locked⟩
    exact ⟨segments, plain, isKey, keeps id _ locked⟩

theorem join_injective {left right : List JsString} (leftPlain : ∀ name ∈ left, PlainName name)
    (rightPlain : ∀ name ∈ right, PlainName name) (same : join left = join right) :
    left = right := by
  refine joinSegments_injective leftPlain rightPlain ?_
  unfold joinSegments
  rw [same]

theorem KnownDirectories.locked
    (directories : KnownDirectories tx destination destinationId directoryIds)
    {segments : List JsString} (plain : ∀ name ∈ segments, PlainName name) {id : Uuid}
    (isKnown : directoryIds.get (join segments) = some id) :
    Locked tx id (destination ++ segments) := by
  rcases directories.known _ id isKnown with ⟨other, otherPlain, isKey, locked⟩
  rwa [join_injective plain otherPlain isKey]

theorem KnownDirectories.set
    (directories : KnownDirectories tx destination destinationId directoryIds)
    {segments : List JsString} (nonempty : segments ≠ [])
    (plain : ∀ name ∈ segments, PlainName name) {id : Uuid}
    (locked : Locked tx id (destination ++ segments)) :
    KnownDirectories tx destination destinationId (directoryIds.set (join segments) id) where
  top := by
    rw [OrderedMap.get_set, if_neg]
    · exact directories.top
    · intro isEmpty
      have isNil : [] = segments := join_injective (by simp) plain isEmpty
      exact nonempty isNil.symm
  known := by
    intro key other isKnown
    rw [OrderedMap.get_set] at isKnown
    split at isKnown
    · rename_i isKey
      cases isKnown
      exact ⟨segments, plain, isKey, locked⟩
    · exact directories.known key other isKnown

theorem knownDepth_locked
    (directories : KnownDirectories tx destination destinationId directoryIds)
    {segments : List JsString} (plain : ∀ name ∈ segments, PlainName name) (bound : Nat) :
    Locked tx
      ((directoryIds.get (join (segments.take (knownDepth directoryIds segments bound)))).getD
        destinationId)
      (destination ++ segments.take (knownDepth directoryIds segments bound)) := by
  have plainTake : ∀ depth, ∀ name ∈ segments.take depth, PlainName name :=
    fun depth name isName => plain name (List.mem_of_mem_take isName)
  induction bound with
  | zero =>
      have found : directoryIds.get (join (segments.take 0)) = some destinationId :=
        directories.top
      unfold knownDepth
      rw [found]
      exact directories.locked (plainTake 0) found
  | succ bound induction =>
      unfold knownDepth
      split
      · rename_i isKnown
        rw [OrderedMap.has_eq_true_iff] at isKnown
        cases found : directoryIds.get (join (segments.take (bound + 1))) with
        | none => exact absurd found isKnown
        | some id => exact directories.locked (plainTake (bound + 1)) found
      · exact induction

theorem ensureBelow_spec {entry : ExtractCommitEntry} {visited rest : List JsString}
    {parent : Uuid} (holds : TxInv host effects base scope held tx)
    (directories : KnownDirectories tx destination destinationId directoryIds)
    (locked : Locked tx parent (destination ++ visited))
    (valid : ValidPath host (destination ++ (visited ++ rest)))
    (inScope : ∀ front, front <+: destination ++ (visited ++ rest) → scope front) :
    Satisfies (ensureBelow host destination entry visited rest parent directoryIds)
      (fun result next => TxInv host effects base scope held next ∧ KeepsDirectories tx next ∧
        KnownDirectories next destination destinationId result.2 ∧
        Locked next result.1 (destination ++ (visited ++ rest))) Expected tx := by
  induction rest generalizing visited parent directoryIds tx with
  | nil => exact ⟨holds, fun _ _ stays => stays, directories, by simpa using locked⟩
  | cons name rest induction =>
      have whole : visited ++ name :: rest = visited ++ [name] ++ rest := by simp
      have isFront :
          destination ++ visited ++ [name] <+: destination ++ (visited ++ name :: rest) := by
        rw [whole, ← List.append_assoc, ← List.append_assoc]
        exact List.prefix_append _ _
      have plain : ∀ other ∈ visited ++ [name], PlainName other := by
        intro other isOther
        refine valid.plain other (List.mem_append_right _ ?_)
        rw [whole]
        exact List.mem_append_left _ isOther
      unfold ensureBelow
      rw [satisfies_bind]
      refine satisfies_lockTargetNode holds locked (fun missing => ?_) ?_
      · rw [satisfies_bind]
        refine satisfies_trackChangeFeedBefore holds _ ?_ fun feedBefore tracked nowSeen still => ?_
        · intro node member isParent above below
          rw [List.mem_singleton] at isParent
          exact .inl (holds.seenAbove node member (isParent ▸ locked.seen) above below)
        · have grown := grown_feedBefore still
          have lockedNow := locked.grown grown
          rw [satisfies_bind]
          refine (satisfies_createParentDirectory tracked lockedNow.directory lockedNow.reached
            lockedNow.seen missing (valid.of_prefix isFront)
            fun short isShort => inScope short (isShort.trans isFront)).imp ?_
          rintro child middle ⟨inv, created, member, standing, isDirectory, marked, _⟩
          have keeps := (grown.trans created).keepsDirectories
          have childLocked : Locked middle child.id (destination ++ (visited ++ [name])) :=
            ⟨⟨child, member, rfl, isDirectory⟩, List.append_assoc _ _ _ ▸ standing.reached,
              .inl marked⟩
          rw [whole] at valid inScope ⊢
          refine (induction inv ((directories.keeps keeps).set (by simp) plain childLocked)
            childLocked valid inScope).imp ?_
          rintro result next ⟨nextInv, nextKeeps, nextDirectories, nextLocked⟩
          exact ⟨nextInv, keeps.trans nextKeeps, nextDirectories, nextLocked⟩
      · intro node feedBefore _ member _ _ reached tracked grown seen
        refine satisfies_ite.mpr ⟨fun _ => trivial, fun isDirectory => ?_⟩
        have child : Locked { tx with feedBefore := feedBefore } node.id
            (destination ++ (visited ++ [name])) :=
          ⟨⟨node, member, rfl, by simpa using isDirectory⟩, List.append_assoc _ _ _ ▸ reached, seen⟩
        rw [whole] at valid inScope ⊢
        refine (induction tracked ((directories.keeps grown.keepsDirectories).set (by simp) plain
          child) child valid inScope).imp ?_
        rintro result next ⟨inv, keeps, nextDirectories, nextLocked⟩
        exact ⟨inv, grown.keepsDirectories.trans keeps, nextDirectories, nextLocked⟩

theorem ensureRelativeDirectory_spec {entry : ExtractCommitEntry} {segments : List JsString}
    (holds : TxInv host effects base scope held tx)
    (directories : KnownDirectories tx destination destinationId directoryIds)
    (valid : ValidPath host (destination ++ segments))
    (inScope : ∀ front, front <+: destination ++ segments → scope front) :
    Satisfies (ensureRelativeDirectory host destination destinationId directoryIds segments entry)
      (fun result next => TxInv host effects base scope held next ∧ KeepsDirectories tx next ∧
        KnownDirectories next destination destinationId result.2 ∧
        Locked next result.1 (destination ++ segments)) Expected tx := by
  have plain : ∀ name ∈ segments, PlainName name := fun name isName =>
    valid.plain name (List.mem_append_right _ isName)
  have whole : segments = segments.take (knownDepth directoryIds segments segments.length) ++
      segments.drop (knownDepth directoryIds segments segments.length) :=
    (List.take_append_drop _ _).symm
  unfold ensureRelativeDirectory
  rw [whole] at valid inScope
  refine (ensureBelow_spec holds directories (knownDepth_locked directories plain segments.length)
    valid inScope).imp ?_
  rintro result next ⟨inv, keeps, nextDirectories, locked⟩
  rw [← whole] at locked
  exact ⟨inv, keeps, nextDirectories, locked⟩

end Directories

/-! ## The content of one entry -/

theorem keepsDirectories_rewrite {transform : VfsNode → VfsNode} {next : MutationTx}
    (keeps : KeepsLinks tx.db.nodes transform) (isNodes : next.db.nodes = tx.db.nodes.map transform)
    (seen : ∀ id, tx.Seen id → next.Seen id) : KeepsDirectories tx next := by
  intro id path locked
  rcases locked.directory with ⟨parent, member, isId, isDirectory⟩
  refine ⟨⟨transform parent, ?_, (keeps.id_eq member).trans isId,
    (keeps.type_eq member).trans isDirectory⟩, ?_, seen id locked.seen⟩
  · rw [isNodes]
    exact List.mem_map_of_mem member
  · rw [isNodes]
    exact keeps.pathOf_iff.mpr locked.reached

theorem keepsDirectories_insert {row : VfsNode} {next : MutationTx}
    (isNodes : next.db.nodes = tx.db.nodes ++ [row]) (seen : ∀ id, tx.Seen id → next.Seen id) :
    KeepsDirectories tx next := by
  intro id path locked
  rcases locked.directory with ⟨parent, member, facts⟩
  refine ⟨⟨parent, isNodes ▸ List.mem_append_left _ member, facts⟩, ?_, seen id locked.seen⟩
  rw [isNodes]
  exact PathTo.mono (List.map_subset _ (List.subset_append_left _ _)) locked.reached

theorem seen_of_marked {changed : OrderedMap Uuid Bool} {next : MutationTx}
    (isChanged : next.changed = changed) (isFeed : next.feedBefore = tx.feedBefore)
    (marked : ∀ id, tx.changed.get id ≠ none → changed.get id ≠ none) (id : Uuid)
    (seen : tx.Seen id) : next.Seen id := by
  unfold MutationTx.Seen Seen at seen ⊢
  rw [isChanged, isFeed]
  exact seen.imp (marked id) fun recorded => recorded

structure Replaceable (tx : MutationTx) (node : VfsNode) (parentId : Uuid)
    (path : List JsString) : Prop where
  member : node ∈ tx.db.nodes
  below : node.parentId = some parentId
  reached : PathOf tx.db.nodes node.id path
  isFile : node.type = .file
  seen : tx.Seen node.id

theorem commitFile_spec {fileParentId : Uuid} {name : JsString} {blob : BlobData}
    {existing : Option VfsNode} {front : List JsString}
    (holds : TxInv host effects base scope held tx)
    (isStored : effects.stores blob) (locked : Locked tx fileParentId front)
    (absent : existing = none → tx.db.findChild fileParentId name = none)
    (present : ∀ node, existing = some node →
      Replaceable tx node fileParentId (front ++ [name]))
    (valid : ValidPath host (front ++ [name]))
    (inScope : ∀ short, short <+: front ++ [name] → scope short) :
    Satisfies (commitFile host fileParentId name blob existing)
      (fun _ next => TxInv host effects base scope held next ∧ KeepsDirectories tx next)
        Expected tx := by
  have created := holds.createBlob isStored
  unfold commitFile
  rw [satisfies_bind, satisfies_createBlob, satisfies_bind]
  refine satisfies_markAncestorChain created locked.reached locked.seen
    (fun short isShort => inScope short (isShort.trans (List.prefix_append _ _)))
    fun ancestors chained inv parentMarked still => ?_
  have marked : ∀ id, tx.changed.get id ≠ none → ancestors.get id ≠ none := still
  cases existing with
  | some node =>
      have replaceable := present node rfl
      rcases (holds.layout.shapes node replaceable.member).file replaceable.isFile with
        ⟨previous, previousSize, _, isBlob, isSize, _⟩
      change Satisfies (replaceBlob node (host.randomUUID tx.db.issued) blob >>= fun _ => pure true)
        _ _ _
      unfold replaceBlob
      rw [isBlob, isSize]
      simp only [satisfies_bind, satisfies_state, satisfies_updateNode]
      refine satisfies_markChanged fun changed marks => ?_
      rw [satisfies_recordLiveByteDelta, satisfies_decrementReferenceCount, satisfies_pure]
      have aboveMarked : ∀ id, node.parentId = some id → ancestors.get id ≠ none := by
        intro id isParent
        rw [replaceable.below] at isParent
        cases isParent
        exact parentMarked
      have swap : (previous :: host.randomUUID tx.db.issued :: held).Perm
          (host.randomUUID tx.db.issued :: (List.replicate 1 previous ++ held)) :=
        List.Perm.swap _ _ _
      have replaced := inv.replace (host.randomUUID tx.db.issued) blob.size blob.mimeType
        replaceable.member replaceable.reached (inScope _ (List.prefix_refl _))
        (replaceable.seen.imp (marked _) fun recorded => recorded) aboveMarked replaceable.isFile
        isBlob isSize swap marks
      refine ⟨replaced.decrement, keepsDirectories_rewrite
        (keepsLinks_withContent holds.layout replaceable.member replaceable.isFile _ _ _ _) rfl
        (seen_of_marked rfl rfl fun id isMarked => ?_)⟩
      rw [marks]
      exact markAll_ne_none_iff.mpr (.inl (marked id isMarked))
  | none =>
      have free := absent rfl
      rw [satisfies_bind, satisfies_createNode, satisfies_bind]
      refine satisfies_markChanged fun changed marks => ?_
      rw [satisfies_bind, satisfies_recordLiveByteDelta, satisfies_bind]
      refine satisfies_recordFolderFileDelta fun folders deltas => ?_
      rw [satisfies_bind, satisfies_recordLiveNodeDelta, satisfies_pure]
      refine ⟨inv.createFile
        (fileColumns fileParentId name (host.randomUUID tx.db.issued) blob.size blob.mimeType none)
        rfl rfl rfl rfl ⟨locked.directory, locked.reached, locked.seen.imp (marked _) id⟩ free valid
        parentMarked (inScope _ (List.prefix_refl _)) marks deltas, keepsDirectories_insert rfl
        (seen_of_marked rfl rfl fun id isMarked => ?_)⟩
      rw [marks]
      exact markAll_ne_none_iff.mpr (.inl (marked id isMarked))

/-! ## The entries -/

structure Committable (host : Host) (scope : List JsString → Prop) (destination : List JsString)
    (entry : ExtractCommitEntry) : Prop where
  valid : ValidPath host (destination ++ entry.segments)
  nonempty : entry.segments ≠ []
  blob : entry.type = .file → ∃ blob, entry.blob = some blob
  inScope : ∀ front, front <+: destination ++ entry.segments → scope front

section Entries

variable {destination : List JsString} {destinationId : Uuid} {directoryIds : DirectoryIds}

theorem commitExtractEntry_spec {entry : ExtractCommitEntry}
    (holds : TxInv host effects base scope held tx)
    (directories : KnownDirectories tx destination destinationId directoryIds)
    (committable : Committable host scope destination entry)
    (isStored : ∀ blob, entry.blob = some blob → effects.stores blob) :
    Satisfies (commitExtractEntry host destination destinationId directoryIds entry)
      (fun result next => TxInv host effects base scope held next ∧
        KnownDirectories next destination destinationId result.1) Expected tx := by
  unfold commitExtractEntry
  cases isType : entry.type with
  | directory =>
      rw [satisfies_bind]
      refine (ensureRelativeDirectory_spec holds directories committable.valid
        committable.inScope).imp ?_
      rintro ⟨directoryId, known⟩ next ⟨inv, _, nextDirectories, _⟩
      exact ⟨inv, nextDirectories⟩
  | file =>
      rcases committable.blob isType with ⟨blob, isBlob⟩
      have whole : destination ++ entry.segments.dropLast ++ [lastSegment entry.segments] =
          destination ++ entry.segments := by
        rw [List.append_assoc, dropLast_append_lastSegment committable.nonempty]
      have isFront : destination ++ entry.segments.dropLast <+: destination ++ entry.segments :=
        whole ▸ List.prefix_append _ _
      rw [isBlob]
      dsimp only
      rw [satisfies_bind]
      refine (ensureRelativeDirectory_spec holds directories (committable.valid.of_prefix isFront)
        fun front short => committable.inScope front (short.trans isFront)).imp ?_
      rintro ⟨fileParentId, known⟩ next ⟨inv, _, nextDirectories, locked⟩
      dsimp only at nextDirectories locked ⊢
      rw [satisfies_bind]
      refine satisfies_lockTargetNode inv locked (fun free => ?_) ?_
      · refine satisfies_ite.mpr ⟨fun _ => trivial, fun _ => ?_⟩
        refine satisfies_ite.mpr ⟨fun _ => trivial, fun _ => ?_⟩
        rw [satisfies_bind]
        refine (commitFile_spec inv (isStored blob isBlob) locked (fun _ => free)
          (fun node isSome => by cases isSome)
          (whole.symm ▸ committable.valid) (whole.symm ▸ committable.inScope)).imp ?_
        rintro replaced last ⟨lastInv, keeps⟩
        exact ⟨lastInv, nextDirectories.keeps keeps⟩
      · intro node feedBefore _ member below _ reached tracked grown seen
        refine satisfies_ite.mpr ⟨fun _ => trivial, fun notFile => ?_⟩
        refine satisfies_ite.mpr ⟨fun _ => trivial, fun _ => ?_⟩
        have isFile : node.type = .file := by simpa using notFile
        rw [satisfies_bind]
        refine (commitFile_spec tracked (isStored blob isBlob) (locked.grown grown)
          (fun isNone => by cases isNone) ?_
          (whole.symm ▸ committable.valid) (whole.symm ▸ committable.inScope)).imp ?_
        · rintro other ⟨⟩
          exact ⟨member, below, reached, isFile, seen⟩
        · rintro replaced last ⟨lastInv, keeps⟩
          exact ⟨lastInv, (nextDirectories.keeps grown.keepsDirectories).keeps keeps⟩

theorem commitExtractEntries_spec {entries : List ExtractCommitEntry} {created replaced : Nat}
    (holds : TxInv host effects base scope held tx)
    (directories : KnownDirectories tx destination destinationId directoryIds)
    (committable : ∀ entry ∈ entries, Committable host scope destination entry)
    (isStored : ∀ entry ∈ entries, ∀ blob, entry.blob = some blob → effects.stores blob) :
    Satisfies (commitExtractEntries host destination destinationId entries directoryIds created
        replaced)
      (fun _ next => TxInv host effects base scope held next) Expected tx := by
  induction entries generalizing directoryIds created replaced tx with
  | nil => exact holds
  | cons entry rest induction =>
      unfold commitExtractEntries
      rw [satisfies_bind]
      refine (commitExtractEntry_spec holds directories
        (committable entry List.mem_cons_self) (isStored entry List.mem_cons_self)).imp ?_
      rintro ⟨known, outcome⟩ next ⟨inv, nextDirectories⟩
      have others : ∀ entry ∈ rest, Committable host scope destination entry :=
        fun other isOther => committable other (List.mem_cons_of_mem _ isOther)
      have othersStored : ∀ entry ∈ rest, ∀ blob, entry.blob = some blob → effects.stores blob :=
        fun other isOther => isStored other (List.mem_cons_of_mem _ isOther)
      rcases outcome with _ | _ | _
      · exact induction inv nextDirectories others othersStored
      · exact induction inv nextDirectories others othersStored
      · exact induction inv nextDirectories others othersStored

end Entries

/-! ## The destination -/

theorem prepareDestination_spec {plan : ExtractCommitPlan} {existing : Option VfsNode}
    (nonempty : plan.destinationSegments ≠ []) (valid : ValidPath host plan.destinationSegments)
    (holds : TxInv host effects base (aboveScope plan.destinationSegments) held tx)
    (removes : ∀ rest, effects.removes (plan.destinationSegments ++ rest))
    (present : ∀ node, existing = some node → Locked tx node.id plan.destinationSegments) :
    Satisfies (prepareDestination host plan existing)
      (fun result next =>
        TxInv host effects base (pathScope plan.destinationSegments) held next ∧
          Locked next result.1 plan.destinationSegments) Expected tx := by
  have make : ∀ next, TxInv host effects base (pathScope plan.destinationSegments) held next →
      ∀ trashId : Option Uuid,
      Satisfies (ensureDirectory host plan.destinationSegments false >>= fun made =>
          (pure (made.1.id, trashId) : Mutating (Uuid × Option Uuid)))
        (fun result last => TxInv host effects base (pathScope plan.destinationSegments) held last ∧
          Locked last result.1 plan.destinationSegments) Expected next := by
    intro next inv trashId
    rw [satisfies_bind]
    refine (ensureDirectory_spec false inv nonempty valid fun front isFront => isFront).imp ?_
    rintro ⟨node, isNew⟩ last ⟨lastInv, _, member, isDirectory, reached, marked⟩
    exact ⟨lastInv, ⟨node, member, rfl, isDirectory⟩, reached, .inl (marked rfl)⟩
  unfold prepareDestination
  cases existing with
  | none => exact make tx (holds.mono fun _ => pathScope_of_above) none
  | some destination =>
      have locked := present destination rfl
      refine satisfies_ite.mpr ⟨fun _ => ?_, fun _ => ?_⟩
      · rw [satisfies_bind]
        refine (removeNode_spec nonempty holds (fun front isFront => isFront)
          (not_aboveScope_self nonempty) removes).imp ?_
        intro trashId next inv
        exact make next (inv.mono fun _ => pathScope_of_above) trashId
      · rw [satisfies_bind]
        refine satisfies_markAncestorChain (holds.mono fun _ => pathScope_of_above) locked.reached
          locked.seen (fun front isFront => isFront) fun changed chained inv marked _ => ?_
        exact ⟨inv, locked.directory, locked.reached, .inl marked⟩

theorem satisfies_checkDestination {existing : Option VfsNode} {revision : Option Revision}
    {path : JsString} {post : Unit → MutationTx → Prop} (continues : post () tx) :
    Satisfies (checkDestination existing revision path) post Expected tx := by
  unfold checkDestination
  cases revision with
  | none => exact continues
  | some revision =>
      cases existing with
      | none => trivial
      | some node => exact satisfies_assertRevision continues

theorem assertEntries_expected {entries : List ExtractCommitEntry} {error : VfsError}
    (failed : assertEntries host entries = .error error) : Expected error := by
  induction entries with
  | nil => cases failed
  | cons entry rest induction =>
      unfold assertEntries at failed
      split at failed
      · rename_i cause refused
        cases failed
        exact assertPathSegments_expected refused
      · exact induction failed

theorem assertEntries_valid {entries : List ExtractCommitEntry}
    (passed : assertEntries host entries = .ok ()) :
    ∀ entry ∈ entries, ValidPath host entry.segments := by
  induction entries with
  | nil => simp
  | cons entry rest induction =>
      unfold assertEntries at passed
      split at passed
      · cases passed
      · rename_i valid
        intro other member
        rcases List.mem_cons.mp member with rfl | member
        · exact valid
        · exact induction passed other member

/-! ## The whole archive -/

def extractScope (destination : List JsString) (entries : List ExtractCommitEntry)
    (front : List JsString) : Prop :=
  front <+: destination ∨ ∃ entry ∈ entries, front <+: destination ++ entry.segments

theorem ExtractCommitEntry.Fits.valid {destination : List JsString} {entry : ExtractCommitEntry}
    (fits : entry.Fits destination) (above : ValidPath host destination)
    (own : ValidPath host entry.segments) : ValidPath host (destination ++ entry.segments) := by
  rw [validPath_iff] at above own ⊢
  refine ⟨fits.short, fun segment member => ?_⟩
  rcases List.mem_append.mp member with member | member
  · exact above.2 segment member
  · exact own.2 segment member

theorem knownDirectories_start {destination : List JsString} {destinationId : Uuid}
    (locked : Locked tx destinationId destination) :
    KnownDirectories tx destination destinationId (OrderedMap.empty.set [] destinationId) where
  top := by rw [OrderedMap.get_set, if_pos rfl]
  known := by
    intro key id isKnown
    rw [OrderedMap.get_set] at isKnown
    split at isKnown
    · rename_i isKey
      cases isKnown
      exact ⟨[], by simp, isKey, by rwa [List.append_nil]⟩
    · cases isKnown

theorem applyExtract_spec {plan : ExtractCommitPlan} (nonempty : plan.destinationSegments ≠ [])
    (fits : ∀ entry ∈ plan.entries, entry.Fits plan.destinationSegments)
    (isStored : ∀ entry ∈ plan.entries, ∀ blob, entry.blob = some blob → effects.stores blob)
    (removes : ∀ rest, effects.removes (plan.destinationSegments ++ rest))
    (holds : TxInv host effects base (aboveScope plan.destinationSegments) held tx) :
    Satisfies (applyExtract host plan)
      (fun _ next =>
        TxInv host effects base (extractScope plan.destinationSegments plan.entries) held next)
      Expected tx := by
  have whole := dropLast_append_lastSegment nonempty
  unfold applyExtract
  rw [satisfies_bind, satisfies_lift]
  refine ⟨fun _ valid => ?_, fun error failed => assertPathSegments_expected failed⟩
  rw [satisfies_bind, satisfies_lift]
  refine ⟨fun _ passed => ?_, fun error failed => assertEntries_expected failed⟩
  have committable : ∀ entry ∈ plan.entries, Committable host
      (extractScope plan.destinationSegments plan.entries) plan.destinationSegments entry :=
    fun entry member => ⟨(fits entry member).valid valid (assertEntries_valid passed entry member),
      (fits entry member).nonempty, (fits entry member).blob,
      fun front isFront => .inr ⟨entry, member, isFront⟩⟩
  -- Once the destination stands, the entries go below it.
  have commit : ∀ existing next,
      TxInv host effects base (aboveScope plan.destinationSegments) held next →
      (∀ node, existing = some node → Locked next node.id plan.destinationSegments) →
      Satisfies
        (do
          checkDestination existing plan.destinationRevision (joinSegments plan.destinationSegments)
          let prepared ← prepareDestination host plan existing
          let counts ← commitExtractEntries host plan.destinationSegments
            prepared.1 plan.entries (OrderedMap.empty.set [] prepared.1) 0 0
          return ExtractCommitResult.mk (if existing.isSome then 200 else 201) prepared.1 counts.1
            counts.2 prepared.2)
        (fun _ last =>
          TxInv host effects base (extractScope plan.destinationSegments plan.entries) held last)
        Expected next := by
    intro existing next inv present
    rw [satisfies_bind]
    refine satisfies_checkDestination ?_
    rw [satisfies_bind]
    refine (prepareDestination_spec nonempty valid inv removes present).imp ?_
    rintro ⟨destinationId, trashId⟩ middle ⟨middleInv, locked⟩
    rw [satisfies_bind]
    refine (commitExtractEntries_spec (middleInv.mono fun _ => .inl)
      (knownDirectories_start locked) committable isStored).imp ?_
    rintro counts last lastInv
    exact lastInv
  rw [satisfies_bind]
  refine (lockParentChain_spec holds (fun isTrue => by cases isTrue)
    fun _ front isFront => isFront).imp ?_
  rintro parentId next ⟨inv, _, locked, _, _⟩
  rw [satisfies_bind]
  refine satisfies_lockTargetNode inv locked (fun free => ?_) ?_
  · refine satisfies_ite.mpr ⟨fun _ => trivial, fun _ => ?_⟩
    exact commit none next inv fun node isSome => by cases isSome
  · intro node feedBefore _ member below _ reached tracked grown seen
    rw [whole] at reached
    refine satisfies_ite.mpr ⟨fun _ => trivial, fun isDirectory => ?_⟩
    refine commit (some node) _ tracked ?_
    rintro other ⟨⟩
    exact ⟨⟨node, member, rfl, by simpa using isDirectory⟩, reached, seen⟩

theorem plan_expected {planner : ExtractEntryPlanner} {rawName : JsString} {type : VfsNodeType}
    {error : VfsError} (failed : planner.plan host rawName type = .error error) :
    Expected error := by
  unfold ExtractEntryPlanner.plan at failed
  split at failed
  · cases failed
  · dsimp only at failed
    split at failed
    · cases failed
      trivial
    · split at failed
      · cases failed
        trivial
      · split at failed
        · cases failed
        · split at failed
          · cases failed
            trivial
          · cases failed

theorem planEntries_expected {planner : ExtractEntryPlanner} {source : List ExtractSourceEntry}
    {error : VfsError} (failed : planEntries host planner source = .error error) :
    Expected error := by
  induction source generalizing planner with
  | nil => cases failed
  | cons entry rest induction =>
      unfold planEntries at failed
      split at failed
      · rename_i cause refused
        cases failed
        exact plan_expected refused
      · exact induction failed
      · split at failed
        · rename_i next planned cause refused
          cases failed
          exact induction refused
        · cases failed

end Storix
