import Mathlib.Data.List.Basic
import Mathlib.Data.List.Infix
import Mathlib.Data.List.Nodup
import Storix.Jobs.Backup

/-! # What was backed up is restored

A backup that completes while the server goes on has every object that its dump refers to. A
restore that completes gives the dump and these objects back, whatever the target held and
however many runs failed before. -/

namespace Storix

open Foundation JsString

/-! ## Paths and keys -/

def IsPath (path : List JsString) : Prop := path ≠ [] ∧ ∀ segment ∈ path, slash ∉ segment

structure IsFileTree (files : Files) : Prop where
  paths : ∀ file ∈ files, IsPath file.1
  distinct : (files.map Prod.fst).Nodup

theorem join_injective_of_isPath {left right : List JsString} (isLeft : IsPath left)
    (isRight : IsPath right) (same : join left = join right) : left = right := by
  rw [← split_join isLeft.1 isLeft.2, same, split_join isRight.1 isRight.2]

theorem normalizeSegments_subset {stack segments path : List JsString}
    (normal : normalizeSegments stack segments = some path) :
    ∀ segment ∈ path, segment ∈ stack ∨ segment ∈ segments := by
  induction segments generalizing stack with
  | nil =>
      cases normal
      exact fun segment member => .inl member
  | cons first rest induction =>
      intro segment member
      rw [normalizeSegments] at normal
      split at normal
      · rcases induction normal segment member with inStack | inRest
        · exact .inl inStack
        · exact .inr (List.mem_cons_of_mem _ inRest)
      · split at normal
        · split at normal
          · cases normal
          · rcases induction normal segment member with inStack | inRest
            · exact .inl (List.mem_of_mem_dropLast inStack)
            · exact .inr (List.mem_cons_of_mem _ inRest)
        · rcases induction normal segment member with inStack | inRest
          · rcases List.mem_append.mp inStack with inOld | isNew
            · exact .inl inOld
            · rw [List.mem_singleton.mp isNew]
              exact .inr List.mem_cons_self
          · exact .inr (List.mem_cons_of_mem _ inRest)

theorem mirrorPath_spec {key : JsString} {path : List JsString}
    (isPath : mirrorPath key = some path) (nonempty : key ≠ []) :
    join path = key ∧ IsPath path := by
  rw [mirrorPath] at isPath
  split at isPath
  · cases isPath
  · rename_i normal isNormal
    split at isPath
    · rename_i sameKey
      cases isPath
      refine ⟨sameKey, ?_, ?_⟩
      · rintro rfl
        exact nonempty sameKey.symm
      · intro segment member
        rcases normalizeSegments_subset isNormal segment member with inStack | inKey
        · cases inStack
        · have plain :=
            @forall_split (fun _ => True) (fun _ _ _ _ => ⟨trivial, trivial⟩) key trivial
          exact (plain segment inKey).1
    · cases isPath

theorem ne_nil_of_hasStart {key start : JsString} (isStart : start ∈ STORIX_KEY_PREFIXES)
    (has : hasStart key start = true) : key ≠ [] := by
  rintro rfl
  have nonempty : ∀ start ∈ STORIX_KEY_PREFIXES, start ≠ [] := by
    simp [STORIX_KEY_PREFIXES, BLOB_KEY_PREFIX, UPLOAD_STAGING_KEY_PREFIX]
  rw [hasStart, List.isPrefixOf_iff_prefix, List.prefix_nil] at has
  exact nonempty start isStart has

theorem isStorixKey_of_hasStart {key start : JsString} (isStart : start ∈ STORIX_KEY_PREFIXES)
    (has : hasStart key start = true) : isStorixKey key = true :=
  List.any_eq_true.mpr ⟨start, isStart, has⟩

/-! ## Writing files -/

theorem writeFile_spec {files after : Files} {path : List JsString} {bytes : StoredBytes}
    (written : writeFile files path bytes = some after) :
    after = files.filter (fun file => file.1 != path) ++ [(path, bytes)] := by
  rw [writeFile] at written
  split at written
  · cases written
  · exact (Option.some.inj written).symm

theorem writeFile_isFileTree {files after : Files} {path : List JsString} {bytes : StoredBytes}
    (isTree : IsFileTree files) (isPath : IsPath path)
    (written : writeFile files path bytes = some after) : IsFileTree after := by
  rw [writeFile_spec written]
  constructor
  · intro file member
    rcases List.mem_append.mp member with isOld | isNew
    · exact isTree.paths file (List.mem_filter.mp isOld).1
    · rw [List.mem_singleton.mp isNew]
      exact isPath
  · rw [List.map_append, List.map_singleton, List.nodup_append]
    refine ⟨?_, List.nodup_singleton _, ?_⟩
    · exact isTree.distinct.sublist (List.filter_sublist.map _)
    · intro other isOther new isNew same
      rcases List.mem_map.mp isOther with ⟨file, isFile, rfl⟩
      have different := (List.mem_filter.mp isFile).2
      rw [List.mem_singleton.mp isNew] at same
      simp [same] at different

theorem mem_writeFile {files after : Files} {path : List JsString} {bytes : StoredBytes}
    (written : writeFile files path bytes = some after) {file : List JsString × StoredBytes} :
    file ∈ after ↔ file.1 ≠ path ∧ file ∈ files ∨ file = (path, bytes) := by
  rw [writeFile_spec written, List.mem_append, List.mem_filter, List.mem_singleton,
    bne_iff_ne, and_comm]

/-! ## The backup while it runs -/

namespace BackupRun

variable {δ : Type} {referenced : δ → List JsString} {run : BackupRun δ}

/-- What has been copied: the files are those of the listed keys, an object that the dump refers
to has the bytes that it had at the dump, and every prefix that is not left is complete. -/
structure Copied (referenced : δ → List JsString) (dump : δ) (run : BackupRun δ)
    (left : List JsString) : Prop where
  isDump : run.directory.dump = some dump
  known : run.directory.unknownDirectories = []
  isTree : IsFileTree run.directory.files
  present : ∀ key ∈ referenced dump, run.atDump key ≠ none
  copies : ∀ key ∈ run.listed, ∃ path bytes, (path, bytes) ∈ run.directory.files ∧ join path = key
  bytes : ∀ key ∈ referenced dump, ∀ path bytes, (path, bytes) ∈ run.directory.files →
    join path = key → run.atDump key = some bytes
  complete : ∀ start ∈ STORIX_KEY_PREFIXES, start ∉ left →
    ∀ key ∈ referenced dump, hasStart key start = true → key ∈ run.listed

/-- Objects that were not deleted since the dump are what they were. -/
def Steady (run : BackupRun δ) : Prop :=
  ∀ key bytes, run.atDump key = some bytes → key ∉ run.gone → run.storage key = some bytes

def Kept (referenced : δ → List JsString) (dump : δ) (run : BackupRun δ) (left : List JsString) :
    Prop :=
  left ≠ [] → ∀ key ∈ referenced dump, key ∉ run.gone

def Holds (referenced : δ → List JsString) (run : BackupRun δ) : Prop :=
  match run.phase with
  | .idle => run.directory = ⟨true, none, [], []⟩ ∧ run.listed = []
  | .mirroring left => run.directory.isPartial = true ∧ left <:+ STORIX_KEY_PREFIXES ∧
      Steady run ∧ ∃ dump, Copied referenced dump run left ∧ Kept referenced dump run left
  | .done => run.directory.isPartial = false ∧ ∃ dump, Copied referenced dump run []
  | .failed => run.directory.isPartial = true

structure Mirroring (referenced : δ → List JsString) (run : BackupRun δ) (left : List JsString) :
    Prop where
  isPartial : run.directory.isPartial = true
  isSuffix : left <:+ STORIX_KEY_PREFIXES
  steady : Steady run
  copied : ∃ dump, Copied referenced dump run left ∧ Kept referenced dump run left

theorem holds_iff_mirroring {left : List JsString} (isPhase : run.phase = .mirroring left) :
    Holds referenced run ↔ Mirroring referenced run left := by
  rw [Holds, isPhase]
  constructor
  · rintro ⟨isPartial, isSuffix, steady, copied⟩
    exact ⟨isPartial, isSuffix, steady, copied⟩
  · rintro ⟨isPartial, isSuffix, steady, copied⟩
    exact ⟨isPartial, isSuffix, steady, copied⟩

theorem Copied.of_frame {dump : δ} {left : List JsString} (copied : Copied referenced dump run left)
    {after : BackupRun δ} (directory : after.directory = run.directory)
    (listed : after.listed = run.listed) (atDump : after.atDump = run.atDump) :
    Copied referenced dump after left where
  isDump := by
    rw [directory]
    exact copied.isDump
  known := by
    rw [directory]
    exact copied.known
  isTree := by
    rw [directory]
    exact copied.isTree
  present := by
    rw [atDump]
    exact copied.present
  copies := by
    rw [directory, listed]
    exact copied.copies
  bytes := by
    rw [directory, atDump]
    exact copied.bytes
  complete := by
    rw [listed]
    exact copied.complete

theorem Holds.of_frame (holds : Holds referenced run) {after : BackupRun δ}
    (phase : after.phase = run.phase) (directory : after.directory = run.directory)
    (listed : after.listed = run.listed) (atDump : after.atDump = run.atDump)
    (steady : Steady run → Steady after)
    (kept : ∀ start rest, run.phase = .mirroring (start :: rest) → ∀ dump,
      run.directory.dump = some dump → (∀ key ∈ referenced dump, key ∉ run.gone) →
      ∀ key ∈ referenced dump, key ∉ after.gone) : Holds referenced after := by
  rw [Holds] at holds ⊢
  rw [phase]
  cases isPhase : run.phase with
  | idle =>
      rw [isPhase] at holds
      rw [directory, listed]
      exact holds
  | mirroring left =>
      rw [isPhase] at holds
      dsimp only at holds ⊢
      rcases holds with ⟨isPartial, isSuffix, isSteady, dump, copied, isKept⟩
      rw [directory]
      refine ⟨isPartial, isSuffix, steady isSteady, dump,
        copied.of_frame directory listed atDump, ?_⟩
      intro nonempty
      cases left with
      | nil => exact absurd rfl nonempty
      | cons start rest => exact kept start rest isPhase dump copied.isDump (isKept nonempty)
  | done =>
      rw [isPhase] at holds
      dsimp only at holds ⊢
      rcases holds with ⟨isFinal, dump, copied⟩
      rw [directory]
      exact ⟨isFinal, dump, copied.of_frame directory listed atDump⟩
  | failed =>
      rw [isPhase] at holds
      rw [directory]
      exact holds

/-- A copy adds the file of the listed key, with the bytes of the dump if the dump refers to
it. -/
theorem copied_copy {dump : δ} {start : JsString} {rest : List JsString}
    (isStart : start ∈ STORIX_KEY_PREFIXES) (steady : Steady run)
    (copied : Copied referenced dump run (start :: rest))
    (kept : Kept referenced dump run (start :: rest)) {key : JsString}
    (has : hasStart key start = true) {path : List JsString} {bytes : StoredBytes} {files : Files}
    (isPath : mirrorPath key = some path) (found : run.storage key = some bytes)
    (written : writeFile run.directory.files path bytes = some files) :
    Copied referenced dump { run with
      directory := { run.directory with files }, listed := run.listed ++ [key] }
      (start :: rest) := by
  rcases mirrorPath_spec isPath (ne_nil_of_hasStart isStart has) with ⟨isKey, isNormal⟩
  exact {
    isDump := copied.isDump
    known := copied.known
    isTree := writeFile_isFileTree copied.isTree isNormal written
    present := copied.present
    copies := by
      intro other member
      rcases List.mem_append.mp member with isOld | isNew
      · rcases copied.copies other isOld with ⟨oldPath, oldBytes, isFile, isOther⟩
        by_cases same : oldPath = path
        · exact ⟨path, bytes, (mem_writeFile written).mpr (.inr rfl), same ▸ isOther⟩
        · exact ⟨oldPath, oldBytes, (mem_writeFile written).mpr (.inl ⟨same, isFile⟩), isOther⟩
      · rw [List.mem_singleton.mp isNew]
        exact ⟨path, bytes, (mem_writeFile written).mpr (.inr rfl), isKey⟩
    bytes := by
      intro other isReferenced otherPath otherBytes isFile isOther
      rcases (mem_writeFile written).mp isFile with ⟨different, isOld⟩ | isNew
      · exact copied.bytes other isReferenced otherPath otherBytes isOld isOther
      · cases isNew
        rw [isKey] at isOther
        subst isOther
        cases atDump : run.atDump key with
        | none => exact absurd atDump (copied.present key isReferenced)
        | some old =>
            have same := steady key old atDump (kept (by simp) key isReferenced)
            rw [found] at same
            exact same.symm
    complete := by
      intro other isOther notLeft later isReferenced hasOther
      have before := copied.complete other isOther notLeft later isReferenced hasOther
      exact List.mem_append_left _ before }

theorem holds_next (holds : Holds referenced run) {action : Action δ}
    (isAllowed : allowed referenced run action) {after : BackupRun δ}
    (taken : run.next action = some after) : Holds referenced after := by
  cases action with
  | commit database =>
      cases taken
      exact holds.of_frame rfl rfl rfl rfl id fun _ _ _ _ _ kept => kept
  | putObject key bytes =>
      cases taken
      refine holds.of_frame rfl rfl rfl rfl ?_ ?_
      · intro steady other old atDump notGone
        have there := steady other old atDump notGone
        have different : other ≠ key := by
          rintro rfl
          rw [show run.storage other = none from isAllowed] at there
          cases there
        change Function.update run.storage key (some bytes) other = some old
        rw [Function.update_of_ne different]
        exact there
      · exact fun _ _ _ _ _ kept => kept
  | deleteObject key =>
      cases taken
      refine holds.of_frame rfl rfl rfl rfl ?_ ?_
      · intro steady other old atDump notGone
        have different : other ≠ key := by
          rintro rfl
          exact notGone List.mem_cons_self
        change Function.update run.storage key none other = some old
        rw [Function.update_of_ne different]
        exact steady other old atDump fun isGone => notGone (List.mem_cons_of_mem _ isGone)
      · intro start rest isPhase dump isDump kept other isReferenced isGone
        rcases List.mem_cons.mp isGone with rfl | wasGone
        · exact isAllowed start rest isPhase dump isDump isReferenced
        · exact kept other isReferenced wasGone
  | dump =>
      rw [next] at taken
      split at taken
      · cases taken
      · rename_i isIdle
        rw [not_not] at isIdle
        cases taken
        rw [Holds, isIdle] at holds
        rcases holds with ⟨isEmpty, noneListed⟩
        refine ⟨?_, List.suffix_refl _, ?_, run.database, ?_, ?_⟩
        · change run.directory.isPartial = true
          rw [isEmpty]
        · exact fun _ _ atDump _ => atDump
        · exact {
            isDump := rfl
            known := by
              change run.directory.unknownDirectories = []
              rw [isEmpty]
            isTree := by
              change IsFileTree run.directory.files
              rw [isEmpty]
              exact ⟨fun _ member => by simp at member, List.nodup_nil⟩
            present := isAllowed
            copies := by
              intro key member
              rw [show run.listed = [] from noneListed] at member
              cases member
            bytes := by
              intro key _ path bytes isFile
              change (path, bytes) ∈ run.directory.files at isFile
              rw [isEmpty] at isFile
              cases isFile
            complete := fun start isStart notLeft => absurd isStart notLeft }
        · exact fun _ _ _ isGone => by cases isGone
  | copy key =>
      rw [next] at taken
      split at taken
      · rename_i start rest isPhase
        rcases (holds_iff_mirroring isPhase).mp holds with
          ⟨isPartial, isSuffix, steady, dump, copied, kept⟩
        have isStart : start ∈ STORIX_KEY_PREFIXES := isSuffix.mem List.mem_cons_self
        split at taken
        · cases taken
        · rename_i has
          rw [Bool.not_eq_false] at has
          split at taken
          · rename_i path bytes isPath found
            split at taken
            · rename_i files written
              have added := copied_copy isStart steady copied kept has isPath found written
              cases taken
              refine (holds_iff_mirroring ?_).mpr ⟨?_, isSuffix, ?_, dump, added, ?_⟩
              · exact isPhase
              · exact isPartial
              · exact steady
              · exact kept
            · cases taken
              exact isPartial
          · cases taken
            exact isPartial
      · cases taken
  | endOfList =>
      rw [next] at taken
      split at taken
      · rename_i start rest isPhase
        rcases (holds_iff_mirroring isPhase).mp holds with
          ⟨isPartial, isSuffix, steady, dump, copied, kept⟩
        cases taken
        refine ⟨isPartial, (List.suffix_cons _ _).trans isSuffix, steady, dump, ?_, ?_⟩
        · exact {
            isDump := copied.isDump
            known := copied.known
            isTree := copied.isTree
            present := copied.present
            copies := copied.copies
            bytes := copied.bytes
            complete := by
              intro other isOther notLeft key isReferenced has
              by_cases same : other = start
              · rw [same] at has
                exact isAllowed start rest isPhase key has (copied.present key isReferenced)
                  (kept (by simp) key isReferenced)
              · apply copied.complete other isOther _ key isReferenced has
                rw [List.mem_cons, not_or]
                exact ⟨same, notLeft⟩ }
        · exact fun _ => kept (by simp)
      · cases taken
  | rename =>
      rw [next] at taken
      split at taken
      · rename_i isPhase
        rcases (holds_iff_mirroring isPhase).mp holds with ⟨-, -, -, dump, copied, -⟩
        cases taken
        exact ⟨rfl, dump, {
          isDump := copied.isDump
          known := copied.known
          isTree := copied.isTree
          present := copied.present
          copies := copied.copies
          bytes := copied.bytes
          complete := copied.complete }⟩
      · cases taken
  | fail =>
      rw [next] at taken
      split at taken
      · cases taken
      · rename_i notDone
        cases taken
        rw [Holds] at holds ⊢
        dsimp only
        cases isPhase : run.phase with
        | idle =>
            rw [isPhase] at holds
            rw [holds.1]
        | mirroring left =>
            rw [isPhase] at holds
            exact holds.1
        | done => exact absurd isPhase notDone
        | failed =>
            rw [isPhase] at holds
            exact holds

theorem holds_of_reachable (reached : machine.ReachableBy (allowed referenced) run) :
    Holds referenced run := by
  apply reached.invariant (Holds referenced)
  · intro start isStart
    rw [Holds, isStart.phase]
    exact ⟨isStart.directory, isStart.listed⟩
  · exact fun _ _ _ isAllowed holds taken => holds_next holds isAllowed taken

/-- A backup that is done has each object that its dump refers to, as it was at the dump. -/
theorem done_spec (reached : machine.ReachableBy (allowed referenced) run)
    (isDone : run.phase = .done) :
    run.directory.isPartial = false ∧ run.directory.unknownDirectories = [] ∧
      IsFileTree run.directory.files ∧ ∃ dump, run.directory.dump = some dump ∧
        ∀ key ∈ referenced dump, isStorixKey key = true → ∃ path bytes,
          (path, bytes) ∈ run.directory.files ∧ join path = key ∧
            run.atDump key = some bytes := by
  have holds := holds_of_reachable reached
  rw [Holds, isDone] at holds
  rcases holds with ⟨isFinal, dump, copied⟩
  refine ⟨isFinal, copied.known, copied.isTree, dump, copied.isDump, ?_⟩
  intro key isReferenced isStorix
  rcases List.any_eq_true.mp isStorix with ⟨start, isStart, has⟩
  have isListed := copied.complete start isStart (by simp) key isReferenced has
  rcases copied.copies key isListed with ⟨path, bytes, isFile, isKey⟩
  exact ⟨path, bytes, isFile, isKey, copied.bytes key isReferenced path bytes isFile isKey⟩

end BackupRun

/-! ## The target while it is restored -/

namespace RestoreRun

variable {δ : Type} {source : BackupDir δ} {force : Bool} {hasNamespaces : δ → Option Bool}
  {target : Storage} {run : RestoreRun δ}

/-- The files that were put: those under a prefix are in the storage, and their keys are
known. -/
structure Put (files : Files) (storage : Storage) (keys : List JsString) : Prop where
  stored : ∀ path bytes, (path, bytes) ∈ files → isStorixKey (fileKey path) = true →
    storage (fileKey path) = some bytes ∧ fileKey path ∈ keys
  known : ∀ key ∈ keys, ∃ file ∈ files, fileKey file.1 = key

/-- Under the prefixes that are not left, what is not in the backup is only what is still to be
deleted. -/
def Cleaned (storage : Storage) (keys prefixes items : List JsString) : Prop :=
  ∀ start ∈ STORIX_KEY_PREFIXES, start ∉ prefixes → ∀ key, hasStart key start = true →
    storage key ≠ none → key ∈ keys ∨ key ∈ items

def Holds (source : BackupDir δ) (force : Bool) (run : RestoreRun δ) : Prop :=
  match run.phase with
  | .idle => True
  | .accepted => source.isPartial = false
  | .restoring left keys => source.dump = some run.database ∧
      ∃ before, source.files = before ++ left ∧ Put before run.storage keys
  | .cleaning prefixes keys => source.dump = some run.database ∧ force = true ∧
      prefixes <:+ STORIX_KEY_PREFIXES ∧ Put source.files run.storage keys ∧
      Cleaned run.storage keys prefixes []
  | .deleting items prefixes keys => source.dump = some run.database ∧ force = true ∧
      prefixes <:+ STORIX_KEY_PREFIXES ∧ Put source.files run.storage keys ∧
      Cleaned run.storage keys prefixes items ∧ ∀ item ∈ items, isStorixKey item = true
  | .done => source.dump = some run.database ∧ ∃ keys, Put source.files run.storage keys ∧
      (force = true → Cleaned run.storage keys [] [])

def Untouched (target : Storage) (run : RestoreRun δ) : Prop :=
  ∀ key, isStorixKey key = false → run.storage key = target key

theorem Put.add {files : Files} {storage : Storage} {keys : List JsString}
    (put : Put files storage keys) {path : List JsString} {bytes : StoredBytes}
    (isNew : ∀ file ∈ files, fileKey file.1 ≠ fileKey path) :
    Put (files ++ [(path, bytes)])
      (Function.update storage (fileKey path) (some bytes)) (keys ++ [fileKey path]) where
  stored other otherBytes member isStorix := by
    rcases List.mem_append.mp member with isOld | isLast
    · have different := isNew (other, otherBytes) isOld
      rw [Function.update_of_ne different]
      have facts := put.stored other otherBytes isOld isStorix
      exact ⟨facts.1, List.mem_append_left _ facts.2⟩
    · cases List.mem_singleton.mp isLast
      exact ⟨Function.update_self .., List.mem_append_right _ List.mem_cons_self⟩
  known key member := by
    rcases List.mem_append.mp member with isOld | isLast
    · rcases put.known key isOld with ⟨file, isFile, isKey⟩
      exact ⟨file, List.mem_append_left _ isFile, isKey⟩
    · rw [List.mem_singleton.mp isLast]
      exact ⟨(path, bytes), List.mem_append_right _ List.mem_cons_self, rfl⟩

theorem Put.skip {files : Files} {storage : Storage} {keys : List JsString}
    (put : Put files storage keys) {path : List JsString} {bytes : StoredBytes}
    (isOther : isStorixKey (fileKey path) = false) :
    Put (files ++ [(path, bytes)]) storage keys where
  stored other otherBytes member isStorix := by
    rcases List.mem_append.mp member with isOld | isLast
    · exact put.stored other otherBytes isOld isStorix
    · cases List.mem_singleton.mp isLast
      rw [isOther] at isStorix
      cases isStorix
  known key member := by
    rcases put.known key member with ⟨file, isFile, isKey⟩
    exact ⟨file, List.mem_append_left _ isFile, isKey⟩

theorem Put.delete {files : Files} {storage : Storage} {keys : List JsString}
    (put : Put files storage keys) {item : JsString} (notKnown : item ∉ keys) :
    Put files (Function.update storage item none) keys where
  stored path bytes member isStorix := by
    have facts := put.stored path bytes member isStorix
    have different : fileKey path ≠ item := by
      rintro rfl
      exact notKnown facts.2
    rw [Function.update_of_ne different]
    exact facts
  known := put.known

theorem holds_put (isTree : IsFileTree source.files) (holds : Holds source force run)
    {fate : Fate} {after : RestoreRun δ}
    (taken : next source force hasNamespaces run (.put fate) = some after) :
    Holds source force after := by
  rw [next] at taken
  split at taken
  · rename_i path bytes left keys isPhase
    rw [Holds, isPhase] at holds
    rcases holds with ⟨isDump, before, isFiles, put⟩
    have isNext : source.files = (before ++ [(path, bytes)]) ++ left := by
      rw [isFiles, List.append_assoc]
      rfl
    have isNew : ∀ file ∈ before, fileKey file.1 ≠ fileKey path := by
      intro file isFile same
      have isMember : file ∈ source.files := by
        rw [isFiles]
        exact List.mem_append_left _ isFile
      have pathMember : (path, bytes) ∈ source.files := by
        rw [isFiles]
        exact List.mem_append_right _ List.mem_cons_self
      have samePath := join_injective_of_isPath (isTree.paths file isMember)
        (isTree.paths _ pathMember) same
      have distinct := isTree.distinct
      rw [isFiles, List.map_append, List.nodup_append] at distinct
      exact distinct.2.2 file.1 (List.mem_map_of_mem isFile) path (by simp) samePath
    dsimp only at taken
    by_cases isOther : isStorixKey (fileKey path) = false
    · rw [if_pos isOther] at taken
      cases taken
      exact ⟨isDump, before ++ [(path, bytes)], isNext, put.skip isOther⟩
    · rw [if_neg isOther] at taken
      cases fate with
      | done =>
          cases taken
          exact ⟨isDump, before ++ [(path, bytes)], isNext, put.add isNew⟩
      | lost =>
          cases taken
          trivial
      | failed =>
          cases taken
          trivial
  · cases taken

theorem holds_delete (holds : Holds source force run) {fate : Fate} {after : RestoreRun δ}
    (taken : next source force hasNamespaces run (.delete fate) = some after) :
    Holds source force after := by
  rw [next] at taken
  split at taken
  · rename_i item items prefixes keys isPhase
    rw [Holds, isPhase] at holds
    rcases holds with ⟨isDump, isForce, isSuffix, put, cleaned, storix⟩
    have others : ∀ other ∈ items, isStorixKey other = true :=
      fun other member => storix other (List.mem_cons_of_mem _ member)
    split at taken
    · rename_i isKnown
      cases taken
      refine ⟨isDump, isForce, isSuffix, put, ?_, others⟩
      intro start isStart notLeft key has there
      rcases cleaned start isStart notLeft key has there with inKeys | inItems
      · exact .inl inKeys
      · rcases List.mem_cons.mp inItems with rfl | inRest
        · exact .inl isKnown
        · exact .inr inRest
    · rename_i notKnown
      cases fate with
      | done =>
          cases taken
          refine ⟨isDump, isForce, isSuffix, put.delete notKnown, ?_, others⟩
          intro start isStart notLeft key has there
          have different : key ≠ item := by
            rintro rfl
            exact there (Function.update_self ..)
          change Function.update run.storage item none key ≠ none at there
          rw [Function.update_of_ne different] at there
          rcases cleaned start isStart notLeft key has there with inKeys | inItems
          · exact .inl inKeys
          · rcases List.mem_cons.mp inItems with same | inRest
            · exact absurd same different
            · exact .inr inRest
      | lost =>
          cases taken
          trivial
      | failed =>
          cases taken
          trivial
  · cases taken

theorem holds_next (isTree : IsFileTree source.files) (holds : Holds source force run)
    {action : Action δ} (isAllowed : allowed run action) {after : RestoreRun δ}
    (taken : next source force hasNamespaces run action = some after) :
    Holds source force after := by
  cases action with
  | start =>
      rw [next] at taken
      split at taken
      · cases taken
      · rename_i accepted
        split at taken
        · cases taken
        · cases taken
          rw [not_or, Bool.not_eq_true] at accepted
          exact accepted.1
  | restoreDump failed =>
      rw [next] at taken
      split at taken
      · rename_i dump isPhase isDump
        cases failed with
        | none =>
            cases taken
            refine ⟨isDump, [], rfl, ?_, ?_⟩
            · exact fun _ _ member => by cases member
            · exact fun _ member => by cases member
        | some left =>
            cases taken
            trivial
      · cases taken
  | put fate => exact holds_put isTree holds taken
  | endOfFiles =>
      rw [next] at taken
      split at taken
      · rename_i keys isPhase
        rw [Holds, isPhase] at holds
        rcases holds with ⟨isDump, before, isFiles, put⟩
        rw [List.append_nil] at isFiles
        rw [← isFiles] at put
        cases taken
        cases force with
        | true =>
            exact ⟨isDump, rfl, List.suffix_refl _, put,
              fun start isStart notLeft => absurd isStart notLeft⟩
        | false => exact ⟨isDump, keys, put, fun isForce => by cases isForce⟩
      · cases taken
  | list items =>
      rw [next] at taken
      split at taken
      · rename_i start prefixes keys isPhase
        rw [Holds, isPhase] at holds
        rcases holds with ⟨isDump, isForce, isSuffix, put, cleaned⟩
        have isStart : start ∈ STORIX_KEY_PREFIXES := isSuffix.mem List.mem_cons_self
        have listing := isAllowed start prefixes keys isPhase
        cases taken
        refine ⟨isDump, isForce, (List.suffix_cons _ _).trans isSuffix, put, ?_, ?_⟩
        · intro other isOther notLeft key has there
          by_cases same : other = start
          · rw [same] at has
            exact .inr ((listing key).mpr ⟨has, there⟩)
          · have notIn : other ∉ start :: prefixes := by
              rw [List.mem_cons, not_or]
              exact ⟨same, notLeft⟩
            rcases cleaned other isOther notIn key has there with inKeys | inNone
            · exact .inl inKeys
            · cases inNone
        · exact fun item member => isStorixKey_of_hasStart isStart ((listing item).mp member).1
      · cases taken
  | delete fate => exact holds_delete holds taken
  | endOfItems =>
      rw [next] at taken
      split at taken
      · rename_i prefixes keys isPhase
        rw [Holds, isPhase] at holds
        rcases holds with ⟨isDump, isForce, isSuffix, put, cleaned, -⟩
        cases taken
        exact ⟨isDump, isForce, isSuffix, put, cleaned⟩
      · cases taken
  | finish =>
      rw [next] at taken
      split at taken
      · rename_i keys isPhase
        rw [Holds, isPhase] at holds
        rcases holds with ⟨isDump, isForce, isSuffix, put, cleaned⟩
        cases taken
        exact ⟨isDump, keys, put, fun _ => cleaned⟩
      · cases taken

theorem untouched_update (untouched : Untouched target run) {key : JsString}
    (isStorix : isStorixKey key = true) (value : Option StoredBytes) {other : JsString}
    (isOther : isStorixKey other = false) :
    Function.update run.storage key value other = target other := by
  have different : other ≠ key := by
    rintro rfl
    rw [isStorix] at isOther
    cases isOther
  rw [Function.update_of_ne different]
  exact untouched other isOther

theorem untouched_next (holds : Holds source force run) (untouched : Untouched target run)
    {action : Action δ} {after : RestoreRun δ}
    (taken : next source force hasNamespaces run action = some after) :
    Untouched target after := by
  cases action with
  | start =>
      rw [next] at taken
      split at taken
      · cases taken
      · split at taken
        · cases taken
        · cases taken
          exact untouched
  | restoreDump failed =>
      rw [next] at taken
      split at taken
      · cases failed with
        | none =>
            cases taken
            exact untouched
        | some left =>
            cases taken
            exact untouched
      · cases taken
  | put fate =>
      rw [next] at taken
      split at taken
      · rename_i path bytes left keys isPhase
        dsimp only at taken
        by_cases isOther : isStorixKey (fileKey path) = false
        · rw [if_pos isOther] at taken
          cases taken
          exact untouched
        · rw [if_neg isOther] at taken
          rw [Bool.not_eq_false] at isOther
          cases fate with
          | done =>
              cases taken
              exact fun other outside => untouched_update untouched isOther (some bytes) outside
          | lost =>
              cases taken
              exact fun other outside => untouched_update untouched isOther (some bytes) outside
          | failed =>
              cases taken
              exact untouched
      · cases taken
  | endOfFiles =>
      rw [next] at taken
      split at taken
      · cases taken
        exact untouched
      · cases taken
  | list items =>
      rw [next] at taken
      split at taken
      · cases taken
        exact untouched
      · cases taken
  | delete fate =>
      rw [next] at taken
      split at taken
      · rename_i item items prefixes keys isPhase
        rw [Holds, isPhase] at holds
        have isStorix := holds.2.2.2.2.2 item List.mem_cons_self
        by_cases isKnown : item ∈ keys
        · rw [if_pos isKnown] at taken
          cases taken
          exact untouched
        · rw [if_neg isKnown] at taken
          cases fate with
          | done =>
              cases taken
              exact fun other outside => untouched_update untouched isStorix none outside
          | lost =>
              cases taken
              exact fun other outside => untouched_update untouched isStorix none outside
          | failed =>
              cases taken
              exact untouched
      · cases taken
  | endOfItems =>
      rw [next] at taken
      split at taken
      · cases taken
        exact untouched
      · cases taken
  | finish =>
      rw [next] at taken
      split at taken
      · cases taken
        exact untouched
      · cases taken

theorem holds_of_reachable (isTree : IsFileTree source.files)
    (reached : (machine source force hasNamespaces target).ReachableBy allowed run) :
    Holds source force run ∧ Untouched target run := by
  apply reached.invariant fun run => Holds source force run ∧ Untouched target run
  · rintro start ⟨isIdle, isTarget⟩
    rw [Holds, isIdle]
    exact ⟨trivial, fun key _ => by rw [isTarget]⟩
  · rintro _ _ _ isAllowed ⟨holds, untouched⟩ taken
    exact ⟨holds_next isTree holds isAllowed taken, untouched_next holds untouched taken⟩

theorem done_spec (isTree : IsFileTree source.files)
    (reached : (machine source force hasNamespaces target).ReachableBy allowed run)
    (isDone : run.phase = .done) :
    source.dump = some run.database ∧
      (∀ path bytes, (path, bytes) ∈ source.files → isStorixKey (join path) = true →
        run.storage (join path) = some bytes) ∧
      (force = true → ∀ key, isStorixKey key = true → run.storage key ≠ none →
        ∃ file ∈ source.files, join file.1 = key) := by
  have holds := (holds_of_reachable isTree reached).1
  rw [Holds, isDone] at holds
  rcases holds with ⟨isDump, keys, put, cleaned⟩
  refine ⟨isDump, ?_, ?_⟩
  · exact fun path bytes member isStorix => (put.stored path bytes member isStorix).1
  · intro isForce key isStorix there
    rcases List.any_eq_true.mp isStorix with ⟨start, isStart, has⟩
    rcases cleaned isForce start isStart (by simp) key has there with inKeys | inNone
    · exact put.known key inKeys
    · cases inNone

/-- A restore gives back what the directory holds, whatever the target held and however many
runs stopped before, each at any step. When a run is done, the database is the dump, each file
with a Storix key is in the storage, and a forced run leaves no other object with such a key.
At every moment the objects with other keys are as they were. -/
theorem restore_gives_back_the_backup (isTree : IsFileTree source.files)
    (reached : (machine source force hasNamespaces target).ReachableBy allowed run) :
    (∀ key, isStorixKey key = false → run.storage key = target key) ∧
      (run.phase = .done → source.dump = some run.database ∧
        (∀ path bytes, (path, bytes) ∈ source.files → isStorixKey (join path) = true →
          run.storage (join path) = some bytes) ∧
        (force = true → ∀ key, isStorixKey key = true → run.storage key ≠ none →
          ∃ file ∈ source.files, join file.1 = key)) := by
  constructor
  · exact (holds_of_reachable isTree reached).2
  · exact done_spec isTree reached

end RestoreRun

namespace Small

/-- `blobs/a` -/
def objectKey : JsString := BLOB_KEY_PREFIX ++ [0x61]

/-- `other` -/
def foreignKey : JsString := [0x6f, 0x74, 0x68, 0x65, 0x72]

def backupDir : BackupDir Nat where
  isPartial := false
  dump := some 7
  files := [(split objectKey, [1, 2])]
  unknownDirectories := []

theorem backupDir_isFileTree : IsFileTree backupDir.files where
  paths := by
    intro file member
    rw [List.mem_singleton.mp member]
    have plain : (split objectKey).all (fun segment => !segment.contains slash) = true := by decide
    refine ⟨by decide, fun segment isSegment inSegment => ?_⟩
    have known := List.all_eq_true.mp plain segment isSegment
    simp [inSegment] at known
  distinct := by simp [backupDir]

def foreign : Storage := fun key => if key = foreignKey then some [5] else none

theorem restore_gives_back_the_backup_twice : ∃ run : RestoreRun Nat,
    run.database = 7 ∧ run.storage objectKey = some [1, 2] ∧
      run.storage foreignKey = some [5] := by
  have passes : ((RestoreRun.machine backupDir false (fun _ => some false) foreign).trace
      ⟨0, foreign, .idle⟩ [.start, .restoreDump none, .put .lost, .start, .restoreDump none,
        .put .done, .endOfFiles]).any
      (fun run => match run.phase with | .done => true | _ => false) = true := by decide
  have begun : (RestoreRun.machine backupDir false (fun _ => some false) foreign).ReachableBy
      RestoreRun.allowed ⟨0, foreign, .idle⟩ := .start ⟨rfl, rfl⟩
  have isAllowed : ∀ action ∈ ([.start, .restoreDump none, .put .lost, .start, .restoreDump none,
      .put .done, .endOfFiles] : List (RestoreRun.Action Nat)),
      ∀ run, RestoreRun.allowed run action := by
    intro action member run
    simp only [List.mem_cons, List.not_mem_nil, or_false] at member
    rcases member with rfl | rfl | rfl | rfl | rfl | rfl | rfl <;> trivial
  rcases Machine.exists_reachableBy begun isAllowed passes with ⟨run, reached, ends⟩
  have isDone : run.phase = .done := by
    cases isPhase : run.phase <;> simp [isPhase] at ends
    rfl
  rcases RestoreRun.restore_gives_back_the_backup backupDir_isFileTree reached with
    ⟨untouched, isRestored⟩
  rcases isRestored isDone with ⟨isDump, stored, -⟩
  refine ⟨run, (Option.some.inj isDump).symm, ?_, untouched foreignKey (by decide)⟩
  exact stored (split objectKey) [1, 2] List.mem_cons_self (by decide)

end Small

/-! ## From one to the other -/

variable {δ : Type} {referenced : δ → List JsString}

/-- A backup that was taken while the server went on is restorable. Once its run is done, every
target that a restore brings to its end has the database of the dump, and under each Storix key
that the dump refers to the bytes that the object had when the dump was made. A backup whose
run is not done is not accepted. -/
theorem backup_is_restorable {backup : BackupRun δ}
    (backedUp : BackupRun.machine.ReachableBy (BackupRun.allowed referenced) backup)
    (force : Bool) (hasNamespaces : δ → Option Bool) :
    (backup.phase ≠ .done → ∀ run : RestoreRun δ,
      RestoreRun.next backup.directory force hasNamespaces run .start = none) ∧
    (backup.phase = .done → ∀ target run,
      (RestoreRun.machine backup.directory force hasNamespaces target).ReachableBy
        RestoreRun.allowed run → run.phase = .done →
      backup.directory.dump = some run.database ∧
        ∀ key ∈ referenced run.database, isStorixKey key = true →
          ∃ bytes, backup.atDump key = some bytes ∧ run.storage key = some bytes) := by
  constructor
  · intro notDone run
    have isPartial : backup.directory.isPartial = true := by
      have holds := BackupRun.holds_of_reachable backedUp
      rw [BackupRun.Holds] at holds
      cases isPhase : backup.phase with
      | idle =>
          rw [isPhase] at holds
          rw [holds.1]
      | mirroring left =>
          rw [isPhase] at holds
          exact holds.1
      | done => exact absurd isPhase notDone
      | failed =>
          rw [isPhase] at holds
          exact holds
    rw [RestoreRun.next, if_pos (.inl isPartial)]
  · intro isDone target run reached isRestored
    rcases BackupRun.done_spec backedUp isDone with ⟨-, -, isTree, dump, isDump, copies⟩
    rcases RestoreRun.done_spec isTree reached isRestored with ⟨isDatabase, stored, -⟩
    refine ⟨isDatabase, ?_⟩
    rw [isDump] at isDatabase
    cases isDatabase
    intro key isReferenced isStorix
    rcases copies key isReferenced isStorix with ⟨path, bytes, isFile, rfl, atDump⟩
    exact ⟨bytes, atDump, stored path bytes isFile isStorix⟩

namespace Small

open BackupRun

/-- The dump refers to `blobs/a`. -/
def references : Nat → List JsString := fun _ => [objectKey]

def begun : BackupRun Nat where
  database := 7
  storage key := if key = objectKey then some [1, 2] else none
  phase := .idle
  directory := ⟨true, none, [], []⟩
  listed := []
  atDump _ := none
  gone := []

def dumped : BackupRun Nat :=
  { begun with
    phase := .mirroring STORIX_KEY_PREFIXES
    directory := ⟨true, some 7, [], []⟩
    atDump := begun.storage }

def copiedOne : BackupRun Nat :=
  { dumped with directory := ⟨true, some 7, backupDir.files, []⟩, listed := [objectKey] }

theorem copiedOne_reachable : machine.ReachableBy (allowed references) copiedOne := by
  have first : machine.ReachableBy (allowed references) begun := .start ⟨rfl, rfl, rfl⟩
  have finds : allowed references begun .dump := by
    intro key isReferenced
    rw [List.mem_singleton.mp isReferenced]
    decide
  have second : machine.ReachableBy (allowed references) dumped := .step first finds rfl
  have copies : allowed references dumped (.copy objectKey) := trivial
  exact .step second copies rfl

theorem copiedOne_listed (left : List JsString) :
    allowed references { copiedOne with phase := .mirroring left } .endOfList := by
  intro start rest _ key _ there _
  by_cases same : key = objectKey
  · rw [same]
    exact List.mem_singleton_self _
  · exact absurd (if_neg same) there

theorem backup_is_restorable_once : ∃ backup : BackupRun Nat, ∃ run : RestoreRun Nat,
    backup.phase = .done ∧ run.phase = .done ∧ run.database = 7 ∧
      run.storage objectKey = some [1, 2] := by
  have third : machine.ReachableBy (allowed references)
      { copiedOne with phase := .mirroring [UPLOAD_STAGING_KEY_PREFIX] } :=
    .step copiedOne_reachable (copiedOne_listed STORIX_KEY_PREFIXES) rfl
  have fourth : machine.ReachableBy (allowed references)
      { copiedOne with phase := .mirroring [] } :=
    .step third (copiedOne_listed [UPLOAD_STAGING_KEY_PREFIX]) rfl
  have renames : allowed references { copiedOne with phase := .mirroring [] } .rename := trivial
  have backedUp : machine.ReachableBy (allowed references)
      { copiedOne with phase := .done, directory := backupDir } := .step fourth renames rfl
  have passes : ((RestoreRun.machine backupDir false (fun _ => some false) foreign).trace
      ⟨0, foreign, .idle⟩ [.start, .restoreDump none, .put .done, .endOfFiles]).any
      (fun run => match run.phase with | .done => true | _ => false) = true := by decide
  have start : (RestoreRun.machine backupDir false (fun _ => some false) foreign).ReachableBy
      RestoreRun.allowed ⟨0, foreign, .idle⟩ := .start ⟨rfl, rfl⟩
  have isAllowed : ∀ action ∈ ([.start, .restoreDump none, .put .done, .endOfFiles] :
      List (RestoreRun.Action Nat)), ∀ run, RestoreRun.allowed run action := by
    intro action member run
    simp only [List.mem_cons, List.not_mem_nil, or_false] at member
    rcases member with rfl | rfl | rfl | rfl <;> trivial
  rcases Machine.exists_reachableBy start isAllowed passes with ⟨run, reached, ends⟩
  have isDone : run.phase = .done := by
    cases isPhase : run.phase <;> simp [isPhase] at ends
    rfl
  have restored := (backup_is_restorable backedUp false (fun _ => some false)).2 rfl foreign run
    reached isDone
  rcases restored with ⟨isDump, stored⟩
  have isObject : objectKey ∈ references run.database := List.mem_singleton_self _
  rcases stored objectKey isObject (by decide) with ⟨bytes, atDump, isStored⟩
  cases atDump
  exact ⟨{ copiedOne with phase := .done, directory := backupDir }, run, rfl, isDone,
    (Option.some.inj isDump).symm, isStored⟩

end Small

end Storix
