import Storix.Vfs.Errors

/-! # Paths and revisions -/

namespace Storix

open JsString

/-- `joinSegments` and the canonical form: `/` for the root. -/
def joinSegments (segments : List JsString) : JsString := slash :: join segments

def dot : JsString := [0x2e]

def dotDot : JsString := [0x2e, 0x2e]

def backslash : UInt16 := 0x5c

def isControl (unit : UInt16) : Bool := unit ≤ 0x1f || (0x7f ≤ unit && unit ≤ 0x9f)

/-- The characters with the Unicode property `Bidi_Control`. -/
def isBidiControl (unit : UInt16) : Bool :=
  unit == 0x61c || (0x200e ≤ unit && unit ≤ 0x200f) ||
    (0x202a ≤ unit && unit ≤ 0x202e) || (0x2066 ≤ unit && unit ≤ 0x2069)

def invalidSegment (host : Host) (segment : JsString) : Bool :=
  segment == dotDot ||
    segment.contains backslash ||
    segment.any (fun unit => isControl unit || isBidiControl unit) ||
    hasLoneSurrogate segment ||
    host.normalizeNFC segment != segment ||
    decide (255 < byteLength segment)

/-- The segment check inside the loop of `assertPathSegments`. -/
def rejectedSegment (host : Host) (segment : JsString) : Bool :=
  segment.isEmpty || segment == dot || segment.contains slash || invalidSegment host segment

def assertPathSegments (host : Host) (segments : List JsString) : Except VfsError Unit :=
  if 4096 < byteLength (joinSegments segments) then
    .error (.invalidPath (joinSegments segments))
  else if segments.any (rejectedSegment host) then
    .error (.invalidPath (joinSegments segments))
  else .ok ()

/-- The path passes `assertPathSegments`. -/
def ValidPath (host : Host) (segments : List JsString) : Prop :=
  assertPathSegments host segments = .ok ()

instance (host : Host) (segments : List JsString) : Decidable (ValidPath host segments) :=
  decidable_of_iff
    (¬4096 < byteLength (joinSegments segments) ∧ segments.any (rejectedSegment host) = false)
    (by
      unfold ValidPath assertPathSegments
      split
      · simp [*]
      · split
        · simp [*]
        · simp [*])

/-- A path that `PathResolver.resolve` accepted. -/
structure ResolvedPath (host : Host) where
  segments : List JsString
  valid : ValidPath host segments

/-- A resolved path other than the root, as the callers of a mutation check. -/
structure NodePath (host : Host) extends ResolvedPath host where
  nonempty : segments ≠ []

namespace ResolvedPath

variable {host : Host}

def canonical (path : ResolvedPath host) : JsString := joinSegments path.segments

end ResolvedPath

/-- `PathResolver.resolve` on a string. -/
def resolve (host : Host) (rawPath : JsString) : Except VfsError (ResolvedPath host) :=
  if rawPath.head? ≠ some slash then .error (.invalidPath rawPath)
  else
    let segments := (split rawPath).filter fun segment => !segment.isEmpty && segment != dot
    match checked : assertPathSegments host segments with
    | .error error => .error error
    | .ok () => .ok ⟨segments, checked⟩

/-- `path.split('/').filter(Boolean)` -/
def pathSegments (path : JsString) : List JsString :=
  (split path).filter fun segment => !segment.isEmpty

/-- The global order on segment lists that decides which path is locked first. -/
def compareSegments : List JsString → List JsString → Ordering
  | [], [] => .eq
  | [], _ :: _ => .lt
  | _ :: _, [] => .gt
  | left :: lefts, right :: rights =>
      match order left right with
      | .lt => .lt
      | .gt => .gt
      | .eq => compareSegments lefts rights

/-! ## What a valid path is -/

theorem validPath_iff {host : Host} {segments : List JsString} :
    ValidPath host segments ↔
      byteLength (joinSegments segments) ≤ 4096 ∧
        ∀ segment ∈ segments, rejectedSegment host segment = false := by
  unfold ValidPath assertPathSegments
  by_cases tooLong : 4096 < byteLength (joinSegments segments)
  · rw [if_pos tooLong]
    simp
    omega
  · rw [if_neg tooLong]
    by_cases rejected : segments.any (rejectedSegment host) = true
    · rw [if_pos rejected]
      rcases List.any_eq_true.mp rejected with ⟨segment, member, bad⟩
      simp only [reduceCtorEq, false_iff, not_and]
      intro _ all
      rw [all segment member] at bad
      cases bad
    · rw [if_neg rejected]
      rw [Bool.not_eq_true, List.any_eq_false] at rejected
      simp only [true_iff]
      exact ⟨by omega, fun segment member => by simpa using rejected segment member⟩

theorem validPath_nil (host : Host) : ValidPath host [] := by
  rw [validPath_iff]
  exact ⟨by decide, by simp⟩

theorem ValidPath.of_append {host : Host} {front back : List JsString}
    (valid : ValidPath host (front ++ back)) : ValidPath host front := by
  rw [validPath_iff] at valid ⊢
  rcases valid with ⟨short, accepted⟩
  refine ⟨?_, fun segment member => accepted segment (List.mem_append_left _ member)⟩
  refine Nat.le_trans (byteLength_le_of_front ?_) short
  rcases join_prefix_of_append front back with ⟨rest, equal⟩
  exact ⟨rest, by simp [joinSegments, ← equal]⟩

theorem ValidPath.of_prefix {host : Host} {front path : List JsString}
    (valid : ValidPath host path) (isFront : front <+: path) : ValidPath host front := by
  rcases isFront with ⟨back, rfl⟩
  exact valid.of_append

structure PlainName (name : JsString) : Prop where
  nonempty : name ≠ []
  notDot : name ≠ dot
  noSlash : slash ∉ name

theorem plainName_of_not_rejected {host : Host} {name : JsString}
    (accepted : rejectedSegment host name = false) : PlainName name := by
  unfold rejectedSegment at accepted
  simp only [Bool.or_eq_false_iff] at accepted
  rcases accepted with ⟨⟨⟨nonempty, notDot⟩, noSlash⟩, _⟩
  exact ⟨by simpa using nonempty, by simpa using notDot, by simpa using noSlash⟩

theorem ValidPath.plain {host : Host} {path : List JsString} (valid : ValidPath host path) :
    ∀ name ∈ path, PlainName name :=
  fun name member => plainName_of_not_rejected ((validPath_iff.mp valid).2 name member)

theorem ValidPath.paired {host : Host} {path : List JsString} (valid : ValidPath host path) :
    ∀ name ∈ path, hasLoneSurrogate name = false := by
  intro name member
  have accepted := (validPath_iff.mp valid).2 name member
  simp only [rejectedSegment, invalidSegment, Bool.or_eq_false_iff] at accepted
  exact accepted.2.1.1.2

theorem pathSegments_joinSegments {path : List JsString}
    (plain : ∀ name ∈ path, PlainName name) : pathSegments (joinSegments path) = path := by
  unfold pathSegments joinSegments
  cases path with
  | nil => decide
  | cons first rest =>
      have whole : slash :: join (first :: rest) = join ([] :: first :: rest) := by
        simp [join, List.intercalate]
      rw [whole, split_join (by simp)]
      · rw [List.filter_cons_of_neg (by simp)]
        refine List.filter_eq_self.mpr fun name member => ?_
        simpa using (plain name member).nonempty
      · intro name member
        rcases List.mem_cons.mp member with rfl | member
        · simp
        · exact (plain name member).noSlash

theorem joinSegments_injective {left right : List JsString}
    (leftPlain : ∀ name ∈ left, PlainName name) (rightPlain : ∀ name ∈ right, PlainName name)
    (same : joinSegments left = joinSegments right) : left = right := by
  rw [← pathSegments_joinSegments leftPlain, ← pathSegments_joinSegments rightPlain, same]

/-! ## Revisions -/

/-- `Number.MAX_SAFE_INTEGER` -/
def MAX_VFS_VERSION : Nat := 9007199254740991

def encodeRevision (id : Uuid) (version : Nat) : Except VfsError Revision :=
  if version < 1 ∨ MAX_VFS_VERSION < version then .error .revisionExhausted
  else .ok ⟨id, version⟩

theorem encodeRevision_eq_ok {id : Uuid} {version : Nat} (low : 1 ≤ version)
    (high : version ≤ MAX_VFS_VERSION) : encodeRevision id version = .ok ⟨id, version⟩ :=
  if_neg (by omega)

end Storix
