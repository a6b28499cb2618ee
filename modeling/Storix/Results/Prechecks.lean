import Storix.Vfs.Prechecks
import Storix.Results.Tables

/-! # Prechecks agree with the transaction

The walks without locks find the same node and raise the same error as the walk of the
transaction on the same state, so a session is refused at its creation exactly if its
completion would be, and no upload is refused that the transaction would take. -/

namespace Storix

open Foundation Foundation.Command

variable {host : Host} {effects : Effects} {base : Database}
  {scope : List JsString → Prop} {held : List Uuid}
  {tx next : MutationTx} {segments : List JsString} {parentId : Uuid}

/-! ## One target -/

theorem resolveBelow_eq (db : Database) (segments : List JsString) (node : VfsNode) :
    resolveBelow db segments node.id node.type (some node) =
      resolveFrom db segments (some node) := by
  induction segments generalizing node with
  | nil => rfl
  | cons segment rest induction =>
      rw [resolveBelow, resolveFrom]
      by_cases isDirectory : node.type = .directory
      · rw [if_neg (not_not.mpr isDirectory), if_pos isDirectory]
        cases db.findChild node.id segment with
        | none =>
            cases rest with
            | nil => rfl
            | cons _ _ => rfl
        | some child => exact induction child
      · rw [if_pos isDirectory, if_neg isDirectory]

/-- The read without locks and the read in the transaction find the same node. -/
theorem resolvePath_eq {db : Database} {rootId : Uuid} (layout : Layout host db.nodes rootId)
    (nonempty : segments ≠ []) :
    resolvePath db rootId segments = resolvePathInManager db rootId segments := by
  rcases layout.exists_root with ⟨root, member, rfl, _, directory⟩
  have found : db.findNode root.id = some root := find_eq_some_of_mem layout.tree member
  unfold resolvePath resolvePathInManager
  rw [found]
  cases segments with
  | nil => exact absurd rfl nonempty
  | cons segment rest =>
      rw [← resolveBelow_eq, directory]
      rfl

/-- After the parents are locked, the target is the node that the path had at the start. -/
theorem locked_target (inv : TxInv host effects base (aboveScope segments) held next)
    (grown : Grown tx next) (fromStart : tx.db = base)
    (root : PathOf base.nodes tx.rootId []) (nonempty : segments ≠ [])
    (locked : Locked next parentId segments.dropLast) :
    next.db.findChild parentId (lastSegment segments) =
      resolvePathInManager base tx.rootId segments := by
  have whole := dropLast_append_lastSegment nonempty
  have resolves : ∀ node, resolvePathInManager base tx.rootId segments = some node ↔
      node ∈ base.nodes ∧ PathOf base.nodes node.id segments :=
    fun node => resolvePathInManager_eq_some_iff inv.baseTree root
  cases found : next.db.findChild parentId (lastSegment segments) with
  | some node =>
      rcases findChild_eq_some found with ⟨member, below, sameName⟩
      have reached := PathOf.child member below locked.reached
      rw [sameName, whole] at reached
      have unmarked := inv.unmarked_of_path reached (not_aboveScope_self nonempty)
      rcases inv.marks.kept node member unmarked with ⟨isOld, still⟩
      exact ((resolves node).mpr ⟨isOld, still segments reached⟩).symm
  | none =>
      cases resolved : resolvePathInManager base tx.rootId segments with
      | none => rfl
      | some node =>
          rcases (resolves node).mp resolved with ⟨member, reached⟩
          rw [← fromStart] at member reached
          have later := grown.pathOf reached
          rw [← whole] at later
          rcases PathOf.exists_child later with
            ⟨child, childMember, sameId, sameName, above, below, aboveReached⟩
          rw [PathTo.injective inv.tree aboveReached locked.reached] at below
          exact absurd sameName (findChild_eq_none found childMember below)

/-! ## One chain of parents -/

theorem lockParents_verdict {rest visited : List JsString} {parentType : VfsNodeType}
    (holds : TxInv host effects base scope held tx)
    (standing : Standing tx parentId parentType visited) :
    Satisfies (lockParents host false visited rest parentId parentType)
      (fun result _ => assertParents tx.db visited rest parentId parentType =
        if result.2 ≠ .directory then .error (.notDirectory (joinSegments (visited ++ rest)))
        else .ok ())
      (fun error => assertParents tx.db visited rest parentId parentType = .error error) tx := by
  induction rest generalizing tx visited parentId parentType with
  | nil =>
      unfold lockParents
      rw [satisfies_pure, List.append_nil]
      rfl
  | cons name rest induction =>
      unfold lockParents assertParents
      refine satisfies_ite.mpr ⟨fun notDirectory => ?_, fun isDirectory => ?_⟩
      · rw [satisfies_stop, if_pos notDirectory]
      · rw [if_neg isDirectory]
        rw [not_not] at isDirectory
        subst isDirectory
        rw [satisfies_bind]
        refine standing.track holds fun feedBefore inv grown seen nowStanding => ?_
        rw [satisfies_bind, satisfies_state]
        cases found : tx.db.findChild parentId name with
        | none => exact satisfies_ite.mpr ⟨fun _ => rfl, fun creates => absurd rfl creates⟩
        | some child =>
            rcases findChild_eq_some found with ⟨member, below, rfl⟩
            have regroup : visited ++ child.name :: rest = (visited ++ [child.name]) ++ rest := by
              simp
            rw [regroup]
            exact induction inv (nowStanding.child inv.tree seen member below)

/-- Without parents to create, the lock of the chain fails as the check without locks. -/
theorem lockParentChain_verdict {markAncestors : Bool}
    (holds : TxInv host effects base scope held tx)
    (inScope : ∀ front, front <+: segments.dropLast → scope front) :
    Satisfies (lockParentChain host segments false markAncestors)
      (fun _ _ => assertParentChain tx.db tx.rootId segments = .ok ())
      (fun error => assertParentChain tx.db tx.rootId segments = .error error) tx := by
  unfold lockParentChain assertParentChain
  rw [satisfies_bind, satisfies_state, satisfies_bind]
  have walk := lockParents_spec false holds holds.rootStanding nofun fun _ => inScope
  refine (walk.and (lockParents_verdict holds holds.rootStanding)).mono ?_ ?_
  · rintro ⟨parentId, parentType⟩ next ⟨⟨inv, _, standing, _⟩, verdict⟩
    rw [List.nil_append] at standing verdict
    rw [verdict]
    refine satisfies_ite.mpr ⟨fun notDirectory => if_pos notDirectory, fun isDirectory => ?_⟩
    rw [if_neg isDirectory]
    rw [not_not] at isDirectory
    simp only at isDirectory standing
    subst isDirectory
    rw [satisfies_bind]
    refine standing.track inv fun feedBefore tracked _ seen nowStanding => ?_
    refine satisfies_ite.mpr ⟨fun marks => ?_, fun leaves => rfl⟩
    rw [satisfies_bind]
    exact satisfies_markAncestorChain tracked nowStanding.reached seen inScope
      fun changed chained marked self weaken => rfl
  · exact fun error both => both.2

/-! ## One condition -/

theorem stopPrecondition_eq {α : Type} (node : VfsNode) (path : JsString) (tx : MutationTx) :
    (stopPrecondition node path : Mutating α) tx = .error (preconditionFailedBy node path) := by
  unfold stopPrecondition preconditionFailedBy
  cases isCurrent : currentOf node path with
  | error error => rfl
  | ok current => rfl

/-- The check of a session's condition and the check of the transaction agree on a node whose
revision has a token. -/
theorem checkContent_eq {condition : UploadCondition} {precondition : ContentPrecondition}
    (isPrecondition : condition.contentPrecondition = .ok precondition)
    (existing : Option VfsNode)
    (coded : ∀ node, existing = some node → node.Numbered ∧ isUuid node.id = true)
    (path : JsString) (tx : MutationTx) :
    checkContent precondition existing path tx =
      (checkTarget condition existing path).map fun _ => ((), tx) := by
  cases condition with
  | ifAbsent expiresInSeconds =>
      cases isPrecondition
      cases existing with
      | none => rfl
      | some node => exact stopPrecondition_eq node path tx
  | ifRevision token =>
      simp only [UploadCondition.contentPrecondition] at isPrecondition
      cases decoded : decodeRevisionToken token with
      | error error =>
          rw [decoded] at isPrecondition
          cases isPrecondition
      | ok revision =>
          rw [decoded] at isPrecondition
          cases isPrecondition
          cases existing with
          | none => rfl
          | some node =>
              rcases coded node rfl with ⟨⟨low, high⟩, isId⟩
              have sameToken := encodeRevisionToken_eq_iff decoded low high isId
              have encoded := encodeRevisionToken_eq_ok low high isId
              dsimp only [checkContent, assertRevision, checkTarget]
              rw [encoded] at sameToken ⊢
              dsimp only
              by_cases same : node.id = revision.id ∧ node.version = revision.version
              · have differs : ¬(node.id ≠ revision.id ∨ node.version ≠ revision.version) := by
                  rw [not_or, not_not, not_not]
                  exact same
                have isToken := Except.ok.inj (sameToken.mpr same)
                rw [if_neg differs, if_neg (not_not.mpr isToken)]
                rfl
              · have differs : node.id ≠ revision.id ∨ node.version ≠ revision.version := by
                  rw [← not_and_or]
                  exact same
                have notToken := fun isToken => same (sameToken.mp (congrArg Except.ok isToken))
                rw [if_pos differs, if_pos notToken, stopPrecondition_eq]
                rfl

/-! ## One verdict -/

/-- What `putFileContent` finds at its target, for a path with all its parents. -/
theorem putFileContent_verdict {newBlob : BlobData} {expiresAt : Option Nat}
    (nonempty : segments ≠ []) (valid : ValidPath host segments) (fromStart : tx.db = base)
    (holds : TxInv host .any base (aboveScope segments) held tx) :
    let target := resolvePathInManager base tx.rootId segments
    Satisfies
      (putFileContent host segments false newBlob (target.map VfsNode.version) false expiresAt)
      (fun _ _ => assertParentChain base tx.rootId segments = .ok () ∧
        (target.any fun node => node.type = .directory) = false)
      (fun error => assertParentChain base tx.rootId segments = .error error ∨
        assertParentChain base tx.rootId segments = .ok () ∧
          if (target.any fun node => node.type = .directory) = true then
            error = .isDirectory (joinSegments segments)
          else error = .revisionExhausted) tx := by
  intro target
  have whole := dropLast_append_lastSegment nonempty
  have root : PathOf base.nodes tx.rootId [] := fromStart ▸ holds.layout.root
  unfold putFileContent
  rw [satisfies_bind]
  have locks : Satisfies (lockParentChain host segments false true) _ _ tx :=
    lockParentChain_spec holds nofun fun _ front isFront => isFront
  have verdict : Satisfies (lockParentChain host segments false true) _ _ tx :=
    lockParentChain_verdict holds fun front isFront => isFront
  rw [fromStart] at verdict
  refine (locks.and verdict).mono ?_ fun error both => .inl both.2
  rintro parentId next ⟨⟨inv, grown, locked, marked, _⟩, passes⟩
  have sameTarget := locked_target inv grown fromStart root nonempty locked
  rw [satisfies_bind]
  refine satisfies_lockTargetNode inv locked (fun free => ?_) ?_
  · have isNone : target = none := sameTarget.symm.trans free
    rw [isNone]
    refine satisfies_ite.mpr ⟨fun isSome => absurd isSome (by simp), fun _ => ?_⟩
    rw [satisfies_bind]
    refine (satisfies_createFile (inv.mono fun _ => pathScope_of_above) trivial locked free
      (by rw [whole]; exact valid) (marked rfl) ?_).imp fun _ _ _ => ⟨passes, rfl⟩
    rw [whole]
    exact List.prefix_refl _
  · intro node feedBefore isFound member below sameName reached tracked _ seen
    rw [whole] at reached
    have isSome : target = some node := sameTarget.symm.trans isFound
    rw [isSome]
    refine satisfies_ite.mpr ⟨fun isDirectory => ?_, fun notDirectory => ?_⟩
    · rw [satisfies_stop, if_pos (by simpa using isDirectory)]
      exact .inr ⟨passes, rfl⟩
    · have notAny : ((some node).any fun node => decide (node.type = .directory)) = false := by
        simpa using notDirectory
      rw [notAny]
      refine satisfies_ite.mpr ⟨fun _ => .inr ⟨passes, rfl⟩, fun room => ?_⟩
      refine satisfies_ite.mpr ⟨fun differs => absurd differs (by simp), fun _ => ?_⟩
      have isFile := VfsNodeType.eq_file_of_ne notDirectory
      refine (satisfies_replaceContent (tracked.mono fun _ => pathScope_of_above)
        ⟨member, reached, List.prefix_refl _, seen, ?_, ?_⟩ isFile (by omega) trivial).imp
        fun _ _ _ => ⟨passes, rfl⟩
      · intro id isParent
        rw [below] at isParent
        cases isParent
        exact marked rfl
      · exact tracked.unmarked_of_path reached (not_aboveScope_self nonempty)

def VfsError.isRejection : VfsError → Bool
  | .invalidPath _ => true
  | .nodeNotFound _ => true
  | .notDirectory _ => true
  | .isDirectory _ => true
  | .alreadyExists _ => true
  | .versionConflict _ => true
  | .preconditionFailed _ _ => true
  | _ => false

theorem assertParents_isRejection {db : Database} {visited rest : List JsString}
    {parentType : VfsNodeType} {error : VfsError}
    (result : assertParents db visited rest parentId parentType = .error error) :
    error.isRejection = true := by
  induction rest generalizing visited parentId parentType with
  | nil =>
      unfold assertParents at result
      split at result
      · cases result
        rfl
      · cases result
  | cons name rest induction =>
      unfold assertParents at result
      split at result
      · cases result
        rfl
      · split at result
        · cases result
          rfl
        · exact induction result

theorem preconditionFailedBy_isRejection {node : VfsNode} (numbered : node.Numbered)
    (path : JsString) : (preconditionFailedBy node path).isRejection = true := by
  unfold preconditionFailedBy currentOf
  rw [encodeRevision_eq_ok numbered.1 numbered.2]
  rfl

theorem checkTarget_isRejection {condition : UploadCondition} {target : Option VfsNode}
    {path : JsString} {error : VfsError}
    (coded : ∀ node, target = some node → node.Numbered ∧ isUuid node.id = true)
    (result : checkTarget condition target path = .error error) : error.isRejection = true := by
  cases target with
  | none =>
      cases condition with
      | ifAbsent _ => cases result
      | ifRevision _ =>
          cases result
          rfl
  | some node =>
      rcases coded node rfl with ⟨numbered, isId⟩
      cases condition with
      | ifAbsent _ =>
          cases result
          exact preconditionFailedBy_isRejection numbered path
      | ifRevision token =>
          dsimp only [checkTarget] at result
          rw [encodeRevisionToken_eq_ok numbered.1 numbered.2 isId] at result
          dsimp only at result
          split at result
          · cases result
            exact preconditionFailedBy_isRejection numbered path
          · cases result

theorem putFileContent_agrees {path : NodePath host} {newBlob : BlobData} {expiresAt : Option Nat}
    (fromStart : tx.db = base)
    (holds : TxInv host .any base (aboveScope path.segments) held tx) :
    let target := resolvePathInManager base tx.rootId path.segments
    let work := putFileContent host path.segments false newBlob (target.map VfsNode.version) false
      expiresAt tx
    let check : Except VfsError Unit := do
      assertParentChain base tx.rootId path.segments
      if target.any fun node => node.type = .directory then throw (.isDirectory path.canonical)
    (∀ error, check = .error error → work = .error error ∧ error.isRejection = true) ∧
      (check = .ok () → ∀ error, work = .error error → error = .revisionExhausted) := by
  intro target work check
  have verdict : Satisfies (putFileContent host path.segments false newBlob
      (target.map VfsNode.version) false expiresAt) _ _ tx :=
    putFileContent_verdict path.nonempty path.valid fromStart holds
  cases chain : assertParentChain base tx.rootId path.segments with
  | error error =>
      have isCheck : check = .error error := by
        simp only [check, chain]
        rfl
      rw [chain] at verdict
      rw [isCheck]
      refine ⟨fun other isOther => ?_, fun isOk => by cases isOk⟩
      cases isOther
      refine ⟨?_, assertParents_isRejection chain⟩
      rcases verdict.exists_error (fun _ _ passed => by cases passed.1) with
        ⟨raised, isRaised, sameError | passed⟩
      · exact isRaised.trans (congrArg Except.error (Except.error.inj sameError).symm)
      · cases passed.1
  | ok _ =>
      rw [chain] at verdict
      by_cases isDirectory : (target.any fun node => decide (node.type = .directory)) = true
      · have isCheck : check = .error (.isDirectory path.canonical) := by
          simp only [check, chain, isDirectory]
          rfl
        have kind : (target.any fun node => decide (node.type = .directory)) ≠ false :=
          Bool.ne_false_iff.mpr isDirectory
        rw [isCheck]
        refine ⟨fun other isOther => ?_, fun isOk => by cases isOk⟩
        cases isOther
        refine ⟨?_, rfl⟩
        rcases verdict.exists_error (fun _ _ passed => kind passed.2) with
          ⟨raised, isRaised, isError | passed⟩
        · cases isError
        · rw [if_pos isDirectory] at passed
          exact isRaised.trans (congrArg Except.error passed.2)
      · have isCheck : check = .ok () := by
          simp only [check, chain, isDirectory]
          rfl
        rw [isCheck]
        refine ⟨fun other isOther => (by cases isOther), fun _ error isError => ?_⟩
        rcases verdict.of_error isError with isChain | passed
        · cases isChain
        · rw [if_neg isDirectory] at passed
          exact passed.2

theorem putConditionalContent_agrees {path : NodePath host} {condition : UploadCondition}
    {precondition : ContentPrecondition} {blob : BlobData}
    (isPrecondition : condition.contentPrecondition = .ok precondition)
    (uuids : ∀ node ∈ base.nodes, isUuid node.id = true) (fromStart : tx.db = base)
    (holds : TxInv host .any base (aboveScope path.segments) held tx) :
    (∀ error, createSessionPrecheck base tx.rootId path condition = .error error →
      putConditionalContent host path precondition blob tx = .error error ∧
        error.isRejection = true) ∧
    (createSessionPrecheck base tx.rootId path condition = .ok () →
      ∀ error, putConditionalContent host path precondition blob tx = .error error →
        error = .revisionExhausted) := by
  have layout : Layout host base.nodes tx.rootId := fromStart ▸ holds.layout
  have sameTarget : resolvePath base tx.rootId path.segments =
      resolvePathInManager base tx.rootId path.segments := resolvePath_eq layout path.nonempty
  have coded : ∀ node, resolvePathInManager base tx.rootId path.segments = some node →
      node.Numbered ∧ isUuid node.id = true := by
    intro node isNode
    have member := ((resolvePathInManager_eq_some_iff layout.tree layout.root).mp isNode).1
    exact ⟨layout.versions node member, uuids node member⟩
  have checked := checkContent_eq isPrecondition _ coded path.canonical tx
  unfold putConditionalContent createSessionPrecheck
  rw [bind_of_ok (rfl : state tx = .ok (tx, tx)), fromStart, sameTarget]
  dsimp only
  cases isChecked : checkTarget condition
    (resolvePathInManager base tx.rootId path.segments) path.canonical with
  | error error =>
      rw [isChecked] at checked
      rw [bind_of_error checked]
      refine ⟨fun other isOther => ?_, fun isOk => by cases isOk⟩
      cases isOther
      exact ⟨rfl, checkTarget_isRejection coded isChecked⟩
  | ok _ =>
      rw [isChecked] at checked
      rw [bind_of_ok checked]
      exact putFileContent_agrees fromStart holds

/-! ## Early refusals of an upload -/

theorem putFileContent_refuses {path : NodePath host} {parents force : Bool} {newBlob : BlobData}
    {ifMatchVersion expiresAt : Option Nat} {error : VfsError} (fromStart : tx.db = base)
    (holds : TxInv host .any base (aboveScope path.segments) held tx)
    (refused : putContentPrecheck base tx.rootId path ifMatchVersion force = .error error) :
    ∃ other, putFileContent host path.segments parents newBlob ifMatchVersion force expiresAt tx =
      .error other := by
  have layout : Layout host base.nodes tx.rootId := fromStart ▸ holds.layout
  have valid : parents = true → ValidPath host path.segments.dropLast :=
    fun _ => path.valid.of_prefix (List.dropLast_prefix _)
  have fails : Satisfies
      (putFileContent host path.segments parents newBlob ifMatchVersion force expiresAt)
      (fun _ _ => False) (fun _ => True) tx := by
    unfold putFileContent
    rw [satisfies_bind]
    refine (lockParentChain_spec holds valid fun _ front isFront => isFront).mono ?_
      fun _ _ => trivial
    rintro parentId next ⟨inv, grown, locked, _, _⟩
    have sameTarget := locked_target inv grown fromStart layout.root path.nonempty locked
    rw [← resolvePath_eq layout path.nonempty] at sameTarget
    unfold putContentPrecheck at refused
    rw [satisfies_bind]
    refine satisfies_lockTargetNode inv locked (fun free => ?_) ?_
    · rw [← sameTarget, free] at refused
      cases ifMatchVersion with
      | some version => exact satisfies_ite.mpr ⟨fun _ => trivial, fun free => absurd rfl free⟩
      | none => cases refused
    · intro node feedBefore isFound member below sameName reached tracked _ seen
      rw [← sameTarget, isFound] at refused
      refine satisfies_ite.mpr ⟨fun _ => trivial, fun notDirectory => ?_⟩
      refine satisfies_ite.mpr ⟨fun _ => trivial, fun room => ?_⟩
      have isFile := VfsNodeType.eq_file_of_ne notDirectory
      refine satisfies_ite.mpr ⟨fun _ => trivial, fun isMatch => ?_⟩
      rw [Bool.not_eq_false] at isMatch
      cases ifMatchVersion with
      | some version => simp [willConflict, isFile, beq_iff_eq.mp isMatch] at refused
      | none => simp [willConflict, isFile, show force = true from isMatch] at refused
  rcases fails.exists_error (fun _ _ impossible => impossible) with ⟨other, isOther, _⟩
  exact ⟨other, isOther⟩

/-- On every consistent state, the precheck of a session passes exactly if the transaction is
not rejected for its path or its precondition, and otherwise both raise the same error. An
upload that its precheck refuses also fails in the transaction. -/
theorem prechecks_agree {db : Database} (consistent : Consistent host db)
    (uuids : ∀ node ∈ db.nodes, isUuid node.id = true) {root : VfsNode}
    (found : db.findRoot = some root) (path : NodePath host) (now : Nat) (blob : BlobData) :
    (∀ condition precondition, condition.contentPrecondition = .ok precondition →
      let check := createSessionPrecheck db root.id path condition
      let work := putConditionalContent host path precondition blob (.start db root.id now)
      (check = .ok () ↔ ∀ error, work = .error error → error.isRejection = false) ∧
        ∀ error, check = .error error → work = .error error) ∧
    ∀ ifMatchVersion force parents error,
      putContentPrecheck db root.id path ifMatchVersion force = .error error →
      ∀ allowInactive afterBump, ∃ other,
        withMutation host now allowInactive
          (putFileContent host path.segments parents blob ifMatchVersion force none) afterBump db =
            .error other := by
  have holds : TxInv host .any db (aboveScope path.segments) [] (.start db root.id now) :=
    .initial consistent found now _
  constructor
  · intro condition precondition isPrecondition check work
    have agrees : (∀ error, check = .error error → work = .error error ∧ _) ∧
        (check = .ok () → ∀ error, work = .error error → _) :=
      putConditionalContent_agrees isPrecondition uuids rfl holds
    rcases agrees with ⟨rejects, passes⟩
    refine ⟨⟨fun isOk error isError => ?_, fun accepted => ?_⟩, fun error isError =>
      (rejects error isError).1⟩
    · rw [passes isOk error isError]
      rfl
    · cases isCheck : check with
      | ok _ => rfl
      | error error =>
          rcases rejects error isCheck with ⟨isError, isRejection⟩
          rw [accepted error isError] at isRejection
          cases isRejection
  · intro ifMatchVersion force parents error refused allowInactive afterBump
    have fails : ∃ other, putFileContent host path.segments parents blob ifMatchVersion force none
        (.start db root.id now) = .error other := putFileContent_refuses rfl holds refused
    rcases fails with ⟨other, isOther⟩
    unfold withMutation
    cases isRoot : lockNamespaceRoot db allowInactive with
    | error error => exact ⟨error, rfl⟩
    | ok locked =>
        have isLocked := lockNamespaceRoot_eq_ok isRoot
        rw [found] at isLocked
        cases isLocked
        dsimp only
        split
        · exact ⟨_, rfl⟩
        · rw [isOther]
          exact ⟨other, rfl⟩

namespace Small

/-- `/a` -/
def newFile : NodePath uuidHost :=
  ⟨⟨[[0x61]], by decide +kernel⟩, by simp⟩

/-- A file that is not there may be created, and has no version that an upload could name. -/
theorem prechecks_agree_absent :
    (∀ error, putConditionalContent uuidHost newFile (.ifAbsent none) blob
        (.start (createWithRoot uuidHost 0 settings) 0x40008000000000000000 1) = .error error →
      error.isRejection = false) ∧
    ∃ other, withMutation uuidHost 1 false
      (putFileContent uuidHost newFile.segments false blob (some 3) true none)
      (fun _ _ _ => .ok ()) (createWithRoot uuidHost 0 settings) = .error other := by
  have agree := prechecks_agree (consistent_createWithRoot uuidHost 0 settings)
    (by decide +kernel) rfl newFile 1 blob
  exact ⟨(agree.1 (.ifAbsent none) _ rfl).1.mp rfl, agree.2 (some 3) true false _ rfl false _⟩

end Small

end Storix
