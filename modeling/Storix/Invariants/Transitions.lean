import Storix.Invariants.Runs

/-! # Transitions

What one committed transaction can do to the nodes and to the trash, with the marks of
its work reduced to the set of nodes that it changed. -/

namespace Storix

open Foundation Foundation.Command

variable {host : Host} {db next : Database}

/-- One transaction, as seen from the tables before and after it. -/
structure Transition (host : Host) (scope : List JsString → Prop) (changed : Uuid → Prop)
    (db next : Database) : Prop where
  live : ∀ id, changed id → id ∈ nodeIds next.nodes
  kept : ∀ node ∈ next.nodes, ¬changed node.id →
    ∃ old ∈ db.nodes, toRecord old = toRecord node ∧ old.parentId = node.parentId ∧
      ∀ path, PathOf next.nodes node.id path → PathOf db.nodes node.id path
  above : ∀ node ∈ next.nodes, changed node.id → ∀ parentId, node.parentId = some parentId →
    changed parentId
  oldAbove : ∀ old ∈ db.nodes, changed old.id ∨ old.id ∉ nodeIds next.nodes → ∀ parentId,
    old.parentId = some parentId → changed parentId ∨ parentId ∉ nodeIds next.nodes
  origin : ∀ node ∈ next.nodes, changed node.id → Origin host db node
  allowed : ∀ id, changed id → ∀ path, PathOf db.nodes id path → scope path
  trash : ∀ entry ∈ next.trashEntries, entry ∈ db.trashEntries ∨
    ∃ old ∈ db.nodes, old.id = entry.sourceNodeId ∧ old.type = entry.type ∧
      old.version = entry.sourceRevision.version
  issued : db.issued ≤ next.issued

theorem toRecord_settledRow {tx : MutationTx} {node : VfsNode}
    (unmarked : tx.changed.get node.id = none) :
    toRecord (settledRow tx node) = toRecord node := by
  have outside : node.id ∉ tx.raisedIds := by
    rw [MutationTx.mem_raisedIds, unmarked]
    exact nofun
  unfold settledRow bumped
  rw [counted_id, if_neg outside]
  unfold counted
  split
  · rfl
  · rfl

theorem Finished.transition {scope : List JsString → Prop} {tx : MutationTx}
    (done : TxDone host effects db scope [] tx) (finished : Finished host db tx next) :
    Transition host scope (fun id => tx.changed.get id ≠ none) db next := by
  have keeps := done.keepsLinks_settled finished.raisable
  have raisable := finished.raisable
  rcases finished.tables with ⟨feedState, feedEvents, issued, later, rfl⟩
  have sameIds : nodeIds (tx.db.nodes.map (settledRow tx)) = nodeIds tx.db.nodes :=
    keeps.nodeIds_eq
  refine
    { live := fun id marked => sameIds.symm ▸ done.marks.live id marked, kept := ?_, above := ?_,
      oldAbove := ?_, origin := ?_, allowed := done.marks.allowed, trash := done.origins,
      issued := done.drawn.trans later }
  · intro node member unmarked
    rcases List.mem_map.mp member with ⟨row, rowMember, rfl⟩
    rw [settledRow_id, not_not] at unmarked
    rcases done.marks.kept row rowMember unmarked with ⟨inBase, samePath⟩
    refine ⟨row, inBase, (toRecord_settledRow unmarked).symm, (settledRow_parentId tx row).symm,
      fun path reached => ?_⟩
    rw [settledRow_id] at reached ⊢
    exact samePath path (keeps.pathOf_iff.mp reached)
  · intro node member marked parentId below
    rcases List.mem_map.mp member with ⟨row, rowMember, rfl⟩
    rw [settledRow_id] at marked
    rw [settledRow_parentId] at below
    exact done.marks.above row rowMember marked parentId below
  · intro old member gone parentId below
    change _ ∨ old.id ∉ nodeIds (tx.db.nodes.map (settledRow tx)) at gone
    change _ ∨ parentId ∉ nodeIds (tx.db.nodes.map (settledRow tx))
    rw [sameIds] at gone ⊢
    exact done.marks.baseAbove old member gone parentId below
  · intro node member marked
    rcases List.mem_map.mp member with ⟨row, rowMember, rfl⟩
    rw [settledRow_id] at marked
    have version := settledRow_version tx row
    cases isMark : tx.changed.get row.id with
    | none => exact absurd isMark marked
    | some increment =>
        cases increment with
        | true =>
            rw [if_pos isMark] at version
            rcases done.marks.raised row rowMember isMark with
              ⟨old, oldMember, sameId, sameType, same⟩
            exact .changed old oldMember (sameId.trans (settledRow_id tx row).symm)
              (sameType.trans (settledRow_type tx row).symm) (version.trans (by rw [same]))
        | false =>
            rw [if_neg (by simp [isMark]), Nat.add_zero] at version
            exact (done.marks.saved row rowMember isMark).congr (settledRow_id tx row)
              (settledRow_type tx row) version

theorem Transition.still (sameNodes : next.nodes = db.nodes)
    (sameTrash : next.trashEntries = db.trashEntries) (sameIssued : next.issued = db.issued) :
    Transition host (fun _ => False) (fun _ => False) db next where
  live := nofun
  kept := by
    intro node member _
    rw [sameNodes] at member ⊢
    exact ⟨node, member, rfl, rfl, fun path reached => reached⟩
  above := nofun
  oldAbove := by
    intro old member gone
    rcases gone with impossible | gone
    · exact impossible.elim
    · rw [sameNodes] at gone
      exact absurd (mem_nodeIds_of_mem member) gone
  origin := nofun
  allowed := nofun
  trash := fun entry isEntry => .inl (sameTrash ▸ isEntry)
  issued := Nat.le_of_eq sameIssued.symm

theorem Mutation.transition (consistent : Consistent host db) {mutation : Mutation host} {now : Nat}
    {afterBump : MutationTx → Unit → List AffectedRevision → Except VfsError Unit}
    {committed : Committed Unit} (result : mutation.run now afterBump db = .ok committed) :
    ∃ changed, Transition host (mutation.addresses db) changed db committed.db := by
  rcases Mutation.run_eq_ok consistent result with ⟨tx, wrote, finished⟩
  exact ⟨_, finished.transition wrote.done⟩

theorem Step.transition (consistent : Consistent host db) (taken : Step host db next) :
    ∃ scope changed, Transition host scope changed db next := by
  cases taken with
  | mutation mutation now afterBump result => exact ⟨_, Mutation.transition consistent result⟩
  | checkpoint issued =>
      rcases createChangeFeedCheckpoint_eq_ok issued with ⟨feed, rfl, _⟩
      exact ⟨_, _, .still rfl rfl rfl⟩
  | prune cutoff batchSize pruned =>
      rcases pruneNamespacePrefix_tables pruned with ⟨feedState, feedEvents, rfl⟩
      exact ⟨_, _, .still rfl rfl rfl⟩
  | collect ids orphaned => exact ⟨_, _, .still rfl rfl rfl⟩

theorem Step.nodes_or_mutation (taken : Step host db next) :
    next.nodes = db.nodes ∨ ∃ (mutation : Mutation host) (now : Nat)
      (afterBump : MutationTx → Unit → List AffectedRevision → Except VfsError Unit)
      (committed : Committed Unit), mutation.run now afterBump db = .ok committed ∧
        committed.db = next := by
  cases taken with
  | mutation mutation now afterBump result =>
      exact .inr ⟨mutation, now, afterBump, _, result, rfl⟩
  | checkpoint issued =>
      rcases createChangeFeedCheckpoint_eq_ok issued with ⟨feed, rfl, _⟩
      exact .inl rfl
  | prune cutoff batchSize pruned =>
      rcases pruneNamespacePrefix_tables pruned with ⟨feedState, feedEvents, rfl⟩
      exact .inl rfl
  | collect ids orphaned => exact .inl rfl

/-! ## Versions of one node -/

namespace Transition

variable {scope : List JsString → Prop} {changed : Uuid → Prop}

/-- A node that is live before and after has a version of one more if it changed, and the
same version if not. -/
theorem version (transition : Transition host scope changed db next)
    (consistent : Consistent host db) {old node : VfsNode} (oldMember : old ∈ db.nodes)
    (member : node ∈ next.nodes) (same : old.id = node.id) :
    (changed node.id → node.version = old.version + 1) ∧
      (¬changed node.id → toRecord old = toRecord node ∧ old.parentId = node.parentId) := by
  constructor
  · intro isChanged
    cases transition.origin node member isChanged with
    | changed other otherMember sameId _ version =>
        rw [consistent.tree.eq_of_id oldMember otherMember (same.trans sameId.symm)]
        exact version
    | created fresh _ =>
        exact absurd (consistent.issued.nodes _ (mem_nodeIds_of_mem oldMember)) (same ▸ fresh)
    | restored entry isEntry sameId _ _ =>
        exact absurd (mem_nodeIds_of_mem oldMember)
          ((sameId.trans same.symm) ▸ consistent.separate entry isEntry)
  · intro unchanged
    rcases transition.kept node member unchanged with ⟨other, otherMember, record, parent, _⟩
    have sameId : other.id = node.id := congrArg VfsNodeRecord.id record
    rw [consistent.tree.eq_of_id oldMember otherMember (same.trans sameId.symm)]
    exact ⟨record, parent⟩

/-- A node that was not live before starts at 1, or continues from the trash. -/
theorem version_of_new (transition : Transition host scope changed db next) {node : VfsNode}
    (member : node ∈ next.nodes) (new : node.id ∉ nodeIds db.nodes) :
    (¬Drawn host db.issued node.id ∧ node.version = 1) ∨
      ∃ entry ∈ db.trashEntries, entry.sourceNodeId = node.id ∧
        node.version = entry.sourceRevision.version + 1 := by
  by_cases isChanged : changed node.id
  · cases transition.origin node member isChanged with
    | changed other otherMember sameId _ _ =>
        exact absurd (sameId ▸ mem_nodeIds_of_mem otherMember) new
    | created fresh version => exact .inl ⟨fresh, version⟩
    | restored entry isEntry sameId _ version => exact .inr ⟨entry, isEntry, sameId, version⟩
  · rcases transition.kept node member isChanged with ⟨other, otherMember, record, _⟩
    have sameId : other.id = node.id := congrArg VfsNodeRecord.id record
    exact absurd (sameId ▸ mem_nodeIds_of_mem otherMember) new

theorem unchanged_below (transition : Transition host scope changed db next)
    (oldTree : Rooted db.nodes) {id : Uuid} (stays : id ∈ nodeIds next.nodes)
    (unchanged : ¬changed id) {path : List JsString} (reached : PathOf db.nodes id path)
    {rest : List JsString} {other : Uuid} (below : PathOf db.nodes other (path ++ rest)) :
    ¬changed other ∧ other ∈ nodeIds next.nodes := by
  induction rest using List.reverseRecOn generalizing other with
  | nil =>
      rw [List.append_nil] at below
      rw [PathTo.injective oldTree below reached]
      exact ⟨unchanged, stays⟩
  | append_singleton rest name induction =>
      rw [← List.append_assoc] at below
      rcases below.exists_child with ⟨node, member, rfl, _, parentId, isParent, above⟩
      have parent := induction above
      by_contra gone
      rw [not_and_or, not_not] at gone
      rcases transition.oldAbove node member gone parentId isParent with marked | missing
      · exact parent.1 marked
      · exact missing parent.2

theorem unchanged_below_new (transition : Transition host scope changed db next)
    (tree : Rooted next.nodes) {id : Uuid} (unchanged : ¬changed id) {path : List JsString}
    (reached : PathOf next.nodes id path) {rest : List JsString} {other : Uuid}
    (below : PathOf next.nodes other (path ++ rest)) : ¬changed other := by
  induction rest using List.reverseRecOn generalizing other with
  | nil =>
      rw [List.append_nil] at below
      rw [PathTo.injective tree below reached]
      exact unchanged
  | append_singleton rest name induction =>
      rw [← List.append_assoc] at below
      rcases below.exists_child with ⟨node, member, rfl, _, parentId, isParent, above⟩
      exact fun marked => induction above (transition.above node member marked parentId isParent)

end Transition

end Storix
