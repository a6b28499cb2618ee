import Storix.Invariants.Layout
import Mathlib.Data.List.Count
import Mathlib.Data.List.Perm.Basic

/-! # Blob references

The reference count of a blob row is the number of references to it: from live
files, from trash entries, from snapshot entries, and from what the running
operation holds in its hands. -/

namespace Storix

open Foundation

def snapshotBlobs (entries : List SnapshotEntry) : List Uuid :=
  entries.filterMap SnapshotEntry.blobId

def Database.references (db : Database) : List Uuid :=
  fileBlobs db.nodes ++ manifestBlobs db.trashEntries ++ snapshotBlobs db.snapshotEntries

/-! ## References of rows -/

theorem fileBlobs_append (left right : List VfsNode) :
    fileBlobs (left ++ right) = fileBlobs left ++ fileBlobs right := by
  simp [fileBlobs]

theorem fileBlobs_congr {left right : VfsNode} (type : left.type = right.type)
    (blob : left.blobId = right.blobId) : fileBlobs [left] = fileBlobs [right] := by
  cases isType : right.type with
  | file =>
      simp only [fileBlobs, List.filter_cons, List.filter_nil, type, isType, decide_true, if_true,
        List.filterMap_cons, List.filterMap_nil, blob]
  | directory => simp [fileBlobs, type, isType]

theorem fileBlobs_perm {left right : List VfsNode} (same : left.Perm right) :
    (fileBlobs left).Perm (fileBlobs right) :=
  (same.filter _).filterMap _

theorem fileBlobs_rewrite {nodes : List VfsNode} (nodup : (nodeIds nodes).Nodup) {old : VfsNode}
    (member : old ∈ nodes) (transform : VfsNode → VfsNode) :
    ∃ others, (fileBlobs nodes).Perm (fileBlobs [old] ++ others) ∧
      (fileBlobs (nodes.map (rewriteRow old.id transform))).Perm
        (fileBlobs [transform old] ++ others) := by
  rcases List.append_of_mem member with ⟨left, right, rfl⟩
  have apart : ∀ node, node ∈ left ++ right → node.id ≠ old.id := by
    intro node inside same
    have shuffled : (nodeIds (old :: (left ++ right))).Nodup :=
      (List.perm_middle.symm.map VfsNode.id).nodup_iff.mpr nodup
    exact (List.nodup_cons.mp shuffled).1 (same ▸ mem_nodeIds_of_mem inside)
  have untouched : ∀ rows : List VfsNode, (∀ node ∈ rows, node.id ≠ old.id) →
      rows.map (rewriteRow old.id transform) = rows := by
    intro rows different
    exact (List.map_congr_left fun node inside => if_neg (different node inside)).trans
      (List.map_id rows)
  refine ⟨fileBlobs (left ++ right), ?_, ?_⟩
  · rw [← fileBlobs_append]
    exact fileBlobs_perm List.perm_middle
  · rw [← fileBlobs_append, List.map_append, List.map_cons, rewriteRow, if_pos rfl,
      untouched left fun node inside => apart node (List.mem_append_left _ inside),
      untouched right fun node inside => apart node (List.mem_append_right _ inside)]
    exact fileBlobs_perm List.perm_middle

/-- The counts are exact. `base` is the table at the start of the transaction: a
blob without references there never gets one again. -/
structure RefBooks (base blobs : List Blob) (references : List Uuid) : Prop where
  ids : (blobs.map Blob.id).Nodup
  exact : ∀ blob ∈ blobs, blob.referenceCount = references.count blob.id
  present : ∀ id ∈ references, ∃ blob ∈ blobs, blob.id = id
  zero : ∀ blob ∈ blobs, blob.zeroSince.isSome = true ↔ blob.referenceCount = 0
  dead : ∀ old ∈ base, old.referenceCount = 0 →
    ∀ blob ∈ blobs, blob.id = old.id → blob.referenceCount = 0

namespace RefBooks

variable {base blobs : List Blob} {references : List Uuid}

theorem perm (books : RefBooks base blobs references) {others : List Uuid}
    (same : references.Perm others) : RefBooks base blobs others where
  ids := books.ids
  exact blob member := by rw [books.exact blob member, same.count_eq]
  present id member := books.present id (same.mem_iff.mpr member)
  zero := books.zero
  dead := books.dead

theorem restart (books : RefBooks base blobs references) : RefBooks blobs blobs references where
  ids := books.ids
  exact := books.exact
  present := books.present
  zero := books.zero
  dead old member none blob blobMember same := by
    rw [List.inj_on_of_nodup_map books.ids blobMember member same]
    exact none

theorem live_of_mem (books : RefBooks base blobs references) {blob : Blob}
    (member : blob ∈ blobs) (referenced : blob.id ∈ references) : 0 < blob.referenceCount := by
  rw [books.exact blob member]
  exact_mod_cast List.count_pos_iff.mpr referenced

theorem create (books : RefBooks base blobs references) (blob : Blob)
    (fresh : blob.id ∉ blobs.map Blob.id) (unused : blob.id ∉ base.map Blob.id)
    (one : blob.referenceCount = 1) (used : blob.zeroSince = none) :
    RefBooks base (blobs ++ [blob]) (blob.id :: references) := by
  have absent : blob.id ∉ references := by
    intro inside
    rcases books.present _ inside with ⟨other, member, same⟩
    exact fresh (same ▸ List.mem_map_of_mem member)
  have cases : ∀ other ∈ blobs ++ [blob], other ∈ blobs ∨ other = blob := by
    intro other member
    simpa using member
  refine { ids := ?_, exact := ?_, present := ?_, zero := ?_, dead := ?_ }
  · rw [List.map_append, List.nodup_append]
    refine ⟨books.ids, by simp, ?_⟩
    intro id inside other otherInside same
    simp only [List.map_cons, List.map_nil, List.mem_singleton] at otherInside
    subst otherInside
    exact fresh (same ▸ inside)
  · intro other member
    rcases cases other member with member | rfl
    · have different : blob.id ≠ other.id := fun same =>
        fresh (same ▸ List.mem_map_of_mem member)
      rw [books.exact other member, List.count_cons_of_ne different]
    · rw [one, List.count_cons_self, List.count_eq_zero_of_not_mem absent]
      rfl
  · intro id inside
    rcases List.mem_cons.mp inside with rfl | inside
    · exact ⟨blob, by simp, rfl⟩
    · rcases books.present id inside with ⟨other, member, same⟩
      exact ⟨other, List.mem_append_left _ member, same⟩
  · intro other member
    rcases cases other member with member | rfl
    · exact books.zero other member
    · simp [one, used]
  · intro old oldMember none other member same
    rcases cases other member with member | rfl
    · exact books.dead old oldMember none other member same
    · exact absurd (List.mem_map.mpr ⟨old, oldMember, same.symm⟩) unused

private theorem update_ids (transform : Blob → Blob) (keeps : ∀ blob, (transform blob).id = blob.id)
    (books : RefBooks base blobs references) : ((blobs.map transform).map Blob.id).Nodup := by
  rw [List.map_map]
  have same : Blob.id ∘ transform = Blob.id := funext keeps
  rw [same]
  exact books.ids

theorem increment (books : RefBooks base blobs references) {id : Uuid} (count : Nat)
    (referenced : id ∈ references) :
    RefBooks base
      (blobs.map fun blob =>
        if blob.id = id then { blob with referenceCount := blob.referenceCount + count }
        else blob)
      (List.replicate count id ++ references) := by
  refine { ids := ?_, exact := ?_, present := ?_, zero := ?_, dead := ?_ }
  · refine update_ids _ (fun blob => ?_) books
    split <;> rfl
  · intro other inside
    rcases List.mem_map.mp inside with ⟨blob, member, rfl⟩
    rw [List.count_append]
    by_cases same : blob.id = id
    · have before := books.exact blob member
      rw [if_pos same]
      simp only [same, List.count_replicate_self] at before ⊢
      omega
    · rw [if_neg same, List.count_replicate, books.exact blob member]
      simp [Ne.symm same]
  · intro other inside
    have old : other ∈ references := by
      rcases List.mem_append.mp inside with inside | inside
      · rw [List.eq_of_mem_replicate inside]
        exact referenced
      · exact inside
    rcases books.present other old with ⟨blob, member, rfl⟩
    refine ⟨_, List.mem_map_of_mem member, ?_⟩
    split <;> rfl
  · intro other inside
    rcases List.mem_map.mp inside with ⟨blob, member, rfl⟩
    by_cases same : blob.id = id
    · have live := books.live_of_mem member (same ▸ referenced)
      have unset := books.zero blob member
      simp only [if_pos same]
      rw [unset]
      omega
    · rw [if_neg same]
      exact books.zero blob member
  · intro old oldMember none other inside sameOld
    rcases List.mem_map.mp inside with ⟨blob, member, rfl⟩
    by_cases same : blob.id = id
    · rw [if_pos same] at sameOld
      have live := books.live_of_mem member (same ▸ referenced)
      rw [books.dead old oldMember none blob member sameOld] at live
      omega
    · rw [if_neg same] at sameOld ⊢
      exact books.dead old oldMember none blob member sameOld

theorem decrement {id : Uuid} {count : Nat}
    (books : RefBooks base blobs (List.replicate count id ++ references)) (now : Nat) :
    RefBooks base
      (blobs.map fun blob =>
        if blob.id = id then
          { blob with
            referenceCount := blob.referenceCount - count
            zeroSince := if blob.referenceCount - count = 0 then some now else blob.zeroSince }
        else blob)
      references := by
  have total : ∀ blob ∈ blobs, blob.id = id →
      blob.referenceCount = count + references.count id := by
    intro blob member same
    rw [books.exact blob member, List.count_append, same, List.count_replicate_self]
    omega
  refine { ids := ?_, exact := ?_, present := ?_, zero := ?_, dead := ?_ }
  · refine update_ids _ (fun blob => ?_) books
    split <;> rfl
  · intro other inside
    rcases List.mem_map.mp inside with ⟨blob, member, rfl⟩
    by_cases same : blob.id = id
    · have sum := total blob member same
      rw [if_pos same]
      simp only [same] at sum ⊢
      omega
    · have before := books.exact blob member
      rw [List.count_append, List.count_replicate] at before
      rw [if_neg same, before]
      simp [Ne.symm same]
  · intro other inside
    rcases books.present other (List.mem_append_right _ inside) with ⟨blob, member, rfl⟩
    refine ⟨_, List.mem_map_of_mem member, ?_⟩
    split <;> rfl
  · intro other inside
    rcases List.mem_map.mp inside with ⟨blob, member, rfl⟩
    by_cases same : blob.id = id
    · have unset := books.zero blob member
      simp only [if_pos same]
      by_cases empty : blob.referenceCount - count = 0
      · simp [empty]
      · rw [if_neg empty, unset]
        have sum := total blob member same
        omega
    · rw [if_neg same]
      exact books.zero blob member
  · intro old oldMember none other inside sameOld
    rcases List.mem_map.mp inside with ⟨blob, member, rfl⟩
    by_cases same : blob.id = id
    · simp only [if_pos same] at sameOld ⊢
      have sum := total blob member same
      have zero := books.dead old oldMember none blob member sameOld
      omega
    · rw [if_neg same] at sameOld ⊢
      exact books.dead old oldMember none blob member sameOld

end RefBooks

/-! ## Counted references -/

/-- The references that a list of counts stands for. -/
def expandCounts (counts : List (Uuid × Nat)) : List Uuid :=
  counts.flatMap fun entry => List.replicate entry.2 entry.1

theorem count_expandCounts (counts : List (Uuid × Nat)) (nodup : (counts.map Prod.fst).Nodup)
    (id : Uuid) :
    (expandCounts counts).count id = ((OrderedMap.lookup id counts).getD 0) := by
  induction counts with
  | nil => rfl
  | cons entry rest induction =>
      rcases entry with ⟨first, count⟩
      have parts := List.nodup_cons.mp nodup
      rw [expandCounts, List.flatMap_cons, List.count_append, ← expandCounts, induction parts.2]
      by_cases same : first = id
      · subst same
        simp [OrderedMap.lookup, OrderedMap.lookup_eq_none parts.1]
      · simp [OrderedMap.lookup, same, List.count_replicate]

theorem expandCounts_tally (ids : List Uuid) :
    (expandCounts (OrderedMap.tally ids).entries).Perm ids := by
  rw [List.perm_iff_count]
  intro id
  rw [count_expandCounts _ (OrderedMap.tally ids).nodup]
  exact OrderedMap.getD_tally ids id

theorem sortBy_perm {α : Type} (le : α → α → Bool) (items : List α) :
    (sortBy le items).Perm items :=
  List.perm_insertionSort _ items

theorem expandCounts_sortedCounts (ids : List Uuid) :
    (expandCounts (sortedCounts ids)).Perm ids :=
  ((sortBy_perm _ _).flatMap_right _).trans (expandCounts_tally ids)

theorem tally_pos {ids : List Uuid} {entry : Uuid × Nat}
    (member : entry ∈ (OrderedMap.tally ids).entries) : 0 < entry.2 := by
  have found := ((OrderedMap.tally ids).mem_entries_iff entry.1 entry.2).mp member
  have total := OrderedMap.getD_tally ids entry.1
  rw [found, Option.getD_some] at total
  have occurs := List.count_pos_iff.mpr (OrderedMap.mem_of_mem_tally member)
  omega

end Storix
