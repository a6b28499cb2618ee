import Mathlib.Algebra.GroupWithZero.Nat
import Mathlib.Algebra.Ring.Int.Defs
import Mathlib.Data.List.Nodup
import Mathlib.Algebra.Order.BigOperators.Group.List

/-! # Ledgers

A table of accounts and a table of postings, each posting owned by one account. An
account stores an amount that is the sum of the weights of its postings. The sum
of the amounts is then the sum of all weights, and opening an account with its
postings or closing one with all of its postings keeps the ledger. -/

namespace Storix.Foundation

variable {ι ε κ : Type} [DecidableEq κ]

def postings (owner : ε → κ) (entries : List ε) (key : κ) : List ε :=
  entries.filter fun entry => owner entry = key

structure Ledger (key : ι → κ) (amount : ι → Int) (owner : ε → κ) (weight : ε → Int)
    (items : List ι) (entries : List ε) : Prop where
  keys : (items.map key).Nodup
  owned : ∀ entry ∈ entries, owner entry ∈ items.map key
  exact : ∀ item ∈ items, amount item = ((postings owner entries (key item)).map weight).sum

namespace Ledger

variable {key : ι → κ} {amount : ι → Int} {owner : ε → κ} {weight : ε → Int}
  {items : List ι} {entries : List ε}

theorem sum_postings {keys : List κ} (nodup : keys.Nodup)
    (owned : ∀ entry ∈ entries, owner entry ∈ keys) :
    (keys.map fun key => ((postings owner entries key).map weight).sum).sum =
      (entries.map weight).sum := by
  induction entries with
  | nil => simp [postings]
  | cons entry rest induction =>
      have others := induction fun other member => owned other (List.mem_cons_of_mem _ member)
      have split : ∀ key, ((postings owner (entry :: rest) key).map weight).sum =
          (if key = owner entry then weight entry else 0) +
            ((postings owner rest key).map weight).sum := by
        intro key
        by_cases same : owner entry = key
        · simp [postings, same]
        · simp [postings, same, Ne.symm same]
      have once : (keys.map fun key => if key = owner entry then weight entry else 0).sum =
          weight entry := by
        have inside := owned entry (by simp)
        clear others induction owned split
        induction keys with
        | nil => cases inside
        | cons first keys induction =>
            have parts := List.nodup_cons.mp nodup
            rw [List.map_cons, List.sum_cons]
            by_cases same : first = owner entry
            · have rest : (keys.map fun key =>
                  if key = owner entry then weight entry else 0).sum = 0 := by
                refine List.sum_eq_zero fun value member => ?_
                rcases List.mem_map.mp member with ⟨other, otherMember, rfl⟩
                refine if_neg fun again => parts.1 ?_
                rw [same, ← again]
                exact otherMember
              rw [if_pos same, rest, add_zero]
            · rw [if_neg same, zero_add]
              refine induction parts.2 ?_
              rcases List.mem_cons.mp inside with again | inside
              · exact absurd again.symm same
              · exact inside
      rw [List.map_congr_left fun key _ => split key, List.sum_map_add, once, others,
        List.map_cons, List.sum_cons]

theorem total (ledger : Ledger key amount owner weight items entries) :
    (items.map amount).sum = (entries.map weight).sum := by
  rw [← sum_postings ledger.keys ledger.owned, List.map_map]
  exact congrArg List.sum (List.map_congr_left ledger.exact)

theorem postings_eq_self {account : κ} (own : ∀ entry ∈ entries, owner entry = account) :
    postings owner entries account = entries :=
  List.filter_eq_self.mpr fun entry member => by simpa using own entry member

theorem postings_eq_nil {other : κ} (apart : ∀ entry ∈ entries, owner entry ≠ other) :
    postings owner entries other = [] :=
  List.filter_eq_nil_iff.mpr fun entry member => by simpa using apart entry member

theorem postings_of_fresh {keys : List κ} (owned : ∀ entry ∈ entries, owner entry ∈ keys)
    {account : κ} (fresh : account ∉ keys) : postings owner entries account = [] :=
  postings_eq_nil fun entry member same => fresh (same ▸ owned entry member)

theorem postings_append_of_ne {more : List ε} {account : κ}
    (own : ∀ entry ∈ more, owner entry = account) {other : κ} (different : other ≠ account) :
    postings owner (entries ++ more) other = postings owner entries other := by
  have none : postings owner more other = [] :=
    postings_eq_nil fun entry member same => different (same.symm.trans (own entry member))
  unfold postings at none ⊢
  rw [List.filter_append, none, List.append_nil]

theorem postings_append_self {more : List ε} {keys : List κ} {account : κ}
    (owned : ∀ entry ∈ entries, owner entry ∈ keys) (fresh : account ∉ keys)
    (own : ∀ entry ∈ more, owner entry = account) :
    postings owner (entries ++ more) account = more := by
  have none := postings_of_fresh owned fresh
  have all := postings_eq_self own
  unfold postings at none all ⊢
  rw [List.filter_append, none, all, List.nil_append]

theorem append (ledger : Ledger key amount owner weight items entries) {item : ι}
    {more : List ε} (fresh : key item ∉ items.map key)
    (own : ∀ entry ∈ more, owner entry = key item)
    (sum : amount item = (more.map weight).sum) :
    Ledger key amount owner weight (items ++ [item]) (entries ++ more) where
  keys := by
    rw [List.map_append, List.nodup_append]
    refine ⟨ledger.keys, by simp, ?_⟩
    intro left leftMember right rightMember same
    simp only [List.map_cons, List.map_nil, List.mem_singleton] at rightMember
    exact fresh (rightMember ▸ same ▸ leftMember)
  owned entry member := by
    rw [List.map_append, List.mem_append]
    rcases List.mem_append.mp member with member | member
    · exact .inl (ledger.owned entry member)
    · exact .inr (by simp [own entry member])
  exact other member := by
    rcases List.mem_append.mp member with member | member
    · have different : key other ≠ key item := fun same =>
        fresh (same ▸ List.mem_map_of_mem member)
      rw [postings_append_of_ne own different]
      exact ledger.exact other member
    · rw [List.mem_singleton] at member
      subst member
      rw [postings_append_self ledger.owned fresh own]
      exact sum

/-- Closing an account leaves the postings of the others alone. -/
theorem postings_close_of_ne {closed other : κ} (different : other ≠ closed) :
    postings owner (entries.filter fun entry => owner entry ≠ closed) other =
      postings owner entries other := by
  unfold postings
  rw [List.filter_filter]
  refine List.filter_congr fun entry _ => ?_
  by_cases same : owner entry = other
  · simp [same, different]
  · simp [same]

theorem close (ledger : Ledger key amount owner weight items entries) (closed : κ) :
    Ledger key amount owner weight (items.filter fun item => key item ≠ closed)
      (entries.filter fun entry => owner entry ≠ closed) where
  keys := ledger.keys.sublist (List.filter_sublist.map _)
  owned entry member := by
    rcases List.mem_filter.mp member with ⟨entryMember, apart⟩
    rcases List.mem_map.mp (ledger.owned entry entryMember) with ⟨item, itemMember, same⟩
    refine List.mem_map.mpr ⟨item, List.mem_filter.mpr ⟨itemMember, ?_⟩, same⟩
    simpa [same] using apart
  exact item member := by
    rcases List.mem_filter.mp member with ⟨itemMember, apart⟩
    rw [postings_close_of_ne (by simpa using apart)]
    exact ledger.exact item itemMember

theorem sum_close (nodup : (items.map key).Nodup) {item : ι} (member : item ∈ items)
    (measure : ι → Int) :
    ((items.filter fun other => key other ≠ key item).map measure).sum =
      (items.map measure).sum - measure item := by
  induction items with
  | nil => cases member
  | cons first rest induction =>
      have parts := List.nodup_cons.mp nodup
      rcases List.mem_cons.mp member with rfl | member
      · have others : rest.filter (fun other => key other ≠ key item) = rest := by
          refine List.filter_eq_self.mpr fun other otherMember => ?_
          have different : key other ≠ key item := fun same =>
            parts.1 (same ▸ List.mem_map_of_mem otherMember)
          simpa using different
        rw [List.filter_cons_of_neg (by simp), others, List.map_cons, List.sum_cons]
        omega
      · have different : key first ≠ key item := fun same =>
          parts.1 (same ▸ List.mem_map_of_mem member)
        rw [List.filter_cons_of_pos (by simpa using different), List.map_cons, List.sum_cons,
          induction parts.2 member, List.map_cons, List.sum_cons]
        omega

end Ledger

end Storix.Foundation
