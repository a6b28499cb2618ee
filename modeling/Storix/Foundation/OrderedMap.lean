import Mathlib.Data.List.Nodup

/-! # Insertion-ordered maps

A finite map that remembers the order in which its keys were first set. Setting
an existing key keeps its place. Distinctness of the keys is part of the type. -/

namespace Storix.Foundation

structure OrderedMap (κ α : Type) where
  entries : List (κ × α)
  nodup : (entries.map Prod.fst).Nodup

namespace OrderedMap

variable {κ α : Type} [DecidableEq κ]

def empty : OrderedMap κ α where
  entries := []
  nodup := List.nodup_nil

def keys (map : OrderedMap κ α) : List κ := map.entries.map Prod.fst

def lookup (key : κ) : List (κ × α) → Option α
  | [] => none
  | (first, value) :: rest => if first = key then some value else lookup key rest

def get (map : OrderedMap κ α) (key : κ) : Option α := lookup key map.entries

def has (map : OrderedMap κ α) (key : κ) : Bool := (map.get key).isSome

/-- Replace the value of `key` where it stands, or append it. -/
def insertEntry (key : κ) (value : α) : List (κ × α) → List (κ × α)
  | [] => [(key, value)]
  | (first, old) :: rest =>
      if first = key then (key, value) :: rest
      else (first, old) :: insertEntry key value rest

theorem mem_insertEntry_keys (key other : κ) (value : α) (entries : List (κ × α)) :
    other ∈ (insertEntry key value entries).map Prod.fst ↔
      other = key ∨ other ∈ entries.map Prod.fst := by
  induction entries with
  | nil => simp [insertEntry]
  | cons entry rest induction =>
      rcases entry with ⟨first, old⟩
      by_cases equal : first = key
      · subst first
        simp [insertEntry]
      · simp only [insertEntry, if_neg equal, List.map_cons, List.mem_cons, induction]
        tauto

theorem nodup_insertEntry (key : κ) (value : α) (entries : List (κ × α))
    (nodup : (entries.map Prod.fst).Nodup) :
    ((insertEntry key value entries).map Prod.fst).Nodup := by
  induction entries with
  | nil => simp [insertEntry]
  | cons entry rest induction =>
      rcases entry with ⟨first, old⟩
      have parts := List.nodup_cons.mp nodup
      by_cases equal : first = key
      · subst first
        simpa [insertEntry] using nodup
      · simp only [insertEntry, if_neg equal, List.map_cons]
        refine List.nodup_cons.mpr ⟨?_, induction parts.2⟩
        rw [mem_insertEntry_keys]
        rintro (same | member)
        · exact equal same
        · exact parts.1 member

def set (map : OrderedMap κ α) (key : κ) (value : α) : OrderedMap κ α where
  entries := insertEntry key value map.entries
  nodup := nodup_insertEntry key value map.entries map.nodup

@[simp] theorem get_empty (key : κ) : (empty : OrderedMap κ α).get key = none := rfl

@[simp] theorem get_set (map : OrderedMap κ α) (key other : κ) (value : α) :
    (map.set key value).get other = if other = key then some value else map.get other := by
  unfold set get
  simp only
  induction map.entries with
  | nil => simp [insertEntry, lookup, eq_comm]
  | cons entry rest induction =>
      rcases entry with ⟨first, old⟩
      by_cases same : first = key
      · subst first
        by_cases found : key = other
        · simp [insertEntry, lookup, found]
        · simp [insertEntry, lookup, found, Ne.symm found]
      · simp only [insertEntry, if_neg same, lookup]
        by_cases found : first = other
        · subst first
          simp [same]
        · rw [if_neg found, if_neg found]
          exact induction

theorem lookup_eq_none {key : κ} {entries : List (κ × α)}
    (absent : key ∉ entries.map Prod.fst) : lookup key entries = none := by
  induction entries with
  | nil => rfl
  | cons entry rest induction =>
      rcases entry with ⟨first, value⟩
      rw [List.map_cons, List.mem_cons, not_or] at absent
      rw [lookup, if_neg (Ne.symm absent.1)]
      exact induction absent.2

theorem mem_entries_iff (map : OrderedMap κ α) (key : κ) (value : α) :
    (key, value) ∈ map.entries ↔ map.get key = some value := by
  rcases map with ⟨entries, nodup⟩
  unfold get
  simp only
  induction entries with
  | nil => simp [lookup]
  | cons entry rest induction =>
      rcases entry with ⟨first, old⟩
      have parts := List.nodup_cons.mp nodup
      by_cases same : first = key
      · subst first
        have absent : (key, value) ∉ rest := fun member =>
          parts.1 (List.mem_map.mpr ⟨(key, value), member, rfl⟩)
        simp [lookup, absent, eq_comm]
      · have different : ¬(key, value) = (first, old) := by
          intro equal
          exact same (Prod.mk.inj equal).1.symm
        simp only [lookup, if_neg same, List.mem_cons, different, false_or]
        exact induction parts.2

theorem mem_keys_iff (map : OrderedMap κ α) (key : κ) :
    key ∈ map.keys ↔ map.get key ≠ none := by
  constructor
  · intro member
    rcases List.mem_map.mp member with ⟨⟨first, value⟩, inEntries, rfl⟩
    rw [(map.mem_entries_iff first value).mp inEntries]
    simp
  · intro present
    cases found : map.get key with
    | none => exact absurd found present
    | some value =>
        exact List.mem_map.mpr ⟨(key, value), (map.mem_entries_iff key value).mpr found, rfl⟩

omit [DecidableEq κ] in
theorem keys_nodup (map : OrderedMap κ α) : map.keys.Nodup := map.nodup

@[simp] theorem has_eq_true_iff (map : OrderedMap κ α) (key : κ) :
    map.has key = true ↔ map.get key ≠ none := by
  simp [has, Option.isSome_iff_ne_none]

@[simp] theorem has_eq_false_iff (map : OrderedMap κ α) (key : κ) :
    map.has key = false ↔ map.get key = none := by
  cases found : map.get key <;> simp [has, found]

def merge (map other : OrderedMap κ α) : OrderedMap κ α :=
  other.entries.foldl (fun map entry => map.set entry.1 entry.2) map

private theorem get_foldl_set (entries : List (κ × α)) (nodup : (entries.map Prod.fst).Nodup)
    (map : OrderedMap κ α) (key : κ) :
    (entries.foldl (fun map entry => map.set entry.1 entry.2) map).get key =
      (lookup key entries).or (map.get key) := by
  induction entries generalizing map with
  | nil => rfl
  | cons entry rest induction =>
      rcases entry with ⟨first, value⟩
      have parts := List.nodup_cons.mp nodup
      rw [List.foldl_cons, induction parts.2, get_set]
      by_cases same : first = key
      · subst first
        simp [lookup, lookup_eq_none parts.1]
      · simp [lookup, same, Ne.symm same]

theorem get_merge (map other : OrderedMap κ α) (key : κ) :
    (map.merge other).get key = (other.get key).or (map.get key) :=
  get_foldl_set other.entries other.nodup map key

def tally (items : List κ) : OrderedMap κ Nat :=
  items.foldl (fun counts item => counts.set item ((counts.get item).getD 0 + 1)) empty

private theorem getD_foldl_tally (items : List κ) (counts : OrderedMap κ Nat) (key : κ) :
    ((items.foldl (fun counts item => counts.set item ((counts.get item).getD 0 + 1))
      counts).get key).getD 0 = (counts.get key).getD 0 + items.count key := by
  induction items generalizing counts with
  | nil => simp
  | cons item rest induction =>
      rw [List.foldl_cons, induction, get_set, List.count_cons]
      by_cases same : key = item
      · subst item
        simp
        omega
      · simp [same, Ne.symm same]

theorem getD_tally (items : List κ) (key : κ) :
    ((tally items).get key).getD 0 = items.count key := by
  simp [tally, getD_foldl_tally]

private theorem mem_foldl_tally (items : List κ) (counts : OrderedMap κ Nat) {key : κ}
    (present : (items.foldl
      (fun counts item => counts.set item ((counts.get item).getD 0 + 1)) counts).get key ≠ none) :
    counts.get key ≠ none ∨ key ∈ items := by
  induction items generalizing counts with
  | nil => exact .inl present
  | cons item rest induction =>
      rcases induction _ present with found | member
      · by_cases same : key = item
        · exact .inr (by simp [same])
        · rw [get_set, if_neg same] at found
          exact .inl found
      · exact .inr (List.mem_cons_of_mem _ member)

theorem mem_of_mem_tally {items : List κ} {entry : κ × Nat}
    (member : entry ∈ (tally items).entries) : entry.1 ∈ items := by
  have found := ((tally items).mem_entries_iff entry.1 entry.2).mp member
  have present : (tally items).get entry.1 ≠ none := by simp [found]
  rcases mem_foldl_tally items empty present with absent | inside
  · exact absurd rfl absent
  · exact inside

end OrderedMap

end Storix.Foundation
