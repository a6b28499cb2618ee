import Storix.Foundation.OrderedMap
import Mathlib.Data.List.Induction

/-! # Tries

A trie numbers its nodes and keeps the edges in one map from a node and a key. It stands for
a partial map from paths to what the nodes hold, and adding an edge or rewriting a node
changes that map at one path. -/

namespace Storix.Foundation

structure Trie (κ β : Type) [DecidableEq κ] where
  children : OrderedMap (Nat × κ) Nat
  nodes : List β

namespace Trie

variable {κ β : Type} [DecidableEq κ] {trie : Trie κ β} {node : Nat} {key : κ} {front path : List κ}

def child (trie : Trie κ β) (node : Nat) (key : κ) : Option Nat := trie.children.get (node, key)

def walk (trie : Trie κ β) : Nat → List κ → Option Nat
  | node, [] => some node
  | node, key :: rest => (trie.child node key).bind fun next => trie.walk next rest

def value (trie : Trie κ β) (path : List κ) : Option β :=
  (trie.walk 0 path).bind fun node => trie.nodes[node]?

def extend (trie : Trie κ β) (node : Nat) (key : κ) (item : β) : Trie κ β where
  children := trie.children.set (node, key) trie.nodes.length
  nodes := trie.nodes ++ [item]

def modify (trie : Trie κ β) (node : Nat) (transform : β → β) : Trie κ β where
  children := trie.children
  nodes := trie.nodes.modify node transform

/-- Every edge joins two nodes, none leads to the root, and no two lead to one node. -/
structure WellFormed (trie : Trie κ β) : Prop where
  root : 0 < trie.nodes.length
  inside : ∀ node key next, trie.child node key = some next →
    node < trie.nodes.length ∧ 0 < next ∧ next < trie.nodes.length
  single : ∀ node key other otherKey next, trie.child node key = some next →
    trie.child other otherKey = some next → node = other ∧ key = otherKey

theorem walk_append (trie : Trie κ β) (node : Nat) (front back : List κ) :
    trie.walk node (front ++ back) =
      (trie.walk node front).bind fun next => trie.walk next back := by
  induction front generalizing node with
  | nil => rfl
  | cons key front induction =>
      rw [List.cons_append, walk, walk, Option.bind_assoc]
      exact congrArg _ (funext fun next => induction next)

theorem walk_singleton (trie : Trie κ β) (node : Nat) (key : κ) :
    trie.walk node [key] = trie.child node key := by
  unfold walk
  cases trie.child node key with
  | none => rfl
  | some next => rfl

theorem walk_snoc (trie : Trie κ β) (node : Nat) (front : List κ) (key : κ) :
    trie.walk node (front ++ [key]) =
      (trie.walk node front).bind fun next => trie.child next key := by
  rw [walk_append]
  exact congrArg _ (funext fun next => trie.walk_singleton next key)

theorem walk_modify (trie : Trie κ β) (node : Nat) (transform : β → β) (path : List κ) :
    (trie.modify node transform).walk 0 path = trie.walk 0 path := by
  have sameChild : (trie.modify node transform).child = trie.child := rfl
  induction path using List.reverseRecOn with
  | nil => rfl
  | append_singleton path key induction => rw [walk_snoc, walk_snoc, induction, sameChild]

theorem value_of_walk_none (isNone : trie.walk 0 path = none) : trie.value path = none := by
  unfold value
  rw [isNone]
  rfl

namespace WellFormed

theorem walk_lt (formed : trie.WellFormed) (found : trie.walk 0 path = some node) :
    node < trie.nodes.length := by
  cases path using List.reverseRecOn with
  | nil =>
      cases found
      exact formed.root
  | append_singleton path key =>
      rw [walk_snoc] at found
      rcases Option.bind_eq_some_iff.mp found with ⟨previous, _, isChild⟩
      exact (formed.inside previous key node isChild).2.2

theorem walk_injective (formed : trie.WellFormed) {other : List κ}
    (found : trie.walk 0 path = some node) (otherFound : trie.walk 0 other = some node) :
    path = other := by
  induction path using List.reverseRecOn generalizing other node with
  | nil =>
      cases found
      cases other using List.reverseRecOn with
      | nil => rfl
      | append_singleton other key =>
          rw [walk_snoc] at otherFound
          rcases Option.bind_eq_some_iff.mp otherFound with ⟨previous, _, isChild⟩
          exact absurd (formed.inside previous key 0 isChild).2.1 (Nat.lt_irrefl 0)
  | append_singleton path key induction =>
      rw [walk_snoc] at found
      rcases Option.bind_eq_some_iff.mp found with ⟨previous, isPrevious, isChild⟩
      cases other using List.reverseRecOn with
      | nil =>
          cases otherFound
          exact absurd (formed.inside previous key 0 isChild).2.1 (Nat.lt_irrefl 0)
      | append_singleton other otherKey =>
          rw [walk_snoc] at otherFound
          rcases Option.bind_eq_some_iff.mp otherFound with ⟨otherPrevious, isOther, otherChild⟩
          rcases formed.single _ _ _ _ _ isChild otherChild with ⟨rfl, rfl⟩
          rw [induction isPrevious isOther]

theorem value_isSome (formed : trie.WellFormed) :
    (trie.value path).isSome = (trie.walk 0 path).isSome := by
  unfold value
  cases found : trie.walk 0 path with
  | none => rfl
  | some node =>
      rw [Option.bind_some, List.getElem?_eq_getElem (formed.walk_lt found)]
      rfl

theorem value_of_walk (formed : trie.WellFormed) (found : trie.walk 0 path = some node) :
    ∃ item, trie.value path = some item :=
  Option.isSome_iff_exists.mp (by rw [formed.value_isSome, found]; rfl)

theorem modify (formed : trie.WellFormed) (node : Nat) (transform : β → β) :
    (trie.modify node transform).WellFormed where
  root := by
    unfold Trie.modify
    rw [List.length_modify]
    exact formed.root
  inside := by
    unfold Trie.modify
    rw [List.length_modify]
    exact formed.inside
  single := formed.single

theorem value_modify (formed : trie.WellFormed) (found : trie.walk 0 front = some node)
    (transform : β → β) (path : List κ) :
    (trie.modify node transform).value path =
      if path = front then (trie.value path).map transform else trie.value path := by
  unfold value
  rw [walk_modify]
  cases isNode : trie.walk 0 path with
  | none => simp
  | some other =>
      rw [Option.bind_some, Option.bind_some]
      unfold Trie.modify
      rw [List.getElem?_modify]
      by_cases same : path = front
      · subst same
        rw [isNode] at found
        cases found
        simp
      · have different : node ≠ other := by
          intro isSame
          exact same (formed.walk_injective isNode (isSame ▸ found))
        simp [same, different]

end WellFormed

theorem child_extend (trie : Trie κ β) (node : Nat) (key : κ) (item : β) (other : Nat)
    (otherKey : κ) :
    (trie.extend node key item).child other otherKey =
      if (other, otherKey) = (node, key) then some trie.nodes.length
      else trie.child other otherKey := by
  unfold child extend
  rw [OrderedMap.get_set]

namespace WellFormed

theorem extend (formed : trie.WellFormed) (bound : node < trie.nodes.length) (key : κ) (item : β) :
    (trie.extend node key item).WellFormed where
  root := by simp [Trie.extend]
  inside := by
    intro other otherKey next isChild
    rw [child_extend] at isChild
    have length : (trie.extend node key item).nodes.length = trie.nodes.length + 1 := by
      simp [Trie.extend]
    rw [length]
    split at isChild
    · rename_i same
      cases isChild
      cases same
      have positive := formed.root
      omega
    · have inside := formed.inside other otherKey next isChild
      omega
  single := by
    intro other otherKey second secondKey next isChild secondChild
    rw [child_extend] at isChild secondChild
    split at isChild
    · rename_i same
      cases isChild
      split at secondChild
      · rename_i secondSame
        cases same
        cases secondSame
        exact ⟨rfl, rfl⟩
      · have inside := formed.inside second secondKey _ secondChild
        omega
    · split at secondChild
      · cases secondChild
        have inside := formed.inside other otherKey _ isChild
        omega
      · exact formed.single _ _ _ _ _ isChild secondChild

theorem walk_extend (formed : trie.WellFormed) (found : trie.walk 0 front = some node)
    (isNew : trie.child node key = none) (item : β) (path : List κ) :
    (trie.extend node key item).walk 0 path =
      if path = front ++ [key] then some trie.nodes.length else trie.walk 0 path := by
  have bound := formed.walk_lt found
  induction path using List.reverseRecOn with
  | nil => simp [walk]
  | append_singleton path last induction =>
      rw [walk_snoc, induction]
      by_cases same : path = front ++ [key]
      · -- The new node has no children yet.
        rw [if_pos same, Option.bind_some, child_extend, if_neg (by rintro ⟨⟩; omega)]
        have longer : path ++ [last] ≠ front ++ [key] := by
          rw [same]
          simp
        have noChild : trie.child trie.nodes.length last = none := by
          cases isChild : trie.child trie.nodes.length last with
          | none => rfl
          | some next => exact absurd (formed.inside _ _ _ isChild).1 (Nat.lt_irrefl _)
        rw [if_neg longer, noChild, walk_snoc, same, walk_snoc, found, Option.bind_some, isNew]
        rfl
      · rw [if_neg same, walk_snoc]
        cases isNode : trie.walk 0 path with
        | none =>
            have different : path ++ [last] ≠ front ++ [key] := by
              intro isSame
              rw [(List.append_inj' isSame rfl).1, found] at isNode
              cases isNode
            rw [if_neg different]
            rfl
        | some other =>
            rw [Option.bind_some, Option.bind_some, child_extend]
            by_cases edge : (other, last) = (node, key)
            · cases edge
              rw [if_pos rfl, formed.walk_injective isNode found, if_pos rfl]
            · have different : path ++ [last] ≠ front ++ [key] := by
                intro isSame
                rcases List.append_inj' isSame rfl with ⟨rfl, isKey⟩
                cases isKey
                rw [found] at isNode
                cases isNode
                exact edge rfl
              rw [if_neg edge, if_neg different]

theorem value_extend (formed : trie.WellFormed) (found : trie.walk 0 front = some node)
    (isNew : trie.child node key = none) (item : β) (path : List κ) :
    (trie.extend node key item).value path =
      if path = front ++ [key] then some item else trie.value path := by
  unfold value
  rw [formed.walk_extend found isNew]
  by_cases same : path = front ++ [key]
  · rw [if_pos same, if_pos same, Option.bind_some]
    unfold Trie.extend
    simp
  · rw [if_neg same, if_neg same]
    cases isNode : trie.walk 0 path with
    | none => rfl
    | some other =>
        rw [Option.bind_some, Option.bind_some]
        unfold Trie.extend
        exact List.getElem?_append_left (formed.walk_lt isNode)

end WellFormed

end Trie

end Storix.Foundation
