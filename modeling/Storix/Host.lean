import Storix.Text
import Mathlib.Logic.Function.Basic

/-! # What the code runs on

Everything the program takes from its runtime and its database without computing
it: random ids, Unicode normalization, the order in which a query without
`ORDER BY` returns its rows, the database's order on names, and the configured
limits. The development holds for every choice of these. -/

namespace Storix

abbrev Uuid := Nat

structure Config where
  defaultMaxTotalLogicalBytes : Nat
  maxTotalLogicalBytes : Nat
  defaultMaxFilesPerFolder : Nat
  maxFilesPerFolder : Nat
  defaultMaxLiveNodes : Nat
  maxLiveNodes : Nat
  maxRetainedTrashNodes : Nat
  maxSyncDeleteNodes : Nat
  maxSyncCopyNodes : Nat
  maxSyncMoveNodes : Nat
  maxSyncSnapshotNodes : Nat
  maxSnapshotBytes : Nat
  maxRetainedSnapshotNodes : Nat
  maxRetainedSnapshotBytes : Nat

structure Host where
  /-- The UUID of each draw. Draws never repeat. -/
  randomUUID : Nat → Uuid
  randomUUID_injective : Function.Injective randomUUID
  /-- The lower-case text of a UUID. -/
  uuidText : Uuid → JsString
  /-- `text.normalize('NFC')` -/
  normalizeNFC : JsString → JsString
  /-- `text.toLowerCase()` -/
  toLowerCase : JsString → JsString
  /-- The order a query without `ORDER BY` returns its rows in. -/
  rowOrder : {α : Type} → List α → List α
  rowOrder_perm : ∀ {α : Type} (rows : List α), (rowOrder rows).Perm rows
  /-- The collation of the `name` column. -/
  nameLe : JsString → JsString → Bool
  nameLe_total : ∀ left right, nameLe left right || nameLe right left
  nameLe_trans : ∀ left middle right,
    nameLe left middle = true → nameLe middle right = true → nameLe left right = true
  nameLe_antisymm : ∀ left right,
    nameLe left right = true → nameLe right left = true → left = right
  config : Config

namespace Host

@[simp] theorem mem_rowOrder (host : Host) {α : Type} {rows : List α} {row : α} :
    row ∈ host.rowOrder rows ↔ row ∈ rows :=
  (host.rowOrder_perm rows).mem_iff

@[simp] theorem length_rowOrder (host : Host) {α : Type} (rows : List α) :
    (host.rowOrder rows).length = rows.length :=
  (host.rowOrder_perm rows).length_eq

/-- A host that counts its ids up, compares names by code unit, and knows only names that
are already in normal form. -/
def counting : Host where
  randomUUID := id
  randomUUID_injective := Function.injective_id
  uuidText := fun id => [UInt16.ofNat id]
  normalizeNFC := id
  toLowerCase := id
  rowOrder := id
  rowOrder_perm := fun rows => List.Perm.refl rows
  nameLe := fun left right => decide (left ≤ right)
  nameLe_total := fun left right => by simpa using List.le_total left right
  nameLe_trans := fun left middle right => by simpa using List.le_trans
  nameLe_antisymm := fun left right => by simpa using List.le_antisymm
  config :=
    { defaultMaxTotalLogicalBytes := 1000, maxTotalLogicalBytes := 1000
      defaultMaxFilesPerFolder := 100, maxFilesPerFolder := 100
      defaultMaxLiveNodes := 100, maxLiveNodes := 100
      maxRetainedTrashNodes := 100, maxSyncDeleteNodes := 100, maxSyncCopyNodes := 100
      maxSyncMoveNodes := 100, maxSyncSnapshotNodes := 100, maxSnapshotBytes := 1000
      maxRetainedSnapshotNodes := 1000, maxRetainedSnapshotBytes := 1000 }

end Host

end Storix
