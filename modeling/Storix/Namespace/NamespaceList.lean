import Storix.Foundation.Keyset
import Storix.Namespace.NamespaceResponse
import Storix.Persistence.Reads

/-! # The list of namespaces

The active namespaces with a name, by name and id, and then those without one, by id. A page is
stitched together from two queries. -/

namespace Storix

open Foundation

/-- `COLLATE "C"`, for texts without surrogates. -/
def textOrder : KeyOrder JsString where
  before := JsString.before
  irrefl text := by simp [JsString.before]
  trans first second := by
    simp only [JsString.before, decide_eq_true_eq] at *
    exact List.lt_trans first second
  total different := by
    simp only [JsString.before, decide_eq_true_eq]
    by_contra neither
    rw [not_or, List.not_lt, List.not_lt] at neither
    exact different (List.le_antisymm neither.2 neither.1)

/-- Ids by their prefixes, those without one last, and then by their UUIDs. -/
def idOrder : KeyOrder NamespaceId :=
  (textOrder.missingLast.lex KeyOrder.nat).comap (fun id => (id.idPrefix, id.uuid))
    (by
      rintro ⟨leftPrefix, leftUuid⟩ ⟨rightPrefix, rightUuid⟩ same
      cases same
      rfl)

structure NamespaceColumns where
  names : KeyOrder JsString
  ids : KeyOrder NamespaceId

namespace NamespaceColumns

variable (columns : NamespaceColumns)

def position (row : NamespaceEntity) : Option JsString × NamespaceId := (row.name, row.id)

/-- `(n.name, n.id) < (…)`; a row without a name is never compared by it. -/
def order : KeyOrder (Option JsString × NamespaceId) := columns.names.missingLast.lex columns.ids

/-- `ORDER BY name ASC, id ASC` -/
def nameLe (left right : NamespaceEntity) : Bool :=
  !columns.order.before (position right) (position left)

/-- `ORDER BY id ASC` -/
def idLe (left right : NamespaceEntity) : Bool := !columns.ids.before right.id left.id

/-- `status = 'ACTIVE' AND name IS NOT NULL` -/
def named (rows : List NamespaceEntity) : List NamespaceEntity :=
  rows.filter fun row => row.status = .active ∧ row.name.isSome = true

/-- `status = 'ACTIVE' AND name IS NULL` -/
def unnamed (rows : List NamespaceEntity) : List NamespaceEntity :=
  rows.filter fun row => row.status = .active ∧ row.name = none

def findAll (rows : List NamespaceEntity) : List NamespaceEntity :=
  sortBy columns.nameLe (named rows) ++ sortBy columns.idLe (unnamed rows)

end NamespaceColumns

structure NamespaceListCursor where
  name : Option JsString
  id : NamespaceId
  deriving DecidableEq

namespace NamespaceColumns

variable (columns : NamespaceColumns)

def findPage (rows : List NamespaceEntity) (after : Option NamespaceListCursor)
    (rawLimit : Option Nat) : List NamespaceEntity × Option NamespaceListCursor :=
  let limit := resolveLimit rawLimit
  let namedRemaining := if after.any fun after => after.name = none then 0 else limit + 1
  let namedRows :=
    if namedRemaining = 0 then []
    else
      (sortBy columns.nameLe ((named rows).filter fun row =>
        after.all fun after => after.name.all fun afterName =>
          columns.order.before (some afterName, after.id) (position row))).take namedRemaining
  let needsUnnamed := decide (namedRows.length ≤ limit)
  let unnamedRows :=
    if needsUnnamed then
      (sortBy columns.idLe ((unnamed rows).filter fun row =>
        after.all fun after => after.name.isSome || columns.ids.before after.id row.id)).take
          (limit + 1 - namedRows.length)
    else []
  let found := namedRows ++ unnamedRows
  let hasMore := decide (limit < found.length)
  let page := if hasMore then found.take limit else found
  (page, if hasMore then page.getLast?.map fun last => ⟨last.name, last.id⟩ else none)

end NamespaceColumns

end Storix
