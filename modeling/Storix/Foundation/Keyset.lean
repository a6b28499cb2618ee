import Mathlib.Data.List.Sort
import Mathlib.Data.List.Nodup

/-! # Keysets

A table read page by page: each page is the first rows after the key where the last page
ended. Whatever happens to the table in between, a row that stays is on exactly one page. -/

namespace Storix.Foundation

structure KeyOrder (κ : Type) where
  before : κ → κ → Bool
  irrefl : ∀ key, before key key = false
  trans : ∀ {first second third}, before first second = true → before second third = true →
    before first third = true
  total : ∀ {left right}, left ≠ right → before left right = true ∨ before right left = true

namespace KeyOrder

variable {κ α : Type} (order : KeyOrder κ)

theorem asymm {left right : κ} (isBefore : order.before left right = true) :
    order.before right left = false := by
  by_contra isAfter
  rw [Bool.not_eq_false] at isAfter
  exact Bool.noConfusion ((order.irrefl left).symm.trans (order.trans isBefore isAfter))

def after (start : Option κ) (key : κ) : Bool := start.all fun start => order.before start key

theorem after_trans {start : Option κ} {first second : κ} (isAfter : order.after start first = true)
    (isBefore : order.before first second = true) : order.after start second = true := by
  cases start with
  | none => rfl
  | some start =>
      change order.before start first = true at isAfter
      exact order.trans isAfter isBefore

def Ordered (key : α → κ) (rows : List α) : Prop :=
  rows.Pairwise fun left right => order.before (key left) (key right) = true

variable {order} {key : α → κ}

theorem Ordered.nodup {rows : List α} (ordered : order.Ordered key rows) : rows.Nodup := by
  refine ordered.imp ?_
  rintro left _ isBefore rfl
  exact Bool.noConfusion ((order.irrefl (key left)).symm.trans isBefore)

theorem Ordered.eq_of_mem_iff {left right : List α} (leftOrdered : order.Ordered key left)
    (rightOrdered : order.Ordered key right) (same : ∀ row, row ∈ left ↔ row ∈ right) :
    left = right := by
  have perm := (List.perm_ext_iff_of_nodup leftOrdered.nodup rightOrdered.nodup).mpr same
  refine perm.eq_of_pairwise ?_ leftOrdered rightOrdered
  intro first second _ _ forwards backwards
  rw [order.asymm forwards] at backwards
  cases backwards

theorem ordered_insertionSort {rows : List α} {le : α → α → Prop} [DecidableRel le]
    (isLe : ∀ left right, le left right ↔ order.before (key right) (key left) = false)
    (distinct : (rows.map key).Nodup) : order.Ordered key (rows.insertionSort le) := by
  have total : ∀ left right, le left right ∨ le right left := by
    intro left right
    rw [isLe, isLe, or_iff_not_imp_left, Bool.not_eq_false]
    exact order.asymm
  have trans : ∀ first second third, le first second → le second third → le first third := by
    intro first second third
    rw [isLe, isLe, isLe]
    intro notAfter nextNotAfter
    by_contra isAfter
    rw [Bool.not_eq_false] at isAfter
    by_cases same : key first = key second
    · rw [same] at isAfter
      rw [nextNotAfter] at isAfter
      cases isAfter
    · rcases order.total same with isBefore | reversed
      · rw [order.trans isAfter isBefore] at nextNotAfter
        cases nextNotAfter
      · rw [notAfter] at reversed
        cases reversed
  have sorted := @List.pairwise_insertionSort _ le _ ⟨total⟩ ⟨trans⟩ rows
  have nodup : ((rows.insertionSort le).map key).Nodup :=
    ((List.perm_insertionSort le rows).map key).nodup_iff.mpr distinct
  have apart := List.pairwise_map.mp nodup
  refine (sorted.and apart).imp ?_
  rintro left right ⟨isOrdered, different⟩
  rw [isLe] at isOrdered
  rcases order.total different with isBefore | reversed
  · exact isBefore
  · rw [isOrdered] at reversed
    cases reversed

/-! ## Orders -/

/-- `ASC` on a number. -/
def nat : KeyOrder Nat where
  before left right := decide (left < right)
  irrefl _ := decide_eq_false (Nat.lt_irrefl _)
  trans first second := by
    rw [decide_eq_true_iff] at first second ⊢
    exact Nat.lt_trans first second
  total different := by
    rw [decide_eq_true_iff, decide_eq_true_iff]
    exact Nat.lt_or_gt_of_ne different

def ofLe [DecidableEq κ] (le : κ → κ → Bool) (total : ∀ left right, le left right || le right left)
    (trans : ∀ first second third, le first second = true → le second third = true →
      le first third = true)
    (antisymm : ∀ left right, le left right = true → le right left = true → left = right) :
    KeyOrder κ where
  before left right := decide (left ≠ right) && le left right
  irrefl key := by simp
  trans {first second third} forwards onwards := by
    rw [Bool.and_eq_true, decide_eq_true_iff] at forwards onwards ⊢
    refine ⟨?_, trans _ _ _ forwards.2 onwards.2⟩
    rintro rfl
    exact forwards.1 (antisymm _ _ forwards.2 onwards.2)
  total {left right} different := by
    have either := total left right
    rw [Bool.or_eq_true] at either
    simpa [different, Ne.symm different] using either

/-- `DESC` -/
def reverse (order : KeyOrder κ) : KeyOrder κ where
  before left right := order.before right left
  irrefl := order.irrefl
  trans first second := order.trans second first
  total different := order.total (Ne.symm different)

def comap {ι : Type} (order : KeyOrder κ) (view : ι → κ) (injective : Function.Injective view) :
    KeyOrder ι where
  before left right := order.before (view left) (view right)
  irrefl key := order.irrefl (view key)
  trans first second := order.trans first second
  total different := order.total fun same => different (injective same)

def lex {ι : Type} [DecidableEq κ] (order : KeyOrder κ) (tieBreak : KeyOrder ι) :
    KeyOrder (κ × ι) where
  before left right :=
    if left.1 = right.1 then tieBreak.before left.2 right.2 else order.before left.1 right.1
  irrefl key := by rw [if_pos rfl, tieBreak.irrefl]
  trans {first second third} forwards onwards := by
    by_cases firstSame : first.1 = second.1
    · rw [if_pos firstSame] at forwards
      by_cases secondSame : second.1 = third.1
      · rw [if_pos secondSame] at onwards
        rw [if_pos (firstSame.trans secondSame)]
        exact tieBreak.trans forwards onwards
      · rw [if_neg secondSame] at onwards
        rwa [if_neg (firstSame ▸ secondSame), firstSame]
    · rw [if_neg firstSame] at forwards
      by_cases secondSame : second.1 = third.1
      · rwa [if_neg (secondSame ▸ firstSame), ← secondSame]
      · rw [if_neg secondSame] at onwards
        have isBefore := order.trans forwards onwards
        rw [if_neg, isBefore]
        intro same
        rw [same, order.irrefl] at isBefore
        cases isBefore
  total {left right} different := by
    by_cases same : left.1 = right.1
    · rw [if_pos same, if_pos same.symm]
      exact tieBreak.total fun sameRest => different (Prod.ext same sameRest)
    · rw [if_neg same, if_neg (Ne.symm same)]
      exact order.total same

theorem lex_before {ι : Type} [DecidableEq κ] (order : KeyOrder κ) (tieBreak : KeyOrder ι)
    (left right : κ × ι) : (order.lex tieBreak).before left right =
      if left.1 = right.1 then tieBreak.before left.2 right.2 else order.before left.1 right.1 :=
  rfl

def missingLast (order : KeyOrder κ) : KeyOrder (Option κ) where
  before
    | some left, some right => order.before left right
    | some _, none => true
    | none, _ => false
  irrefl
    | some key => order.irrefl key
    | none => rfl
  trans {first second third} forwards onwards := by
    cases first with
    | none => cases forwards
    | some first =>
        cases second with
        | none => cases onwards
        | some second =>
            cases third with
            | none => rfl
            | some third => exact order.trans forwards onwards
  total {left right} different := by
    cases left with
    | none =>
        cases right with
        | none => exact absurd rfl different
        | some right => exact .inr rfl
    | some left =>
        cases right with
        | none => exact .inl rfl
        | some right => exact order.total fun same => different (congrArg some same)

end KeyOrder

/-! ## Pages -/

section Pages

variable {κ α : Type} (order : KeyOrder κ) (key : α → κ)

/-- The first rows after a key. The page ends at `next`; without one nothing is left. -/
structure IsPage (rows : List α) (start : Option κ) (items : List α) (next : Option κ) : Prop where
  ordered : order.Ordered key items
  sound : ∀ row ∈ items, row ∈ rows ∧ order.after start (key row) = true
  complete : ∀ row ∈ rows, order.after start (key row) = true →
    (∀ stop, next = some stop → order.before stop (key row) = false) → row ∈ items
  stops : ∀ stop, next = some stop → (∃ last ∈ items, key last = stop) ∧
    ∀ row ∈ items, order.before stop (key row) = false

variable {order key}

/-- Pages that are read one after the other, each with the table it was read from. -/
inductive Scan (order : KeyOrder κ) (key : α → κ) :
    Option κ → List (List α × List α) → Option κ → Prop
  | page {rows items : List α} {start next : Option κ}
      (isPage : IsPage order key rows start items next) : Scan order key start [(rows, items)] next
  | next {rows items : List α} {start stop : Option κ} {middle : κ}
      {pages : List (List α × List α)} (isPage : IsPage order key rows start items (some middle))
      (rest : Scan order key (some middle) pages stop) :
      Scan order key start ((rows, items) :: pages) stop

def scanned (pages : List (List α × List α)) : List α := (pages.map Prod.snd).flatten

variable {start stop : Option κ} {pages : List (List α × List α)}

theorem Scan.after (scan : Scan order key start pages stop) {row : α}
    (member : row ∈ scanned pages) :
    order.after start (key row) = true := by
  induction scan with
  | page isPage => exact (isPage.sound row (by simpa [scanned] using member)).2
  | @next rows items start stop middle pages isPage _ induction =>
      rw [scanned, List.map_cons, List.flatten_cons, List.mem_append] at member
      rcases member with here | later
      · exact (isPage.sound row here).2
      · have afterMiddle : order.before middle (key row) = true := induction later
        rcases (isPage.stops middle rfl).1 with ⟨last, isLast, rfl⟩
        exact order.after_trans (isPage.sound last isLast).2 afterMiddle

/-- The pages together are in order, so no row is on two of them. -/
theorem Scan.ordered (scan : Scan order key start pages stop) :
    order.Ordered key (scanned pages) := by
  induction scan with
  | page isPage => simpa [scanned] using isPage.ordered
  | @next rows items start stop middle pages isPage rest induction =>
      rw [scanned, List.map_cons, List.flatten_cons]
      refine List.pairwise_append.mpr
        ⟨isPage.ordered, induction, fun here isHere later isLater => ?_⟩
      have afterMiddle : order.before middle (key later) = true := rest.after isLater
      by_cases same : key here = middle
      · rw [same]
        exact afterMiddle
      · rcases order.total same with isBefore | reversed
        · exact order.trans isBefore afterMiddle
        · rw [(isPage.stops middle rfl).2 here isHere] at reversed
          cases reversed

theorem Scan.visits (scan : Scan order key start pages stop) {row : α}
    (present : ∀ page ∈ pages, row ∈ page.1) (isAfter : order.after start (key row) = true)
    (within : ∀ last, stop = some last → order.before last (key row) = false) :
    row ∈ scanned pages := by
  induction scan with
  | page isPage =>
      have here := isPage.complete row (present _ (List.mem_singleton_self _)) isAfter within
      simpa [scanned] using here
  | @next rows items start stop middle pages isPage _ induction =>
      rw [scanned, List.map_cons, List.flatten_cons, List.mem_append]
      by_cases later : order.before middle (key row) = true
      · exact .inr (induction (fun page isPage => present page (List.mem_cons_of_mem _ isPage))
          later within)
      · refine .inl (isPage.complete row (present _ (List.mem_cons_self ..)) isAfter ?_)
        intro last isLast
        cases isLast
        rwa [Bool.not_eq_true] at later

theorem Scan.mem (scan : Scan order key start pages stop) {row : α} (member : row ∈ scanned pages) :
    ∃ page ∈ pages, row ∈ page.1 := by
  induction scan with
  | @page rows items _ _ isPage =>
      exact ⟨(rows, items), List.mem_singleton_self _,
        (isPage.sound row (by simpa [scanned] using member)).1⟩
  | @next rows items _ _ _ pages isPage _ induction =>
      rw [scanned, List.map_cons, List.flatten_cons, List.mem_append] at member
      rcases member with here | later
      · exact ⟨(rows, items), List.mem_cons_self .., (isPage.sound row here).1⟩
      · rcases induction later with ⟨page, isMember, isRow⟩
        exact ⟨page, List.mem_cons_of_mem _ isMember, isRow⟩

/-! ## Queries -/

section Found

variable {rows found : List α} (ordered : order.Ordered key found)
  (selects : ∀ row, row ∈ found ↔ row ∈ rows ∧ order.after start (key row) = true)
include ordered selects

theorem isPage_all : IsPage order key rows start found none :=
  ⟨ordered, fun row => (selects row).mp, fun row member isAfter _ =>
    (selects row).mpr ⟨member, isAfter⟩,
    nofun⟩

/-- The first of the rows after the start are a page that ends at the last one shown. -/
theorem isPage_front {limit : Nat} (nonempty : found.take limit ≠ []) :
    IsPage order key rows start (found.take limit) (((found.take limit).getLast?).map key) := by
  have parts := ordered
  have split := List.take_append_drop limit found
  rw [← split] at parts
  rcases List.pairwise_append.mp parts with ⟨front, _, across⟩
  have isLast := List.getLast?_eq_getLast_of_ne_nil nonempty
  refine ⟨front, fun row member => (selects row).mp (List.mem_of_mem_take member), ?_, ?_⟩
  · intro row member isAfter within
    have inFound := (selects row).mpr ⟨member, isAfter⟩
    rw [← split, List.mem_append] at inFound
    rcases inFound with here | later
    · exact here
    · have notAfter := within (key ((found.take limit).getLast nonempty)) (by rw [isLast]; rfl)
      rw [across _ (List.getLast_mem nonempty) row later] at notAfter
      cases notAfter
  · intro stop isStop
    rcases Option.map_eq_some_iff.mp isStop with ⟨last, isLast, rfl⟩
    refine ⟨⟨last, List.mem_of_getLast? isLast, rfl⟩, fun row member => ?_⟩
    rcases List.getLast?_eq_some_iff.mp isLast with ⟨before, whole⟩
    rw [whole] at member front
    rcases List.mem_append.mp member with earlier | same
    · have isBefore := (List.pairwise_append.mp front).2.2 row earlier last
        (List.mem_singleton_self _)
      exact order.asymm isBefore
    · rw [List.mem_singleton.mp same]
      exact order.irrefl _

/-- The first `limit` of the rows after the start, with one row more read to see whether there
is a next page. -/
theorem isPage_take {limit : Nat} (positive : 0 < limit) :
    IsPage order key rows start (found.take limit)
      (if limit < found.length then ((found.take limit).getLast?).map key else none) := by
  split
  · rename_i more
    refine isPage_front ordered selects ?_
    rw [Ne, List.take_eq_nil_iff, not_or]
    exact ⟨by omega, List.ne_nil_of_length_pos (by omega)⟩
  · rename_i few
    rw [List.take_of_length_le (by omega)]
    exact isPage_all ordered selects

end Found

/-- A query: the rows after the start, sorted, one more than the page shows. -/
theorem isPage_query {rows : List α} {le : α → α → Prop} [DecidableRel le]
    (isLe : ∀ left right, le left right ↔ order.before (key right) (key left) = false)
    (distinct : (rows.map key).Nodup) {select : α → Bool}
    (selects : ∀ row ∈ rows, select row = order.after start (key row)) {limit : Nat}
    (positive : 0 < limit) {found : List α}
    (isFound : found = ((rows.filter select).insertionSort le).take (limit + 1)) :
    IsPage order key (rows.insertionSort le) start (found.take limit)
      (if limit < found.length then ((found.take limit).getLast?).map key else none) := by
  have ordered : order.Ordered key ((rows.filter select).insertionSort le) :=
    order.ordered_insertionSort isLe (distinct.sublist (List.filter_sublist.map key))
  have member : ∀ row, row ∈ (rows.filter select).insertionSort le ↔
      row ∈ rows.insertionSort le ∧ order.after start (key row) = true := by
    intro row
    rw [List.mem_insertionSort, List.mem_insertionSort, List.mem_filter]
    exact and_congr_right fun isRow => by rw [selects row isRow]
  have page := isPage_take ordered member positive
  have more : limit < found.length ↔ limit < ((rows.filter select).insertionSort le).length := by
    rw [isFound, List.length_take]
    omega
  have front : found.take limit = ((rows.filter select).insertionSort le).take limit := by
    rw [isFound, List.take_take, Nat.min_eq_left (Nat.le_succ _)]
  simp only [more, front]
  exact page

/-- A page of rows is a page of what the rows are turned into, if that keeps the key. -/
theorem IsPage.map {β : Type} (turn : α → β) {turnedKey : β → κ} {rows items : List α}
    {next : Option κ}
    (page : IsPage order (fun row => turnedKey (turn row)) rows start items next) :
    IsPage order turnedKey (rows.map turn) start (items.map turn) next where
  ordered := List.pairwise_map.mpr page.ordered
  sound turned member := by
    rcases List.mem_map.mp member with ⟨row, isRow, rfl⟩
    rcases page.sound row isRow with ⟨inRows, isAfter⟩
    exact ⟨List.mem_map_of_mem inRows, isAfter⟩
  complete turned member isAfter within := by
    rcases List.mem_map.mp member with ⟨row, isRow, rfl⟩
    exact List.mem_map_of_mem (page.complete row isRow isAfter within)
  stops stop isStop := by
    rcases page.stops stop isStop with ⟨⟨last, isLast, isKey⟩, most⟩
    refine ⟨⟨turn last, List.mem_map_of_mem isLast, isKey⟩, fun turned member => ?_⟩
    rcases List.mem_map.mp member with ⟨row, isRow, rfl⟩
    exact most row isRow

end Pages

/-! ## Cursors as texts -/

section Texts

variable {γ τ α : Type} (read : τ → Option γ) (write : γ → Option τ)

/-- Where a page starts: at the first row without a text, or at the cursor that the text is. -/
def startOfText : Option τ → Option (Option γ)
  | none => some none
  | some text => (read text).map some

/-- A page whose cursors are texts: the one that is given is read before the page is asked for,
and the next one is written after it. -/
def pageByText (page : Option γ → Option (List α × Option γ)) (text : Option τ) :
    Option (List α × Option τ) :=
  (startOfText read text).bind fun start =>
    (page start).bind fun (items, next) =>
      match next with
      | none => some (items, none)
      | some next => (write next).map fun text => (items, some text)

end Texts

/-! ## Following the pages -/

section Follow

variable {κ γ α δ : Type}

/-- A client asks for the first page and then for the page after each cursor it is given. Each
read has its data and its limit. -/
inductive Follows (fetch : δ → Option γ → Nat → Option (List α × Option γ)) :
    Option γ → List (δ × Nat) → List (List α) → Prop
  | last {data : δ} {limit : Nat} {start : Option γ} {items : List α}
      (answers : fetch data start limit = some (items, none)) :
      Follows fetch start [(data, limit)] [items]
  | more {data : δ} {limit : Nat} {start : Option γ} {items : List α} {next : γ}
      {reads : List (δ × Nat)} {pages : List (List α)}
      (answers : fetch data start limit = some (items, some next))
      (rest : Follows fetch (some next) reads pages) :
      Follows fetch start ((data, limit) :: reads) (items :: pages)

/-- What a paginated list promises. Over data that stays, the pages end, and they are the whole
list in order. Over data that changes, they have no row twice, and every row that stays. Data
without a list are those for which the request fails. -/
structure Paginates (fetch : δ → Option γ → Nat → Option (List α × Option γ))
    (whole : δ → Option (List α)) (fit : δ → Prop) : Prop where
  complete : ∀ data rows, fit data → whole data = some rows → ∀ limits : Nat → Nat,
    (∀ index, 0 < limits index) → ∃ count pages,
      Follows fetch none ((List.range count).map fun index => (data, limits index)) pages ∧
        pages.flatten = rows
  steady : ∀ reads pages, Follows fetch none reads pages →
    (∀ read ∈ reads, fit read.1 ∧ 0 < read.2) →
    pages.flatten.Nodup ∧
      ∀ row, (∀ read ∈ reads, ∃ rows, whole read.1 = some rows ∧ row ∈ rows) → row ∈ pages.flatten

def followPages (fetch : δ → Option γ → Nat → Option (List α × Option γ)) (data : δ) (limit : Nat) :
    Nat → Option γ → Option (List (List α))
  | 0, _ => none
  | turns + 1, start =>
      match fetch data start limit with
      | none => none
      | some (items, none) => some [items]
      | some (items, some next) =>
          (followPages fetch data limit turns (some next)).map (items :: ·)

theorem follows_followPages {fetch : δ → Option γ → Nat → Option (List α × Option γ)} {data : δ}
    {limit turns : Nat} {start : Option γ} {pages : List (List α)}
    (isPages : followPages fetch data limit turns start = some pages) :
    Follows fetch start (List.replicate pages.length (data, limit)) pages := by
  induction turns generalizing start pages with
  | zero => cases isPages
  | succ turns induction =>
      rw [followPages] at isPages
      cases answers : fetch data start limit with
      | none =>
          rw [answers] at isPages
          cases isPages
      | some answer =>
          rcases answer with ⟨items, next⟩
          rw [answers] at isPages
          cases next with
          | none =>
              cases isPages
              exact .last answers
          | some next =>
              rcases Option.map_eq_some_iff.mp isPages with ⟨rest, isRest, rfl⟩
              exact .more answers (induction isRest)

/-- A client that asks for so many rows each time gets these pages: no row twice, and every row
of the list. -/
def Shows {ι : Type} (fetch : δ → Option γ → Nat → Option (List α × Option γ))
    (whole : δ → Option (List α)) (data : δ) (limit : Nat) (view : α → ι) (views : List (List ι)) :
    Prop :=
  ∃ pages, Follows fetch none (List.replicate pages.length (data, limit)) pages ∧
    pages.map (List.map view) = views ∧ pages.flatten.Nodup ∧
    ∀ rows, whole data = some rows → ∀ row ∈ rows, row ∈ pages.flatten

theorem Paginates.shows {ι : Type} {fetch : δ → Option γ → Nat → Option (List α × Option γ)}
    {whole : δ → Option (List α)} {fit : δ → Prop} (paginates : Paginates fetch whole fit)
    {data : δ}
    (isFit : fit data) {limit turns : Nat} (positive : 0 < limit) {view : α → ι}
    {views : List (List ι)}
    (isViews : (followPages fetch data limit turns none).map (List.map (List.map view)) =
      some views) : Shows fetch whole data limit view views := by
  rcases Option.map_eq_some_iff.mp isViews with ⟨pages, isPages, isView⟩
  have follows := follows_followPages isPages
  have same : ∀ read ∈ List.replicate pages.length (data, limit), read = (data, limit) :=
    fun read member => List.eq_of_mem_replicate member
  rcases paginates.steady _ _ follows (fun read member => same read member ▸ ⟨isFit, positive⟩) with
    ⟨nodup, every⟩
  refine ⟨pages, follows, isView, nodup, fun rows isWhole row member => ?_⟩
  apply every row
  intro read isRead
  rw [same read isRead]
  exact ⟨rows, isWhole, member⟩

variable {order : KeyOrder κ} {key : α → κ} {cursor : κ → γ}
  {fetch : δ → Option γ → Nat → Option (List α × Option γ)} {whole : δ → Option (List α)}
  {fit : δ → Prop} {reads : List (δ × Nat)} {pages : List (List α)}

def Reads (order : KeyOrder κ) (key : α → κ) (cursor : κ → γ)
    (fetch : δ → Option γ → Nat → Option (List α × Option γ)) (data : δ) (rows : List α)
    (limit : Nat) : Prop :=
  ∀ start : Option κ, ∃ items next, fetch data (start.map cursor) limit =
    some (items, next.map cursor) ∧ IsPage order key rows start items next

theorem reads_query {data : δ} {rows : List α} {le : α → α → Prop} [DecidableRel le]
    (isLe : ∀ left right, le left right ↔ order.before (key right) (key left) = false)
    (distinct : (rows.map key).Nodup) {limit shown : Nat} (positive : 0 < shown)
    (answers : ∀ start : Option κ, ∃ select : α → Bool,
      (∀ row ∈ rows, select row = order.after start (key row)) ∧
      ∀ found, found = ((rows.filter select).insertionSort le).take (shown + 1) →
        fetch data (start.map cursor) limit =
          some (found.take shown,
            if shown < found.length then
              ((found.take shown).getLast?).map fun last => cursor (key last)
            else none)) :
    Reads order key cursor fetch data (rows.insertionSort le) limit := by
  intro start
  rcases answers start with ⟨select, selects, isFetch⟩
  refine ⟨_, _, ?_, isPage_query isLe distinct selects positive rfl⟩
  rw [isFetch _ rfl]
  congr 2
  split
  · rw [Option.map_map]
    rfl
  · rfl

def scannedPages (whole : δ → Option (List α)) (reads : List (δ × Nat)) (pages : List (List α)) :
    List (List α × List α) :=
  (reads.map fun read => (whole read.1).getD []).zip pages

theorem Follows.scan {begins : Option γ} (follows : Follows fetch begins reads pages)
    {start : Option κ} (isStart : start.map cursor = begins)
    (isPage : ∀ read ∈ reads, ∀ start items next,
      fetch read.1 (start.map cursor) read.2 = some (items, next) →
      ∃ stop : Option κ, next = stop.map cursor ∧
        IsPage order key ((whole read.1).getD []) start items stop) :
    Scan order key start (scannedPages whole reads pages) none ∧ reads.length = pages.length := by
  induction follows generalizing start with
  | @last data limit begins items answers =>
      subst isStart
      rcases isPage (data, limit) (List.mem_singleton_self _) start _ _ answers with
        ⟨stop, isStop, page⟩
      cases stop with
      | none => exact ⟨.page page, rfl⟩
      | some stop => cases isStop
  | @more data limit begins items next reads pages answers _ induction =>
      subst isStart
      rcases isPage (data, limit) (List.mem_cons_self ..) start _ _ answers with
        ⟨stop, isStop, page⟩
      cases stop with
      | none => cases isStop
      | some stop =>
          have isStart : Option.map cursor (some stop) = some next := isStop.symm
          rcases induction isStart
            fun read member => isPage read (List.mem_cons_of_mem _ member) with ⟨scan, lengths⟩
          exact ⟨.next page scan, congrArg (· + 1) lengths⟩

theorem flatten_scannedPages (whole : δ → Option (List α)) (lengths : reads.length = pages.length) :
    scanned (scannedPages whole reads pages) = pages.flatten := by
  unfold scanned scannedPages
  rw [List.map_snd_zip (by rw [List.length_map]; omega)]

theorem exists_read_of_mem {page : List α × List α}
    (member : page ∈ scannedPages whole reads pages) :
    ∃ read ∈ reads, page.1 = (whole read.1).getD [] := by
  rcases List.mem_map.mp (List.of_mem_zip member).1 with ⟨read, isRead, same⟩
  exact ⟨read, isRead, same.symm⟩

/-- Every page but the last takes a row out of what is left, so the pages end. -/
theorem exists_follows {data : δ} {rows : List α} {limits : Nat → Nat} (start : Option κ)
    (isPage : ∀ index, Reads order key cursor fetch data rows (limits index)) :
    ∃ count pages, Follows fetch (start.map cursor)
      ((List.range count).map fun index => (data, limits index)) pages := by
  induction size : (rows.filter fun row => order.after start (key row)).length using
    Nat.strong_induction_on generalizing start limits with
  | _ bound induction =>
      rcases isPage 0 start with ⟨items, next, answers, page⟩
      cases next with
      | none => exact ⟨1, [items], .last answers⟩
      | some middle =>
          rcases (page.stops middle rfl).1 with ⟨last, isLast, isMiddle⟩
          rcases page.sound last isLast with ⟨member, isAfter⟩
          have fewer : (rows.filter fun row => order.after (some middle) (key row)).length <
              bound := by
            have nested : rows.filter (fun row => order.after (some middle) (key row)) =
                (rows.filter fun row => order.after start (key row)).filter
                  fun row => order.after (some middle) (key row) := by
              rw [List.filter_filter]
              refine List.filter_congr fun row _ => ?_
              by_cases later : order.after (some middle) (key row) = true
              · rw [isMiddle] at isAfter
                rw [order.after_trans isAfter later, Bool.and_true]
              · rw [Bool.not_eq_true] at later
                rw [later, Bool.false_and]
            rw [← size, nested]
            refine List.length_filter_lt_length_iff_exists.mpr
              ⟨last, List.mem_filter.mpr ⟨member, isAfter⟩, ?_⟩
            change ¬order.before middle (key last) = true
            rw [isMiddle, order.irrefl]
            exact Bool.false_ne_true
          rcases induction _ fewer (some middle) (fun index => isPage (index + 1)) rfl with
            ⟨count, pages, follows⟩
          refine ⟨count + 1, items :: pages, ?_⟩
          rw [List.range_succ_eq_map, List.map_cons, List.map_map]
          exact .more answers follows

theorem paginates_of_isPage (order : KeyOrder κ) (key : α → κ) (cursor : κ → γ)
    (ordered : ∀ data rows, fit data → whole data = some rows → order.Ordered key rows)
    (serves : ∀ data rows limit, fit data → whole data = some rows → 0 < limit →
      Reads order key cursor fetch data rows limit)
    (refuses : ∀ data start limit, whole data = none → fetch data start limit = none) :
    Paginates fetch whole fit := by
  have isPage : ∀ data limit, fit data → 0 < limit → ∀ start items next,
      fetch data (Option.map cursor start) limit = some (items, next) →
      ∃ stop : Option κ, next = stop.map cursor ∧
        IsPage order key ((whole data).getD []) start items stop := by
    intro data limit fits positive start items next answers
    cases isWhole : whole data with
    | none =>
        rw [refuses data _ limit isWhole] at answers
        cases answers
    | some rows =>
        rcases serves data rows limit fits isWhole positive start with
          ⟨found, stop, same, page⟩
        cases answers.symm.trans same
        exact ⟨stop, rfl, page⟩
  refine ⟨fun data rows fits isWhole limits positive => ?_, fun reads pages follows fits => ?_⟩
  · rcases exists_follows none fun index =>
      serves data rows (limits index) fits isWhole (positive index) with ⟨count, pages, follows⟩
    refine ⟨count, pages, follows, ?_⟩
    have isPages : ∀ read ∈ (List.range count).map fun index => (data, limits index),
        ∀ start items next, fetch read.1 (Option.map cursor start) read.2 = some (items, next) →
        ∃ stop : Option κ, next = stop.map cursor ∧
          IsPage order key ((whole read.1).getD []) start items stop := by
      intro read member
      rcases List.mem_map.mp member with ⟨index, _, rfl⟩
      exact isPage data (limits index) fits (positive index)
    have begins : Option.map cursor none = none := rfl
    rcases follows.scan begins isPages with ⟨scan, lengths⟩
    have isRows : ∀ page ∈ scannedPages whole ((List.range count).map fun index =>
        (data, limits index)) pages, page.1 = rows := by
      intro page isMember
      rcases exists_read_of_mem isMember with ⟨read, isRead, same⟩
      rcases List.mem_map.mp isRead with ⟨_, _, rfl⟩
      rw [same, isWhole, Option.getD_some]
    rw [← flatten_scannedPages whole lengths]
    refine scan.ordered.eq_of_mem_iff (ordered data rows fits isWhole)
      fun row => ⟨fun member => ?_, fun member => ?_⟩
    · rcases scan.mem member with ⟨page, isMember, isRow⟩
      rwa [isRows page isMember] at isRow
    · refine scan.visits (fun page isMember => ?_) rfl nofun
      rwa [isRows page isMember]
  · have begins : Option.map cursor none = none := rfl
    rcases follows.scan begins fun read member =>
      isPage read.1 read.2 (fits read member).1 (fits read member).2 with ⟨scan, lengths⟩
    rw [← flatten_scannedPages whole lengths]
    refine ⟨scan.ordered.nodup, fun row present => scan.visits (fun page isMember => ?_) rfl nofun⟩
    rcases exists_read_of_mem isMember with ⟨read, isRead, same⟩
    rcases present read isRead with ⟨rows, isWhole, isRow⟩
    rwa [same, isWhole, Option.getD_some]

/-- A list that is sorted by a query over the rows of what the request is about. -/
theorem paginates_of_query {τ : Type} {subject : δ → Option τ} {rows : δ → τ → List α}
    {le : α → α → Prop} [DecidableRel le] (shown : Nat → Nat) (cursor : κ → γ)
    (isLe : ∀ left right, le left right ↔ order.before (key right) (key left) = false)
    (distinct : ∀ data about, fit data → subject data = some about →
      ((rows data about).map key).Nodup)
    (positive : ∀ limit, 0 < limit → 0 < shown limit)
    (refuses : ∀ data start limit, subject data = none → fetch data start limit = none)
    (answers : ∀ data about limit, subject data = some about → 0 < limit → ∀ start : Option κ,
      ∃ select : α → Bool, (∀ row ∈ rows data about, select row = order.after start (key row)) ∧
      ∀ found, found = (((rows data about).filter select).insertionSort le).take
          (shown limit + 1) →
        fetch data (start.map cursor) limit =
          some (found.take (shown limit),
            if shown limit < found.length then
              ((found.take (shown limit)).getLast?).map fun last => cursor (key last)
            else none)) :
    Paginates fetch (fun data => (subject data).map fun about => (rows data about).insertionSort le)
      fit := by
  refine paginates_of_isPage order key cursor ?_ ?_ ?_
  · intro data whole fits isWhole
    rcases Option.map_eq_some_iff.mp isWhole with ⟨about, isAbout, rfl⟩
    exact order.ordered_insertionSort isLe (distinct data about fits isAbout)
  · intro data whole limit fits isWhole isPositive
    rcases Option.map_eq_some_iff.mp isWhole with ⟨about, isAbout, rfl⟩
    exact reads_query isLe (distinct data about fits isAbout) (positive limit isPositive)
      (answers data about limit isAbout isPositive)
  · intro data start limit isWhole
    exact refuses data start limit (Option.map_eq_none_iff.mp isWhole)

/-! ## Following texts -/

section ByText

variable {τ : Type} {read : τ → Option γ} {write : γ → Option τ}

def ComesBack (read : τ → Option γ) (write : γ → Option τ)
    (fetch : δ → Option γ → Nat → Option (List α × Option γ)) (data : δ) : Prop :=
  ∀ start limit items next, fetch data start limit = some (items, some next) →
    ∃ text, write next = some text ∧ read text = some next

theorem pageByText_eq {page : Option γ → Option (List α × Option γ)} {text : Option τ}
    {start : Option γ} (isStart : startOfText read text = some start) {items : List α} :
    (page start = some (items, none) → pageByText read write page text = some (items, none)) ∧
      ∀ next nextText, page start = some (items, some next) → write next = some nextText →
        pageByText read write page text = some (items, some nextText) := by
  constructor
  · intro answers
    simp only [pageByText, isStart, answers, Option.bind_some]
  · intro next nextText answers isText
    simp only [pageByText, isStart, answers, Option.bind_some, isText, Option.map_some]

/-- The text of a page's end is read back as the cursor that the page ends with. -/
theorem ComesBack.pageByText {data : δ} (comesBack : ComesBack read write fetch data)
    {text : Option τ} {start next : Option γ} (isStart : startOfText read text = some start)
    {limit : Nat} {items : List α} (answers : fetch data start limit = some (items, next)) :
    ∃ nextText, pageByText read write (fetch data · limit) text = some (items, nextText) ∧
      nextText.map read = next.map some := by
  cases next with
  | none => exact ⟨none, (pageByText_eq isStart).1 answers, rfl⟩
  | some next =>
      rcases comesBack _ _ _ _ answers with ⟨nextText, isText, isRead⟩
      exact ⟨some nextText, (pageByText_eq isStart).2 _ _ answers isText, congrArg some isRead⟩

theorem Follows.byText {start : Option γ} (follows : Follows fetch start reads pages)
    (comesBack : ∀ one ∈ reads, ComesBack read write fetch one.1) {text : Option τ}
    (isStart : startOfText read text = some start) :
    Follows (fun data text limit => pageByText read write (fetch data · limit) text) text reads
      pages := by
  induction follows generalizing text with
  | last answers => exact .last ((pageByText_eq isStart).1 answers)
  | more answers rest induction =>
      rcases comesBack _ List.mem_cons_self _ _ _ _ answers with ⟨nextText, isText, isRead⟩
      apply Follows.more ((pageByText_eq isStart).2 _ _ answers isText)
      apply induction
      · exact fun one member => comesBack one (List.mem_cons_of_mem _ member)
      · rw [startOfText, isRead, Option.map_some]

theorem Follows.ofTexts {text : Option τ}
    (follows : Follows (fun data text limit => pageByText read write (fetch data · limit) text) text
      reads pages) (comesBack : ∀ one ∈ reads, ComesBack read write fetch one.1) :
    ∃ start, startOfText read text = some start ∧ Follows fetch start reads pages := by
  have parts : ∀ {data : δ} {limit : Nat} {text next : Option τ} {items : List α},
      pageByText read write (fetch data · limit) text = some (items, next) →
      ∃ start, startOfText read text = some start ∧
        (next = none ∧ fetch data start limit = some (items, none) ∨
          ∃ cursor nextText, next = some nextText ∧ write cursor = some nextText ∧
            fetch data start limit = some (items, some cursor)) := by
    intro data limit text next items answers
    rcases Option.bind_eq_some_iff.mp answers with ⟨start, isStart, answers⟩
    rcases Option.bind_eq_some_iff.mp answers with ⟨page, isPage, answers⟩
    rcases page with ⟨found, cursor⟩
    refine ⟨start, isStart, ?_⟩
    cases cursor with
    | none =>
        cases answers
        exact .inl ⟨rfl, isPage⟩
    | some cursor =>
        rcases Option.map_eq_some_iff.mp answers with ⟨nextText, isText, same⟩
        cases same
        exact .inr ⟨cursor, nextText, rfl, isText, isPage⟩
  induction follows with
  | last answers =>
      rcases parts answers with ⟨start, isStart, ⟨-, isPage⟩ | ⟨_, _, isNext, -⟩⟩
      · exact ⟨start, isStart, .last isPage⟩
      · cases isNext
  | more answers rest induction =>
      rcases parts answers with
        ⟨start, isStart, ⟨isNext, -⟩ | ⟨cursor, text, isNext, isText, isPage⟩⟩
      · cases isNext
      · cases isNext
        rcases comesBack _ List.mem_cons_self _ _ _ _ isPage with ⟨other, isOther, isRead⟩
        rw [isText] at isOther
        cases isOther
        rcases induction fun one member => comesBack one (List.mem_cons_of_mem _ member) with
          ⟨next, isNext, follows⟩
        rw [startOfText, isRead] at isNext
        cases isNext
        exact ⟨start, isStart, .more isPage follows⟩

theorem Paginates.byText {fits : δ → Prop} (paginates : Paginates fetch whole fit)
    (narrower : ∀ data, fits data → fit data)
    (comesBack : ∀ data, fits data → ComesBack read write fetch data) :
    Paginates (fun data text limit => pageByText read write (fetch data · limit) text) whole
      fits where
  complete data rows isFit isWhole limits positive := by
    rcases paginates.complete data rows (narrower data isFit) isWhole limits positive with
      ⟨count, pages, follows, isPages⟩
    refine ⟨count, pages, follows.byText ?_ rfl, isPages⟩
    intro one member
    rcases List.mem_map.mp member with ⟨_, _, rfl⟩
    exact comesBack data isFit
  steady reads pages follows isFit := by
    rcases follows.ofTexts fun one member => comesBack _ (isFit one member).1 with
      ⟨start, isStart, follows⟩
    cases isStart
    exact paginates.steady reads pages follows fun one member =>
      ⟨narrower _ (isFit one member).1, (isFit one member).2⟩

end ByText

end Follow

end Storix.Foundation
