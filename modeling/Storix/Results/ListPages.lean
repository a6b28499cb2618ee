import Storix.Results.ListCursors
import Storix.Results.Pagination
import Storix.Vfs.ListPages

/-! # Lists are paginated by text

The texts that a client is given as cursors are read back as the positions they were written
for, so that following them ends with the whole list. -/

namespace Storix

open Foundation Foundation.Json Cursors JsString

variable {host : Host} {db : Database}

/-! ## The texts of ids -/

theorem isLowerHex_hexLetter : ∀ digit < 16, isLowerHex (hexLetter digit) = true := by
  decide

theorem hexText_digits (bytes : List UInt8) : ∀ unit ∈ hexText bytes, isLowerHex unit = true := by
  intro unit member
  rcases List.mem_flatMap.mp member with ⟨byte, -, isUnit⟩
  have bound := byte.toNat_lt
  rcases List.mem_pair.mp isUnit with rfl | rfl
  · exact isLowerHex_hexLetter _ (by omega)
  · exact isLowerHex_hexLetter _ (by omega)

theorem hexText_length (bytes : List UInt8) : (hexText bytes).length = 2 * bytes.length := by
  induction bytes with
  | nil => rfl
  | cons byte rest induction =>
      rw [hexText, List.flatMap_cons, List.length_append, ← hexText, induction]
      simp only [List.length_cons, List.length_nil]
      omega

theorem filter_hexText (text : JsString) (digits : ∀ unit ∈ text, isLowerHex unit = true) :
    text.filter (· ≠ 0x2d) = text := by
  rw [List.filter_eq_self]
  intro unit member
  rw [decide_eq_true_eq]
  rintro rfl
  exact absurd (digits _ member) (by decide)

theorem hexNumber_append (text : JsString) (byte : UInt8) :
    hexNumber (text ++ [hexLetter (byte.toNat / 16), hexLetter (byte.toNat % 16)]) =
      hexNumber text * 256 + byte.toNat := by
  have bound := byte.toNat_lt
  have high := hexDigit_hexLetter (byte.toNat / 16) (by omega)
  have low := hexDigit_hexLetter (byte.toNat % 16) (by omega)
  rw [hexNumber, List.foldl_append, List.foldl_cons, List.foldl_cons, List.foldl_nil, high, low,
    Option.getD_some, Option.getD_some, ← hexNumber]
  omega

theorem hexNumber_hexText (bytes : List UInt8) : hexNumber (hexText bytes) = ofBigEndian bytes := by
  induction bytes using List.reverseRecOn with
  | nil => rfl
  | append_singleton bytes byte induction =>
      have isText : hexText (bytes ++ [byte]) =
          hexText bytes ++ [hexLetter (byte.toNat / 16), hexLetter (byte.toNat % 16)] := by
        simp [hexText]
      rw [isText, hexNumber_append, induction, ofBigEndian_append_singleton]

theorem filter_hyphenate {hex : JsString} (digits : ∀ unit ∈ hex, isLowerHex unit = true) :
    (hyphenate hex).filter (· ≠ 0x2d) = hex := by
  have plain : ∀ piece : JsString, (∀ unit ∈ piece, unit ∈ hex) →
      piece.filter (· ≠ 0x2d) = piece := fun piece inside =>
    filter_hexText piece fun unit member => digits unit (inside unit member)
  have pieces : hex.take 8 ++ ((hex.drop 8).take 4 ++ ((hex.drop 12).take 4 ++
      ((hex.drop 16).take 4 ++ hex.drop 20))) = hex := by
    rw [show hex.drop 20 = (hex.drop 16).drop 4 by rw [List.drop_drop], List.take_append_drop,
      show hex.drop 16 = (hex.drop 12).drop 4 by rw [List.drop_drop], List.take_append_drop,
      show hex.drop 12 = (hex.drop 8).drop 4 by rw [List.drop_drop], List.take_append_drop,
      List.take_append_drop]
  have hyphen : ∀ rest : JsString, (0x2d :: rest).filter (· ≠ 0x2d) = rest.filter (· ≠ 0x2d) :=
    fun rest => List.filter_cons_of_neg (by decide)
  rw [hyphenate]
  simp only [List.append_assoc, List.cons_append]
  simp only [List.filter_append, hyphen]
  rw [plain _ fun _ member => List.mem_of_mem_take member,
    plain _ fun _ member => List.mem_of_mem_drop (List.mem_of_mem_take member),
    plain _ fun _ member => List.mem_of_mem_drop (List.mem_of_mem_take member),
    plain _ fun _ member => List.mem_of_mem_drop (List.mem_of_mem_take member),
    plain _ fun _ member => List.mem_of_mem_drop member, pieces]

theorem uuidOfText_uuidText {id : Uuid} (bound : id < 2 ^ 128) : uuidOfText (uuidText id) = id := by
  rw [uuidOfText, uuidText, filter_hyphenate (hexText_digits _), hexNumber_hexText,
    ofBigEndian_bigEndian (by omega)]

theorem piece_hyphenated {piece : JsString} (digits : ∀ unit ∈ piece, isLowerHex unit = true)
    (start : Nat) (apart : ∀ index, start ≤ index → index < start + piece.length →
      ¬(index = 8 ∨ index = 13 ∨ index = 18 ∨ index = 23)) (isDigit : UInt16 → Bool)
    (accepts : ∀ unit, isLowerHex unit = true → isDigit unit = true) :
    ((piece.zipIdx start).all fun (unit, index) =>
      if index = 8 ∨ index = 13 ∨ index = 18 ∨ index = 23 then unit == 0x2d else isDigit unit) =
      true := by
  rw [List.all_eq_true]
  intro entry member
  have least := List.le_snd_of_mem_zipIdx member
  have most := List.snd_lt_add_of_mem_zipIdx member
  dsimp only
  rw [if_neg (apart entry.2 least most)]
  exact accepts _ (digits _ (List.fst_mem_of_mem_zipIdx member))

theorem isHyphenated_hyphenate {hex : JsString} (length : hex.length = 32)
    (digits : ∀ unit ∈ hex, isLowerHex unit = true) (isDigit : UInt16 → Bool)
    (accepts : ∀ unit, isLowerHex unit = true → isDigit unit = true) :
    isHyphenated isDigit (hyphenate hex) = true := by
  have taken : ∀ start count : Nat, ∀ unit ∈ (hex.drop start).take count,
      isLowerHex unit = true := fun start count unit member =>
    digits unit (List.mem_of_mem_drop (List.mem_of_mem_take member))
  have digits1 := taken 0 8
  have digits2 := taken 8 4
  have digits3 := taken 12 4
  have digits4 := taken 16 4
  have digits5 : ∀ unit ∈ hex.drop 20, isLowerHex unit = true := fun unit member =>
    digits unit (List.mem_of_mem_drop member)
  have lengths : (hex.take 8).length = 8 ∧ ((hex.drop 8).take 4).length = 4 ∧
      ((hex.drop 12).take 4).length = 4 ∧ ((hex.drop 16).take 4).length = 4 ∧
      (hex.drop 20).length = 12 := by
    simp only [List.length_take, List.length_drop, length]
    decide
  rw [List.drop_zero] at digits1
  rw [isHyphenated, hyphenate]
  clear taken digits length
  generalize hex.take 8 = first at *
  generalize (hex.drop 8).take 4 = second at *
  generalize (hex.drop 12).take 4 = third at *
  generalize (hex.drop 16).take 4 = fourth at *
  generalize hex.drop 20 = fifth at *
  rcases lengths with ⟨length1, length2, length3, length4, length5⟩
  have piece1 := piece_hyphenated digits1 0 (by omega) isDigit accepts
  have piece2 := piece_hyphenated digits2 9 (by omega) isDigit accepts
  have piece3 := piece_hyphenated digits3 14 (by omega) isDigit accepts
  have piece4 := piece_hyphenated digits4 19 (by omega) isDigit accepts
  have piece5 := piece_hyphenated digits5 24 (by omega) isDigit accepts
  rw [Bool.and_eq_true]
  constructor
  · simp [length1, length2, length3, length4, length5]
  · simp only [List.append_assoc, List.cons_append, List.zipIdx_append, List.zipIdx_cons,
      List.all_append, List.all_cons, length1, length2, length3, length4, piece1, Bool.true_and,
      Bool.and_eq_true]
    exact ⟨rfl, piece2, rfl, piece3, rfl, piece4, rfl, piece5⟩

theorem hexText_bigEndian_length (id : Uuid) : (hexText (bigEndian 16 id)).length = 32 := by
  rw [hexText_length, bigEndian_length]

theorem isUuid_uuidText (id : Uuid) : Cursors.isUuid (uuidText id) = true := by
  apply isHyphenated_hyphenate (hexText_bigEndian_length id) (hexText_digits _)
  intro unit digit
  simp only [isLowerHex, isDigit, Bool.or_eq_true, Bool.and_eq_true, decide_eq_true_eq] at digit
  rw [isHex, hexDigit]
  rcases digit with digit | letter
  · rw [if_pos digit]
    rfl
  · rw [if_pos letter]
    split
    · rfl
    · split
      · rfl
      · rfl

/-! ## The ids of namespaces -/

structure NamespaceId.Made (id : NamespaceId) : Prop where
  idPrefix : ∀ text, id.idPrefix = some text → isIdPrefix text = true
  uuid : id.uuid < 2 ^ 128

theorem NamespaceId.text_parts (id : NamespaceId) :
    id.text.take (id.text.length - 32) = id.start ∧
      id.text.drop (id.text.length - 32) = hexText (bigEndian 16 id.uuid) := by
  have length := hexText_bigEndian_length id.uuid
  have isText : id.text = id.start ++ hexText (bigEndian 16 id.uuid) := rfl
  have position : id.text.length - 32 = id.start.length := by
    rw [isText, List.length_append, length]
    omega
  rw [position, isText, List.take_left, List.drop_left]
  exact ⟨rfl, rfl⟩

theorem NamespaceId.Made.isPrefixedId {id : NamespaceId} (made : id.Made) :
    isPrefixedId id.text = true := by
  have digits : (hexText (bigEndian 16 id.uuid)).all isLowerHex = true :=
    List.all_eq_true.mpr (hexText_digits _)
  rw [Cursors.isPrefixedId]
  simp only [id.text_parts.1, id.text_parts.2, hexText_bigEndian_length, digits, beq_self_eq_true,
    Bool.and_self, Bool.true_and]
  rw [NamespaceId.start]
  cases isPrefix : id.idPrefix with
  | none => rfl
  | some text =>
      have valid := made.idPrefix text isPrefix
      simp [valid, underscore]

theorem NamespaceId.Made.isNamespaceId {id : NamespaceId} (made : id.Made) :
    isNamespaceId id.text = true := by
  have isText : id.text = id.start ++ hexText (bigEndian 16 id.uuid) := rfl
  have length : id.start.length ≤ 13 := by
    rw [NamespaceId.start]
    cases isPrefix : id.idPrefix with
    | none => simp
    | some text =>
        have valid := made.idPrefix text isPrefix
        rw [isIdPrefix, Bool.and_eq_true, decide_eq_true_eq] at valid
        rw [List.length_append, List.length_singleton]
        omega
  rw [Cursors.isNamespaceId, made.isPrefixedId, Bool.or_true, Bool.and_true, decide_eq_true_eq,
    isText, List.length_append, hexText_bigEndian_length, NAMESPACE_ID_MAX_LENGTH]
  omega

theorem NamespaceId.Made.ofText {id : NamespaceId} (made : id.Made) :
    namespaceIdOfText id.text = some id := by
  rw [namespaceIdOfText]
  simp only [made.isPrefixedId, id.text_parts.1, id.text_parts.2]
  rw [if_neg (by simp), hexNumber_hexText, ofBigEndian_bigEndian made.uuid, NamespaceId.start]
  rcases id with ⟨idPrefix, uuid⟩
  cases idPrefix with
  | none => rfl
  | some text => simp

/-! ## The cursors of the lists -/

structure ListedNamespaces (rows : List NamespaceEntity) : Prop where
  distinct : (rows.map NamespaceEntity.id).Nodup
  made : ∀ row ∈ rows, row.id.Made
  named : ∀ row ∈ rows, ∀ name, row.name = some name → isNamespaceName name = true

theorem last_of_page {α γ : Type} {rows page : List α} {more : Prop} [Decidable more]
    {cursorOf : α → γ} {next : γ} (inside : ∀ row ∈ page, row ∈ rows)
    (isNext : (if more then page.getLast?.map cursorOf else none) = some next) :
    ∃ last ∈ rows, next = cursorOf last := by
  split at isNext
  · rcases Option.map_eq_some_iff.mp isNext with ⟨last, isLast, same⟩
    exact ⟨last, inside last (List.mem_of_getLast? isLast), same.symm⟩
  · cases isNext

theorem mem_of_taken {α : Type} {le : α → α → Bool} {rows : List α} {select : α → Bool}
    {limit count : Nat} {row : α}
    (member : row ∈ ((sortBy le (rows.filter select)).take count).take limit) : row ∈ rows := by
  have sorted := List.mem_of_mem_take (List.mem_of_mem_take member)
  rw [sortBy, List.mem_insertionSort] at sorted
  exact List.mem_of_mem_filter sorted

theorem NamespaceColumns.mem_findAll {columns : NamespaceColumns} {rows : List NamespaceEntity}
    {row : NamespaceEntity} (member : row ∈ columns.findAll rows) : row ∈ rows := by
  rw [findAll, sortBy, sortBy, List.mem_append, List.mem_insertionSort,
    List.mem_insertionSort] at member
  rcases member with isNamed | isUnnamed
  · exact List.mem_of_mem_filter isNamed
  · exact List.mem_of_mem_filter isUnnamed

theorem NamespaceColumns.findPage_last (columns : NamespaceColumns) {rows : List NamespaceEntity}
    {after : Option NamespaceListCursor} {limit : Nat} {items : List NamespaceEntity}
    {next : NamespaceListCursor}
    (page : columns.findPage rows after (some limit) = (items, some next)) :
    ∃ last ∈ rows, next = ⟨last.name, last.id⟩ := by
  have isStart : (after.map fun cursor => (cursor.name, cursor.id)).map listCursor = after := by
    cases after with
    | none => rfl
    | some cursor => rfl
  rw [← isStart, findPage_eq, paginate_eq] at page
  refine last_of_page (fun row member => ?_) (Prod.mk.inj page).2
  have following := List.mem_of_mem_take (List.mem_of_mem_take member)
  exact mem_findAll (columns.mem_following.mp following).1

theorem ListedNamespaces.readCursor {rows : List NamespaceEntity} (listed : ListedNamespaces rows)
    {row : NamespaceEntity} (member : row ∈ rows) :
    ∃ text, writeNamespaceListCursor ⟨row.name, row.id⟩ = some text ∧
      readNamespaceListCursor text = some ⟨row.name, row.id⟩ := by
  have made := listed.made row member
  have isValid : Cursors.NamespaceListCursor.valid ⟨row.name, row.id.text⟩ = true := by
    rw [Cursors.NamespaceListCursor.valid, made.isNamespaceId, Bool.and_true]
    cases isName : row.name with
    | none => rfl
    | some name => exact listed.named row member name isName
  have encoded := encodeNamespaceListCursor_eq_ok.mpr ⟨isValid, rfl⟩
  have decoded := decodeNamespaceListCursor_eq_ok.mpr encoded
  refine ⟨_, by rw [writeNamespaceListCursor, encoded]; rfl, ?_⟩
  rw [readNamespaceListCursor, decoded]
  simp [Except.toOption, made.ofText]

theorem comesBack_namespaces (columns : NamespaceColumns) {rows : List NamespaceEntity}
    (listed : ListedNamespaces rows) :
    ComesBack readNamespaceListCursor writeNamespaceListCursor
      (fun rows after limit => some (columns.findPage rows after (some limit))) rows := by
  intro start limit items next page
  rcases columns.findPage_last (Option.some.inj page) with ⟨last, member, rfl⟩
  exact listed.readCursor member

/-- A reachable database with no other ids than UUIDs. -/
structure Dealt (host : Host) (db : Database) : Prop where
  reached : Reachable host db
  uuids : ∀ draw < db.issued, Storix.isUuid (host.randomUUID draw) = true

theorem Dealt.isUuid {id : Uuid} (dealt : Dealt host db) (drawn : Drawn host db.issued id) :
    Storix.isUuid id = true := by
  rcases drawn with ⟨draw, isDrawn, rfl⟩
  exact dealt.uuids draw isDrawn

/-- The times have four digits for their years. -/
structure TimesFit (host : Host) (keys : TimestampKeys) (db : Database) : Prop
    extends Dealt host db where
  trash : ∀ item ∈ db.trash, isValidTimestampKey (keys.key item.deletedAt) = true
  snapshots : ∀ snapshot ∈ db.snapshots, isValidTimestampKey (keys.key snapshot.createdAt) = true

theorem trashPage_last {keys : TimestampKeys} {now : Nat} {rawLimit : Option Nat}
    {after : Option TrashListBoundary} {items : List TrashItem} {next : TrashListBoundary}
    (page : trashPage keys db now after rawLimit = some (items, some next)) :
    ∃ last ∈ db.trash, next = ⟨keys.key last.deletedAt, last.id⟩ := by
  rw [trashPage] at page
  split at page
  · cases page
  · rw [listTrash] at page
    split at page
    · cases page
    · exact last_of_page (fun row member => mem_of_taken member)
        (Prod.mk.inj (Option.some.inj page)).2

theorem TimesFit.readTrashCursor {keys : TimestampKeys} (fits : TimesFit host keys db)
    {namespaceId : JsString} (isNamespace : isNamespaceId namespaceId = true) {item : TrashItem}
    (member : item ∈ db.trash) :
    ∃ text, writeTrashCursor namespaceId ⟨keys.key item.deletedAt, item.id⟩ = some text ∧
      readTrashCursor namespaceId text = some ⟨keys.key item.deletedAt, item.id⟩ := by
  have small := lt_of_isUuid
    (fits.isUuid (fits.reached.consistent.issued.trash _ (List.mem_map_of_mem member)))
  have isValid : TrashCursor.valid
      ⟨namespaceId, trashOrder, keys.key item.deletedAt, uuidText item.id⟩ = true := by
    simp [TrashCursor.valid, isNamespace, isUuid_uuidText, fits.trash item member]
  have encoded : encodeTrashCursor
      ⟨namespaceId, trashOrder, keys.key item.deletedAt, uuidText item.id⟩ = .ok _ :=
    encodeTrashRecord_eq_ok.mpr ⟨isValid, rfl⟩
  have decoded := decodeTrashCursor_eq_ok.mpr ⟨isValid, rfl, _, .refl _, rfl⟩
  refine ⟨_, by rw [writeTrashCursor, encoded]; rfl, ?_⟩
  rw [Storix.readTrashCursor, decoded]
  simp [Except.toOption, uuidOfText_uuidText small]

theorem comesBack_trash {keys : TimestampKeys} {namespaceId : JsString} {read : Database × Nat}
    (fits : TimesFit host keys read.1) (isNamespace : isNamespaceId namespaceId = true) :
    ComesBack (readTrashCursor namespaceId) (writeTrashCursor namespaceId) (trashFetch keys)
      read := by
  intro start limit items next page
  rcases trashPage_last page with ⟨last, member, rfl⟩
  exact fits.readTrashCursor isNamespace member

theorem listFileSnapshots_last {keys : TimestampKeys} {rootNodeId : Uuid} {limit : Nat}
    {after : Option FileSnapshotListBoundary} {items : List FileSnapshotRow}
    {next : FileSnapshotListBoundary}
    (page : listFileSnapshots keys db rootNodeId after limit = some (items, some next)) :
    ∃ last ∈ db.snapshots, next = ⟨keys.key last.createdAt, last.id⟩ := by
  rw [listFileSnapshots] at page
  split at page
  · cases page
  · rcases last_of_page (fun row member => mem_of_taken member)
      (Prod.mk.inj (Option.some.inj page)).2 with ⟨last, member, isNext⟩
    rcases List.mem_flatMap.mp (List.mem_of_mem_filter member) with ⟨snapshot, isSnapshot, isRow⟩
    rcases List.mem_flatMap.mp isRow with ⟨entry, _, isBlob⟩
    rcases List.mem_map.mp isBlob with ⟨blob, _, rfl⟩
    exact ⟨snapshot, isSnapshot, isNext⟩

theorem TimesFit.readSnapshotListCursor {keys : TimestampKeys} (fits : TimesFit host keys db)
    {namespaceId : JsString} (isNamespace : isNamespaceId namespaceId = true) (rootNodeId : Uuid)
    {snapshot : Snapshot} (member : snapshot ∈ db.snapshots) :
    ∃ text, writeSnapshotListCursor namespaceId rootNodeId
        ⟨keys.key snapshot.createdAt, snapshot.id⟩ = some text ∧
      readSnapshotListCursor namespaceId rootNodeId text =
        some ⟨keys.key snapshot.createdAt, snapshot.id⟩ := by
  have small := lt_of_isUuid
    (fits.isUuid (fits.reached.consistent.issued.snapshots _ (List.mem_map_of_mem member)))
  have isValid : SnapshotListCursor.valid ⟨namespaceId, uuidText rootNodeId,
      keys.key snapshot.createdAt, uuidText snapshot.id⟩ = true := by
    simp [SnapshotListCursor.valid, isNamespace, isUuid_uuidText, fits.snapshots snapshot member]
  have encoded : encodeSnapshotListCursor ⟨namespaceId, uuidText rootNodeId,
      keys.key snapshot.createdAt, uuidText snapshot.id⟩ = .ok _ :=
    encodeSnapshotListRecord_eq_ok.mpr ⟨isValid, rfl⟩
  have decoded := (@decodeSnapshotListCursor_eq_ok asciiLowerCase _ _ _ _).mpr
    ⟨isValid, rfl, rfl, _, .refl _, rfl⟩
  refine ⟨_, by rw [writeSnapshotListCursor, encoded]; rfl, ?_⟩
  rw [Storix.readSnapshotListCursor, decoded]
  simp [Except.toOption, uuidOfText_uuidText small]

theorem comesBack_fileSnapshots {keys : TimestampKeys} {namespaceId : JsString}
    {rootNodeId : Uuid} (fits : TimesFit host keys db)
    (isNamespace : isNamespaceId namespaceId = true) :
    ComesBack (readSnapshotListCursor namespaceId rootNodeId)
      (writeSnapshotListCursor namespaceId rootNodeId) (fileSnapshotFetch keys rootNodeId) db := by
  intro start limit items next page
  rw [fileSnapshotFetch, fileSnapshotPage] at page
  split at page
  · cases page
  · rcases listFileSnapshots_last page with ⟨last, member, rfl⟩
    exact fits.readSnapshotListCursor isNamespace rootNodeId member

theorem snapshotPathKey_ne_nil {path : JsString} (paired : hasLoneSurrogate path = false)
    (nonempty : path ≠ []) : snapshotPathKey path ≠ [] := by
  intro isEmpty
  have noBytes : utf8 path = utf8 [] := hexText_injective isEmpty
  exact nonempty (utf8_injective paired rfl noBytes)

theorem snapshotEntryPage_last {snapshotId : Uuid} {after : Option JsString}
    {rawLimit : Option Nat} {items : List SnapshotEntry} {next : JsString}
    (page : snapshotEntryPage db snapshotId after rawLimit = some (items, some next)) :
    ∃ last ∈ db.snapshotEntries, next = last.pathKey := by
  rw [snapshotEntryPage] at page
  split at page
  · cases page
  · split at page
    · cases page
    · split at page
      · cases page
      · rw [listSnapshotEntries] at page
        split at page
        · cases page
        · rcases last_of_page (fun row member => mem_of_taken member)
            (Prod.mk.inj (Option.some.inj page)).2 with ⟨last, member, isNext⟩
          exact ⟨last, List.mem_of_mem_filter member, isNext⟩

theorem readSnapshotCursor_write (snapshotId : Uuid) {path : JsString}
    (paired : hasLoneSurrogate path = false) (nonempty : path ≠ []) :
    ∃ text, writeSnapshotCursor snapshotId (snapshotPathKey path) = some text ∧
      readSnapshotCursor snapshotId text = some (snapshotPathKey path) := by
  have notEmpty := snapshotPathKey_ne_nil paired nonempty
  have digits : (snapshotPathKey path).all isLowerHex = true :=
    List.all_eq_true.mpr (hexText_digits _)
  have even : (snapshotPathKey path).length % 2 = 0 := by
    rw [snapshotPathKey, hexText_length, Nat.mul_mod_right]
  have isValid : SnapshotCursor.valid ⟨uuidText snapshotId, snapshotPathKey path⟩ = true := by
    rw [SnapshotCursor.valid, isUuid_uuidText, digits, even]
    simp [notEmpty]
  have encoded := encodeSnapshotCursor_eq_ok.mpr ⟨isValid, rfl⟩
  have decoded := (@decodeSnapshotCursor_eq_ok _ (some (uuidText snapshotId)) _).mpr
    ⟨encoded, fun id same => Option.some.inj same⟩
  refine ⟨_, by rw [writeSnapshotCursor, encoded]; rfl, ?_⟩
  rw [readSnapshotCursor, decoded]
  rfl

theorem comesBack_snapshotEntries {snapshotId : Uuid} (reached : Reachable host db)
    (named : ∀ entry ∈ db.snapshotEntries, entry.relativePath ≠ []) :
    ComesBack (readSnapshotCursor snapshotId) (writeSnapshotCursor snapshotId)
      (snapshotEntryFetch snapshotId) db := by
  intro start limit items next page
  rcases snapshotEntryPage_last page with ⟨last, member, rfl⟩
  exact readSnapshotCursor_write snapshotId (reached.consistent.snapshots.paired last member)
    (named last member)

theorem rejectedSegment_of_child (reached : Reachable host db) {node : VfsNode}
    (member : node ∈ db.nodes) {parentId : Uuid} (below : node.parentId = some parentId) :
    rejectedSegment host node.name = false := by
  rcases reached.consistent.layout with ⟨rootId, layout⟩
  rcases layout.tree.exists_path member with ⟨path, isPath⟩
  rcases isPath.above layout.tree member below with ⟨front, -, rfl⟩
  exact (validPath_iff.mp (layout.valid _ _ isPath)).2 _ (by simp)

theorem noNul_of_not_rejected {name : JsString} (accepted : rejectedSegment host name = false) :
    name.contains 0 = false := by
  simp only [rejectedSegment, invalidSegment, Bool.or_eq_false_iff] at accepted
  rw [Bool.eq_false_iff]
  intro isMember
  have control := List.any_eq_false.mp accepted.2.1.1.1.2 0 (by simpa using isMember)
  exact control (by decide)

theorem ls_last (reached : Reachable host db) {path : ResolvedPath host}
    {start : Option RevisionCursor} {rawLimit : Option Nat} {page : RevisionPageResult}
    (result : ls host db path start rawLimit = .ok page) {next : RevisionCursor}
    (isNext : page.nextCursor = some next) :
    ∃ directory ∈ db.nodes, ∃ node ∈ db.nodes, node.parentId = some directory.id ∧
      next = ⟨directory.id, ⟨directory.id, directory.version⟩, node.name, node.id⟩ := by
  have active : db.namespaceRow.status = .active := by
    by_contra inactive
    rw [ls, requireRoot, if_pos inactive] at result
    cases result
  rcases (ls_spec reached.consistent active path start rawLimit).1 page result with
    ⟨directory, isPage⟩
  have isTaken : ∀ row ∈ page.items, row ∈ childRecords host db.nodes directory.id := by
    intro row member
    rw [isPage.items] at member
    have isChild := List.mem_of_mem_take member
    cases start with
    | none => exact isChild
    | some cursor => exact List.mem_of_mem_filter isChild
  rcases last_of_page isTaken (isPage.next.symm.trans isNext) with ⟨last, isChild, rfl⟩
  rcases mem_childRecords.mp isChild with ⟨node, isNode, below, rfl⟩
  exact ⟨directory, isPage.member, node, isNode, below, rfl⟩

theorem Dealt.readRevisionCursor (dealt : Dealt host db) {directory node : VfsNode}
    (isDirectory : directory ∈ db.nodes) (isNode : node ∈ db.nodes)
    (below : node.parentId = some directory.id) :
    let cursor : RevisionCursor :=
      ⟨directory.id, ⟨directory.id, directory.version⟩, node.name, node.id⟩
    ∃ text, writeRevisionCursor cursor = some text ∧ readRevisionCursor text = some cursor := by
  have reached := dealt.reached
  have accepted := rejectedSegment_of_child reached isNode below
  rcases reached.consistent.layout with ⟨_, layout⟩
  have numbered := layout.versions directory isDirectory
  have isUuids : ∀ other ∈ db.nodes, Storix.isUuid other.id = true := fun other isOther =>
    dealt.isUuid (reached.consistent.issued.nodes _ (mem_nodeIds_of_mem isOther))
  have nonempty : decide (node.name ≠ []) = true :=
    decide_eq_true (plainName_of_not_rejected accepted).nonempty
  have isToken := encodeRevisionToken_eq_ok numbered.1 numbered.2 (isUuids directory isDirectory)
  have isRevision := decode_of_encode isToken
  have isValid : Cursors.RevisionCursor.valid ⟨uuidText directory.id,
      tokenStart ++ base64url (tokenBytes directory.id directory.version), node.name,
      uuidText node.id⟩ = true := by
    rw [Cursors.RevisionCursor.valid, isRevision, isUuid_uuidText, isUuid_uuidText, nonempty,
      noNul_of_not_rejected accepted]
    simp
  have decoded := decodeRevisionCursor_eq_ok.mpr ⟨isValid, rfl⟩
  intro cursor
  refine ⟨encodeRevisionCursor ⟨uuidText directory.id,
    tokenStart ++ base64url (tokenBytes directory.id directory.version), node.name,
    uuidText node.id⟩, by rw [writeRevisionCursor, isToken]; rfl, ?_⟩
  rw [Storix.readRevisionCursor, decoded]
  simp [cursor, Except.toOption, isRevision,
    uuidOfText_uuidText (lt_of_isUuid (isUuids _ isDirectory)),
    uuidOfText_uuidText (lt_of_isUuid (isUuids _ isNode))]

theorem comesBack_ls (dealt : Dealt host db) (path : ResolvedPath host) :
    ComesBack readRevisionCursor writeRevisionCursor
      (fun db cursor limit => (ls host db path cursor (some limit)).toOption.map fun page =>
        (page.items, page.nextCursor)) db := by
  intro start limit items next page
  rcases Option.map_eq_some_iff.mp page with ⟨result, isResult, same⟩
  rcases ls_last dealt.reached (toOption_eq_some isResult) (Prod.mk.inj same).2 with
    ⟨directory, isDirectory, node, isNode, below, rfl⟩
  exact dealt.readRevisionCursor isDirectory isNode below

/-! ## Every list by text -/

/-- The texts of the cursors lead through the lists as the positions do: of the namespaces, the
trash, the snapshots of a file and the entries of a snapshot. The text of a directory's page is
read back as the position after it. -/
theorem lists_are_paginated_by_text (host : Host) (columns : NamespaceColumns)
    (keys : TimestampKeys) (namespaceId : JsString)
    (isNamespace : isNamespaceId namespaceId = true) :
    Paginates (fun rows text limit => columns.findPageByText rows text (some limit))
        (fun rows => some (columns.findAll rows)) ListedNamespaces ∧
      Paginates (fun read text limit =>
          trashPageByText keys read.1 read.2 namespaceId text (some limit))
        trashWhole (fun read => TimesFit host keys read.1) ∧
      (∀ rootNodeId, Paginates (fun db text limit =>
          fileSnapshotPageByText keys db namespaceId rootNodeId text (some limit))
        (fileSnapshotWhole rootNodeId) (TimesFit host keys)) ∧
      (∀ snapshotId, Paginates (fun db text limit =>
          snapshotEntryPageByText db snapshotId text (some limit))
        (snapshotEntryWhole snapshotId)
        (fun db => Reachable host db ∧ ∀ entry ∈ db.snapshotEntries, entry.relativePath ≠ [])) ∧
      ∀ db path, Dealt host db → ∀ text start limit page,
        startOfText readRevisionCursor text = some start →
        ls host db path start (some limit) = .ok page →
        ∃ nextText, lsByText host db path text (some limit) = some (page.items, nextText) ∧
          nextText.map readRevisionCursor = page.nextCursor.map some := by
  constructor
  · exact columns.paginates_namespaces.byText (fun _ listed => listed.distinct)
      fun _ listed => comesBack_namespaces columns listed
  constructor
  · exact (paginates_trash host keys).byText (fun _ fits => fits.reached)
      fun _ fits => comesBack_trash fits isNamespace
  constructor
  · exact fun rootNodeId => (paginates_fileSnapshots host keys rootNodeId).byText
      (fun _ fits => fits.reached) fun _ fits => comesBack_fileSnapshots fits isNamespace
  constructor
  · exact fun snapshotId => (paginates_snapshotEntries host snapshotId).byText
      (fun _ fits => fits.1) fun _ fits => comesBack_snapshotEntries fits.1 fits.2
  · intro db path dealt text start limit page isStart result
    apply (comesBack_ls dealt path).pageByText isStart
    rw [result]
    rfl

namespace Small

theorem isUuid_uuidHost {draw : Nat} (small : draw < 2 ^ 60) :
    Storix.isUuid (uuidHost.randomUUID draw) = true := by
  have isId : uuidHost.randomUUID draw = (4 * 2 ^ 16 + 8) * 2 ^ 60 + draw := rfl
  have high : ((4 * 2 ^ 16 + 8) * 2 ^ 60 + draw) / 2 ^ 76 = 4 := by omega
  have low : ((4 * 2 ^ 16 + 8) * 2 ^ 60 + draw) / 2 ^ 60 = 4 * 2 ^ 16 + 8 := by omega
  simp only [Storix.isUuid, isId, high, low, Bool.and_eq_true, decide_eq_true_eq]
  have bound : (4 * 2 ^ 16 + 8) * 2 ^ 60 + draw < 2 ^ 128 := by omega
  exact ⟨⟨⟨⟨bound, by decide⟩, by decide⟩, by decide⟩, by decide⟩

/-- `/p` -/
def firstFile : NodePath uuidHost := ⟨⟨[[0x70]], by decide +kernel⟩, by simp⟩

/-- `/q` -/
def secondFile : NodePath uuidHost := ⟨⟨[[0x71]], by decide +kernel⟩, by simp⟩

def written : Database :=
  (Mutation.put secondFile false blob none false none).after 1
    ((Mutation.put firstFile false blob none false none).after 1
      (createWithRoot uuidHost 0 settings))

def thrown : Database :=
  (Mutation.remove secondFile false 100).after 2
    ((Mutation.remove firstFile false 100).after 2 written)

theorem reachable_thrown : Reachable uuidHost thrown :=
  ((((Reachable.start 0 settings).after _ 1).after _ 1).after _ 2).after _ 2

theorem timesFit_thrown : TimesFit uuidHost .postgres thrown where
  reached := reachable_thrown
  uuids draw isDrawn := by
    have issued : thrown.issued ≤ 2 ^ 60 := by decide +kernel
    exact isUuid_uuidHost (Nat.lt_of_lt_of_le isDrawn issued)
  trash := by decide +kernel
  snapshots := by decide +kernel

def namespaceId : JsString := List.replicate 32 0x30

end Small

theorem TimesFit.read {keys : TimestampKeys} (fits : TimesFit host keys db) (now : Nat) :
    (fun read : Database × Nat => TimesFit host keys read.1) (db, now) := fits

/-- The text after the first file of the trash leads to the second one. -/
theorem trash_is_paginated_by_text_small :
    Shows (fun (read : Database × Nat) text limit =>
        trashPageByText .postgres read.1 read.2 Small.namespaceId text (some limit))
      trashWhole (Small.thrown, 3) 1 TrashItem.originalPath [[[0x2f, 0x70]], [[0x2f, 0x71]]] := by
  rcases lists_are_paginated_by_text Small.uuidHost Small.columns .postgres Small.namespaceId
    (by decide +kernel) with ⟨-, trash, -⟩
  have pages : (followPages (fun (read : Database × Nat) text limit =>
      trashPageByText .postgres read.1 read.2 Small.namespaceId text (some limit))
      (Small.thrown, 3) 1 8 none).map (List.map (List.map TrashItem.originalPath)) =
      some [[[0x2f, 0x70]], [[0x2f, 0x71]]] := by decide +kernel
  exact trash.shows (Small.timesFit_thrown.read 3) (by decide) pages

end Storix
