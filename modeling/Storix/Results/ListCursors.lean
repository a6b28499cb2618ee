import Mathlib.Data.List.Perm.Subperm
import Storix.Vfs.ListCursors

/-! # List cursors are read back

A reader of cursors takes exactly what the writer makes. The cursors of a snapshot's entries,
of the namespaces, of a directory's revision and of the change feed have one text for each
position. Those of the trash and of a file's snapshots are written in the order in which the
properties were read, so that a position has one text for each order. -/

namespace Storix.Cursors

open Foundation Foundation.Json JsonText

/-! ## Records -/

structure Flat (record : Record) : Prop where
  scalars : ∀ member ∈ record, IsNumberless member.2
  distinct : (record.map Prod.fst).Nodup

theorem Flat.perm {record other : Record} (flat : Flat other) (isPerm : record.Perm other) :
    Flat record where
  scalars member isMember := flat.scalars member (isPerm.mem_iff.mp isMember)
  distinct := (isPerm.map Prod.fst).nodup_iff.mpr flat.distinct

theorem Flat.numberless {record : Record} (flat : Flat record) : IsNumberless (.object record) := by
  rw [IsNumberless]
  exact ⟨flat.distinct, areNumberlessMembers_iff.mpr flat.scalars⟩

theorem readRecord_recordText {record : Record} (flat : Flat record) :
    readRecord (recordText record) = some record := by
  rw [readRecord, recordText, base64Bytes_base64url,
    JsString.utf8Text_utf8 (hasLoneSurrogate_stringify flat.numberless),
    parse_stringify flat.numberless]

theorem recordText_ne_nil (record : Record) : recordText record ≠ [] := by
  have isBrace : openBrace.toNat < 0x80 := by decide
  intro isEmpty
  have noBytes : JsString.utf8 (stringify (.object record)) = [] := by
    rw [← base64Bytes_base64url (JsString.utf8 (stringify (.object record)))]
    exact congrArg base64Bytes isEmpty
  cases record with
  | nil => exact absurd noBytes (by decide)
  | cons member rest =>
      rcases member with ⟨key, value⟩
      rw [stringify] at noBytes
      simp only [List.cons_append] at noBytes
      rw [JsString.utf8_cons_ascii isBrace] at noBytes
      cases noBytes

theorem payloadOf_append (start : JsString) (record : Record) :
    payloadOf start (start ++ recordText record) = some (recordText record) := by
  rw [payloadOf, List.drop_left, List.take_left]
  apply if_pos
  exact ⟨rfl, recordText_ne_nil record, base64url_alphabet _⟩

theorem orInvalid_eq_ok {α : Type} {shown : JsString} {answer : Option α} {value : α} :
    orInvalid shown answer = .ok value ↔ answer = some value := by
  cases answer with
  | none => simp [orInvalid]
  | some other => simp [orInvalid]

theorem property_of_mem {record : Record} (distinct : (record.map Prod.fst).Nodup)
    {name : JsString} {value : JsonTree} (isMember : (name, value) ∈ record) :
    JsonOf.property record name = some value := by
  rw [JsonOf.property]
  induction record with
  | nil => cases isMember
  | cons first rest induction =>
      rw [List.map_cons, List.nodup_cons] at distinct
      rw [List.find?_cons]
      rcases List.mem_cons.mp isMember with rfl | inRest
      · simp
      · have different : (first.1 == name) = false := by
          rw [beq_eq_false_iff_ne]
          intro same
          apply distinct.1
          rw [same]
          exact List.mem_map_of_mem inRest
        rw [different]
        exact induction distinct.2 inRest

theorem textProperty_of_mem {record : Record} (distinct : (record.map Prod.fst).Nodup)
    {name text : JsString} (isMember : (name, .string text) ∈ record) :
    textProperty record name = some text := by
  rw [textProperty, property_of_mem distinct isMember]
  rfl

theorem mem_of_textProperty {record : Record} {name text : JsString}
    (isProperty : textProperty record name = some text) : (name, .string text) ∈ record := by
  rw [textProperty, JsonOf.property] at isProperty
  cases found : record.find? fun member => member.1 == name with
  | none =>
      rw [found] at isProperty
      cases isProperty
  | some member =>
      have isMember := List.mem_of_find?_eq_some found
      have isName := beq_iff_eq.mp
        (@List.find?_some _ (fun member : JsString × JsonTree => member.1 == name) _ _ found)
      rcases member with ⟨key, value⟩
      rw [found, Option.map_some] at isProperty
      cases value with
      | string other =>
          cases isProperty
          cases isName
          exact isMember
      | null => cases isProperty
      | boolean value => cases isProperty
      | number literal => cases isProperty
      | array elements => cases isProperty
      | object members => cases isProperty

/-- A record as long as another that has all its members is the other in some order. -/
theorem perm_of_subset {record other : Record} (flat : Flat other)
    (subset : ∀ member ∈ other, member ∈ record) (sameLength : record.length = other.length) :
    record.Perm other := by
  have distinct : other.Nodup := List.Nodup.of_map _ flat.distinct
  exact ((List.subperm_of_subset distinct subset).perm_of_length_le (le_of_eq sameLength)).symm

/-! ## One text for each position -/

theorem SnapshotCursor.flat (cursor : SnapshotCursor) : Flat cursor.record where
  scalars := by simp [record, IsNumberless]
  distinct := by
    change [snapshotIdName, pathKeyName].Nodup
    decide

theorem encodeSnapshotCursor_eq_ok {cursor : SnapshotCursor} {raw : JsString} :
    encodeSnapshotCursor cursor = .ok raw ↔
      cursor.valid = true ∧ raw = snapshotStart ++ recordText cursor.record := by
  rw [encodeSnapshotCursor]
  cases cursor.valid with
  | false => simp
  | true => simp [eq_comm]

theorem decodeSnapshotCursor_eq_ok {raw : JsString} {expected : Option JsString}
    {cursor : SnapshotCursor} :
    decodeSnapshotCursor raw expected = .ok cursor ↔
      encodeSnapshotCursor cursor = .ok raw ∧
        ∀ id, expected = some id → cursor.snapshotId = id := by
  have bound : (expected.any (· ≠ cursor.snapshotId)) = true ↔
      ¬∀ id, expected = some id → cursor.snapshotId = id := by
    cases expected with
    | none => simp
    | some id => simp [ne_comm]
  rw [decodeSnapshotCursor, orInvalid_eq_ok]
  constructor
  · intro answer
    simp only [bind, Option.bind_eq_some_iff] at answer
    rcases answer with ⟨payload, isPayload, record, isRecord, answer⟩
    split at answer
    · cases answer
    · simp only [Option.bind_eq_some_iff] at answer
      rcases answer with ⟨snapshotId, isId, pathKey, isKey, answer⟩
      split at answer
      · cases answer
      · rename_i accepted
        split at answer
        · cases answer
        · rename_i canonical
          cases answer
          rw [not_or] at accepted
          exact ⟨not_not.mp canonical, not_not.mp (mt bound.mpr accepted.2)⟩
  · rintro ⟨encoded, owned⟩
    rcases encodeSnapshotCursor_eq_ok.mp encoded with ⟨valid, isRaw⟩
    simp only [bind, Option.bind_eq_some_iff]
    refine ⟨recordText cursor.record, isRaw ▸ payloadOf_append _ _, cursor.record,
      readRecord_recordText cursor.flat, ?_⟩
    rw [if_neg (by simp [SnapshotCursor.record])]
    simp only [Option.bind_eq_some_iff]
    refine ⟨cursor.snapshotId, rfl, cursor.pathKey, rfl, ?_⟩
    rw [if_neg (by
      rw [not_or]
      exact ⟨by simp [valid], mt bound.mp (not_not.mpr owned)⟩), if_neg (not_not.mpr encoded)]

/-! ## Lengths -/

/-- A unit of one byte that stands for itself in a string literal. -/
structure IsPlain (unit : UInt16) : Prop where
  low : 0x20 ≤ unit.toNat
  high : unit.toNat < 0x80
  notQuote : unit ≠ quote
  notEscape : unit ≠ Json.backslash

theorem IsPlain.of_toNat {unit : UInt16} (low : 0x2d ≤ unit.toNat) (high : unit.toNat < 0x80)
    (notEscape : unit.toNat ≠ 0x5c) : IsPlain unit where
  low := by omega
  high := high
  notQuote := by
    rintro rfl
    exact absurd low (by decide)
  notEscape := by
    rintro rfl
    exact notEscape rfl

theorem writeUnit_of_plain {unit : UInt16} (plain : IsPlain unit) : writeUnit unit = [unit] := by
  have low := plain.low
  have high := plain.high
  have control : ∀ other : UInt16, other.toNat < 0x20 → unit ≠ other := by
    rintro other small rfl
    omega
  have notSurrogate : (JsString.isHighSurrogate unit || JsString.isLowSurrogate unit) = false := by
    rw [Bool.or_eq_false_iff, Bool.eq_false_iff, Bool.eq_false_iff, Ne, Ne,
      JsString.isHighSurrogate_iff, JsString.isLowSurrogate_iff]
    omega
  rw [writeUnit, if_neg (not_or.mpr ⟨plain.notQuote, plain.notEscape⟩),
    if_neg (control _ (by decide)), if_neg (control _ (by decide)), if_neg (control _ (by decide)),
    if_neg (control _ (by decide)), if_neg (control _ (by decide)), if_neg, notSurrogate]
  · rfl
  · rw [UInt16.lt_iff_toNat_lt]
    change ¬unit.toNat < 0x20
    omega

theorem writeUnits_of_plain {text : JsString} (plain : ∀ unit ∈ text, IsPlain unit) :
    writeUnits text = text := by
  induction text using writeUnits.induct with
  | case1 => rfl
  | case2 unit => exact writeUnit_of_plain (plain unit List.mem_cons_self)
  | case3 high low more pair induction =>
      rw [writeUnits, if_pos pair, induction]
      intro unit member
      exact plain unit (List.mem_cons_of_mem _ (List.mem_cons_of_mem _ member))
  | case4 high low more single induction =>
      rw [writeUnits, if_neg single, writeUnit_of_plain (plain high List.mem_cons_self), induction]
      · rfl
      · exact fun unit member => plain unit (List.mem_cons_of_mem _ member)

theorem utf8_length_ascii {text : JsString} (ascii : ∀ unit ∈ text, unit.toNat < 0x80) :
    (JsString.utf8 text).length = text.length := by
  induction text with
  | nil => rfl
  | cons unit rest induction =>
      rw [JsString.utf8_cons_ascii (ascii unit List.mem_cons_self), List.length_cons,
        List.length_cons, induction fun other member => ascii other (List.mem_cons_of_mem _ member)]

theorem isPlain_of_isLowerHex {unit : UInt16} (isHex : isLowerHex unit = true) : IsPlain unit := by
  simp only [isLowerHex, isDigit, Bool.or_eq_true, Bool.and_eq_true, decide_eq_true_eq,
    UInt16.le_iff_toNat_le, UInt16.reduceToNat] at isHex
  apply IsPlain.of_toNat <;> omega

theorem isPlain_of_isNameUnit {unit : UInt16} (isName : isNameUnit unit = true) :
    IsPlain unit := by
  simp only [isNameUnit, isLowerLetter, Bool.or_eq_true, Bool.and_eq_true, decide_eq_true_eq,
    UInt16.le_iff_toNat_le, UInt16.reduceToNat, beq_iff_eq, ← UInt16.toNat_inj] at isName
  apply IsPlain.of_toNat <;> omega

theorem isPlain_of_isDigit {unit : UInt16} (digit : isDigit unit = true) : IsPlain unit := by
  rw [isDigit_iff] at digit
  apply IsPlain.of_toNat <;> omega

theorem plain_of_isHyphenated {text : JsString} (hyphenated : isHyphenated isLowerHex text = true) :
    ∀ unit ∈ text, IsPlain unit := by
  rw [isHyphenated, Bool.and_eq_true] at hyphenated
  intro unit member
  rcases List.mem_iff_getElem?.mp member with ⟨index, isUnit⟩
  have known := List.all_eq_true.mp hyphenated.2 (unit, index)
    (List.mk_mem_zipIdx_iff_getElem?.mpr isUnit)
  dsimp only at known
  split at known
  · rw [beq_iff_eq.mp known]
    exact IsPlain.of_toNat (by decide) (by decide) (by decide)
  · exact isPlain_of_isLowerHex known

theorem plain_of_isPrefixedId {text : JsString} (isId : isPrefixedId text = true) :
    ∀ unit ∈ text, IsPlain unit := by
  simp only [isPrefixedId, isIdPrefix, Bool.and_eq_true, Bool.or_eq_true, List.isEmpty_iff,
    beq_iff_eq, List.all_eq_true] at isId
  rcases isId with ⟨⟨-, digits⟩, isStart⟩
  intro unit member
  rw [← List.take_append_drop (text.length - 32) text] at member
  rcases List.mem_append.mp member with inStart | inDigits
  · generalize text.take (text.length - 32) = start at isStart inStart
    rcases isStart with isEmpty | ⟨isLast, ⟨isFirst, others⟩, -⟩
    · rw [isEmpty] at inStart
      cases inStart
    · have isFront := List.dropLast_append_getLast? 0x5f isLast
      rw [← isFront] at inStart
      rcases List.mem_append.mp inStart with inFront | isUnderscore
      · cases front : start.dropLast with
        | nil =>
            rw [front] at inFront
            cases inFront
        | cons first rest =>
            rw [front] at inFront isFirst others
            rcases List.mem_cons.mp inFront with rfl | inRest
            · apply isPlain_of_isNameUnit
              rw [isNameUnit, show isLowerLetter unit = true by simpa using isFirst]
              rfl
            · exact isPlain_of_isNameUnit (others unit inRest)
      · rw [List.mem_singleton.mp isUnderscore]
        exact IsPlain.of_toNat (by decide) (by decide) (by decide)
  · exact isPlain_of_isLowerHex (digits unit inDigits)

theorem plain_of_isNamespaceId {value : JsString} (isId : isNamespaceId value = true) :
    (∀ unit ∈ value, IsPlain unit) ∧ value.length ≤ NAMESPACE_ID_MAX_LENGTH := by
  simp only [isNamespaceId, Bool.and_eq_true, Bool.or_eq_true, decide_eq_true_eq] at isId
  refine ⟨?_, isId.1⟩
  rcases isId.2 with hyphenated | prefixed
  · exact plain_of_isHyphenated hyphenated
  · exact plain_of_isPrefixedId prefixed

structure IsShort (text : JsString) (bound : Nat) : Prop where
  ascii : ∀ unit ∈ text, unit.toNat < 0x80
  length_le : text.length ≤ bound

theorem IsShort.append {left right : JsString} {leftBound rightBound : Nat}
    (isLeft : IsShort left leftBound) (isRight : IsShort right rightBound) :
    IsShort (left ++ right) (leftBound + rightBound) where
  ascii unit member := by
    rcases List.mem_append.mp member with inLeft | inRight
    · exact isLeft.ascii unit inLeft
    · exact isRight.ascii unit inRight
  length_le := by
    rw [List.length_append]
    exact Nat.add_le_add isLeft.length_le isRight.length_le

theorem isShort_unit {unit : UInt16} (ascii : unit.toNat < 0x80) : IsShort [unit] 1 where
  ascii := by simpa using ascii
  length_le := Nat.le_refl 1

theorem IsShort.cons {text : JsString} {bound : Nat} (unit : UInt16) (ascii : unit.toNat < 0x80)
    (isText : IsShort text bound) : IsShort (unit :: text) (1 + bound) :=
  (isShort_unit ascii).append isText

theorem isShort_writeString {text : JsString} {bound : Nat} (plain : ∀ unit ∈ text, IsPlain unit)
    (length_le : text.length ≤ bound) : IsShort (writeString text) (1 + (bound + 1)) := by
  have isText : IsShort text bound := ⟨fun unit member => (plain unit member).high, length_le⟩
  rw [writeString, writeUnits_of_plain plain]
  exact .cons _ (by decide) (isText.append (isShort_unit (by decide)))

theorem recordText_length_le (firstName secondName : JsString) {first second : JsonTree}
    {firstBound secondBound : Nat} (isFirstName : ∀ unit ∈ firstName, IsPlain unit)
    (isSecondName : ∀ unit ∈ secondName, IsPlain unit)
    (isFirst : IsShort (stringify first) firstBound)
    (isSecond : IsShort (stringify second) secondBound) :
    (recordText [(firstName, first), (secondName, second)]).length ≤
      ((firstName.length + firstBound + secondName.length + secondBound + 9) * 4 + 2) / 3 := by
  have isText := (IsShort.cons openBrace (by decide)
    (isShort_writeString isFirstName (Nat.le_refl _))).append
    ((IsShort.cons colon (by decide) isFirst).append
      ((IsShort.cons comma (by decide)
        (isShort_writeString isSecondName (Nat.le_refl _))).append
        ((IsShort.cons colon (by decide) isSecond).append
          (isShort_unit (show closeBrace.toNat < 0x80 by decide)))))
  have isObject : stringify (.object [(firstName, first), (secondName, second)]) =
      openBrace :: writeString firstName ++ (colon :: stringify first ++
        (comma :: writeString secondName ++ (colon :: stringify second ++ [closeBrace]))) := by
    simp [stringify, stringifyMembers]
  rw [recordText, base64url_length, isObject, utf8_length_ascii isText.ascii]
  have short := isText.length_le
  omega

/-! ## The namespaces -/

theorem NamespaceListCursor.flat (cursor : NamespaceListCursor) : Flat cursor.record where
  scalars := by
    cases isName : cursor.name <;> simp [record, IsNumberless, isName]
  distinct := by
    change [nameName, idName].Nodup
    decide

theorem encodeNamespaceListCursor_eq_ok {cursor : NamespaceListCursor} {raw : JsString} :
    encodeNamespaceListCursor cursor = .ok raw ↔
      cursor.valid = true ∧ raw = namespaceListStart ++ recordText cursor.record := by
  rw [encodeNamespaceListCursor]
  cases cursor.valid with
  | false => simp
  | true => simp [eq_comm]

theorem NamespaceListCursor.length_le {cursor : NamespaceListCursor} (valid : cursor.valid = true) :
    (namespaceListStart ++ recordText cursor.record).length ≤ MAX_RAW_LENGTH := by
  rw [NamespaceListCursor.valid, Bool.and_eq_true] at valid
  rcases plain_of_isNamespaceId valid.2 with ⟨plainId, idLength⟩
  have isName : IsShort (stringify (cursor.name.elim .null .string)) 130 := by
    cases isName : cursor.name with
    | none =>
        have ascii : nullLiteral.all (fun unit => decide (unit.toNat < 0x80)) = true := by decide
        refine ⟨fun unit member => ?_, by decide⟩
        exact of_decide_eq_true (List.all_eq_true.mp ascii unit member)
    | some name =>
        rw [isName] at valid
        simp only [Option.all_some, isNamespaceName, Bool.and_eq_true, decide_eq_true_eq,
          List.all_eq_true] at valid
        rw [Option.elim_some, stringify]
        exact isShort_writeString (fun unit member => isPlain_of_isNameUnit (valid.1.2 unit member))
          valid.1.1.2
  have isId : IsShort (stringify (.string cursor.id)) (1 + (NAMESPACE_ID_MAX_LENGTH + 1)) := by
    rw [stringify]
    exact isShort_writeString plainId idLength
  have short := recordText_length_le nameName idName
    (fun unit member => isPlain_of_isNameUnit (List.all_eq_true.mp (by decide) unit member))
    (fun unit member => isPlain_of_isNameUnit (List.all_eq_true.mp (by decide) unit member))
    isName isId
  have lengths : nameName.length = 4 ∧ idName.length = 2 ∧ namespaceListStart.length = 4 := by
    decide
  rw [List.length_append, record]
  simp only [NAMESPACE_ID_MAX_LENGTH, MAX_RAW_LENGTH] at short ⊢
  omega

theorem decodeNamespaceListCursor_eq_ok {raw : JsString} {cursor : NamespaceListCursor} :
    decodeNamespaceListCursor raw = .ok cursor ↔ encodeNamespaceListCursor cursor = .ok raw := by
  rw [decodeNamespaceListCursor, orInvalid_eq_ok]
  constructor
  · intro answer
    split at answer
    · cases answer
    · simp only [bind, Option.bind_eq_some_iff] at answer
      rcases answer with ⟨payload, isPayload, record, isRecord, answer⟩
      split at answer
      · cases answer
      · simp only [Option.bind_eq_some_iff] at answer
        rcases answer with ⟨name, isName, id, isId, answer⟩
        split at answer
        · cases answer
        · rename_i accepted
          cases answer
          rw [not_or] at accepted
          exact not_not.mp accepted.2
  · intro encoded
    rcases encodeNamespaceListCursor_eq_ok.mp encoded with ⟨valid, isRaw⟩
    have short := NamespaceListCursor.length_le valid
    rw [← isRaw] at short
    have isName : nullableText (JsonOf.property cursor.record nameName) = some cursor.name := by
      rw [property_of_mem cursor.flat.distinct List.mem_cons_self]
      cases cursor.name <;> rfl
    rw [if_neg (Nat.not_lt.mpr short)]
    simp only [bind, Option.bind_eq_some_iff]
    refine ⟨recordText cursor.record, isRaw ▸ payloadOf_append _ _, cursor.record,
      readRecord_recordText cursor.flat, ?_⟩
    rw [if_neg (by simp [NamespaceListCursor.record])]
    simp only [Option.bind_eq_some_iff]
    refine ⟨cursor.name, isName, cursor.id, rfl, ?_⟩
    rw [if_neg (by simp [valid, encoded])]

/-! ## Revisions of a directory -/

theorem RevisionCursor.flat (cursor : RevisionCursor) : Flat cursor.record where
  scalars := by simp [record, IsNumberless]
  distinct := by
    change [directoryIdName, directoryRevisionName, nameName, idName].Nodup
    decide

theorem decodeRevisionCursor_eq_ok {raw : JsString} {cursor : RevisionCursor} :
    decodeRevisionCursor raw = .ok cursor ↔
      cursor.valid = true ∧ encodeRevisionCursor cursor = raw := by
  rw [decodeRevisionCursor, orInvalid_eq_ok]
  constructor
  · intro answer
    simp only [bind, Option.bind_eq_some_iff] at answer
    rcases answer with ⟨payload, -, record, -, directoryId, -, directoryRevision, -, name, -, id, -,
      answer⟩
    split at answer
    · cases answer
    · rename_i valid
      split at answer
      · cases answer
      · rename_i canonical
        cases answer
        exact ⟨by simpa using valid, not_not.mp canonical⟩
  · rintro ⟨valid, isRaw⟩
    simp only [bind, Option.bind_eq_some_iff]
    refine ⟨recordText cursor.record, isRaw ▸ payloadOf_append _ _, cursor.record,
      readRecord_recordText cursor.flat, cursor.directoryId, rfl, cursor.directoryRevision, rfl,
      cursor.name, rfl, cursor.id, rfl, ?_⟩
    rw [if_neg (by simp [valid]), if_neg (not_not.mpr isRaw)]

/-! ## The change feed -/

theorem changeFeedRecord_flat (namespaceId sequence : JsString) :
    Flat (changeFeedRecord namespaceId sequence) where
  scalars := by simp [changeFeedRecord, IsNumberless]
  distinct := by
    change [namespaceIdName, sequenceName].Nodup
    decide

def lastSequence : JsString := ascii "9223372036854775807"

theorem sequence_length_le {sequence : JsString} (decimal : isDecimal sequence = true)
    (inRange : ofDecimal sequence ≤ MAX_SEQUENCE) : sequence.length ≤ 19 := by
  have isLast : ofDecimal lastSequence = MAX_SEQUENCE := by decide
  have shorter := length_le_of_ofDecimal_le decimal (show isDecimal lastSequence = true by decide)
    (isLast ▸ inRange)
  exact shorter

theorem changeFeedRecord_length_le {namespaceId sequence : JsString}
    (isId : isNamespaceId namespaceId = true) (decimal : isDecimal sequence = true)
    (inRange : ofDecimal sequence ≤ MAX_SEQUENCE) :
    (recordText (changeFeedRecord namespaceId sequence)).length ≤ 128 := by
  rcases plain_of_isNamespaceId isId with ⟨plainId, idLength⟩
  have isFirst : IsShort (stringify (.string namespaceId)) (1 + (NAMESPACE_ID_MAX_LENGTH + 1)) := by
    rw [stringify]
    exact isShort_writeString plainId idLength
  have isSecond : IsShort (stringify (.string sequence)) (1 + (19 + 1)) := by
    rw [stringify]
    apply isShort_writeString
    · exact fun unit member => isPlain_of_isDigit (isDecimal_digits decimal unit member)
    · exact sequence_length_le decimal inRange
  have plainName : ∀ unit ∈ namespaceIdName, IsPlain unit := by
    intro unit member
    have inRange : namespaceIdName.all fun unit =>
        decide (0x5d ≤ unit.toNat ∧ unit.toNat < 0x80) || decide (unit.toNat = 0x49) := by decide
    have known := List.all_eq_true.mp inRange unit member
    simp only [Bool.or_eq_true, decide_eq_true_eq] at known
    apply IsPlain.of_toNat <;> omega
  have short := recordText_length_le namespaceIdName sequenceName plainName
    (fun unit member => isPlain_of_isNameUnit (List.all_eq_true.mp (by decide) unit member))
    isFirst isSecond
  have lengths : namespaceIdName.length = 11 ∧ sequenceName.length = 8 := by decide
  rw [changeFeedRecord]
  simp only [NAMESPACE_ID_MAX_LENGTH] at short
  omega

theorem matchChangeFeed_append {payload mac : JsString} (nonempty : payload ≠ [])
    (isPayload : payload.all inAlphabet = true) (macLength : mac.length = 43)
    (isMac : mac.all inAlphabet = true) :
    matchChangeFeed (changeFeedStart ++ payload ++ 0x2e :: mac) = some (payload, mac) := by
  have rest : (changeFeedStart ++ payload ++ 0x2e :: mac).drop 4 = payload ++ 0x2e :: mac := by
    rw [List.append_assoc]
    exact @List.drop_left _ changeFeedStart _
  have start : (changeFeedStart ++ payload ++ 0x2e :: mac).take 4 = changeFeedStart := by
    rw [List.append_assoc]
    exact @List.take_left _ changeFeedStart _
  have restLength : (payload ++ 0x2e :: mac).length = payload.length + 44 := by
    rw [List.length_append, List.length_cons, macLength]
  have isFront :
      (payload ++ 0x2e :: mac).take ((payload ++ 0x2e :: mac).length - 44) = payload := by
    rw [restLength, Nat.add_sub_cancel]
    exact List.take_left
  have isBack : (payload ++ 0x2e :: mac).drop ((payload ++ 0x2e :: mac).length - 43) = mac := by
    rw [restLength, show payload.length + 44 - 43 = payload.length + 1 by omega,
      List.drop_append]
    simp
  rw [matchChangeFeed, start, rest, isFront, isBack,
    if_pos ⟨rfl, nonempty, isPayload, rfl, macLength, isMac⟩]

/-- A change feed cursor is taken where the server wrote it for this namespace, with this
secret. -/
theorem decodeChangeFeedCursor_eq_ok {hmac : Hmac}
    (digestLength : ∀ secret message, (hmac secret message).length = 32)
    {raw namespaceId signingSecret sequence : JsString} :
    decodeChangeFeedCursor hmac raw namespaceId signingSecret = .ok sequence ↔
      isNamespaceId namespaceId = true ∧ isDecimal sequence = true ∧
        ofDecimal sequence ≤ MAX_SEQUENCE ∧
        raw = encodeChangeFeedCursor hmac namespaceId sequence signingSecret := by
  constructor
  · intro answer
    rw [decodeChangeFeedCursor] at answer
    split at answer
    · cases answer
    · dsimp only at answer
      split at answer
      · cases answer
      · split at answer
        · cases answer
        · split at answer
          · split at answer
            · cases answer
            · rename_i accepted
              cases answer
              simp only [not_or, Bool.not_eq_false, not_not, Nat.not_lt] at accepted
              rcases accepted with ⟨isId, rfl, decimal, inRange, canonical⟩
              exact ⟨isId, decimal, inRange, canonical.symm⟩
          · cases answer
  · rintro ⟨isId, decimal, inRange, isRaw⟩
    have flat := changeFeedRecord_flat namespaceId sequence
    have payloadLength := changeFeedRecord_length_le isId decimal inRange
    generalize isPayload : recordText (changeFeedRecord namespaceId sequence) = payload at *
    have isSignature : (signature hmac payload signingSecret).length = 32 := digestLength _ _
    have macLength : (base64url (signature hmac payload signingSecret)).length = 43 := by
      rw [base64url_length, isSignature]
    have isText : raw = changeFeedStart ++ payload ++
        0x2e :: base64url (signature hmac payload signingSecret) := by
      rw [isRaw, encodeChangeFeedCursor, isPayload]
    have matched : matchChangeFeed raw =
        some (payload, base64url (signature hmac payload signingSecret)) := by
      rw [isText]
      apply matchChangeFeed_append
      · rw [← isPayload]
        exact recordText_ne_nil _
      · rw [← isPayload]
        exact base64url_alphabet _
      · exact macLength
      · exact base64url_alphabet _
    have short : raw.length ≤ 230 := by
      have startLength : changeFeedStart.length = 4 := by decide
      rw [isText, List.length_append, List.length_append, List.length_cons, macLength]
      omega
    have canonical : base64url (base64Bytes payload) = payload := by
      rw [← isPayload, recordText, base64Bytes_base64url]
    rw [decodeChangeFeedCursor, matched]
    dsimp only
    rw [base64Bytes_base64url, if_neg (by
      simp only [not_or, not_not, Nat.not_lt]
      exact ⟨short, isSignature, trivial, trivial, canonical⟩), ← isPayload,
        readRecord_recordText flat]
    have isFirst : textProperty (changeFeedRecord namespaceId sequence) namespaceIdName =
        some namespaceId := rfl
    have isSecond : textProperty (changeFeedRecord namespaceId sequence) sequenceName =
        some sequence := rfl
    dsimp only
    rw [isFirst, isSecond]
    dsimp only
    rw [if_neg]
    simp only [not_or, Bool.not_eq_false, not_not, Nat.not_lt]
    exact ⟨isId, trivial, decimal, inRange, isRaw.symm⟩

/-! ## The cursors with one text -/

/-- The cursors of a snapshot's entries, of the namespaces, of a directory's revision and of the
change feed: a reader takes a text as a position exactly where it is the text that the writer
makes of the position, and the position belongs to the snapshot, the namespace and the secret
that the reader asks for. -/
theorem cursors_have_one_text (hmac : Hmac)
    (digestLength : ∀ secret message, (hmac secret message).length = 32) :
    (∀ raw expected cursor, decodeSnapshotCursor raw expected = .ok cursor ↔
      encodeSnapshotCursor cursor = .ok raw ∧
        ∀ id, expected = some id → cursor.snapshotId = id) ∧
    (∀ raw cursor, decodeNamespaceListCursor raw = .ok cursor ↔
      encodeNamespaceListCursor cursor = .ok raw) ∧
    (∀ raw cursor, decodeRevisionCursor raw = .ok cursor ↔
      cursor.valid = true ∧ encodeRevisionCursor cursor = raw) ∧
    ∀ raw namespaceId signingSecret sequence,
      decodeChangeFeedCursor hmac raw namespaceId signingSecret = .ok sequence ↔
        isNamespaceId namespaceId = true ∧ isDecimal sequence = true ∧
          ofDecimal sequence ≤ MAX_SEQUENCE ∧
          raw = encodeChangeFeedCursor hmac namespaceId sequence signingSecret := by
  refine ⟨?_, ?_, ?_, ?_⟩
  · exact fun _ _ _ => decodeSnapshotCursor_eq_ok
  · exact fun _ _ => decodeNamespaceListCursor_eq_ok
  · exact fun _ _ => decodeRevisionCursor_eq_ok
  · exact fun _ _ _ _ => decodeChangeFeedCursor_eq_ok digestLength

namespace Small

def namespaceText : JsString := ascii "0123456789abcdef0123456789abcdef"

/-- `00112233445566778899aabbccddeeff00112233445566778899aabbccddeeff` -/
def signingSecret : JsString := (List.replicate 2 ((List.range 16).flatMap fun digit =>
  [hexLetter digit, hexLetter digit])).flatten

def digest : List UInt8 :=
  [0x31, 0x5c, 0xbc, 0x20, 0x2d, 0x29, 0xde, 0x1e, 0xa9, 0xe3, 0x26, 0xb0, 0x5d, 0xbc,
    0x5d, 0xe3, 0xf6, 0x85, 0x30, 0x04, 0x0e, 0x5f, 0x30, 0xc9, 0x39, 0x24, 0x04, 0x38,
    0xe5, 0x89, 0x4e, 0xb0]

theorem cursors_have_one_text_signed :
    decodeChangeFeedCursor (fun _ _ => digest)
        (encodeChangeFeedCursor (fun _ _ => digest) namespaceText [0x34, 0x32] signingSecret)
        namespaceText signingSecret = .ok [0x34, 0x32] := by
  apply ((cursors_have_one_text (fun _ _ => digest) (fun _ _ => rfl)).2.2.2 _ _ _ _).mpr
  refine ⟨?_, ?_, ?_, rfl⟩
  · decide
  · decide
  · decide

end Small

/-! ## One text for each order of the properties -/

theorem SnapshotListCursor.flat (cursor : SnapshotListCursor) : Flat cursor.record where
  scalars := by simp [record, IsNumberless]
  distinct := by
    change [namespaceIdName, rootNodeIdName, createdAtKeyName, snapshotIdName].Nodup
    decide

theorem encodeSnapshotListRecord_eq_ok {cursor : SnapshotListCursor} {record : Record}
    {raw : JsString} :
    encodeSnapshotListRecord cursor record = .ok raw ↔
      cursor.valid = true ∧ raw = snapshotListStart ++ recordText record := by
  rw [encodeSnapshotListRecord]
  cases cursor.valid with
  | false => simp
  | true => simp [eq_comm]

theorem decodeSnapshotListCursor_eq_ok {toLowerCase : JsString → JsString}
    {raw namespaceId rootNodeId : JsString} {cursor : SnapshotListCursor} :
    decodeSnapshotListCursor toLowerCase raw namespaceId rootNodeId = .ok cursor ↔
      cursor.valid = true ∧ cursor.namespaceId = namespaceId ∧
        toLowerCase cursor.rootNodeId = toLowerCase rootNodeId ∧
        ∃ record : Record, record.Perm cursor.record ∧
          raw = snapshotListStart ++ recordText record := by
  rw [decodeSnapshotListCursor, orInvalid_eq_ok]
  constructor
  · intro answer
    simp only [bind, Option.bind_eq_some_iff] at answer
    rcases answer with ⟨payload, isPayload, record, isRecord, answer⟩
    split at answer
    · cases answer
    · rename_i fields
      simp only [Option.bind_eq_some_iff] at answer
      rcases answer with ⟨_, isNamespace, _, isRoot, _, isKey, _, isSnapshot, answer⟩
      split at answer
      · cases answer
      · rename_i accepted
        split at answer
        · cases answer
        · rename_i canonical
          cases answer
          simp only [not_or, Bool.not_eq_false, not_not] at accepted
          rcases encodeSnapshotListRecord_eq_ok.mp (not_not.mp canonical) with ⟨valid, isRaw⟩
          refine ⟨valid, accepted.2.1, accepted.2.2, record, ?_, isRaw⟩
          apply perm_of_subset (SnapshotListCursor.flat _)
          · simp only [SnapshotListCursor.record, List.forall_mem_cons]
            exact ⟨mem_of_textProperty isNamespace, mem_of_textProperty isRoot,
              mem_of_textProperty isKey, mem_of_textProperty isSnapshot, by simp⟩
          · exact not_not.mp fields
  · rintro ⟨valid, isNamespace, isRoot, record, isPerm, isRaw⟩
    have flat := cursor.flat.perm isPerm
    have ofMember : ∀ {name text : JsString}, (name, .string text) ∈ cursor.record →
        textProperty record name = some text :=
      fun member => textProperty_of_mem flat.distinct (isPerm.mem_iff.mpr member)
    simp only [bind, Option.bind_eq_some_iff]
    refine ⟨recordText record, isRaw ▸ payloadOf_append _ _, record,
      readRecord_recordText flat, ?_⟩
    have four : record.length = 4 := isPerm.length_eq
    rw [if_neg (not_not.mpr four)]
    simp only [Option.bind_eq_some_iff]
    refine ⟨cursor.namespaceId, ofMember (by simp [SnapshotListCursor.record]),
      cursor.rootNodeId, ofMember (by simp [SnapshotListCursor.record]),
      cursor.createdAtKey, ofMember (by simp [SnapshotListCursor.record]),
      cursor.snapshotId, ofMember (by simp [SnapshotListCursor.record]), ?_⟩
    have accepted : ¬(cursor.valid = false ∨ cursor.namespaceId ≠ namespaceId ∨
        toLowerCase cursor.rootNodeId ≠ toLowerCase rootNodeId) := by
      simp only [not_or, not_not, Bool.not_eq_false]
      exact ⟨valid, isNamespace, isRoot⟩
    rw [if_neg accepted,
      if_neg (not_not.mpr (encodeSnapshotListRecord_eq_ok.mpr ⟨valid, isRaw⟩))]

theorem TrashCursor.flat (cursor : TrashCursor) : Flat cursor.record where
  scalars := by simp [record, IsNumberless]
  distinct := by
    change [namespaceIdName, orderName, deletedAtKeyName, trashIdName].Nodup
    decide

theorem encodeTrashRecord_eq_ok {cursor : TrashCursor} {record : Record} {raw : JsString} :
    encodeTrashRecord cursor record = .ok raw ↔
      cursor.valid = true ∧ raw = trashStart ++ recordText record := by
  rw [encodeTrashRecord]
  cases cursor.valid with
  | false => simp
  | true => simp [eq_comm]

theorem decodeTrashCursor_eq_ok {raw namespaceId : JsString} {cursor : TrashCursor} :
    decodeTrashCursor raw namespaceId = .ok cursor ↔
      cursor.valid = true ∧ cursor.namespaceId = namespaceId ∧
        ∃ record : Record, record.Perm cursor.record ∧ raw = trashStart ++ recordText record := by
  rw [decodeTrashCursor, orInvalid_eq_ok]
  constructor
  · intro answer
    simp only [bind, Option.bind_eq_some_iff] at answer
    rcases answer with ⟨payload, isPayload, record, isRecord, answer⟩
    split at answer
    · cases answer
    · rename_i fields
      simp only [Option.bind_eq_some_iff] at answer
      rcases answer with ⟨_, isNamespace, _, isKey, _, isTrash, _, isOrder, answer⟩
      split at answer
      · cases answer
      · rename_i accepted
        split at answer
        · cases answer
        · rename_i canonical
          cases answer
          simp only [not_or, Bool.not_eq_false, not_not] at accepted
          rcases encodeTrashRecord_eq_ok.mp (not_not.mp canonical) with ⟨valid, isRaw⟩
          refine ⟨valid, accepted.2, record, ?_, isRaw⟩
          apply perm_of_subset (TrashCursor.flat _)
          · simp only [TrashCursor.record, List.forall_mem_cons]
            exact ⟨mem_of_textProperty isNamespace, mem_of_textProperty isOrder,
              mem_of_textProperty isKey, mem_of_textProperty isTrash, by simp⟩
          · exact not_not.mp fields
  · rintro ⟨valid, isNamespace, record, isPerm, isRaw⟩
    have flat := cursor.flat.perm isPerm
    have ofMember : ∀ {name text : JsString}, (name, .string text) ∈ cursor.record →
        textProperty record name = some text :=
      fun member => textProperty_of_mem flat.distinct (isPerm.mem_iff.mpr member)
    simp only [bind, Option.bind_eq_some_iff]
    refine ⟨recordText record, isRaw ▸ payloadOf_append _ _, record,
      readRecord_recordText flat, ?_⟩
    have four : record.length = 4 := isPerm.length_eq
    rw [if_neg (not_not.mpr four)]
    simp only [Option.bind_eq_some_iff]
    refine ⟨cursor.namespaceId, ofMember (by simp [TrashCursor.record]),
      cursor.deletedAtKey, ofMember (by simp [TrashCursor.record]),
      cursor.trashId, ofMember (by simp [TrashCursor.record]),
      cursor.order, ofMember (by simp [TrashCursor.record]), ?_⟩
    have accepted : ¬(cursor.valid = false ∨ cursor.namespaceId ≠ namespaceId) := by
      simp only [not_or, not_not, Bool.not_eq_false]
      exact ⟨valid, isNamespace⟩
    rw [if_neg accepted,
      if_neg (not_not.mpr (encodeTrashRecord_eq_ok.mpr ⟨valid, isRaw⟩))]

/-- The cursors of the trash and of a file's snapshots: a reader takes the properties of a
position in every order, and writes them again in that order to compare. So a text is taken as
a position exactly where it is the text of the position's properties in some order, and the
position belongs to the namespace, and the file, that the reader asks for. -/
theorem cursors_have_one_text_for_each_order (toLowerCase : JsString → JsString) :
    (∀ raw namespaceId rootNodeId cursor,
      decodeSnapshotListCursor toLowerCase raw namespaceId rootNodeId = .ok cursor ↔
        cursor.valid = true ∧ cursor.namespaceId = namespaceId ∧
          toLowerCase cursor.rootNodeId = toLowerCase rootNodeId ∧
          ∃ record : Record, record.Perm cursor.record ∧
            raw = snapshotListStart ++ recordText record) ∧
    ∀ raw namespaceId cursor, decodeTrashCursor raw namespaceId = .ok cursor ↔
      cursor.valid = true ∧ cursor.namespaceId = namespaceId ∧
        ∃ record : Record, record.Perm cursor.record ∧ raw = trashStart ++ recordText record := by
  constructor
  · exact fun _ _ _ _ => decodeSnapshotListCursor_eq_ok
  · exact fun _ _ _ => decodeTrashCursor_eq_ok

end Storix.Cursors
