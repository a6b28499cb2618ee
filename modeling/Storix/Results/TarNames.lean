import Storix.Results.TarReader
import Storix.Vfs.ExtractEntryPlan
import Mathlib.Algebra.Order.BigOperators.Group.List
import Mathlib.Algebra.Order.Ring.Nat
import Mathlib.Data.List.Find

/-! # Names in tar archives

A tar archive carries the name of an entry in the name field of its header, split over the
prefix and the name field, in a GNU `L` record or in a PAX `path` record. The reader decodes
each piece on its own, and the decoder drops a byte order mark in front of a piece. It decodes
the fields of every header, also of one whose name stands in a record: an entry comes back
under its name unless a piece begins with U+FEFF or such fields are no UTF-8. -/

namespace Storix

open Foundation JsString

/-! ## PAX records -/

/-- A well-formed record `len key=value\n`: the length in front counts the whole record. -/
structure PaxRecord where
  lengthText : List UInt8
  key : JsString
  value : JsString
  keyPaired : hasLoneSurrogate key = false
  valuePaired : hasLoneSurrogate value = false
  keyPlain : 0x3d ∉ key
  isLength : isPaxLength lengthText = true
  length : ofDigits 10 lengthText =
    lengthText.length + 1 + byteLength key + 1 + byteLength value + 1

namespace PaxRecord

def text (record : PaxRecord) : JsString := record.key ++ 0x3d :: record.value

def bytes (record : PaxRecord) : List UInt8 :=
  record.lengthText ++ 0x20 :: (utf8 record.text ++ [0x0a])

theorem utf8_text (record : PaxRecord) :
    utf8 record.text = utf8 record.key ++ 0x3d :: utf8 record.value := by
  rw [text, utf8_append (by decide), utf8_cons_ascii (by decide)]
  rfl

theorem text_paired (record : PaxRecord) : hasLoneSurrogate record.text = false := by
  rw [text, hasLoneSurrogate_append (by decide) (by decide), record.keyPaired, record.valuePaired]
  rfl

theorem bytes_length (record : PaxRecord) :
    record.bytes.length = ofDigits 10 record.lengthText := by
  rw [record.length, bytes, utf8_text]
  simp only [List.length_append, List.length_cons, List.length_nil, byteLength]
  omega

end PaxRecord

theorem digit_of_isPaxLength {text : List UInt8} (isLength : isPaxLength text = true) {byte : UInt8}
    (member : byte ∈ text) : byte ≠ 0x20 ∧ byte ≠ 0x0a := by
  unfold isPaxLength isNumeral at isLength
  simp only [Bool.and_eq_true, List.all_eq_true, decide_eq_true_eq] at isLength
  have digit := (isLength.1.2 byte member).1
  constructor
  · rintro rfl
    exact absurd digit (by decide)
  · rintro rfl
    exact absurd digit (by decide)

/-- A mark is dropped from the key if it is in front of it, and never from the value. -/
theorem dropMark_record (key value : JsString) :
    dropMark (key ++ 0x3d :: value) = dropMark key ++ 0x3d :: value := by
  unfold dropMark
  cases key with
  | nil => rfl
  | cons first rest =>
      by_cases mark : first = 0xfeff
      · simp [mark]
      · simp [mark]

theorem dropMark_subset (text : JsString) : ∀ unit ∈ dropMark text, unit ∈ text := by
  intro unit member
  unfold dropMark at member
  split at member
  · exact List.mem_of_mem_tail member
  · exact member

theorem split_record {key : JsString} (keyPlain : 0x3d ∉ key) (value : JsString) :
    (key ++ 0x3d :: value).takeWhile (· ≠ 0x3d) = key ∧
      ((key ++ 0x3d :: value).dropWhile (· ≠ 0x3d)).drop 1 = value := by
  have plain : ∀ unit ∈ key, decide (unit ≠ 0x3d) = true := by
    intro unit member
    exact decide_eq_true fun same => keyPlain (same ▸ member)
  constructor
  · rw [List.takeWhile_append_of_pos plain]
    simp
  · rw [List.dropWhile_append_of_pos plain]
    simp

/-- A well-formed record in front of a body is read, but for a mark in front of its key. -/
theorem paxRecord_bytes (record : PaxRecord) (rest : List UInt8) (entryName : JsString) :
    paxRecord (record.bytes ++ rest) entryName =
      .ok (dropMark record.key, record.value, rest) := by
  have body : record.bytes ++ rest =
      record.lengthText ++ 0x20 :: (utf8 record.text ++ 0x0a :: rest) := by
    simp [PaxRecord.bytes]
  have hasSpace : (record.bytes ++ rest).contains 0x20 = true := by
    rw [body]
    simp
  have plain : ∀ byte ∈ record.lengthText, decide (byte ≠ 0x20) = true := fun byte member =>
    decide_eq_true (digit_of_isPaxLength record.isLength member).1
  have lengthText : (record.bytes ++ rest).takeWhile (· ≠ 0x20) = record.lengthText := by
    rw [body, List.takeWhile_append_of_pos plain]
    simp
  have lengthOf := record.bytes_length
  have last : record.bytes.length =
      record.lengthText.length + 1 + (utf8 record.text).length + 1 := by
    simp [PaxRecord.bytes]
    omega
  have newline : (record.bytes ++ rest)[record.bytes.length - 1]? = some 0x0a := by
    rw [last, body, List.getElem?_append_right (by omega)]
    have place : record.lengthText.length + 1 + (utf8 record.text).length + 1 - 1 -
        record.lengthText.length = (utf8 record.text).length + 1 := by omega
    rw [place, List.getElem?_cons_succ, List.getElem?_append_right (Nat.le_refl _)]
    simp
  have middle : ((record.bytes ++ rest).take (record.bytes.length - 1)).drop
      (record.lengthText.length + 1) = utf8 record.text := by
    have split : record.bytes ++ rest =
        (record.lengthText ++ [0x20]) ++ (utf8 record.text ++ 0x0a :: rest) := by
      rw [body]
      simp
    have front : record.lengthText.length + 1 = (record.lengthText ++ [(0x20 : UInt8)]).length := by
      simp
    have upTo : record.bytes.length - 1 - (record.lengthText ++ [(0x20 : UInt8)]).length =
        (utf8 record.text).length := by
      rw [last, ← front]
      omega
    rw [List.drop_take, split, front, List.drop_left, upTo, List.take_left]
  unfold paxRecord
  rw [if_pos hasSpace, lengthText]
  dsimp only
  rw [if_neg (by simp [record.isLength]), ← lengthOf, newline,
    if_neg (by simp), middle, decodeUtf8, decodeFatal_utf8 record.text_paired, PaxRecord.text,
    dropMark_record]
  have keyPlain : 0x3d ∉ dropMark record.key := fun member =>
    record.keyPlain (dropMark_subset _ _ member)
  rcases split_record keyPlain record.value with ⟨isKey, isValue⟩
  simp only [bind, Except.bind, isKey, isValue]
  rw [if_neg (by simp), List.drop_left]

theorem takeWhile_blank {body : List UInt8} (hasSpace : 0x20 ∈ body) :
    ∃ more, body = body.takeWhile (· ≠ 0x20) ++ 0x20 :: more := by
  rcases List.eq_append_cons_of_mem hasSpace with ⟨front, more, rfl, absent⟩
  have plain : ∀ byte ∈ front, decide (byte ≠ 0x20) = true := fun byte member =>
    decide_eq_true fun same => absent (same ▸ member)
  refine ⟨more, ?_⟩
  rw [List.takeWhile_append_of_pos plain]
  simp

theorem paxRecord_checks {body rest : List UInt8} {entryName key value : JsString}
    (result : paxRecord body entryName = .ok (key, value, rest)) :
    ∃ lengthText more record, body = lengthText ++ 0x20 :: more ∧
      isPaxLength lengthText = true ∧ ofDigits 10 lengthText ≤ body.length ∧
      body[ofDigits 10 lengthText - 1]? = some 0x0a ∧
      decodeFatal ((body.take (ofDigits 10 lengthText - 1)).drop (lengthText.length + 1)) =
        some record ∧
      0x3d ∈ record ∧ rest = body.drop (ofDigits 10 lengthText) := by
  unfold paxRecord at result
  dsimp only at result
  by_cases hasSpace : body.contains 0x20 = true
  · rw [if_pos hasSpace] at result
    rcases takeWhile_blank (List.contains_iff_mem.mp hasSpace) with ⟨more, isBody⟩
    generalize body.takeWhile (· ≠ 0x20) = lengthText at result isBody
    split at result
    case isTrue => cases result
    case isFalse isLength =>
      split at result
      case isTrue => cases result
      case isFalse ends =>
        rw [not_or, Nat.not_lt, not_not] at ends
        cases decoded : decodeFatal ((body.take (ofDigits 10 lengthText - 1)).drop
            (lengthText.length + 1)) with
        | none => simp [decodeUtf8, decoded, bind, Except.bind] at result
        | some record =>
            simp only [decodeUtf8, decoded, bind, Except.bind] at result
            split at result
            case isTrue => cases result
            case isFalse hasEquals =>
              rw [Bool.not_eq_false, List.contains_iff_mem] at hasEquals
              cases result
              exact ⟨lengthText, more, record, isBody, by simpa using isLength, ends.1, ends.2,
                decoded, hasEquals, rfl⟩
  · rw [if_neg hasSpace] at result
    cases result

theorem paxRecord_sound {body rest : List UInt8} {entryName key value : JsString}
    (result : paxRecord body entryName = .ok (key, value, rest)) :
    ∃ record : PaxRecord, body = record.bytes ++ rest := by
  rcases paxRecord_checks result with
    ⟨lengthText, more, record, isBody, isLength, inside, newline, decoded, hasEquals, rfl⟩
  generalize isCount : ofDigits 10 lengthText = length at *
  -- The newline is behind the blank, as digits and a blank are no newline.
  have behind : lengthText.length + 2 ≤ length := by
    rw [isBody] at newline
    by_contra small
    by_cases atBlank : length - 1 = lengthText.length
    · rw [atBlank, List.getElem?_append_right (Nat.le_refl _)] at newline
      simp at newline
    · rw [List.getElem?_append_left (by omega)] at newline
      exact (digit_of_isPaxLength isLength (List.mem_of_getElem? newline)).2 rfl
  have front : body.take (lengthText.length + 1) = lengthText ++ [0x20] := by
    rw [isBody, List.take_append]
    simp
  have last : body.drop (length - 1) = 0x0a :: body.drop length := by
    rw [List.getElem?_eq_some_iff] at newline
    rcases newline with ⟨bound, isNewline⟩
    rw [List.drop_eq_getElem_cons bound, isNewline, Nat.sub_add_cancel (by omega)]
  rcases decodeFatal_sound decoded with ⟨original, paired, isBytes, rfl⟩
  rcases List.eq_append_cons_of_mem (dropMark_subset _ _ hasEquals) with
    ⟨key, value, rfl, keyPlain⟩
  have whole : body = lengthText ++ 0x20 :: (utf8 (key ++ 0x3d :: value) ++ [0x0a]) ++
      body.drop length := by
    calc body = body.take (length - 1) ++ body.drop (length - 1) :=
          (List.take_append_drop _ _).symm
      _ = (body.take (length - 1)).take (lengthText.length + 1) ++
            (body.take (length - 1)).drop (lengthText.length + 1) ++ body.drop (length - 1) :=
          congrArg (· ++ body.drop (length - 1)) (List.take_append_drop _ _).symm
      _ = _ := by
          rw [List.take_take, Nat.min_eq_left (by omega), front, ← isBytes, last]
          simp
  have count := congrArg List.length whole
  rw [hasLoneSurrogate_append (by decide) (by decide), Bool.or_eq_false_iff] at paired
  have bytesOf : utf8 (key ++ 0x3d :: value) = utf8 key ++ 0x3d :: utf8 value := by
    rw [utf8_append (by decide), utf8_cons_ascii (by decide)]
    rfl
  refine ⟨⟨lengthText, key, value, paired.1, paired.2, keyPlain, isLength, ?_⟩, whole⟩
  rw [bytesOf] at count
  simp only [List.length_append, List.length_cons, List.length_drop, List.length_nil] at count
  simp only [byteLength]
  omega

/-! ## Sequences of records -/

def paxBody (records : List PaxRecord) : List UInt8 := records.flatMap PaxRecord.bytes

def lastValue (records : List PaxRecord) (key : JsString) : Option JsString :=
  (records.reverse.find? fun record => record.key == key).map PaxRecord.value

def assignAll (records : List PaxRecord) (start : OrderedMap JsString JsString) :
    OrderedMap JsString JsString :=
  records.foldl (fun parsed record => assign parsed (dropMark record.key) record.value) start

theorem PaxRecord.bytes_ne_nil (record : PaxRecord) : record.bytes ≠ [] := by
  simp [PaxRecord.bytes]

theorem parsePaxFrom_body (entryName : JsString) (records : List PaxRecord) {turns : Nat}
    (enough : (paxBody records).length ≤ turns) (start : OrderedMap JsString JsString) :
    parsePaxFrom entryName turns start (paxBody records) = .ok (assignAll records start) := by
  induction records generalizing turns start with
  | nil => cases turns <;> rfl
  | cons record rest induction =>
      have isBody : paxBody (record :: rest) = record.bytes ++ paxBody rest := List.flatMap_cons
      have positive := List.length_pos_of_ne_nil record.bytes_ne_nil
      rw [isBody, List.length_append] at enough
      cases turns with
      | zero => omega
      | succ turns =>
          rw [isBody, parsePaxFrom, if_neg (by simp [PaxRecord.bytes]), paxRecord_bytes]
          exact induction (by omega) _

theorem parsePaxFrom_sound {entryName : JsString} {turns : Nat} {body : List UInt8}
    {start parsed : OrderedMap JsString JsString} (enough : body.length ≤ turns)
    (result : parsePaxFrom entryName turns start body = .ok parsed) :
    ∃ records, body = paxBody records := by
  induction turns generalizing body start with
  | zero => exact ⟨[], List.eq_nil_of_length_eq_zero (by omega)⟩
  | succ turns induction =>
      rw [parsePaxFrom] at result
      split at result
      case isTrue isEmpty => exact ⟨[], List.isEmpty_iff.mp isEmpty⟩
      case isFalse notEmpty =>
        cases first : paxRecord body entryName with
        | error error => simp [first, bind, Except.bind] at result
        | ok parts =>
            rcases parts with ⟨key, value, rest⟩
            rcases paxRecord_sound first with ⟨record, rfl⟩
            have positive := List.length_pos_of_ne_nil record.bytes_ne_nil
            rw [List.length_append] at enough
            rw [first] at result
            rcases induction (by omega) result with ⟨records, rfl⟩
            exact ⟨record :: records, List.flatMap_cons.symm⟩

def PlainKey (key : JsString) : Prop := key ≠ protoKey ∧ key.head? ≠ some 0xfeff

theorem dropMark_of_head {text : JsString} (notMark : text.head? ≠ some 0xfeff) :
    dropMark text = text := if_neg notMark

theorem get_assign (records : OrderedMap JsString JsString) (key value other : JsString) :
    (assign records key value).get other =
      if key = other ∧ other ≠ protoKey then some value else records.get other := by
  unfold assign
  by_cases isProto : key = protoKey
  · rw [if_pos isProto, if_neg (by rintro ⟨rfl, different⟩; exact different isProto)]
  · rw [if_neg isProto, OrderedMap.get_set]
    by_cases same : other = key
    · rw [if_pos same, if_pos ⟨same.symm, same ▸ isProto⟩]
    · rw [if_neg same, if_neg (fun both => same both.1.symm)]

theorem get_assignAll (records : List PaxRecord) (key : JsString) :
    (assignAll records .empty).get key =
      (records.reverse.find? fun record =>
        decide (dropMark record.key = key ∧ key ≠ protoKey)).map PaxRecord.value := by
  induction records using List.reverseRecOn with
  | nil => rfl
  | append_singleton records record induction =>
      have snoc : assignAll (records ++ [record]) .empty =
          assign (assignAll records .empty) (dropMark record.key) record.value := by
        simp [assignAll]
      rw [snoc, get_assign, List.reverse_append, List.reverse_singleton, List.singleton_append,
        List.find?_cons, induction]
      by_cases kept : dropMark record.key = key ∧ key ≠ protoKey
      · rw [if_pos kept, decide_eq_true kept]
        rfl
      · rw [if_neg kept, decide_eq_false kept]

theorem exists_of_get_assignAll {records : List PaxRecord} {key value : JsString}
    (found : (assignAll records .empty).get key = some value) :
    ∃ record ∈ records, dropMark record.key = key ∧ key ≠ protoKey := by
  rw [get_assignAll, Option.map_eq_some_iff] at found
  rcases found with ⟨record, isRecord, -⟩
  have kept := List.find?_some isRecord
  have member := List.mem_of_find?_eq_some isRecord
  exact ⟨record, List.mem_reverse.mp member, of_decide_eq_true kept⟩

theorem lastValue_of_mem {records : List PaxRecord} {record : PaxRecord}
    (member : record ∈ records) : ∃ value, lastValue records record.key = some value := by
  cases found : records.reverse.find? fun other => other.key == record.key with
  | none =>
      rw [List.find?_eq_none] at found
      exact absurd (beq_self_eq_true _) (found record (List.mem_reverse.mpr member))
  | some other => exact ⟨other.value, by rw [lastValue, found]; rfl⟩

/-- If the reader keeps all records, it keeps the keys as they are: a marked key needs another
key with one mark more, and there is a longest key. -/
theorem plainKey_of_get {records : List PaxRecord}
    (same : ∀ key, (assignAll records .empty).get key = lastValue records key) :
    ∀ record ∈ records, PlainKey record.key := by
  have given : ∀ record ∈ records, ∃ other ∈ records, dropMark other.key = record.key ∧
      record.key ≠ protoKey := by
    intro record member
    rcases lastValue_of_mem member with ⟨value, isLast⟩
    exact exists_of_get_assignAll ((same record.key).trans isLast)
  have longer : ∀ record ∈ records, record.key.head? = some 0xfeff → ∀ length,
      ∃ other ∈ records, other.key.head? = some 0xfeff ∧ length ≤ other.key.length := by
    intro record member mark length
    induction length with
    | zero => exact ⟨record, member, mark, Nat.zero_le _⟩
    | succ length induction =>
        rcases induction with ⟨other, inside, marked, long⟩
        rcases given other inside with ⟨third, inside', dropped, -⟩
        by_cases thirdMarked : third.key.head? = some 0xfeff
        · rw [dropMark, if_pos thirdMarked] at dropped
          refine ⟨third, inside', thirdMarked, ?_⟩
          rw [← dropped, List.length_tail] at long
          have nonempty : third.key.length ≠ 0 := by
            intro isZero
            rw [List.eq_nil_of_length_eq_zero isZero] at thirdMarked
            cases thirdMarked
          omega
        · rw [dropMark_of_head thirdMarked] at dropped
          exact absurd (dropped ▸ marked) thirdMarked
  intro record member
  constructor
  · rcases given record member with ⟨-, -, -, notProto⟩
    exact notProto
  · intro mark
    rcases longer record member mark ((records.map fun other => other.key.length).sum + 1) with
      ⟨other, inside, -, long⟩
    have bound : other.key.length ≤ (records.map fun other => other.key.length).sum :=
      List.le_sum_of_mem (List.mem_map_of_mem inside)
    omega

theorem get_of_plainKey {records : List PaxRecord}
    (plain : ∀ record ∈ records, PlainKey record.key) (key : JsString) :
    (assignAll records .empty).get key = lastValue records key := by
  rw [get_assignAll, lastValue]
  congr 1
  apply List.find?_congr
  intro record member
  rcases plain record (List.mem_reverse.mp member) with ⟨notProto, notMark⟩
  rw [dropMark_of_head notMark]
  by_cases same : record.key = key
  · simp [same, same ▸ notProto]
  · simp [same]

/-! ## Headers -/

/-- A header block of a type and a size. Its name field may hold anything. -/
structure IsTarHeader (block : List UInt8) (type : UInt8) (size : Nat) : Prop where
  length : block.length = tarBlock
  magic : hasMagic block = true
  checksum : verifyChecksum block = .ok ()
  type : typeFlag block = type
  size : parseNumeric block 124 12 = .ok size

def HoldsBytes (content bytes : List UInt8) : Prop :=
  content = bytes ∨ ∃ fill, content = bytes ++ 0 :: fill

theorem takeWhile_of_holds {content bytes : List UInt8} (holds : HoldsBytes content bytes)
    (noZero : 0 ∉ bytes) : content.takeWhile (· ≠ 0) = bytes := by
  have plain : ∀ byte ∈ bytes, decide (byte ≠ 0) = true := fun byte member =>
    decide_eq_true fun same => noZero (same ▸ member)
  rcases holds with rfl | ⟨fill, rfl⟩
  · rw [← List.append_nil content, List.takeWhile_append_of_pos plain]
    simp
  · rw [List.takeWhile_append_of_pos plain]
    simp

theorem isZeroBlock_of_hasMagic {block : List UInt8} (magic : hasMagic block = true) :
    isZeroBlock block = false := by
  rw [Bool.eq_false_iff]
  intro zeros
  rw [isZeroBlock, List.all_eq_true] at zeros
  have isField : field block 257 5 = ustarMagic := by simpa [hasMagic] using magic
  have member : (0x75 : UInt8) ∈ field block 257 5 := by
    rw [isField]
    decide
  have inBlock : (0x75 : UInt8) ∈ block := List.mem_of_mem_drop (List.mem_of_mem_take member)
  exact absurd (zeros _ inBlock) (by decide)

theorem interpretHeader_of_header {block : List UInt8} {type : UInt8} {size : Nat} {name : JsString}
    (header : IsTarHeader block type size) (named : headerName block = .ok name)
    (maxHeaderBytes : Nat) {state : TarState} (before : state.zeroBlocks = 0) :
    interpretHeader maxHeaderBytes state block =
      match extensionOf type with
      | some extension =>
          if maxHeaderBytes < size then .error (entryError .extensionLimit name)
          else
            .ok (.extension { state with headersSeen := state.headersSeen + 1 } extension name size)
      | none => entryAction { state with headersSeen := state.headersSeen + 1 } type name size := by
  unfold interpretHeader
  rw [isZeroBlock_of_hasMagic header.magic, if_neg (by simp), if_neg (by omega),
    if_neg (by simp [header.magic])]
  rw [header.checksum, header.size, named, header.type]
  cases extensionOf type with
  | none => rfl
  | some extension => rfl

theorem interpretHeader_of_unnamed {block : List UInt8} {type : UInt8} {size : Nat}
    {error : TarError}
    (header : IsTarHeader block type size) (unnamed : headerName block = .error error)
    (maxHeaderBytes : Nat) {state : TarState} (before : state.zeroBlocks = 0) :
    interpretHeader maxHeaderBytes state block = .error error := by
  unfold interpretHeader
  rw [isZeroBlock_of_hasMagic header.magic, if_neg (by simp), if_neg (by omega),
    if_neg (by simp [header.magic])]
  rw [header.checksum, header.size, unnamed]
  rfl

def IsUtf8 (bytes : List UInt8) : Prop :=
  ∃ text, hasLoneSurrogate text = false ∧ utf8 text = bytes

/-- The name field of a header, and the prefix field of a POSIX one, are UTF-8. -/
def NamedInUtf8 (block : List UInt8) : Prop :=
  IsUtf8 (cBytes block 0 100) ∧ (block.getD 262 0 = 0 → IsUtf8 (cBytes block 345 155))

theorem decodeUtf8_cases (bytes : List UInt8) (what : TarText) (entryName : Option JsString) :
    (IsUtf8 bytes ∧ ∃ text, decodeUtf8 bytes what entryName = .ok text) ∨
      ¬IsUtf8 bytes ∧ ∃ error, decodeUtf8 bytes what entryName = .error error := by
  cases decoded : decodeFatal bytes with
  | some text =>
      rcases decodeFatal_sound decoded with ⟨original, paired, isBytes, -⟩
      exact .inl ⟨⟨original, paired, isBytes⟩, text, by rw [decodeUtf8, decoded]⟩
  | none =>
      apply Or.inr
      constructor
      · rintro ⟨text, paired, rfl⟩
        rw [decodeFatal_utf8 paired] at decoded
        cases decoded
      · exact ⟨_, by rw [decodeUtf8, decoded]⟩

theorem headerName_cases (block : List UInt8) :
    (NamedInUtf8 block ∧ ∃ name, headerName block = .ok name) ∨
      ¬NamedInUtf8 block ∧ ∃ error, headerName block = .error error := by
  rcases decodeUtf8_cases (cBytes block 0 100) .entryName none with
    ⟨isName, rawName, decoded⟩ | ⟨notName, error, failed⟩
  · by_cases posix : block.getD 262 0 = 0
    · rcases decodeUtf8_cases (cBytes block 345 155) .entryPrefix none with
        ⟨isPrefix, front, decodedPrefix⟩ | ⟨notPrefix, error, failed⟩
      · refine .inl ⟨⟨isName, fun _ => isPrefix⟩,
          if front.isEmpty then rawName else front ++ slash :: rawName, ?_⟩
        simp only [headerName, decoded, if_pos posix, decodedPrefix, bind, Except.bind]
      · refine .inr ⟨fun named => notPrefix (named.2 posix), error, ?_⟩
        simp only [headerName, decoded, if_pos posix, failed, bind, Except.bind]
    · refine .inl ⟨⟨isName, fun isPosix => absurd isPosix posix⟩, rawName, ?_⟩
      simp only [headerName, decoded, if_neg posix, bind, Except.bind, List.isEmpty_nil, if_true]
  · refine .inr ⟨fun named => notName named.1, error, ?_⟩
    simp only [headerName, failed, bind, Except.bind]

theorem NamedInUtf8.named {block : List UInt8} (inUtf8 : NamedInUtf8 block) :
    ∃ name, headerName block = .ok name := by
  rcases headerName_cases block with ⟨-, named⟩ | ⟨notUtf8, -⟩
  · exact named
  · exact absurd inUtf8 notUtf8

theorem headerName_of_not_utf8 {block : List UInt8} (notUtf8 : ¬NamedInUtf8 block) :
    ∃ error, headerName block = .error error := by
  rcases headerName_cases block with ⟨inUtf8, -⟩ | ⟨-, failed⟩
  · exact absurd inUtf8 notUtf8
  · exact failed

/-- How an archive carries the name of an entry. A record has an extension header, and the
entry still has its own header. -/
inductive TarCarrier
  | nameField
  | split (front last : JsString)
  | longName (extension block : List UInt8)
  | paxPath (extension block : List UInt8)

def typeFlagOf : VfsNodeType → UInt8
  | .file => 0x30
  | .directory => 0x35

/-- The header blocks of an entry that carry its name in that way. -/
inductive CarriedBy (maxHeaderBytes : Nat) (name : JsString) (type : UInt8) (size : Nat) :
    TarCarrier → List UInt8 → Prop
  | nameField {block : List UInt8} (header : IsTarHeader block type size)
      (holds : HoldsBytes (field block 0 100) (utf8 name))
      (noPrefix : block.getD 262 0 = 0 → HoldsBytes (field block 345 155) []) :
      CarriedBy maxHeaderBytes name type size .nameField block
  | split {block : List UInt8} {front last : JsString}
      (header : IsTarHeader block type size) (isName : name = front ++ slash :: last)
      (posix : block.getD 262 0 = 0)
      (holdsFront : HoldsBytes (field block 345 155) (utf8 front))
      (holdsLast : HoldsBytes (field block 0 100) (utf8 last)) :
      CarriedBy maxHeaderBytes name type size (.split front last) block
  | longName {extension body block : List UInt8} {length : Nat}
      (extensionHeader : IsTarHeader extension 0x4c length)
      (fits : length ≤ maxHeaderBytes) (bodyLength : body.length = length + tarPadding length)
      (holds : body.take length = utf8 name ∨ body.take length = utf8 name ++ [0])
      (header : IsTarHeader block type size) :
      CarriedBy maxHeaderBytes name type size (.longName extension block)
        (extension ++ (body ++ block))
  | paxPath {extension body block : List UInt8} {length : Nat} (record : PaxRecord)
      (extensionHeader : IsTarHeader extension 0x78 length)
      (fits : length ≤ maxHeaderBytes) (bodyLength : body.length = length + tarPadding length)
      (isPath : record.key = pathKey) (isName : record.value = name)
      (holds : body.take length = record.bytes)
      (header : IsTarHeader block type size) :
      CarriedBy maxHeaderBytes name type size (.paxPath extension block)
        (extension ++ (body ++ block))

namespace TarCarrier

/-- No piece of the name that is decoded on its own begins with a byte order mark. -/
def Unmarked (carrier : TarCarrier) (name : JsString) : Prop :=
  match carrier with
  | nameField => name.head? ≠ some 0xfeff
  | split front last => front.head? ≠ some 0xfeff ∧ last.head? ≠ some 0xfeff
  | longName _ _ => name.head? ≠ some 0xfeff
  | paxPath _ _ => True

def Readable : TarCarrier → Prop
  | nameField => True
  | split _ _ => True
  | longName extension block => NamedInUtf8 extension ∧ NamedInUtf8 block
  | paxPath extension block => NamedInUtf8 extension ∧ NamedInUtf8 block

def Plain (carrier : TarCarrier) (name : JsString) : Prop :=
  carrier.Unmarked name ∧ carrier.Readable

end TarCarrier

/-! ## Valid names -/

theorem zero_ne_ofNat {value : Nat} (positive : 0 < value) (small : value < 256) :
    (0 : UInt8) ≠ UInt8.ofNat value := by
  intro same
  have values := congrArg UInt8.toNat same
  rw [UInt8.toNat_ofNat_of_lt' small] at values
  simp at values
  omega

theorem zero_not_mem_utf8 {text : JsString} (noZero : 0 ∉ text) : 0 ∉ utf8 text := by
  have unitBytes : ∀ unit : UInt16, unit ≠ 0 → 0 ∉ encodeUnit unit := by
    intro unit notZero member
    have bound := unit.toNat_lt
    have positive : unit.toNat ≠ 0 := fun isZero => notZero (UInt16.toNat_inj.mp isZero)
    unfold encodeUnit at member
    dsimp only at member
    split at member
    · exact zero_ne_ofNat (by omega) (by omega) (List.mem_singleton.mp member)
    · split at member
      · simp only [List.mem_cons, List.not_mem_nil, or_false] at member
        rcases member with same | same
        · exact zero_ne_ofNat (by omega) (by omega) same
        · exact zero_ne_ofNat (by omega) (by omega) same
      · split at member
        · revert member
          decide
        · simp only [List.mem_cons, List.not_mem_nil, or_false] at member
          rcases member with same | same | same
          · exact zero_ne_ofNat (by omega) (by omega) same
          · exact zero_ne_ofNat (by omega) (by omega) same
          · exact zero_ne_ofNat (by omega) (by omega) same
  have pairBytes : ∀ high low : UInt16, isHighSurrogate high = true → isLowSurrogate low = true →
      0 ∉ encodePair high low := by
    intro high low isHigh isLow member
    rw [isHighSurrogate_iff] at isHigh
    rw [isLowSurrogate_iff] at isLow
    unfold encodePair at member
    simp only [List.mem_cons, List.not_mem_nil, or_false] at member
    rcases member with same | same | same | same
    · exact zero_ne_ofNat (by omega) (by omega) same
    · exact zero_ne_ofNat (by omega) (by omega) same
    · exact zero_ne_ofNat (by omega) (by omega) same
    · exact zero_ne_ofNat (by omega) (by omega) same
  fun_induction utf8 text with
  | case1 => simp
  | case2 unit => exact unitBytes unit fun isZero => noZero (by simp [isZero])
  | case3 high low rest pair induction =>
      rw [Bool.and_eq_true] at pair
      rw [List.mem_append, not_or]
      exact ⟨pairBytes high low pair.1 pair.2, induction fun member => noZero (by simp [member])⟩
  | case4 high low rest single induction =>
      rw [List.mem_append, not_or]
      exact ⟨unitBytes high fun isZero => noZero (by simp [isZero]),
        induction fun member => noZero (List.mem_cons_of_mem _ member)⟩

theorem validName_facts {host : Host} {name : JsString}
    (valid : validArchiveEntryName host name = true) :
    hasLoneSurrogate name = false ∧ 0 ∉ name ∧ name.getLast? ≠ some slash := by
  unfold validArchiveEntryName at valid
  simp only [Bool.not_eq_true', Bool.or_eq_false_iff] at valid
  rcases valid with ⟨⟨⟨⟨⟨-, controls⟩, paired⟩, -⟩, -⟩, parts⟩
  refine ⟨paired, ?_, ?_⟩
  · intro member
    rw [List.any_eq_false] at controls
    exact controls 0 member (by decide)
  · intro ends
    rw [List.any_eq_false] at parts
    rcases List.getLast?_eq_some_iff.mp ends with ⟨front, rfl⟩
    have isSplit : split (front ++ [slash]) = split front ++ [[]] := by
      unfold split
      rw [List.splitOn_append_cons_of_beq _ _ (by simp)]
      rfl
    have empty : ([] : JsString) ∈ split (front ++ [slash]) := by
      rw [isSplit]
      simp
    exact parts [] empty (by simp)

/-! ## What the reader decodes -/

def TarCarrier.decoded (carrier : TarCarrier) (name : JsString) : JsString :=
  match carrier with
  | .nameField => dropMark name
  | .split front last =>
      if (dropMark front).isEmpty then dropMark last else dropMark front ++ slash :: dropMark last
  | .longName _ _ => dropMark name
  | .paxPath _ _ => name

theorem dropMark_length_le (text : JsString) : (dropMark text).length ≤ text.length := by
  unfold dropMark
  split
  · simp
  · exact Nat.le_refl _

theorem dropMark_length_lt {text : JsString} (mark : text.head? = some 0xfeff) :
    (dropMark text).length < text.length := by
  cases text with
  | nil => cases mark
  | cons first rest =>
      rw [dropMark, if_pos mark]
      exact Nat.lt_succ_self _

theorem dropMark_eq_iff (text : JsString) : dropMark text = text ↔ text.head? ≠ some 0xfeff := by
  constructor
  · intro same mark
    have shorter := dropMark_length_lt mark
    rw [same] at shorter
    exact Nat.lt_irrefl _ shorter
  · exact dropMark_of_head

theorem TarCarrier.decoded_eq_iff {carrier : TarCarrier} {name : JsString}
    (isSplit : ∀ front last, carrier = .split front last →
      name = front ++ slash :: last ∧ front ≠ []) :
    carrier.decoded name = name ↔ carrier.Unmarked name := by
  cases carrier with
  | nameField => exact dropMark_eq_iff name
  | longName extension block => exact dropMark_eq_iff name
  | paxPath extension block => exact ⟨fun _ => trivial, fun _ => rfl⟩
  | split front last =>
      rcases isSplit front last rfl with ⟨isName, nonempty⟩
      simp only [decoded, Unmarked]
      constructor
      · intro same
        have lengths := congrArg List.length same
        have frontLength := dropMark_length_le front
        have lastLength := dropMark_length_le last
        rw [isName, List.length_append, List.length_cons] at lengths
        have atMost : (dropMark front).length + (dropMark last).length + 1 =
            front.length + last.length + 1 := by
          split at lengths
          · omega
          · rw [List.length_append, List.length_cons] at lengths
            omega
        constructor
        · intro mark
          have shorter := dropMark_length_lt mark
          omega
        · intro mark
          have shorter := dropMark_length_lt mark
          omega
      · rintro ⟨frontPlain, lastPlain⟩
        rw [dropMark_of_head frontPlain, dropMark_of_head lastPlain, isName,
          if_neg (by simpa using nonempty)]

theorem decodeUtf8_utf8 {text : JsString} (paired : hasLoneSurrogate text = false)
    (what : TarText) (entryName : Option JsString) :
    decodeUtf8 (utf8 text) what entryName = .ok (dropMark text) := by
  rw [decodeUtf8, decodeFatal_utf8 paired]

theorem headerName_nameField {block : List UInt8} {name : JsString}
    (paired : hasLoneSurrogate name = false) (noZero : 0 ∉ name)
    (holds : HoldsBytes (field block 0 100) (utf8 name))
    (noPrefix : block.getD 262 0 = 0 → HoldsBytes (field block 345 155) []) :
    headerName block = .ok (dropMark name) := by
  have isName : cBytes block 0 100 = utf8 name :=
    takeWhile_of_holds holds (zero_not_mem_utf8 noZero)
  simp only [headerName, isName, decodeUtf8_utf8 paired, bind, Except.bind]
  by_cases posix : block.getD 262 0 = 0
  · have isPrefix : cBytes block 345 155 = [] := takeWhile_of_holds (noPrefix posix) (by simp)
    rw [if_pos posix, isPrefix]
    rfl
  · rw [if_neg posix]
    rfl

theorem headerName_split {block : List UInt8} {front last : JsString}
    (frontPaired : hasLoneSurrogate front = false) (lastPaired : hasLoneSurrogate last = false)
    (frontZero : 0 ∉ front) (lastZero : 0 ∉ last) (posix : block.getD 262 0 = 0)
    (holdsFront : HoldsBytes (field block 345 155) (utf8 front))
    (holdsLast : HoldsBytes (field block 0 100) (utf8 last)) :
    headerName block = .ok ((TarCarrier.split front last).decoded (front ++ slash :: last)) := by
  have isLast : cBytes block 0 100 = utf8 last :=
    takeWhile_of_holds holdsLast (zero_not_mem_utf8 lastZero)
  have isFront : cBytes block 345 155 = utf8 front :=
    takeWhile_of_holds holdsFront (zero_not_mem_utf8 frontZero)
  simp only [headerName, isLast, isFront, decodeUtf8_utf8 lastPaired, decodeUtf8_utf8 frontPaired,
    bind, Except.bind, if_pos posix]
  rfl

/-- A state between two entries, with a path that an extension header has set. -/
structure TarState.Ready (state : TarState) (path : Option JsString) : Prop where
  globals : state.globals = ⟨none, none⟩
  pending : state.pending = ⟨path, none⟩
  zeroBlocks : state.zeroBlocks = 0

def TarState.withPath (state : TarState) (path : JsString) : TarState :=
  { state with headersSeen := state.headersSeen + 1, pending := ⟨some path, none⟩ }

theorem TarState.Ready.withPath {state : TarState} {before : Option JsString}
    (ready : state.Ready before) (path : JsString) : (state.withPath path).Ready (some path) :=
  ⟨ready.globals, rfl, ready.zeroBlocks⟩

theorem interpretExtension_longName {state : TarState} (ready : state.Ready none)
    {name : JsString} {body : List UInt8} {length : Nat}
    (paired : hasLoneSurrogate name = false) (noZero : 0 ∉ name)
    (holds : body.take length = utf8 name ∨ body.take length = utf8 name ++ [0])
    (extensionName : JsString) :
    interpretExtension { state with headersSeen := state.headersSeen + 1 } .longName extensionName
      body length = .ok (state.withPath (dropMark name)) := by
  have isField : cBytes body 0 length = utf8 name := by
    apply takeWhile_of_holds _ (zero_not_mem_utf8 noZero)
    rw [field, List.drop_zero]
    rcases holds with same | same
    · exact .inl same
    · exact .inr ⟨[], same⟩
  simp only [interpretExtension, isField, decodeUtf8_utf8 paired, bind, Except.bind, ready.pending,
    TarState.withPath]

theorem interpretExtension_paxPath {state : TarState} (ready : state.Ready none)
    {name : JsString} {body : List UInt8} {length : Nat} (record : PaxRecord)
    (isPath : record.key = pathKey) (isName : record.value = name)
    (holds : body.take length = record.bytes) (extensionName : JsString) :
    interpretExtension { state with headersSeen := state.headersSeen + 1 } .pax extensionName
      body length = .ok (state.withPath name) := by
  have isBody : record.bytes = paxBody [record] := by simp [paxBody]
  have parsed : parsePax (body.take length) extensionName =
      .ok (OrderedMap.empty.set pathKey name) := by
    rw [holds, isBody, parsePax, parsePaxFrom_body _ _ (Nat.le_refl _)]
    simp only [assignAll, List.foldl_cons, List.foldl_nil, isPath, isName]
    rfl
  have notSparse : ((OrderedMap.empty.set pathKey name).keys.any isSparseKey) = false := by
    have keys : (OrderedMap.empty.set pathKey name).keys = [pathKey] := rfl
    rw [keys]
    decide
  have applied : applyPax state.pending (OrderedMap.empty.set pathKey name) extensionName =
      .ok ⟨some name, none⟩ := by
    rw [ready.pending]
    rfl
  simp only [interpretExtension, parsed, bind, Except.bind, notSparse, applied]
  rfl

/-! ## Turns -/

def TarVisit.shown (visit : TarVisit) : List (JsString × VfsNodeType × Nat) :=
  (visit.entry.map fun entry => (entry.name, entry.type, entry.size)).toList

theorem TarResult.entries_cons (visit : TarVisit) (visits : List TarVisit)
    (ending : Option (Except TarError Unit)) :
    TarResult.entries ⟨visit :: visits, ending⟩ =
      visit.shown ++ TarResult.entries ⟨visits, ending⟩ := by
  rw [TarResult.entries, TarVisit.shown]
  cases isEntry : visit.entry <;> simp [TarResult.entries, isEntry]

theorem TarState.Ready.entryAction {state : TarState} {path : Option JsString}
    (ready : state.Ready path) {type : VfsNodeType} {size : Nat}
    (noBody : type = .directory → size = 0) (headerName : JsString) :
    (∃ reason, Storix.entryAction state (typeFlagOf type) headerName size =
        .error (entryError reason (path.getD headerName))) ∧
        (path.getD headerName).getLast? = some slash ∨
      (∃ next, Storix.entryAction state (typeFlagOf type) headerName size =
          .ok (.directory next (path.getD headerName)) ∧ next.Ready none) ∧
        ((path.getD headerName).getLast? = some slash ∨ type = .directory ∧ size = 0) ∨
      type = .file ∧
        ∃ next, Storix.entryAction state (typeFlagOf type) headerName size =
            .ok (.file next (path.getD headerName) size) ∧ next.Ready none := by
  have isReady : TarState.Ready { state with
      pending := ⟨none, none⟩, lastName := path.getD headerName } none :=
    ⟨ready.globals, rfl, ready.zeroBlocks⟩
  have isName : (state.pending.path.or state.globals.path).getD headerName =
      path.getD headerName := by
    rw [ready.globals, ready.pending]
    simp
  have isSize : (state.pending.size.or state.globals.size).getD size = size := by
    rw [ready.globals, ready.pending]
    rfl
  unfold Storix.entryAction
  rw [isName, isSize]
  dsimp only
  cases type with
  | directory =>
      rw [if_pos (.inl rfl), if_neg (by simp [noBody rfl])]
      exact .inr (.inl ⟨⟨_, rfl, isReady⟩, .inr ⟨rfl, noBody rfl⟩⟩)
  | file =>
      by_cases ends : (path.getD headerName).getLast? = some slash
      · rw [if_pos (.inr ⟨rfl, ends⟩)]
        by_cases empty : size = 0
        · rw [if_neg (by simp [empty])]
          exact .inr (.inl ⟨⟨_, rfl, isReady⟩, .inl ends⟩)
        · rw [if_pos empty]
          exact .inl ⟨⟨_, rfl⟩, ends⟩
      · rw [if_neg (by simp [typeFlagOf, ends]), if_neg (by simp [typeFlagOf])]
        exact .inr (.inr ⟨rfl, _, rfl, isReady⟩)

/-- The turn at the header of an entry: it shows the entry under the name that was set, or else
under the name in the header, and goes on after the body. -/
theorem takeTurn_entry {state : TarState} {path : Option JsString} (ready : state.Ready path)
    {type : VfsNodeType} {size : Nat} (noBody : type = .directory → size = 0)
    {block : List UInt8} (header : IsTarHeader block (typeFlagOf type) size)
    {ownName : JsString} (named : headerName block = .ok ownName)
    {reader : ChunkReader UInt8} {body tail : List UInt8}
    (content : reader.content = body ++ tail) (bodyLength : body.length = size + tarPadding size)
    (maxHeaderBytes position pulled : Nat) :
    let turned := takeTurn maxHeaderBytes state position block reader pulled
    ((turned.1.shown = [] ∧ ∃ ending, turned.2 = .ends ending) ∨
        ∃ type' size', turned.1.shown = [(path.getD ownName, type', size')]) ∧
      ((path.getD ownName).getLast? ≠ some slash →
        turned.1.shown = [(path.getD ownName, type, size)] ∧
          ∃ next later, turned.2 = .goes next later ∧ next.Ready none ∧ later.content = tail) := by
  have counted : TarState.Ready { state with headersSeen := state.headersSeen + 1 } path :=
    ⟨ready.globals, ready.pending, ready.zeroBlocks⟩
  have noExtension : extensionOf (typeFlagOf type) = none := by
    cases type <;> decide
  intro turned
  have isTurned : turned = takeTurn maxHeaderBytes state position block reader pulled := rfl
  unfold takeTurn at isTurned
  rw [interpretHeader_of_header header named maxHeaderBytes ready.zeroBlocks,
    noExtension] at isTurned
  dsimp only at isTurned
  rcases counted.entryAction noBody ownName with
    ⟨⟨reason, isAction⟩, ends⟩ | ⟨⟨next, isAction, isReady⟩, ends⟩ |
    ⟨isFile, next, isAction, isReady⟩
  · rw [isAction] at isTurned
    rw [isTurned]
    exact ⟨.inl ⟨rfl, _, rfl⟩, fun notEnds => absurd ends notEnds⟩
  · rw [isAction] at isTurned
    rw [isTurned]
    refine ⟨.inr ⟨_, _, rfl⟩, fun notEnds => ?_⟩
    rcases ends with ends | ⟨isDirectory, isZero⟩
    · exact absurd ends notEnds
    · refine ⟨by simp [TarVisit.shown, isDirectory, isZero], next, reader, rfl, isReady, ?_⟩
      rw [isZero] at bodyLength
      rw [content, List.eq_nil_of_length_eq_zero bodyLength]
      rfl
  · rw [isAction] at isTurned
    dsimp only at isTurned
    rcases BodyStream.drain_cases reader size (path.getD ownName) pulled with
      ⟨short, -⟩ | ⟨-, short, -⟩ | ⟨-, status, later, -⟩
    · rw [content, List.length_append] at short
      omega
    · rw [content, List.length_append] at short
      omega
    · rw [status] at isTurned
      rw [isTurned]
      refine ⟨.inr ⟨_, _, rfl⟩, fun _ => ⟨by rw [isFile]; rfl, next, _, rfl, isReady, ?_⟩⟩
      rw [later, content, ← bodyLength, List.drop_left]

theorem takeTurn_unnamed {state : TarState} (before : state.zeroBlocks = 0) {block : List UInt8}
    {type : UInt8} {size : Nat} (header : IsTarHeader block type size)
    (notUtf8 : ¬NamedInUtf8 block) (maxHeaderBytes position pulled : Nat)
    (reader : ChunkReader UInt8) :
    let turned := takeTurn maxHeaderBytes state position block reader pulled
    turned.1.shown = [] ∧ ∃ ending, turned.2 = .ends ending := by
  rcases headerName_of_not_utf8 notUtf8 with ⟨error, unnamed⟩
  simp only [takeTurn, interpretHeader_of_unnamed header unnamed maxHeaderBytes before]
  exact ⟨rfl, _, rfl⟩

theorem takeTurn_extension {state next : TarState} (before : state.zeroBlocks = 0)
    {maxHeaderBytes length : Nat} (fits : length ≤ maxHeaderBytes) {flag : UInt8}
    {type : TarExtension} (isType : extensionOf flag = some type) {block : List UInt8}
    (header : IsTarHeader block flag length) {extensionName : JsString}
    (named : headerName block = .ok extensionName)
    {reader : ChunkReader UInt8} {body tail : List UInt8}
    (content : reader.content = body ++ tail)
    (bodyLength : body.length = length + tarPadding length)
    (extended : interpretExtension { state with headersSeen := state.headersSeen + 1 } type
      extensionName body length = .ok next) (position pulled : Nat) :
    let turned := takeTurn maxHeaderBytes state position block reader pulled
    turned.1.shown = [] ∧ ∃ later, turned.2 = .goes next later ∧ later.content = tail := by
  intro turned
  have isTurned : turned = takeTurn maxHeaderBytes state position block reader pulled := rfl
  unfold takeTurn at isTurned
  rw [interpretHeader_of_header header named maxHeaderBytes before, isType] at isTurned
  dsimp only at isTurned
  rw [if_neg (Nat.not_lt.mpr fits)] at isTurned
  dsimp only at isTurned
  have enough : length + tarPadding length ≤ reader.content.length := by
    rw [content, List.length_append]
    omega
  rcases ChunkReader.read_enough enough with ⟨later, isRead, laterContent, -⟩
  have front : reader.content.take (length + tarPadding length) = body := by
    rw [content, ← bodyLength, List.take_left]
  rw [isRead, front] at isTurned
  dsimp only at isTurned
  rw [extended] at isTurned
  rw [isTurned]
  refine ⟨rfl, later, rfl, ?_⟩
  rw [laterContent, content, ← bodyLength, List.drop_left]

/-! ## Archives -/

theorem readLoop_block (maxHeaderBytes turns : Nat) (state : TarState) {reader : ChunkReader UInt8}
    {block tail : List UInt8} (content : reader.content = block ++ tail)
    (length : block.length = tarBlock) (pulled : Nat → Nat) :
    ∃ after, after.content = tail ∧
      let turned := takeTurn maxHeaderBytes state reader.position block after (pulled 0)
      (∀ ending, turned.2 = .ends ending →
          (readLoop maxHeaderBytes (turns + 1) state reader pulled).entries = turned.1.shown) ∧
        ∀ next later, turned.2 = .goes next later →
          ∃ pulled', (readLoop maxHeaderBytes (turns + 1) state reader pulled).entries =
            turned.1.shown ++ (readLoop maxHeaderBytes turns next later pulled').entries := by
  have enough : tarBlock ≤ reader.content.length := by
    rw [content, List.length_append]
    omega
  rcases ChunkReader.read_enough enough with ⟨after, isRead, afterContent, -⟩
  have isBlock : reader.content.take tarBlock = block := by rw [content, ← length, List.take_left]
  refine ⟨after, by rw [afterContent, content, ← length, List.drop_left], ?_⟩
  simp only [readLoop, isRead, isBlock]
  generalize takeTurn maxHeaderBytes state reader.position block after (pulled 0) = turned
  rcases turned with ⟨visit, turn⟩
  cases turn with
  | ends ending =>
      refine ⟨fun _ _ => ?_, fun next later isGoes => (by cases isGoes)⟩
      exact (TarResult.entries_cons _ _ _).trans (List.append_nil _)
  | goes next later =>
      refine ⟨fun ending isEnds => (by cases isEnds), fun next' later' isGoes => ?_⟩
      cases isGoes
      exact ⟨_, TarResult.entries_cons _ _ _⟩

theorem readLoop_unnamed {state : TarState} (before : state.zeroBlocks = 0) {block : List UInt8}
    {type : UInt8} {size : Nat} (header : IsTarHeader block type size)
    (notUtf8 : ¬NamedInUtf8 block) {reader : ChunkReader UInt8} {tail : List UInt8}
    (content : reader.content = block ++ tail) {turns : Nat}
    (enough : reader.content.length < turns) (maxHeaderBytes : Nat) (pulled : Nat → Nat) :
    (readLoop maxHeaderBytes turns state reader pulled).entries = [] := by
  cases turns with
  | zero => omega
  | succ turns =>
      rcases readLoop_block maxHeaderBytes turns state content header.length pulled with
        ⟨after, -, ends, -⟩
      rcases takeTurn_unnamed before header notUtf8 maxHeaderBytes reader.position (pulled 0)
        after with ⟨nothing, ending, isEnds⟩
      rw [ends ending isEnds, nothing]

theorem readLoop_entry {state : TarState} {path : Option JsString} (ready : state.Ready path)
    {type : VfsNodeType} {size : Nat} (noBody : type = .directory → size = 0)
    {block : List UInt8} (header : IsTarHeader block (typeFlagOf type) size)
    {ownName : JsString} (named : headerName block = .ok ownName)
    {reader : ChunkReader UInt8} {body tail : List UInt8}
    (content : reader.content = block ++ (body ++ tail))
    (bodyLength : body.length = size + tarPadding size) {turns : Nat}
    (enough : reader.content.length < turns) (maxHeaderBytes : Nat) (pulled : Nat → Nat) :
    let entries := (readLoop maxHeaderBytes turns state reader pulled).entries
    (∀ shown ∈ entries.head?, shown.1 = path.getD ownName) ∧
      ((path.getD ownName).getLast? ≠ some slash →
        ∃ turns' next later pulled', next.Ready none ∧ later.content = tail ∧
          later.content.length < turns' ∧
          entries = (path.getD ownName, type, size) ::
            (readLoop maxHeaderBytes turns' next later pulled').entries) := by
  cases turns with
  | zero => omega
  | succ turns =>
      rcases readLoop_block maxHeaderBytes turns state content header.length pulled with
        ⟨after, afterContent, ends, goes⟩
      rcases takeTurn_entry ready noBody header named afterContent bodyLength maxHeaderBytes
        reader.position (pulled 0) with ⟨either, goesOn⟩
      constructor
      · rcases either with ⟨nothing, ending, isEnds⟩ | ⟨type', size', isShown⟩
        · rw [ends ending isEnds, nothing]
          simp
        · cases isTurn :
            (takeTurn maxHeaderBytes state reader.position block after (pulled 0)).2 with
          | ends ending =>
              rw [ends ending isTurn, isShown]
              simp
          | goes next later =>
              rcases goes next later isTurn with ⟨pulled', isEntries⟩
              rw [isEntries, isShown]
              simp
      · intro notEnds
        rcases goesOn notEnds with ⟨isShown, next, later, isTurn, isReady, laterContent⟩
        rcases goes next later isTurn with ⟨pulled', isEntries⟩
        refine ⟨turns, next, later, pulled', isReady, laterContent, ?_, ?_⟩
        · have positive : 0 < tarBlock := by decide
          rw [content, List.length_append, List.length_append, header.length] at enough
          rw [laterContent]
          omega
        · rw [isEntries, isShown]
          rfl

theorem readLoop_extension {state next : TarState} (before : state.zeroBlocks = 0)
    {maxHeaderBytes length : Nat} (fits : length ≤ maxHeaderBytes) {flag : UInt8}
    {type : TarExtension} (isType : extensionOf flag = some type) {block : List UInt8}
    (header : IsTarHeader block flag length) {extensionName : JsString}
    (named : headerName block = .ok extensionName)
    {reader : ChunkReader UInt8} {body tail : List UInt8}
    (content : reader.content = block ++ (body ++ tail))
    (bodyLength : body.length = length + tarPadding length)
    (extended : interpretExtension { state with headersSeen := state.headersSeen + 1 } type
      extensionName body length = .ok next) {turns : Nat}
    (enough : reader.content.length < turns) (pulled : Nat → Nat) :
    ∃ turns' later pulled', later.content = tail ∧ later.content.length < turns' ∧
      (readLoop maxHeaderBytes turns state reader pulled).entries =
        (readLoop maxHeaderBytes turns' next later pulled').entries := by
  cases turns with
  | zero => omega
  | succ turns =>
      rcases readLoop_block maxHeaderBytes turns state content header.length pulled with
        ⟨after, afterContent, -, goes⟩
      rcases takeTurn_extension before fits isType header named afterContent bodyLength extended
        reader.position (pulled 0) with ⟨isShown, later, isTurn, laterContent⟩
      rcases goes next later isTurn with ⟨pulled', isEntries⟩
      refine ⟨turns, later, pulled', laterContent, ?_, ?_⟩
      · have positive : 0 < tarBlock := by decide
        rw [content, List.length_append, List.length_append, header.length] at enough
        rw [laterContent]
        omega
      · rw [isEntries, isShown]
        rfl

/-- An entry of an archive, with the blocks that carry its name and the blocks of its body. -/
structure TarMember (host : Host) (maxHeaderBytes : Nat) where
  name : JsString
  valid : validArchiveEntryName host name = true
  type : VfsNodeType
  size : Nat
  noBody : type = .directory → size = 0
  carrier : TarCarrier
  headers : List UInt8
  carried : CarriedBy maxHeaderBytes name (typeFlagOf type) size carrier headers
  body : List UInt8
  bodyLength : body.length = size + tarPadding size

namespace TarMember

variable {host : Host} {maxHeaderBytes : Nat}

def bytes (member : TarMember host maxHeaderBytes) : List UInt8 := member.headers ++ member.body

def shown (member : TarMember host maxHeaderBytes) : JsString × VfsNodeType × Nat :=
  (member.name, member.type, member.size)

def Plain (member : TarMember host maxHeaderBytes) : Prop := member.carrier.Plain member.name

def decoded (member : TarMember host maxHeaderBytes) : JsString :=
  member.carrier.decoded member.name

theorem decoded_eq_iff (member : TarMember host maxHeaderBytes) :
    member.decoded = member.name ↔ member.carrier.Unmarked member.name := by
  apply TarCarrier.decoded_eq_iff
  intro front last isSplit
  have carried := member.carried
  rw [isSplit] at carried
  cases carried with
  | split header isName =>
      refine ⟨isName, ?_⟩
      rintro rfl
      have valid := member.valid
      unfold validArchiveEntryName at valid
      simp [isName] at valid

theorem readLoop_readable (member : TarMember host maxHeaderBytes)
    (readable : member.carrier.Readable) {state : TarState} (ready : state.Ready none)
    {reader : ChunkReader UInt8} {tail : List UInt8}
    (content : reader.content = member.bytes ++ tail) {turns : Nat}
    (enough : reader.content.length < turns) (pulled : Nat → Nat) :
    let entries := (readLoop maxHeaderBytes turns state reader pulled).entries
    (∀ shown ∈ entries.head?, shown.1 = member.decoded) ∧
      (member.decoded.getLast? ≠ some slash →
        ∃ turns' next later pulled', next.Ready none ∧ later.content = tail ∧
          later.content.length < turns' ∧
          entries = (member.decoded, member.type, member.size) ::
            (readLoop maxHeaderBytes turns' next later pulled').entries) := by
  rcases validName_facts member.valid with ⟨paired, noZero, -⟩
  rcases member with
    ⟨name, valid, type, size, noBody, carrier, headers, carried, body, bodyLength⟩
  simp only [bytes, List.append_assoc] at content paired noZero
  cases carried with
  | nameField header holds noPrefix =>
      have named := headerName_nameField paired noZero holds noPrefix
      exact readLoop_entry ready noBody header named content bodyLength enough maxHeaderBytes pulled
  | split header isName posix holdsFront holdsLast =>
      rw [isName] at noZero
      rw [isName, hasLoneSurrogate_append_slash, Bool.or_eq_false_iff] at paired
      have frontZero := fun inside => noZero (List.mem_append_left _ inside)
      have lastZero :=
        fun inside => noZero (List.mem_append_right _ (List.mem_cons_of_mem _ inside))
      have named := headerName_split paired.1 paired.2 frontZero lastZero posix holdsFront holdsLast
      exact readLoop_entry ready noBody header named content bodyLength enough maxHeaderBytes pulled
  | longName extensionHeader fits extensionLength holds header =>
      rcases readable.1.named with ⟨extensionName, extensionNamed⟩
      rcases readable.2.named with ⟨ownName, named⟩
      have extended := interpretExtension_longName ready paired noZero holds extensionName
      simp only [List.append_assoc] at content
      rcases readLoop_extension ready.zeroBlocks fits rfl extensionHeader extensionNamed content
        extensionLength extended enough pulled with
        ⟨turns', later, pulled', laterContent, laterEnough, isEntries⟩
      rw [isEntries]
      exact readLoop_entry (ready.withPath _) noBody header named laterContent bodyLength
        laterEnough
        maxHeaderBytes pulled'
  | paxPath record extensionHeader fits extensionLength isPath isName holds header =>
      rcases readable.1.named with ⟨extensionName, extensionNamed⟩
      rcases readable.2.named with ⟨ownName, named⟩
      have extended := interpretExtension_paxPath ready record isPath isName holds extensionName
      simp only [List.append_assoc] at content
      rcases readLoop_extension ready.zeroBlocks fits rfl extensionHeader extensionNamed content
        extensionLength extended enough pulled with
        ⟨turns', later, pulled', laterContent, laterEnough, isEntries⟩
      rw [isEntries]
      exact readLoop_entry (ready.withPath _) noBody header named laterContent bodyLength
        laterEnough
        maxHeaderBytes pulled'

/-- The loop at an extension header whose entry cannot be read: the first header that is no
UTF-8 ends it, before anything is shown. -/
theorem readLoop_record_unreadable {state : TarState} (ready : state.Ready none)
    {maxHeaderBytes length : Nat} (fits : length ≤ maxHeaderBytes) {flag : UInt8}
    {type : TarExtension} (isType : extensionOf flag = some type)
    {extension body block tail : List UInt8}
    (extensionHeader : IsTarHeader extension flag length)
    (bodyLength : body.length = length + tarPadding length)
    {entryType : UInt8} {size : Nat} (header : IsTarHeader block entryType size)
    (unreadable : ¬(NamedInUtf8 extension ∧ NamedInUtf8 block))
    {path : JsString}
    (extended : ∀ name, interpretExtension { state with headersSeen := state.headersSeen + 1 } type
      name body length = .ok (state.withPath path))
    {reader : ChunkReader UInt8} (content : reader.content = extension ++ (body ++ (block ++ tail)))
    {turns : Nat} (enough : reader.content.length < turns) (pulled : Nat → Nat) :
    (readLoop maxHeaderBytes turns state reader pulled).entries = [] := by
  by_cases inUtf8 : NamedInUtf8 extension
  · have notUtf8 : ¬NamedInUtf8 block := fun own => unreadable ⟨inUtf8, own⟩
    rcases inUtf8.named with ⟨extensionName, extensionNamed⟩
    rcases readLoop_extension ready.zeroBlocks fits isType extensionHeader extensionNamed content
      bodyLength (extended extensionName) enough pulled with
      ⟨turns', later, pulled', laterContent, laterEnough, isEntries⟩
    rw [isEntries]
    exact readLoop_unnamed (ready.withPath path).zeroBlocks header notUtf8 laterContent
      laterEnough maxHeaderBytes pulled'
  · exact readLoop_unnamed ready.zeroBlocks extensionHeader inUtf8 content enough maxHeaderBytes
      pulled

theorem readLoop_unreadable (member : TarMember host maxHeaderBytes)
    (unreadable : ¬member.carrier.Readable) {state : TarState} (ready : state.Ready none)
    {reader : ChunkReader UInt8} {tail : List UInt8}
    (content : reader.content = member.bytes ++ tail) {turns : Nat}
    (enough : reader.content.length < turns) (pulled : Nat → Nat) :
    (readLoop maxHeaderBytes turns state reader pulled).entries = [] := by
  rcases validName_facts member.valid with ⟨paired, noZero, -⟩
  rcases member with
    ⟨name, valid, type, size, noBody, carrier, headers, carried, body, bodyLength⟩
  simp only [bytes, List.append_assoc] at content paired noZero
  cases carried with
  | nameField header holds noPrefix => exact absurd trivial unreadable
  | split header isName posix holdsFront holdsLast => exact absurd trivial unreadable
  | longName extensionHeader fits extensionLength holds header =>
      simp only [List.append_assoc] at content
      exact readLoop_record_unreadable ready fits rfl extensionHeader extensionLength header
        unreadable (interpretExtension_longName ready paired noZero holds) content enough pulled
  | paxPath record extensionHeader fits extensionLength isPath isName holds header =>
      simp only [List.append_assoc] at content
      exact readLoop_record_unreadable ready fits rfl extensionHeader extensionLength header
        unreadable (interpretExtension_paxPath ready record isPath isName holds) content enough
        pulled

/-- The loop over the members of an archive shows them as they are exactly when they are plain. -/
theorem readLoop_members (members : List (TarMember host maxHeaderBytes)) {state : TarState}
    (ready : state.Ready none) {reader : ChunkReader UInt8} {tail : List UInt8}
    (content : reader.content = members.flatMap bytes ++ tail) {turns : Nat}
    (enough : reader.content.length < turns) (pulled : Nat → Nat) :
    (readLoop maxHeaderBytes turns state reader pulled).entries.take members.length =
        members.map shown ↔
      ∀ member ∈ members, member.Plain := by
  induction members generalizing state reader turns pulled with
  | nil => simp
  | cons member rest induction =>
      rw [List.flatMap_cons, List.append_assoc] at content
      rw [List.forall_mem_cons, List.map_cons, List.length_cons]
      by_cases plain : member.Plain
      · rcases member.readLoop_readable plain.2 ready content enough pulled with ⟨-, goesOn⟩
        have isName := member.decoded_eq_iff.mpr plain.1
        rw [isName] at goesOn
        rcases goesOn (validName_facts member.valid).2.2 with
          ⟨turns', next, later, pulled', isReady, laterContent, laterEnough, isEntries⟩
        rw [isEntries, List.take_succ_cons, ← induction isReady laterContent laterEnough pulled']
        constructor
        · intro same
          exact ⟨plain, (List.cons.inj same).2⟩
        · intro both
          exact congrArg _ both.2
      · constructor
        · intro same
          have isHead := congrArg List.head? same
          rw [List.head?_take, if_neg (Nat.succ_ne_zero _), List.head?_cons] at isHead
          by_cases readable : member.carrier.Readable
          · rcases member.readLoop_readable readable ready content enough pulled with ⟨first, -⟩
            have unmarked := member.decoded_eq_iff.mp (first _ isHead).symm
            exact absurd ⟨unmarked, readable⟩ plain
          · rw [member.readLoop_unreadable readable ready content enough pulled] at isHead
            cases isHead
        · intro both
          exact absurd both.1 plain

end TarMember

/-- The entries of an archive come back under their names exactly when no piece that carries a
name begins with U+FEFF, and the name fields of an extension header and of the entry behind it
are UTF-8. A well-formed sequence of PAX records gives its keys and values, the
last one winning, exactly when no key is `__proto__` or begins with U+FEFF; and a body is parsed
exactly when it is such a sequence. -/
theorem tar_names_come_back (host : Host) (maxHeaderBytes : Nat) :
    (∀ (members : List (TarMember host maxHeaderBytes)) (tail : List UInt8)
      (source : Cutting (members.flatMap TarMember.bytes ++ tail)) (pulled : Nat → Nat),
      (readTarEntries maxHeaderBytes source pulled).entries.take members.length =
          members.map TarMember.shown ↔
        ∀ member ∈ members, member.carrier.Plain member.name) ∧
      (∀ (records : List PaxRecord) (entryName : JsString),
        (∃ parsed, parsePax (paxBody records) entryName = .ok parsed ∧
            ∀ key, parsed.get key = lastValue records key) ↔
          ∀ record ∈ records, record.key ≠ protoKey ∧ record.key.head? ≠ some 0xfeff) ∧
      ∀ (body : List UInt8) (entryName : JsString),
        (∃ parsed, parsePax body entryName = .ok parsed) ↔ ∃ records, body = paxBody records := by
  have parsed : ∀ records entryName, parsePax (paxBody records) entryName =
      .ok (assignAll records .empty) := fun records entryName =>
    parsePaxFrom_body entryName records (Nat.le_refl _) .empty
  refine ⟨?_, ?_, ?_⟩
  · intro members tail source pulled
    have content : source.reader.content = members.flatMap TarMember.bytes ++ tail := source.whole
    apply TarMember.readLoop_members members ⟨rfl, rfl, rfl⟩ content
    rw [content]
    exact Nat.lt_succ_self _
  · intro records entryName
    rw [parsed]
    constructor
    · rintro ⟨result, isResult, same⟩
      cases isResult
      exact plainKey_of_get same
    · intro plain
      exact ⟨_, rfl, get_of_plainKey plain⟩
  · intro body entryName
    constructor
    · rintro ⟨result, isResult⟩
      exact parsePaxFrom_sound (Nat.le_refl _) isResult
    · rintro ⟨records, rfl⟩
      exact ⟨_, parsed records entryName⟩

/-! ## Names that are lost -/

/-- A file header with the name U+FEFF, `a` in its name field. -/
def markedBlock : List UInt8 :=
  [0xef, 0xbb, 0xbf, 0x61] ++ List.replicate 144 0 ++
    [0x30, 0x30, 0x33, 0x32, 0x31, 0x31, 0, 0x20, 0x30] ++ List.replicate 100 0 ++
    [0x75, 0x73, 0x74, 0x61, 0x72, 0, 0x30, 0x30] ++ List.replicate 247 0

theorem markedBlock_isTarHeader : IsTarHeader markedBlock 0x30 0 := by
  constructor <;> decide +kernel

def markedMember : TarMember Host.counting 1024 where
  name := [0xfeff, 0x61]
  valid := by decide +kernel
  type := .file
  size := 0
  noBody := fun _ => rfl
  carrier := .nameField
  headers := markedBlock
  carried := by
    apply CarriedBy.nameField markedBlock_isTarHeader
    · exact .inr ⟨List.replicate 95 0, by decide +kernel⟩
    · exact fun _ => .inr ⟨List.replicate 154 0, by decide +kernel⟩
  body := []
  bodyLength := rfl

def markedArchive : Cutting ([markedMember].flatMap TarMember.bytes ++ []) where
  chunks := [markedBlock]
  nonempty := by decide +kernel
  whole := by decide +kernel

def syllables : JsString := List.replicate 34 0xac00

def gnuBlock (nameField sizeField checksumField : List UInt8) (type : UInt8) : List UInt8 :=
  let zeros := List.replicate 7 0x30 ++ [0]
  nameField ++ [0x30, 0x30, 0x30, 0x30, 0x36, 0x34, 0x34, 0] ++ zeros ++ zeros ++ sizeField ++
    List.replicate 11 0x30 ++ [0] ++ checksumField ++ type :: List.replicate 100 0 ++
    [0x75, 0x73, 0x74, 0x61, 0x72, 0x20, 0x20, 0] ++ List.replicate 247 0

/-- The `L` header `././@LongLink` of a name of 102 bytes and its NUL. -/
def longLinkBlock : List UInt8 :=
  gnuBlock ([0x2e, 0x2f, 0x2e, 0x2f, 0x40, 0x4c, 0x6f, 0x6e, 0x67, 0x4c, 0x69, 0x6e, 0x6b] ++
      List.replicate 87 0)
    (List.replicate 8 0x30 ++ [0x31, 0x34, 0x37, 0])
    [0x30, 0x30, 0x37, 0x37, 0x37, 0x35, 0, 0x20] 0x4c

def cutNameBlock : List UInt8 :=
  gnuBlock ((utf8 syllables).take 100) (List.replicate 11 0x30 ++ [0])
    [0x30, 0x35, 0x31, 0x30, 0x30, 0x31, 0, 0x20] 0x30

theorem longLinkBlock_isTarHeader : IsTarHeader longLinkBlock 0x4c 103 := by
  constructor <;> decide +kernel

theorem cutNameBlock_isTarHeader : IsTarHeader cutNameBlock 0x30 0 := by
  constructor <;> decide +kernel

def syllablesMember : TarMember Host.counting 1024 where
  name := syllables
  valid := by decide +kernel
  type := .file
  size := 0
  noBody := fun _ => rfl
  carrier := .longName longLinkBlock cutNameBlock
  headers := longLinkBlock ++ ((utf8 syllables ++ List.replicate 410 0) ++ cutNameBlock)
  carried := by
    apply CarriedBy.longName longLinkBlock_isTarHeader
    · decide
    · decide +kernel
    · exact .inr (by decide +kernel)
    · exact cutNameBlock_isTarHeader
  body := []
  bodyLength := rfl

def syllablesArchive : Cutting ([syllablesMember].flatMap TarMember.bytes ++ []) where
  chunks := [longLinkBlock, utf8 syllables ++ List.replicate 410 0, cutNameBlock]
  nonempty := by decide +kernel
  whole := by decide +kernel

/-- Both names are valid. The marked name fits the name field, and its entry comes back as `a`;
the long name stands in a GNU record, and its entry does not come back. -/
theorem valid_names_are_lost :
    markedMember.name = [0xfeff, 0x61] ∧
      (readTarEntries 1024 markedArchive fun _ => 0).entries = [([0x61], .file, 0)] ∧
      syllablesMember.name = List.replicate 34 0xac00 ∧
      readTarEntries 1024 syllablesArchive (fun _ => 0) =
        ⟨[⟨0, 103, true, none⟩, ⟨1024, 0, false, none⟩],
          some (.error (entryError (.notUtf8 .entryName)
            (List.replicate 33 0xac00 ++ [0xfffd])))⟩ := by
  decide +kernel

end Storix
