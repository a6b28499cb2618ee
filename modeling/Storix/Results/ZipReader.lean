import Storix.Vfs.ZipReader
import Mathlib.Data.List.Chain

/-! # The ZIP reader stays inside the file

One specification for each function of the reader, from an invariant that holds however a
function ends: the ranges asked for are inside the file, and the window is a slice of it. What a
function returns is then read off the file itself. -/

namespace Storix

open Foundation JsString Attempt

/-! ## The invariant -/

structure ZipRange.Inside (size : Nat) (range : ZipRange) : Prop where
  start : 0 ≤ range.start
  length : 0 < range.length
  stop : range.start + range.length ≤ size

structure ZipReader.Sound (file : List UInt8) (reader : ZipReader) : Prop where
  ranges : ∀ range ∈ reader.ranges, range.Inside file.length
  windowStart : 0 ≤ reader.windowStart
  window : reader.window = slice file reader.windowStart.toNat reader.window.length
  windowEnd : reader.windowStart + reader.window.length ≤ file.length

theorem ZipReader.sound_initial (file : List UInt8) : ZipReader.initial.Sound file where
  ranges := by simp [ZipReader.initial]
  windowStart := Int.le_refl 0
  window := rfl
  windowEnd := by simp [ZipReader.initial]

theorem ZipReader.Sound.ask {file : List UInt8} {reader : ZipReader} (sound : reader.Sound file)
    {opened : Bool} {start length : Int} (first : 0 ≤ start) (positive : 0 < length)
    (inside : start + length ≤ file.length) : (reader.ask opened start length).Sound file where
  ranges := by
    intro range member
    rcases List.mem_append.mp member with old | new
    · exact sound.ranges range old
    · rw [List.mem_singleton.mp new]
      exact ⟨first, positive, inside⟩
  windowStart := sound.windowStart
  window := sound.window
  windowEnd := sound.windowEnd

theorem ZipReader.Sound.yield {file : List UInt8} {reader : ZipReader} (sound : reader.Sound file)
    (item : ZipYield) : (reader.yield item).Sound file :=
  ⟨sound.ranges, sound.windowStart, sound.window, sound.windowEnd⟩

theorem ZipReader.Sound.setWindow {file : List UInt8} {reader : ZipReader}
    (sound : reader.Sound file) {start length : Int} (first : 0 ≤ start) (nonneg : 0 ≤ length)
    (inside : start + length ≤ file.length) :
    (reader.setWindow start (slice file start.toNat length.toNat)).Sound file := by
  have count : (slice file start.toNat length.toNat).length = length.toNat :=
    length_slice (by omega)
  refine ⟨sound.ranges, first, ?_, ?_⟩
  · show _ = slice file start.toNat (slice file start.toNat length.toNat).length
    rw [count]
    rfl
  · show start + ((slice file start.toNat length.toNat).length : Int) ≤ _
    rw [count]
    omega

/-! ## Ranges -/

theorem readExact_ensures {file : List UInt8} {start length : Int} {what : ZipRead}
    {entryName : JsString} {reader : ZipReader} (sound : reader.Sound file)
    (nonneg : 0 ≤ length) :
    Ensures (readExact file start length what entryName) (ZipReader.Sound file)
      (fun bytes next => bytes = slice file start.toNat length.toNat ∧ 0 ≤ start ∧
        start + length ≤ file.length ∧ next.yielded = reader.yielded) reader := by
  unfold readExact
  apply ensures_refuseIf_bind sound
  intro inside
  rw [not_or, Int.not_lt, Int.not_lt] at inside
  apply ensures_ite
  · intro isZero
    apply ensures_pure sound
    refine ⟨?_, inside.1, inside.2, rfl⟩
    rw [isZero]
    simp [slice]
  · intro notZero
    have asked : (reader.ask false start length).Sound file :=
      sound.ask inside.1 (by omega) inside.2
    apply ensures_update_bind
    apply ensures_refuseIf_bind asked
    intro _
    exact ensures_pure asked ⟨rfl, inside.1, inside.2, rfl⟩

theorem moveWindow_ensures {file : List UInt8} {cdEnd offset length : Int} {what : ZipRead}
    {reader : ZipReader} (sound : reader.Sound file) (nonneg : 0 ≤ length) :
    Ensures (moveWindow file cdEnd offset length what) (ZipReader.Sound file)
      (fun _ next => next.windowStart ≤ offset ∧
        offset + length ≤ next.windowStart + next.window.length ∧
        next.yielded = reader.yielded) reader := by
  unfold moveWindow
  apply ensures_state_bind
  apply ensures_ite
  · intro missing
    dsimp only
    generalize isWant : (if cdEnd - offset < 65536 then cdEnd - offset else 65536) = want
    have wide : 0 ≤ max length want := Int.le_trans nonneg (Int.le_max_left ..)
    apply (readExact_ensures sound wide).bind
    rintro bytes next soundNext ⟨rfl, first, inside, sameYields⟩
    have count : (slice file offset.toNat (max length want).toNat).length =
        (max length want).toNat := length_slice (by omega)
    apply ensures_update (soundNext.setWindow first wide inside)
    refine ⟨Int.le_refl _, ?_, sameYields⟩
    show offset + length ≤
      offset + ((slice file offset.toNat (max length want).toNat).length : Int)
    rw [count]
    omega
  · intro present
    apply ensures_pure sound
    exact ⟨by omega, by omega, rfl⟩

/-- `CentralWindow.read` returns the range of the file, whatever the window held before. -/
theorem windowRead_ensures {file : List UInt8} {cdEnd offset length : Int} {what : ZipRead}
    {reader : ZipReader} (sound : reader.Sound file) (nonneg : 0 ≤ length) :
    Ensures (windowRead file cdEnd offset length what) (ZipReader.Sound file)
      (fun bytes next => bytes = slice file offset.toNat length.toNat ∧ 0 ≤ offset ∧
        offset + length ≤ file.length ∧ next.yielded = reader.yielded) reader := by
  unfold windowRead
  apply (moveWindow_ensures sound nonneg).bind
  rintro _ next soundNext ⟨before, enough, sameYields⟩
  apply ensures_state_bind
  apply ensures_pure soundNext
  have start := soundNext.windowStart
  have stop := soundNext.windowEnd
  refine ⟨?_, by omega, by omega, sameYields⟩
  rw [soundNext.window, slice_slice (by omega)]
  congr 1
  omega

theorem readUInt16LE_slice {file : List UInt8} {start length offset : Nat}
    (inside : offset + 2 ≤ length) :
    readUInt16LE (slice file start length) offset = readUInt16LE file (start + offset) := by
  rw [readUInt16LE, slice_slice inside, readUInt16LE]

theorem readUInt32LE_slice {file : List UInt8} {start length offset : Nat}
    (inside : offset + 4 ≤ length) :
    readUInt32LE (slice file start length) offset = readUInt32LE file (start + offset) := by
  rw [readUInt32LE, slice_slice inside, readUInt32LE]

/-! ## The end record -/

theorem findEndRecord_spec {tail : List UInt8} {count offset : Nat}
    (found : findEndRecord tail count = some offset) :
    offset < count ∧ isEndRecord tail offset = true := by
  induction count with
  | zero => cases found
  | succ count induction =>
      rw [findEndRecord] at found
      split at found
      case isTrue isEnd =>
        cases found
        exact ⟨Nat.lt_succ_self _, isEnd⟩
      case isFalse =>
        rcases induction found with ⟨below, isEnd⟩
        exact ⟨by omega, isEnd⟩

def EndRecordAt (file : List UInt8) (eocd : EndRecord) : Prop :=
  ∃ place : Nat, place + 22 ≤ file.length ∧ readUInt32LE file place = 0x06054b50 ∧
    eocd.entryCount = readUInt16LE file (place + 10) ∧
    eocd.cdSize = readUInt32LE file (place + 12) ∧
    eocd.cdOffset = readUInt32LE file (place + 16) ∧ eocd.cdOffset + eocd.cdSize = place

theorem readEocd_ensures {file : List UInt8} {reader : ZipReader} (sound : reader.Sound file) :
    Ensures (readEocd file) (ZipReader.Sound file)
      (fun eocd next => EndRecordAt file eocd ∧ next.yielded = reader.yielded) reader := by
  unfold readEocd
  apply ensures_refuseIf_bind sound
  intro long
  dsimp only
  generalize isTail : (if file.length < 22 + 65535 then file.length else 22 + 65535) = tailLength
  have short : 22 ≤ tailLength ∧ tailLength ≤ file.length := by
    rw [← isTail]
    split <;> omega
  apply (readExact_ensures sound (by omega)).bind
  rintro tail next soundNext ⟨rfl, -, -, sameYields⟩
  have start : (file.length - tailLength : Int).toNat = file.length - tailLength := by omega
  rw [start, Int.toNat_natCast]
  have count : (slice file (file.length - tailLength) tailLength).length = tailLength :=
    length_slice (by omega)
  split
  · exact ensures_fail soundNext
  · rename_i offset found
    rcases findEndRecord_spec found with ⟨below, isEnd⟩
    rw [isEndRecord, Bool.and_eq_true, beq_iff_eq] at isEnd
    rw [count] at below
    apply ensures_refuseIf_bind soundNext
    intro _
    apply ensures_refuseIf_bind soundNext
    intro _
    apply ensures_refuseIf_bind soundNext
    intro _
    apply ensures_refuseIf_bind soundNext
    intro ends
    apply ensures_pure soundNext
    rw [not_not, readUInt32LE_slice (by omega), readUInt32LE_slice (by omega)] at ends
    refine ⟨⟨file.length - tailLength + offset, by omega, ?_, ?_, ?_, ?_, ?_⟩, sameYields⟩
    · rw [← isEnd.1, readUInt32LE_slice (by omega)]
    · exact readUInt16LE_slice (by omega)
    · exact readUInt32LE_slice (by omega)
    · exact readUInt32LE_slice (by omega)
    · dsimp only
      rw [readUInt32LE_slice (by omega), readUInt32LE_slice (by omega)]
      omega

/-! ## Records -/

/-- The central directory record of an entry stands between two places of the file. -/
structure CentralRecordAt (file : List UInt8) (start stop : Int) (entry : CentralEntry) :
    Prop where
  first : 0 ≤ start
  inside : stop ≤ file.length
  signature : readUInt32LE file start.toNat = 0x02014b50
  length : stop = start + 46 + readUInt16LE file (start.toNat + 28) +
    readUInt16LE file (start.toNat + 30) + readUInt16LE file (start.toNat + 32)
  flags : entry.flags = readUInt16LE file (start.toNat + 8)
  method : entry.method = readUInt16LE file (start.toNat + 10)
  crc : entry.crc = readUInt32LE file (start.toNat + 16)
  compressedSize : entry.compressedSize = readUInt32LE file (start.toNat + 20)
  size : entry.size = readUInt32LE file (start.toNat + 24)
  localHeaderOffset : entry.localHeaderOffset = readUInt32LE file (start.toNat + 42)
  nameBytes : entry.nameBytes =
    slice file (start.toNat + 46) (readUInt16LE file (start.toNat + 28))
  name : decodeFatal entry.nameBytes = some entry.name

theorem readCentralEntry_ensures {file : List UInt8} {offset cdEnd : Int} {reader : ZipReader}
    (sound : reader.Sound file) (inFile : cdEnd ≤ file.length) :
    Ensures (readCentralEntry file offset cdEnd) (ZipReader.Sound file)
      (fun result next => CentralRecordAt file offset result.2 result.1 ∧ result.2 ≤ cdEnd ∧
        next.yielded = reader.yielded) reader := by
  unfold readCentralEntry
  apply ensures_refuseIf_bind sound
  intro fits
  apply (windowRead_ensures sound (by omega)).bind
  rintro fixed next soundNext ⟨rfl, first, inside, sameYields⟩
  have field16 : ∀ place, place + 2 ≤ 46 →
      readUInt16LE (slice file offset.toNat (46 : Int).toNat) place =
        readUInt16LE file (offset.toNat + place) := fun _ => readUInt16LE_slice
  have field32 : ∀ place, place + 4 ≤ 46 →
      readUInt32LE (slice file offset.toNat (46 : Int).toNat) place =
        readUInt32LE file (offset.toNat + place) := fun _ => readUInt32LE_slice
  generalize slice file offset.toNat (46 : Int).toNat = fixed at field16 field32
  apply ensures_refuseIf_bind soundNext
  intro signature
  dsimp only
  have nameLength := field16 28 (by decide)
  have extraLength := field16 30 (by decide)
  have commentLength := field16 32 (by decide)
  apply ensures_refuseIf_bind soundNext
  intro variableFits
  apply ensures_refuseIf_bind soundNext
  intro _
  apply ensures_refuseIf_bind soundNext
  intro _
  apply ensures_refuseIf_bind soundNext
  intro _
  apply ensures_refuseIf_bind soundNext
  intro _
  apply (windowRead_ensures soundNext (by omega)).bind
  rintro variableBytes last soundLast ⟨rfl, -, -, sameLast⟩
  have unchanged : last.yielded = reader.yielded := sameLast.trans sameYields
  have nameBytes : (slice file (offset + 46).toNat
      ((readUInt16LE fixed 28 + readUInt16LE fixed 30 : Nat) : Int).toNat).take
        (readUInt16LE fixed 28) =
      slice file (offset.toNat + 46) (readUInt16LE file (offset.toNat + 28)) := by
    have place : (offset + 46).toNat = offset.toNat + 46 := by omega
    rw [place, Int.toNat_natCast, slice, List.take_take, Nat.min_eq_left (by omega), nameLength]
    rfl
  refine Ensures.bind (ensures_lift soundLast fun _ _ => rfl) ?_
  rintro zip64 _ soundLast rfl
  apply ensures_refuseIf_bind soundLast
  intro _
  rw [nameBytes]
  split
  · exact ensures_fail soundLast
  · rename_i name decoded
    apply ensures_pure soundLast
    refine ⟨?_, by omega, unchanged⟩
    constructor
    case first => exact first
    case inside =>
      dsimp only
      omega
    case signature =>
      rw [not_not, field32 0 (by decide)] at signature
      exact signature
    case length =>
      dsimp only
      omega
    case name => exact decoded
    case nameBytes => rfl
    case flags => exact field16 8 (by decide)
    case method => exact field16 10 (by decide)
    case crc => exact field32 16 (by decide)
    case compressedSize => exact field32 20 (by decide)
    case size => exact field32 24 (by decide)
    case localHeaderOffset => exact field32 42 (by decide)

/-- The local header of an entry agrees with its record, and its data end before the directory. -/
structure LocalHeaderOf (file : List UInt8) (cdOffset : Int) (entry : CentralEntry)
    (dataStart : Int) : Prop where
  signature : readUInt32LE file entry.localHeaderOffset = 0x04034b50
  flags : readUInt16LE file (entry.localHeaderOffset + 6) = entry.flags
  method : readUInt16LE file (entry.localHeaderOffset + 8) = entry.method
  nameLength : readUInt16LE file (entry.localHeaderOffset + 26) = entry.nameBytes.length
  name : slice file (entry.localHeaderOffset + 30) entry.nameBytes.length = entry.nameBytes
  isDataStart : dataStart = entry.localHeaderOffset + 30 + entry.nameBytes.length +
    readUInt16LE file (entry.localHeaderOffset + 28)
  beforeDirectory : dataStart + entry.compressedSize ≤ cdOffset

theorem verifyLocalHeader_ensures {file : List UInt8} {entry : CentralEntry} {cdOffset : Int}
    {reader : ZipReader} (sound : reader.Sound file) :
    Ensures (verifyLocalHeader file entry cdOffset) (ZipReader.Sound file)
      (fun dataStart next => LocalHeaderOf file cdOffset entry dataStart ∧
        next.yielded = reader.yielded) reader := by
  unfold verifyLocalHeader
  apply (readExact_ensures sound (by omega)).bind
  rintro head next soundNext ⟨rfl, -, inside, sameYields⟩
  rw [Int.toNat_natCast, Int.toNat_natCast]
  have field16 : ∀ place, place + 2 ≤ 30 →
      readUInt16LE (slice file entry.localHeaderOffset (30 + entry.nameBytes.length)) place =
        readUInt16LE file (entry.localHeaderOffset + place) := fun _ small =>
    readUInt16LE_slice (by omega)
  have field32 : ∀ place, place + 4 ≤ 30 →
      readUInt32LE (slice file entry.localHeaderOffset (30 + entry.nameBytes.length)) place =
        readUInt32LE file (entry.localHeaderOffset + place) := fun _ small =>
    readUInt32LE_slice (by omega)
  have names : (slice file entry.localHeaderOffset (30 + entry.nameBytes.length)).drop 30 =
      slice file (entry.localHeaderOffset + 30) entry.nameBytes.length := by
    unfold slice
    rw [List.drop_take, List.drop_drop, Nat.add_sub_cancel_left]
  generalize slice file entry.localHeaderOffset (30 + entry.nameBytes.length) = head
    at field16 field32 names
  apply ensures_refuseIf_bind soundNext
  intro signature
  dsimp only
  apply ensures_refuseIf_bind soundNext
  intro sameFlags
  apply ensures_refuseIf_bind soundNext
  intro sameName
  apply ensures_refuseIf_bind soundNext
  intro _
  apply ensures_refuseIf_bind soundNext
  intro _
  apply ensures_refuseIf_bind soundNext
  intro before
  apply ensures_pure soundNext
  rw [not_or, not_not, not_not] at sameFlags sameName
  have extraLength := field16 28 (by decide)
  refine ⟨?_, sameYields⟩
  constructor
  case signature =>
    rw [not_not, field32 0 (by decide)] at signature
    exact signature
  case flags => rw [← field16 6 (by decide), sameFlags.1]
  case method => rw [← field16 8 (by decide), sameFlags.2]
  case nameLength => rw [← field16 26 (by decide), sameName.1]
  case name => rw [← names, sameName.2]
  case isDataStart => omega
  case beforeDirectory =>
    split at before <;> omega

def DescriptorOf (file : List UInt8) (cdOffset : Int) (entry : CentralEntry)
    (dataStart : Int) : Prop :=
  ∃ length : Nat, (length = 12 ∨ length = 16) ∧
    dataStart + entry.compressedSize + length ≤ cdOffset ∧
    (length = 16 →
      readUInt32LE file (dataStart + entry.compressedSize).toNat = 0x08074b50) ∧
    let fields := (dataStart + entry.compressedSize).toNat + (length - 12)
    readUInt32LE file fields = entry.crc ∧ readUInt32LE file (fields + 4) = entry.compressedSize ∧
      readUInt32LE file (fields + 8) = entry.size

theorem descriptorMatches_slice {file : List UInt8} {entry : CentralEntry}
    {start length offset : Nat}
    (holds : descriptorMatches entry (slice file start length) offset = true) :
    offset + 12 ≤ length ∧ readUInt32LE file (start + offset) = entry.crc ∧
      readUInt32LE file (start + offset + 4) = entry.compressedSize ∧
      readUInt32LE file (start + offset + 8) = entry.size := by
  unfold descriptorMatches at holds
  simp only [Bool.and_eq_true, decide_eq_true_eq, beq_iff_eq] at holds
  rcases holds with ⟨⟨⟨enough, isCrc⟩, isCompressed⟩, isSize⟩
  have short : (slice file start length).length ≤ length := by
    rw [slice, List.length_take]
    exact Nat.min_le_left ..
  rw [readUInt32LE_slice (by omega)] at isCrc isCompressed isSize
  exact ⟨by omega, isCrc, by rw [Nat.add_assoc, isCompressed], by rw [Nat.add_assoc, isSize]⟩

theorem verifyDescriptor_ensures {file : List UInt8} {entry : CentralEntry}
    {dataStart cdOffset : Int} {reader : ZipReader} (sound : reader.Sound file)
    (before : dataStart + entry.compressedSize ≤ cdOffset) :
    Ensures (verifyDescriptor file entry dataStart cdOffset) (ZipReader.Sound file)
      (fun _ next => (entry.hasDescriptor = true → DescriptorOf file cdOffset entry dataStart) ∧
        next.yielded = reader.yielded) reader := by
  unfold verifyDescriptor
  apply ensures_ite
  · intro plain
    apply ensures_pure sound
    exact ⟨fun flagged => absurd (plain.symm.trans flagged) (by decide), rfl⟩
  · intro _
    dsimp only
    generalize isLength :
      (if cdOffset - (dataStart + entry.compressedSize) < 16 then
        cdOffset - (dataStart + entry.compressedSize) else 16) = length
    have bounds : 0 ≤ length ∧ length ≤ 16 ∧
        dataStart + entry.compressedSize + length ≤ cdOffset := by
      rw [← isLength]
      split <;> omega
    apply (readExact_ensures sound bounds.1).bind
    rintro bytes next soundNext ⟨rfl, -, -, sameYields⟩
    apply ensures_refuseIf soundNext
    intro either
    refine ⟨fun _ => ?_, sameYields⟩
    rw [not_and_or, Bool.not_eq_false, Bool.not_eq_false] at either
    rcases either with signed | plain
    · simp only [Bool.and_eq_true, decide_eq_true_eq, beq_iff_eq] at signed
      rcases signed with ⟨⟨-, signature⟩, isMatch⟩
      rcases descriptorMatches_slice isMatch with ⟨enough, isCrc, isCompressed, isSize⟩
      rw [readUInt32LE_slice (by omega)] at signature
      exact ⟨16, .inr rfl, by omega, fun _ => signature, isCrc, isCompressed, isSize⟩
    · rcases descriptorMatches_slice plain with ⟨enough, isCrc, isCompressed, isSize⟩
      exact ⟨12, .inl rfl, by omega, fun other => absurd other (by decide), isCrc, isCompressed,
        isSize⟩

/-! ## Runs -/

structure ZipYield.TrueOf (file : List UInt8) (cdOffset : Int) (item : ZipYield) : Prop where
  record : CentralRecordAt file item.recordStart item.recordEnd item.entry
  header : LocalHeaderOf file cdOffset item.entry item.dataStart
  descriptor : item.entry.hasDescriptor = true →
    DescriptorOf file cdOffset item.entry item.dataStart

/-- The records of the entries cover the places from `start` to `stop` without a gap. -/
def Tiles (start : Int) (items : List ZipYield) (stop : Int) : Prop :=
  match items with
  | [] => start = stop
  | item :: rest => item.recordStart = start ∧ Tiles item.recordEnd rest stop

theorem yieldEntry_ensures {file : List UInt8} {entry : CentralEntry}
    {cursor next dataStart cdOffset : Int} {opened : Bool} {reader : ZipReader}
    (sound : reader.Sound file) (first : 0 ≤ dataStart)
    (before : dataStart + entry.compressedSize ≤ cdOffset) (inFile : cdOffset ≤ file.length) :
    Ensures (yieldEntry entry cursor next dataStart opened) (ZipReader.Sound file)
      (fun _ last => ∃ type,
        last.yielded = reader.yielded ++ [⟨entry, type, cursor, next, dataStart⟩]) reader := by
  unfold yieldEntry
  apply ensures_ite
  · intro _
    apply ensures_refuseIf_bind sound
    intro _
    exact ensures_update (sound.yield _) ⟨_, rfl⟩
  · intro _
    apply ensures_update_bind
    apply ensures_ite
    · rintro ⟨-, notEmpty⟩
      exact ensures_update ((sound.yield _).ask first (by omega) (by omega)) ⟨_, rfl⟩
    · intro _
      exact ensures_pure (sound.yield _) ⟨_, rfl⟩

theorem readRecord_ensures {file : List UInt8} {cdOffset cdEnd cursor : Int} {opened : Bool}
    {reader : ZipReader} (sound : reader.Sound file) (before : cdOffset ≤ cdEnd)
    (inFile : cdEnd ≤ file.length) :
    Ensures (readRecord file cdOffset cdEnd opened cursor) (ZipReader.Sound file)
      (fun stop next => ∃ item : ZipYield, next.yielded = reader.yielded ++ [item] ∧
        item.TrueOf file cdOffset ∧ item.recordStart = cursor ∧ item.recordEnd = stop) reader := by
  unfold readRecord
  apply (readCentralEntry_ensures sound inFile).bind
  rintro ⟨entry, stop⟩ next soundNext ⟨record, -, sameYields⟩
  apply ensures_refuseIf_bind soundNext
  intro _
  apply (verifyLocalHeader_ensures soundNext).bind
  rintro dataStart third soundThird ⟨header, sameThird⟩
  apply (verifyDescriptor_ensures soundThird header.beforeDirectory).bind
  rintro _ fourth soundFourth ⟨descriptor, sameFourth⟩
  have first : 0 ≤ dataStart := by
    rw [header.isDataStart]
    omega
  apply (yieldEntry_ensures soundFourth first header.beforeDirectory (by omega)).bind
  rintro _ last soundLast ⟨type, isYield⟩
  apply ensures_pure soundLast
  refine ⟨⟨entry, type, cursor, stop, dataStart⟩, ?_, ⟨record, header, descriptor⟩, rfl, rfl⟩
  rw [isYield, sameFourth, sameThird, sameYields]

theorem readRecords_ensures {file : List UInt8} {cdOffset cdEnd : Int} {opened : Nat → Bool}
    (before : cdOffset ≤ cdEnd) (inFile : cdEnd ≤ file.length) (count index : Nat)
    (cursor : Int) {reader : ZipReader} (sound : reader.Sound file) :
    Ensures (readRecords file cdOffset cdEnd opened count index cursor) (ZipReader.Sound file)
      (fun stop next => ∃ items, next.yielded = reader.yielded ++ items ∧ items.length = count ∧
        (∀ item ∈ items, item.TrueOf file cdOffset) ∧ Tiles cursor items stop) reader := by
  induction count generalizing index cursor reader with
  | zero => exact ensures_pure sound ⟨[], by simp, rfl, by simp, rfl⟩
  | succ count induction =>
      apply (readRecord_ensures sound before inFile).bind
      rintro next middle soundMiddle ⟨item, isYield, isTrue, isStart, isEnd⟩
      apply (induction (index + 1) next soundMiddle).imp
      rintro stop last - ⟨items, isYields, isCount, areTrue, tiles⟩
      refine ⟨item :: items, ?_, by rw [List.length_cons, isCount], ?_, isStart, ?_⟩
      · rw [isYields, isYield, List.append_assoc]
        rfl
      · intro other member
        rcases List.mem_cons.mp member with same | later
        · rw [same]
          exact isTrue
        · exact areTrue other later
      · rw [isEnd]
        exact tiles

theorem readZipEntries_ensures (file : List UInt8) (opened : Nat → Bool) :
    Ensures (readZipEntries file opened) (ZipReader.Sound file)
      (fun eocd last => EndRecordAt file eocd ∧ last.yielded.length = eocd.entryCount ∧
        Tiles eocd.cdOffset last.yielded (eocd.cdOffset + eocd.cdSize) ∧
        ∀ item ∈ last.yielded, item.TrueOf file eocd.cdOffset) ZipReader.initial := by
  unfold readZipEntries
  apply (readEocd_ensures (ZipReader.sound_initial file)).bind
  rintro eocd next soundNext ⟨isEnd, noYields⟩
  have inFile : (eocd.cdOffset + eocd.cdSize : Int) ≤ file.length := by
    rcases isEnd with ⟨place, inside, -, -, -, -, isPlace⟩
    omega
  apply (readRecords_ensures (by omega) inFile _ _ _ soundNext).bind
  rintro cursor last soundLast ⟨items, isYields, isCount, areTrue, tiles⟩
  have isItems : last.yielded = items := by
    rw [isYields, noYields]
    rfl
  apply ensures_refuseIf_bind soundLast
  intro ends
  rw [not_not] at ends
  apply ensures_pure soundLast
  rw [isItems, ← ends]
  exact ⟨isEnd, isCount, tiles, areTrue⟩

/-! ## The window -/

theorem readExact_succeeds {file : List UInt8} {start length : Int} (what : ZipRead)
    (entryName : JsString) (reader : ZipReader) (first : 0 ≤ start) (nonneg : 0 ≤ length)
    (inside : start + length ≤ file.length) :
    (outcome (readExact file start length what entryName) reader).1 =
      .ok (slice file start.toNat length.toNat) := by
  have count : ((slice file start.toNat length.toNat).length : Int) = length := by
    rw [length_slice (by omega)]
    omega
  unfold readExact
  rw [outcome_bind, refuseIf, if_neg (by omega), outcome_pure]
  dsimp only
  by_cases isZero : length = 0
  · rw [if_pos isZero, outcome_pure, isZero]
    simp [slice]
  · rw [if_neg isZero, outcome_bind, outcome_update]
    dsimp only
    rw [outcome_bind, refuseIf, if_neg (by omega), outcome_pure]
    rfl

theorem windowRead_succeeds {file : List UInt8} {cdEnd offset length : Int} (what : ZipRead)
    (reader : ZipReader) (first : 0 ≤ offset) (nonneg : 0 ≤ length)
    (inDirectory : offset + length ≤ cdEnd) (inFile : cdEnd ≤ file.length) :
    ∃ bytes, (outcome (windowRead file cdEnd offset length what) reader).1 = .ok bytes := by
  have moves : ∃ next, outcome (moveWindow file cdEnd offset length what) reader =
      (.ok (), next) := by
    unfold moveWindow
    rw [outcome_bind, outcome_state]
    dsimp only
    split
    · generalize isWant : (if cdEnd - offset < 65536 then cdEnd - offset else 65536) = want
      have bound : want ≤ cdEnd - offset := by
        rw [← isWant]
        split <;> omega
      have inside : offset + max length want ≤ file.length := by omega
      have isRead := readExact_succeeds what [] reader first
        (show 0 ≤ max length want by omega) inside
      rw [outcome_bind]
      generalize outcome (readExact file offset (max length want) what []) reader = result at isRead
      rcases result with ⟨value, next⟩
      cases isRead
      exact ⟨_, rfl⟩
    · exact ⟨_, rfl⟩
  rcases moves with ⟨next, moved⟩
  unfold windowRead
  rw [outcome_bind, moved]
  dsimp only
  rw [outcome_bind, outcome_state]
  exact ⟨_, rfl⟩

structure WindowRequest where
  offset : Int
  length : Int
  what : ZipRead

def WindowRequest.InDirectory (cdEnd : Int) (request : WindowRequest) : Prop :=
  0 ≤ request.offset ∧ 0 ≤ request.length ∧ request.offset + request.length ≤ cdEnd

def windowReads (file : List UInt8) (cdEnd : Int) : List WindowRequest → ZipAttempt Unit
  | [] => pure ()
  | request :: rest => do
      let _ ← windowRead file cdEnd request.offset request.length request.what
      windowReads file cdEnd rest

theorem windowReads_ensures {file : List UInt8} {cdEnd : Int} {reader : ZipReader}
    (sound : reader.Sound file) (requests : List WindowRequest)
    (allowed : ∀ request ∈ requests, request.InDirectory cdEnd) :
    Ensures (windowReads file cdEnd requests) (ZipReader.Sound file) (fun _ _ => True) reader := by
  induction requests generalizing reader with
  | nil => exact ensures_pure sound trivial
  | cons request rest induction =>
      rw [List.forall_mem_cons] at allowed
      apply (windowRead_ensures sound allowed.1.2.1).bind
      intro _ next soundNext _
      exact induction soundNext allowed.2

/-! ## Bodies -/

theorem verifyChunks_spec {entry : CentralEntry} {chunks : List (List UInt8)}
    {start last : VerifyState} (begun : start.produced = start.passed.length ∧
      start.crc = crc32 start.passed 0)
    (result : chunks.foldlM (verifyChunk entry) start = .ok last) :
    last.produced = last.passed.length ∧ last.crc = crc32 last.passed 0 := by
  induction chunks generalizing start with
  | nil =>
      cases result
      exact begun
  | cons chunk rest induction =>
      rw [List.foldlM_cons] at result
      cases step : verifyChunk entry start chunk with
      | error error => simp [step, bind, Except.bind] at result
      | ok next =>
          rw [step] at result
          refine induction ?_ result
          unfold verifyChunk at step
          split at step
          · cases step
          · cases step
            refine ⟨?_, ?_⟩
            · rw [List.length_append, begun.1]
            · rw [crc32_append, begun.2]

theorem verifying_spec {entry : CentralEntry} {chunks : List (List UInt8)} {body : List UInt8}
    (result : verifying entry chunks = .ok body) :
    body.length = entry.size ∧ (crc32 body 0).toNat = entry.crc := by
  unfold verifying at result
  cases ended : chunks.foldlM (verifyChunk entry) ⟨0, 0, []⟩ with
  | error error => simp [ended, bind, Except.bind] at result
  | ok last =>
      rcases verifyChunks_spec ⟨rfl, (crc32_nil 0).symm⟩ ended with ⟨produced, crc⟩
      simp only [ended, bind, Except.bind] at result
      split at result
      · cases result
      · rename_i isLength
        split at result
        · cases result
        · rename_i isCrc
          cases result
          rw [not_not] at isLength isCrc
          exact ⟨produced.symm.trans isLength, crc ▸ isCrc⟩

theorem readBody_spec {inflateRaw : List (List UInt8) → Option (List (List UInt8))}
    {entry : CentralEntry} {raw : List (List UInt8)} {body : List UInt8}
    (result : readBody inflateRaw entry raw = .ok body) :
    body.length = entry.size ∧ (crc32 body 0).toNat = entry.crc := by
  unfold readBody at result
  split at result
  · exact verifying_spec result
  · cases guarded : rangeGuard entry.compressedSize raw with
    | error error => simp [guarded, bind, Except.bind] at result
    | ok chunks =>
        simp only [guarded, bind, Except.bind] at result
        split at result
        · split at result
          · cases result
          · exact verifying_spec result
        · exact verifying_spec result

/-! ## The whole reader -/

/-- For every file and every choice of the bodies that are opened, the ranges that the reader
asks for are inside the file and none is empty. If it ends normally, there is one entry for each
record of the directory that the end record names; the records cover the directory without a
gap; each entry has the fields of its record, a local header with the same name, flags and
method, and data and a descriptor that end before the directory. The window returns the range
asked for, whatever was read before. A body that is read to its end has the size and the CRC-32
of its entry. -/
theorem zip_reader_is_safe (file : List UInt8) :
    (∀ opened : Nat → Bool,
      (∀ range ∈ (outcome (readZipEntries file opened) ZipReader.initial).2.ranges,
        0 ≤ range.start ∧ 0 < range.length ∧ range.start + range.length ≤ file.length) ∧
      ∀ eocd, (outcome (readZipEntries file opened) ZipReader.initial).1 = .ok eocd →
        let yielded := (outcome (readZipEntries file opened) ZipReader.initial).2.yielded
        EndRecordAt file eocd ∧ yielded.length = eocd.entryCount ∧
          Tiles eocd.cdOffset yielded (eocd.cdOffset + eocd.cdSize) ∧
          ∀ item ∈ yielded,
            CentralRecordAt file item.recordStart item.recordEnd item.entry ∧
              LocalHeaderOf file eocd.cdOffset item.entry item.dataStart ∧
              (item.entry.hasDescriptor = true →
                DescriptorOf file eocd.cdOffset item.entry item.dataStart)) ∧
      (∀ (cdEnd : Int) (earlier : List WindowRequest) (request : WindowRequest),
        cdEnd ≤ file.length → (∀ other ∈ earlier, other.InDirectory cdEnd) →
        request.InDirectory cdEnd →
        let cached := (outcome (windowReads file cdEnd earlier) ZipReader.initial).2
        (outcome (windowRead file cdEnd request.offset request.length request.what) cached).1 =
          .ok (slice file request.offset.toNat request.length.toNat)) ∧
      ∀ (inflateRaw : List (List UInt8) → Option (List (List UInt8))) (entry : CentralEntry)
        (raw : List (List UInt8)) (body : List UInt8),
        readBody inflateRaw entry raw = .ok body →
        body.length = entry.size ∧ (crc32 body 0).toNat = entry.crc := by
  refine ⟨?_, ?_, ?_⟩
  · intro opened
    have ensures := readZipEntries_ensures file opened
    constructor
    · intro range member
      have inside := ensures.1.ranges range member
      exact ⟨inside.start, inside.length, inside.stop⟩
    · intro eocd ended
      rcases ensures.2 eocd ended with ⟨isEnd, count, tiles, areTrue⟩
      refine ⟨isEnd, count, tiles, fun item member => ?_⟩
      have isTrue := areTrue item member
      exact ⟨isTrue.record, isTrue.header, isTrue.descriptor⟩
  · intro cdEnd earlier request inFile allowed inDirectory cached
    have sound : cached.Sound file :=
      (windowReads_ensures (ZipReader.sound_initial file) earlier allowed).1
    rcases windowRead_succeeds request.what cached inDirectory.1 inDirectory.2.1 inDirectory.2.2
      inFile with ⟨bytes, isRead⟩
    have isSlice := (windowRead_ensures sound inDirectory.2.1).2 bytes isRead
    rw [isRead, isSlice.1]
  · intro inflateRaw entry raw body result
    exact readBody_spec result

end Storix
