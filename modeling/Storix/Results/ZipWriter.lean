import Storix.Vfs.ZipWriter
import Mathlib.Algebra.BigOperators.Group.List.Basic

/-! # The ZIP writer writes ZIP32

What a finished run has put out is the local records of the entries, the directory and the end
record, with the true sizes and offsets in their fields. The one number that can reach the
ZIP64 sentinel is the size of an entry's content, which is not bounded by the result limit. -/

namespace Storix

open Foundation Command

/-! ## Records -/

theorem ZipRecord.encode_eq_ok {record : ZipRecord} {bytes : List UInt8}
    (result : record.encode = .ok bytes) : record.fits = true ∧ bytes = record.bytes := by
  unfold encode at result
  split at result
  case isTrue isFit => exact ⟨isFit, (Except.ok.inj result).symm⟩
  case isFalse => cases result

theorem ZipRecord.read_field {record : ZipRecord} (isFit : record.fits = true)
    {front back : List (Nat × Nat)} {field : Nat × Nat}
    (isField : record.fields = front ++ field :: back) :
    ofLittleEndian (slice record.bytes (front.map Prod.fst).sum field.1) = field.2 := by
  have before : (front.flatMap fun other => littleEndian other.1 other.2).length =
      (front.map Prod.fst).sum := by
    rw [List.length_flatMap]
    simp
  have small : field.2 < 256 ^ field.1 := by
    rw [fits, List.all_eq_true] at isFit
    exact of_decide_eq_true (isFit field (by rw [isField]; simp))
  rw [bytes, isField, List.flatMap_append, List.append_assoc, ← before,
    ← Nat.add_zero (List.length _), slice_append_right, List.flatMap_cons, List.append_assoc,
    slice_append_left _ (by simp)]
  have whole := slice_zero_length (littleEndian field.1 field.2)
  rw [littleEndian_length] at whole
  rw [whole, ofLittleEndian_littleEndian small]

/-! ## Writes -/

/-- The bytes put out are counted, and they are within the limit. -/
structure ZipOutput.Counted (options : ZipWriterOptions) (written : ZipOutput) : Prop where
  length : written.output.length = written.totalBytes
  limit : (written.totalBytes : Int) ≤ options.maxResultBytes

theorem writeBytes_satisfies {options : ZipWriterOptions} (bytes : List UInt8)
    {current : ZipOutput} (counted : current.Counted options) :
    Satisfies (writeBytes options bytes)
      (fun _ next => next.Counted options ∧ next.output = current.output ++ bytes)
      (fun _ => True) current := by
  unfold Satisfies writeBytes
  dsimp only
  split
  case h_1 value next result =>
    split at result
    · cases result
    · split at result
      · cases result
      · cases result
        refine ⟨⟨?_, ?_⟩, rfl⟩
        · rw [List.length_append, counted.length]
        · dsimp only
          omega
  case h_2 => trivial

theorem writeRecord_satisfies {options : ZipWriterOptions} (record : ZipRecord)
    {current : ZipOutput} (counted : current.Counted options) :
    Satisfies (writeRecord options record)
      (fun _ next => record.fits = true ∧ next.Counted options ∧
        next.output = current.output ++ record.bytes)
      (fun _ => True) current := by
  unfold writeRecord
  rw [satisfies_bind, satisfies_lift]
  refine ⟨?_, fun _ _ => trivial⟩
  intro bytes encoded
  rcases ZipRecord.encode_eq_ok encoded with ⟨isFit, rfl⟩
  exact (writeBytes_satisfies record.bytes counted).imp fun _ _ holds => ⟨isFit, holds⟩

theorem forEach_writeBytes_satisfies {options : ZipWriterOptions} (chunks : List (List UInt8))
    {current : ZipOutput} (counted : current.Counted options) :
    Satisfies (forEach (writeBytes options) chunks)
      (fun _ next => next.Counted options ∧ next.output = current.output ++ chunks.flatten)
      (fun _ => True) current := by
  induction chunks generalizing current with
  | nil => exact ⟨counted, by simp⟩
  | cons chunk rest induction =>
      apply (writeBytes_satisfies chunk counted).bind
      intro _ next holds
      apply (induction holds.1).imp
      intro _ last later
      refine ⟨later.1, ?_⟩
      rw [later.2, holds.2, List.append_assoc, List.flatten_cons]

theorem toZip32Number_eq_ok {value number : Nat} (result : toZip32Number value = .ok number) :
    number = value ∧ value ≤ zip32Max := by
  unfold toZip32Number at result
  split at result
  · cases result
  · cases result
    exact ⟨rfl, by omega⟩

/-! ## Entries -/

/-- The size and the checksum that the integrity stage counts are those of the content. -/
theorem integrity_spec {chunks : List (List UInt8)} {start seen : ZipIntegrity}
    (result : chunks.foldlM integrityChunk start = .ok seen) :
    seen.uncompressedSize = start.uncompressedSize + chunks.flatten.length ∧
      seen.crc = crc32 chunks.flatten start.crc := by
  induction chunks generalizing start with
  | nil =>
      cases result
      exact ⟨rfl, (crc32_nil _).symm⟩
  | cons chunk rest induction =>
      rw [List.foldlM_cons, integrityChunk] at result
      split at result
      · cases result
      · rcases induction result with ⟨isSize, isCrc⟩
        rw [List.flatten_cons, List.length_append, crc32_append]
        exact ⟨by rw [isSize, Nat.add_assoc], isCrc⟩

theorem integrity_passes {chunks : List (List UInt8)} {start : ZipIntegrity}
    (small : start.uncompressedSize + chunks.flatten.length ≤ zip32Max) :
    ∃ seen, chunks.foldlM integrityChunk start = .ok seen := by
  induction chunks generalizing start with
  | nil => exact ⟨start, rfl⟩
  | cons chunk rest induction =>
      rw [List.flatten_cons, List.length_append] at small
      rw [List.foldlM_cons, integrityChunk, if_neg (by omega)]
      exact induction (by rw [Nat.add_assoc]; exact small)

structure ZipPart.WrittenFor (options : ZipWriterOptions) (entry : ZipWriterEntry)
    (part : ZipPart) : Prop where
  content : ∃ chunks, entry.source = some chunks ∧
    part.uncompressedSize = chunks.flatten.length ∧ part.crc = crc32 chunks.flatten 0
  compressed : part.compressedSize = part.data.length
  localHeader : part.localHeader =
    encodeLocalFileHeader (JsString.utf8 entry.name) entry.modifiedAt options.method
  descriptor : part.descriptor =
    encodeDataDescriptor part.crc part.compressedSize part.uncompressedSize
  central : part.central =
    encodeCentralDirectoryEntry (JsString.utf8 entry.name) entry.modifiedAt options.method part.crc
      part.compressedSize part.uncompressedSize part.localHeaderOffset

def ZipPart.records (part : ZipPart) : List ZipRecord :=
  [part.localHeader, part.descriptor, part.central]

theorem writeEntry_satisfies (deflateRaw : Int → List (List UInt8) → List (List UInt8))
    {options : ZipWriterOptions} (entry : ZipWriterEntry) {current : ZipOutput}
    (counted : current.Counted options) :
    Satisfies (writeEntry deflateRaw options entry)
      (fun part next => part.WrittenFor options entry ∧ next.Counted options ∧
        next.output = current.output ++ part.bytes ∧
        part.localHeaderOffset = current.totalBytes ∧
        ∀ record ∈ part.records, record.fits = true) (fun _ => True) current := by
  unfold writeEntry
  dsimp only
  rw [satisfies_ite]
  refine ⟨fun _ => trivial, fun _ => ?_⟩
  rw [satisfies_bind, satisfies_state, satisfies_bind, satisfies_lift]
  refine ⟨?_, fun _ _ => trivial⟩
  intro localHeaderOffset isOffset
  apply (writeRecord_satisfies _ counted).bind
  rintro _ afterHeader ⟨headerFits, headerCounted, headerOutput⟩
  rw [satisfies_bind, satisfies_lift]
  refine ⟨?_, fun _ _ => trivial⟩
  intro chunks isSource
  rw [satisfies_bind, satisfies_lift]
  refine ⟨?_, fun _ _ => trivial⟩
  intro seen isSeen
  apply (forEach_writeBytes_satisfies _ headerCounted).bind
  rintro _ afterData ⟨dataCounted, dataOutput⟩
  generalize compressedChunks deflateRaw options chunks = data at dataOutput
  rw [satisfies_bind, satisfies_lift]
  refine ⟨?_, fun _ _ => trivial⟩
  intro compressed isCompressed
  rw [satisfies_bind, satisfies_lift]
  refine ⟨?_, fun _ _ => trivial⟩
  intro uncompressed isUncompressed
  apply (writeRecord_satisfies _ dataCounted).bind
  rintro _ last ⟨descriptorFits, lastCounted, lastOutput⟩
  rw [satisfies_bind, satisfies_lift]
  refine ⟨?_, fun _ _ => trivial⟩
  intro _ encoded
  have centralFits := (ZipRecord.encode_eq_ok encoded).1
  have isNumber := (toZip32Number_eq_ok isUncompressed).1
  rcases integrity_spec isSeen with ⟨isSize, isCrc⟩
  rw [Nat.zero_add] at isSize
  refine ⟨⟨⟨chunks, ?_, isNumber.trans isSize, isCrc⟩, ?_, rfl, rfl, rfl⟩, lastCounted, ?_, ?_, ?_⟩
  · cases source : entry.source with
    | none => simp [source] at isSource
    | some found => simpa [source] using isSource
  · rw [(toZip32Number_eq_ok isCompressed).1, List.length_flatten]
  · rw [lastOutput, dataOutput, headerOutput, ZipPart.bytes]
    simp
  · exact (toZip32Number_eq_ok isOffset).1
  · intro record member
    simp only [ZipPart.records, List.mem_cons, List.not_mem_nil, or_false] at member
    rcases member with rfl | rfl | rfl
    · exact headerFits
    · exact descriptorFits
    · exact centralFits

/-! ## Archives -/

/-- The offsets of the parts are the places where they begin, from `start` on. -/
def OffsetsFrom (start : Nat) : List ZipPart → Prop
  | [] => True
  | part :: rest => part.localHeaderOffset = start ∧ OffsetsFrom (start + part.bytes.length) rest

theorem offsetsFrom_append {start : Nat} {parts : List ZipPart} {part : ZipPart}
    (offsets : OffsetsFrom start parts)
    (place : part.localHeaderOffset = start + (parts.flatMap ZipPart.bytes).length) :
    OffsetsFrom start (parts ++ [part]) := by
  induction parts generalizing start with
  | nil => exact ⟨by simpa using place, trivial⟩
  | cons first rest induction =>
      refine ⟨offsets.1, induction offsets.2 ?_⟩
      rw [place, List.flatMap_cons, List.length_append]
      omega

structure WrittenParts (options : ZipWriterOptions) (entries : List ZipWriterEntry)
    (parts : List ZipPart) (written : ZipOutput) : Prop where
  counted : written.Counted options
  output : written.output = parts.flatMap ZipPart.bytes
  each : List.Forall₂ (ZipPart.WrittenFor options) entries parts
  offsets : OffsetsFrom 0 parts
  fits : ∀ part ∈ parts, ∀ record ∈ part.records, record.fits = true

theorem collect_writeEntry_satisfies
    (deflateRaw : Int → List (List UInt8) → List (List UInt8)) {options : ZipWriterOptions}
    (entries : List ZipWriterEntry) {current : ZipOutput}
    (started : WrittenParts options [] [] current) :
    Satisfies (collect (writeEntry deflateRaw options) entries)
      (fun parts next => WrittenParts options entries parts next) (fun _ => True) current := by
  have step : ∀ entry rest parts next,
      (∃ done, entries = done ++ entry :: rest ∧ WrittenParts options done parts next) →
        Satisfies (writeEntry deflateRaw options entry)
          (fun part last => ∃ done, entries = done ++ rest ∧
            WrittenParts options done (parts ++ [part]) last) (fun _ => True) next := by
    rintro entry rest parts next ⟨done, isAll, written⟩
    apply (writeEntry_satisfies deflateRaw entry written.counted).imp
    rintro part last ⟨isPart, counted, output, offset, fits⟩
    refine ⟨done ++ [entry], by rw [isAll, List.append_assoc]; rfl, counted, ?_, ?_, ?_, ?_⟩
    · rw [output, written.output]
      simp
    · exact List.rel_append written.each (.cons isPart .nil)
    · apply offsetsFrom_append written.offsets
      rw [offset, ← written.counted.length, written.output, Nat.zero_add]
    · intro other member
      rcases List.mem_append.mp member with old | new
      · exact written.fits other old
      · rw [List.mem_singleton.mp new]
        exact fits
  apply (satisfies_collect (fun rest parts next => ∃ done, entries = done ++ rest ∧
    WrittenParts options done parts next) step entries [] ⟨[], rfl, started⟩).imp
  rintro parts next ⟨done, isAll, written⟩
  rw [List.append_nil] at isAll
  exact isAll ▸ written

theorem forEach_central_satisfies {options : ZipWriterOptions} (parts : List ZipPart)
    {current : ZipOutput} (counted : current.Counted options) :
    Satisfies (forEach (fun part => writeBytes options part.central.bytes) parts)
      (fun _ next => next.Counted options ∧
        next.output = current.output ++ parts.flatMap fun part => part.central.bytes)
      (fun _ => True) current := by
  induction parts generalizing current with
  | nil => exact ⟨counted, by simp⟩
  | cons part rest induction =>
      apply (writeBytes_satisfies part.central.bytes counted).bind
      intro _ next holds
      apply (induction holds.1).imp
      intro _ last later
      refine ⟨later.1, ?_⟩
      rw [later.2, holds.2, List.append_assoc, List.flatMap_cons]

theorem exists_of_mem_right {α β : Type} {related : α → β → Prop} {left : List α} {right : List β}
    (all : List.Forall₂ related left right) {item : β} (member : item ∈ right) :
    ∃ other ∈ left, related other item := by
  induction all with
  | nil => cases member
  | cons here later induction =>
      rcases List.mem_cons.mp member with same | inside
      · exact ⟨_, List.mem_cons_self, same ▸ here⟩
      · rcases induction inside with ⟨other, found, isRelated⟩
        exact ⟨other, List.mem_cons_of_mem _ found, isRelated⟩

def ZipArchive.records (archive : ZipArchive) : List ZipRecord :=
  archive.parts.flatMap ZipPart.records ++ [archive.endRecord]

/-- What a finished run has put out is its parts, its directory and its end record; all numbers
fit their fields and are read back from them, and the offsets and sizes are the true ones. -/
structure FinishedZip (options : ZipWriterOptions) (entries : List ZipWriterEntry)
    (archive : ZipArchive) (written : ZipOutput) : Prop where
  fits : ∀ record ∈ archive.records, ∀ field ∈ record.fields, field.2 < 256 ^ field.1
  readBack : ∀ record ∈ archive.records, ∀ front field back,
    record.fields = front ++ field :: back →
      ofLittleEndian (slice record.bytes (front.map Prod.fst).sum field.1) = field.2
  each : List.Forall₂ (ZipPart.WrittenFor options) entries archive.parts
  endRecord : archive.endRecord =
    encodeEndOfCentralDirectory entries.length archive.directorySize archive.directoryOffset
  layout : written.output = archive.parts.flatMap ZipPart.bytes ++
    (archive.parts.flatMap fun part => part.central.bytes) ++ archive.endRecord.bytes
  offsets : OffsetsFrom 0 archive.parts
  directoryOffset : archive.directoryOffset = (archive.parts.flatMap ZipPart.bytes).length
  directorySize : archive.directorySize =
    (archive.parts.flatMap fun part => part.central.bytes).length
  length : written.output.length = written.totalBytes
  limit : (written.totalBytes : Int) ≤ options.maxResultBytes

def NoSentinel (entries : List ZipWriterEntry) (archive : ZipArchive) : Prop :=
  entries.length ≠ 0xffff ∧ archive.directoryOffset ≠ 0xffffffff ∧
    archive.directorySize ≠ 0xffffffff ∧
    ∀ part ∈ archive.parts, part.localHeaderOffset ≠ 0xffffffff ∧
      part.compressedSize ≠ 0xffffffff ∧ part.uncompressedSize ≠ 0xffffffff

theorem runZipWriter_satisfies (deflateRaw : Int → List (List UInt8) → List (List UInt8))
    {options : ZipWriterOptions} (entries : List ZipWriterEntry)
    (positive : 0 ≤ options.maxResultBytes) :
    Satisfies (runZipWriter deflateRaw options entries)
      (fun archive written => FinishedZip options entries archive written) (fun _ => True)
      ⟨0, []⟩ := by
  unfold runZipWriter
  apply (collect_writeEntry_satisfies deflateRaw entries
    ⟨⟨rfl, positive⟩, rfl, .nil, trivial, by simp⟩).bind
  intro parts afterParts written
  rw [satisfies_bind, satisfies_state, satisfies_bind, satisfies_lift]
  refine ⟨?_, fun _ _ => trivial⟩
  intro directoryOffset isOffset
  dsimp only
  rw [satisfies_bind, satisfies_lift]
  refine ⟨?_, fun _ _ => trivial⟩
  intro _ _
  apply (forEach_central_satisfies parts written.counted).bind
  rintro _ afterDirectory ⟨directoryCounted, directoryOutput⟩
  apply (writeRecord_satisfies _ directoryCounted).bind
  rintro _ last ⟨endFits, lastCounted, lastOutput⟩
  have allFit : ∀ record ∈ ZipArchive.records ⟨parts, directoryOffset,
      (parts.map fun part => part.central.bytes.length).sum,
      encodeEndOfCentralDirectory entries.length
        (parts.map fun part => part.central.bytes.length).sum directoryOffset⟩,
      record.fits = true := by
    intro record member
    rcases List.mem_append.mp member with inParts | isEnd
    · rcases List.mem_flatMap.mp inParts with ⟨part, inside, isRecord⟩
      exact written.fits part inside record isRecord
    · rw [List.mem_singleton.mp isEnd]
      exact endFits
  constructor
  case fits =>
    intro record member field inside
    have isFit := allFit record member
    rw [ZipRecord.fits, List.all_eq_true] at isFit
    exact of_decide_eq_true (isFit field inside)
  case readBack =>
    intro record member front field back isField
    exact ZipRecord.read_field (allFit record member) isField
  case each => exact written.each
  case endRecord => rfl
  case layout => rw [lastOutput, directoryOutput, written.output]
  case offsets => exact written.offsets
  case directoryOffset =>
    rw [← written.output, written.counted.length]
    exact (toZip32Number_eq_ok isOffset).1
  case directorySize => rw [List.length_flatMap]
  case length => exact lastCounted.length
  case limit => exact lastCounted.limit

theorem part_inside {start : Nat} {parts : List ZipPart} (offsets : OffsetsFrom start parts)
    {part : ZipPart} (member : part ∈ parts) :
    part.localHeaderOffset + part.bytes.length ≤
      start + (parts.flatMap ZipPart.bytes).length := by
  induction parts generalizing start with
  | nil => cases member
  | cons first rest induction =>
      rw [List.flatMap_cons, List.length_append]
      rcases List.mem_cons.mp member with same | later
      · rw [same, offsets.1]
        omega
      · have inside := induction offsets.2 later
        omega

theorem noSentinel_iff {options : ZipWriterOptions} {entries : List ZipWriterEntry}
    {archive : ZipArchive} {written : ZipOutput}
    (finished : FinishedZip options entries archive written) (few : entries.length ≤ 65534)
    (limit : options.maxResultBytes ≤ zipMaxResultBytes) :
    NoSentinel entries archive ↔ ∀ part ∈ archive.parts, part.uncompressedSize ≠ 0xffffffff := by
  constructor
  · intro none part member
    exact (none.2.2.2 part member).2.2
  · intro sizes
    have total : written.output.length ≤ zipMaxResultBytes := by
      have bound := finished.limit
      rw [← finished.length] at bound
      omega
    rw [finished.layout, List.length_append, List.length_append] at total
    unfold zipMaxResultBytes at total
    refine ⟨by omega, ?_, ?_, ?_⟩
    · rw [finished.directoryOffset]
      omega
    · rw [finished.directorySize]
      omega
    · intro part member
      have inside := part_inside finished.offsets member
      rcases exists_of_mem_right finished.each member with ⟨entry, -, isPart⟩
      have isData := isPart.compressed
      rw [ZipPart.bytes, List.length_append, List.length_append] at inside
      exact ⟨by omega, by omega, sizes part member⟩

/-- A finished archive is plain ZIP32 exactly when no entry has a content of `0xffffffff`
bytes. -/
theorem zip_writer_writes_zip32 (deflateRaw : Int → List (List UInt8) → List (List UInt8))
    (options : ZipWriterOptions) (entries : List ZipWriterEntry) (archive : ZipArchive)
    (written : ZipOutput)
    (result : createZipWriter deflateRaw options entries = .ok (archive, written)) :
    FinishedZip options entries archive written ∧ NoSentinel entries archive ↔
      ∀ entry ∈ entries, ∀ chunks, entry.source = some chunks →
        chunks.flatten.length ≠ 0xffffffff := by
  unfold createZipWriter at result
  split at result
  · cases result
  · rename_i few
    split at result
    · cases result
    · split at result
      · cases result
      · rename_i limit
        have finished : FinishedZip options entries archive written :=
          (runZipWriter_satisfies deflateRaw entries (by omega)).of_ok result
        rw [noSentinel_iff finished (by omega) (by omega)]
        constructor
        · rintro ⟨-, sizes⟩ entry member chunks isSource
          rcases exists_of_mem_right finished.each.flip member with ⟨part, inside, isPart⟩
          rcases isPart.content with ⟨found, isFound, isSize, -⟩
          rw [isSource] at isFound
          cases isFound
          rw [← isSize]
          exact sizes part inside
        · intro sizes
          refine ⟨finished, fun part inside => ?_⟩
          rcases exists_of_mem_right finished.each inside with ⟨entry, member, isPart⟩
          rcases isPart.content with ⟨chunks, isSource, isSize, -⟩
          rw [isSize]
          exact sizes entry member chunks isSource

/-- A finished archive of one stored file with the content `a`. -/
theorem zip_writer_writes_zip32_small :
    ∃ archive written,
      createZipWriter (fun _ chunks => chunks) ⟨0, 1000⟩ [⟨[0x66], some 0, some [[0x61]]⟩] =
          .ok (archive, written) ∧
        FinishedZip ⟨0, 1000⟩ [⟨[0x66], some 0, some [[0x61]]⟩] archive written ∧
        NoSentinel [⟨[0x66], some 0, some [[0x61]]⟩] archive := by
  cases result : createZipWriter (fun _ chunks => chunks) ⟨0, 1000⟩
      [⟨[0x66], some 0, some [[0x61]]⟩] with
  | error error =>
      have succeeds : (createZipWriter (fun _ chunks => chunks) ⟨0, 1000⟩
          [⟨[0x66], some 0, some [[0x61]]⟩]).isOk = true := by decide +kernel
      rw [result] at succeeds
      cases succeeds
  | ok value =>
      refine ⟨value.1, value.2, rfl, ?_⟩
      apply (zip_writer_writes_zip32 _ _ _ _ _ result).mpr
      intro entry member chunks isSource
      rw [List.mem_singleton.mp member] at isSource
      cases isSource
      decide

/-! ## Content that reaches the sentinel -/

def packBits : List Bool → List UInt8
  | first :: second :: third :: fourth :: fifth :: sixth :: seventh :: eighth :: rest =>
      byteOf [first, second, third, fourth, fifth, sixth, seventh, eighth] :: packBits rest
  | [] => []
  | short => [byteOf short]
where
  byteOf (bits : List Bool) : UInt8 :=
    UInt8.ofNat (bits.foldr (fun bit value => bit.toNat + 2 * value) 0)

/-- A raw DEFLATE stream of `count` zero bytes, in one block with fixed codes: a literal 0,
matches of 258 bytes at distance 1, literals for the rest, and the end of the block. -/
def zeroStream (count : Nat) : List UInt8 :=
  let literal := [false, false, true, true, false, false, false, false]
  let longest := [true, true, false, false, false, true, false, true] ++ List.replicate 5 false
  packBits ([true, true, false] ++ literal ++
    (List.replicate ((count - 1) / 258) longest).flatten ++
    (List.replicate ((count - 1) % 258) literal).flatten ++ List.replicate 7 false)

theorem length_packBits_le (bits : List Bool) : (packBits bits).length ≤ bits.length := by
  fun_induction packBits bits with
  | case1 => simp_all; omega
  | case2 => simp
  | case3 short => cases short <;> simp_all

theorem length_zeroStream_le (count : Nat) :
    (zeroStream count).length ≤ 18 + 13 * ((count - 1) / 258) + 8 * ((count - 1) % 258) := by
  unfold zeroStream
  apply Nat.le_trans (length_packBits_le _)
  simp only [List.length_append, List.length_flatten, List.map_replicate,
    List.sum_replicate_nat, List.length_cons, List.length_nil, List.length_replicate]
  omega

theorem writeBytes_succeeds {options : ZipWriterOptions} {bytes : List UInt8}
    {current : ZipOutput}
    (inLimit : ((current.totalBytes + bytes.length : Nat) : Int) ≤ options.maxResultBytes)
    (small : current.totalBytes + bytes.length ≤ zip32Max) :
    Satisfies (writeBytes options bytes)
      (fun _ next => next.totalBytes = current.totalBytes + bytes.length) (fun _ => False)
      current := by
  unfold Satisfies writeBytes
  dsimp only
  rw [if_neg (by omega), if_neg (by omega)]

theorem writeRecord_succeeds {options : ZipWriterOptions} {record : ZipRecord}
    {current : ZipOutput} (isFit : record.fits = true)
    (inLimit : ((current.totalBytes + record.bytes.length : Nat) : Int) ≤ options.maxResultBytes)
    (small : current.totalBytes + record.bytes.length ≤ zip32Max) :
    Satisfies (writeRecord options record)
      (fun _ next => next.totalBytes = current.totalBytes + record.bytes.length)
      (fun _ => False) current := by
  unfold writeRecord
  rw [satisfies_bind, ZipRecord.encode, if_pos isFit, satisfies_lift_ok]
  exact writeBytes_succeeds inLimit small

/-- A deflated file `f` of up to `0xffffffff` bytes that compresses well is written. -/
theorem single_entry_succeeds (deflateRaw : Int → List (List UInt8) → List (List UInt8))
    {chunks : List (List UInt8)} {data : List UInt8} (isData : deflateRaw 6 chunks = [data])
    (sizeFits : chunks.flatten.length ≤ zip32Max) (dataFits : data.length ≤ 2000000000) :
    Satisfies (writeEntry deflateRaw ⟨6, 2147483648⟩ ⟨[0x66], some 0, some chunks⟩)
      (fun part next => next.totalBytes = data.length + 47 ∧ part.central.bytes.length = 47)
      (fun _ => False) ⟨0, []⟩ := by
  have isMax : zip32Max = 4294967295 := rfl
  have dos : toDosDateTime (some 0) = (0, 33) := by decide
  rcases integrity_passes (show (⟨0, 0⟩ : ZipIntegrity).uncompressedSize + chunks.flatten.length ≤
    zip32Max by simpa using sizeFits) with ⟨seen, isSeen⟩
  have isSize := (integrity_spec isSeen).1
  have crcFits := seen.crc.toNat_lt
  dsimp only at isSize
  unfold writeEntry
  dsimp only
  rw [satisfies_ite]
  refine ⟨fun long => absurd long (by decide), fun _ => ?_⟩
  rw [satisfies_bind, satisfies_state, satisfies_bind, toZip32Number, if_neg (by simp),
    satisfies_lift_ok]
  have isName : JsString.utf8 [0x66] = [0x66] := by decide
  rw [isName]
  have method : ZipWriterOptions.method ⟨6, 2147483648⟩ = 8 := by decide
  rw [method]
  have header : (encodeLocalFileHeader [0x66] (some 0) 8).fits = true ∧
      (encodeLocalFileHeader [0x66] (some 0) 8).bytes.length = 31 := by decide
  apply (writeRecord_succeeds header.1 (by rw [header.2]; decide) (by rw [header.2]; decide)).bind
  intro _ afterHeader headerTotal
  rw [header.2] at headerTotal
  dsimp only [Option.elim] at headerTotal ⊢
  rw [satisfies_bind, satisfies_lift_ok, satisfies_bind, isSeen, satisfies_lift_ok]
  have isChunks : compressedChunks deflateRaw ⟨6, 2147483648⟩ chunks = [data] := by
    rw [compressedChunks, method, if_pos rfl]
    exact isData
  rw [isChunks, forEach, forEach, satisfies_bind, satisfies_bind]
  apply (writeBytes_succeeds (by dsimp only; omega) (by omega)).imp
  intro _ afterData dataTotal
  rw [satisfies_pure, satisfies_bind, List.map_singleton, List.sum_singleton, toZip32Number,
    if_neg (by omega), satisfies_lift_ok, satisfies_bind, toZip32Number, if_neg (by omega),
    satisfies_lift_ok]
  have descriptor : (encodeDataDescriptor seen.crc data.length seen.uncompressedSize).fits = true ∧
      (encodeDataDescriptor seen.crc data.length seen.uncompressedSize).bytes.length = 16 := by
    constructor
    · simp only [ZipRecord.fits, encodeDataDescriptor, List.all_cons, List.all_nil, Bool.and_true,
        Bool.and_eq_true, decide_eq_true_eq]
      omega
    · simp [ZipRecord.bytes, encodeDataDescriptor]
  apply (writeRecord_succeeds descriptor.1 (by rw [descriptor.2]; dsimp only; omega)
    (by rw [descriptor.2]; omega)).bind
  intro _ last lastTotal
  rw [descriptor.2] at lastTotal
  have central : (encodeCentralDirectoryEntry [0x66] (some 0) 8 seen.crc data.length
      seen.uncompressedSize 0).fits = true ∧ (encodeCentralDirectoryEntry [0x66] (some 0) 8 seen.crc
        data.length seen.uncompressedSize 0).bytes.length = 47 := by
    constructor
    · simp only [ZipRecord.fits, encodeCentralDirectoryEntry, dos, zipFlags, List.all_cons,
        List.all_nil, Bool.and_true, Bool.and_eq_true, decide_eq_true_eq, List.length_singleton]
      omega
    · simp [ZipRecord.bytes, encodeCentralDirectoryEntry]
  rw [satisfies_bind, ZipRecord.encode, if_pos central.1, satisfies_lift_ok, satisfies_pure]
  exact ⟨by omega, central.2⟩

theorem single_entry_finishes (deflateRaw : Int → List (List UInt8) → List (List UInt8))
    {chunks : List (List UInt8)} {data : List UInt8} (isData : deflateRaw 6 chunks = [data])
    (sizeFits : chunks.flatten.length ≤ zip32Max) (dataFits : data.length ≤ 2000000000) :
    Satisfies (runZipWriter deflateRaw ⟨6, 2147483648⟩ [⟨[0x66], some 0, some chunks⟩])
      (fun _ _ => True) (fun _ => False) ⟨0, []⟩ := by
  have isMax : zip32Max = 4294967295 := rfl
  unfold runZipWriter
  rw [satisfies_bind, collect, collect, satisfies_bind]
  apply (single_entry_succeeds deflateRaw isData sizeFits dataFits).imp
  rintro part afterPart ⟨partTotal, centralLength⟩
  rw [satisfies_bind, satisfies_pure, satisfies_pure, satisfies_bind, satisfies_state,
    satisfies_bind, toZip32Number, if_neg (by omega), satisfies_lift_ok]
  dsimp only
  rw [List.map_singleton, List.sum_singleton, centralLength, satisfies_bind, toZip32Number,
    if_neg (by omega), satisfies_lift_ok, satisfies_bind, forEach, forEach, satisfies_bind]
  apply (writeBytes_succeeds (by dsimp only; omega) (by omega)).imp
  intro _ afterDirectory directoryTotal
  rw [satisfies_pure, satisfies_bind]
  have ending : (encodeEndOfCentralDirectory 1 47 afterPart.totalBytes).fits = true ∧
      (encodeEndOfCentralDirectory 1 47 afterPart.totalBytes).bytes.length = 22 := by
    constructor
    · simp only [ZipRecord.fits, encodeEndOfCentralDirectory, List.all_cons, List.all_nil,
        Bool.and_true, Bool.and_eq_true, decide_eq_true_eq]
      omega
    · simp [ZipRecord.bytes, encodeEndOfCentralDirectory]
  apply (writeRecord_succeeds ending.1 (by rw [ending.2]; dsimp only; omega)
    (by rw [ending.2]; omega)).imp
  intro _ last _
  trivial

/-- A deflated file of `0xffffffff` zero bytes is written with the sentinel as its size. -/
theorem zeros_are_written {chunks : List (List UInt8)}
    (isSize : chunks.flatten.length = 0xffffffff) :
    ∃ archive written,
      createZipWriter (fun _ chunks => [zeroStream chunks.flatten.length]) ⟨6, 2147483648⟩
          [⟨[0x66], some 0, some chunks⟩] = .ok (archive, written) ∧
        ∃ part ∈ archive.parts, part.uncompressedSize = 0xffffffff := by
  have small : (zeroStream chunks.flatten.length).length ≤ 2000000000 := by
    apply Nat.le_trans (length_zeroStream_le _)
    rw [isSize]
    decide
  have fits : chunks.flatten.length ≤ zip32Max := Nat.le_of_eq isSize
  rcases (single_entry_finishes (fun _ chunks => [zeroStream chunks.flatten.length]) rfl fits
    small).exists_ok with ⟨archive, written, result, -⟩
  have finished := (runZipWriter_satisfies _ _ (by decide)).of_ok result
  refine ⟨archive, written, ?_, ?_⟩
  · unfold createZipWriter
    rw [if_neg (by simp), if_neg (by simp), if_neg (by decide)]
    exact result
  · rcases exists_of_mem_right finished.each.flip List.mem_cons_self with ⟨part, inside, isPart⟩
    rcases isPart.content with ⟨found, isFound, size, -⟩
    cases isFound
    exact ⟨part, inside, size.trans isSize⟩

/-- `0xffffffff` zero bytes, in chunks. -/
def sentinelContent : List (List UInt8) := List.replicate 65537 (List.replicate 65535 0)

theorem length_sentinelContent : sentinelContent.flatten.length = 0xffffffff := by
  rw [sentinelContent, List.length_flatten, List.map_replicate, List.sum_replicate_nat,
    List.length_replicate]

/-- The writer finishes, and a size that it has written is the sentinel. -/
theorem sentinel_size_is_written :
    ∃ archive written,
      createZipWriter (fun _ chunks => [zeroStream chunks.flatten.length]) ⟨6, 2147483648⟩
          [⟨[0x66], some 0, some sentinelContent⟩] = .ok (archive, written) ∧
        ∃ part ∈ archive.parts, part.uncompressedSize = 0xffffffff :=
  zeros_are_written length_sentinelContent

end Storix
