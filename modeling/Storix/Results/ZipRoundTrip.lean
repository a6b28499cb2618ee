import Storix.Results.ZipReader
import Storix.Results.ZipWriter
import Storix.Vfs.ExtractEntryPlan

/-! # ZIP archives are read back

The reader accepts what a finished run of the writer has put out, and yields a file for each
entry, in order and with its content. A name comes back unless it begins with a byte order mark,
which the decoder of names drops. -/

namespace Storix

open Foundation JsString Attempt

/-! ## Bytes at a place -/

def StandsAt (file : List UInt8) (place : Nat) (bytes : List UInt8) : Prop :=
  slice file place bytes.length = bytes

theorem standsAt_append (front bytes back : List UInt8) :
    StandsAt (front ++ bytes ++ back) front.length bytes := by
  have start := slice_append_right front (bytes ++ back) 0 bytes.length
  rw [← List.append_assoc, Nat.add_zero] at start
  rw [StandsAt, start, slice_append_left back (by omega), slice_zero_length]

theorem StandsAt.slice {file bytes : List UInt8} {place offset length : Nat}
    (stands : StandsAt file place bytes) (inside : offset + length ≤ bytes.length) :
    slice file (place + offset) length = Foundation.slice bytes offset length := by
  rw [← slice_slice inside, stands]

theorem StandsAt.part {file front bytes back : List UInt8} {place : Nat}
    (stands : StandsAt file place (front ++ bytes ++ back)) :
    StandsAt file (place + front.length) bytes := by
  have inside : front.length + bytes.length ≤ (front ++ bytes ++ back).length := by
    simp
  rw [StandsAt, stands.slice inside]
  exact standsAt_append front bytes back

/-! ## Fields of records -/

theorem ZipRecord.length_bytes (record : ZipRecord) :
    record.bytes.length = (record.fields.map Prod.fst).sum + record.tail.length := by
  rw [bytes, List.length_append, List.length_flatMap]
  simp

theorem ZipRecord.read_index {record : ZipRecord} (isFit : record.fits = true)
    {widths : List Nat} (isWidths : record.fields.map Prod.fst = widths) {index offset : Nat}
    {field : Nat × Nat} (isField : record.fields[index]? = some field)
    (place : (widths.take index).sum = offset) :
    ofLittleEndian (slice record.bytes offset field.1) = field.2 := by
  rcases List.getElem?_eq_some_iff.mp isField with ⟨inside, isElement⟩
  rw [← place, ← isWidths, ← List.map_take]
  apply ZipRecord.read_field isFit
  rw [← isElement, ← List.drop_eq_getElem_cons inside, List.take_append_drop]

theorem ZipRecord.slice_tail {record : ZipRecord} {widths : List Nat}
    (isWidths : record.fields.map Prod.fst = widths) {offset : Nat} (place : widths.sum = offset) :
    slice record.bytes offset record.tail.length = record.tail := by
  have before : (record.fields.flatMap fun field => littleEndian field.1 field.2).length =
      offset := by
    rw [← place, ← isWidths, List.length_flatMap]
    simp
  rw [bytes, ← before, ← Nat.add_zero (List.length (List.flatMap _ _)), slice_append_right,
    slice_zero_length]

/-! ## Ranges -/

theorem readExact_returns {file : List UInt8} {start length : Int} {what : ZipRead}
    {entryName : JsString} {reader : ZipReader} (sound : reader.Sound file) (first : 0 ≤ start)
    (nonneg : 0 ≤ length) (inside : start + length ≤ file.length) :
    Returns (readExact file start length what entryName)
      (fun bytes next => next.Sound file ∧ bytes = slice file start.toNat length.toNat ∧
        next.yielded = reader.yielded) reader := by
  have count : (slice file start.toNat length.toNat).length = length.toNat :=
    length_slice (by omega)
  have succeeds : Returns (readExact file start length what entryName) (fun _ _ => True)
      reader := by
    unfold readExact
    apply returns_refuseIf_bind (by omega)
    by_cases isZero : length = 0
    · rw [if_pos isZero]
      exact returns_pure trivial
    · rw [if_neg isZero]
      apply returns_update_bind
      apply returns_refuseIf_bind (by omega)
      exact returns_pure trivial
  apply (succeeds.ensured (readExact_ensures sound nonneg)).imp
  intro bytes next holds
  exact ⟨holds.1, holds.2.1, holds.2.2.2.2⟩

theorem windowRead_returns {file : List UInt8} {cdEnd offset length : Int} {what : ZipRead}
    {reader : ZipReader} (sound : reader.Sound file) (first : 0 ≤ offset) (nonneg : 0 ≤ length)
    (inside : offset + length ≤ cdEnd) (ends : cdEnd ≤ file.length) :
    Returns (windowRead file cdEnd offset length what)
      (fun bytes next => next.Sound file ∧ bytes = slice file offset.toNat length.toNat ∧
        next.yielded = reader.yielded) reader := by
  have moves : Returns (moveWindow file cdEnd offset length what) (fun _ _ => True) reader := by
    unfold moveWindow
    apply returns_state_bind
    split
    · apply (readExact_returns sound first (by omega) (by split <;> omega)).bind
      intro bytes next holds
      exact returns_update trivial
    · exact returns_pure trivial
  have succeeds : Returns (windowRead file cdEnd offset length what) (fun _ _ => True) reader := by
    unfold windowRead
    apply moves.bind
    intro _ next _
    apply returns_state_bind
    exact returns_pure trivial
  apply (succeeds.ensured (windowRead_ensures sound nonneg)).imp
  intro bytes next holds
  exact ⟨holds.1, holds.2.1, holds.2.2.2.2⟩

/-! ## Records -/

def entryOf (name : JsString) (method : Nat) (part : ZipPart) : CentralEntry where
  name := dropMark name
  nameBytes := utf8 name
  flags := zipFlags
  method := method
  crc := part.crc.toNat
  compressedSize := part.compressedSize
  size := part.uncompressedSize
  localHeaderOffset := part.localHeaderOffset
  isSymlink := false

structure ZipPart.Plain (part : ZipPart) : Prop where
  offset : part.localHeaderOffset ≠ 0xffffffff
  compressed : part.compressedSize ≠ 0xffffffff
  uncompressed : part.uncompressedSize ≠ 0xffffffff

def centralWidths : List Nat := [4, 2, 2, 2, 2, 2, 2, 4, 4, 4, 2, 2, 2, 2, 2, 4, 4]

theorem readCentralEntry_returns {file : List UInt8} {cdEnd place : Nat} {reader : ZipReader}
    (sound : reader.Sound file) {name : JsString} {modifiedAt : Option Int} {method : Nat}
    {part : ZipPart}
    (isCentral : part.central = encodeCentralDirectoryEntry (utf8 name) modifiedAt method part.crc
      part.compressedSize part.uncompressedSize part.localHeaderOffset)
    (isFit : part.central.fits = true) (stands : StandsAt file place part.central.bytes)
    (inside : place + part.central.bytes.length ≤ cdEnd) (ends : cdEnd ≤ file.length)
    (paired : hasLoneSurrogate name = false) (plain : part.Plain)
    (known : method = 0 ∨ method = 8) :
    Returns (readCentralEntry file place cdEnd)
      (fun result next => next.Sound file ∧ next.yielded = reader.yielded ∧
        result = (entryOf name method part, ((place + part.central.bytes.length : Nat) : Int)))
      reader := by
  have isWidths : part.central.fields.map Prod.fst = centralWidths := by
    rw [isCentral]
    rfl
  have isTail : part.central.tail = utf8 name := by
    rw [isCentral]
    rfl
  have length : part.central.bytes.length = 46 + (utf8 name).length := by
    rw [ZipRecord.length_bytes, isWidths, isTail]
    rfl
  rw [length] at inside
  unfold readCentralEntry
  apply returns_refuseIf_bind (by omega)
  apply (windowRead_returns sound (by omega) (by omega) (by omega) (by omega)).bind
  rintro fixed afterFixed ⟨soundFixed, rfl, sameFixed⟩
  -- The fixed part is read off the record.
  have isFixed : slice file (place : Int).toNat (46 : Int).toNat =
      slice part.central.bytes 0 46 :=
    @StandsAt.slice _ _ _ 0 46 stands (by omega)
  rw [isFixed]
  have read16 : ∀ index offset value, part.central.fields[index]? = some (2, value) →
      (centralWidths.take index).sum = offset → offset + 2 ≤ 46 →
      readUInt16LE (slice part.central.bytes 0 46) offset = value := by
    intro index offset value isField isOffset few
    rw [readUInt16LE_slice few, Nat.zero_add]
    exact ZipRecord.read_index isFit isWidths isField isOffset
  have read32 : ∀ index offset value, part.central.fields[index]? = some (4, value) →
      (centralWidths.take index).sum = offset → offset + 4 ≤ 46 →
      readUInt32LE (slice part.central.bytes 0 46) offset = value := by
    intro index offset value isField isOffset few
    rw [readUInt32LE_slice few, Nat.zero_add]
    exact ZipRecord.read_index isFit isWidths isField isOffset
  have fields : part.central.fields =
      (encodeCentralDirectoryEntry (utf8 name) modifiedAt method part.crc part.compressedSize
        part.uncompressedSize part.localHeaderOffset).fields := by
    rw [← isCentral]
  rw [fields] at read16 read32
  rw [read32 0 0 0x02014b50 rfl (by decide) (by decide), read16 1 4 20 rfl (by decide) (by decide),
    read16 3 8 zipFlags rfl (by decide) (by decide), read16 4 10 method rfl (by decide) (by decide),
    read32 7 16 part.crc.toNat rfl (by decide) (by decide),
    read32 8 20 part.compressedSize rfl (by decide) (by decide),
    read32 9 24 part.uncompressedSize rfl (by decide) (by decide),
    read16 10 28 (utf8 name).length rfl (by decide) (by decide),
    read16 11 30 0 rfl (by decide) (by decide), read16 12 32 0 rfl (by decide) (by decide),
    read16 13 34 0 rfl (by decide) (by decide), read32 15 38 0 rfl (by decide) (by decide),
    read32 16 42 part.localHeaderOffset rfl (by decide) (by decide)]
  dsimp only
  apply returns_refuseIf_bind (by simp)
  apply returns_refuseIf_bind (by omega)
  apply returns_refuseIf_bind (by simp)
  apply returns_refuseIf_bind (by decide)
  apply returns_refuseIf_bind (by omega)
  apply returns_refuseIf_bind (by
    have notOffset := plain.offset
    have notCompressed := plain.compressed
    have notUncompressed := plain.uncompressed
    omega)
  apply (windowRead_returns soundFixed (by omega) (by omega) (by omega) (by omega)).bind
  rintro named afterName ⟨soundName, rfl, sameName⟩
  have isName : slice file ((place : Int) + 46).toNat
      (((utf8 name).length + 0 : Nat) : Int).toNat = utf8 name := by
    have start : ((place : Int) + 46).toNat = place + 46 := by omega
    rw [start, Int.toNat_natCast, Nat.add_zero, stands.slice (by omega)]
    rw [← isTail]
    exact ZipRecord.slice_tail isWidths rfl
  rw [isName, List.take_length, List.drop_length]
  have noExtra : hasZip64Extra [] = .ok false := by
    rw [hasZip64Extra]
  rw [noExtra]
  apply returns_lift_bind
  apply returns_refuseIf_bind (by simp)
  rw [decodeFatal_utf8 paired]
  apply returns_pure
  refine ⟨soundName, sameName.trans sameFixed, ?_⟩
  rw [length]
  refine Prod.ext rfl ?_
  dsimp only
  omega

structure PlacedPart (file : List UInt8) (cdOffset : Nat) (part : ZipPart) : Prop where
  stands : StandsAt file part.localHeaderOffset part.bytes
  before : part.localHeaderOffset + part.bytes.length ≤ cdOffset

def localWidths : List Nat := [4, 2, 2, 2, 2, 2, 4, 4, 4, 2, 2]

theorem length_localHeader {part : ZipPart} {name : JsString} {modifiedAt : Option Int}
    {method : Nat}
    (isHeader : part.localHeader = encodeLocalFileHeader (utf8 name) modifiedAt method) :
    part.localHeader.bytes.length = 30 + (utf8 name).length := by
  have isWidths : part.localHeader.fields.map Prod.fst = localWidths := by
    rw [isHeader]
    rfl
  have isTail : part.localHeader.tail = utf8 name := by
    rw [isHeader]
    rfl
  rw [ZipRecord.length_bytes, isWidths, isTail]
  rfl

theorem length_descriptor {part : ZipPart}
    (isDescriptor : part.descriptor =
      encodeDataDescriptor part.crc part.compressedSize part.uncompressedSize) :
    part.descriptor.bytes.length = 16 := by
  rw [ZipRecord.length_bytes, isDescriptor]
  rfl

theorem verifyLocalHeader_returns {file : List UInt8} {cdOffset : Nat} {reader : ZipReader}
    (sound : reader.Sound file) {name : JsString} {modifiedAt : Option Int} {method : Nat}
    {part : ZipPart}
    (isHeader : part.localHeader = encodeLocalFileHeader (utf8 name) modifiedAt method)
    (isDescriptor : part.descriptor =
      encodeDataDescriptor part.crc part.compressedSize part.uncompressedSize)
    (isSize : part.compressedSize = part.data.length) (isFit : part.localHeader.fits = true)
    (placed : PlacedPart file cdOffset part) (ends : cdOffset ≤ file.length) :
    Returns (verifyLocalHeader file (entryOf name method part) cdOffset)
      (fun dataStart next => next.Sound file ∧ next.yielded = reader.yielded ∧
        dataStart = ((part.localHeaderOffset + part.localHeader.bytes.length : Nat) : Int))
      reader := by
  have isWidths : part.localHeader.fields.map Prod.fst = localWidths := by
    rw [isHeader]
    rfl
  have isTail : part.localHeader.tail = utf8 name := by
    rw [isHeader]
    rfl
  have length := length_localHeader isHeader
  have descriptorLength := length_descriptor isDescriptor
  have before := placed.before
  rw [ZipPart.bytes, List.length_append, List.length_append] at before
  have stands : StandsAt file part.localHeaderOffset part.localHeader.bytes := by
    have stands := placed.stands
    rw [ZipPart.bytes, List.append_assoc] at stands
    exact @StandsAt.part _ [] _ _ _ stands
  have read16 : ∀ index offset value, part.localHeader.fields[index]? = some (2, value) →
      (localWidths.take index).sum = offset →
      readUInt16LE part.localHeader.bytes offset = value := by
    intro index offset value isField isOffset
    exact ZipRecord.read_index isFit isWidths isField isOffset
  have read32 : ∀ index offset value, part.localHeader.fields[index]? = some (4, value) →
      (localWidths.take index).sum = offset →
      readUInt32LE part.localHeader.bytes offset = value := by
    intro index offset value isField isOffset
    exact ZipRecord.read_index isFit isWidths isField isOffset
  have fields : part.localHeader.fields =
      (encodeLocalFileHeader (utf8 name) modifiedAt method).fields := by
    rw [isHeader]
  rw [fields] at read16 read32
  have isName : part.localHeader.bytes.drop 30 = utf8 name := by
    have tail := ZipRecord.slice_tail isWidths (show localWidths.sum = 30 by decide)
    rw [slice, List.take_of_length_le (by rw [List.length_drop, length, isTail]; omega)] at tail
    rw [tail, isTail]
  have descriptors : (entryOf name method part).hasDescriptor = true := by
    change (zipFlags &&& 8 != 0) = true
    decide
  unfold verifyLocalHeader
  rw [descriptors]
  dsimp only [entryOf]
  apply (readExact_returns sound (by omega) (by omega) (by omega)).bind
  rintro head afterHead ⟨soundHead, rfl, sameHead⟩
  have isHead : slice file (part.localHeaderOffset : Int).toNat
      (((30 + (utf8 name).length : Nat) : Int)).toNat = part.localHeader.bytes := by
    rw [Int.toNat_natCast, Int.toNat_natCast, ← length]
    exact stands
  rw [isHead, isName, read32 0 0 0x04034b50 rfl (by decide), read16 2 6 zipFlags rfl (by decide),
    read16 3 8 method rfl (by decide), read32 6 14 0 rfl (by decide),
    read32 7 18 0 rfl (by decide), read32 8 22 0 rfl (by decide),
    read16 9 26 (utf8 name).length rfl (by decide), read16 10 28 0 rfl (by decide)]
  apply returns_refuseIf_bind (by simp)
  apply returns_refuseIf_bind (by simp)
  apply returns_refuseIf_bind (by simp)
  apply returns_refuseIf_bind (by simp)
  apply returns_refuseIf_bind (by simp)
  apply returns_refuseIf_bind (by rw [if_pos rfl]; omega)
  apply returns_pure
  refine ⟨soundHead, sameHead, ?_⟩
  rw [length]
  omega

theorem verifyDescriptor_returns {file : List UInt8} {cdOffset : Nat} {reader : ZipReader}
    (sound : reader.Sound file) {name : JsString} {method : Nat} {part : ZipPart}
    (isDescriptor : part.descriptor =
      encodeDataDescriptor part.crc part.compressedSize part.uncompressedSize)
    (isSize : part.compressedSize = part.data.length) (isFit : part.descriptor.fits = true)
    (placed : PlacedPart file cdOffset part) (ends : cdOffset ≤ file.length) :
    Returns (verifyDescriptor file (entryOf name method part)
        ((part.localHeaderOffset + part.localHeader.bytes.length : Nat) : Int) cdOffset)
      (fun _ next => next.Sound file ∧ next.yielded = reader.yielded) reader := by
  have isWidths : part.descriptor.fields.map Prod.fst = [4, 4, 4, 4] := by
    rw [isDescriptor]
    rfl
  have length := length_descriptor isDescriptor
  have before := placed.before
  rw [ZipPart.bytes, List.length_append, List.length_append] at before
  have stands : StandsAt file
      (part.localHeaderOffset + (part.localHeader.bytes ++ part.data).length)
      part.descriptor.bytes := by
    have stands := placed.stands
    rw [ZipPart.bytes, ← List.append_nil (_ ++ part.descriptor.bytes)] at stands
    exact stands.part
  have read32 : ∀ index offset value, part.descriptor.fields[index]? = some (4, value) →
      (([4, 4, 4, 4] : List Nat).take index).sum = offset →
      readUInt32LE part.descriptor.bytes offset = value := by
    intro index offset value isField isOffset
    exact ZipRecord.read_index isFit isWidths isField isOffset
  have fields : part.descriptor.fields =
      (encodeDataDescriptor part.crc part.compressedSize part.uncompressedSize).fields := by
    rw [isDescriptor]
  rw [fields] at read32
  have descriptors : (entryOf name method part).hasDescriptor = true := by
    change (zipFlags &&& 8 != 0) = true
    decide
  unfold verifyDescriptor
  rw [descriptors, if_neg (by simp)]
  dsimp only [entryOf]
  rw [if_neg (by omega)]
  apply (readExact_returns sound (by omega) (by omega) (by omega)).bind
  rintro bytes next ⟨soundNext, rfl, sameNext⟩
  have isBytes : slice file
      (((part.localHeaderOffset + part.localHeader.bytes.length : Nat) : Int) +
        part.compressedSize).toNat (16 : Int).toNat = part.descriptor.bytes := by
    have place : (((part.localHeaderOffset + part.localHeader.bytes.length : Nat) : Int) +
        part.compressedSize).toNat =
          part.localHeaderOffset + (part.localHeader.bytes ++ part.data).length := by
      rw [List.length_append]
      omega
    have whole := stands
    rw [StandsAt, length] at whole
    rw [place]
    exact whole
  rw [isBytes, descriptorMatches, read32 0 0 0x08074b50 rfl (by decide),
    read32 1 4 part.crc.toNat rfl (by decide), read32 2 8 part.compressedSize rfl (by decide),
    read32 3 12 part.uncompressedSize rfl (by decide), length]
  apply returns_refuseIf (by simp)
  exact ⟨soundNext, sameNext⟩

/-! ## The loop -/

def yieldOf (name : JsString) (method : Nat) (part : ZipPart) (place : Nat) : ZipYield where
  entry := entryOf name method part
  type := .file
  recordStart := place
  recordEnd := ((place + part.central.bytes.length : Nat) : Int)
  dataStart := ((part.localHeaderOffset + part.localHeader.bytes.length : Nat) : Int)

structure FileName (name : JsString) : Prop where
  paired : hasLoneSurrogate name = false
  last : (dropMark name).getLast? ≠ some slash

structure ReadablePart (options : ZipWriterOptions) (file : List UInt8) (cdOffset : Nat)
    (entry : ZipWriterEntry) (part : ZipPart) : Prop where
  written : part.WrittenFor options entry
  fits : ∀ record ∈ part.records, record.fits = true
  plain : part.Plain
  placed : PlacedPart file cdOffset part
  named : FileName entry.name

theorem readRecord_returns {options : ZipWriterOptions} {file : List UInt8}
    {cdOffset cdEnd place : Nat} {entry : ZipWriterEntry} {part : ZipPart} {reader : ZipReader}
    (sound : reader.Sound file)
    (readable : ReadablePart options file cdOffset entry part)
    (stands : StandsAt file place part.central.bytes)
    (starts : cdOffset ≤ file.length) (inside : place + part.central.bytes.length ≤ cdEnd)
    (ends : cdEnd ≤ file.length) (opened : Bool) :
    Returns (readRecord file cdOffset cdEnd opened place)
      (fun cursor next => next.Sound file ∧
        next.yielded = reader.yielded ++ [yieldOf entry.name options.method part place] ∧
        cursor = ((place + part.central.bytes.length : Nat) : Int)) reader := by
  have written := readable.written
  have known : options.method = 0 ∨ options.method = 8 := by
    rw [ZipWriterOptions.method]
    split <;> simp
  have fits : part.localHeader.fits = true ∧ part.descriptor.fits = true ∧
      part.central.fits = true := by
    simpa [ZipPart.records] using readable.fits
  have before := readable.placed.before
  rw [ZipPart.bytes, List.length_append, List.length_append] at before
  unfold readRecord
  apply (readCentralEntry_returns sound written.central fits.2.2 stands inside ends
    readable.named.paired readable.plain known).bind
  rintro _ afterCentral ⟨soundCentral, sameCentral, rfl⟩
  dsimp only
  apply returns_refuseIf_bind (by simp [entryOf])
  apply (verifyLocalHeader_returns soundCentral written.localHeader written.descriptor
    written.compressed fits.1 readable.placed starts).bind
  rintro _ afterHeader ⟨soundHeader, sameHeader, rfl⟩
  apply (verifyDescriptor_returns soundHeader written.descriptor written.compressed fits.2.1
    readable.placed starts).bind
  rintro _ afterDescriptor ⟨soundDescriptor, sameDescriptor⟩
  have same : afterDescriptor.yielded = reader.yielded :=
    sameDescriptor.trans (sameHeader.trans sameCentral)
  have yields : Returns (yieldEntry (entryOf entry.name options.method part) place
      ((place + part.central.bytes.length : Nat) : Int)
      ((part.localHeaderOffset + part.localHeader.bytes.length : Nat) : Int) opened)
      (fun _ next => next.Sound file ∧
        next.yielded = reader.yielded ++ [yieldOf entry.name options.method part place])
      afterDescriptor := by
    have isYield : (afterDescriptor.yield (yieldOf entry.name options.method part place)).yielded =
        reader.yielded ++ [yieldOf entry.name options.method part place] := by
      rw [ZipReader.yield, same]
    have notDirectory : (entryOf entry.name options.method part).name.getLast? ≠ some slash :=
      readable.named.last
    unfold yieldEntry
    rw [if_neg notDirectory]
    apply returns_update_bind
    split
    · rename_i asked
      apply returns_update
      refine ⟨(soundDescriptor.yield _).ask ?_ ?_ ?_, isYield⟩
      · omega
      · have nonzero : part.compressedSize ≠ 0 := asked.2
        change (0 : Int) < part.compressedSize
        omega
      · have isSize := written.compressed
        change ((part.localHeaderOffset + part.localHeader.bytes.length : Nat) : Int) +
          (part.compressedSize : Int) ≤ file.length
        omega
    · exact returns_pure ⟨soundDescriptor.yield _, isYield⟩
  apply yields.bind
  rintro _ next ⟨soundNext, isYield⟩
  exact returns_pure ⟨soundNext, isYield, rfl⟩

/-- What the reader yields for the entries of an archive whose directory begins at a place. -/
def yieldsOf (options : ZipWriterOptions) : Nat → List ZipWriterEntry → List ZipPart →
    List ZipYield
  | place, entry :: entries, part :: parts =>
      yieldOf entry.name options.method part place ::
        yieldsOf options (place + part.central.bytes.length) entries parts
  | _, _, _ => []

theorem readRecords_returns {options : ZipWriterOptions} {file : List UInt8} {cdOffset cdEnd : Nat}
    {entries : List ZipWriterEntry} {parts : List ZipPart}
    (readable : List.Forall₂ (ReadablePart options file cdOffset) entries parts)
    (starts : cdOffset ≤ file.length) (ends : cdEnd ≤ file.length) (opened : Nat → Bool)
    {place index : Nat} {reader : ZipReader} (sound : reader.Sound file)
    (stands : StandsAt file place (parts.flatMap fun part => part.central.bytes))
    (reaches : place + (parts.flatMap fun part => part.central.bytes).length = cdEnd) :
    Returns (readRecords file cdOffset cdEnd opened entries.length index place)
      (fun cursor next => next.Sound file ∧
        next.yielded = reader.yielded ++ yieldsOf options place entries parts ∧
        cursor = (cdEnd : Int)) reader := by
  induction readable generalizing place index reader with
  | nil =>
      apply returns_pure
      refine ⟨sound, by simp [yieldsOf], ?_⟩
      rw [← reaches]
      rfl
  | @cons entry part entries parts here later induction =>
      rw [List.flatMap_cons] at stands reaches
      rw [List.length_append] at reaches
      have standsHere : StandsAt file place part.central.bytes := by
        have whole : StandsAt file place ([] ++ part.central.bytes ++
          parts.flatMap fun part => part.central.bytes) := stands
        exact whole.part
      have standsLater : StandsAt file (place + part.central.bytes.length)
          (parts.flatMap fun part => part.central.bytes) := by
        rw [← List.append_nil (part.central.bytes ++ _)] at stands
        exact stands.part
      apply (readRecord_returns sound here standsHere starts (by omega) ends (opened index)).bind
      rintro _ next ⟨soundNext, isYield, rfl⟩
      apply (induction soundNext standsLater (by omega)).imp
      rintro cursor last ⟨soundLast, isYields, isCursor⟩
      refine ⟨soundLast, ?_, isCursor⟩
      rw [isYields, isYield, yieldsOf, List.append_assoc]
      rfl

/-! ## The end record -/

theorem readEocd_returns {file front : List UInt8} {entryCount cdSize cdOffset : Nat}
    {reader : ZipReader} (sound : reader.Sound file)
    (isFile : file = front ++ (encodeEndOfCentralDirectory entryCount cdSize cdOffset).bytes)
    (isFit : (encodeEndOfCentralDirectory entryCount cdSize cdOffset).fits = true)
    (few : entryCount ≠ 0xffff) (plainSize : cdSize ≠ 0xffffffff)
    (plainOffset : cdOffset ≠ 0xffffffff) (isFront : cdOffset + cdSize = front.length) :
    Returns (readEocd file)
      (fun eocd next => next.Sound file ∧ next.yielded = reader.yielded ∧
        eocd = ⟨entryCount, cdSize, cdOffset⟩) reader := by
  let record := encodeEndOfCentralDirectory entryCount cdSize cdOffset
  have isWidths : record.fields.map Prod.fst = [4, 2, 2, 2, 2, 4, 4, 2] := rfl
  have length : record.bytes.length = 22 := by
    rw [ZipRecord.length_bytes, isWidths]
    rfl
  have size : file.length = front.length + 22 := by
    rw [isFile, List.length_append, length]
  have stands : StandsAt file front.length record.bytes := by
    have whole := standsAt_append front record.bytes []
    rw [List.append_nil] at whole
    rw [isFile]
    exact whole
  unfold readEocd
  apply returns_refuseIf_bind (by omega)
  dsimp only
  generalize isTail : (if file.length < 22 + 65535 then file.length else 22 + 65535) = tailLength
  have short : 22 ≤ tailLength ∧ tailLength ≤ file.length := by
    rw [← isTail]
    split <;> omega
  apply (readExact_returns sound (by omega) (by omega) (by omega)).bind
  rintro tail next ⟨soundNext, rfl, sameNext⟩
  have start : (file.length - tailLength : Int).toNat = file.length - tailLength := by omega
  rw [start, Int.toNat_natCast]
  have count : (slice file (file.length - tailLength) tailLength).length = tailLength :=
    length_slice (by omega)
  have read16 : ∀ index offset value, record.fields[index]? = some (2, value) →
      (([4, 2, 2, 2, 2, 4, 4, 2] : List Nat).take index).sum = offset → offset + 2 ≤ 22 →
      readUInt16LE (slice file (file.length - tailLength) tailLength) (tailLength - 22 + offset) =
        value := by
    intro index offset value isField isOffset inside
    have place : file.length - tailLength + (tailLength - 22 + offset) = front.length + offset := by
      omega
    rw [readUInt16LE_slice (by omega), place, readUInt16LE, stands.slice (by omega)]
    exact ZipRecord.read_index isFit isWidths isField isOffset
  have read32 : ∀ index offset value, record.fields[index]? = some (4, value) →
      (([4, 2, 2, 2, 2, 4, 4, 2] : List Nat).take index).sum = offset → offset + 4 ≤ 22 →
      readUInt32LE (slice file (file.length - tailLength) tailLength) (tailLength - 22 + offset) =
        value := by
    intro index offset value isField isOffset inside
    have place : file.length - tailLength + (tailLength - 22 + offset) = front.length + offset := by
      omega
    rw [readUInt32LE_slice (by omega), place, readUInt32LE, stands.slice (by omega)]
    exact ZipRecord.read_index isFit isWidths isField isOffset
  have signature := read32 0 0 0x06054b50 rfl (by decide) (by decide)
  rw [Nat.add_zero] at signature
  -- The record at the very end of the file is the first that the search comes to.
  have found : findEndRecord (slice file (file.length - tailLength) tailLength)
      ((slice file (file.length - tailLength) tailLength).length - 22 + 1) =
        some (tailLength - 22) := by
    rw [findEndRecord, isEndRecord, count, signature, read16 7 20 0 rfl (by decide) (by decide),
      if_pos]
    rw [Bool.and_eq_true, beq_iff_eq, beq_iff_eq]
    exact ⟨rfl, by omega⟩
  rw [found]
  dsimp only
  rw [read16 1 4 0 rfl (by decide) (by decide), read16 2 6 0 rfl (by decide) (by decide),
    read16 3 8 entryCount rfl (by decide) (by decide),
    read16 4 10 entryCount rfl (by decide) (by decide),
    read32 5 12 cdSize rfl (by decide) (by decide), read32 6 16 cdOffset rfl (by decide)
      (by decide)]
  apply returns_refuseIf_bind (by simp)
  apply returns_refuseIf_bind (by omega)
  apply returns_refuseIf_bind (by simp)
  apply returns_refuseIf_bind (by omega)
  exact returns_pure ⟨soundNext, sameNext, rfl⟩

/-! ## Bodies -/

def DataFor (deflateRaw : Int → List (List UInt8) → List (List UInt8)) (options : ZipWriterOptions)
    (entry : ZipWriterEntry) (part : ZipPart) : Prop :=
  ∃ chunks, entry.source = some chunks ∧
    part.data = (compressedChunks deflateRaw options chunks).flatten

theorem writeEntry_data (deflateRaw : Int → List (List UInt8) → List (List UInt8))
    (options : ZipWriterOptions) (entry : ZipWriterEntry) (current : ZipOutput) :
    Command.Satisfies (writeEntry deflateRaw options entry)
      (fun part _ => DataFor deflateRaw options entry part) (fun _ => True) current := by
  unfold writeEntry
  dsimp only
  rw [Command.satisfies_ite]
  refine ⟨fun _ => trivial, fun _ => ?_⟩
  rw [Command.satisfies_bind, Command.satisfies_state, Command.satisfies_bind,
    Command.satisfies_lift]
  refine ⟨?_, fun _ _ => trivial⟩
  intro localHeaderOffset _
  apply (Command.satisfies_true _).bind
  intro _ afterHeader _
  rw [Command.satisfies_bind, Command.satisfies_lift]
  refine ⟨?_, fun _ _ => trivial⟩
  intro chunks isSource
  rw [Command.satisfies_bind, Command.satisfies_lift]
  refine ⟨?_, fun _ _ => trivial⟩
  intro seen _
  apply (Command.satisfies_true _).bind
  intro _ afterData _
  rw [Command.satisfies_bind, Command.satisfies_lift]
  refine ⟨?_, fun _ _ => trivial⟩
  intro compressed _
  rw [Command.satisfies_bind, Command.satisfies_lift]
  refine ⟨?_, fun _ _ => trivial⟩
  intro uncompressed _
  apply (Command.satisfies_true _).bind
  intro _ last _
  rw [Command.satisfies_bind, Command.satisfies_lift]
  refine ⟨?_, fun _ _ => trivial⟩
  intro _ _
  refine ⟨chunks, ?_, rfl⟩
  cases source : entry.source with
  | none => simp [source] at isSource
  | some found => simpa [source] using isSource

theorem runZipWriter_data (deflateRaw : Int → List (List UInt8) → List (List UInt8))
    (options : ZipWriterOptions) (entries : List ZipWriterEntry) (current : ZipOutput) :
    Command.Satisfies (runZipWriter deflateRaw options entries)
      (fun archive _ => List.Forall₂ (DataFor deflateRaw options) entries archive.parts)
      (fun _ => True) current := by
  unfold runZipWriter
  apply (Command.satisfies_collect_forall₂ (writeEntry_data deflateRaw options) entries).bind
  intro parts afterParts isData
  rw [Command.satisfies_bind, Command.satisfies_state, Command.satisfies_bind,
    Command.satisfies_lift]
  refine ⟨?_, fun _ _ => trivial⟩
  intro directoryOffset _
  dsimp only
  rw [Command.satisfies_bind, Command.satisfies_lift]
  refine ⟨?_, fun _ _ => trivial⟩
  intro _ _
  apply (Command.satisfies_true _).bind
  intro _ afterDirectory _
  apply (Command.satisfies_true _).bind
  intro _ last _
  exact isData

theorem foldlM_verifyChunk {entry : CentralEntry} {chunks : List (List UInt8)}
    {seen : VerifyState} (few : seen.produced + chunks.flatten.length ≤ entry.size) :
    chunks.foldlM (verifyChunk entry) seen =
      .ok ⟨seen.produced + chunks.flatten.length, crc32 chunks.flatten seen.crc,
        seen.passed ++ chunks.flatten⟩ := by
  induction chunks generalizing seen with
  | nil => simp [pure, Except.pure]
  | cons chunk rest induction =>
      rw [List.flatten_cons, List.length_append] at few
      rw [List.foldlM_cons, verifyChunk, if_neg (by omega)]
      change rest.foldlM (verifyChunk entry) _ = _
      rw [induction (by dsimp only; omega), List.flatten_cons, List.length_append, crc32_append,
        Nat.add_assoc, List.append_assoc]

theorem verifying_eq {entry : CentralEntry} {chunks : List (List UInt8)}
    (isSize : entry.size = chunks.flatten.length)
    (isCrc : entry.crc = (crc32 chunks.flatten 0).toNat) :
    verifying entry chunks = .ok chunks.flatten := by
  unfold verifying
  rw [foldlM_verifyChunk (by dsimp only; omega)]
  change (if 0 + chunks.flatten.length ≠ entry.size then _ else _) = _
  rw [if_neg (by omega), if_neg (by rw [isCrc]; exact fun different => different rfl)]
  rfl

/-- `inflateRaw` gives back what `deflateRaw` compressed, however the compressed bytes are cut,
and makes no bytes out of none. -/
structure Inverts (deflateRaw : Int → List (List UInt8) → List (List UInt8))
    (inflateRaw : List (List UInt8) → Option (List (List UInt8))) : Prop where
  inverts : ∀ level chunks raw, 1 ≤ level → level ≤ 9 →
    raw.flatten = (deflateRaw level chunks).flatten →
      ∃ inflated, inflateRaw raw = some inflated ∧ inflated.flatten = chunks.flatten
  nothing : ∀ raw inflated, raw.flatten = [] → inflateRaw raw = some inflated →
    inflated.flatten = []

theorem readBody_eq {deflateRaw : Int → List (List UInt8) → List (List UInt8)}
    {inflateRaw : List (List UInt8) → Option (List (List UInt8))}
    (inverts : Inverts deflateRaw inflateRaw) {options : ZipWriterOptions}
    (level : 0 ≤ options.compressionLevel ∧ options.compressionLevel ≤ 9) {name : JsString}
    {part : ZipPart} {chunks : List (List UInt8)}
    (isData : part.data = (compressedChunks deflateRaw options chunks).flatten)
    (isCompressed : part.compressedSize = part.data.length)
    (isSize : part.uncompressedSize = chunks.flatten.length)
    (isCrc : part.crc = crc32 chunks.flatten 0) {raw : List (List UInt8)}
    (isRaw : raw.flatten = part.data) :
    readBody inflateRaw (entryOf name options.method part) raw = .ok chunks.flatten := by
  have passes : ∀ inflated : List (List UInt8), inflated.flatten = chunks.flatten →
      verifying (entryOf name options.method part) inflated = .ok chunks.flatten := by
    intro inflated same
    rw [← same]
    apply verifying_eq
    · rw [same]
      exact isSize
    · rw [same, ← isCrc]
      rfl
  have inflates : options.method = 8 →
      ∃ inflated, inflateRaw raw = some inflated ∧ inflated.flatten = chunks.flatten := by
    intro isDeflated
    have isLevel : options.compressionLevel ≠ 0 := by
      intro isZero
      rw [ZipWriterOptions.method, if_pos isZero] at isDeflated
      cases isDeflated
    rw [compressedChunks, if_pos isDeflated] at isData
    exact inverts.inverts _ chunks raw (by omega) level.2 (isRaw.trans isData)
  have stored : options.method ≠ 8 → raw.flatten = chunks.flatten := by
    intro notDeflated
    rw [compressedChunks, if_neg notDeflated] at isData
    rw [isRaw, isData]
  unfold readBody
  by_cases isEmpty : (entryOf name options.method part).compressedSize = 0
  · rw [if_pos isEmpty]
    have noData : raw.flatten = [] := by
      rw [isRaw]
      exact List.length_eq_zero_iff.mp (isCompressed.symm.trans isEmpty)
    apply passes
    by_cases isDeflated : options.method = 8
    · rcases inflates isDeflated with ⟨inflated, isInflated, same⟩
      rw [← same, inverts.nothing raw inflated noData isInflated]
      rfl
    · rw [← stored isDeflated, noData]
      rfl
  · have guarded : rangeGuard (entryOf name options.method part).compressedSize raw = .ok raw := by
      have isLength : raw.flatten.length = part.compressedSize := by
        rw [isRaw, isCompressed]
      change rangeGuard part.compressedSize raw = _
      rw [rangeGuard, if_neg (by omega), if_neg (by omega)]
    rw [if_neg isEmpty, guarded]
    by_cases isDeflated : options.method = 8
    · rcases inflates isDeflated with ⟨inflated, isInflated, same⟩
      change (if options.method = 8 then _ else _) = _
      rw [if_pos isDeflated, isInflated]
      exact passes inflated same
    · change (if options.method = 8 then _ else _) = _
      rw [if_neg isDeflated]
      exact passes raw (stored isDeflated)

/-! ## Names -/

theorem validArchiveEntryName_paired {host : Host} {name : JsString}
    (valid : validArchiveEntryName host name = true) : hasLoneSurrogate name = false := by
  unfold validArchiveEntryName at valid
  simp only [Bool.not_eq_true', Bool.or_eq_false_iff] at valid
  exact valid.1.1.1.2

theorem validArchiveEntryName_last {host : Host} {name : JsString}
    (valid : validArchiveEntryName host name = true) : name.getLast? ≠ some slash := by
  unfold validArchiveEntryName at valid
  simp only [Bool.not_eq_true', Bool.or_eq_false_iff] at valid
  intro isSlash
  rcases List.getLast?_eq_some_iff.mp isSlash with ⟨front, isName⟩
  have emptyPart : [] ∈ split name := by
    rw [isName, split, List.splitOn_append_cons_of_beq _ _ (by simp)]
    simp
  have accepted := List.any_eq_false.mp valid.2 [] emptyPart
  simp at accepted

theorem dropMark_last {name : JsString} (last : name.getLast? ≠ some slash) :
    (dropMark name).getLast? ≠ some slash := by
  unfold dropMark
  split
  · intro isSlash
    cases name with
    | nil => cases isSlash
    | cons first rest =>
        rw [List.tail_cons] at isSlash
        apply last
        rw [List.getLast?_cons, isSlash]
        rfl
  · exact last

theorem dropMark_eq_self_iff {name : JsString} :
    dropMark name = name ↔ name.head? ≠ some 0xfeff := by
  unfold dropMark
  split
  · rename_i isMark
    cases name with
    | nil => cases isMark
    | cons first rest => simp [isMark]
  · rename_i notMark
    simp [notMark]

theorem seenNames_valid {host : Host} {names seen result : List JsString}
    (isSeen : seenNames host seen names = some result) :
    ∀ name ∈ names, validArchiveEntryName host name = true := by
  induction names generalizing seen with
  | nil => exact fun _ member => absurd member List.not_mem_nil
  | cons name rest induction =>
      rw [seenNames] at isSeen
      split at isSeen
      · rename_i valid
        split at isSeen
        · cases isSeen
        · intro other member
          rcases List.mem_cons.mp member with same | later
          · rw [same]
            exact valid
          · exact induction isSeen other later
      · cases isSeen

theorem validArchiveEntryNames_each {host : Host} {names : List JsString}
    (valid : validArchiveEntryNames host names = true) :
    ∀ name ∈ names, validArchiveEntryName host name = true := by
  unfold validArchiveEntryNames at valid
  split at valid
  · cases valid
  · rename_i isSeen
    exact seenNames_valid isSeen

/-! ## Archives -/

theorem forall₂_of_mem {α β : Type} {first second : α → β → Prop} {left : List α} {right : List β}
    (all : List.Forall₂ first left right)
    (weaken : ∀ item ∈ left, ∀ other ∈ right, first item other → second item other) :
    List.Forall₂ second left right := by
  induction all with
  | nil => exact .nil
  | cons here later induction =>
      apply List.Forall₂.cons
      · exact weaken _ List.mem_cons_self _ List.mem_cons_self here
      · apply induction
        intro item isItem other isOther
        exact weaken item (List.mem_cons_of_mem _ isItem) other (List.mem_cons_of_mem _ isOther)

/-- What the reader yields for an entry of the writer: a file with its name, its size, and its
content however the range of the data is cut. -/
structure ReadsBack (inflateRaw : List (List UInt8) → Option (List (List UInt8)))
    (file : List UInt8) (entry : ZipWriterEntry) (item : ZipYield) : Prop where
  type : item.type = .file
  name : item.entry.name = entry.name
  content : ∃ chunks, entry.source = some chunks ∧ item.entry.size = chunks.flatten.length ∧
    ∀ raw : List (List UInt8),
      raw.flatten = slice file item.dataStart.toNat item.entry.compressedSize →
        readBody inflateRaw item.entry raw = .ok chunks.flatten

/-- The reader ends without an error, and has yielded one entry for each that was written. -/
def ArchiveReadsBack (inflateRaw : List (List UInt8) → Option (List (List UInt8)))
    (file : List UInt8) (entries : List ZipWriterEntry) (opened : Nat → Bool) : Prop :=
  Returns (readZipEntries file opened)
    (fun _ reader => List.Forall₂ (ReadsBack inflateRaw file) entries reader.yielded) .initial

theorem stands_of_offsets {parts : List ZipPart} {front : List UInt8}
    (offsets : OffsetsFrom front.length parts) (back : List UInt8) {part : ZipPart}
    (member : part ∈ parts) :
    StandsAt (front ++ parts.flatMap ZipPart.bytes ++ back) part.localHeaderOffset part.bytes := by
  induction parts generalizing front with
  | nil => cases member
  | cons first rest induction =>
      rw [List.flatMap_cons]
      rcases List.mem_cons.mp member with same | later
      · rw [same, offsets.1]
        have stands := standsAt_append front first.bytes (rest.flatMap ZipPart.bytes ++ back)
        simpa using stands
      · have start : front.length + first.bytes.length = (front ++ first.bytes).length := by simp
        have offsetsLater := offsets.2
        rw [start] at offsetsLater
        have stands := induction offsetsLater later
        simpa using stands

theorem createZipWriter_finished {deflateRaw : Int → List (List UInt8) → List (List UInt8)}
    {options : ZipWriterOptions} {entries : List ZipWriterEntry} {archive : ZipArchive}
    {written : ZipOutput}
    (result : createZipWriter deflateRaw options entries = .ok (archive, written)) :
    FinishedZip options entries archive written ∧ entries.length ≤ 65534 ∧
      options.maxResultBytes ≤ zipMaxResultBytes ∧
      (0 ≤ options.compressionLevel ∧ options.compressionLevel ≤ 9) ∧
      List.Forall₂ (DataFor deflateRaw options) entries archive.parts := by
  unfold createZipWriter at result
  split at result
  · cases result
  · rename_i few
    split at result
    · cases result
    · rename_i level
      split at result
      · cases result
      · rename_i limit
        have finished : FinishedZip options entries archive written :=
          (runZipWriter_satisfies deflateRaw entries (by omega)).of_ok result
        exact ⟨finished, by omega, by omega, by omega,
          (runZipWriter_data deflateRaw options entries _).of_ok result⟩

theorem noSentinel_of_small {deflateRaw : Int → List (List UInt8) → List (List UInt8)}
    {options : ZipWriterOptions} {entries : List ZipWriterEntry} {archive : ZipArchive}
    {written : ZipOutput}
    (result : createZipWriter deflateRaw options entries = .ok (archive, written))
    (small : ∀ entry ∈ entries, ∀ chunks, entry.source = some chunks →
      chunks.flatten.length < 0xffffffff) : NoSentinel entries archive := by
  rcases createZipWriter_finished result with ⟨finished, few, limit, -, -⟩
  apply (noSentinel_iff finished few limit).mpr
  intro part member
  rcases exists_of_mem_right finished.each member with ⟨entry, inside, isPart⟩
  rcases isPart.content with ⟨chunks, isSource, isSize, -⟩
  have below := small entry inside chunks isSource
  omega

theorem FinishedZip.recordFits {options : ZipWriterOptions} {entries : List ZipWriterEntry}
    {archive : ZipArchive} {written : ZipOutput}
    (finished : FinishedZip options entries archive written) {record : ZipRecord}
    (member : record ∈ archive.records) : record.fits = true := by
  rw [ZipRecord.fits, List.all_eq_true]
  intro field inside
  exact decide_eq_true (finished.fits record member field inside)

theorem readable_of_finished {deflateRaw : Int → List (List UInt8) → List (List UInt8)}
    {host : Host} {options : ZipWriterOptions} {entries : List ZipWriterEntry}
    {archive : ZipArchive} {written : ZipOutput}
    (result : createZipWriter deflateRaw options entries = .ok (archive, written))
    (valid : validArchiveEntryNames host (entries.map ZipWriterEntry.name) = true)
    (small : ∀ entry ∈ entries, ∀ chunks, entry.source = some chunks →
      chunks.flatten.length < 0xffffffff) :
    List.Forall₂ (ReadablePart options written.output archive.directoryOffset) entries
      archive.parts := by
  rcases createZipWriter_finished result with ⟨finished, -, -, -, -⟩
  have plain := noSentinel_of_small result small
  apply forall₂_of_mem finished.each
  intro entry isEntry part isPart isWritten
  have named := validArchiveEntryNames_each valid entry.name (List.mem_map_of_mem isEntry)
  have sentinels := plain.2.2.2 part isPart
  have inside := part_inside finished.offsets isPart
  have stands : StandsAt written.output part.localHeaderOffset part.bytes := by
    have start : OffsetsFrom ([] : List UInt8).length archive.parts := finished.offsets
    rw [finished.layout, List.append_assoc, ← List.nil_append (List.flatMap _ _)]
    exact stands_of_offsets start _ isPart
  rw [Nat.zero_add, ← finished.directoryOffset] at inside
  exact
    { written := isWritten
      fits := fun record isRecord => finished.recordFits
        (List.mem_append_left _ (List.mem_flatMap.mpr ⟨part, isPart, isRecord⟩))
      plain := ⟨sentinels.1, sentinels.2.1, sentinels.2.2⟩
      placed := ⟨stands, inside⟩
      named := ⟨validArchiveEntryName_paired named,
        dropMark_last (validArchiveEntryName_last named)⟩ }

theorem readZipEntries_returns {deflateRaw : Int → List (List UInt8) → List (List UInt8)}
    {host : Host} {options : ZipWriterOptions} {entries : List ZipWriterEntry}
    {archive : ZipArchive} {written : ZipOutput}
    (result : createZipWriter deflateRaw options entries = .ok (archive, written))
    (valid : validArchiveEntryNames host (entries.map ZipWriterEntry.name) = true)
    (small : ∀ entry ∈ entries, ∀ chunks, entry.source = some chunks →
      chunks.flatten.length < 0xffffffff) (opened : Nat → Bool) :
    Returns (readZipEntries written.output opened)
      (fun _ reader => reader.yielded =
        yieldsOf options archive.directoryOffset entries archive.parts) .initial := by
  rcases createZipWriter_finished result with ⟨finished, -, -, -, -⟩
  have plain := noSentinel_of_small result small
  have readable := readable_of_finished result valid small
  have size : written.output.length = archive.directoryOffset + archive.directorySize +
      archive.endRecord.bytes.length := by
    rw [finished.layout, finished.directoryOffset, finished.directorySize, List.length_append,
      List.length_append]
  have directory : StandsAt written.output archive.directoryOffset
      (archive.parts.flatMap fun part => part.central.bytes) := by
    rw [finished.layout, finished.directoryOffset]
    exact standsAt_append _ _ _
  unfold readZipEntries
  apply (readEocd_returns (ZipReader.sound_initial written.output)
    (finished.layout.trans (by rw [finished.endRecord]))
    (by
      rw [← finished.endRecord]
      exact finished.recordFits (List.mem_append_right _ List.mem_cons_self))
    plain.1 plain.2.2.1 plain.2.1
    (by rw [List.length_append, finished.directoryOffset, finished.directorySize])).bind
  rintro _ afterEnd ⟨soundEnd, sameEnd, rfl⟩
  dsimp only
  apply (readRecords_returns readable (by omega)
    (show archive.directoryOffset + archive.directorySize ≤ written.output.length by omega) opened
    soundEnd directory (by rw [finished.directorySize])).bind
  rintro cursor last ⟨soundLast, isYields, rfl⟩
  apply returns_refuseIf_bind (by omega)
  apply returns_pure
  rw [isYields, sameEnd]
  rfl

theorem yieldsOf_readBack {deflateRaw : Int → List (List UInt8) → List (List UInt8)}
    {inflateRaw : List (List UInt8) → Option (List (List UInt8))}
    (inverts : Inverts deflateRaw inflateRaw) {options : ZipWriterOptions}
    (level : 0 ≤ options.compressionLevel ∧ options.compressionLevel ≤ 9) {file : List UInt8}
    {cdOffset place : Nat} {entries : List ZipWriterEntry} {parts : List ZipPart}
    (readable : List.Forall₂ (ReadablePart options file cdOffset) entries parts)
    (isData : List.Forall₂ (DataFor deflateRaw options) entries parts) :
    List.Forall₂ (ReadsBack inflateRaw file) entries (yieldsOf options place entries parts) ↔
      ∀ entry ∈ entries, entry.name.head? ≠ some 0xfeff := by
  induction readable generalizing place with
  | nil => simp [yieldsOf]
  | @cons entry part entries parts here later induction =>
      cases isData with
      | cons isPart others =>
          rw [yieldsOf, List.forall₂_cons, induction others, List.forall_mem_cons]
          apply and_congr_left
          intro _
          constructor
          · intro reads
            exact dropMark_eq_self_iff.mp reads.name
          · intro noMark
            have written := here.written
            rcases written.content with ⟨chunks, isSource, isSize, isCrc⟩
            rcases isPart with ⟨found, isFound, isChunks⟩
            rw [isSource] at isFound
            cases isFound
            refine ⟨rfl, dropMark_eq_self_iff.mpr noMark, chunks, isSource, isSize, ?_⟩
            intro raw isRaw
            apply readBody_eq inverts level isChunks written.compressed isSize isCrc
            have data : StandsAt file
                (part.localHeaderOffset + part.localHeader.bytes.length) part.data := by
              have stands := here.placed.stands
              rw [ZipPart.bytes] at stands
              exact stands.part
            rw [isRaw]
            change slice file
              (((part.localHeaderOffset + part.localHeader.bytes.length : Nat) : Int)).toNat
              part.compressedSize = _
            rw [Int.toNat_natCast, written.compressed]
            exact data

/-- An archive that the writer finishes is read back, with every content, exactly when no name
begins with a byte order mark. -/
theorem zip_archives_read_back {deflateRaw : Int → List (List UInt8) → List (List UInt8)}
    {inflateRaw : List (List UInt8) → Option (List (List UInt8))}
    (inverts : Inverts deflateRaw inflateRaw) {host : Host} {options : ZipWriterOptions}
    {entries : List ZipWriterEntry} {archive : ZipArchive} {written : ZipOutput}
    (result : createZipWriter deflateRaw options entries = .ok (archive, written))
    (valid : validArchiveEntryNames host (entries.map ZipWriterEntry.name) = true)
    (small : ∀ entry ∈ entries, ∀ chunks, entry.source = some chunks →
      chunks.flatten.length < 0xffffffff) (opened : Nat → Bool) :
    ArchiveReadsBack inflateRaw written.output entries opened ↔
      ∀ entry ∈ entries, entry.name.head? ≠ some 0xfeff := by
  rcases createZipWriter_finished result with ⟨-, -, -, level, isData⟩
  have readable := readable_of_finished result valid small
  rw [← yieldsOf_readBack inverts level readable isData]
  rcases readZipEntries_returns result valid small opened with ⟨eocd, reader, isResult, isYields⟩
  unfold ArchiveReadsBack Returns
  constructor
  · rintro ⟨_, other, isOther, reads⟩
    rw [isResult] at isOther
    cases isOther
    rw [← isYields]
    exact reads
  · intro reads
    refine ⟨eocd, reader, isResult, ?_⟩
    dsimp only
    rw [isYields]
    exact reads

/-- A stored file `f` is read back, and one whose name begins with the mark is not. -/
theorem zip_archives_read_back_small :
    (∃ archive written,
      createZipWriter (fun _ chunks => chunks) ⟨0, 1000⟩ [⟨[0x66], some 0, some [[0x61]]⟩] =
          .ok (archive, written) ∧
        ArchiveReadsBack some written.output [⟨[0x66], some 0, some [[0x61]]⟩] fun _ => true) ∧
    ∃ archive written,
      createZipWriter (fun _ chunks => chunks) ⟨0, 1000⟩
          [⟨[0xfeff, 0x66], some 0, some [[0x61]]⟩] = .ok (archive, written) ∧
        ¬ArchiveReadsBack some written.output [⟨[0xfeff, 0x66], some 0, some [[0x61]]⟩]
          fun _ => true := by
  have inverts : Inverts (fun _ chunks => chunks) some :=
    { inverts := fun _ _ raw _ _ same => ⟨raw, rfl, same⟩
      nothing := fun raw inflated isEmpty isSome => Option.some.inj isSome ▸ isEmpty }
  have finishes : ∀ name : JsString,
      (createZipWriter (fun _ chunks => chunks) ⟨0, 1000⟩
        [⟨name, some 0, some [[0x61]]⟩]).isOk = true →
      ∃ archive written, createZipWriter (fun _ chunks => chunks) ⟨0, 1000⟩
        [⟨name, some 0, some [[0x61]]⟩] = .ok (archive, written) := by
    intro name isOk
    cases result : createZipWriter (fun _ chunks => chunks) ⟨0, 1000⟩
        [⟨name, some 0, some [[0x61]]⟩] with
    | error error =>
        rw [result] at isOk
        cases isOk
    | ok value => exact ⟨value.1, value.2, rfl⟩
  have small : ∀ name : JsString, ∀ entry ∈ [(⟨name, some 0, some [[0x61]]⟩ : ZipWriterEntry)],
      ∀ chunks, entry.source = some chunks → chunks.flatten.length < 0xffffffff := by
    intro name entry member chunks isSource
    rw [List.mem_singleton.mp member] at isSource
    cases isSource
    decide
  constructor
  · rcases finishes [0x66] (by decide +kernel) with ⟨archive, written, result⟩
    refine ⟨archive, written, result, ?_⟩
    apply (@zip_archives_read_back _ _ inverts Host.counting _ _ _ _ result (by decide +kernel)
      (small _) _).mpr
    intro entry member
    rw [List.mem_singleton.mp member]
    decide
  · rcases finishes [0xfeff, 0x66] (by decide +kernel) with ⟨archive, written, result⟩
    refine ⟨archive, written, result, ?_⟩
    intro reads
    have noMark := (@zip_archives_read_back _ _ inverts Host.counting _ _ _ _ result
      (by decide +kernel) (small _) _).mp reads _ List.mem_cons_self
    exact noMark rfl

end Storix
