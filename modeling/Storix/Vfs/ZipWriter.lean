import Mathlib.Algebra.GroupWithZero.Nat
import Storix.Foundation.Command
import Storix.Foundation.Records
import Storix.Text

/-! # Writing ZIP archives

`createZipWriter` writes each entry as a local header, its data and a data descriptor, and then
the central directory and the end record. Sizes and offsets are counted while the output is
written. -/

namespace Storix

open Foundation

inductive ZipWriterError
  /-- `ZIP32 entry count exceeds 65534` -/
  | entryCount
  /-- `ZIP compression level must be between 0 and 9` -/
  | compressionLevel
  /-- `ZIP result limit must be between 1 and 2147483648 bytes` -/
  | resultLimit
  /-- `VfsArchiveResultTooLargeError` -/
  | resultTooLarge
  /-- `ZIP32 archive offset exceeded` -/
  | archiveOffset
  /-- `ZIP entry name exceeds 65535 bytes` -/
  | nameLength
  /-- `ZIP32 entry size exceeded` -/
  | entrySize
  /-- What `toZip32Number` throws. -/
  | number
  /-- What `writeUInt16LE` and `writeUInt32LE` throw for a value that does not fit. -/
  | outOfRange
  /-- The opener or the source failed. -/
  | source
  deriving DecidableEq, Repr

/-! ## Records -/

/-- A record: fields of a width and a value, and the bytes after them. -/
structure ZipRecord where
  fields : List (Nat × Nat)
  tail : List UInt8

namespace ZipRecord

def bytes (record : ZipRecord) : List UInt8 :=
  record.fields.flatMap (fun field => littleEndian field.1 field.2) ++ record.tail

def fits (record : ZipRecord) : Bool :=
  record.fields.all fun field => decide (field.2 < 256 ^ field.1)

/-- The buffer of a record. Writing a value that does not fit throws. -/
def encode (record : ZipRecord) : Except ZipWriterError (List UInt8) :=
  if record.fits then .ok record.bytes else .error .outOfRange

end ZipRecord

/-- A UTC time as `Date` splits it up. -/
structure UtcTime where
  year : Nat
  month : Nat
  day : Nat
  hours : Nat
  minutes : Nat
  seconds : Nat
  deriving DecidableEq

/-- The parts of a time in milliseconds since 1970, in the Gregorian calendar. Years are counted
from March on, so that a leap day is the last day of its year. -/
def utcTime (milliseconds : Nat) : UtcTime :=
  let days := milliseconds / 86400000 + 719468
  let ofDay := milliseconds % 86400000 / 1000
  let era := days / 146097
  let dayOfEra := days % 146097
  let yearOfEra := (dayOfEra - dayOfEra / 1460 + dayOfEra / 36524 - dayOfEra / 146096) / 365
  let dayOfYear := dayOfEra - (365 * yearOfEra + yearOfEra / 4 - yearOfEra / 100)
  let fromMarch := (5 * dayOfYear + 2) / 153
  let month := if fromMarch < 10 then fromMarch + 3 else fromMarch - 9
  { year := yearOfEra + era * 400 + if month ≤ 2 then 1 else 0
    month := month
    day := dayOfYear - (153 * fromMarch + 2) / 5 + 1
    hours := ofDay / 3600
    minutes := ofDay / 60 % 60
    seconds := ofDay % 60 }

example : utcTime 951827696000 = ⟨2000, 2, 29, 12, 34, 56⟩ := by decide

/-- `toDosDateTime`: the time and the date field. A date that is not valid counts as 1970, and
times are clamped to 1980 to 2107. -/
def toDosDateTime (modifiedAt : Option Int) : Nat × Nat :=
  let timestamp := min (max (modifiedAt.getD 0) 315532800000) 4354819198000
  let date := utcTime timestamp.toNat
  (date.hours <<< 11 ||| date.minutes <<< 5 ||| date.seconds / 2,
    (date.year - 1980) <<< 9 ||| date.month <<< 5 ||| date.day)

/-- `ZIP_FLAG_DATA_DESCRIPTOR | ZIP_FLAG_UTF8` -/
def zipFlags : Nat := 0x808

/-- The fields that a header does not set are 0, as `Buffer.alloc` leaves them. -/
def encodeLocalFileHeader (name : List UInt8) (modifiedAt : Option Int) (method : Nat) :
    ZipRecord :=
  let (time, date) := toDosDateTime modifiedAt
  { fields :=
      [(4, 0x04034b50), (2, 20), (2, zipFlags), (2, method), (2, time), (2, date), (4, 0), (4, 0),
        (4, 0), (2, name.length), (2, 0)]
    tail := name }

def encodeDataDescriptor (crc : UInt32) (compressedSize uncompressedSize : Nat) : ZipRecord where
  fields := [(4, 0x08074b50), (4, crc.toNat), (4, compressedSize), (4, uncompressedSize)]
  tail := []

def encodeCentralDirectoryEntry (name : List UInt8) (modifiedAt : Option Int) (method : Nat)
    (crc : UInt32) (compressedSize uncompressedSize localHeaderOffset : Nat) : ZipRecord :=
  let (time, date) := toDosDateTime modifiedAt
  { fields :=
      [(4, 0x02014b50), (2, 20), (2, 20), (2, zipFlags), (2, method), (2, time), (2, date),
        (4, crc.toNat), (4, compressedSize), (4, uncompressedSize), (2, name.length), (2, 0),
        (2, 0), (2, 0), (2, 0), (4, 0), (4, localHeaderOffset)]
    tail := name }

def encodeEndOfCentralDirectory (entryCount centralDirectorySize centralDirectoryOffset : Nat) :
    ZipRecord where
  fields :=
    [(4, 0x06054b50), (2, 0), (2, 0), (2, entryCount), (2, entryCount),
      (4, centralDirectorySize), (4, centralDirectoryOffset), (2, 0)]
  tail := []

/-! ## The writer -/

structure ZipWriterEntry where
  name : JsString
  modifiedAt : Option Int
  /-- The chunks of the source, unless it fails. -/
  source : Option (List (List UInt8))

structure ZipWriterOptions where
  compressionLevel : Int
  maxResultBytes : Int

structure ZipOutput where
  totalBytes : Nat
  output : List UInt8

structure ZipPart where
  localHeaderOffset : Nat
  localHeader : ZipRecord
  data : List UInt8
  descriptor : ZipRecord
  central : ZipRecord
  crc : UInt32
  compressedSize : Nat
  uncompressedSize : Nat

def ZipPart.bytes (part : ZipPart) : List UInt8 :=
  part.localHeader.bytes ++ part.data ++ part.descriptor.bytes

structure ZipArchive where
  parts : List ZipPart
  directoryOffset : Nat
  directorySize : Nat
  endRecord : ZipRecord

abbrev ZipWrite := Command ZipOutput ZipWriterError

/-- `ZIP32_MAX` -/
def zip32Max : Nat := 0xffffffff

/-- `ZIP_MAX_RESULT_BYTES` -/
def zipMaxResultBytes : Nat := 2147483648

def toZip32Number (value : Nat) : Except ZipWriterError Nat :=
  if zip32Max < value then .error .number else .ok value

/-- `write` -/
def writeBytes (options : ZipWriterOptions) (bytes : List UInt8) : ZipWrite Unit := fun current =>
  let nextSize := current.totalBytes + bytes.length
  if options.maxResultBytes < nextSize then .error .resultTooLarge
  else if zip32Max < nextSize then .error .archiveOffset
  else .ok ((), ⟨nextSize, current.output ++ bytes⟩)

def writeRecord (options : ZipWriterOptions) (record : ZipRecord) : ZipWrite Unit := do
  let bytes ← Command.lift record.encode
  writeBytes options bytes

/-- What `integrity` has seen. -/
structure ZipIntegrity where
  uncompressedSize : Nat
  crc : UInt32

/-- `transform` of `integrity` -/
def integrityChunk (seen : ZipIntegrity) (chunk : List UInt8) :
    Except ZipWriterError ZipIntegrity :=
  if zip32Max < seen.uncompressedSize + chunk.length then .error .entrySize
  else .ok ⟨seen.uncompressedSize + chunk.length, crc32 chunk seen.crc⟩

/-- `options.compressionLevel === 0 ? ZIP_METHOD_STORED : ZIP_METHOD_DEFLATED` -/
def ZipWriterOptions.method (options : ZipWriterOptions) : Nat :=
  if options.compressionLevel = 0 then 0 else 8

section

variable (deflateRaw : Int → List (List UInt8) → List (List UInt8)) (options : ZipWriterOptions)

def compressedChunks (chunks : List (List UInt8)) : List (List UInt8) :=
  if options.method = 8 then deflateRaw options.compressionLevel chunks else chunks

/-- One entry. The source passes `integrity` and, if it is deflated, the deflater; the sink
counts and writes what comes out. -/
def writeEntry (entry : ZipWriterEntry) : ZipWrite ZipPart := do
  let name := JsString.utf8 entry.name
  if 0xffff < name.length then Command.stop .nameLength
  else do
    let start ← Command.state
    let localHeaderOffset ← Command.lift (toZip32Number start.totalBytes)
    let localHeader := encodeLocalFileHeader name entry.modifiedAt options.method
    writeRecord options localHeader
    let chunks ← Command.lift (entry.source.elim (.error .source) .ok)
    let seen ← Command.lift (chunks.foldlM integrityChunk ⟨0, 0⟩)
    let data := compressedChunks deflateRaw options chunks
    Command.forEach (writeBytes options) data
    let compressed ← Command.lift (toZip32Number (data.map List.length).sum)
    let uncompressed ← Command.lift (toZip32Number seen.uncompressedSize)
    let descriptor := encodeDataDescriptor seen.crc compressed uncompressed
    writeRecord options descriptor
    let central := encodeCentralDirectoryEntry name entry.modifiedAt options.method seen.crc
      compressed uncompressed localHeaderOffset
    let _ ← Command.lift central.encode
    return ⟨localHeaderOffset, localHeader, data.flatten, descriptor, central, seen.crc,
      compressed, uncompressed⟩

/-- `run` -/
def runZipWriter (entries : List ZipWriterEntry) : ZipWrite ZipArchive := do
  let parts ← Command.collect (writeEntry deflateRaw options) entries
  let written ← Command.state
  let directoryOffset ← Command.lift (toZip32Number written.totalBytes)
  let directorySize := (parts.map fun part => part.central.bytes.length).sum
  let _ ← Command.lift (toZip32Number directorySize)
  Command.forEach (fun part => writeBytes options part.central.bytes) parts
  let endRecord := encodeEndOfCentralDirectory entries.length directorySize directoryOffset
  writeRecord options endRecord
  return ⟨parts, directoryOffset, directorySize, endRecord⟩

/-- `createZipWriter`, run to its end: the archive and what was put out. -/
def createZipWriter (entries : List ZipWriterEntry) :
    Except ZipWriterError (ZipArchive × ZipOutput) :=
  if 65534 < entries.length then .error .entryCount
  else if options.compressionLevel < 0 ∨ 9 < options.compressionLevel then
    .error .compressionLevel
  else if options.maxResultBytes ≤ 0 ∨ zipMaxResultBytes < options.maxResultBytes then
    .error .resultLimit
  else runZipWriter deflateRaw options entries ⟨0, []⟩

end

end Storix
