import Storix.Foundation.Attempt
import Storix.Foundation.Records
import Storix.Vfs.TarReader

/-! # Reading ZIP archives

`readZipEntries` finds the end record, reads the central directory through a window, and checks
each record against its local header before it yields the entry. Positions are signed, as the
`bigint`s of the source are; every range that is asked for is written down. -/

namespace Storix

open Foundation JsString

/-! ## Errors -/

inductive ZipRead
  | endRecord
  | centralDirectory
  | nameAndExtra
  | localHeader
  | dataDescriptor
  deriving DecidableEq, Repr

inductive ZipReason
  | outside (what : ZipRead)
  | extraTruncated
  | noEndRecord
  | multiDisk
  | zip64
  | entryCount
  | directoryRange
  | recordTruncated
  | noCentralSignature
  | variableTruncated
  | encrypted
  | method (method : Nat)
  | nameNotUtf8
  | symlink
  | noLocalSignature
  | localFlags
  | localName
  | localSizes
  | localPlaceholder
  | bodyOverlap
  | descriptor
  | bodyTooLong
  | bodyLength
  | bodyChecksum
  | damagedBody
  | directoryBody
  | directorySize
  deriving DecidableEq, Repr

def ZipRead.text : ZipRead → String
  | endRecord => "EOCD"
  | centralDirectory => "central directory"
  | nameAndExtra => "entry 이름과 extra"
  | localHeader => "local header"
  | dataDescriptor => "data descriptor"

def ZipReason.text : ZipReason → String
  | outside what => what.text ++ " 범위가 FILE 밖"
  | extraTruncated => "extra 필드 잘림"
  | noEndRecord => "ZIP end record 없음"
  | multiDisk => "multi-disk ZIP"
  | zip64 => "zip64"
  | entryCount => "EOCD entry 수 불일치"
  | directoryRange => "central directory 범위가 EOCD와 맞지 않음"
  | recordTruncated => "central directory record 잘림"
  | noCentralSignature => "central directory signature 없음"
  | variableTruncated => "central directory 가변 필드 잘림"
  | encrypted => "암호화 ZIP"
  | method number => "압축 method " ++ toString number
  | nameNotUtf8 => "entry 이름이 UTF-8이 아님"
  | symlink => "symlink entry"
  | noLocalSignature => "local header signature 없음"
  | localFlags => "local header flags·method가 central과 다름"
  | localName => "local header 이름이 central과 다름"
  | localSizes => "local header CRC·크기가 central과 다름"
  | localPlaceholder => "local header placeholder가 central과 다름"
  | bodyOverlap => "entry 본문이 central directory와 겹침"
  | descriptor => "data descriptor가 central과 다름"
  | bodyTooLong => "평문 길이가 선언보다 큼"
  | bodyLength => "평문 길이가 선언과 다름"
  | bodyChecksum => "CRC-32 불일치"
  | damagedBody => "DEFLATE 데이터 손상"
  | directoryBody => "DIRECTORY entry에 본문이 있음"
  | directorySize => "central directory 크기와 record 합이 다름"

inductive ZipError
  | reader (error : ExtractReaderError ZipReason)
  /-- `range read 길이 불일치` -/
  | rangeLength (what : ZipRead)
  /-- `storage range 응답이 요청 길이를 넘음` -/
  | rangeTooLong
  /-- `storage range 응답 길이 불일치` -/
  | rangeTooShort
  deriving DecidableEq

namespace ZipError

def entry (reason : ZipReason) (name : JsString) : ZipError := .reader (entryError reason name)

def format (reason : ZipReason) : ZipError := .reader (formatError reason)

end ZipError

/-! ## State -/

structure ZipRange where
  /-- Opened as a stream, and not read as a whole. -/
  opened : Bool
  start : Int
  length : Int

structure CentralEntry where
  name : JsString
  nameBytes : List UInt8
  flags : Nat
  method : Nat
  crc : Nat
  compressedSize : Nat
  size : Nat
  localHeaderOffset : Nat
  isSymlink : Bool

/-- An entry that was yielded, with the place of its record and of its data. -/
structure ZipYield where
  entry : CentralEntry
  type : VfsNodeType
  recordStart : Int
  recordEnd : Int
  dataStart : Int

structure ZipReader where
  ranges : List ZipRange
  /-- The window of `CentralWindow`. -/
  windowStart : Int
  window : List UInt8
  yielded : List ZipYield

namespace ZipReader

def initial : ZipReader := ⟨[], 0, [], []⟩

def ask (opened : Bool) (start length : Int) (reader : ZipReader) : ZipReader :=
  { reader with ranges := reader.ranges ++ [⟨opened, start, length⟩] }

def yield (item : ZipYield) (reader : ZipReader) : ZipReader :=
  { reader with yielded := reader.yielded ++ [item] }

def setWindow (start : Int) (bytes : List UInt8) (reader : ZipReader) : ZipReader :=
  { reader with windowStart := start, window := bytes }

end ZipReader

abbrev ZipAttempt := Attempt ZipReader ZipError

open Attempt

/-! ## Ranges -/

def readExact (file : List UInt8) (start length : Int) (what : ZipRead)
    (entryName : JsString) : ZipAttempt (List UInt8) := do
  refuseIf (start < 0 ∨ file.length < start + length) (.entry (.outside what) entryName)
  if length = 0 then pure []
  else do
    update (ZipReader.ask false start length)
    let bytes := slice file start.toNat length.toNat
    refuseIf ((bytes.length : Int) ≠ length) (.rangeLength what)
    pure bytes

def moveWindow (file : List UInt8) (cdEnd offset length : Int) (what : ZipRead) :
    ZipAttempt Unit := do
  let reader ← state
  if offset < reader.windowStart ∨
      reader.windowStart + reader.window.length < offset + length then do
    let remaining := cdEnd - offset
    let want := if remaining < 65536 then remaining else 65536
    let bytes ← readExact file offset (max length want) what []
    update (ZipReader.setWindow offset bytes)
  else pure ()

/-- `CentralWindow.read` -/
def windowRead (file : List UInt8) (cdEnd offset length : Int) (what : ZipRead) :
    ZipAttempt (List UInt8) := do
  moveWindow file cdEnd offset length what
  let reader ← state
  pure (slice reader.window (offset - reader.windowStart).toNat length.toNat)

/-! ## The end record -/

structure EndRecord where
  entryCount : Nat
  cdSize : Nat
  cdOffset : Nat

def isEndRecord (tail : List UInt8) (offset : Nat) : Bool :=
  readUInt32LE tail offset == 0x06054b50 &&
    offset + 22 + readUInt16LE tail (offset + 20) == tail.length

/-- The last place below `count` where an end record stands. -/
def findEndRecord (tail : List UInt8) : Nat → Option Nat
  | 0 => none
  | count + 1 => if isEndRecord tail count then some count else findEndRecord tail count

def readEocd (file : List UInt8) : ZipAttempt EndRecord := do
  refuseIf (file.length < 22) (.entry .noEndRecord [])
  let tailLength := if file.length < 22 + 65535 then file.length else 22 + 65535
  let tail ← readExact file (file.length - tailLength) tailLength .endRecord []
  match findEndRecord tail (tail.length - 22 + 1) with
  | none => Attempt.fail (.entry .noEndRecord [])
  | some offset => do
      refuseIf (readUInt16LE tail (offset + 4) ≠ 0 ∨ readUInt16LE tail (offset + 6) ≠ 0)
        (.format .multiDisk)
      let entriesOnDisk := readUInt16LE tail (offset + 8)
      let entryCount := readUInt16LE tail (offset + 10)
      let cdSize := readUInt32LE tail (offset + 12)
      let cdOffset := readUInt32LE tail (offset + 16)
      refuseIf (entryCount = 0xffff ∨ cdSize = 0xffffffff ∨ cdOffset = 0xffffffff ∨
        entriesOnDisk = 0xffff) (.format .zip64)
      refuseIf (entriesOnDisk ≠ entryCount) (.entry .entryCount [])
      refuseIf ((cdOffset : Int) + cdSize ≠ file.length - tailLength + offset)
        (.entry .directoryRange [])
      pure ⟨entryCount, cdSize, cdOffset⟩

/-! ## Records -/

def hasZip64Extra (extra : List UInt8) : Except ZipError Bool :=
  match extra with
  | [] => .ok false
  | first :: rest =>
      let length := 4 + readUInt16LE (first :: rest) 2
      if (first :: rest).length < 4 ∨ (first :: rest).length < length then
        .error (.entry .extraTruncated [])
      else
        match hasZip64Extra ((first :: rest).drop length) with
        | .error error => .error error
        | .ok found => .ok (found || readUInt16LE (first :: rest) 0 == 1)
termination_by extra.length
decreasing_by
  rw [List.length_drop, List.length_cons]
  omega

def readCentralEntry (file : List UInt8) (offset cdEnd : Int) :
    ZipAttempt (CentralEntry × Int) := do
  refuseIf (cdEnd < offset + 46) (.entry .recordTruncated [])
  let fixed ← windowRead file cdEnd offset 46 .centralDirectory
  refuseIf (readUInt32LE fixed 0 ≠ 0x02014b50) (.entry .noCentralSignature [])
  let madeBy := readUInt16LE fixed 4
  let flags := readUInt16LE fixed 8
  let method := readUInt16LE fixed 10
  let crc := readUInt32LE fixed 16
  let compressedSize := readUInt32LE fixed 20
  let size := readUInt32LE fixed 24
  let nameLength := readUInt16LE fixed 28
  let extraLength := readUInt16LE fixed 30
  let commentLength := readUInt16LE fixed 32
  let externalAttributes := readUInt32LE fixed 38
  let localHeaderOffset := readUInt32LE fixed 42
  let next := offset + 46 + (nameLength + extraLength + commentLength : Nat)
  refuseIf (cdEnd < next) (.entry .variableTruncated [])
  refuseIf (readUInt16LE fixed 34 ≠ 0) (.format .multiDisk)
  refuseIf (flags &&& 0x2041 ≠ 0) (.format .encrypted)
  refuseIf (method ≠ 0 ∧ method ≠ 8) (.format (.method method))
  refuseIf (compressedSize = 0xffffffff ∨ size = 0xffffffff ∨ localHeaderOffset = 0xffffffff)
    (.format .zip64)
  let variableBytes ← windowRead file cdEnd (offset + 46) (nameLength + extraLength : Nat)
    .nameAndExtra
  let nameBytes := variableBytes.take nameLength
  let zip64 ← lift (hasZip64Extra (variableBytes.drop nameLength))
  refuseIf (zip64 = true) (.format .zip64)
  match decodeFatal nameBytes with
  | none => Attempt.fail (.entry .nameNotUtf8 (utf8Text nameBytes))
  | some name =>
      let isSymlink := madeBy >>> 8 == 3 && externalAttributes >>> 16 &&& 0xf000 == 0xa000
      pure (⟨name, nameBytes, flags, method, crc, compressedSize, size, localHeaderOffset,
        isSymlink⟩, next)

/-- `(flags & FLAG_DESCRIPTOR) !== 0` -/
def CentralEntry.hasDescriptor (entry : CentralEntry) : Bool := entry.flags &&& 8 != 0

def verifyLocalHeader (file : List UInt8) (entry : CentralEntry) (cdOffset : Int) :
    ZipAttempt Int := do
  let start : Int := entry.localHeaderOffset
  let nameLength := entry.nameBytes.length
  let head ← readExact file start (30 + nameLength : Nat) .localHeader entry.name
  refuseIf (readUInt32LE head 0 ≠ 0x04034b50) (.entry .noLocalSignature entry.name)
  let extraLength := readUInt16LE head 28
  refuseIf (readUInt16LE head 6 ≠ entry.flags ∨ readUInt16LE head 8 ≠ entry.method)
    (.entry .localFlags entry.name)
  refuseIf (readUInt16LE head 26 ≠ nameLength ∨ head.drop 30 ≠ entry.nameBytes)
    (.entry .localName entry.name)
  let localCrc := readUInt32LE head 14
  let localCompressed := readUInt32LE head 18
  let localSize := readUInt32LE head 22
  refuseIf (entry.hasDescriptor = false ∧
      (localCrc ≠ entry.crc ∨ localCompressed ≠ entry.compressedSize ∨ localSize ≠ entry.size))
    (.entry .localSizes entry.name)
  refuseIf (entry.hasDescriptor = true ∧
      (localCrc ≠ 0 ∧ localCrc ≠ entry.crc ∨
        localCompressed ≠ 0 ∧ localCompressed ≠ entry.compressedSize ∨
        localSize ≠ 0 ∧ localSize ≠ entry.size))
    (.entry .localPlaceholder entry.name)
  let dataStart := start + (30 + nameLength + extraLength : Nat)
  let tail : Int := if entry.hasDescriptor then 12 else 0
  refuseIf (cdOffset < dataStart + entry.compressedSize + tail) (.entry .bodyOverlap entry.name)
  pure dataStart

def descriptorMatches (entry : CentralEntry) (bytes : List UInt8) (offset : Nat) : Bool :=
  decide (offset + 12 ≤ bytes.length) && readUInt32LE bytes offset == entry.crc &&
    readUInt32LE bytes (offset + 4) == entry.compressedSize &&
    readUInt32LE bytes (offset + 8) == entry.size

def verifyDescriptor (file : List UInt8) (entry : CentralEntry) (dataStart cdOffset : Int) :
    ZipAttempt Unit := do
  if entry.hasDescriptor = false then pure ()
  else do
    let place := dataStart + entry.compressedSize
    let available := cdOffset - place
    let bytes ← readExact file place (if available < 16 then available else 16) .dataDescriptor
      entry.name
    let signed := decide (16 ≤ bytes.length) && readUInt32LE bytes 0 == 0x08074b50 &&
      descriptorMatches entry bytes 4
    refuseIf (signed = false ∧ descriptorMatches entry bytes 0 = false)
      (.entry .descriptor entry.name)

/-! ## The loop -/

def yieldEntry (entry : CentralEntry) (cursor next dataStart : Int) (opened : Bool) :
    ZipAttempt Unit :=
  if entry.name.getLast? = some slash then do
    refuseIf (entry.size ≠ 0) (.entry .directoryBody entry.name)
    update (ZipReader.yield ⟨entry, .directory, cursor, next, dataStart⟩)
  else do
    update (ZipReader.yield ⟨entry, .file, cursor, next, dataStart⟩)
    -- `openEntry` asks for no range when the compressed size is 0.
    if opened = true ∧ entry.compressedSize ≠ 0 then
      update (ZipReader.ask true dataStart entry.compressedSize)
    else pure ()

def readRecord (file : List UInt8) (cdOffset cdEnd : Int) (opened : Bool) (cursor : Int) :
    ZipAttempt Int := do
  let (entry, next) ← readCentralEntry file cursor cdEnd
  refuseIf (entry.isSymlink = true) (.entry .symlink entry.name)
  let dataStart ← verifyLocalHeader file entry cdOffset
  verifyDescriptor file entry dataStart cdOffset
  yieldEntry entry cursor next dataStart opened
  pure next

def readRecords (file : List UInt8) (cdOffset cdEnd : Int) (opened : Nat → Bool) :
    Nat → Nat → Int → ZipAttempt Int
  | 0, _, cursor => pure cursor
  | count + 1, index, cursor => do
      let next ← readRecord file cdOffset cdEnd (opened index) cursor
      readRecords file cdOffset cdEnd opened count (index + 1) next

/-- `readZipEntries`. `opened` says which of the entries the consumer opens. -/
def readZipEntries (file : List UInt8) (opened : Nat → Bool) : ZipAttempt EndRecord := do
  let eocd ← readEocd file
  let cdEnd : Int := eocd.cdOffset + eocd.cdSize
  let cursor ← readRecords file eocd.cdOffset cdEnd opened eocd.entryCount 0 eocd.cdOffset
  refuseIf (cursor ≠ cdEnd) (.entry .directorySize [])
  pure eocd

/-! ## Bodies -/

/-- What `verifying` has seen. -/
structure VerifyState where
  produced : Nat
  crc : UInt32
  passed : List UInt8

/-- `transform` of `verifying` -/
def verifyChunk (entry : CentralEntry) (seen : VerifyState) (chunk : List UInt8) :
    Except ZipError VerifyState :=
  if entry.size < seen.produced + chunk.length then .error (.entry .bodyTooLong entry.name)
  else
    .ok
      { produced := seen.produced + chunk.length
        crc := crc32 chunk seen.crc
        passed := seen.passed ++ chunk }

/-- All chunks and the `flush` of `verifying`: what came out, if the stream ended. -/
def verifying (entry : CentralEntry) (chunks : List (List UInt8)) :
    Except ZipError (List UInt8) := do
  let seen ← chunks.foldlM (verifyChunk entry) ⟨0, 0, []⟩
  if seen.produced ≠ entry.size then .error (.entry .bodyLength entry.name)
  else if seen.crc.toNat ≠ entry.crc then .error (.entry .bodyChecksum entry.name)
  else .ok seen.passed

/-- All chunks and the `flush` of `rangeGuard`. -/
def rangeGuard (expected : Nat) (chunks : List (List UInt8)) :
    Except ZipError (List (List UInt8)) :=
  if expected < chunks.flatten.length then .error .rangeTooLong
  else if chunks.flatten.length ≠ expected then .error .rangeTooShort
  else .ok chunks

/-- `openEntry`, read to the end of the stream. `raw` are the chunks of the range, and
`inflateRaw` gives the chunks of the inflated data unless they are damaged. -/
def readBody (inflateRaw : List (List UInt8) → Option (List (List UInt8)))
    (entry : CentralEntry) (raw : List (List UInt8)) : Except ZipError (List UInt8) := do
  if entry.compressedSize = 0 then verifying entry []
  else do
    let guarded ← rangeGuard entry.compressedSize raw
    if entry.method = 8 then
      match inflateRaw guarded with
      | none => .error (.entry .damagedBody entry.name)
      | some chunks => verifying entry chunks
    else verifying entry guarded

end Storix
