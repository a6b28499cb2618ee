import Mathlib.Algebra.GroupWithZero.Nat
import Storix.Foundation.ChunkReader
import Storix.Foundation.OrderedMap
import Storix.Persistence.Entities
import Storix.TextDecoding

/-! # Reading tar archives

`readTarEntries` reads a header block at a time and yields the entries in order. Extension
headers (PAX `x` and `g`, GNU `L`) change the name and size of later entries. The body of a
file is read as far as the consumer pulls it; the reader then drains the rest. -/

namespace Storix

open Foundation JsString

/-! ## Errors -/

inductive ExtractErrorKind
  /-- A format that is not supported. -/
  | format
  /-- A damaged or forbidden entry. -/
  | entry
  deriving DecidableEq, Repr

structure ExtractReaderError (Reason : Type) where
  kind : ExtractErrorKind
  reason : Reason
  entryName : Option JsString
  deriving DecidableEq

inductive TarText
  | entryName
  | entryPrefix
  | longName
  | paxRecord
  deriving DecidableEq, Repr

inductive TarReason
  | notUtf8 (what : TarText)
  | notOctal
  | checksum
  | paxLength
  | paxEnd
  | paxWithoutEquals
  | bodyPadding
  | bodyTruncated
  | headerTruncated
  | noHeader
  | noEntryAfterExtension
  | noEndBlocks
  | dataAfterEnd
  | noMagic
  | wrongMagic
  | extensionLimit
  | extensionTruncated
  | sparse
  | paxSize
  | directoryBody
  | unsupportedType (type : UInt8)
  deriving DecidableEq, Repr

def TarText.text : TarText → String
  | entryName => "entry 이름"
  | entryPrefix => "entry prefix"
  | longName => "GNU longname"
  | paxRecord => "PAX 레코드"

/-- `UNSUPPORTED_TYPES[type] ?? "typeflag " + type` -/
def unsupportedTypeText (type : UInt8) : String :=
  if type = 0x31 then "hard link"
  else if type = 0x32 then "symlink"
  else if type = 0x33 then "char device"
  else if type = 0x34 then "block device"
  else if type = 0x36 then "FIFO"
  else if type = 0x37 then "contiguous file"
  else if type = 0x53 then "GNU sparse"
  else if type = 0x4b then "GNU longlink"
  else "typeflag " ++ String.singleton (Char.ofNat type.toNat)

def TarReason.text : TarReason → String
  | notUtf8 what => what.text ++ "이 UTF-8이 아님"
  | notOctal => "tar 숫자 필드가 8진수가 아님"
  | checksum => "tar 헤더 checksum 불일치"
  | paxLength => "PAX 레코드 길이 오류"
  | paxEnd => "PAX 레코드 길이·개행 오류"
  | paxWithoutEquals => "PAX 레코드에 = 없음"
  | bodyPadding => "tar 본문 padding 잘림"
  | bodyTruncated => "tar 본문 잘림"
  | headerTruncated => "tar 헤더 잘림"
  | noHeader => "tar 헤더 없음"
  | noEntryAfterExtension => "확장 헤더 뒤 entry 없음"
  | noEndBlocks => "tar 끝 블록 누락"
  | dataAfterEnd => "tar 끝 블록 뒤에 데이터가 있음"
  | noMagic => "ustar magic 없음(V7 tar)"
  | wrongMagic => "tar 헤더 magic 불일치"
  | extensionLimit => "확장 헤더 상한 초과"
  | extensionTruncated => "확장 헤더 잘림"
  | sparse => "GNU sparse PAX entry"
  | paxSize => "PAX size 오류"
  | directoryBody => "DIRECTORY entry에 본문이 있음"
  | unsupportedType type => "지원하지 않는 tar entry 종류: " ++ unsupportedTypeText type

abbrev TarError := ExtractReaderError TarReason

/-- `new ExtractReaderError('entry', reason, name)` -/
def entryError {Reason : Type} (reason : Reason) (name : JsString) : ExtractReaderError Reason :=
  ⟨.entry, reason, some name⟩

/-- `new ExtractReaderError('format', reason)` -/
def formatError {Reason : Type} (reason : Reason) : ExtractReaderError Reason :=
  ⟨.format, reason, none⟩

/-! ## Fields -/

/-- `BLOCK` -/
def tarBlock : Nat := 512

def tarPadding (size : Nat) : Nat := (tarBlock - size % tarBlock) % tarBlock

/-- `block.subarray(offset, offset + length)` -/
def field (block : List UInt8) (offset length : Nat) : List UInt8 :=
  (block.drop offset).take length

def decodeUtf8 (bytes : List UInt8) (what : TarText) (entryName : Option JsString) :
    Except TarError JsString :=
  match decodeFatal bytes with
  | some text => .ok text
  | none => .error (entryError (.notUtf8 what) (entryName.getD (utf8Text bytes)))

/-- The bytes of a field in front of the first NUL. -/
def cBytes (block : List UInt8) (offset length : Nat) : List UInt8 :=
  (field block offset length).takeWhile (· ≠ 0)

/-- The number of a text of digits below `base`. -/
def ofDigits (base : Nat) (digits : List UInt8) : Nat :=
  digits.foldl (fun value digit => value * base + (digit.toNat - 0x30)) 0

/-- `/^[0-7]+$/`, or up to another last digit. -/
def isNumeral (last : UInt8) (text : List UInt8) : Bool :=
  !text.isEmpty && text.all fun digit => 0x30 ≤ digit && digit ≤ last

/-- What `trimStart` takes from a Latin-1 text. -/
def isLatin1Space (byte : UInt8) : Bool :=
  (9 ≤ byte && byte ≤ 13) || byte == 0x20 || byte == 0xa0

/-- `text.replace(/[\0 ]+$/, '').trimStart()` -/
def trimNumeric (text : List UInt8) : List UInt8 :=
  (text.reverse.dropWhile fun byte => byte == 0 || byte == 0x20).reverse.dropWhile isLatin1Space

/-- An octal field, or a base-256 field if its highest bit is set. -/
def parseNumeric (block : List UInt8) (offset length : Nat) : Except TarError Nat :=
  match field block offset length with
  | first :: rest =>
      if 0x80 ≤ first then
        .ok (rest.foldl (fun value byte => value * 256 + byte.toNat) (first.toNat - 0x80))
      else
        let text := trimNumeric (first :: rest)
        if text.isEmpty then .ok 0
        else if isNumeral 0x37 text then .ok (ofDigits 8 text)
        else .error (entryError .notOctal [])
  | [] => .ok 0

def headerSum (block : List UInt8) : Nat :=
  ((block.take 148 ++ List.replicate 8 0x20 ++ block.drop 156).map UInt8.toNat).sum

def verifyChecksum (block : List UInt8) : Except TarError Unit := do
  let expected ← parseNumeric block 148 8
  if headerSum block = expected then .ok () else .error (entryError .checksum [])

def isZeroBlock (block : List UInt8) : Bool := block.all (· == 0)

/-- `ustar` -/
def ustarMagic : List UInt8 := [0x75, 0x73, 0x74, 0x61, 0x72]

def hasMagic (block : List UInt8) : Bool := field block 257 5 == ustarMagic

/-! ## PAX records -/

/-- `/^[1-9][0-9]*$/` -/
def isPaxLength (text : List UInt8) : Bool := isNumeral 0x39 text && text.head? != some 0x30

def paxRecord (body : List UInt8) (entryName : JsString) :
    Except TarError (JsString × JsString × List UInt8) :=
  let lengthText := if body.contains 0x20 then body.takeWhile (· ≠ 0x20) else []
  if isPaxLength lengthText = false then .error (entryError .paxLength entryName)
  else
    let length := ofDigits 10 lengthText
    if body.length < length ∨ body[length - 1]? ≠ some 0x0a then
      .error (entryError .paxEnd entryName)
    else do
      let record ← decodeUtf8 ((body.take (length - 1)).drop (lengthText.length + 1)) .paxRecord
        (some entryName)
      if record.contains 0x3d = false then .error (entryError .paxWithoutEquals entryName)
      else
        .ok (record.takeWhile (· ≠ 0x3d), (record.dropWhile (· ≠ 0x3d)).drop 1, body.drop length)

/-- `__proto__` -/
def protoKey : JsString := [0x5f, 0x5f, 0x70, 0x72, 0x6f, 0x74, 0x6f, 0x5f, 0x5f]

/-- `out[key] = value` on an object literal: the setter of `__proto__` ignores a string. -/
def assign (records : OrderedMap JsString JsString) (key value : JsString) :
    OrderedMap JsString JsString :=
  if key = protoKey then records else records.set key value

/-- The loop over the records. Every record takes at least one byte, so that as many turns as
there are bytes are enough. -/
def parsePaxFrom (entryName : JsString) : Nat → OrderedMap JsString JsString → List UInt8 →
    Except TarError (OrderedMap JsString JsString)
  | 0, records, _ => .ok records
  | turns + 1, records, body =>
      if body.isEmpty then .ok records
      else do
        let (key, value, rest) ← paxRecord body entryName
        parsePaxFrom entryName turns (assign records key value) rest

def parsePax (body : List UInt8) (entryName : JsString) :
    Except TarError (OrderedMap JsString JsString) :=
  parsePaxFrom entryName body.length .empty body

/-- `path` -/
def pathKey : JsString := [0x70, 0x61, 0x74, 0x68]

/-- `size` -/
def sizeKey : JsString := [0x73, 0x69, 0x7a, 0x65]

/-- `GNU.sparse.` -/
def sparseStart : JsString := [0x47, 0x4e, 0x55, 0x2e, 0x73, 0x70, 0x61, 0x72, 0x73, 0x65, 0x2e]

/-- `GNU.sparse.name` -/
def sparseNameKey : JsString := sparseStart ++ [0x6e, 0x61, 0x6d, 0x65]

/-- `SCHILY.realsize` -/
def realSizeKey : JsString :=
  [0x53, 0x43, 0x48, 0x49, 0x4c, 0x59, 0x2e, 0x72, 0x65, 0x61, 0x6c, 0x73, 0x69, 0x7a, 0x65]

/-- `SPARSE_KEYS` -/
def isSparseKey (key : JsString) : Bool := sparseStart.isPrefixOf key || key == realSizeKey

/-- `/^[0-9]+$/` on a text, with its number. -/
def decimalNumber (text : JsString) : Option Nat :=
  if !text.isEmpty && text.all fun unit => 0x30 ≤ unit && unit ≤ 0x39 then
    some (text.foldl (fun value unit => value * 10 + (unit.toNat - 0x30)) 0)
  else none

/-! ## Headers -/

structure TarSettings where
  path : Option JsString
  size : Option Nat
  deriving DecidableEq

structure TarState where
  globals : TarSettings
  pending : TarSettings
  zeroBlocks : Nat
  headersSeen : Nat
  lastName : JsString
  deriving DecidableEq

namespace TarState

def initial : TarState := ⟨⟨none, none⟩, ⟨none, none⟩, 0, 0, []⟩

def hasPending (state : TarState) : Bool :=
  state.pending.path.isSome || state.pending.size.isSome

def missingEntry (state : TarState) : TarError :=
  entryError .noEntryAfterExtension (state.pending.path.getD state.lastName)

/-- The input ends where a header should begin, with these bytes of it. -/
def endOfInput (state : TarState) (leftover : List UInt8) : TarError :=
  if state.headersSeen = 0 ∧ state.zeroBlocks = 0 then
    if 263 ≤ leftover.length ∧ hasMagic leftover = true then entryError .headerTruncated []
    else formatError .noHeader
  else if leftover ≠ [] then entryError .headerTruncated []
  else if state.hasPending then state.missingEntry
  else entryError .noEndBlocks state.lastName

end TarState

inductive TarExtension
  /-- `x` -/
  | pax
  /-- `g` -/
  | globalPax
  /-- `L` -/
  | longName
  deriving DecidableEq, Repr

def extensionOf (type : UInt8) : Option TarExtension :=
  if type = 0x78 then some .pax
  else if type = 0x67 then some .globalPax
  else if type = 0x4c then some .longName
  else none

inductive TarAction
  /-- The first of the two end blocks. -/
  | again (state : TarState)
  /-- The second one. -/
  | trailer
  | extension (state : TarState) (type : TarExtension) (name : JsString) (length : Nat)
  | directory (state : TarState) (name : JsString)
  | file (state : TarState) (name : JsString) (size : Nat)

/-- `block[156] === 0 ? '0' : …` -/
def typeFlag (block : List UInt8) : UInt8 :=
  let flag := block.getD 156 0
  if flag = 0 then 0x30 else flag

/-- The name in the header itself. Only a POSIX header has a prefix. -/
def headerName (block : List UInt8) : Except TarError JsString := do
  let rawName ← decodeUtf8 (cBytes block 0 100) .entryName none
  let front ←
    if block.getD 262 0 = 0 then decodeUtf8 (cBytes block 345 155) .entryPrefix none else .ok []
  .ok (if front.isEmpty then rawName else front ++ slash :: rawName)

/-- A header that is no extension: the settings give it its name and size. -/
def entryAction (state : TarState) (type : UInt8) (headerName : JsString) (headerSize : Nat) :
    Except TarError TarAction :=
  let name := (state.pending.path.or state.globals.path).getD headerName
  let size := (state.pending.size.or state.globals.size).getD headerSize
  let next := { state with pending := ⟨none, none⟩, lastName := name }
  if type = 0x35 ∨ type = 0x30 ∧ name.getLast? = some slash then
    if size ≠ 0 then .error (entryError .directoryBody name) else .ok (.directory next name)
  else if type ≠ 0x30 then .error (entryError (.unsupportedType type) name)
  else .ok (.file next name size)

def interpretHeader (maxHeaderBytes : Nat) (state : TarState) (block : List UInt8) :
    Except TarError TarAction :=
  if isZeroBlock block then
    if state.hasPending then .error state.missingEntry
    else if state.zeroBlocks + 1 < 2 then
      .ok (.again { state with zeroBlocks := state.zeroBlocks + 1 })
    else .ok .trailer
  else if 0 < state.zeroBlocks then .error (entryError .dataAfterEnd state.lastName)
  else if hasMagic block = false then
    .error (if state.headersSeen = 0 then formatError .noMagic else entryError .wrongMagic [])
  else do
    let state := { state with headersSeen := state.headersSeen + 1 }
    verifyChecksum block
    let headerSize ← parseNumeric block 124 12
    let name ← headerName block
    match extensionOf (typeFlag block) with
    | some extension =>
        if maxHeaderBytes < headerSize then .error (entryError .extensionLimit name)
        else .ok (.extension state extension name headerSize)
    | none => entryAction state (typeFlag block) name headerSize

def applyPax (settings : TarSettings) (records : OrderedMap JsString JsString)
    (name : JsString) : Except TarError TarSettings :=
  let withPath := { settings with path := (records.get pathKey).or settings.path }
  match records.get sizeKey with
  | none => .ok withPath
  | some text =>
      match decimalNumber text with
      | none => .error (entryError .paxSize name)
      | some size => .ok { withPath with size := some size }

def interpretExtension (state : TarState) (type : TarExtension) (name : JsString)
    (body : List UInt8) (length : Nat) : Except TarError TarState := do
  match type with
  | .longName =>
      let path ← decodeUtf8 (cBytes body 0 length) .longName none
      .ok { state with pending := { state.pending with path := some path } }
  | type =>
      let records ← parsePax (body.take length) name
      if records.keys.any isSparseKey then
        -- The real path of a sparse file stands in `GNU.sparse.name`.
        .error (entryError .sparse ((records.get sparseNameKey).getD
          ((records.get pathKey).getD (state.pending.path.getD name))))
      else if type = .globalPax then
        let globals ← applyPax state.globals records name
        .ok { state with globals := globals }
      else
        let pending ← applyPax state.pending records name
        .ok { state with pending := pending }

/-! ## Bodies -/

inductive BodyStatus
  | reading
  | finished
  | failed (error : TarError)
  deriving DecidableEq

structure BodyStream where
  reader : ChunkReader UInt8
  remaining : Nat
  pushed : List UInt8
  status : BodyStatus

namespace BodyStream

def create (reader : ChunkReader UInt8) (size : Nat) : BodyStream := ⟨reader, size, [], .reading⟩

/-- One call of `read`. A stream that has ended or failed is not asked again. -/
def pull (size : Nat) (name : JsString) (body : BodyStream) : BodyStream :=
  if body.status ≠ .reading then body
  else if body.remaining = 0 then
    match body.reader.read (tarPadding size) with
    | (none, reader) =>
        { body with reader := reader, status := .failed (entryError .bodyPadding name) }
    | (some _, reader) => { body with reader := reader, status := .finished }
  else
    let (chunk, reader) := body.reader.readUpTo (min body.remaining 65536)
    if chunk.isEmpty then
      { body with reader := reader, status := .failed (entryError .bodyTruncated name) }
    else
      { body with
        reader := reader
        remaining := body.remaining - chunk.length
        pushed := body.pushed ++ chunk }

/-- Call `read` that often, or until the stream ends or fails. -/
def pulls (size : Nat) (name : JsString) : Nat → BodyStream → BodyStream
  | 0, body => body
  | count + 1, body => pulls size name count (body.pull size name)

/-- `stream.resume()`: read to the end. A call takes a byte or is the last one. -/
def drain (size : Nat) (name : JsString) (body : BodyStream) : BodyStream :=
  body.pulls size name (body.reader.content.length + 1)

end BodyStream

/-! ## The loop -/

structure TarEntry where
  name : JsString
  type : VfsNodeType
  size : Nat
  /-- What the body stream pushed for the consumer, before the reader drained it. -/
  delivered : List UInt8
  /-- The consumer read the body to its end. -/
  complete : Bool
  deriving DecidableEq

structure TarVisit where
  position : Nat
  /-- How many bytes of body it says follow it. -/
  length : Nat
  extension : Bool
  entry : Option TarEntry
  deriving DecidableEq

inductive TarTurn
  | ends (ending : Except TarError Unit)
  | goes (state : TarState) (reader : ChunkReader UInt8)

/-- Only zeros are allowed after the end blocks. Every read takes a byte or is the last. -/
def readTrailer (lastName : JsString) : Nat → ChunkReader UInt8 → Except TarError Unit
  | 0, _ => .ok ()
  | turns + 1, reader =>
      let (rest, reader) := reader.readUpTo 65536
      if rest.isEmpty then .ok ()
      else if isZeroBlock rest = false then .error (entryError .dataAfterEnd lastName)
      else readTrailer lastName turns reader

/-- One turn of the loop, after the header block. The consumer calls `read` on the body of a
file `pulled` times before it asks for the next entry. -/
def takeTurn (maxHeaderBytes : Nat) (state : TarState) (position : Nat) (block : List UInt8)
    (reader : ChunkReader UInt8) (pulled : Nat) : TarVisit × TarTurn :=
  match interpretHeader maxHeaderBytes state block with
  | .error error => (⟨position, 0, false, none⟩, .ends (.error error))
  | .ok (.again next) => (⟨position, 0, false, none⟩, .goes next reader)
  | .ok .trailer =>
      (⟨position, 0, false, none⟩,
        .ends (readTrailer state.lastName (reader.content.length + 1) reader))
  | .ok (.extension next type name length) =>
      (⟨position, length, true, none⟩,
        match reader.read (length + tarPadding length) with
        | (none, _) => .ends (.error (entryError .extensionTruncated name))
        | (some body, later) =>
            match interpretExtension next type name body length with
            | .error error => .ends (.error error)
            | .ok next => .goes next later)
  | .ok (.directory next name) =>
      (⟨position, 0, false, some ⟨name, .directory, 0, [], false⟩⟩, .goes next reader)
  | .ok (.file next name size) =>
      let seen := (BodyStream.create reader size).pulls size name pulled
      let drained := seen.drain size name
      (⟨position, size, false,
          some ⟨name, .file, size, seen.pushed, decide (seen.status = .finished)⟩⟩,
        match drained.status with
        | .failed error => .ends (.error error)
        | _ => .goes next drained.reader)

structure TarResult where
  visits : List TarVisit
  /-- How the generator ended; `none` if the turns ran out before. -/
  ending : Option (Except TarError Unit)
  deriving DecidableEq

/-- `for (;;)`, for at most `turns` turns. `pulled` says how often the consumer reads from the
body of the file that is the first, the second and so on from here. -/
def readLoop (maxHeaderBytes : Nat) :
    Nat → TarState → ChunkReader UInt8 → (Nat → Nat) → TarResult
  | 0, _, _, _ => ⟨[], none⟩
  | turns + 1, state, reader, pulled =>
      match reader.read tarBlock with
      | (none, last) => ⟨[], some (.error (state.endOfInput last.buffered))⟩
      | (some block, after) =>
          match takeTurn maxHeaderBytes state reader.position block after (pulled 0) with
          | (visit, .ends ending) => ⟨[visit], some ending⟩
          | (visit, .goes next later) =>
              let isFile := visit.entry.any fun entry => entry.type == .file
              let rest := readLoop maxHeaderBytes turns next later
                (if isFile then fun index => pulled (index + 1) else pulled)
              ⟨visit :: rest.visits, rest.ending⟩

structure Cutting (bytes : List UInt8) where
  chunks : List (List UInt8)
  nonempty : [] ∉ chunks
  whole : chunks.flatten = bytes

def Cutting.reader {bytes : List UInt8} (cutting : Cutting bytes) : ChunkReader UInt8 :=
  ⟨[], cutting.chunks, 0, cutting.nonempty⟩

/-- `readTarEntries`. A turn takes a block, so that one turn more than there are bytes is
enough. -/
def readTarEntries (maxHeaderBytes : Nat) {bytes : List UInt8} (source : Cutting bytes)
    (pulled : Nat → Nat) : TarResult :=
  readLoop maxHeaderBytes (bytes.length + 1) .initial source.reader pulled

end Storix
