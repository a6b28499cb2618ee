import Mathlib.Data.Bool.AllAny
import Storix.TextDecoding
import Storix.Vfs.UploadSessionRequest

/-! # Fingerprints separate requests

The bytes that a fingerprint is the hash of determine the parts, and the parts of a request
for an upload session determine what it asks for. -/

namespace Storix

open Foundation JsString

/-! ## Lists of parts -/

def NoCollision (sha256 : List UInt8 → String) (left right : List UInt8) : Prop :=
  sha256 left = sha256 right → left = right

def WellFormed (parts : List JsString) : Prop := ∀ part ∈ parts, hasLoneSurrogate part = false

theorem frameParts_injective {left right : List JsString}
    (leftFits : ∀ part ∈ left, (utf8 part).length < 2 ^ 32)
    (rightFits : ∀ part ∈ right, (utf8 part).length < 2 ^ 32)
    (leftFormed : WellFormed left) (rightFormed : WellFormed right)
    (same : frameParts left = frameParts right) : left = right := by
  induction left generalizing right with
  | nil =>
      cases right with
      | nil => rfl
      | cons part rest =>
          have lengths := congrArg List.length same
          simp [frameParts] at lengths
          omega
  | cons part rest induction =>
      cases right with
      | nil =>
          have lengths := congrArg List.length same
          simp [frameParts] at lengths
      | cons other others =>
          simp only [frameParts, List.append_assoc] at same
          have ⟨sameSize, sameRest⟩ := List.append_inj same (by simp)
          have sameLength : (utf8 part).length = (utf8 other).length :=
            bigEndian_injective (leftFits part List.mem_cons_self)
              (rightFits other List.mem_cons_self) sameSize
          have ⟨sameBytes, sameTail⟩ := List.append_inj sameRest sameLength
          have samePart : part = other :=
            utf8_injective (leftFormed part List.mem_cons_self)
              (rightFormed other List.mem_cons_self) sameBytes
          have sameOthers : rest = others := by
            apply induction
            · exact fun part member => leftFits part (List.mem_cons_of_mem _ member)
            · exact fun part member => rightFits part (List.mem_cons_of_mem _ member)
            · exact fun part member => leftFormed part (List.mem_cons_of_mem _ member)
            · exact fun part member => rightFormed part (List.mem_cons_of_mem _ member)
            · exact sameTail
          rw [samePart, sameOthers]

theorem hashParts_eq_some {sha256 : List UInt8 → String} {parts : List JsString} {digest : String} :
    hashParts sha256 parts = some digest ↔
      (∀ part ∈ parts, (utf8 part).length < 2 ^ 32) ∧ sha256 (frameParts parts) = digest := by
  unfold hashParts
  split
  case isTrue fits =>
    simp only [List.all_eq_true, decide_eq_true_eq] at fits
    simpa using fun _ => fits
  case isFalse large =>
    simp only [List.all_eq_true, decide_eq_true_eq] at large
    simp only [reduceCtorEq, false_iff, not_and]
    exact fun fits => absurd fits large

theorem parts_eq_of_hashParts {sha256 : List UInt8 → String} {left right : List JsString}
    {digest : String} (leftFormed : WellFormed left) (rightFormed : WellFormed right)
    (noCollision : NoCollision sha256 (frameParts left) (frameParts right))
    (isLeft : hashParts sha256 left = some digest)
    (isRight : hashParts sha256 right = some digest) : left = right := by
  have ⟨leftFits, leftDigest⟩ := hashParts_eq_some.mp isLeft
  have ⟨rightFits, rightDigest⟩ := hashParts_eq_some.mp isRight
  apply frameParts_injective leftFits rightFits leftFormed rightFormed
  exact noCollision (leftDigest.trans rightDigest.symm)

/-! ## ASCII parts -/

theorem hasLoneSurrogate_of_ascii {text : JsString} (isAscii : ∀ unit ∈ text, unit.toNat < 0x80) :
    hasLoneSurrogate text = false := by
  have single : ∀ unit : UInt16, unit.toNat < 0x80 →
      isHighSurrogate unit = false ∧ isLowSurrogate unit = false := by
    intro unit small
    simp only [isHighSurrogate, isLowSurrogate, Bool.and_eq_false_iff, decide_eq_false_iff_not,
      UInt16.le_iff_toNat_le]
    constructor
    · left
      exact fun large => absurd small (by simp at large; omega)
    · left
      exact fun large => absurd small (by simp at large; omega)
  induction text with
  | nil => rfl
  | cons unit rest induction =>
      rcases single unit (isAscii unit List.mem_cons_self) with ⟨notHigh, notLow⟩
      have later := induction fun unit member => isAscii unit (List.mem_cons_of_mem _ member)
      cases rest with
      | nil => simp [hasLoneSurrogate, notHigh, notLow]
      | cons next rest => simpa [hasLoneSurrogate, notHigh, notLow] using later

theorem isDigit_ascii {unit : UInt16} (digit : isDigit unit = true) : unit.toNat < 0x80 := by
  rw [isDigit_iff] at digit
  omega

theorem isLowerHex_ascii {unit : UInt16} (digit : isLowerHex unit = true) : unit.toNat < 0x80 := by
  simp [isLowerHex, isDigit, UInt16.le_iff_toNat_le] at digit
  omega

theorem isAlphanumeric_ascii {unit : UInt16} (letter : isAlphanumeric unit = true) :
    unit.toNat < 0x80 := by
  simp [isAlphanumeric, isDigit, UInt16.le_iff_toNat_le] at letter
  omega

theorem isMimeUnit_ascii {unit : UInt16} (letter : isMimeUnit unit = true) : unit.toNat < 0x80 := by
  have marks : ∀ mark ∈ ascii "!#$&^_.+-", mark.toNat < 0x80 :=
    List.all_iff_forall_prop.mp (by decide)
  rw [isMimeUnit, Bool.or_eq_true, List.contains_iff_mem] at letter
  rcases letter with letter | mark
  · exact isAlphanumeric_ascii letter
  · exact marks unit mark

theorem isMimeToken_ascii {text : JsString} (token : isMimeToken text = true) :
    ∀ unit ∈ text, unit.toNat < 0x80 := by
  cases text with
  | nil => simp
  | cons first rest =>
      rw [isMimeToken, Bool.and_eq_true, List.all_eq_true] at token
      intro unit member
      rcases List.mem_cons.mp member with isFirst | inRest
      · rw [isFirst]
        exact isAlphanumeric_ascii token.1
      · exact isMimeUnit_ascii (token.2 unit inRest)

theorem isMimeType_ascii {text : JsString} (mimeType : isMimeType text = true) :
    ∀ unit ∈ text, unit.toNat < 0x80 := by
  unfold isMimeType at mimeType
  split at mimeType
  case h_1 type subtype isSplit =>
    rw [Bool.and_eq_true] at mimeType
    have whole : text = join [type, subtype] := by
      rw [← isSplit]
      exact (List.intercalate_splitOn slash).symm
    intro unit member
    rw [whole] at member
    simp [join] at member
    rcases member with inType | isSlash | inSubtype
    · exact isMimeToken_ascii mimeType.1 unit inType
    · rw [isSlash]
      decide
    · exact isMimeToken_ascii mimeType.2 unit inSubtype
  case h_2 => cases mimeType

theorem asciiLowerCase_ascii {text : JsString} (isAscii : ∀ unit ∈ text, unit.toNat < 0x80) :
    ∀ unit ∈ asciiLowerCase text, unit.toNat < 0x80 := by
  intro unit member
  rcases List.mem_map.mp member with ⟨old, isOld, isUnit⟩
  have small := isAscii old isOld
  rw [← isUnit]
  split
  case isTrue upper =>
    simp only [Bool.and_eq_true, decide_eq_true_eq, UInt16.le_iff_toNat_le] at upper
    rw [UInt16.toNat_add]
    simp at upper ⊢
    omega
  case isFalse => exact small

theorem base64Value_ascii {unit : UInt16} (letter : (base64Value unit).isSome) :
    unit.toNat < 0x80 := by
  unfold base64Value at letter
  dsimp only at letter
  split at letter
  · omega
  · split at letter
    · omega
    · split at letter
      · omega
      · split at letter
        · omega
        · split at letter
          · omega
          · cases letter

theorem token_ascii {raw : JsString} {revision : Revision}
    (result : decodeRevisionToken raw = .ok revision) :
    raw.take 3 = tokenStart ∧ ∀ unit ∈ raw, unit.toNat < 0x80 := by
  unfold decodeRevisionToken at result
  dsimp only at result
  split at result
  · cases result
  · rename_i accepted
    rw [not_or, not_or, not_not] at accepted
    have ⟨start, _, letters⟩ := accepted
    refine ⟨start, ?_⟩
    intro unit member
    rw [← List.take_append_drop 3 raw, start] at member
    rcases List.mem_append.mp member with inStart | inText
    · have small : ∀ unit ∈ tokenStart, unit.toNat < 0x80 :=
        List.all_iff_forall_prop.mp (by decide)
      exact small unit inStart
    · apply base64Value_ascii
      rw [Bool.not_eq_true, List.any_eq_false] at letters
      simpa [Option.isSome_iff_ne_none] using letters unit inText

theorem decimal_eq (value : Nat) : decimal value = toDecimal value := by
  simp [decimal, toDecimal, ToString.toString, Nat.repr]

/-! ## Accepted requests -/

/-- What the checks of `parseUploadSessionCreateRequest` leave of a request. -/
structure UploadSessionCreateRequest.Accepted (request : UploadSessionCreateRequest) : Prop where
  size : isDecimal request.sizeBytes = true
  mimeType : ∀ unit ∈ request.mimeType, unit.toNat < 0x80
  checksum : ∀ sha256 ∈ request.sha256, isChecksum sha256 = true
  condition : request.ifAbsent = true ∧ request.ifRevision = none ∨
    request.ifAbsent = false ∧ ∃ token revision, request.ifRevision = some token ∧
      decodeRevisionToken token = .ok revision

theorem parseCreateFields_accepted {row : List (JsString × JsonValue)}
    {ifRevision sha256 : Option JsString} {request : UploadSessionCreateRequest}
    (checksum : ∀ text ∈ sha256, isChecksum text = true)
    (result : parseCreateFields row ifRevision sha256 = .ok request) : request.Accepted := by
  unfold parseCreateFields at result
  split at result
  case h_1 path sizeBytes mimeType _ _ _ =>
    split at result
    case isTrue => cases result
    case isFalse valid =>
      simp only [Bool.or_eq_true, Bool.not_eq_true', decide_eq_true_eq, not_or,
        Bool.not_eq_false] at valid
      have ⟨⟨decimal, _⟩, isMime⟩ := valid
      cases ifRevision with
      | none =>
          cases result
          exact ⟨decimal, asciiLowerCase_ascii (isMimeType_ascii isMime), checksum,
            .inl ⟨rfl, rfl⟩⟩
      | some token =>
          dsimp only at result
          cases decoded : decodeRevisionToken token with
          | error error =>
              rw [decoded] at result
              cases result
          | ok revision =>
              rw [decoded] at result
              cases result
              exact ⟨decimal, asciiLowerCase_ascii (isMimeType_ascii isMime), checksum,
                .inr ⟨rfl, token, revision, rfl, decoded⟩⟩
  case h_2 => cases result

theorem parse_accepted {body : JsonValue} {request : UploadSessionCreateRequest}
    (result : parseUploadSessionCreateRequest body = .ok request) : request.Accepted := by
  unfold parseUploadSessionCreateRequest at result
  split at result
  case h_1 row =>
    dsimp only at result
    split at result
    · cases result
    · split at result
      · cases result
      · rename_i checksums
        split at result
        · cases result
        · split at result
          · cases result
          · split at result
            · cases result
            · apply parseCreateFields_accepted _ result
              intro text member
              rcases Option.bind_eq_some_iff.mp member with ⟨value, isValue, isText⟩
              rw [isValue] at checksums
              simpa [isText] using checksums
  case h_2 => cases result

theorem readCreation_accepted {host : Host} {body : JsonValue} {creation : SessionCreation host}
    (result : readCreation host body = .ok creation) : creation.request.Accepted := by
  unfold readCreation at result
  cases parsed : parseUploadSessionCreateRequest body with
  | error error =>
      rw [parsed] at result
      cases result
  | ok request =>
      rw [parsed] at result
      dsimp only at result
      split at result
      · cases result
      · split at result
        · cases result
        · split at result
          · cases result
            exact parse_accepted parsed
          · cases result

/-! ## The parts of a request -/

def expiryPart (seconds : Nat) : JsString := ascii "expires:" ++ decimal seconds

theorem expiryPart_injective {left right : Nat} (same : expiryPart left = expiryPart right) :
    left = right := by
  have digits := List.append_cancel_left same
  rw [decimal_eq, decimal_eq] at digits
  rw [← (toDecimal_spec left).2, ← (toDecimal_spec right).2, digits]

theorem expiryPart_ne_checksum {seconds : Nat} {sha256 : JsString}
    (checksum : isChecksum sha256 = true) : expiryPart seconds ≠ sha256 := by
  intro same
  rw [isChecksum, Bool.and_eq_true, List.all_eq_true, ← same] at checksum
  have letter := checksum.2 0x78 (List.mem_append_left _ (by decide))
  exact absurd letter (by decide)

theorem optional_parts_injective {leftSha rightSha : Option JsString}
    {leftExpiry rightExpiry : Option Nat}
    (leftChecksum : ∀ sha256 ∈ leftSha, isChecksum sha256 = true)
    (rightChecksum : ∀ sha256 ∈ rightSha, isChecksum sha256 = true)
    (same : leftSha.toList ++ (leftExpiry.map expiryPart).toList =
      rightSha.toList ++ (rightExpiry.map expiryPart).toList) :
    leftSha = rightSha ∧ leftExpiry = rightExpiry := by
  cases leftSha with
  | none =>
      cases rightSha with
      | none =>
          cases leftExpiry with
          | none => cases rightExpiry with
            | none => exact ⟨rfl, rfl⟩
            | some right => simp at same
          | some left => cases rightExpiry with
            | none => simp at same
            | some right =>
                simp only [Option.toList_none, Option.map_some, Option.toList_some,
                  List.nil_append, List.cons.injEq, and_true] at same
                exact ⟨rfl, congrArg some (expiryPart_injective same)⟩
      | some right =>
          cases leftExpiry with
          | none => simp at same
          | some left =>
              simp only [Option.toList_none, Option.map_some, Option.toList_some,
                List.nil_append, List.cons_append, List.cons.injEq] at same
              exact absurd same.1 (expiryPart_ne_checksum (rightChecksum right rfl))
  | some left =>
      cases rightSha with
      | none =>
          cases rightExpiry with
          | none => simp at same
          | some right =>
              simp only [Option.toList_none, Option.map_some, Option.toList_some,
                List.nil_append, List.cons_append, List.cons.injEq] at same
              exact absurd same.1.symm (expiryPart_ne_checksum (leftChecksum left rfl))
      | some right =>
          simp only [Option.toList_some, List.cons_append, List.nil_append,
            List.cons.injEq] at same
          refine ⟨congrArg some same.1, ?_⟩
          have rest := same.2
          cases leftExpiry with
          | none => cases rightExpiry with
            | none => rfl
            | some right => simp at rest
          | some left => cases rightExpiry with
            | none => simp at rest
            | some right =>
                simp only [Option.map_some, Option.toList_some, List.cons.injEq,
                  and_true] at rest
                exact congrArg some (expiryPart_injective rest)

namespace SessionCreation

variable {host : Host} {left right : SessionCreation host}

def conditionPart (request : UploadSessionCreateRequest) : JsString :=
  if request.ifAbsent then ascii "ABSENT" else request.ifRevision.getD []

theorem conditionPart_injective {left right : UploadSessionCreateRequest} (isLeft : left.Accepted)
    (isRight : right.Accepted) (same : conditionPart left = conditionPart right) :
    left.ifRevision = right.ifRevision := by
  have different : ∀ token revision, decodeRevisionToken token = .ok revision →
      ascii "ABSENT" ≠ token := by
    intro token revision decoded isToken
    have start := (token_ascii decoded).1
    rw [← isToken] at start
    exact absurd start (by decide)
  unfold conditionPart at same
  rcases isLeft.condition with
    ⟨leftAbsent, leftNone⟩ | ⟨leftThere, token, revision, isToken, decoded⟩
  · rcases isRight.condition with ⟨_, rightNone⟩ | ⟨rightThere, token, revision, isToken, decoded⟩
    · rw [leftNone, rightNone]
    · rw [leftAbsent, rightThere, isToken] at same
      exact absurd same (different token revision decoded)
  · rcases isRight.condition with
      ⟨rightAbsent, rightNone⟩ | ⟨rightThere, other, otherRevision, isOther, _⟩
    · rw [leftThere, rightAbsent, isToken] at same
      exact absurd same.symm (different token revision decoded)
    · rw [leftThere, rightThere, isToken, isOther] at same
      rw [isToken, isOther]
      exact congrArg some same

theorem parts_eq (creation : SessionCreation host) :
    creation.parts = ascii "POST" :: ascii "upload-sessions" :: creation.path.canonical ::
      creation.request.sizeBytes :: creation.request.mimeType :: conditionPart creation.request ::
      (creation.request.sha256.toList ++
        (creation.fileExpiresInSeconds.map expiryPart).toList) := rfl

theorem wellFormed (accepted : left.request.Accepted) : WellFormed left.parts := by
  have ofAscii := fun text => @hasLoneSurrogate_of_ascii text
  have condition : hasLoneSurrogate (conditionPart left.request) = false := by
    unfold conditionPart
    rcases accepted.condition with ⟨absent, _⟩ | ⟨there, token, revision, isToken, decoded⟩
    · rw [absent, if_pos rfl]
      decide
    · rw [there, isToken]
      exact ofAscii token (token_ascii decoded).2
  have path : hasLoneSurrogate left.path.canonical = false := by
    have paired := hasLoneSurrogate_join left.path.valid.paired
    have whole := hasLoneSurrogate_append_slash [] (join left.path.segments)
    rw [paired] at whole
    exact whole
  intro part member
  rw [parts_eq] at member
  simp only [List.mem_cons, List.mem_append, Option.mem_toList,
    Option.map_eq_some_iff] at member
  rcases member with isPost | isName | isPath | isSize | isMime | isCondition | isSha |
    ⟨seconds, _, isExpiry⟩
  · rw [isPost]
    decide
  · rw [isName]
    decide
  · rw [isPath]
    exact path
  · rw [isSize]
    exact ofAscii _ fun unit inSize => isDigit_ascii (isDecimal_digits accepted.size unit inSize)
  · rw [isMime]
    exact ofAscii _ accepted.mimeType
  · rw [isCondition]
    exact condition
  · have checksum := accepted.checksum part isSha
    rw [isChecksum, Bool.and_eq_true, List.all_eq_true] at checksum
    exact ofAscii _ fun unit inSha => isLowerHex_ascii (checksum.2 unit inSha)
  · rw [← isExpiry]
    apply ofAscii
    intro unit inExpiry
    have start : ∀ unit ∈ ascii "expires:", unit.toNat < 0x80 :=
      List.all_iff_forall_prop.mp (by decide)
    rcases List.mem_append.mp inExpiry with inStart | inDigits
    · exact start unit inStart
    · rw [decimal_eq] at inDigits
      exact isDigit_ascii ((toDecimal_spec seconds).1 unit inDigits)

theorem parts_eq_iff (isLeft : left.request.Accepted) (isRight : right.request.Accepted) :
    left.parts = right.parts ↔
      left.path.canonical = right.path.canonical ∧
      ofDecimal left.request.sizeBytes = ofDecimal right.request.sizeBytes ∧
      left.request.mimeType = right.request.mimeType ∧
      left.request.ifRevision = right.request.ifRevision ∧
      left.request.sha256 = right.request.sha256 ∧
      left.fileExpiresInSeconds = right.fileExpiresInSeconds := by
  rw [parts_eq, parts_eq]
  simp only [List.cons.injEq, true_and]
  constructor
  · intro ⟨path, size, mimeType, condition, optional⟩
    have ⟨checksum, expiry⟩ :=
      optional_parts_injective isLeft.checksum isRight.checksum optional
    exact ⟨path, congrArg ofDecimal size, mimeType,
      conditionPart_injective isLeft isRight condition, checksum, expiry⟩
  · intro ⟨path, size, mimeType, condition, checksum, expiry⟩
    refine ⟨path, ofDecimal_injective isLeft.size isRight.size size, mimeType, ?_, ?_⟩
    · unfold conditionPart
      rcases isLeft.condition with ⟨leftAbsent, leftNone⟩ | ⟨leftThere, token, _, isToken, _⟩
      · rcases isRight.condition with ⟨rightAbsent, _⟩ | ⟨_, token, _, isToken, _⟩
        · rw [leftAbsent, rightAbsent]
          rfl
        · rw [leftNone, isToken] at condition
          cases condition
      · rcases isRight.condition with ⟨_, rightNone⟩ | ⟨rightThere, _⟩
        · rw [isToken, rightNone] at condition
          cases condition
        · rw [leftThere, rightThere, condition]
    · rw [checksum, expiry]

end SessionCreation

/-- Lists of parts with one fingerprint are one list, and two requests for an upload session
have one fingerprint where they ask for the same. -/
theorem fingerprints_separate_requests (sha256 : List UInt8 → String) (host : Host) :
    (∀ (left right : List JsString) (digest : String), WellFormed left → WellFormed right →
      NoCollision sha256 (frameParts left) (frameParts right) →
      hashParts sha256 left = some digest → hashParts sha256 right = some digest →
      left = right) ∧
    ∀ (leftBody rightBody : JsonValue) (left right : SessionCreation host)
      (leftPrint rightPrint : String),
      readCreation host leftBody = .ok left → readCreation host rightBody = .ok right →
      NoCollision sha256 (frameParts left.parts) (frameParts right.parts) →
      left.fingerprint sha256 = some leftPrint → right.fingerprint sha256 = some rightPrint →
      (leftPrint = rightPrint ↔
        left.path.canonical = right.path.canonical ∧
        ofDecimal left.request.sizeBytes = ofDecimal right.request.sizeBytes ∧
        left.request.mimeType = right.request.mimeType ∧
        left.request.ifRevision = right.request.ifRevision ∧
        left.request.sha256 = right.request.sha256 ∧
        left.fileExpiresInSeconds = right.fileExpiresInSeconds) := by
  constructor
  · intro left right digest leftFormed rightFormed noCollision isLeft isRight
    exact parts_eq_of_hashParts leftFormed rightFormed noCollision isLeft isRight
  · intro leftBody rightBody left right leftPrint rightPrint isLeft isRight noCollision isLeftPrint
      isRightPrint
    have leftAccepted := readCreation_accepted isLeft
    have rightAccepted := readCreation_accepted isRight
    constructor
    · intro samePrint
      rw [samePrint] at isLeftPrint
      have sameParts := parts_eq_of_hashParts (SessionCreation.wellFormed leftAccepted)
        (SessionCreation.wellFormed rightAccepted) noCollision isLeftPrint isRightPrint
      exact (SessionCreation.parts_eq_iff leftAccepted rightAccepted).mp sameParts
    · intro same
      have sameParts := (SessionCreation.parts_eq_iff leftAccepted rightAccepted).mpr same
      unfold SessionCreation.fingerprint at isLeftPrint isRightPrint
      rw [sameParts] at isLeftPrint
      exact Option.some.inj (isLeftPrint.symm.trans isRightPrint)

namespace Small

def creationMembers : List (JsString × JsonValue) :=
  [(ascii "path", .string (ascii "/a")), (ascii "sizeBytes", .string (ascii "3")),
    (ascii "mimeType", .string (ascii "a/b")), (ascii "ifAbsent", .boolean true)]

def creationSha256 (bytes : List UInt8) : String :=
  if bytes.length = 55 then "05adea0a554293a184b4993d134e6a2e4114c9c871dec8dfe89b01a4581efcf4"
  else "7557ba9dd2a5481d6b64743a26009c2591b26824bf83a9d984552d109e28bb22"

def creationPath : NodePath Host.counting :=
  { segments := [ascii "a"], valid := by decide, nonempty := by decide }

def creation (expiresInSeconds : Option JsonValue) (seconds : Option Nat) :
    SessionCreation Host.counting where
  request :=
    { path := ascii "/a", sizeBytes := ascii "3", mimeType := ascii "a/b", ifAbsent := true,
      ifRevision := none, sha256 := none, expiresInSeconds }
  path := creationPath
  fileExpiresInSeconds := seconds

end Small

/-- An expiry makes another fingerprint. -/
theorem expiry_changes_fingerprint :
    (Small.creation none none).fingerprint Small.creationSha256 ≠
      (Small.creation (some (.number (some 60))) (some 60)).fingerprint Small.creationSha256 := by
  have plain : readCreation Host.counting (.object Small.creationMembers) =
      .ok (Small.creation none none) := by rfl
  have expiring : readCreation Host.counting
      (.object (Small.creationMembers ++ [(ascii "expiresInSeconds", .number (some 60))])) =
      .ok (Small.creation (some (.number (some 60))) (some 60)) := by rfl
  have plainPrint : (Small.creation none none).fingerprint Small.creationSha256 =
      some "05adea0a554293a184b4993d134e6a2e4114c9c871dec8dfe89b01a4581efcf4" := by decide
  have expiringPrint : (Small.creation (some (.number (some 60))) (some 60)).fingerprint
      Small.creationSha256 =
      some "7557ba9dd2a5481d6b64743a26009c2591b26824bf83a9d984552d109e28bb22" := by decide
  have noCollision : NoCollision Small.creationSha256
      (frameParts (Small.creation none none).parts)
      (frameParts (Small.creation (some (.number (some 60))) (some 60)).parts) :=
    fun same => absurd same (by decide)
  have separate := (fingerprints_separate_requests Small.creationSha256 Host.counting).2 _ _ _ _ _ _
    plain expiring noCollision plainPrint expiringPrint
  intro same
  rw [plainPrint, expiringPrint] at same
  have ⟨_, _, _, _, _, expiry⟩ := separate.mp (Option.some.inj same)
  cases expiry

end Storix
