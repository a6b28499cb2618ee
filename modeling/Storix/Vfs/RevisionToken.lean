import Storix.Foundation.Base64
import Storix.Vfs.PathResolver

/-! # Revision tokens

The text of a revision: `r1.` and the base64 of the 16 bytes of the node's id and the 8
bytes of its version. Reading a token encodes it again, so every revision has one token. -/

namespace Storix

open Foundation

/-- `UUID_PATTERN`: 32 hexadecimal digits whose 13th is 1 to 8 and whose 17th is 8 to b. -/
def isUuid (id : Uuid) : Bool :=
  decide (id < 2 ^ 128) && decide (1 ≤ id / 2 ^ 76 % 16) && decide (id / 2 ^ 76 % 16 ≤ 8) &&
    decide (8 ≤ id / 2 ^ 60 % 16) && decide (id / 2 ^ 60 % 16 ≤ 11)

theorem lt_of_isUuid {id : Uuid} (isId : isUuid id = true) : id < 2 ^ 128 := by
  simp only [isUuid, Bool.and_eq_true, decide_eq_true_eq] at isId
  exact isId.1.1.1.1

/-- `r1.` -/
def tokenStart : JsString := [0x72, 0x31, 0x2e]

def tokenBytes (id : Uuid) (version : Nat) : List UInt8 := bigEndian 16 id ++ bigEndian 8 version

/-- `encodeRevision` as the text that clients see. -/
def encodeRevisionToken (id : Uuid) (version : Nat) : Except VfsError JsString :=
  if version < 1 ∨ MAX_VFS_VERSION < version then .error .revisionExhausted
  else if isUuid id = false then .error .invalidRevision
  else .ok (tokenStart ++ base64url (tokenBytes id version))

/-- `decodeRevision` -/
def decodeRevisionToken (raw : JsString) : Except VfsError Revision :=
  let text := raw.drop 3
  if raw.take 3 ≠ tokenStart ∨ text.length ≠ 32 ∨ text.any (fun unit => (base64Value unit).isNone)
  then .error .invalidRevision
  else
    let bytes := base64Bytes text
    if bytes.length ≠ 24 then .error .invalidRevision
    else
      let id := ofBigEndian (bytes.take 16)
      let version := ofBigEndian (bytes.drop 16)
      if isUuid id = false ∨ version < 1 ∨ MAX_VFS_VERSION < version then .error .invalidRevision
      else
        match encodeRevisionToken id version with
        | .error error => .error error
        | .ok token => if token ≠ raw then .error .invalidRevision else .ok ⟨id, version⟩

theorem encodeRevisionToken_eq_ok {id : Uuid} {version : Nat} (low : 1 ≤ version)
    (high : version ≤ MAX_VFS_VERSION) (isId : isUuid id = true) :
    encodeRevisionToken id version = .ok (tokenStart ++ base64url (tokenBytes id version)) := by
  unfold encodeRevisionToken
  rw [if_neg (by omega), if_neg (by simp [isId])]

theorem encode_of_decode {raw : JsString} {revision : Revision}
    (result : decodeRevisionToken raw = .ok revision) :
    1 ≤ revision.version ∧ revision.version ≤ MAX_VFS_VERSION ∧ isUuid revision.id = true ∧
      encodeRevisionToken revision.id revision.version = .ok raw := by
  unfold decodeRevisionToken at result
  dsimp only at result
  split at result
  · cases result
  · split at result
    · cases result
    · split at result
      · cases result
      · rename_i inRange
        split at result
        · cases result
        · rename_i token isToken
          split at result
          · cases result
          · rename_i same
            cases result
            rw [not_or, not_or, Bool.not_eq_false] at inRange
            rw [not_not.mp same] at isToken
            exact ⟨Nat.not_lt.mp inRange.2.1, Nat.not_lt.mp inRange.2.2, inRange.1, isToken⟩

theorem decode_of_encode {id : Uuid} {version : Nat} {token : JsString}
    (isToken : encodeRevisionToken id version = .ok token) :
    decodeRevisionToken token = .ok ⟨id, version⟩ := by
  have inRange := isToken
  rw [encodeRevisionToken] at inRange
  split at inRange
  · cases inRange
  · rename_i bounds
    split at inRange
    · cases inRange
    · rename_i isId
      cases inRange
      rw [Bool.not_eq_false] at isId
      have length : (tokenBytes id version).length = 24 := by simp [tokenBytes]
      have digits : (base64url (tokenBytes id version)).length = 32 := by
        rw [base64url_length, length]
      have alphabet : ¬((base64url (tokenBytes id version)).any fun unit =>
          (base64Value unit).isNone) = true := by
        rw [List.any_eq_true]
        rintro ⟨unit, member, isNone⟩
        have isSome := List.all_eq_true.mp (base64url_alphabet _) unit member
        rw [inAlphabet, ← Option.not_isNone, isNone] at isSome
        cases isSome
      have idBytes : (tokenBytes id version).take 16 = bigEndian 16 id :=
        List.take_left' (by simp)
      have versionBytes : (tokenBytes id version).drop 16 = bigEndian 8 version :=
        List.drop_left' (by simp)
      have idSmall : id < 256 ^ 16 := lt_of_isUuid isId
      have versionSmall : version < 256 ^ 8 :=
        Nat.lt_of_le_of_lt (Nat.not_lt.mp (not_or.mp bounds).2) (by decide)
      rw [decodeRevisionToken]
      have isText : (tokenStart ++ base64url (tokenBytes id version)).drop 3 =
          base64url (tokenBytes id version) := List.drop_left' rfl
      have isStart : (tokenStart ++ base64url (tokenBytes id version)).take 3 = tokenStart :=
        List.take_left' rfl
      simp only [isText, isStart]
      rw [if_neg (by simp only [not_or]; exact ⟨not_not.mpr rfl, not_not.mpr digits, alphabet⟩),
        base64Bytes_base64url, if_neg (not_not.mpr length), idBytes, versionBytes,
        ofBigEndian_bigEndian idSmall, ofBigEndian_bigEndian versionSmall,
        if_neg (by rw [not_or, Bool.not_eq_false]; exact ⟨isId, bounds⟩), isToken]
      exact if_neg (not_not.mpr rfl)

theorem tokenBytes_injective {id otherId version otherVersion : Nat} (isId : id < 2 ^ 128)
    (isOther : otherId < 2 ^ 128) (bound : version ≤ MAX_VFS_VERSION)
    (otherBound : otherVersion ≤ MAX_VFS_VERSION)
    (same : tokenBytes id version = tokenBytes otherId otherVersion) :
    id = otherId ∧ version = otherVersion := by
  unfold tokenBytes at same
  unfold MAX_VFS_VERSION at bound otherBound
  rcases List.append_inj same (by simp) with ⟨sameId, sameVersion⟩
  exact ⟨bigEndian_injective (by omega) (by omega) sameId,
    bigEndian_injective (by omega) (by omega) sameVersion⟩

theorem encodeRevisionToken_eq_iff {raw : JsString} {revision : Revision}
    (result : decodeRevisionToken raw = .ok revision) {id version : Nat} (low : 1 ≤ version)
    (high : version ≤ MAX_VFS_VERSION) (isId : isUuid id = true) :
    encodeRevisionToken id version = .ok raw ↔
      id = revision.id ∧ version = revision.version := by
  rcases encode_of_decode result with ⟨revisionLow, revisionHigh, isRevision, isToken⟩
  constructor
  · intro encoded
    rw [encodeRevisionToken_eq_ok low high isId] at encoded
    rw [encodeRevisionToken_eq_ok revisionLow revisionHigh isRevision] at isToken
    have sameTexts := Except.ok.inj (encoded.trans isToken.symm)
    have sameBytes := congrArg base64Bytes (List.append_cancel_left sameTexts)
    rw [base64Bytes_base64url, base64Bytes_base64url] at sameBytes
    exact tokenBytes_injective (lt_of_isUuid isId) (lt_of_isUuid isRevision) high revisionHigh
      sameBytes
  · rintro ⟨rfl, rfl⟩
    exact isToken

end Storix
