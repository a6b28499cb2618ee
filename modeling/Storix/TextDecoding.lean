import Storix.Text

/-! # Decoding bytes as text

The UTF-8 decoder of the Encoding standard: `Buffer.toString('utf8')` puts U+FFFD where the
bytes are no UTF-8, and a fatal `TextDecoder` throws there and drops a byte order mark in
front. -/

namespace Storix

/-- What the decoder waits for: how many more bytes, what they add to, and the range of the
next one. -/
structure Utf8State where
  needed : Nat
  code : Nat
  lower : Nat
  upper : Nat
  deriving DecidableEq

namespace Utf8State

def start : Utf8State := ⟨0, 0, 0x80, 0xbf⟩

def lead (byte : Nat) : Option Utf8State :=
  if 0xc2 ≤ byte ∧ byte ≤ 0xdf then some ⟨1, byte - 0xc0, 0x80, 0xbf⟩
  else if 0xe0 ≤ byte ∧ byte ≤ 0xef then
    some ⟨2, byte - 0xe0, if byte = 0xe0 then 0xa0 else 0x80, if byte = 0xed then 0x9f else 0xbf⟩
  else if 0xf0 ≤ byte ∧ byte ≤ 0xf4 then
    some ⟨3, byte - 0xf0, if byte = 0xf0 then 0x90 else 0x80, if byte = 0xf4 then 0x8f else 0xbf⟩
  else none

def first (byte : UInt8) : List (Option Nat) × Utf8State :=
  if byte.toNat < 0x80 then ([some byte.toNat], start)
  else
    match lead byte.toNat with
    | some next => ([], next)
    | none => ([none], start)

/-- A byte that does not continue a character is read again as the start of one. -/
def step (state : Utf8State) (byte : UInt8) : List (Option Nat) × Utf8State :=
  if state.needed = 0 then first byte
  else if state.lower ≤ byte.toNat ∧ byte.toNat ≤ state.upper then
    let code := state.code * 0x40 + (byte.toNat - 0x80)
    if state.needed = 1 then ([some code], start)
    else ([], ⟨state.needed - 1, code, 0x80, 0xbf⟩)
  else (none :: (first byte).1, (first byte).2)

/-- The code points of a text; `none` stands for bytes that belong to no character. -/
def decode : Utf8State → List UInt8 → List (Option Nat)
  | state, [] => if state.needed = 0 then [] else [none]
  | state, byte :: rest =>
      let (codes, next) := state.step byte
      codes ++ decode next rest

end Utf8State

def codeUnits (code : Nat) : JsString :=
  if code < 0x10000 then [UInt16.ofNat code]
  else
    [UInt16.ofNat (0xd800 + (code - 0x10000) / 0x400),
      UInt16.ofNat (0xdc00 + (code - 0x10000) % 0x400)]

/-- `Buffer.toString('utf8')` -/
def utf8Text (bytes : List UInt8) : JsString :=
  (Utf8State.start.decode bytes).flatMap fun code => codeUnits (code.getD 0xfffd)

def byteOrderMark : Nat := 0xfeff

/-- `new TextDecoder('utf-8', { fatal: true }).decode(bytes)` -/
def decodeFatal (bytes : List UInt8) : Option JsString :=
  ((Utf8State.start.decode bytes).mapM id).map fun codes =>
    (if codes.head? = some byteOrderMark then codes.tail else codes).flatMap codeUnits

/-! ## The code points of a string -/

namespace JsString

def codePoints : JsString → List Nat
  | [] => []
  | [unit] => [unit.toNat]
  | high :: low :: rest =>
      if isHighSurrogate high && isLowSurrogate low then
        (0x10000 + (high.toNat - 0xd800) * 0x400 + (low.toNat - 0xdc00)) :: codePoints rest
      else high.toNat :: codePoints (low :: rest)

theorem isHighSurrogate_iff {unit : UInt16} :
    isHighSurrogate unit = true ↔ 0xd800 ≤ unit.toNat ∧ unit.toNat ≤ 0xdbff := by
  simp [isHighSurrogate, UInt16.le_iff_toNat_le]

theorem isLowSurrogate_iff {unit : UInt16} :
    isLowSurrogate unit = true ↔ 0xdc00 ≤ unit.toNat ∧ unit.toNat ≤ 0xdfff := by
  simp [isLowSurrogate, UInt16.le_iff_toNat_le]

theorem flatMap_codePoints (text : JsString) : text.codePoints.flatMap codeUnits = text := by
  have single : ∀ unit : UInt16, codeUnits unit.toNat = [unit] := by
    intro unit
    rw [codeUnits, if_pos unit.toNat_lt, UInt16.ofNat_toNat]
  fun_induction codePoints text with
  | case1 => rfl
  | case2 unit => rw [List.flatMap_singleton, single]
  | case3 high low rest pair induction =>
      rw [Bool.and_eq_true, isHighSurrogate_iff, isLowSurrogate_iff] at pair
      rw [List.flatMap_cons, induction]
      have high' : UInt16.ofNat (0xd800 +
          (0x10000 + (high.toNat - 0xd800) * 0x400 + (low.toNat - 0xdc00) - 0x10000) / 0x400) =
          high := by
        apply UInt16.toNat_inj.mp
        rw [UInt16.toNat_ofNat']
        omega
      have low' : UInt16.ofNat (0xdc00 +
          (0x10000 + (high.toNat - 0xd800) * 0x400 + (low.toNat - 0xdc00) - 0x10000) % 0x400) =
          low := by
        apply UInt16.toNat_inj.mp
        rw [UInt16.toNat_ofNat']
        omega
      rw [codeUnits, if_neg (by omega), high', low']
      rfl
  | case4 high low rest _ induction => rw [List.flatMap_cons, single, induction]; rfl

end JsString

/-! ## Reading back what was written -/

namespace Utf8State

theorem decode_ascii {byte : UInt8} (isAscii : byte.toNat < 0x80) (rest : List UInt8) :
    start.decode (byte :: rest) = some byte.toNat :: start.decode rest := by
  simp [decode, step, first, start, isAscii]

theorem decode_lead {byte : UInt8} {next : Utf8State} (isLead : lead byte.toNat = some next)
    (notAscii : ¬byte.toNat < 0x80) (rest : List UInt8) :
    start.decode (byte :: rest) = next.decode rest := by
  simp [decode, step, first, start, notAscii, isLead]

theorem decode_middle {more code lower upper : Nat} {byte : UInt8}
    (inRange : lower ≤ byte.toNat ∧ byte.toNat ≤ upper) (rest : List UInt8) :
    decode ⟨more + 2, code, lower, upper⟩ (byte :: rest) =
      decode ⟨more + 1, code * 0x40 + (byte.toNat - 0x80), 0x80, 0xbf⟩ rest := by
  simp [decode, step, inRange]

theorem decode_last {code lower upper : Nat} {byte : UInt8}
    (inRange : lower ≤ byte.toNat ∧ byte.toNat ≤ upper) (rest : List UInt8) :
    decode ⟨1, code, lower, upper⟩ (byte :: rest) =
      some (code * 0x40 + (byte.toNat - 0x80)) :: start.decode rest := by
  simp [decode, step, inRange]

end Utf8State

namespace JsString

open Utf8State

theorem decode_encodeUnit {unit : UInt16} (notHigh : isHighSurrogate unit = false)
    (notLow : isLowSurrogate unit = false) (rest : List UInt8) :
    start.decode (encodeUnit unit ++ rest) = some unit.toNat :: start.decode rest := by
  have outside : ¬(0xd800 ≤ unit.toNat ∧ unit.toNat ≤ 0xdfff) := by
    rintro ⟨least, most⟩
    by_cases high : unit.toNat ≤ 0xdbff
    · rw [isHighSurrogate_iff.mpr ⟨least, high⟩] at notHigh
      cases notHigh
    · rw [isLowSurrogate_iff.mpr ⟨by omega, most⟩] at notLow
      cases notLow
  have bound := unit.toNat_lt
  unfold encodeUnit
  rw [notHigh, notLow]
  generalize unit.toNat = code at outside bound
  dsimp only
  have byte : ∀ value, value < 256 → (UInt8.ofNat value).toNat = value :=
    fun _ small => UInt8.toNat_ofNat_of_lt' small
  by_cases one : code < 0x80
  · rw [if_pos one, List.singleton_append, decode_ascii (by rw [byte] <;> omega), byte _ (by omega)]
  · rw [if_neg one]
    by_cases two : code < 0x800
    · have isLead : lead (0xc0 + code / 0x40) = some ⟨1, code / 0x40, 0x80, 0xbf⟩ := by
        rw [lead, if_pos (by omega), Nat.add_sub_cancel_left]
      have value : code / 0x40 * 0x40 + (0x80 + code % 0x40 - 0x80) = code := by omega
      rw [if_pos two, List.cons_append,
        decode_lead (by rw [byte _ (by omega)]; exact isLead) (by rw [byte] <;> omega),
        List.singleton_append, decode_last (by rw [byte] <;> omega), byte _ (by omega), value]
    · have isLead : lead (0xe0 + code / 0x1000) = some ⟨2, code / 0x1000,
          if 0xe0 + code / 0x1000 = 0xe0 then 0xa0 else 0x80,
          if 0xe0 + code / 0x1000 = 0xed then 0x9f else 0xbf⟩ := by
        rw [lead, if_neg (by omega), if_pos (by omega), Nat.add_sub_cancel_left]
      have inRange : (if 0xe0 + code / 0x1000 = 0xe0 then 0xa0 else 0x80) ≤
            0x80 + code / 0x40 % 0x40 ∧
          0x80 + code / 0x40 % 0x40 ≤ if 0xe0 + code / 0x1000 = 0xed then 0x9f else 0xbf := by
        split <;> split <;> omega
      have value : (code / 0x1000 * 0x40 + (0x80 + code / 0x40 % 0x40 - 0x80)) * 0x40 +
          (0x80 + code % 0x40 - 0x80) = code := by omega
      rw [if_neg two, Bool.or_false, if_neg Bool.false_ne_true, List.cons_append,
        decode_lead (by rw [byte _ (by omega)]; exact isLead) (by rw [byte] <;> omega),
        List.cons_append, decode_middle (by rw [byte _ (by omega)]; exact inRange),
        List.singleton_append, decode_last (by rw [byte] <;> omega), byte _ (by omega),
        byte _ (by omega), value]

theorem decode_encodePair {high low : UInt16} (isHigh : isHighSurrogate high = true)
    (isLow : isLowSurrogate low = true) (rest : List UInt8) :
    start.decode (encodePair high low ++ rest) =
      some (0x10000 + (high.toNat - 0xd800) * 0x400 + (low.toNat - 0xdc00)) ::
        start.decode rest := by
  rw [isHighSurrogate_iff] at isHigh
  rw [isLowSurrogate_iff] at isLow
  unfold encodePair
  dsimp only
  generalize isCode : 0x10000 + (high.toNat - 0xd800) * 0x400 + (low.toNat - 0xdc00) = code
  have bounds : 0x10000 ≤ code ∧ code < 0x110000 := by omega
  have byte : ∀ value, value < 256 → (UInt8.ofNat value).toNat = value :=
    fun _ small => UInt8.toNat_ofNat_of_lt' small
  have isLead : lead (0xf0 + code / 0x40000) = some ⟨3, code / 0x40000,
      if 0xf0 + code / 0x40000 = 0xf0 then 0x90 else 0x80,
      if 0xf0 + code / 0x40000 = 0xf4 then 0x8f else 0xbf⟩ := by
    rw [lead, if_neg (by omega), if_neg (by omega), if_pos (by omega), Nat.add_sub_cancel_left]
  have inRange : (if 0xf0 + code / 0x40000 = 0xf0 then 0x90 else 0x80) ≤
        0x80 + code / 0x1000 % 0x40 ∧
      0x80 + code / 0x1000 % 0x40 ≤ if 0xf0 + code / 0x40000 = 0xf4 then 0x8f else 0xbf := by
    split <;> split <;> omega
  have value : ((code / 0x40000 * 0x40 + (0x80 + code / 0x1000 % 0x40 - 0x80)) * 0x40 +
      (0x80 + code / 0x40 % 0x40 - 0x80)) * 0x40 + (0x80 + code % 0x40 - 0x80) = code := by omega
  rw [List.cons_append,
    decode_lead (by rw [byte _ (by omega)]; exact isLead) (by rw [byte] <;> omega),
    List.cons_append, decode_middle (by rw [byte _ (by omega)]; exact inRange),
    List.cons_append, decode_middle (by rw [byte] <;> omega), List.singleton_append,
    decode_last (by rw [byte] <;> omega), byte _ (by omega), byte _ (by omega), byte _ (by omega),
    value]

/-- A text without lone surrogates is read back from its bytes, whatever follows them. -/
theorem decode_utf8 {text : JsString} (paired : hasLoneSurrogate text = false)
    (rest : List UInt8) :
    start.decode (utf8 text ++ rest) = text.codePoints.map some ++ start.decode rest := by
  fun_induction utf8 text with
  | case1 => rfl
  | case2 unit =>
      rw [hasLoneSurrogate, Bool.or_eq_false_iff] at paired
      exact decode_encodeUnit paired.1 paired.2 rest
  | case3 high low more pair induction =>
      rw [hasLoneSurrogate, if_pos pair] at paired
      rw [codePoints, if_pos pair, List.append_assoc]
      rw [Bool.and_eq_true] at pair
      rw [decode_encodePair pair.1 pair.2, induction paired]
      rfl
  | case4 high low more single induction =>
      rw [hasLoneSurrogate, if_neg single, Bool.or_eq_false_iff, Bool.or_eq_false_iff] at paired
      rw [codePoints, if_neg single, List.append_assoc,
        decode_encodeUnit paired.1.1 paired.1.2, induction paired.2]
      rfl

theorem utf8Text_utf8 {text : JsString} (paired : hasLoneSurrogate text = false) :
    utf8Text (utf8 text) = text := by
  have decoded := decode_utf8 paired []
  rw [List.append_nil] at decoded
  rw [utf8Text, decoded, List.flatMap_append, List.flatMap_map]
  exact (List.append_nil _).trans (flatMap_codePoints text)

theorem utf8_injective {left right : JsString} (leftPaired : hasLoneSurrogate left = false)
    (rightPaired : hasLoneSurrogate right = false) (same : utf8 left = utf8 right) :
    left = right := by
  rw [← utf8Text_utf8 leftPaired, same, utf8Text_utf8 rightPaired]

/-- What a `TextDecoder` keeps of a text: all but a byte order mark in front. -/
def dropMark (text : JsString) : JsString := if text.head? = some 0xfeff then text.tail else text

theorem codePoints_mark (text : JsString) :
    codePoints (0xfeff :: text) = 0xfeff :: codePoints text := by
  have notHigh : isHighSurrogate 0xfeff = false := by decide
  cases text with
  | nil => rfl
  | cons next rest => simp [codePoints, notHigh]

theorem head_codePoints {text : JsString} (notMark : text.head? ≠ some 0xfeff) :
    text.codePoints.head? ≠ some byteOrderMark := by
  have plain : ∀ unit : UInt16, unit ≠ 0xfeff → some unit.toNat ≠ some byteOrderMark := by
    intro unit different same
    apply different
    apply UInt16.toNat_inj.mp
    exact Option.some.inj same
  unfold codePoints
  split
  · simp
  · exact plain _ (by simpa using notMark)
  · split
    · rename_i pair
      rw [Bool.and_eq_true, isHighSurrogate_iff, isLowSurrogate_iff] at pair
      simp only [List.head?_cons, byteOrderMark, ne_eq, Option.some.injEq]
      omega
    · exact plain _ (by simpa using notMark)

/-- A `TextDecoder` reads back the bytes of a text without lone surrogates, except for a byte
order mark in front. -/
theorem decodeFatal_utf8 {text : JsString} (paired : hasLoneSurrogate text = false) :
    decodeFatal (utf8 text) = some (dropMark text) := by
  have decoded := decode_utf8 paired []
  rw [List.append_nil] at decoded
  have all : ∀ codes : List Nat, (codes.map some).mapM id = some codes := by
    intro codes
    induction codes with
    | nil => rfl
    | cons code rest induction => simp [induction]
  have complete : (start.decode (utf8 text)).mapM id = some text.codePoints := by
    rw [decoded]
    exact (congrArg (List.mapM id) (List.append_nil _)).trans (all _)
  rw [decodeFatal, complete, Option.map_some, dropMark]
  by_cases mark : text.head? = some 0xfeff
  · rw [if_pos mark]
    cases text with
    | nil => cases mark
    | cons first rest =>
        cases mark
        rw [codePoints_mark]
        exact congrArg some (flatMap_codePoints rest)
  · rw [if_neg mark, if_neg (head_codePoints mark), flatMap_codePoints]

end JsString

/-! ## What is decoded was encoded -/

namespace Utf8State

theorem decode_one {code lower upper result : Nat} {bytes : List UInt8} {more : List (Option Nat)}
    (decoded : decode ⟨1, code, lower, upper⟩ bytes = some result :: more) :
    ∃ byte rest, bytes = byte :: rest ∧ lower ≤ byte.toNat ∧ byte.toNat ≤ upper ∧
      result = code * 0x40 + (byte.toNat - 0x80) ∧ more = start.decode rest := by
  cases bytes with
  | nil => simp [decode] at decoded
  | cons byte rest =>
      by_cases inRange : lower ≤ byte.toNat ∧ byte.toNat ≤ upper
      · rw [decode_last inRange, List.cons.injEq, Option.some.injEq] at decoded
        exact ⟨byte, rest, rfl, inRange.1, inRange.2, decoded.1.symm, decoded.2.symm⟩
      · simp [decode, step, inRange] at decoded

theorem decode_more {needed code lower upper result : Nat} {bytes : List UInt8}
    {more : List (Option Nat)}
    (decoded : decode ⟨needed + 2, code, lower, upper⟩ bytes = some result :: more) :
    ∃ byte rest, bytes = byte :: rest ∧ lower ≤ byte.toNat ∧ byte.toNat ≤ upper ∧
      decode ⟨needed + 1, code * 0x40 + (byte.toNat - 0x80), 0x80, 0xbf⟩ rest =
        some result :: more := by
  cases bytes with
  | nil => simp [decode] at decoded
  | cons byte rest =>
      by_cases inRange : lower ≤ byte.toNat ∧ byte.toNat ≤ upper
      · rw [decode_middle inRange] at decoded
        exact ⟨byte, rest, rfl, inRange.1, inRange.2, decoded⟩
      · simp [decode, step, inRange] at decoded

theorem lead_needed {byte : Nat} {next : Utf8State} (isLead : lead byte = some next) :
    next.needed ≠ 0 := by
  rw [lead] at isLead
  split at isLead
  · cases isLead
    simp
  · split at isLead
    · cases isLead
      simp
    · split at isLead
      · cases isLead
        simp
      · cases isLead

theorem decode_ne_nil {state : Utf8State} (begun : state.needed ≠ 0) (bytes : List UInt8) :
    state.decode bytes ≠ [] := by
  induction bytes generalizing state with
  | nil => simp [decode, begun]
  | cons byte rest induction =>
      rw [decode, step, if_neg begun]
      by_cases inRange : state.lower ≤ byte.toNat ∧ byte.toNat ≤ state.upper
      · rw [if_pos inRange]
        by_cases last : state.needed = 1
        · simp [last]
        · simp only [if_neg last, List.nil_append]
          apply induction
          simp only [ne_eq]
          omega
      · simp [inRange]

end Utf8State

namespace JsString

open Utf8State

def IsScalar (code : Nat) : Prop := code < 0xd800 ∨ 0xe000 ≤ code ∧ code < 0x110000

theorem codeUnits_small {code : Nat} (scalar : IsScalar code) (small : code < 0x10000) :
    ∃ unit : UInt16, codeUnits code = [unit] ∧ unit.toNat = code ∧
      isHighSurrogate unit = false ∧ isLowSurrogate unit = false := by
  have value : (UInt16.ofNat code).toNat = code := UInt16.toNat_ofNat_of_lt' small
  unfold IsScalar at scalar
  refine ⟨UInt16.ofNat code, if_pos small, value, ?_, ?_⟩
  · rw [Bool.eq_false_iff, Ne, isHighSurrogate_iff, value]
    omega
  · rw [Bool.eq_false_iff, Ne, isLowSurrogate_iff, value]
    omega

theorem codeUnits_large {code : Nat} (scalar : IsScalar code) (large : ¬code < 0x10000) :
    ∃ high low : UInt16, codeUnits code = [high, low] ∧ isHighSurrogate high = true ∧
      isLowSurrogate low = true ∧
      0x10000 + (high.toNat - 0xd800) * 0x400 + (low.toNat - 0xdc00) = code := by
  unfold IsScalar at scalar
  have high : (UInt16.ofNat (0xd800 + (code - 0x10000) / 0x400)).toNat =
      0xd800 + (code - 0x10000) / 0x400 := UInt16.toNat_ofNat_of_lt' (by unfold UInt16.size; omega)
  have low : (UInt16.ofNat (0xdc00 + (code - 0x10000) % 0x400)).toNat =
      0xdc00 + (code - 0x10000) % 0x400 := UInt16.toNat_ofNat_of_lt' (by unfold UInt16.size; omega)
  refine ⟨_, _, if_neg large, ?_, ?_, ?_⟩
  · rw [isHighSurrogate_iff, high]
    omega
  · rw [isLowSurrogate_iff, low]
    omega
  · rw [high, low]
    omega

/-- A code point in front of a text: its bytes come first, and it brings no lone surrogate. -/
theorem codeUnits_append {code : Nat} (scalar : IsScalar code) (text : JsString) :
    utf8 (codeUnits code ++ text) = utf8 (codeUnits code) ++ utf8 text ∧
      hasLoneSurrogate (codeUnits code ++ text) = hasLoneSurrogate text := by
  by_cases small : code < 0x10000
  · rcases codeUnits_small scalar small with ⟨unit, isUnit, -, notHigh, notLow⟩
    rw [isUnit]
    cases text with
    | nil => simp [utf8, hasLoneSurrogate, notHigh, notLow]
    | cons next rest => simp [utf8, hasLoneSurrogate, notHigh, notLow]
  · rcases codeUnits_large scalar small with ⟨high, low, isPair, isHigh, isLow, -⟩
    rw [isPair]
    simp [utf8, hasLoneSurrogate, isHigh, isLow]

theorem decode_first {bytes : List UInt8} {code : Nat} {more : List (Option Nat)}
    (decoded : start.decode bytes = some code :: more) :
    ∃ rest, bytes = utf8 (codeUnits code) ++ rest ∧ rest.length < bytes.length ∧
      more = start.decode rest ∧ IsScalar code := by
  cases bytes with
  | nil => simp [decode, start] at decoded
  | cons first rest =>
      have bound := first.toNat_lt
      have same : ∀ (byte : UInt8) (value : Nat), byte.toNat = value →
          UInt8.ofNat value = byte := by
        intro byte value isValue
        rw [← isValue, UInt8.ofNat_toNat]
      by_cases isAscii : first.toNat < 0x80
      · rw [decode_ascii isAscii, List.cons.injEq, Option.some.injEq] at decoded
        have scalar : IsScalar code := .inl (by omega)
        rcases codeUnits_small scalar (by omega) with ⟨unit, isUnit, value, -, -⟩
        refine ⟨rest, ?_, Nat.lt_succ_self _, decoded.2.symm, scalar⟩
        rw [isUnit, utf8_cons_ascii (by omega), same first _ (by omega)]
        rfl
      · cases isLead : lead first.toNat with
        | none =>
            simp [decode, step, Utf8State.first, start, isAscii, isLead] at decoded
        | some next =>
            rw [decode_lead isLead isAscii] at decoded
            unfold lead at isLead
            split at isLead
            · cases isLead
              rcases decode_one decoded with ⟨second, rest', rfl, lower, upper, isCode, isMore⟩
              have scalar : IsScalar code := .inl (by omega)
              rcases codeUnits_small scalar (by omega) with ⟨unit, isUnit, value, -, -⟩
              refine ⟨rest', ?_, by simp only [List.length_cons]; omega, isMore, scalar⟩
              rw [isUnit, utf8, encodeUnit, value, if_neg (by omega), if_pos (by omega),
                same first _ (by omega), same second _ (by omega)]
              rfl
            · split at isLead
              · cases isLead
                rcases decode_more decoded with ⟨second, rest', rfl, lower, upper, decoded⟩
                rcases decode_one decoded with ⟨third, rest'', rfl, lower', upper', isCode, isMore⟩
                have inside : 0x80 ≤ second.toNat ∧ second.toNat ≤ 0xbf := by
                  split at lower <;> split at upper <;> omega
                have scalar : IsScalar code := by
                  unfold IsScalar
                  split at upper <;> omega
                have least : 0x800 ≤ code := by
                  split at lower <;> omega
                clear lower upper
                rcases codeUnits_small scalar (by omega) with ⟨unit, isUnit, value, notHigh, notLow⟩
                refine ⟨rest'', ?_, by simp only [List.length_cons]; omega, isMore, scalar⟩
                rw [isUnit, utf8, encodeUnit, value, if_neg (by omega), if_neg (by omega),
                  notHigh, notLow, if_neg (by simp), same first _ (by omega),
                  same second _ (by omega), same third _ (by omega)]
                rfl
              · split at isLead
                · cases isLead
                  rcases decode_more decoded with ⟨second, rest', rfl, lower, upper, decoded⟩
                  rcases decode_more decoded with ⟨third, rest'', rfl, lower', upper', decoded⟩
                  rcases decode_one decoded with
                    ⟨fourth, rests, rfl, lower'', upper'', isCode, isMore⟩
                  have bounds : 0x10000 ≤ code ∧ code < 0x110000 := by
                    split at lower <;> split at upper <;> omega
                  have inside : 0x80 ≤ second.toNat ∧ second.toNat ≤ 0xbf := by
                    split at lower <;> split at upper <;> omega
                  clear lower upper
                  have scalar : IsScalar code := .inr (by omega)
                  rcases codeUnits_large scalar (by omega) with
                    ⟨high, low, isPair, isHigh, isLow, value⟩
                  refine ⟨rests, ?_, by simp only [List.length_cons]; omega, isMore, scalar⟩
                  rw [isPair, utf8, isHigh, isLow, if_pos (show (true && true) = true from rfl),
                    encodePair]
                  simp only [value]
                  rw [same first _ (by omega), same second _ (by omega), same third _ (by omega),
                    same fourth _ (by omega)]
                  rfl
                · cases isLead

/-- Bytes that decode without a fault are the bytes of a text without lone surrogates. -/
theorem decode_all {bytes : List UInt8} {codes : List Nat}
    (decoded : start.decode bytes = codes.map some) :
    utf8 (codes.flatMap codeUnits) = bytes ∧
      hasLoneSurrogate (codes.flatMap codeUnits) = false := by
  induction codes generalizing bytes with
  | nil =>
      cases bytes with
      | nil => exact ⟨rfl, rfl⟩
      | cons first rest =>
          by_cases isAscii : first.toNat < 0x80
          · rw [decode_ascii isAscii] at decoded
            cases decoded
          · cases isLead : lead first.toNat with
            | none => simp [decode, step, Utf8State.first, start, isAscii, isLead] at decoded
            | some next =>
                rw [decode_lead isLead isAscii] at decoded
                exact absurd decoded (decode_ne_nil (lead_needed isLead) rest)
  | cons code rest induction =>
      rcases decode_first decoded with ⟨later, rfl, -, isRest, scalar⟩
      rcases codeUnits_append scalar (rest.flatMap codeUnits) with ⟨sameBytes, samePairs⟩
      rcases induction isRest.symm with ⟨isBytes, paired⟩
      rw [List.flatMap_cons, sameBytes, samePairs, isBytes]
      exact ⟨rfl, paired⟩

theorem decodeFatal_sound {bytes : List UInt8} {text : JsString}
    (decoded : decodeFatal bytes = some text) :
    ∃ original, hasLoneSurrogate original = false ∧ utf8 original = bytes ∧
      text = dropMark original := by
  have all : ∀ (items : List (Option Nat)) (codes : List Nat), items.mapM id = some codes →
      items = codes.map some := by
    intro items
    induction items with
    | nil =>
        intro codes isAll
        cases isAll
        rfl
    | cons item items induction =>
        intro codes isAll
        cases item with
        | none => simp at isAll
        | some code =>
            cases found : items.mapM id with
            | none => simp [found] at isAll
            | some rest =>
                simp [found] at isAll
                rw [← isAll, induction rest found]
                rfl
  cases complete : (start.decode bytes).mapM id with
  | none => simp [decodeFatal, complete] at decoded
  | some codes =>
      rcases decode_all (all _ _ complete) with ⟨isBytes, paired⟩
      refine ⟨codes.flatMap codeUnits, paired, isBytes, ?_⟩
      rw [← isBytes, decodeFatal_utf8 paired] at decoded
      exact (Option.some.inj decoded).symm

end JsString

end Storix
