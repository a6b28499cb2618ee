import Storix.Foundation.Decimal
import Storix.Foundation.Json
import Storix.Foundation.JsonValue
import Storix.Text

/-! # Writing and reading JSON

`JSON.stringify` and `JSON.parse`. An object is the list of its own properties in the order in
which their names first appear; of two members with one name the later gives the value. A
number is kept as its text. -/

namespace Storix.JsonText

open Foundation Foundation.Json JsString

/-! ## JSON.stringify -/

/-- `\uXXXX` -/
def longEscape (unit : UInt16) : JsString :=
  let code := unit.toNat
  [backslash, 0x75, hexLetter (code / 0x1000), hexLetter (code / 0x100 % 0x10),
    hexLetter (code / 0x10 % 0x10), hexLetter (code % 0x10)]

/-- How a code unit that is no half of a surrogate pair stands in a string literal. -/
def writeUnit (unit : UInt16) : JsString :=
  if unit = quote ∨ unit = backslash then [backslash, unit]
  else if unit = 0x08 then [backslash, 0x62]
  else if unit = 0x0c then [backslash, 0x66]
  else if unit = 0x0a then [backslash, 0x6e]
  else if unit = 0x0d then [backslash, 0x72]
  else if unit = 0x09 then [backslash, 0x74]
  else if unit < 0x20 then longEscape unit
  else if isHighSurrogate unit || isLowSurrogate unit then longEscape unit
  else [unit]

def writeUnits : JsString → JsString
  | [] => []
  | [unit] => writeUnit unit
  | high :: low :: rest =>
      if isHighSurrogate high && isLowSurrogate low then high :: low :: writeUnits rest
      else writeUnit high ++ writeUnits (low :: rest)

def writeString (text : JsString) : JsString := quote :: writeUnits text ++ [quote]

def trueLiteral : JsString := ascii "true"

def falseLiteral : JsString := ascii "false"

def nullLiteral : JsString := ascii "null"

mutual

/-- `JSON.stringify(value)` -/
def stringify : JsonTree → JsString
  | .null => nullLiteral
  | .boolean true => trueLiteral
  | .boolean false => falseLiteral
  | .number literal => literal
  | .string text => writeString text
  | .array [] => [openBracket, closeBracket]
  | .array (first :: rest) => openBracket :: stringify first ++ stringifyElements rest
  | .object [] => [openBrace, closeBrace]
  | .object ((key, value) :: rest) =>
      openBrace :: writeString key ++ colon :: stringify value ++ stringifyMembers rest

def stringifyElements : List JsonTree → JsString
  | [] => [closeBracket]
  | value :: rest => comma :: stringify value ++ stringifyElements rest

def stringifyMembers : List (JsString × JsonTree) → JsString
  | [] => [closeBrace]
  | (key, value) :: rest =>
      comma :: writeString key ++ colon :: stringify value ++ stringifyMembers rest

end

/-! ## JSON.parse -/

def isBlank (unit : UInt16) : Bool :=
  unit == 0x20 || unit == 0x09 || unit == 0x0a || unit == 0x0d

def expect (mark : UInt16) (text : JsString) : Option JsString :=
  match text.dropWhile isBlank with
  | first :: rest => if first = mark then some rest else none
  | [] => none

def readString : JsString → Option (JsString × JsString)
  | [] => none
  | unit :: rest =>
      if unit = quote then some ([], rest)
      else if unit < 0x20 then none
      else if unit = backslash then
        match rest with
        | [] => none
        | letter :: rest =>
            if letter = 0x75 then
              match rest with
              | first :: second :: third :: fourth :: rest =>
                  (hexUnit first second third fourth).bind fun code =>
                    (readString rest).map fun (text, after) => (code :: text, after)
              | _ => none
            else
              (shortEscape letter).bind fun code =>
                (readString rest).map fun (text, after) => (code :: text, after)
      else (readString rest).map fun (text, after) => (unit :: text, after)

def readDigits (text : JsString) : Option (JsString × JsString) :=
  let digits := text.takeWhile isDigit
  if digits = [] then none else some (digits, text.dropWhile isDigit)

def readTail (isMark isSign : UInt16 → Bool) (text : JsString) : Option (JsString × JsString) :=
  match text with
  | [] => some ([], [])
  | mark :: rest =>
      if isMark mark = false then some ([], text)
      else
        let sign := (rest.take 1).filter isSign
        (readDigits (rest.drop sign.length)).map fun (digits, after) =>
          (mark :: sign ++ digits, after)

def readNumber (text : JsString) : Option (JsString × JsString) := do
  let sign := (text.take 1).filter (· == 0x2d)
  let (whole, afterWhole) ← readDigits (text.drop sign.length)
  if 1 < whole.length ∧ whole.head? = some 0x30 then none
  else
    let (fraction, afterFraction) ← readTail (· == 0x2e) (fun _ => false) afterWhole
    let (exponent, after) ← readTail (fun unit => unit == 0x65 || unit == 0x45)
      (fun unit => unit == 0x2b || unit == 0x2d) afterFraction
    return (sign ++ whole ++ fraction ++ exponent, after)

def readScalar (text : JsString) : Option (JsonTree × JsString) :=
  if trueLiteral.isPrefixOf text then some (.boolean true, text.drop 4)
  else if falseLiteral.isPrefixOf text then some (.boolean false, text.drop 5)
  else if nullLiteral.isPrefixOf text then some (.null, text.drop 4)
  else (readNumber text).map fun (literal, after) => (.number literal, after)

def setProperty (members : List (JsString × JsonTree)) (key : JsString) (value : JsonTree) :
    List (JsString × JsonTree) :=
  if members.any fun member => member.1 == key then
    members.map fun member => if member.1 == key then (key, value) else member
  else members ++ [(key, value)]

mutual

/-- A value and what follows it. The fuel bounds the depth and the number of members and
elements; the length of the text is enough. -/
def readValue : Nat → JsString → Option (JsonTree × JsString)
  | 0, _ => none
  | fuel + 1, text =>
      match text.dropWhile isBlank with
      | [] => none
      | first :: rest =>
          if first = quote then
            (readString rest).map fun (text, after) => (.string text, after)
          else if first = openBrace then
            match expect closeBrace rest with
            | some after => some (.object [], after)
            | none =>
                (readMembers fuel [] rest).map fun (members, after) => (.object members, after)
          else if first = openBracket then
            match expect closeBracket rest with
            | some after => some (.array [], after)
            | none =>
                (readElements fuel [] rest).map fun (elements, after) => (.array elements, after)
          else readScalar (first :: rest)

def readMembers : Nat → List (JsString × JsonTree) → JsString →
    Option (List (JsString × JsonTree) × JsString)
  | 0, _, _ => none
  | fuel + 1, known, text =>
      (expect quote text).bind fun afterQuote =>
        (readString afterQuote).bind fun (key, afterKey) =>
          (expect colon afterKey).bind fun afterColon =>
            (readValue fuel afterColon).bind fun (value, afterValue) =>
              match expect comma afterValue with
              | some more => readMembers fuel (setProperty known key value) more
              | none =>
                  (expect closeBrace afterValue).map fun after =>
                    (setProperty known key value, after)

def readElements : Nat → List JsonTree → JsString → Option (List JsonTree × JsString)
  | 0, _, _ => none
  | fuel + 1, known, text =>
      (readValue fuel text).bind fun (value, afterValue) =>
        match expect comma afterValue with
        | some more => readElements fuel (known ++ [value]) more
        | none => (expect closeBracket afterValue).map fun after => (known ++ [value], after)

end

/-- `JSON.parse(text)`; `none` is a `SyntaxError`. -/
def parse (text : JsString) : Option JsonTree :=
  (readValue (text.length + 1) text).bind fun (value, after) =>
    if after.all isBlank then some value else none

/-! ## Reading back what was written -/

theorem hexUnit_digits (unit : UInt16) :
    hexUnit (hexLetter (unit.toNat / 0x1000)) (hexLetter (unit.toNat / 0x100 % 0x10))
      (hexLetter (unit.toNat / 0x10 % 0x10)) (hexLetter (unit.toNat % 0x10)) = some unit := by
  have bound := unit.toNat_lt
  have value : ((unit.toNat / 0x1000 * 16 + unit.toNat / 0x100 % 0x10) * 16 +
      unit.toNat / 0x10 % 0x10) * 16 + unit.toNat % 0x10 = unit.toNat := by omega
  rw [hexUnit, hexDigit_hexLetter _ (by omega), hexDigit_hexLetter _ (by omega),
    hexDigit_hexLetter _ (by omega), hexDigit_hexLetter _ (by omega)]
  simp only [Option.bind_eq_bind, Option.bind_some, value, UInt16.ofNat_toNat]
  rfl

theorem readString_longEscape (unit : UInt16) (rest : JsString) :
    readString (longEscape unit ++ rest) =
      (readString rest).map fun (text, after) => (unit :: text, after) := by
  rw [longEscape]
  simp only [List.cons_append, List.nil_append]
  rw [readString.eq_def]
  simp only [hexUnit_digits, Option.bind_some]
  rfl

theorem readString_shortEscape {letter unit : UInt16} (notLong : letter ≠ 0x75)
    (isEscape : shortEscape letter = some unit) (rest : JsString) :
    readString (backslash :: letter :: rest) =
      (readString rest).map fun (text, after) => (unit :: text, after) := by
  rw [readString.eq_def]
  simp only [if_neg notLong, isEscape, Option.bind_some]
  rfl

theorem readString_plain {unit : UInt16} (notQuote : unit ≠ quote) (notControl : ¬unit < 0x20)
    (notEscape : unit ≠ backslash) (rest : JsString) :
    readString (unit :: rest) =
      (readString rest).map fun (text, after) => (unit :: text, after) := by
  rw [readString.eq_def]
  simp only [if_neg notQuote, if_neg notControl, if_neg notEscape]

theorem readString_writeUnit (unit : UInt16) (rest : JsString) :
    readString (writeUnit unit ++ rest) =
      (readString rest).map fun (text, after) => (unit :: text, after) := by
  rw [writeUnit]
  split
  case isTrue isMark =>
      apply readString_shortEscape
      · rcases isMark with rfl | rfl <;> decide
      · rcases isMark with rfl | rfl <;> decide
  case isFalse notMark =>
      split
      case isTrue same => exact readString_shortEscape (by decide) (same ▸ by decide) rest
      split
      case isTrue same => exact readString_shortEscape (by decide) (same ▸ by decide) rest
      split
      case isTrue same => exact readString_shortEscape (by decide) (same ▸ by decide) rest
      split
      case isTrue same => exact readString_shortEscape (by decide) (same ▸ by decide) rest
      split
      case isTrue same => exact readString_shortEscape (by decide) (same ▸ by decide) rest
      split
      case isTrue => exact readString_longEscape unit rest
      case isFalse notControl =>
          split
          case isTrue => exact readString_longEscape unit rest
          case isFalse =>
              exact readString_plain (fun same => notMark (.inl same)) notControl
                (fun same => notMark (.inr same)) rest

theorem readString_surrogate {unit : UInt16}
    (isSurrogate : (isHighSurrogate unit || isLowSurrogate unit) = true) (rest : JsString) :
    readString (unit :: rest) =
      (readString rest).map fun (text, after) => (unit :: text, after) := by
  have large : 0xd800 ≤ unit.toNat := by
    simp only [isHighSurrogate, isLowSurrogate, Bool.or_eq_true, Bool.and_eq_true,
      decide_eq_true_eq, UInt16.le_iff_toNat_le, UInt16.reduceToNat] at isSurrogate
    omega
  apply readString_plain
  · rintro rfl
    exact absurd large (by decide)
  · rw [UInt16.lt_iff_toNat_lt]
    change ¬unit.toNat < 0x20
    omega
  · rintro rfl
    exact absurd large (by decide)

theorem readString_writeUnits (text rest : JsString) :
    readString (writeUnits text ++ quote :: rest) = some (text, rest) := by
  have closes : readString (quote :: rest) = some ([], rest) := by
    rw [readString.eq_def]
    rfl
  induction text using writeUnits.induct with
  | case1 => exact closes
  | case2 unit =>
      rw [writeUnits, readString_writeUnit, closes]
      rfl
  | case3 high low more pair induction =>
      rw [writeUnits, if_pos pair]
      rw [Bool.and_eq_true] at pair
      simp only [List.cons_append]
      rw [readString_surrogate (by rw [pair.1]; rfl),
        readString_surrogate (by rw [pair.2, Bool.or_true]), induction]
      rfl
  | case4 high low more single induction =>
      rw [writeUnits, if_neg single, List.append_assoc, readString_writeUnit, induction]
      rfl

/-! ## Values without numbers -/

mutual

def IsNumberless : JsonTree → Prop
  | .number _ => False
  | .array elements => AreNumberless elements
  | .object members => (members.map Prod.fst).Nodup ∧ AreNumberlessMembers members
  | _ => True

def AreNumberless : List JsonTree → Prop
  | [] => True
  | value :: rest => IsNumberless value ∧ AreNumberless rest

def AreNumberlessMembers : List (JsString × JsonTree) → Prop
  | [] => True
  | (_, value) :: rest => IsNumberless value ∧ AreNumberlessMembers rest

end

theorem areNumberlessMembers_iff {members : List (JsString × JsonTree)} :
    AreNumberlessMembers members ↔ ∀ member ∈ members, IsNumberless member.2 := by
  induction members with
  | nil => simp [AreNumberlessMembers]
  | cons member members induction =>
      rw [AreNumberlessMembers, List.forall_mem_cons, induction]

theorem dropWhile_isBlank {first : UInt16} (notBlank : isBlank first = false) (rest : JsString) :
    (first :: rest).dropWhile isBlank = first :: rest := by
  rw [List.dropWhile_cons, if_neg (by simp [notBlank])]

theorem expect_mark {mark : UInt16} (notBlank : isBlank mark = false) (rest : JsString) :
    expect mark (mark :: rest) = some rest := by
  rw [expect, dropWhile_isBlank notBlank]
  exact if_pos rfl

theorem expect_other {mark first : UInt16} (notBlank : isBlank first = false)
    (different : first ≠ mark) (rest : JsString) : expect mark (first :: rest) = none := by
  rw [expect, dropWhile_isBlank notBlank]
  exact if_neg different

theorem stringify_first {value : JsonTree} (numberless : IsNumberless value) :
    ∃ first rest, stringify value = first :: rest ∧ isBlank first = false ∧
      first ≠ closeBracket := by
  cases value with
  | null => exact ⟨_, _, rfl, by decide, by decide⟩
  | boolean value => cases value <;> exact ⟨_, _, rfl, by decide, by decide⟩
  | number literal => cases numberless
  | string text => exact ⟨_, _, rfl, by decide, by decide⟩
  | array elements =>
      cases elements with
      | nil => exact ⟨_, _, rfl, by decide, by decide⟩
      | cons first rest => exact ⟨openBracket, _, by rw [stringify]; rfl, by decide, by decide⟩
  | object members =>
      cases members with
      | nil => exact ⟨_, _, rfl, by decide, by decide⟩
      | cons first rest =>
          rcases first with ⟨key, value⟩
          exact ⟨openBrace, _, by rw [stringify]; rfl, by decide, by decide⟩

theorem setProperty_new {known : List (JsString × JsonTree)} {key : JsString}
    (isNew : key ∉ known.map Prod.fst) (value : JsonTree) :
    setProperty known key value = known ++ [(key, value)] := by
  rw [setProperty, if_neg]
  intro found
  rcases List.any_eq_true.mp found with ⟨member, isMember, same⟩
  apply isNew
  rw [← beq_iff_eq.mp same]
  exact List.mem_map_of_mem isMember

theorem readValue_writeString (fuel : Nat) (text rest : JsString) :
    readValue (fuel + 1) (writeString text ++ rest) = some (.string text, rest) := by
  rw [writeString, readValue]
  simp only [List.cons_append, List.append_assoc, List.nil_append]
  rw [dropWhile_isBlank (by decide)]
  dsimp only
  rw [if_pos rfl, readString_writeUnits]
  rfl

/-- With this fuel a value that was written is read, whatever follows it. -/
def ReadsValues (fuel : Nat) : Prop :=
  ∀ value, IsNumberless value → (stringify value).length ≤ fuel → ∀ rest,
    readValue fuel (stringify value ++ rest) = some (value, rest)

/-- With this fuel the elements of an array are read in their order. -/
def ReadsElements (fuel : Nat) : Prop :=
  ∀ first elements known, IsNumberless first → AreNumberless elements →
    (stringify first).length + (stringifyElements elements).length ≤ fuel → ∀ rest,
    readElements fuel known (stringify first ++ (stringifyElements elements ++ rest)) =
      some (known ++ first :: elements, rest)

/-- With this fuel the members of an object are read in their order. -/
def ReadsMembers (fuel : Nat) : Prop :=
  ∀ key value members known, IsNumberless value → AreNumberlessMembers members →
    ((known ++ (key, value) :: members).map Prod.fst).Nodup →
    (stringify value).length + (stringifyMembers members).length ≤ fuel → ∀ rest,
    readMembers fuel known (writeString key ++ colon :: (stringify value ++
      (stringifyMembers members ++ rest))) = some (known ++ (key, value) :: members, rest)

theorem readsValues_succ {fuel : Nat} (elements : ReadsElements fuel)
    (members : ReadsMembers fuel) :
    ReadsValues (fuel + 1) := by
  intro value numberless enough rest
  cases value with
  | null => rfl
  | boolean value => cases value <;> rfl
  | number literal => cases numberless
  | string text => rw [stringify, readValue_writeString]
  | array values =>
      cases values with
      | nil => rfl
      | cons first others =>
          rw [IsNumberless, AreNumberless] at numberless
          rcases stringify_first numberless.1 with ⟨unit, text, isText, notBlank, notClosed⟩
          have notEmpty : expect closeBracket
              (stringify first ++ (stringifyElements others ++ rest)) = none := by
            rw [isText]
            exact expect_other notBlank notClosed _
          rw [stringify] at enough ⊢
          simp only [List.cons_append, List.length_cons, List.length_append] at enough
          have isRead := elements first others [] numberless.1 numberless.2 (by omega) rest
          simp only [List.cons_append, List.append_assoc]
          rw [readValue, dropWhile_isBlank (by decide)]
          dsimp only
          rw [if_neg (by decide), if_neg (by decide), if_pos rfl, notEmpty]
          dsimp only
          rw [isRead]
          rfl
  | object entries =>
      cases entries with
      | nil => rfl
      | cons first others =>
          rcases first with ⟨key, value⟩
          rw [IsNumberless, AreNumberlessMembers] at numberless
          have notEmpty : expect closeBrace (writeString key ++ colon :: (stringify value ++
              (stringifyMembers others ++ rest))) = none := by
            rw [writeString]
            exact expect_other (by decide) (by decide) _
          rw [stringify] at enough ⊢
          simp only [List.cons_append, List.length_cons, List.length_append] at enough
          have isRead :=
            members key value others [] numberless.2.1 numberless.2.2 numberless.1 (by omega) rest
          simp only [List.cons_append, List.append_assoc]
          rw [readValue, dropWhile_isBlank (by decide)]
          dsimp only
          rw [if_neg (by decide), if_pos rfl, notEmpty]
          dsimp only
          rw [isRead]
          rfl

theorem readsElements_succ {fuel : Nat} (values : ReadsValues fuel)
    (elements : ReadsElements fuel) : ReadsElements (fuel + 1) := by
  intro first others known isNumberless areNumberless enough rest
  cases others with
  | nil =>
      simp only [stringifyElements, List.length_singleton] at enough
      rw [readElements, values first isNumberless (by omega)]
      simp only [Option.bind_some, stringifyElements, List.singleton_append]
      rw [expect_other (by decide) (by decide)]
      dsimp only
      rw [expect_mark (by decide)]
      rfl
  | cons next others =>
      rw [AreNumberless] at areNumberless
      simp only [stringifyElements, List.cons_append, List.length_cons,
        List.length_append] at enough
      rw [readElements, values first isNumberless (by omega)]
      simp only [Option.bind_some, stringifyElements, List.cons_append, List.append_assoc]
      rw [expect_mark (by decide)]
      dsimp only
      rw [elements next others (known ++ [first]) areNumberless.1 areNumberless.2 (by omega) rest,
        List.append_assoc]
      rfl

theorem readsMembers_succ {fuel : Nat} (values : ReadsValues fuel) (members : ReadsMembers fuel) :
    ReadsMembers (fuel + 1) := by
  intro key value others known isNumberless areNumberless distinct enough rest
  have isNew : key ∉ known.map Prod.fst := by
    rw [List.map_append, List.nodup_append] at distinct
    intro inKnown
    exact distinct.2.2 key inKnown key (by simp) rfl
  have small : (stringify value).length ≤ fuel := by
    cases others with
    | nil =>
        simp only [stringifyMembers, List.length_singleton] at enough
        omega
    | cons next others =>
        simp only [stringifyMembers, List.cons_append, List.length_cons] at enough
        omega
  rw [readMembers, writeString]
  simp only [List.cons_append, List.append_assoc, List.nil_append]
  rw [expect_mark (by decide), Option.bind_some, readString_writeUnits, Option.bind_some,
    expect_mark (by decide), Option.bind_some, values value isNumberless small, Option.bind_some]
  dsimp only
  rw [setProperty_new isNew]
  cases others with
  | nil =>
      simp only [stringifyMembers, List.singleton_append]
      rw [expect_other (by decide) (by decide)]
      dsimp only
      rw [expect_mark (by decide)]
      rfl
  | cons next others =>
      rcases next with ⟨nextKey, nextValue⟩
      rw [AreNumberlessMembers] at areNumberless
      simp only [stringifyMembers, List.cons_append, List.length_cons, List.length_append] at enough
      simp only [stringifyMembers, List.cons_append, List.append_assoc]
      rw [expect_mark (by decide)]
      dsimp only
      rw [members nextKey nextValue others (known ++ [(key, value)]) areNumberless.1 areNumberless.2
        (by simpa using distinct) (by omega) rest, List.append_assoc]
      rfl

theorem reads_written (fuel : Nat) :
    ReadsValues fuel ∧ ReadsElements fuel ∧ ReadsMembers fuel := by
  induction fuel with
  | zero =>
      have nonempty : ∀ value, IsNumberless value → (stringify value).length ≠ 0 := by
        intro value numberless isEmpty
        rcases stringify_first numberless with ⟨first, rest, isText, -⟩
        rw [isText] at isEmpty
        cases isEmpty
      refine ⟨?_, ?_, ?_⟩
      · intro value numberless enough
        exact absurd (Nat.le_zero.mp enough) (nonempty value numberless)
      · intro first elements known numberless _ enough
        exact absurd (Nat.le_zero.mp (Nat.le_of_add_right_le enough)) (nonempty first numberless)
      · intro key value members known numberless _ _ enough
        exact absurd (Nat.le_zero.mp (Nat.le_of_add_right_le enough)) (nonempty value numberless)
  | succ fuel induction =>
      rcases induction with ⟨values, elements, members⟩
      exact ⟨readsValues_succ elements members, readsElements_succ values elements,
        readsMembers_succ values members⟩

theorem parse_stringify {value : JsonTree} (numberless : IsNumberless value) :
    parse (stringify value) = some value := by
  have isRead :=
    (reads_written ((stringify value).length + 1)).1 value numberless (Nat.le_succ _) []
  rw [List.append_nil] at isRead
  rw [parse, isRead]
  rfl

/-! ## What is written has no lone surrogate -/

def isSurrogate (unit : UInt16) : Bool := isHighSurrogate unit || isLowSurrogate unit

theorem hasLoneSurrogate_cons {unit : UInt16} (isPlain : isSurrogate unit = false)
    (text : JsString) : hasLoneSurrogate (unit :: text) = hasLoneSurrogate text := by
  rw [isSurrogate, Bool.or_eq_false_iff] at isPlain
  have first := hasLoneSurrogate_append isPlain.1 isPlain.2 [] text
  simpa [hasLoneSurrogate] using first

theorem hasLoneSurrogate_front {front : JsString}
    (plain : ∀ unit ∈ front, isSurrogate unit = false) (text : JsString) :
    hasLoneSurrogate (front ++ text) = hasLoneSurrogate text := by
  induction front with
  | nil => rfl
  | cons unit front induction =>
      rw [List.cons_append, hasLoneSurrogate_cons (plain unit List.mem_cons_self)]
      exact induction fun other member => plain other (List.mem_cons_of_mem _ member)

theorem hasLoneSurrogate_literal {front : JsString} (plain : front.any isSurrogate = false)
    (text : JsString) : hasLoneSurrogate (front ++ text) = hasLoneSurrogate text := by
  rw [List.any_eq_false] at plain
  apply hasLoneSurrogate_front
  intro unit member
  exact Bool.eq_false_iff.mpr (plain unit member)

theorem hexLetter_plain : ∀ digit < 16, isSurrogate (hexLetter digit) = false := by
  decide

theorem longEscape_plain (unit : UInt16) :
    ∀ other ∈ longEscape unit, isSurrogate other = false := by
  have bound := unit.toNat_lt
  rw [longEscape]
  simp only [List.forall_mem_cons]
  refine ⟨by decide, by decide, ?_, ?_, ?_, ?_, ?_⟩
  · exact hexLetter_plain _ (by omega)
  · exact hexLetter_plain _ (by omega)
  · exact hexLetter_plain _ (by omega)
  · exact hexLetter_plain _ (by omega)
  · simp

theorem writeUnit_plain (unit : UInt16) : ∀ other ∈ writeUnit unit, isSurrogate other = false := by
  have short : ∀ letter, isSurrogate letter = false →
      ∀ other ∈ [backslash, letter], isSurrogate other = false := by
    intro letter isPlain other member
    rcases List.mem_pair.mp member with rfl | rfl
    · decide
    · exact isPlain
  rw [writeUnit]
  split
  case isTrue isMark => exact short unit (by rcases isMark with rfl | rfl <;> decide)
  split
  case isTrue => exact short _ (by decide)
  split
  case isTrue => exact short _ (by decide)
  split
  case isTrue => exact short _ (by decide)
  split
  case isTrue => exact short _ (by decide)
  split
  case isTrue => exact short _ (by decide)
  split
  case isTrue => exact longEscape_plain unit
  split
  case isTrue => exact longEscape_plain unit
  case isFalse notSurrogate => simpa [isSurrogate] using notSurrogate

theorem hasLoneSurrogate_writeUnits (text : JsString) :
    hasLoneSurrogate (writeUnits text) = false := by
  induction text using writeUnits.induct with
  | case1 => rfl
  | case2 unit =>
      have front := hasLoneSurrogate_front (writeUnit_plain unit) []
      rw [List.append_nil] at front
      exact front
  | case3 high low more pair induction =>
      rw [writeUnits, if_pos pair, hasLoneSurrogate, if_pos pair]
      exact induction
  | case4 high low more single induction =>
      rw [writeUnits, if_neg single, hasLoneSurrogate_front (writeUnit_plain high)]
      exact induction

theorem hasLoneSurrogate_writeString (text rest : JsString) :
    hasLoneSurrogate (writeString text ++ rest) = hasLoneSurrogate rest := by
  rw [writeString]
  simp only [List.cons_append, List.append_assoc, List.nil_append]
  rw [hasLoneSurrogate_cons (by decide), hasLoneSurrogate_append (by decide) (by decide),
    hasLoneSurrogate_writeUnits, Bool.false_or]

mutual

theorem hasLoneSurrogate_value : ∀ value, IsNumberless value → ∀ rest,
    hasLoneSurrogate (stringify value ++ rest) = hasLoneSurrogate rest
  | .null, _, rest => hasLoneSurrogate_literal (by decide) rest
  | .boolean true, _, rest => hasLoneSurrogate_literal (by decide) rest
  | .boolean false, _, rest => hasLoneSurrogate_literal (by decide) rest
  | .string text, _, rest => by
      rw [stringify]
      exact hasLoneSurrogate_writeString text rest
  | .array [], _, rest => hasLoneSurrogate_literal (by decide) rest
  | .array (first :: elements), numberless, rest => by
      rw [IsNumberless, AreNumberless] at numberless
      rw [stringify]
      simp only [List.cons_append, List.append_assoc]
      rw [hasLoneSurrogate_cons (by decide), hasLoneSurrogate_value first numberless.1,
        hasLoneSurrogate_elements elements numberless.2]
  | .object [], _, rest => hasLoneSurrogate_literal (by decide) rest
  | .object ((key, value) :: members), numberless, rest => by
      rw [IsNumberless, AreNumberlessMembers] at numberless
      rw [stringify]
      simp only [List.cons_append, List.append_assoc]
      rw [hasLoneSurrogate_cons (by decide), hasLoneSurrogate_writeString,
        hasLoneSurrogate_cons (by decide), hasLoneSurrogate_value value numberless.2.1,
        hasLoneSurrogate_members members numberless.2.2]

theorem hasLoneSurrogate_elements : ∀ elements, AreNumberless elements → ∀ rest,
    hasLoneSurrogate (stringifyElements elements ++ rest) = hasLoneSurrogate rest
  | [], _, rest => hasLoneSurrogate_literal (by decide) rest
  | value :: elements, numberless, rest => by
      rw [AreNumberless] at numberless
      rw [stringifyElements]
      simp only [List.cons_append, List.append_assoc]
      rw [hasLoneSurrogate_cons (by decide), hasLoneSurrogate_value value numberless.1,
        hasLoneSurrogate_elements elements numberless.2]

theorem hasLoneSurrogate_members : ∀ members, AreNumberlessMembers members → ∀ rest,
    hasLoneSurrogate (stringifyMembers members ++ rest) = hasLoneSurrogate rest
  | [], _, rest => hasLoneSurrogate_literal (by decide) rest
  | (key, value) :: members, numberless, rest => by
      rw [AreNumberlessMembers] at numberless
      rw [stringifyMembers]
      simp only [List.cons_append, List.append_assoc]
      rw [hasLoneSurrogate_cons (by decide), hasLoneSurrogate_writeString,
        hasLoneSurrogate_cons (by decide), hasLoneSurrogate_value value numberless.1,
        hasLoneSurrogate_members members numberless.2]

end

theorem hasLoneSurrogate_stringify {value : JsonTree} (numberless : IsNumberless value) :
    hasLoneSurrogate (stringify value) = false := by
  have text := hasLoneSurrogate_value value numberless []
  rw [List.append_nil] at text
  exact text

end Storix.JsonText
