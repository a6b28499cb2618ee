import Mathlib.Data.List.Basic

/-! # JSON texts

The grammar of JSON texts over UTF-16 code units, with the keys of every object in the
text. A key is what its string literal stands for, not how it is written. -/

namespace Storix.Foundation.Json

def quote : UInt16 := 0x22

def comma : UInt16 := 0x2c

def colon : UInt16 := 0x3a

def openBracket : UInt16 := 0x5b

def backslash : UInt16 := 0x5c

def closeBracket : UInt16 := 0x5d

def openBrace : UInt16 := 0x7b

def closeBrace : UInt16 := 0x7d

/-! ## String literals -/

def hexDigit (unit : UInt16) : Option Nat :=
  if 0x30 ≤ unit ∧ unit ≤ 0x39 then some (unit.toNat - 0x30)
  else if 0x41 ≤ unit ∧ unit ≤ 0x46 then some (unit.toNat - 0x37)
  else if 0x61 ≤ unit ∧ unit ≤ 0x66 then some (unit.toNat - 0x57)
  else none

def hexLetter (digit : Nat) : UInt16 :=
  UInt16.ofNat (if digit < 10 then 0x30 + digit else 0x57 + digit)

theorem hexDigit_hexLetter : ∀ digit < 16, hexDigit (hexLetter digit) = some digit := by
  decide

def hexUnit (first second third fourth : UInt16) : Option UInt16 := do
  let first ← hexDigit first
  let second ← hexDigit second
  let third ← hexDigit third
  let fourth ← hexDigit fourth
  return UInt16.ofNat (((first * 16 + second) * 16 + third) * 16 + fourth)

/-- What one of the escapes of a single letter stands for. -/
def shortEscape (unit : UInt16) : Option UInt16 :=
  if unit = quote ∨ unit = backslash ∨ unit = 0x2f then some unit
  else if unit = 0x62 then some 0x08
  else if unit = 0x66 then some 0x0c
  else if unit = 0x6e then some 0x0a
  else if unit = 0x72 then some 0x0d
  else if unit = 0x74 then some 0x09
  else none

/-- What the text between the quotes of a string literal stands for. -/
def unescape : List UInt16 → Option (List UInt16)
  | [] => some []
  | unit :: rest =>
      if unit = quote ∨ unit < 0x20 then none
      else if unit = backslash then
        match rest with
        | [] => none
        | letter :: rest =>
            if letter = 0x75 then
              match rest with
              | first :: second :: third :: fourth :: rest => do
                  let code ← hexUnit first second third fourth
                  return code :: (← unescape rest)
              | _ => none
            else do
              let code ← shortEscape letter
              return code :: (← unescape rest)
      else do return unit :: (← unescape rest)

/-- `"a\u0062\n"` -/
example : unescape [0x61, 0x5c, 0x75, 0x30, 0x30, 0x36, 0x32, 0x5c, 0x6e] =
  some [0x61, 0x62, 0x0a] := by
  decide

/-! ## Numbers and literals -/

def IsDigits (text : List UInt16) : Prop := text ≠ [] ∧ ∀ unit ∈ text, 0x30 ≤ unit ∧ unit ≤ 0x39

/-- A number: a sign, a whole part without leading zeros, a fraction and an exponent. -/
structure IsNumber (text : List UInt16) : Prop where
  parts : ∃ sign whole fraction exponent, text = sign ++ whole ++ fraction ++ exponent ∧
    (sign = [] ∨ sign = [0x2d]) ∧
    (IsDigits whole ∧ (whole = [0x30] ∨ whole.head? ≠ some 0x30)) ∧
    (fraction = [] ∨ ∃ digits, fraction = 0x2e :: digits ∧ IsDigits digits) ∧
    (exponent = [] ∨ ∃ letter sign digits, exponent = letter :: sign ++ digits ∧
      (letter = 0x65 ∨ letter = 0x45) ∧ (sign = [] ∨ sign = [0x2b] ∨ sign = [0x2d]) ∧
      IsDigits digits)

/-- `true`, `false` and `null` -/
def literals : List (List UInt16) :=
  [[0x74, 0x72, 0x75, 0x65], [0x66, 0x61, 0x6c, 0x73, 0x65], [0x6e, 0x75, 0x6c, 0x6c]]

def IsBlank (text : List UInt16) : Prop :=
  ∀ unit ∈ text, unit = 0x20 ∨ unit = 0x09 ∨ unit = 0x0a ∨ unit = 0x0d

/-! ## The grammar -/

inductive Part
  | value
  | element
  | elements
  | member
  | members

/-- A part of a text. `keys` are the keys of the members, in order, and `objects` those of
every object inside. An element is a value with blanks around it. -/
inductive Spells : Part → List UInt16 → List (List UInt16) → List (List (List UInt16)) → Prop
  | literal {text : List UInt16} (known : text ∈ literals) : Spells .value text [] []
  | number {text : List UInt16} (isNumber : IsNumber text) : Spells .value text [] []
  | string {raw text : List UInt16} (spelled : unescape raw = some text) :
      Spells .value (quote :: raw ++ [quote]) [] []
  | emptyArray {blank : List UInt16} (isBlank : IsBlank blank) :
      Spells .value (openBracket :: blank ++ [closeBracket]) [] []
  | array {text : List UInt16} {objects : List (List (List UInt16))}
      (elements : Spells .elements text [] objects) :
      Spells .value (openBracket :: text ++ [closeBracket]) [] objects
  | emptyObject {blank : List UInt16} (isBlank : IsBlank blank) :
      Spells .value (openBrace :: blank ++ [closeBrace]) [] [[]]
  | object {text : List UInt16} {keys : List (List UInt16)}
      {objects : List (List (List UInt16))} (members : Spells .members text keys objects) :
      Spells .value (openBrace :: text ++ [closeBrace]) [] (keys :: objects)
  | element {before text after : List UInt16} {objects : List (List (List UInt16))}
      (isBefore : IsBlank before) (value : Spells .value text [] objects)
        (isAfter : IsBlank after) :
      Spells .element (before ++ text ++ after) [] objects
  | lastElement {text : List UInt16} {objects : List (List (List UInt16))}
      (element : Spells .element text [] objects) : Spells .elements text [] objects
  | elements {first rest : List UInt16} {firstObjects restObjects : List (List (List UInt16))}
      (element : Spells .element first [] firstObjects)
      (elements : Spells .elements rest [] restObjects) :
      Spells .elements (first ++ comma :: rest) [] (firstObjects ++ restObjects)
  | member {before raw key middle text : List UInt16} {objects : List (List (List UInt16))}
      (isBefore : IsBlank before) (spelled : unescape raw = some key) (isMiddle : IsBlank middle)
      (element : Spells .element text [] objects) :
      Spells .member (before ++ quote :: raw ++ quote :: middle ++ colon :: text) [key] objects
  | lastMember {text : List UInt16} {keys : List (List UInt16)}
      {objects : List (List (List UInt16))} (member : Spells .member text keys objects) :
      Spells .members text keys objects
  | members {first rest : List UInt16} {firstKeys restKeys : List (List UInt16)}
      {firstObjects restObjects : List (List (List UInt16))}
      (member : Spells .member first firstKeys firstObjects)
      (members : Spells .members rest restKeys restObjects) :
      Spells .members (first ++ comma :: rest) (firstKeys ++ restKeys) (firstObjects ++ restObjects)

def IsText (text : List UInt16) (objects : List (List (List UInt16))) : Prop :=
  Spells .element text [] objects

end Storix.Foundation.Json
