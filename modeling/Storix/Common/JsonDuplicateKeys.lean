import Storix.Foundation.Json
import Storix.Text

/-! # Duplicate keys in JSON texts

`assertNoDuplicateJsonKeys` walks over a text once, with a stack of the objects and arrays
it is inside of. A string literal that is never closed makes it walk past the end forever;
such a text has no result here. -/

namespace Storix

open Foundation Foundation.Json

inductive JsonFrame
  | object (keys : List JsString) (currentKey : Option JsString) (expectKey : Bool)
  | array (index : Nat)
  deriving DecidableEq

inductive JsonKeysError
  /-- `Duplicate key "…" at …` -/
  | duplicate (key path : JsString)
  /-- What `JSON.parse` throws for a key that is no string literal. -/
  | syntaxError
  deriving DecidableEq

def JsonFrame.segment : JsonFrame → JsString
  | .object _ currentKey _ => currentKey.getD []
  | .array index => decimal index

def pathOf (frames : List JsonFrame) : JsString :=
  if frames = [] then [0x24]
  else [0x2e].intercalate (frames.reverse.map JsonFrame.segment)

/-- The rest of a string literal up to its closing quote, and what follows. An escape takes
the next code unit with it. -/
def closeString : JsString → Option (JsString × JsString)
  | [] => none
  | unit :: rest =>
      if unit = quote then some ([], rest)
      else if unit = backslash then
        match rest with
        | [] => none
        | escaped :: rest =>
            (closeString rest).map fun (raw, after) => (unit :: escaped :: raw, after)
      else (closeString rest).map fun (raw, after) => (unit :: raw, after)

theorem closeString_length {text raw after : JsString}
    (closes : closeString text = some (raw, after)) :
    after.length < text.length := by
  fun_induction closeString text generalizing raw after with
  | case1 => cases closes
  | case2 rest => simp_all
  | case3 => cases closes
  | case4 escaped rest notQuote induction =>
      rcases Option.map_eq_some_iff.mp closes with ⟨⟨inner, last⟩, inside, same⟩
      cases same
      have shorter := induction inside
      simp only [List.length_cons]
      omega
  | case5 unit rest notQuote notEscape induction =>
      rcases Option.map_eq_some_iff.mp closes with ⟨⟨inner, last⟩, inside, same⟩
      cases same
      have shorter := induction inside
      simp only [List.length_cons]
      omega

def afterComma : List JsonFrame → List JsonFrame
  | .array index :: frames => .array (index + 1) :: frames
  | .object keys currentKey _ :: frames => .object keys currentKey true :: frames
  | [] => []

def takeString (raw : JsString) : List JsonFrame → Except JsonKeysError (List JsonFrame)
  | .object keys currentKey true :: frames =>
      match unescape raw with
      | none => .error .syntaxError
      | some key =>
          if key ∈ keys then .error (.duplicate key (pathOf frames))
          else .ok (.object (key :: keys) (some key) false :: frames)
  | frames => .ok frames

def scanKeys (frames : List JsonFrame) (text : JsString) : Option (Except JsonKeysError Unit) :=
  match text with
  | [] => some (.ok ())
  | unit :: rest =>
      if unit = openBrace then scanKeys (.object [] none true :: frames) rest
      else if unit = openBracket then scanKeys (.array 0 :: frames) rest
      else if unit = closeBrace ∨ unit = closeBracket then scanKeys frames.tail rest
      else if unit = comma then scanKeys (afterComma frames) rest
      else if unit = quote then
        match closes : closeString rest with
        | none => none
        | some (raw, after) =>
            match takeString raw frames with
            | .error error => some (.error error)
            | .ok frames => scanKeys frames after
      else scanKeys frames rest
termination_by text.length
decreasing_by
  all_goals simp only [List.length_cons]
  all_goals first
    | exact Nat.lt_succ_self _
    | exact Nat.lt_succ_of_lt (closeString_length closes)

def assertNoDuplicateJsonKeys (text : JsString) : Option (Except JsonKeysError Unit) :=
  scanKeys [] text

end Storix
