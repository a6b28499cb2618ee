import Mathlib.Data.List.Basic

/-! # JSON values

What `JSON.parse` makes of a text, for any view of numbers. An object is the list of its own
properties, in their order and with distinct names. -/

namespace Storix.Foundation

inductive JsonOf (ν : Type)
  | null
  | boolean (value : Bool)
  | number (value : ν)
  | string (text : List UInt16)
  | array (elements : List (JsonOf ν))
  | object (members : List (List UInt16 × JsonOf ν))

namespace JsonOf

variable {ν : Type}

def text? : JsonOf ν → Option (List UInt16)
  | .string text => some text
  | _ => none

/-- `value === true` -/
def isTrue : JsonOf ν → Bool
  | .boolean value => value
  | _ => false

def property (members : List (List UInt16 × JsonOf ν)) (name : List UInt16) : Option (JsonOf ν) :=
  (members.find? fun member => member.1 == name).map Prod.snd

end JsonOf

abbrev JsonValue := JsonOf (Option Int)

abbrev JsonTree := JsonOf (List UInt16)

end Storix.Foundation
