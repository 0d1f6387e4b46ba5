import GatedNetwork.Json.Number

/-! Taking values out of JSON documents: records by name or by position, choices by their
tag, and numbers. -/

namespace GatedNetwork.Json

def hexDigit (b : UInt8) : Nat :=
  if isDigit b then b.toNat - 48 else if b ≥ 97 then b.toNat - 87 else b.toNat - 55

def codeUnit (a b c d : UInt8) : Nat :=
  ((hexDigit a * 16 + hexDigit b) * 16 + hexDigit c) * 16 + hexDigit d

def escaped (letter : UInt8) : UInt8 :=
  match letter with
  | 98 => 8
  | 102 => 12
  | 110 => 10
  | 114 => 13
  | 116 => 9
  | b => b

def isHighHalf (n : Nat) : Bool := 0xd800 ≤ n && n < 0xdc00

def isLowHalf (n : Nat) : Bool := 0xdc00 ≤ n && n < 0xe000

def encoded (n : Nat) : Bytes := String.utf8EncodeChar (Char.ofNat n)

/-- Resolves the escapes of a string. Halves of a pair are refused when they stand alone. -/
def unescape (seen : Bytes) : Bytes → Option Bytes
  | [] => some seen.reverse
  | 92 :: 117 :: a :: b :: c :: d :: rest =>
    let n := codeUnit a b c d
    if isLowHalf n then none
    else if isHighHalf n then
      match rest with
      | 92 :: 117 :: a' :: b' :: c' :: d' :: rest' =>
        let low := codeUnit a' b' c' d'
        if isLowHalf low then
          unescape ((encoded ((n - 0xd800) * 0x400 + (low - 0xdc00) + 0x10000)).reverse ++ seen) rest'
        else none
      | _ => none
    else unescape ((encoded n).reverse ++ seen) rest
  | 92 :: e :: rest => unescape (escaped e :: seen) rest
  | b :: rest => unescape (b :: seen) rest

def textOf (raw : Bytes) : Option String := do
  String.fromUTF8? ⟨(← unescape [] raw).toArray⟩

def lookup (members : List (String × Json)) (name : String) : Option (Option Json) :=
  match members.filter (·.1 == name) with
  | [] => some none
  | [(_, v)] => some (some v)
  | _ => none

/-- The fields of a record, from an object in any order or from an array in this order.
Other members of an object are passed over. -/
def fields (names : List String) : Json → Option (List (Option Json))
  | .array items => if items.length = names.length then some (items.map some) else none
  | .object members => do
    let members ← members.mapM fun (raw, v) => return (← textOf raw, v)
    names.mapM (lookup members)
  | _ => none

def choice : Json → Option (String × Option Json)
  | .string raw => (textOf raw).map (·, none)
  | .object [(raw, v)] => (textOf raw).map (·, some v)
  | _ => none

def tag (j : Json) : Option String := do
  match ← choice j with
  | (name, none) | (name, some .null) => some name
  | _ => none

def toFloat? : Json → Option Float
  | .number literal => floatOf literal
  | _ => none

def toNat? : Json → Option Nat
  | .number literal => natOf literal
  | _ => none

def toList? {α : Type} (decode : Json → Option α) : Json → Option (List α)
  | .array items => items.mapM decode
  | _ => none

def required {α : Type} (decode : Json → Option α) (field : Option Json) : Option α :=
  field.bind decode

def optional {α : Type} (decode : Json → Option α) : Option Json → Option (Option α)
  | none | some .null => some none
  | some v => (decode v).map some

end GatedNetwork.Json
