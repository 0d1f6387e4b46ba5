/-! JSON documents as trees. Numbers and strings keep the bytes they are written with, so
that parts of a document that nobody asks for need not make sense as values. -/

namespace GatedNetwork

abbrev Bytes := List UInt8

def ascii (s : String) : Bytes := s.toList.map Char.toUInt8

inductive Json where
  | null
  | bool (b : Bool)
  | number (literal : Bytes)
  /-- What stands between the quotes, escapes included. -/
  | string (raw : Bytes)
  | array (items : List Json)
  | object (members : List (Bytes × Json))
  deriving Inhabited

namespace Json

def text (s : String) : Json := .string (ascii s)

def nat (n : Nat) : Json := .number (ascii (toString n))

def record (members : List (String × Json)) : Json :=
  .object (members.map fun (name, v) => (ascii name, v))

def quoted (raw : Bytes) : Bytes := 34 :: raw ++ [34]

end Json

end GatedNetwork
