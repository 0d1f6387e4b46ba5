import GatedNetwork.Json.Basic

/-! Writing JSON documents, without blanks or indented by two spaces for each level. -/

namespace GatedNetwork.Json

def joined (separator : Bytes) (parts : List Bytes) : Bytes :=
  (parts.intersperse separator).flatten

mutual

def compact : Json → Bytes
  | .null => ascii "null"
  | .bool true => ascii "true"
  | .bool false => ascii "false"
  | .number literal => literal
  | .string raw => quoted raw
  | .array items => ascii "[" ++ joined (ascii ",") (compactItems items) ++ ascii "]"
  | .object members => ascii "\x7b" ++ joined (ascii ",") (compactMembers members) ++ ascii "\x7d"

def compactItems : List Json → List Bytes
  | [] => []
  | v :: rest => compact v :: compactItems rest

def compactMembers : List (Bytes × Json) → List Bytes
  | [] => []
  | (name, v) :: rest => (quoted name ++ ascii ":" ++ compact v) :: compactMembers rest

end

def lineBreak (level : Nat) : Bytes := 10 :: List.replicate (2 * level) 32

def bracketed (level : Nat) (opening closing : Bytes) : List Bytes → Bytes
  | [] => opening ++ closing
  | parts =>
    opening ++ lineBreak (level + 1) ++ joined (ascii "," ++ lineBreak (level + 1)) parts ++
      lineBreak level ++ closing

mutual

def indented (level : Nat) : Json → Bytes
  | .array items => bracketed level (ascii "[") (ascii "]") (indentedItems (level + 1) items)
  | .object members =>
    bracketed level (ascii "\x7b") (ascii "\x7d") (indentedMembers (level + 1) members)
  | .null => ascii "null"
  | .bool true => ascii "true"
  | .bool false => ascii "false"
  | .number literal => literal
  | .string raw => quoted raw

def indentedItems (level : Nat) : List Json → List Bytes
  | [] => []
  | v :: rest => indented level v :: indentedItems level rest

def indentedMembers (level : Nat) : List (Bytes × Json) → List Bytes
  | [] => []
  | (name, v) :: rest =>
    (quoted name ++ ascii ": " ++ indented level v) :: indentedMembers level rest

end

end GatedNetwork.Json
