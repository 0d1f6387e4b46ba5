import GatedNetwork.Json.Token

/-! Reading JSON documents. The reader goes through the tokens once and keeps the arrays
and objects that are still open on a stack, so documents may be nested to any depth. -/

namespace GatedNetwork.Json

/-- An array or object that is not closed yet, with what it holds so far, last first. -/
inductive Frame where
  | items (seen : List Json)
  | members (seen : List (Bytes × Json))
  | member (name : Bytes) (seen : List (Bytes × Json))

inductive Expected where
  | value
  | valueOrClose
  | name
  | nameOrClose
  | colon
  | afterValue (v : Json)

structure Reader where
  stack : List Frame := []
  expected : Expected := .value

namespace Reader

def begin (stack : List Frame) : Token → Option Reader
  | .openArray => some ⟨.items [] :: stack, .valueOrClose⟩
  | .openObject => some ⟨.members [] :: stack, .nameOrClose⟩
  | .scalar v => some ⟨stack, .afterValue v⟩
  | _ => none

def beginMember : List Frame → Token → Option Reader
  | .members seen :: stack, .scalar (.string name) => some ⟨.member name seen :: stack, .colon⟩
  | _, _ => none

def goOn (v : Json) : List Frame → Token → Option Reader
  | .items seen :: stack, .comma => some ⟨.items (v :: seen) :: stack, .value⟩
  | .items seen :: stack, .closeArray => some ⟨stack, .afterValue (.array (v :: seen).reverse)⟩
  | .member name seen :: stack, .comma => some ⟨.members ((name, v) :: seen) :: stack, .name⟩
  | .member name seen :: stack, .closeObject =>
    some ⟨stack, .afterValue (.object ((name, v) :: seen).reverse)⟩
  | _, _ => none

def step (r : Reader) (t : Token) : Option Reader :=
  match r.expected, t, r.stack with
  | .valueOrClose, .closeArray, .items _ :: stack => some ⟨stack, .afterValue (.array [])⟩
  | .nameOrClose, .closeObject, .members _ :: stack => some ⟨stack, .afterValue (.object [])⟩
  | .value, t, stack | .valueOrClose, t, stack => begin stack t
  | .name, t, stack | .nameOrClose, t, stack => beginMember stack t
  | .colon, .colon, stack => some ⟨stack, .value⟩
  | .colon, _, _ => none
  | .afterValue v, t, stack => goOn v stack t

def result : Reader → Option Json
  | ⟨[], .afterValue v⟩ => some v
  | _ => none

end Reader

def read (bs : Bytes) : Option Json := do
  let ts ← tokens bs
  (← ts.foldlM Reader.step {}).result

end GatedNetwork.Json
