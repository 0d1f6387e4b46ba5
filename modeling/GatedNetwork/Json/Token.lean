import GatedNetwork.Json.Basic

/-! The tokens of a JSON document. Only the form of a token is checked here: the bytes of
a string may be anything but controls, and any digits may follow its escapes. -/

namespace GatedNetwork.Json

inductive Token where
  | openArray
  | closeArray
  | openObject
  | closeObject
  | colon
  | comma
  | scalar (v : Json)

def isBlank (b : UInt8) : Bool := b == 32 || b == 9 || b == 10 || b == 13

def isDigit (b : UInt8) : Bool := 48 ≤ b && b ≤ 57

def isHexDigit (b : UInt8) : Bool :=
  isDigit b || (97 ≤ b && b ≤ 102) || (65 ≤ b && b ≤ 70)

def isEscapeLetter (b : UInt8) : Bool :=
  b == 34 || b == 92 || b == 47 || b == 98 || b == 102 || b == 110 || b == 114 || b == 116

def scanString (seen : Bytes) : Bytes → Option (Bytes × Bytes)
  | [] => none
  | 34 :: rest => some (seen.reverse, rest)
  | 92 :: 117 :: a :: b :: c :: d :: rest =>
    if [a, b, c, d].all isHexDigit then scanString (d :: c :: b :: a :: 117 :: 92 :: seen) rest
    else none
  | 92 :: e :: rest =>
    if isEscapeLetter e then scanString (e :: 92 :: seen) rest else none
  | b :: rest => if b < 32 || b == 92 then none else scanString (b :: seen) rest

def scanDigits (bs : Bytes) : Option (Bytes × Bytes) :=
  match bs.span isDigit with
  | ([], _) => none
  | found => some found

def scanFraction : Bytes → Option (Bytes × Bytes)
  | 46 :: rest => (scanDigits rest).map fun (ds, rest) => (46 :: ds, rest)
  | bs => some ([], bs)

def scanExponent : Bytes → Option (Bytes × Bytes)
  | [] => some ([], [])
  | e :: rest =>
    if e == 101 || e == 69 then
      match rest with
      | [] => none
      | s :: digits =>
        if s == 43 || s == 45 then (scanDigits digits).map fun (ds, rest) => (e :: s :: ds, rest)
        else (scanDigits rest).map fun (ds, rest) => (e :: ds, rest)
    else some ([], e :: rest)

/-- One zero, or digits that do not begin with a zero. -/
def scanWhole : Bytes → Option (Bytes × Bytes)
  | 48 :: rest => some ([48], rest)
  | bs => scanDigits bs

def scanMinus : Bytes → Bytes × Bytes
  | 45 :: rest => ([45], rest)
  | bs => ([], bs)

def scanNumber (bs : Bytes) : Option (Bytes × Bytes) := do
  let (minus, bs) := scanMinus bs
  let (whole, bs) ← scanWhole bs
  let (fraction, bs) ← scanFraction bs
  let (exponent, bs) ← scanExponent bs
  return (minus ++ whole ++ fraction ++ exponent, bs)

def scanToken (first : UInt8) (rest : Bytes) : Option (Token × Bytes) :=
  match first, rest with
  | 91, rest => some (.openArray, rest)
  | 93, rest => some (.closeArray, rest)
  | 123, rest => some (.openObject, rest)
  | 125, rest => some (.closeObject, rest)
  | 58, rest => some (.colon, rest)
  | 44, rest => some (.comma, rest)
  | 34, rest => (scanString [] rest).map fun (raw, rest) => (.scalar (.string raw), rest)
  | 110, 117 :: 108 :: 108 :: rest => some (.scalar .null, rest)
  | 116, 114 :: 117 :: 101 :: rest => some (.scalar (.bool true), rest)
  | 102, 97 :: 108 :: 115 :: 101 :: rest => some (.scalar (.bool false), rest)
  | b, rest => (scanNumber (b :: rest)).map fun (literal, rest) => (.scalar (.number literal), rest)

/-- Every token takes at least one byte, so `fuel` is at most the number of bytes. -/
def scanAll : Nat → List Token → Bytes → Option (List Token)
  | _, seen, [] => some seen.reverse
  | 0, _, _ :: _ => none
  | fuel + 1, seen, b :: rest =>
    if isBlank b then scanAll fuel seen rest
    else
      match scanToken b rest with
      | none => none
      | some (t, rest) => scanAll fuel (t :: seen) rest

def tokens (bs : Bytes) : Option (List Token) := scanAll bs.length [] bs

end GatedNetwork.Json
