import GatedNetwork.Decimal.Shortest

/-! Writing floats as decimal text: where the point stands, when an exponent is used, and
how many places are written when their number is fixed. -/

namespace GatedNetwork.Decimal

structure Style where
  /-- The powers of ten of the first digit, from the first to the second, for which no
  exponent is written; without bounds, none ever is. -/
  plain : Option (Int × Int)
  pointZero : Bool
  plusSign : Bool
  tie : Tie

def zeros (n : Int) : List Char := List.replicate n.toNat '0'

def Style.positional (s : Style) (d : Digits) : List Char :=
  if d.leading < 0 then
    '0' :: '.' :: zeros (-d.leading - 1) ++ d.digits
  else
    let whole := d.leading.toNat + 1
    if d.digits.length ≤ whole then
      d.digits ++ zeros (whole - d.digits.length) ++ if s.pointZero then ['.', '0'] else []
    else
      d.digits.take whole ++ '.' :: d.digits.drop whole

def Style.scientific (s : Style) (d : Digits) : List Char :=
  let mantissa := match d.digits with
    | first :: second :: rest => first :: '.' :: second :: rest
    | few => few
  let sign := if d.leading < 0 then ['-'] else if s.plusSign then ['+'] else []
  mantissa ++ 'e' :: sign ++ Nat.toDigits 10 d.leading.natAbs

def Style.isPlain (s : Style) (d : Digits) : Bool :=
  match s.plain with
  | some (low, high) => low ≤ d.leading && d.leading ≤ high
  | none => true

def sign (x : Float) : List Char := if isNegative x then ['-'] else []

def Style.finite (s : Style) (x : Float) : List Char :=
  sign x ++
    if x == 0 then if s.pointZero then ['0', '.', '0'] else ['0']
    else
      let d := Digits.ofFloat x s.tie
      if s.isPlain d then s.positional d else s.scientific d

def Style.text (s : Style) (x : Float) : String :=
  if isNaN x then "NaN"
  else if x.isInf then String.ofList (sign x) ++ "inf"
  else String.ofList (s.finite x)

def bare : Style where
  plain := none
  pointZero := false
  plusSign := false
  tie := .up

/-- Points always, and exponents for numbers below `10^-4` and from `10^16` on. -/
def pointed : Style where
  plain := some (-4, 15)
  pointZero := true
  plusSign := false
  tie := .up

def roundQuotient (num den : Nat) : Nat :=
  let below := num / den
  match compare (2 * (num % den)) den with
  | .lt => below
  | .gt => below + 1
  | .eq => if below % 2 = 0 then below else below + 1

def fixed (places : Nat) (x : Float) : String :=
  let (num, den) := (Binary.ofBits x.toBits).onGrid (-places)
  let digits := Nat.toDigits 10 (roundQuotient num den)
  let padded := List.replicate (places + 1 - digits.length) '0' ++ digits
  let whole := padded.length - places
  String.ofList (sign x ++ padded.take whole ++ '.' :: padded.drop whole)

end GatedNetwork.Decimal
