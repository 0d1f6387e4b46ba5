import GatedNetwork.Decimal.Binary

/-! The shortest decimal that reads back to a float. The grids of decimals with one, two,
three and more digits are tried in turn; on each, only the two neighbours of the float
have to be tested. -/

namespace GatedNetwork.Decimal

inductive Tie where
  | toEven
  | up
  deriving DecidableEq

/-- The digits of a number, without zeros at either end, and the power of ten of the first
digit. -/
structure Digits where
  digits : List Char
  leading : Int
  deriving DecidableEq

namespace Binary

def onGrid (x : Binary) (g : Int) : Nat × Nat :=
  (x.m * power 2 x.q * power 10 (-g), power 2 (-x.q) * power 10 g)

/-- The least `k` such that the number is below `10^k`. The search starts from an estimate
by the binary logarithm that is never too large. -/
def magnitude (x : Binary) : Int :=
  let estimate : Int := ((x.m.log2 : Int) + x.q) * 30103 / 100000 - 1
  let below (k : Int) : Bool := compareScaled 1 k x.m x.q == .gt
  match (List.range 5).find? fun (i : Nat) => below (estimate + i) with
  | some i => estimate + i
  | none => estimate + 5

/-- A neighbour on the grid of multiples of `10^g` that reads back, the nearer one if both
do. -/
def neighbour? (x : Binary) (tie : Tie) (g : Int) : Option Nat :=
  let (num, den) := x.onGrid g
  let below := num / den
  match x.readsBack below g, x.readsBack (below + 1) g with
  | false, false => none
  | true, false => some below
  | false, true => some (below + 1)
  | true, true =>
    match compare (2 * (num % den)) den, tie with
    | .lt, _ => some below
    | .gt, _ => some (below + 1)
    | .eq, .up => some (below + 1)
    | .eq, .toEven => some (if below % 2 = 0 then below else below + 1)

/-- Seventeen digits always suffice. -/
def shortest (x : Binary) (tie : Tie) : Nat × Int :=
  let k := x.magnitude
  let tried := (List.range 17).findSome? fun (i : Nat) =>
    let g := k - 1 - i
    (x.neighbour? tie g).map (·, g)
  tried.getD (x.m * power 2 x.q * power 5 (-x.q), min x.q 0)

end Binary

def Digits.ofScaled (n : Nat) (g : Int) : Digits :=
  let all := Nat.toDigits 10 n
  ⟨(all.reverse.dropWhile (· == '0')).reverse, all.length - 1 + g⟩

def Digits.ofFloat (x : Float) (tie : Tie) : Digits :=
  let (n, g) := (Binary.ofBits x.toBits).shortest tie
  .ofScaled n g

end GatedNetwork.Decimal
