/-! Floats as exact numbers `m * 2^q`, and the decimals that read back to them. -/

namespace GatedNetwork.Decimal

/-- A finite float without its sign, as `m * 2^q`. -/
structure Binary where
  m : Nat
  q : Int
  /-- The gap to the float below is half the gap to the float above. -/
  narrowBelow : Bool
  deriving DecidableEq

namespace Binary

def ofBits (b : UInt64) : Binary :=
  let exponent := (b >>> 52 &&& 0x7ff).toNat
  let fraction := (b &&& 0xfffffffffffff).toNat
  if exponent = 0 then ⟨fraction, -1074, false⟩
  else ⟨0x10000000000000 + fraction, exponent - 1075, fraction == 0 && exponent > 1⟩

end Binary

def isNegative (x : Float) : Bool := x.toBits >>> 63 == 1

def isNaN (x : Float) : Bool := !(x == x)

def power (base : Nat) (e : Int) : Nat := Nat.pow base e.toNat

def compareScaled (a : Nat) (i : Int) (n : Nat) (j : Int) : Ordering :=
  compare (a * power 10 i * power 2 (-j)) (n * power 2 j * power 10 (-i))

/-- The reals that round to a float lie between the points halfway to its neighbours; the
points themselves belong to it when `m` is even. Tests whether `digits * 10^exponent` is
one of them. -/
def Binary.readsBack (x : Binary) (digits : Nat) (exponent : Int) : Bool :=
  let low := if x.narrowBelow then 4 * x.m - 1 else 4 * x.m - 2
  let fits (o inside : Ordering) : Bool := o == inside || (x.m % 2 == 0 && o == .eq)
  fits (compareScaled digits exponent low (x.q - 2)) .gt &&
    fits (compareScaled digits exponent (4 * x.m + 2) (x.q - 2)) .lt

end GatedNetwork.Decimal
