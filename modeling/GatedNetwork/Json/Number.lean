import GatedNetwork.Decimal.Layout
import GatedNetwork.Json.Token

/-! Numbers in JSON documents. Digits are collected into a 64-bit number as long as they
fit; what follows is dropped, and the power of ten is applied to the float nearest to the
digits collected. -/

namespace GatedNetwork.Json

def largest : Nat := 0xffffffffffffffff

def digit (b : UInt8) : Nat := b.toNat - 48

/-- The digits collected so far and the power of ten that belongs to them. -/
structure Collected where
  significand : Nat
  exponent : Int
  deriving DecidableEq

/-- Digits before the point. From the first one that does not fit, each only raises the
power of ten. -/
def collectWhole (n : Nat) : Bytes → Collected
  | [] => ⟨n, 0⟩
  | d :: rest =>
    if 10 * n + digit d ≤ largest then collectWhole (10 * n + digit d) rest
    else ⟨n, rest.length + 1⟩

/-- Digits after the point. From the first one that does not fit, all are dropped. -/
def collectFraction (c : Collected) : Bytes → Collected
  | [] => c
  | d :: rest =>
    if 10 * c.significand + digit d ≤ largest then
      collectFraction ⟨10 * c.significand + digit d, c.exponent - 1⟩ rest
    else c

def powerOfTen (n : Nat) : Float := Float.ofScientific 1 false n

/-- Multiplies by a power of ten, or divides by one, in steps that the largest power allows.
A result that is not finite is refused. -/
def scale (x : Float) (e : Int) : Option Float :=
  if e > 308 then
    if x == 0 then some x else none
  else if e ≥ 0 then
    let y := x * powerOfTen e.toNat
    if y.isInf then none else some y
  else if e ≥ -308 then
    some (x / powerOfTen e.natAbs)
  else if x == 0 then some x
  else scale (x / powerOfTen 308) (e + 308)
termination_by e.natAbs
decreasing_by omega

def exponentOf : Bytes → Int
  | 45 :: ds => -(ds.foldl (fun n d => 10 * n + digit d) 0 : Nat)
  | 43 :: ds => (ds.foldl (fun n d => 10 * n + digit d) 0 : Nat)
  | ds => (ds.foldl (fun n d => 10 * n + digit d) 0 : Nat)

def floatOf (literal : Bytes) : Option Float := do
  let (minus, bs) := scanMinus literal
  let (whole, bs) := bs.span isDigit
  let (fraction, exponent) := bs.span fun b => b != 101 && b != 69
  let c := collectFraction (collectWhole 0 whole) (fraction.drop 1)
  let x ← scale c.significand.toUInt64.toFloat (c.exponent + exponentOf (exponent.drop 1))
  return if minus.isEmpty then x else -x

def natOf (literal : Bytes) : Option Nat :=
  if literal.all isDigit then
    let n := literal.foldl (fun n d => 10 * n + digit d) 0
    if n ≤ largest then some n else none
  else none

/-- Numbers have a point or an exponent; exponents are written below `10^-5` and from
`10^16` on. -/
def style : Decimal.Style where
  plain := some (-5, 15)
  pointZero := true
  plusSign := true
  tie := .toEven

def float (x : Float) : Json :=
  if x.isFinite then .number ((style.finite x).map Char.toUInt8) else .null

end GatedNetwork.Json
