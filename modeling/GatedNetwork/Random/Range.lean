import GatedNetwork.Random.Stream

/-! Ranges of floats and uniform draws from them. -/

namespace GatedNetwork

structure Range where
  lo : Float
  hi : Float
  deriving Inhabited

namespace Range

def symmetric (x : Float) : Range := ⟨-x, x⟩

def isValid (r : Range) : Bool :=
  r.lo.isFinite && r.hi.isFinite && !(r.lo > r.hi)

def unitFloat (w : UInt64) : Float :=
  Float.ofBits (w >>> 12 ||| 0x3ff0000000000000) - 1

def drawScaled (lo hi scale : Float) : Nat → Draw Float
  | 0 => return lo
  | k + 1 => do
    let x := unitFloat (← Draw.word64) * scale + lo
    if x < hi then return x else drawScaled lo hi scale k

/-- A float from `lo` up to but not including `hi`. An empty range gives its lower bound
without reading from the stream. -/
def draw (r : Range) : Draw Float :=
  if r.hi > r.lo then
    let scale := r.hi - r.lo
    if scale.isFinite then drawScaled r.lo r.hi scale Draw.attempts
    else throw .unboundedRange
  else
    return r.lo

end Range

end GatedNetwork
