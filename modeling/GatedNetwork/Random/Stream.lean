import GatedNetwork.Error.Basic
import GatedNetwork.Random.ChaCha

/-! Random streams: the words of all blocks of a key, read in order. A stream is known by
its key and by how many words have been read. -/

namespace GatedNetwork

structure RandomStream where
  key : ChaCha.Key
  position : Nat := 0
  deriving DecidableEq

namespace RandomStream

def stretch (s : UInt64) : UInt64 := s * 6364136223846793005 + 11634580027462260723

def keyWord (s : UInt64) : UInt32 :=
  ChaCha.rotateRight (((s >>> 18) ^^^ s) >>> 27).toUInt32 (s >>> 59).toUInt32

def ofSeed (seed : UInt64) : RandomStream where
  key := Vector.ofFn fun i => keyWord (Nat.repeat stretch (i + 1) seed)

instance : Inhabited RandomStream := ⟨ofSeed 0⟩

def head (r : RandomStream) : UInt32 :=
  (ChaCha.block r.key (r.position / 16))[r.position % 16]

def advance (r : RandomStream) : RandomStream := { r with position := r.position + 1 }

end RandomStream

abbrev Draw := EStateM NetworkError RandomStream

namespace Draw

def word32 : Draw UInt32 := modifyGet fun r => (r.head, r.advance)

def word64 : Draw UInt64 := do
  let low ← word32
  let high ← word32
  return high.toUInt64 <<< 32 ||| low.toUInt64

def coin : Draw Bool := return (← word64) < 0x8000000000000000

/-- How often a draw that falls outside its range is repeated. At least half of all words
fall inside, so the limit is not met in practice. -/
def attempts : Nat := 1024

/-- Scales a word to a number below `n`, and repeats the draw while the word lies in the
part of the word range that would make some numbers likelier than others. -/
def scaled (bits n : Nat) (word : Draw Nat) : Nat → Draw Nat
  | 0 => return 0
  | k + 1 => do
    let product := (← word) * n
    let zone := (n <<< (bits - 1 - n.log2)) - 1
    if product % (1 <<< bits) ≤ zone then return product >>> bits
    else scaled bits n word k

def below32 (n : Nat) : Draw Nat :=
  scaled 32 n (return (← word32).toNat) attempts

def below64 (n : Nat) : Draw Nat :=
  scaled 64 n (return (← word64).toNat) attempts

/-- A member of a list; nothing is read from the stream for the empty list. -/
def choose {α : Type} : List α → Draw (Option α)
  | [] => return none
  | xs => return xs[← below32 xs.length]?

def choosePair (n : Nat) : Draw (Nat × Nat) := do
  let first ← below32 (n - 1)
  let second ← below32 n
  return if second = first then (n - 1, first) else (first, second)

end Draw

end GatedNetwork
