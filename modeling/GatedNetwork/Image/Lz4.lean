import GatedNetwork.Error.Basic
import GatedNetwork.Json.Basic

/-! Blocks of compressed bytes. A block is a list of sequences; a sequence copies bytes
from the block, then repeats bytes that were produced before. The last one only copies. -/

namespace GatedNetwork.Lz4

def readMore (n : Nat) : Bytes → Option (Nat × Bytes)
  | [] => none
  | b :: rest => if b = 255 then readMore (n + 255) rest else some (n + b.toNat, rest)

def readLength (bits : Nat) (bs : Bytes) : Option (Nat × Bytes) :=
  if bits = 15 then readMore 15 bs else some (bits, bs)

def copyNext (out : Array UInt8) : Nat → Bytes → Option (Array UInt8 × Bytes)
  | 0, bs => some (out, bs)
  | _ + 1, [] => none
  | n + 1, b :: rest => copyNext (out.push b) n rest

/-- Repeats `n` bytes that start `offset` before the end of the output. Bytes that are
written on the way can be repeated again. -/
def repeatBack (offset : Nat) : Nat → Array UInt8 → Array UInt8
  | 0, out => out
  | n + 1, out => repeatBack offset n (out.push (out.getD (out.size - offset) 0))

def sequence (limit : Nat) (out : Array UInt8) (token : UInt8) (bs : Bytes) :
    Option (Array UInt8 × Option Bytes) := do
  let (count, bs) ← readLength (token.toNat / 16) bs
  guard (out.size + count ≤ limit)
  let (out, bs) ← copyNext out count bs
  match bs with
  | [] => return (out, none)
  | [_] => none
  | low :: high :: bs =>
    let offset := low.toNat + 256 * high.toNat
    let (bits, bs) ← readLength (token.toNat % 16) bs
    guard (0 < offset ∧ offset ≤ out.size ∧ out.size + (bits + 4) ≤ limit)
    return (repeatBack offset (bits + 4) out, some bs)

def sequences (limit : Nat) : Nat → Array UInt8 → Bytes → Option (Array UInt8)
  | 0, _, _ => none
  | _ + 1, _, [] => none
  | fuel + 1, out, token :: bs =>
    match sequence limit out token bs with
    | none => none
    | some (out, none) => some out
    | some (out, some bs) => sequences limit fuel out bs

def decompress (bs : Bytes) (limit : Nat) : Except ImageFault Bytes :=
  match sequences limit bs.length #[] bs with
  | some out => .ok out.toList
  | none => .error .undecodable

def moreBytes (n : Nat) : Bytes := List.replicate (n / 255) 255 ++ [UInt8.ofNat (n % 255)]

/-- A block with a single sequence, which copies everything. -/
def compress (bs : Bytes) : Bytes :=
  if bs.length < 15 then UInt8.ofNat (16 * bs.length) :: bs
  else 240 :: moreBytes (bs.length - 15) ++ bs

end GatedNetwork.Lz4
