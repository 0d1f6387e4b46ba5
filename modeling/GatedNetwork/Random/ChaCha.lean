/-! The ChaCha block function with twelve rounds, as a source of random words. A block is
a function of the key and of its number. -/

namespace GatedNetwork.ChaCha

abbrev Key := Vector UInt32 8

abbrev Block := Vector UInt32 16

def rotateLeft (x k : UInt32) : UInt32 := x <<< k ||| x >>> (32 - k)

def rotateRight (x k : UInt32) : UInt32 := x >>> k ||| x <<< (32 - k)

def mix (v : Block) (sum addend into : Fin 16) (k : UInt32) : Block :=
  let v := v.set sum (v[sum] + v[addend])
  v.set into (rotateLeft (v[into] ^^^ v[sum]) k)

def quarterRound (v : Block) (a b c d : Fin 16) : Block :=
  let v := mix v a b d 16
  let v := mix v c d b 12
  let v := mix v a b d 8
  mix v c d b 7

def doubleRound (v : Block) : Block :=
  let v := quarterRound v 0 4 8 12
  let v := quarterRound v 1 5 9 13
  let v := quarterRound v 2 6 10 14
  let v := quarterRound v 3 7 11 15
  let v := quarterRound v 0 5 10 15
  let v := quarterRound v 1 6 11 12
  let v := quarterRound v 2 7 8 13
  quarterRound v 3 4 9 14

def initial (key : Key) (number : Nat) : Block :=
  #v[0x61707865, 0x3320646e, 0x79622d32, 0x6b206574,
    key[0], key[1], key[2], key[3], key[4], key[5], key[6], key[7],
    UInt32.ofNat number, UInt32.ofNat (number / 0x100000000), 0, 0]

def block (key : Key) (number : Nat) : Block :=
  let start := initial key number
  let worked := Nat.repeat doubleRound 6 start
  Vector.zipWith (· + ·) worked start

end GatedNetwork.ChaCha
