import GatedNetwork.Squash

/-! The instructions of a compiled network. They are written over any kind of address, so
that a listing over keys and a program over memory slots share one meaning. -/

namespace GatedNetwork

inductive Instruction (α : Type) where
  | zero (dst : α)
  | copy (dst src : α)
  | add (dst a b : α)
  | sub (dst a b : α)
  | mul (dst a b : α)
  | mulAcc (dst a b : α)
  | mulAcc3 (dst a b c : α)
  /-- Sets `dst` to `gain * weight * src + offset`. -/
  | recur (dst gain weight src offset : α)
  /-- Sets `dst` to `gain * weight * dst + a * b`. -/
  | trace (dst gain weight a b : α)
  /-- Sets `dst` to `gain * weight * dst + a * b * c`. -/
  | extended (dst gain weight a b c : α)
  | squash (kind : Squash) (state activation derivative : α)
  deriving DecidableEq

abbrev Block (α : Type) := List (Instruction α)

namespace Instruction

variable {α β : Type}

def effect (read : α → Float) : Instruction α → List (α × Float)
  | .zero dst => [(dst, 0)]
  | .copy dst src => [(dst, read src)]
  | .add dst a b => [(dst, read a + read b)]
  | .sub dst a b => [(dst, read a - read b)]
  | .mul dst a b => [(dst, read a * read b)]
  | .mulAcc dst a b => [(dst, read dst + read a * read b)]
  | .mulAcc3 dst a b c => [(dst, read dst + read a * read b * read c)]
  | .recur dst gain weight src offset =>
    [(dst, read gain * read weight * read src + read offset)]
  | .trace dst gain weight a b =>
    [(dst, read gain * read weight * read dst + read a * read b)]
  | .extended dst gain weight a b c =>
    [(dst, read gain * read weight * read dst + read a * read b * read c)]
  | .squash kind state activation derivative =>
    let (y, dy) := kind.eval (read state)
    [(activation, y), (derivative, dy)]

def operands : Instruction α → List α
  | .zero dst => [dst]
  | .copy dst src => [dst, src]
  | .add dst a b | .sub dst a b | .mul dst a b | .mulAcc dst a b => [dst, a, b]
  | .mulAcc3 dst a b c => [dst, a, b, c]
  | .recur dst gain weight src offset => [dst, gain, weight, src, offset]
  | .trace dst gain weight a b => [dst, gain, weight, a, b]
  | .extended dst gain weight a b c => [dst, gain, weight, a, b, c]
  | .squash _ state activation derivative => [state, activation, derivative]

def map (f : α → β) : Instruction α → Instruction β
  | .zero dst => .zero (f dst)
  | .copy dst src => .copy (f dst) (f src)
  | .add dst a b => .add (f dst) (f a) (f b)
  | .sub dst a b => .sub (f dst) (f a) (f b)
  | .mul dst a b => .mul (f dst) (f a) (f b)
  | .mulAcc dst a b => .mulAcc (f dst) (f a) (f b)
  | .mulAcc3 dst a b c => .mulAcc3 (f dst) (f a) (f b) (f c)
  | .recur dst gain weight src offset => .recur (f dst) (f gain) (f weight) (f src) (f offset)
  | .trace dst gain weight a b => .trace (f dst) (f gain) (f weight) (f a) (f b)
  | .extended dst gain weight a b c =>
    .extended (f dst) (f gain) (f weight) (f a) (f b) (f c)
  | .squash kind state activation derivative =>
    .squash kind (f state) (f activation) (f derivative)

end Instruction

end GatedNetwork
