import GatedNetwork.Program.Instruction
import GatedNetwork.Program.SlotTable

/-! Compiled networks: one block of memory that holds every number of the network, and
lists of instructions over its slots. Running a program looks at no graph. -/

namespace GatedNetwork

abbrev Memory := Array Float

namespace Memory

def read (m : Memory) (s : Slot) : Float := m.getD s 0

def store (m : Memory) (s : Slot) (x : Float) : Memory := m.setIfInBounds s x

def storeAll (m : Memory) (writes : List (Slot × Float)) : Memory :=
  writes.foldl (fun m (s, x) => m.store s x) m

def step (m : Memory) (i : Instruction Slot) : Memory := m.storeAll (i.effect m.read)

def run (m : Memory) (b : Block Slot) : Memory := b.foldl step m

end Memory

/-- The blocks of a program by layer and neuron. Activation and trace blocks stand in the
order of the forward pass, propagation blocks in that of the backward pass. -/
structure Code (α : Type) where
  activation : List (List (Block α))
  trace : List (List (Block α))
  propagation : List (List (Block α))
  deriving DecidableEq

structure Program where
  table : SlotTable
  memory : Memory
  code : Code Slot
  inputs : List Slot
  outputs : List Slot
  targets : List Slot
  rate : Slot
  neurons : List NeuronId

namespace Program

def value? (p : Program) (k : Key) : Option Float :=
  (p.table.slot? k).map p.memory.read

/-- The current value of a key, or the one that the graph holds. -/
def live (p : Program) (k : Key) (held : Float) : Float := (p.value? k).getD held

def instructionCount (p : Program) : Nat :=
  let count (layers : List (List (Block Slot))) : Nat := layers.flatten.flatten.length
  count p.code.activation + count p.code.trace + count p.code.propagation

def forward (c : Code Slot) (m : Memory) : Memory :=
  (c.activation.zip c.trace).foldl (fun m (blocks, traces) =>
    (blocks.zip traces).foldl (fun m (block, trace) => (m.run block).run trace) m) m

def backward (c : Code Slot) (m : Memory) : Memory :=
  c.propagation.foldl (fun m blocks => blocks.foldl Memory.run m) m

def activate (input : List Float) : EStateM NetworkError Program (List Float) := do
  let p ← get
  unless input.length = p.inputs.length do
    throw (.inputSize p.inputs.length input.length)
  modify fun p =>
    { p with memory := forward p.code (p.memory.storeAll (p.inputs.zip input)) }
  return p.outputs.map (← get).memory.read

def validRate (rate : Float) : Bool := rate.isFinite && !(rate ≤ 0)

def propagate (rate : Float) (target : List Float) : EStateM NetworkError Program Unit := do
  let p ← get
  unless validRate rate do
    throw (.invalidRate rate)
  unless target.length = p.targets.length do
    throw (.targetSize p.targets.length target.length)
  modify fun p =>
    let memory := (p.memory.store p.rate rate).storeAll (p.targets.zip target)
    { p with memory := backward p.code memory }

end Program

end GatedNetwork
