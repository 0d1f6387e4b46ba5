import GatedNetwork.SortedSet
import GatedNetwork.Squash

/-! Neurons and the connections between them. A neuron lists its connections by their
endpoints; the connection from a neuron to itself is kept inside the neuron. -/

namespace GatedNetwork

abbrev NeuronId := Nat

/-- An ordered pair of endpoints. There is at most one connection for each pair. -/
structure ConnectionId where
  source : NeuronId
  target : NeuronId
  deriving DecidableEq, Hashable, Inhabited

namespace ConnectionId

def order : ConnectionId → ConnectionId → Ordering :=
  compareLex (compareOn source) (compareOn target)

instance : Ord ConnectionId := ⟨order⟩

instance : Std.TransOrd ConnectionId :=
  inferInstanceAs (Std.TransCmp (compareLex (compareOn source) (compareOn target)))

instance : Std.LawfulEqOrd ConnectionId where
  eq_of_compare {a b} h := by
    have h : (compare a.source b.source).then (compare a.target b.target) = .eq := h
    obtain ⟨hs, ht⟩ := Ordering.then_eq_eq.mp h
    cases a; cases b
    simp_all

def isSelf (c : ConnectionId) : Bool := c.source == c.target

def loop (n : NeuronId) : ConnectionId := ⟨n, n⟩

def name (c : ConnectionId) : String :=
  toString c.source ++ "_" ++ toString c.target

end ConnectionId

structure Connection where
  weight : Float
  /-- Driven by the activation of the gater; 1 while there is none. -/
  gain : Float := 1
  gater : Option NeuronId := none
  deriving Inhabited

def Connection.clear (c : Connection) : Connection :=
  if c.gater.isSome then { c with gain := 1 } else c

structure Trace where
  eligibility : SortedMap ConnectionId Float := ∅
  /-- For each neuron with an incoming connection that this neuron gates, one entry for
  each input connection of this neuron. -/
  extended : SortedMap NeuronId (SortedMap ConnectionId Float) := ∅
  /-- How much this neuron's activation moves the state of each such neuron. -/
  influences : SortedMap NeuronId Float := ∅
  deriving Inhabited

def Trace.clear (t : Trace) : Trace where
  eligibility := t.eligibility.mapValues (fun _ _ => 0)
  extended := t.extended.mapValues (fun _ row => row.mapValues (fun _ _ => 0))
  influences := t.influences.mapValues (fun _ _ => 0)

def Trace.eligibilityOf (t : Trace) (c : ConnectionId) : Float :=
  (t.eligibility.get? c).getD 0

def Trace.extendedOf (t : Trace) (k : NeuronId) (c : ConnectionId) : Float :=
  ((t.extended.get? k).bind (·.get? c)).getD 0

def Trace.influenceOf (t : Trace) (k : NeuronId) : Float :=
  (t.influences.get? k).getD 0

structure ErrorTerms where
  responsibility : Float := 0
  projected : Float := 0
  gated : Float := 0
  deriving Inhabited

structure Neuron where
  squash : Squash
  bias : Float
  activation : Float := 0
  state : Float := 0
  old : Float := 0
  derivative : Float := 0
  inputs : SortedSet ConnectionId := ∅
  projected : SortedSet ConnectionId := ∅
  gated : SortedSet ConnectionId := ∅
  /-- Always present; it takes part in the network only while `selfConnected` holds. -/
  selfConnection : Connection := { weight := 0 }
  selfConnected : Bool := false
  trace : Trace := {}
  error : ErrorTerms := {}
  deriving Inhabited

def Neuron.clear (n : Neuron) : Neuron :=
  { n with
    activation := 0
    state := 0
    old := 0
    derivative := 0
    trace := n.trace.clear
    error := {} }

end GatedNetwork
