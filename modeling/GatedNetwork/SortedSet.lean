import GatedNetwork.SortedMap

/-! Sets kept as ascending lists: the key column of a sorted table. -/

namespace GatedNetwork

structure SortedSet (κ : Type) [Ord κ] where
  members : SortedMap κ Unit

namespace SortedSet

variable {κ : Type} [Ord κ]

def empty : SortedSet κ := ⟨∅⟩

instance : EmptyCollection (SortedSet κ) := ⟨empty⟩

instance : Inhabited (SortedSet κ) := ⟨empty⟩

def contains (s : SortedSet κ) (k : κ) : Bool := s.members.contains k

def insert [Std.TransOrd κ] (s : SortedSet κ) (k : κ) : SortedSet κ :=
  ⟨s.members.insert k ()⟩

def erase (s : SortedSet κ) (k : κ) : SortedSet κ := ⟨s.members.erase k⟩

def toList (s : SortedSet κ) : List κ := s.members.keys

def toMap {ν : Type} (s : SortedSet κ) (v : ν) : SortedMap κ ν :=
  s.members.mapValues (fun _ _ => v)

end SortedSet

end GatedNetwork
