import Std.Data.HashMap
import GatedNetwork.Program.Key

/-! The memory layout of a program: which key has which slot. A key gets the next slot
when it is first asked for, and no key has two. -/

namespace GatedNetwork

abbrev Slot := Nat

structure Variable where
  key : Key
  start : Float
  deriving Inhabited

/-- The variable at position `s` has slot `s`. -/
structure SlotTable where
  entries : Array Variable
  index : Std.HashMap Key Slot
  indexed : ∀ (k : Key) (s : Slot),
    index[k]? = some s ↔ (entries[s]?).map Variable.key = some k

namespace SlotTable

def empty : SlotTable where
  entries := #[]
  index := ∅
  indexed := by simp

instance : Inhabited SlotTable := ⟨empty⟩

def slot? (t : SlotTable) (k : Key) : Option Slot := t.index[k]?

theorem lt_size_of_slot? {t : SlotTable} {k : Key} {s : Slot} (h : t.slot? k = some s) :
    s < t.entries.size := by
  have h := (t.indexed k s).mp h
  obtain ⟨v, hv, -⟩ := Option.map_eq_some_iff.mp h
  exact (Array.getElem?_eq_some_iff.mp hv).1

def push (t : SlotTable) (k : Key) (start : Float) (fresh : t.slot? k = none) : SlotTable where
  entries := t.entries.push ⟨k, start⟩
  index := t.index.insert k t.entries.size
  indexed k' s := by
    have old := t.indexed k' s
    rw [Std.HashMap.getElem?_insert, Array.getElem?_push]
    by_cases hk : k = k'
    · subst hk
      by_cases hs : s = t.entries.size
      · simp [hs]
      · simp only [beq_self_eq_true, ↓reduceIte, Option.some.injEq, if_neg hs, ← old]
        simp only [slot?] at fresh
        simp [fresh, Ne.symm hs]
    · by_cases hs : s = t.entries.size
      · subst hs
        have absent : t.index[k']? ≠ some t.entries.size := fun h =>
          Nat.lt_irrefl _ (lt_size_of_slot? (t := t) (k := k') h)
        simp [hk, absent]
      · simp [hs, hk, old]

def reserve (g : Graph) (t : SlotTable) (k : Key) : Except NetworkError SlotTable :=
  match h : t.slot? k with
  | some _ => .ok t
  | none => (g.value k).map fun start => t.push k start h

def slot (t : SlotTable) (k : Key) : Slot := (t.slot? k).getD 0

end SlotTable

end GatedNetwork
