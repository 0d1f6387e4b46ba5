import GatedNetwork.Proofs.Session.Twins

/-! Compilation is not observed. Runs that differ in how networks are run, and in when they are
compiled and restored, give the same answers and leave the same numbers. -/

namespace GatedNetwork

def World.settled (w : World) : World :=
  { w with networks := w.networks.map fun net => net.settled.withMode .graph }

theorem Network.Twins.settled_eq {bound : NeuronId} {a b : Network} (h : Network.Twins bound a b) :
    a.settled.withMode .graph = b.settled.withMode .graph := by
  obtain ⟨net, mode, sound, ha, hb⟩ := h
  rw [settled, settled, ha.restore_run sound, hb.restore_run (sound.withMode mode)]
  rfl

theorem World.Twins.settled_eq {w w' : World} (h : w.Twins w') : w.settled = w'.settled := by
  have networks_eq : w.networks.map (fun net => net.settled.withMode .graph) =
      w'.networks.map fun net => net.settled.withMode .graph := by
    rw [← List.forall₂_eq_eq_eq, List.forall₂_map_left_iff, List.forall₂_map_right_iff]
    exact h.2.imp fun _ _ twins => twins.settled_eq
  rw [settled, settled, networks_eq, h.1]

/-- Two runs that are the same but for calls of `optimize`, `restore` and `setOptimize` and for the
modes in which networks are made. -/
theorem World.runs_unobserved {cs ds : List Request}
    (h : cs.filterMap Request.plain = ds.filterMap Request.plain) :
    ({} : World).replies cs = ({} : World).replies ds ∧
      (({} : World).run cs).settled = (({} : World).run ds).settled := by
  obtain ⟨replies_cs, twins_cs⟩ := Twins.empty.run cs
  obtain ⟨replies_ds, twins_ds⟩ := Twins.empty.run ds
  rw [replies_cs, replies_ds, twins_cs.settled_eq, twins_ds.settled_eq, h]
  exact ⟨rfl, rfl⟩

theorem World.runs_unobserved_trained :
    ({} : World).replies [.new 1 [] 1 { mode := .flat }, .call 0 .optimize,
        .call 0 (.activate [1]), .call 0 (.propagate 0.5 [0]), .call 0 .restore,
        .call 0 (.projectNeuron 1 2 none), .call 0 (.setOptimize false), .call 0 .snapshot] =
      ({} : World).replies [.new 1 [] 1 { mode := .graph }, .call 0 (.activate [1]),
        .call 0 (.propagate 0.5 [0]), .call 0 (.projectNeuron 1 2 none), .call 0 .snapshot] ∧
    (({} : World).run [.new 1 [] 1 { mode := .flat }, .call 0 .optimize,
        .call 0 (.activate [1]), .call 0 (.propagate 0.5 [0]), .call 0 .restore,
        .call 0 (.projectNeuron 1 2 none), .call 0 (.setOptimize false), .call 0 .snapshot]).settled =
      (({} : World).run [.new 1 [] 1 { mode := .graph }, .call 0 (.activate [1]),
        .call 0 (.propagate 0.5 [0]), .call 0 (.projectNeuron 1 2 none), .call 0 .snapshot]).settled :=
  World.runs_unobserved rfl

end GatedNetwork
