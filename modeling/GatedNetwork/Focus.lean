/-! Running a stateful action on one part of a larger state. A failing action leaves the
part as it was when the action failed. -/

namespace GatedNetwork

def focus {ε σ τ α : Type} (get : σ → τ) (put : τ → σ → σ) (act : EStateM ε τ α) :
    EStateM ε σ α := fun s =>
  match act (get s) with
  | .ok a t => .ok a (put t s)
  | .error e t => .error e (put t s)

def onFirst {ε σ τ α : Type} (act : EStateM ε σ α) : EStateM ε (σ × τ) α :=
  focus Prod.fst (fun s p => (s, p.2)) act

def onSecond {ε σ τ α : Type} (act : EStateM ε τ α) : EStateM ε (σ × τ) α :=
  focus Prod.snd (fun t p => (p.1, t)) act

/-- Asks a question of the state that may have no answer. -/
def ask {ε σ α : Type} (question : σ → Except ε α) : EStateM ε σ α := fun s =>
  match question s with
  | .ok a => .ok a s
  | .error e => .error e s

end GatedNetwork
