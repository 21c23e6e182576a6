/-!
# Sessions

Requests to one keeper of a state, one after the other. Each finds the state that the one before
it left behind, whether that one was granted or refused.
-/

namespace ClientForge

/-- The states after requests, each with the answer. -/
def session {σ ι α : Type} (step : σ → ι → σ × α) (state : σ) : List ι → List (σ × α)
  | [] => []
  | request :: rest =>
    let out := step state request
    out :: session step out.1 rest

end ClientForge
