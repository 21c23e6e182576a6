import ClientForge.Session
/-!
# Facts about every request of a session

`EachStep R` says of a state, the requests that follow and what came of them that `R` relates each
request to the state before it and to its outcome.  To prove it for a session takes one fact about a
single step and an invariant that the step keeps (`eachStep_session`).
-/

namespace ClientForge

variable {σ ι α : Type}

/-- Every request is related to the state that it found and to what came of it. -/
inductive EachStep (R : σ → ι → σ × α → Prop) : σ → List ι → List (σ × α) → Prop
  | nil (state : σ) : EachStep R state [] []
  | cons {state : σ} {request : ι} {out : σ × α} {requests : List ι} {outs : List (σ × α)}
      (step : R state request out) (rest : EachStep R out.1 requests outs) :
      EachStep R state (request :: requests) (out :: outs)

/-- What one step does while an invariant holds, every step of a session does. -/
theorem eachStep_session {R : σ → ι → σ × α → Prop} (Inv : σ → Prop) {step : σ → ι → σ × α}
    (hkeeps : ∀ state request, Inv state → Inv (step state request).1)
    (hstep : ∀ state request, Inv state → R state request (step state request))
    {state : σ} (hstate : Inv state) (requests : List ι) :
    EachStep R state requests (session step state requests) := by
  induction requests generalizing state with
  | nil => exact EachStep.nil state
  | cons request rest ih =>
      have hrest : EachStep R (step state request).1 rest
          (session step (step state request).1 rest) := ih (hkeeps state request hstate)
      exact EachStep.cons (hstep state request hstate) hrest

/-- What one step does in any state, every step of a session does. -/
theorem eachStep_session_of_forall {R : σ → ι → σ × α → Prop} {step : σ → ι → σ × α}
    (hstep : ∀ state request, R state request (step state request)) (state : σ)
    (requests : List ι) : EachStep R state requests (session step state requests) :=
  eachStep_session (fun _ => True) (fun _ _ _ => trivial)
    (fun state request _ => hstep state request) trivial requests

end ClientForge
