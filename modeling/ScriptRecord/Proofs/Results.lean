/-!
# Steps that may fail

What is known when a chain of steps succeeds, and what a step with a state leads to on
either of its ways out.
-/

namespace ScriptRecord.Proofs.Results

variable {ε σ α β : Type}

theorem bind_eq_ok {x : Except ε α} {f : α → Except ε β} {b : β}
    (h : x >>= f = .ok b) : ∃ a, x = .ok a ∧ f a = .ok b := by
  cases x with
  | error e => cases h
  | ok a => exact ⟨a, rfl, h⟩

/-- From a state a step ends as `done` says, or it fails and leaves what `failed` says. -/
def Ends (step : EStateM ε σ α) (state : σ) (done : α → σ → Prop) (failed : σ → Prop) : Prop :=
  match step state with
  | .ok a after => done a after
  | .error _ after => failed after

variable {step : EStateM ε σ α} {next : α → EStateM ε σ β} {state : σ}

theorem Ends.mono {done done' : α → σ → Prop} {failed failed' : σ → Prop}
    (h : Ends step state done failed) (hdone : ∀ a after, done a after → done' a after)
    (hfailed : ∀ after, failed after → failed' after) : Ends step state done' failed' := by
  unfold Ends at h ⊢
  cases hstep : step state with
  | ok a after =>
      rw [hstep] at h
      exact hdone a after h
  | error e after =>
      rw [hstep] at h
      exact hfailed after h

/-- Two steps one after another. -/
theorem ends_bind {done : β → σ → Prop} {failed : σ → Prop}
    (h : Ends step state (fun a after => Ends (next a) after done failed) failed) :
    Ends (step >>= next) state done failed := by
  unfold Ends at h ⊢
  simp only [bind, EStateM.bind]
  cases hstep : step state with
  | ok a after =>
      rw [hstep] at h
      exact h
  | error e after =>
      rw [hstep] at h
      exact h

theorem ends_of_ok {done : α → σ → Prop} {failed : σ → Prop} {a : α} {after : σ}
    (h : step state = .ok a after) (hdone : done a after) : Ends step state done failed := by
  unfold Ends
  rw [h]
  exact hdone

end ScriptRecord.Proofs.Results
