import Ezio.Lib.Run

/-!
This module contains runs of a machine compared with what goes into it and what comes out of it: nothing that goes in is
lost or comes out in another order, and a state is known from what has come out.
-/

namespace Ezio

variable {σ α β τ : Type} {step : σ → α → σ}

-- What goes into a machine waits in it and comes out in the same order.
theorem outputs_flow {pending : σ → List β} {f g : σ → α → List β}
    (hstep : ∀ s a, pending s ++ f s a = g s a ++ pending (step s a)) (s : σ) (as : List α)
    : pending s ++ outputs step f s as = outputs step g s as ++ pending (as.foldl step s) := by
  induction as generalizing s with
  | nil => simp [outputs]
  | cons a as ih =>
    rw [outputs, outputs, ← List.append_assoc, hstep, List.append_assoc, ih, List.append_assoc, List.foldl_cons]

-- A state is an implementation of what is replayed from the outputs of the run.
theorem outputs_replay {R : σ → τ → Prop} {replay : τ → β → τ} {f : σ → α → List β} {s : σ} {t : τ} (as : List α)
    (hstep : ∀ s a t, R s t → R (step s a) ((f s a).foldl replay t)) (hinit : R s t)
    : R (as.foldl step s) ((outputs step f s as).foldl replay t) := by
  induction as generalizing s t with
  | nil => exact hinit
  | cons a as ih =>
    rw [outputs, List.foldl_append]
    exact ih (hstep s a t hinit)

end Ezio
