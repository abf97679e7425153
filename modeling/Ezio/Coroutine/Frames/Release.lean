import Ezio.Coroutine.Frames.Step

/-!
This module contains when the frames of a thread return to the allocator they came from.
-/

namespace Ezio
namespace Coroutine
namespace Frames

variable {w : Frames}

theorem dropTasks_released_subset (w : Frames) (l : List SpawnedTask)
    : ∀ e ∈ w.released, e ∈ (w.dropTasks l).released :=
  foldl_destroyFrame_released_subset _ w

theorem clearSpawned_released_subset (w : Frames) (s : Nat)
    : ∀ e ∈ w.released, e ∈ (w.clearSpawned s).released := by
  intro e he
  unfold clearSpawned
  split
  . exact he
  . exact dropTasks_released_subset _ _ e he

theorem eraseTask_released_subset (s : Nat) (w : Frames) (f : Nat)
    : ∀ e ∈ w.released, e ∈ (eraseTask s w f).released := by
  intro e he
  unfold eraseTask
  split
  . exact he
  . exact dropTasks_released_subset _ _ e he

theorem runJob_released_subset (w : Frames)
    : ∀ e ∈ w.released, e ∈ w.runJob.released := by
  intro e he
  have hsweep : ∀ (w : Frames) s, e ∈ w.released → e ∈ (w.sweepCompleted s).released := by
    intro w s he
    unfold sweepCompleted
    split
    . exact he
    . rename_i svc hs
      have hfold : e ∈ (svc.pendingCleanup.foldl (eraseTask s) w).released :=
        foldl_invariant (I := fun w => e ∈ w.released) svc.pendingCleanup
          (fun w f _ he => eraseTask_released_subset s w f e he) he
      simp only
      split
      . exact hfold
      . exact hfold
  unfold runJob
  split
  . exact he
  . rename_i s jobs hjobs
    have hjob := hsweep { w with jobs } s he
    simp only
    split
    . exact hjob
    . exact hjob

theorem step_released_subset (w : Frames) (st : Step)
    : ∀ e ∈ w.released, e ∈ (w.step st).released := by
  intro e he
  cases st with
  | construct blockSize capacity mem =>
    simp only [step, construct]
    split <;> exact he
  | destruct s =>
    simp only [step, destruct]
    split
    . exact he
    . exact clearSpawned_released_subset w s e he
  | setCurrent s =>
    simp only [step, setCurrent]
    split <;> exact he
  | clearCurrent => exact he
  | create sz addr =>
    rcases createFrame_cases w sz addr with heq | ⟨s, svc, ptr, p, -, -, -, -, -, heq⟩ | ⟨-, -, heq⟩
      <;> simp only [step, heq] <;> exact he
  | destroy f =>
    rcases destroyTask_cases w f with ⟨heq, -⟩ | ⟨fr, -, -, -, heq, -⟩
    . simp only [step, heq]
      exact he
    . simp only [step, heq]
      exact destroyFrame_released_subset w f e he
  | resume f =>
    simp only [step, resume]
    split
    . split <;> exact he
    . exact he
  | suspend f =>
    simp only [step, suspend]
    split
    . split <;> exact he
    . exact he
  | finish f =>
    rcases finish_cases w f with heq | ⟨fr, -, -, ⟨-, heq⟩ | ⟨s, svc, posted, jobs, -, -, heq⟩⟩
      <;> simp only [step, heq] <;> exact he
  | spawn s f =>
    rcases spawn_cases w s f with ⟨heq, -⟩ | ⟨fr, -, -, -, heq, -⟩ | ⟨svc, fr, -, -, -, -, -, heq⟩
    . simp only [step, heq]
      exact he
    . simp only [step, heq]
      exact destroyFrame_released_subset w f e he
    . simp only [step, heq]
      exact he
  | clearSpawned s => exact clearSpawned_released_subset w s e he
  | runJob => exact runJob_released_subset w e he

-- Every frame that a step destroys was taken from the global heap or from the pool of the current service.
def DestroysOwn (w : Frames) (st : Step) : Prop :=
  ∀ f ∈ w.destroys st, w.Returns f

instance (w : Frames) (st : Step) : Decidable (w.DestroysOwn st) :=
  inferInstanceAs (Decidable (∀ _ ∈ _, _))

theorem run_wf {steps : List Step} (h : w.Wf) (hfits : ∀ st ∈ steps, st.Fits)
    (hsteps : Along step DestroysOwn w steps)
    : (w.run steps).Wf :=
  Along.invariant (fun _ st hwf hst => step_wf hwf st hst.1 hst.2) h (hsteps.and_of_mem hfits)

theorem run_returned_iff (steps : List Step) (hfits : ∀ st ∈ steps, st.Fits)
    : (run {} steps).Returned ↔ Along step DestroysOwn {} steps := by
  apply Along.foldl_iff steps
  . exact fun w st _ hwf => step_returned hwf st
  . exact fun w st hst hwf => step_wf hwf st (hfits st hst)
  . exact fun w st hreturned e he => hreturned e (step_released_subset w st e he)
  . exact init_wf
  . intro e he
    cases he

-- A coroutine outlives the service that was current when it was created.
def outlives : List Step :=
  [.construct 8192 4096 1000, .create 200 0, .construct 8192 4096 100000000, .destruct 1, .destroy 0]

theorem outlives_not_returned
    : ¬(run {} outlives).Returned := by
  intro h
  have hmem : ({ ptr := 1000, size := 200, source := .pool 0 }, .global) ∈ (run {} outlives).released := by
    decide +kernel
  exact absurd (h _ hmem) (by decide)

-- Two services, a frame of each of them and one that is too large for a block go back while the service is current.
def takesTurns : List Step :=
  [.construct 8192 4096 1000, .create 200 0, .construct 8192 4096 100000000, .create 200 0, .create 9000 500000000,
    .destroy 1, .destroy 2, .destruct 1, .setCurrent 0, .destroy 0, .destruct 0]

theorem takesTurns_returned
    : (run {} takesTurns).Returned :=
  (run_returned_iff takesTurns (by decide +kernel)).mpr (by decide +kernel)

end Frames

end Coroutine
end Ezio
