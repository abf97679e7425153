import Ezio.Coroutine.Task.Compose

/-!
This module contains the `co_await` of a task that `start()` has run up to a suspend point inside of it.
`await_suspend` transfers control to every task that is not done, wherever it is suspended.
-/

namespace Ezio
namespace Coroutine
namespace Task

variable {L V E : Type}

namespace Entry

-- The coroutine that goes on from its suspend point.
def woken? : Entry L V E → Option Nat
  | continues h _ _ | resumes h _ _ => some h
  | _ => none

-- What the coroutine has waited for at the suspend point it goes on from.
def cause? : Entry L V E → Option (Entry L V E)
  | continues h _ v => some (.completes h v)
  | resumes _ c r => some (.finishes c r)
  | _ => none

end Entry

namespace World

variable {w : World L V E} {h c d : Nat} {s : List Nat} {p p' : Promise V E} {k : Result V E → Body L V E}

-- The coroutine is suspended inside of its body.
def Suspended (w : World L V E) (c : Nat) : Prop :=
  ∃ f, w.frames c = some f ∧
    match f.point with
    | .leaf .. => True
    | .task d .. => w.frames d ≠ none
    | _ => False

-- `h` waits for the started task `c`: both go on when what they are suspended on has happened.
structure Waiting (h c : Nat) (new : List (Entry L V E)) : Prop where
  caused : ∀ (before : List (Entry L V E)) (e : Entry L V E) after, new = before ++ e :: after → e.woken? = some c
    → ∃ e' ∈ e.cause?, e' ∈ before
  once : history new c = [] ∨ history new c = [.awaits h c]
    ∨ ∃ r, history new c = [.awaits h c, .finishes c r, .resumes h c r]

-- A `co_await` that resumes the body of `c` at once is no waiting.
theorem not_waiting {e : Entry L V E} {after : List (Entry L V E)} (hwoken : e.woken? = some c)
    : ¬ Waiting h c (.awaits h c :: e :: after) := by
  intro hw
  obtain ⟨e', he', hmem⟩ := hw.caused [.awaits h c] e after rfl hwoken
  rw [List.mem_singleton] at hmem
  subst hmem
  cases e <;> simp [Entry.cause?] at he'

-- `resume()` of a suspended coroutine goes on with its body.
theorem resume_of_suspended (hc : w.Suspended c)
    : ∃ e : Entry L V E, e.woken? = some c ∧ (w.resume c).log = w.log ++ [e] := by
  obtain ⟨⟨p, point⟩, hframe, hpoint⟩ := hc
  cases point with
  | leaf l v k => exact ⟨.continues c l v, rfl, by simp [resume, hframe, addLog, setFrame]⟩
  | task d temporary k =>
    obtain ⟨child, hchild⟩ := Option.ne_none_iff_exists'.mp hpoint
    refine ⟨.resumes c d child.promise.awaitResume, rfl, ?_⟩
    cases temporary <;> simp [resume, hframe, hchild, addLog, setFrame]
  | initial b => exact absurd hpoint id
  | running b => exact absurd hpoint id
  | final => exact absurd hpoint id

variable [Inhabited V]

-- The `co_await` of a task that is not done resumes it.
theorem step_awaitTask {child : Frame L V E} (hstack : w.stack = h :: s)
    (hawait : w.frames h = some ⟨p, .running (.awaitTask c k)⟩) (hchild : w.frames c = some child)
    (hdone : child.done = false)
    : w.step = resume { w with
        frames := Function.update
          (Function.update w.frames c (some { child with promise := { child.promise with continuation := some h } }))
          h (some ⟨p, .task c false k⟩)
        stack := c :: s
        log := w.log ++ [.awaits h c] } c := by
  simp [step, hstack, hawait, runBody, hchild, hdone, awaitSuspend, setFrame, addLog]

theorem step_awaitTask_suspended (hstack : w.stack = h :: s)
    (hawait : w.frames h = some ⟨p, .running (.awaitTask c k)⟩) (hc : w.Suspended c)
    : ∃ e : Entry L V E, e.woken? = some c ∧ w.step.log = w.log ++ [Entry.awaits h c, e] := by
  obtain ⟨⟨p', point⟩, hframe, hpoint⟩ := hc
  have hne : c ≠ h := by
    rintro rfl
    rw [hawait] at hframe
    cases hframe
    exact hpoint
  have hdone : (⟨p', point⟩ : Frame L V E).done = false := by
    cases point <;> first | rfl | exact absurd hpoint id
  have hsome : ∀ x f f', w.frames x ≠ none
      → Function.update (Function.update w.frames c (some f)) h (some f') x ≠ none := by
    intro x f f' hx
    simp only [Function.update_apply]
    split
    . simp
    . split
      . simp
      . exact hx
  rw [step_awaitTask hstack hawait hframe hdone]
  have hsuspended : Suspended { w with
      frames := Function.update
        (Function.update w.frames c (some ⟨{ p' with continuation := some h }, point⟩)) h (some ⟨p, .task c false k⟩)
      stack := c :: s
      log := w.log ++ [Entry.awaits h c] } c := by
    refine ⟨⟨{ p' with continuation := some h }, point⟩, ?_, ?_⟩
    . simp only [Function.update_of_ne hne, Function.update_self]
    . cases point with
      | task d temporary k => exact hsome d _ _ hpoint
      | _ => exact hpoint
  obtain ⟨e, hwoken, hresume⟩ := resume_of_suspended hsuspended
  refine ⟨e, hwoken, ?_⟩
  rw [hresume, List.append_assoc]
  rfl

/--
Wherever a started task is suspended inside of its body, a `co_await` of it does not wait for it: its body is
resumed by the `co_await`.
-/
theorem awaitTask_started_not_waiting (hstack : w.stack = h :: s)
    (hawait : w.frames h = some ⟨p, .running (.awaitTask c k)⟩) (hc : w.Suspended c)
    : ¬ ∀ n, ∃ new, (exec n w).log = w.log ++ new ∧ Waiting h c new := by
  intro hall
  obtain ⟨new, hlog, hwaiting⟩ := hall 1
  obtain ⟨e, hwoken, hstep⟩ := step_awaitTask_suspended hstack hawait hc
  have heq : new = [.awaits h c, e] := List.append_cancel_left (hlog.symm.trans hstep)
  rw [heq] at hwaiting
  exact not_waiting hwoken hwaiting

-- `start()` of another task
def startNew (w : World L V E) (b : Body L V E) : World L V E :=
  { w with
    frames := Function.update w.frames w.next (some ⟨{ value := default }, .initial b⟩)
    next := w.next + 1
    stack := w.next :: w.stack }.resume w.next

theorem start_eq_startNew (b : Body L V E) (responses : List (Response V))
    : start b responses = startNew { responses } b :=
  rfl

-- Task `0` is started and suspends on a read that completes with `5` later on, then task `1` is started that awaits it.
def awaitedReader : World Unit Nat String :=
  (exec 1 (start (.awaitLeaf () .coReturn) [.later 5])).startNew (.awaitTask 0 fun
    | .value v => .coReturn v
    | .exception e => .throw e)

theorem awaitedReader_not_waiting
    : ¬ ∀ n, ∃ new, (exec n awaitedReader).log = awaitedReader.log ++ new ∧ Waiting 1 0 new :=
  awaitTask_started_not_waiting rfl rfl ⟨_, rfl, trivial⟩

-- The reader goes on before its read is completed, and again when it has ended already.
theorem awaitedReader_resumed_early
    : awaitedReader.log = [] ∧ awaitedReader.Suspended 0
      ∧ (exec 6 awaitedReader).log = [
        .awaits 1 0, .continues 0 () 0,
        .finishes 0 (.value 0), .resumes 1 0 (.value 0),
        .finishes 1 (.value 0),
        .completes 0 5, .badResume 0]
      ∧ ¬ Waiting 1 0 (exec 6 awaitedReader).log := by
  have hlog : (exec 6 awaitedReader).log = [
      .awaits 1 0, .continues 0 () 0,
      .finishes 0 (.value 0), .resumes 1 0 (.value 0),
      .finishes 1 (.value 0),
      .completes 0 5, .badResume 0] := by
    decide +kernel
  refine ⟨rfl, ⟨_, rfl, trivial⟩, hlog, ?_⟩
  rw [hlog]
  exact not_waiting rfl

end World

end Task
end Coroutine
end Ezio
