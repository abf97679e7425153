import Ezio.Event.EventLoop

/-!
This module contains the wake-up of the loop by its internal notifier: the read request for the eventfd that
ends a `dispatch` when another thread has posted a job.
-/

namespace Ezio
namespace Event
namespace EventLoop

variable {J : Type} {w : EventLoop J}

-- The next `dispatch` is ended by the eventfd if there are jobs of other threads.
structure WokenByNotifier (w : EventLoop J) : Prop where
  outstanding : .notifier ∈ w.requests
  readable : w.otherThreadPendingFuncs ≠ [] → ∃ count ∈ w.ntfEvt, 0 < count

theorem openLoop_requests (w : EventLoop J) (param : PollParam) (results : OpenResults)
    : (w.openLoop param results).1.requests = w.requests
      ∨ (w.openLoop param results).1.requests = w.requests ++ [Request.internalTimer] := by
  unfold openLoop openNotifier submitReadRequest
  dsimp only
  repeat' split
  all_goals first | exact .inl rfl | exact .inr rfl

theorem addInstruction_requests (w : EventLoop J) (h : Handler) (instruction : ElInstruction)
    : (w.addInstruction h instruction).requests = w.requests := by
  unfold addInstruction
  split <;> rfl

theorem runInEventLoop_requests (w : EventLoop J) (t : Nat) (job : Option (PendingFunc J))
    : (w.runInEventLoop t job).1.requests = w.requests := by
  unfold runInEventLoop wakeUp
  dsimp only
  repeat' split
  all_goals rfl

theorem processNewInstruction_requests (w : EventLoop J) (infos : List EventInfo)
    : (w.processNewInstruction infos).requests = w.requests := by
  unfold processNewInstruction processAddInstruction
  dsimp only
  repeat' split
  all_goals rfl

theorem runFunc_requests (w : EventLoop J) (func : PendingFunc J)
    : (w.runFunc func).requests = w.requests := by
  cases func <;> rfl

theorem runSameThreadJob_requests (w : EventLoop J) (i cnt : Nat)
    : (w.runSameThreadJob i cnt).requests = w.requests := by
  unfold runSameThreadJob
  dsimp only
  repeat' split
  . exact runFunc_requests ..
  . rfl
  . rfl

theorem runOtherThreadJob_requests (w : EventLoop J) (i : Nat)
    : (w.runOtherThreadJob i).requests = w.requests := by
  unfold runOtherThreadJob
  split
  . exact runFunc_requests ..
  . rfl

theorem tick_requests (w : EventLoop J)
    : w.tick.requests = w.requests := by
  unfold tick
  split
  . rfl
  . rfl
  . split <;> rfl
  . exact processNewInstruction_requests { w with evtHandlersCache := [] } _
  . exact processNewInstruction_requests ..
  . split
    . rfl
    . cases w.busyPollEvts <;> rfl
  . rename_i rest _
    cases rest <;> rfl
  . dsimp only
    split
    . rfl
    . exact runSameThreadJob_requests (w.addLog _) _ _
  . exact runSameThreadJob_requests { w with sameThreadPendingFuncs := w.sameThreadPendingFuncs.tail } _ _
  . rfl
  . split <;> rfl
  . dsimp only
    split <;> rfl
  . exact runOtherThreadJob_requests { w with
      otherThreadPendingFuncs := w.otherThreadJobSwapCacheVec
      otherThreadJobSwapCacheVec := w.otherThreadPendingFuncs } _
  . exact runOtherThreadJob_requests ..

-- No step asks the poller for the eventfd, `submit_read_request` returns at once. The internal timer stays.
theorem step_requests (w : EventLoop J) (a : Action J)
    : (w.step a).requests = w.requests
      ∨ (∃ r, r ≠ Request.notifier ∧ (w.step a).requests = w.requests ++ [r])
      ∨ ∃ r, r ≠ Request.internalTimer ∧ (w.step a).requests = w.requests.erase r := by
  cases a with
  | openLoop param results =>
    dsimp only [step]
    split
    . rcases openLoop_requests w param results with heq | heq
      . exact .inl heq
      . exact .inr (.inl ⟨.internalTimer, nofun, heq⟩)
    . exact .inl rfl
  | addEvent t e =>
    dsimp only [step]
    split
    . exact .inl (addInstruction_requests ..)
    . exact .inl rfl
  | removeEvent t e =>
    dsimp only [step]
    split
    . exact .inl (addInstruction_requests ..)
    . exact .inl rfl
  | runInEventLoop t job =>
    dsimp only [step]
    split
    . exact .inl (runInEventLoop_requests ..)
    . exact .inl rfl
  | stop t =>
    dsimp only [step]
    split <;> exact .inl rfl
  | startLoop t =>
    dsimp only [step, startLoop]
    repeat' split
    all_goals exact .inl rfl
  | submit n =>
    dsimp only [step]
    split
    . exact .inr (.inl ⟨.user n, nofun, rfl⟩)
    . exact .inl rfl
  | complete r raise =>
    dsimp only [step]
    split
    . split
      . cases r with
        | notifier => exact .inr (.inr ⟨.notifier, nofun, rfl⟩)
        | internalTimer => exact .inl rfl
        | user n => exact .inr (.inr ⟨.user n, nofun, rfl⟩)
      . exact .inl rfl
    . exact .inl rfl
  | tick => exact .inl (tick_requests w)

theorem step_notifier_notMem (a : Action J) (h : .notifier ∉ w.requests)
    : .notifier ∉ (w.step a).requests := by
  rcases step_requests w a with heq | ⟨r, hr, heq⟩ | ⟨r, -, heq⟩
  . rw [heq]
    exact h
  . rw [heq]
    simpa [hr.symm] using h
  . rw [heq]
    exact fun hmem => h (List.mem_of_mem_erase hmem)

theorem step_internalTimer_mem (a : Action J) (h : .internalTimer ∈ w.requests)
    : .internalTimer ∈ (w.step a).requests := by
  rcases step_requests w a with heq | ⟨r, -, heq⟩ | ⟨r, hr, heq⟩
  . rw [heq]
    exact h
  . rw [heq]
    exact List.mem_append_left _ h
  . rw [heq]
    exact (List.mem_erase_of_ne hr.symm).mpr h

theorem run_notifier_notMem (as : List (Action J))
    : .notifier ∉ (run {} as : EventLoop J).requests :=
  foldl_invariant (I := fun w : EventLoop J => .notifier ∉ w.requests) as
    (fun _ a _ h => step_notifier_notMem a h) (by simp)

/--
In no state that the loop can be in, opened or not, is the read request of the notifier outstanding, so that no
`dispatch` is ended by it.
-/
theorem run_not_wokenByNotifier (as : List (Action J))
    : ¬ (run {} as : EventLoop J).WokenByNotifier
      ∧ ∀ raise, (run {} as : EventLoop J).step (.complete .notifier raise) = run {} as := by
  have h := run_notifier_notMem as
  generalize (run {} as : EventLoop J) = w at *
  refine ⟨fun hwoken => h hwoken.outstanding, ?_⟩
  intro raise
  have hcan : w.canComplete .notifier = false := by simp [canComplete, h]
  dsimp only [step]
  split
  . rw [hcan]
    rfl
  . rfl

-- The loop waits in `dispatch` without a timeout when thread `1` posts a job.
def blockedLoop : EventLoop Unit :=
  run {} ([Action.openLoop {} ⟨true, true, 4, 0⟩, Action.startLoop 0] ++ List.replicate 6 Action.tick
    ++ [Action.runInEventLoop 1 (some (.user ()))])

-- The job is queued and the eventfd can be read, the thread of the loop stays in `dispatch`.
theorem blockedLoop_not_wokenByNotifier
    : blockedLoop.pc = .dispatching false ∧ blockedLoop.otherThreadPendingFuncs ≠ [] ∧ blockedLoop.ntfEvt = some 1
      ∧ ¬ blockedLoop.WokenByNotifier ∧ blockedLoop.tick = blockedLoop := by
  refine ⟨rfl, by decide, rfl, ?_, rfl⟩
  intro h
  have hmem : .notifier ∉ blockedLoop.requests := by decide
  exact hmem h.outstanding

end EventLoop

end Event
end Ezio
