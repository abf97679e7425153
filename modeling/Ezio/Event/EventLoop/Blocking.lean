import Ezio.Event.EventLoop.Jobs

/-!
This module contains what the thread of the loop has left to do when it waits in `dispatch`: the jobs of its own
thread and the instructions in `evt_handlers_cache_`.
-/

namespace Ezio
namespace Event
namespace EventLoop

variable {J : Type} {w w' : EventLoop J}

-- The thread of the loop is about to call `dispatch`, which may wait.
def BlocksOnlyIdle (w : EventLoop J) : Prop :=
  w.pc = .dispatch → w.timeoutMs ≠ 0 → w.sameThreadPendingFuncs = [] ∧ w.evtHandlersCache = []

/-
An instruction comes after `process_new_instruction` has taken the others, from `on_started` and `on_stopped` or
from another thread, and neither an event that is polled nor a job makes `timeout_ms` zero.
-/
def MissesInstruction (w : EventLoop J) : Action J → Prop
  | .tick =>
    w.pc = .busyPolls ∧ w.evtHandlersCache ≠ [] ∧ w.busyPollEvts = [] ∧ w.sameThreadPendingFuncs = []
      ∧ w.timeoutMs ≠ 0
  | .addEvent t _ | .removeEvent t _ =>
    some t ≠ w.threadId ∧ w.timeoutMs ≠ 0
      ∧ (w.pc = .sameThreadJobs ∧ w.sameThreadPendingFuncs = [] ∨ w.pc = .dispatch)
  | _ => False

instance MissesInstruction.decidable (w : EventLoop J) [DecidableEq J]
    : (a : Action J) → Decidable (w.MissesInstruction a)
  | .tick => inferInstanceAs (Decidable (_ ∧ _ ∧ _ ∧ _ ∧ _))
  | .addEvent .. | .removeEvent .. => inferInstanceAs (Decidable (_ ∧ _ ∧ (_ ∧ _ ∨ _)))
  | .openLoop .. | .runInEventLoop .. | .stop _ | .startLoop _ | .submit _ | .complete .. =>
    inferInstanceAs (Decidable False)

structure Idle (w : EventLoop J) : Prop where
  jobs : w.pc = .sameThreadJobs → w.timeoutMs ≠ 0 → w.evtHandlersCache = [] ∨ w.sameThreadPendingFuncs ≠ []
  dispatch : w.BlocksOnlyIdle

theorem Idle.of_pc (hjobs : w.pc ≠ .sameThreadJobs) (hdispatch : w.pc ≠ .dispatch)
    : w.Idle :=
  ⟨fun h => absurd h hjobs, fun h => absurd h hdispatch⟩

theorem Idle.of_timeoutMs (h : w.timeoutMs = 0)
    : w.Idle :=
  ⟨fun _ hne => absurd h hne, fun _ hne => absurd h hne⟩

theorem Idle.same (h : w.Idle) (hpc : w'.pc = w.pc) (htimeout : w'.timeoutMs = w.timeoutMs)
    (hcache : w'.evtHandlersCache = w.evtHandlersCache)
    (hjobs : w'.sameThreadPendingFuncs = w.sameThreadPendingFuncs)
    : w'.Idle := by
  constructor
  . rw [hpc, htimeout, hcache, hjobs]
    exact h.jobs
  . unfold BlocksOnlyIdle
    rw [hpc, htimeout, hcache, hjobs]
    exact h.dispatch

-- A job sets `timeout_ms` when the last one has been run.
theorem idle_runSameThreadJob (w : EventLoop J) (i cnt : Nat)
    : (w.runSameThreadJob i cnt).Idle := by
  unfold runSameThreadJob
  split
  . split
    . exact .of_pc nofun nofun
    . exact .of_pc nofun nofun
  . exact .of_timeoutMs rfl

theorem idle_runOtherThreadJob (w : EventLoop J) (i : Nat)
    : (w.runOtherThreadJob i).Idle := by
  unfold runOtherThreadJob
  split
  . exact .of_pc nofun nofun
  . exact .of_pc nofun nofun

theorem idle_processNewInstruction (w : EventLoop J) (infos : List EventInfo)
    : (w.processNewInstruction infos).Idle := by
  unfold processNewInstruction
  repeat' split
  all_goals exact .of_pc nofun nofun

theorem Idle.tick (h : w.Idle) (hsees : ¬ w.MissesInstruction .tick)
    : w.tick.Idle := by
  cases hpc : w.pc with
  | outside =>
    simp only [EventLoop.tick, hpc]
    exact h
  | starting =>
    simp only [EventLoop.tick, hpc]
    exact .of_pc nofun nofun
  | loopCheck =>
    simp only [EventLoop.tick, hpc]
    split <;> exact .of_pc nofun nofun
  | newInstructions =>
    simp only [EventLoop.tick, hpc]
    exact idle_processNewInstruction ..
  | instruction called rest =>
    simp only [EventLoop.tick, hpc]
    exact idle_processNewInstruction ..
  | busyPolls =>
    simp only [EventLoop.tick, hpc]
    split
    . rename_i hbusy
      refine ⟨fun _ htimeout => ?_, nofun⟩
      by_contra hunseen
      rw [not_or, not_not] at hunseen
      exact hsees ⟨hpc, hunseen.1, hbusy, hunseen.2, htimeout⟩
    . cases w.busyPollEvts with
      | nil => exact .of_timeoutMs rfl
      | cons e rest => exact .of_pc nofun nofun
  | busyPoll rest =>
    simp only [EventLoop.tick, hpc]
    cases rest with
    | nil => exact .of_timeoutMs rfl
    | cons e rest => exact .of_pc nofun nofun
  | sameThreadJobs =>
    rw [tick_of_sameThreadJobs hpc]
    split
    . rename_i hempty
      refine ⟨nofun, fun _ htimeout => ⟨hempty, ?_⟩⟩
      exact (h.jobs hpc htimeout).resolve_right fun hne => hne hempty
    . exact idle_runSameThreadJob ..
  | sameThreadJob i cnt =>
    rw [tick_of_sameThreadJob hpc]
    exact idle_runSameThreadJob ..
  | dispatch =>
    rw [tick_of_dispatch hpc]
    exact .of_pc nofun nofun
  | dispatching completed =>
    simp only [EventLoop.tick, hpc]
    split
    . exact .of_pc nofun nofun
    . exact h
  | otherThreadJobs =>
    rw [tick_of_otherThreadJobs hpc]
    split <;> exact .of_pc nofun nofun
  | swap =>
    rw [tick_of_swap hpc]
    exact idle_runOtherThreadJob ..
  | otherThreadJob i =>
    rw [tick_of_otherThreadJob hpc]
    exact idle_runOtherThreadJob ..

-- An instruction that another thread adds, or a callback.
theorem Idle.addInstruction (h : w.Idle) {t : Nat} (hcall : w.mayCall t) (e : Handler)
    (hsees : ¬ w.MissesInstruction (.addEvent t e)) (instruction : ElInstruction)
    : (w.addInstruction e instruction).Idle := by
  -- no callback runs at these two places
  have hother : w.pc = .sameThreadJobs ∨ w.pc = .dispatch → some t ≠ w.threadId := by
    intro hpc
    simp only [mayCall, decide_eq_true_eq] at hcall
    apply hcall.resolve_right
    rcases hpc with hpc | hpc
    . rw [hpc]
      exact Bool.false_ne_true
    . rw [hpc]
      exact Bool.false_ne_true
  have hzero : w.pc = .dispatch → w.timeoutMs = 0 := by
    intro hpc
    by_contra htimeout
    exact hsees ⟨hother (.inr hpc), htimeout, .inr hpc⟩
  have hjobs : w.pc = .sameThreadJobs → w.timeoutMs ≠ 0 → w.sameThreadPendingFuncs ≠ [] :=
    fun hpc htimeout hempty => hsees ⟨hother (.inl hpc), htimeout, .inl ⟨hpc, hempty⟩⟩
  unfold EventLoop.addInstruction
  split
  . exact ⟨fun hpc htimeout => .inr (hjobs hpc htimeout), fun hpc htimeout => absurd (hzero hpc) htimeout⟩
  . exact h

theorem Idle.runInEventLoop (h : w.Idle) {t : Nat} (hcall : w.mayCall t) (job : Option (PendingFunc J))
    : (w.runInEventLoop t job).1.Idle := by
  unfold EventLoop.runInEventLoop
  split
  . exact h
  . dsimp only
    split
    . rename_i hother
      unfold wakeUp
      split <;> exact h.same rfl rfl rfl rfl
    . rename_i hown
      simp only [mayCall, decide_eq_true_eq] at hcall
      have hcallback := hcall.resolve_left hown
      apply Idle.of_pc
      . intro hpc
        change w.pc = .sameThreadJobs at hpc
        rw [hpc] at hcallback
        cases hcallback
      . intro hpc
        change w.pc = .dispatch at hpc
        rw [hpc] at hcallback
        cases hcallback

theorem Idle.step (h : w.Idle) {a : Action J} (hsees : ¬ w.MissesInstruction a)
    : (w.step a).Idle := by
  cases a with
  | openLoop param results =>
    dsimp only [EventLoop.step]
    split
    . rename_i houtside
      have hpc := (openLoop_sameJobs w param results).2.trans houtside
      exact .of_pc (by rw [hpc]; exact nofun) (by rw [hpc]; exact nofun)
    . exact h
  | addEvent t e =>
    dsimp only [EventLoop.step]
    split
    . rename_i hcall
      exact h.addInstruction hcall e hsees .eiAdd
    . exact h
  | removeEvent t e =>
    dsimp only [EventLoop.step]
    split
    . rename_i hcall
      exact h.addInstruction hcall e hsees .eiRemove
    . exact h
  | runInEventLoop t job =>
    dsimp only [EventLoop.step]
    split
    . rename_i hcall
      exact h.runInEventLoop hcall job
    . exact h
  | stop t =>
    dsimp only [EventLoop.step]
    split
    . exact h.same rfl rfl rfl rfl
    . exact h
  | startLoop t =>
    dsimp only [EventLoop.step, startLoop]
    repeat' split
    . exact .of_pc nofun nofun
    . exact h
    . exact h
  | submit n =>
    dsimp only [EventLoop.step]
    split
    . exact h.same rfl rfl rfl rfl
    . exact h
  | complete r raise =>
    dsimp only [EventLoop.step]
    split
    . split
      . exact .of_pc nofun nofun
      . exact h
    . exact h
  | tick => exact h.tick hsees

/--
The thread of the loop does not wait while it has something to do.
-/
theorem run_blocksOnlyIdle (as : List (Action J)) (hsees : Along step (fun w a => ¬ w.MissesInstruction a) {} as)
    : (run {} as).BlocksOnlyIdle := by
  have hinit : Idle ({} : EventLoop J) := .of_pc nofun nofun
  have h : (run {} as).Idle := Along.invariant (fun _ _ h hsees => h.step hsees) hinit hsees
  exact h.dispatch

-- Thread `0` starts the loop with an event in `evt_handlers_cache_`, `on_started` of the event is called.
def startedEvent : List (Action Unit) :=
  [.openLoop {} ⟨true, true, 4, 0⟩, .addEvent 0 ⟨0, .normal⟩, .startLoop 0, .tick, .tick, .tick]

-- `on_started` adds another event and posts a job.
theorem startedEvent_blocksOnlyIdle
    : (run {} (startedEvent ++ [Action.addEvent 0 ⟨1, .normal⟩, Action.runInEventLoop 0 (some (.user ())), Action.tick,
      Action.tick, Action.tick,
        Action.tick])).pc = .dispatch
      ∧ (run {} (startedEvent ++ [Action.addEvent 0 ⟨1, .normal⟩, Action.runInEventLoop 0 (some (.user ())),
        Action.tick, Action.tick, Action.tick,
        Action.tick])).BlocksOnlyIdle := by
  refine ⟨by decide, run_blocksOnlyIdle _ ?_⟩
  decide

-- `on_started` adds another event.
theorem startedEvent_blocks
    : (run {} (startedEvent ++ [Action.addEvent 0 ⟨1, .normal⟩, Action.tick, Action.tick, Action.tick])).timeoutMs = -1
      ∧ ¬ (run {} (startedEvent ++ [Action.addEvent 0 ⟨1, .normal⟩, Action.tick, Action.tick,
        Action.tick])).BlocksOnlyIdle := by
  refine ⟨by decide, ?_⟩
  intro h
  have hidle := h (by decide) (by decide)
  exact absurd hidle.2 (by decide)

end EventLoop

end Event
end Ezio
