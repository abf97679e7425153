import Mathlib.Data.List.Nodup
import Ezio.Lib.Flow
import Ezio.Event.EventLoop.Jobs

/-!
This module contains the handlers that are known to an event loop: the instructions of `add_event` and `remove_event`
come to the thread of the loop in the order in which they have been accepted, and the handlers that the loop knows are
those that are left by the instructions it has processed and by its timer.
-/

namespace Ezio
namespace Event
namespace EventLoop

variable {J : Type} {w w' : EventLoop J}

-- The instruction that a step puts into `evt_handlers_cache_`.
def accepts (w : EventLoop J) : Action J → List EventInfo
  | .addEvent t h => if w.mayCall t ∧ (w.eeState = .esInit ∨ w.eeState = .esStart) then [⟨h, .eiAdd⟩] else []
  | .removeEvent t h => if w.mayCall t ∧ (w.eeState = .esInit ∨ w.eeState = .esStart) then [⟨h, .eiRemove⟩] else []
  | _ => []

-- The instruction that a step processes.
def processes (w : EventLoop J) : Action J → List EventInfo
  | .tick =>
    match w.pc with
    | .newInstructions => w.evtHandlersCache.take 1
    | .instruction _ rest => rest.take 1
    | _ => []
  | _ => []

-- What `try_raise_priority` returns if a step calls `on_timer`.
def times (w : EventLoop J) : Action J → List (Handler → Bool)
  | .complete .internalTimer raise =>
    match w.pc with
    | .dispatching _ => if w.canComplete .internalTimer then [raise] else []
    | _ => []
  | _ => []

-- The handler whose `handle_loop_once` a step calls.
def polls (w : EventLoop J) : Action J → List Handler
  | .tick =>
    match w.pc with
    | .busyPolls => w.busyPollEvts.take 1
    | .busyPoll rest => rest.take 1
    | _ => []
  | _ => []

-- The handlers that the loop over `busy_poll_evts_` which a step enters has to poll.
def visits (w : EventLoop J) : Action J → List Handler
  | .tick => if w.pc = .busyPolls then w.busyPollEvts else []
  | _ => []

-- The instructions that have been accepted and not been processed.
def unprocessed (w : EventLoop J) : List EventInfo :=
  match w.pc with
  | .instruction _ rest => rest ++ w.evtHandlersCache
  | _ => w.evtHandlersCache

-- The handlers that the loop over `busy_poll_evts_` has still to poll.
def unpolled (w : EventLoop J) : List Handler :=
  match w.pc with
  | .busyPoll rest => rest
  | _ => []

/-! ### What a step does to the handlers -/

def process (w : EventLoop J) (info : EventInfo) : EventLoop J :=
  match info.instruction with
  | .eiRemove => w.processRemoveInstruction info.evtPtr
  | .eiAdd => (w.processAddInstruction info.evtPtr).1

-- Both sets are the same and the same instructions are waiting.
structure SameHandlers (w w' : EventLoop J) : Prop where
  evtHandlers : w'.evtHandlers = w.evtHandlers
  busyPollEvts : w'.busyPollEvts = w.busyPollEvts
  unprocessed : w'.unprocessed = w.unprocessed

inductive Handles (w w' : EventLoop J) : List EventInfo → List EventInfo → List (Handler → Bool) → Prop where
  | nothing (hsame : SameHandlers w w') : Handles w w' [] [] []
  | accepts {info : EventInfo} (heq : w' = { w with evtHandlersCache := w.evtHandlersCache ++ [info] })
      : Handles w w' [info] [] []
  | processes {info : EventInfo} (hunprocessed : w.unprocessed = info :: w'.unprocessed)
      (hevt : w'.evtHandlers = (w.process info).evtHandlers) (hbusy : w'.busyPollEvts = (w.process info).busyPollEvts)
      (hunpolled : w'.unpolled = [])
      : Handles w w' [] [info] []
  | times {raise : Handler → Bool} {completed : Bool} (hpc : ∃ completed, w.pc = .dispatching completed)
      (heq : w' = { w.onTimer raise with pc := .dispatching completed })
      : Handles w w' [] [] [raise]

theorem SameHandlers.refl (w : EventLoop J)
    : SameHandlers w w :=
  ⟨rfl, rfl, rfl⟩

theorem SameHandlers.trans {w'' : EventLoop J} (h : SameHandlers w w') (h' : SameHandlers w' w'')
    : SameHandlers w w'' :=
  ⟨h'.evtHandlers.trans h.evtHandlers, h'.busyPollEvts.trans h.busyPollEvts, h'.unprocessed.trans h.unprocessed⟩

-- A step that leaves the thread of the loop where it is.
theorem SameHandlers.of_pc (hpc : w'.pc = w.pc) (hevt : w'.evtHandlers = w.evtHandlers)
    (hbusy : w'.busyPollEvts = w.busyPollEvts) (hcache : w'.evtHandlersCache = w.evtHandlersCache)
    : SameHandlers w w' := by
  refine ⟨hevt, hbusy, ?_⟩
  unfold EventLoop.unprocessed
  rw [hpc, hcache]

-- A step between two places at which no instruction is processed.
theorem SameHandlers.of_moves (hpc : w.unprocessed = w.evtHandlersCache) (hpc' : w'.unprocessed = w'.evtHandlersCache)
    (hevt : w'.evtHandlers = w.evtHandlers) (hbusy : w'.busyPollEvts = w.busyPollEvts)
    (hcache : w'.evtHandlersCache = w.evtHandlersCache)
    : SameHandlers w w' := by
  refine ⟨hevt, hbusy, ?_⟩
  rw [hpc', hpc, hcache]

theorem openLoop_sameHandlers (w : EventLoop J) (param : PollParam) (results : OpenResults)
    : SameHandlers w (w.openLoop param results).1 := by
  unfold openLoop openNotifier submitReadRequest
  dsimp only
  repeat' split
  all_goals exact .of_pc rfl rfl rfl rfl

theorem runInEventLoop_sameHandlers (w : EventLoop J) (t : Nat) (job : Option (PendingFunc J))
    : SameHandlers w (w.runInEventLoop t job).1 := by
  unfold runInEventLoop wakeUp
  dsimp only
  repeat' split
  all_goals exact .of_pc rfl rfl rfl rfl

theorem runSameThreadJob_sameHandlers (w : EventLoop J) (i cnt : Nat) (hpc : w.unprocessed = w.evtHandlersCache)
    : SameHandlers w (w.runSameThreadJob i cnt) := by
  unfold runSameThreadJob runFunc
  dsimp only
  repeat' split
  all_goals exact .of_moves hpc rfl rfl rfl rfl

theorem runOtherThreadJob_sameHandlers (w : EventLoop J) (i : Nat) (hpc : w.unprocessed = w.evtHandlersCache)
    : SameHandlers w (w.runOtherThreadJob i) := by
  unfold runOtherThreadJob runFunc endLoopOnce
  dsimp only
  repeat' split
  all_goals exact .of_moves hpc rfl rfl rfl rfl

theorem handleBusyPolls_sameHandlers (w : EventLoop J) (hs : List Handler) (hpc : w.unprocessed = w.evtHandlersCache)
    : SameHandlers w (w.handleBusyPolls hs) := by
  cases hs <;> exact .of_moves hpc rfl rfl rfl rfl

theorem processNewInstruction_cons (w : EventLoop J) (info : EventInfo) (rest : List EventInfo)
    : ∃ called, w.processNewInstruction (info :: rest) = { w.process info with pc := .instruction called rest } := by
  obtain ⟨h, instruction⟩ := info
  cases instruction <;> exact ⟨_, rfl⟩

theorem process_cache (w : EventLoop J) (info : EventInfo)
    : (w.process info).evtHandlersCache = w.evtHandlersCache := by
  unfold process processAddInstruction
  repeat' split
  all_goals rfl

theorem process_congr {u : EventLoop J} (info : EventInfo) (hevt : u.evtHandlers = w.evtHandlers)
    (hbusy : u.busyPollEvts = w.busyPollEvts)
    : (u.process info).evtHandlers = (w.process info).evtHandlers
      ∧ (u.process info).busyPollEvts = (w.process info).busyPollEvts := by
  unfold process processRemoveInstruction processAddInstruction
  rw [hevt, hbusy]
  repeat' split
  all_goals exact ⟨rfl, rfl⟩

-- `u` is the state in which `process_new_instruction` goes on with `infos`.
theorem processNewInstruction_handles {u : EventLoop J} {infos : List EventInfo} (hevt : u.evtHandlers = w.evtHandlers)
    (hbusy : u.busyPollEvts = w.busyPollEvts) (hunprocessed : w.unprocessed = infos ++ u.evtHandlersCache)
    : Handles w (u.processNewInstruction infos) [] (infos.take 1) [] := by
  cases infos with
  | nil =>
    exact .nothing ⟨hevt, hbusy, hunprocessed.symm⟩
  | cons info rest =>
    obtain ⟨called, heq⟩ := processNewInstruction_cons u info rest
    obtain ⟨hevt', hbusy'⟩ := process_congr info hevt hbusy
    rw [heq]
    refine .processes ?_ hevt' hbusy' rfl
    rw [hunprocessed, unprocessed, process_cache, List.cons_append]

-- The thread of the loop is not about to process an instruction.
theorem tick_sameHandlers (hpc : w.pc ≠ .newInstructions) (hrest : ∀ called rest, w.pc ≠ .instruction called rest)
    : SameHandlers w w.tick := by
  have hquiet : w.unprocessed = w.evtHandlersCache := by
    unfold EventLoop.unprocessed
    split
    . next h => exact absurd h (hrest _ _)
    . rfl
  have hlog : ∀ e, SameHandlers w (w.addLog e) := fun e => .of_pc rfl rfl rfl rfl
  unfold tick
  split
  . exact .refl w
  . exact .of_moves hquiet rfl rfl rfl rfl
  . split <;> exact .of_moves hquiet rfl rfl rfl rfl
  . next h => exact absurd h hpc
  . next h => exact absurd h (hrest _ _)
  . split
    . exact .of_moves hquiet rfl rfl rfl rfl
    . exact handleBusyPolls_sameHandlers w _ hquiet
  . exact handleBusyPolls_sameHandlers w _ hquiet
  . dsimp only
    split
    . exact .of_moves hquiet rfl rfl rfl rfl
    . exact (hlog _).trans (runSameThreadJob_sameHandlers _ _ _ hquiet)
  . refine .trans ?_ (runSameThreadJob_sameHandlers _ _ _ ?_)
    . exact .of_pc rfl rfl rfl rfl
    . exact hquiet
  . exact .of_moves hquiet rfl rfl rfl rfl
  . split
    . exact .of_moves hquiet rfl rfl rfl rfl
    . exact .refl w
  . dsimp only
    split
    . exact .of_moves hquiet rfl rfl rfl rfl
    . exact .of_moves hquiet rfl rfl rfl rfl
  . refine .trans ?_ (runOtherThreadJob_sameHandlers _ _ ?_)
    . exact .of_pc rfl rfl rfl rfl
    . exact hquiet
  . exact runOtherThreadJob_sameHandlers _ _ hquiet

theorem tick_handles (w : EventLoop J)
    : Handles w w.tick [] (w.processes .tick) [] := by
  cases hpc : w.pc with
  | newInstructions =>
    simp only [tick, processes, hpc]
    refine processNewInstruction_handles ?_ ?_ ?_
    . rfl
    . rfl
    . simp only [unprocessed, hpc, List.append_nil]
  | instruction called rest =>
    simp only [tick, processes, hpc]
    apply processNewInstruction_handles rfl rfl
    simp only [unprocessed, hpc]
  | _ =>
    simp only [processes, hpc]
    apply Handles.nothing
    apply tick_sameHandlers <;> simp [hpc]

theorem complete_handles (w : EventLoop J) (r : Request) (raise : Handler → Bool)
    : Handles w (w.step (.complete r raise)) [] [] (w.times (.complete r raise)) := by
  have hnothing : ∀ w', SameHandlers w w' → ∀ raises, raises = [] → Handles w w' [] [] raises := by
    rintro w' hsame _ rfl
    exact .nothing hsame
  cases hpc : w.pc with
  | dispatching completed =>
    have hquiet : w.unprocessed = w.evtHandlersCache := by simp only [unprocessed, hpc]
    simp only [step, hpc]
    split
    . next hcan =>
      cases r with
      | notifier => exact .nothing (.of_moves hquiet rfl rfl rfl rfl)
      | internalTimer =>
        simp only [times, hpc, hcan, if_true]
        exact .times ⟨completed, hpc⟩ rfl
      | user n => exact .nothing (.of_moves hquiet rfl rfl rfl rfl)
    . next hcan =>
      apply hnothing w (.refl w)
      cases r <;> simp [times, hpc, hcan]
  | _ =>
    simp only [step, hpc]
    apply hnothing w (.refl w)
    cases r <;> simp [times, hpc]

theorem step_handles (w : EventLoop J) (a : Action J)
    : Handles w (w.step a) (w.accepts a) (w.processes a) (w.times a) := by
  have hinstruction : ∀ t h instruction, Handles w (if w.mayCall t then w.addInstruction h instruction else w)
      (if w.mayCall t ∧ (w.eeState = .esInit ∨ w.eeState = .esStart) then [⟨h, instruction⟩] else []) [] [] := by
    intro t h instruction
    by_cases hcall : w.mayCall t
    . by_cases hstate : w.eeState = .esInit ∨ w.eeState = .esStart
      . rw [if_pos hcall, if_pos ⟨hcall, hstate⟩, addInstruction, if_pos hstate]
        exact .accepts rfl
      . rw [if_pos hcall, if_neg (fun hboth => hstate hboth.2), addInstruction, if_neg hstate]
        exact .nothing (.refl w)
    . rw [if_neg hcall, if_neg (fun hboth => hcall hboth.1)]
      exact .nothing (.refl w)
  cases a with
  | openLoop param results =>
    apply Handles.nothing
    unfold step
    dsimp only
    split
    . exact openLoop_sameHandlers w param results
    . exact .refl w
  | addEvent t h => exact hinstruction t h .eiAdd
  | removeEvent t h => exact hinstruction t h .eiRemove
  | runInEventLoop t job =>
    apply Handles.nothing
    unfold step
    dsimp only
    split
    . exact runInEventLoop_sameHandlers w t job
    . exact .refl w
  | stop t =>
    apply Handles.nothing
    unfold step
    dsimp only
    split
    . exact .of_pc rfl rfl rfl rfl
    . exact .refl w
  | startLoop t =>
    apply Handles.nothing
    unfold step startLoop
    dsimp only
    split
    . next hpc =>
      split
      . exact .of_moves (by simp only [unprocessed, hpc]) rfl rfl rfl rfl
      . exact .refl w
    . exact .refl w
  | submit n =>
    apply Handles.nothing
    unfold step
    dsimp only
    split
    . exact .of_pc rfl rfl rfl rfl
    . exact .refl w
  | complete r raise => exact complete_handles w r raise
  | tick => exact tick_handles w

theorem Handles.flow {accepted processed : List EventInfo} {timed : List (Handler → Bool)}
    (h : Handles w w' accepted processed timed)
    : w.unprocessed ++ accepted = processed ++ w'.unprocessed := by
  cases h with
  | nothing hsame => rw [hsame.unprocessed, List.append_nil, List.nil_append]
  | accepts heq =>
    rw [heq]
    unfold unprocessed
    cases w.pc with
    | instruction called rest => exact List.append_assoc ..
    | _ => rfl
  | processes hunprocessed => rw [hunprocessed, List.append_nil, List.singleton_append]
  | times hpc heq =>
    obtain ⟨completed, hpc⟩ := hpc
    rw [heq]
    simp only [unprocessed, hpc]
    exact List.append_nil _

/--
Every instruction that is accepted is processed once and in its turn, or it is still waiting.
-/
theorem run_instructions (as : List (Action J))
    : outputs step accepts ({} : EventLoop J) as
      = outputs step processes ({} : EventLoop J) as ++ (run ({} : EventLoop J) as).unprocessed := by
  have hflow := outputs_flow (f := accepts) (g := processes)
    (fun w a => (step_handles w a).flow) ({} : EventLoop J) as
  exact hflow

/-! ### What the loop knows about a handler -/

structure Standing where
  -- added and not removed since
  registered : Bool := false
  -- `handle_loop_once` is called by every iteration
  polled : Bool := false
  deriving DecidableEq, Repr

inductive Change where
  | processes (info : EventInfo)
  | times (raise : Handler → Bool)

def changes (w : EventLoop J) (a : Action J) : List Change :=
  (w.processes a).map .processes ++ (w.times a).map .times

-- Between two instructions the timer decides whether a handler is polled, a handler for busy polling always is.
def Standing.replay (h : Handler) (v : Standing) : Change → Standing
  | .processes info =>
    if info.evtPtr = h then
      match info.instruction with
      | .eiAdd => { registered := true, polled := v.polled || h.eventType = .busyPoll }
      | .eiRemove => { registered := false, polled := false }
    else
      v
  | .times raise => if v.registered ∧ h.eventType = .normal then { v with polled := raise h } else v

def standing (h : Handler) (as : List (Action J)) : Standing :=
  (outputs step changes ({} : EventLoop J) as).foldl (Standing.replay h) {}

-- The sets are an implementation of what is known about `h`.
structure Stands (h : Handler) (w : EventLoop J) (v : Standing) : Prop where
  nodupEvt : w.evtHandlers.Nodup
  nodupBusy : w.busyPollEvts.Nodup
  evt : h ∈ w.evtHandlers ↔ h.eventType = .normal ∧ v.registered
  busy : h ∈ w.busyPollEvts ↔ v.polled
  registered : v.polled → v.registered
  busyPoll : h.eventType = .busyPoll → v.registered → v.polled

variable {h : Handler} {v : Standing} {hs busy : List Handler}

theorem mem_insertHandler (hs : List Handler) (x : Handler)
    : h ∈ insertHandler hs x ↔ x = h ∨ h ∈ hs := by
  unfold insertHandler
  split
  . next hx =>
    refine ⟨.inr, ?_⟩
    rintro (rfl | hmem)
    . exact hx
    . exact hmem
  . rw [List.mem_append, List.mem_singleton, or_comm, eq_comm]

theorem nodup_insertHandler (hnodup : hs.Nodup) (x : Handler)
    : (insertHandler hs x).Nodup := by
  unfold insertHandler
  split
  . exact hnodup
  . next hx => exact List.nodup_append_comm.mp (List.nodup_cons.mpr ⟨hx, hnodup⟩)

-- What is known about `h` stays true if it stays in the same sets.
theorem Stands.of_mem (hv : Stands h w v) (hnodup : w'.evtHandlers.Nodup ∧ w'.busyPollEvts.Nodup)
    (hevt : h ∈ w'.evtHandlers ↔ h ∈ w.evtHandlers) (hbusy : h ∈ w'.busyPollEvts ↔ h ∈ w.busyPollEvts)
    : Stands h w' v :=
  ⟨hnodup.1, hnodup.2, hevt.trans hv.evt, hbusy.trans hv.busy, hv.registered, hv.busyPoll⟩

theorem Stands.congr (hv : Stands h w v) (hevt : w'.evtHandlers = w.evtHandlers)
    (hbusy : w'.busyPollEvts = w.busyPollEvts)
    : Stands h w' v := by
  apply hv.of_mem
  . rw [hevt, hbusy]
    exact ⟨hv.nodupEvt, hv.nodupBusy⟩
  . rw [hevt]
  . rw [hbusy]

theorem Stands.removes (hv : Stands h w v) (x : Handler)
    : Stands h (w.processRemoveInstruction x) (v.replay h (.processes ⟨x, .eiRemove⟩)) := by
  have hnodup : (w.processRemoveInstruction x).evtHandlers.Nodup
      ∧ (w.processRemoveInstruction x).busyPollEvts.Nodup := by
    refine ⟨?_, hv.nodupBusy.erase x⟩
    unfold processRemoveInstruction
    dsimp only
    split
    . exact hv.nodupEvt.erase x
    . exact hv.nodupEvt
  by_cases hx : x = h
  . subst hx
    have hreplay : v.replay x (.processes ⟨x, .eiRemove⟩) = ⟨false, false⟩ := if_pos rfl
    have hevt : x ∉ (w.processRemoveInstruction x).evtHandlers := by
      unfold processRemoveInstruction
      dsimp only
      split
      . exact hv.nodupEvt.not_mem_erase
      . next htype => exact fun hmem => htype (hv.evt.mp hmem).1
    have hbusy : x ∉ (w.processRemoveInstruction x).busyPollEvts := hv.nodupBusy.not_mem_erase
    rw [hreplay]
    exact ⟨hnodup.1, hnodup.2, by simp [hevt], by simp [hbusy], by simp, by simp⟩
  . have hreplay : v.replay h (.processes ⟨x, .eiRemove⟩) = v := if_neg hx
    rw [hreplay]
    apply hv.of_mem hnodup
    . unfold processRemoveInstruction
      dsimp only
      split
      . exact List.mem_erase_of_ne (Ne.symm hx)
      . rfl
    . exact List.mem_erase_of_ne (Ne.symm hx)

theorem Stands.adds (hv : Stands h w v) (x : Handler)
    : Stands h (w.processAddInstruction x).1 (v.replay h (.processes ⟨x, .eiAdd⟩)) := by
  by_cases hx : x = h
  . subst hx
    have hreplay : v.replay x (.processes ⟨x, .eiAdd⟩) = ⟨true, v.polled || x.eventType = .busyPoll⟩ := if_pos rfl
    rw [hreplay]
    unfold processAddInstruction
    split
    . next htype =>
      refine ⟨nodup_insertHandler hv.nodupEvt x, hv.nodupBusy, ?_, ?_, fun _ => rfl, ?_⟩
      . simp [mem_insertHandler, htype]
      . simp [hv.busy, htype]
      . simp [htype]
    . next htype =>
      have hpoll : x.eventType = .busyPoll := by
        cases heq : x.eventType with
        | normal => exact absurd heq htype
        | busyPoll => rfl
      refine ⟨hv.nodupEvt, nodup_insertHandler hv.nodupBusy x, ?_, ?_, fun _ => rfl, ?_⟩
      . simp [hv.evt, hpoll]
      . simp [mem_insertHandler, hpoll]
      . simp [hpoll]
  . have hreplay : v.replay h (.processes ⟨x, .eiAdd⟩) = v := if_neg hx
    have hmem : ∀ hs : List Handler, h ∈ insertHandler hs x ↔ h ∈ hs := by
      intro hs
      rw [mem_insertHandler, or_iff_right hx]
    rw [hreplay]
    unfold processAddInstruction
    split
    . exact hv.of_mem ⟨nodup_insertHandler hv.nodupEvt x, hv.nodupBusy⟩ (hmem _) Iff.rfl
    . exact hv.of_mem ⟨hv.nodupEvt, nodup_insertHandler hv.nodupBusy x⟩ Iff.rfl (hmem _)

-- The timer decides about the handlers that it knows and leaves the other ones alone.
theorem mem_checks (raise : Handler → Bool) (hs : List Handler) (hnodup : busy.Nodup)
    : (hs.foldl (fun busy evt => if raise evt then insertHandler busy evt else busy.erase evt) busy).Nodup
      ∧ (h ∈ hs.foldl (fun busy evt => if raise evt then insertHandler busy evt else busy.erase evt) busy
        ↔ if h ∈ hs then raise h = true else h ∈ busy) := by
  induction hs generalizing busy with
  | nil => exact ⟨hnodup, by simp⟩
  | cons x hs ih =>
    rw [List.foldl_cons]
    split
    . next hraise =>
      obtain ⟨hnodup', hmem⟩ := ih (nodup_insertHandler hnodup x)
      refine ⟨hnodup', hmem.trans ?_⟩
      by_cases hx : x = h
      . subst hx
        simp [mem_insertHandler, hraise]
      . simp [mem_insertHandler, hx, Ne.symm hx]
    . next hraise =>
      obtain ⟨hnodup', hmem⟩ := ih (hnodup.erase x)
      refine ⟨hnodup', hmem.trans ?_⟩
      by_cases hx : x = h
      . subst hx
        simp [hraise, hnodup.not_mem_erase]
      . simp [Ne.symm hx, List.mem_erase_of_ne (Ne.symm hx)]

theorem Stands.times (hv : Stands h w v) (raise : Handler → Bool)
    : Stands h (w.onTimer raise) (v.replay h (.times raise)) := by
  obtain ⟨hnodup, hmem⟩ := mem_checks (h := h) raise w.evtHandlers hv.nodupBusy
  by_cases hknown : h ∈ w.evtHandlers
  . obtain ⟨htype, hregistered⟩ := hv.evt.mp hknown
    have hreplay : v.replay h (.times raise) = { v with polled := raise h } := if_pos ⟨hregistered, htype⟩
    rw [if_pos hknown] at hmem
    rw [hreplay]
    exact ⟨hv.nodupEvt, hnodup, hv.evt, hmem, fun _ => hregistered, by simp [htype]⟩
  . have hreplay : v.replay h (.times raise) = v := if_neg fun hboth => hknown (hv.evt.mpr ⟨hboth.2, hboth.1⟩)
    rw [if_neg hknown] at hmem
    rw [hreplay]
    exact hv.of_mem ⟨hv.nodupEvt, hnodup⟩ Iff.rfl hmem

theorem Stands.process (hv : Stands h w v) (info : EventInfo)
    : Stands h (w.process info) (v.replay h (.processes info)) := by
  obtain ⟨x, instruction⟩ := info
  cases instruction with
  | eiAdd => exact hv.adds x
  | eiRemove => exact hv.removes x

theorem Stands.handles {accepted processed : List EventInfo} {timed : List (Handler → Bool)} (hv : Stands h w v)
    (hhandles : Handles w w' accepted processed timed)
    : Stands h w' ((processed.map Change.processes ++ timed.map Change.times).foldl (Standing.replay h) v) := by
  cases hhandles with
  | nothing hsame => exact hv.congr hsame.evtHandlers hsame.busyPollEvts
  | accepts heq =>
    rw [heq]
    exact hv.congr rfl rfl
  | processes _ hevt hbusy _ => exact (hv.process _).congr hevt hbusy
  | times _ heq =>
    rw [heq]
    exact (hv.times _).congr rfl rfl

theorem run_stands (h : Handler) (as : List (Action J))
    : Stands h (run ({} : EventLoop J) as) (standing h as) := by
  apply outputs_replay (R := Stands h) as
  . exact fun w a v hv => hv.handles (step_handles w a)
  . exact ⟨.nil, .nil, by simp, by simp, by simp, by simp⟩

/--
The loop knows a handler if it has been added and not been removed since.
-/
theorem run_mem_iff (h : Handler) (as : List (Action J))
    : (h ∈ (run ({} : EventLoop J) as).evtHandlers ↔ h.eventType = .normal ∧ (standing h as).registered)
      ∧ (h ∈ (run ({} : EventLoop J) as).busyPollEvts ↔ (standing h as).polled) :=
  ⟨(run_stands h as).evt, (run_stands h as).busy⟩

/-! ### Busy polling -/

theorem step_pc {a : Action J} (ha : a.isTick = false)
    : (w.step a).pc = w.pc ∨ w.pc.quiet ∧ (w.step a).pc.quiet := by
  rcases step_cases (w := w) ha with ⟨-, hpc⟩ | ⟨t, job, heq⟩
  . exact hpc
  . left
    rw [heq]
    unfold runInEventLoop wakeUp
    dsimp only
    repeat' split
    all_goals rfl

theorem unpolled_of_quiet (hpc : w.pc.quiet)
    : w.unpolled = [] := by
  cases hw : w.pc <;> simp_all [Pc.quiet, unpolled]

theorem processNewInstruction_unpolled (w : EventLoop J) (infos : List EventInfo)
    : (w.processNewInstruction infos).unpolled = [] := by
  cases infos with
  | nil => rfl
  | cons info rest =>
    obtain ⟨called, heq⟩ := processNewInstruction_cons w info rest
    rw [heq]
    rfl

theorem runSameThreadJob_unpolled (w : EventLoop J) (i cnt : Nat)
    : (w.runSameThreadJob i cnt).unpolled = [] := by
  unfold runSameThreadJob
  repeat' split
  all_goals rfl

theorem runOtherThreadJob_unpolled (w : EventLoop J) (i : Nat)
    : (w.runOtherThreadJob i).unpolled = [] := by
  unfold runOtherThreadJob
  split <;> rfl

theorem handleBusyPolls_unpolled (w : EventLoop J) (hs : List Handler)
    : (w.handleBusyPolls hs).unpolled = hs.tail := by
  cases hs <;> rfl

-- Nothing is left to poll where the loop over `busy_poll_evts_` is not entered or gone on with.
theorem tick_unpolled_of_ne (hpolls : w.pc ≠ .busyPolls) (hpoll : ∀ rest, w.pc ≠ .busyPoll rest)
    : w.tick.unpolled = [] := by
  have hnil : w.unpolled = [] := by
    unfold unpolled
    split
    . next h => exact absurd h (hpoll _)
    . rfl
  unfold tick
  split
  . exact hnil
  . rfl
  . split <;> rfl
  . exact processNewInstruction_unpolled ..
  . exact processNewInstruction_unpolled ..
  . next h => exact absurd h hpolls
  . next h => exact absurd h (hpoll _)
  . dsimp only
    split
    . rfl
    . exact runSameThreadJob_unpolled ..
  . exact runSameThreadJob_unpolled ..
  . rfl
  . split
    . rfl
    . exact hnil
  . dsimp only
    split <;> rfl
  . exact runOtherThreadJob_unpolled ..
  . exact runOtherThreadJob_unpolled ..

theorem tick_unpolled (w : EventLoop J)
    : w.unpolled ++ w.visits .tick = w.polls .tick ++ w.tick.unpolled := by
  have htake : ∀ hs : List Handler, hs = hs.take 1 ++ hs.tail := by
    intro hs
    rw [← List.drop_one, List.take_append_drop]
  cases hpc : w.pc with
  | busyPolls =>
    have htick : w.tick.unpolled = w.busyPollEvts.tail := by
      simp only [tick, hpc]
      split
      . next hnone =>
        rw [hnone]
        rfl
      . exact handleBusyPolls_unpolled ..
    rw [htick]
    simp only [unpolled, visits, polls, hpc, if_true]
    exact htake _
  | busyPoll rest =>
    have htick : w.tick.unpolled = rest.tail := by
      simp only [tick, hpc]
      exact handleBusyPolls_unpolled ..
    rw [htick]
    simp only [unpolled, visits, polls, hpc, reduceCtorEq, if_false, List.append_nil]
    exact htake _
  | _ =>
    rw [tick_unpolled_of_ne (by simp [hpc]) (by simp [hpc])]
    simp only [unpolled, visits, polls, hpc, reduceCtorEq, if_false, List.append_nil]

theorem step_unpolled (w : EventLoop J) (a : Action J)
    : w.unpolled ++ w.visits a = w.polls a ++ (w.step a).unpolled := by
  cases ha : a.isTick with
  | true =>
    cases a with
    | tick => exact tick_unpolled w
    | _ => cases ha
  | false =>
    have hnone : w.visits a = [] ∧ w.polls a = [] := by
      cases a with
      | tick => cases ha
      | _ => exact ⟨rfl, rfl⟩
    have hsame : (w.step a).unpolled = w.unpolled := by
      rcases step_pc (w := w) ha with hpc | ⟨hquiet, hquiet'⟩
      . unfold unpolled
        rw [hpc]
      . rw [unpolled_of_quiet hquiet, unpolled_of_quiet hquiet']
    rw [hnone.1, hnone.2, hsame, List.append_nil, List.nil_append]

theorem Handles.busyPollEvts_eq {accepted processed : List EventInfo} {timed : List (Handler → Bool)}
    (h : Handles w w' accepted processed timed) (hunpolled : w'.unpolled ≠ [])
    : w'.busyPollEvts = w.busyPollEvts := by
  cases h with
  | nothing hsame => exact hsame.busyPollEvts
  | accepts heq => rw [heq]
  | processes _ _ _ hnil => exact absurd hnil hunpolled
  | times _ heq =>
    rw [heq] at hunpolled
    exact absurd rfl hunpolled

-- A handler that is still to be polled has not been removed in between.
theorem step_unpolled_subset (hsub : ∀ h ∈ w.unpolled, h ∈ w.busyPollEvts) (a : Action J)
    : ∀ h ∈ (w.step a).unpolled, h ∈ (w.step a).busyPollEvts := by
  intro h hh
  have hvisits : ∀ h ∈ w.visits a, h ∈ w.busyPollEvts := by
    cases a with
    | tick =>
      simp only [visits]
      split
      . exact fun _ => id
      . exact fun h hh => absurd hh List.not_mem_nil
    | _ => exact fun h hh => absurd hh List.not_mem_nil
  have hmem : h ∈ w.unpolled ++ w.visits a := by
    rw [step_unpolled]
    exact List.mem_append_right _ hh
  rw [(step_handles w a).busyPollEvts_eq (List.ne_nil_of_mem hh)]
  rcases List.mem_append.mp hmem with hmem | hmem
  . exact hsub h hmem
  . exact hvisits h hmem

theorem run_unpolled_subset (as : List (Action J))
    : ∀ h ∈ (run ({} : EventLoop J) as).unpolled, h ∈ (run ({} : EventLoop J) as).busyPollEvts := by
  refine foldl_invariant (I := fun w : EventLoop J => ∀ h ∈ w.unpolled, h ∈ w.busyPollEvts) as ?_ ?_
  . exact fun w a _ hsub => step_unpolled_subset hsub a
  . exact fun h hh => absurd hh List.not_mem_nil

theorem run_unpolled (as : List (Action J))
    : outputs step visits ({} : EventLoop J) as
      = outputs step polls ({} : EventLoop J) as ++ (run ({} : EventLoop J) as).unpolled :=
  outputs_flow step_unpolled ({} : EventLoop J) as

end EventLoop

end Event
end Ezio
