import Ezio.Event.SignalEvent
import Ezio.Event.Epoll.Lemmas.Reader
import Mathlib.Data.List.TakeDrop

/-!
This module contains what becomes of the signals that are queued when an event for the signalfd is delivered: one
record is read, and the file is taken to be empty.
-/

namespace Ezio
namespace Event
namespace SignalEvent

variable {w w' : SignalEvent} {pend : List (List Iovec)} {cb : Callback} {readable : Bool} {ready : List Nat}
    {intrs : Nat}

abbrev Backend : Fd → Epoll → List (List Iovec) → Callback → Bool → List Nat → Prop :=
  Reader .signal ⟨.signalFd, .none⟩

-- A read is pending: the first one only asks whether the file can be read.
inductive Phase (w : SignalEvent) : Prop
  | unregistered (hbackend : Backend w.fd w.poll [[]] handleEventReady false []) (hreg : Unregistered w.fd w.poll)
  | probing (hbackend : Backend w.fd w.poll [[]] handleEventReady false []) (hreg : Registered w.fd w.poll)
  | idle (hbackend : Backend w.fd w.poll [iov] handleSignalCb false []) (hreg : Registered w.fd w.poll)

structure Started (w : SignalEvent) : Prop where
  active : w.isActive
  phase : Phase w

-- The read side is not readable only if the kernel has said so, and every signal is handed to the handler.
structure EdgeHandled (w w' : SignalEvent) : Prop where
  marked : (w'.poll.action 0).isReadable = false → w.agains < w'.agains
  handled : w'.handled = w.handled ++ w.queue

theorem readRecord_go_intrs (size : Nat) (buf : List Iovec) (n : Nat) (sys : List SysRet)
    : FdIo.readRecord.go size buf (List.replicate n (SysRet.fail .intr) ++ sys) = FdIo.readRecord.go size buf sys := by
  induction n with
  | zero => rfl
  | succ n ih =>
    rw [List.replicate_succ, List.cons_append, FdIo.readRecord.go, if_pos rfl, ih]

-- The answer is a single record, or the failure if there is none.
theorem readFd_answers (w : SignalEvent) (intrs : Nat)
    : FdIo.SignalFd.readFd iov (w.readAnswers intrs) = match w.queue with
        | [] => .done ⟨-1, true, iov, []⟩ []
        | _ :: queue => .done ⟨128, true, iov, [(iov, 128)]⟩ (queue.map (fun _ => .ok 128 []) ++ [.fail .again]) := by
  unfold FdIo.SignalFd.readFd FdIo.readRecord readAnswers
  rw [if_neg (by decide), List.append_assoc, readRecord_go_intrs]
  cases w.queue with
  | nil => rfl
  | cons signo queue => rfl

-- `doReadTask` after the system call.
def afterRead (w : SignalEvent) : SignalEvent :=
  { w with
    queue := w.queue.tail
    ssiSigno := w.queue.headD w.ssiSigno
    agains := if w.queue = [] then w.agains + 1 else w.agains }.modifyAction 0 fun a => { a with isReadable := false }

theorem Backend.doReadTask_eq {t : Task} (h : Backend w.fd w.poll pend cb true ready) (hbuf : t.buffer = iov)
    (isEventTriggered : Bool) (intrs : Nat)
    : w.doReadTask 0 t isEventTriggered intrs = (w.afterRead.call 0 (if w.queue = [] then -1 else 128), false) := by
  have hop : (w.poll.action 0).readOp = some .signalFd := by
    have hops : (w.poll.action 0).fdOps = some ⟨.signalFd, .none⟩ := h.ops
    unfold EventAction.readOp
    rw [hops]
    rfl
  have hread : readIov (w.poll.action 0).readOp false t.buffer (w.readAnswers intrs)
      = FdIo.SignalFd.readFd iov (w.readAnswers intrs) := by
    rw [hop, hbuf]
    rfl
  unfold SignalEvent.doReadTask
  rw [if_neg (by rw [hbuf]; decide), hread, readFd_answers]
  unfold afterRead SignalEvent.modifyAction Source.modifyAction
  cases hqueue : w.queue with
  | nil => simp
  | cons signo queue => simp

theorem Backend.afterRead (h : Backend w.fd w.poll pend cb readable ready)
    : Backend w.fd w.afterRead.poll pend cb false ready :=
  Reader.setReadable (f := fun _ => false) h rfl

theorem modifyAction_id (w : SignalEvent)
    : (w.modifyAction 0 fun a => a) = w := by
  simp [SignalEvent.modifyAction, Source.modifyAction, Source.setPoll, Source.poll, Epoll.modifyAction,
    Epoll.modifyInfo]

theorem Backend.submitReadRequest (h : Backend w.fd w.poll pend cb readable ready) (hreg : Registered w.fd w.poll)
    (cb' : Option Callback)
    : ∃ poll, w.submitReadRequest cb' = { w with poll }
      ∧ Backend w.fd poll (pend ++ [iov]) (cb'.getD cb) readable (ready ++ if readable then [0] else [])
      ∧ Registered w.fd poll := by
  obtain ⟨poll, hsubmit, hbackend, hkernel, hchanges⟩ := h.submitAsyncRead iov cb' none rfl
  refine ⟨poll, ?_, hbackend, ?_, ?_⟩
  . simp [SignalEvent.submitReadRequest, SignalEvent.submitAsyncRead, Source.submitAsyncRead, Source.poll, Source.fd,
      Source.setPoll,
      hsubmit]
  . rw [hchanges]
    exact hreg.changes
  . rw [hkernel]
    exact hreg.interest

theorem Backend.popReadTask {buf : List Iovec} (h : Backend w.fd w.poll (buf :: pend) cb readable ready)
    (hreg : Registered w.fd w.poll)
    : ∃ poll, Source.popReadTask w 0 = { w with poll } ∧ Backend w.fd poll pend cb readable ready
      ∧ Registered w.fd poll := by
  obtain ⟨t, ts, htask, hbackend⟩ := h.pop
  refine ⟨_, ?_, hbackend, hreg.changes, hreg.interest⟩
  exact Source.popReadTask_cons htask

-- One task is pending, the pass consists of this task.
theorem Backend.handleEvents_eq {buf : List Iovec} (h : Backend w.fd w.poll [buf] cb true ready)
    (isEventTriggered : Bool) (intrs : Nat)
    : ∃ t, t.buffer = buf
      ∧ w.handleEvents 0 isEventTriggered intrs
        = Source.popReadTask ((w.doReadTask 0 t isEventTriggered intrs).1.modifyAction 0 fun a =>
            if (w.doReadTask 0 t isEventTriggered intrs).2 then a.addReadTask t else a) 0 := by
  obtain ⟨t, ts, htask, hbuf, hts⟩ := List.map_eq_cons_iff.mp h.pending
  rw [List.map_eq_nil_iff] at hts
  rw [hts] at htask
  exact ⟨t, hbuf, Source.handleEvents_singleton _ h.isReadable htask⟩

theorem Backend.call_eq (h : Backend w.fd w.poll pend cb readable ready) (ret : Int)
    : w.call 0 ret =
        if cb = handleEventReady then if ret < 0 then w else w.submitReadRequest (some handleSignalCb)
        else w.handleSignal ret := by
  have hcb : (w.poll.action 0).readBufIdxCallback = some (.read cb) := h.callback
  unfold call
  rw [hcb]
  simp

-- A read consumes one signal, or finds that there is none.
def consumed (w : SignalEvent) : SignalEvent :=
  { w with
    queue := w.queue.tail
    ssiSigno := w.queue.headD w.ssiSigno
    agains := if w.queue = [] then w.agains + 1 else w.agains
    handled := w.handled ++ w.queue.take 1 }

-- If there is none, the read that fails is not submitted again.
theorem Backend.handleEvents_read (h : Backend w.fd w.poll [iov] handleSignalCb true ready)
    (hreg : Registered w.fd w.poll) (hactive : w.isActive) (isEventTriggered : Bool) (intrs : Nat)
    : ∃ poll, w.handleEvents 0 isEventTriggered intrs = { w.consumed with poll }
      ∧ Backend w.fd poll (if w.queue = [] then [] else [iov]) handleSignalCb false ready ∧ Registered w.fd poll := by
  obtain ⟨t, hbuf, hpass⟩ := h.handleEvents_eq isEventTriggered intrs
  have hafter : Backend w.afterRead.fd w.afterRead.poll [iov] handleSignalCb false ready := h.afterRead
  have hregAfter : Registered w.afterRead.fd w.afterRead.poll := ⟨hreg.changes, hreg.interest⟩
  rw [h.doReadTask_eq hbuf] at hpass
  dsimp only at hpass
  simp only [Bool.false_eq_true, if_false, modifyAction_id] at hpass
  rw [hafter.call_eq, if_neg (by decide)] at hpass
  rw [hpass]
  cases hqueue : w.queue with
  | nil =>
    have hskip : w.afterRead.handleSignal (if ([] : List Nat) = [] then -1 else 128) = w.afterRead := rfl
    obtain ⟨poll, hpop, hbackend, hregPop⟩ := hafter.popReadTask hregAfter
    refine ⟨poll, ?_, hbackend, hregPop⟩
    rw [hskip, hpop]
    simp [SignalEvent.afterRead, SignalEvent.modifyAction, Source.modifyAction, Source.setPoll, consumed, hqueue]
  | cons signo queue =>
    let w₁ : SignalEvent := { w.afterRead with handled := w.afterRead.handled ++ [w.afterRead.ssiSigno] }
    have hafter₁ : Backend w₁.fd w₁.poll [iov] handleSignalCb false ready := hafter
    obtain ⟨poll, hsubmit, hbackend, hregSubmit⟩ := hafter₁.submitReadRequest hregAfter none
    have hcall : w.afterRead.handleSignal (if signo :: queue = [] then -1 else 128) = { w₁ with poll } := by
      rw [if_neg (List.cons_ne_nil _ _), handleSignal, if_neg]
      . exact hsubmit
      . have hsame : w.afterRead.isActive = true := hactive
        simp [hsame]
    have hbackend₁ : Backend ({ w₁ with poll } : SignalEvent).fd poll ([iov] ++ [iov]) handleSignalCb false ready := by
      simpa using hbackend
    obtain ⟨poll', hpop, hbackend', hregPop⟩ := Backend.popReadTask (w := { w₁ with poll }) hbackend₁ hregSubmit
    refine ⟨poll', ?_, hbackend', hregPop⟩
    rw [hcall, hpop]
    simp [w₁, SignalEvent.afterRead, SignalEvent.modifyAction, Source.modifyAction, Source.setPoll, consumed, hqueue]

theorem doReadyTasks_nil (w : SignalEvent) (intrs : Nat) (h : w.poll.readyEvents = [])
    : w.doReadyTasks intrs = w := by
  unfold doReadyTasks
  rw [h]
  rfl

-- The event has been delivered: one signal is consumed, whatever was pending.
def Delivered (w w' : SignalEvent) : Prop :=
  ∃ poll, w' = { w.consumed with poll }
    ∧ Backend w.fd poll (if w.queue = [] then [] else [iov]) handleSignalCb false [] ∧ Registered w.fd poll

theorem Backend.deliver_idle (h : Backend w.fd w.poll [iov] handleSignalCb false []) (hreg : Registered w.fd w.poll)
    (hactive : w.isActive) (intrs : Nat)
    : Delivered w (w.deliver 0 intrs) := by
  let w₁ := w.modifyAction 0 fun a => { a with isReadable := true }
  have hbackend : Backend w₁.fd w₁.poll [iov] handleSignalCb true [] :=
    Reader.setReadable (f := fun _ => true) h rfl
  have hreg₁ : Registered w₁.fd w₁.poll := ⟨hreg.changes, hreg.interest⟩
  obtain ⟨poll, hpass, hbackend', hreg'⟩ := hbackend.handleEvents_read hreg₁ hactive true intrs
  refine ⟨poll, ?_, hbackend', hreg'⟩
  have hset : w.setReadyEvents 0 intrs = { w.consumed with poll } := hpass
  unfold deliver
  rw [hset]
  exact doReadyTasks_nil _ _ hbackend'.readyEvents

-- The read is submitted while the file is known to be readable, `do_ready_tasks` makes it.
theorem Backend.deliver_probing (h : Backend w.fd w.poll [[]] handleEventReady false []) (hreg : Registered w.fd w.poll)
    (hactive : w.isActive) (intrs : Nat)
    : Delivered w (w.deliver 0 intrs) := by
  let w₁ := w.modifyAction 0 fun a => { a with isReadable := true }
  have hbackend : Backend w₁.fd w₁.poll [[]] handleEventReady true [] :=
    Reader.setReadable (f := fun _ => true) h rfl
  have hreg₁ : Registered w₁.fd w₁.poll := ⟨hreg.changes, hreg.interest⟩
  obtain ⟨t, hbuf, hpass⟩ := hbackend.handleEvents_eq true intrs
  obtain ⟨poll₂, hsubmit, hbackend₂, hreg₂⟩ := hbackend.submitReadRequest hreg₁ (some handleSignalCb)
  obtain ⟨poll₃, hpop, hbackend₃, hreg₃⟩ :=
    Backend.popReadTask (w := { w₁ with poll := poll₂ }) hbackend₂ hreg₂
  have hdo : w₁.doReadTask 0 t true intrs = ({ w₁ with poll := poll₂ }, false) := by
    unfold SignalEvent.doReadTask
    rw [if_pos hbuf, hbackend.call_eq, if_pos rfl, if_neg (by decide), hsubmit]
  have hset : w.setReadyEvents 0 intrs = { w₁ with poll := poll₃ } := by
    have hset : w.setReadyEvents 0 intrs = w₁.handleEvents 0 true intrs := rfl
    rw [hset, hpass, hdo]
    simp only [Bool.false_eq_true, if_false, modifyAction_id]
    exact hpop
  have hthird : Backend ({ w₁ with poll := poll₃ } : SignalEvent).fd poll₃ [iov] handleSignalCb true [0] := hbackend₃
  obtain ⟨poll₄, hread, hbackend₄, hreg₄⟩ :=
    Backend.handleEvents_read (w := { w₁ with poll := poll₃ }) hthird hreg₃ hactive false intrs
  refine ⟨{ poll₄ with readyEvents := poll₄.readyEvents.tail }, ?_, hbackend₄.popReady,
    hreg₄.changes, hreg₄.interest⟩
  have hready : poll₃.readyEvents = [0] := hbackend₃.readyEvents
  unfold deliver doReadyTasks
  rw [hset]
  dsimp only
  rw [hready, List.length_singleton, readyLoop]
  dsimp only
  rw [hready]
  dsimp only
  rw [hread]
  rfl

theorem Started.deliver (h : Started w) (hreg : Registered w.fd w.poll) (intrs : Nat)
    : Delivered w (w.deliver 0 intrs) := by
  cases h.phase with
  | unregistered hbackend hunreg =>
    have hsome := hreg.isSome
    rw [hunreg.interest] at hsome
    cases hsome
  | probing hbackend hreg => exact hbackend.deliver_probing hreg h.active intrs
  | idle hbackend hreg => exact hbackend.deliver_idle hreg h.active intrs

theorem Delivered.started (h : Delivered w w') (hactive : w.isActive) (hqueue : w.queue ≠ []) : Started w' := by
  obtain ⟨poll, rfl, hbackend, hreg⟩ := h
  rw [if_neg hqueue] at hbackend
  exact ⟨hactive, .idle hbackend hreg⟩

theorem start_started (num : Nat) : Started (start num) := by
  refine ⟨rfl, .unregistered ?_ ⟨rfl, rfl, rfl, rfl, rfl, rfl⟩⟩
  refine ⟨Int.natCast_nonneg num, rfl, rfl, ?_, rfl, rfl, rfl, rfl, rfl, rfl, rfl, rfl⟩
  exact Function.update_self ..

theorem Started.applyChanges (h : Started w) : Started w.applyChanges ∧ Registered w.fd w.applyChanges.poll := by
  cases h.phase with
  | unregistered hbackend hreg =>
    obtain ⟨hbackend', hreg'⟩ := hreg.applyChanges hbackend
    exact ⟨⟨h.active, .probing hbackend' hreg'⟩, hreg'⟩
  | probing hbackend hreg =>
    have happly : w.applyChanges.poll = w.poll := hreg.applyChanges
    rw [← happly] at hbackend hreg
    exact ⟨⟨h.active, .probing hbackend hreg⟩, hreg⟩
  | idle hbackend hreg =>
    have happly : w.applyChanges.poll = w.poll := hreg.applyChanges
    rw [← happly] at hbackend hreg
    exact ⟨⟨h.active, .idle hbackend hreg⟩, hreg⟩

theorem Started.readyEvents (h : Started w) : w.poll.readyEvents = [] := by
  cases h.phase with
  | unregistered hbackend _ => exact hbackend.readyEvents
  | probing hbackend _ => exact hbackend.readyEvents
  | idle hbackend _ => exact hbackend.readyEvents

theorem Started.of_edge (h : Started w) (edge : Bool) : Started { w with edge } := by
  cases h.phase with
  | unregistered hbackend hreg => exact ⟨h.active, .unregistered hbackend hreg⟩
  | probing hbackend hreg => exact ⟨h.active, .probing hbackend hreg⟩
  | idle hbackend hreg => exact ⟨h.active, .idle hbackend hreg⟩

theorem Started.step (h : Started w) (a : Action) : Started (w.step a) := by
  cases a with
  | arrive signo =>
    cases h.phase with
    | unregistered hbackend hreg => exact ⟨h.active, .unregistered hbackend hreg⟩
    | probing hbackend hreg => exact ⟨h.active, .probing hbackend hreg⟩
    | idle hbackend hreg => exact ⟨h.active, .idle hbackend hreg⟩
  | dispatch intrs =>
    obtain ⟨happlied, hreg⟩ := h.applyChanges
    have hregApplied : Registered w.applyChanges.fd w.applyChanges.poll := hreg
    show Started (w.dispatch intrs)
    unfold dispatch
    generalize w.applyChanges = w₁ at happlied hregApplied
    obtain ⟨mask, hinterest, -⟩ := hregApplied.interest
    dsimp only
    rw [hinterest]
    dsimp only
    split
    . next hedge =>
      have hdelivered := (happlied.of_edge false).deliver hregApplied intrs
      exact hdelivered.started happlied.active hedge.2.1
    . rw [doReadyTasks_nil _ _ (happlied.of_edge false).readyEvents]
      exact happlied.of_edge false

theorem run_started (num : Nat) (as : List Action) : Started ((start num).run as) :=
  foldl_invariant (I := Started) as (fun _ a _ h => h.step a) (start_started num)

/--
Whatever has happened before, an event that is delivered is handled as it should be if and only if no signal is queued.
All queued signals are handed to the handler if and only if there is at most one.
-/
theorem run_edgeHandled_iff (num : Nat) (as : List Action) (intrs : Nat)
    : let w := ((start num).run as).applyChanges
      (EdgeHandled w (w.deliver 0 intrs) ↔ w.queue = [])
        ∧ ((w.deliver 0 intrs).handled = w.handled ++ w.queue ↔ w.queue.length ≤ 1) := by
  obtain ⟨hstarted, hreg⟩ := (run_started num as).applyChanges
  have hregApplied : Registered ((start num).run as).applyChanges.fd ((start num).run as).applyChanges.poll := hreg
  dsimp only
  generalize ((start num).run as).applyChanges = w at hstarted hregApplied
  obtain ⟨poll, heq, hbackend, -⟩ := hstarted.deliver hregApplied intrs
  have hhandled : (w.deliver 0 intrs).handled = w.handled ++ w.queue ↔ w.queue.length ≤ 1 := by
    rw [heq]
    show w.handled ++ w.queue.take 1 = w.handled ++ w.queue ↔ _
    rw [List.append_right_inj, List.take_eq_self_iff]
  refine ⟨?_, hhandled⟩
  constructor
  . intro h
    by_contra hqueue
    have hmarked := h.marked
    rw [heq] at hmarked
    have hagains := hmarked hbackend.isReadable
    have hsame : ({ w.consumed with poll } : SignalEvent).agains = w.agains := if_neg hqueue
    omega
  . intro hqueue
    refine ⟨?_, hhandled.mpr (by rw [hqueue]; decide)⟩
    intro _
    rw [heq]
    have hmore : ({ w.consumed with poll } : SignalEvent).agains = w.agains + 1 := if_pos hqueue
    omega

-- Two signals arrive before the event is delivered. The second one stays in the queue, also in the next `dispatch`.
theorem twoSignals_stranded
    : let w := (start 3).run [.dispatch 0, .arrive 10, .arrive 12]
      ¬EdgeHandled w (w.dispatch 0)
        ∧ (w.dispatch 0).handled = [10]
        ∧ ((w.dispatch 0).poll.action 0).isReadable = false
        ∧ (w.dispatch 0).agains = 0
        ∧ ((w.dispatch 0).dispatch 0).queue = [12] := by
  have hhandled : (((start 3).run [.dispatch 0, .arrive 10, .arrive 12]).dispatch 0).handled = [10] := by decide +kernel
  refine ⟨?_, hhandled, by decide +kernel, by decide +kernel, by decide +kernel⟩
  intro h
  have hall := h.handled
  rw [hhandled] at hall
  revert hall
  decide +kernel

end SignalEvent
end Event
end Ezio
