import Ezio.Event.EventService
import Ezio.Event.Poller.Lemmas

/-!
This module contains what holds of an `event_service` in every run: its poller is sound, and an open file has a type.
-/

namespace Ezio
namespace Event
namespace EventService

variable {w w' : EventService} {id : Nat} {ret : Int}

@[simp]
theorem addLog_log (w : EventService) (e : Entry) : (w.addLog e).log = w.log ++ [e] := rfl

@[simp]
theorem addLog_poll (w : EventService) (e : Entry) : (w.addLog e).poll = w.poll := rfl

@[simp]
theorem setObj_objs_self (w : EventService) (id : Nat) (o : EventBase) : (w.setObj id o).objs id = o :=
  Function.update_self ..

theorem setObj_objs_ne (w : EventService) (o : EventBase) {i : Nat} (h : i ≠ id) : (w.setObj id o).objs i = w.objs i :=
  Function.update_of_ne h ..

structure Valid (w : EventService) : Prop where
  poll : w.poll.Sound
  fds : ∀ id, 0 ≤ (w.objs id).fd.num → (w.objs id).fd.type ≠ .unknown

theorem init_valid {p : Poller} (h : p.Fresh) (kinds : Nat → Kind)
    : (init p kinds).Valid :=
  ⟨h.sound, fun _ hfd => by cases hfd⟩

namespace Valid

theorem of_objs (h : w.Valid) (hpoll : w'.poll = w.poll) (hobjs : w'.objs = w.objs)
    : w'.Valid := by
  refine ⟨?_, ?_⟩
  . rw [hpoll]
    exact h.poll
  . rw [hobjs]
    exact h.fds

theorem setObj (h : w.Valid) {o : EventBase} (ho : 0 ≤ o.fd.num → o.fd.type ≠ .unknown)
    : (w.setObj id o).Valid := by
  refine ⟨h.poll, fun i => ?_⟩
  by_cases hi : i = id
  . rw [hi, setObj_objs_self]
    exact ho
  . rw [setObj_objs_ne w o hi]
    exact h.fds i

theorem modifyObj (h : w.Valid) {f : EventBase → EventBase} (hf : ∀ o, (f o).fd = o.fd)
    : (w.modifyObj id f).Valid := by
  apply h.setObj
  rw [hf]
  exact h.fds id

theorem started (h : w.Valid)
    : (w.modifyObj id fun o => { o with evtState := .opened }).Valid :=
  h.modifyObj fun _ => rfl

theorem closeFd (h : w.Valid) {f : EventBase → EventBase} (hf : ∀ o, (f o).fd = ⟨-1, .unknown⟩)
    : (w.modifyObj id f).Valid := by
  apply h.setObj
  rw [hf]
  intro hfd
  cases hfd

theorem addInstruction (h : w.Valid) (instruction : EventLoop.ElInstruction)
    : (w.addInstruction id instruction).Valid := by
  unfold EventService.addInstruction
  split
  . exact h.of_objs rfl rfl
  . exact h

theorem assertZero {p : Poller} (h : w.Valid) (hp : p.Sound) (hzero : w.assertZero (ret, p) = .ok w')
    : w'.Valid := by
  unfold EventService.assertZero at hzero
  split at hzero
  . cases hzero
    exact ⟨hp, h.fds⟩
  . cases hzero

theorem setPoll {p : Poller} (h : w.Valid) (hp : p.Sound)
    : Valid { w with poll := p } :=
  ⟨hp, h.fds⟩

/-! ### The loop -/

theorem addOne {e : FdEvt} (h : w.Valid) (hadd : addOne id w e = .ok w')
    : w'.Valid := by
  obtain ⟨w₁, hread, hwrite⟩ := Except.bind_eq_ok hadd
  have h₁ : w₁.Valid := by
    unfold EventService.addRead at hread
    split at hread
    . obtain ⟨r, hsubmit, hread⟩ := Except.bind_eq_ok hread
      exact h.assertZero (h.poll.exec hsubmit) hread
    . cases hread
      exact h
  unfold EventService.addWrite at hwrite
  split at hwrite
  . obtain ⟨r, hsubmit, hwrite⟩ := Except.bind_eq_ok hwrite
    exact h₁.assertZero (h₁.poll.exec hsubmit) hwrite
  . cases hwrite
    exact h₁

theorem processAddInstruction {info : EventInfo} (h : w.Valid) (hadd : w.processAddInstruction info = .ok w')
    : w'.Valid := by
  unfold EventService.processAddInstruction at hadd
  split at hadd
  . cases hadd
    exact h
  . obtain ⟨w₁, hfold, hstarted⟩ := Except.bind_eq_ok hadd
    cases hstarted
    have hinit : Valid { w with evtHandlers := w.evtHandlers ++ [info.id] } := h.of_objs rfl rfl
    have hround : ∀ w, ∀ e ∈ info.fdsEvts, ∀ w', w.Valid → EventService.addOne info.id w e = .ok w' → w'.Valid :=
      fun _ _ _ _ h hadd => h.addOne hadd
    exact (Except.foldlM_invariant hround hinit hfold).started

theorem cancelRead {e : FdEvt} (h : w.Valid) (hcancel : w.cancelRead id e = .ok (ret, w'))
    : w'.Valid := by
  unfold EventService.cancelRead at hcancel
  split at hcancel
  . obtain ⟨⟨ret, p⟩, hsubmit, hcancel⟩ := Except.bind_eq_ok hcancel
    cases hcancel
    have hp := h.poll.exec hsubmit
    split
    . exact (h.setPoll hp).of_objs rfl rfl
    . exact h.setPoll hp
  . cases hcancel
    exact h

theorem cancelWrite {e : FdEvt} (h : w.Valid) (hcancel : w.cancelWrite id e = .ok (ret, w'))
    : w'.Valid := by
  unfold EventService.cancelWrite at hcancel
  split at hcancel
  . obtain ⟨⟨ret, p⟩, hsubmit, hcancel⟩ := Except.bind_eq_ok hcancel
    cases hcancel
    exact h.setPoll (h.poll.exec hsubmit)
  . cases hcancel
    exact h

theorem cancelOne {r r' : Bool × EventService} {e : FdEvt} (h : r.2.Valid) (hcancel : cancelOne id r e = .ok r')
    : r'.2.Valid := by
  obtain ⟨⟨ret, w₁⟩, hread, hcancel⟩ := Except.bind_eq_ok hcancel
  have h₁ := h.cancelRead hread
  dsimp only at hcancel
  split at hcancel
  . cases hcancel
    exact h₁
  . obtain ⟨⟨ret, w₂⟩, hwrite, hcancel⟩ := Except.bind_eq_ok hcancel
    cases hcancel
    exact h₁.cancelWrite hwrite

theorem onStopped (h : w.Valid) (isSuccess : Bool)
    : (w.onStopped id isSuccess).Valid := by
  unfold EventService.onStopped
  split
  . apply Valid.modifyObj
    . split
      . exact h.of_objs rfl rfl
      . exact h
    . exact fun _ => rfl
  . exact h

theorem processRemoveInstruction {info : EventInfo} (h : w.Valid) (hremove : w.processRemoveInstruction info = .ok w')
    : w'.Valid := by
  unfold EventService.processRemoveInstruction at hremove
  split at hremove
  . obtain ⟨⟨isSuc, w₁⟩, hfold, hstopped⟩ := Except.bind_eq_ok hremove
    cases hstopped
    have hinit : Valid { w with evtHandlers := w.evtHandlers.filter (· ≠ info.id) } := h.of_objs rfl rfl
    have hround : ∀ r : Bool × EventService, ∀ e ∈ info.fdsEvts, ∀ r' : Bool × EventService, r.2.Valid
        → EventService.cancelOne info.id r e = .ok r' → r'.2.Valid :=
      fun _ _ _ _ h hcancel => h.cancelOne hcancel
    exact (Except.foldlM_invariant hround hinit hfold).onStopped isSuc
  . cases hremove
    exact h.onStopped true

theorem processNewInstruction (h : w.Valid) (hprocess : w.processNewInstruction = .ok w')
    : w'.Valid := by
  unfold EventService.processNewInstruction at hprocess
  split at hprocess
  . cases hprocess
    exact h
  . next info rest _ =>
    have hrest : Valid { w with newEventVec := rest } := h.of_objs rfl rfl
    dsimp only at hprocess
    split at hprocess
    . exact hrest.processRemoveInstruction hprocess
    . exact hrest.processAddInstruction hprocess

/-! ### The classes -/

theorem register (h : w.Valid) {o : EventBase} (ho : 0 ≤ o.fd.num → o.fd.type ≠ .unknown)
    : (w.register id o).Valid :=
  (h.setObj (o := { o with fdsEvts := o.fdsEvts ++ [⟨o.fd, EV_READ⟩], evtServicePtr := true }) ho).addInstruction .eiAdd

theorem openObj (h : w.Valid) (id : Nat) (args : OpenArgs)
    : (w.openObj id args).1.Valid := by
  have hold := h.fds id
  unfold EventService.openObj
  split
  . unfold notifierOpen
    dsimp only
    split
    . exact h
    . split
      . exact h.setObj fun _ heq => by cases heq
      . apply Valid.started
        exact h.register fun _ heq => by cases heq
  . unfold inotifyOpen
    dsimp only
    split
    . exact h
    . split
      . exact h.setObj fun _ heq => by cases heq
      . apply Valid.started
        exact h.register fun _ heq => by cases heq
  . unfold signalEventOpen
    dsimp only
    split
    . exact h
    . split
      . exact h.setObj hold
      . split
        . exact h.setObj fun _ heq => by cases heq
        . exact h.register fun _ => nofun

theorem closeBase (h : w.Valid)
    : (w.closeBase id).Valid := by
  unfold EventService.closeBase
  apply Valid.modifyObj
  . split
    . exact h.addInstruction .eiRemove
    . exact h
  . exact fun _ => rfl

theorem closeObj (h : w.Valid) (id : Nat)
    : (w.closeObj id).1.Valid := by
  have hclosed : (w.closeBase id).Valid := h.closeBase
  unfold EventService.closeObj
  split
  . unfold notifierClose
    split
    . dsimp only
      exact hclosed.closeFd fun _ => rfl
    . exact h
  . unfold inotifyClose
    split
    . dsimp only
      exact hclosed.closeFd fun _ => rfl
    . exact h
  . unfold signalEventClose
    dsimp only
    exact hclosed.closeFd fun _ => rfl

theorem close (h : w.Valid) (id : Nat)
    : (w.close id).Valid := by
  have hclose := h.closeObj id
  unfold EventService.close
  dsimp only
  split
  . exact hclose.of_objs rfl rfl
  . exact hclose

theorem submitReadRequest {cb : Option Callback} (h : w.Valid) (hsubmit : w.submitReadRequest id cb = .ok w')
    : w'.Valid := by
  unfold EventService.submitReadRequest at hsubmit
  dsimp only at hsubmit
  split at hsubmit
  . obtain ⟨w₁, hzero, hlog⟩ := Except.bind_eq_ok hsubmit
    obtain ⟨r, hread, hzero⟩ := Except.bind_eq_ok hzero
    cases hlog
    exact (h.assertZero (h.poll.exec hread) hzero).of_objs rfl rfl
  . cases hsubmit

theorem stepPoll {st : Poller.Step} (h : w.Valid) (hstep : w.stepPoll st = .ok w')
    : w'.Valid := by
  unfold EventService.stepPoll at hstep
  cases hres : w.poll.step st with
  | ok p =>
    rw [hres] at hstep
    cases hstep
    exact h.setPoll (h.poll.step hres)
  | error f =>
    rw [hres] at hstep
    cases hstep

theorem runCall {c : Call} (h : w.Valid) (hcall : w.runCall c = .ok w')
    : w'.Valid := by
  cases c with
  | openObj id args =>
    cases hcall
    exact h.openObj id args
  | close id =>
    cases hcall
    exact h.close id
  | setCancelReadCallback id cb =>
    cases hcall
    exact h.modifyObj fun _ => rfl
  | addWatch id watchFd =>
    cases hcall
    unfold EventService.addWatch
    split
    . exact h.modifyObj fun _ => rfl
    . exact h
  | setEeState eeState =>
    cases hcall
    exact h.of_objs rfl rfl
  | epollOp op => exact h.stepPoll hcall
  | ioUringOp op => exact h.stepPoll hcall

theorem runCalls {cs : List Call} (h : w.Valid) (hcalls : w.runCalls cs = .ok w')
    : w'.Valid :=
  Except.foldlM_invariant (I := Valid) (fun _ _ _ _ h hcall => h.runCall hcall) h hcalls

theorem callWatches {wds : List UInt32} {user : List (List Call)} (h : w.Valid)
    (hcall : w.callWatches id wds user = .ok w')
    : w'.Valid := by
  induction wds generalizing w user with
  | nil =>
    cases hcall
    exact h
  | cons wd wds ih =>
    unfold EventService.callWatches at hcall
    split at hcall
    . obtain ⟨w₁, hcalls, hrest⟩ := Except.bind_eq_ok hcall
      exact ih (h.runCalls hcalls) hrest
    . exact ih h hcall

theorem callUser {r : Read} (h : w.Valid) (hcall : w.callUser id r = .ok w')
    : w'.Valid := by
  unfold EventService.callUser at hcall
  split at hcall
  . exact h.callWatches hcall
  . exact h.runCalls hcall

theorem handle {r : Read} (h : w.Valid) (hhandle : w.handle id r = .ok w')
    : w'.Valid := by
  unfold EventService.handle at hhandle
  split at hhandle
  . cases hhandle
    exact h
  . obtain ⟨w₁, hcall, hsubmit⟩ := Except.bind_eq_ok hhandle
    exact (h.callUser hcall).submitReadRequest hsubmit

theorem onEventReady (h : w.Valid) (hready : w.onEventReady id ret = .ok w')
    : w'.Valid := by
  unfold EventService.onEventReady at hready
  split at hready
  . cases hready
    exact h
  . exact h.submitReadRequest hready

theorem tryStep {a : Action} (h : w.Valid) (hstep : w.tryStep a = .ok w')
    : w'.Valid := by
  cases a with
  | call c => exact h.runCall hstep
  | swap =>
    cases hstep
    split
    . exact h.of_objs rfl rfl
    . exact h
  | process => exact h.processNewInstruction hstep
  | ready id ret => exact h.onEventReady hstep
  | handle id r => exact h.handle hstep
  | poll st => exact h.stepPoll hstep

end Valid

theorem Valid.step (h : w.Valid) (a : Action)
    : (w.step a).Valid := by
  unfold EventService.step
  split
  . exact h
  . split
    . next hres => exact h.tryStep hres
    . exact h.of_objs rfl rfl

theorem run_valid {p : Poller} (hp : p.Fresh) (kinds : Nat → Kind) (as : List Action)
    : ((init p kinds).run as).Valid :=
  foldl_invariant (I := Valid) as (fun _ a _ h => h.step a) (init_valid hp kinds)

end EventService

end Event
end Ezio
