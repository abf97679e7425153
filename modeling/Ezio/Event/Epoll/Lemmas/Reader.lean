import Ezio.Event.Epoll.Dispatch

/-!
This module contains the backend of an object that only reads a file: its `event_info` is the first one and its reads
are the tasks that are pending.
-/

namespace Ezio
namespace Event

-- `pend` are the buffers of the pending tasks.
structure Reader (type : FdType) (ops : FdOperations) (fd : Fd) (s : Epoll) (pend : List (List Iovec)) (cb : Callback)
    (readable : Bool) (ready : List Nat) : Prop where
  num : 0 ≤ fd.num
  type : fd.type = type
  inited : s.isInited
  known : s.fdToEventInfo fd.key = some 0
  watched : (s.infos 0).events.read
  reading : (s.infos 0).action.events.read
  ops : (s.infos 0).action.fdOps = some ops
  pending : (s.infos 0).action.pendingReadTask.map (·.buffer) = pend
  nonSubmit : (s.infos 0).action.nonSubmitReadTask = []
  callback : (s.infos 0).action.readBufIdxCallback = some (.read cb)
  isReadable : (s.infos 0).action.isReadable = readable
  readyEvents : s.readyEvents = ready

structure Registered (fd : Fd) (s : Epoll) : Prop where
  changes : s.evtChangeLst = []
  interest : ∃ mask, s.kernel.interest fd.key = some (mask, 0) ∧ mask.read

structure Unregistered (fd : Fd) (s : Epoll) : Prop where
  changes : s.evtChangeLst = [0]
  isInEpoll : (s.infos 0).isInEpoll = false
  infoFd : (s.infos 0).fd = fd
  isOpen : s.kernel.isOpen fd.key
  ctlErrs : s.kernel.ctlErrs = []
  interest : s.kernel.interest fd.key = none

namespace Reader

variable {type : FdType} {ops : FdOperations} {fd : Fd} {s : Epoll} {pend : List (List Iovec)} {cb : Callback}
  {readable : Bool} {ready : List Nat}

theorem setReadCb (h : Reader type ops fd s pend cb readable ready) (cb' : Option Callback)
    : Reader type ops fd (s.setReadCb 0 (cb'.map .read)) pend (cb'.getD cb) readable ready := by
  cases cb' with
  | none => exact h
  | some cb' =>
    constructor
    all_goals simp [Epoll.setReadCb, Epoll.modifyAction, Epoll.modifyInfo, EventAction.setReadCallback, h.num, h.type,
      h.inited, h.known, h.watched, h.ops, h.pending, h.nonSubmit, h.isReadable, h.readyEvents]

theorem setReadOffset (h : Reader type ops fd s pend cb readable ready) (offset : Option Nat)
    : Reader type ops fd (s.setReadOffset 0 offset) pend cb readable ready := by
  cases offset with
  | none => exact h
  | some offset =>
    constructor
    all_goals simp [Epoll.setReadOffset, Epoll.modifyAction, Epoll.modifyInfo, h.num, h.type, h.inited, h.known,
      h.watched, h.reading, h.ops, h.pending, h.nonSubmit, h.callback, h.isReadable, h.readyEvents]

-- The action is put up for `do_ready_tasks` if the file is known to be readable.
theorem queueRead (h : Reader type ops fd s pend cb readable ready) (t : Task)
    : Reader type ops fd (s.queueRead 0 t true) (pend ++ [t.buffer]) cb readable
        (ready ++ if readable then [0] else []) := by
  cases readable with
  | false =>
    have hpush : s.queueRead 0 t true = (s.takeTask).modifyAction 0 fun a => a.addReadTask t := by
      simp [Epoll.queueRead, Epoll.pushIfReadable, Epoll.action, Epoll.modifyAction, Epoll.modifyInfo, Epoll.takeTask,
        EventAction.addReadTask, h.isReadable]
    rw [hpush]
    constructor
    all_goals simp [Epoll.modifyAction, Epoll.modifyInfo, Epoll.takeTask, EventAction.addReadTask, h.num, h.type,
      h.inited, h.known, h.watched, h.reading, h.ops, h.pending, h.nonSubmit, h.callback, h.isReadable, h.readyEvents]
  | true =>
    have hpush : s.queueRead 0 t true = ((s.takeTask).modifyAction 0 fun a => a.addReadTask t).pushReady 0 := by
      simp [Epoll.queueRead, Epoll.pushIfReadable, Epoll.action, Epoll.modifyAction, Epoll.modifyInfo, Epoll.takeTask,
        EventAction.addReadTask, h.isReadable]
    rw [hpush]
    constructor
    all_goals simp [Epoll.modifyAction, Epoll.modifyInfo, Epoll.takeTask, Epoll.pushReady, EventAction.addReadTask,
      h.num, h.type, h.inited, h.known, h.watched, h.reading, h.ops, h.pending, h.nonSubmit, h.callback, h.isReadable,
      h.readyEvents]

theorem submitAsyncRead (h : Reader type ops fd s pend cb readable ready) (iov : List Iovec) (cb' : Option Callback)
    (opt : Option ReadOptions) (hopt : (opt.map (·.isSubmit)).getD true = true)
    : ∃ s', s.submitAsyncRead fd ⟨false, iov⟩ cb' opt = .ok (0, s')
      ∧ Reader type ops fd s' (pend ++ [iov]) (cb'.getD cb) readable (ready ++ if readable then [0] else [])
      ∧ s'.kernel = s.kernel ∧ s'.evtChangeLst = s.evtChangeLst := by
  have hnum : ¬ fd.num < 0 := Int.not_lt.mpr h.num
  have hcb := h.setReadCb cb'
  have hprepare : s.prepareRead fd 0 cb' opt
      = (s.setReadCb 0 (cb'.map .read)).setReadOffset 0 (opt.bind (·.offset)) := by
    simp [Epoll.prepareRead, Epoll.watchRead, hcb.watched]
  have hprepared := hcb.setReadOffset (opt.bind (·.offset))
  have hframe : ((s.setReadCb 0 (cb'.map .read)).setReadOffset 0 (opt.bind (·.offset))).kernel = s.kernel
      ∧ ((s.setReadCb 0 (cb'.map .read)).setReadOffset 0 (opt.bind (·.offset))).evtChangeLst = s.evtChangeLst
      ∧ ((s.setReadCb 0 (cb'.map .read)).setReadOffset 0 (opt.bind (·.offset))).nextTask = s.nextTask := by
    cases cb' <;> cases opt.bind (·.offset) <;> exact ⟨rfl, rfl, rfl⟩
  generalize hs₁ : (s.setReadCb 0 (cb'.map .read)).setReadOffset 0 (opt.bind (·.offset)) = s₁ at *
  have hqueue := hprepared.queueRead ⟨s₁.nextTask, iov, none, (opt.map (·.needSocketDetail)).getD false⟩
  generalize hs₂ : s₁.queueRead 0 _ true = s₂ at hqueue
  have hkernel : s₂.kernel = s₁.kernel ∧ s₂.evtChangeLst = s₁.evtChangeLst := by
    rw [← hs₂, Epoll.queueRead, if_pos rfl, Epoll.pushIfReadable]
    split <;> exact ⟨rfl, rfl⟩
  refine ⟨s₂, ?_, hqueue, hkernel.1.trans hframe.1, hkernel.2.trans hframe.2.1⟩
  rw [← hs₂]
  simp [Epoll.submitAsyncRead, h.inited, hnum, Epoll.findOrInsert, h.known, hprepare, hopt, hframe]

theorem setReadable (h : Reader type ops fd s pend cb readable ready) {f : EventAction → Bool} {b : Bool}
    (hf : f (s.infos 0).action = b)
    : Reader type ops fd (s.modifyAction 0 fun a => { a with isReadable := f a }) pend cb b ready := by
  constructor
  all_goals simp [Epoll.modifyAction, Epoll.modifyInfo, h.num, h.type, h.inited, h.known, h.watched, h.reading, h.ops,
    h.pending, h.nonSubmit, h.callback, hf, h.readyEvents]

theorem addReadTask (h : Reader type ops fd s pend cb readable ready) (t : Task)
    : Reader type ops fd (s.modifyAction 0 fun a => a.addReadTask t) (pend ++ [t.buffer]) cb readable ready := by
  constructor
  all_goals simp [Epoll.modifyAction, Epoll.modifyInfo, EventAction.addReadTask, h.num, h.type, h.inited, h.known,
    h.watched, h.reading, h.ops, h.pending, h.nonSubmit, h.callback, h.isReadable, h.readyEvents]

theorem pop {buf : List Iovec} (h : Reader type ops fd s (buf :: pend) cb readable ready)
    : ∃ t ts, (s.infos 0).action.pendingReadTask = t :: ts
      ∧ Reader type ops fd (s.modifyAction 0 fun a => { a with pendingReadTask := ts }) pend cb readable ready := by
  obtain ⟨t, ts, heq, -, hts⟩ := List.map_eq_cons_iff.mp h.pending
  refine ⟨t, ts, heq, ?_⟩
  constructor
  all_goals simp [Epoll.modifyAction, Epoll.modifyInfo, h.num, h.type, h.inited, h.known, h.watched, h.reading, h.ops,
    hts, h.nonSubmit, h.callback, h.isReadable, h.readyEvents]

theorem popReady {id : Nat} (h : Reader type ops fd s pend cb readable (id :: ready))
    : Reader type ops fd { s with readyEvents := s.readyEvents.tail } pend cb readable ready :=
  ⟨h.num, h.type, h.inited, h.known, h.watched, h.reading, h.ops, h.pending, h.nonSubmit, h.callback, h.isReadable,
    by rw [h.readyEvents]; rfl⟩

theorem length (h : Reader type ops fd s pend cb readable ready)
    : (s.action 0).pendingReadTask.length = pend.length := by
  rw [← h.pending, List.length_map]
  rfl

end Reader

variable {type : FdType} {ops : FdOperations} {fd : Fd} {s : Epoll} {pend : List (List Iovec)} {cb : Callback}
  {readable : Bool} {ready : List Nat}

theorem Unregistered.applyChanges (hreg : Unregistered fd s) (h : Reader type ops fd s pend cb readable ready)
    : Reader type ops fd s.applyChanges pend cb readable ready ∧ Registered fd s.applyChanges := by
  have hop : Epoll.changeOp (s.infos 0) = some .add := by
    simp [Epoll.changeOp, EventAction.isNoneEvt, EventAction.isReading, h.reading, hreg.isInEpoll]
  have happly : s.applyChanges = { s with
      evtChangeLst := []
      infos := Function.update s.infos 0 { s.infos 0 with isInEpoll := true, isInChangeList := false }
      kernel := { s.kernel with
        ctlErrs := []
        interest := Function.update s.kernel.interest fd.key
          (some ({ (s.infos 0).action.events with et := (s.infos 0).events.et }, 0)) } } := by
    simp [Epoll.applyChanges, hreg.changes, Epoll.applyOneChange, hop, Kernel.epollCtl, hreg.ctlErrs, hreg.infoFd,
      hreg.isOpen, hreg.interest, Epoll.modifyInfo]
  rw [happly]
  constructor
  . constructor
    all_goals simp [h.num, h.type, h.inited, h.known, h.watched, h.reading, h.ops, h.pending, h.nonSubmit, h.callback,
      h.isReadable, h.readyEvents]
  . exact ⟨rfl, _, Function.update_self .., h.reading⟩

theorem Registered.isSome (hreg : Registered fd s)
    : (s.kernel.interest fd.key).isSome := by
  obtain ⟨mask, hinterest, -⟩ := hreg.interest
  rw [hinterest]
  rfl

theorem Registered.applyChanges (hreg : Registered fd s)
    : s.applyChanges = s := by
  unfold Epoll.applyChanges
  rw [hreg.changes, List.foldl_nil, ← hreg.changes]

end Event
end Ezio
