import Mathlib.Logic.Relation
import Ezio.Event.Epoll.Dispatch

/-!
This module contains the lemmas about the state of the epoll backend that the other modules build on:
how its fields change, and which single updates a call of the interface consists of.
-/

namespace Ezio
namespace Event

namespace EventAction

variable (a : EventAction) (type : FdType)

theorem setFdOps_eq
    : ∃ ops r w, a.setFdOps type = { a with fdOps := ops, isReadable := r, isWritable := w } := by
  unfold setFdOps
  split
  . exact ⟨_, _, _, rfl⟩
  . split <;> exact ⟨_, _, _, rfl⟩

theorem setFdOps_fdOps : (a.setFdOps type).fdOps = a.fdOps ∨ (a.setFdOps type).fdOps = opsOf type := by
  unfold setFdOps
  split
  . exact .inl rfl
  next ops hops =>
    rw [hops]
    split
    . exact .inr rfl
    . exact .inr rfl

@[simp]
theorem setFdOps_fd : (a.setFdOps type).fd = a.fd := by
  have ⟨_, _, _, h⟩ := a.setFdOps_eq type
  rw [h]

@[simp]
theorem setFdOps_events : (a.setFdOps type).events = a.events := by
  have ⟨_, _, _, h⟩ := a.setFdOps_eq type
  rw [h]

@[simp]
theorem setFdOps_readBufIdxCallback
    : (a.setFdOps type).readBufIdxCallback = a.readBufIdxCallback := by
  have ⟨_, _, _, h⟩ := a.setFdOps_eq type
  rw [h]

@[simp]
theorem setFdOps_hasAcceptTask : (a.setFdOps type).hasAcceptTask = a.hasAcceptTask := by
  have ⟨_, _, _, h⟩ := a.setFdOps_eq type
  rw [h]

@[simp]
theorem setFdOps_pendingReadTask : (a.setFdOps type).pendingReadTask = a.pendingReadTask := by
  have ⟨_, _, _, h⟩ := a.setFdOps_eq type
  rw [h]

@[simp]
theorem setFdOps_nonSubmitReadTask : (a.setFdOps type).nonSubmitReadTask = a.nonSubmitReadTask := by
  have ⟨_, _, _, h⟩ := a.setFdOps_eq type
  rw [h]

@[simp]
theorem setFdOps_pendingWriteTask : (a.setFdOps type).pendingWriteTask = a.pendingWriteTask := by
  have ⟨_, _, _, h⟩ := a.setFdOps_eq type
  rw [h]

@[simp]
theorem setFdOps_nonSubmitWriteTask
    : (a.setFdOps type).nonSubmitWriteTask = a.nonSubmitWriteTask := by
  have ⟨_, _, _, h⟩ := a.setFdOps_eq type
  rw [h]

@[simp]
theorem setFdOps_multishotReadTask : (a.setFdOps type).multishotReadTask = a.multishotReadTask := by
  have ⟨_, _, _, h⟩ := a.setFdOps_eq type
  rw [h]

theorem addMultishotReadTask_eq (t : MultishotTask) (blocks : List Iovec)
    : ∃ hdrs ops, a.addMultishotReadTask t blocks =
        { a with multishotReadTask := some t, mmsghdrForUdpMultishot := hdrs, fdOps := ops } := by
  unfold addMultishotReadTask setReadOp
  split
  . exact ⟨_, _, rfl⟩
  . split
    . exact ⟨_, _, rfl⟩
    . exact ⟨_, _, rfl⟩
  . exact ⟨_, _, rfl⟩

variable {a} {a' : EventAction}

-- The flags only change along with the operations, if there is a multishot read to be cleared.
theorem clearMultishotTask_eq_ok (h : a.clearMultishotTask = .ok a')
    : ∃ hdrs ops r w, (a.multishotReadTask = none → r = a.isReadable)
        ∧ (ops = a.fdOps ∨ ops = opsOf a.fd.type) ∧ a' =
        { a with
          multishotReadTask := none, mmsghdrForUdpMultishot := hdrs, fdOps := ops, isReadable := r,
          isWritable := w } := by
  unfold clearMultishotTask at h
  split at h
  next hnone =>
    cases h
    refine ⟨a.mmsghdrForUdpMultishot, a.fdOps, a.isReadable, a.isWritable, fun _ => rfl, .inl rfl, ?_⟩
    rw [← hnone]
  next hsome =>
    split at h
    . cases h
      have ⟨_, _, _, h⟩ := setFdOps_eq { a with multishotReadTask := none } a.fd.type
      have hops := setFdOps_fdOps { a with multishotReadTask := none } a.fd.type
      rw [h] at hops
      exact ⟨_, _, _, _, by simp [hsome], hops, h⟩
    . cases h
      have ⟨_, _, _, h⟩ := setFdOps_eq
        { a with multishotReadTask := none, mmsghdrForUdpMultishot := .freed } a.fd.type
      have hops := setFdOps_fdOps
        { a with multishotReadTask := none, mmsghdrForUdpMultishot := .freed } a.fd.type
      rw [h] at hops
      exact ⟨_, _, _, _, by simp [hsome], hops, h⟩
    . cases h

theorem disableRead_eq_ok (h : a.disableRead = .ok a')
    : ∃ hdrs ops r w, (a.multishotReadTask = none → r = a.isReadable)
        ∧ (ops = a.fdOps ∨ ops = opsOf a.fd.type) ∧ a' =
        { a with
          events := { a.events with read := false }, readBufIdxCallback := none,
          pendingReadTask := [], nonSubmitReadTask := [], hasAcceptTask := false,
          multishotReadTask := none, mmsghdrForUdpMultishot := hdrs, fdOps := ops, isReadable := r,
          isWritable := w } := by
  unfold disableRead at h
  obtain ⟨b, hclear, h⟩ := Except.bind_eq_ok h
  have ⟨_, _, _, _, hr, hops, hb⟩ := clearMultishotTask_eq_ok hclear
  cases h
  rw [hb]
  exact ⟨_, _, _, _, hr, hops, rfl⟩

theorem moveTasks_all {size : Nat} (hsize : size < 2 ^ 32) {i : BitVec 32} (pending : List Task) {nonSubmit : List Task}
    (hi : i.toNat + nonSubmit.length = size)
    : moveTasks size i pending nonSubmit = .ok (pending ++ nonSubmit, []) := by
  induction nonSubmit generalizing i pending with
  | nil =>
    rw [List.length_nil, Nat.add_zero] at hi
    rw [moveTasks, if_neg (by omega), List.append_nil]
  | cons t nonSubmit ih =>
    rw [List.length_cons] at hi
    have hnext : (i + 1).toNat = i.toNat + 1 := by
      rw [BitVec.toNat_add]
      exact Nat.mod_eq_of_lt (show i.toNat + 1 < 2 ^ 32 by omega)
    rw [moveTasks, if_pos (by omega), ih _ (by omega), List.append_assoc]
    rfl

-- A size that a `uint32_t` does not reach.
theorem moveTasks_uncounted {size : Nat} (hsize : 2 ^ 32 ≤ size) (i : BitVec 32) (pending nonSubmit : List Task)
    : moveTasks size i pending nonSubmit = .error .emptyDeferredQueue := by
  have hlt : ∀ i : BitVec 32, i.toNat < size := fun i => Nat.lt_of_lt_of_le i.isLt hsize
  induction nonSubmit generalizing i pending with
  | nil => rw [moveTasks, if_pos (hlt i)]
  | cons t nonSubmit ih => rw [moveTasks, if_pos (hlt i), ih]

-- `submit` where the loops move all tasks.
def submitted (a : EventAction) : EventAction :=
  { a with
    pendingReadTask := a.pendingReadTask ++ a.nonSubmitReadTask
    nonSubmitReadTask := []
    pendingWriteTask := a.pendingWriteTask ++ a.nonSubmitWriteTask
    nonSubmitWriteTask := []
    multishotReadTask := a.multishotReadTask.map fun t => { t with isSubmit := true } }

-- The counters of the loops reach the sizes of the deques.
def Countable (a : EventAction) : Prop :=
  a.nonSubmitReadTask.length < 2 ^ 32 ∧ a.nonSubmitWriteTask.length < 2 ^ 32

instance (a : EventAction) : Decidable a.Countable := inferInstanceAs (Decidable (_ ∧ _))

-- The tasks of one side that wait for `submit`.
def deferredTask (a : EventAction) (isRead : Bool) : List Task :=
  if isRead then a.nonSubmitReadTask else a.nonSubmitWriteTask

theorem countable_iff (a : EventAction)
    : a.Countable ↔ ∀ isRead, (a.deferredTask isRead).length < 2 ^ 32 := by
  rw [Bool.forall_bool]
  exact and_comm

theorem submit_eq (a : EventAction)
    : a.submit = if a.Countable then .ok a.submitted else .error .emptyDeferredQueue := by
  have hzero : ∀ l : List Task, (0 : BitVec 32).toNat + l.length = l.length := fun l => Nat.zero_add _
  unfold submit
  by_cases hreads : a.nonSubmitReadTask.length < 2 ^ 32
  . rw [moveTasks_all hreads _ (hzero _)]
    by_cases hwrites : a.nonSubmitWriteTask.length < 2 ^ 32
    . rw [moveTasks_all hwrites _ (hzero _), if_pos ⟨hreads, hwrites⟩]
      rfl
    . rw [moveTasks_uncounted (Nat.le_of_not_lt hwrites), if_neg fun h => hwrites h.2]
      rfl
  . rw [moveTasks_uncounted (Nat.le_of_not_lt hreads), if_neg fun h => hreads h.1]
    rfl

theorem submitted_countable (a : EventAction) : a.submitted.Countable := ⟨Nat.two_pow_pos 32, Nat.two_pow_pos 32⟩

end EventAction

namespace Epoll

variable (s : Epoll) (id j : Nat) (f : EventInfo → EventInfo)

@[simp]
theorem action_def : s.action id = (s.infos id).action := rfl

@[simp]
theorem modifyAction_def (g : EventAction → EventAction)
    : s.modifyAction id g = s.modifyInfo id fun info => { info with action := g info.action } := rfl

@[simp]
theorem setAction_def (a : EventAction)
    : s.setAction id a = s.modifyInfo id fun info => { info with action := a } := rfl

@[simp]
theorem modifyInfo_infos
    : (s.modifyInfo id f).infos j = if j = id then f (s.infos id) else s.infos j := by
  simp [modifyInfo, Function.update_apply]

variable {f} in
theorem modifyInfo_fd (hf : ∀ info, (f info).fd = info.fd)
    : ((s.modifyInfo id f).infos j).fd = (s.infos j).fd := by
  rw [modifyInfo_infos]
  split
  next heq => rw [hf, heq]
  . rfl

theorem setAction_fd (a : EventAction) : ((s.setAction id a).infos j).fd = (s.infos j).fd := by
  rw [setAction_def]
  apply modifyInfo_fd
  intro info
  rfl

@[simp]
theorem modifyInfo_isInited : (s.modifyInfo id f).isInited = s.isInited := rfl

@[simp]
theorem modifyInfo_next : (s.modifyInfo id f).next = s.next := rfl

@[simp]
theorem modifyInfo_fdToEventInfo : (s.modifyInfo id f).fdToEventInfo = s.fdToEventInfo := rfl

@[simp]
theorem modifyInfo_evtChangeLst : (s.modifyInfo id f).evtChangeLst = s.evtChangeLst := rfl

@[simp]
theorem modifyInfo_readyEvents : (s.modifyInfo id f).readyEvents = s.readyEvents := rfl

@[simp]
theorem modifyInfo_nonSubmitEvents : (s.modifyInfo id f).nonSubmitEvents = s.nonSubmitEvents := rfl

@[simp]
theorem modifyInfo_nextTask : (s.modifyInfo id f).nextTask = s.nextTask := rfl

@[simp]
theorem modifyInfo_kernel : (s.modifyInfo id f).kernel = s.kernel := rfl

@[simp]
theorem modifyInfo_buffers : (s.modifyInfo id f).buffers = s.buffers := rfl

-- The state after `fd` has got an `event_info`.
def insert (s : Epoll) (fd : Fd) (info : EventInfo) : Epoll :=
  { s with
    infos := Function.update s.infos s.next info
    next := s.next + 1
    fdToEventInfo := Function.update s.fdToEventInfo fd.key (some s.next) }

@[simp]
theorem insert_infos (fd : Fd) (info : EventInfo)
    : (s.insert fd info).infos j = if j = s.next then info else s.infos j := by
  simp [insert, Function.update_apply]

@[simp]
theorem insert_fdToEventInfo (fd : Fd) (info : EventInfo) (k : Nat)
    : (s.insert fd info).fdToEventInfo k = if k = fd.key then some s.next else s.fdToEventInfo k := by
  simp [insert, Function.update_apply]

end Epoll

@[simp]
theorem World.action_def (w : World) (id : Nat) : w.action id = (w.poll.infos id).action := rfl

@[simp]
theorem World.modifyAction_poll (w : World) (id : Nat) (f : EventAction → EventAction)
    : (w.modifyAction id f).poll = w.poll.modifyAction id f := rfl

theorem World.modifyAction_eq (w : World) (id : Nat) (f : EventAction → EventAction)
    : w.modifyAction id f = { w with poll := w.poll.setAction id (f (w.poll.infos id).action) } := rfl

theorem World.modifyAction_self (w : World) (id : Nat) : (w.modifyAction id fun a => a) = w := by
  simp [World.modifyAction, Epoll.modifyAction, Epoll.modifyInfo]

theorem EventInfo.new_eq_ok {fd : Fd} {info : EventInfo} (h : EventInfo.new fd = .ok info)
    : info =
        { fd := fd, events := .empty, isInEpoll := false, isInChangeList := false,
          action := (EventAction.blank fd).setFdOps fd.type } := by
  unfold EventInfo.new EventAction.new at h
  split at h
  . cases h
  . cases h
    rfl

namespace Epoll

variable {s s' : Epoll} {fd : Fd} {id : Nat}

theorem findOrInsert_cases (h : s.findOrInsert fd = .ok (id, s'))
    : (s.fdToEventInfo fd.key = some id ∧ s' = s)
      ∨ (s.fdToEventInfo fd.key = none ∧ id = s.next
          ∧ ∃ info, EventInfo.new fd = .ok info ∧ s' = s.insert fd info) := by
  unfold findOrInsert at h
  split at h
  next id' hmap =>
    cases h
    exact .inl ⟨hmap, rfl⟩
  next hmap =>
    obtain ⟨info, hinfo, h⟩ := Except.bind_eq_ok h
    cases h
    exact .inr ⟨hmap, rfl, info, hinfo, rfl⟩

theorem findOrInsert_map (h : s.findOrInsert fd = .ok (id, s'))
    : s'.fdToEventInfo fd.key = some id := by
  rcases findOrInsert_cases h with ⟨hmap, rfl⟩ | ⟨_, rfl, info, _, rfl⟩
  . exact hmap
  . simp

@[simp]
theorem setReadCb_fdToEventInfo (s : Epoll) (id : Nat) (cb : Option ReadCallback)
    : (s.setReadCb id cb).fdToEventInfo = s.fdToEventInfo := by
  unfold setReadCb
  split <;> rfl

@[simp]
theorem setWriteCb_fdToEventInfo (s : Epoll) (id : Nat) (cb : Option Callback)
    : (s.setWriteCb id cb).fdToEventInfo = s.fdToEventInfo := by
  unfold setWriteCb
  split <;> rfl

@[simp]
theorem pushToChangeList_fdToEventInfo (s : Epoll) (id : Nat)
    : (s.pushToChangeList id).fdToEventInfo = s.fdToEventInfo := by
  unfold pushToChangeList
  split <;> rfl

@[simp]
theorem watchRead_fdToEventInfo (s : Epoll) (id : Nat)
    : (s.watchRead id).fdToEventInfo = s.fdToEventInfo := by
  unfold watchRead
  split <;> simp

@[simp]
theorem watchWrite_fdToEventInfo (s : Epoll) (id : Nat)
    : (s.watchWrite id).fdToEventInfo = s.fdToEventInfo := by
  unfold watchWrite
  split <;> simp

@[simp]
theorem setReadCb_fd (s : Epoll) (id j : Nat) (cb : Option ReadCallback)
    : ((s.setReadCb id cb).infos j).action.fd = (s.infos j).action.fd := by
  unfold setReadCb
  split
  . simp only [modifyAction_def, modifyInfo_infos]
    split
    next h => simp [h, EventAction.setReadCallback]
    . rfl
  . rfl

@[simp]
theorem pushToChangeList_action (s : Epoll) (id j : Nat)
    : ((s.pushToChangeList id).infos j).action = (s.infos j).action := by
  unfold pushToChangeList
  split
  . rfl
  . simp only [modifyInfo_infos]
    split
    next h => simp [h]
    . rfl

@[simp]
theorem watchRead_action (s : Epoll) (id j : Nat)
    : ((s.watchRead id).infos j).action = (s.infos j).action := by
  unfold watchRead
  split
  . rfl
  . simp only [pushToChangeList_action, modifyInfo_infos]
    split
    next h => simp [h]
    . rfl

@[simp]
theorem watchWrite_action (s : Epoll) (id j : Nat)
    : ((s.watchWrite id).infos j).action = (s.infos j).action := by
  unfold watchWrite
  split
  . rfl
  . simp only [pushToChangeList_action, modifyInfo_infos]
    split
    next h => simp [h]
    . rfl

@[simp]
theorem setReadOffset_fdToEventInfo (s : Epoll) (id : Nat) (offset : Option Nat)
    : (s.setReadOffset id offset).fdToEventInfo = s.fdToEventInfo := by
  unfold setReadOffset
  split <;> rfl

@[simp]
theorem setWriteOffset_fdToEventInfo (s : Epoll) (id : Nat) (offset : Option Nat)
    : (s.setWriteOffset id offset).fdToEventInfo = s.fdToEventInfo := by
  unfold setWriteOffset
  split <;> rfl

@[simp]
theorem setReadOffset_fd (s : Epoll) (id j : Nat) (offset : Option Nat)
    : ((s.setReadOffset id offset).infos j).action.fd = (s.infos j).action.fd := by
  unfold setReadOffset
  split
  . simp only [modifyAction_def, modifyInfo_infos]
    split
    next h => simp [h]
    . rfl
  . rfl

@[simp]
theorem prepareRead_fdToEventInfo (s : Epoll) (fd : Fd) (id : Nat) (cb : Option Callback)
    (opt : Option ReadOptions)
    : (s.prepareRead fd id cb opt).fdToEventInfo = s.fdToEventInfo := by
  unfold prepareRead
  simp only [setReadOffset_fdToEventInfo]
  split <;> simp

@[simp]
theorem prepareRead_fd (s : Epoll) (fd : Fd) (id j : Nat) (cb : Option Callback)
    (opt : Option ReadOptions)
    : ((s.prepareRead fd id cb opt).infos j).action.fd = (s.infos j).action.fd := by
  unfold prepareRead
  simp only [setReadOffset_fd]
  split <;> simp

@[simp]
theorem prepareWrite_fdToEventInfo (s : Epoll) (fd : Fd) (id : Nat) (cb : Option Callback)
    (opt : Option WriteOptions)
    : (s.prepareWrite fd id cb opt).fdToEventInfo = s.fdToEventInfo := by
  unfold prepareWrite
  simp only [setWriteOffset_fdToEventInfo]
  split <;> simp

@[simp]
theorem prepareAccept_fdToEventInfo (s : Epoll) (id : Nat) (hasAddrBuffer : Bool)
    (cb : Option Callback)
    : (s.prepareAccept id hasAddrBuffer cb).fdToEventInfo = s.fdToEventInfo := by
  simp [prepareAccept]

@[simp]
theorem modifyBuffer_fdToEventInfo (s : Epoll) (group : Nat) (f : RingBufferInfo → RingBufferInfo)
    : (s.modifyBuffer group f).fdToEventInfo = s.fdToEventInfo := rfl

@[simp]
theorem modifyBuffer_infos (s : Epoll) (group : Nat) (f : RingBufferInfo → RingBufferInfo)
    : (s.modifyBuffer group f).infos = s.infos := rfl

@[simp]
theorem prepareReadGroup_fdToEventInfo (s : Epoll) (id group : Nat) (cb : Option Callback)
    (t : MultishotTask) (blocks : List Iovec)
    : (s.prepareReadGroup id group cb t blocks).fdToEventInfo = s.fdToEventInfo := by
  simp [prepareReadGroup]

theorem queueRead_infos (s : Epoll) (id j : Nat) (t : Task) (isSubmit : Bool)
    : (s.queueRead id t isSubmit).infos j =
        if j = id then
          { s.infos id with
            action :=
              if isSubmit then (s.infos id).action.addReadTask t
              else (s.infos id).action.addNonSubmitReadTask t }
        else s.infos j := by
  unfold queueRead insertNonSubmit pushIfReadable
  split
  . split <;> simp [pushReady, takeTask]
  . split <;> simp [takeTask]

theorem queueRead_readyEvents (s : Epoll) (id : Nat) (t : Task) (isSubmit : Bool)
    : (s.queueRead id t isSubmit).readyEvents =
        if isSubmit ∧ (s.infos id).action.isReadable then s.readyEvents ++ [id] else s.readyEvents := by
  unfold queueRead insertNonSubmit pushIfReadable
  split
  . split <;> simp_all [pushReady, takeTask, EventAction.addReadTask]
  . split <;> simp_all [takeTask]

@[simp]
theorem queueRead_next (s : Epoll) (id : Nat) (t : Task) (isSubmit : Bool)
    : (s.queueRead id t isSubmit).next = s.next := by
  unfold queueRead insertNonSubmit pushIfReadable
  split <;> split <;> rfl

theorem queueWrite_infos (s : Epoll) (id j : Nat) (t : Task) (isSubmit : Bool)
    : (s.queueWrite id t isSubmit).infos j =
        if j = id then
          { s.infos id with
            action :=
              if isSubmit then (s.infos id).action.addWriteTask t
              else (s.infos id).action.addNonSubmitWriteTask t }
        else s.infos j := by
  unfold queueWrite insertNonSubmit pushIfWritable
  split
  . split <;> simp [pushReady, takeTask]
  . split <;> simp [takeTask]

theorem queueWrite_readyEvents (s : Epoll) (id : Nat) (t : Task) (isSubmit : Bool)
    : (s.queueWrite id t isSubmit).readyEvents =
        if isSubmit ∧ (s.infos id).action.isWritable then s.readyEvents ++ [id] else s.readyEvents := by
  unfold queueWrite insertNonSubmit pushIfWritable
  split
  . split <;> simp_all [pushReady, takeTask, EventAction.addWriteTask]
  . split <;> simp_all [takeTask]

@[simp]
theorem queueWrite_next (s : Epoll) (id : Nat) (t : Task) (isSubmit : Bool)
    : (s.queueWrite id t isSubmit).next = s.next := by
  unfold queueWrite insertNonSubmit pushIfWritable
  split <;> split <;> rfl

-- What is deferred stays so until `submit`, only the end of a call adds to it.
theorem modifyInfo_deferredTask (s : Epoll) (id j : Nat) (isRead : Bool) {f : EventInfo → EventInfo}
    (hf : ∀ info, (f info).action.deferredTask isRead = info.action.deferredTask isRead)
    : ((s.modifyInfo id f).action j).deferredTask isRead = (s.action j).deferredTask isRead := by
  rw [action_def, action_def, modifyInfo_infos]
  split
  next heq => rw [heq, hf]
  . rfl

theorem prepareRead_deferredTask (s : Epoll) (fd : Fd) (id j : Nat) (cb : Option Callback) (opt : Option ReadOptions)
    (isRead : Bool)
    : ((s.prepareRead fd id cb opt).action j).deferredTask isRead = (s.action j).deferredTask isRead := by
  have hcb : ((s.setReadCb id (cb.map .read)).action j).deferredTask isRead = (s.action j).deferredTask isRead := by
    unfold setReadCb
    split
    . exact modifyInfo_deferredTask s id j isRead fun _ => rfl
    . rfl
  have hoffset : ∀ (s : Epoll) (offset : Option Nat),
      ((s.setReadOffset id offset).action j).deferredTask isRead = (s.action j).deferredTask isRead := by
    intro s offset
    unfold setReadOffset
    split
    . exact modifyInfo_deferredTask s id j isRead fun _ => rfl
    . rfl
  unfold prepareRead
  rw [hoffset]
  split
  . exact hcb
  . rw [action_def, watchRead_action]
    exact hcb

theorem prepareWrite_deferredTask (s : Epoll) (fd : Fd) (id j : Nat) (cb : Option Callback) (opt : Option WriteOptions)
    (isRead : Bool)
    : ((s.prepareWrite fd id cb opt).action j).deferredTask isRead = (s.action j).deferredTask isRead := by
  have hcb : ((s.setWriteCb id cb).action j).deferredTask isRead = (s.action j).deferredTask isRead := by
    unfold setWriteCb
    split
    . exact modifyInfo_deferredTask s id j isRead fun _ => rfl
    . rfl
  have hoffset : ∀ (s : Epoll) (offset : Option Nat),
      ((s.setWriteOffset id offset).action j).deferredTask isRead = (s.action j).deferredTask isRead := by
    intro s offset
    unfold setWriteOffset
    split
    . exact modifyInfo_deferredTask s id j isRead fun _ => rfl
    . rfl
  unfold prepareWrite
  rw [hoffset]
  split
  . exact hcb
  . rw [action_def, watchWrite_action]
    exact hcb

theorem findOrInsert_deferredTask (h : s.findOrInsert fd = .ok (id, s')) (j : Nat) (isRead : Bool)
    : (s'.action j).deferredTask isRead
        = if s.fdToEventInfo fd.key = none ∧ j = s.next then [] else (s.action j).deferredTask isRead := by
  rcases findOrInsert_cases h with ⟨hmap, rfl⟩ | ⟨hmap, rfl, info, hinfo, rfl⟩
  . rw [if_neg]
    rintro ⟨hnone, _⟩
    rw [hmap] at hnone
    cases hnone
  . rw [action_def, insert_infos]
    split
    next heq =>
      rw [if_pos ⟨hmap, heq⟩, EventInfo.new_eq_ok hinfo]
      unfold EventAction.deferredTask
      rw [EventAction.setFdOps_nonSubmitReadTask, EventAction.setFdOps_nonSubmitWriteTask]
      exact ite_self _
    next hne =>
      rw [if_neg fun h => hne h.2]
      rfl

theorem queueRead_deferredTask (s : Epoll) (id j : Nat) (t : Task) (isSubmit isRead : Bool)
    : ((s.queueRead id t isSubmit).action j).deferredTask isRead
        = (s.action j).deferredTask isRead ++ if j = id ∧ isSubmit = false ∧ isRead = true then [t] else [] := by
  rw [action_def, action_def, queueRead_infos]
  split
  next heq => cases isSubmit <;> cases isRead <;> simp [heq, EventAction.deferredTask, EventAction.addReadTask,
    EventAction.addNonSubmitReadTask]
  next hne => rw [if_neg fun h => hne h.1, List.append_nil]

theorem queueWrite_deferredTask (s : Epoll) (id j : Nat) (t : Task) (isSubmit isRead : Bool)
    : ((s.queueWrite id t isSubmit).action j).deferredTask isRead
        = (s.action j).deferredTask isRead ++ if j = id ∧ isSubmit = false ∧ isRead = false then [t] else [] := by
  rw [action_def, action_def, queueWrite_infos]
  split
  next heq => cases isSubmit <;> cases isRead <;> simp [heq, EventAction.deferredTask, EventAction.addWriteTask,
    EventAction.addNonSubmitWriteTask]
  next hne => rw [if_neg fun h => hne h.1, List.append_nil]

def Countable (s : Epoll) : Prop := ∀ id ∈ s.nonSubmitEvents, (s.action id).Countable

instance (s : Epoll) : Decidable s.Countable := inferInstanceAs (Decidable (∀ id ∈ s.nonSubmitEvents, _))

-- `submitOne` and `submit` where every loop moves all tasks of its deque.
def submittedOne (s : Epoll) (id : Nat) : Epoll :=
  let s := s.modifyAction id fun a => a.submitted
  if (s.action id).isReadable || (s.action id).isWritable then s.pushReady id else s

def submitted (s : Epoll) : Int × Epoll :=
  if s.nonSubmitEvents = [] then
    (-1, s)
  else
    (0, { s.nonSubmitEvents.foldl submittedOne s with nonSubmitEvents := [] })

theorem submittedOne_infos (s : Epoll) (id j : Nat)
    : (s.submittedOne id).infos j =
        if j = id then { s.infos id with action := (s.infos id).action.submitted } else s.infos j := by
  unfold submittedOne
  dsimp only
  split <;> simp [pushReady]

theorem submittedOne_readyEvents (s : Epoll) (id : Nat)
    : (s.submittedOne id).readyEvents =
        if (s.infos id).action.isReadable ∨ (s.infos id).action.isWritable then s.readyEvents ++ [id]
        else s.readyEvents := by
  unfold submittedOne
  dsimp only
  split <;> simp_all [pushReady, EventAction.submitted]

theorem queueWrite_nextTask (s : Epoll) (id : Nat) (t : Task) (isSubmit : Bool)
    : (s.queueWrite id t isSubmit).nextTask = s.nextTask + 1 := by
  unfold queueWrite pushIfWritable insertNonSubmit
  split
  . split <;> rfl
  . split <;> rfl

theorem queueRead_nextTask (s : Epoll) (id : Nat) (t : Task) (isSubmit : Bool)
    : (s.queueRead id t isSubmit).nextTask = s.nextTask + 1 := by
  unfold queueRead pushIfReadable insertNonSubmit
  split
  . split <;> rfl
  . split <;> rfl

theorem submittedOne_nextTask (s : Epoll) (id : Nat) : (s.submittedOne id).nextTask = s.nextTask := by
  unfold submittedOne
  dsimp only
  split <;> rfl

@[simp]
theorem queueRead_fdToEventInfo (s : Epoll) (id : Nat) (t : Task) (isSubmit : Bool)
    : (s.queueRead id t isSubmit).fdToEventInfo = s.fdToEventInfo := by
  unfold queueRead pushIfReadable insertNonSubmit
  repeat' split
  all_goals rfl

@[simp]
theorem queueWrite_fdToEventInfo (s : Epoll) (id : Nat) (t : Task) (isSubmit : Bool)
    : (s.queueWrite id t isSubmit).fdToEventInfo = s.fdToEventInfo := by
  unfold queueWrite pushIfWritable insertNonSubmit
  repeat' split
  all_goals rfl

@[simp]
theorem submittedOne_fdToEventInfo (s : Epoll) (id : Nat)
    : (s.submittedOne id).fdToEventInfo = s.fdToEventInfo := by
  unfold submittedOne
  dsimp only
  split
  . rfl
  . rfl

@[simp]
theorem prepareRead_nextTask (s : Epoll) (fd : Fd) (id : Nat) (cb : Option Callback)
    (opt : Option ReadOptions)
    : (s.prepareRead fd id cb opt).nextTask = s.nextTask := by
  unfold prepareRead setReadCb watchRead pushToChangeList setReadOffset
  dsimp only
  repeat' split
  all_goals rfl

theorem submittedOne_isInited (s : Epoll) (id : Nat) : (s.submittedOne id).isInited = s.isInited := by
  unfold submittedOne
  dsimp only
  split
  . rfl
  . rfl

@[simp]
theorem submittedOne_next (s : Epoll) (id : Nat) : (s.submittedOne id).next = s.next := by
  unfold submittedOne
  dsimp only
  split <;> rfl

@[simp]
theorem pushReady_nonSubmitEvents (s : Epoll) (id : Nat)
    : (s.pushReady id).nonSubmitEvents = s.nonSubmitEvents := rfl

@[simp]
theorem submittedOne_nonSubmitEvents (s : Epoll) (id : Nat)
    : (s.submittedOne id).nonSubmitEvents = s.nonSubmitEvents := by
  unfold submittedOne
  dsimp only
  split <;> simp

theorem insertNonSubmit_waits (s : Epoll) (id : Nat)
    : id ∈ (s.insertNonSubmit id).nonSubmitEvents ∧ s.nonSubmitEvents ⊆ (s.insertNonSubmit id).nonSubmitEvents := by
  unfold insertNonSubmit
  split
  next hmem => exact ⟨hmem, List.Subset.refl _⟩
  next hmem => exact ⟨by simp, List.subset_append_left _ _⟩

@[simp]
theorem insertNonSubmit_infos (s : Epoll) (id : Nat) : (s.insertNonSubmit id).infos = s.infos := by
  unfold insertNonSubmit
  split
  . rfl
  . rfl

-- What `submit` leaves alone.
structure SameLists (s s' : Epoll) : Prop where
  isInited : s'.isInited = s.isInited
  map : s'.fdToEventInfo = s.fdToEventInfo
  next : s'.next = s.next
  change : s'.evtChangeLst = s.evtChangeLst
  nextTask : s'.nextTask = s.nextTask

theorem submitOne_eq (s : Epoll) (id : Nat)
    : s.submitOne id = if (s.action id).Countable then .ok (s.submittedOne id) else .error .emptyDeferredQueue := by
  unfold submitOne
  rw [EventAction.submit_eq]
  split
  . unfold submittedOne
    rfl
  . rfl

-- Each `event_action` is left with what it can count.
theorem foldlM_submitOne_eq (ids : List Nat) (s : Epoll)
    : ids.foldlM submitOne s
        =
      if ∀ id ∈ ids, (s.action id).Countable then .ok (ids.foldl submittedOne s)
      else .error .emptyDeferredQueue := by
  induction ids generalizing s with
  | nil => exact (if_pos (List.forall_mem_nil _)).symm
  | cons j ids ih =>
    rw [List.foldlM_cons, submitOne_eq, List.foldl_cons]
    by_cases hj : (s.action j).Countable
    . have hrest : (∀ id ∈ ids, ((s.submittedOne j).action id).Countable) ↔ ∀ id ∈ ids, (s.action id).Countable := by
        refine forall₂_congr fun id _ => ?_
        rw [action_def, submittedOne_infos]
        split
        . next heq =>
          rw [heq]
          exact iff_of_true (EventAction.submitted_countable _) hj
        . rfl
      rw [if_pos hj]
      refine (ih (s.submittedOne j)).trans ?_
      rw [if_congr hrest rfl rfl, if_congr List.forall_mem_cons rfl rfl, if_congr (and_iff_right hj) rfl rfl]
    . rw [if_neg hj, if_neg fun h => hj (h j List.mem_cons_self)]
      rfl

theorem submit_eq (s : Epoll)
    : s.submit = if s.Countable then .ok s.submitted else .error .emptyDeferredQueue := by
  unfold submit submitted Countable
  split
  . next hnone =>
    rw [hnone, if_pos (List.forall_mem_nil _)]
  . rw [foldlM_submitOne_eq]
    split
    . rfl
    . rfl

theorem submit_eq_ok {r : Int} (h : s.submit = .ok (r, s')) : s.Countable ∧ s.submitted = (r, s') := by
  rw [submit_eq] at h
  split at h
  . next hcount => exact ⟨hcount, Except.ok.inj h⟩
  . cases h

theorem submit_of_countable (h : s.Countable) : s.submit = .ok s.submitted := by
  rw [submit_eq, if_pos h]

theorem foldl_submittedOne_lists (ids : List Nat) (s : Epoll) : SameLists s (ids.foldl submittedOne s) := by
  induction ids generalizing s with
  | nil => exact ⟨rfl, rfl, rfl, rfl, rfl⟩
  | cons id ids ih =>
    have hone : SameLists s (s.submittedOne id) := by
      unfold submittedOne
      dsimp only
      split
      . exact ⟨rfl, rfl, rfl, rfl, rfl⟩
      . exact ⟨rfl, rfl, rfl, rfl, rfl⟩
    have hrest := ih (s.submittedOne id)
    exact ⟨hrest.isInited.trans hone.isInited, hrest.map.trans hone.map, hrest.next.trans hone.next,
      hrest.change.trans hone.change, hrest.nextTask.trans hone.nextTask⟩

theorem setAction_setAction (s : Epoll) (id : Nat) (a b : EventAction)
    : (s.setAction id a).setAction id b = s.setAction id b := by
  simp [modifyInfo]

theorem clearMultishotTask_eq_ok (h : s.clearMultishotTask id = .ok s')
    : ∃ buffers a, (s.infos id).action.clearMultishotTask = .ok a
        ∧ s' = { s with buffers := buffers }.setAction id a := by
  unfold clearMultishotTask at h
  split at h
  next hnone =>
    cases h
    refine ⟨s.buffers, (s.infos id).action, ?_, ?_⟩
    . rw [action_def] at hnone
      simp [EventAction.clearMultishotTask, hnone]
    . simp [modifyInfo]
  . split at h
    . cases h
    . obtain ⟨a, hclear, h⟩ := Except.bind_eq_ok h
      cases h
      exact ⟨_, a, hclear, rfl⟩

theorem disableRead_eq_ok (h : s.disableRead id = .ok s')
    : ∃ buffers hdrs ops r w, ((s.infos id).action.multishotReadTask = none
        → r = (s.infos id).action.isReadable)
        ∧ (ops = (s.infos id).action.fdOps
          ∨ ops = EventAction.opsOf (s.infos id).action.fd.type) ∧ s' = { s with buffers := buffers }.setAction id
        { (s.infos id).action with
          events := { (s.infos id).action.events with read := false }, readBufIdxCallback := none,
          pendingReadTask := [], nonSubmitReadTask := [], hasAcceptTask := false,
          multishotReadTask := none, mmsghdrForUdpMultishot := hdrs, fdOps := ops, isReadable := r,
          isWritable := w } := by
  unfold disableRead at h
  obtain ⟨s₁, hclear, h⟩ := Except.bind_eq_ok h
  obtain ⟨b, hdis, h⟩ := Except.bind_eq_ok h
  obtain ⟨buffers, a, ha, hs₁⟩ := clearMultishotTask_eq_ok hclear
  obtain ⟨_, _, _, _, hr, hops, rfl⟩ := EventAction.clearMultishotTask_eq_ok ha
  obtain ⟨_, _, _, _, hr', hops', hb⟩ := EventAction.disableRead_eq_ok hdis
  cases h
  rw [hs₁] at hr' hops' hb
  rw [hb, hs₁, setAction_setAction]
  simp only [action_def, setAction_def, modifyInfo_infos, if_true] at hr' hops' ⊢
  refine ⟨_, _, _, _, _, fun h => (hr' trivial).trans (hr h), ?_, rfl⟩
  rcases hops' with hops' | hops'
  . rw [hops']
    exact hops
  . exact .inr hops'

-- What `apply_changes` does not touch.
structure SameTasks (s s' : Epoll) : Prop where
  isInited : s'.isInited = s.isInited
  next : s'.next = s.next
  readyEvents : s'.readyEvents = s.readyEvents
  nonSubmitEvents : s'.nonSubmitEvents = s.nonSubmitEvents
  nextTask : s'.nextTask = s.nextTask
  buffers : s'.buffers = s.buffers
  fd : ∀ j, (s'.infos j).fd = (s.infos j).fd
  events : ∀ j, (s'.infos j).events = (s.infos j).events
  action : ∀ j, (s'.infos j).action = (s.infos j).action

theorem SameTasks.refl (s : Epoll) : SameTasks s s := by
  constructor <;> simp

theorem SameTasks.trans {s₁ s₂ s₃ : Epoll} (h : SameTasks s₁ s₂) (h' : SameTasks s₂ s₃)
    : SameTasks s₁ s₃ := by
  constructor
  . rw [h'.isInited, h.isInited]
  . rw [h'.next, h.next]
  . rw [h'.readyEvents, h.readyEvents]
  . rw [h'.nonSubmitEvents, h.nonSubmitEvents]
  . rw [h'.nextTask, h.nextTask]
  . rw [h'.buffers, h.buffers]
  . intro j
    rw [h'.fd, h.fd]
  . intro j
    rw [h'.events, h.events]
  . intro j
    rw [h'.action, h.action]

theorem SameTasks.modifyInfo (s : Epoll) (id : Nat) {f : EventInfo → EventInfo}
    (hfd : ∀ info, (f info).fd = info.fd) (hevents : ∀ info, (f info).events = info.events)
    (haction : ∀ info, (f info).action = info.action)
    : SameTasks s (s.modifyInfo id f) := by
  constructor
  all_goals try rfl
  all_goals
    intro j
    rw [modifyInfo_infos]
    split
    next h => simp [h, hfd, hevents, haction]
    . rfl

theorem SameTasks.kernel (s : Epoll) (kernel : Kernel) : SameTasks s { s with kernel := kernel } := by
  constructor <;> simp

theorem removeEventInfo_sameTasks (s : Epoll) (fd : Fd) : SameTasks s (s.removeEventInfo fd) := by
  unfold removeEventInfo
  split <;> constructor <;> simp

theorem applyOneChange_sameTasks (s : Epoll) (id : Nat) : SameTasks s (s.applyOneChange id) := by
  unfold applyOneChange
  dsimp only
  split
  . exact removeEventInfo_sameTasks s _
  . split
    . split
      . exact (SameTasks.kernel s _).trans (removeEventInfo_sameTasks _ _)
      . refine (SameTasks.kernel s _).trans (SameTasks.modifyInfo _ id ?_ ?_ ?_) <;> simp
    . split
      . constructor <;> simp
      . refine SameTasks.trans ?_ (SameTasks.modifyInfo _ id ?_ ?_ ?_)
        . split
          . exact SameTasks.kernel s _
          . split
            . refine (SameTasks.kernel s _).trans (SameTasks.modifyInfo _ id ?_ ?_ ?_) <;> simp
            . exact SameTasks.kernel s _
        all_goals simp

theorem foldl_applyOneChange_sameTasks (ids : List Nat) (s : Epoll)
    : SameTasks s (ids.foldl applyOneChange s) := by
  induction ids generalizing s with
  | nil => exact SameTasks.refl s
  | cons id ids ih => exact (applyOneChange_sameTasks s id).trans (ih _)

theorem applyChanges_sameTasks (s : Epoll) : SameTasks s s.applyChanges := by
  have := foldl_applyOneChange_sameTasks s.evtChangeLst s
  exact { this with }

end Epoll

end Event
end Ezio
