import Ezio.Event.Timer
import Ezio.Event.Epoll.Lemmas.Reuse

/-!
This module contains what the calls that a timer makes do to the state of the epoll backend.
-/

namespace Ezio
namespace Event
namespace Timers

variable {s s' : Epoll} {id n t : Nat}

-- The `event_info` of the number of a timerfd, a timer need not use it any more.
structure OfTimer (info : EventInfo) (n : Nat) : Prop where
  fd : info.fd = timerFd n
  actionFd : info.action.fd = timerFd n
  ops : info.action.fdOps = some ⟨.eventFd, .eventFd⟩
  multishot : info.action.multishotReadTask = none
  writing : info.action.events.write = false

-- Reads into `bufs` are pending, their callback is bound to the timer.
structure Armed (info : EventInfo) (t : Nat) (bufs : List (List Iovec)) : Prop where
  watched : info.events.read = true
  reading : info.action.events.read = true
  callback : info.action.readBufIdxCallback = some (.read t)
  pending : info.action.pendingReadTask.map (·.buffer) = bufs

structure Vacant (info : EventInfo) : Prop where
  reading : info.action.events.read = false
  pending : info.action.pendingReadTask = []

theorem timerFd_key (n : Nat) : (timerFd n).key = n := rfl

/-! ### `submit_async_read` -/

-- The timer `t` gets the `event_info` at `id` for its file.
structure Binds (s s' : Epoll) (n t id : Nat) : Prop where
  map : s'.fdToEventInfo = Function.update s.fdToEventInfo n (some id)
  known : s.fdToEventInfo n = some id ∨ s.fdToEventInfo n = none ∧ id = s.next
  others : ∀ j, j ≠ id → s'.infos j = s.infos j
  ofTimer : OfTimer (s'.infos id) n
  armed : Armed (s'.infos id) t [iov]
  isReadable : (s'.infos id).action.isReadable = false
  listed : id ∈ s'.evtChangeLst
  changes : ∀ j ∈ s.evtChangeLst, j ∈ s'.evtChangeLst
  readyEvents : s'.readyEvents = s.readyEvents
  kernel : s'.kernel = s.kernel
  isInited : s'.isInited = s.isInited
  next : s.next ≤ s'.next

theorem watchRead_frame (s : Epoll) (id : Nat)
    : (s.watchRead id).readyEvents = s.readyEvents ∧ (s.watchRead id).isInited = s.isInited
      ∧ (s.watchRead id).next = s.next ∧ (s.watchRead id).nextTask = s.nextTask := by
  unfold Epoll.watchRead Epoll.pushToChangeList
  split
  . exact ⟨rfl, rfl, rfl, rfl⟩
  . split <;> exact ⟨rfl, rfl, rfl, rfl⟩

theorem watchRead_infos (s : Epoll) (id : Nat)
    : (∀ j, j ≠ id → (s.watchRead id).infos j = s.infos j) ∧ ((s.watchRead id).infos id).events.read = true
      ∧ ((s.watchRead id).infos id).fd = (s.infos id).fd := by
  unfold Epoll.watchRead Epoll.pushToChangeList
  split
  . next hread => exact ⟨fun _ _ => rfl, hread, rfl⟩
  . split
    . refine ⟨?_, ?_, ?_⟩
      . intro j hj
        simp [hj]
      all_goals simp
    . refine ⟨?_, ?_, ?_⟩
      . intro j hj
        simp [hj]
      all_goals simp

theorem binds_of_known (hid : s.fdToEventInfo n = some id) (hinfo : OfTimer (s.infos id) n)
    (hpending : (s.infos id).action.pendingReadTask = []) (hreadable : (s.infos id).action.isReadable = false)
    (hflag : (s.infos id).isInChangeList = true → id ∈ s.evtChangeLst)
    (hlisted : (s.infos id).events.read = true → id ∈ s.evtChangeLst) (task : Task) (htask : task.buffer = iov)
    : Binds s ((s.prepareRead (timerFd n) id (some t) none).queueRead id task true) n t id := by
  have hprepare : s.prepareRead (timerFd n) id (some t) none = (s.setReadCb id (some (.read t))).watchRead id := by
    simp [Epoll.prepareRead, timerFd, Epoll.setReadOffset]
  rw [hprepare]
  have hset : ∀ j, (s.setReadCb id (some (.read t))).infos j =
      if j = id then { s.infos id with action := (s.infos id).action.setReadCallback (.read t) } else s.infos j := by
    intro j
    simp [Epoll.setReadCb]
  have hlst := Epoll.watchRead_evtChangeLst (s.setReadCb id (some (.read t))) id
  have hframe := watchRead_frame (s.setReadCb id (some (.read t))) id
  have hinfos := watchRead_infos (s.setReadCb id (some (.read t))) id
  have haction := Epoll.watchRead_action (s.setReadCb id (some (.read t))) id
  have hmap : ((s.setReadCb id (some (.read t))).watchRead id).fdToEventInfo = s.fdToEventInfo := by simp
  have hkernel : ((s.setReadCb id (some (.read t))).watchRead id).kernel = s.kernel := by simp
  have hsame : (s.setReadCb id (some (.read t))).evtChangeLst = s.evtChangeLst
      ∧ (s.setReadCb id (some (.read t))).readyEvents = s.readyEvents
      ∧ (s.setReadCb id (some (.read t))).isInited = s.isInited
      ∧ (s.setReadCb id (some (.read t))).next = s.next := ⟨rfl, rfl, rfl, rfl⟩
  rw [hset, if_pos rfl, hsame.1] at hlst
  rw [hsame.2.1, hsame.2.2.1, hsame.2.2.2] at hframe
  rw [hset, if_pos rfl] at hinfos
  have haction' := haction id
  rw [hset, if_pos rfl] at haction'
  generalize (s.setReadCb id (some (.read t))).watchRead id = s₁ at *
  have hunread : ((s₁.takeTask.modifyAction id fun a => a.addReadTask task).action id).isReadable = false := by
    simp [Epoll.takeTask, EventAction.addReadTask, haction', EventAction.setReadCallback, hreadable]
  have hqueue : s₁.queueRead id task true = s₁.takeTask.modifyAction id fun a => a.addReadTask task := by
    unfold Epoll.queueRead Epoll.pushIfReadable
    rw [if_pos rfl, if_neg (by rw [hunread]; decide)]
  rw [hqueue]
  refine ⟨?_, .inl hid, ?_, ?_, ?_, ?_, ?_, ?_, ?_, ?_, ?_, ?_⟩
  . rw [← hid, Function.update_eq_self]
    exact hmap
  . intro j hj
    have hother := hinfos.1 j hj
    rw [hset, if_neg hj] at hother
    simp [hj, Epoll.takeTask, hother]
  . constructor
    all_goals simp [Epoll.takeTask, EventAction.addReadTask, haction', EventAction.setReadCallback, hinfos.2.2,
      hinfo.fd, hinfo.actionFd, hinfo.ops, hinfo.multishot, hinfo.writing]
  . constructor
    all_goals simp [Epoll.takeTask, EventAction.addReadTask, haction', EventAction.setReadCallback, hinfos.2.1,
      hpending, htask]
  . simpa using hunread
  . change id ∈ s₁.evtChangeLst
    rw [hlst]
    split
    . next hor =>
      rcases Bool.or_eq_true_iff.mp hor with hread | hflag'
      . exact hlisted hread
      . exact hflag hflag'
    . simp
  . intro j hj
    change j ∈ s₁.evtChangeLst
    rw [hlst]
    split
    . exact hj
    . exact List.mem_append_left _ hj
  . exact hframe.1
  . exact hkernel
  . exact hframe.2.1
  . exact Nat.le_of_eq hframe.2.2.1.symm

-- The number has been used by a timer that is closed now, or it is new.
structure Spare (s : Epoll) (n : Nat) : Prop where
  ofTimer : ∀ id, s.fdToEventInfo n = some id → OfTimer (s.infos id) n
  pending : ∀ id, s.fdToEventInfo n = some id → (s.infos id).action.pendingReadTask = []
  isReadable : ∀ id, s.fdToEventInfo n = some id → (s.infos id).action.isReadable = false
  listed : ∀ id, s.fdToEventInfo n = some id → id ∈ s.evtChangeLst

def newInfo (n : Nat) : EventInfo :=
  { fd := timerFd n
    events := .empty
    isInEpoll := false
    isInChangeList := false
    action := (EventAction.blank (timerFd n)).setFdOps .timer }

theorem newInfo_eq (n : Nat) : EventInfo.new (timerFd n) = .ok (newInfo n) := rfl

theorem Binds.of_insert (h : Binds (s.insert (timerFd n) (newInfo n)) s' n t s.next) (hid : s.fdToEventInfo n = none)
    : Binds s s' n t s.next := by
  refine ⟨?_, .inr ⟨hid, rfl⟩, ?_, h.ofTimer, h.armed, h.isReadable, h.listed, h.changes, h.readyEvents, h.kernel,
    h.isInited, Nat.le_trans (Nat.le_succ _) h.next⟩
  . rw [h.map]
    simp [Epoll.insert, timerFd_key]
  . intro j hj
    rw [h.others j hj, Epoll.insert_infos, if_neg hj]

theorem Spare.submitAsyncRead (h : Spare s n) (hinited : s.isInited = true) (t : Nat)
    : ∃ s' id, s.submitAsyncRead (timerFd n) ⟨false, iov⟩ (some t) none = .ok (0, s') ∧ Binds s s' n t id := by
  have hnum : ¬(timerFd n).num < 0 := Int.not_lt.mpr (Int.natCast_nonneg n)
  have hkey : (timerFd n).key = n := rfl
  cases hid : s.fdToEventInfo n with
  | some id =>
    refine ⟨_, id, ?_, binds_of_known hid (h.ofTimer id hid) (h.pending id hid) (h.isReadable id hid)
      (fun _ => h.listed id hid) (fun _ => h.listed id hid)
      ⟨(s.prepareRead (timerFd n) id (some t) none).nextTask, iov, none, false⟩ rfl⟩
    simp [Epoll.submitAsyncRead, hinited, hnum, Epoll.findOrInsert, hkey, hid]
  | none =>
    have hinsert : s.findOrInsert (timerFd n) = .ok (s.next, s.insert (timerFd n) (newInfo n)) := by
      simp [Epoll.findOrInsert, hkey, hid, newInfo_eq, Epoll.insert]
    have hknown : (s.insert (timerFd n) (newInfo n)).fdToEventInfo n = some s.next := by
      rw [Epoll.insert_fdToEventInfo, if_pos hkey.symm]
    have hbinds : ∀ task : Task, task.buffer = iov → Binds (s.insert (timerFd n) (newInfo n))
        (((s.insert (timerFd n) (newInfo n)).prepareRead (timerFd n) s.next (some t) none).queueRead s.next task true)
        n t s.next := by
      apply binds_of_known hknown
      all_goals rw [Epoll.insert_infos, if_pos rfl]
      . exact ⟨rfl, rfl, rfl, rfl, rfl⟩
      . rfl
      . rfl
      . exact fun h => by cases h
      . exact fun h => by cases h
    refine ⟨_, s.next, ?_, (hbinds
      ⟨((s.insert (timerFd n) (newInfo n)).prepareRead (timerFd n) s.next (some t) none).nextTask, iov, none, false⟩
      rfl).of_insert hid⟩
    unfold Epoll.submitAsyncRead
    rw [hinsert]
    simp [hinited, hnum]

/-! ### Reading -/

-- The next read of a timer whose file is not known to be readable.
theorem submitAsyncRead_again (hinited : s.isInited = true) (hid : s.fdToEventInfo n = some id)
    (hwatched : (s.infos id).events.read = true) (hreadable : (s.infos id).action.isReadable = false)
    : s.submitAsyncRead (timerFd n) ⟨false, iov⟩ none none
      = .ok (0, s.takeTask.modifyAction id fun a => a.addReadTask ⟨s.nextTask, iov, none, false⟩) := by
  have hnum : ¬(timerFd n).num < 0 := Int.not_lt.mpr (Int.natCast_nonneg n)
  have hkey : (timerFd n).key = n := rfl
  have hprepare : s.prepareRead (timerFd n) id none none = s := by
    simp [Epoll.prepareRead, timerFd, Epoll.setReadOffset, Epoll.setReadCb, Epoll.watchRead, hwatched]
  have hqueue : ∀ task, s.queueRead id task true = s.takeTask.modifyAction id fun a => a.addReadTask task := by
    intro task
    unfold Epoll.queueRead Epoll.pushIfReadable
    rw [if_pos rfl, if_neg]
    simp [Epoll.takeTask, EventAction.addReadTask, hreadable]
  unfold Epoll.submitAsyncRead
  simp [hinited, hnum, Epoll.findOrInsert, hkey, hid, hprepare, hqueue]

/-! ### `cancel_async_read` -/

-- The `event_info` of the number is taken out of use.
structure Unbinds (s s' : Epoll) (n id : Nat) : Prop where
  map : s'.fdToEventInfo = s.fdToEventInfo
  others : ∀ j, j ≠ id → s'.infos j = s.infos j
  ofTimer : OfTimer (s.infos id) n → OfTimer (s'.infos id) n
  vacant : Vacant (s'.infos id)
  callback : (s'.infos id).action.readBufIdxCallback = none
  isReadable : (s'.infos id).action.isReadable = (s.infos id).action.isReadable
  listed : id ∈ s'.evtChangeLst
  changes : ∀ j ∈ s.evtChangeLst, j ∈ s'.evtChangeLst
  readyEvents : s'.readyEvents = s.readyEvents
  kernel : s'.kernel = s.kernel
  isInited : s'.isInited = s.isInited
  next : s'.next = s.next

theorem cancelAsyncRead_unbinds (hinited : s.isInited = true) (hpos : 0 < n) (hid : s.fdToEventInfo n = some id)
    (hinfo : OfTimer (s.infos id) n) (hreading : (s.infos id).action.events.read = true)
    (hflag : (s.infos id).isInChangeList = true → id ∈ s.evtChangeLst)
    : ∃ s', s.cancelAsyncRead (timerFd n) none = .ok (-1, s') ∧ Unbinds s s' n id := by
  have hnum : ¬(timerFd n).num ≤ 0 := by
    simp only [timerFd]
    omega
  have hkey : (timerFd n).key = n := rfl
  have hclear : s.clearMultishotTask id = .ok s := by
    simp [Epoll.clearMultishotTask, hinfo.multishot]
  have haction : (s.action id).disableRead = .ok { s.action id with
      events := { (s.action id).events with read := false }
      readBufIdxCallback := none
      pendingReadTask := []
      nonSubmitReadTask := []
      hasAcceptTask := false } := by
    simp [EventAction.disableRead, EventAction.clearMultishotTask, hinfo.multishot]
  have hdisable : s.disableRead id = .ok (s.modifyAction id fun a => { a with
      events := { a.events with read := false }
      readBufIdxCallback := none
      pendingReadTask := []
      nonSubmitReadTask := []
      hasAcceptTask := false }) := by
    unfold Epoll.disableRead
    rw [hclear]
    change ((s.action id).disableRead >>= fun a => .ok (s.setAction id a)) = _
    rw [haction]
    rfl
  generalize hs₁ : (s.modifyAction id fun a => { a with
      events := { a.events with read := false }
      readBufIdxCallback := none
      pendingReadTask := []
      nonSubmitReadTask := []
      hasAcceptTask := false }) = s₁ at hdisable
  have hnone : (s₁.action id).isNoneEvt = true := by
    simp [← hs₁, EventAction.isNoneEvt, EventAction.isReading, EventAction.isWriting, hinfo.writing]
  refine ⟨s₁.pushToChangeList id, ?_, ?_⟩
  . simp [Epoll.cancelAsyncRead, hinited, hnum, hkey, hid, EventAction.isReading, hreading, hdisable]
    exact if_pos hnone
  . have hlst := Epoll.pushToChangeList_evtChangeLst s₁ id
    have hinfos : (∀ j, j ≠ id → (s₁.pushToChangeList id).infos j = s₁.infos j)
        ∧ ((s₁.pushToChangeList id).infos id).fd = (s₁.infos id).fd
        ∧ ((s₁.pushToChangeList id).infos id).action = (s₁.infos id).action := by
      unfold Epoll.pushToChangeList
      split
      . exact ⟨fun _ _ => rfl, rfl, rfl⟩
      . refine ⟨?_, ?_, ?_⟩
        . intro j hj
          simp [hj]
        all_goals simp
    have hframe : (s₁.pushToChangeList id).fdToEventInfo = s₁.fdToEventInfo
        ∧ (s₁.pushToChangeList id).readyEvents = s₁.readyEvents ∧ (s₁.pushToChangeList id).kernel = s₁.kernel
        ∧ (s₁.pushToChangeList id).isInited = s₁.isInited ∧ (s₁.pushToChangeList id).next = s₁.next := by
      unfold Epoll.pushToChangeList
      split <;> exact ⟨rfl, rfl, rfl, rfl, rfl⟩
    have hflag₁ : (s₁.infos id).isInChangeList = (s.infos id).isInChangeList ∧ s₁.evtChangeLst = s.evtChangeLst := by
      simp [← hs₁]
    rw [hflag₁.1, hflag₁.2] at hlst
    generalize s₁.pushToChangeList id = s₂ at *
    refine ⟨?_, ?_, ?_, ⟨?_, ?_⟩, ?_, ?_, ?_, ?_, ?_, ?_, ?_, ?_⟩
    . rw [hframe.1, ← hs₁]
      rfl
    . intro j hj
      rw [hinfos.1 j hj, ← hs₁]
      simp [hj]
    . intro hinfo
      constructor
      all_goals simp [hinfos.2, ← hs₁, hinfo.fd, hinfo.actionFd, hinfo.ops, hinfo.multishot, hinfo.writing]
    . simp [hinfos.2, ← hs₁]
    . simp [hinfos.2, ← hs₁]
    . simp [hinfos.2, ← hs₁]
    . simp [hinfos.2, ← hs₁]
    . rw [hlst]
      split
      . next hset => exact hflag hset
      . simp
    . intro j hj
      rw [hlst]
      split
      . exact hj
      . exact List.mem_append_left _ hj
    . rw [hframe.2.1, ← hs₁]
      rfl
    . rw [hframe.2.2.1, ← hs₁]
      rfl
    . rw [hframe.2.2.2.1, ← hs₁]
      rfl
    . rw [hframe.2.2.2.2, ← hs₁]
      rfl

/-! ### `apply_changes` -/

-- A file that is closed is not registered, what is on the list for its number is taken out of the map.
structure Idle (s : Epoll) (lst : List Nat) (n : Nat) : Prop where
  interest : s.kernel.interest n = none
  isNoneEvt : ∀ id, s.fdToEventInfo n = some id → (s.infos id).action.isNoneEvt = true
  listed : ∀ id, s.fdToEventInfo n = some id → id ∈ lst

theorem applyOneChange_erases (hid : s.fdToEventInfo (s.infos id).fd.key = some id) (hctl : s.kernel.ctlErrs = [])
    (hinterest : s.kernel.interest (s.infos id).fd.key = none) (hnone : (s.infos id).action.isNoneEvt = true)
    : (s.applyOneChange id).fdToEventInfo (s.infos id).fd.key = none
      ∧ (s.applyOneChange id).kernel.interest (s.infos id).fd.key = none := by
  unfold Epoll.applyOneChange Epoll.changeOp
  cases hin : (s.infos id).isInEpoll with
  | false => simp [hnone, hin, Epoll.removeEventInfo, hid, hinterest]
  | true =>
    -- the number is not open any more, or it is open again and not registered
    cases hopen : s.kernel.isOpen (s.infos id).fd.key with
    | false => simp [hnone, hin, Kernel.epollCtl, hctl, hopen, hinterest]
    | true => simp [hnone, hin, Kernel.epollCtl, hctl, hopen, hinterest]

theorem Idle.applyOneChange {lst : List Nat} (h : Idle s (id :: lst) n) (hlisted : s.Listed (id :: lst))
    (hctl : s.kernel.ctlErrs = [])
    : Idle (s.applyOneChange id) lst n := by
  have hid := hlisted.mapped id List.mem_cons_self
  by_cases hkey : n = (s.infos id).fd.key
  . rw [hkey] at h ⊢
    have herased := applyOneChange_erases hid hctl h.interest (h.isNoneEvt id hid)
    refine ⟨herased.2, ?_, ?_⟩
    all_goals
      intro j hj
      rw [herased.1] at hj
      cases hj
  . have hmap : (s.applyOneChange id).fdToEventInfo n = s.fdToEventInfo n := by
      rcases Epoll.applyOneChange_map hid with hmap | hmap
      . rw [hmap, Function.update_of_ne hkey]
      . rw [hmap.1]
    have hne : ∀ j, s.fdToEventInfo n = some j → j ≠ id := by
      rintro j hj rfl
      exact hkey (hlisted.map n j hj).2.symm
    refine ⟨?_, ?_, ?_⟩
    . rw [Epoll.applyOneChange_interest_of_ne s hkey]
      exact h.interest
    all_goals
      intro j hj
      rw [hmap] at hj
    . rw [Epoll.applyOneChange_infos_of_ne s (hne j hj)]
      exact h.isNoneEvt j hj
    . exact (List.mem_cons.mp (h.listed j hj)).resolve_left (hne j hj)

theorem Idle.foldl_applyOneChange {lst : List Nat} (h : Idle s lst n) (hlisted : s.Listed lst)
    (hctl : s.kernel.ctlErrs = [])
    : Idle (lst.foldl Epoll.applyOneChange s) [] n := by
  induction lst generalizing s with
  | nil => exact h
  | cons id lst ih =>
    exact ih (h.applyOneChange hlisted hctl) hlisted.applyOneChange (Epoll.applyOneChange_ctlErrs hctl id)

-- An action that is in use keeps its file.
theorem foldl_applyOneChange_known {lst : List Nat} (hlisted : s.Listed lst) (hid : s.fdToEventInfo n = some id)
    (hopen : s.kernel.isOpen n = true) (hctl : s.kernel.ctlErrs = [])
    (huse : (s.infos id).action.isNoneEvt = false)
    : (lst.foldl Epoll.applyOneChange s).fdToEventInfo n = some id := by
  induction lst generalizing s with
  | nil => exact hid
  | cons j lst ih =>
    have hkept : (s.applyOneChange j).fdToEventInfo n = some id := by
      by_cases hj : j = id
      . have hkey := (hlisted.map n id hid).2
        rw [hj, (Epoll.applyOneChange_registers (hkey ▸ hopen) hctl huse).2]
        exact hid
      . exact hlisted.applyOneChange_map_of_ne hid List.mem_cons_self hj
    refine ih hlisted.applyOneChange hkept ?_ (Epoll.applyOneChange_ctlErrs hctl j) ?_
    . rw [Epoll.applyOneChange_isOpen]
      exact hopen
    . rw [(Epoll.applyOneChange_sameTasks s j).action]
      exact huse

theorem foldl_applyOneChange_kernel {lst : List Nat} (hctl : s.kernel.ctlErrs = [])
    : (lst.foldl Epoll.applyOneChange s).kernel.isOpen = s.kernel.isOpen
      ∧ (lst.foldl Epoll.applyOneChange s).kernel.ctlErrs = [] := by
  induction lst generalizing s with
  | nil => exact ⟨rfl, hctl⟩
  | cons id lst ih =>
    have ih := ih (Epoll.applyOneChange_ctlErrs hctl id)
    exact ⟨ih.1.trans (Epoll.applyOneChange_isOpen s id), ih.2⟩

end Timers

end Event
end Ezio
