import Ezio.Event.Epoll.Lemmas.ReadyTasks

/-!
This module contains the proof that no task waits for an edge that has already been consumed: outside of
`dispatch`, an action that is known to be ready and has a task is put up in `ready_events_`.
-/

namespace Ezio
namespace Event

open EStateM (Preserves Triple)
open Ezio.Event.Frame (Inv)

theorem setReadyEvents_ready {n id : Nat} (hid : id < n) (events : Mask)
    : Triple (Inv Op.Submits (World.Ready n 0 0 0 0)) (setReadyEvents id events)
        (fun _ => Inv Op.Submits (World.Ready n 0 0 0 0)) (fun _ _ => True) := by
  apply Triple.of_states
  intro w hw
  apply Triple.bind (Q := fun _ => Inv Op.Submits (World.Ready n 0 id
    (w.action id).pendingReadTask.length (w.action id).pendingWriteTask.length))
  . apply Triple.modify
    intro w' heq
    rw [heq, World.modifyAction_eq]
    refine ⟨hw.1, ?_⟩
    intro hlog
    have h := hw.2 hlog
    apply (h.idle h.base).recount
    intro _ hact
    exact { hact with read := fun _ => Queued.all _ _ _ _ _, write := fun _ => Queued.all _ _ _ _ _ }
  . intro _
    apply (handleEvents_ready hid true).conseq
    . intro _ h
      exact h
    . intro _ w' h
      refine ⟨h.1, ?_⟩
      intro hlog
      have h := h.2 hlog
      exact h.idle h.base
    . intro _ _ h
      exact h

theorem readyLoop_ready (m : Nat)
    : Triple (Inv Op.Submits (World.Ready 0 0 0 0 0)) (readyLoop m)
        (fun _ => Inv Op.Submits (World.Ready 0 0 0 0 0)) (fun _ _ => True) := by
  induction m with
  | zero => exact Triple.pure (fun _ h => h)
  | succ m ih =>
    apply triple_of_all
    . intro log
      exact (logFrame log Op.Submits).readyLoop (m + 1)
    apply Triple.get_bind
    intro w hw
    split
    . exact Triple.throw (fun _ _ => True.intro)
    next id ids hids =>
      have hready := hw.2.2
      have hlt : id < w.poll.next := hready.wf.ready id (by simp [hids])
      apply Triple.bind
      . exact (handleEvents_ready hlt false).at_state ⟨hw.1, fun _ => hready.head hids⟩
      . intro _
        refine Triple.modify_bind ?_ ih
        intro w' hw'
        refine ⟨hw'.1, ?_⟩
        intro hlog
        exact (hw'.2 hlog).tail

theorem dispatch_ready (ready : Option (List (Nat × Mask)))
    : Triple (Inv Op.Submits (World.Ready 0 0 0 0 0)) (dispatch ready)
        (fun _ => Inv Op.Submits (World.Ready 0 0 0 0 0)) (fun _ _ => True) := by
  apply triple_of_all
  . intro log
    exact (logFrame log Op.Submits).dispatch ready
  apply Triple.modify_bind (T := fun w =>
    w.Calls Op.Submits ∧ w.All Entry.NoCollision ∧ w.poll.Ready 0 0 0 0 0)
  . intro w hw
    have hsame := Epoll.applyChanges_sameTasks w.poll
    exact ⟨hw.1, hw.2.1,
      hw.2.2.of_actions hw.2.2.wf.applyChanges hsame.next hsame.readyEvents hsame.action⟩
  split
  . exact Triple.pure (fun _ h => ⟨h.1, fun _ => h.2.2⟩)
  next ready =>
    apply Triple.get_bind
    intro w hw
    have hwf := hw.2.2.wf
    apply Triple.bind (Q := fun _ => Inv Op.Submits (World.Ready w.poll.next 0 0 0 0))
    . apply Triple.at_state
      . apply Triple.forM
        intro e he
        apply setReadyEvents_ready
        simp only [epollWait] at he
        have he := List.mem_of_mem_take he
        rw [List.mem_filterMap] at he
        obtain ⟨⟨fd, events⟩, _, he⟩ := he
        rw [Option.map_eq_some_iff] at he
        obtain ⟨⟨mask, ptr⟩, hint, rfl⟩ := he
        exact hwf.interest fd mask ptr hint
      . exact ⟨hw.1, fun _ => hw.2.2.idle (Nat.le_refl _)⟩
    . intro _
      apply Triple.bind (Q := fun _ => Inv Op.Submits (World.Ready 0 0 0 0 0))
      . apply Triple.get_bind
        intro w' hw'
        apply (readyLoop_ready _).at_state
        refine ⟨hw'.1, ?_⟩
        intro hlog
        exact (hw'.2 hlog).idle (Nat.zero_le _)
      . intro _
        apply Triple.modify
        intro w' hw'
        refine ⟨hw'.1, ?_⟩
        intro hlog
        have h := hw'.2 hlog
        exact h.of_actions { h.wf with } rfl rfl (fun _ => rfl)

theorem step_ready {st : Step} (hst : st.Calls Op.Submits)
    : Triple (Inv Op.Submits (World.Ready 0 0 0 0 0)) (step st)
        (fun _ => Inv Op.Submits (World.Ready 0 0 0 0 0)) (fun _ _ => True) := by
  cases st with
  | op op =>
    have hframe : Frame 0 Op.Submits (World.Ready 0 0 0 0 0) := World.Ready.frame (.inr ⟨rfl, rfl⟩)
    exact ((Frame.exec_calls op).and (hframe.exec op hst)).ignore_error
  | dispatch ready sys user ctlErrs =>
    refine Triple.modify_bind ?_ (dispatch_ready ready)
    intro w hw
    refine ⟨hst, ?_⟩
    intro hlog
    have h := hw.2 hlog
    exact h.of_actions { h.wf with } rfl rfl (fun _ => rfl)

theorem Epoll.Ready.init (isOpen : Nat → Bool) : (Epoll.init isOpen).Ready 0 0 0 0 0 := by
  constructor
  . exact Wf.init isOpen
  . exact Nat.zero_le _
  . exact Nat.zero_le _
  . intro j hj
    exact absurd hj (Nat.not_lt_zero j)

theorem run_ready {isOpen : Nat → Bool} {sts : List Step} {w : World}
    (hsts : ∀ st ∈ sts, st.Calls Op.Submits) (hrun : run sts (World.init isOpen) = .ok () w)
    (hlog : w.All Entry.NoCollision)
    : w.poll.Ready 0 0 0 0 0 := by
  have hforM : Triple (Inv Op.Submits (World.Ready 0 0 0 0 0)) (run sts)
      (fun _ => Inv Op.Submits (World.Ready 0 0 0 0 0)) (fun _ _ => True) := by
    apply Triple.forM
    intro st hst
    exact step_ready (hsts st hst)
  have hinit : Inv Op.Submits (World.Ready 0 0 0 0 0) (World.init isOpen) :=
    ⟨fun _ h => absurd h List.not_mem_nil, fun _ => Epoll.Ready.init isOpen⟩
  exact (hforM.of_ok hinit hrun).2 hlog

theorem run_no_lost_readiness {isOpen : Nat → Bool} {sts : List Step} {w : World}
    (hsts : ∀ st ∈ sts, st.Calls Op.Submits) (hrun : run sts (World.init isOpen) = .ok () w)
    (hlog : w.All Entry.NoCollision)
    : ∀ id, id < w.poll.next → (w.action id).multishotReadTask = none
        → ((w.action id).pendingReadTask ≠ [] → id ∉ w.poll.readyEvents
            → (w.action id).isReadable = false)
          ∧ ((w.action id).pendingWriteTask ≠ [] → id ∉ w.poll.readyEvents
            → (w.action id).isWritable = false) := by
  intro id hid hm
  have hact := (run_ready hsts hrun hlog).act id hid
  rw [ite_self] at hact
  constructor
  . intro hne hready
    by_contra hflag
    apply hready
    exact (hact.read hm).2 (List.length_pos_iff.mpr hne) (by simpa using hflag)
  . intro hne hready
    by_contra hflag
    apply hready
    exact (hact.write hm).2 (List.length_pos_iff.mpr hne) (by simpa using hflag)

-- A read of a TCP socket that finds half of what it asks for, its callback asks for more.
def readingRun : List Step :=
  let read := .submitAsyncRead ⟨3, .tcp⟩ ⟨false, [⟨4096, 8⟩]⟩ (some 0) none
  [.op read, .dispatch (some [(3, ⟨true, false, false⟩)]) [.ok 4 [], .fail .again] [[read]] []]

theorem readingRun_no_lost_readiness
    : ∃ w, run readingRun (World.init fun _ => true) = .ok () w
        ∧ (w.action 0).pendingReadTask.length = 1 ∧ 0 ∉ w.poll.readyEvents
        ∧ (w.action 0).isReadable = false := by
  have hrun := EStateM.Result.eq_ok_of_isOk
    (show (run readingRun (World.init fun _ => true)).isOk by decide +kernel)
  have hready : 0 ∉ (run readingRun (World.init fun _ => true)).state.poll.readyEvents := by
    decide +kernel
  refine ⟨_, hrun, by decide +kernel, hready, ?_⟩
  refine (run_no_lost_readiness ?_ hrun (by decide +kernel) 0 (by decide +kernel)
    (by decide +kernel)).1 (by decide +kernel) hready
  simp [readingRun, Step.Calls, Op.Submits, Op.isCancel]

-- The run of the counterexample is followed with a postcondition that no error meets.
structure Stuck (t : Task) (w : World) : Prop where
  next : w.poll.next = 1
  ready : w.poll.readyEvents = []
  type : (w.action 0).fd.type = .udp
  op : (w.action 0).readOp = some .udp
  multishot : (w.action 0).multishotReadTask = none
  accept : (w.action 0).hasAcceptTask = false
  reads : (w.action 0).pendingReadTask = [t]
  writes : (w.action 0).pendingWriteTask = []
  readable : (w.action 0).isReadable = true

-- The kernel fills all buffers of the task.
def Fills (t : Task) (sys : List SysRet) : Prop :=
  ∀ buf, ∃ buf' sys', FdIo.Udp.readFd buf t.buffer.length sys = .done ⟨INT32_MAX, false, buf'⟩ sys'

theorem Stuck.setAction {t : Task} {w : World} {a : EventAction} (h : Stuck t w)
    (ha : a.fd = (w.action 0).fd ∧ a.fdOps = (w.action 0).fdOps
      ∧ a.multishotReadTask = (w.action 0).multishotReadTask
      ∧ a.hasAcceptTask = (w.action 0).hasAcceptTask
      ∧ a.pendingReadTask = (w.action 0).pendingReadTask
      ∧ a.pendingWriteTask = (w.action 0).pendingWriteTask
      ∧ a.isReadable = (w.action 0).isReadable)
    : Stuck t (w.modifyAction 0 fun _ => a) := by
  have ⟨h1, h2, h3, h4, h5, h6, h7⟩ := ha
  constructor
  . exact h.next
  . exact h.ready
  all_goals
    simp only [World.modifyAction_poll, World.action_def, Epoll.modifyAction_def, Epoll.modifyInfo_infos, if_true,
      EventAction.readOp, h1, h2, h3, h4, h5, h6, h7]
  . exact h.type
  . exact h.op
  . exact h.multishot
  . exact h.accept
  . exact h.reads
  . exact h.writes
  . exact h.readable

theorem readUdp_stuck (t : Task)
    : Triple (fun w => Stuck t w ∧ Fills t w.sys) (readUdp 0 false (.task t.id) t.buffer.length)
        (fun ret w => ret = INT32_MAX ∧ Stuck t w) (fun _ _ => False) := by
  apply Triple.bind (Q := fun _ w => Stuck t w ∧ Fills t w.sys)
  . apply Triple.get_bind
    intro w hw
    apply Triple.pure
    rintro _ rfl
    exact hw
  intro buf
  apply Triple.get_bind
  intro w hw
  apply Triple.bind (Q := fun r w => (r.ret = INT32_MAX ∧ r.isEmpty = false) ∧ Stuck t w)
  . intro w' heq
    rw [heq]
    unfold liftIo
    rw [hw.1.op]
    dsimp only [readHdrs]
    obtain ⟨buf', sys', hio⟩ := hw.2 buf
    rw [hio]
    exact ⟨⟨rfl, rfl⟩, { hw.1 with }⟩
  intro r
  apply Triple.bind (Q := fun _ w => (r.ret = INT32_MAX ∧ r.isEmpty = false) ∧ Stuck t w)
  . apply Triple.modify
    intro w h
    exact ⟨h.1, h.2.setAction (by simp)⟩
  intro _
  apply Triple.of_states
  intro w hw
  rw [hw.1.1, hw.1.2, if_pos (by decide), if_pos rfl]
  apply Triple.bind (Q := fun _ w => Stuck t w)
  . apply Triple.modify
    rintro _ rfl
    exact hw.2.setAction (by simp)
  . intro _
    apply Triple.pure
    intro w h
    exact ⟨rfl, h⟩

theorem doReadTask_stuck {t : Task} (hbuf : t.buffer ≠ []) (b : Bool)
    : Triple (fun w => Stuck t w ∧ Fills t w.sys) (doReadTask 0 t b)
        (fun again w => again = true ∧ Stuck t w) (fun _ _ => False) := by
  apply Triple.get_bind
  intro w hw
  have hfile : ¬(w.action 0).fd.type = .file := by
    rw [hw.1.type]
    decide
  rw [if_neg hbuf, if_neg hfile]
  apply Triple.get_bind
  rintro _ rfl
  rw [if_pos hw.1.type]
  apply Triple.bind (Q := fun _ w => Stuck t w ∧ Fills t w.sys)
  . apply Triple.modify
    rintro _ rfl
    exact ⟨hw.1.setAction (by simp), hw.2⟩
  intro _
  apply Triple.bind (readUdp_stuck t)
  intro ret
  apply Triple.pure
  intro w h
  exact ⟨decide_eq_true h.1, h.2⟩

theorem readLoop_stuck {t : Task} (hbuf : t.buffer ≠ []) (b : Bool)
    : Triple (fun w => Stuck t w ∧ Fills t w.sys) (readLoop 0 b 1)
        (fun _ w => Stuck t w) (fun _ _ => False) := by
  apply Triple.get_bind
  intro w hw
  rw [hw.1.reads]
  apply Triple.bind ((doReadTask_stuck hbuf b).at_state hw)
  intro again
  apply Triple.of_states
  intro w₁ hw₁
  rw [hw₁.1]
  apply Triple.bind (Q := fun _ w => w = w₁.modifyAction 0 fun a => a.addReadTask t)
  . apply Triple.modify
    rintro _ rfl
    rfl
  intro _
  have hreads : ((w₁.modifyAction 0 fun a => a.addReadTask t).action 0).pendingReadTask = [t, t] := by
    have := hw₁.2.reads
    rw [World.action_def] at this
    simp [EventAction.addReadTask, this]
  apply Triple.bind (Q := fun _ w => Stuck t w)
  . apply Triple.get_bind
    rintro _ rfl
    rw [hreads]
    apply Triple.modify
    rintro _ rfl
    have heq : ((w₁.modifyAction 0 fun a => a.addReadTask t).modifyAction 0
        fun a => { a with pendingReadTask := [t] })
        = w₁.modifyAction 0 fun _ => { w₁.action 0 with pendingReadTask := [t] } := by
      simp [World.modifyAction, Epoll.modifyInfo, EventAction.addReadTask]
    rw [heq]
    apply hw₁.2.setAction
    exact ⟨rfl, rfl, rfl, rfl, hw₁.2.reads.symm, rfl, rfl⟩
  . intro _
    exact Triple.pure (fun _ h => h)

theorem handleEvents_stuck {t : Task} (hbuf : t.buffer ≠ []) (b : Bool)
    : Triple (fun w => Stuck t w ∧ Fills t w.sys) (handleEvents 0 b)
        (fun _ w => Stuck t w) (fun _ _ => False) := by
  apply Triple.get_bind
  intro w hw
  have hheld : ¬(w.action 0).isHeld = true := by
    rw [EventAction.isHeld, hw.1.multishot]
    simp
  rw [if_neg hheld]
  apply Triple.bind (Q := fun _ w => Stuck t w)
  . apply Triple.get_bind
    rintro _ rfl
    rw [if_pos hw.1.readable, hw.1.multishot]
    apply Triple.bind (Q := fun _ w => Stuck t w)
    . apply Triple.get_bind
      rintro _ rfl
      rw [hw.1.reads]
      refine Triple.modify_bind ?_ (readLoop_stuck hbuf b)
      rintro _ rfl
      exact ⟨{ hw.1 with }, hw.2⟩
    . intro _
      apply Triple.get_bind
      intro w hw
      rw [hw.accept, if_neg Bool.false_ne_true]
      apply Triple.pure
      rintro _ rfl
      exact hw
  . intro _
    apply Triple.get_bind
    intro w hw
    rw [hw.writes, if_neg (by simp)]
    apply Triple.pure
    rintro _ rfl
    exact hw


-- The submission and the dispatch that hands out the edge.
def fillingRun (iov : List Iovec) (sys : List SysRet) : List Step :=
  [.op (.submitAsyncRead ⟨3, .udp⟩ ⟨false, iov⟩ (some 0) none),
    .dispatch (some [(3, ⟨true, false, false⟩)]) sys [] []]

theorem exec_stuck (v : Iovec) (iov : List Iovec)
    : ∃ s, (Epoll.init fun _ => true).exec
          (.submitAsyncRead ⟨3, .udp⟩ ⟨false, v :: iov⟩ (some 0) none) = .ok (0, s)
        ∧ { s with kernel := { s.kernel with ctlErrs := [] } } = s
        ∧ s.applyChanges.kernel.interest 3 = some (⟨true, false, true⟩, 0)
        ∧ ∀ sys user log, Stuck ⟨0, v :: iov, none, false⟩
          (World.modifyAction ⟨s.applyChanges, sys, user, log⟩ 0
            fun a => { a with isReadable := a.isReadable || true, isWritable := a.isWritable || false }) := by
  refine ⟨_, rfl, rfl, rfl, ?_⟩
  intro sys user log
  constructor <;> rfl

theorem fillingRun_stuck (v : Iovec) (iov : List Iovec) (sys : List SysRet)
    (hsys : Fills ⟨0, v :: iov, none, false⟩ sys)
    : Triple (· = World.init fun _ => true) (run (fillingRun (v :: iov) sys))
        (fun _ w => Stuck ⟨0, v :: iov, none, false⟩ w) (fun _ _ => False) := by
  obtain ⟨s, hexec, hload, hint, hstuck⟩ := exec_stuck v iov
  apply Triple.bind (Q := fun _ w => w.poll = s)
  . apply exec_triple
    . rintro _ r s' rfl h
      rw [show (World.init fun _ => true).poll = Epoll.init fun _ => true from rfl, hexec] at h
      cases h
      rfl
    . rintro _ f rfl h
      rw [show (World.init fun _ => true).poll = Epoll.init fun _ => true from rfl, hexec] at h
      cases h
  intro _
  apply Triple.bind (Q := fun _ w => Stuck ⟨0, v :: iov, none, false⟩ w)
  . apply Triple.modify_bind (T := fun w => w.poll = s ∧ w.sys = sys)
    . intro w hw
      rw [World.load, hw]
      exact ⟨hload, rfl⟩
    apply Triple.modify_bind (T := fun w => w.poll = s.applyChanges ∧ w.sys = sys)
    . intro w hw
      exact ⟨by rw [hw.1], hw.2⟩
    apply Triple.get_bind
    intro w hw
    have hwait : epollWait w.poll.kernel [(3, ⟨true, false, false⟩)] = [(0, ⟨true, false, false⟩)] := by
      rw [hw.1]
      simp [epollWait, hint, EVENT_CNT]
    rw [hwait]
    apply Triple.bind (Q := fun _ w => Stuck ⟨0, v :: iov, none, false⟩ w)
    . apply Triple.bind (Q := fun _ w => Stuck ⟨0, v :: iov, none, false⟩ w)
      . refine Triple.modify_bind ?_ (handleEvents_stuck (List.cons_ne_nil v iov) true)
        intro w' heq
        rw [heq]
        refine ⟨?_, by simpa [World.modifyAction, hw.2] using hsys⟩
        have := hstuck w.sys w.user w.log
        rw [← hw.1] at this
        exact this
      . intro _
        exact Triple.pure (fun _ h => h)
    . intro _
      apply Triple.bind (Q := fun _ w => Stuck ⟨0, v :: iov, none, false⟩ w)
      . apply Triple.get_bind
        intro w hw
        rw [hw.ready]
        exact Triple.pure (fun _ h => h ▸ hw)
      . intro _
        apply Triple.modify
        intro w hw
        exact { hw with }
  . intro _
    exact Triple.pure (fun _ h => h)

-- A read of 2147483647 buffers that are all filled, by the 1024 datagrams of one call at a time.
theorem fills_all (v : Iovec)
    : Fills ⟨0, v :: List.replicate 2147483646 v, none, false⟩
        (List.replicate 2097151 (SysRet.ok 1024 []) ++ [SysRet.ok 1023 []]) := by
  intro buf
  have hlen : (v :: List.replicate 2147483646 v).length = 2147483647 := by
    rw [List.length_cons, List.length_replicate]
  dsimp only
  rw [hlen]
  have hlast : 0 + 2097151 * 1024 + min 1023 (2147483647 - (0 + 2097151 * 1024)) = 2147483647 := by
    decide
  obtain ⟨buf', h⟩ := FdIo.Udp.readFd_go_replicate 2147483647 1024 (by decide) 2097151 buf 0
    [SysRet.ok 1023 []] (by decide)
  unfold FdIo.Udp.readFd
  rw [h, FdIo.Udp.readFd_go_ok (by decide), hlast, FdIo.Udp.readFd_go_of_le (Nat.le_refl _)]
  exact ⟨_, _, rfl⟩

theorem run_loses_readiness
    : ∃ w, run (fillingRun (⟨4096, 1⟩ :: List.replicate 2147483646 ⟨4096, 1⟩)
          (List.replicate 2097151 (SysRet.ok 1024 []) ++ [SysRet.ok 1023 []])) (World.init fun _ => true) = .ok () w
        ∧ (w.action 0).multishotReadTask = none ∧ (w.action 0).hasAcceptTask = false
        ∧ (w.action 0).pendingReadTask ≠ [] ∧ 0 ∉ w.poll.readyEvents
        ∧ (w.action 0).isReadable = true := by
  obtain ⟨_, w, hrun, h⟩ := (fillingRun_stuck _ _ _ (fills_all ⟨4096, 1⟩)).total rfl
  refine ⟨w, hrun, h.multishot, h.accept, ?_, ?_, h.readable⟩
  . rw [h.reads]
    exact List.cons_ne_nil _ _
  . rw [h.ready]
    exact List.not_mem_nil

end Event
end Ezio
