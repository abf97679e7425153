import Ezio.Event.Epoll.Lemmas.Ready

/-!
This module contains the proof that `handle_events` takes an action from one on which it is at work to
one that is settled.
-/

namespace Ezio
namespace Event

open EStateM (Preserves Triple)
open Ezio.Event.Frame (Inv)

-- A read task that has to wait has found the file empty.
theorem readUdp_waits {id : Nat} {src : ReadSource} {cnt : Nat} (hcnt : toInt32 cnt ≠ INT32_MAX)
    : Triple (fun w => (w.action id).readOp = some .udp) (readUdp id false src cnt)
        (fun ret w => ret = INT32_MAX → (w.action id).isReadable = false) (fun _ _ => True) := by
  apply Triple.bind (Q := fun _ w => (w.action id).readOp = some .udp)
  . apply Triple.get_bind
    intro w hw
    apply Triple.pure
    rintro _ rfl
    exact hw
  intro buf
  apply Triple.get_bind
  intro w hw
  apply Triple.bind (Q := fun r _ => r.ret = INT32_MAX → r.isEmpty = true)
  . intro w' heq
    rw [heq]
    unfold liftIo
    rw [hw]
    dsimp only [readHdrs]
    cases hio : FdIo.Udp.readFd buf cnt w.sys with
    | cut => trivial
    | null => trivial
    | done r sys =>
      intro hret
      exact FdIo.Udp.readFd_ret hio hret hcnt
  intro r
  apply Triple.bind (Q := fun _ _ => r.ret = INT32_MAX → r.isEmpty = true)
  . apply Triple.modify
    intro _ h
    exact h
  intro _
  split
  . apply Triple.bind (Q := fun _ w => r.ret = INT32_MAX → (w.action id).isReadable = false)
    . apply Triple.modify
      intro w h hret
      simp [h hret]
    . intro _
      split
      . apply Triple.pure
        intro w h
        exact h
      . apply Triple.bind Triple.trivial
        intro _
        apply Triple.pure
        intro _ _ hret
        simp [INT32_MAX] at hret
  . apply Triple.bind Triple.trivial
    intro _
    apply Triple.pure
    intro _ _ hret
    simp [INT32_MAX] at hret

-- What is needed of a task on a UDP socket so that its count is not taken for `INT32_MAX`.
def UdpTask (id : Nat) (t : Task) (w : World) : Prop :=
  (w.action id).fd.type = .udp
    → (w.action id).readOp = some .udp ∧ toInt32 t.buffer.length ≠ INT32_MAX

theorem doReadTask_transfer_waits (id : Nat) (t : Task) (isEventTriggered : Bool)
    : Triple (UdpTask id t) (doReadTask.transfer id t isEventTriggered)
        (fun again w => again = true → (w.action id).isReadable = false) (fun _ _ => True) := by
  apply Triple.get_bind
  intro w hw
  split
  next hudp =>
    have ⟨hop, hcnt⟩ := hw hudp
    apply Triple.bind (Q := fun _ w => (w.action id).readOp = some .udp)
    . apply Triple.modify
      rintro _ rfl
      simpa [EventAction.readOp] using hop
    . intro _
      apply Triple.bind (readUdp_waits hcnt)
      intro ret
      apply Triple.pure
      intro w h hret
      exact h (by simpa using hret)
  . apply Triple.bind Triple.trivial
    intro r
    apply Triple.bind (Q := fun _ w => r.flag = true → (w.action id).isReadable = false)
    . apply Triple.modify
      intro w _ hflag
      simp [hflag]
    . intro _
      split
      next hc =>
        apply Triple.pure
        intro w h _
        apply h
        simp_all
      . apply Triple.bind Triple.trivial
        intro _
        apply Triple.pure
        simp

theorem doReadTask_waits (id : Nat) (t : Task) (isEventTriggered : Bool)
    : Triple (UdpTask id t) (doReadTask id t isEventTriggered)
        (fun again w => again = true → (w.action id).isReadable = false) (fun _ _ => True) := by
  apply Triple.get_bind
  intro w hw
  split
  . apply Triple.bind Triple.trivial
    intro _
    apply Triple.pure
    simp
  . split
    . exact (doReadTask_transfer_waits id t isEventTriggered).at_state hw
    next offset hoff =>
      -- only regular files have an offset
      have hfile : (w.action id).fd.type ≠ .udp := by
        intro hudp
        rw [hudp] at hoff
        simp at hoff
      apply Triple.bind (Q := fun _ w => (w.action id).fd.type ≠ .udp)
      . have hlseek := lseek_poll id t.id offset (fun s => (s.action id).fd.type ≠ .udp)
        exact (hlseek.at_state hfile).ignore_error
      . intro ok
        split
        . apply Triple.bind (Q := fun _ w => (w.action id).fd.type ≠ .udp)
          . apply Triple.modify
            intro w h
            simpa using h
          . intro _
            apply (doReadTask_transfer_waits id t isEventTriggered).pre
            intro w h hudp
            exact absurd hudp h
        . apply Triple.bind Triple.trivial
          intro _
          apply Triple.pure
          simp

theorem popReadTask_ready {n k id m nw : Nat}
    : Triple (Inv Op.Submits (World.Ready n k id (m + 1) nw)) (popReadTask id)
        (fun _ => Inv Op.Submits (World.Ready n k id m nw)) (fun _ _ => True) := by
  apply Triple.get_bind
  intro w hw
  split
  . exact Triple.throw (fun _ _ => True.intro)
  next t ts hts =>
    apply Triple.modify
    intro w' heq
    rw [heq, World.modifyAction_eq]
    refine ⟨hw.1, ?_⟩
    intro hlog
    apply (hw.2 hlog).recount
    intro _ hact
    rw [World.action_def] at hts
    refine { hact with read := ?_, bufs := ?_ }
    . intro hm
      have := hact.read hm
      rw [hts] at this
      exact this.pop
    . intro hudp t' ht'
      apply hact.bufs hudp
      rw [hts]
      exact List.mem_cons_of_mem _ ht'

theorem popWriteTask_ready {n k id nr m : Nat}
    : Triple (Inv Op.Submits (World.Ready n k id nr (m + 1))) (popWriteTask id)
        (fun _ => Inv Op.Submits (World.Ready n k id nr m)) (fun _ _ => True) := by
  apply Triple.get_bind
  intro w hw
  split
  . exact Triple.throw (fun _ _ => True.intro)
  next t ts hts =>
    apply Triple.modify
    intro w' heq
    rw [heq, World.modifyAction_eq]
    refine ⟨hw.1, ?_⟩
    intro hlog
    apply (hw.2 hlog).recount
    intro _ hact
    rw [World.action_def] at hts
    refine { hact with write := ?_ }
    intro hm
    have := hact.write hm
    rw [hts] at this
    exact this.pop

-- Without a cancel, an action keeps its multishot read.
structure Epoll.Shot (id : Nat) (s : Epoll) : Prop where
  wf : s.Wf
  lt : id < s.next
  isSome : (s.infos id).action.multishotReadTask.isSome

namespace Epoll.Shot

variable {s s' : Epoll} {id : Nat}

theorem of_single (h : s.Shot id) (hwf : s'.Wf) (hnext : s.next ≤ s'.next)
    (hact : (s.infos id).action.multishotReadTask.isSome
      → (s'.infos id).action.multishotReadTask.isSome)
    : s'.Shot id :=
  ⟨hwf, Nat.lt_of_lt_of_le h.lt hnext, hact h.isSome⟩

theorem setAction (h : s.Shot id) {i : Nat} {a : EventAction}
    (ha : (s.infos i).action.multishotReadTask.isSome → a.multishotReadTask.isSome)
    : (s.setAction i a).Shot id := by
  apply h.of_single h.wf.setAction (Nat.le_refl _)
  simp only [setAction_def, modifyInfo_infos]
  split
  next heq =>
    rw [heq]
    exact ha
  . exact fun h => h

theorem update {op : Op} {s₀ : Epoll} (h : s.Shot id) (hop : op.Submits) (hs : Update op s₀ s s')
    : s'.Shot id := by
  have hwf := h.wf.update hs
  cases hs with
  | insert fd info hmap hinfo =>
    have hlt := h.lt
    apply h.of_single hwf (Nat.le_succ _)
    rw [insert_infos, if_neg (by omega)]
    exact fun h => h
  | watch fd i events hi =>
    apply h.of_single hwf (Nat.le_refl _)
    rw [modifyInfo_infos]
    split
    next heq =>
      rw [heq]
      exact fun h => h
    . exact fun h => h
  | enlist fd i hi _ =>
    apply h.of_single hwf (Nat.le_refl _)
    rw [modifyInfo_infos]
    split
    next heq =>
      rw [heq]
      exact fun h => h
    . exact fun h => h
  | quiet fd i a hi ha =>
    apply h.setAction
    rw [ha.multishotReadTask]
    exact fun h => h
  | accept fd hasAddrBuffer cb i hop' hi => exact h.setAction (fun h => h)
  | group fd group cb opt i t blocks hop' hi =>
    have ⟨_, _, heq⟩ := EventAction.addMultishotReadTask_eq (s.infos i).action t blocks
    apply h.setAction
    rw [heq]
    exact fun _ => rfl
  | buffers buffers => exact h.of_single hwf (Nat.le_refl _) (fun h => h)
  | queueRead fd buf cb opt i t isSubmit hop hi htype ht hbuf =>
    apply h.of_single hwf (by simp)
    rw [queueRead_infos]
    split
    next heq =>
      rw [heq]
      cases isSubmit <;> exact fun h => h
    . exact fun h => h
  | queueWrite fd buf cb opt i t isSubmit hop hi ht hbuf =>
    apply h.of_single hwf (by simp)
    rw [queueWrite_infos]
    split
    next heq =>
      rw [heq]
      cases isSubmit <;> exact fun h => h
    . exact fun h => h
  | pushReady fd i hi => exact h.of_single hwf (Nat.le_refl _) (fun h => h)
  | insertNonSubmit fd i hi =>
    unfold Epoll.insertNonSubmit at hwf ⊢
    split
    . exact h
    next hmem =>
      rw [if_neg hmem] at hwf
      exact h.of_single hwf (Nat.le_refl _) (fun h => h)
  | submittedOne i hop hi =>
    apply h.of_single hwf (by simp)
    rw [submittedOne_infos]
    split
    next heq =>
      rw [heq]
      simp [EventAction.submitted]
    . exact fun h => h
  | submitted hop => exact h.of_single hwf (Nat.le_refl _) (fun h => h)
  | close fd hop => exact h.of_single hwf (Nat.le_refl _) (fun h => h)
  | «open» fd hop => exact h.of_single hwf (Nat.le_refl _) (fun h => h)
  | clear k i a hop' hi ha => exact absurd hop' hop

theorem updates {op : Op} {s₀ : Epoll} (h : s.Shot id) (hop : op.Submits)
    (hs : Updates op s₀ s s')
    : s'.Shot id := by
  induction hs with
  | refl => exact h
  | tail _ hs ih => exact ih.update hop hs

theorem frame (id i : Nat) : Frame i Op.Submits (fun w => w.poll.Shot id) := by
  refine ⟨⟨?_, ?_, ?_⟩, ?_⟩
  . intro op hop
    apply exec_triple
    . intro w r s hw h
      exact hw.updates hop (Epoll.exec_updates h)
    . intro w f hw _
      exact hw
  . intro w sys user log _ hw
    exact hw
  . intro w a ha _ hw
    obtain ⟨_, _, _, _, _, _, rfl⟩ := ha
    exact hw.setAction (fun h => h)
  . intro w group f hw
    exact hw.of_single { hw.wf with } (Nat.le_refl _) (fun h => h)

end Epoll.Shot

-- A read task that has to wait goes to the back of the queue, it has found the file empty.
theorem requeueRead_ready {n k id nr nw : Nat} {fd : Fd} {t : Task}
    (ht : fd.type = .udp → toInt32 t.buffer.length ≠ INT32_MAX) (again : Bool)
    : Triple
        (fun w => Inv Op.Submits (World.Ready n k id nr nw) w ∧ w.poll.Holds id fd
          ∧ (again = true → (w.action id).multishotReadTask = none
            → (w.action id).isReadable = false))
        (modifyAction id fun a => if again then a.addReadTask t else a)
        (fun _ => Inv Op.Submits (World.Ready n k id nr nw)) (fun _ _ => True) := by
  apply Triple.modify
  intro w hw
  rw [World.modifyAction_eq]
  refine ⟨hw.1.1, ?_⟩
  intro hlog
  have h := hw.1.2 hlog
  apply h.recount
  intro _ hact
  cases again with
  | false => exact hact
  | true =>
    have hflag := hw.2.2 rfl
    rw [← hw.2.1.fd] at ht
    have hpush := hact.addReadTask h.lead ht
    refine { hact with read := ?_, bufs := hpush.bufs }
    intro hm
    have hlen := (hact.read hm).1
    rw [World.action_def] at hflag
    show Queued k nr w.poll.readyEvents id _ (w.poll.infos id).action.isReadable
    rw [hflag hm]
    exact Queued.append_of_not hlen [t]

theorem doReadTask_waits_of_ready {n k id nr nw : Nat} {w : World} {t : Task} {ts : List Task}
    (hid : id < n) (hcalls : w.Calls Op.Submits) (hready : w.poll.Ready n k id nr nw)
    (hts : (w.action id).pendingReadTask = t :: ts) (isEventTriggered : Bool)
    : Triple (· = w) (doReadTask id t isEventTriggered)
        (fun again w' => again = true → (w'.action id).multishotReadTask = none
          → (w'.action id).isReadable = false)
        (fun _ _ => True) := by
  have hlt : id < w.poll.next := by
    have := hready.base
    omega
  have hact := hready.act id hlt
  cases hm : (w.action id).multishotReadTask with
  | some shot =>
    apply ((Epoll.Shot.frame id id).doReadTask t isEventTriggered).conseq
    . rintro _ rfl
      refine ⟨hcalls, hready.wf, hlt, ?_⟩
      rw [World.action_def] at hm
      simp [hm]
    . intro _ w' h _ hnone
      have := h.2.isSome
      rw [World.action_def] at hnone
      simp [hnone] at this
    . intro _ _ _
      trivial
  | none =>
    apply (doReadTask_waits id t isEventTriggered).conseq
    . rintro _ rfl hudp
      refine ⟨hact.ops hm hudp, hact.bufs hudp t ?_⟩
      rw [World.action_def] at hts
      rw [hts]
      simp
    . intro _ _ h hagain _
      exact h hagain
    . intro _ _ _
      trivial

-- What `do_read_task` leaves behind for the task at the front.
theorem doReadTask_ready {n k id nr nw : Nat} {w : World} {t : Task} {ts : List Task} (hid : id < n)
    (hcalls : w.Calls Op.Submits) (hready : w.poll.Ready n k id nr nw)
    (hts : (w.action id).pendingReadTask = t :: ts) (isEventTriggered : Bool)
    : Triple (· = w) (doReadTask id t isEventTriggered)
        (fun again w' => Inv Op.Submits (World.Ready n k id nr nw) w'
          ∧ w'.poll.Holds id (w.action id).fd
          ∧ (again = true → (w'.action id).multishotReadTask = none
            → (w'.action id).isReadable = false))
        (fun _ _ => True) := by
  have hlt : id < w.poll.next := by
    have := hready.base
    omega
  have hframe : Preserves (Inv Op.Submits (World.Ready n k id nr nw))
      (doReadTask id t isEventTriggered) := (World.Ready.frame (.inl hid)).doReadTask _ _
  have hholds := ((Epoll.Holds.runFrame id (w.action id).fd Op.Submits).read id).doReadTask t
    isEventTriggered
  have hwaits := doReadTask_waits_of_ready hid hcalls hready hts isEventTriggered
  apply (hframe.and (hholds.and hwaits)).conseq
  . rintro _ rfl
    exact ⟨⟨hcalls, fun _ => hready⟩, ⟨hcalls, hready.wf, hlt, rfl⟩, rfl⟩
  . intro again w' h
    exact ⟨h.1, h.2.1.2, h.2.2⟩
  . intro _ _ _
    trivial

theorem readLoop_ready {n k id nw : Nat} (hid : id < n) (isEventTriggered : Bool) (m : Nat)
    : Triple (Inv Op.Submits (World.Ready n k id m nw)) (readLoop id isEventTriggered m)
        (fun _ => Inv Op.Submits (World.Ready n k id 0 nw)) (fun _ _ => True) := by
  induction m with
  | zero => exact Triple.pure (fun _ h => h)
  | succ m ih =>
    apply triple_of_all
    . intro log
      exact ((logFrame log Op.Submits).read id).readLoop isEventTriggered (m + 1)
    . apply Triple.get_bind
      intro w hw
      split
      . exact Triple.throw (fun _ _ => True.intro)
      next t ts hts =>
        have hready := hw.2.2
        have hlt : id < w.poll.next := by
          have := hready.base
          omega
        have ht : (w.action id).fd.type = .udp → toInt32 t.buffer.length ≠ INT32_MAX := by
          intro hudp
          apply (hready.act id hlt).bufs hudp
          rw [World.action_def] at hts
          rw [hts]
          simp
        apply Triple.bind (doReadTask_ready hid hw.1 hready hts isEventTriggered)
        intro again
        apply Triple.bind (requeueRead_ready ht again)
        intro _
        apply Triple.bind popReadTask_ready
        intro _
        exact ih

theorem writeLoop_ready {n k id nr : Nat} (hid : id < n) (m : Nat)
    : Triple (Inv Op.Submits (World.Ready n k id nr m)) (writeLoop id m)
        (fun _ => Inv Op.Submits (World.Ready n k id nr 0)) (fun _ _ => True) := by
  induction m with
  | zero => exact Triple.pure (fun _ h => h)
  | succ m ih =>
    apply Triple.get_bind
    intro w hw
    split
    . exact Triple.throw (fun _ _ => True.intro)
    next t ts hts =>
      have hframe : Preserves (Inv Op.Submits (World.Ready n k id nr (m + 1)))
          (doWriteTask id t) := (World.Ready.sendFrame (.inl hid)).doWriteTask _
      apply Triple.bind (Q := fun _ => Inv Op.Submits (World.Ready n k id nr (m + 1)))
      . exact (hframe.at_state hw).ignore_error
      intro again
      apply Triple.bind (Q := fun _ => Inv Op.Submits (World.Ready n k id nr (m + 1)))
      . apply Triple.modify
        intro w hw
        rw [World.modifyAction_eq]
        refine ⟨hw.1, ?_⟩
        intro hlog
        apply (hw.2 hlog).recount
        intro _ hact
        cases again with
        | false => exact hact
        | true =>
          refine { hact with write := ?_ }
          intro hm
          exact Queued.append_of_not (hact.write hm).1 [t]
      intro _
      apply Triple.bind popWriteTask_ready
      intro _
      exact ih

theorem readPass_ready {n k id nr nw : Nat} (hid : id < n) (isEventTriggered : Bool)
    : Triple (Inv Op.Submits (World.Ready n k id nr nw)) (readPass id isEventTriggered)
        (fun _ => Inv Op.Submits (World.Ready n k id 0 nw)) (fun _ _ => True) := by
  apply Triple.get_bind
  intro w hw
  refine Triple.modify_bind ?_ (readLoop_ready hid isEventTriggered _)
  intro w' heq
  rw [heq]
  refine ⟨hw.1, ?_⟩
  intro hlog
  apply (hw.2 (World.All.of_append hlog)).relabel
  intro hact
  exact { hact with read := fun _ => Queued.all _ _ _ _ _ }

theorem writePass_ready {n k id nr nw : Nat} (hid : id < n)
    : Triple (Inv Op.Submits (World.Ready n k id nr nw)) (writePass id)
        (fun _ => Inv Op.Submits (World.Ready n k id nr 0)) (fun _ _ => True) := by
  apply Triple.get_bind
  intro w hw
  refine Triple.modify_bind ?_ (writeLoop_ready hid _)
  intro w' heq
  rw [heq]
  refine ⟨hw.1, ?_⟩
  intro hlog
  apply (hw.2 (World.All.of_append hlog)).relabel
  intro hact
  exact { hact with write := fun _ => Queued.all _ _ _ _ _ }

theorem handleRead_ready {n k id nr nw : Nat} (hid : id < n) (isEventTriggered : Bool)
    : Triple (Inv Op.Submits (World.Ready n k id nr nw)) (handleRead id isEventTriggered)
        (fun _ => Inv Op.Submits (World.Ready n k id 0 nw)) (fun _ _ => True) := by
  have hframe : Frame id Op.Submits (World.Ready n k id nr nw) := World.Ready.frame (.inl hid)
  have hframe₀ : Frame id Op.Submits (World.Ready n k id 0 nw) := World.Ready.frame (.inl hid)
  apply triple_of_all
  . intro log
    exact ((logFrame log Op.Submits).read id).handleRead isEventTriggered
  apply Triple.get_bind
  intro w hw
  have hlt : id < w.poll.next := by
    have := hw.2.2.base
    omega
  split
  next hflag =>
    split
    next shot hshot =>
      have hmulti := (hframe.doMultishotReadTask shot).and
        ((Epoll.Shot.frame id id).doMultishotReadTask shot)
      have haccept := hframe.acceptPass.and (Epoll.Shot.frame id id).acceptPass
      apply (Preserves.bind hmulti (fun _ => haccept)).conseq
      . rintro _ rfl
        refine ⟨⟨hw.1, fun _ => hw.2.2⟩, hw.1, hw.2.2.wf, hlt, ?_⟩
        rw [World.action_def] at hshot
        simp [hshot]
      . intro _ w' h
        refine ⟨h.1.1, ?_⟩
        intro hlog
        apply (h.1.2 hlog).relabel
        intro hact
        exact hact.of_multishot h.2.2.isSome
      . intro _ _ _
        trivial
    next hnone =>
      apply Triple.bind
      . exact (readPass_ready hid isEventTriggered).at_state ⟨hw.1, fun _ => hw.2.2⟩
      . intro _
        exact hframe₀.acceptPass.ignore_error
  next hflag =>
    apply Triple.pure
    rintro _ rfl
    refine ⟨hw.1, ?_⟩
    intro _
    apply hw.2.2.relabel
    intro hact
    refine { hact with read := ?_ }
    intro _
    rw [World.action_def, Bool.not_eq_true] at hflag
    rw [hflag]
    exact Queued.of_not (Nat.zero_le _)

theorem handleWrite_ready {n k id nw : Nat} (hid : id < n)
    : Triple (Inv Op.Submits (World.Ready n k id 0 nw)) (handleWrite id)
        (fun _ => Inv Op.Submits (World.Ready n k id 0 0)) (fun _ _ => True) := by
  apply Triple.get_bind
  intro w hw
  split
  next hflag =>
    exact (writePass_ready hid).at_state hw
  next hflag =>
    apply Triple.pure
    rintro _ rfl
    refine ⟨hw.1, ?_⟩
    intro hlog
    apply (hw.2 hlog).relabel
    intro hact
    refine { hact with write := ?_ }
    intro _
    -- either the file is full or there is nothing to write
    refine ⟨Nat.zero_le _, ?_⟩
    intro hlen hwr
    exfalso
    apply hflag
    simp only [World.action_def, hwr, Bool.true_and]
    exact decide_eq_true (List.ne_nil_of_length_pos hlen)

theorem handleEvents_ready {n k id nr nw : Nat} (hid : id < n) (isEventTriggered : Bool)
    : Triple (Inv Op.Submits (World.Ready n k id nr nw)) (handleEvents id isEventTriggered)
        (fun _ => Inv Op.Submits (World.Ready n k id 0 0)) (fun _ _ => True) := by
  apply Triple.get_bind
  intro w hw
  split
  next hheld =>
    apply Triple.pure
    rintro _ rfl
    refine ⟨hw.1, ?_⟩
    intro hlog
    apply (hw.2 hlog).relabel
    intro hact
    apply hact.of_multishot
    simp only [World.action_def, EventAction.isHeld, Bool.and_eq_true] at hheld
    rw [Option.isSome_iff_ne_none]
    intro hnone
    simp [hnone] at hheld
  . apply Triple.bind
    . exact (handleRead_ready hid isEventTriggered).at_state hw
    . intro _
      exact handleWrite_ready hid

end Event
end Ezio
