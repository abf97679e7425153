import Ezio.Event.Epoll.Lemmas.WriteTask

/-!
This module contains the proof that writes are carried out in the order they are submitted, as long as
no task that is refused is overtaken within a pass.
-/

namespace Ezio
namespace Event

open EStateM (Preserves Triple)
open Ezio.Event.Frame (Inv)

variable {fd : Fd} {n t : Nat}

-- The queue changes but neither the log nor what the kernel waits for do.
theorem InPass.requeue {n' c j m c' j' m' : Nat} {w w' : World} (h : InPass fd n c j m w) (hm : 0 < m)
    (hwf : w'.poll.Wf) (hreg : w.poll.SameReg w'.poll) (hlog : w'.log = w.log)
    (hline : Line c' j' m' w') (hle : n' ≤ m') (hunmoved : w.pass.refused = false → j' = 0)
    (halone : w.pass.submitted = false ∨ w.pass.refused = true → m' = n')
    : InPass fd n' c' j' m' w' := by
  have hpass : w'.pass = w.pass := by rw [World.pass, hlog, World.pass]
  have hfound : w.poll.fdToEventInfo fd.key = some 0 ∧ (w.action 0).isWriting = true := by
    rcases h.found with ⟨_, hnone⟩ | hfound
    . have := congrArg List.length h.ids
      simp only [hnone, List.length_map, List.length_nil, List.length_append, List.length_range'] at this
      omega
    . exact hfound
  refine ⟨⟨hwf, hreg.isInited.trans h.isInited, ?_, .inr ⟨?_, ?_⟩, ?_⟩, hline, hle, ?_, ?_⟩
  . rw [hreg.next]
    exact h.one
  . rw [hreg.map]
    exact hfound.1
  . rw [World.action_def, EventAction.isWriting, hreg.events]
    exact hfound.2
  . rw [hlog]
    exact h.order
  . rw [hpass]
    exact hunmoved
  . rw [hpass]
    exact halone

-- What `pop_front` leaves.
def World.pop (w : World) : World :=
  w.modifyAction 0 fun a => { a with pendingWriteTask := a.pendingWriteTask.tail }

theorem World.pop_wf {w : World} (h : w.poll.Wf) : w.pop.poll.Wf := by
  rw [World.pop, World.modifyAction_poll]
  exact h.modifyAction

theorem World.pop_sameReg (w : World) : w.poll.SameReg w.pop.poll := by
  rw [World.pop, World.modifyAction_poll]
  exact Epoll.SameReg.modifyAction _ (fun _ => rfl)

theorem World.Called.pop {w : World} (h : w.Called fd (n + 1) t) : w.pop.Passing fd n := by
  refine World.OnceOk.of_poll h rfl ?_
  rintro ⟨m, hin, _, hcalled⟩
  have hle := hin.le
  have hids := hin.ids
  obtain ⟨m, rfl⟩ : ∃ k, m = k + 1 := ⟨m - 1, by omega⟩
  refine ⟨t + 1, 0, m, hin.requeue (by omega) (World.pop_wf hin.wf) w.pop_sameReg rfl ⟨?_, ?_, ?_⟩
    (by omega) (fun _ => rfl) ?_⟩
  . simp only [World.action_def, List.range'_succ, List.range'_zero, List.append_nil, Nat.add_zero]
      at hids
    simp [World.pop, List.map_tail, hids]
  . have := hin.total
    show _ = w.poll.nextTask
    omega
  . intro t' ht'
    rcases Nat.lt_succ_iff_lt_or_eq.mp ht' with hlt | heq
    . exact hin.called t' hlt
    . rw [heq]
      exact hcalled
  . intro hcase
    have := hin.alone hcase
    omega

theorem World.WasRefused.pop {w : World} {task : Task} (h : w.WasRefused fd (n + 1) task.id)
    : (w.modifyAction 0 fun a =>
        { a with isWritable := false }.addWriteTask task).pop.Passing fd n := by
  refine World.OnceOk.of_poll h rfl ?_
  rintro ⟨hrefused, c, j, hin, ht⟩
  have hids := hin.ids
  refine ⟨c, j + 1, n, hin.requeue (by omega) ?_ ?_ rfl ⟨?_, ?_, hin.called⟩ (Nat.le_refl n) ?_
    (fun _ => rfl)⟩
  . apply World.pop_wf
    rw [World.modifyAction_poll]
    exact hin.wf.modifyAction
  . refine Epoll.SameReg.trans ?_ (World.pop_sameReg _)
    rw [World.modifyAction_poll]
    exact Epoll.SameReg.modifyAction _ (fun _ => rfl)
  . simp only [World.action_def, List.range'_succ] at hids
    simp [World.pop, EventAction.addWriteTask, List.map_tail, hids, ht, List.range'_1_concat]
    omega
  . have := hin.total
    show _ = w.poll.nextTask
    omega
  . rw [hrefused]
    exact fun h => by cases h

theorem popWriteTask_passing
    : Triple (Inv (OnlyWrites fd) (fun w => w.pop.Passing fd n)) (popWriteTask 0)
        (fun _ => Inv (OnlyWrites fd) (World.Passing fd n)) (fun _ => World.Ordered) := by
  apply Triple.get_bind
  intro w hw
  split
  . apply Triple.throw
    intro w' heq
    rw [heq]
    exact hw.2.ordered
  next t ts hts =>
    apply Triple.modify
    intro w' heq
    rw [heq]
    refine ⟨hw.1, ?_⟩
    have hpop : w.pop.Passing fd n := hw.2
    rw [World.pop, World.modifyAction_eq] at hpop
    rw [World.action_def] at hts
    rw [hts] at hpop
    exact hpop

theorem writeLoop_passing (hfd : 0 ≤ fd.num) (n : Nat)
    : Triple (Inv (OnlyWrites fd) (World.Passing fd n)) (writeLoop 0 n)
        (fun _ => Inv (OnlyWrites fd) (World.Passing fd 0)) (fun _ => World.Ordered) := by
  induction n with
  | zero => exact Triple.pure (fun _ hw => hw)
  | succ n ih =>
    apply Triple.get_bind
    intro w hw
    split
    . apply Triple.throw
      intro w' heq
      rw [heq]
      exact hw.2.ordered
    next task ts hts =>
      have hfront : w.AtFront fd (n + 1) task.id := by
        intro hok
        obtain ⟨c, j, m, hin⟩ := hw.2 hok
        have hle := hin.le
        have hids := hin.ids
        obtain ⟨m, rfl⟩ : ∃ k, m = k + 1 := ⟨m - 1, by omega⟩
        rw [hts, List.map_cons, List.range'_succ, List.cons_append, List.cons.injEq] at hids
        exact ⟨c, j, m + 1, hin, hids.1⟩
      apply Triple.bind ((World.AtFront.doWriteTask hfd task).at_state ⟨hw.1, hfront⟩)
      intro again
      apply Triple.modify_bind (T := Inv (OnlyWrites fd) (fun w => w.pop.Passing fd n))
      . intro w hw
        refine ⟨hw.1, ?_⟩
        cases again with
        | true => exact World.WasRefused.pop hw.2
        | false =>
          show (w.modifyAction 0 fun a => a).pop.Passing fd n
          rw [World.modifyAction_self]
          exact World.Called.pop hw.2
      . apply Triple.bind popWriteTask_passing
        intro _
        exact ih

theorem World.Passing.idle {w : World} (h : w.Passing fd 0) : w.Idle fd := by
  intro hok
  obtain ⟨c, j, m, hin⟩ := h hok
  refine ⟨hin.toWriter, ?_⟩
  by_cases hrefused : w.pass.refused = true
  . have hm := hin.alone (.inr hrefused)
    refine ⟨c, j, ?_, ?_, hin.called⟩
    . rw [hin.ids, hm]
      simp
    . have := hin.total
      omega
  . have hj := hin.unmoved (by simpa using hrefused)
    rw [hj] at hin
    exact ⟨c, m, hin.toLine⟩

theorem World.Idle.start {w : World} (h : w.Idle fd) (sys : List SysRet) (user : List (List Op))
    : (w.addLog [.writePass 0 w.poll sys user]).Passing fd (w.action 0).pendingWriteTask.length := by
  have hpass := World.pass_of_append
    (show (w.addLog [.writePass 0 w.poll sys user]).log = w.log ++ [.writePass 0 w.poll sys user] from rfl)
  refine World.OnceOk.of_append h rfl ?_
  rintro _ _ ⟨hwriter, c, m, hline⟩
  have hlength : (w.action 0).pendingWriteTask.length = m := by
    have := congrArg List.length hline.ids
    simpa using this
  have hsame : Epoll.SameWrites fd w.poll (w.addLog [.writePass 0 w.poll sys user]).poll :=
    Epoll.SameWrites.refl _
  rw [hlength]
  refine ⟨c, 0, m, ⟨hwriter.of_same hsame ?_, ?_, Nat.le_refl m, fun _ => rfl, fun _ => rfl⟩⟩
  . exact hwriter.order.append_singleton (fun t ht => by cases ht)
  . exact hline.of_same hsame (List.prefix_append _ _)

theorem handleWrite_idle (hfd : 0 ≤ fd.num)
    : Triple (Inv (OnlyWrites fd) (World.Idle fd)) (handleWrite 0)
        (fun _ => Inv (OnlyWrites fd) (World.Idle fd)) (fun _ => World.Ordered) := by
  apply Triple.get_bind
  intro w hw
  split
  . apply Triple.get_bind
    intro w' heq
    rw [heq]
    refine Triple.modify_bind ?_ ((writeLoop_passing hfd _).conseq (fun _ hw => hw) ?_ (fun _ _ hw => hw))
    . intro w' heq
      rw [heq]
      exact ⟨hw.1, hw.2.start _ _⟩
    . intro _ w hw
      exact ⟨hw.1, World.Passing.idle hw.2⟩
  . apply Triple.pure
    intro w' heq
    rw [heq]
    exact hw

theorem handleEvents_idle (hfd : 0 ≤ fd.num) (isEventTriggered : Bool)
    : Triple (Inv (OnlyWrites fd) (World.Idle fd)) (handleEvents 0 isEventTriggered)
        (fun _ => Inv (OnlyWrites fd) (World.Idle fd)) (fun _ => World.Ordered) := by
  apply Triple.get_bind
  intro w hw
  have hread : Triple (Inv (OnlyWrites fd) (World.Idle fd)) (handleRead 0 isEventTriggered)
      (fun _ => Inv (OnlyWrites fd) (World.Idle fd)) (fun _ => World.Ordered) :=
    ((World.Idle.readFrame hfd).handleRead isEventTriggered).conseq (fun _ hw => hw)
      (fun _ _ hw => hw) (fun _ _ hw => World.Idle.ordered hw.2)
  split
  . apply Triple.pure
    intro w' heq
    rw [heq]
    exact hw
  . apply Triple.bind (hread.at_state hw)
    intro _
    exact handleWrite_idle hfd

theorem Epoll.applyOneChange_map_of_isWriting {s : Epoll} {id : Nat} (h : (s.infos id).action.isWriting = true)
    : (s.applyOneChange id).fdToEventInfo = s.fdToEventInfo := by
  have hevt : (s.infos id).action.isNoneEvt = false := by
    simp_all [EventAction.isNoneEvt, EventAction.isWriting]
  unfold applyOneChange
  dsimp only
  split
  next hop =>
    simp only [changeOp, hevt, Bool.false_eq_true, if_false] at hop
    split at hop <;> cases hop
  next op hop =>
    have hdel : op ≠ .del := by
      simp only [changeOp, hevt, Bool.false_eq_true, if_false] at hop
      split at hop <;> cases hop <;> simp
    split
    . rw [if_neg hdel]
      rfl
    . rw [if_neg (by simp [hdel])]
      split
      . rfl
      . split <;> rfl

theorem Epoll.SameWrites.applyChanges (s : Epoll) : SameWrites fd s s.applyChanges := by
  have hsame := applyChanges_sameTasks s
  refine ⟨Wf.applyChanges, hsame.isInited, hsame.next, hsame.nextTask, ?_, ?_, ?_⟩
  . intro hwriting hwf hone hmap
    have hzero : ∀ id ∈ s.evtChangeLst, id = 0 := by
      intro id hid
      have := hwf.change id hid
      omega
    show (s.evtChangeLst.foldl Epoll.applyOneChange s).fdToEventInfo _ = _
    rw [← hmap]
    clear hmap hsame hwf hone
    generalize s.evtChangeLst = ids at hzero
    induction ids generalizing s with
    | nil => rfl
    | cons id ids ih =>
      rw [List.foldl_cons, hzero id (by simp)]
      rw [ih]
      . rw [applyOneChange_map_of_isWriting hwriting]
      . rw [(applyOneChange_sameTasks s 0).action]
        exact hwriting
      . intro j hj
        exact hzero j (by simp [hj])
  . rw [hsame.action]
  . rw [hsame.action]

-- A run that has gone wrong once has nothing left to show.
theorem triple_of_ok {A : Op → Prop} {m : EventM Unit}
    (hlog : ∀ log, Preserves (Inv A (fun w => log <+: w.log)) m)
    (h : Triple (fun w => Inv A (World.Idle fd) w ∧ w.pass.ok = true) m
      (fun _ => Inv A (World.Idle fd)) (fun _ => World.Ordered))
    : Triple (Inv A (World.Idle fd)) m (fun _ => Inv A (World.Idle fd)) (fun _ => World.Ordered) := by
  have hfalse : ∀ {w w' : World} {P : World → Prop}, ¬ w.pass.ok = true → w.log <+: w'.log
      → w'.OnceOk P := by
    intro w w' P hok hprefix hok'
    obtain ⟨es, hes⟩ := hprefix
    rw [World.pass_of_append hes.symm] at hok'
    exact absurd (Pass.ok_of_foldl hok') hok
  intro w hw
  by_cases hok : w.pass.ok = true
  . exact h w ⟨hw, hok⟩
  . have := hlog w.log w ⟨hw.1, List.prefix_rfl⟩
    cases hm : m w with
    | ok a w' =>
      rw [hm] at this
      exact ⟨this.1, hfalse hok this.2⟩
    | error e w' =>
      rw [hm] at this
      exact hfalse hok this.2

theorem World.Idle.zero {w : World} (h : w.Idle fd) (hok : w.pass.ok = true)
    : (∀ id ∈ w.poll.readyEvents, id = 0)
        ∧ ∀ k mask id, w.poll.kernel.interest k = some (mask, id) → id = 0 := by
  obtain ⟨hwriter, _⟩ := h hok
  have hone := hwriter.one
  refine ⟨?_, ?_⟩
  . intro id hid
    have := hwriter.wf.ready id hid
    omega
  . intro k mask id hid
    have := hwriter.wf.interest k mask id hid
    omega

theorem setReadyEvents_idle (hfd : 0 ≤ fd.num) (events : Mask)
    : Triple (Inv (OnlyWrites fd) (World.Idle fd)) (setReadyEvents 0 events)
        (fun _ => Inv (OnlyWrites fd) (World.Idle fd)) (fun _ => World.Ordered) := by
  refine Triple.modify_bind ?_ (handleEvents_idle hfd true)
  intro w hw
  refine ⟨hw.1, World.SameWrites.idle (w := w) ?_ hw.2⟩
  exact .of_poll (Epoll.SameWrites.setAction _ rfl rfl) rfl

theorem readyLoop_idle (hfd : 0 ≤ fd.num) (n : Nat)
    : Triple (Inv (OnlyWrites fd) (World.Idle fd)) (readyLoop n)
        (fun _ => Inv (OnlyWrites fd) (World.Idle fd)) (fun _ => World.Ordered) := by
  induction n with
  | zero => exact Triple.pure (fun _ hw => hw)
  | succ n ih =>
    apply triple_of_ok (fun log => (logFrame log _).readyLoop (n + 1))
    apply Triple.get_bind
    intro w hw
    split
    . apply Triple.throw
      intro w' heq
      rw [heq]
      exact hw.1.2.ordered
    next id ids hids =>
      have hid : id = 0 := (hw.1.2.zero hw.2).1 id (by simp [hids])
      rw [hid]
      apply Triple.bind ((handleEvents_idle hfd false).at_state hw.1)
      intro _
      refine Triple.modify_bind ?_ ih
      intro w hw
      refine ⟨hw.1, World.SameWrites.idle (w := w) ?_ hw.2⟩
      refine .of_poll (Epoll.SameWrites.of_infos ?_ rfl rfl rfl rfl rfl) rfl
      intro h
      exact { h with ready := fun j hj => h.ready j (List.mem_of_mem_tail hj) }

theorem dispatch_idle (hfd : 0 ≤ fd.num) (ready : Option (List (Nat × Mask)))
    : Triple (Inv (OnlyWrites fd) (World.Idle fd)) (dispatch ready)
        (fun _ => Inv (OnlyWrites fd) (World.Idle fd)) (fun _ => World.Ordered) := by
  apply triple_of_ok (fun log => (logFrame log _).dispatch ready)
  apply Triple.modify_bind (T := fun w => Inv (OnlyWrites fd) (World.Idle fd) w ∧ w.pass.ok = true)
  . intro w hw
    refine ⟨⟨hw.1.1, World.SameWrites.idle (w := w) ?_ hw.1.2⟩, hw.2⟩
    exact .of_poll (Epoll.SameWrites.applyChanges _) rfl
  . split
    . exact Triple.pure (fun _ hw => hw.1)
    next ready =>
      apply Triple.get_bind
      intro w hw
      apply Triple.bind (Q := fun _ => Inv (OnlyWrites fd) (World.Idle fd))
      . refine Triple.at_state (Triple.forM ?_) hw.1
        intro e he
        have hid : e.1 = 0 := by
          obtain ⟨p, _, hp⟩ := List.mem_filterMap.mp (List.mem_of_mem_take he)
          obtain ⟨q, hq, rfl⟩ := Option.map_eq_some_iff.mp hp
          exact (hw.1.2.zero hw.2).2 _ _ _ hq
        rw [hid]
        exact setReadyEvents_idle hfd e.2
      . intro _
        apply Triple.bind (Q := fun _ => Inv (OnlyWrites fd) (World.Idle fd))
        . apply Triple.get_bind
          intro w hw
          exact (readyLoop_idle hfd _).at_state hw
        . intro _
          apply Triple.modify
          intro w hw
          refine ⟨hw.1, World.SameWrites.idle (w := w) ?_ hw.2⟩
          exact .of_poll (Epoll.SameWrites.of_infos (fun h => { h with }) rfl rfl rfl rfl rfl) rfl

theorem run_idle (hfd : 0 ≤ fd.num) {sts : List Step} (hsts : ∀ st ∈ sts, st.Calls (OnlyWrites fd))
    : Triple (World.Idle fd) (run sts) (fun _ => World.Idle fd) (fun _ => World.Ordered) := by
  apply Triple.forM
  intro st hst
  cases st with
  | op op =>
    exact (World.Idle.exec hfd (hsts _ hst)).conseq (fun _ hw => hw) (fun _ _ hw => hw)
      (fun _ _ hw => hw.ordered)
  | dispatch ready sys user errs =>
    refine Triple.modify_bind ?_ ((dispatch_idle hfd ready).conseq (fun _ hw => hw)
      (fun _ _ hw => hw.2) (fun _ _ hw => hw))
    intro w hw
    refine ⟨hsts _ hst, World.SameWrites.idle (w := w) ?_ hw⟩
    exact .of_poll (Epoll.SameWrites.of_infos (fun h => { h with }) rfl rfl rfl rfl rfl) rfl

theorem World.Idle.init (isOpen : Nat → Bool) : (World.init isOpen).Idle fd := by
  intro _
  refine ⟨⟨Epoll.Wf.init isOpen, rfl, Nat.zero_le 1, .inl ⟨rfl, rfl⟩, InOrder.nil⟩, 0, 0, rfl, rfl, ?_⟩
  intro t ht
  omega

theorem run_writes_inOrder (fd : Fd) (hfd : 0 ≤ fd.num) (isOpen : Nat → Bool) (sts : List Step)
    (hsts : ∀ st ∈ sts, st.Calls (OnlyWrites fd))
    (hok : (run sts (World.init isOpen)).state.pass.ok = true)
    : InOrder (run sts (World.init isOpen)).state.log := by
  have h := run_idle hfd hsts (World.init isOpen) (World.Idle.init isOpen)
  cases hrun : run sts (World.init isOpen) with
  | ok a w =>
    rw [hrun] at h hok
    exact h.ordered hok
  | error e w =>
    rw [hrun] at h hok
    exact h hok

def aTcpFd : Fd := ⟨5, .tcp⟩

def aWrite : Op := .submitAsyncWrite aTcpFd ⟨false, [⟨1000, 1⟩]⟩ (some 7) none

def writable : Option (List (Nat × Mask)) := some [(5, ⟨false, true, false⟩)]

-- Both tasks are carried out in turn, the second one after it has been refused once.
def orderedWrites : List Step :=
  [.op aWrite, .op aWrite, .dispatch writable [.ok 1 [], .fail .again] [] [],
    .dispatch writable [.ok 1 []] [] []]

theorem orderedWrites_inOrder
    : ((run orderedWrites (World.init fun _ => true)).state.log.filterMap Entry.completes = [0, 1])
        ∧ InOrder (run orderedWrites (World.init fun _ => true)).state.log := by
  refine ⟨by decide +kernel, run_writes_inOrder aTcpFd (by decide) _ _ ?_ (by decide +kernel)⟩
  decide +kernel

-- The callback of the first task submits a third one, then the second one is refused and queued behind it.
def overtakingWrites : List Step :=
  [.op aWrite, .op aWrite, .dispatch writable [.ok 1 [], .fail .again] [[aWrite]] [],
    .dispatch writable [.ok 1 [], .ok 1 []] [] []]

theorem overtakingWrites_not_inOrder
    : (∀ st ∈ overtakingWrites, st.Calls (OnlyWrites aTcpFd))
        ∧ ¬ InOrder (run overtakingWrites (World.init fun _ => true)).state.log := by
  refine ⟨by decide +kernel, ?_⟩
  have hsent : ((run overtakingWrites (World.init fun _ => true)).state.log[8]?.bind Entry.writes)
      = some 2 := by decide +kernel
  have hcalled : ((run overtakingWrites (World.init fun _ => true)).state.log.take 8).filterMap
      Entry.completes = [0] := by decide +kernel
  intro h
  obtain ⟨e, he, hwrites⟩ := Option.bind_eq_some_iff.mp hsent
  obtain ⟨e', he', hcompletes⟩ := h 8 e 2 he hwrites 1 (by decide)
  have hmem := List.mem_filterMap.mpr ⟨e', he', hcompletes⟩
  rw [hcalled] at hmem
  simp at hmem

end Event
end Ezio
