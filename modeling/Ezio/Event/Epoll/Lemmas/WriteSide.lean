import Ezio.Lib.Relate
import Ezio.Event.Epoll.Lemmas.ReadReturns
import Ezio.Event.Epoll.Lemmas.Wf

/-!
This module contains the comparison of what `handle_events` does about the write tasks of two actions that
differ in what they are to read. The read side is carried out first, and it can keep `handle_events` from
ever getting to the write side.
-/

namespace Ezio
namespace Event

open EStateM (Preserves Triple Relates get_bind_apply modify_bind_apply bind_apply)
open Ezio.Event.Frame (Inv)

structure WriteSide where
  isWritable : Bool
  pendingWriteTask : List Task
  writeOffset : Option Nat
  writeCallback : Option Callback
  writeOp : Option WriteOp
  deriving DecidableEq, Repr

def EventAction.writeSide (a : EventAction) : WriteSide :=
  ⟨a.isWritable, a.pendingWriteTask, a.writeOffset, a.writeCallback, a.writeOp⟩

def WriteSide.hasWork (s : WriteSide) : Bool := s.isWritable && s.pendingWriteTask ≠ []

-- What becomes of the write tasks.
inductive WriteEvent where
  | sent (task : Nat) (sockaddr : Option Nat) (offered : List Iovec) (n : Nat)
  | refused (task : Nat)
  | called (cb : Callback) (task : Nat) (ret : Int)
  deriving DecidableEq, Repr

def Entry.writeEvents (id : Nat) : Entry → List WriteEvent
  | .sent i task sockaddr offered n => if i = id then [.sent task sockaddr offered n] else []
  | .refused i task => if i = id then [.refused task] else []
  | .writeCallback i cb task ret _ => if i = id then [.called cb task ret] else []
  | _ => []

-- How the write part fails, `none` if it does not or if it is not come to.
def writeFault (id : Nat) (isEventTriggered : Bool) (w : World) : Option Fault :=
  if (w.action id).isHeld then
    none
  else
    match handleRead id isEventTriggered w with
    | .ok _ u => (handleWrite id u).error?
    | .error .. => none

-- What a call of `handle_events` does about the write tasks, what it leaves of them, and whether they make it fail.
def handledWrites (id : Nat) (isEventTriggered : Bool) (w : World)
    : List WriteEvent × WriteSide × Option Fault :=
  let u := (handleEvents id isEventTriggered w).state
  (w.since (Entry.writeEvents id) u, (u.action id).writeSide, writeFault id isEventTriggered w)

-- The answers of the kernel are enough for the read part and leave `ws` for the write part. Where the read part does
-- not return, `recvmmsg` does not answer 0.
structure Answered (id : Nat) (isEventTriggered : Bool) (ws : List SysRet) (w : World) : Prop where
  enough : (w.action id).blocksWrites = false → (handleRead id isEventTriggered w).error? ≠ some .cut
  left : (w.action id).blocksWrites = false → (handleRead id isEventTriggered w).state.sys = ws
  notClosed : (w.action id).isHeld = false → (w.action id).blocksWrites = true → (w.action id).fd.type = .udp
    → ∀ x ∈ w.sys, NotClosed x

section

variable {id n n' : Nat} {w w' : World} {xs xs' : List WriteEvent}

theorem writeEvents_observation (id : Nat) : Observation (Entry.writeEvents id) :=
  ⟨fun _ _ => rfl, fun _ _ _ _ _ _ => rfl⟩

theorem script_log (log : List Entry) (ops : List Op)
    : Preserves (fun w => log <+: w.log) (ops.forM exec) :=
  Preserves.forM fun op _ => ((logFrame log fun _ => True).read 0).exec op trivial

-- An untouched run of a script.
theorem script_untouched (ops : List Op) (hn : n ≤ w.log.length) (h : (ops.forM exec w).state.Untouched n id)
    : ∃ u, ops.forM exec w = .ok () u ∧ u.action id = w.action id ∧ u.sys = w.sys ∧ w.log <+: u.log
      ∧ ∀ xs, Observes (Entry.writeEvents id) xs w → Observes (Entry.writeEvents id) xs u := by
  induction ops generalizing w with
  | nil => exact ⟨w, rfl, rfl, rfl, List.prefix_rfl, fun _ h => h⟩
  | cons op ops ih =>
    have hcons : (op :: ops).forM exec w = (exec op >>= fun _ => ops.forM exec) w := rfl
    rw [hcons] at h ⊢
    rw [bind_apply] at h ⊢
    have hobserves : ∀ xs, Preserves (Observes (Entry.writeEvents id) xs) (exec op) :=
      fun _ => exec_observes (writeEvents_observation id) op
    unfold exec at h hobserves ⊢
    dsimp only at h ⊢
    cases hexec : w.poll.exec op with
    | error f =>
      rw [hexec] at h
      obtain ⟨r, s, hok, _⟩ := World.Untouched.call hn rfl h
      rw [hexec] at hok
      cases hok
    | ok p =>
      rw [hexec] at h
      dsimp only at h ⊢
      have hlen : n ≤ (w.log ++ [Entry.call op w.poll]).length := by
        rw [List.length_append]
        omega
      obtain ⟨u, hu, haction, hsys, hlog, hevents⟩ := ih hlen h
      have hcall := World.Untouched.call (w := { w.addLog [.call op w.poll] with poll := p.2 }) hn rfl
        (h.of_prefix ((script_log _ ops).state List.prefix_rfl))
      obtain ⟨r, s, hok, hs, _⟩ := hcall
      rw [hexec] at hok
      refine ⟨u, hu, ?_, hsys, (List.prefix_append _ _).trans hlog, ?_⟩
      . rw [haction]
        cases hok
        exact hs
      . intro xs hxs
        apply hevents
        have hobs := hobserves xs w hxs
        dsimp only at hobs
        rw [hexec] at hobs
        exact hobs

-- The write side is as it was, unless a call has touched the action.
def World.KeepsWrites (n id : Nat) (side : WriteSide) (xs : List WriteEvent) (w : World) : Prop :=
  n ≤ w.log.length
    ∧ (w.Untouched n id → (w.action id).writeSide = side ∧ Observes (Entry.writeEvents id) xs w)

theorem World.KeepsWrites.setAction {side : WriteSide} {a : EventAction} (h : w.KeepsWrites n id side xs)
    (ha : a.writeSide = (w.action id).writeSide)
    : (w.modifyAction id fun _ => a).KeepsWrites n id side xs := by
  refine ⟨h.1, ?_⟩
  intro hcalls
  obtain ⟨hside, hevents⟩ := h.2 (hcalls.of_log rfl)
  refine ⟨?_, hevents.of_log rfl⟩
  rw [← hside, ← ha]
  simp

theorem writeEvents_of_not_isWrite {e : Entry} (h : e.isWrite = false) : e.writeEvents id = [] := by
  cases e <;> first | rfl | cases h

theorem World.KeepsWrites.readFrame {side : WriteSide}
    : ReadFrame id (fun _ => True) (World.KeepsWrites n id side xs) := by
  refine ⟨⟨⟨?_, ?_, ?_⟩, ?_⟩, ?_⟩
  . intro op _
    apply exec_triple
    . intro w r s hw hexec
      have hlog : { w.addLog [Entry.call op w.poll] with poll := s }.log = w.log ++ [Entry.call op w.poll] := rfl
      refine ⟨by rw [hlog, List.length_append]; exact Nat.le_add_right_of_le hw.1, ?_⟩
      intro hcalls
      obtain ⟨r', s', hexec', haction, _⟩ := hcalls.call hw.1 hlog
      rw [hexec] at hexec'
      cases hexec'
      obtain ⟨hside, hevents⟩ := hw.2 (hcalls.of_prefix (List.prefix_append _ _))
      refine ⟨?_, hevents.silent hlog rfl⟩
      rw [← hside]
      exact congrArg EventAction.writeSide haction
    . intro w f hw hexec
      have hlog : (w.addLog [Entry.call op w.poll]).log = w.log ++ [Entry.call op w.poll] := rfl
      refine ⟨by rw [hlog, List.length_append]; exact Nat.le_add_right_of_le hw.1, ?_⟩
      intro hcalls
      obtain ⟨r', s', hexec', _⟩ := hcalls.call hw.1 hlog
      rw [hexec] at hexec'
      cases hexec'
  . intro w sys user log hnone hw
    refine ⟨by rw [List.length_append]; exact Nat.le_add_right_of_le hw.1, ?_⟩
    intro hcalls
    obtain ⟨hside, hevents⟩ := hw.2 (hcalls.of_prefix (List.prefix_append _ _))
    refine ⟨hside, hevents.silent rfl ?_⟩
    rw [List.flatMap_eq_nil_iff]
    intro e he
    exact writeEvents_of_not_isWrite (hnone e he).2
  . rintro w _ ⟨_, _, _, _, _, _, rfl⟩ hoffset hw
    apply hw.setAction
    unfold EventAction.writeSide
    rw [hoffset]
    rfl
  . intro w group f hw
    exact hw
  . rintro w _ ⟨_, rfl⟩ hw
    exact hw.setAction rfl

theorem handleRead_keepsWrites (isEventTriggered : Bool) (w : World)
    : (handleRead id isEventTriggered w).state.KeepsWrites w.log.length id (w.action id).writeSide
        (w.log.flatMap (Entry.writeEvents id)) :=
  (World.KeepsWrites.readFrame.handleRead isEventTriggered).state
    ⟨fun _ _ _ _ => True.intro, Nat.le_refl _, fun _ => ⟨rfl, rfl⟩⟩ |>.2

-- Two runs are at the same place of the same write tasks.
structure Agree (id n n' : Nat) (xs xs' : List WriteEvent) (w w' : World) : Prop where
  length : n ≤ w.log.length ∧ n' ≤ w'.log.length
  side : (w.action id).writeSide = (w'.action id).writeSide
  sys : w.sys = w'.sys
  events : ∃ es, Observes (Entry.writeEvents id) (xs ++ es) w ∧ Observes (Entry.writeEvents id) (xs' ++ es) w'

namespace Agree

theorem isWritable (h : Agree id n n' xs xs' w w') : (w'.action id).isWritable = (w.action id).isWritable :=
  (congrArg WriteSide.isWritable h.side).symm

theorem pendingWriteTask (h : Agree id n n' xs xs' w w')
    : (w'.action id).pendingWriteTask = (w.action id).pendingWriteTask :=
  (congrArg WriteSide.pendingWriteTask h.side).symm

theorem writeOffset (h : Agree id n n' xs xs' w w') : (w'.action id).writeOffset = (w.action id).writeOffset :=
  (congrArg WriteSide.writeOffset h.side).symm

theorem writeCallback (h : Agree id n n' xs xs' w w')
    : (w'.action id).writeCallback = (w.action id).writeCallback :=
  (congrArg WriteSide.writeCallback h.side).symm

theorem writeOp (h : Agree id n n' xs xs' w w') : (w'.action id).writeOp = (w.action id).writeOp :=
  (congrArg WriteSide.writeOp h.side).symm

theorem modifyAction (h : Agree id n n' xs xs' w w') {f : EventAction → EventAction}
    (hf : ∀ a a' : EventAction, a.writeSide = a'.writeSide → (f a).writeSide = (f a').writeSide)
    : Agree id n n' xs xs' (w.modifyAction id f) (w'.modifyAction id f) := by
  refine ⟨h.length, ?_, h.sys, h.events⟩
  have hside := hf _ _ h.side
  simpa using hside

theorem append (h : Agree id n n' xs xs' w w') {u v : World} {log log' : List Entry}
    (hlog : u.log = w.log ++ log) (hlog' : v.log = w'.log ++ log')
    (hevents : log.flatMap (Entry.writeEvents id) = log'.flatMap (Entry.writeEvents id))
    (hside : (u.action id).writeSide = (v.action id).writeSide) (hsys : u.sys = v.sys)
    : Agree id n n' xs xs' u v := by
  obtain ⟨es, hw, hw'⟩ := h.events
  refine ⟨⟨?_, ?_⟩, hside, hsys, es ++ log.flatMap (Entry.writeEvents id), ?_, ?_⟩
  . rw [hlog, List.length_append]
    exact Nat.le_add_right_of_le h.length.1
  . rw [hlog', List.length_append]
    exact Nat.le_add_right_of_le h.length.2
  . rw [← List.append_assoc]
    exact hw.append hlog
  . rw [← List.append_assoc, hevents]
    exact hw'.append hlog'

theorem addLog (h : Agree id n n' xs xs' w w') (log : List Entry)
    : Agree id n n' xs xs' (w.addLog log) (w'.addLog log) :=
  h.append rfl rfl rfl h.side h.sys

end Agree

variable {G H : World → Prop}

theorem liftIo_relates {α : Type} (io : List SysRet → Io α)
    : Relates G H (Agree id n n' xs xs') (liftIo io) (liftIo io) (Agree id n n' xs xs') := by
  intro w w' h _ _
  unfold liftIo
  rw [← h.sys]
  cases io w.sys with
  | done r sys => exact ⟨rfl, h.length, h.side, rfl, h.events⟩
  | cut => exact ⟨rfl, h⟩
  | null => exact ⟨rfl, h⟩

theorem modifyAction_relates {f : EventAction → EventAction}
    (hf : ∀ a a' : EventAction, a.writeSide = a'.writeSide → (f a).writeSide = (f a').writeSide)
    : Relates G H (Agree id n n' xs xs') (modifyAction id f) (modifyAction id f) (Agree id n n' xs xs') :=
  Relates.modify fun _ _ h => h.modifyAction hf

theorem lseek_relates (task offset : Nat)
    : Relates G H (Agree id n n' xs xs') (lseek id task offset) (lseek id task offset) (Agree id n n' xs xs') := by
  apply Relates.bind_of_true (liftIo_relates _)
  . intro ok
    exact Relates.modify_bind (fun _ _ h => h.addLog _) (Relates.pure ok)
  . exact fun _ _ h => h

theorem writeCallback_relates (task : Nat) (ret : Int)
    : Relates (World.Untouched n id) (World.Untouched n' id) (Agree id n n' xs xs')
        (writeCallback id task ret) (writeCallback id task ret) (Agree id n n' xs xs') := by
  apply Relates.get_bind
  intro w₀ w₀' h₀
  rw [h₀.writeCallback]
  intro w w' h hcalls hcalls'
  cases hcb : (w₀.action id).writeCallback with
  | none => exact ⟨rfl, h⟩
  | some cb =>
    rw [hcb] at hcalls hcalls'
    dsimp only at hcalls hcalls' ⊢
    rw [modify_bind_apply] at hcalls hcalls' ⊢
    rw [modify_bind_apply]
    have hcalled := h.append (u := { w.addLog [.writeCallback id cb task ret (w₀.user.headD [])] with
        user := w.user.tail }) (v := { w'.addLog [.writeCallback id cb task ret (w₀'.user.headD [])] with
        user := w'.user.tail }) rfl rfl rfl h.side h.sys
    obtain ⟨u, hu, haction, hsys, hlog, hevents⟩ := script_untouched _ hcalled.length.1 hcalls
    obtain ⟨u', hu', haction', hsys', hlog', hevents'⟩ := script_untouched _ hcalled.length.2 hcalls'
    rw [hu, hu']
    obtain ⟨es, hes, hes'⟩ := hcalled.events
    refine ⟨rfl, ⟨Nat.le_trans hcalled.length.1 hlog.length_le, Nat.le_trans hcalled.length.2 hlog'.length_le⟩, ?_, ?_,
      es,
      hevents _ hes, hevents' _ hes'⟩
    . rw [haction, haction']
      exact hcalled.side
    . rw [hsys, hsys']
      exact hcalled.sys

theorem doWriteTask_transfer_relates (t : Task)
    : Relates (World.Untouched n id) (World.Untouched n' id) (Agree id n n' xs xs')
        (doWriteTask.transfer id t) (doWriteTask.transfer id t) (Agree id n n' xs xs') := by
  apply Relates.get_bind
  intro w w' h
  rw [h.writeOp]
  apply Relates.bind_of_true (liftIo_relates _)
  . intro r
    apply Relates.modify_bind (fun _ _ h => h.addLog _)
    apply Relates.bind_of_true
    . apply modifyAction_relates
      intro a a' ha
      unfold EventAction.writeSide at ha ⊢
      simp only [WriteSide.mk.injEq] at ha ⊢
      exact ⟨ha.1, ha.2.1, trivial, ha.2.2.2⟩
    . intro _
      split
      . exact Relates.modify_bind (fun _ _ h => h.addLog _) (Relates.pure true)
      . exact Relates.bind (writeCallback_relates _ _) (fun _ _ h => h) (fun _ _ h => h)
          (fun _ => Relates.pure false) fun _ _ h => h
    . exact fun _ _ h => h
  . exact fun _ _ h => h

theorem doWriteTask_relates (t : Task)
    : Relates (World.Untouched n id) (World.Untouched n' id) (Agree id n n' xs xs')
        (doWriteTask id t) (doWriteTask id t) (Agree id n n' xs xs') := by
  have hcallback : ∀ ret, Relates (World.Untouched n id) (World.Untouched n' id) (Agree id n n' xs xs')
      (do writeCallback id t.id ret; return false) (do writeCallback id t.id ret; return false)
      (Agree id n n' xs xs') := by
    intro ret
    exact Relates.bind (writeCallback_relates _ _) (fun _ _ h => h) (fun _ _ h => h)
      (fun _ => Relates.pure false) fun _ _ h => h
  apply Relates.get_bind
  intro w w' h
  rw [h.writeOffset]
  split
  . exact hcallback 0
  . split
    . exact doWriteTask_transfer_relates t
    . apply Relates.bind_of_true (lseek_relates _ _)
      . intro ok
        split
        . exact doWriteTask_transfer_relates t
        . exact hcallback (-1)
      . exact fun _ _ h => h

theorem popWriteTask_relates
    : Relates G H (Agree id n n' xs xs') (popWriteTask id) (popWriteTask id) (Agree id n n' xs xs') := by
  apply Relates.get_bind
  intro w w' h
  rw [h.pendingWriteTask]
  split
  . exact Relates.throw _
  . apply modifyAction_relates
    intro a a' ha
    unfold EventAction.writeSide at ha ⊢
    simp only [WriteSide.mk.injEq] at ha ⊢
    exact ⟨ha.1, trivial, ha.2.2⟩

-- The rest of the loop after a task.
theorem writeLoop_rest_untouched (t : Task) (k : Nat) (again : Bool) (w : World)
    (h : ((do
      Event.modifyAction id fun a => if again then { a with isWritable := false }.addWriteTask t else a
      popWriteTask id
      writeLoop id k : EventM Unit) w).state.Untouched n id)
    : w.Untouched n id := by
  have hframe := (logFrame w.log fun _ => True).write id
  have hrest : Preserves (Inv (fun _ => True) fun u => w.log <+: u.log) (do
      Event.modifyAction id fun a => if again then { a with isWritable := false }.addWriteTask t else a
      popWriteTask id
      writeLoop id k) := by
    apply Preserves.modify_bind
    . exact fun _ hu => hu
    . apply Preserves.bind
      . apply Preserves.get_bind
        intro u _
        split
        . exact Preserves.throw _
        . exact Preserves.modify fun _ hu => hu
      . intro _
        exact hframe.writeLoop k
  exact h.of_prefix (hrest.state ⟨fun _ _ _ _ => True.intro, List.prefix_rfl⟩).2

theorem writeLoop_relates (k : Nat)
    : Relates (World.Untouched n id) (World.Untouched n' id) (Agree id n n' xs xs') (writeLoop id k)
        (writeLoop id k) (Agree id n n' xs xs') := by
  induction k with
  | zero => exact Relates.pure ()
  | succ k ih =>
    apply Relates.get_bind
    intro w w' h
    rw [h.pendingWriteTask]
    split
    . exact Relates.throw _
    next t _ _ =>
      apply Relates.bind (doWriteTask_relates t) (fun again u => writeLoop_rest_untouched t k again u)
        (fun again u => writeLoop_rest_untouched t k again u)
      . intro again
        apply Relates.bind_of_true
        . apply modifyAction_relates
          intro a a' ha
          cases again with
          | true =>
            rw [if_pos rfl, if_pos rfl]
            unfold EventAction.writeSide EventAction.addWriteTask at *
            simp only [WriteSide.mk.injEq] at ha ⊢
            exact ⟨trivial, by rw [ha.2.1], ha.2.2⟩
          | false => exact ha
        . intro _
          exact Relates.bind_of_true popWriteTask_relates (fun _ => ih) fun _ _ h => h
        . exact fun _ _ h => h
      . exact fun _ _ h => h

theorem handleWrite_relates
    : Relates (World.Untouched n id) (World.Untouched n' id) (Agree id n n' xs xs') (handleWrite id)
        (handleWrite id) (Agree id n n' xs xs') := by
  apply Relates.get_bind
  intro w w' h
  rw [h.pendingWriteTask,
    h.isWritable]
  split
  . apply Relates.get_bind
    intro w w' h
    rw [h.pendingWriteTask]
    exact Relates.modify_bind (fun _ _ h => h.append rfl rfl rfl h.side h.sys) (writeLoop_relates _)
  . exact Relates.pure _

-- A task that has been carried out has left something in the log.
def Progress (id : Nat) (xs : List WriteEvent) (w : World) : Prop :=
  ∃ ys, ys ≠ [] ∧ Observes (Entry.writeEvents id) (xs ++ ys) w

theorem writeCallback_progress (task : Nat) (ret : Int) (zs : List WriteEvent)
    : Triple (Observes (Entry.writeEvents id) (xs ++ zs)) (writeCallback id task ret) (fun _ => Progress id xs)
        (fun _ _ => True) := by
  intro w hw
  cases hcb : (w.action id).writeCallback with
  | none =>
    rw [writeCallback_none hcb]
    trivial
  | some cb =>
    have hobs : Observes (Entry.writeEvents id) _ (writeCallback id task ret w).state :=
      writeCallback_observes (writeEvents_observation id) hcb hw
    rw [show Entry.writeEvents id (.writeCallback id cb task ret (w.user.headD []))
      = [WriteEvent.called cb task ret] from
      if_pos rfl, List.append_assoc] at hobs
    cases hrun : writeCallback id task ret w with
    | ok r u =>
      rw [hrun] at hobs
      exact ⟨zs ++ [WriteEvent.called cb task ret], by simp, hobs⟩
    | error f u => trivial

theorem liftIo_observes {α : Type} (io : List SysRet → Io α)
    : Preserves (Observes (Entry.writeEvents id) xs) (liftIo io) := by
  intro w hw
  unfold liftIo
  cases io w.sys with
  | done r sys => exact hw.of_log rfl
  | cut => exact hw
  | null => exact hw

theorem doWriteTask_transfer_progress (t : Task)
    : Triple (Observes (Entry.writeEvents id) xs) (doWriteTask.transfer id t) (fun _ => Progress id xs)
        (fun _ _ => True) := by
  apply Triple.get_bind
  intro w hw
  apply Triple.bind (Q := fun _ => Observes (Entry.writeEvents id) xs)
  . exact ((liftIo_observes _).at_state hw).ignore_error
  . intro r
    apply Triple.modify_bind (T := fun u => ∃ zs, Observes (Entry.writeEvents id) (xs ++ zs) u)
    . intro u hu
      exact ⟨_, hu.addLog _⟩
    . apply Triple.bind (Q := fun _ u => ∃ zs, Observes (Entry.writeEvents id) (xs ++ zs) u)
      . apply Triple.modify
        rintro u ⟨zs, hu⟩
        exact ⟨zs, hu.of_log rfl⟩
      . intro _
        split
        . apply Triple.modify_bind (T := Progress id xs)
          . rintro u ⟨zs, hu⟩
            have hrefused := hu.addLog [.refused id t.id]
            rw [List.append_assoc] at hrefused
            exact ⟨_, by simp [Entry.writeEvents], hrefused⟩
          . exact Triple.pure fun _ hu => hu
        . apply Triple.bind (Q := fun _ => Progress id xs)
          . rintro u ⟨zs, hu⟩
            exact writeCallback_progress _ _ zs u hu
          . exact fun _ => Triple.pure fun _ hu => hu

theorem doWriteTask_progress (t : Task)
    : Triple (Observes (Entry.writeEvents id) xs) (doWriteTask id t) (fun _ => Progress id xs)
        (fun _ _ => True) := by
  have hcallback : ∀ ret, Triple (Observes (Entry.writeEvents id) xs)
      (do writeCallback id t.id ret; return false) (fun _ => Progress id xs) (fun _ _ => True) := by
    intro ret
    apply Triple.bind (Q := fun _ => Progress id xs)
    . have hprogress : Triple (Observes (Entry.writeEvents id) (xs ++ [])) (writeCallback id t.id ret)
          (fun _ => Progress id xs) (fun _ _ => True) := writeCallback_progress t.id ret []
      rw [List.append_nil] at hprogress
      exact hprogress
    . exact fun _ => Triple.pure fun _ hu => hu
  apply Triple.get_bind
  intro w hw
  apply Triple.at_state _ hw
  split
  . exact hcallback 0
  . split
    . exact doWriteTask_transfer_progress t
    . apply Triple.bind (Q := fun _ => Observes (Entry.writeEvents id) xs)
      . apply Triple.bind (Q := fun _ => Observes (Entry.writeEvents id) xs)
        . exact (liftIo_observes _).ignore_error
        . intro ok
          apply Triple.modify_bind (T := Observes (Entry.writeEvents id) xs)
          . intro u hu
            refine hu.silent rfl ?_
            cases ok <;> rfl
          . exact Triple.pure fun _ hu => hu
      . intro ok
        split
        . exact doWriteTask_transfer_progress t
        . exact hcallback (-1)

theorem handleWrite_log (log : List Entry) : Preserves (fun w => log <+: w.log) (handleWrite id) := by
  intro w hw
  exact (((logFrame log fun _ => True).write id).handleWrite.conseq (fun _ h => h) (fun _ _ h => h.2)
    fun _ _ h => h.2) w ⟨fun _ _ _ _ => True.intro, hw⟩

theorem writeLoop_log (log : List Entry) (k : Nat) : Preserves (fun w => log <+: w.log) (writeLoop id k) := by
  intro w hw
  exact ((((logFrame log fun _ => True).write id).writeLoop k).conseq (fun _ h => h) (fun _ _ h => h.2)
    fun _ _ h => h.2) w ⟨fun _ _ _ _ => True.intro, hw⟩

theorem popWriteTask_log (log : List Entry) : Preserves (fun w => log <+: w.log) (popWriteTask id) := by
  apply Preserves.get_bind
  intro w _
  split
  . exact Preserves.throw _
  . exact Preserves.modify fun _ hw => hw

theorem handleWrite_eq (w : World)
    : handleWrite id w = if (w.action id).writeSide.hasWork then writePass id w else .ok () w := by
  unfold handleWrite
  rw [get_bind_apply, show (w.action id).writeSide.hasWork
    = ((w.action id).isWritable && decide ((w.action id).pendingWriteTask ≠ [])) from rfl]
  split
  . rfl
  . rfl

theorem handleWrite_no_work (h : (w.action id).writeSide.hasWork = false) : handleWrite id w = .ok () w := by
  rw [handleWrite_eq, h, if_neg (by decide)]

-- Where there is something to write, a call that returns leaves it in the log.
theorem handleWrite_since {u : World} (h : (w.action id).writeSide.hasWork = true)
    (hrun : handleWrite id w = .ok () u)
    : (w.log.flatMap (Entry.writeEvents id)).length < (u.log.flatMap (Entry.writeEvents id)).length := by
  rw [handleWrite_eq, if_pos h] at hrun
  unfold writePass at hrun
  rw [get_bind_apply, modify_bind_apply] at hrun
  cases htasks : (w.action id).pendingWriteTask with
  | nil =>
    unfold WriteSide.hasWork EventAction.writeSide at h
    rw [htasks] at h
    simp at h
  | cons t ts =>
    have hobs : Observes (Entry.writeEvents id) (w.log.flatMap (Entry.writeEvents id))
        (w.addLog [.writePass id w.poll w.sys w.user]) :=
      Observes.silent rfl rfl rfl
    rw [htasks, List.length_cons, writeLoop, get_bind_apply] at hrun
    rw [show ((w.addLog [.writePass id w.poll w.sys w.user]).action id).pendingWriteTask = _ from htasks] at hrun
    obtain ⟨again, v, htask, hrest⟩ := EStateM.bind_eq_ok_iff.mp hrun
    obtain ⟨ys, hys, hprogress⟩ := (doWriteTask_progress t).of_ok hobs htask
    have hlog : v.log <+: u.log := by
      have hkeeps : Preserves (fun u => v.log <+: u.log) (do
          Event.modifyAction id fun a => if again then { a with isWritable := false }.addWriteTask t else a
          popWriteTask id
          writeLoop id ts.length) :=
        Preserves.modify_bind (fun _ h => h) (Preserves.bind (popWriteTask_log _) fun _ => writeLoop_log _ _)
      exact Triple.of_ok hkeeps List.prefix_rfl hrest
    obtain ⟨log, hlog⟩ := hlog
    have hpos := List.length_pos_of_ne_nil hys
    rw [← hlog, List.flatMap_append, show v.log.flatMap (Entry.writeEvents id) = _ from hprogress,
      List.length_append, List.length_append]
    omega

variable {isEventTriggered : Bool}

theorem handleEvents_held (h : (w.action id).isHeld = true)
    : handleEvents id isEventTriggered w = .ok () w := by
  unfold handleEvents
  rw [get_bind_apply, if_pos h]
  rfl

theorem handleEvents_of_handleRead {u : World} (h : (w.action id).isHeld = false)
    (hread : handleRead id isEventTriggered w = .ok () u)
    : handleEvents id isEventTriggered w = handleWrite id u := by
  unfold handleEvents
  rw [get_bind_apply, h, if_neg (by decide), bind_apply, hread]

-- The write tasks are reached with the write side as it was.
theorem reached_keeps {u : World} (hread : handleRead id isEventTriggered w = .ok () u)
    (hcalls : (handleWrite id u).state.Untouched w.log.length id)
    : w.log.length ≤ u.log.length ∧ (u.action id).writeSide = (w.action id).writeSide
      ∧ Observes (Entry.writeEvents id) (w.log.flatMap (Entry.writeEvents id)) u := by
  have hkeeps : (handleRead id isEventTriggered w).state.KeepsWrites w.log.length id _ _ :=
    handleRead_keepsWrites isEventTriggered w
  rw [hread] at hkeeps
  exact ⟨hkeeps.1, hkeeps.2 (hcalls.of_prefix ((handleWrite_log u.log).state List.prefix_rfl))⟩

variable {ws : List SysRet}

theorem not_isHeld {a : EventAction} (h : a.blocksWrites = false) : a.isHeld = false := by
  unfold EventAction.blocksWrites at h
  unfold EventAction.isHeld
  cases hreadable : a.isReadable with
  | false => rfl
  | true =>
    rw [hreadable, Bool.true_and, Bool.or_eq_false_iff] at h
    cases htask : a.multishotReadTask with
    | none => rfl
    | some t =>
      rw [htask, Option.any_some, Bool.or_eq_false_iff] at h
      exact h.1.1

-- The write part is come to.
theorem Answered.returns (h : Answered id isEventTriggered ws w) (hsound : ReadSound id w.poll)
    (hblocks : (w.action id).blocksWrites = false)
    (hcalls : (handleEvents id isEventTriggered w).state.Untouched w.log.length id)
    : ∃ u, handleRead id isEventTriggered w = .ok () u ∧ u.sys = ws := by
  have hleft := h.left hblocks
  have henough := h.enough hblocks
  have hheld := not_isHeld hblocks
  cases hrun : handleRead id isEventTriggered w with
  | ok r u =>
    rw [hrun] at hleft
    exact ⟨u, rfl, hleft⟩
  | error f u =>
    exfalso
    have hstarves := (handleRead_returns hsound hblocks isEventTriggered).of_error rfl hrun
    unfold handleEvents at hcalls
    rw [get_bind_apply, hheld, if_neg (by decide), bind_apply, hrun] at hcalls
    rw [hrun] at henough
    exact henough (congrArg some (hstarves hcalls))

theorem handledWrites_blocked (h : Answered id isEventTriggered ws w) (hsound : ReadSound id w.poll)
    (hblocks : (w.action id).blocksWrites = true)
    (hcalls : (handleEvents id isEventTriggered w).state.Untouched w.log.length id)
    : handledWrites id isEventTriggered w = ([], (w.action id).writeSide, none) := by
  cases hheld : (w.action id).isHeld with
  | true =>
    unfold handledWrites writeFault
    rw [handleEvents_held hheld, hheld]
    dsimp only
    rw [Observes.since (by rw [List.append_nil]; rfl)]
    rfl
  | false =>
    have hstuck := handleRead_stuck hsound hheld hblocks (h.notClosed hheld hblocks) isEventTriggered
    have hkeeps : (handleRead id isEventTriggered w).state.KeepsWrites w.log.length id _ _ :=
      handleRead_keepsWrites isEventTriggered w
    cases hrun : handleRead id isEventTriggered w with
    | ok r u =>
      rw [handleEvents_of_handleRead hheld hrun] at hcalls
      have hspared := hcalls.of_prefix ((handleWrite_log u.log).state List.prefix_rfl)
      exact (hstuck.of_ok rfl hrun hspared).elim
    | error f u =>
      have hevents : handleEvents id isEventTriggered w = .error f u := by
        unfold handleEvents
        rw [get_bind_apply, hheld, if_neg (by decide), bind_apply, hrun]
      rw [hevents] at hcalls
      rw [hrun] at hkeeps
      obtain ⟨hside, hobserves⟩ := hkeeps.2 hcalls
      unfold handledWrites writeFault
      rw [hevents, hheld, hrun]
      have hnone : Observes (Entry.writeEvents id) (w.log.flatMap (Entry.writeEvents id) ++ []) u := by
        rw [List.append_nil]
        exact hobserves
      dsimp only [EStateM.Result.state_error] at hside ⊢
      rw [hnone.since, hside]
      rfl

theorem handledWrites_idle (h : Answered id isEventTriggered ws w) (hsound : ReadSound id w.poll)
    (hcalls : (handleEvents id isEventTriggered w).state.Untouched w.log.length id)
    (hwork : (w.action id).writeSide.hasWork = false)
    : handledWrites id isEventTriggered w = ([], (w.action id).writeSide, none) := by
  cases hblocks : (w.action id).blocksWrites with
  | true => exact handledWrites_blocked h hsound hblocks hcalls
  | false =>
    have hheld := not_isHeld hblocks
    obtain ⟨u, hu, _⟩ := h.returns hsound hblocks hcalls
    rw [handleEvents_of_handleRead hheld hu] at hcalls
    obtain ⟨_, hside, hevents⟩ := reached_keeps hu hcalls
    rw [← hside] at hwork
    unfold handledWrites writeFault
    rw [handleEvents_of_handleRead hheld hu, hheld, hu]
    dsimp only
    rw [handleWrite_no_work hwork]
    dsimp only [EStateM.Result.state_ok]
    rw [← List.append_nil (w.log.flatMap _)] at hevents
    rw [hevents.since, hside]
    rfl

theorem handledWrites_reached (h : Answered id isEventTriggered ws w) (hsound : ReadSound id w.poll)
    (hblocks : (w.action id).blocksWrites = false)
    (hcalls : (handleEvents id isEventTriggered w).state.Untouched w.log.length id)
    (hwork : (w.action id).writeSide.hasWork = true)
    : handledWrites id isEventTriggered w ≠ ([], (w.action id).writeSide, none) := by
  intro heq
  have hheld := not_isHeld hblocks
  obtain ⟨u, hu, _⟩ := h.returns hsound hblocks hcalls
  unfold handledWrites writeFault at heq
  rw [handleEvents_of_handleRead hheld hu, hheld, hu] at heq
  rw [handleEvents_of_handleRead hheld hu] at hcalls
  obtain ⟨_, hside, hevents⟩ := reached_keeps hu hcalls
  rw [← hside] at hwork
  simp only [Prod.mk.injEq] at heq
  cases hrun : handleWrite id u with
  | ok r v =>
    rw [hrun] at heq
    have hlength := handleWrite_since hwork hrun
    rw [show u.log.flatMap _ = _ from hevents] at hlength
    have hnone := List.drop_eq_nil_iff.mp heq.1
    exact absurd hlength (Nat.not_lt.mpr hnone)
  | error f v =>
    rw [hrun] at heq
    cases heq.2.2

-- Where the write part is come to in both of the runs, it does the same.
theorem handledWrites_agree (hside : (w.action id).writeSide = (w'.action id).writeSide)
    (h : Answered id isEventTriggered ws w) (h' : Answered id isEventTriggered ws w')
    (hsound : ReadSound id w.poll) (hsound' : ReadSound id w'.poll)
    (hcalls : (handleEvents id isEventTriggered w).state.Untouched w.log.length id)
    (hcalls' : (handleEvents id isEventTriggered w').state.Untouched w'.log.length id)
    (hblocks : (w.action id).blocksWrites = false) (hblocks' : (w'.action id).blocksWrites = false)
    : handledWrites id isEventTriggered w = handledWrites id isEventTriggered w' := by
  obtain ⟨u, hu, hsys⟩ := h.returns hsound hblocks hcalls
  obtain ⟨u', hu', hsys'⟩ := h'.returns hsound' hblocks' hcalls'
  have hheld := not_isHeld hblocks
  have hheld' := not_isHeld hblocks'
  rw [handleEvents_of_handleRead hheld hu] at hcalls
  rw [handleEvents_of_handleRead hheld' hu'] at hcalls'
  obtain ⟨hlen, hkept, hevents⟩ := reached_keeps hu hcalls
  obtain ⟨hlen', hkept', hevents'⟩ := reached_keeps hu' hcalls'
  have hagree : Agree id w.log.length w'.log.length (w.log.flatMap (Entry.writeEvents id))
      (w'.log.flatMap (Entry.writeEvents id)) u u' := by
    refine ⟨⟨hlen, hlen'⟩, ?_, by rw [hsys, hsys'], [], ?_, ?_⟩
    . rw [hkept, hkept', hside]
    . rw [List.append_nil]
      exact hevents
    . rw [List.append_nil]
      exact hevents'
  obtain ⟨herror, hend⟩ := (handleWrite_relates u u' hagree hcalls hcalls').state
  obtain ⟨es, hes, hes'⟩ := hend.events
  unfold handledWrites writeFault
  rw [handleEvents_of_handleRead hheld hu, handleEvents_of_handleRead hheld' hu', hheld, hheld', hu, hu']
  dsimp only
  rw [hes.since, hes'.since, hend.side, herror]

/--
The write tasks fare the same, whatever is to be read, if and only if neither or both of the actions keep from them,
or if there is nothing to be written.
-/
theorem handledWrites_eq_iff (hside : (w.action id).writeSide = (w'.action id).writeSide)
    (hread : Answered id isEventTriggered ws w) (hread' : Answered id isEventTriggered ws w')
    (hsound : ReadSound id w.poll) (hsound' : ReadSound id w'.poll)
    (hcalls : (handleEvents id isEventTriggered w).state.Untouched w.log.length id)
    (hcalls' : (handleEvents id isEventTriggered w').state.Untouched w'.log.length id)
    : handledWrites id isEventTriggered w = handledWrites id isEventTriggered w'
        ↔ ((w.action id).blocksWrites = (w'.action id).blocksWrites ∨ (w.action id).writeSide.hasWork = false) := by
  constructor
  . intro heq
    cases hwork : (w.action id).writeSide.hasWork with
    | false => exact .inr rfl
    | true =>
      left
      cases hblocks : (w.action id).blocksWrites with
      | true =>
        cases hblocks' : (w'.action id).blocksWrites with
        | true => rfl
        | false =>
          rw [handledWrites_blocked hread hsound hblocks hcalls, hside] at heq
          rw [hside] at hwork
          exact (handledWrites_reached hread' hsound' hblocks' hcalls' hwork heq.symm).elim
      | false =>
        cases hblocks' : (w'.action id).blocksWrites with
        | true =>
          rw [handledWrites_blocked hread' hsound' hblocks' hcalls', ← hside] at heq
          exact (handledWrites_reached hread hsound hblocks hcalls hwork heq).elim
        | false => rfl
  . rintro (hblocks | hidle)
    . cases hblocks' : (w'.action id).blocksWrites with
      | true =>
        rw [hblocks'] at hblocks
        rw [handledWrites_blocked hread hsound hblocks hcalls, handledWrites_blocked hread' hsound' hblocks' hcalls',
          hside]
      | false =>
        rw [hblocks'] at hblocks
        exact handledWrites_agree hside hread hread' hsound hsound' hcalls hcalls' hblocks hblocks'
    . rw [handledWrites_idle hread hsound hcalls hidle, hside]
      rw [hside] at hidle
      rw [handledWrites_idle hread' hsound' hcalls' hidle]

-- Calls that never touch the action, from whatever state they are made.
def Op.LeavesAction (id : Nat) (op : Op) : Prop := ∀ s : Epoll, (Entry.call op s).Spares id

def World.StaysUntouched (n id : Nat) (w : World) : Prop := n ≤ w.log.length ∧ w.Untouched n id

namespace World.StaysUntouched

theorem append (h : w.StaysUntouched n id) {log : List Entry} (hlog : w'.log = w.log ++ log)
    (hspares : ∀ e ∈ log, e.Spares id)
    : w'.StaysUntouched n id := by
  unfold World.StaysUntouched World.Untouched
  rw [hlog, List.length_append, List.drop_append_of_le_length h.1]
  refine ⟨Nat.le_add_right_of_le h.1, ?_⟩
  intro e he
  exact (List.mem_append.mp he).elim (h.2 e) (hspares e)

theorem ioFrame {K : Entry → Prop} {i : Nat} : IoFrame i K (Op.LeavesAction id) (World.StaysUntouched n id) := by
  refine ⟨?_, ?_, fun _ _ _ _ h => h⟩
  . intro op hop
    apply exec_triple
    . intro u r s hu _
      apply hu.append rfl
      intro e he
      rw [List.mem_singleton.mp he]
      exact hop u.poll
    . intro u f _ hf
      obtain ⟨r, s, hok, _⟩ := hop u.poll
      rw [hf] at hok
      cases hok
  . intro u sys user log hlog hu
    apply hu.append rfl
    intro e he
    obtain ⟨howner, _⟩ := hlog e he
    cases e <;> trivial

theorem eventFrame : EventFrame (Op.LeavesAction id) (World.StaysUntouched n id) :=
  ⟨fun _ => ⟨⟨ioFrame, fun _ _ _ h => h⟩, fun _ _ _ h => h⟩,
    fun _ => ⟨⟨ioFrame, fun _ _ h => h⟩, fun _ _ _ h => h⟩, fun _ _ _ _ h => h, fun _ _ _ h => h⟩

end World.StaysUntouched

theorem handleEvents_untouched (h : w.Calls (Op.LeavesAction id))
    : (handleEvents id isEventTriggered w).state.Untouched w.log.length id := by
  have hstart : w.StaysUntouched w.log.length id := by
    refine ⟨Nat.le_refl _, ?_⟩
    unfold World.Untouched
    rw [List.drop_length]
    exact List.forall_mem_nil _
  exact ((World.StaysUntouched.eventFrame.handleEvents id isEventTriggered).state ⟨h, hstart⟩).2.2

end

-- The file is ready for both directions, a task of 8 bytes is to be written.
def writingWorld (reads : List Step) (sys : List SysRet) : World :=
  let w := (run (.op (.submitAsyncWrite ⟨3, .tcp⟩ ⟨false, [⟨0, 8⟩]⟩ (some 7) none) :: reads)
    (World.init fun _ => true)).state
  { w.modifyAction 0 fun a => { a with isReadable := true, isWritable := true } with sys := sys }

-- The multishot read waits for `submit`.
def deferredRead : List Step :=
  [.op (.registerRingBuffer 16 1 [64]), .op (.submitAsyncReadGroup ⟨3, .tcp⟩ 0 (some 5) (some ⟨none, false, false⟩))]

theorem deferredRead_sound : ReadSound 0 (writingWorld deferredRead [.ok 8 []]).poll := by
  refine ⟨fun _ => by decide +kernel, fun h => absurd h (by decide +kernel), ?_, fun h => absurd h (by decide +kernel)⟩
  intro t ht
  have htask : ((writingWorld deferredRead [.ok 8 []]).poll.action 0).multishotReadTask = some ⟨0, false, false⟩ := by
    decide +kernel
  rw [htask] at ht
  cases ht
  exact ⟨by decide +kernel, ⟨[⟨64, 16⟩], [3]⟩, by decide +kernel, by decide⟩

theorem writingWorld_sound {reads : List Step} {sys : List SysRet}
    (hcallback : ((writingWorld reads sys).action 0).hasReadWork
      → ((writingWorld reads sys).action 0).readBufIdxCallback.isSome)
    (hop : ((writingWorld reads sys).action 0).readOp
      = (EventAction.opsOf ((writingWorld reads sys).action 0).fd.type).map (·.read))
    (hnone : ((writingWorld reads sys).action 0).multishotReadTask = none)
    (haccept : ((writingWorld reads sys).action 0).hasAcceptTask = false)
    : ReadSound 0 (writingWorld reads sys).poll := by
  refine ⟨hcallback, fun _ => hop, ?_, ?_⟩
  . intro t ht
    have htask : ((writingWorld reads sys).action 0).multishotReadTask = some t := ht
    rw [hnone] at htask
    cases htask
  . intro h
    have htask : ((writingWorld reads sys).action 0).hasAcceptTask = true := h
    rw [haccept] at htask
    cases htask

theorem deferred_read_blocks_writes
    : let w := writingWorld deferredRead [.ok 8 []]
      let w' := writingWorld [] [.ok 8 []]
      (w.action 0).writeSide = (w'.action 0).writeSide
        ∧ ReadSound 0 w.poll ∧ ReadSound 0 w'.poll
        ∧ Answered 0 true [.ok 8 []] w ∧ Answered 0 true [.ok 8 []] w'
        ∧ (handleEvents 0 true w).state.Untouched w.log.length 0
        ∧ (handleEvents 0 true w').state.Untouched w'.log.length 0
        ∧ handledWrites 0 true w ≠ handledWrites 0 true w' := by
  refine ⟨by decide +kernel, deferredRead_sound, ?_, ?_, ?_, handleEvents_untouched (List.forall_mem_nil _),
    handleEvents_untouched (List.forall_mem_nil _), by decide +kernel⟩
  . exact writingWorld_sound (fun h => absurd h (by decide +kernel)) (by decide +kernel) (by decide +kernel)
      (by decide +kernel)
  . refine ⟨fun h => absurd h (by decide +kernel), fun h => absurd h (by decide +kernel), fun h => ?_⟩
    exact absurd h (by decide +kernel)
  . exact ⟨fun _ => by decide +kernel, fun _ => rfl, fun _ h => absurd h (by decide +kernel)⟩

-- A read that is carried out before makes no difference.
theorem pending_read_spares_writes
    : handledWrites 0 true (writingWorld [.op (.submitAsyncRead ⟨3, .tcp⟩ ⟨false, [⟨64, 8⟩]⟩ (some 5) none)]
          [.ok 8 [], .ok 8 []])
        = handledWrites 0 true (writingWorld [] [.ok 8 []]) := by
  have hread : Answered 0 true [.ok 8 []] (writingWorld
      [.op (.submitAsyncRead ⟨3, .tcp⟩ ⟨false, [⟨64, 8⟩]⟩ (some 5) none)] [.ok 8 [], .ok 8 []]) :=
    ⟨fun _ => by decide +kernel, fun _ => rfl, fun _ h => absurd h (by decide +kernel)⟩
  have hread' : Answered 0 true [.ok 8 []] (writingWorld [] [.ok 8 []]) :=
    ⟨fun _ => by decide +kernel, fun _ => rfl, fun _ h => absurd h (by decide +kernel)⟩
  refine (handledWrites_eq_iff (by decide +kernel) hread hread' ?_ ?_ (handleEvents_untouched ?_)
    (handleEvents_untouched ?_)).mpr (.inl (by decide +kernel))
  . exact writingWorld_sound (fun _ => by decide +kernel) (by decide +kernel) (by decide +kernel) (by decide +kernel)
  . exact writingWorld_sound (fun h => absurd h (by decide +kernel)) (by decide +kernel) (by decide +kernel)
      (by decide +kernel)
  . exact List.forall_mem_nil _
  . exact List.forall_mem_nil _

end Event
end Ezio
