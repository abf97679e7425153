import Ezio.Event.Epoll.Lemmas.TcpTask
import Ezio.Event.Epoll.Lemmas.Wf

/-!
This module contains a pass over the read tasks of a TCP socket: which of them report the end of the stream, and which
of them are kept pending because there is nothing to read.
-/

namespace Ezio
namespace Event

open EStateM (Preserves Triple get_bind_apply modify_bind_apply bind_apply)
open FdIo.Tcp (Attempt Fits GoesOn endOf received)

-- One iteration of the loop over the pending reads.
def tryRead (id : Nat) (b : Bool) (t : Task) : EventM Unit := do
  let again ← doReadTask id t b
  modifyAction id fun a => if again then a.addReadTask t else a
  popReadTask id

-- The tasks that the loop gets to, each with the state it is tried in.
def attempts (id : Nat) (b : Bool) : Nat → World → List (Task × World)
  | 0, _ => []
  | n + 1, w =>
    match (w.action id).pendingReadTask with
    | [] => []
    | t :: _ =>
      (t, w) :: match tryRead id b t w with
        | .ok _ w' => attempts id b n w'
        | .error _ _ => []

-- The task moves behind the others, and its callback is not called.
structure Keeps (id : Nat) (b : Bool) (t : Task) (w w' : World) : Prop where
  run : tryRead id b t w = .ok () w'
  pending : (w'.action id).pendingReadTask = (w.action id).pendingReadTask.tail ++ [t]
  newRets : w.newRets w' = []

-- The end of the stream is reported only if `recvmsg` has returned 0, a task that finds nothing is kept.
structure Genuine (id : Nat) (b : Bool) (t : Task) (w : World) : Prop where
  closed : (t.id, 0) ∈ w.newRets (tryRead id b t w).state
    → ∃ used lens left, w.sys = used ++ SysRet.ok 0 lens :: left ∧ Attempt t.buffer used (SysRet.ok 0 lens)
  empty : ∀ used left, w.sys = used ++ SysRet.fail .again :: left → Attempt t.buffer used (SysRet.fail .again)
    → received used = []
    → ∃ w', Keeps id b t w w'

-- The task is one that the property is about: it is first in the queue and there is a callback to be called.
structure ReadsAt (id : Nat) (t : Task) (w : World) : Prop extends (w.action id).ReadsTcp where
  front : ∃ ts, (w.action id).pendingReadTask = t :: ts
  callback : (w.action id).readBufIdxCallback.isSome
  buffer : t.buffer ≠ []
  fits : ∀ a ∈ w.sys, Fits a

-- The count that `read_fd` returns is 0 although `recvmsg` has not returned 0, and the task is not kept.
def Spurious (b : Bool) (t : Task) (w : World) : Prop :=
  ∃ used x left, w.sys = used ++ x :: left ∧ Attempt t.buffer used x
    ∧ ((x = .fail .again ∧ b ∧ (received used).sum % 2 ^ 32 = 0)
      ∨ ∃ n lens, x = .ok n lens ∧ n ≠ 0 ∧ ((received used).sum + n) % 2 ^ 32 = 0)

section

variable {id n : Nat} {b : Bool} {t : Task} {w : World}

theorem readLoop_succ (id : Nat) (b : Bool) (n : Nat) (w : World)
    : readLoop id b (n + 1) w = match (w.action id).pendingReadTask with
        | [] => .error .emptyReadQueue w
        | t :: _ => match tryRead id b t w with
          | .ok _ w' => readLoop id b n w'
          | .error f w' => .error f w' := by
  rw [readLoop, get_bind_apply]
  cases (w.action id).pendingReadTask with
  | nil => rfl
  | cons t ts =>
    dsimp only
    unfold tryRead
    rw [bind_apply, bind_apply]
    cases doReadTask id t b w with
    | error f w' => rfl
    | ok again w' =>
      dsimp only
      unfold modifyAction
      rw [modify_bind_apply, modify_bind_apply, bind_apply]
      cases popReadTask id _ with
      | error f w'' => rfl
      | ok _ w'' => rfl

theorem popReadTask_taskRets (id : Nat) (w : World) : (popReadTask id w).state.taskRets = w.taskRets := by
  unfold popReadTask
  rw [get_bind_apply]
  cases (w.action id).pendingReadTask with
  | nil => rfl
  | cons t ts => rfl

-- The callback of a task is only called by `do_read_task`.
theorem tryRead_taskRets (id : Nat) (b : Bool) (t : Task) (w : World)
    : (tryRead id b t w).state.taskRets = (doReadTask id t b w).state.taskRets := by
  unfold tryRead
  rw [bind_apply]
  cases doReadTask id t b w with
  | error f w' => rfl
  | ok again w' =>
    dsimp only
    unfold modifyAction
    rw [modify_bind_apply, popReadTask_taskRets]
    rfl

theorem tryRead_newRets (id : Nat) (b : Bool) (t : Task) (w : World)
    : w.newRets (tryRead id b t w).state = w.newRets (doReadTask id t b w).state := by
  have hrets := tryRead_taskRets id b t w
  unfold World.taskRets at hrets
  unfold World.newRets World.since
  rw [hrets]

theorem tryRead_keeps {ts : List Task} {w' : World} (hfront : (w.action id).pendingReadTask = t :: ts)
    (hdo : doReadTask id t b w = .ok true w') (hsame : (w'.action id).pendingReadTask = t :: ts)
    (hrets : w.newRets w' = [])
    : ∃ w'', Keeps id b t w w'' := by
  have hadded : ((w'.modifyAction id fun a => a.addReadTask t).action id).pendingReadTask = t :: (ts ++ [t]) := by
    simp only [World.action_def] at hsame
    simp [EventAction.addReadTask, hsame]
  refine ⟨(w'.modifyAction id fun a => a.addReadTask t).modifyAction id fun a =>
    { a with pendingReadTask := ts ++ [t] },
    ?_, ?_, hrets⟩
  . unfold tryRead
    rw [bind_apply, hdo]
    dsimp only
    unfold modifyAction
    rw [modify_bind_apply]
    simp only [if_true]
    unfold popReadTask
    rw [get_bind_apply, hadded]
    rfl
  . rw [hfront, List.tail_cons]
    simp

theorem tryRead_newRets_of_attempt {used left : List SysRet} {x : SysRet} {ret : Int} {flag : Bool}
    (h : ReadsAt id t w) (hsys : w.sys = used ++ x :: left) (hattempt : Attempt t.buffer used x)
    (hend : endOf (received used).sum x = (ret, flag))
    : w.newRets (tryRead id b t w).state = if flag && !b && ret = 0 then [] else [(t.id, ret)] := by
  obtain ⟨r, hread, hret⟩ := FdIo.Tcp.readFd_attempt left hattempt
  rw [hend, Prod.mk.injEq] at hret
  rw [← hsys] at hread
  rw [tryRead_newRets, doReadTask_newRets h.toReadsTcp h.buffer hread, hret.1, hret.2]
  split
  . next hreport => rw [if_neg (by rw [hreport.1]; decide)]
  . next hreport =>
    rw [if_pos]
    by_contra hfalse
    exact hreport ⟨eq_false_of_ne_true hfalse, h.callback⟩

-- Nothing is reported if the answers end before the call does.
theorem exists_attempt_of_newRets {e : Nat × Int} (h : ReadsAt id t w) (he : e ∈ w.newRets (tryRead id b t w).state)
    : ∃ used x left, w.sys = used ++ x :: left ∧ Attempt t.buffer used x := by
  by_cases hdone : ∃ r left, FdIo.Tcp.readFd t.buffer w.sys = .done r left
  . obtain ⟨r, left, hread⟩ := hdone
    obtain ⟨used, x, hsys, hattempt⟩ := FdIo.Tcp.exists_attempt h.fits hread
    exact ⟨used, x, left, hsys, hattempt⟩
  . obtain ⟨f, hcut⟩ := doReadTask_cut (b := b) h.toReadsTcp h.buffer fun r left hread => hdone ⟨r, left, hread⟩
    rw [tryRead_newRets, hcut, EStateM.Result.state_error, World.newRets_self] at he
    cases he

theorem Genuine.not_spurious (h : ReadsAt id t w) (hgenuine : Genuine id b t w) : ¬Spurious b t w := by
  rintro ⟨used, x, left, hsys, hattempt, hspurious⟩
  -- The callback is called with 0, so that `recvmsg` must have returned 0.
  have hclosed : w.newRets (tryRead id b t w).state = [(t.id, 0)] → ∃ lens, x = .ok 0 lens := by
    intro hzero
    obtain ⟨used', lens, left', hsys', hattempt'⟩ := hgenuine.closed (by rw [hzero]; exact List.mem_singleton_self _)
    exact ⟨lens, (hattempt.unique hattempt' (hsys.symm.trans hsys')).2.1⟩
  rcases hspurious with ⟨rfl, rfl, hzero⟩ | ⟨n, lens, rfl, hn, hzero⟩
  . have hend := FdIo.Tcp.endOf_again (received used).sum
    rw [(toInt32_eq_zero _).mpr hzero] at hend
    obtain ⟨lens, hx⟩ := hclosed (tryRead_newRets_of_attempt h hsys hattempt hend)
    cases hx
  . have hend := FdIo.Tcp.endOf_full (received used).sum lens hn
    rw [(toInt32_eq_zero _).mpr hzero] at hend
    obtain ⟨lens', hx⟩ := hclosed (tryRead_newRets_of_attempt h hsys hattempt hend)
    cases hx
    exact hn rfl

theorem genuine_of_not_spurious (h : ReadsAt id t w) (hspurious : ¬Spurious b t w) : Genuine id b t w where
  closed := by
    intro hmem
    obtain ⟨used, x, left, hsys, hattempt⟩ := exists_attempt_of_newRets h hmem
    rcases hend : endOf (received used).sum x with ⟨ret, flag⟩
    rw [tryRead_newRets_of_attempt h hsys hattempt hend] at hmem
    -- It is reported, and with 0.
    have hreport : (flag && !b) = false ∧ ret = 0 := by
      split at hmem
      . cases hmem
      . next hreport =>
        rw [List.mem_singleton, Prod.mk.injEq] at hmem
        refine ⟨?_, hmem.2.symm⟩
        rw [← hmem.2] at hreport
        simpa using hreport
    rw [hreport.2] at hend
    cases x with
    | ok n lens =>
      by_cases hn : n = 0
      . rw [hn] at hsys hattempt
        exact ⟨used, lens, left, hsys, hattempt⟩
      . rw [FdIo.Tcp.endOf_full _ _ hn, Prod.mk.injEq, toInt32_eq_zero] at hend
        exact absurd ⟨used, _, left, hsys, hattempt, .inr ⟨n, lens, rfl, hn, hend.1⟩⟩ hspurious
    | fail e =>
      by_cases hagain : e = .again
      . rw [hagain] at hend hsys hattempt
        rw [FdIo.Tcp.endOf_again, Prod.mk.injEq, toInt32_eq_zero] at hend
        have hb : b = true := by simpa [← hend.2] using hreport.1
        exact absurd ⟨used, _, left, hsys, hattempt, .inl ⟨rfl, hb, hend.1⟩⟩ hspurious
      . rw [FdIo.Tcp.endOf_error _ hagain, Prod.mk.injEq] at hend
        exact absurd hend.1 (by decide)
  empty := by
    intro used left hsys hattempt hnone
    have hsum : (received used).sum = 0 := by rw [hnone, List.sum_nil]
    have hb : b = false := by
      cases b with
      | false => rfl
      | true =>
        have hzero : (received used).sum % 2 ^ 32 = 0 := by simp [hsum]
        exact absurd ⟨used, _, left, hsys, hattempt, .inl ⟨rfl, rfl, hzero⟩⟩ hspurious
    obtain ⟨r, hread, hend⟩ := FdIo.Tcp.readFd_attempt left hattempt
    obtain ⟨ts, hfront⟩ := h.front
    rw [← hsys] at hread
    have hzero : toInt32 0 = 0 := toInt32_of_lt (by decide)
    rw [hsum, FdIo.Tcp.endOf_again, hzero, Prod.mk.injEq] at hend
    have hdo := doReadTask_tcp (b := b) h.toReadsTcp h.buffer hread
    rw [hend.1, hend.2, hb, if_pos (by decide)] at hdo
    rw [hb]
    refine tryRead_keeps hfront hdo ?_ (World.newRets_of_append (List.append_nil _).symm)
    rw [← hfront]
    unfold World.afterRead
    simp

theorem genuine_iff (h : ReadsAt id t w) : Genuine id b t w ↔ ¬Spurious b t w :=
  ⟨fun hgenuine => hgenuine.not_spurious h, genuine_of_not_spurious h⟩

theorem tryRead_append (id : Nat) (b : Bool) (t : Task) (w : World)
    : (tryRead id b t w).state.taskRets = w.taskRets ++ w.newRets (tryRead id b t w).state := by
  have hframe := ((logFrame w.log fun _ => True).read id).toFrame.doReadTask t b
  have hcalls : w.Calls fun _ => True := fun _ _ _ _ => trivial
  obtain ⟨log, hlog⟩ := (hframe.state (s := w) ⟨hcalls, List.prefix_rfl⟩).2
  have happend : (tryRead id b t w).state.taskRets = w.taskRets ++ log.flatMap Entry.taskRets := by
    rw [tryRead_taskRets]
    unfold World.taskRets
    rw [← hlog, List.flatMap_append]
  rw [World.newRets_of_append happend, happend]

theorem readLoop_append (id : Nat) (b : Bool) (n : Nat) (w : World)
    : (readLoop id b n w).state.taskRets
        = w.taskRets ++ (attempts id b n w).flatMap fun a => a.2.newRets (tryRead id b a.1 a.2).state := by
  induction n generalizing w with
  | zero => exact (List.append_nil _).symm
  | succ n ih =>
    rw [readLoop_succ, attempts]
    cases (w.action id).pendingReadTask with
    | nil => exact (List.append_nil _).symm
    | cons t ts =>
      have hone := tryRead_append id b t w
      dsimp only
      rw [List.flatMap_cons]
      cases htry : tryRead id b t w with
      | error f w' =>
        rw [htry] at hone
        simpa using hone
      | ok _ w' =>
        rw [htry] at hone
        dsimp only
        rw [ih, ← List.append_assoc]
        exact congrArg (· ++ _) hone

-- The loop calls the callbacks of the tasks that it gets to, and no others.
theorem readLoop_newRets (id : Nat) (b : Bool) (n : Nat) (w : World)
    : w.newRets (readLoop id b n w).state
        = (attempts id b n w).flatMap fun a => a.2.newRets (tryRead id b a.1 a.2).state :=
  World.newRets_of_append (readLoop_append id b n w)

/--
Every task of a pass reports the end of the stream only if it has found it, and is kept if it has found nothing, if and
only if none of them is tried for an event and finds nothing, or receives a multiple of 2^32 bytes.
-/
theorem readLoop_genuine_iff (id : Nat) (b : Bool) (n : Nat) (w : World)
    : w.newRets (readLoop id b n w).state
          = (attempts id b n w).flatMap (fun a => a.2.newRets (tryRead id b a.1 a.2).state)
        ∧ ((∀ a ∈ attempts id b n w, ReadsAt id a.1 a.2 → Genuine id b a.1 a.2)
          ↔ (∀ a ∈ attempts id b n w, ReadsAt id a.1 a.2 → ¬Spurious b a.1 a.2)) := by
  refine ⟨readLoop_newRets id b n w, ?_⟩
  constructor
  . intro hall a ha hreads
    exact (genuine_iff hreads).mp (hall a ha hreads)
  . intro hall a ha hreads
    exact (genuine_iff hreads).mpr (hall a ha hreads)

-- Two reads are pending when 5 bytes arrive.
def twoReads : World :=
  let w := answeringWorld [.ok 5 [], .fail .again, .fail .again]
  (exec (.submitAsyncRead ⟨3, .tcp⟩ ⟨false, [⟨8, 8⟩]⟩ (some 7) none) w).state

-- The first one takes them, the second one is told that the stream has ended.
theorem twoReads_spurious
    : twoReads.newRets (setReadyEvents 0 ⟨true, false, false⟩ twoReads).state = [(0, 5), (1, 0)]
        ∧ (∀ a ∈ twoReads.sys, ∀ lens, a ≠ .ok 0 lens)
        ∧ ((setReadyEvents 0 ⟨true, false, false⟩ twoReads).state.action 0).pendingReadTask = [] := by
  refine ⟨by decide +kernel, ?_, by decide +kernel⟩
  have hsys : twoReads.sys = [.ok 5 [], .fail .again, .fail .again] := by decide +kernel
  rw [hsys]
  intro a ha lens heq
  simp [heq] at ha

end

end Event
end Ezio
