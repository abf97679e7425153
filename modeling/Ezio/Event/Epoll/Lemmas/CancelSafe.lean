import Ezio.Event.Epoll.Lemmas.CancelQueue

/-!
This module contains the proof that `handle_events` respects a cancel that a callback of a read makes
exactly if the callback is not one for a queued task, and that it always does so for a multishot read if
the cancel is made on an error or at the end of the stream.
-/

namespace Ezio
namespace Event

open EStateM (Preserves Triple)

namespace World

variable {n id : Nat} {fd : Fd} {q : List Task} {w w' : World}

-- All cancels so far have been respected.
structure Fine (n id : Nat) (fd : Fd) (w : World) : Prop where
  holds : w.poll.Holds id fd
  log : n ≤ w.log.length
  calm : w.Calm n id
  respects : w.Respects n id

-- An accept comes with a callback.
def Armed (id : Nat) (w : World) : Prop :=
  (w.action id).hasAcceptTask = true → (w.action id).readBufIdxCallback.isSome

theorem Calm.append (h : w.Calm n id) {es : List Entry} (hlog : w'.log = w.log ++ es)
    (hes : ∀ e ∈ es, e.calm id = true)
    : w'.Calm n id := by
  intro e he
  rcases mem_drop_append hlog he with he | he
  . exact h e he
  . exact hes e he

theorem Settled.fine (h : w.Settled n id fd) : w.Fine n id fd :=
  ⟨h.holds, h.log, h.uncancelled.calm, h.uncancelled.respects⟩

namespace Fine

theorem err (h : w.Fine n id fd) {f : Fault} (hf : f.isRead = false) : Err n id f w :=
  fun _ => ⟨hf, h.respects⟩

theorem append (h : w.Fine n id fd) {es : List Entry} (hlog : w'.log = w.log ++ es)
    (hcalm : ∀ e ∈ es, e.calm id = true)
    (hes : ∀ e ∈ es, e.cancels id = false ∧ ∀ before, e.callsBack id before = false)
    (hholds : w'.poll.Holds id fd) (hkept : w.poll.ReadsKept id (nextStop id w'.poll es))
    : w'.Fine n id fd := by
  refine ⟨hholds, ?_, h.calm.append hlog hcalm, h.respects.append hlog hes hkept⟩
  have := h.log
  rw [hlog, List.length_append]
  omega

theorem of_poll (h : w.Fine n id fd) (hlog : w'.log = w.log) (hholds : w'.poll.Holds id fd)
    (hkept : w.poll.ReadsKept id w'.poll)
    : w'.Fine n id fd :=
  h.append (hlog.trans (List.append_nil _).symm) (by simp) (by simp) hholds hkept

theorem setAction (h : w.Fine n id fd) {a : EventAction} (hfd : a.fd = (w.action id).fd)
    (hreads : a.pendingReadTask = (w.action id).pendingReadTask)
    (hshot : a.multishotReadTask = (w.action id).multishotReadTask)
    : (w.modifyAction id fun _ => a).Fine n id fd := by
  refine h.of_poll rfl (h.holds.setAction hfd) ⟨?_, ?_⟩
  . rw [World.action_def] at hreads
    simp [hreads]
  . rw [World.action_def] at hshot
    simp [hshot]

theorem exec (op : Op)
    : Triple (Fine n id fd) (Event.exec op) (fun _ => Fine n id fd)
        (fun f w => f.isRead = false ∧ Fine n id fd w) := by
  apply exec_triple
  . intro w r s hw hs
    refine hw.append rfl (by simp [Entry.calm]) (by simp [Entry.cancels, Entry.callsBack])
      (hw.holds.updates (Epoll.exec_updates hs)) ?_
    rw [nextStop]
    split
    . exact Epoll.ReadsKept.refl _
    next hop =>
      simp only [Bool.or_eq_true, not_or, Bool.not_eq_true] at hop
      have hgrows := Epoll.Grows.exec hw.holds.lt hop.1 hs
      exact ⟨hgrows.reads.subset, hgrows.shot hop.2⟩
  . intro w f hw hf
    refine ⟨Epoll.exec_fault hf, hw.append rfl (by simp [Entry.calm])
      (by simp [Entry.cancels, Entry.callsBack]) hw.holds ?_⟩
    rw [nextStop]
    split <;> exact Epoll.ReadsKept.refl _

theorem writeFrame (n id : Nat) (fd : Fd) : WriteFrame id (fun _ => True) (Fine n id fd) := by
  refine ⟨⟨⟨?_, ?_, ?_⟩, ?_⟩, ?_⟩
  . intro op _
    exact (exec op).conseq (fun _ hw => hw) (fun _ _ hw => hw) (fun _ _ hw => hw.2)
  . intro w sys user log hlog hw
    refine hw.append rfl ?_ ?_ hw.holds ?_
    . intro e he
      have := (hlog e he).2
      cases e with
      | readReturn => cases this
      | _ => rfl
    . intro e he
      have := (hlog e he).2
      cases e with
      | readReturn => cases this
      | readCallback => cases this
      | _ => exact ⟨rfl, fun _ => rfl⟩
    . rw [nextStop_of_not_stops _ (fun e he => Entry.stops_of_owner (hlog e he).1)]
      exact Epoll.ReadsKept.refl _
  . rintro w _ ⟨_, _, _, _, _, _, rfl⟩ _ hw
    exact hw.setAction rfl rfl rfl
  . intro w offset hw
    exact hw.setAction rfl rfl rfl
  . rintro w _ ⟨_, _, rfl⟩ hw
    exact hw.setAction rfl rfl rfl

theorem acceptCallback (ret : Int)
    : Triple (fun w => Fine n id fd w ∧ (w.action id).readBufIdxCallback.isSome)
        (readCallback id .accept ret []) (fun _ => Fine n id fd) (Err n id) := by
  apply Triple.get_bind
  intro w hw
  split
  next hcb =>
    rw [hcb] at hw
    cases hw.2
  next cb hcb =>
    apply Triple.modify_bind (T := Fine n id fd)
    . intro w' heq
      rw [heq]
      exact hw.1.append rfl (by simp [Entry.calm]) (by simp [Entry.cancels, Entry.callsBack])
        hw.1.holds (Epoll.ReadsKept.refl _)
    . apply Triple.bind (Q := fun _ => Fine n id fd)
      . apply Triple.forM
        intro op _
        exact (exec op).conseq (fun _ hw => hw) (fun _ _ hw => hw) (fun _ _ hw => hw.2.err hw.1)
      . intro _
        apply Triple.modify
        intro w' hw'
        refine ⟨hw'.holds, ?_, hw'.calm.append rfl (by simp [Entry.calm]),
          hw'.respects.append_return rfl rfl⟩
        have := hw'.log
        simp only [World.addLog, List.length_append]
        omega

theorem acceptPass
    : Triple (fun w => Fine n id fd w ∧ Armed id w) (acceptPass id) (fun _ => Fine n id fd)
        (Err n id) := by
  apply Triple.get_bind
  intro w hw
  split
  next haccept =>
    have hcb := hw.2 haccept
    apply Triple.get_bind
    intro w' heq
    rw [heq]
    apply Triple.bind (Q := fun _ w' => Fine n id fd w' ∧ (w'.action id).readBufIdxCallback.isSome)
    . intro w' heq
      rw [heq]
      unfold liftIo
      cases acceptLoop w.sys with
      | done r sys => exact ⟨hw.1.of_poll rfl hw.1.holds (Epoll.ReadsKept.refl _), hcb⟩
      | cut => exact hw.1.err rfl
      | null => exact hw.1.err rfl
    . intro r
      split
      . apply Triple.modify
        intro w' hw'
        exact hw'.1.setAction rfl rfl rfl
      . exact acceptCallback _
      . split
        . exact acceptCallback _
        . exact Triple.throw (fun _ hw' => hw'.1.err rfl)
  . exact Triple.pure (fun _ heq => heq ▸ hw.1)

end Fine

theorem Good.armed (h : w.Good n id fd q) : w.Armed id := fun _ => h.callback

theorem Gone.fine {src : ReadSource} {ret : Int} {log : List Entry} {before : Epoll} {ops : List Op}
    (h : Gone n id fd q src ret log before ops w)
    (hcalm : Entry.calm id (.readReturn id src ret before ops w.poll) = true)
    : w.Fine n id fd := by
  have hbefore : { w with log := log }.Uncancelled n id := h.uncancelled
  refine ⟨h.holds, ?_, ?_, ?_⟩
  . rw [h.eq, List.length_append]
    have := h.le
    omega
  . apply hbefore.calm.append h.eq
    simpa using hcalm
  . exact hbefore.respects.append_return h.eq rfl

-- Where a callback has cancelled that must not, there is nothing left to show.
theorem uncalm_preserved {α : Type} {m : EventM α}
    (hlog : ∀ log, Preserves (Frame.Inv (fun _ => True) (fun w => log <+: w.log)) m)
    : Triple (fun w => ¬ w.Calm n id) m (fun _ w => ¬ w.Calm n id) (Err n id) := by
  have hmono : ∀ {w w' : World}, w.log <+: w'.log → ¬ w.Calm n id → ¬ w'.Calm n id := by
    intro w w' hprefix hw hcalm
    apply hw
    intro e he
    apply hcalm
    obtain ⟨es, hes⟩ := hprefix
    rw [← hes, List.drop_append]
    exact List.mem_append_left _ he
  intro w hw
  have h := Frame.of_true (hlog w.log) w List.prefix_rfl
  cases hm : m w with
  | ok a w' =>
    rw [hm] at h
    exact hmono h hw
  | error f w' =>
    rw [hm] at h
    exact err_of_not_calm (hmono h hw) f

-- What is left of a multishot read.
def Shot (n id : Nat) (fd : Fd) (w : World) : Prop := w.Calm n id → Fine n id fd w ∧ Armed id w

theorem Good.shot (h : w.Good n id fd q) : w.Shot n id fd := fun _ => ⟨h.toSettled.fine, h.armed⟩

theorem readCallback_uncalm (src : ReadSource) (ret : Int) (iov : List Iovec)
    : Triple (fun w => ¬ w.Calm n id) (readCallback id src ret iov) (fun _ w => ¬ w.Calm n id)
        (Err n id) :=
  uncalm_preserved (fun log => ((logFrame log _).read id).readCallback src ret iov)

-- Data is delivered, the loop goes on.
theorem Good.dataCallback {ret : Int} (hret : 0 < ret ∨ (ret = 0 ∧ fd.type = .udp)) (iov : List Iovec)
    : Triple (fun w => Good n id fd q w ∨ ¬ w.Calm n id) (Event.readCallback id .multishot ret iov)
        (fun _ w => Good n id fd q w ∨ ¬ w.Calm n id) (Err n id) := by
  apply Triple.or
  . apply (Good.readCallback .multishot ret iov).conseq (fun _ hw => hw) ?_ (fun _ _ hw => hw)
    rintro _ w (hgood | ⟨log, before, ops, hgone⟩)
    . exact .inl hgood
    . right
      intro hcalm
      have := hcalm _ (mem_drop_of_eq hgone.eq hgone.le)
      simp only [Entry.calm, decide_true, Bool.true_and, hgone.cancelled, Bool.not_true,
        Bool.false_or, Bool.and_eq_true, Bool.or_eq_true, decide_eq_true_eq, hgone.sameFd,
        Bool.not_eq_true'] at this
      rcases this.1 with hneg | ⟨hzero, htype⟩
      . omega
      . rcases hret with hpos | ⟨_, hudp⟩
        . omega
        . exact htype hudp
  . apply (readCallback_uncalm .multishot ret iov).conseq (fun _ hw => hw) ?_ (fun _ _ hw => hw)
    exact fun _ _ hw => .inr hw

-- An error or the end of the stream is reported, the loop ends.
theorem Good.endCallback (ret : Int) (iov : List Iovec)
    : Triple (Good n id fd q) (Event.readCallback id .multishot ret iov)
        (fun _ w => Good n id fd q w ∨ Shot n id fd w) (Err n id) := by
  apply (Good.readCallback .multishot ret iov).conseq (fun _ hw => hw) ?_ (fun _ _ hw => hw)
  rintro _ w (hgood | ⟨log, before, ops, hgone⟩)
  . exact .inl hgood
  . right
    intro hcalm
    have he := hcalm _ (mem_drop_of_eq hgone.eq hgone.le)
    refine ⟨hgone.fine he, ?_⟩
    intro haccept
    rw [World.action] at haccept
    simp only [Entry.calm, decide_true, Bool.true_and, hgone.cancelled, Bool.not_true,
      Bool.false_or, Bool.and_eq_true, haccept, Bool.not_true, Bool.false_or] at he
    exact he.2

theorem Good.readTcp (ring : Nat) (iov : List Iovec)
    : Triple (Good n id fd q) (readTcp id ring iov)
        (fun ret w => Good n id fd q w ∨ (ret = 0 ∧ ¬ w.Calm n id) ∨ (ret = -1 ∧ Shot n id fd w))
        (Err n id) := by
  apply Triple.get_bind
  intro w hw
  apply Triple.bind ((Good.liftIo _).at_state hw)
  intro r
  apply Triple.modify_bind (T := Good n id fd q)
  . intro w hw
    exact ⟨⟨hw.holds.of_fd { hw.holds.wf with } rfl (fun _ => rfl), hw.log, hw.uncancelled⟩,
      hw.callback, hw.reads⟩
  . split
    next hret =>
      split
      . apply Triple.bind (Q := fun _ => Good n id fd q)
        . apply Good.modifyAction
          intro a
          exact ⟨_, _, _, _, _, by simp +contextual, rfl⟩
        . intro _
          exact Triple.pure (fun _ hw => .inl hw)
      . apply Triple.bind ((Good.dataCallback (.inl hret) _).pre (fun _ hw => .inl hw))
        intro _
        apply Triple.pure
        rintro w (hw | hw)
        . exact .inl hw
        . exact .inr (.inl ⟨rfl, hw⟩)
    next hret =>
      apply Triple.bind (Good.endCallback _ _)
      intro _
      apply Triple.pure
      rintro w (hw | hw)
      . exact .inl hw
      . exact .inr (.inr ⟨rfl, hw⟩)

theorem Good.readShot (ring : Nat) (iov : List Iovec)
    : Triple (Good n id fd q) (readShot id ring iov)
        (fun ret w => Good n id fd q w ∨ (ret = 0 ∧ ¬ w.Calm n id) ∨ (ret = -1 ∧ Shot n id fd w))
        (Err n id) := by
  apply Triple.get_bind
  intro w hw
  split
  next hudp =>
    have hfd : fd.type = .udp := by
      rw [← hw.holds.fd]
      exact hudp
    refine (Good.readUdp (fun _ hw => hw) ?_ ?_ true 0).at_state hw
    . intro len iov
      apply Good.dataCallback
      rcases Nat.eq_zero_or_pos len with hzero | hpos
      . exact .inr ⟨by simp [hzero], hfd⟩
      . exact .inl (Int.natCast_pos.mpr hpos)
    . intro ret _
      exact Good.endCallback ret []
  . exact (Good.readTcp ring iov).at_state hw

theorem multishotLoop_shot (ring m : Nat)
    : Triple (fun w => Good n id fd q w ∨ ¬ w.Calm n id) (multishotLoop id ring m)
        (fun _ => Shot n id fd) (Err n id) := by
  induction m with
  | zero =>
    apply Triple.throw
    rintro w (hw | hw)
    . exact hw.err rfl
    . exact err_of_not_calm hw _
  | succ m ih =>
    apply Triple.or
    . apply Triple.get_bind
      intro w hw
      split
      . exact Triple.throw (fun _ heq => heq ▸ hw.err rfl)
      . split
        . exact Triple.throw (fun _ heq => heq ▸ hw.err rfl)
        . apply Triple.bind ((Good.readShot ring _).at_state hw)
          intro ret
          split
          next hret =>
            apply Triple.pure
            rintro w (hw | ⟨rfl, hw⟩ | ⟨_, hw⟩)
            . exact hw.shot
            . exact fun hcalm => absurd hcalm hw
            . exact hw
          next hret =>
            apply ih.pre
            rintro w (hw | ⟨_, hw⟩ | ⟨rfl, _⟩)
            . exact .inl hw
            . exact .inr hw
            . omega
    . apply (uncalm_preserved fun log => ((logFrame log _).read id).multishotLoop ring (m + 1)).conseq
        (fun _ hw => hw) ?_ (fun _ _ hw => hw)
      exact fun _ _ hw hcalm => absurd hcalm hw

end World

section Faults

-- The program does not run into an empty read queue or an empty callback of a read.
def Harmless {α : Type} (m : EventM α) : Prop :=
  Triple (fun _ => True) m (fun _ _ => True) (fun f _ => f.isRead = false)

theorem liftIo_harmless {α : Type} (io : List SysRet → Io α) : Harmless (liftIo io) := by
  intro w _
  unfold liftIo
  cases io w.sys with
  | done r sys => trivial
  | cut => rfl
  | null => rfl

theorem script_harmless (ops : List Op) : Harmless (ops.forM exec) := by
  apply Triple.forM
  intro op _
  apply exec_triple
  . exact fun _ _ _ _ _ => trivial
  . exact fun _ _ _ hf => Epoll.exec_fault hf

theorem writeCallback_harmless (id task : Nat) (ret : Int) : Harmless (writeCallback id task ret) := by
  apply Triple.get_bind
  intro w _
  split
  . exact Triple.throw (fun _ _ => rfl)
  . exact Triple.modify_bind (fun _ _ => trivial) (script_harmless _)

theorem callback_harmless (id task : Nat) (ret : Int)
    : Harmless (do writeCallback id task ret; return false) := by
  apply Triple.bind (writeCallback_harmless id task ret)
  intro _
  exact Triple.pure (fun _ _ => trivial)

theorem transfer_harmless (id : Nat) (t : Task) : Harmless (doWriteTask.transfer id t) := by
  apply Triple.get_bind
  intro w _
  apply Triple.bind ((liftIo_harmless _).pre (fun _ _ => trivial))
  intro r
  apply Triple.modify_bind (T := fun _ => True) (fun _ _ => trivial)
  apply Triple.modify_bind (T := fun _ => True) (fun _ _ => trivial)
  split
  . apply Triple.modify_bind (T := fun _ => True) (fun _ _ => trivial)
    exact Triple.pure (fun _ _ => trivial)
  . exact callback_harmless _ _ _

theorem doWriteTask_harmless (id : Nat) (t : Task) : Harmless (doWriteTask id t) := by
  apply Triple.get_bind
  intro w _
  split
  . exact (callback_harmless _ _ _).pre (fun _ _ => trivial)
  . split
    . exact (transfer_harmless id t).pre (fun _ _ => trivial)
    . apply Triple.bind (Q := fun _ _ => True)
      . apply Triple.bind ((liftIo_harmless _).pre (fun _ _ => trivial))
        intro ok
        apply Triple.modify_bind (T := fun _ => True) (fun _ _ => trivial)
        exact Triple.pure (fun _ _ => trivial)
      . intro ok
        split
        . exact transfer_harmless id t
        . exact callback_harmless _ _ _

theorem writeLoop_harmless (id n : Nat) : Harmless (writeLoop id n) := by
  induction n with
  | zero => exact Triple.pure (fun _ _ => trivial)
  | succ n ih =>
    apply Triple.get_bind
    intro w _
    split
    . exact Triple.throw (fun _ _ => rfl)
    . apply Triple.bind ((doWriteTask_harmless id _).pre (fun _ _ => trivial))
      intro again
      apply Triple.modify_bind (T := fun _ => True) (fun _ _ => trivial)
      apply Triple.bind (Q := fun _ _ => True)
      . apply Triple.get_bind
        intro w _
        split
        . exact Triple.throw (fun _ _ => rfl)
        . exact Triple.modify (fun _ _ => trivial)
      . intro _
        exact ih

theorem handleWrite_harmless (id : Nat) : Harmless (handleWrite id) := by
  apply Triple.get_bind
  intro w _
  split
  . apply Triple.get_bind
    intro w _
    exact Triple.modify_bind (fun _ _ => trivial) (writeLoop_harmless _ _)
  . exact Triple.pure (fun _ _ => trivial)

end Faults

namespace World

variable {n id : Nat} {fd : Fd} {q : List Task} {w w' : World}

theorem Fine.handleWrite
    : Triple (Fine n id fd) (handleWrite id) (fun _ => Fine n id fd) (Err n id) := by
  have hframe := Frame.of_true (Fine.writeFrame n id fd).handleWrite
  exact ((handleWrite_harmless id).and hframe).conseq (fun _ hw => ⟨trivial, hw⟩)
    (fun _ _ hw => hw.2) (fun _ _ hw => hw.2.err hw.1)

-- A callback has been given for all that is to be read, and the counter of the pass, a `uint32_t`, reaches the number
-- of tasks.
structure Submitted (id : Nat) (w : World) : Prop where
  counted : (w.action id).pendingReadTask.length < 2 ^ 32
  reads : (w.action id).pendingReadTask ≠ [] → (w.action id).readBufIdxCallback.isSome
  shot : (w.action id).multishotReadTask.isSome → (w.action id).readBufIdxCallback.isSome
  accept : (w.action id).hasAcceptTask = true → (w.action id).readBufIdxCallback.isSome

theorem readPass_reading (isEventTriggered : Bool) (hw : w.Settled n id fd) (hsub : w.Submitted id)
    : Triple (· = w) (readPass id isEventTriggered)
        (fun _ w => (Fine n id fd w ∧ Armed id w) ∨ ∃ x, Violated n id x w) (Err n id) := by
  apply Triple.get_bind
  intro w' heq
  rw [heq]
  have hlog : (w.addLog [.readPass id w.poll w.sys w.user]).Settled n id fd :=
    hw.append rfl (by simp [Entry.cancels]) hw.holds
  cases hreads : (w.action id).pendingReadTask with
  | nil =>
    apply Triple.modify_bind (T := fun w => Fine n id fd w ∧ Armed id w)
    . intro w' heq
      rw [heq]
      exact ⟨hlog.fine, hsub.accept⟩
    . exact Triple.pure (fun _ hw => .inl hw)
  | cons t ts =>
    have hcb : (w.action id).readBufIdxCallback.isSome := by
      apply hsub.reads
      rw [hreads]
      exact List.cons_ne_nil t ts
    have hloop : Triple (Reading n id fd (t :: ts).length) _ _ _ :=
      Reading.readLoop isEventTriggered (t :: ts).length
    refine Triple.modify_bind ?_ (hloop.conseq (fun _ hw => hw) ?_ (fun _ _ hw => hw))
    . intro w' heq
      rw [heq]
      exact .inl ⟨t :: ts, Nat.le_refl _, hlog, hcb, hreads ▸ List.prefix_rfl⟩
    . rintro _ w (⟨q, _, hgood⟩ | hviolated)
      . exact .inl ⟨hgood.toSettled.fine, hgood.armed⟩
      . exact .inr hviolated

theorem acceptPass_shot
    : Triple (Shot n id fd) (acceptPass id) (fun _ w => w.Calm n id → Fine n id fd w) (Err n id) := by
  intro w hw
  by_cases hcalm : w.Calm n id
  . apply Fine.acceptPass.conseq (fun _ hw => hw) ?_ (fun _ _ hw => hw) w (hw hcalm)
    exact fun _ _ hw _ => hw
  . apply (uncalm_preserved fun log => ((logFrame log _).read id).acceptPass).conseq
      (fun _ hw => hw) ?_ (fun _ _ hw => hw) w hcalm
    exact fun _ _ hw hcalm => absurd hcalm hw

theorem handleRead_queue (isEventTriggered : Bool) (hw : w.Settled n id fd) (hsub : w.Submitted id)
    (hnone : (w.action id).multishotReadTask = none)
    : Triple (· = w) (handleRead id isEventTriggered)
        (fun _ w => Fine n id fd w ∨ ∃ x, Violated n id x w) (Err n id) := by
  apply Triple.get_bind
  intro w' heq
  rw [heq, hnone]
  split
  . apply Triple.bind (readPass_reading isEventTriggered hw hsub)
    intro _
    apply Triple.or
    . exact Fine.acceptPass.conseq (fun _ hw => hw) (fun _ _ hw => .inl hw) (fun _ _ hw => hw)
    . rintro w ⟨x, hw⟩
      have hframe := Frame.of_true (Violated.frame n id x).acceptPass
      apply (Violated.preserved hframe).conseq (fun _ hw => hw) ?_ (fun _ _ hw => hw) w hw
      exact fun _ _ hw => .inr ⟨x, hw⟩
  . exact Triple.pure (fun _ heq => heq ▸ .inl hw.fine)

theorem handleRead_shot (isEventTriggered : Bool) (hw : w.Settled n id fd) (hsub : w.Submitted id)
    {t : MultishotTask} (hsome : (w.action id).multishotReadTask = some t)
    : Triple (· = w) (handleRead id isEventTriggered)
        (fun _ w => w.Calm n id → Fine n id fd w) (Err n id) := by
  have hshot : (w.action id).multishotReadTask.isSome := by
    rw [hsome]
    rfl
  have hgood : w.Good n id fd [] := ⟨hw, hsub.shot hshot, List.nil_prefix⟩
  apply Triple.get_bind
  intro w' heq
  rw [heq, hsome]
  split
  . refine Triple.bind ?_ (fun _ => acceptPass_shot)
    apply Triple.get_bind
    intro w' heq
    rw [heq]
    exact (multishotLoop_shot _ _).at_state (.inl hgood)
  . exact Triple.pure (fun _ heq _ => heq ▸ hw.fine)

theorem handleEvents_queue (isEventTriggered : Bool) (hw : w.Settled n id fd) (hsub : w.Submitted id)
    (hnone : (w.action id).multishotReadTask = none)
    : Triple (· = w) (handleEvents id isEventTriggered)
        (fun _ w => Fine n id fd w ∨ ∃ x, Violated n id x w) (Err n id) := by
  apply Triple.get_bind
  intro w' heq
  rw [heq]
  split
  . exact Triple.pure (fun _ heq => heq ▸ .inl hw.fine)
  . apply Triple.bind (handleRead_queue isEventTriggered hw hsub hnone)
    intro _
    apply Triple.or
    . exact Fine.handleWrite.conseq (fun _ hw => hw) (fun _ _ hw => .inl hw) (fun _ _ hw => hw)
    . rintro w ⟨x, hw⟩
      have hframe := Frame.of_true (Violated.writeFrame n id x).handleWrite
      apply (Violated.preserved hframe).conseq (fun _ hw => hw) ?_ (fun _ _ hw => hw) w hw
      exact fun _ _ hw => .inr ⟨x, hw⟩

theorem handleEvents_shot (isEventTriggered : Bool) (hw : w.Settled n id fd) (hsub : w.Submitted id)
    {t : MultishotTask} (hsome : (w.action id).multishotReadTask = some t)
    : Triple (· = w) (handleEvents id isEventTriggered)
        (fun _ w => w.Calm n id → Fine n id fd w) (Err n id) := by
  apply Triple.get_bind
  intro w' heq
  rw [heq]
  split
  . exact Triple.pure (fun _ heq _ => heq ▸ hw.fine)
  . apply Triple.bind (handleRead_shot isEventTriggered hw hsub hsome)
    intro _ w hw
    by_cases hcalm : w.Calm n id
    . apply Fine.handleWrite.conseq (fun _ hw => hw) ?_ (fun _ _ hw => hw) w (hw hcalm)
      exact fun _ _ hw _ => hw
    . apply (uncalm_preserved fun log => ((logFrame log _).write id).handleWrite).conseq
        (fun _ hw => hw) ?_ (fun _ _ hw => hw) w hcalm
      exact fun _ _ hw hcalm => absurd hcalm hw

end World

-- What a run stops with decides between the two.
theorem safe_of_calm {n id : Nat} (fd : Fd) {r : EStateM.Result Fault World Unit}
    (hok : ∀ w, r = .ok () w → w.Calm n id → w.Fine n id fd)
    (herr : ∀ f w, r = .error f w → w.Err n id f) (hcalm : r.state.Calm n id)
    : Safe n id r := by
  cases r with
  | ok a w =>
    refine ⟨fun f w h => ?_, (hok w rfl hcalm).respects⟩
    cases h
  | error f w =>
    have h := herr f w rfl hcalm
    refine ⟨fun f' w' heq => ?_, h.2⟩
    cases heq
    exact h.1

theorem handleEvents_safe (id : Nat) (fd : Fd) (isEventTriggered : Bool) (w : World)
    (hholds : w.poll.Holds id fd) (hsub : w.Submitted id)
    : ((handleEvents id isEventTriggered w).state.Calm w.log.length id
        → Safe w.log.length id (handleEvents id isEventTriggered w))
      ∧ ((w.action id).multishotReadTask = none
        → (∀ f w', handleEvents id isEventTriggered w = .error f w' → f.isRead = true)
        → Safe w.log.length id (handleEvents id isEventTriggered w)
        → (handleEvents id isEventTriggered w).state.Calm w.log.length id) := by
  have hsettled : w.Settled w.log.length id fd := by
    refine ⟨hholds, Nat.le_refl _, ?_⟩
    intro e he
    rw [List.drop_length] at he
    cases he
  cases hshot : (w.action id).multishotReadTask with
  | none =>
    have h := World.handleEvents_queue isEventTriggered hsettled hsub hshot w rfl
    refine ⟨safe_of_calm fd ?_ ?_, ?_⟩
    . intro w' heq hcalm
      rw [heq] at h
      rcases h with hfine | ⟨x, hviolated⟩
      . exact hfine
      . exact absurd hcalm hviolated.not_calm
    . intro f w' heq
      rw [heq] at h
      exact h
    . intro _ hends hsafe
      cases hr : handleEvents id isEventTriggered w with
      | ok a w' =>
        rw [hr] at h hsafe
        rcases h with hfine | ⟨x, hviolated⟩
        . exact hfine.calm
        . exact absurd hsafe.respects hviolated.not_respects
      | error f w' =>
        have hread := hends f w' hr
        rw [hsafe.fault f w' hr] at hread
        cases hread
  | some t =>
    have h := World.handleEvents_shot isEventTriggered hsettled hsub hshot w rfl
    refine ⟨safe_of_calm fd ?_ ?_, ?_⟩
    . intro w' heq
      rw [heq] at h
      exact h
    . intro f w' heq
      rw [heq] at h
      exact h
    . intro hnone
      cases hnone

def aFile : Fd := ⟨3, .file⟩

def aFileRead : Op := .submitAsyncRead aFile ⟨false, [⟨1000, 8⟩]⟩ (some 7) none

-- A read of a file is pending, its callback submits another one.
def readingWorld : World :=
  { (run [.op aFileRead] (World.init fun _ => true)).state with sys := [.ok 8 []], user := [[aFileRead]] }

theorem readingWorld_safe
    : ((handleEvents 0 false readingWorld).state.action 0).pendingReadTask.map (·.id) = [1]
        ∧ Safe readingWorld.log.length 0 (handleEvents 0 false readingWorld) := by
  refine ⟨by decide +kernel, (handleEvents_safe 0 aFile false readingWorld ⟨?_, ?_, ?_⟩ ⟨?_, ?_, ?_, ?_⟩).1 ?_⟩
  . exact (Epoll.Wf.runFrame.run (fun st _ => st.calls_true) (fun _ _ => trivial)).state
      (Epoll.Wf.init _)
  all_goals decide +kernel

def aTimer : Fd := ⟨3, .timer⟩

-- The callback of the read of a timer cancels it, as `close_timer` does.
theorem cancellingCallback_empties_queue
    : ∃ w, run
        [.op (.submitAsyncRead aTimer ⟨false, [⟨1000, 8⟩]⟩ (some 7) none),
          .dispatch (some [(3, ⟨true, false, false⟩)]) [.ok 8 []] [[.cancelAsyncRead aTimer (some 8)]] []]
        (World.init fun _ => true) = .error .emptyReadQueue w := by
  apply EStateM.Result.eq_error_of_error?
  decide +kernel

end Event
end Ezio
