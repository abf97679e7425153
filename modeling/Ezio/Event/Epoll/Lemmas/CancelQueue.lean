import Ezio.Event.Epoll.Lemmas.CancelState
import Mathlib.Data.List.Infix

/-!
This module contains the proof that the pass over the queue of read tasks ignores every cancel that is
made from one of its callbacks, and that it goes well if there is none.
-/

namespace Ezio
namespace Event

open EStateM (Preserves Triple)

theorem Frame.of_true {α : Type} {P : World → Prop} {m : EventM α}
    (h : Preserves (Frame.Inv (fun _ => True) P) m)
    : Preserves P m :=
  h.conseq (fun _ hw => ⟨fun _ _ _ _ => trivial, hw⟩) (fun _ _ hw => hw.2) (fun _ _ hw => hw.2)

namespace World

variable {n id : Nat} {fd : Fd} {q : List Task} {w : World}

theorem Violated.preserved {α : Type} {x : Nat} {m : EventM α} (h : Preserves (Violated n id x) m)
    : Triple (Violated n id x) m (fun _ => Violated n id x) (Err n id) :=
  h.conseq (fun _ hw => hw) (fun _ _ hw => hw) (fun f _ hw => err_of_not_calm hw.not_calm f)

-- The callback for the task `t` has cancelled.
def Bad (n id : Nat) (fd : Fd) (q : List Task) (t : Nat) (w : World) : Prop :=
  (∃ ret log before ops, Gone n id fd q (.task t) ret log before ops w) ∨ ∃ x, Violated n id x w

variable {t : Nat}

theorem Gone.not_calm {ret : Int} {log : List Entry} {before : Epoll} {ops : List Op}
    (h : Gone n id fd q (.task t) ret log before ops w)
    : ¬ w.Calm n id := by
  intro hcalm
  have := hcalm _ (mem_drop_of_eq h.eq h.le)
  simp [Entry.calm, h.cancelled] at this

theorem Bad.not_calm (h : w.Bad n id fd q t) : ¬ w.Calm n id := by
  rcases h with ⟨_, _, _, _, h⟩ | ⟨_, h⟩
  . exact h.not_calm
  . exact h.not_calm

-- The read is called back although it has been given up.
theorem Gone.readCallback (ht : t ∈ q.map (·.id)) {ret : Int} {log : List Entry} {before : Epoll}
    {ops : List Op} (ret' : Int) (iov : List Iovec)
    : Triple (Gone n id fd q (.task t) ret log before ops) (readCallback id (.task t) ret' iov)
        (fun _ => Violated n id 0) (Err n id) := by
  apply Triple.get_bind
  intro w hw
  split
  . exact Triple.throw (fun _ heq => heq ▸ err_of_not_calm hw.not_calm _)
  next cb hcb =>
    apply Triple.modify_bind (T := Violated n id 0)
    . intro w' heq
      rw [heq]
      refine ⟨log, t, ret, before, ops, w.poll, [.readCallback id cb (.task t) ret' iov], ?_, hw.le,
        hw.cancelled, .inl ⟨_, List.mem_singleton_self _, ?_⟩⟩
      . show w.log ++ _ = _
        rw [hw.eq, List.append_assoc, List.cons_append, List.nil_append]
      . have hmem := List.map_subset (·.id) hw.reads.subset ht
        simp only [Entry.callsBack, decide_true, Bool.true_and, List.contains_iff_mem]
        exact hmem
    . apply Triple.bind (Violated.preserved (Preserves.forM fun op _ =>
        (Violated.frame n id 0).exec op trivial))
      intro _
      apply Triple.modify
      intro w' hw'
      exact (Violated.frame n id 0).addLog w' (by simp [Entry.owner, Entry.isWrite]) hw'

theorem Bad.readCallback (ht : t ∈ q.map (·.id)) (ret : Int) (iov : List Iovec)
    : Triple (fun w => Good n id fd q w ∨ Bad n id fd q t w) (readCallback id (.task t) ret iov)
        (fun _ w => Good n id fd q w ∨ Bad n id fd q t w) (Err n id) := by
  apply Triple.or
  . apply (Good.readCallback (.task t) ret iov).conseq (fun _ hw => hw) ?_ (fun _ _ hw => hw)
    rintro _ w (hgood | ⟨log, before, ops, hgone⟩)
    . exact .inl hgood
    . exact .inr (.inl ⟨ret, log, before, ops, hgone⟩)
  . rintro w (⟨ret', log, before, ops, hw⟩ | ⟨x, hw⟩)
    . apply (Gone.readCallback ht ret iov).conseq (fun _ hw => hw) ?_ (fun _ _ hw => hw) w hw
      exact fun _ _ hw => .inr (.inr ⟨0, hw⟩)
    . have hframe := Frame.of_true ((Violated.frame n id x).readCallback (.task t) ret iov)
      apply (Violated.preserved hframe).conseq (fun _ hw => hw) ?_ (fun _ _ hw => hw) w hw
      exact fun _ _ hw => .inr (.inr ⟨x, hw⟩)

section Udp

variable {B B' : World → Prop} {src : ReadSource}

theorem Good.udpHdrs (hB : ∀ w, B w → ¬ w.Calm n id) (isMultishot : Bool)
    : Triple (fun w => Good n id fd q w ∨ B w) (udpHdrs id isMultishot)
        (fun _ w => Good n id fd q w ∨ B w) (Err n id) := by
  have herr : ∀ w f, Fault.isRead f = false → Good n id fd q w ∨ B w → Err n id f w := by
    rintro w f hf (hw | hw)
    . exact hw.err hf
    . exact err_of_not_calm (hB w hw) f
  apply Triple.get_bind
  intro w hw
  split
  . split
    . exact Triple.pure (fun _ heq => heq ▸ hw)
    . exact Triple.throw (fun _ heq => heq ▸ herr w _ rfl hw)
    . exact Triple.throw (fun _ heq => heq ▸ herr w _ rfl hw)
  . exact Triple.pure (fun _ heq => heq ▸ hw)

theorem Good.udpCallbacks (hB : ∀ w, B w → ¬ w.Calm n id)
    (hdata : ∀ (len : Nat) iov, Triple (fun w => Good n id fd q w ∨ B w) (Event.readCallback id src len iov)
      (fun _ w => Good n id fd q w ∨ B w) (Err n id))
    (isMultishot : Bool) (i m : Nat)
    : Triple (fun w => Good n id fd q w ∨ B w) (udpCallbacks id isMultishot src i m)
        (fun _ w => Good n id fd q w ∨ B w) (Err n id) := by
  induction m generalizing i with
  | zero => exact Triple.pure (fun _ hw => hw)
  | succ m ih =>
    apply Triple.bind (Good.udpHdrs hB isMultishot)
    intro buf
    split
    . apply Triple.throw
      rintro w (hw | hw)
      . exact hw.err rfl
      . exact err_of_not_calm (hB w hw) _
    . apply Triple.bind (hdata _ _)
      intro _
      exact ih (i + 1)

-- A callback with data may lead to `B`, the one that reports an error to `B'`.
theorem Good.readUdp (hB : ∀ w, B w → ¬ w.Calm n id)
    (hdata : ∀ (len : Nat) iov, Triple (fun w => Good n id fd q w ∨ B w) (Event.readCallback id src len iov)
      (fun _ w => Good n id fd q w ∨ B w) (Err n id))
    (hend : ∀ ret, ret ≤ 0 → Triple (Good n id fd q) (Event.readCallback id src ret [])
      (fun _ w => Good n id fd q w ∨ B' w) (Err n id))
    (isMultishot : Bool) (cnt : Nat)
    : Triple (Good n id fd q) (readUdp id isMultishot src cnt)
        (fun ret w => Good n id fd q w ∨ (ret = 0 ∧ B w) ∨ (ret = -1 ∧ B' w)) (Err n id) := by
  have hhdrs : Triple (Good n id fd q) (Event.udpHdrs id isMultishot) (fun _ => Good n id fd q)
      (Err n id) :=
    (Good.udpHdrs (B := fun _ => False) (fun _ h => h.elim) isMultishot).conseq (fun _ hw => .inl hw)
      (fun _ _ hw => hw.resolve_right (fun h => h)) (fun _ _ hw => hw)
  apply Triple.bind hhdrs
  intro buf
  apply Triple.get_bind
  intro w hw
  apply Triple.bind ((Good.liftIo _).at_state hw)
  intro r
  apply Triple.bind (Good.setUdpHdrs isMultishot r.buf)
  intro _
  split
  next hret =>
    apply Triple.bind (Q := fun _ => Good n id fd q)
    . apply Good.modifyAction
      intro a
      exact ⟨_, _, _, _, _, by simp +contextual, rfl⟩
    . intro _
      split
      . exact Triple.pure (fun _ hw => .inl hw)
      . apply Triple.bind ((Good.udpCallbacks hB hdata isMultishot 0 _).pre (fun _ hw => .inl hw))
        intro _
        apply Triple.pure
        rintro w (hw | hw)
        . exact .inl hw
        . exact .inr (.inl ⟨rfl, hw⟩)
  next hret =>
    apply Triple.bind (hend r.ret (by omega))
    intro _
    apply Triple.pure
    rintro w (hw | hw)
    . exact .inl hw
    . exact .inr (.inr ⟨rfl, hw⟩)

end Udp

-- The state after a task, which is taken off if `again` is not set.
def Done (n id : Nat) (fd : Fd) (q : List Task) (t : Nat) (again : Bool) (w : World) : Prop :=
  Good n id fd q w ∨ (again = false ∧ Bad n id fd q t w)

theorem Good.taskCallback (ht : t ∈ q.map (·.id)) (ret : Int) (iov : List Iovec)
    : Triple (Good n id fd q) (do Event.readCallback id (.task t) ret iov; return false)
        (Done n id fd q t) (Err n id) := by
  apply Triple.bind ((Bad.readCallback ht ret iov).pre (fun _ hw => .inl hw))
  intro _
  apply Triple.pure
  rintro w (hw | hw)
  . exact .inl hw
  . exact .inr ⟨rfl, hw⟩

theorem Good.transfer {task : Task} (ht : task ∈ q) (isEventTriggered : Bool)
    : Triple (Good n id fd q) (doReadTask.transfer id task isEventTriggered)
        (Done n id fd q task.id) (Err n id) := by
  have ht : task.id ∈ q.map (·.id) := List.mem_map_of_mem ht
  apply Triple.get_bind
  intro w hw
  split
  . apply Triple.modify_bind (T := Good n id fd q)
    . intro w' heq
      rw [heq]
      exact hw.touch ⟨_, _, _, _, _, by simp +contextual, rfl⟩
    . apply Triple.bind (Good.readUdp (B := Bad n id fd q task.id) (fun _ hw => hw.not_calm)
        (fun len iov => Bad.readCallback ht len iov)
        (fun ret _ => (Bad.readCallback ht ret []).pre (fun _ hw => .inl hw)) false _)
      intro ret
      apply Triple.pure
      rintro w (hw | ⟨rfl, hw⟩ | ⟨rfl, hw⟩)
      . exact .inl hw
      . exact .inr ⟨by decide, hw⟩
      . exact .inr ⟨by decide, hw⟩
  . apply Triple.bind ((Good.liftIo _).at_state hw)
    intro r
    apply Triple.bind (Q := fun _ => Good n id fd q)
    . apply Good.modifyAction
      intro a
      exact ⟨_, _, _, _, _, by simp +contextual, rfl⟩
    . intro _
      split
      . exact Triple.pure (fun _ hw => .inl hw)
      . exact Good.taskCallback ht _ _

theorem Good.doReadTask {task : Task} (ht : task ∈ q) (isEventTriggered : Bool)
    : Triple (Good n id fd q) (doReadTask id task isEventTriggered)
        (Done n id fd q task.id) (Err n id) := by
  have hid : task.id ∈ q.map (·.id) := List.mem_map_of_mem ht
  apply Triple.get_bind
  intro w hw
  split
  . exact (Good.taskCallback hid _ _).at_state hw
  . split
    . exact (Good.transfer ht isEventTriggered).at_state hw
    . apply Triple.bind ((Good.lseek _ _).at_state hw)
      intro ok
      split
      . apply Triple.bind (Q := fun _ => Good n id fd q)
        . apply Good.modifyAction
          intro a
          exact ⟨_, _, _, _, _, by simp +contextual, rfl⟩
        . intro _
          exact Good.transfer ht isEventTriggered
      . exact Good.taskCallback hid _ _

-- There are `m` tasks to go.
def Reading (n id : Nat) (fd : Fd) (m : Nat) (w : World) : Prop :=
  (∃ q, m ≤ q.length ∧ Good n id fd q w) ∨ ∃ x, Violated n id x w

theorem Good.requeue {a : EventAction} (h : w.Good n id fd q) {q' : List Task}
    (hfd : a.fd = (w.action id).fd) (hcb : a.readBufIdxCallback = (w.action id).readBufIdxCallback)
    (hq : q' <+: a.pendingReadTask)
    : (w.modifyAction id fun _ => a).Good n id fd q' := by
  refine ⟨⟨h.holds.setAction hfd, h.log, h.uncancelled⟩, ?_, ?_⟩
  . have := h.callback
    simpa [hcb] using this
  . simpa using hq

theorem Good.pop {task : Task} {ts : List Task}
    : Triple (Good n id fd (task :: ts)) (popReadTask id) (fun _ => Good n id fd ts) (Err n id) := by
  apply Triple.get_bind
  intro w hw
  obtain ⟨rest, hrest⟩ := hw.reads
  split
  next hnil =>
    rw [hnil] at hrest
    cases hrest
  next t' ts' hcons =>
    rw [hcons, List.cons_append, List.cons.injEq] at hrest
    apply Triple.modify
    intro w' heq
    rw [heq]
    refine hw.requeue rfl rfl ?_
    rw [← hrest.2]
    exact List.prefix_append _ _

-- Whatever is at the front is one of the reads that were submitted after the cancel.
theorem Gone.pop {src : Nat} {ret : Int} {log : List Entry} {before : Epoll} {ops : List Op}
    : Triple (Gone n id fd q (.task src) ret log before ops) (popReadTask id)
        (fun _ w => ∃ x, Violated n id x w) (Err n id) := by
  apply Triple.get_bind
  intro w hw
  split
  . exact Triple.throw (fun _ heq => heq ▸ err_of_not_calm hw.not_calm _)
  next t' ts' hcons =>
    rw [World.action] at hcons
    apply Triple.modify
    intro w' heq
    rw [heq]
    have hids : w.poll.readIds id
        = t'.id :: (ts' ++ (w.poll.action id).nonSubmitReadTask).map (·.id) := by
      rw [Epoll.readIds, hcons, List.cons_append, List.map_cons]
    have hnodup := hw.fresh.nodup
    rw [hids, List.nodup_cons] at hnodup
    have hlost : (w.modifyAction id fun a => { a with pendingReadTask := ts' }).poll.Lost id t'.id := by
      refine ⟨hw.holds.lt, ?_, hw.fresh.old _ (by simp [hids])⟩
      have := hnodup.1
      simpa [Epoll.readIds] using this
    refine ⟨t'.id, log, src, ret, before, ops, w.poll, [], hw.eq, hw.le, hw.cancelled, .inr ⟨?_, hlost, hlost⟩⟩
    rw [hcons]
    simp

theorem Violated.pop {x : Nat}
    : Triple (Violated n id x) (popReadTask id) (fun _ => Violated n id x) (Err n id) := by
  apply Triple.get_bind
  intro w hw
  split
  . exact Triple.throw (fun _ heq => heq ▸ err_of_not_calm hw.not_calm _)
  next t' ts' hcons =>
    rw [World.action_def] at hcons
    apply Triple.modify
    intro w' heq
    rw [heq]
    refine hw.of_poll rfl ?_
    intro hlost
    refine ⟨hlost.lt, ?_, hlost.old⟩
    have := hlost.notMem
    rw [Epoll.readIds, Epoll.action_def, hcons, List.cons_append, List.map_cons, List.mem_cons,
      not_or] at this
    simpa [Epoll.readIds] using this.2

theorem Violated.addReadTask {x : Nat} {task : Task} (hne : x ≠ task.id) (h : w.Violated n id x)
    : (w.modifyAction id fun a => a.addReadTask task).Violated n id x := by
  refine h.of_poll rfl ?_
  intro hlost
  refine ⟨hlost.lt, ?_, hlost.old⟩
  have := hlost.notMem
  simp only [Epoll.readIds, Epoll.action_def, List.map_append, List.mem_append, not_or] at this
  simp [Epoll.readIds, EventAction.addReadTask, this, hne]

-- A read that is pending is not the one that has been taken out.
theorem Violated.ne_of_mem {x : Nat} {task : Task} (h : w.Violated n id x)
    (ht : task ∈ (w.action id).pendingReadTask)
    : ∃ y, y ≠ task.id ∧ w.Violated n id y := by
  obtain ⟨log, k, ret, before, ops, after, log', h⟩ := h
  rcases h.bad with hrevived | ⟨hx, hstop, hlost⟩
  . exact ⟨task.id + 1, by omega, log, k, ret, before, ops, after, log', h.eq, h.le, h.cancelled,
      .inl hrevived⟩
  . refine ⟨x, ?_, log, k, ret, before, ops, after, log', h⟩
    rintro rfl
    apply hlost.notMem
    rw [Epoll.readIds, List.map_append]
    exact List.mem_append_left _ (List.mem_map_of_mem ht)

theorem Reading.readLoop (isEventTriggered : Bool) (m : Nat)
    : Triple (Reading n id fd m) (readLoop id isEventTriggered m) (fun _ => Reading n id fd 0)
        (Err n id) := by
  induction m with
  | zero => exact Triple.pure (fun _ hw => hw)
  | succ m ih =>
    apply Triple.get_bind
    intro w hw
    split
    next hnil =>
      apply Triple.throw
      intro w' heq
      rw [heq]
      rcases hw with ⟨q, hlen, hgood⟩ | ⟨x, hviolated⟩
      . have := hgood.reads.length_le
        rw [hnil] at this
        simp only [List.length_nil] at this
        omega
      . exact err_of_not_calm hviolated.not_calm _
    next task ts hcons =>
      rcases hw with ⟨q, hlen, hgood⟩ | ⟨x, hviolated⟩
      . have hlen' : m ≤ ts.length := by
          have := hgood.reads.length_le
          rw [hcons, List.length_cons] at this
          omega
        have hreads : task :: ts <+: (w.action id).pendingReadTask := by
          rw [hcons]
        have hgood' : w.Good n id fd (task :: ts) := { hgood with reads := hreads }
        apply Triple.bind ((Good.doReadTask (List.mem_cons_self ..) isEventTriggered).at_state hgood')
        intro again
        apply Triple.bind (Q := fun _ w => Good n id fd (task :: ts) w
          ∨ Bad n id fd (task :: ts) task.id w)
        . apply Triple.modify
          rintro w (hw | ⟨rfl, hw⟩)
          . left
            cases again with
            | true => exact hw.requeue rfl rfl (hw.reads.trans (List.prefix_append _ _))
            | false =>
              show Good n id fd (task :: ts) (w.modifyAction id fun a => a)
              rw [World.modifyAction_self]
              exact hw
          . right
            show Bad n id fd (task :: ts) task.id (w.modifyAction id fun a => a)
            rw [World.modifyAction_self]
            exact hw
        . intro _
          refine Triple.bind (Q := fun _ => Reading n id fd m) (Triple.or ?_ ?_) (fun _ => ih)
          . apply Good.pop.conseq (fun _ hw => hw) ?_ (fun _ _ hw => hw)
            exact fun _ _ hw => .inl ⟨ts, hlen', hw⟩
          . rintro w (⟨ret, log, before, ops, hw⟩ | ⟨x, hw⟩)
            . apply Gone.pop.conseq (fun _ hw => hw) ?_ (fun _ _ hw => hw) w hw
              exact fun _ _ hw => .inr hw
            . apply Violated.pop.conseq (fun _ hw => hw) ?_ (fun _ _ hw => hw) w hw
              exact fun _ _ hw => .inr ⟨x, hw⟩
      . obtain ⟨y, hne, hviolated⟩ := hviolated.ne_of_mem (hcons ▸ List.mem_cons_self ..)
        have hframe := Frame.of_true ((Violated.frame n id y).doReadTask task isEventTriggered)
        apply Triple.bind ((Violated.preserved hframe).at_state hviolated)
        intro again
        apply Triple.bind (Q := fun _ => Violated n id y)
        . apply Triple.modify
          intro w hw
          cases again with
          | true => exact hw.addReadTask hne
          | false => exact hw.setAction rfl rfl
        . intro _
          refine Triple.bind (Q := fun _ => Reading n id fd m) ?_ (fun _ => ih)
          apply Violated.pop.conseq (fun _ hw => hw) ?_ (fun _ _ hw => hw)
          exact fun _ _ hw => .inr ⟨y, hw⟩

end World

end Event
end Ezio
