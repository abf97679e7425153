import Ezio.Event.Epoll.Lemmas.Cancel

/-!
This module contains the states that `handle_events` passes through: no callback has cancelled the reads
yet, one has just done so, a cancel has been ignored.
-/

namespace Ezio
namespace Event

open EStateM (Preserves Triple)

namespace World

variable {n id : Nat} {w w' : World}

def Uncancelled (n id : Nat) (w : World) : Prop := ∀ e ∈ w.log.drop n, e.cancels id = false

theorem mem_drop_of_eq {log log' : List Entry} {e : Entry} (hlog : w.log = log ++ e :: log')
    (hn : n ≤ log.length)
    : e ∈ w.log.drop n := by
  rw [hlog, List.drop_append_of_le_length hn]
  simp

theorem mem_drop_append {es : List Entry} (hlog : w'.log = w.log ++ es) {e : Entry}
    (he : e ∈ w'.log.drop n)
    : e ∈ w.log.drop n ∨ e ∈ es := by
  rw [hlog, List.drop_append] at he
  rcases List.mem_append.mp he with he | he
  . exact .inl he
  . exact .inr (List.mem_of_mem_drop he)

namespace Uncancelled

theorem append (h : w.Uncancelled n id) {es : List Entry} (hlog : w'.log = w.log ++ es)
    (hes : ∀ e ∈ es, e.cancels id = false)
    : w'.Uncancelled n id := by
  intro e he
  rcases mem_drop_append hlog he with he | he
  . exact h e he
  . exact hes e he

theorem of_log (h : w.Uncancelled n id) (hlog : w'.log = w.log) : w'.Uncancelled n id := by
  unfold Uncancelled
  rw [hlog]
  exact h

theorem respects (h : w.Uncancelled n id) : w.Respects n id := by
  intro log src ret before ops after log' hlog hn hcancel
  have := h _ (mem_drop_of_eq hlog hn)
  simp [Entry.cancels, hcancel] at this

theorem calm (h : w.Uncancelled n id) : w.Calm n id := by
  intro e he
  have := h e he
  cases e with
  | readReturn id' src ret before ops after =>
    rw [Entry.cancels] at this
    cases src with
    | task t => rw [Entry.calm, this, Bool.not_false]
    | multishot => rw [Entry.calm, this, Bool.not_false, Bool.true_or]
    | accept => rfl
  | _ => rfl

end Uncancelled

namespace Respects

theorem append (h : w.Respects n id) {es : List Entry} (hlog : w'.log = w.log ++ es)
    (hes : ∀ e ∈ es, e.cancels id = false ∧ ∀ before, e.callsBack id before = false)
    (hkept : w.poll.ReadsKept id (nextStop id w'.poll es))
    : w'.Respects n id := by
  intro log src ret before ops after log' hlog' hn hcancel
  rw [hlog] at hlog'
  rcases List.append_eq_append_iff.mp hlog' with ⟨rest, hleft, hright⟩ | ⟨rest, hleft, hright⟩
  . have hmem : .readReturn id src ret before ops after ∈ es := by
      rw [hright]
      simp
    have := (hes _ hmem).1
    simp [Entry.cancels, hcancel] at this
  . cases rest with
    | nil =>
      have hmem : .readReturn id src ret before ops after ∈ es := by
        rw [List.nil_append] at hright
        rw [← hright]
        simp
      have := (hes _ hmem).1
      simp [Entry.cancels, hcancel] at this
    | cons e rest =>
      rw [List.cons_append, List.cons.injEq] at hright
      rw [← hright.1] at hleft
      obtain ⟨hquiet, hreads⟩ := h log src ret before ops after rest hleft hn hcancel
      rw [hright.2]
      refine ⟨?_, ?_⟩
      . intro e he
        rcases List.mem_append.mp he with he | he
        . exact hquiet e he
        . exact (hes e he).2 before
      . rw [nextStop_append]
        exact nextStop_mono hreads (fun hreads => hreads.trans hkept)

-- The callback returns, there is nothing that could have happened since.
theorem append_return (h : w.Respects n id) {src : ReadSource} {ret : Int} {before : Epoll}
    {ops : List Op} (hlog : w'.log = w.log ++ [Entry.readReturn id src ret before ops w'.poll])
    (hpoll : w'.poll = w.poll)
    : w'.Respects n id := by
  intro log src' ret' before' ops' after log' hlog' hn hcancel
  rw [hlog] at hlog'
  rcases List.eq_nil_or_concat log' with rfl | ⟨rest, e, rfl⟩
  . have := List.append_inj_right' hlog' rfl
    simp only [List.cons.injEq, Entry.readReturn.injEq, and_true] at this
    obtain ⟨_, _, _, _, _, hafter⟩ := this
    refine ⟨by simp, ?_⟩
    rw [← hafter]
    exact Epoll.ReadsKept.refl _
  . rw [List.concat_eq_append, ← List.cons_append, ← List.append_assoc] at hlog'
    have hleft := List.append_inj_left' hlog' rfl
    have hright := List.append_inj_right' hlog' rfl
    obtain ⟨hquiet, hreads⟩ := h log src' ret' before' ops' after rest hleft hn hcancel
    simp only [List.cons.injEq, and_true] at hright
    rw [List.concat_eq_append, ← hright]
    refine ⟨?_, ?_⟩
    . intro e he
      rcases List.mem_append.mp he with he | he
      . exact hquiet e he
      . rw [List.mem_singleton.mp he]
        rfl
    . rw [nextStop_append, hpoll]
      exact hreads

end Respects

-- A fault is none of those that are asked about unless a callback has cancelled where it must not.
def Err (n id : Nat) (f : Fault) (w : World) : Prop :=
  w.Calm n id → f.isRead = false ∧ w.Respects n id

theorem Uncancelled.err (h : w.Uncancelled n id) {f : Fault} (hf : f.isRead = false) : Err n id f w :=
  fun _ => ⟨hf, h.respects⟩

theorem err_of_not_calm (h : ¬ w.Calm n id) (f : Fault) : Err n id f w := fun hcalm => absurd hcalm h

-- No callback has cancelled yet.
structure Settled (n id : Nat) (fd : Fd) (w : World) : Prop where
  holds : w.poll.Holds id fd
  log : n ≤ w.log.length
  uncancelled : w.Uncancelled n id

-- All tasks in `q` are still pending.
structure Good (n id : Nat) (fd : Fd) (q : List Task) (w : World) : Prop extends Settled n id fd w where
  callback : (w.action id).readBufIdxCallback.isSome
  reads : q <+: (w.action id).pendingReadTask

-- A callback that has cancelled has just returned.
structure Gone (n id : Nat) (fd : Fd) (q : List Task) (src : ReadSource) (ret : Int)
    (log : List Entry) (before : Epoll) (ops : List Op) (w : World) : Prop where
  eq : w.log = log ++ [Entry.readReturn id src ret before ops w.poll]
  le : n ≤ log.length
  uncancelled : ∀ e ∈ log.drop n, e.cancels id = false
  cancelled : before.cancelled id ops = true
  reads : q <+: (before.action id).pendingReadTask
  sameFd : (before.action id).fd = fd
  holds : w.poll.Holds id fd
  fresh : w.poll.Fresh id

variable {fd : Fd} {q : List Task}

namespace Settled

theorem append (h : w.Settled n id fd) {es : List Entry} (hlog : w'.log = w.log ++ es)
    (hes : ∀ e ∈ es, e.cancels id = false) (hholds : w'.poll.Holds id fd)
    : w'.Settled n id fd := by
  refine ⟨hholds, ?_, h.uncancelled.append hlog hes⟩
  have := h.log
  rw [hlog, List.length_append]
  omega

theorem exec (h : w.Settled n id fd) {op : Op} {r : Int} {s : Epoll} (hs : w.poll.exec op = .ok (r, s))
    : Settled n id fd { w.addLog [Entry.call op w.poll] with poll := s } :=
  h.append rfl (by simp [Entry.cancels]) (h.holds.updates (Epoll.exec_updates hs))

theorem exec_err (h : w.Settled n id fd) {op : Op} {f : Fault} (hf : w.poll.exec op = .error f)
    : Err n id f (w.addLog [.call op w.poll]) :=
  (h.uncancelled.append rfl (by simp [Entry.cancels])).err (Epoll.exec_fault hf)

end Settled

-- The calls of a callback that does not cancel.
theorem Good.script (ops : List Op)
    : Triple (fun w => Good n id fd q w ∧ w.poll.cancelled id ops = false) (ops.forM Event.exec)
        (fun _ => Good n id fd q) (Err n id) := by
  induction ops with
  | nil => exact Triple.pure (fun _ hw => hw.1)
  | cons op ops ih =>
    refine Triple.bind (Q := fun _ w => Good n id fd q w ∧ w.poll.cancelled id ops = false) ?_
      (fun _ => ih)
    apply exec_triple
    . rintro w r s ⟨hw, hcancel⟩ hs
      rw [Epoll.cancelled, hs, Bool.or_eq_false_iff] at hcancel
      have hgrows := Epoll.Grows.exec hw.holds.lt hcancel.1 hs
      exact ⟨⟨hw.toSettled.exec hs, hgrows.callback hw.callback, hw.reads.trans hgrows.reads⟩,
        hcancel.2⟩
    . rintro w f ⟨hw, _⟩ hf
      exact hw.toSettled.exec_err hf

-- The calls of a callback that does.
theorem Settled.script (ops : List Op)
    : Triple
        (fun w => Settled n id fd w ∧ (w.poll.cancelled id ops = true ∨ w.poll.Fresh id))
        (ops.forM Event.exec)
        (fun _ w => Settled n id fd w ∧ w.poll.Fresh id) (Err n id) := by
  induction ops with
  | nil =>
    apply Triple.pure
    rintro w ⟨hw, hcancel | hfresh⟩
    . cases hcancel
    . exact ⟨hw, hfresh⟩
  | cons op ops ih =>
    refine Triple.bind (Q := fun _ w =>
      Settled n id fd w ∧ (w.poll.cancelled id ops = true ∨ w.poll.Fresh id)) ?_ (fun _ => ih)
    apply exec_triple
    . rintro w r s ⟨hw, hcase⟩ hs
      refine ⟨hw.exec hs, ?_⟩
      cases hop : op.cancelsReads w.poll id with
      | true =>
        right
        have hnil := Epoll.readIds_of_cancelsReads hop hs
        constructor
        . rw [hnil]
          exact List.nodup_nil
        . rw [hnil]
          simp
      | false =>
        rcases hcase with hcancel | hfresh
        . left
          rw [Epoll.cancelled, hs, hop, Bool.false_or] at hcancel
          exact hcancel
        . right
          exact hfresh.exec hw.holds.lt hop hs
    . rintro w f ⟨hw, _⟩ hf
      exact hw.exec_err hf

theorem Good.readCallback (src : ReadSource) (ret : Int) (iov : List Iovec)
    : Triple (Good n id fd q) (Event.readCallback id src ret iov)
        (fun _ w => Good n id fd q w ∨ ∃ log before ops, Gone n id fd q src ret log before ops w)
        (Err n id) := by
  apply Triple.get_bind
  intro w hw
  split
  next hcb =>
    have := hw.callback
    rw [hcb] at this
    cases this
  next cb hcb =>
    have hstart : ∀ w', w' = w → Good n id fd q
        { w'.addLog [.readCallback id cb src ret iov] with user := w'.user.tail } := by
      intro w' heq
      rw [heq]
      exact ⟨hw.toSettled.append rfl (by simp [Entry.cancels]) hw.holds, hw.callback, hw.reads⟩
    cases hcancel : w.poll.cancelled id (w.user.headD []) with
    | false =>
      apply Triple.modify_bind (T := fun w' => Good n id fd q w'
        ∧ w'.poll.cancelled id (w.user.headD []) = false)
      . intro w' heq
        refine ⟨hstart w' heq, ?_⟩
        rw [heq]
        exact hcancel
      . apply Triple.bind (Good.script _)
        intro _
        apply Triple.modify
        intro w' hw'
        left
        refine ⟨hw'.toSettled.append rfl ?_ hw'.holds, hw'.callback, hw'.reads⟩
        intro e he
        rw [List.mem_singleton.mp he, Entry.cancels, hcancel, Bool.and_false]
    | true =>
      apply Triple.modify_bind (T := fun w' => Settled n id fd w'
        ∧ (w'.poll.cancelled id (w.user.headD []) = true ∨ w'.poll.Fresh id))
      . intro w' heq
        refine ⟨(hstart w' heq).toSettled, .inl ?_⟩
        rw [heq]
        exact hcancel
      . apply Triple.bind (Settled.script _)
        intro _
        apply Triple.modify
        intro w' hw'
        right
        exact ⟨w'.log, w.poll, w.user.headD [],
          ⟨rfl, hw'.1.log, hw'.1.uncancelled, hcancel, hw.reads, hw.holds.fd, hw'.1.holds, hw'.2⟩⟩

namespace Good

theorem append (h : w.Good n id fd q) {es : List Entry} (hlog : w'.log = w.log ++ es)
    (hes : ∀ e ∈ es, e.cancels id = false) (hpoll : w'.poll = w.poll)
    : w'.Good n id fd q := by
  have hholds : w'.poll.Holds id fd := by
    rw [hpoll]
    exact h.holds
  refine ⟨h.toSettled.append hlog hes hholds, ?_, ?_⟩
  . rw [World.action, hpoll]
    exact h.callback
  . rw [World.action, hpoll]
    exact h.reads

theorem of_log (h : w.Good n id fd q) (hlog : w'.log = w.log) (hpoll : w'.poll = w.poll)
    : w'.Good n id fd q :=
  h.append (hlog.trans (List.append_nil _).symm) (by simp) hpoll

theorem err (h : w.Good n id fd q) {f : Fault} (hf : f.isRead = false) : Err n id f w :=
  h.uncancelled.err hf

theorem touch (h : w.Good n id fd q) {a : EventAction} (ha : (w.action id).Touch a)
    : (w.modifyAction id fun _ => a).Good n id fd q := by
  obtain ⟨_, _, _, _, _, _, rfl⟩ := ha
  refine ⟨⟨h.holds.setAction rfl, h.log, h.uncancelled⟩, ?_, ?_⟩
  . have := h.callback
    simpa using this
  . have := h.reads
    simpa using this

theorem modifyAction {f : EventAction → EventAction} (hf : ∀ a : EventAction, a.Touch (f a))
    : Triple (Good n id fd q) (Event.modifyAction id f) (fun _ => Good n id fd q) (Err n id) := by
  apply Triple.modify
  intro w hw
  exact hw.touch (hf (w.action id))

theorem liftIo {α : Type} (io : List SysRet → Io α)
    : Triple (Good n id fd q) (liftIo io) (fun _ => Good n id fd q) (Err n id) := by
  intro w hw
  unfold Event.liftIo
  cases io w.sys with
  | done r sys => exact hw.of_log rfl rfl
  | cut => exact hw.err rfl
  | null => exact hw.err rfl

theorem lseek (task offset : Nat)
    : Triple (Good n id fd q) (lseek id task offset) (fun _ => Good n id fd q) (Err n id) := by
  apply Triple.bind (liftIo _)
  intro ok
  apply Triple.modify_bind (T := Good n id fd q)
  . intro w hw
    refine hw.append rfl ?_ rfl
    cases ok <;> simp [Entry.cancels]
  . exact Triple.pure (fun _ hw => hw)

theorem setUdpHdrs (isMultishot : Bool) (buf : List FdIo.Udp.Mmsghdr)
    : Triple (Good n id fd q) (setUdpHdrs id isMultishot buf) (fun _ => Good n id fd q) (Err n id) := by
  apply Good.modifyAction
  intro a
  split
  . exact ⟨_, _, _, _, _, by simp +contextual, rfl⟩
  . exact ⟨_, _, _, _, _, by simp +contextual, rfl⟩

end Good

-- A callback for a queued task has cancelled, but this has not been respected: a read that was given up
-- has been called back, or `x`, a read that was submitted after it, has been taken out of the queue.
structure Ignored (n id x : Nat) (log : List Entry) (k : Nat) (ret : Int) (before : Epoll)
    (ops : List Op) (after : Epoll) (log' : List Entry) (w : World) : Prop where
  eq : w.log = log ++ .readReturn id (.task k) ret before ops after :: log'
  le : n ≤ log.length
  cancelled : before.cancelled id ops = true
  bad : (∃ e ∈ log', e.callsBack id before = true)
    ∨ (x ∈ (after.action id).pendingReadTask.map (·.id) ∧ (nextStop id w.poll log').Lost id x
      ∧ w.poll.Lost id x)

def Violated (n id x : Nat) (w : World) : Prop :=
  ∃ log k ret before ops after log', Ignored n id x log k ret before ops after log' w

namespace Violated

variable {x : Nat}

theorem not_calm (h : w.Violated n id x) : ¬ w.Calm n id := by
  obtain ⟨log, k, ret, before, ops, after, log', h⟩ := h
  intro hcalm
  have := hcalm _ (mem_drop_of_eq h.eq h.le)
  simp [Entry.calm, h.cancelled] at this

theorem not_respects (h : w.Violated n id x) : ¬ w.Respects n id := by
  obtain ⟨log, k, ret, before, ops, after, log', h⟩ := h
  intro hrespects
  obtain ⟨hquiet, hkept⟩ := hrespects log _ ret before ops after log' h.eq h.le h.cancelled
  rcases h.bad with ⟨e, he, hcalls⟩ | ⟨hx, hlost, _⟩
  . rw [hquiet e he] at hcalls
    cases hcalls
  . obtain ⟨t, ht, rfl⟩ := List.mem_map.mp hx
    apply hlost.notMem
    rw [Epoll.readIds, List.map_append]
    exact List.mem_append_left _ (List.mem_map_of_mem (hkept.reads ht))

theorem append (h : w.Violated n id x) {es : List Entry} (hlog : w'.log = w.log ++ es)
    (hlost : w.poll.Lost id x → (nextStop id w'.poll es).Lost id x ∧ w'.poll.Lost id x)
    : w'.Violated n id x := by
  obtain ⟨log, k, ret, before, ops, after, log', h⟩ := h
  refine ⟨log, k, ret, before, ops, after, log' ++ es, ?_, h.le, h.cancelled, ?_⟩
  . rw [hlog, h.eq, List.append_assoc, List.cons_append]
  . rcases h.bad with ⟨e, he, hcalls⟩ | ⟨hx, hstop, hcur⟩
    . exact .inl ⟨e, List.mem_append_left _ he, hcalls⟩
    . right
      refine ⟨hx, ?_, (hlost hcur).2⟩
      rw [nextStop_append]
      exact nextStop_mono hstop (fun h => (hlost h).1)

theorem of_poll (h : w.Violated n id x) (hlog : w'.log = w.log)
    (hlost : w.poll.Lost id x → w'.poll.Lost id x)
    : w'.Violated n id x :=
  h.append (hlog.trans (List.append_nil _).symm) (fun h => ⟨hlost h, hlost h⟩)

-- Neither a touch nor moving tasks of other queues brings a read back.
theorem setAction (h : w.Violated n id x) {a : EventAction}
    (hreads : a.pendingReadTask = (w.action id).pendingReadTask)
    (hnon : a.nonSubmitReadTask = (w.action id).nonSubmitReadTask)
    : (w.modifyAction id fun _ => a).Violated n id x := by
  refine h.of_poll rfl ?_
  intro hlost
  refine ⟨hlost.lt, ?_, hlost.old⟩
  have := hlost.notMem
  simp only [Epoll.readIds, Epoll.action_def] at this ⊢
  rw [World.modifyAction_poll]
  simpa [hreads, hnon] using this

theorem ioFrame (n id x : Nat) (K : Entry → Prop)
    : IoFrame id K (fun _ => True) (Violated n id x) := by
  constructor
  . intro op _
    apply exec_triple
    . intro w r s hw hs
      refine hw.append rfl ?_
      intro hlost
      refine ⟨?_, hlost.exec hs⟩
      rw [nextStop]
      split
      . exact hlost
      . exact hlost.exec hs
    . intro w f hw _
      refine hw.append rfl ?_
      intro hlost
      refine ⟨?_, hlost⟩
      rw [nextStop]
      split <;> exact hlost
  . intro w sys user log hlog hw
    refine hw.append rfl ?_
    intro hlost
    rw [nextStop_of_not_stops _ (fun e he => Entry.stops_of_owner (hlog e he).1)]
    exact ⟨hlost, hlost⟩
  . intro w a ha _ hw
    obtain ⟨_, _, _, _, _, _, rfl⟩ := ha
    exact hw.setAction rfl rfl

theorem frame (n id x : Nat) : Frame id (fun _ => True) (Violated n id x) := by
  refine ⟨ioFrame n id x _, ?_⟩
  intro w group f hw
  exact hw.of_poll rfl (fun hlost => ⟨hlost.lt, hlost.notMem, hlost.old⟩)

theorem writeFrame (n id x : Nat) : WriteFrame id (fun _ => True) (Violated n id x) := by
  refine ⟨⟨ioFrame n id x _, ?_⟩, ?_⟩
  . intro w offset hw
    exact hw.setAction rfl rfl
  . rintro w _ ⟨_, _, rfl⟩ hw
    exact hw.setAction rfl rfl

end Violated

end World

end Event
end Ezio
