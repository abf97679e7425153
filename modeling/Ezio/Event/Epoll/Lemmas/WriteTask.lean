import Ezio.Event.Epoll.Lemmas.WriteQueue

/-!
This module contains what carrying out the task at the front of the write queue does to the order of the
writes, as long as no task that is refused is overtaken within a pass.
-/

namespace Ezio
namespace Event

open EStateM (Preserves Triple)
open Ezio.Event.Frame (Inv)

theorem World.pass_of_append {w w' : World} {es : List Entry} (hlog : w'.log = w.log ++ es)
    : w'.pass = es.foldl Pass.next w.pass := by
  unfold World.pass
  rw [hlog, List.foldl_append]

-- All that is claimed is claimed as long as no task has been overtaken.
def World.OnceOk (P : World → Prop) (w : World) : Prop := w.pass.ok = true → P w

def World.Ordered : World → Prop := World.OnceOk fun w => InOrder w.log

def World.Idle (fd : Fd) : World → Prop := World.OnceOk fun w => Writer fd w ∧ ∃ c m, Line c 0 m w

-- A pass has `n` tasks to go.
structure InPass (fd : Fd) (n c j m : Nat) (w : World) : Prop extends Writer fd w, Line c j m w where
  le : n ≤ m
  unmoved : w.pass.refused = false → j = 0
  alone : w.pass.submitted = false ∨ w.pass.refused = true → m = n

def World.Passing (fd : Fd) (n : Nat) : World → Prop := World.OnceOk fun w => ∃ c j m, InPass fd n c j m w

-- The task `t` is at the front.
def World.AtFront (fd : Fd) (n t : Nat) : World → Prop :=
  World.OnceOk fun w => ∃ c j m, InPass fd n c j m w ∧ t = c + j

-- It has been called back but not been taken off yet.
def World.Called (fd : Fd) (n t : Nat) : World → Prop :=
  World.OnceOk fun w => ∃ m, InPass fd n t 0 m w ∧ w.pass.refused = false
    ∧ ∃ e ∈ w.log, e.completes = some t

-- It has been refused but not been moved yet.
def World.WasRefused (fd : Fd) (n t : Nat) : World → Prop :=
  World.OnceOk fun w => w.pass.refused = true ∧ ∃ c j, InPass fd n c j n w ∧ t = c + j

namespace World.OnceOk

variable {P Q : World → Prop} {w w' : World}

theorem of_append (h : w.OnceOk P) {es : List Entry} (hlog : w'.log = w.log ++ es)
    (hQ : w.pass.ok = true → w'.pass.ok = true → P w → Q w')
    : w'.OnceOk Q := by
  intro hok
  have hok' : w.pass.ok = true := by
    rw [World.pass_of_append hlog] at hok
    exact Pass.ok_of_foldl hok
  exact hQ hok' hok (h hok')

theorem of_poll (h : w.OnceOk P) (hlog : w'.log = w.log) (hQ : P w → Q w') : w'.OnceOk Q :=
  h.of_append (hlog.trans (List.append_nil _).symm) (fun _ _ => hQ)

end World.OnceOk

-- What neither the queue nor the log tell apart.
structure Epoll.SameWrites (fd : Fd) (s s' : Epoll) : Prop where
  wf : s.Wf → s'.Wf
  isInited : s'.isInited = s.isInited
  next : s'.next = s.next
  nextTask : s'.nextTask = s.nextTask
  map : (s.infos 0).action.isWriting = true → s.Wf → s.next ≤ 1 → s.fdToEventInfo fd.key = some 0
    → s'.fdToEventInfo fd.key = some 0
  pendingWriteTask : (s'.infos 0).action.pendingWriteTask = (s.infos 0).action.pendingWriteTask
  isWriting : (s'.infos 0).action.isWriting = (s.infos 0).action.isWriting

namespace Epoll.SameWrites

variable {fd : Fd} {s s' : Epoll}

theorem refl (s : Epoll) : SameWrites fd s s :=
  ⟨fun h => h, rfl, rfl, rfl, fun _ _ _ h => h, rfl, rfl⟩

theorem setAction (s : Epoll) {i : Nat} {a : EventAction}
    (hp : a.pendingWriteTask = (s.infos i).action.pendingWriteTask)
    (he : a.events = (s.infos i).action.events)
    : SameWrites fd s (s.setAction i a) := by
  refine ⟨fun h => h.setAction, rfl, rfl, rfl, fun _ _ _ h => h, ?_, ?_⟩
  . rw [setAction_def, modifyInfo_infos]
    split
    next heq => rw [heq, ← hp]
    . rfl
  . rw [setAction_def, modifyInfo_infos, EventAction.isWriting, EventAction.isWriting]
    split
    next heq => rw [heq, ← he]
    . rfl

theorem of_infos (hwf : s.Wf → s'.Wf) (hinit : s'.isInited = s.isInited) (hnext : s'.next = s.next)
    (htask : s'.nextTask = s.nextTask) (hmap : s'.fdToEventInfo = s.fdToEventInfo)
    (hinfos : s'.infos = s.infos)
    : SameWrites fd s s' := by
  refine ⟨hwf, hinit, hnext, htask, ?_, ?_, ?_⟩
  . rw [hmap]
    exact fun _ _ _ h => h
  . rw [hinfos]
  . rw [hinfos]

end Epoll.SameWrites

theorem Writer.of_same {fd : Fd} {w w' : World} (h : Writer fd w)
    (hs : Epoll.SameWrites fd w.poll w'.poll) (horder : InOrder w'.log)
    : Writer fd w' := by
  refine ⟨hs.wf h.wf, hs.isInited.trans h.isInited, ?_, ?_, horder⟩
  . rw [hs.next]
    exact h.one
  . rcases h.found with ⟨hnext, hnone⟩ | ⟨hmap, hwriting⟩
    . left
      exact ⟨hs.next.trans hnext, hs.pendingWriteTask.trans hnone⟩
    . right
      exact ⟨hs.map hwriting h.wf h.one hmap, hs.isWriting.trans hwriting⟩

theorem Line.of_same {fd : Fd} {w w' : World} {c j m : Nat} (h : Line c j m w)
    (hs : Epoll.SameWrites fd w.poll w'.poll) (hlog : w.log <+: w'.log)
    : Line c j m w' := by
  refine ⟨?_, h.total.trans hs.nextTask.symm, ?_⟩
  . rw [World.action_def, hs.pendingWriteTask]
    exact h.ids
  . intro t ht
    obtain ⟨e, he, hc⟩ := h.called t ht
    exact ⟨e, hlog.subset he, hc⟩

-- The entry neither moves a task on nor is it one that the order depends on.
def Entry.Silent (e : Entry) : Prop := e.writes = none ∧ ∀ p : Pass, p.next e = p

theorem Entry.silent_of_owner (id : Nat) {e : Entry} (h : e.owner = some id ∧ e.isWrite = false)
    : e.Silent := by
  cases e with
  | call op before => cases h.1
  | writePass id before sys user => cases h.2
  | sent id task n => cases h.2
  | refused id task => cases h.2
  | writeCallback id cb task ret ops => cases h.2
  | _ => exact ⟨rfl, fun _ => rfl⟩

theorem Pass.foldl_silent {es : List Entry} (hes : ∀ e ∈ es, e.Silent) (p : Pass)
    : es.foldl Pass.next p = p := by
  induction es with
  | nil => rfl
  | cons e es ih =>
    rw [List.foldl_cons, (hes e (by simp)).2]
    exact ih (fun e he => hes e (by simp [he]))

-- What the order of the writes does not depend on.
structure World.SameWrites (fd : Fd) (w w' : World) : Prop where
  poll : w.poll.SameWrites fd w'.poll
  log : ∃ es, w'.log = w.log ++ es ∧ ∀ e ∈ es, e.Silent

namespace World.SameWrites

variable {fd : Fd} {w w' : World}

theorem of_poll (h : w.poll.SameWrites fd w'.poll) (hlog : w'.log = w.log) : w.SameWrites fd w' := by
  refine ⟨h, [], ?_, by simp⟩
  rw [hlog, List.append_nil]

theorem pass (h : w.SameWrites fd w') : w'.pass = w.pass := by
  obtain ⟨es, hlog, hes⟩ := h.log
  rw [World.pass_of_append hlog]
  exact Pass.foldl_silent hes w.pass

theorem order (h : w.SameWrites fd w') (hw : InOrder w.log) : InOrder w'.log := by
  obtain ⟨es, hlog, hes⟩ := h.log
  rw [hlog]
  apply hw.append (t := 0)
  . intro t' ht'
    omega
  . intro e he
    exact .inl (hes e he).1

theorem log_prefix (h : w.SameWrites fd w') : w.log <+: w'.log := by
  obtain ⟨es, hlog, _⟩ := h.log
  rw [hlog]
  exact List.prefix_append _ _

theorem onceOk (h : w.SameWrites fd w') {P : World → Prop} (hP : P w → P w') (hw : w.OnceOk P)
    : w'.OnceOk P := by
  intro hok
  rw [h.pass] at hok
  exact hP (hw hok)

theorem writer (h : w.SameWrites fd w') (hw : Writer fd w) : Writer fd w' :=
  hw.of_same h.poll (h.order hw.order)

theorem inPass (h : w.SameWrites fd w') {n c j m : Nat} (hw : InPass fd n c j m w)
    : InPass fd n c j m w' := by
  refine ⟨h.writer hw.toWriter, hw.toLine.of_same h.poll h.log_prefix, hw.le, ?_, ?_⟩
  . rw [h.pass]
    exact hw.unmoved
  . rw [h.pass]
    exact hw.alone

theorem idle (h : w.SameWrites fd w') (hw : w.Idle fd) : w'.Idle fd := by
  refine h.onceOk ?_ hw
  rintro ⟨hwriter, c, m, hline⟩
  exact ⟨h.writer hwriter, c, m, hline.of_same h.poll h.log_prefix⟩

theorem atFront (h : w.SameWrites fd w') {n t : Nat} (hw : w.AtFront fd n t)
    : w'.AtFront fd n t := by
  refine h.onceOk ?_ hw
  rintro ⟨c, j, m, hin, ht⟩
  exact ⟨c, j, m, h.inPass hin, ht⟩

end World.SameWrites

-- Where a fault ends a run, all that is left to claim is the order.
theorem World.Idle.ordered {fd : Fd} {w : World} (h : w.Idle fd) : w.Ordered := by
  intro hok
  obtain ⟨hwriter, _⟩ := h hok
  exact hwriter.order

theorem World.AtFront.ordered {fd : Fd} {n t : Nat} {w : World} (h : w.AtFront fd n t)
    : w.Ordered := by
  intro hok
  obtain ⟨_, _, _, hin, _⟩ := h hok
  exact hin.order

theorem World.Called.ordered {fd : Fd} {n t : Nat} {w : World} (h : w.Called fd n t) : w.Ordered := by
  intro hok
  obtain ⟨_, hin, _⟩ := h hok
  exact hin.order

theorem World.WasRefused.ordered {fd : Fd} {n t : Nat} {w : World} (h : w.WasRefused fd n t)
    : w.Ordered := by
  intro hok
  obtain ⟨_, _, _, hin, _⟩ := h hok
  exact hin.order

theorem World.Passing.ordered {fd : Fd} {n : Nat} {w : World} (h : w.Passing fd n) : w.Ordered := by
  intro hok
  obtain ⟨_, _, _, hin⟩ := h hok
  exact hin.order

-- Only writes of buffers to `fd` are submitted.
def OnlyWrites (fd : Fd) (op : Op) : Prop := op.writesTo fd = true

instance (fd : Fd) : DecidablePred (OnlyWrites fd) := fun op =>
  inferInstanceAs (Decidable (op.writesTo fd = true))

theorem World.Idle.exec {fd : Fd} (hfd : 0 ≤ fd.num) {op : Op} (hop : OnlyWrites fd op)
    : Preserves (World.Idle fd) (exec op) := by
  apply exec_triple
  . intro w r s hw hs
    refine World.OnceOk.of_append hw rfl ?_
    rintro _ _ ⟨hwriter, c, m, hline⟩
    obtain ⟨hwriter', hline'⟩ := hwriter.exec hline hfd hop hs
    exact ⟨hwriter', c, m + 1, hline'⟩
  . intro w f hw _
    refine World.OnceOk.of_append hw rfl ?_
    rintro _ _ ⟨hwriter, c, m, hline⟩
    have hsame : Epoll.SameWrites fd w.poll (w.addLog [Entry.call op w.poll]).poll :=
      Epoll.SameWrites.refl _
    refine ⟨hwriter.of_same hsame ?_, c, m, hline.of_same hsame (List.prefix_append _ _)⟩
    exact hwriter.order.append_singleton (fun t ht => by cases ht)

theorem World.Idle.readFrame {fd : Fd} (hfd : 0 ≤ fd.num)
    : ReadFrame 0 (OnlyWrites fd) (World.Idle fd) := by
  refine ⟨⟨⟨fun op hop => World.Idle.exec hfd hop, ?_, ?_⟩, ?_⟩, ?_⟩
  . intro w sys user log hlog
    refine World.SameWrites.idle ⟨Epoll.SameWrites.refl _, log, rfl, ?_⟩
    intro e he
    exact Entry.silent_of_owner _ (hlog e he)
  . intro w a ha _
    obtain ⟨_, _, _, _, _, _, rfl⟩ := ha
    exact World.SameWrites.idle (.of_poll (Epoll.SameWrites.setAction _ rfl rfl) rfl)
  . intro w group f
    exact World.SameWrites.idle
      (.of_poll (Epoll.SameWrites.of_infos (fun h => { h with }) rfl rfl rfl rfl rfl) rfl)
  . intro w a ha
    obtain ⟨_, rfl⟩ := ha
    exact World.SameWrites.idle (.of_poll (Epoll.SameWrites.setAction _ rfl rfl) rfl)

variable {fd : Fd} {n t : Nat}

theorem World.Called.exec (hfd : 0 ≤ fd.num) {op : Op} (hop : OnlyWrites fd op)
    : Triple (World.Called fd n t) (exec op) (fun _ => World.Called fd n t)
        (fun _ => World.Ordered) := by
  apply exec_triple
  . intro w r s hw hs
    refine World.OnceOk.of_append hw rfl ?_
    rintro _ _ ⟨m, hin, hrefused, e, he, hc⟩
    obtain ⟨hwriter, hline⟩ := hin.toWriter.exec hin.toLine hfd hop hs
    have hpass := World.pass_of_append
      (show { w.addLog [Entry.call op w.poll] with poll := s }.log = w.log ++ [Entry.call op w.poll] from rfl)
    refine ⟨m + 1, ⟨hwriter, hline, Nat.le_succ_of_le hin.le, fun _ => rfl, ?_⟩, ?_, e, ?_, hc⟩
    . rw [hpass]
      simp [Pass.next, hrefused]
    . rw [hpass]
      exact hrefused
    . exact List.mem_append_left _ he
  . intro w f hw _
    refine World.OnceOk.of_append hw.ordered rfl ?_
    intro _ _ horder
    exact InOrder.append_singleton horder (fun t ht => by cases ht)

theorem World.AtFront.called {w w' : World} (h : w.AtFront fd n t) {cb : Callback} {ret : Int}
    {ops : List Op} (hpoll : w'.poll = w.poll) (hlog : w'.log = w.log ++ [Entry.writeCallback 0 cb t ret ops])
    : w'.Called fd n t := by
  refine World.OnceOk.of_append h hlog ?_
  rintro _ hok ⟨c, j, m, hin, ht⟩
  have hpass := World.pass_of_append hlog
  rw [hpass] at hok
  have hrefused : w.pass.refused = false := by simp_all [Pass.next]
  have hj : j = 0 := hin.unmoved hrefused
  rw [hj, Nat.add_zero] at ht
  rw [hj, ← ht] at hin
  have hsame : Epoll.SameWrites fd w.poll w'.poll := by
    rw [hpoll]
    exact Epoll.SameWrites.refl _
  have horder : InOrder w'.log := by
    rw [hlog]
    apply hin.order.append_singleton
    intro t' ht'
    cases ht'
    exact hin.called
  refine ⟨m, ⟨hin.toWriter.of_same hsame horder, ?_, hin.le, fun _ => rfl, ?_⟩, ?_, ?_⟩
  . apply hin.toLine.of_same hsame
    rw [hlog]
    exact List.prefix_append _ _
  . rw [hpass]
    exact hin.alone
  . rw [hpass]
    exact hrefused
  . rw [hlog]
    exact ⟨Entry.writeCallback 0 cb t ret ops, List.mem_append_right _ (by simp), rfl⟩

theorem World.AtFront.writeCallback (hfd : 0 ≤ fd.num) (ret : Int)
    : Triple (Inv (OnlyWrites fd) (World.AtFront fd n t)) (writeCallback 0 t ret)
        (fun _ => Inv (OnlyWrites fd) (World.Called fd n t)) (fun _ => World.Ordered) := by
  apply Triple.get_bind
  intro w hw
  split
  . apply Triple.throw
    intro w' heq
    rw [heq]
    exact hw.2.ordered
  next cb hcb =>
    have hops := Frame.head_calls hw.1
    apply Triple.modify_bind (T := Inv (OnlyWrites fd) (World.Called fd n t))
    . intro w' heq
      rw [heq]
      exact ⟨Frame.tail_calls hw.1, hw.2.called rfl rfl⟩
    . apply Triple.forM
      intro op hop
      exact ((Frame.exec_calls op).and (World.Called.exec hfd (hops op hop))).conseq
        (fun _ h => h) (fun _ _ h => h) (fun _ _ h => h.2)

theorem World.AtFront.sent_one {w : World} (h : w.AtFront fd n t) (addr : Option Nat)
    (iov : List Iovec) (k : Nat)
    : (w.addLog [Entry.sent 0 t addr iov k]).AtFront fd n t := by
  have hlog : (w.addLog [Entry.sent 0 t addr iov k]).log = w.log ++ [Entry.sent 0 t addr iov k] := rfl
  have hpass := World.pass_of_append hlog
  refine World.OnceOk.of_append h rfl ?_
  rintro _ hok ⟨c, j, m, hin, ht⟩
  rw [hpass] at hok
  have hrefused : w.pass.refused = false := by simp_all [Pass.next]
  have hj : j = 0 := hin.unmoved hrefused
  have hsame : Epoll.SameWrites fd w.poll (w.addLog [Entry.sent 0 t addr iov k]).poll :=
    Epoll.SameWrites.refl _
  refine ⟨c, j, m, ⟨hin.toWriter.of_same hsame ?_, ?_, hin.le, fun _ => hj, ?_⟩, ht⟩
  . apply hin.order.append_singleton
    intro t' ht'
    cases ht'
    rw [ht, hj]
    exact hin.called
  . exact hin.toLine.of_same hsame (List.prefix_append _ _)
  . rw [hpass]
    exact hin.alone

theorem World.AtFront.sent {w : World} (h : w.AtFront fd n t) (addr : Option Nat)
    (moved : List (List Iovec × Nat))
    : (w.addLog (moved.map fun m => .sent 0 t addr m.1 m.2)).AtFront fd n t := by
  induction moved generalizing w with
  | nil =>
    refine World.SameWrites.atFront (w := w) ?_ h
    exact ⟨Epoll.SameWrites.refl _, [], rfl, by simp⟩
  | cons m moved ih =>
    have := ih (h.sent_one addr m.1 m.2)
    simpa [World.addLog] using this

theorem World.AtFront.refused {w : World} (h : w.AtFront fd n t)
    : (w.addLog [.refused 0 t]).WasRefused fd n t := by
  have hpass := World.pass_of_append (show (w.addLog [.refused 0 t]).log = w.log ++ [.refused 0 t] from rfl)
  refine World.OnceOk.of_append h rfl ?_
  rintro _ hok ⟨c, j, m, hin, ht⟩
  rw [hpass] at hok
  have hsubmitted : w.pass.submitted = false := by simp_all [Pass.next]
  have hm : m = n := hin.alone (.inl hsubmitted)
  rw [hm] at hin
  have hsame : Epoll.SameWrites fd w.poll (w.addLog [.refused 0 t]).poll :=
    Epoll.SameWrites.refl _
  have hrefused : (w.addLog [.refused 0 t]).pass.refused = true := by
    rw [hpass]
    rfl
  refine ⟨hrefused, c, j, ⟨hin.toWriter.of_same hsame ?_, ?_, hin.le, ?_, fun _ => rfl⟩, ht⟩
  . exact hin.order.append_singleton (fun t' ht' => by cases ht')
  . exact hin.toLine.of_same hsame (List.prefix_append _ _)
  . rw [hrefused]
    exact fun h => by cases h

theorem World.AtFront.liftIo {α : Type} (io : List SysRet → Io α)
    : Triple (Inv (OnlyWrites fd) (World.AtFront fd n t)) (liftIo io)
        (fun _ => Inv (OnlyWrites fd) (World.AtFront fd n t)) (fun _ => World.Ordered) := by
  intro w hw
  unfold Event.liftIo
  cases io w.sys with
  | done r sys =>
    refine ⟨hw.1, World.SameWrites.atFront (w := w) ?_ hw.2⟩
    exact .of_poll (Epoll.SameWrites.refl _) rfl
  | cut => exact hw.2.ordered
  | null => exact hw.2.ordered

-- What is left of a task after it has been tried.
def World.Tried (fd : Fd) (n t : Nat) (again : Bool) (w : World) : Prop :=
  if again then w.WasRefused fd n t else w.Called fd n t

theorem World.AtFront.callback (hfd : 0 ≤ fd.num) (ret : Int)
    : Triple (Inv (OnlyWrites fd) (World.AtFront fd n t))
        (do Event.writeCallback 0 t ret; return false)
        (fun again => Inv (OnlyWrites fd) (World.Tried fd n t again)) (fun _ => World.Ordered) := by
  apply Triple.bind (World.AtFront.writeCallback hfd ret)
  intro _
  exact Triple.pure (fun _ hw => hw)

theorem World.AtFront.transfer (hfd : 0 ≤ fd.num) (task : Task)
    : Triple (Inv (OnlyWrites fd) (World.AtFront fd n task.id)) (doWriteTask.transfer 0 task)
        (fun again => Inv (OnlyWrites fd) (World.Tried fd n task.id again)) (fun _ => World.Ordered) := by
  apply Triple.get_bind
  intro w hw
  apply Triple.bind ((World.AtFront.liftIo _).at_state hw)
  intro r
  apply Triple.modify_bind (T := Inv (OnlyWrites fd) (World.AtFront fd n task.id))
  . intro w hw
    exact ⟨hw.1, hw.2.sent _ _⟩
  . apply Triple.modify_bind (T := Inv (OnlyWrites fd) (World.AtFront fd n task.id))
    . intro w hw
      refine ⟨hw.1, World.SameWrites.atFront (w := w) ?_ hw.2⟩
      exact .of_poll (Epoll.SameWrites.setAction _ rfl rfl) rfl
    . split
      . apply Triple.modify_bind (T := Inv (OnlyWrites fd) (World.WasRefused fd n task.id))
        . intro w hw
          exact ⟨hw.1, hw.2.refused⟩
        . exact Triple.pure (fun _ hw => hw)
      . exact World.AtFront.callback hfd _

theorem World.AtFront.lseek (task offset : Nat)
    : Triple (Inv (OnlyWrites fd) (World.AtFront fd n t)) (lseek 0 task offset)
        (fun _ => Inv (OnlyWrites fd) (World.AtFront fd n t)) (fun _ => World.Ordered) := by
  apply Triple.bind (World.AtFront.liftIo _)
  intro ok
  apply Triple.modify_bind (T := Inv (OnlyWrites fd) (World.AtFront fd n t))
  . intro w hw
    refine ⟨hw.1, World.SameWrites.atFront (w := w) ?_ hw.2⟩
    refine ⟨Epoll.SameWrites.refl _, _, rfl, ?_⟩
    intro e he
    apply Entry.silent_of_owner 0
    cases ok with
    | true =>
      rw [if_pos rfl, List.mem_singleton] at he
      rw [he]
      exact ⟨rfl, rfl⟩
    | false => cases he
  . exact Triple.pure (fun _ hw => hw)

theorem World.AtFront.doWriteTask (hfd : 0 ≤ fd.num) (task : Task)
    : Triple (Inv (OnlyWrites fd) (World.AtFront fd n task.id)) (doWriteTask 0 task)
        (fun again => Inv (OnlyWrites fd) (World.Tried fd n task.id again)) (fun _ => World.Ordered) := by
  apply Triple.get_bind
  intro w hw
  split
  . exact (World.AtFront.callback hfd _).at_state hw
  . split
    . exact (World.AtFront.transfer hfd task).at_state hw
    . apply Triple.bind ((World.AtFront.lseek _ _).at_state hw)
      intro ok
      split
      . exact World.AtFront.transfer hfd task
      . exact World.AtFront.callback hfd _

end Event
end Ezio
