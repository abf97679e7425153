import Ezio.Event.Notifier
import Ezio.Event.Epoll.Lemmas.Reader
import Mathlib.Data.List.Infix

/-!
This module contains the states that a started `notifier` goes through. One task is pending between two calls of
`dispatch`, and an event is queued in the kernel whenever the counter is positive.
-/

namespace Ezio
namespace Event
namespace Notifier

variable {w : Notifier} {fd : Fd} {s : Epoll} {pend : List (List Iovec)} {cb : Callback} {readable : Bool}
  {ready : List Nat}

-- The backend of the notifier, whose `event_info` is the first one.
abbrev Backend : Fd → Epoll → List (List Iovec) → Callback → Bool → List Nat → Prop :=
  Reader .event ⟨.eventFd, .eventFd⟩

-- A task and the callback that is set with it: the one that only asks whether the file can be read, or a read.
inductive Kind where
  | probe
  | read

def Kind.buffer : Kind → List Iovec
  | probe => []
  | read => iov

def Kind.callback : Kind → Callback
  | probe => handleEventReady
  | read => handleNotify

theorem start_backend (num counter : Nat)
    : Backend (start num counter).fd (start num counter).poll [[]] handleEventReady false []
      ∧ Unregistered (start num counter).fd (start num counter).poll
      ∧ (start num counter).pc = .outside ∧ (start num counter).log = [] := by
  refine ⟨⟨Int.natCast_nonneg num, rfl, rfl, ?_, rfl, rfl, rfl, rfl, rfl, rfl, rfl, rfl⟩,
    ⟨rfl, rfl, rfl, rfl, rfl, rfl⟩,
    rfl, rfl⟩
  exact Function.update_self ..

/-! ### What the log says -/

-- `1` is a `notify` without a handler since, `2` one that `epoll_wait` should have reported.
def stageStep (n : Nat) : Entry → Nat
  | .notifies => max n 1
  | .harvests => if n = 1 then 2 else n
  | .handles => 0
  | .calls _ | .returns => n

def stage (l : List Entry) : Nat :=
  l.foldl stageStep 0

@[simp]
theorem stage_append (l : List Entry) (e : Entry)
    : stage (l ++ [e]) = stageStep (stage l) e := by
  simp [stage]

structure LogOk (l : List Entry) : Prop where
  calls : ∀ ret, .calls ret ∈ l → 0 ≤ ret
  returns : ∀ l₁ l₂, l = l₁ ++ Entry.returns :: l₂ → stage l₁ ≤ 1

theorem LogOk.append {l : List Entry} (h : LogOk l) {e : Entry} (hcalls : ∀ ret, e = .calls ret → 0 ≤ ret)
    (hreturns : e = .returns → stage l ≤ 1)
    : LogOk (l ++ [e]) := by
  constructor
  . intro ret hmem
    rcases List.mem_append.mp hmem with hmem | hmem
    . exact h.calls ret hmem
    . exact hcalls ret (List.mem_singleton.mp hmem).symm
  . intro l₁ l₂ heq
    rcases List.eq_nil_or_concat l₂ with rfl | ⟨l₃, e', rfl⟩
    . obtain ⟨rfl, he⟩ := List.append_inj' heq rfl
      exact hreturns (List.cons.inj he).1
    . rw [List.concat_eq_append, ← List.cons_append, ← List.append_assoc] at heq
      obtain ⟨heq', -⟩ := List.append_inj' heq rfl
      exact h.returns l₁ l₃ heq'

-- No `notify` is left to an event that has been harvested.
def Settled (w : Notifier) : Prop :=
  stage w.log ≤ 1 ∧ (stage w.log = 1 → 0 < w.counter)

def EdgeQueued (w : Notifier) : Prop :=
  0 < w.counter → w.edge

-- The pass of `set_ready_events` or the one of `do_ready_tasks`, and what is in `ready_events_` then.
def passOf (fromReady : Bool) : Pass :=
  ⟨0, if fromReady then some 0 else none, 1⟩

def readyOf (fromReady : Bool) : List Nat :=
  if fromReady then [0] else []

inductive Phase (w : Notifier) : Pc → Prop where
  -- before the first `dispatch`
  | started (hbackend : Backend w.fd w.poll [[]] handleEventReady false []) (hreg : Unregistered w.fd w.poll)
      (hsettled : w.Settled) (hfirst : .returns ∉ w.log)
    : Phase w .outside
  | outside (k : Kind) (hbackend : Backend w.fd w.poll [k.buffer] k.callback false []) (hreg : Registered w.fd w.poll)
      (hsettled : w.Settled) (hedge : w.EdgeQueued)
    : Phase w .outside
  | waiting (k : Kind) (hbackend : Backend w.fd w.poll [k.buffer] k.callback false []) (hreg : Registered w.fd w.poll)
      (hsettled : w.Settled) (hedge : w.EdgeQueued)
    : Phase w .waiting
  | done (k : Kind) (hbackend : Backend w.fd w.poll [k.buffer] k.callback false []) (hreg : Registered w.fd w.poll)
      (hsettled : w.Settled) (hedge : w.EdgeQueued)
    : Phase w (.readyTasks 0)
  | reported (k : Kind) (hbackend : Backend w.fd w.poll [k.buffer] k.callback false []) (hreg : Registered w.fd w.poll)
      (hcounter : 0 < w.counter)
    : Phase w (.reported 0)
  | reading (k : Kind) (hbackend : Backend w.fd w.poll [k.buffer] k.callback true []) (hreg : Registered w.fd w.poll)
      (hcounter : 0 < w.counter)
    : Phase w (.readTask (passOf false))
  | probing (hbackend : Backend w.fd w.poll [[]] handleEventReady true []) (hreg : Registered w.fd w.poll)
      (hcounter : 0 < w.counter)
    : Phase w (.callback (passOf false) (.read handleEventReady) 0)
  | probed (hbackend : Backend w.fd w.poll [[], iov] handleNotify true [0]) (hreg : Registered w.fd w.poll)
      (hcounter : 0 < w.counter)
    : Phase w (.popTask (passOf false))
  | queued (hbackend : Backend w.fd w.poll [iov] handleNotify true [0]) (hreg : Registered w.fd w.poll)
      (hcounter : 0 < w.counter)
    : Phase w (.readyTasks 1)
  | readingReady (hbackend : Backend w.fd w.poll [iov] handleNotify true [0]) (hreg : Registered w.fd w.poll)
      (hcounter : 0 < w.counter)
    : Phase w (.readTask (passOf true))
  | notified (b : Bool) (hbackend : Backend w.fd w.poll [iov] handleNotify false (readyOf b))
      (hreg : Registered w.fd w.poll) (hedge : w.EdgeQueued)
    : Phase w (.callback (passOf b) (.read handleNotify) 8)
  | handling (b : Bool) (hbackend : Backend w.fd w.poll [iov] handleNotify false (readyOf b))
      (hreg : Registered w.fd w.poll) (hsettled : w.Settled) (hedge : w.EdgeQueued)
    : Phase w (.handler (passOf b))
  | handled (b : Bool) (hbackend : Backend w.fd w.poll [iov, iov] handleNotify false (readyOf b))
      (hreg : Registered w.fd w.poll) (hsettled : w.Settled) (hedge : w.EdgeQueued)
    : Phase w (.popTask (passOf b))

structure Armed (w : Notifier) : Prop where
  phase : Phase w w.pc
  log : LogOk w.log

theorem start_armed (num counter : Nat)
    : (start num counter).Armed := by
  obtain ⟨hbackend, hreg, hpc, hlog⟩ := start_backend num counter
  constructor
  . rw [hpc]
    exact .started hbackend hreg (by simp [Settled, hlog, stage]) (by simp [hlog])
  . rw [hlog]
    exact ⟨by simp, by simp⟩

/-! ### `notify` -/

-- A write leaves the thread of the loop where it is.
theorem Armed.notify (h : w.Armed)
    : w.notify.Armed := by
  unfold Notifier.notify
  split
  . have hlog : LogOk (w.log ++ [Entry.notifies]) := h.log.append nofun nofun
    have hphase := h.phase
    obtain ⟨fd, poll, counter, edge, pc, log⟩ := w
    have hsettled : ∀ {w : Notifier} {counter edge pc}, w.Settled
        → Settled { w with counter := counter + 1, edge, pc, log := w.log ++ [Entry.notifies] } := by
      intro w counter edge pc hw
      simp only [Settled, stage_append, stageStep] at hw ⊢
      omega
    refine ⟨?_, hlog⟩
    dsimp only at hphase ⊢
    have hmarked : Registered fd poll → (edge || Notifier.isRegistered ⟨fd, poll, counter, edge, pc, log⟩) = true := by
      intro hreg
      rw [show Notifier.isRegistered ⟨fd, poll, counter, edge, pc, log⟩ = true from hreg.isSome, Bool.or_true]
    cases hphase with
    | started hbackend hreg hs hfirst => exact .started hbackend hreg (hsettled hs) (by simpa [addLog] using hfirst)
    | outside k hbackend hreg hs hedge =>
      exact .outside k hbackend hreg (hsettled hs) fun _ => hmarked hreg
    | waiting k hbackend hreg hs hedge =>
      exact .waiting k hbackend hreg (hsettled hs) fun _ => hmarked hreg
    | done k hbackend hreg hs hedge =>
      exact .done k hbackend hreg (hsettled hs) fun _ => hmarked hreg
    | reported k hbackend hreg hcounter => exact .reported k hbackend hreg (Nat.succ_pos _)
    | reading k hbackend hreg hcounter => exact .reading k hbackend hreg (Nat.succ_pos _)
    | probing hbackend hreg hcounter => exact .probing hbackend hreg (Nat.succ_pos _)
    | probed hbackend hreg hcounter => exact .probed hbackend hreg (Nat.succ_pos _)
    | queued hbackend hreg hcounter => exact .queued hbackend hreg (Nat.succ_pos _)
    | readingReady hbackend hreg hcounter => exact .readingReady hbackend hreg (Nat.succ_pos _)
    | notified b hbackend hreg hedge =>
      exact .notified b hbackend hreg fun _ => hmarked hreg
    | handling b hbackend hreg hs hedge =>
      exact .handling b hbackend hreg (hsettled hs) fun _ => hmarked hreg
    | handled b hbackend hreg hs hedge =>
      exact .handled b hbackend hreg (hsettled hs) fun _ => hmarked hreg
  . exact h

/-! ### The thread of the loop -/

-- The steps of the thread of the loop until `dispatch` returns.
def rank : Pc → Nat
  | .outside | .faulted _ => 0
  | .readyTasks left => 1 + 5 * left
  | .popTask p => if p.ready.isSome then 2 else 7
  | .handler p => if p.ready.isSome then 3 else 8
  | .callback p _ _ => if p.ready.isSome then 4 else 9
  | .readTask p => if p.ready.isSome then 5 else 10
  | .reported _ => 11
  | .waiting => 12

theorem Armed.applyChanges (h : w.Armed) (hpc : w.pc = .outside)
    : w.applyChanges.Armed := by
  refine ⟨?_, h.log⟩
  have hphase := h.phase
  rw [hpc] at hphase
  cases hphase with
  | started hbackend hreg hsettled hfirst =>
    obtain ⟨hbackend', hreg'⟩ := hreg.applyChanges hbackend
    refine .waiting .probe hbackend' hreg' hsettled ?_
    intro hcounter
    obtain ⟨mask, hinterest, -⟩ := hreg'.interest
    simp [Notifier.applyChanges, Notifier.isRegistered, Source.isRegistered, Source.poll, Source.fd, hinterest,
      hreg.interest]
    exact .inr hcounter
  | outside k hbackend hreg hsettled hedge =>
    have hpoll := hreg.applyChanges
    refine .waiting k ?_ ?_ hsettled ?_
    . change Backend w.fd w.poll.applyChanges _ _ _ _
      rw [hpoll]
      exact hbackend
    . change Registered w.fd w.poll.applyChanges
      rw [hpoll]
      exact hreg
    . intro hcounter
      simp [Notifier.applyChanges, hedge hcounter]

-- An event that is not reported belongs to a counter that is zero.
theorem Armed.epollWait (h : w.Armed) (hpc : w.pc = .waiting) (turn : Turn)
    : (w.epollWait turn).Armed ∧ rank (w.epollWait turn).pc < rank w.pc := by
  have hphase := h.phase
  rw [hpc] at hphase
  cases hphase with
  | waiting k hbackend hreg hsettled hedge =>
    obtain ⟨mask, hinterest, hmask⟩ := hreg.interest
    have hready : w.poll.readyEvents.length = 0 := by rw [hbackend.readyEvents]; rfl
    unfold Notifier.epollWait
    split
    . refine ⟨⟨.outside k hbackend hreg ?_ hedge, h.log.append nofun fun _ => hsettled.1⟩, by simp [hpc, rank]⟩
      simpa [Settled, addLog, stageStep] using hsettled
    . split
      . rw [hready]
        exact ⟨⟨.done k hbackend hreg hsettled hedge, h.log⟩, by simp [hpc, rank]⟩
      . dsimp only
        rw [hinterest, hready]
        dsimp only
        have hlog : LogOk (w.log ++ [Entry.harvests]) := h.log.append nofun nofun
        split
        . rename_i hreported
          exact ⟨⟨.reported k hbackend hreg hreported.2.1, hlog⟩, by simp [hpc, rank]⟩
        . rename_i hnot
          have hzero : w.counter = 0 := by
            by_contra hpos
            have hcounter : 0 < w.counter := Nat.pos_of_ne_zero hpos
            exact hnot ⟨hedge hcounter, hcounter, hmask⟩
          refine ⟨⟨.done k hbackend hreg ?_ ?_, hlog⟩, by simp [hpc, rank]⟩
          . have hstage : stage w.log = 0 := by
              have := hsettled.1
              have := hsettled.2
              omega
            simp [Settled, addLog, stageStep, hstage]
          . intro hcounter
            change 0 < w.counter at hcounter
            omega

theorem handleEvents_eq {buf : List Iovec} (h : Backend w.fd w.poll [buf] cb true ready) (r : Option Nat)
    : w.handleEvents 0 r = { w with pc := .readTask ⟨0, r, 1⟩ } := by
  obtain ⟨t, ts, htask, hts⟩ := h.pop
  have hlen := congrArg List.length h.pending
  rw [List.length_map] at hlen
  unfold Notifier.handleEvents
  simp only [Epoll.action, h.isReadable, hlen]
  rw [if_pos ⟨trivial, by rw [htask]; exact List.cons_ne_nil _ _⟩]
  rfl

theorem Armed.setReadyEvents (h : w.Armed) {id : Nat} (hpc : w.pc = .reported id)
    : (w.setReadyEvents id).Armed ∧ rank (w.setReadyEvents id).pc < rank w.pc := by
  have hphase := h.phase
  rw [hpc] at hphase
  cases hphase with
  | reported k hbackend hreg hcounter =>
    have hbackend' := hbackend.setReadable (f := fun _ => true) rfl
    unfold Notifier.setReadyEvents
    rw [handleEvents_eq (w := w.modifyAction 0 fun a => { a with isReadable := true }) hbackend']
    exact ⟨⟨.reading k hbackend' ⟨hreg.changes, hreg.interest⟩ hcounter, h.log⟩, by simp [hpc, rank]⟩

-- `readv` gives the counter, whatever interrupts it before.
theorem readFd_answers (hcounter : 0 < w.counter) (intrs : Nat)
    : ∃ sys, FdIo.EventFd.readFd iov (w.readAnswers intrs) = .done ⟨8, true, iov, [(iov, 8)]⟩ sys := by
  refine ⟨[], ?_⟩
  have hgo : FdIo.readRecord.go 8 iov (w.readAnswers intrs) = .done ⟨8, true, iov, [(iov, 8)]⟩ [] := by
    unfold readAnswers
    induction intrs with
    | zero => simp [hcounter, FdIo.readRecord.go]
    | succ intrs ih => simpa [List.replicate_succ, FdIo.readRecord.go] using ih
  exact hgo

theorem call_eq (h : Backend w.fd w.poll pend cb readable ready) {p : Pass} (hp : p.id = 0) (ret : Int)
    : w.call p ret = { w.addLog (.calls ret) with pc := .callback p (.read cb) ret } := by
  unfold Notifier.call
  rw [hp]
  simp only [Epoll.action, h.callback]

-- The read of the counter.
theorem Armed.doReadTask_read {b : Bool} (hlog : LogOk w.log)
    (hbackend : Backend w.fd w.poll [iov] handleNotify true (readyOf b)) (hreg : Registered w.fd w.poll)
    (hcounter : 0 < w.counter) (intrs : Nat)
    : (w.doReadTask (passOf b) intrs).Armed
      ∧ rank (w.doReadTask (passOf b) intrs).pc < rank (.readTask (passOf b)) := by
  obtain ⟨t, ts, htask, -⟩ := hbackend.pop
  have hbuffer : t.buffer = iov := by
    have := hbackend.pending
    rw [htask] at this
    exact (List.cons.inj this).1
  obtain ⟨sys, hread⟩ := readFd_answers hcounter intrs
  have hread' : readIov (w.poll.action 0).readOp false t.buffer (w.readAnswers intrs)
      = .done ⟨8, true, iov, [(iov, 8)]⟩ sys := by
    rw [hbuffer]
    simp only [EventAction.readOp, Epoll.action, hbackend.ops, Option.map_some, readIov]
    exact hread
  have hbackend' := hbackend.setReadable (f := fun a => a.isReadable && !true) (b := false) (by simp)
  have heq : w.doReadTask (passOf b) intrs
      = ({ w with counter := 0 }.modifyAction 0 fun a => { a with isReadable := a.isReadable && !true }).call
        (passOf b) 8 := by
    unfold Notifier.doReadTask
    have htask' : (w.poll.action (passOf b).id).pendingReadTask = t :: ts := htask
    rw [htask']
    dsimp only
    rw [if_neg (by rw [hbuffer]; exact List.cons_ne_nil _ _)]
    have hid : (passOf b).id = 0 := rfl
    rw [hid, hread']
    simp
  rw [heq, call_eq hbackend' rfl]
  refine ⟨⟨?_, hlog.append (by simp) (by simp)⟩, by cases b <;> simp [rank, passOf]⟩
  exact .notified b hbackend' ⟨hreg.changes, hreg.interest⟩ fun hpos => absurd hpos (Nat.lt_irrefl 0)

theorem Armed.doReadTask (h : w.Armed) {p : Pass} (hpc : w.pc = .readTask p) (intrs : Nat)
    : (w.doReadTask p intrs).Armed ∧ rank (w.doReadTask p intrs).pc < rank w.pc := by
  have hphase := h.phase
  rw [hpc] at hphase ⊢
  cases hphase with
  | reading k hbackend hreg hcounter =>
    cases k with
    | probe =>
      obtain ⟨t, ts, htask, -⟩ := hbackend.pop
      have hbuffer : t.buffer = [] := by
        have := hbackend.pending
        rw [htask] at this
        exact (List.cons.inj this).1
      have heq : w.doReadTask (passOf false) intrs = w.call (passOf false) 0 := by
        unfold Notifier.doReadTask
        have htask' : (w.poll.action (passOf false).id).pendingReadTask = t :: ts := htask
        rw [htask']
        dsimp only
        rw [if_pos hbuffer]
      rw [heq, call_eq hbackend rfl]
      exact ⟨⟨.probing hbackend hreg hcounter, h.log.append (by simp) nofun⟩, by simp [rank, passOf]⟩
    | read => exact doReadTask_read (b := false) h.log hbackend hreg hcounter intrs
  | readingReady hbackend hreg hcounter => exact doReadTask_read (b := true) h.log hbackend hreg hcounter intrs

-- A new read is submitted, the notifier does not assert.
theorem submitReadRequest_eq (h : Backend w.fd w.poll pend cb readable ready) (hreg : Registered w.fd w.poll)
    (cb' : Option Callback) (next : Pc)
    : ∃ poll, w.submitReadRequest cb' next = { w with poll, pc := next }
      ∧ Backend w.fd poll (pend ++ [iov]) (cb'.getD cb) readable (ready ++ if readable then [0] else [])
      ∧ Registered w.fd poll := by
  obtain ⟨poll, hsubmit, hbackend, hkernel, hchanges⟩ := h.submitAsyncRead iov cb' none rfl
  refine ⟨poll, ?_, hbackend, ?_, ?_⟩
  . simp [Notifier.submitReadRequest, Notifier.submitAsyncRead, Source.submitAsyncRead, Source.poll, Source.fd,
      Source.setPoll, hsubmit]
  . rw [hchanges]
    exact hreg.changes
  . rw [hkernel]
    exact hreg.interest

theorem Armed.callback (h : w.Armed) {p : Pass} {cb : ReadCallback} {ret : Int} (hpc : w.pc = .callback p cb ret)
    : (w.callback p cb ret).Armed ∧ rank (w.callback p cb ret).pc < rank w.pc := by
  have hphase := h.phase
  rw [hpc] at hphase ⊢
  cases hphase with
  | probing hbackend hreg hcounter =>
    unfold Notifier.callback
    rw [if_pos rfl, if_neg (by decide)]
    obtain ⟨poll, heq, hbackend', hreg'⟩ := submitReadRequest_eq hbackend hreg (some handleNotify)
      (.popTask (passOf false))
    rw [heq]
    exact ⟨⟨.probed hbackend' hreg' hcounter, h.log⟩, by simp [rank, passOf]⟩
  | notified b hbackend hreg hedge =>
    unfold Notifier.callback
    rw [if_neg (by decide), if_neg (by decide)]
    refine ⟨⟨.handling b hbackend hreg ?_ hedge, h.log.append nofun nofun⟩, by cases b <;> simp [rank, passOf]⟩
    simp [Settled, addLog, stageStep]

theorem Armed.handler (h : w.Armed) {p : Pass} (hpc : w.pc = .handler p)
    : (w.submitReadRequest none (.popTask p)).Armed ∧ rank (w.submitReadRequest none (.popTask p)).pc < rank w.pc := by
  have hphase := h.phase
  rw [hpc] at hphase ⊢
  cases hphase with
  | handling b hbackend hreg hsettled hedge =>
    obtain ⟨poll, heq, hbackend', hreg'⟩ := submitReadRequest_eq hbackend hreg none (.popTask (passOf b))
    rw [heq]
    have hready : readyOf b ++ (if false then [0] else []) = readyOf b := by simp
    exact ⟨⟨.handled b (hready ▸ hbackend') hreg' hsettled hedge, h.log⟩, by cases b <;> simp [rank, passOf]⟩

theorem endPass_none {n : Nat} (h : Backend w.fd w.poll pend cb readable ready) (hn : ready.length = n)
    : w.endPass (passOf false).ready = { w with pc := .readyTasks n } := by
  change { w with pc := .readyTasks w.poll.readyEvents.length } = _
  rw [h.readyEvents, hn]

theorem Armed.popReadTask (h : w.Armed) {p : Pass} (hpc : w.pc = .popTask p)
    : (w.popReadTask p).Armed ∧ rank (w.popReadTask p).pc < rank w.pc := by
  have hphase := h.phase
  rw [hpc] at hphase ⊢
  have heq : ∀ {b : Bool} {t : Task} {ts : List Task}, (w.poll.infos 0).action.pendingReadTask = t :: ts
      → w.popReadTask (passOf b)
        = (w.modifyAction 0 fun a => { a with pendingReadTask := ts }).endPass (passOf b).ready := by
    intro b t ts htask
    unfold Notifier.popReadTask
    have htask' : (w.poll.action (passOf b).id).pendingReadTask = t :: ts := htask
    rw [htask']
    rfl
  cases hphase with
  | probed hbackend hreg hcounter =>
    obtain ⟨t, ts, htask, hbackend'⟩ := hbackend.pop
    rw [heq htask, endPass_none (w := w.modifyAction 0 fun a => { a with pendingReadTask := ts }) hbackend' rfl]
    exact ⟨⟨.queued hbackend' ⟨hreg.changes, hreg.interest⟩ hcounter, h.log⟩, by simp [rank, passOf]⟩
  | handled b hbackend hreg hsettled hedge =>
    obtain ⟨t, ts, htask, hbackend'⟩ := hbackend.pop
    rw [heq htask]
    cases b with
    | false =>
      rw [endPass_none (w := w.modifyAction 0 fun a => { a with pendingReadTask := ts }) hbackend' rfl]
      exact ⟨⟨.done .read hbackend' ⟨hreg.changes, hreg.interest⟩ hsettled hedge, h.log⟩,
        by simp [rank, passOf, readyOf]⟩
    | true =>
      exact ⟨⟨.done .read hbackend'.popReady ⟨hreg.changes, hreg.interest⟩ hsettled hedge, h.log⟩,
        by simp [rank, passOf, endPass]⟩

theorem Armed.doReadyTasks (h : w.Armed) {left : Nat} (hpc : w.pc = .readyTasks left)
    : (w.doReadyTasks left).Armed ∧ rank (w.doReadyTasks left).pc < rank w.pc := by
  have hphase := h.phase
  rw [hpc] at hphase ⊢
  cases hphase with
  | done k hbackend hreg hsettled hedge =>
    refine ⟨⟨?_, h.log.append nofun fun _ => hsettled.1⟩, by simp [rank, Notifier.doReadyTasks]⟩
    refine .outside k ?_ ⟨hreg.changes, hreg.interest⟩ ?_ hedge
    . exact ⟨hbackend.num, hbackend.type, hbackend.inited, hbackend.known, hbackend.watched, hbackend.reading,
        hbackend.ops, hbackend.pending, hbackend.nonSubmit, hbackend.callback, hbackend.isReadable,
        hbackend.readyEvents⟩
    . simpa [Settled, Notifier.doReadyTasks, addLog, stageStep] using hsettled
  | queued hbackend hreg hcounter =>
    unfold Notifier.doReadyTasks
    rw [hbackend.readyEvents]
    dsimp only
    rw [handleEvents_eq hbackend]
    exact ⟨⟨.readingReady hbackend hreg hcounter, h.log⟩, by simp [rank]⟩

theorem Armed.tick (h : w.Armed) (turn : Turn)
    : (w.tick turn).Armed ∧ (w.pc ≠ .outside → rank (w.tick turn).pc < rank w.pc) := by
  unfold Notifier.tick
  split
  . rename_i hpc
    exact ⟨h.applyChanges hpc, fun hne => absurd hpc hne⟩
  . rename_i hpc
    obtain ⟨h', hlt⟩ := h.epollWait hpc turn
    exact ⟨h', fun _ => hlt⟩
  . rename_i hpc
    obtain ⟨h', hlt⟩ := h.setReadyEvents hpc
    exact ⟨h', fun _ => hlt⟩
  . rename_i hpc
    obtain ⟨h', hlt⟩ := h.doReadTask hpc turn.intrs
    exact ⟨h', fun _ => hlt⟩
  . rename_i hpc
    obtain ⟨h', hlt⟩ := h.callback hpc
    exact ⟨h', fun _ => hlt⟩
  . rename_i hpc
    obtain ⟨h', hlt⟩ := h.handler hpc
    exact ⟨h', fun _ => hlt⟩
  . rename_i hpc
    obtain ⟨h', hlt⟩ := h.popReadTask hpc
    exact ⟨h', fun _ => hlt⟩
  . rename_i hpc
    obtain ⟨h', hlt⟩ := h.doReadyTasks hpc
    exact ⟨h', fun _ => hlt⟩
  . rename_i hpc
    have hphase := h.phase
    rw [hpc] at hphase
    cases hphase

theorem Armed.step (h : w.Armed) (a : Action)
    : (w.step a).Armed := by
  cases a with
  | notify => exact h.notify
  | tick turn => exact (h.tick turn).1

theorem Armed.run (h : w.Armed) (as : List Action)
    : (run w as).Armed :=
  foldl_invariant (I := Armed) as (fun _ a _ h => h.step a) h

/-! ### Every `notify` is followed by a handler -/

theorem stage_append_of_not_handles {l l' : List Entry} (h : .handles ∉ l')
    : stage l ≤ stage (l ++ l') := by
  induction l' generalizing l with
  | nil => simp
  | cons e l' ih =>
    rw [List.mem_cons, not_or] at h
    have hstep : stage l ≤ stage (l ++ [e]) := by
      rw [stage_append]
      cases e with
      | handles => exact absurd rfl h.1
      | notifies => exact Nat.le_max_left _ _
      | harvests =>
        simp only [stageStep]
        split <;> omega
      | calls ret => exact Nat.le_refl _
      | returns => exact Nat.le_refl _
    have hrest := ih (l := l ++ [e]) h.2
    rw [List.append_assoc] at hrest
    exact Nat.le_trans hstep hrest

-- A `notify` and then `epoll_wait`, without a handler.
theorem two_le_stage {a b c : List Entry} (hb : .handles ∉ b) (hc : .handles ∉ c)
    : 2 ≤ stage (a ++ [Entry.notifies] ++ b ++ [Entry.harvests] ++ c) := by
  have hnotify : 1 ≤ stage (a ++ [Entry.notifies]) := by
    rw [stage_append]
    exact Nat.le_max_right _ _
  have hbefore := stage_append_of_not_handles (l := a ++ [Entry.notifies]) hb
  have hafter := stage_append_of_not_handles (l := a ++ [Entry.notifies] ++ b ++ [Entry.harvests]) hc
  have hharvest : 2 ≤ stage (a ++ [Entry.notifies] ++ b ++ [Entry.harvests]) := by
    rw [stage_append]
    simp only [stageStep]
    split <;> omega
  exact Nat.le_trans hharvest hafter

theorem LogOk.handles_mem {l a b c d : List Entry} (h : LogOk l)
    (heq : l = a ++ [Entry.notifies] ++ b ++ [Entry.harvests] ++ c ++ .returns :: d)
    : .handles ∈ b ++ c := by
  by_contra hnot
  rw [List.mem_append, not_or] at hnot
  have hle := h.returns _ _ heq
  have htwo := two_le_stage (a := a) hnot.1 hnot.2
  omega

def ticks (n : Nat) : List Action :=
  List.replicate n (.tick {})

theorem run_append (w : Notifier) (as bs : List Action)
    : run w (as ++ bs) = run (run w as) bs :=
  List.foldl_append

-- `dispatch` returns.
theorem Armed.exists_outside (h : w.Armed)
    : ∃ n, (Notifier.run w (ticks n)).pc = .outside := by
  induction hn : rank w.pc using Nat.strongRecOn generalizing w with
  | ind n ih =>
    by_cases hpc : w.pc = .outside
    . exact ⟨0, hpc⟩
    . obtain ⟨h', hlt⟩ := h.tick {}
      obtain ⟨m, hm⟩ := ih _ (hn ▸ hlt hpc) h' rfl
      exact ⟨m + 1, hm⟩

theorem Armed.settled (h : w.Armed) (hpc : w.pc = .outside)
    : w.Settled := by
  have hphase := h.phase
  rw [hpc] at hphase
  cases hphase with
  | started hbackend hreg hsettled hfirst => exact hsettled
  | outside k hbackend hreg hsettled hedge => exact hsettled

theorem submitAsyncRead_log (w : Notifier) (buf : UserBuf) (cb : Option Callback)
    : (w.submitAsyncRead buf cb).log = w.log := by
  unfold submitAsyncRead Source.submitAsyncRead
  split
  . split <;> rfl
  . rfl

theorem submitReadRequest_log (w : Notifier) (cb : Option Callback) (next : Pc)
    : (w.submitReadRequest cb next).log = w.log :=
  submitAsyncRead_log ..

theorem call_log (w : Notifier) (p : Pass) (ret : Int)
    : w.log <+: (w.call p ret).log := by
  unfold call
  split
  . exact List.prefix_append _ _
  . exact List.prefix_rfl

theorem handleEvents_log (w : Notifier) (id : Nat) (r : Option Nat)
    : (w.handleEvents id r).log = w.log := by
  unfold handleEvents endPass
  dsimp only
  split
  . rfl
  . cases r <;> rfl

theorem doReadTask_log (w : Notifier) (p : Pass) (intrs : Nat)
    : w.log <+: (w.doReadTask p intrs).log := by
  unfold doReadTask
  split
  . exact List.prefix_rfl
  . split
    . exact call_log w p 0
    . split
      . dsimp only
        split
        . exact List.prefix_rfl
        . refine List.IsPrefix.trans ?_ (call_log _ p _)
          exact List.prefix_rfl
      . exact List.prefix_rfl
      . exact List.prefix_rfl

theorem step_log (w : Notifier) (a : Action)
    : w.log <+: (w.step a).log := by
  cases a with
  | notify =>
    dsimp only [step, notify]
    split
    . exact List.prefix_append _ _
    . exact List.prefix_rfl
  | tick turn =>
    dsimp only [step]
    unfold tick
    split
    . exact List.prefix_rfl
    . unfold epollWait
      dsimp only
      repeat' split
      all_goals first | exact List.prefix_append _ _ | exact List.prefix_rfl
    . exact (handleEvents_log (w.modifyAction _ _) _ none) ▸ List.prefix_rfl
    . exact doReadTask_log ..
    . unfold callback
      repeat' split
      . exact List.prefix_rfl
      . rw [submitReadRequest_log]
      . exact List.prefix_rfl
      . exact List.prefix_append _ _
    . rw [submitReadRequest_log]
    . unfold popReadTask endPass
      dsimp only
      repeat' split
      all_goals exact List.prefix_rfl
    . unfold doReadyTasks
      repeat' split
      . exact List.prefix_append _ _
      . rw [handleEvents_log]
      . exact List.prefix_rfl
    . exact List.prefix_rfl

theorem run_log (w : Notifier) (as : List Action)
    : w.log <+: (run w as).log := by
  induction as generalizing w with
  | nil => exact List.prefix_rfl
  | cons a as ih => exact (step_log w a).trans (ih (w.step a))

-- A `dispatch` that begins reports an event that is queued.
theorem ticks_harvests (hpc : w.pc = .outside)
    : (Notifier.run w (ticks 2)).log = w.log ++ [Entry.harvests] := by
  have hwait : (w.tick {}).pc = .waiting := by simp [Notifier.tick, hpc, Notifier.applyChanges]
  have hlog : (w.tick {}).log = w.log := by simp [Notifier.tick, hpc, Notifier.applyChanges]
  change ((w.tick {}).tick {}).log = _
  rw [← hlog]
  generalize w.tick {} = w₁ at *
  simp only [Notifier.tick, hwait]
  unfold Notifier.epollWait
  dsimp only
  repeat' split
  all_goals first | rfl | contradiction

theorem Armed.exists_handles (h : w.Armed) (hcounter : w.counter < MAX_COUNTER)
    : ∃ n l, (Notifier.run w (.notify :: ticks n)).log = w.log ++ Entry.notifies :: l ∧ Entry.handles ∈ l := by
  have hnotify : (w.step .notify).log = w.log ++ [Entry.notifies] := by
    simp [Notifier.step, Notifier.notify, hcounter, addLog]
  have h₁ := h.step .notify
  generalize hw₁ : w.step .notify = w₁ at *
  obtain ⟨n₁, hpc₂⟩ := h₁.exists_outside
  have h₂ := h₁.run (ticks n₁)
  obtain ⟨b, hb⟩ := run_log w₁ (ticks n₁)
  have hharvest := ticks_harvests hpc₂
  have h₃ := h₂.run (ticks 2)
  obtain ⟨n₂, hpc₄⟩ := h₃.exists_outside
  obtain ⟨c, hc⟩ := run_log (Notifier.run (Notifier.run w₁ (ticks n₁)) (ticks 2)) (ticks n₂)
  have h₄ := h₃.run (ticks n₂)
  have hticks : ticks (n₁ + 2 + n₂) = ticks n₁ ++ ticks 2 ++ ticks n₂ := by
    simp only [ticks, List.replicate_append_replicate]
  refine ⟨n₁ + 2 + n₂, b ++ [Entry.harvests] ++ c, ?_, ?_⟩
  . change (Notifier.run (w.step .notify) _).log = _
    rw [hw₁, hticks, run_append, run_append, ← hc, hharvest, ← hb, hnotify]
    simp
  . by_contra hnot
    simp only [List.mem_append, not_or] at hnot
    have htwo := two_le_stage (a := w.log) hnot.1.1 hnot.2
    have hle := (h₄.settled hpc₄).1
    rw [← hc, hharvest, ← hb, hnotify] at hle
    omega

/--
A started notifier has one task pending between two calls of `dispatch`, an event is queued whenever its counter is
positive, its callback gets no error, and every `notify` is followed by a handler.
-/
theorem run_notified (num counter : Nat) (as : List Action)
    : let w := run (start num counter) as
      (w.pc = .outside → ∃ id, w.poll.fdToEventInfo w.fd.key = some id
          ∧ (w.poll.action id).pendingReadTask.length = 1 ∧ (w.poll.action id).nonSubmitReadTask = [])
        ∧ (w.pc = .outside → Entry.returns ∈ w.log → 0 < w.counter → w.edge)
        ∧ (∀ ret, .calls ret ∈ w.log → 0 ≤ ret)
        ∧ (∀ f, w.pc ≠ .faulted f)
        ∧ (∀ a b c d, w.log = a ++ [Entry.notifies] ++ b ++ [Entry.harvests] ++ c ++ Entry.returns :: d
          → Entry.handles ∈ b ++ c)
        ∧ (w.counter < MAX_COUNTER
          → ∃ n l, (run w (.notify :: ticks n)).log = w.log ++ Entry.notifies :: l ∧ Entry.handles ∈ l) := by
  have h := (start_armed num counter).run as
  generalize run (start num counter) as = w at *
  refine ⟨?_, ?_, h.log.calls, ?_, fun a b c d heq => h.log.handles_mem heq, h.exists_handles⟩
  . intro hpc
    have hphase := h.phase
    rw [hpc] at hphase
    cases hphase with
    | started hbackend hreg hsettled hfirst =>
      exact ⟨0, hbackend.known, hbackend.length, hbackend.nonSubmit⟩
    | outside k hbackend hreg hsettled hedge =>
      exact ⟨0, hbackend.known, hbackend.length, hbackend.nonSubmit⟩
  . intro hpc hreturns hcounter
    have hphase := h.phase
    rw [hpc] at hphase
    cases hphase with
    | started hbackend hreg hsettled hfirst => exact absurd hreturns hfirst
    | outside k hbackend hreg hsettled hedge => exact hedge hcounter
  . intro f hpc
    have hphase := h.phase
    rw [hpc] at hphase
    cases hphase

end Notifier

end Event
end Ezio
