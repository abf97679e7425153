import Ezio.Event.Inotify.Read
import Ezio.Event.Epoll.Lemmas.Reader

/-!
This module contains the states that a started `inotify` goes through. A read is pending and every event that has left
the kernel has been delivered, as long as the events that a read finds fit in the buffer.
-/

namespace Ezio
namespace Event
namespace Inotify

variable {w : Inotify} {pend : List (List Iovec)} {cb : Callback} {readable : Bool} {ready : List Nat} {cs : List Call}
  {isEventTriggered : Bool} {size : UInt32}

abbrev Backend : Fd → Epoll → List (List Iovec) → Callback → Bool → List Nat → Prop :=
  Reader .inotify ⟨.inotify, .none⟩

-- Every event that has been taken from the kernel has been delivered in order.
def Accounted (w : Inotify) : Prop :=
  ∃ taken, w.arrived = taken ++ w.queue ∧ w.called = taken.filterMap fun e => w.watchFdToCb e.wd

structure Delivers (w : Inotify) : Prop where
  faulted : w.faulted = none
  accounted : w.Accounted
  -- A read is pending, and it is made if there are events left.
  armed : ∃ id, w.poll.fdToEventInfo w.fd.key = some id ∧ (w.poll.action id).pendingReadTask.length = 1
    ∧ (w.isRegistered → w.queue ≠ [] → w.edge ∨ id ∈ w.poll.readyEvents ∧ (w.poll.action id).isReadable)

def reads (w : Inotify) (id : Nat) : Bool :=
  (w.poll.action id).pendingReadTask.any fun t => t.buffer ≠ []

-- The calls of `readv` if the step calls `read_fd`.
def readCalls (w : Inotify) : Action → Option (List Call)
  | .report cs =>
    match w.poll.kernel.interest w.fd.key with
    | some (mask, id) => if w.edge ∧ w.queue ≠ [] ∧ mask.read ∧ w.reads id then some cs else none
    | none => none
  | .ready cs =>
    match w.poll.readyEvents with
    | id :: _ => if (w.poll.action id).isReadable ∧ w.reads id then some cs else none
    | [] => none
  | .arrive _ | .apply => none

-- The events that `read_fd` finds fit in the buffer, and their size fits in the result.
def FitsBuffer (w : Inotify) (cs : List Call) : Prop :=
  Fits w.bufferSize.toNat w.queue cs ∧ total (serve w.bufferSize.toNat w.queue (cs ++ quiet)).taken < 2 ^ 31

def StepFits (w : Inotify) (a : Action) : Prop :=
  ∀ cs, w.readCalls a = some cs → w.FitsBuffer cs

instance (w : Inotify) (cs : List Call) : Decidable (w.FitsBuffer cs) :=
  inferInstanceAs (Decidable (_ ∧ _))

instance (w : Inotify) (a : Action) : Decidable (w.StepFits a) :=
  decidable_of_iff (∀ cs ∈ w.readCalls a, w.FitsBuffer cs) Iff.rfl

inductive Phase (w : Inotify) : Prop
  | unregistered (hbackend : Backend w.fd w.poll [[]] handleEventReady false []) (hreg : Unregistered w.fd w.poll)
  -- only readability is asked for
  | probing (hbackend : Backend w.fd w.poll [[]] handleEventReady false []) (hreg : Registered w.fd w.poll)
      (hedge : w.queue ≠ [] → w.edge)
  | idle (ready : List Nat) (hbackend : Backend w.fd w.poll [w.iov] handleNotifyCb false ready)
      (hreg : Registered w.fd w.poll) (hready : ∀ id ∈ ready, id = 0) (hsize : 0 < w.bufferSize.toNat)
      (hedge : w.queue ≠ [] → w.edge)
  | readable (ready : List Nat) (hbackend : Backend w.fd w.poll [w.iov] handleNotifyCb true ready)
      (hreg : Registered w.fd w.poll) (hready : ∀ id ∈ ready, id = 0) (hsize : 0 < w.bufferSize.toNat)
      (hne : ready ≠ [])

structure Good (size : UInt32) (w : Inotify) : Prop where
  faulted : w.faulted = none
  accounted : w.Accounted
  bufferSize : w.bufferSize = size
  sized : w.arrived ≠ [] → 0 < w.bufferSize.toNat
  phase : Phase w

theorem Good.delivers (h : w.Good size)
    : w.Delivers := by
  refine ⟨h.faulted, h.accounted, 0, ?_⟩
  cases h.phase with
  | unregistered hbackend hreg =>
    refine ⟨hbackend.known, hbackend.length, ?_⟩
    intro hregistered
    have hnone : w.isRegistered = (none : Option (Mask × Nat)).isSome := congrArg Option.isSome hreg.interest
    rw [hnone] at hregistered
    cases hregistered
  | probing hbackend hreg hedge => exact ⟨hbackend.known, hbackend.length, fun _ h => .inl (hedge h)⟩
  | idle ready hbackend hreg hready hsize hedge => exact ⟨hbackend.known, hbackend.length, fun _ h => .inl (hedge h)⟩
  | readable ready hbackend hreg hready hsize hne =>
    refine ⟨hbackend.known, hbackend.length, fun _ _ => .inr ⟨?_, hbackend.isReadable⟩⟩
    rw [hbackend.readyEvents]
    obtain ⟨id, hid⟩ := List.exists_mem_of_ne_nil ready hne
    exact hready id hid ▸ hid

theorem Good.size_of_queue (h : w.Good size) (hqueue : w.queue ≠ [])
    : 0 < w.bufferSize.toNat := by
  apply h.sized
  obtain ⟨taken, harrived, -⟩ := h.accounted
  rw [harrived]
  exact List.append_ne_nil_of_right_ne_nil taken hqueue

theorem start_good (num : Nat) (bufferSize : UInt32) (watchFdToCb : UInt32 → Option Callback)
    : (start num bufferSize watchFdToCb).Good bufferSize := by
  refine ⟨rfl, ⟨[], rfl, rfl⟩, rfl, fun h => absurd rfl h, .unregistered ?_ ⟨rfl, rfl, rfl, rfl, rfl, rfl⟩⟩
  refine ⟨Int.natCast_nonneg num, rfl, rfl, ?_, rfl, rfl, rfl, rfl, rfl, rfl, rfl, rfl⟩
  exact Function.update_self ..

/-! ### The steps without a read -/

theorem Accounted.arrive (h : w.Accounted) (es : List InotifyEvent)
    : (w.arrive es).Accounted := by
  obtain ⟨taken, harrived, hcalled⟩ := h
  refine ⟨taken, ?_, hcalled⟩
  rw [Inotify.arrive, ← List.append_assoc, ← harrived]

theorem Good.arrive (h : w.Good size) {es : List InotifyEvent} (hes : ∀ e ∈ es, Inotify.size e ≤ w.bufferSize.toNat)
    : (w.arrive es).Good size := by
  refine ⟨h.faulted, h.accounted.arrive es, h.bufferSize, ?_, ?_⟩
  . intro harrived
    cases es with
    | nil => exact h.sized (by simpa [Inotify.arrive] using harrived)
    | cons e es => exact Nat.lt_of_lt_of_le (size_pos e) (hes e (List.mem_cons_self ..))
  . have hedge : Registered w.fd w.poll → (w.queue ≠ [] → w.edge) → (w.arrive es).queue ≠ [] → (w.arrive es).edge := by
      intro hreg hedge hqueue
      cases es with
      | nil => simpa [Inotify.arrive] using hedge (by simpa [Inotify.arrive] using hqueue)
      | cons e es =>
        simp [Inotify.arrive, Inotify.isRegistered, Source.isRegistered, Source.poll, Source.fd, hreg.isSome]
    cases h.phase with
    | unregistered hbackend hreg => exact .unregistered hbackend hreg
    | probing hbackend hreg hedge' => exact .probing hbackend hreg (hedge hreg hedge')
    | idle ready hbackend hreg hready hsize hedge' => exact .idle ready hbackend hreg hready hsize (hedge hreg hedge')
    | readable ready hbackend hreg hready hsize hne => exact .readable ready hbackend hreg hready hsize hne

theorem Good.applyChanges (h : w.Good size)
    : w.applyChanges.Good size := by
  refine ⟨h.faulted, h.accounted, h.bufferSize, h.sized, ?_⟩
  have hedge : (w.queue ≠ [] → w.edge) → w.queue ≠ [] → w.applyChanges.edge := by
    intro hedge hqueue
    simp [Inotify.applyChanges, hedge hqueue]
  have happly : Registered w.fd w.poll → w.applyChanges.poll = w.poll := fun hreg => hreg.applyChanges
  cases h.phase with
  | unregistered hbackend hreg =>
    obtain ⟨hbackend', hreg'⟩ := hreg.applyChanges hbackend
    refine .probing hbackend' hreg' ?_
    intro hqueue
    have hsome := hreg'.isSome
    have hqueue' : w.queue ≠ [] := hqueue
    simp [Inotify.applyChanges, Inotify.isRegistered, Source.isRegistered, Source.poll, Source.fd, hsome, hreg.interest,
      hqueue']
  | probing hbackend hreg hedge' =>
    rw [← happly hreg] at hbackend hreg
    exact .probing hbackend hreg (hedge hedge')
  | idle ready hbackend hreg hready hsize hedge' =>
    rw [← happly hreg] at hbackend hreg
    exact .idle ready hbackend hreg hready hsize (hedge hedge')
  | readable ready hbackend hreg hready hsize hne =>
    rw [← happly hreg] at hbackend hreg
    exact .readable ready hbackend hreg hready hsize hne

/-! ### A pass of `handle_events` -/

theorem Backend.popReadTask {buf : List Iovec} (h : Backend w.fd w.poll (buf :: pend) cb readable ready)
    (hreg : Registered w.fd w.poll)
    : ∃ poll, Source.popReadTask w 0 = { w with poll } ∧ Backend w.fd poll pend cb readable ready
      ∧ Registered w.fd poll := by
  obtain ⟨t, ts, htask, hbackend⟩ := h.pop
  refine ⟨_, ?_, hbackend, hreg.changes, hreg.interest⟩
  exact Source.popReadTask_cons htask

-- A new read is submitted, the object does not assert.
theorem Backend.submitReadRequest (h : Backend w.fd w.poll pend cb readable ready) (hreg : Registered w.fd w.poll)
    (cb' : Option Callback)
    : ∃ poll, w.submitReadRequest cb' = { w with poll }
      ∧ Backend w.fd poll (pend ++ [w.iov]) (cb'.getD cb) readable (ready ++ if readable then [0] else [])
      ∧ Registered w.fd poll := by
  obtain ⟨poll, hsubmit, hbackend, hkernel, hchanges⟩ := h.submitAsyncRead w.iov cb' (some ⟨some 0, true, false⟩) rfl
  refine ⟨poll, ?_, hbackend, ?_, ?_⟩
  . simp [Inotify.submitReadRequest, Inotify.submitAsyncRead, Source.submitAsyncRead, Source.poll, Source.fd,
      Source.setPoll,
      hsubmit]
  . rw [hchanges]
    exact hreg.changes
  . rw [hkernel]
    exact hreg.interest

theorem modifyAction_id (w : Inotify)
    : (w.modifyAction 0 fun a => a) = w := by
  simp [Inotify.modifyAction, Source.modifyAction, Source.setPoll, Source.poll, Epoll.modifyAction, Epoll.modifyInfo]

-- One task is pending, the pass consists of this task.
theorem Backend.handleEvents_eq {buf : List Iovec} (h : Backend w.fd w.poll [buf] cb true ready)
    (isEventTriggered : Bool) (cs : List Call)
    : ∃ t, t.buffer = buf
      ∧ w.handleEvents 0 isEventTriggered cs
        = Source.popReadTask ((w.doReadTask 0 t isEventTriggered cs).1.modifyAction 0 fun a =>
            if (w.doReadTask 0 t isEventTriggered cs).2 then a.addReadTask t else a) 0 := by
  obtain ⟨t, ts, htask, hbuf, hts⟩ := List.map_eq_cons_iff.mp h.pending
  rw [List.map_eq_nil_iff] at hts
  rw [hts] at htask
  exact ⟨t, hbuf, Source.handleEvents_singleton _ h.isReadable htask⟩

-- The answer to the question whether the file can be read: the first read is submitted.
theorem Accounted.probe (h : w.Accounted) (hfaulted : w.faulted = none) (hbufferSize : w.bufferSize = size)
    (hbackend : Backend w.fd w.poll [[]] handleEventReady true [])
    (hreg : Registered w.fd w.poll) (hsize : 0 < w.bufferSize.toNat)
    : (w.handleEvents 0 isEventTriggered cs).Good size := by
  obtain ⟨t, hbuf, heq⟩ := hbackend.handleEvents_eq isEventTriggered cs
  have hcb : (w.poll.action 0).readBufIdxCallback = some (.read handleEventReady) := hbackend.callback
  obtain ⟨poll, hsubmit, hbackend', hreg'⟩ := Backend.submitReadRequest hbackend hreg (some handleNotifyCb)
  have htask : w.doReadTask 0 t isEventTriggered cs = ({ w with poll }, false) := by
    rw [Inotify.doReadTask, if_pos hbuf, Inotify.call, hcb, ← hsubmit]
    rfl
  rw [htask] at heq
  simp only [Bool.false_eq_true, if_false, modifyAction_id] at heq
  obtain ⟨poll', hpop, hbackend', hreg'⟩ := Backend.popReadTask (w := { w with poll }) hbackend' hreg'
  rw [heq, hpop]
  exact ⟨hfaulted, h, hbufferSize, fun _ => hsize, .readable [0] hbackend' hreg' (by simp) hsize (List.cons_ne_nil _ _)⟩

-- The state when `read_fd` has returned.
def afterRead (w : Inotify) (k : Served) (r : FdRet) : Inotify :=
  let w :=
    { w with
      buffer := FdIo.deliver w.buffer (FdIo.places r.moved) (k.taken.flatMap bytes)
      queue := k.queue
      arrived := w.arrived ++ k.arrived
      edge := w.edge || k.arrived ≠ [] }
  w.modifyAction 0 fun a => { a with isReadable := a.isReadable && !r.flag }

theorem Backend.doReadTask_eq (h : Backend w.fd w.poll pend cb true ready) {t : Task} (hbuf : t.buffer = w.iov)
    {r : FdRet} {sys : List SysRet}
    (hread : FdIo.streamFd.go inotifyOp [] w.iov 0 []
      (serve w.bufferSize.toNat w.queue (cs ++ quiet)).sys = .done r sys)
    (isEventTriggered : Bool)
    : w.doReadTask 0 t isEventTriggered cs
      = if r.flag && !isEventTriggered && r.ret = 0 then
          (w.afterRead (serve w.bufferSize.toNat w.queue (cs ++ quiet)) r, true)
        else
          ((w.afterRead (serve w.bufferSize.toNat w.queue (cs ++ quiet)) r).call 0 r.ret, false) := by
  have hne : t.buffer ≠ [] := by
    rw [hbuf]
    exact List.cons_ne_nil _ _
  have hop : (w.poll.action 0).readOp = some .inotify := by
    have := h.ops
    simp [EventAction.readOp, Epoll.action, this]
  rw [Inotify.doReadTask, if_neg hne, hop, hbuf]
  have hread' : readIov (some .inotify) false w.iov (serve w.bufferSize.toNat w.queue (cs ++ quiet)).sys
      = .done r sys :=
    hread
  simp only [hread']
  rfl

theorem Backend.afterRead (h : Backend w.fd w.poll pend cb true ready) (k : Served) (r : FdRet)
    : Backend (w.afterRead k r).fd (w.afterRead k r).poll pend cb (!r.flag) ready :=
  h.setReadable (f := fun a => a.isReadable && !r.flag) (by rw [h.isReadable]; rfl)

theorem Accounted.read (h : w.Accounted) {k : Served} {arrived : List InotifyEvent}
    (hconserves : w.queue ++ k.arrived = k.taken ++ k.queue) (harrived : arrived = w.arrived ++ k.arrived)
    {called : List Callback} (hcalled : called = w.called ++ k.taken.filterMap fun e => w.watchFdToCb e.wd)
    : ∃ taken, arrived = taken ++ k.queue ∧ called = taken.filterMap fun e => w.watchFdToCb e.wd := by
  obtain ⟨taken, harrived', hcalled'⟩ := h
  refine ⟨taken ++ k.taken, ?_, ?_⟩
  . rw [harrived, harrived', List.append_assoc, hconserves, List.append_assoc]
  . rw [hcalled, hcalled', List.filterMap_append]

-- `handle_notify` finds the events that have been read.
theorem afterRead_parse {k : Served} {r : FdRet} (hplaces : FdIo.places r.moved = List.range' 0 (total k.taken))
    (hlt : total k.taken < 2 ^ 31)
    : parse (w.afterRead k r).buffer (total k.taken) 0 (total k.taken) = k.taken.map (·.wd) := by
  have hholds : Holds (w.afterRead k r).buffer 0 (k.taken.flatMap bytes) := by
    change (List.range' 0 (k.taken.flatMap bytes).length).map (FdIo.deliver w.buffer (FdIo.places r.moved) _) = _
    rw [hplaces, length_flatMap_bytes]
    exact FdIo.map_deliver List.nodup_range' (by rw [length_flatMap_bytes, List.length_range'])
  have := parse_eq hholds (by omega) (Nat.le_refl _)
  rwa [Nat.zero_add] at this

def addCalled (w : Inotify) (taken : List InotifyEvent) : Inotify :=
  { w with called := w.called ++ taken.filterMap fun e => w.watchFdToCb e.wd }

theorem afterRead_handleNotify {k : Served} {r : FdRet} (hret : r.ret = total k.taken)
    (hplaces : FdIo.places r.moved = List.range' 0 (total k.taken)) (htaken : k.taken ≠ [])
    (hlt : total k.taken < 2 ^ 31)
    : (w.afterRead k r).handleNotify r.ret = ((w.afterRead k r).addCalled k.taken).submitReadRequest none := by
  have hpos := total_pos htaken
  have hnat : r.ret.toNat = total k.taken := by rw [hret, Int.toNat_natCast]
  rw [Inotify.handleNotify, if_neg (by omega)]
  simp only [hnat]
  rw [afterRead_parse hplaces hlt, List.filterMap_map]
  rfl

-- What a pass that reads leaves behind.
structure AfterPass (w : Inotify) (size : UInt32) (ready : List Nat) (readable : Bool) : Prop where
  faulted : w.faulted = none
  accounted : w.Accounted
  size : w.bufferSize = size
  backend : Backend w.fd w.poll [w.iov] handleNotifyCb readable (ready ++ if readable then [0] else [])
  registered : Registered w.fd w.poll
  queue : readable = false → w.queue = []

theorem Accounted.pass (h : w.Accounted) (hfaulted : w.faulted = none)
    (hbackend : Backend w.fd w.poll [w.iov] handleNotifyCb true ready) (hreg : Registered w.fd w.poll)
    (hsize : 0 < w.bufferSize.toNat) (htriggered : isEventTriggered → w.queue ≠ [])
    (hfits : w.FitsBuffer cs)
    : ∃ b, (w.handleEvents 0 isEventTriggered cs).AfterPass w.bufferSize ready b := by
  obtain ⟨t, hbuf, heq⟩ := hbackend.handleEvents_eq isEventTriggered cs
  have hreads : Reads 0 w.bufferSize.toNat 0 [] (serve w.bufferSize.toNat w.queue (cs ++ quiet)) _ :=
    serve_reads hsize w.bufferSize.toNat_lt hfits.1
  obtain ⟨⟨r, hread, hret, hplaces, hagain, hfull⟩, -⟩ := hreads
  have hconserves := serve_conserves w.bufferSize.toNat w.queue (cs ++ quiet)
  have htask := Backend.doReadTask_eq hbackend hbuf hread isEventTriggered
  have hlt := hfits.2
  have hread' := Backend.afterRead hbackend (serve w.bufferSize.toNat w.queue (cs ++ quiet)) r
  generalize serve w.bufferSize.toNat w.queue (cs ++ quiet) = k at *
  rw [Nat.zero_add, toInt32_of_lt hlt] at hret
  have hreg' : Registered (w.afterRead k r).fd (w.afterRead k r).poll := ⟨hreg.changes, hreg.interest⟩
  by_cases htaken : k.taken = []
  . -- Nothing has been read, the task stays pending.
    have hflag : r.flag = true := by
      by_contra hflag
      exact hfull (Bool.eq_false_iff.mpr hflag) htaken
    have hqueue := hagain hflag
    have htriggered' : isEventTriggered = false := by
      by_contra htrue
      rw [htaken, hqueue, List.append_nil, List.append_eq_nil_iff] at hconserves
      exact htriggered (by simpa using htrue) hconserves.1
    have hzero : r.ret = 0 := by
      rw [hret, htaken]
      rfl
    rw [if_pos (by simp [hflag, htriggered', hzero])] at htask
    rw [htask] at heq
    simp only [if_true] at heq
    have hadd := hread'.addReadTask t
    rw [hbuf, hflag] at hadd
    obtain ⟨poll, hpop, hbackend', hreg'⟩ := Backend.popReadTask
      (w := (w.afterRead k r).modifyAction 0 fun a => a.addReadTask t) hadd ⟨hreg'.changes, hreg'.interest⟩
    rw [heq, hpop]
    refine ⟨false, hfaulted, ?_, rfl, ?_, hreg', fun _ => hqueue⟩
    . exact h.read hconserves rfl (by rw [htaken, List.filterMap_nil, List.append_nil]; rfl)
    . rw [if_neg (by decide), List.append_nil]
      exact hbackend'
  . have hpos := total_pos htaken
    rw [if_neg (by simp; omega)] at htask
    rw [htask] at heq
    simp only [Bool.false_eq_true, if_false, modifyAction_id] at heq
    have hcb : ((w.afterRead k r).poll.action 0).readBufIdxCallback = some (.read handleNotifyCb) := hread'.callback
    have hcall : (w.afterRead k r).call 0 r.ret = (w.afterRead k r).handleNotify r.ret := by
      rw [Inotify.call, hcb]
      simp only
      rw [if_neg (by decide)]
    rw [hcall, afterRead_handleNotify hret hplaces htaken hlt] at heq
    obtain ⟨poll, hsubmit, hbackend', hreg'⟩ :=
      Backend.submitReadRequest (w := (w.afterRead k r).addCalled k.taken) hread'
      hreg' none
    rw [hsubmit] at heq
    obtain ⟨poll', hpop, hbackend', hreg'⟩ := Backend.popReadTask
      (w := { (w.afterRead k r).addCalled k.taken with poll }) hbackend' hreg'
    rw [heq, hpop]
    refine ⟨!r.flag, hfaulted, h.read hconserves rfl rfl, rfl, hbackend', hreg', ?_⟩
    intro hflag
    exact hagain (by simpa using hflag)

-- `handle_notify` returns at once, no read is pending any more.
theorem Backend.read_fails (hbackend : Backend w.fd w.poll [w.iov] handleNotifyCb true ready)
    (hreg : Registered w.fd w.poll) (hsize : 0 < w.bufferSize.toNat) (hfits : ¬w.FitsBuffer cs)
    : ∃ b, Backend (w.handleEvents 0 isEventTriggered cs).fd (w.handleEvents 0 isEventTriggered cs).poll []
      handleNotifyCb
        b ready := by
  have hread : ∃ r, FdIo.streamFd.go inotifyOp [] w.iov 0 []
      (serve w.bufferSize.toNat w.queue (cs ++ quiet)).sys = .done r [] ∧ r.ret < 0 := by
    by_cases h : Fits w.bufferSize.toNat w.queue cs
    . have hreads : Reads 0 w.bufferSize.toNat 0 [] (serve w.bufferSize.toNat w.queue (cs ++ quiet)) _ :=
        serve_reads hsize w.bufferSize.toNat_lt h
      obtain ⟨⟨r, hread, hret, -⟩, hle⟩ := hreads
      refine ⟨r, hread, ?_⟩
      have hlt := w.bufferSize.toNat_lt
      rw [hret, Nat.zero_add]
      exact toInt32_neg (Nat.le_of_not_lt fun hlt => hfits ⟨h, hlt⟩) (by omega)
    . have hfails : Fails (FdIo.streamFd.go inotifyOp [] w.iov 0 [] _) := serve_fails hsize w.bufferSize.toNat_lt h
      obtain ⟨r, hread, hret, -⟩ := hfails
      exact ⟨r, hread, by omega⟩
  obtain ⟨r, hread, hneg⟩ := hread
  obtain ⟨t, hbuf, heq⟩ := hbackend.handleEvents_eq isEventTriggered cs
  have htask := Backend.doReadTask_eq hbackend hbuf hread isEventTriggered
  have hread' := Backend.afterRead hbackend (serve w.bufferSize.toNat w.queue (cs ++ quiet)) r
  generalize serve w.bufferSize.toNat w.queue (cs ++ quiet) = k at *
  have hcb : ((w.afterRead k r).poll.action 0).readBufIdxCallback = some (.read handleNotifyCb) := hread'.callback
  have hcall : (w.afterRead k r).call 0 r.ret = w.afterRead k r := by
    rw [Inotify.call, hcb]
    simp only
    rw [if_neg (by decide), Inotify.handleNotify, if_pos (Int.le_of_lt hneg)]
  rw [if_neg (by simp; omega), hcall] at htask
  rw [htask] at heq
  simp only [Bool.false_eq_true, if_false, modifyAction_id] at heq
  obtain ⟨poll, hpop, hbackend', -⟩ := Backend.popReadTask hread' ⟨hreg.changes, hreg.interest⟩
  rw [heq, hpop]
  exact ⟨!r.flag, hbackend'⟩

theorem Backend.not_delivers (h : Backend w.fd w.poll [] cb readable ready)
    : ¬w.Delivers := by
  intro hd
  obtain ⟨id, hknown, hlength, -⟩ := hd.armed
  cases h.known.symm.trans hknown
  rw [h.length] at hlength
  cases hlength

/-! ### The steps with a read -/

theorem reads_eq {buf : List Iovec} (h : Backend w.fd w.poll [buf] cb readable ready)
    : w.reads 0 ↔ buf ≠ [] := by
  obtain ⟨t, ts, htask, hbuf, hts⟩ := List.map_eq_cons_iff.mp h.pending
  rw [List.map_eq_nil_iff] at hts
  have htask' : (w.poll.action 0).pendingReadTask = [t] := hts ▸ htask
  unfold reads
  rw [htask']
  simp [hbuf]

theorem AfterPass.good (h : w.AfterPass size ready readable) (hsize : 0 < size.toNat)
    (hready : ∀ id ∈ ready, id = 0)
    : w.Good size := by
  refine ⟨h.faulted, h.accounted, h.size, fun _ => h.size ▸ hsize, ?_⟩
  have hbackend := h.backend
  cases readable with
  | false =>
    rw [if_neg (by decide), List.append_nil] at hbackend
    exact .idle ready hbackend h.registered hready (h.size ▸ hsize) fun hqueue => absurd (h.queue rfl) hqueue
  | true =>
    refine .readable _ hbackend h.registered ?_ (h.size ▸ hsize) (by simp)
    intro id hid
    rw [List.mem_append] at hid
    exact hid.elim (hready id) (by simp)

-- The kernel reports the file to `set_ready_events`.
def reported (w : Inotify) : Inotify :=
  { w with edge := false }.modifyAction 0 fun a => { a with isReadable := true }

theorem report_eq (hreg : Registered w.fd w.poll) (cs : List Call)
    : w.report cs = if w.edge ∧ w.queue ≠ [] then w.reported.handleEvents 0 true cs else { w with edge := false } := by
  obtain ⟨mask, hinterest, hmask⟩ := hreg.interest
  rw [Inotify.report, hinterest]
  simp only [hmask, and_true]
  rfl

theorem readCalls_report {buf : List Iovec} (h : Backend w.fd w.poll [buf] cb readable ready)
    (hreg : Registered w.fd w.poll) (cs : List Call)
    : w.readCalls (.report cs) = if w.edge ∧ w.queue ≠ [] ∧ buf ≠ [] then some cs else none := by
  obtain ⟨mask, hinterest, hmask⟩ := hreg.interest
  rw [readCalls, hinterest]
  simp only [hmask, true_and, reads_eq h]

theorem Good.report_pass (h : w.Good size) (hbackend : Backend w.fd w.poll [w.iov] handleNotifyCb readable ready)
    (hreg : Registered w.fd w.poll) (hready : ∀ id ∈ ready, id = 0) (hsize : 0 < w.bufferSize.toNat)
    (hreport : w.edge ∧ w.queue ≠ [])
    : (w.StepFits (.report cs) → (w.reported.handleEvents 0 true cs).Good size)
      ∧ (¬w.StepFits (.report cs) → ¬(w.reported.handleEvents 0 true cs).Delivers) := by
  have hcalls : w.readCalls (.report cs) = some cs := by
    rw [readCalls_report hbackend hreg, if_pos ⟨hreport.1, hreport.2, List.cons_ne_nil _ _⟩]
  have hbackend' : Backend w.reported.fd w.reported.poll [w.reported.iov] handleNotifyCb true ready :=
    hbackend.setReadable (f := fun _ => true) rfl
  have hreg' : Registered w.reported.fd w.reported.poll := ⟨hreg.changes, hreg.interest⟩
  constructor
  . intro hfits
    obtain ⟨b, hpass⟩ := Accounted.pass (w := w.reported) h.accounted h.faulted hbackend' hreg' hsize
      (fun _ => hreport.2) (hfits cs hcalls)
    exact (h.bufferSize ▸ hpass).good (h.bufferSize ▸ hsize) hready
  . intro hfits
    have hnot : ¬w.reported.FitsBuffer cs := by
      intro hbuffer
      apply hfits
      intro cs' hsome
      cases hcalls.symm.trans hsome
      exact hbuffer
    obtain ⟨b, hfail⟩ := Backend.read_fails hbackend' hreg' hsize hnot
    exact Backend.not_delivers hfail

theorem Good.report (h : w.Good size) (cs : List Call)
    : (w.StepFits (.report cs) → (w.report cs).Good size) ∧ (¬w.StepFits (.report cs) → ¬(w.report cs).Delivers) := by
  have hquiet : w.readCalls (.report cs) = none → w.StepFits (.report cs) := by
    intro hnone cs' hsome
    rw [hnone] at hsome
    cases hsome
  cases h.phase with
  | unregistered hbackend hreg =>
    have hreport : w.report cs = w := by rw [Inotify.report, hreg.interest]
    rw [hreport]
    exact ⟨fun _ => h, fun hnot => absurd (hquiet (by rw [readCalls, hreg.interest])) hnot⟩
  | probing hbackend hreg hedge =>
    have hcalls := readCalls_report hbackend hreg cs
    simp only [ne_eq, not_true_eq_false, and_false, if_false] at hcalls
    refine ⟨fun _ => ?_, fun hnot => absurd (hquiet hcalls) hnot⟩
    rw [report_eq hreg]
    split
    next hreport =>
      exact Accounted.probe (w := w.reported) h.accounted h.faulted h.bufferSize
        (hbackend.setReadable (f := fun _ => true) rfl)
        ⟨hreg.changes, hreg.interest⟩ (h.size_of_queue hreport.2)
    next hreport =>
      exact ⟨h.faulted, h.accounted, h.bufferSize, h.sized,
        .probing hbackend hreg fun hqueue => absurd ⟨hedge hqueue, hqueue⟩ hreport⟩
  | idle ready hbackend hreg hready hsize hedge =>
    rw [report_eq hreg]
    split
    next hreport => exact h.report_pass hbackend hreg hready hsize hreport
    next hreport =>
      refine ⟨fun _ => ?_, fun hnot => absurd (hquiet ?_) hnot⟩
      . exact ⟨h.faulted, h.accounted, h.bufferSize, h.sized,
          .idle ready hbackend hreg hready hsize fun hqueue => absurd ⟨hedge hqueue, hqueue⟩ hreport⟩
      . rw [readCalls_report hbackend hreg, if_neg fun hcalls => hreport ⟨hcalls.1, hcalls.2.1⟩]
  | readable ready hbackend hreg hready hsize hne =>
    rw [report_eq hreg]
    split
    next hreport => exact h.report_pass hbackend hreg hready hsize hreport
    next hreport =>
      refine ⟨fun _ => ?_, fun hnot => absurd (hquiet ?_) hnot⟩
      . exact ⟨h.faulted, h.accounted, h.bufferSize, h.sized, .readable ready hbackend hreg hready hsize hne⟩
      . rw [readCalls_report hbackend hreg, if_neg fun hcalls => hreport ⟨hcalls.1, hcalls.2.1⟩]

theorem AfterPass.popReady {id : Nat} (h : w.AfterPass size (id :: ready) readable)
    : { w with poll := { w.poll with readyEvents := w.poll.readyEvents.tail } }.AfterPass size ready readable :=
  ⟨h.faulted, h.accounted, h.size, h.backend.popReady, ⟨h.registered.changes, h.registered.interest⟩, h.queue⟩

theorem Good.doReadyTask (h : w.Good size) (cs : List Call)
    : (w.StepFits (.ready cs) → (w.doReadyTask cs).Good size)
      ∧ (¬w.StepFits (.ready cs) → ¬(w.doReadyTask cs).Delivers) := by
  have hnone : w.poll.readyEvents = [] → (w.StepFits (.ready cs) → (w.doReadyTask cs).Good size)
      ∧ (¬w.StepFits (.ready cs) → ¬(w.doReadyTask cs).Delivers) := by
    intro hready
    have hstep : w.doReadyTask cs = w := by rw [Inotify.doReadyTask, hready]
    rw [hstep]
    refine ⟨fun _ => h, fun hnot => absurd ?_ hnot⟩
    intro cs' hsome
    rw [readCalls, hready] at hsome
    cases hsome
  cases h.phase with
  | unregistered hbackend hreg => exact hnone hbackend.readyEvents
  | probing hbackend hreg hedge => exact hnone hbackend.readyEvents
  | idle ready hbackend hreg hready hsize hedge =>
    cases ready with
    | nil => exact hnone hbackend.readyEvents
    | cons id ready =>
      obtain ⟨rfl, htail⟩ := List.forall_mem_cons.mp hready
      have hreadable : ¬(w.poll.action 0).isReadable = true := by
        rw [show (w.poll.action 0).isReadable = false from hbackend.isReadable]
        decide
      have hstep : w.doReadyTask cs = { w with poll := { w.poll with readyEvents := w.poll.readyEvents.tail } } := by
        rw [Inotify.doReadyTask, hbackend.readyEvents]
        simp only
        rw [Inotify.handleEvents, Source.handleEvents_of_not_readable (w := w) _ hbackend.isReadable,
          hbackend.readyEvents]
      rw [hstep]
      refine ⟨fun _ => ?_, fun hnot => absurd ?_ hnot⟩
      . exact ⟨h.faulted, h.accounted, h.bufferSize, h.sized,
          .idle ready hbackend.popReady ⟨hreg.changes, hreg.interest⟩ htail hsize hedge⟩
      . intro cs' hsome
        rw [readCalls, hbackend.readyEvents] at hsome
        simp only at hsome
        rw [if_neg fun hcalls => hreadable hcalls.1] at hsome
        cases hsome
  | readable ready hbackend hreg hready hsize hne =>
    cases ready with
    | nil => exact absurd rfl hne
    | cons id ready =>
      obtain ⟨rfl, htail⟩ := List.forall_mem_cons.mp hready
      have hcalls : w.readCalls (.ready cs) = some cs := by
        rw [readCalls, hbackend.readyEvents]
        simp only
        rw [if_pos ⟨hbackend.isReadable, (reads_eq hbackend).mpr (List.cons_ne_nil _ _)⟩]
      have hstep : w.doReadyTask cs
          = { w.handleEvents 0 false cs with
              poll := { (w.handleEvents 0 false cs).poll with
                readyEvents := (w.handleEvents 0 false cs).poll.readyEvents.tail } } := by
        rw [Inotify.doReadyTask, hbackend.readyEvents]
      rw [hstep]
      constructor
      . intro hfits
        have hpass : ∃ b, (w.handleEvents 0 false cs).AfterPass w.bufferSize (0 :: ready) b :=
          h.accounted.pass h.faulted hbackend hreg hsize nofun (hfits cs hcalls)
        obtain ⟨b, hpass⟩ := hpass
        rw [h.bufferSize] at hpass hsize
        exact hpass.popReady.good hsize htail
      . intro hfits hdelivers
        have hnot : ¬w.FitsBuffer cs := by
          intro hbuffer
          apply hfits
          intro cs' hsome
          cases hcalls.symm.trans hsome
          exact hbuffer
        have hfail : ∃ b, Backend (w.handleEvents 0 false cs).fd (w.handleEvents 0 false cs).poll [] handleNotifyCb b
            (0 :: ready) := Backend.read_fails hbackend hreg hsize hnot
        obtain ⟨b, hfail⟩ := hfail
        exact Backend.not_delivers hfail.popReady hdelivers

theorem Good.step (h : w.Good size) {a : Action} (hevents : ∀ e ∈ a.events, Inotify.size e ≤ w.bufferSize.toNat)
    : (w.StepFits a → (w.step a).Good size) ∧ (¬w.StepFits a → ¬(w.step a).Delivers) := by
  cases a with
  | arrive es => exact ⟨fun _ => h.arrive hevents, fun hnot => absurd nofun hnot⟩
  | apply => exact ⟨fun _ => h.applyChanges, fun hnot => absurd nofun hnot⟩
  | report cs => exact h.report cs
  | ready cs => exact h.doReadyTask cs

/--
An inotify keeps a read pending and delivers every event that leaves the kernel in each state of a run, if and only if
the events that its reads find fit in the buffer.
-/
theorem run_delivers_iff (num : Nat) (bufferSize : UInt32) (watchFdToCb : UInt32 → Option Callback) {as : List Action}
    (hevents : ∀ a ∈ as, ∀ e ∈ a.events, Inotify.size e ≤ bufferSize.toNat)
    : (∀ bs, bs <+: as → (run (start num bufferSize watchFdToCb) bs).Delivers)
      ↔ Along step StepFits (start num bufferSize watchFdToCb) as := by
  refine Along.forall_prefix_iff (I := Good bufferSize) (fun _ h => h.delivers) ?_ (start_good ..)
  intro w a h ha
  apply h.step
  rw [h.bufferSize]
  exact hevents a ha

-- Two events in one pass of `read_fd`, two more between the calls of an interrupted one, and two after that.
def sixEvents : List Action :=
  let file : InotifyEvent := ⟨1, 2, 0, []⟩
  let dir : InotifyEvent := ⟨2, 2, 0, List.replicate 16 97⟩
  [.arrive [file, dir], .apply, .report [], .ready [], .arrive [dir], .report [.intr, .serve [file], .serve []],
    .arrive [file, file], .report [], .ready []]

theorem run_delivers_sixEvents
    : (run (start 5 64 fun wd => if wd = 1 then some 7 else some 8) sixEvents).called = [7, 8, 8, 7, 7, 7]
      ∧ ∀ bs, bs <+: sixEvents
        → (run (start 5 64 fun wd => if wd = 1 then some 7 else some 8) bs).Delivers := by
  refine ⟨by decide +kernel, (run_delivers_iff 5 64 (fun wd => if wd = 1 then some 7 else some 8) ?_).mpr ?_⟩
  . decide
  . decide +kernel

-- The second event does not fit behind the first one: the first one is lost and no read is pending any more.
theorem run_discards
    : let w := run (start 5 40 fun _ => some 7)
        [.arrive [⟨1, 2, 0, []⟩, ⟨1, 2, 0, List.replicate 16 97⟩], .apply, .report [], .ready []]
      Inotify.size ⟨1, 2, 0, []⟩ ≤ 40 ∧ Inotify.size ⟨1, 2, 0, List.replicate 16 97⟩ ≤ 40
        ∧ w.arrived.length = 2 ∧ w.queue.length = 1 ∧ w.called = [] ∧ (w.poll.action 0).pendingReadTask = []
        ∧ ¬w.Delivers := by
  refine ⟨by decide, by decide, by decide, by decide, by decide, by decide, ?_⟩
  intro h
  obtain ⟨id, hknown, hlength, -⟩ := h.armed
  have hid : some id = some 0 := hknown.symm.trans (by decide)
  cases hid
  revert hlength
  decide

end Inotify

end Event
end Ezio
