import Ezio.Event.EventService.Lemmas

/-!
This module contains what an object does after it has called the handlers of the user: it submits the next read, whether
it is still open or not.
-/

namespace Ezio
namespace Event
namespace EventService

variable {w w' : EventService} {id : Nat}

def isOpen (w : EventService) (id : Nat) : Bool :=
  0 ≤ (w.objs id).fd.num && (w.objs id).evtServicePtr

-- The object is open and the loop has started it.
def isRunning (w : EventService) (id : Nat) : Bool :=
  w.faulted.isNone && w.isOpen id && w.evtHandlers.contains id

-- What follows the handlers of an object that was running when it called them: no assertion fails, no null pointer is
-- used and no read is submitted by an object that they have closed.
def safe (w : EventService) : Action → Bool
  | .handle id r =>
    !w.isRunning id || skips (w.objs id) r.ret ||
      match w.callUser id r with
      | .error _ => true
      | .ok left =>
        match left.submitReadRequest id none with
        | .ok w' => left.isOpen id || w'.log = left.log
        | .error f => f ≠ .assert && f ≠ .nullDeref
  | _ => true

-- The handlers of the object leave it open, and the poller takes the next read.
def leftOpen (w : EventService) : Action → Bool
  | .handle id r =>
    !w.isRunning id || skips (w.objs id) r.ret ||
      match w.callUser id r with
      | .error _ => true
      | .ok left => left.isOpen id && left.poll.accepts
  | _ => true

theorem readOptions_isSubmit (o : EventBase)
    : (readOptions o).all (·.isSubmit) := by
  unfold readOptions
  split
  . rfl
  . rfl

-- The three ways in which the submission can end.
theorem submitReadRequest_cases (h : w.Valid) (id : Nat)
    : (w.objs id).evtServicePtr = false ∧ w.submitReadRequest id none = .error .nullDeref
      ∨ ¬(w.isOpen id ∧ w.poll.accepts) ∧ w.submitReadRequest id none = .error .assert
      ∨ (w.isOpen id ∧ w.poll.accepts) ∧ ∃ w', w.submitReadRequest id none = .ok w' := by
  unfold submitReadRequest
  dsimp only
  cases hservice : (w.objs id).evtServicePtr with
  | false => exact .inl ⟨rfl, rfl⟩
  | true =>
    right
    rw [if_pos rfl]
    by_cases hfd : 0 ≤ (w.objs id).fd.num
    . obtain ⟨ret, p, hsubmit, hret⟩ := Poller.submitAsyncRead_iff h.poll hfd (h.fds id hfd)
        ⟨id, iov (w.objs id)⟩ 1 none (readOptions_isSubmit (w.objs id))
      have hopen : w.isOpen id := by simp [isOpen, hfd, hservice]
      rw [hsubmit]
      by_cases hzero : ret = 0
      . refine .inr ⟨⟨hopen, hret.mp hzero⟩, ?_⟩
        rw [hzero]
        exact ⟨_, rfl⟩
      . refine .inl ⟨fun hboth => hzero (hret.mpr hboth.2), ?_⟩
        show (w.assertZero (ret, p) >>= _) = _
        unfold assertZero
        rw [if_neg hzero]
        rfl
    . obtain ⟨p, hsubmit⟩ := Poller.submitAsyncRead_invalid (p := w.poll) (not_le.mp hfd)
        (some ⟨id, iov (w.objs id)⟩) 1 none (readOptions (w.objs id))
      rw [hsubmit]
      exact .inl ⟨fun hboth => hfd (by simpa [isOpen, hservice] using hboth.1), rfl⟩

theorem safe_iff (h : w.Valid) (a : Action)
    : w.safe a ↔ w.leftOpen a := by
  cases a with
  | handle id r =>
    unfold safe leftOpen
    dsimp only
    cases !w.isRunning id || skips (w.objs id) r.ret with
    | true => simp
    | false =>
    rw [Bool.false_or, Bool.false_or]
    cases hcall : w.callUser id r with
    | error f => exact Iff.rfl
    | ok left =>
      dsimp only
      rw [Bool.and_eq_true]
      rcases submitReadRequest_cases (h.callUser hcall) id
        with ⟨hservice, hsubmit⟩ | ⟨hnot, hsubmit⟩ | ⟨hboth, w', hsubmit⟩
      . rw [hsubmit]
        simp [isOpen, hservice]
      . rw [hsubmit]
        simp only [ne_eq, not_true_eq_false, decide_false, Bool.false_and, Bool.false_eq_true, false_iff]
        exact hnot
      . rw [hsubmit]
        simp [hboth.1, hboth.2]
  | _ => exact Iff.rfl

theorem handlers_safe_iff (p : Poller) (hp : p.Fresh) (kinds : Nat → Kind) (as : List Action)
    : Along step (fun w a => w.safe a) (init p kinds) as ↔ Along step (fun w a => w.leftOpen a) (init p kinds) as :=
  Along.iff_of_invariant (Along.of_mem (P := fun _ => True) fun _ _ => trivial) (fun _ a h _ => safe_iff h a)
    (fun _ a h _ _ => h.step a) (init_valid hp kinds)

-- The object is opened and started, and its handler closes it. An inotify has a watch for the event in its buffer.
def selfClose : List Action :=
  [.call (.openObj 0 { fdNum := 5 }), .call (.addWatch 0 0), .swap, .process, .ready 0 0,
    .handle 0 { ret := 16, user := [[.close 0]] }]

def opened (kind : Kind) : EventService :=
  init (.epoll (World.init fun _ => true)) fun _ => kind

theorem selfClose_not_safe
    : (¬Along step (fun w a => w.safe a) (opened .notifier) selfClose
        ∧ ((opened .notifier).run selfClose).faulted = some .assert)
      ∧ (¬Along step (fun w a => w.safe a) (opened .inotify) selfClose
        ∧ ((opened .inotify).run selfClose).faulted = some .assert)
      ∧ (¬Along step (fun w a => w.safe a) (opened .signalEvent) selfClose
        ∧ ((opened .signalEvent).run selfClose).faulted = some .nullDeref) := by
  decide +kernel

-- The handler does not touch the object.
def staysOpen : List Action :=
  [.call (.openObj 0 { fdNum := 5 }), .swap, .process, .ready 0 0, .handle 0 { ret := 8, user := [[]] }]

theorem staysOpen_safe
    : Along step (fun w a => w.safe a) (opened .notifier) staysOpen :=
  (handlers_safe_iff _ (.epoll _) (fun _ => .notifier) staysOpen).mpr (by decide +kernel)

end EventService

end Event
end Ezio
