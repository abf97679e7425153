import Ezio.Event.Poller
import Ezio.Event.IoUring.Lemmas.Lag

/-!
This module contains what the calls of `poll_base` return on the two backends: whether a read is taken, and what the
callback of a cancel has to do with its result.
-/

namespace Ezio
namespace Event
namespace Uring

variable {k : Nat} {F : (Sqe → Sqe) → Prop} {w w' : Wrapper} {ret : Int} {hist : List Sqe}

theorem Tracks.mem_executed (h : Tracks k w hist) {e : Executed} (he : e ∈ w.executed)
    : e.sqe ∈ hist := by
  obtain ⟨head, queue, lag, _, _, hhist⟩ := h
  rw [hhist]
  exact List.mem_append_left _ (List.mem_map_of_mem he)

theorem Tracks.submit_executed (h : Tracks k w hist) (msghdrs : Nat → Msghdr) (hret : (w.submit msghdrs).1 ≤ 0)
    : (w.submit msghdrs).2.executed = w.executed := by
  obtain ⟨head, queue, lag, hqueue, _, _⟩ := h
  obtain ⟨n, hsub⟩ := hqueue.submit msghdrs
  have hn : n = 0 := by
    rcases hsub.ret with heq | ⟨_, hzero⟩
    . omega
    . exact hzero
  rw [hsub.executed, hn, List.take_zero, List.map_nil, List.append_nil]

-- The kernel has not taken the entry of a call that has failed.
theorem Effect.executed_of_failed (h : Effect F w ret w') (ht : Tracks k w hist) (hret : ret = -1) {e : Executed}
    (he : e ∈ w'.executed)
    : e.sqe ∈ hist := by
  cases h with
  | same => exact ht.mem_executed he
  | full hget =>
    rcases (Effect.full (F := fun _ => False) hget).tracks ht with ht' | ⟨q, hadds, _⟩
    . exact ht'.mem_executed he
    . obtain ⟨f, hf, _⟩ := hadds.fills
      cases hf
  | prepared hget hfills => cases hret
  | submitted hget hfills hle =>
    rw [(ht.fill hget _).2.submit_executed _ (hle hret)] at he
    obtain ⟨head, queue, lag, hqueue, _, _⟩ := ht
    obtain ⟨_, ⟨sq, hw⟩, _⟩ := hqueue.of_getIoUringSqe hget
    rw [hw] at he
    exact Tracks.mem_executed ⟨head, queue, lag, hqueue, by assumption, by assumption⟩ he
  | flushed msghdrs => exact (ht.submit msghdrs).mem_executed he

-- Every entry has been made by a call, and calls are numbered.
structure Recorded (s : IoUring) : Prop where
  tracks : ∃ k hist, Tracks k s.ring hist ∧ ∀ q ∈ hist, q.origin.call < s.calls

namespace Recorded

open IoUring

variable {s s' : IoUring} {own : Option (Option Nat)}

theorem of_ring (h : Recorded s) (cq : CompletionQueue) (hring : s'.ring = { s.ring with cq })
    (hcalls : s'.calls = s.calls)
    : Recorded s' := by
  obtain ⟨k, hist, htracks, hbound⟩ := h.tracks
  refine ⟨k, hist, ?_, ?_⟩
  . rw [hring]
    exact htracks
  . rw [hcalls]
    exact hbound

theorem effect (h : Recorded s) (heffect : Effect (Fills s.calls own) s.ring ret s'.ring)
    (hcalls : s'.calls = s.calls + 1)
    : Recorded s' := by
  obtain ⟨k, hist, htracks, hbound⟩ := h.tracks
  rcases heffect.tracks htracks with htracks' | ⟨q, hadds, htracks'⟩
  . refine ⟨k, hist, htracks', fun q hq => ?_⟩
    have := hbound q hq
    omega
  . refine ⟨k, hist ++ [q], htracks', fun q' hq' => ?_⟩
    rcases List.mem_append.mp hq' with hq' | hq'
    . have := hbound q' hq'
      omega
    . obtain ⟨f, hfills, hq⟩ := hadds.fills
      have horigin : q.origin.call = s.calls := by
        rw [hq]
        exact hfills.origin _
      rw [List.mem_singleton.mp hq']
      omega

theorem exec (h : Recorded s) (op : Op)
    : Recorded (s.exec op).2 := by
  have hperforms := run_performs (s := s) op
  obtain ⟨submitted, heffect, _⟩ := hperforms.effect
  exact h.effect heffect (congrArg (· + 1) hperforms.calls)

-- The kernel takes the request of a call that it has refused in a later call, if at all.
theorem not_executed (h : Recorded s) (op : Op) (hwraps : op.idWraps s = false) (hret : (s.exec op).1 = -1)
    {e : Executed} (he : e ∈ (s.exec op).2.ring.executed)
    : e.sqe.origin.call ≠ s.calls := by
  obtain ⟨k, hist, htracks, hbound⟩ := h.tracks
  obtain ⟨submitted, heffect, hsubmitted⟩ := (run_performs (s := s) op).effect
  have hmem := heffect.executed_of_failed htracks (hsubmitted hret hwraps) he
  exact Nat.ne_of_lt (hbound _ hmem)

theorem moves {w w' : World} {st : Step} (h : Recorded w.uring) (hmoves : Moves w st w')
    : Recorded w'.uring := by
  cases hmoves with
  | quiet hrest _ => exact h.of_ring w.uring.ring.cq hrest.ring hrest.calls
  | called _ _ heffect hcalls _ _ => exact h.effect heffect hcalls
  | performed heffect hcalls _ => exact h.effect heffect hcalls
  | turned cq hring hcalls _ => exact h.of_ring cq hring hcalls

end Recorded

theorem IoUring.cancelAsyncRead_ret (s : IoUring) (fd : Fd) (cb : Option Callback)
    : (s.cancelAsyncRead fd cb).1 = 0 ∨ (s.cancelAsyncRead fd cb).1 = -1 := by
  unfold cancelAsyncRead cancelAsync
  split
  . exact .inr rfl
  . split
    . exact .inr rfl
    . exact withSqe_ret _ true _

end Uring

namespace Poller

variable {p p' : Poller} {fd : Fd} {ret : Int}

def Sound : Poller → Prop
  | .epoll _ => True
  | .ioUring w => Uring.Recorded w.uring

theorem Fresh.sound (h : Fresh p)
    : p.Sound := by
  cases h with
  | epoll isOpen => trivial
  | ioUring c sqStart cqStart enters hk hasTimeoutMultishot =>
    exact ⟨_, [], Uring.Tracks.init c sqStart cqStart enters hk, fun q hq => by cases hq⟩

theorem Sound.step {st : Step} (h : p.Sound) (hstep : p.step st = .ok p')
    : p'.Sound := by
  unfold Poller.step at hstep
  split at hstep
  . next w st =>
    cases hres : Event.step st w with
    | ok _ w' =>
      rw [hres] at hstep
      cases hstep
      trivial
    | error f w' =>
      rw [hres] at hstep
      cases hstep
  . next w st =>
    cases hres : w.tryStep st with
    | ok w' =>
      rw [hres] at hstep
      cases hstep
      exact Uring.Recorded.moves h (Uring.World.tryStep_moves hres)
    | error f =>
      rw [hres] at hstep
      cases hstep
  . cases hstep
    exact h

-- A call on the epoll backend.
def called (w : World) (op : Op) (s : Epoll) : World :=
  { w.addLog [Entry.call op w.poll] with poll := s }

theorem exec_epoll {w : World} {onEpoll : Op} {onIoUring : Uring.Op} {s : Epoll}
    (h : w.poll.exec onEpoll = .ok (ret, s))
    : (Poller.epoll w).exec onEpoll onIoUring = .ok (ret, .epoll (called w onEpoll s)) := by
  show Except.map _ (w.poll.exec onEpoll) = _
  rw [h]
  rfl

theorem exec_epoll_cases {w : World} {onEpoll : Op} {onIoUring : Uring.Op}
    (h : (Poller.epoll w).exec onEpoll onIoUring = .ok (ret, p'))
    : ∃ s, w.poll.exec onEpoll = .ok (ret, s) ∧ p' = .epoll (called w onEpoll s) := by
  cases hres : w.poll.exec onEpoll with
  | ok r =>
    rw [exec_epoll hres] at h
    cases h
    exact ⟨r.2, rfl, rfl⟩
  | error f =>
    change Except.map _ (w.poll.exec onEpoll) = _ at h
    rw [hres] at h
    cases h

theorem Sound.exec {onEpoll : Op} {onIoUring : Uring.Op} (h : p.Sound)
    (hexec : p.exec onEpoll onIoUring = .ok (ret, p'))
    : p'.Sound := by
  cases p with
  | epoll w =>
    obtain ⟨s, _, rfl⟩ := exec_epoll_cases hexec
    trivial
  | ioUring w =>
    cases hexec
    exact Uring.Recorded.exec h onIoUring

/-! ### Reads -/

-- The backend is open, and io_uring takes the next request that it makes.
def accepts : Poller → Bool
  | .epoll w => w.poll.isInited
  | .ioUring w => w.uring.isInited && w.uring.ring.accepts

theorem submitAsyncRead_invalid (hfd : fd.num < 0) (buffer : Option Uring.IovPtr) (cnt : Nat) (cb : Option Callback)
    (opt : Option ReadOptions)
    : ∃ p', p.submitAsyncRead fd buffer cnt cb opt = .ok (-1, p') := by
  cases p with
  | epoll w =>
    have hexec : w.poll.exec (.submitAsyncRead fd (userBuf buffer cnt) cb opt) = .ok (-1, w.poll) := by
      simp [Epoll.exec, Epoll.submitAsyncRead, hfd]
    exact ⟨_, exec_epoll hexec⟩
  | ioUring w =>
    have hret : (w.uring.exec (.submitAsyncRead fd buffer cnt cb opt)).1 = -1 := by
      simp [Uring.IoUring.exec, Uring.IoUring.run, Uring.IoUring.submitAsyncRead, hfd]
    unfold submitAsyncRead exec
    dsimp only
    rw [hret]
    exact ⟨_, rfl⟩

theorem epoll_submitAsyncRead_ret (s : Epoll) (hfd : 0 ≤ fd.num) (htype : fd.type ≠ .unknown) (buf : UserBuf)
    (hbuf : buf.isNull = false) (cb : Option Callback) (opt : Option ReadOptions)
    : ∃ ret s', s.submitAsyncRead fd buf cb opt = .ok (ret, s') ∧ (ret = 0 ↔ s.isInited) := by
  have hvalid : ¬fd.num < 0 := by omega
  unfold Epoll.submitAsyncRead
  cases hinit : s.isInited with
  | false => exact ⟨-1, s, rfl, by simp⟩
  | true =>
    have hfind : ∃ r, s.findOrInsert fd = .ok r := by
      unfold Epoll.findOrInsert
      split
      . exact ⟨_, rfl⟩
      . unfold EventInfo.new EventAction.new
        rw [if_neg htype]
        exact ⟨_, rfl⟩
    obtain ⟨r, hfind⟩ := hfind
    simp only [hvalid, hbuf, decide_false, Bool.not_true, Bool.and_false, Bool.or_false, Bool.false_eq_true, if_false,
      hfind]
    exact ⟨0, _, rfl, by simp⟩

theorem submitAsyncRead_iff (h : p.Sound) (hfd : 0 ≤ fd.num) (htype : fd.type ≠ .unknown) (buffer : Uring.IovPtr)
    (cnt : Nat) (cb : Option Callback) {opt : Option ReadOptions} (hopt : opt.all (·.isSubmit))
    : ∃ ret p', p.submitAsyncRead fd (some buffer) cnt cb opt = .ok (ret, p') ∧ (ret = 0 ↔ p.accepts) := by
  cases p with
  | epoll w =>
    obtain ⟨ret, s, hexec, hret⟩ := epoll_submitAsyncRead_ret w.poll hfd htype (userBuf (some buffer) cnt) rfl cb opt
    exact ⟨ret, _, exec_epoll hexec, hret⟩
  | ioUring w =>
    refine ⟨_, _, rfl, ?_⟩
    obtain ⟨k, hist, htracks, _⟩ := h.tracks
    have hvalid : ¬fd.num < 0 := by omega
    show (w.uring.submitAsyncRead fd (some buffer) cnt cb opt).1 = 0 ↔ w.uring.isInited && w.uring.ring.accepts
    unfold Uring.IoUring.submitAsyncRead
    cases hinit : w.uring.isInited with
    | false => simp
    | true =>
      simp only [hvalid, decide_false, Option.isNone_some, Bool.not_true, Bool.and_false, Bool.or_false,
        Bool.false_eq_true, if_false, Bool.true_and, hopt]
      exact Uring.IoUring.withSqe_ret_iff htracks (Uring.IoUring.fillRead_fills fd (some buffer) cnt cb opt)

/-! ### Cancels -/

theorem epoll_cancelAsyncRead_ret {s s' : Epoll} {cb : Option Callback} (h : s.cancelAsyncRead fd cb = .ok (ret, s'))
    : s' = s ∨ (ret = 0 ↔ cb.isSome) := by
  unfold Epoll.cancelAsyncRead at h
  split at h
  . cases h
    exact .inl rfl
  . split at h
    . cases h
      exact .inl rfl
    . split at h
      . cases h
        exact .inl rfl
      . obtain ⟨s₁, _, h⟩ := Except.bind_eq_ok h
        cases h
        right
        cases cb with
        | none => simp
        | some cb => simp

-- Without a callback the epoll backend stops reading the file, and returns -1 all the same.
theorem cancelAsyncRead_ret (h : p.Sound) {cb : Option Callback} (hcancel : p.cancelAsyncRead fd cb = .ok (ret, p'))
    (heffect : p.readCancelled fd p')
    : ret = 0 ↔ p.isIoUring ∨ cb.isSome := by
  cases p with
  | epoll w =>
    obtain ⟨s, hexec, rfl⟩ := exec_epoll_cases hcancel
    simp only [isIoUring, Bool.false_eq_true, false_or]
    refine (epoll_cancelAsyncRead_ret hexec).resolve_left ?_
    intro hsame
    obtain ⟨id, _, hread⟩ := Option.any_eq_true _ _ |>.mp heffect
    simp only [called, World.action, hsame, Bool.and_not_self, Bool.false_eq_true] at hread
  | ioUring w =>
    cases hcancel
    simp only [isIoUring, true_or, iff_true]
    refine (w.uring.cancelAsyncRead_ret fd cb).resolve_right ?_
    intro hret
    obtain ⟨e, he, hcall⟩ := List.any_eq_true.mp heffect
    exact Uring.Recorded.not_executed h (.cancelAsyncRead fd cb) rfl hret he (of_decide_eq_true hcall)

end Poller

end Event
end Ezio
