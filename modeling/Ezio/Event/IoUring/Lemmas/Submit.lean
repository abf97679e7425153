import Ezio.Event.IoUring.Lemmas.Queue

/-!
This module contains what `submit` and `get_io_uring_sqe` do to the submission queue and how far the
kernel is behind: what it has not taken of all that it was asked to.
-/

namespace Ezio
namespace Event
namespace Uring

variable {k head lag : Nat} {queue : List Sqe} {w : Wrapper}

namespace Wrapper

-- The state after an `io_uring_enter` in which the kernel takes `n` entries.
def entered (w : Wrapper) (msghdrs : Nat → Msghdr) (toSubmit n : Nat) : Wrapper :=
  { w with
    enters := w.enters.tail
    asked := w.asked ++ [(toSubmit, n)]
    executed := w.executed ++ (w.sq.pending n).map (execute msghdrs)
    sq.khead := w.sq.khead + BitVec.ofNat 32 n }

theorem entered_zero (msghdrs : Nat → Msghdr) (toSubmit : Nat)
    : w.entered msghdrs toSubmit 0
        =
      { w with enters := w.enters.tail, asked := w.asked ++ [(toSubmit, 0)] } := by
  unfold entered SubmissionQueue.pending
  simp

theorem enter_spec (w : Wrapper) (msghdrs : Nat → Msghdr) (toSubmit : Nat)
    : ∃ n, n ≤ toSubmit ∧ (w.enter msghdrs toSubmit).2 = w.entered msghdrs toSubmit n
        ∧ ((w.enter msghdrs toSubmit).1 = n ∨ ((w.enter msghdrs toSubmit).1 < 0 ∧ n = 0)) := by
  unfold enter
  dsimp only
  split
  . next errno enters heq =>
    refine ⟨0, Nat.zero_le _, ?_, .inr ⟨?_, rfl⟩⟩
    . rw [entered_zero, heq]
      rfl
    . omega
  . next n enters heq => exact ⟨_, Nat.min_le_right _ _, rfl, .inl rfl⟩
  . exact ⟨_, Nat.le_refl _, rfl, .inl rfl⟩
  . exact ⟨_, Nat.le_refl _, rfl, .inl rfl⟩

theorem submit_asked (w : Wrapper) (msghdrs : Nat → Msghdr)
    : w.asked <+: (w.submit msghdrs).2.asked := by
  unfold submit
  dsimp only
  split
  . obtain ⟨n, _, hstate, _⟩ := enter_spec { w with sq.ktail := w.sq.sqeTail } msghdrs
      (w.sq.sqeTail - w.sq.ktail).toNat
    rw [hstate]
    exact List.prefix_append _ _
  . exact List.prefix_refl _

end Wrapper

-- What a call of `submit` does that has found `queue` and `lag`: `n` entries are taken.
structure Submitted (k : Nat) (msghdrs : Nat → Msghdr) (w : Wrapper) (head : Nat) (queue : List Sqe)
    (lag n : Nat) : Prop where
  le : n ≤ queue.length - lag
  toQueue : Queue k (w.submit msghdrs).2.sq (head + n) (queue.drop n) (queue.length - n)
  executed : (w.submit msghdrs).2.executed
      = w.executed ++ (queue.take n).map (Wrapper.execute msghdrs)
  ret : (w.submit msghdrs).1 = n ∨ ((w.submit msghdrs).1 < 0 ∧ n = 0)
  asked : (w.submit msghdrs).2.asked
      = if 0 < queue.length - lag then w.asked ++ [(queue.length - lag, n)] else w.asked
  cq : (w.submit msghdrs).2.cq = w.cq

theorem Queue.submit (h : Queue k w.sq head queue lag) (msghdrs : Nat → Msghdr)
    : ∃ n, Submitted k msghdrs w head queue lag n := by
  by_cases hsome : 0 < queue.length - lag
  . have hsubmit : w.submit msghdrs
        = { w with sq.ktail := w.sq.sqeTail }.enter msghdrs (queue.length - lag) := by
      unfold Wrapper.submit
      dsimp only
      rw [h.toSubmit, if_pos hsome]
    obtain ⟨n, hle, hstate, hret⟩ :=
      Wrapper.enter_spec { w with sq.ktail := w.sq.sqeTail } msghdrs (queue.length - lag)
    rw [← hsubmit] at hstate hret
    refine ⟨n, hle, ?_, ?_, hret, ?_, ?_⟩
    . rw [hstate]
      exact h.publish.take (by omega)
    . rw [hstate]
      unfold Wrapper.entered
      dsimp only
      rw [h.publish.pending (by omega)]
    . rw [hstate, if_pos hsome]
      rfl
    . rw [hstate]
      rfl
  . have hsubmit : w.submit msghdrs = (0, w) := by
      unfold Wrapper.submit
      dsimp only
      rw [h.toSubmit, if_neg hsome]
    have hlag := h.lag_le
    refine ⟨0, Nat.zero_le _, ?_, ?_, .inl ?_, ?_, ?_⟩
    . rw [hsubmit, Nat.add_zero, Nat.sub_zero, List.drop_zero, show queue.length = lag by omega]
      exact h
    . rw [hsubmit]
      simp
    . rw [hsubmit]
      rfl
    . rw [hsubmit, if_neg hsome]
    . rw [hsubmit]

theorem Queue.getIoUringSqe (h : Queue k w.sq head queue lag) (msghdrs : Nat → Msghdr)
    (hroom : queue.length < 2 ^ k)
    : ∃ slot sq,
        w.getIoUringSqe msghdrs = (some slot, { w with sq }) ∧ slot = w.sq.slot w.sq.sqeTail
          ∧ Queue.Last k sq head queue (initializeSqe (w.sq.get slot)) lag slot := by
  obtain ⟨slot, sq, heq, hslot, hlast⟩ := h.getSqe hroom
  refine ⟨slot, sq, ?_, hslot, hlast⟩
  unfold Wrapper.getIoUringSqe Wrapper.getSqe
  rw [heq]

-- The ring is flushed but the count of the entries is taken for an error. If none is taken the ring
-- stays full.
theorem Queue.getIoUringSqe_full (h : Queue k w.sq head queue lag) (msghdrs : Nat → Msghdr)
    (hfull : queue.length = 2 ^ k)
    : w.getIoUringSqe msghdrs = (none, (w.submit msghdrs).2) := by
  have hget : w.getSqe = (none, w) := by
    unfold Wrapper.getSqe
    rw [h.getSqe_full hfull]
  obtain ⟨n, hsub⟩ := h.submit msghdrs
  unfold Wrapper.getIoUringSqe
  rw [hget]
  dsimp only
  by_cases hret : (w.submit msghdrs).1 = 0
  . rw [if_pos hret]
    have hn : n = 0 := by
      rcases hsub.ret with hn | hn
      . omega
      . exact hn.2
    have hqueue := hsub.toQueue
    rw [hn, List.drop_zero] at hqueue
    unfold Wrapper.getSqe
    rw [hqueue.getSqe_full hfull]
  . rw [if_neg hret]

-- Of all that the kernel was asked to take it has left `lag` entries in the ring.
def Behind (asked : List (Nat × Nat)) (lag : Nat) : Prop :=
  (asked.map fun p => p.1 - p.2).sum = lag ∧ ∀ p ∈ asked, p.2 ≤ p.1

theorem Behind.zero_iff {asked : List (Nat × Nat)} {lag : Nat} (h : Behind asked lag)
    : lag = 0 ↔ ∀ p ∈ asked, p.2 = p.1 := by
  rw [← h.1, List.sum_eq_zero_iff_forall_eq_nat]
  constructor
  . intro hzero p hp
    have := hzero _ (List.mem_map_of_mem hp)
    have := h.2 p hp
    omega
  . intro hall n hn
    obtain ⟨p, hp, heq⟩ := List.mem_map.mp hn
    rw [← heq, hall p hp]
    omega

theorem Submitted.behind {msghdrs : Nat → Msghdr} {n : Nat}
    (h : Submitted k msghdrs w head queue lag n) (hlag : lag ≤ queue.length)
    (hbehind : Behind w.asked lag)
    : Behind (w.submit msghdrs).2.asked (queue.length - n) := by
  have hle := h.le
  rw [h.asked]
  split
  . refine ⟨?_, ?_⟩
    . rw [List.map_append, List.sum_append, hbehind.1]
      simp
      omega
    . intro p hp
      rw [List.mem_append, List.mem_singleton] at hp
      rcases hp with hp | hp
      . exact hbehind.2 p hp
      . rw [hp]
        exact hle
  . rw [show queue.length - n = lag by omega]
    exact hbehind

end Uring
end Event
end Ezio
