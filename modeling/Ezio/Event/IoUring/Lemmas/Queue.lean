import Ezio.Lib.Ring
import Ezio.Event.IoUring.Wrapper

/-!
This module contains the submission queue as a list: the entries that the kernel has not taken yet, in
order. `get_sqe` adds an entry at its end and `io_uring_enter` takes entries from its front.
-/

namespace Ezio
namespace Event
namespace Uring

-- The first `lag` entries of the queue are published. The rest is what the next `submit` asks for.
structure Queue (k : Nat) (sq : SubmissionQueue) (head : Nat) (queue : List Sqe) (lag : Nat)
    : Prop where
  width : k < 32
  mask : sq.kringMask = BitVec.ofNat 32 (2 ^ k - 1)
  entries : sq.kringEntries = BitVec.ofNat 32 (2 ^ k)
  length : sq.sqes.length = 2 ^ k
  khead : sq.khead = BitVec.ofNat 32 head
  ktail : sq.ktail = BitVec.ofNat 32 (head + lag)
  sqeTail : sq.sqeTail = BitVec.ofNat 32 (head + queue.length)
  lag_le : lag ≤ queue.length
  fits : queue.length ≤ 2 ^ k
  get : ∀ i (hi : i < queue.length), sq.get ((head + i) % 2 ^ k) = queue[i]

variable {k head lag : Nat} {sq : SubmissionQueue} {queue : List Sqe} {w : Wrapper}

theorem Queue.pow_le (h : Queue k sq head queue lag) : 2 ^ k ≤ 2 ^ 31 := by
  have := h.width
  exact Nat.pow_le_pow_right (by decide) (by omega)

theorem Queue.slot (h : Queue k sq head queue lag) (n : Nat)
    : sq.slot (BitVec.ofNat 32 n) = n % 2 ^ k := by
  have := h.width
  unfold SubmissionQueue.slot
  rw [h.mask]
  exact Ring.toNat_slot (by omega) n

theorem Queue.init {k : Nat} (c sqStart cqStart : Nat) (enters : List EnterRet) (hk : k < 32)
    : Queue k (Wrapper.init k c sqStart cqStart enters).sq sqStart [] 0 := by
  refine ⟨hk, rfl, rfl, List.length_replicate, rfl, rfl, rfl, Nat.le_refl _, Nat.zero_le _, ?_⟩
  intro i hi
  cases hi

theorem SubmissionQueue.get_modify (f : Sqe → Sqe) {slot : Nat} (hslot : slot < sq.sqes.length)
    (j : Nat)
    : (sq.modify slot f).get j = if j = slot then f (sq.get j) else sq.get j := by
  unfold SubmissionQueue.get SubmissionQueue.modify
  rw [List.getD_eq_getElem?_getD, List.getD_eq_getElem?_getD, List.getElem?_modify]
  by_cases hj : j = slot
  . rw [if_pos hj, hj, List.getElem?_eq_getElem hslot]
    simp
  . rw [if_neg hj]
    have hne : ¬slot = j := by omega
    cases sq.sqes[j]? with
    | none => simp
    | some sqe => simp [hne]

-- The entry that was added last is in `slot`.
structure Queue.Last (k : Nat) (sq : SubmissionQueue) (head : Nat) (queue : List Sqe) (last : Sqe)
    (lag slot : Nat) : Prop where
  toQueue : Queue k sq head (queue ++ [last]) lag
  slot_eq : slot = (head + queue.length) % 2 ^ k
  lag_le : lag ≤ queue.length

theorem Queue.Last.modify {last : Sqe} {slot : Nat} (h : Queue.Last k sq head queue last lag slot)
    (f : Sqe → Sqe)
    : Queue.Last k (sq.modify slot f) head queue (f last) lag slot := by
  have hq := h.toQueue
  have hlen : (queue ++ [last]).length = (queue ++ [f last]).length := by simp
  have hslot : slot < sq.sqes.length := by
    rw [h.slot_eq, hq.length]
    exact Nat.mod_lt _ (Nat.two_pow_pos k)
  refine ⟨⟨hq.width, hq.mask, hq.entries, ?_, hq.khead, hq.ktail, ?_, ?_, ?_, ?_⟩, h.slot_eq,
    h.lag_le⟩
  . unfold SubmissionQueue.modify
    rw [List.length_modify]
    exact hq.length
  . rw [← hlen]
    exact hq.sqeTail
  . rw [← hlen]
    exact hq.lag_le
  . rw [← hlen]
    exact hq.fits
  . intro i hi
    have hfits := hq.fits
    rw [List.length_append, List.length_singleton] at hi hfits
    have hget := hq.get i (by simpa using hi)
    rw [SubmissionQueue.get_modify f hslot, hget]
    by_cases hlast : i = queue.length
    . subst hlast
      rw [if_pos h.slot_eq.symm, List.getElem_concat_length, List.getElem_concat_length]
      . rfl
      . rfl
    . have hne : (head + i) % 2 ^ k ≠ slot := by
        rw [h.slot_eq]
        exact Ring.mod_ne_of_lt (by omega) (by omega)
      rw [if_neg hne, List.getElem_append_left (by omega), List.getElem_append_left (by omega)]

theorem Queue.getSqe (h : Queue k sq head queue lag) (hroom : queue.length < 2 ^ k)
    : ∃ slot sq',
        sq.getSqe = (some slot, sq') ∧ slot = sq.slot sq.sqeTail
          ∧ Queue.Last k sq' head queue (initializeSqe (sq.get slot)) lag slot := by
  have hpow := h.pow_le
  have hcount : sq.sqeTail + 1 - sq.khead ≤ sq.kringEntries := by
    rw [h.sqeTail, Ring.ofNat_succ, h.khead, h.entries, BitVec.le_def,
      Ring.toNat_sub (by omega) (by omega), BitVec.toNat_ofNat]
    omega
  unfold SubmissionQueue.getSqe
  dsimp only
  rw [if_pos hcount]
  have hslot : sq.slot sq.sqeTail = (head + queue.length) % 2 ^ k := by
    rw [h.sqeTail, h.slot]
  have hlast : Queue.Last k { sq with sqeTail := sq.sqeTail + 1 } head queue
      (sq.get (sq.slot sq.sqeTail)) lag (sq.slot sq.sqeTail) := by
    refine ⟨⟨h.width, h.mask, h.entries, h.length, h.khead, h.ktail, ?_, ?_, ?_, ?_⟩, hslot, h.lag_le⟩
    . change sq.sqeTail + 1 = _
      rw [h.sqeTail, Ring.ofNat_succ, List.length_append, List.length_singleton, Nat.add_assoc]
    . rw [List.length_append]
      exact Nat.le_add_right_of_le h.lag_le
    . rw [List.length_append, List.length_singleton]
      omega
    . intro i hi
      change sq.get _ = _
      rw [List.length_append, List.length_singleton] at hi
      by_cases hlast : i = queue.length
      . subst hlast
        rw [List.getElem_concat_length rfl, hslot]
      . rw [List.getElem_append_left (by omega)]
        exact h.get i (by omega)
  exact ⟨_, _, rfl, rfl, hlast.modify initializeSqe⟩

theorem Queue.getSqe_full (h : Queue k sq head queue lag) (hfull : queue.length = 2 ^ k)
    : sq.getSqe = (none, sq) := by
  have hpow := h.pow_le
  have hcount : ¬sq.sqeTail + 1 - sq.khead ≤ sq.kringEntries := by
    rw [h.sqeTail, Ring.ofNat_succ, h.khead, h.entries, BitVec.le_def, Ring.toNat_sub (by omega) (by omega),
      BitVec.toNat_ofNat]
    omega
  unfold SubmissionQueue.getSqe
  dsimp only
  rw [if_neg hcount]

theorem Queue.pending (h : Queue k sq head queue lag) {n : Nat} (hn : n ≤ queue.length)
    : sq.pending n = queue.take n := by
  apply List.ext_getElem
  . simp [SubmissionQueue.pending, hn]
  . intro i hi hi'
    rw [List.length_take] at hi'
    simp only [SubmissionQueue.pending, List.getElem_map, List.getElem_range, List.getElem_take]
    rw [h.khead, ← BitVec.ofNat_add, h.slot]
    exact h.get i (by omega)

theorem Queue.toSubmit (h : Queue k sq head queue lag)
    : (sq.sqeTail - sq.ktail).toNat = queue.length - lag := by
  have hpow := h.pow_le
  have hlag := h.lag_le
  have hfits := h.fits
  rw [h.sqeTail, h.ktail, Ring.toNat_sub (by omega) (by omega)]
  omega

theorem Queue.count (h : Queue k sq head queue lag)
    : (sq.sqeTail - sq.khead).toNat = queue.length := by
  have hpow := h.pow_le
  have hfits := h.fits
  rw [h.sqeTail, h.khead, Ring.toNat_sub (by omega) (by omega)]
  omega

theorem Queue.publish (h : Queue k sq head queue lag)
    : Queue k { sq with ktail := sq.sqeTail } head queue queue.length :=
  ⟨h.width, h.mask, h.entries, h.length, h.khead, h.sqeTail, h.sqeTail, Nat.le_refl _, h.fits, h.get⟩

theorem Queue.take (h : Queue k sq head queue lag) {n : Nat} (hn : n ≤ lag)
    : Queue k { sq with khead := sq.khead + BitVec.ofNat 32 n } (head + n) (queue.drop n)
        (lag - n) := by
  have hlag := h.lag_le
  refine ⟨h.width, h.mask, h.entries, h.length, ?_, ?_, ?_, ?_, ?_, ?_⟩
  . dsimp only
    rw [h.khead, BitVec.ofNat_add]
  . rw [show head + n + (lag - n) = head + lag by omega]
    exact h.ktail
  . rw [List.length_drop, show head + n + (queue.length - n) = head + queue.length by omega]
    exact h.sqeTail
  . rw [List.length_drop]
    omega
  . rw [List.length_drop]
    exact Nat.le_trans (Nat.sub_le _ _) h.fits
  . intro i hi
    rw [List.length_drop] at hi
    rw [List.getElem_drop, Nat.add_assoc]
    exact h.get (n + i) (by omega)

end Uring
end Event
end Ezio
