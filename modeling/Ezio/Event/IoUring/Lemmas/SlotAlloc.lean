import Ezio.Lib.Run
import Ezio.Event.IoUring.Lemmas.Submit

/-!
This module contains which slots of the submission queue `get_sqe` hands out while the process submits and the kernel
consumes entries, in any order.
-/

namespace Ezio
namespace Event
namespace Uring

inductive SlotStep where
  | getSqe
  | submit (msghdrs : Nat → Msghdr)
  -- the kernel consumes up to `n` of the entries that are submitted
  | consume (n : Nat)

-- The slots in use are those of the SQEs that are handed out and that the kernel has not consumed, oldest first.
structure SlotWorld where
  ring : Wrapper
  inUse : List Nat

namespace SlotWorld

-- The head has moved past the oldest entries.
def consumed (w : SlotWorld) (ring : Wrapper) : SlotWorld :=
  ⟨ring, w.inUse.drop (ring.sq.khead - w.ring.sq.khead).toNat⟩

def step (w : SlotWorld) : SlotStep → SlotWorld
  | .getSqe =>
    match w.ring.getSqe with
    | (some slot, ring) => ⟨ring, w.inUse ++ [slot]⟩
    | (none, ring) => ⟨ring, w.inUse⟩
  | .submit msghdrs => w.consumed (w.ring.submit msghdrs).2
  | .consume n =>
    let n := min n (w.ring.sq.ktail - w.ring.sq.khead).toNat
    w.consumed { w.ring with sq.khead := w.ring.sq.khead + BitVec.ofNat 32 n }

def run (w : SlotWorld) (steps : List SlotStep) : SlotWorld :=
  steps.foldl step w

end SlotWorld

def SubmissionQueue.count (sq : SubmissionQueue) : Nat :=
  (sq.sqeTail - sq.khead).toNat

-- A ring of `2 ^ k` entries, whose counters may stand anywhere and may have wrapped.
structure SubmissionQueue.Counters (k : Nat) (sq : SubmissionQueue) : Prop where
  width : k < 32
  mask : sq.kringMask = BitVec.ofNat 32 (2 ^ k - 1)
  entries : sq.kringEntries = BitVec.ofNat 32 (2 ^ k)
  length : sq.sqes.length = 2 ^ k
  submitted : (sq.ktail - sq.khead).toNat ≤ sq.count
  fits : sq.count ≤ 2 ^ k

-- The slots of the entries between the head and the tail are in use.
def SlotWorld.start (ring : Wrapper) : SlotWorld :=
  ⟨ring, (List.range ring.sq.count).map fun i => ring.sq.slot (ring.sq.khead + BitVec.ofNat 32 i)⟩

-- The counters are those of a queue, and the slots in use are those of its entries.
def SlotWorld.Inv (k : Nat) (w : SlotWorld) : Prop :=
  ∃ head queue lag, Queue k w.ring.sq head queue lag
    ∧ w.inUse = (List.range' head queue.length).map (· % 2 ^ k)

variable {k : Nat} {w : SlotWorld} {ring : Wrapper}

theorem SubmissionQueue.Counters.queue {sq : SubmissionQueue} (h : sq.Counters k)
    : ∃ queue, Queue k sq sq.khead.toNat queue (sq.ktail - sq.khead).toNat ∧ queue.length = sq.count := by
  have hofNat : ∀ b : BitVec 32, BitVec.ofNat 32 (sq.khead.toNat + (b - sq.khead).toNat) = b := by
    intro b
    rw [BitVec.ofNat_add, BitVec.ofNat_toNat, BitVec.ofNat_toNat, BitVec.setWidth_eq, BitVec.setWidth_eq,
      BitVec.add_comm, BitVec.sub_add_cancel]
  refine ⟨(List.range sq.count).map fun i => sq.get ((sq.khead.toNat + i) % 2 ^ k),
    ⟨h.width, h.mask, h.entries, h.length,
    ?_, ?_, ?_, ?_, ?_, ?_⟩, by simp⟩
  . rw [BitVec.ofNat_toNat, BitVec.setWidth_eq]
  . exact (hofNat sq.ktail).symm
  . rw [List.length_map, List.length_range]
    exact (hofNat sq.sqeTail).symm
  . rw [List.length_map, List.length_range]
    exact h.submitted
  . rw [List.length_map, List.length_range]
    exact h.fits
  . intro i hi
    simp

theorem SlotWorld.Inv.start (h : ring.sq.Counters k) : (SlotWorld.start ring).Inv k := by
  obtain ⟨queue, hqueue, hlen⟩ := h.queue
  refine ⟨_, queue, _, hqueue, ?_⟩
  rw [hlen]
  apply List.ext_getElem
  . simp [SlotWorld.start]
  . intro i _ _
    have hslot := hqueue.slot (ring.sq.khead.toNat + i)
    rw [BitVec.ofNat_add, BitVec.ofNat_toNat, BitVec.setWidth_eq] at hslot
    simpa [SlotWorld.start] using hslot

-- The kernel has taken the first `n` entries.
theorem SlotWorld.Inv.consumed {head lag n : Nat} {queue : List Sqe} {lag' : Nat}
    (hqueue : Queue k w.ring.sq head queue lag) (huse : w.inUse = (List.range' head queue.length).map (· % 2 ^ k))
    (hn : n ≤ queue.length) (h : Queue k ring.sq (head + n) (queue.drop n) lag')
    : (w.consumed ring).Inv k := by
  have hpow := hqueue.pow_le
  have hfits := hqueue.fits
  refine ⟨head + n, queue.drop n, lag', h, ?_⟩
  unfold SlotWorld.consumed
  dsimp only
  rw [h.khead, hqueue.khead, Ring.toNat_sub (by omega) (by omega), Nat.add_sub_cancel_left, huse, ← List.map_drop,
    List.drop_range', Nat.mul_one, List.length_drop]

theorem SlotWorld.Inv.step (h : w.Inv k) (s : SlotStep) : (w.step s).Inv k := by
  obtain ⟨head, queue, lag, hqueue, huse⟩ := h
  cases s with
  | getSqe =>
    by_cases hroom : queue.length < 2 ^ k
    . obtain ⟨slot, sq, hget, -, hlast⟩ := hqueue.getSqe hroom
      refine ⟨head, queue ++ [initializeSqe (w.ring.sq.get slot)], lag, ?_, ?_⟩
      . simp only [SlotWorld.step, Wrapper.getSqe, hget]
        exact hlast.toQueue
      . simp only [SlotWorld.step, Wrapper.getSqe, hget]
        rw [huse, List.length_append, List.length_singleton, List.range'_concat, List.map_append, List.map_singleton,
          hlast.slot_eq, Nat.one_mul]
    . have hfits := hqueue.fits
      refine ⟨head, queue, lag, ?_, ?_⟩
      . simp only [SlotWorld.step, Wrapper.getSqe, hqueue.getSqe_full (by omega)]
        exact hqueue
      . simp only [SlotWorld.step, Wrapper.getSqe, hqueue.getSqe_full (by omega)]
        exact huse
  | submit msghdrs =>
    obtain ⟨n, hsubmit⟩ := hqueue.submit msghdrs
    have hle := hsubmit.le
    exact .consumed hqueue huse (by omega) hsubmit.toQueue
  | consume n =>
    have hpow := hqueue.pow_le
    have hfits := hqueue.fits
    have hlag := hqueue.lag_le
    have hcount : (w.ring.sq.ktail - w.ring.sq.khead).toNat = lag := by
      rw [hqueue.ktail, hqueue.khead, Ring.toNat_sub (by omega) (by omega), Nat.add_sub_cancel_left]
    unfold SlotWorld.step
    dsimp only
    rw [hcount]
    exact .consumed hqueue huse (by omega) (hqueue.take (Nat.min_le_right n lag))

theorem SlotWorld.Inv.run (h : w.Inv k) (steps : List SlotStep) : (w.run steps).Inv k :=
  foldl_invariant steps (fun _ s _ h => h.step s) h

/--
Whatever the two sides do, there are never more entries in the ring than it has slots, `get_sqe` fails exactly when
all of them are in use, and the slot that it returns otherwise is not in use.
-/
theorem run_allocates_free_slots (h : ring.sq.Counters k) (steps : List SlotStep)
    : ((SlotWorld.start ring).run steps).ring.sq.count ≤ 2 ^ k
      ∧ (((SlotWorld.start ring).run steps).ring.getSqe.1 = none
        ↔ ((SlotWorld.start ring).run steps).ring.sq.count = 2 ^ k)
      ∧ ∀ slot, ((SlotWorld.start ring).run steps).ring.getSqe.1 = some slot
        → slot < 2 ^ k ∧ slot ∉ ((SlotWorld.start ring).run steps).inUse := by
  obtain ⟨head, queue, lag, hqueue, huse⟩ := (SlotWorld.Inv.start h).run steps
  generalize (SlotWorld.start ring).run steps = w at hqueue huse ⊢
  have hcount : w.ring.sq.count = queue.length := hqueue.count
  have hfits := hqueue.fits
  rw [hcount]
  refine ⟨hfits, ?_, ?_⟩
  . by_cases hroom : queue.length < 2 ^ k
    . obtain ⟨slot, sq, hget, -, -⟩ := hqueue.getSqe hroom
      simp [Wrapper.getSqe, hget, Nat.ne_of_lt hroom]
    . have hfull : queue.length = 2 ^ k := by omega
      simp [Wrapper.getSqe, hqueue.getSqe_full hfull, hfull]
  . intro slot hslot
    by_cases hroom : queue.length < 2 ^ k
    . obtain ⟨slot', sq, hget, -, hlast⟩ := hqueue.getSqe hroom
      simp only [Wrapper.getSqe, hget, Option.some.injEq] at hslot
      subst hslot
      rw [hlast.slot_eq, huse]
      refine ⟨Nat.mod_lt _ (Nat.two_pow_pos k), ?_⟩
      intro hmem
      obtain ⟨i, hi, heq⟩ := List.mem_map.mp hmem
      rw [List.mem_range'_1] at hi
      exact Ring.mod_ne_of_lt (by omega) (by omega) heq
    . simp [Wrapper.getSqe, hqueue.getSqe_full (by omega)] at hslot

-- The tail has wrapped and the head has not, one slot is left.
def wrappedRing : Wrapper :=
  { Wrapper.init 2 3 (2 ^ 32 - 3) 0 [] with sq.sqeTail := 0 }

theorem wrappedRing_allocates
    : ((SlotWorld.start wrappedRing).run [.getSqe]).ring.sq.count = 2 ^ 2
      ∧ ((SlotWorld.start wrappedRing).run [.getSqe]).ring.getSqe.1 = none := by
  have hcounters : wrappedRing.sq.Counters 2 := ⟨by decide, rfl, rfl, rfl, by decide, by decide⟩
  have hcount : ((SlotWorld.start wrappedRing).run [.getSqe]).ring.sq.count = 2 ^ 2 := by decide
  exact ⟨hcount, (run_allocates_free_slots hcounters [.getSqe]).2.1.mpr hcount⟩

end Uring
end Event
end Ezio
