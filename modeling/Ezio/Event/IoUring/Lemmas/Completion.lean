import Ezio.Lib.Run
import Ezio.Lib.Ring
import Ezio.Event.IoUring.Lemmas.Turn

/-!
This module contains the completion queue over whole runs: the ring holds the completions that the
kernel has posted and that `cq_consume` has not passed over yet.
-/

namespace Ezio
namespace Event
namespace Uring

open IoUring

-- The rounds of the loop of `dispatch` that are done, and the rounds that there are.
def Phase.done : Phase → Nat
  | .idle => 0
  | .loop i _ => i
  | .callback i _ _ _ => i + 1

def Phase.rounds : Phase → Nat
  | .idle => 0
  | .loop _ ret => ret
  | .callback _ ret _ _ => ret

-- The completions from the `head`-th on are in the ring.
structure Posted (c start : Nat) (cq : CompletionQueue) (produced : List Cqe) (head : Nat)
    : Prop where
  width : c < 32
  mask : cq.kringMask = BitVec.ofNat 32 (2 ^ c - 1)
  entries : cq.kringEntries = BitVec.ofNat 32 (2 ^ c)
  length : cq.cqes.length = 2 ^ c
  khead : cq.khead = BitVec.ofNat 32 (start + head)
  ktail : cq.ktail = BitVec.ofNat 32 (start + produced.length)
  holds : Ring.Holds (2 ^ c) (fun slot => cq.cqes.getD slot {})
    (fun i => produced.getD (i - start) {}) (start + head) (start + produced.length)

structure InOrder (c start : Nat) (w : World) (head : Nat) : Prop where
  posted : Posted c start w.uring.ring.cq w.produced head
  done_le : w.phase.done ≤ w.phase.rounds
  rounds_le : head + w.phase.rounds ≤ w.produced.length
  processed : w.processed = w.produced.take (head + w.phase.done)

variable {c start head : Nat} {cq : CompletionQueue} {produced : List Cqe} {w w' : World}

theorem Posted.pow_le (h : Posted c start cq produced head) : 2 ^ c ≤ 2 ^ 31 := by
  have := h.width
  exact Nat.pow_le_pow_right (by decide) (by omega)

theorem Posted.ready (h : Posted c start cq produced head)
    : (cq.ktail - cq.khead).toNat = produced.length - head := by
  have hpow := h.pow_le
  have hle := h.holds.le
  have hfits := h.holds.fits
  rw [h.ktail, h.khead, Ring.toNat_sub (by omega) (by omega)]
  omega

theorem Posted.getCqe {ring : Wrapper} (h : Posted c start ring.cq produced head) {i : Nat}
    (hi : head + i < produced.length)
    : ring.getCqe i = produced[head + i] := by
  have := h.width
  unfold Wrapper.getCqe
  rw [h.khead, ← BitVec.ofNat_add, h.mask, Ring.toNat_slot (by omega)]
  have hcell := h.holds.cell (start + head + i) (by omega) (by omega)
  rw [hcell, show start + head + i - start = head + i by omega, List.getD_eq_getElem?_getD,
    List.getElem?_eq_getElem hi, Option.getD_some]

theorem Posted.post {ring : Wrapper} (h : Posted c start ring.cq produced head) (cqe : Cqe)
    (hroom : ring.cq.ktail - ring.cq.khead < ring.cq.kringEntries)
    : Posted c start (ring.post cqe).cq (produced ++ [cqe]) head := by
  have hwidth := h.width
  have hpow := h.pow_le
  have hle := h.holds.le
  have hcount : produced.length - head < 2 ^ c := by
    rw [BitVec.lt_def, h.ready, h.entries, BitVec.toNat_ofNat, Nat.mod_eq_of_lt (by omega)] at hroom
    exact hroom
  have hslot : (ring.cq.ktail &&& ring.cq.kringMask).toNat = (start + produced.length) % 2 ^ c := by
    rw [h.ktail, h.mask, Ring.toNat_slot (by omega)]
  unfold Wrapper.post
  rw [if_pos hroom, hslot]
  refine ⟨h.width, h.mask, h.entries, ?_, h.khead, ?_, ?_⟩
  . dsimp only
    rw [List.length_set]
    exact h.length
  . dsimp only
    rw [h.ktail, Ring.ofNat_succ, List.length_append, List.length_singleton, Nat.add_assoc]
  . rw [List.length_append, List.length_singleton, ← Nat.add_assoc]
    refine (h.holds.write (by omega) ?_).push (by omega) ?_ ?_
    . intro slot hne
      dsimp only
      rw [List.getD_eq_getElem?_getD, List.getElem?_set_ne hne.symm, List.getD_eq_getElem?_getD]
    . intro i hlo hhi
      rw [List.getD_eq_getElem?_getD, List.getElem?_append_left (by omega),
        List.getD_eq_getElem?_getD]
    . have hlt : (start + produced.length) % 2 ^ c < ring.cq.cqes.length := by
        rw [h.length]
        exact Nat.mod_lt _ (Nat.two_pow_pos c)
      rw [List.getD_eq_getElem?_getD, List.getElem?_set_self hlt, Nat.add_sub_cancel_left,
        List.getD_eq_getElem?_getD, List.getElem?_concat_length]

-- The head is moved by the count if the sum has not wrapped, or if the count is all there is.
theorem Wrapper.cqConsume_khead_iff (w : Wrapper) (count : BitVec 32)
    : (w.cqConsume count).cq.khead = w.cq.khead + count
        ↔ w.cq.khead + count ≤ w.cq.ktail ∨ count = w.cq.ktail - w.cq.khead := by
  unfold cqConsume
  dsimp only
  split
  . next hlt =>
    rw [BitVec.add_right_inj]
    constructor
    . intro heq
      exact .inr heq.symm
    . intro h
      rcases h with hle | heq
      . exact absurd hle (BitVec.not_le.mpr hlt)
      . exact heq.symm
  . next hlt =>
    constructor
    . intro _
      exact .inl (BitVec.not_lt.mp hlt)
    . intro _
      rfl

theorem Posted.consume {ring : Wrapper} (h : Posted c start ring.cq produced head) {ret : Nat}
    (hret : head + ret ≤ produced.length)
    (hfits : ring.cq.khead + BitVec.ofNat 32 ret ≤ ring.cq.ktail
      ∨ BitVec.ofNat 32 ret = ring.cq.ktail - ring.cq.khead)
    : Posted c start (ring.cqConsume (BitVec.ofNat 32 ret)).cq produced (head + ret) := by
  have hle := h.holds.le
  have hcount := h.holds.fits
  refine ⟨h.width, h.mask, h.entries, h.length, ?_, h.ktail, by omega, by omega, ?_⟩
  . rw [(ring.cqConsume_khead_iff _).mpr hfits, h.khead, ← BitVec.ofNat_add, Nat.add_assoc]
  . intro i hlo hhi
    exact h.holds.cell i (by omega) hhi

theorem toInt32_toNat_le {n : Nat} (hlt : n < 2 ^ 32) (hpos : 0 < toInt32 n)
    : (toInt32 n).toNat ≤ n := by
  by_cases h : n < 2 ^ 31
  . rw [toInt32_of_lt h]
    omega
  . unfold toInt32 at hpos
    rw [Int.bmod_def] at hpos
    omega

theorem Wrapper.waitCqeTimeout_le (w : Wrapper) (errno : Option Nat)
    (hpos : 0 < w.waitCqeTimeout errno)
    : (w.waitCqeTimeout errno).toNat ≤ (w.cq.ktail - w.cq.khead).toNat := by
  unfold waitCqeTimeout at hpos ⊢
  cases errno with
  | some errno =>
    dsimp only at hpos
    omega
  | none =>
    dsimp only at hpos ⊢
    split at hpos
    . omega
    . next hsome =>
      rw [if_neg hsome]
      exact toInt32_toNat_le (BitVec.isLt _) hpos

-- When `cq_consume` is called, adding the count to the head must not go beyond the tail as numbers.
def Step.fits (w : World) (st : Step) : Bool :=
  match st, w.phase with
  | .consume, .loop i ret =>
    i < ret || w.uring.ring.cq.khead + BitVec.ofNat 32 ret ≤ w.uring.ring.cq.ktail
      || BitVec.ofNat 32 ret = w.uring.ring.cq.ktail - w.uring.ring.cq.khead
  | _, _ => true

theorem Step.fits_consume {i ret : Nat} (h : Step.fits w .consume) (hloop : w.phase = .loop i ret)
    (hdone : ¬i < ret)
    : w.uring.ring.cq.khead + BitVec.ofNat 32 ret ≤ w.uring.ring.cq.ktail
        ∨ BitVec.ofNat 32 ret = w.uring.ring.cq.ktail - w.uring.ring.cq.khead := by
  simpa [Step.fits, hloop, hdone] using h

theorem InOrder.step {st : Step} (h : InOrder c start w head) (hfits : st.fits w)
    : ∃ head', InOrder c start (w.step st) head' := by
  have hdone := h.done_le
  have hrounds := h.rounds_le
  cases w.step_turns st with
  | stays hcq hstays =>
    refine ⟨head, ?_, ?_, ?_, ?_⟩
    . rw [hcq, hstays.produced]
      exact h.posted
    . rw [hstays.phase]
      exact hdone
    . rw [hstays.phase, hstays.produced]
      exact hrounds
    . rw [hstays.phase, hstays.processed, hstays.produced]
      exact h.processed
  | @posted n e cqe he hdata horigin hroom hcq hphase hproduced hprocessed hcallbacks =>
    refine ⟨head, ?_, ?_, ?_, ?_⟩
    . rw [hcq, hproduced]
      exact h.posted.post cqe hroom
    . rw [hphase]
      exact hdone
    . rw [hphase, hproduced, List.length_append]
      omega
    . rw [hphase, hprocessed, hproduced, h.processed, List.take_append_of_le_length]
      omega
  | waited errno hst hidle hsome heq =>
    have hle := w.uring.ring.waitCqeTimeout_le errno hsome
    rw [h.posted.ready] at hle
    have hposted := h.posted.holds.le
    have hprocessed := h.processed
    rw [hidle] at hprocessed
    rw [heq]
    refine ⟨head, h.posted, Nat.zero_le _, ?_, hprocessed⟩
    dsimp only [Phase.rounds]
    omega
  | @taken i ret hloop hlt hcq hproduced hprocessed hphase hcallbacks =>
    have hold := h.processed
    rw [hloop] at hold hrounds
    dsimp only [Phase.done, Phase.rounds] at hold hrounds
    have hnext : (w.step st).processed = w.produced.take (head + (i + 1)) := by
      rw [hprocessed, hold, h.posted.getCqe (show head + i < w.produced.length by omega),
        ← List.take_succ_eq_append_getElem, Nat.add_assoc]
    have hphase' : (w.step st).phase.done = i + 1 ∧ (w.step st).phase.rounds = ret := by
      rcases hphase with hphase | ⟨_, called, hphase⟩
      . rw [hphase]
        exact ⟨rfl, rfl⟩
      . rw [hphase]
        exact ⟨rfl, rfl⟩
    refine ⟨head, ?_, ?_, ?_, ?_⟩
    . rw [hcq, hproduced]
      exact h.posted
    . rw [hphase'.1, hphase'.2]
      omega
    . rw [hphase'.2, hproduced]
      exact hrounds
    . rw [hphase'.1, hproduced]
      exact hnext
  | @finished i ret cqe called hphase hcq hproduced hprocessed hcallbacks hphase' =>
    have hold := h.processed
    rw [hphase] at hold hrounds hdone
    refine ⟨head, ?_, ?_, ?_, ?_⟩
    . rw [hcq, hproduced]
      exact h.posted
    . rw [hphase']
      exact hdone
    . rw [hphase', hproduced]
      exact hrounds
    . rw [hphase', hprocessed, hproduced]
      exact hold
  | @consumed i ret hst hloop hlt heq =>
    have hold := h.processed
    rw [hloop] at hold hrounds hdone
    dsimp only [Phase.done, Phase.rounds] at hold hrounds hdone
    rw [hst] at hfits
    have hposted := h.posted.consume hrounds (Step.fits_consume hfits hloop hlt)
    rw [heq]
    refine ⟨head + ret, hposted, Nat.le_refl _, hrounds, ?_⟩
    dsimp only [Phase.done]
    rw [hold, show i = ret by omega]
    rfl

theorem InOrder.init {c : Nat} (k sqStart cqStart : Nat) (enters : List EnterRet) (hc : c < 32)
    (hasTimeoutMultishot : Bool)
    : InOrder c cqStart
        { uring := .init hasTimeoutMultishot (Wrapper.init k c sqStart cqStart enters) } 0 := by
  refine ⟨⟨hc, rfl, rfl, List.length_replicate, rfl, rfl, Nat.le_refl _, ?_, ?_⟩, Nat.le_refl _,
    Nat.le_refl _, rfl⟩
  . simp
  . intro i hlo hhi
    dsimp only [List.length_nil] at hhi
    omega

theorem InOrder.unprocessed (h : InOrder c start w head) (hidle : w.phase = .idle)
    : w.produced.length - w.processed.length = w.produced.length - head := by
  have hprocessed := h.processed
  have hrounds := h.rounds_le
  rw [hidle] at hprocessed hrounds
  dsimp only [Phase.done, Phase.rounds] at hprocessed hrounds
  rw [hprocessed, List.length_take]
  omega

-- The next `dispatch` goes through all the completions that are not processed yet.
theorem InOrder.wait (h : InOrder c start w head) (hidle : w.phase = .idle) (hfault : w.fault = none)
    (hsome : w.processed.length < w.produced.length)
    (hint : w.produced.length - w.processed.length < 2 ^ 31)
    : (w.step (.wait none)).phase = .loop 0 (w.produced.length - w.processed.length) := by
  have hready := h.posted.ready
  rw [← h.unprocessed hidle] at hready
  have hwait : w.uring.ring.waitCqeTimeout none = (w.produced.length - w.processed.length : Nat) := by
    unfold Wrapper.waitCqeTimeout
    dsimp only
    rw [hready, if_neg (by omega), toInt32_of_lt hint]
  unfold World.step World.tryStep
  rw [hfault, hidle]
  dsimp only
  rw [hwait, if_pos (by omega)]
  rfl

theorem run_processes_once (c : Nat) (hc : c < 32)
    : (∀ (w : Wrapper) (count : BitVec 32), count ≤ w.cq.ktail - w.cq.khead
        → ((w.cqConsume count).cq.khead = w.cq.khead + count
          ↔ w.cq.khead + count ≤ w.cq.ktail ∨ count = w.cq.ktail - w.cq.khead))
      ∧ ∀ (k sqStart cqStart : Nat) (enters : List EnterRet) (hasTimeoutMultishot : Bool)
          (steps : List Step),
        Along World.step (fun w st => st.fits w)
            { uring := .init hasTimeoutMultishot (Wrapper.init k c sqStart cqStart enters) } steps
          → let w := World.run
              { uring := .init hasTimeoutMultishot (Wrapper.init k c sqStart cqStart enters) } steps
            w.processed <+: w.produced
              ∧ (w.phase = .idle
                → (w.uring.ring.cq.ktail - w.uring.ring.cq.khead).toNat
                    = w.produced.length - w.processed.length)
              ∧ (w.phase = .idle → w.fault = none → w.processed.length < w.produced.length
                → w.produced.length - w.processed.length < 2 ^ 31
                → (w.step (.wait none)).phase
                    = .loop 0 (w.produced.length - w.processed.length)) := by
  refine ⟨?_, ?_⟩
  . intro w count _
    exact w.cqConsume_khead_iff count
  . intro k sqStart cqStart enters hasTimeoutMultishot steps hfits w
    have hinv : ∃ head, InOrder c cqStart w head := by
      apply hfits.invariant (I := fun w => ∃ head, InOrder c cqStart w head)
      . intro w st h hst
        obtain ⟨head, h⟩ := h
        exact h.step hst
      . exact ⟨0, InOrder.init k sqStart cqStart enters hc hasTimeoutMultishot⟩
    obtain ⟨head, hinv⟩ := hinv
    refine ⟨?_, ?_, ?_⟩
    . rw [hinv.processed]
      exact List.take_prefix _ _
    . intro hidle
      rw [hinv.unprocessed hidle]
      exact hinv.posted.ready
    . intro hidle hfault hsome hint
      exact hinv.wait hidle hfault hsome hint

-- Three writes complete, the first one before `dispatch` is called and the others during its callback.
def lateCompletions : List Step :=
  let write : Op := .submitAsyncWrite ⟨3, .tcp⟩ (some ⟨100, [⟨4096, 5⟩]⟩) 1 (some 7) none
  [.op write, .op write, .op write, .complete 0 5 0, .wait none, .next, .complete 1 5 0,
    .complete 2 5 0, .finish, .consume]

-- The tail wraps around while the callback runs.
def wrappingTail : World :=
  World.run { uring := .init true (Wrapper.init 2 3 0 (2 ^ 32 - 2) []) } lateCompletions

theorem wrappingTail_loses
    : wrappingTail.phase = .idle ∧ wrappingTail.processed.length = 1
        ∧ wrappingTail.produced.length = 3
        ∧ wrappingTail.uring.ring.cq.khead = wrappingTail.uring.ring.cq.ktail
        ∧ (wrappingTail.step (.wait none)).phase = .idle := by
  decide +kernel

theorem lateCompletions_inOrder
    : (World.run { uring := .init true (Wrapper.init 2 3 0 0 []) } lateCompletions).processed
        <+: (World.run { uring := .init true (Wrapper.init 2 3 0 0 []) } lateCompletions).produced := by
  exact ((run_processes_once 3 (by decide)).2 2 0 0 [] true lateCompletions (by decide +kernel)).1

end Uring
end Event
end Ezio
