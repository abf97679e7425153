import Ezio.Event.IoUring.Lemmas.Step

/-!
This module contains what a step of the io_uring backend can do to the completion queue and to the loop
of `dispatch` that goes through it.
-/

namespace Ezio
namespace Event
namespace Uring

open IoUring

theorem Wrapper.submit_cq (w : Wrapper) (msghdrs : Nat → Msghdr) : (w.submit msghdrs).2.cq = w.cq := by
  unfold submit
  dsimp only
  split
  . obtain ⟨n, _, hstate, _⟩ := enter_spec { w with sq.ktail := w.sq.sqeTail } msghdrs
      (w.sq.sqeTail - w.sq.ktail).toNat
    rw [hstate]
    rfl
  . rfl

theorem Wrapper.getIoUringSqe_cq (w : Wrapper) (msghdrs : Nat → Msghdr)
    : (w.getIoUringSqe msghdrs).2.cq = w.cq := by
  have hget : ∀ w : Wrapper, w.getSqe.2.cq = w.cq := fun _ => rfl
  have hsubmit := w.getSqe.2.submit_cq msghdrs
  rw [hget] at hsubmit
  unfold getIoUringSqe
  cases heq : w.getSqe with
  | mk slot w₁ =>
    rw [heq] at hsubmit
    cases slot with
    | some slot =>
      have := hget w
      rw [heq] at this
      exact this
    | none =>
      dsimp only
      split
      . rw [hget]
        exact hsubmit
      . exact hsubmit

theorem Effect.cq {F : (Sqe → Sqe) → Prop} {w w' : Wrapper} {ret : Int} (h : Effect F w ret w')
    : w'.cq = w.cq := by
  cases h with
  | same => rfl
  | @full msghdrs w' hget =>
    have hcq := w.getIoUringSqe_cq msghdrs
    rw [hget] at hcq
    exact hcq
  | @prepared msghdrs slot w' f hget hfills =>
    have hcq := w.getIoUringSqe_cq msghdrs
    rw [hget] at hcq
    exact hcq
  | @submitted msghdrs msghdrs' slot w' f ret hget hfills hret =>
    have hcq := w.getIoUringSqe_cq msghdrs
    rw [hget] at hcq
    exact (Wrapper.submit_cq _ msghdrs').trans hcq
  | flushed msghdrs ret => exact w.submit_cq msghdrs

-- The loop of `dispatch` stands where it stood.
structure Stays (w w' : World) : Prop where
  phase : w'.phase = w.phase
  produced : w'.produced = w.produced
  processed : w'.processed = w.processed
  callbacks : w'.callbacks = w.callbacks

theorem Stays.refl (w : World) : Stays w w := ⟨rfl, rfl, rfl, rfl⟩

-- The callback that a completion is handed to.
def Hands (w : World) (cqe : Cqe) (c : Called) : Prop :=
  c.origin = cqe.origin ∧ c.action = cqe.userData
    ∧ ∃ a cb, w.uring.actions cqe.userData = some a ∧ a.callback = some cb ∧ c.res = World.resOf cb cqe.res
      ∧ World.calledWith cb = some (c.cb, c.buffer, c.bufferIovCnt)

inductive Turns (w : World) (st : Step) (w' : World) : Prop where
  | stays (hcq : w'.uring.ring.cq = w.uring.ring.cq) (hstays : Stays w w')
  | posted {n : Nat} {e : Executed} (cqe : Cqe) (he : w.uring.ring.executed[n]? = some e)
      (hdata : cqe.userData = e.sqe.userData) (horigin : cqe.origin = e.sqe.origin)
      (hroom : w.uring.ring.cq.ktail - w.uring.ring.cq.khead < w.uring.ring.cq.kringEntries)
      (hcq : w'.uring.ring.cq = (w.uring.ring.post cqe).cq)
      (hphase : w'.phase = w.phase) (hproduced : w'.produced = w.produced ++ [cqe])
      (hprocessed : w'.processed = w.processed) (hcallbacks : w'.callbacks = w.callbacks)
      (hst : ∃ res flags, st = .complete n res flags)
  | waited (errno : Option Nat) (hst : st = .wait errno) (hidle : w.phase = .idle)
      (hsome : 0 < w.uring.ring.waitCqeTimeout errno)
      (heq : w' = { w with phase := .loop 0 (w.uring.ring.waitCqeTimeout errno).toNat })
  | taken {i ret : Nat} (hloop : w.phase = .loop i ret) (hlt : i < ret)
      (hcq : w'.uring.ring.cq = w.uring.ring.cq) (hproduced : w'.produced = w.produced)
      (hprocessed : w'.processed = w.processed ++ [w.uring.ring.getCqe i])
      (hphase : w'.phase = .loop (i + 1) ret
        ∨ (w.uring.ring.getCqe i).userData ≠ 0
          ∧ ∃ called, w'.phase = .callback i ret (w.uring.ring.getCqe i) called)
      (hcallbacks : w'.callbacks = w.callbacks
        ∨ (w.uring.ring.getCqe i).userData ≠ 0
          ∧ ∃ c, Hands w (w.uring.ring.getCqe i) c ∧ w'.callbacks = w.callbacks ++ [c])
  | finished {i ret : Nat} {cqe : Cqe} {called : Bool} (hphase : w.phase = .callback i ret cqe called)
      (hcq : w'.uring.ring.cq = w.uring.ring.cq) (hproduced : w'.produced = w.produced)
      (hprocessed : w'.processed = w.processed) (hcallbacks : w'.callbacks = w.callbacks)
      (hphase' : w'.phase = .loop (i + 1) ret)
  | consumed {i ret : Nat} (hst : st = .consume) (hloop : w.phase = .loop i ret) (hdone : ¬i < ret)
      (heq : w' = { w with
        uring.ring := w.uring.ring.cqConsume (BitVec.ofNat 32 ret), phase := .idle })

namespace World

variable {w w' : World}

theorem next_turns {st : Step} {i ret : Nat} (hloop : w.phase = .loop i ret) (hlt : i < ret)
    (h : w.next i ret = .ok w')
    : Turns w st w' := by
  have htakes := next_takes h
  rcases htakes.completes with ⟨hcallbacks, hrest⟩ | ⟨hdata, w₀, w₁, hcompletes, huring, hcall, huring', hcall'⟩
  . refine .taken hloop hlt ?_ htakes.produced htakes.processed htakes.phase (.inl hcallbacks)
    rw [hrest.ring]
  . have heffect := hcompletes.effect
    have hcq : w'.uring.ring.cq = w.uring.ring.cq := by
      rw [huring, ← huring'] at heffect
      rcases heffect with hrest | ⟨_, submitted, heffect⟩
      . rw [hrest.ring]
      . exact heffect.cq
    refine .taken hloop hlt hcq htakes.produced htakes.processed htakes.phase ?_
    rw [hcall', ← hcall]
    rcases hcompletes.callbacks with hnone | ⟨c, a, hsome, horigin, haction, ha, cb, hcb, hargs⟩
    . exact .inl hnone
    . rw [huring] at ha
      exact .inr ⟨hdata, c, ⟨horigin, haction, a, cb, ha, hcb, hargs⟩, hsome⟩

theorem finish_turns {st : Step} {i ret : Nat} {cqe : Cqe} {called : Bool}
    (hphase : w.phase = .callback i ret cqe called) (h : w.finish i ret cqe called = .ok w')
    : Turns w st w' := by
  have hfinishes := finish_finishes h
  refine .finished hphase ?_ hfinishes.produced hfinishes.processed hfinishes.callbacks hfinishes.phase
  rcases hfinishes.effect with hrest | ⟨_, _, submitted, heffect⟩
  . rw [hrest.ring]
  . exact heffect.cq

theorem tryStep_turns {st : Step} (h : w.tryStep st = .ok w') : Turns w st w' := by
  cases tryStep_tries h with
  | idle => exact .stays rfl (Stays.refl _)
  | called op =>
    obtain ⟨submitted, heffect, _⟩ := (run_performs (s := w.uring) op).effect
    exact .stays heffect.cq ⟨rfl, rfl, rfl, rfl⟩
  | @posted n e cqe res flags he hcqe hmoved =>
    refine .posted cqe he (by rw [hcqe]) (by rw [hcqe]) ?_ rfl rfl rfl rfl rfl ⟨res, flags, rfl⟩
    by_contra hroom
    unfold Wrapper.post at hmoved
    rw [if_neg hroom] at hmoved
    exact hmoved rfl
  | waited hidle hsome => exact .waited _ rfl hidle hsome rfl
  | taken hloop hlt hnext => exact next_turns hloop hlt hnext
  | finished hphase hfinish => exact finish_turns hphase hfinish
  | consumed hloop hdone => exact .consumed rfl hloop hdone rfl

theorem step_turns (w : World) (st : Step) : Turns w st (w.step st) := by
  unfold step
  split
  . exact .stays rfl (Stays.refl _)
  . split
    . next w' h => exact tryStep_turns h
    . exact .stays rfl ⟨rfl, rfl, rfl, rfl⟩

-- What is known of the entries that were executed is known of their completions.
theorem step_cqes {S : Origin → Nat → Prop} (st : Step)
    (hexecuted : ∀ e ∈ w.uring.ring.executed, S e.sqe.origin e.sqe.userData)
    (hcqes : ∀ cqe ∈ w.uring.ring.cq.cqes, S cqe.origin cqe.userData)
    : ∀ cqe ∈ (w.step st).uring.ring.cq.cqes, S cqe.origin cqe.userData := by
  cases w.step_turns st with
  | stays hcq =>
    rw [hcq]
    exact hcqes
  | @posted n e cqe he hdata horigin hroom hcq =>
    rw [hcq]
    unfold Wrapper.post
    rw [if_pos hroom]
    intro cqe' hcqe'
    rcases List.mem_or_eq_of_mem_set hcqe' with hold | hnew
    . exact hcqes cqe' hold
    . rw [hnew, hdata, horigin]
      exact hexecuted e (List.mem_of_getElem? he)
  | waited errno hst hidle hsome heq =>
    rw [heq]
    exact hcqes
  | taken hloop hlt hcq =>
    rw [hcq]
    exact hcqes
  | finished hphase hcq =>
    rw [hcq]
    exact hcqes
  | consumed hst hloop hdone heq =>
    rw [heq]
    exact hcqes

-- A step calls at most one callback, for the completion that the loop has come to.
theorem step_callbacks (w : World) (st : Step)
    : (w.step st).callbacks = w.callbacks
        ∨ ∃ i c, (w.uring.ring.getCqe i).userData ≠ 0 ∧ Hands w (w.uring.ring.getCqe i) c
          ∧ (w.step st).callbacks = w.callbacks ++ [c] := by
  cases w.step_turns st with
  | stays hcq hstays => exact .inl hstays.callbacks
  | posted cqe he hdata horigin hroom hcq hphase hproduced hprocessed hcallbacks =>
    exact .inl hcallbacks
  | waited errno hst hidle hsome heq =>
    rw [heq]
    exact .inl rfl
  | @taken i ret hloop hlt hcq hproduced hprocessed hphase hcallbacks =>
    rcases hcallbacks with hsame | ⟨hdata, c, hhands, hadds⟩
    . exact .inl hsame
    . exact .inr ⟨i, c, hdata, hhands, hadds⟩
  | finished hphase hcq hproduced hprocessed hcallbacks => exact .inl hcallbacks
  | consumed hst hloop hdone heq =>
    rw [heq]
    exact .inl rfl

end World

end Uring
end Event
end Ezio
