import Ezio.Lib.Run
import Ezio.Event.IoUring.Lemmas.Step

/-!
This module contains the conditions under which no entry is left behind in the submission queue:
`submit` asks only for what was prepared since the call before, so that whatever the kernel has left
stays in the ring.
-/

namespace Ezio
namespace Event
namespace Uring

open IoUring

variable {k head lag : Nat} {queue hist : List Sqe} {w w' : Wrapper}

-- The calls that fill and flush the ring.
inductive WrapperCall where
  | getSqe
  | submit
  deriving DecidableEq, Repr

def Wrapper.call (w : Wrapper) : WrapperCall → Wrapper
  | .getSqe => w.getSqe.2
  | .submit => (w.submit fun _ => {}).2

theorem Tracks.call (h : Tracks k w hist) (c : WrapperCall) : ∃ hist', Tracks k (w.call c) hist' := by
  obtain ⟨head, queue, lag, hqueue, hbehind, hhist⟩ := h
  cases c with
  | getSqe =>
    unfold Wrapper.call Wrapper.getSqe
    have hfits := hqueue.fits
    by_cases hroom : queue.length < 2 ^ k
    . obtain ⟨slot, sq, heq, _, hlast⟩ := hqueue.getSqe hroom
      dsimp only
      rw [heq]
      exact ⟨_, _, _, _, hlast.toQueue, hbehind, rfl⟩
    . dsimp only
      rw [hqueue.getSqe_full (by omega)]
      exact ⟨_, _, _, _, hqueue, hbehind, rfl⟩
  | submit =>
    obtain ⟨n, hsub⟩ := hqueue.submit fun _ => {}
    exact ⟨_, hsub.tracks hqueue.lag_le hbehind⟩

-- After a call in which the kernel takes all it is asked to, the ring is empty if and only if the
-- kernel was not behind before.
theorem Tracks.khead_eq_sqeTail_iff (h : Tracks k w hist) (msghdrs : Nat → Msghdr)
    (hall : ∀ p ∈ (w.submit msghdrs).2.asked.drop w.asked.length, p.2 = p.1)
    : (w.submit msghdrs).2.sq.khead = (w.submit msghdrs).2.sq.sqeTail
        ↔ ∀ p ∈ w.asked, p.2 = p.1 := by
  obtain ⟨head, queue, lag, hqueue, hbehind, hhist⟩ := h
  obtain ⟨n, hsub⟩ := hqueue.submit msghdrs
  have hlag := hqueue.lag_le
  have hfits := hqueue.fits
  have hpow := hqueue.pow_le
  have hle := hsub.le
  have hn : n = queue.length - lag := by
    rw [hsub.asked] at hall
    by_cases hsome : 0 < queue.length - lag
    . rw [if_pos hsome, List.drop_left] at hall
      exact hall _ (List.mem_singleton.mpr rfl)
    . omega
  rw [hsub.toQueue.khead, hsub.toQueue.sqeTail, ← hbehind.zero_iff]
  rw [Ring.ofNat_eq_iff (by omega) (by rw [List.length_drop]; omega), List.length_drop]
  omega

theorem Effect.asked {F : (Sqe → Sqe) → Prop} {ret : Int} (h : Effect F w ret w')
    (ht : Tracks k w hist)
    : w.asked <+: w'.asked := by
  obtain ⟨head, queue, lag, hqueue, hbehind, hhist⟩ := ht
  have hfits := hqueue.fits
  cases h with
  | same => exact List.prefix_refl _
  | @full msghdrs w' hget =>
    by_cases hroom : queue.length < 2 ^ k
    . obtain ⟨slot, sq, heq, _⟩ := hqueue.getIoUringSqe msghdrs hroom
      rw [hget] at heq
      cases heq
    . rw [hqueue.getIoUringSqe_full msghdrs (by omega)] at hget
      cases hget
      exact w.submit_asked msghdrs
  | @prepared msghdrs slot w' f hget hfills =>
    obtain ⟨_, ⟨sq, hw⟩, _⟩ := hqueue.of_getIoUringSqe hget
    rw [hw]
    exact List.prefix_refl _
  | @submitted msghdrs msghdrs' slot w' f ret hget hfills hret =>
    obtain ⟨_, ⟨sq, hw⟩, _⟩ := hqueue.of_getIoUringSqe hget
    rw [hw]
    exact Wrapper.submit_asked ({ w with sq }.modifySqe slot f) msghdrs'
  | flushed msghdrs ret => exact w.submit_asked msghdrs

-- The calls that have returned -1 have left no entry, as long as the kernel was never behind.
structure NoneLeft (k : Nat) (w : World) : Prop where
  tracks : ∃ hist, Tracks k w.uring.ring hist ∧ (∀ q ∈ hist, q.origin.call < w.uring.calls)
      ∧ ((∀ p ∈ w.uring.ring.asked, p.2 = p.1)
        → ∀ n op, (n, op, (-1 : Int)) ∈ w.returned → ∀ q ∈ hist, q.origin.call ≠ n)
  returned : ∀ r ∈ w.returned, r.1 < w.uring.calls

theorem Fills.origin {call : Nat} {own : Option (Option Nat)} {f : Sqe → Sqe} (h : Fills call own f)
    (q : Sqe)
    : (f q).origin.call = call := by
  cases h with
  | sets action f horigin hdata => rw [horigin]
  | keeps own f horigin hdata => rw [horigin]

-- `failed` is whether the call with the number `w.uring.calls` returns -1.
theorem NoneLeft.effect {own : Option (Option Nat)} {submitted : Int} {w w' : World}
    {returned : List (Nat × Op × Int)} (h : NoneLeft k w)
    (heffect : Effect (Fills w.uring.calls own) w.uring.ring submitted w'.uring.ring)
    (hcalls : w'.uring.calls = w.uring.calls + 1)
    (hreturned : w'.returned = w.returned ++ returned)
    (hret : ∀ r ∈ returned, r.1 = w.uring.calls ∧ (r.2.2 = -1 → submitted = -1))
    : NoneLeft k w' := by
  obtain ⟨hist, htracks, hbound, hnone⟩ := h.tracks
  have hasked := heffect.asked htracks
  have hold : (∀ p ∈ w'.uring.ring.asked, p.2 = p.1) → ∀ n op, (n, op, (-1 : Int)) ∈ w.returned
      → ∀ q ∈ hist, q.origin.call ≠ n := by
    intro hall
    apply hnone
    intro p hp
    exact hall p (hasked.subset hp)
  refine ⟨?_, ?_⟩
  . rcases heffect.tracks htracks with htracks' | ⟨q, hadds, htracks'⟩
    . refine ⟨hist, htracks', ?_, ?_⟩
      . intro q hq
        have := hbound q hq
        omega
      . intro hall n op hmem q hq
        rw [hreturned, List.mem_append] at hmem
        rcases hmem with hmem | hmem
        . exact hold hall n op hmem q hq
        . have hn := (hret _ hmem).1
          have := hbound q hq
          dsimp only at hn
          omega
    . obtain ⟨f, hfills, hq⟩ := hadds.fills
      have hcall : q.origin.call = w.uring.calls := by
        rw [hq]
        exact hfills.origin _
      refine ⟨hist ++ [q], htracks', ?_, ?_⟩
      . intro q' hq'
        rw [List.mem_append, List.mem_singleton] at hq'
        rcases hq' with hq' | hq'
        . have := hbound q' hq'
          omega
        . rw [hq']
          omega
      . intro hall n op hmem q' hq'
        rw [hreturned, List.mem_append] at hmem
        rw [List.mem_append, List.mem_singleton] at hq'
        rcases hmem with hmem | hmem
        . rcases hq' with hq' | hq'
          . exact hold hall n op hmem q' hq'
          . have hn := h.returned _ hmem
            rw [hq', hcall]
            dsimp only at hn
            omega
        . obtain ⟨hn, hminus⟩ := hret _ hmem
          obtain ⟨p, hp, hne⟩ := hadds.ret (hminus rfl)
          exact absurd (hall p hp) hne
  . intro r hr
    rw [hreturned, List.mem_append] at hr
    rcases hr with hr | hr
    . have := h.returned r hr
      omega
    . have := (hret r hr).1
      omega

theorem NoneLeft.step {w : World} {st : Step} (h : NoneLeft k w)
    (hwraps : ∀ op, st = .op op → op.idWraps w.uring = false)
    : NoneLeft k (w.step st) := by
  cases w.step_moves st with
  | quiet hrest hreturned =>
    obtain ⟨hist, htracks, hbound, hnone⟩ := h.tracks
    refine ⟨⟨hist, ?_, ?_, ?_⟩, ?_⟩
    . rw [hrest.ring]
      exact htracks
    . rw [hrest.calls]
      exact hbound
    . rw [hrest.ring, hreturned]
      exact hnone
    . rw [hreturned, hrest.calls]
      exact h.returned
  | @called submitted ret op hst heffect hcalls hreturned hret =>
    refine h.effect heffect hcalls hreturned ?_
    intro r hr
    rw [List.mem_singleton] at hr
    rw [hr]
    exact ⟨rfl, fun hminus => hret hminus (hwraps op hst)⟩
  | performed heffect hcalls hreturned =>
    refine h.effect heffect hcalls (hreturned.trans (List.append_nil _).symm) ?_
    intro r hr
    cases hr
  | turned cq hring hcalls hreturned =>
    obtain ⟨hist, htracks, hbound, hnone⟩ := h.tracks
    refine ⟨⟨hist, ?_, ?_, ?_⟩, ?_⟩
    . rw [hring]
      exact htracks
    . rw [hcalls]
      exact hbound
    . rw [hring, hreturned]
      exact hnone
    . rw [hreturned, hcalls]
      exact h.returned

-- No call of the step is a `create_timer` whose id is -1.
def Step.IdFits (w : World) (st : Step) : Prop :=
  ∀ op, st = .op op → op.idWraps w.uring = false

theorem run_none_left_behind (k c sqStart cqStart : Nat) (enters : List EnterRet) (hk : k < 32)
    : (∀ calls : List WrapperCall,
        let w := calls.foldl Wrapper.call (Wrapper.init k c sqStart cqStart enters)
        let w' := (w.submit fun _ => {}).2
        (∀ p ∈ w'.asked.drop w.asked.length, p.2 = p.1)
          → (w'.sq.khead = w'.sq.sqeTail ↔ ∀ p ∈ w.asked, p.2 = p.1))
      ∧ ∀ (hasTimeoutMultishot : Bool) (steps : List Step),
        let w : World :=
          { uring := .init hasTimeoutMultishot (Wrapper.init k c sqStart cqStart enters) }
        Along World.step Step.IdFits w steps
          → (∀ p ∈ (w.run steps).uring.ring.asked, p.2 = p.1)
          → ∀ n op, (n, op, (-1 : Int)) ∈ (w.run steps).returned
          → ∀ e ∈ (w.run steps).uring.ring.executed, e.sqe.origin.call ≠ n := by
  refine ⟨?_, ?_⟩
  . intro calls w w' hall
    have htracks : ∃ hist, Tracks k w hist := by
      apply foldl_invariant (I := fun w => ∃ hist, Tracks k w hist) calls
      . intro w c _ h
        obtain ⟨hist, h⟩ := h
        exact h.call c
      . exact ⟨[], Tracks.init c sqStart cqStart enters hk⟩
    obtain ⟨hist, htracks⟩ := htracks
    exact htracks.khead_eq_sqeTail_iff _ hall
  . intro hasTimeoutMultishot steps w hfits hall n op hmem e he
    have hinit : NoneLeft k w := by
      refine ⟨⟨[], Tracks.init c sqStart cqStart enters hk, ?_, ?_⟩, ?_⟩
      . intro q hq
        cases hq
      . intro _ n op hmem
        cases hmem
      . intro r hr
        cases hr
    have hinv : NoneLeft k (w.run steps) :=
      hfits.invariant (fun w st h hst => h.step hst) hinit
    obtain ⟨hist, ⟨head, queue, lag, hqueue, hbehind, hhist⟩, hbound, hnone⟩ := hinv.tracks
    refine hnone hall n op hmem e.sqe ?_
    rw [hhist]
    exact List.mem_append_left _ (List.mem_map_of_mem he)

def sampleWrite : Op :=
  .submitAsyncWrite ⟨3, .tcp⟩ (some ⟨100, [⟨4096, 5⟩]⟩) 1 (some 7) none

-- Two writes, the first `io_uring_enter` fails.
def failedEnter : World :=
  ({ uring := .init true (Wrapper.init 2 3 0 0 [.fail 10, .all]) } : World).run
    [.op sampleWrite, .op sampleWrite]

theorem failedEnter_left_behind
    : (0, sampleWrite, (-1 : Int)) ∈ failedEnter.returned
        ∧ (∃ e ∈ failedEnter.uring.ring.executed, e.sqe.origin.call = 0)
        ∧ failedEnter.uring.ring.asked = [(1, 0), (1, 1)]
        ∧ failedEnter.uring.ring.sq.khead ≠ failedEnter.uring.ring.sq.sqeTail := by
  decide +kernel

-- A call that fails its check and one that goes through, the kernel takes all it is asked to.
def fullEnters : List Step :=
  [.op (.submitAsyncWrite ⟨-1, .tcp⟩ none 0 none none), .op sampleWrite]

theorem fullEnters_none_left_behind
    : (∀ e ∈ (({ uring := .init true (Wrapper.init 2 3 0 0 []) } : World).run
          fullEnters).uring.ring.executed, e.sqe.origin.call ≠ 0)
        ∧ (([WrapperCall.getSqe].foldl Wrapper.call (Wrapper.init 2 3 0 0 [])).submit
            fun _ => {}).2.sq.khead
          =
          (([WrapperCall.getSqe].foldl Wrapper.call (Wrapper.init 2 3 0 0 [])).submit
            fun _ => {}).2.sq.sqeTail := by
  have h := run_none_left_behind 2 3 0 0 [] (by decide)
  refine ⟨?_, ?_⟩
  . refine h.2 true fullEnters ⟨?_, ?_, trivial⟩ (by decide +kernel) 0
      (.submitAsyncWrite ⟨-1, .tcp⟩ none 0 none none) (by decide +kernel)
    . intro op hop
      cases hop
      rfl
    . intro op hop
      cases hop
      rfl
  . exact (h.1 [.getSqe] (by decide +kernel)).mpr (by decide +kernel)

end Uring
end Event
end Ezio
