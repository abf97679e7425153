import Ezio.Event.IoUring.Lemmas.InFlight

/-!
This module contains the runs in which every completion is routed to the operation that has caused it. No
`complete_action` is released in them as long as it is carried, so that it makes no difference whether its address is
used again.
-/

namespace Ezio
namespace Event
namespace Uring

open IoUring

variable {k c start : Nat} {f : Flight}

namespace Flight

-- Neither the last user of a slot nor a `complete_action` that has been released leads a completion astray.
structure Routes (f : Flight) (st : Step) : Prop extends f.Safe st where
  clean : st.Clean f.world

theorem Routes.of_zero {st : Step} (hfreed : ∀ a ∈ st.frees f.world, a ∉ f.carried)
    (hstranded : st.strands f.world = false)
    (hslot : st.own f.world = none
      ∨ f.world.uring.ring.nextSqe.userData = 0 ∧ st.frees f.world ≠ some 0)
    : f.Routes st := by
  refine ⟨.of_zero hfreed hstranded hslot, ?_⟩
  intro own hown
  rcases hslot with hnone | ⟨hzero, _⟩
  . rw [hown] at hnone
    cases hnone
  . exact .inr (.inl hzero)

-- What is known of a run whose steps all route.
structure Routed (k c start : Nat) (f : Flight) : Prop where
  sound : Sound k c start f
  routed : AllRouted k f.world

theorem Routed.step {st : Step} (h : Routed k c start f) (hroutes : f.Routes st) : Routed k c start (f.step st) := by
  refine ⟨h.sound.step hroutes.toSafe, ?_⟩
  rcases f.step_cases st with heq | ⟨hworld, _, _⟩
  . rw [heq]
    exact h.routed
  . rw [hworld]
    exact h.routed.step hroutes.clean

end Flight

/--
In every run whose steps all route, every entry that the kernel has taken or that is in the ring carries the
`complete_action` of its own operation or 0, and every callback is that of the operation that has caused the completion.
What may still complete carries nothing that has been released.
-/
theorem run_routes (k c sqStart cqStart : Nat) (enters : List EnterRet) (hk : k < 32) (hc : c < 32)
    (hasTimeoutMultishot : Bool) (steps : List Step)
    (hroutes : Along Flight.step Flight.Routes
      (.init hasTimeoutMultishot (Wrapper.init k c sqStart cqStart enters)) steps)
    : let f := steps.foldl Flight.step (.init hasTimeoutMultishot (Wrapper.init k c sqStart cqStart enters))
      let ring := f.world.uring.ring
      (∀ e ∈ ring.executed, e.sqe.Routed)
        ∧ (∀ q ∈ ring.sq.pending (ring.sq.sqeTail - ring.sq.khead).toNat, q.Routed)
        ∧ (∀ c ∈ f.world.callbacks, c.Routed)
        ∧ f.Owned := by
  intro f ring
  have hinv : Flight.Routed k c cqStart f :=
    hroutes.invariant (fun _ _ h hst => h.step hst)
      ⟨Flight.Sound.init k c sqStart cqStart enters hk hc hasTimeoutMultishot,
        AllRouted.init c sqStart cqStart enters hk hasTimeoutMultishot⟩
  refine ⟨hinv.routed.executed, ?_, hinv.routed.callbacks, hinv.sound.toOwned⟩
  obtain ⟨hist, htracks, hrouted⟩ := hinv.routed.tracks
  intro q hq
  apply hrouted
  rw [htracks.pending]
  exact List.mem_append_right _ hq

-- A ring of one entry: a write, and a cancel that takes the slot after it.
def reusedSlot : List Step :=
  [.op sampleWrite, .op (.cancelAsyncRead ⟨3, .tcp⟩ (some 8)), .complete 1 0 0, .wait none, .next]

theorem reusedSlot_misroutes
    : let f := reusedSlot.foldl Flight.step (.init true (Wrapper.init 0 1 0 0 []))
      f.world.uring.ring.executed.map (fun e => (e.sqe.userData, e.sqe.origin.action)) = [(1, some 1), (1, some 2)]
        ∧ f.world.callbacks.map (fun c => (c.cb, c.action, c.origin.action)) = [(7, 1, some 2)] := by
  decide +kernel

-- A timer is closed after its request has ended and another one takes its place, then a write is cancelled.
def freshSlots : List Step :=
  [.op (.createTimer 1 0 (some 6)), .complete 0 (-62) 0, .wait none, .next, .finish, .consume, .op (.closeTimer 0),
    .op (.createTimer 2 0 (some 9)), .op sampleWrite, .op (.cancelAsyncRead ⟨3, .tcp⟩ (some 8)),
    .complete 3 5 0, .complete 2 (-62) 2, .wait none, .next, .finish, .next]

theorem freshSlots_routes
    : let f := freshSlots.foldl Flight.step (.init true (Wrapper.init 3 3 0 0 []))
      f.world.callbacks.map (fun c => (c.cb, c.action, c.origin.action))
        = [(6, 1, some 1), (7, 3, some 3), (9, 2, some 2)]
        ∧ f.world.uring.ring.executed.length = 5 ∧ ∀ e ∈ f.world.uring.ring.executed, e.sqe.Routed := by
  refine ⟨by decide +kernel, by decide +kernel, (run_routes 3 3 0 0 [] (by decide) (by decide) true freshSlots ?_).1⟩
  unfold freshSlots Along
  refine ⟨?_, ?_, ?_, ?_, ?_, ?_, ?_, ?_, ?_, ?_, ?_, ?_, ?_, ?_, ?_, ?_, trivial⟩
  all_goals exact .of_zero (by decide +kernel) (by decide +kernel) (by decide +kernel)

end Uring
end Event
end Ezio
