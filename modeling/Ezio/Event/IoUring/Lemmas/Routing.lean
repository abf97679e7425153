import Ezio.Event.IoUring.Lemmas.Lag
import Ezio.Event.IoUring.Lemmas.Turn
import Ezio.Lib.List

/-!
This module contains the routing of completions. `get_sqe` hands out a slot with the `user_data` that
its last user has left there, and the operations that do not set it are routed to that user.
-/

namespace Ezio
namespace Event
namespace Uring

open IoUring

def Sqe.Routed (q : Sqe) : Prop := q.userData = 0 ∨ q.origin.action = some q.userData

def Cqe.Routed (cqe : Cqe) : Prop := cqe.userData = 0 ∨ cqe.origin.action = some cqe.userData

def Called.Routed (c : Called) : Prop := c.origin.action = some c.action

-- An operation that does not set `user_data` gets no slot, or one that holds 0 or its own
-- `complete_action`.
def Step.Clean (w : World) (st : Step) : Prop :=
  ∀ own, st.own w = some own
    → w.uring.ring.sq.getSqe.1 = none ∨ w.uring.ring.nextSqe.userData = 0
      ∨ own = some w.uring.ring.nextSqe.userData

structure AllRouted (k : Nat) (w : World) : Prop where
  tracks : ∃ hist, Tracks k w.uring.ring hist ∧ ∀ q ∈ hist, q.Routed
  cqes : ∀ cqe ∈ w.uring.ring.cq.cqes, cqe.Routed
  callbacks : ∀ c ∈ w.callbacks, c.Routed

variable {k : Nat} {w w' : World}

theorem Fills.routed {call : Nat} {own : Option (Option Nat)} {f : Sqe → Sqe} {q : Sqe}
    (h : Fills call own f) (hclean : ∀ o, own = some o → q.userData = 0 ∨ o = some q.userData)
    : (f q).Routed := by
  unfold Sqe.Routed
  cases h with
  | sets action f horigin hdata =>
    right
    rw [horigin, hdata]
  | keeps o f horigin hdata =>
    rw [horigin, hdata]
    exact hclean o rfl

theorem AllRouted.effect {st : Step} {submitted : Int} (h : AllRouted k w) (hclean : st.Clean w)
    (heffect : Effect (Fills w.uring.calls (st.own w)) w.uring.ring submitted w'.uring.ring)
    : ∃ hist, Tracks k w'.uring.ring hist ∧ ∀ q ∈ hist, q.Routed := by
  obtain ⟨hist, htracks, hrouted⟩ := h.tracks
  rcases heffect.tracks htracks with htracks' | ⟨q, hadds, htracks'⟩
  . exact ⟨hist, htracks', hrouted⟩
  . refine ⟨hist ++ [q], htracks', ?_⟩
    intro q' hq'
    rw [List.mem_append, List.mem_singleton] at hq'
    rcases hq' with hq' | hq'
    . exact hrouted q' hq'
    . obtain ⟨f, hfills, hq⟩ := hadds.fills
      rw [hq', hq]
      apply hfills.routed
      intro o ho
      exact (hclean o ho).resolve_left hadds.room

theorem AllRouted.hist_step {st : Step} (h : AllRouted k w) (hclean : st.Clean w)
    : ∃ hist, Tracks k (w.step st).uring.ring hist ∧ ∀ q ∈ hist, q.Routed := by
  cases w.step_moves st with
  | quiet hrest hreturned =>
    rw [hrest.ring]
    exact h.tracks
  | called op hst heffect hcalls hreturned hret => exact h.effect hclean heffect
  | performed heffect hcalls hreturned => exact h.effect hclean heffect
  | turned cq hring hcalls hreturned =>
    rw [hring]
    exact h.tracks

theorem AllRouted.executed (h : AllRouted k w)
    : ∀ e ∈ w.uring.ring.executed, e.sqe.Routed := by
  intro e he
  obtain ⟨hist, ⟨head, queue, lag, hqueue, hbehind, hhist⟩, hrouted⟩ := h.tracks
  apply hrouted
  rw [hhist]
  exact List.mem_append_left _ (List.mem_map_of_mem he)

theorem AllRouted.getCqe (h : AllRouted k w) (i : Nat) : (w.uring.ring.getCqe i).Routed := by
  unfold Wrapper.getCqe
  rcases getD_mem_or_eq w.uring.ring.cq.cqes _ {} with hmem | heq
  . exact h.cqes _ hmem
  . rw [heq]
    exact .inl rfl

theorem AllRouted.callbacks_step {st : Step} (h : AllRouted k w)
    : ∀ c ∈ (w.step st).callbacks, c.Routed := by
  rcases w.step_callbacks st with hsame | ⟨i, c, hdata, ⟨horigin, haction, _⟩, hadds⟩
  . rw [hsame]
    exact h.callbacks
  . rw [hadds]
    intro c' hc'
    rw [List.mem_append, List.mem_singleton] at hc'
    rcases hc' with hc' | hc'
    . exact h.callbacks c' hc'
    . rw [hc']
      unfold Called.Routed
      rw [horigin, haction]
      exact (h.getCqe i).resolve_left hdata

theorem AllRouted.step {st : Step} (h : AllRouted k w) (hclean : st.Clean w)
    : AllRouted k (w.step st) :=
  ⟨h.hist_step hclean,
    World.step_cqes (S := fun origin data => data = 0 ∨ origin.action = some data) st h.executed h.cqes,
    h.callbacks_step⟩

theorem AllRouted.init {k : Nat} (c sqStart cqStart : Nat) (enters : List EnterRet) (hk : k < 32)
    (hasTimeoutMultishot : Bool)
    : AllRouted k
        { uring := .init hasTimeoutMultishot (Wrapper.init k c sqStart cqStart enters) } := by
  refine ⟨⟨[], Tracks.init c sqStart cqStart enters hk, ?_⟩, ?_, ?_⟩
  . intro q hq
    cases hq
  . intro cqe hcqe
    rw [List.eq_of_mem_replicate hcqe]
    exact .inl rfl
  . intro c hc
    cases hc

theorem Tracks.pending {w : Wrapper} {hist : List Sqe} (h : Tracks k w hist)
    : hist = w.executed.map (·.sqe) ++ w.sq.pending (w.sq.sqeTail - w.sq.khead).toNat := by
  obtain ⟨head, queue, lag, hqueue, hbehind, hhist⟩ := h
  rw [hqueue.count, hqueue.pending (Nat.le_refl _), List.take_length, hhist]

end Uring
end Event
end Ezio
