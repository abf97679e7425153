import Ezio.Event.IoUring.Lemmas.Submit
import Ezio.Event.IoUring.Lemmas.Effect

/-!
This module contains the history of the submission queue: all the entries that were ever prepared, the
ones that the kernel has executed followed by the ones still in the ring. A step adds at most one entry
to its end.
-/

namespace Ezio
namespace Event
namespace Uring

theorem Wrapper.execute_sqe (msghdrs : Nat → Msghdr) (sqe : Sqe)
    : (execute msghdrs sqe).sqe = sqe := by
  unfold execute
  split
  . rfl
  . rfl

def Tracks (k : Nat) (w : Wrapper) (hist : List Sqe) : Prop :=
  ∃ head queue lag, Queue k w.sq head queue lag ∧ Behind w.asked lag
    ∧ hist = w.executed.map (·.sqe) ++ queue

theorem Tracks.init {k : Nat} (c sqStart cqStart : Nat) (enters : List EnterRet) (hk : k < 32)
    : Tracks k (Wrapper.init k c sqStart cqStart enters) [] :=
  ⟨_, _, _, Queue.init c sqStart cqStart enters hk, ⟨rfl, fun p hp => by cases hp⟩, rfl⟩

theorem Tracks.executed_length {k : Nat} {w : Wrapper} {hist : List Sqe} (h : Tracks k w hist)
    : w.executed.length ≤ hist.length := by
  obtain ⟨head, queue, lag, hqueue, hbehind, hhist⟩ := h
  rw [hhist]
  simp

-- The entry that `get_sqe` would hand out next.
def Wrapper.nextSqe (w : Wrapper) : Sqe :=
  w.sq.get (w.sq.slot w.sq.sqeTail)

-- An effect has prepared the entry `q`. If its submission has failed, the kernel has not taken all that
-- it was asked to.
structure Adds (F : (Sqe → Sqe) → Prop) (w : Wrapper) (ret : Int) (w' : Wrapper) (q : Sqe)
    : Prop where
  fills : ∃ f, F f ∧ q = f (initializeSqe w.nextSqe)
  room : w.sq.getSqe.1 ≠ none
  ret : ret = -1 → ∃ p ∈ w'.asked, p.2 ≠ p.1

variable {k head lag : Nat} {F : (Sqe → Sqe) → Prop} {w w' : Wrapper} {ret : Int}
  {queue hist : List Sqe}

theorem Submitted.tracks {msghdrs : Nat → Msghdr} {n : Nat}
    (h : Submitted k msghdrs w head queue lag n) (hlag : lag ≤ queue.length)
    (hbehind : Behind w.asked lag)
    : Tracks k (w.submit msghdrs).2 (w.executed.map (·.sqe) ++ queue) := by
  refine ⟨_, _, _, h.toQueue, h.behind hlag hbehind, ?_⟩
  rw [h.executed, List.map_append, List.map_map]
  have hsqe : (fun e : Executed => e.sqe) ∘ Wrapper.execute msghdrs = id := by
    funext sqe
    exact Wrapper.execute_sqe msghdrs sqe
  rw [hsqe, List.map_id, List.append_assoc, List.take_append_drop]

theorem Queue.getSqe_ne_none {sq : SubmissionQueue} (h : Queue k sq head queue lag)
    (hroom : queue.length < 2 ^ k)
    : sq.getSqe.1 ≠ none := by
  obtain ⟨slot, sq', heq, _⟩ := h.getSqe hroom
  rw [heq]
  exact Option.some_ne_none slot

-- A slot is handed out only if there is room, and then the entry is the last one of the queue.
theorem Queue.of_getIoUringSqe {msghdrs : Nat → Msghdr} {slot : Nat}
    (h : Queue k w.sq head queue lag) (hget : w.getIoUringSqe msghdrs = (some slot, w'))
    : queue.length < 2 ^ k ∧ (∃ sq, w' = { w with sq })
        ∧ Queue.Last k w'.sq head queue (initializeSqe w.nextSqe) lag slot := by
  have hfits := h.fits
  by_cases hroom : queue.length < 2 ^ k
  . obtain ⟨slot', sq, heq, hslot, hlast⟩ := h.getIoUringSqe msghdrs hroom
    rw [hget, Prod.mk.injEq, Option.some.injEq] at heq
    obtain ⟨hslot', hw⟩ := heq
    rw [← hslot', hslot'.trans hslot] at hlast
    refine ⟨hroom, ⟨sq, hw⟩, ?_⟩
    rw [hw, hslot'.trans hslot]
    exact hlast
  . rw [h.getIoUringSqe_full msghdrs (by omega)] at hget
    cases hget

theorem Tracks.submit (h : Tracks k w hist) (msghdrs : Nat → Msghdr)
    : Tracks k (w.submit msghdrs).2 hist := by
  obtain ⟨head, queue, lag, hqueue, hbehind, hhist⟩ := h
  obtain ⟨n, hsub⟩ := hqueue.submit msghdrs
  rw [hhist]
  exact hsub.tracks hqueue.lag_le hbehind

-- The slot that is handed out becomes the last entry.
theorem Tracks.fill {msghdrs : Nat → Msghdr} {slot : Nat} (h : Tracks k w hist)
    (hget : w.getIoUringSqe msghdrs = (some slot, w')) (f : Sqe → Sqe)
    : w.sq.getSqe.1 ≠ none
        ∧ Tracks k (w'.modifySqe slot f) (hist ++ [f (initializeSqe w.nextSqe)]) := by
  obtain ⟨head, queue, lag, hqueue, hbehind, hhist⟩ := h
  obtain ⟨hroom, ⟨sq, hw⟩, hlast⟩ := hqueue.of_getIoUringSqe hget
  refine ⟨hqueue.getSqe_ne_none hroom, head, _, lag, (hlast.modify f).toQueue, ?_, ?_⟩
  . rw [hw]
    exact hbehind
  . rw [hw, hhist, List.append_assoc]
    rfl

theorem Effect.tracks (h : Effect F w ret w') (ht : Tracks k w hist)
    : Tracks k w' hist ∨ ∃ q, Adds F w ret w' q ∧ Tracks k w' (hist ++ [q]) := by
  cases h with
  | same => exact .inl ht
  | @full msghdrs w' hget =>
    obtain ⟨head, queue, lag, hqueue, hbehind, hhist⟩ := ht
    have hlag := hqueue.lag_le
    have hfull : queue.length = 2 ^ k := by
      have hfits := hqueue.fits
      by_contra hne
      obtain ⟨slot, sq, heq, _⟩ := hqueue.getIoUringSqe msghdrs (by omega)
      rw [hget] at heq
      cases heq
    rw [hqueue.getIoUringSqe_full msghdrs hfull] at hget
    cases hget
    obtain ⟨n, hsub⟩ := hqueue.submit msghdrs
    rw [hhist]
    exact .inl (hsub.tracks hlag hbehind)
  | @prepared msghdrs slot w' f hget hfills =>
    obtain ⟨hroom, ht'⟩ := ht.fill hget f
    exact .inr ⟨f (initializeSqe w.nextSqe), ⟨⟨f, hfills, rfl⟩, hroom, fun hret => by cases hret⟩, ht'⟩
  | @submitted msghdrs msghdrs' slot w' f ret hget hfills hret =>
    obtain ⟨hroom, ht'⟩ := ht.fill hget f
    refine .inr ⟨f (initializeSqe w.nextSqe), ⟨⟨f, hfills, rfl⟩, hroom, ?_⟩, ht'.submit msghdrs'⟩
    intro hminus
    have hle := hret hminus
    obtain ⟨head, queue, lag, hqueue, _, _⟩ := ht
    obtain ⟨_, _, hlast⟩ := hqueue.of_getIoUringSqe hget
    have hqueue' := (hlast.modify f).toQueue
    obtain ⟨n, hsub⟩ := Queue.submit (w := w'.modifySqe slot f) hqueue' msghdrs'
    have hlag := hlast.lag_le
    have hsome : 0 < (queue ++ [f (initializeSqe w.nextSqe)]).length - lag := by
      rw [List.length_append, List.length_singleton]
      omega
    have hzero : n = 0 := by
      rcases hsub.ret with hn | hn
      . omega
      . exact hn.2
    rw [hsub.asked, if_pos hsome]
    refine ⟨_, List.mem_append_right _ (List.mem_singleton.mpr rfl), ?_⟩
    dsimp only
    omega
  | flushed msghdrs ret => exact .inl (ht.submit msghdrs)

end Uring
end Event
end Ezio
