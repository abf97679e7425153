import Ezio.Event.IoUring.Dispatch

/-!
This module contains the branches of a step of the backend, a case for each of them that does something.
-/

namespace Ezio
namespace Event
namespace Uring

-- What a step that does not fail does.
inductive Tries (w : World) : Step → World → Prop where
  | idle (st : Step) (hop : ∀ op, st ≠ .op op) : Tries w st w
  | called (op : Op)
      : Tries w (.op op) { w with
          uring := (w.uring.exec op).2
          returned := w.returned ++ [(w.uring.calls, op, (w.uring.exec op).1)] }
  | posted {n : Nat} {e : Executed} {cqe : Cqe} {res : Int} {flags : BitVec 32}
      (he : w.uring.ring.executed[n]? = some e) (hcqe : cqe = ⟨e.sqe.userData, res, flags, e.sqe.origin⟩)
      (hmoved : (w.uring.ring.post cqe).cq.ktail ≠ w.uring.ring.cq.ktail)
      : Tries w (.complete n res flags) { w with
          uring.ring := w.uring.ring.post cqe
          produced := w.produced ++ [cqe] }
  | waited {errno : Option Nat} (hidle : w.phase = .idle) (hsome : 0 < w.uring.ring.waitCqeTimeout errno)
      : Tries w (.wait errno) { w with phase := .loop 0 (w.uring.ring.waitCqeTimeout errno).toNat }
  | taken {w' : World} {i ret : Nat} (hloop : w.phase = .loop i ret) (hlt : i < ret) (hnext : w.next i ret = .ok w')
      : Tries w .next w'
  | finished {w' : World} {i ret : Nat} {cqe : Cqe} {called : Bool} (hphase : w.phase = .callback i ret cqe called)
      (hfinish : w.finish i ret cqe called = .ok w')
      : Tries w .finish w'
  | consumed {i ret : Nat} (hloop : w.phase = .loop i ret) (hdone : ¬i < ret)
      : Tries w .consume { w with
          uring.ring := w.uring.ring.cqConsume (BitVec.ofNat 32 ret)
          phase := .idle }

namespace World

variable {w w' : World}

theorem complete_tries (w : World) (n : Nat) (res : Int) (flags : BitVec 32)
    : Tries w (.complete n res flags) (w.complete n res flags) := by
  have hidle : Tries w (.complete n res flags) w := .idle _ (by simp)
  unfold complete
  split
  . exact hidle
  . next e he =>
    dsimp only
    split
    . exact hidle
    . next hmoved => exact .posted he rfl hmoved

theorem tryStep_tries {st : Step} (h : w.tryStep st = .ok w') : Tries w st w' := by
  cases st with
  | op op =>
    cases h
    exact .called op
  | complete n res flags =>
    cases h
    exact complete_tries w n res flags
  | wait errno =>
    have hidle : Tries w (.wait errno) w := .idle _ (by simp)
    unfold tryStep at h
    dsimp only at h
    split at h
    . next hphase =>
      cases h
      split
      . next hsome => exact .waited hphase hsome
      . exact hidle
    . cases h
      exact hidle
  | next =>
    have hidle : Tries w .next w := .idle _ (by simp)
    unfold tryStep at h
    dsimp only at h
    split at h
    . next hloop =>
      split at h
      . next hlt => exact .taken hloop hlt h
      . cases h
        exact hidle
    . cases h
      exact hidle
  | finish =>
    unfold tryStep at h
    dsimp only at h
    split at h
    . next hphase => exact .finished hphase h
    . cases h
      exact .idle _ (by simp)
  | consume =>
    have hidle : Tries w .consume w := .idle _ (by simp)
    unfold tryStep at h
    dsimp only at h
    split at h
    . next hloop =>
      cases h
      split
      . exact hidle
      . next hdone => exact .consumed hloop hdone
    . cases h
      exact hidle

end World

end Uring
end Event
end Ezio
