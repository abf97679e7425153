import Ezio.Event.Epoll.Lemmas.Listed

/-!
This module contains what `apply_changes` makes of the interest list of the kernel.
-/

namespace Ezio
namespace Event

open EStateM (Preserves Triple)

namespace Kernel

variable (k : Kernel) (op : CtlOp) (fd ptr : Nat) (mask : Mask)

def hasRead (fd : Nat) : Bool := (k.interest fd).any fun p => p.1.read

def hasWrite (fd : Nat) : Bool := (k.interest fd).any fun p => p.1.write

theorem epollCtl_interest_of_ne {fd' : Nat} (h : fd' ≠ fd)
    : (k.epollCtl op fd mask ptr).2.interest fd' = k.interest fd' := by
  unfold epollCtl
  dsimp only
  split
  . rfl
  . split
    . rfl
    . split <;> simp [h]

theorem epollCtl_isOpen : (k.epollCtl op fd mask ptr).2.isOpen = k.isOpen := by
  unfold epollCtl
  dsimp only
  split
  . rfl
  . split
    . rfl
    . split <;> rfl

theorem epollCtl_ctlErrs : (k.epollCtl op fd mask ptr).2.ctlErrs = k.ctlErrs.tail := by
  unfold epollCtl
  dsimp only
  split
  . rfl
  . split
    . rfl
    . split <;> rfl

end Kernel

namespace Epoll

theorem applyOneChange_interest_of_ne (s : Epoll) {id k : Nat} (hk : k ≠ (s.infos id).fd.key)
    : (s.applyOneChange id).kernel.interest k = s.kernel.interest k := by
  unfold applyOneChange removeEventInfo
  dsimp only
  split
  . split <;> rfl
  . split
    . split
      . split <;> exact Kernel.epollCtl_interest_of_ne _ _ _ _ _ hk
      . exact Kernel.epollCtl_interest_of_ne _ _ _ _ _ hk
    . split
      . exact Kernel.epollCtl_interest_of_ne _ _ _ _ _ hk
      . rw [modifyInfo_kernel]
        split
        . exact Kernel.epollCtl_interest_of_ne _ _ _ _ _ hk
        . split
          all_goals
            simp only [modifyInfo_kernel]
            rw [Kernel.epollCtl_interest_of_ne _ _ _ _ _ hk,
              Kernel.epollCtl_interest_of_ne _ _ _ _ _ hk]

theorem applyOneChange_isOpen (s : Epoll) (id : Nat)
    : (s.applyOneChange id).kernel.isOpen = s.kernel.isOpen := by
  unfold applyOneChange removeEventInfo
  dsimp only
  split
  . split <;> rfl
  . split
    . split
      . split <;> exact Kernel.epollCtl_isOpen _ _ _ _ _
      . exact Kernel.epollCtl_isOpen _ _ _ _ _
    . split
      . exact Kernel.epollCtl_isOpen _ _ _ _ _
      . rw [modifyInfo_kernel]
        split
        . exact Kernel.epollCtl_isOpen _ _ _ _ _
        . split
          all_goals
            simp only [modifyInfo_kernel]
            rw [Kernel.epollCtl_isOpen, Kernel.epollCtl_isOpen]

theorem applyOneChange_ctlErrs {s : Epoll} (h : s.kernel.ctlErrs = []) (id : Nat)
    : (s.applyOneChange id).kernel.ctlErrs = [] := by
  unfold applyOneChange removeEventInfo
  dsimp only
  split
  . split <;> exact h
  . split
    . split
      . split <;> simp [Kernel.epollCtl_ctlErrs, h]
      . simp [Kernel.epollCtl_ctlErrs, h]
    . split
      . simp [Kernel.epollCtl_ctlErrs, h]
      . rw [modifyInfo_kernel]
        split
        . simp [Kernel.epollCtl_ctlErrs, h]
        . split <;> simp [Kernel.epollCtl_ctlErrs, h]

-- An `event_info` in use ends up registered, whether the kernel knew the file or not.
theorem applyOneChange_registers {s : Epoll} {id : Nat}
    (hopen : s.kernel.isOpen (s.infos id).fd.key = true) (hctl : s.kernel.ctlErrs = [])
    (huse : (s.infos id).action.isNoneEvt = false)
    : (s.applyOneChange id).kernel.interest (s.infos id).fd.key =
          some ({ (s.infos id).action.events with et := (s.infos id).events.et }, id)
        ∧ (s.applyOneChange id).fdToEventInfo = s.fdToEventInfo := by
  unfold applyOneChange changeOp
  cases hin : (s.infos id).isInEpoll with
  | true =>
    cases hint : s.kernel.interest (s.infos id).fd.key with
    | none => simp [huse, hin, Kernel.epollCtl, hctl, hopen, hint, retryOp]
    | some p => simp [huse, hin, Kernel.epollCtl, hctl, hopen, hint]
  | false =>
    cases hint : s.kernel.interest (s.infos id).fd.key with
    | none => simp [huse, hin, Kernel.epollCtl, hctl, hopen, hint]
    | some p => simp [huse, hin, Kernel.epollCtl, hctl, hopen, hint, retryOp]

@[simp]
theorem setReadCb_kernel (s : Epoll) (id : Nat) (cb : Option ReadCallback)
    : (s.setReadCb id cb).kernel = s.kernel := by
  unfold setReadCb
  split <;> rfl

@[simp]
theorem setWriteCb_kernel (s : Epoll) (id : Nat) (cb : Option Callback)
    : (s.setWriteCb id cb).kernel = s.kernel := by
  unfold setWriteCb
  split <;> rfl

@[simp]
theorem pushToChangeList_kernel (s : Epoll) (id : Nat)
    : (s.pushToChangeList id).kernel = s.kernel := by
  unfold pushToChangeList
  split <;> rfl

@[simp]
theorem watchRead_kernel (s : Epoll) (id : Nat) : (s.watchRead id).kernel = s.kernel := by
  unfold watchRead
  split <;> simp

@[simp]
theorem watchWrite_kernel (s : Epoll) (id : Nat) : (s.watchWrite id).kernel = s.kernel := by
  unfold watchWrite
  split <;> simp

theorem pushToChangeList_evtChangeLst (s : Epoll) (id : Nat)
    : (s.pushToChangeList id).evtChangeLst =
        if (s.infos id).isInChangeList then s.evtChangeLst else s.evtChangeLst ++ [id] := by
  unfold pushToChangeList
  split <;> rfl

theorem watchRead_evtChangeLst (s : Epoll) (id : Nat)
    : (s.watchRead id).evtChangeLst =
        if (s.infos id).events.read || (s.infos id).isInChangeList then s.evtChangeLst
        else s.evtChangeLst ++ [id] := by
  unfold watchRead
  split
  next h => simp [h]
  next h =>
    rw [pushToChangeList_evtChangeLst]
    simp [h]

theorem watchWrite_evtChangeLst (s : Epoll) (id : Nat)
    : (s.watchWrite id).evtChangeLst =
        if (s.infos id).events.write || (s.infos id).isInChangeList then s.evtChangeLst
        else s.evtChangeLst ++ [id] := by
  unfold watchWrite
  split
  next h => simp [h]
  next h =>
    rw [pushToChangeList_evtChangeLst]
    simp [h]

-- The bit in `event_info` that suppresses another change is backed by one that is still to come or by
-- the kernel.
def backsRead (s : Epoll) (k : Nat) : Bool :=
  match s.fdToEventInfo k with
  | none => true
  | some id => !(s.infos id).events.read || (s.infos id).isInChangeList || s.kernel.hasRead k

def backsWrite (s : Epoll) (k : Nat) : Bool :=
  match s.fdToEventInfo k with
  | none => true
  | some id => !(s.infos id).events.write || (s.infos id).isInChangeList || s.kernel.hasWrite k

theorem SameReg.backsRead {s s' : Epoll} (h : SameReg s s') (k : Nat)
    : s'.backsRead k = s.backsRead k := by
  simp [Epoll.backsRead, h.map, h.bits, h.flag, h.kernel]

end Epoll

end Event
end Ezio
