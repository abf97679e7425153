import Ezio.Event.Epoll.Lemmas.Listed

/-!
This module contains the integrity of `evt_change_lst_` over whole runs, where the calls of `epoll_ctl` return
anything.
-/

namespace Ezio
namespace Event

open EStateM (Preserves Triple)

-- The file is registered unless `op` is to add it.
def Kernel.readyFor (op : CtlOp) (mask : Mask) (ptr : Nat) (ctlErrs : List (Option Errno)) : Kernel where
  interest := fun _ => if op = .add then none else some (mask, ptr)
  isOpen := fun _ => true
  ctlErrs := ctlErrs

-- Whatever a call of `epoll_ctl` and the one that is tried after it return, there is a kernel that answers so.
theorem Kernel.exists_results (op : CtlOp) (fd : Nat) (mask : Mask) (ptr : Nat) (ret retry : Option Errno)
    : ∃ k : Kernel, (k.epollCtl op fd mask ptr).1 = ret
        ∧ ∀ e op', ret = some e → Epoll.retryOp op e = some op'
          → ((k.epollCtl op fd mask ptr).2.epollCtl op' fd mask ptr).1 = retry := by
  cases ret with
  | none =>
    refine ⟨readyFor op mask ptr [], ?_, fun _ _ h => by cases h⟩
    cases op <;> simp [epollCtl, readyFor]
  | some e =>
    refine ⟨readyFor ((Epoll.retryOp op e).getD op) mask ptr [some e, retry], by simp [epollCtl, readyFor], ?_⟩
    rintro e' op' ⟨⟩ hretry
    rw [hretry]
    cases retry with
    | some e' => simp [epollCtl, readyFor]
    | none => cases op' <;> simp [epollCtl, readyFor]

namespace Epoll

-- What holds of `evt_change_lst_` and the flags of the `event_info`s between two operations.
structure Intact (s : Epoll) : Prop where
  flag : ∀ k id, s.fdToEventInfo k = some id → ((s.infos id).isInChangeList = true ↔ id ∈ s.evtChangeLst)
  nodup : s.evtChangeLst.Nodup
  mapped : ∀ id ∈ s.evtChangeLst, ∃ k, s.fdToEventInfo k = some id

-- What `apply_changes` and the `clear` after it leave behind.
structure Applied (s : Epoll) : Prop where
  empty : s.evtChangeLst = []
  flag : ∀ k id, s.fdToEventInfo k = some id → (s.infos id).isInChangeList = false

theorem Listed.intact {s : Epoll} (h : s.Listed s.evtChangeLst)
    : s.Intact :=
  ⟨h.flag, h.nodup, fun id hid => ⟨_, h.mapped id hid⟩⟩

theorem Listed.setKernel {s : Epoll} {lst : List Nat} (h : s.Listed lst) (kernel : Kernel)
    : { s with kernel := kernel }.Listed lst :=
  h.of_fields rfl rfl (fun _ => rfl) (fun _ => rfl)

theorem Listed.applied {s : Epoll} (h : s.Listed s.evtChangeLst)
    : s.applyChanges.Applied := by
  refine ⟨rfl, ?_⟩
  intro k id hid
  have hflag := h.applyChanges.flag k id hid
  have hempty : s.applyChanges.evtChangeLst = [] := rfl
  simpa [hempty] using hflag

end Epoll

-- The change list is intact, and it was so before every call that has been made, by the user or by a callback.
structure World.Listed (w : World) : Prop where
  poll : w.poll.Listed w.poll.evtChangeLst
  calls : ∀ op before, Entry.call op before ∈ w.log → before.Listed before.evtChangeLst

namespace World.Listed

variable {w : World}

theorem of_poll (h : w.Listed) {s : Epoll} (hs : s.Listed s.evtChangeLst)
    : { w with poll := s }.Listed :=
  ⟨hs, h.calls⟩

theorem called (h : w.Listed) (op : Op) {s : Epoll} (hs : s.Listed s.evtChangeLst)
    : { w.addLog [.call op w.poll] with poll := s }.Listed := by
  refine ⟨hs, ?_⟩
  intro op' before hmem
  rcases List.mem_append.mp hmem with hmem | hmem
  . exact h.calls op' before hmem
  . cases List.mem_singleton.mp hmem
    exact h.poll

theorem ioFrame {K : Entry → Prop} {i : Nat} : IoFrame i K (fun _ => True) World.Listed := by
  refine ⟨?_, ?_, fun w a _ _ hw => hw.of_poll hw.poll.setAction⟩
  . intro op _
    apply exec_triple
    . intro w r s hw hexec
      exact hw.called op (hw.poll.updates (Epoll.exec_updates hexec))
    . intro w f hw _
      exact hw.called op hw.poll
  . intro w sys user log hlog hw
    refine ⟨hw.poll, ?_⟩
    intro op before hmem
    rcases List.mem_append.mp hmem with hmem | hmem
    . exact hw.calls op before hmem
    -- what is logged on behalf of an action is not a call
    . cases (hlog _ hmem).1

theorem runFrame : RunFrame (fun _ => True) (fun _ => True) World.Listed := by
  have hbuffer : ∀ (w : World) group f, w.Listed → { w with poll := w.poll.modifyBuffer group f }.Listed :=
    fun w group f hw => hw.of_poll (hw.poll.of_fields rfl rfl (fun _ => rfl) (fun _ => rfl))
  have haction : ∀ (w : World) id f, w.Listed → (w.modifyAction id f).Listed :=
    fun w id f hw => hw.of_poll hw.poll.setAction
  constructor
  . refine ⟨fun id => ⟨⟨ioFrame, hbuffer⟩, ?_⟩, fun id => ⟨⟨ioFrame, ?_⟩, ?_⟩, ?_, ?_⟩
    . exact fun w a _ hw => haction w id _ hw
    . exact fun w offset hw => haction w id _ hw
    . exact fun w a _ hw => haction w id _ hw
    . exact fun w id r s hw => haction w id _ hw
    . exact fun w ready _ hw => hw.of_poll (hw.poll.of_fields rfl rfl (fun _ => rfl) (fun _ => rfl))
  . exact fun w hw => hw.of_poll hw.poll.applyChanges
  . exact fun w hw => hw.of_poll (hw.poll.of_fields rfl rfl (fun _ => rfl) (fun _ => rfl))
  . exact fun w errs _ hw => hw.of_poll (hw.poll.setKernel _)

end World.Listed

-- The kernel may be in any state when a step is taken.
def runOn (rounds : List (Kernel × Step)) : EventM Unit :=
  rounds.forM fun r => do
    modify fun w => { w with poll := { w.poll with kernel := r.1 } }
    step r.2

theorem runOn_listed (rounds : List (Kernel × Step))
    : Preserves World.Listed (runOn rounds) := by
  apply Preserves.forM
  intro r _
  apply Preserves.modify_bind
  . exact fun w hw => hw.of_poll (hw.poll.setKernel r.1)
  . have hcalls : r.2.Calls fun _ => True := by
      cases r.2 with
      | op call => trivial
      | dispatch ready sys user ctlErrs => exact fun _ _ _ _ => trivial
    exact World.Listed.runFrame.step hcalls trivial

theorem runOn_changeList_intact (isOpen : Nat → Bool) (rounds : List (Kernel × Step))
    : let w := (runOn rounds (World.init isOpen)).state
      w.poll.Intact
        ∧ (∀ op before, Entry.call op before ∈ w.log → before.Intact)
        ∧ ∀ kernel : Kernel, { w.poll with kernel := kernel }.applyChanges.Applied := by
  have hinit : (World.init isOpen).Listed :=
    ⟨Epoll.Listed.init isOpen, fun _ _ hmem => absurd hmem List.not_mem_nil⟩
  have h := (runOn_listed rounds).state hinit
  refine ⟨h.poll.intact, fun op before hmem => (h.calls op before hmem).intact, ?_⟩
  intro kernel
  exact (h.poll.setKernel kernel).applied

end Event
end Ezio
