import Ezio.Event.Epoll.Lemmas.Frame

/-!
This module contains the invariant that every pointer to an `event_info` or an `event_action` that the
backend or the kernel holds points to one that has been made.
-/

namespace Ezio
namespace Event

open EStateM (Preserves Triple)

namespace Epoll

structure Wf (s : Epoll) : Prop where
  map : ∀ k id, s.fdToEventInfo k = some id → id < s.next ∧ (s.infos id).fd.key = k
  ready : ∀ id ∈ s.readyEvents, id < s.next
  change : ∀ id ∈ s.evtChangeLst, id < s.next
  nonSubmit : ∀ id ∈ s.nonSubmitEvents, id < s.next
  interest : ∀ k mask id, s.kernel.interest k = some (mask, id) → id < s.next

namespace Wf

variable {s : Epoll} {id : Nat}

theorem modifyInfo (h : s.Wf) {f : EventInfo → EventInfo} (hf : ∀ info, (f info).fd = info.fd)
    : (s.modifyInfo id f).Wf := by
  constructor
  . intro k j hj
    have := h.map k j hj
    simp only [modifyInfo_infos, modifyInfo_next]
    split
    next heq =>
      rw [hf, ← heq]
      exact this
    . exact this
  . exact h.ready
  . exact h.change
  . exact h.nonSubmit
  . exact h.interest

theorem modifyAction (h : s.Wf) {g : EventAction → EventAction} : (s.modifyAction id g).Wf := by
  rw [modifyAction_def]
  apply h.modifyInfo
  intro info
  rfl

theorem setAction (h : s.Wf) {a : EventAction} : (s.setAction id a).Wf := h.modifyAction

theorem insert (h : s.Wf) {fd : Fd} {info : EventInfo} (hinfo : EventInfo.new fd = .ok info)
    : (s.insert fd info).Wf := by
  have hnext : (s.insert fd info).next = s.next + 1 := rfl
  constructor
  . intro k j hj
    rw [insert_fdToEventInfo] at hj
    split at hj
    next heq =>
      cases hj
      rw [hnext, insert_infos, if_pos rfl, EventInfo.new_eq_ok hinfo]
      exact ⟨Nat.lt_succ_self _, heq.symm⟩
    . have := h.map k j hj
      have hne : j ≠ s.next := by omega
      simp only [insert_infos, hne, if_false, hnext]
      omega
  . intro j hj
    have := h.ready j hj
    omega
  . intro j hj
    have := h.change j hj
    omega
  . intro j hj
    have := h.nonSubmit j hj
    omega
  . intro k mask j hj
    have := h.interest k mask j hj
    omega

theorem pushReady (h : s.Wf) (hid : id < s.next) : (s.pushReady id).Wf := by
  refine { h with ready := ?_ }
  intro j hj
  simp only [Epoll.pushReady, List.mem_append, List.mem_singleton] at hj
  cases hj with
  | inl hj => exact h.ready j hj
  | inr hj =>
    rw [hj]
    exact hid

theorem enlist (h : s.Wf) (hid : id < s.next)
    : { s with evtChangeLst := s.evtChangeLst ++ [id] }.Wf := by
  refine { h with change := ?_ }
  intro j hj
  simp only [List.mem_append, List.mem_singleton] at hj
  cases hj with
  | inl hj => exact h.change j hj
  | inr hj =>
    rw [hj]
    exact hid

theorem insertNonSubmit (h : s.Wf) (hid : id < s.next) : (s.insertNonSubmit id).Wf := by
  unfold Epoll.insertNonSubmit
  split
  . exact h
  . refine { h with nonSubmit := ?_ }
    intro j hj
    simp only [List.mem_append, List.mem_singleton] at hj
    cases hj with
    | inl hj => exact h.nonSubmit j hj
    | inr hj =>
      rw [hj]
      exact hid

theorem pushIfReadable (h : s.Wf) (hid : id < s.next) : (s.pushIfReadable id).Wf := by
  unfold Epoll.pushIfReadable
  split
  . exact h.pushReady hid
  . exact h

theorem pushIfWritable (h : s.Wf) (hid : id < s.next) : (s.pushIfWritable id).Wf := by
  unfold Epoll.pushIfWritable
  split
  . exact h.pushReady hid
  . exact h

theorem takeTask (h : s.Wf) : s.takeTask.Wf := { h with }

theorem kernel (h : s.Wf) {kernel : Kernel}
    (hk : ∀ k mask j, kernel.interest k = some (mask, j)
      → s.kernel.interest k = some (mask, j) ∨ j < s.next)
    : { s with kernel := kernel }.Wf := by
  refine { h with interest := ?_ }
  intro k mask j hj
  cases hk k mask j hj with
  | inl hj => exact h.interest k mask j hj
  | inr hj => exact hj

theorem update {op : Op} {s₀ s s' : Epoll} (h : s.Wf) (hs : Update op s₀ s s') : s'.Wf := by
  cases hs with
  | insert fd info hmap hinfo => exact h.insert hinfo
  | watch fd id events hid =>
    apply h.modifyInfo
    intro info
    rfl
  | enlist fd id hid _ =>
    apply (h.enlist (h.map _ _ hid).1).modifyInfo
    intro info
    rfl
  | quiet fd id a hid ha => exact h.setAction
  | accept fd hasAddrBuffer cb id hop hid => exact h.setAction
  | group fd group cb opt id t blocks hop hid => exact h.setAction
  | buffers buffers => exact { h with }
  | queueRead fd buf cb opt id t isSubmit hop hid htype ht hbuf =>
    unfold Epoll.queueRead
    have hid := (h.map _ _ hid).1
    split
    . exact h.takeTask.modifyAction.pushIfReadable hid
    . exact h.takeTask.modifyAction.insertNonSubmit hid
  | queueWrite fd buf cb opt id t isSubmit hop hid ht hbuf =>
    unfold Epoll.queueWrite
    have hid := (h.map _ _ hid).1
    split
    . exact h.takeTask.modifyAction.pushIfWritable hid
    . exact h.takeTask.modifyAction.insertNonSubmit hid
  | pushReady fd id hid => exact h.pushReady (h.map _ _ hid).1
  | insertNonSubmit fd id hid => exact h.insertNonSubmit (h.map _ _ hid).1
  | submittedOne id hop hid =>
    unfold Epoll.submittedOne
    have hid := h.nonSubmit id hid
    dsimp only
    split
    . exact h.modifyAction.pushReady hid
    . exact h.modifyAction
  | submitted hop => exact { h with nonSubmit := by simp }
  | close fd hop =>
    apply h.kernel
    intro k mask j hj
    simp only [Kernel.close, Function.update_apply] at hj
    split at hj
    . cases hj
    . exact .inl hj
  | «open» fd hop => exact { h with }
  | clear k id a hop hid ha => exact h.setAction

theorem updates {op : Op} {s₀ s s' : Epoll} (h : s.Wf) (hs : Updates op s₀ s s') : s'.Wf := by
  induction hs with
  | refl => exact h
  | tail _ hs ih => exact ih.update hs

end Wf

end Epoll

theorem Kernel.epollCtl_interest {k : Kernel} {op : CtlOp} {fd fd' ptr ptr' : Nat}
    {mask mask' : Mask} (h : (k.epollCtl op fd mask ptr).2.interest fd' = some (mask', ptr'))
    : k.interest fd' = some (mask', ptr') ∨ (fd' = fd ∧ mask' = mask ∧ ptr' = ptr) := by
  unfold epollCtl at h
  dsimp only at h
  split at h
  . exact .inl h
  . split at h
    . exact .inl h
    . split at h
      all_goals
        simp only [Function.update_apply] at h
        try split at h
        all_goals simp_all

namespace Epoll
namespace Wf

variable {s : Epoll} {id : Nat}

theorem epollCtl (h : s.Wf) (hid : id < s.next) (op : CtlOp) (fd : Nat) (mask : Mask)
    : { s with kernel := (s.kernel.epollCtl op fd mask id).2 }.Wf := by
  apply h.kernel
  intro k mask' j hj
  cases Kernel.epollCtl_interest hj with
  | inl hj => exact .inl hj
  | inr hj =>
    rw [hj.2.2]
    exact .inr hid

theorem erase (h : s.Wf) (k : Nat)
    : { s with fdToEventInfo := Function.update s.fdToEventInfo k none }.Wf := by
  refine { h with map := ?_ }
  intro k' j hj
  simp only [Function.update_apply] at hj
  split at hj
  . cases hj
  . exact h.map k' j hj

theorem removeEventInfo (h : s.Wf) (fd : Fd) : (s.removeEventInfo fd).Wf := by
  unfold Epoll.removeEventInfo
  split
  . exact h
  . exact { h.erase fd.key with }

theorem applyOneChange (h : s.Wf) (hid : id < s.next) : (s.applyOneChange id).Wf := by
  unfold Epoll.applyOneChange
  dsimp only
  split
  . exact h.removeEventInfo _
  next op hop =>
    have h₁ := h.epollCtl hid op (s.infos id).fd.key
      { (s.infos id).action.events with et := (s.infos id).events.et }
    split
    . split
      . exact h₁.removeEventInfo _
      . exact h₁.modifyInfo (fun _ => rfl)
    . split
      . exact h₁.erase _
      . apply Wf.modifyInfo
        . split
          . exact h₁
          . split
            . apply Wf.modifyInfo
              . exact h₁.epollCtl hid _ _ _
              . intro info
                rfl
            . exact h₁.epollCtl hid _ _ _
        . intro info
          rfl

theorem foldl_applyOneChange (ids : List Nat) {s : Epoll} (h : s.Wf) (hids : ∀ id ∈ ids, id < s.next)
    : (ids.foldl Epoll.applyOneChange s).Wf := by
  induction ids generalizing s with
  | nil => exact h
  | cons id ids ih =>
    rw [List.foldl_cons]
    apply ih
    . exact h.applyOneChange (hids id (by simp))
    . intro j hj
      rw [(applyOneChange_sameTasks s id).next]
      exact hids j (by simp [hj])

theorem applyChanges (h : s.Wf) : s.applyChanges.Wf := by
  have := foldl_applyOneChange s.evtChangeLst h h.change
  exact { this with change := by simp [Epoll.applyChanges] }

theorem init (isOpen : Nat → Bool) : (Epoll.init isOpen).Wf := by
  constructor <;> simp [Epoll.init]

end Wf
end Epoll

theorem Step.calls_true (st : Step) : st.Calls (fun _ => True) := by
  cases st with
  | op op => trivial
  | dispatch ready sys user errs => exact fun _ _ _ _ => trivial

-- An `event_action` keeps its file descriptor.
structure Epoll.Holds (id : Nat) (fd : Fd) (s : Epoll) : Prop where
  wf : s.Wf
  lt : id < s.next
  fd : (s.infos id).action.fd = fd

namespace Epoll.Holds

variable {s s' : Epoll} {id : Nat} {fd : Fd}

theorem of_fd (h : s.Holds id fd) (hwf : s'.Wf) (hnext : s'.next = s.next)
    (hfd : ∀ j, (s'.infos j).action.fd = (s.infos j).action.fd)
    : s'.Holds id fd := by
  constructor
  . exact hwf
  . rw [hnext]
    exact h.lt
  . rw [hfd]
    exact h.fd

theorem setAction (h : s.Holds id fd) {i : Nat} {a : EventAction}
    (ha : a.fd = (s.infos i).action.fd)
    : (s.setAction i a).Holds id fd := by
  apply h.of_fd h.wf.setAction rfl
  intro j
  simp only [setAction_def, modifyInfo_infos]
  split
  next heq => rw [heq, ha]
  . rfl

theorem update {op : Op} {s₀ : Epoll} (h : s.Holds id fd) (hs : Update op s₀ s s')
    : s'.Holds id fd := by
  have hwf := h.wf.update hs
  cases hs with
  | insert fd' info hmap hinfo =>
    have hlt := h.lt
    constructor
    . exact hwf
    . show id < s.next + 1
      omega
    . rw [insert_infos, if_neg (by omega)]
      exact h.fd
  | watch fd' i events hi =>
    apply h.of_fd hwf rfl
    intro j
    rw [modifyInfo_infos]
    split
    next heq => rw [heq]
    . rfl
  | enlist fd' i hi _ =>
    apply h.of_fd hwf rfl
    intro j
    rw [modifyInfo_infos]
    split
    next heq => rw [heq]
    . rfl
  | quiet fd' i a hi ha => exact h.setAction ha.fd
  | accept fd' hasAddrBuffer cb i hop hi => exact h.setAction rfl
  | group fd' group cb opt i t blocks hop hi =>
    have ⟨_, _, heq⟩ := EventAction.addMultishotReadTask_eq (s.infos i).action t blocks
    exact h.setAction (by rw [heq])
  | buffers buffers => exact h.of_fd hwf rfl (fun _ => rfl)
  | queueRead fd' buf cb opt i t isSubmit hop hi htype ht hbuf =>
    apply h.of_fd hwf (by simp)
    intro j
    rw [queueRead_infos]
    split
    next heq =>
      rw [heq]
      cases isSubmit <;> rfl
    . rfl
  | queueWrite fd' buf cb opt i t isSubmit hop hi ht hbuf =>
    apply h.of_fd hwf (by simp)
    intro j
    rw [queueWrite_infos]
    split
    next heq =>
      rw [heq]
      cases isSubmit <;> rfl
    . rfl
  | pushReady fd' i hi => exact h.of_fd hwf rfl (fun _ => rfl)
  | insertNonSubmit fd' i hi =>
    unfold Epoll.insertNonSubmit at hwf ⊢
    split
    . exact h
    next hmem =>
      rw [if_neg hmem] at hwf
      exact h.of_fd hwf rfl (fun _ => rfl)
  | submittedOne i hop hi =>
    apply h.of_fd hwf (by simp)
    intro j
    rw [submittedOne_infos]
    split
    next heq =>
      rw [heq]
      rfl
    . rfl
  | submitted hop => exact h.of_fd hwf rfl (fun _ => rfl)
  | close fd' hop => exact h.of_fd hwf rfl (fun _ => rfl)
  | «open» fd' hop => exact h.of_fd hwf rfl (fun _ => rfl)
  | clear k i a hop hi ha => exact h.setAction ha.fd

theorem updates {op : Op} {s₀ : Epoll} (h : s.Holds id fd) (hs : Updates op s₀ s s')
    : s'.Holds id fd := by
  induction hs with
  | refl => exact h
  | tail _ hs ih => exact ih.update hs

theorem runFrame (id : Nat) (fd : Fd) (A : Op → Prop)
    : RunFrame A (fun _ => True) (fun w => w.poll.Holds id fd) := by
  constructor
  . apply EventFrame.of_handled
    . intro op _
      apply exec_triple
      . intro w r s hw h
        exact hw.updates (Epoll.exec_updates h)
      . intro w f hw _
        exact hw
    . intro w sys user log hw
      exact hw
    . intro w i a ha hw
      obtain ⟨_, _, _, _, _, _, _, _, rfl⟩ := ha
      rw [World.modifyAction_poll]
      exact hw.setAction rfl
    . intro w group f hw
      exact hw.of_fd { hw.wf with } rfl (fun _ => rfl)
    . intro w ready hready hw
      exact hw.of_fd { hw.wf with ready := fun j hj => hw.wf.ready j (hready hj) } rfl (fun _ => rfl)
  . intro w hw
    have hsame := applyChanges_sameTasks w.poll
    apply hw.of_fd hw.wf.applyChanges hsame.next
    intro j
    rw [hsame.action]
  . intro w hw
    exact hw.of_fd { hw.wf with } rfl (fun _ => rfl)
  . intro w errs _ hw
    exact hw.of_fd { hw.wf with } rfl (fun _ => rfl)

end Epoll.Holds

-- Nothing that is in the log is ever taken out again.
theorem logFrame (log : List Entry) (A : Op → Prop)
    : RunFrame A (fun _ => True) (fun w => log <+: w.log) := by
  constructor
  . apply EventFrame.of_handled
    . intro op _
      apply exec_triple
      . intro w r s hw _
        exact hw.trans (List.prefix_append _ _)
      . intro w f hw _
        exact hw.trans (List.prefix_append _ _)
    . intro w sys user log hw
      exact hw.trans (List.prefix_append _ _)
    . intro w id a _ hw
      exact hw
    . intro w group f hw
      exact hw
    . intro w ready _ hw
      exact hw
  . intro w hw
    exact hw
  . intro w hw
    exact hw
  . intro w errs _ hw
    exact hw

-- Everything that has happened so far meets `C`.
def World.All (C : Entry → Prop) (w : World) : Prop := ∀ e ∈ w.log, C e

instance (C : Entry → Prop) [DecidablePred C] (w : World) : Decidable (w.All C) :=
  inferInstanceAs (Decidable (∀ e ∈ w.log, C e))

theorem World.All.of_prefix {C : Entry → Prop} {w w' : World} (h : w'.All C) (hlog : w.log <+: w'.log)
    : w.All C := by
  intro e he
  exact h e (hlog.subset he)

theorem World.All.of_append {C : Entry → Prop} {w : World} {log : List Entry}
    (h : { w with log := w.log ++ log }.All C)
    : w.All C :=
  h.of_prefix (List.prefix_append _ _)

-- Where all that is claimed is claimed of runs that meet `C`, it may be assumed at once.
theorem triple_of_all {α : Type} {A : Op → Prop} {C : Entry → Prop} {P Q : World → Prop}
    {m : EventM α} (hlog : ∀ log, Preserves (Frame.Inv A (fun w => log <+: w.log)) m)
    (h : Triple (fun w => w.Calls A ∧ w.All C ∧ P w) m
      (fun _ => Frame.Inv A (fun w => w.All C → Q w)) (fun _ _ => True))
    : Triple (Frame.Inv A (fun w => w.All C → P w)) m
        (fun _ => Frame.Inv A (fun w => w.All C → Q w)) (fun _ _ => True) := by
  intro w hw
  by_cases hC : w.All C
  . exact h w ⟨hw.1, hC, hw.2 hC⟩
  . have := hlog w.log w ⟨hw.1, List.prefix_rfl⟩
    cases hm : m w with
    | ok a w' =>
      rw [hm] at this
      refine ⟨this.1, ?_⟩
      intro hC'
      exact absurd (hC'.of_prefix this.2) hC
    | error e w' => trivial

theorem Epoll.Wf.runFrame : RunFrame (fun _ => True) (fun _ => True) (fun w => w.poll.Wf) := by
  constructor
  . apply EventFrame.of_handled
    . intro op _
      apply exec_triple
      . intro w r s hw h
        exact hw.updates (Epoll.exec_updates h)
      . intro w f hw _
        exact hw
    . intro w sys user log hw
      exact hw
    . intro w id a _ hw
      rw [World.modifyAction_poll]
      exact hw.modifyAction
    . intro w group f hw
      exact { hw with }
    . intro w ready hready hw
      exact { hw with ready := fun j hj => hw.ready j (hready hj) }
  . intro w hw
    exact hw.applyChanges
  . intro w hw
    exact { hw with }
  . intro w errs _ hw
    exact { hw with }

end Event
end Ezio
