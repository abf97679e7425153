import Ezio.Event.Epoll.Lemmas.Registration

/-!
This module contains the invariant that keeps the interest list of the kernel in line with what the
actions wait for.
-/

namespace Ezio
namespace Event

open EStateM (Preserves Triple)

namespace Epoll

-- Whoever reads or writes is registered for it or about to be.
structure Synced (s : Epoll) (lst : List Nat) : Prop extends s.Listed lst where
  isOpen : ∀ k, s.kernel.isOpen k = true
  ctlErrs : s.kernel.ctlErrs = []
  read : ∀ k id, s.fdToEventInfo k = some id → (s.infos id).action.isReading = true
    → id ∈ lst ∨ s.kernel.hasRead k = true
  write : ∀ k id, s.fdToEventInfo k = some id → (s.infos id).action.isWriting = true
    → id ∈ lst ∨ s.kernel.hasWrite k = true

namespace Synced

variable {s s' : Epoll} {lst lst' : List Nat} {id : Nat}

-- Only who starts to read or to write has to be looked at.
theorem of_listed (h : s.Synced lst) (hlisted : s'.Listed lst') (hkernel : s'.kernel = s.kernel)
    (hmap : s'.fdToEventInfo = s.fdToEventInfo) (hlst : ∀ j ∈ lst, j ∈ lst')
    (hread : ∀ k j, s.fdToEventInfo k = some j → (s'.infos j).action.isReading = true
      → (s.infos j).action.isReading = true ∨ j ∈ lst' ∨ s.kernel.hasRead k = true)
    (hwrite : ∀ k j, s.fdToEventInfo k = some j → (s'.infos j).action.isWriting = true
      → (s.infos j).action.isWriting = true ∨ j ∈ lst' ∨ s.kernel.hasWrite k = true)
    : s'.Synced lst' := by
  refine { hlisted with isOpen := ?_, ctlErrs := ?_, read := ?_, write := ?_ }
  . rw [hkernel]
    exact h.isOpen
  . rw [hkernel]
    exact h.ctlErrs
  . rw [hkernel, hmap]
    intro k j hj hreading
    rcases hread k j hj hreading with hold | hnew
    . rcases h.read k j hj hold with hmem | hhas
      . exact .inl (hlst j hmem)
      . exact .inr hhas
    . exact hnew
  . rw [hkernel, hmap]
    intro k j hj hwriting
    rcases hwrite k j hj hwriting with hold | hnew
    . rcases h.write k j hj hold with hmem | hhas
      . exact .inl (hlst j hmem)
      . exact .inr hhas
    . exact hnew

theorem of_same (h : s.Synced s.evtChangeLst) (hs : SameReg s s') : s'.Synced s'.evtChangeLst := by
  apply h.of_listed (h.toListed.of_same hs) hs.kernel hs.map
  . rw [hs.change]
    exact fun _ h => h
  . intro k j _ hreading
    rw [EventAction.isReading, hs.events] at hreading
    exact .inl hreading
  . intro k j _ hwriting
    rw [EventAction.isWriting, hs.events] at hwriting
    exact .inl hwriting

theorem insert (h : s.Synced lst) {fd : Fd} {info : EventInfo}
    (hmap : s.fdToEventInfo fd.key = none) (hinfo : EventInfo.new fd = .ok info)
    : (s.insert fd info).Synced lst := by
  have hnew := EventInfo.new_eq_ok hinfo
  refine { h.toListed.insert hmap hinfo with isOpen := h.isOpen, ctlErrs := h.ctlErrs, read := ?_, write := ?_ }
  . intro k j hj hreading
    rw [insert_fdToEventInfo] at hj
    split at hj
    . cases hj
      rw [insert_infos, if_pos rfl, hnew, EventAction.isReading, EventAction.setFdOps_events] at hreading
      cases hreading
    . have hlt := (h.map k j hj).1
      rw [insert_infos, if_neg (by omega)] at hreading
      exact h.read k j hj hreading
  . intro k j hj hwriting
    rw [insert_fdToEventInfo] at hj
    split at hj
    . cases hj
      rw [insert_infos, if_pos rfl, hnew, EventAction.isWriting, EventAction.setFdOps_events] at hwriting
      cases hwriting
    . have hlt := (h.map k j hj).1
      rw [insert_infos, if_neg (by omega)] at hwriting
      exact h.write k j hj hwriting

theorem findOrInsert (h : s.Synced s.evtChangeLst) {fd : Fd} (hfind : s.findOrInsert fd = .ok (id, s'))
    : s'.Synced s'.evtChangeLst := by
  rcases findOrInsert_cases hfind with ⟨_, rfl⟩ | ⟨hmap, rfl, info, hinfo, rfl⟩
  . exact h
  . exact h.insert hmap hinfo

theorem setReadCb_watchRead (h : s.Synced s.evtChangeLst) {fd : Fd} (cb : ReadCallback)
    (hid : s.fdToEventInfo fd.key = some id) (hbacks : s.backsRead fd.key = true)
    : ((s.setReadCb id (some cb)).watchRead id).Synced
        ((s.setReadCb id (some cb)).watchRead id).evtChangeLst := by
  have hupdates : Updates .submit s s ((s.setReadCb id (some cb)).watchRead id) :=
    (Updates.setReadCb (some cb) hid).trans (Updates.watchRead (by simpa using hid))
  have hinfo : (s.setReadCb id (some cb)).infos id =
      { s.infos id with action := (s.infos id).action.setReadCallback cb } := by
    simp [setReadCb]
  have hlst : ((s.setReadCb id (some cb)).watchRead id).evtChangeLst =
      if (s.infos id).events.read || (s.infos id).isInChangeList then s.evtChangeLst
      else s.evtChangeLst ++ [id] := by
    rw [watchRead_evtChangeLst, hinfo]
    rfl
  apply h.of_listed (h.toListed.updates hupdates) (by simp) (by simp)
  . intro j hj
    rw [hlst]
    split
    . exact hj
    . exact List.mem_append_left _ hj
  . intro k j hj hreading
    by_cases heq : j = id
    . right
      have hk : k = fd.key := by
        rw [← (h.map k j hj).2, heq, (h.map _ _ hid).2]
      rw [heq, hk, hlst]
      have hflag := h.flag _ _ hid
      simp only [backsRead, hid] at hbacks
      cases hread : (s.infos id).events.read with
      | false =>
        cases hin : (s.infos id).isInChangeList with
        | false => simp
        | true => simp [hflag.mp hin]
      | true =>
        simp only [hread, Bool.not_true, Bool.false_or, Bool.or_eq_true, Bool.true_or, if_true] at hbacks ⊢
        rw [hflag] at hbacks
        exact hbacks
    . left
      rw [watchRead_action] at hreading
      simpa [setReadCb, heq] using hreading
  . intro k j hj hwriting
    left
    rw [watchRead_action] at hwriting
    by_cases heq : j = id
    . simpa [setReadCb, heq, EventAction.isWriting, EventAction.setReadCallback] using hwriting
    . simpa [setReadCb, heq] using hwriting

theorem setWriteCb_watchWrite (h : s.Synced s.evtChangeLst) {fd : Fd} (cb : Callback)
    (hid : s.fdToEventInfo fd.key = some id) (hbacks : s.backsWrite fd.key = true)
    : ((s.setWriteCb id (some cb)).watchWrite id).Synced
        ((s.setWriteCb id (some cb)).watchWrite id).evtChangeLst := by
  have hupdates : Updates .submit s s ((s.setWriteCb id (some cb)).watchWrite id) :=
    (Updates.setWriteCb (some cb) hid).trans (Updates.watchWrite (by simpa using hid))
  have hinfo : (s.setWriteCb id (some cb)).infos id =
      { s.infos id with action := (s.infos id).action.setWriteCallback cb } := by
    simp [setWriteCb]
  have hlst : ((s.setWriteCb id (some cb)).watchWrite id).evtChangeLst =
      if (s.infos id).events.write || (s.infos id).isInChangeList then s.evtChangeLst
      else s.evtChangeLst ++ [id] := by
    rw [watchWrite_evtChangeLst, hinfo]
    rfl
  apply h.of_listed (h.toListed.updates hupdates) (by simp) (by simp)
  . intro j hj
    rw [hlst]
    split
    . exact hj
    . exact List.mem_append_left _ hj
  . intro k j hj hreading
    left
    rw [watchWrite_action] at hreading
    by_cases heq : j = id
    . simpa [setWriteCb, heq, EventAction.isReading, EventAction.setWriteCallback] using hreading
    . simpa [setWriteCb, heq] using hreading
  . intro k j hj hwriting
    by_cases heq : j = id
    . right
      have hk : k = fd.key := by
        rw [← (h.map k j hj).2, heq, (h.map _ _ hid).2]
      rw [heq, hk, hlst]
      have hflag := h.flag _ _ hid
      simp only [backsWrite, hid] at hbacks
      cases hwrite : (s.infos id).events.write with
      | false =>
        cases hin : (s.infos id).isInChangeList with
        | false => simp
        | true => simp [hflag.mp hin]
      | true =>
        simp only [hwrite, Bool.not_true, Bool.false_or, Bool.or_eq_true, Bool.true_or, if_true] at hbacks ⊢
        rw [hflag] at hbacks
        exact hbacks
    . left
      rw [watchWrite_action] at hwriting
      simpa [setWriteCb, heq] using hwriting

theorem backsRead_findOrInsert {fd : Fd} (hfind : s.findOrInsert fd = .ok (id, s'))
    (hbacks : s.backsRead fd.key = true)
    : s'.backsRead fd.key = true := by
  rcases findOrInsert_cases hfind with ⟨_, rfl⟩ | ⟨hmap, rfl, info, hinfo, rfl⟩
  . exact hbacks
  . simp [backsRead, EventInfo.new_eq_ok hinfo, Mask.empty]

theorem backsWrite_findOrInsert {fd : Fd} (hfind : s.findOrInsert fd = .ok (id, s'))
    (hbacks : s.backsWrite fd.key = true)
    : s'.backsWrite fd.key = true := by
  rcases findOrInsert_cases hfind with ⟨_, rfl⟩ | ⟨hmap, rfl, info, hinfo, rfl⟩
  . exact hbacks
  . simp [backsWrite, EventInfo.new_eq_ok hinfo, Mask.empty]

theorem submitAsyncRead {r : Int} {fd : Fd} {buf : UserBuf} {cb : Callback}
    {opt : Option ReadOptions} (h : s.Synced s.evtChangeLst) (hfile : fd.type ≠ .file)
    (hbacks : s.backsRead fd.key = true)
    (hs : s.submitAsyncRead fd buf (some cb) opt = .ok (r, s'))
    : s'.Synced s'.evtChangeLst := by
  unfold Epoll.submitAsyncRead at hs
  split at hs
  . cases hs
    exact h
  . obtain ⟨⟨i, s₁⟩, hfind, hs⟩ := Except.bind_eq_ok hs
    cases hs
    apply Synced.of_same _ (SameReg.queueRead _ _ _ _)
    unfold prepareRead
    dsimp only
    rw [if_neg hfile]
    apply Synced.of_same _ (SameReg.setReadOffset _ _ _)
    exact (h.findOrInsert hfind).setReadCb_watchRead (.read cb) (findOrInsert_map hfind)
      (backsRead_findOrInsert hfind hbacks)

theorem submitAsyncWrite {r : Int} {fd : Fd} {buf : UserBuf} {cb : Callback}
    {opt : Option WriteOptions} (h : s.Synced s.evtChangeLst) (hfile : fd.type ≠ .file)
    (hbacks : s.backsWrite fd.key = true)
    (hs : s.submitAsyncWrite fd buf (some cb) opt = .ok (r, s'))
    : s'.Synced s'.evtChangeLst := by
  unfold Epoll.submitAsyncWrite at hs
  split at hs
  . cases hs
    exact h
  . obtain ⟨⟨i, s₁⟩, hfind, hs⟩ := Except.bind_eq_ok hs
    cases hs
    apply Synced.of_same _ (SameReg.queueWrite _ _ _ _)
    unfold prepareWrite
    dsimp only
    rw [if_neg hfile]
    apply Synced.of_same _ (SameReg.setWriteOffset _ _ _)
    exact (h.findOrInsert hfind).setWriteCb_watchWrite cb (findOrInsert_map hfind)
      (backsWrite_findOrInsert hfind hbacks)

theorem submitAsyncAccept {r : Int} {fd : Fd} {hasAddrBuffer : Bool} {cb : Callback}
    (h : s.Synced s.evtChangeLst) (hbacks : s.backsRead fd.key = true)
    (hs : s.submitAsyncAccept fd hasAddrBuffer (some cb) = .ok (r, s'))
    : s'.Synced s'.evtChangeLst := by
  unfold Epoll.submitAsyncAccept at hs
  split at hs
  . cases hs
    exact h
  . obtain ⟨⟨i, s₁⟩, hfind, hs⟩ := Except.bind_eq_ok hs
    cases hs
    apply Synced.of_same _ (SameReg.pushIfReadable _ _)
    unfold prepareAccept
    dsimp only
    refine Synced.of_same ?_ (SameReg.modifyAction _ (fun _ => rfl))
    have hsame : SameReg s₁ (s₁.modifyAction i fun a =>
        { a with hasAddrBuffer := a.hasAddrBuffer || hasAddrBuffer }) :=
      SameReg.modifyAction s₁ (fun _ => rfl)
    apply ((h.findOrInsert hfind).of_same hsame).setReadCb_watchRead (.accept cb)
    . rw [hsame.map]
      exact findOrInsert_map hfind
    . rw [hsame.backsRead]
      exact backsRead_findOrInsert hfind hbacks

theorem prepareReadGroup (h : s.Synced s.evtChangeLst) {fd : Fd} (group : Nat) (cb : Callback)
    (t : MultishotTask) (blocks : List Iovec) (hid : s.fdToEventInfo fd.key = some id)
    (hbacks : s.backsRead fd.key = true)
    : (s.prepareReadGroup id group (some cb) t blocks).Synced
        (s.prepareReadGroup id group (some cb) t blocks).evtChangeLst := by
  unfold Epoll.prepareReadGroup
  dsimp only
  apply Synced.of_same _ (SameReg.setBuffers _ _)
  apply Synced.of_same _ (SameReg.addMultishotReadTask _ _ _ _)
  exact h.setReadCb_watchRead (.read cb) hid hbacks

theorem submitAsyncReadGroup {r : Int} {fd : Fd} {group : Nat} {cb : Callback}
    {opt : Option ReadOptions} (h : s.Synced s.evtChangeLst) (hbacks : s.backsRead fd.key = true)
    (hs : s.submitAsyncReadGroup fd group (some cb) opt = .ok (r, s'))
    : s'.Synced s'.evtChangeLst := by
  unfold Epoll.submitAsyncReadGroup at hs
  split at hs
  . cases hs
    exact h
  next ring hring =>
    split at hs
    . cases hs
      exact h
    . obtain ⟨⟨i, s₁⟩, hfind, hs⟩ := Except.bind_eq_ok hs
      have hprep := (h.findOrInsert hfind).prepareReadGroup group cb
        { bufRing := group, needSockDetail := (opt.map (·.needSocketDetail)).getD false,
          isSubmit := (opt.map (·.isSubmit)).getD true }
        ring.blocks (findOrInsert_map hfind) (backsRead_findOrInsert hfind hbacks)
      cases hs
      split
      . exact hprep.of_same (SameReg.pushIfReadable _ _)
      . exact hprep.of_same (SameReg.insertNonSubmit _ _)

-- Whoever gives up reading or writing only waits for less.
theorem setAction_of_le (h : s.Synced lst) {a : EventAction}
    (hread : a.isReading = true → (s.infos id).action.isReading = true)
    (hwrite : a.isWriting = true → (s.infos id).action.isWriting = true)
    : (s.setAction id a).Synced lst := by
  apply h.of_listed h.toListed.setAction rfl rfl (fun _ h => h)
  . intro k j _ hreading
    left
    rw [setAction_def, modifyInfo_infos] at hreading
    split at hreading
    next heq =>
      rw [heq]
      exact hread hreading
    . exact hreading
  . intro k j _ hwriting
    left
    rw [setAction_def, modifyInfo_infos] at hwriting
    split at hwriting
    next heq =>
      rw [heq]
      exact hwrite hwriting
    . exact hwriting

theorem buffers (h : s.Synced lst) (buffers : List (Option RingBufferInfo))
    : { s with buffers := buffers }.Synced lst :=
  { h with }

theorem disableRead (h : s.Synced s.evtChangeLst) (hs : s.disableRead id = .ok s')
    : s'.Synced s'.evtChangeLst ∧ s'.fdToEventInfo = s.fdToEventInfo := by
  obtain ⟨buffers, _, _, _, _, _, _, rfl⟩ := disableRead_eq_ok hs
  refine ⟨?_, rfl⟩
  apply (h.buffers buffers).setAction_of_le
  . intro hreading
    cases hreading
  . intro hwriting
    exact hwriting

theorem pushToChangeList (h : s.Synced s.evtChangeLst) {fd : Fd}
    (hid : s.fdToEventInfo fd.key = some id)
    : (s.pushToChangeList id).Synced (s.pushToChangeList id).evtChangeLst := by
  have hupdates : Updates .submit s s (s.pushToChangeList id) := Updates.pushToChangeList hid
  apply h.of_listed (h.toListed.updates hupdates) (by simp) (by simp)
  . intro j hj
    rw [pushToChangeList_evtChangeLst]
    split
    . exact hj
    . exact List.mem_append_left _ hj
  . intro k j _ hreading
    left
    rw [pushToChangeList_action] at hreading
    exact hreading
  . intro k j _ hwriting
    left
    rw [pushToChangeList_action] at hwriting
    exact hwriting

theorem cancelAsyncRead {r : Int} {fd : Fd} {cb : Option Callback} (h : s.Synced s.evtChangeLst)
    (hs : s.cancelAsyncRead fd cb = .ok (r, s'))
    : s'.Synced s'.evtChangeLst := by
  unfold Epoll.cancelAsyncRead at hs
  split at hs
  . cases hs
    exact h
  . split at hs
    . cases hs
      exact h
    next i hi =>
      split at hs
      . cases hs
        exact h
      . obtain ⟨s₁, hdis, hs⟩ := Except.bind_eq_ok hs
        have hs₁ := h.disableRead hdis
        cases hs
        split
        . apply hs₁.1.pushToChangeList
          rw [hs₁.2]
          exact hi
        . exact hs₁.1

theorem cancelAsyncWrite {r : Int} {fd : Fd} {cb : Option Callback} (h : s.Synced s.evtChangeLst)
    (hs : s.cancelAsyncWrite fd cb = .ok (r, s'))
    : s'.Synced s'.evtChangeLst := by
  unfold Epoll.cancelAsyncWrite at hs
  split at hs
  . cases hs
    exact h
  . split at hs
    . cases hs
      exact h
    next i hi =>
      cases hs
      apply h.setAction_of_le
      . intro hreading
        exact hreading
      . intro hwriting
        cases hwriting

theorem cancelAsyncAccept {r : Int} {fd : Fd} {cb : Option Callback} (h : s.Synced s.evtChangeLst)
    (hs : s.cancelAsyncAccept fd cb = .ok (r, s'))
    : s'.Synced s'.evtChangeLst := by
  unfold Epoll.cancelAsyncAccept at hs
  split at hs
  . cases hs
    exact h
  . split at hs
    . cases hs
      exact h
    next i hi =>
      obtain ⟨s₁, hdis, hs⟩ := Except.bind_eq_ok hs
      cases hs
      exact (h.disableRead hdis).1

theorem applyOneChange (h : s.Synced (id :: lst)) : (s.applyOneChange id).Synced lst := by
  have hid := h.mapped id (by simp)
  have haction := (applyOneChange_sameTasks s id).action
  have hkept : ∀ k j, (s.applyOneChange id).fdToEventInfo k = some j → s.fdToEventInfo k = some j := by
    intro k j hj
    cases applyOneChange_map hid with
    | inl hmap =>
      rw [hmap, Function.update_apply] at hj
      split at hj
      . cases hj
      . exact hj
    | inr hmap =>
      rw [hmap.1] at hj
      exact hj
  refine { h.toListed.applyOneChange with isOpen := ?_, ctlErrs := ?_, read := ?_, write := ?_ }
  . rw [applyOneChange_isOpen]
    exact h.isOpen
  . exact applyOneChange_ctlErrs h.ctlErrs id
  . intro k j hj hreading
    have hj := hkept k j hj
    rw [haction] at hreading
    by_cases heq : j = id
    . rw [heq] at hreading hj
      have huse : (s.infos id).action.isNoneEvt = false := by simp [EventAction.isNoneEvt, hreading]
      have hreg := (applyOneChange_registers (h.isOpen _) h.ctlErrs huse).1
      rw [(h.map k id hj).2] at hreg
      right
      rw [Kernel.hasRead, hreg]
      exact hreading
    . rw [Kernel.hasRead, applyOneChange_interest_of_ne s (key_ne hid hj heq)]
      cases h.read k j hj hreading with
      | inl hmem =>
        rw [List.mem_cons] at hmem
        exact .inl (hmem.resolve_left heq)
      | inr hhas => exact .inr hhas
  . intro k j hj hwriting
    have hj := hkept k j hj
    rw [haction] at hwriting
    by_cases heq : j = id
    . rw [heq] at hwriting hj
      have huse : (s.infos id).action.isNoneEvt = false := by simp [EventAction.isNoneEvt, hwriting]
      have hreg := (applyOneChange_registers (h.isOpen _) h.ctlErrs huse).1
      rw [(h.map k id hj).2] at hreg
      right
      rw [Kernel.hasWrite, hreg]
      exact hwriting
    . rw [Kernel.hasWrite, applyOneChange_interest_of_ne s (key_ne hid hj heq)]
      cases h.write k j hj hwriting with
      | inl hmem =>
        rw [List.mem_cons] at hmem
        exact .inl (hmem.resolve_left heq)
      | inr hhas => exact .inr hhas

theorem foldl_applyOneChange (h : s.Synced lst) : (lst.foldl Epoll.applyOneChange s).Synced [] := by
  induction lst generalizing s with
  | nil => exact h
  | cons id lst ih => exact ih h.applyOneChange

theorem applyChanges (h : s.Synced s.evtChangeLst)
    : s.applyChanges.Synced s.applyChanges.evtChangeLst :=
  { h.foldl_applyOneChange with }

theorem init : (Epoll.init fun _ => true).Synced (Epoll.init fun _ => true).evtChangeLst := by
  refine { Listed.init _ with isOpen := ?_, ctlErrs := ?_, read := ?_, write := ?_ }
  all_goals simp [Epoll.init]

end Synced

end Epoll

end Event
end Ezio
