import Ezio.Event.Epoll.Lemmas.Listed

/-!
This module contains the invariant of a listening action: as long as the file may still have connections
waiting, the action is put up in `ready_events_`.
-/

namespace Ezio
namespace Event

open EStateM (Preserves Triple)
open Relation

-- The call starts a multishot read on the number.
def Op.readsGroup (k : Nat) : Op → Bool
  | .submitAsyncReadGroup fd _ _ _ => fd.key = k
  | _ => false

-- The call asks for the next connection on the number.
def Op.acceptsOn (k : Nat) : Op → Bool
  | .submitAsyncAccept fd _ _ => 0 ≤ fd.num && fd.key = k
  | _ => false

namespace Epoll

-- `n` is the number of actions at the front of `ready_events_` that are being handled.
structure Listens (n id k : Nat) (s : Epoll) : Prop where
  wf : s.Wf
  isInited : s.isInited = true
  lt : id < s.next
  key : (s.infos id).fd.key = k
  multishot : (s.infos id).action.multishotReadTask = none
  lead : n ≤ s.readyEvents.length

structure Accepting (n id k : Nat) (s : Epoll) : Prop extends s.Listens n id k where
  accept : (s.infos id).action.hasAcceptTask = true → (s.infos id).action.isReadable = true
    → id ∈ s.readyEvents.drop n

-- What an update leaves of the actions that there are, and what it makes of new ones.
theorem Update.next_cases {op : Op} {s₀ s s' : Epoll} (hs : Update op s₀ s s')
    : s'.isInited = s.isInited ∧ (∀ id, id < s.next → (s'.infos id).fd = (s.infos id).fd)
        ∧ (∀ id, s.next ≤ id → id < s'.next → (s'.infos id).action.multishotReadTask = none) := by
  have hsame : ∀ {t : Epoll}, SameReg s t → t.isInited = s.isInited
      ∧ (∀ id, id < s.next → (t.infos id).fd = (s.infos id).fd)
      ∧ (∀ id, s.next ≤ id → id < t.next → (t.infos id).action.multishotReadTask = none) := by
    intro t h
    refine ⟨h.isInited, fun id _ => h.fd id, ?_⟩
    rw [h.next]
    intro id _ _
    omega
  have hinfo : ∀ {t : Epoll}, t.isInited = s.isInited → t.next = s.next
      → (∀ id, (t.infos id).fd = (s.infos id).fd) → t.isInited = s.isInited
      ∧ (∀ id, id < s.next → (t.infos id).fd = (s.infos id).fd)
      ∧ (∀ id, s.next ≤ id → id < t.next → (t.infos id).action.multishotReadTask = none) := by
    intro t hinit hnext hfd
    refine ⟨hinit, fun id _ => hfd id, ?_⟩
    rw [hnext]
    intro id _ _
    omega
  cases hs with
  | insert fd info hmap hinfo =>
    refine ⟨rfl, ?_, ?_⟩
    . intro id hid
      rw [insert_infos, if_neg (by omega)]
    . intro id hle hlt
      have hlt : id < s.next + 1 := hlt
      rw [insert_infos, if_pos (by omega), EventInfo.new_eq_ok hinfo, EventAction.setFdOps_multishotReadTask]
      rfl
  | watch fd i events hi =>
    refine hinfo rfl rfl ?_
    intro id
    apply modifyInfo_fd
    intro info
    rfl
  | enlist fd i hi _ =>
    refine hinfo rfl rfl ?_
    intro id
    apply modifyInfo_fd
    intro info
    rfl
  | quiet fd i a hi ha => exact hinfo rfl rfl (fun j => setAction_fd s i j _)
  | accept fd hasAddrBuffer cb i hop' hi => exact hinfo rfl rfl (fun j => setAction_fd s i j _)
  | group fd group cb opt i t blocks hop' hi => exact hinfo rfl rfl (fun j => setAction_fd s i j _)
  | buffers buffers => exact hinfo rfl rfl (fun _ => rfl)
  | queueRead fd buf cb opt i t isSubmit hop' hi htype ht hbuf => exact hsame (SameReg.queueRead s i t isSubmit)
  | queueWrite fd buf cb opt i t isSubmit hop' hi ht hbuf => exact hsame (SameReg.queueWrite s i t isSubmit)
  | pushReady fd i hi => exact hsame (SameReg.pushReady s i)
  | insertNonSubmit fd i hi => exact hsame (SameReg.insertNonSubmit s i)
  | submittedOne i hop' hi => exact hsame (SameReg.submittedOne s i)
  | submitted hop' => exact hinfo rfl rfl (fun _ => rfl)
  | close fd hop' => exact hinfo rfl rfl (fun _ => rfl)
  | «open» fd hop' => exact hinfo rfl rfl (fun _ => rfl)
  | clear k' i a hop' hi ha => exact hinfo rfl rfl (fun j => setAction_fd s i j _)

-- What an update leaves of the action.
structure Keeps (op : Op) (id : Nat) (s s' : Epoll) : Prop where
  isInited : s'.isInited = s.isInited
  next : s.next ≤ s'.next
  fd : (s'.infos id).fd = (s.infos id).fd
  map : ∀ k i, s.fdToEventInfo k = some i → s'.fdToEventInfo k = some i
  ready : s.readyEvents <+: s'.readyEvents
  isReadable : (s'.infos id).action.isReadable = (s.infos id).action.isReadable
  multishot : (s'.infos id).action.multishotReadTask = none
  accept : (s'.infos id).action.hasAcceptTask = true → (s.infos id).action.hasAcceptTask = true
    ∨ ∃ fd hasAddrBuffer cb, op = .submitAsyncAccept fd hasAddrBuffer cb
      ∧ s'.fdToEventInfo fd.key = some id

namespace Keeps

variable {op : Op} {s s' : Epoll} {id : Nat}

theorem of_info (hinit : s'.isInited = s.isInited) (hnext : s'.next = s.next)
    (hmap : s'.fdToEventInfo = s.fdToEventInfo) (hready : s.readyEvents <+: s'.readyEvents)
    (hfd : (s'.infos id).fd = (s.infos id).fd)
    (hr : (s'.infos id).action.isReadable = (s.infos id).action.isReadable)
    (hm : (s'.infos id).action.multishotReadTask = none)
    (ha : (s'.infos id).action.hasAcceptTask = true → (s.infos id).action.hasAcceptTask = true)
    : Keeps op id s s' := by
  refine ⟨hinit, Nat.le_of_eq hnext.symm, hfd, ?_, hready, hr, hm, fun h => .inl (ha h)⟩
  rw [hmap]
  exact fun _ _ h => h

theorem trans {s₁ s₂ s₃ : Epoll} (h : Keeps op id s₁ s₂) (h' : Keeps op id s₂ s₃)
    : Keeps op id s₁ s₃ := by
  constructor
  . rw [h'.isInited, h.isInited]
  . exact Nat.le_trans h.next h'.next
  . rw [h'.fd, h.fd]
  . exact fun k i hi => h'.map k i (h.map k i hi)
  . exact h.ready.trans h'.ready
  . rw [h'.isReadable, h.isReadable]
  . exact h'.multishot
  . intro ha
    rcases h'.accept ha with ha | ha
    . rcases h.accept ha with ha | ⟨fd, b, cb, hop, hid⟩
      . exact .inl ha
      . exact .inr ⟨fd, b, cb, hop, h'.map _ _ hid⟩
    . exact .inr ha

theorem setAction (hm : (s.infos id).action.multishotReadTask = none) {i : Nat} {a : EventAction}
    (ha : i = id → a.isReadable = (s.infos id).action.isReadable ∧ a.multishotReadTask = none
      ∧ (a.hasAcceptTask = true → (s.infos id).action.hasAcceptTask = true))
    : Keeps op id s (s.setAction i a) := by
  rw [setAction_def]
  by_cases heq : i = id
  . refine of_info rfl rfl rfl List.prefix_rfl ?_ ?_ ?_ ?_
    all_goals simp [heq, ha heq]
    exact (ha heq).2.2
  . have hinfo : ((s.modifyInfo i fun info => { info with action := a }).infos id) = s.infos id := by
      rw [modifyInfo_infos, if_neg fun h => heq h.symm]
    refine of_info rfl rfl rfl List.prefix_rfl ?_ ?_ ?_ ?_
    all_goals rw [hinfo]
    . exact hm
    . exact fun h => h

end Keeps

namespace Listens

variable {op : Op} {s₀ s s' : Epoll} {n id k : Nat}

theorem of_keeps (h : s.Listens n id k) (hwf : s'.Wf) (hkeeps : Keeps op id s s')
    : s'.Listens n id k := by
  constructor
  . exact hwf
  . rw [hkeeps.isInited]
    exact h.isInited
  . have := h.lt
    have := hkeeps.next
    omega
  . rw [hkeeps.fd]
    exact h.key
  . exact hkeeps.multishot
  . have := hkeeps.ready.length_le
    have := h.lead
    omega

theorem keeps (h : s.Listens n id k) (hop : op.readsGroup k = false) (hs : Update op s₀ s s')
    : Keeps op id s s' := by
  have hm := h.multishot
  cases hs with
  | insert fd info hmap hinfo =>
    have hlt := h.lt
    have hid : (s.insert fd info).infos id = s.infos id := by
      rw [insert_infos, if_neg (by omega)]
    refine ⟨rfl, Nat.le_succ _, ?_, ?_, List.prefix_rfl, ?_, ?_, ?_⟩
    . rw [hid]
    . intro j i hi
      rw [insert_fdToEventInfo, if_neg]
      . exact hi
      . rintro rfl
        rw [hmap] at hi
        cases hi
    . rw [hid]
    . rw [hid]
      exact hm
    . rw [hid]
      exact fun h => .inl h
  | watch fd i events hi =>
    refine Keeps.of_info rfl rfl rfl List.prefix_rfl ?_ ?_ ?_ ?_
    all_goals
      rw [modifyInfo_infos]
      split
      next heq => simp [heq ▸ hm, heq]
      . simp [hm]
  | enlist fd i hi _ =>
    refine Keeps.of_info rfl rfl rfl List.prefix_rfl ?_ ?_ ?_ ?_
    all_goals
      rw [modifyInfo_infos]
      split
      next heq => simp [heq ▸ hm, heq]
      . simp [hm]
  | quiet fd i a hi ha =>
    apply Keeps.setAction hm
    rintro rfl
    rw [ha.isReadable, ha.multishotReadTask, ha.hasAcceptTask]
    exact ⟨rfl, hm, fun h => h⟩
  | accept fd hasAddrBuffer cb i hop' hi =>
    by_cases heq : i = id
    . rw [heq] at hi ⊢
      rw [setAction_def]
      refine ⟨rfl, Nat.le_refl _, ?_, fun _ _ h => h, List.prefix_rfl, ?_, ?_, ?_⟩
      . simp
      . simp [EventAction.addAcceptTask]
      . simpa [EventAction.addAcceptTask] using hm
      . intro _
        exact .inr ⟨fd, hasAddrBuffer, cb, hop', hi⟩
    . apply Keeps.setAction hm
      exact fun h => absurd h heq
  | group fd group cb opt i t blocks hop' hi =>
    apply Keeps.setAction hm
    rintro rfl
    rw [hop'] at hop
    have := (h.wf.map _ _ hi).2
    rw [h.key] at this
    simp [Op.readsGroup, this] at hop
  | buffers buffers =>
    exact Keeps.of_info rfl rfl rfl List.prefix_rfl rfl rfl hm (fun h => h)
  | queueRead fd buf cb opt i t isSubmit hop' hi htype ht hbuf =>
    have hsame := SameReg.queueRead s i t isSubmit
    have hready : s.readyEvents <+: (s.queueRead i t isSubmit).readyEvents := by
      rw [queueRead_readyEvents]
      split
      . exact List.prefix_append _ _
      . exact List.prefix_rfl
    refine Keeps.of_info hsame.isInited hsame.next hsame.map hready (hsame.fd id) ?_ ?_ ?_
    all_goals
      rw [queueRead_infos]
      split
      next heq =>
        cases isSubmit <;>
          simp [heq ▸ hm, heq, EventAction.addReadTask, EventAction.addNonSubmitReadTask]
      . simp [hm]
  | queueWrite fd buf cb opt i t isSubmit hop' hi ht hbuf =>
    have hsame := SameReg.queueWrite s i t isSubmit
    have hready : s.readyEvents <+: (s.queueWrite i t isSubmit).readyEvents := by
      rw [queueWrite_readyEvents]
      split
      . exact List.prefix_append _ _
      . exact List.prefix_rfl
    refine Keeps.of_info hsame.isInited hsame.next hsame.map hready (hsame.fd id) ?_ ?_ ?_
    all_goals
      rw [queueWrite_infos]
      split
      next heq =>
        cases isSubmit <;>
          simp [heq ▸ hm, heq, EventAction.addWriteTask, EventAction.addNonSubmitWriteTask]
      . simp [hm]
  | pushReady fd i hi =>
    exact Keeps.of_info rfl rfl rfl (List.prefix_append _ _) rfl rfl hm (fun h => h)
  | insertNonSubmit fd i hi =>
    unfold Epoll.insertNonSubmit
    split
    . exact Keeps.of_info rfl rfl rfl List.prefix_rfl rfl rfl hm (fun h => h)
    . exact Keeps.of_info rfl rfl rfl List.prefix_rfl rfl rfl hm (fun h => h)
  | submittedOne i hop' hi =>
    have hsame := SameReg.submittedOne s i
    have hready : s.readyEvents <+: (s.submittedOne i).readyEvents := by
      rw [submittedOne_readyEvents]
      split
      . exact List.prefix_append _ _
      . exact List.prefix_rfl
    refine Keeps.of_info hsame.isInited hsame.next hsame.map hready (hsame.fd id) ?_ ?_ ?_
    all_goals
      rw [submittedOne_infos]
      split
      next heq => simp [heq ▸ hm, heq, EventAction.submitted]
      . simp [hm]
  | submitted hop' => exact Keeps.of_info rfl rfl rfl List.prefix_rfl rfl rfl hm (fun h => h)
  | close fd hop' => exact Keeps.of_info rfl rfl rfl List.prefix_rfl rfl rfl hm (fun h => h)
  | «open» fd hop' => exact Keeps.of_info rfl rfl rfl List.prefix_rfl rfl rfl hm (fun h => h)
  | clear k' i a hop' hi ha =>
    apply Keeps.setAction hm
    rintro rfl
    exact ⟨ha.isReadable hm, ha.multishotReadTask hm, ha.hasAcceptTask⟩

theorem updates (h : s.Listens n id k) (hop : op.readsGroup k = false) (hs : Updates op s₀ s s')
    : s'.Listens n id k ∧ Keeps op id s s' := by
  induction hs with
  | refl => exact ⟨h, Keeps.of_info rfl rfl rfl List.prefix_rfl rfl rfl h.multishot (fun h => h)⟩
  | tail _ hs ih =>
    have hkeeps := ih.1.keeps hop hs
    exact ⟨ih.1.of_keeps (ih.1.wf.update hs) hkeeps, ih.2.trans hkeeps⟩

-- Asking for the next connection puts the action up if the last answer was not that there is none.
theorem submitAsyncAccept_queued {r : Int} {fd : Fd} {hasAddrBuffer : Bool} {cb : Option Callback}
    (h : s.Listens n id k) (hfd : ¬fd.num < 0)
    (hs : s.submitAsyncAccept fd hasAddrBuffer cb = .ok (r, s'))
    (hid : s'.fdToEventInfo fd.key = some id)
    : (s'.infos id).action.isReadable = true → id ∈ s'.readyEvents.drop n := by
  unfold submitAsyncAccept at hs
  split at hs
  next hrej => simp [h.isInited, hfd] at hrej
  . obtain ⟨⟨i, s₁⟩, hfind, hs⟩ := Except.bind_eq_ok hs
    have hi := findOrInsert_map hfind
    have hupdates : Updates (.submitAsyncAccept fd hasAddrBuffer cb) s s
        (s₁.prepareAccept i hasAddrBuffer cb) :=
      (Updates.findOrInsert hfind).trans (Updates.prepareAccept hasAddrBuffer cb rfl hi)
    have hlead := (h.updates rfl hupdates).1.lead
    cases hs
    have hmap := (SameReg.pushIfReadable (s₁.prepareAccept i hasAddrBuffer cb) i).map
    rw [hmap, prepareAccept_fdToEventInfo, hi] at hid
    cases hid
    intro hr
    unfold pushIfReadable at hr ⊢
    split at hr
    next hreadable =>
      rw [if_pos hreadable, pushReady, List.drop_append_of_le_length hlead]
      exact List.mem_append_right _ (List.mem_singleton.mpr rfl)
    next hreadable => exact absurd hr hreadable

theorem exec (h : s.Listens n id k) (hop : op.readsGroup k = false) {r : Int}
    (hs : s.exec op = .ok (r, s'))
    : s'.Listens n id k ∧ (s.fdToEventInfo k = some id → s'.fdToEventInfo k = some id) := by
  have h' := h.updates hop (exec_updates hs)
  exact ⟨h'.1, h'.2.map k id⟩

theorem exec_accepting (h : s.Listens n id k) {r : Int} (hid : s.fdToEventInfo k = some id)
    (hop : op.acceptsOn k = true) (hs : s.exec op = .ok (r, s'))
    : s'.Accepting n id k := by
  cases op with
  | submitAsyncAccept fd hasAddrBuffer cb =>
    have h' := h.updates rfl (exec_updates hs)
    simp only [Op.acceptsOn, Bool.and_eq_true, decide_eq_true_eq] at hop
    refine { h'.1 with accept := fun _ => ?_ }
    apply h.submitAsyncAccept_queued (by omega) hs
    rw [hop.2]
    exact h'.2.map _ _ hid
  | _ => cases hop

end Listens

theorem Accepting.exec {op : Op} {s s' : Epoll} {n id k : Nat} {r : Int} (h : s.Accepting n id k)
    (hop : op.readsGroup k = false) (hs : s.exec op = .ok (r, s'))
    : s'.Accepting n id k := by
  have h' := h.toListens.updates hop (exec_updates hs)
  refine { h'.1 with accept := ?_ }
  intro ha hr
  rcases h'.2.accept ha with hold | ⟨fd, hasAddrBuffer, cb, rfl, hid⟩
  . rw [h'.2.isReadable] at hr
    obtain ⟨t, ht⟩ := h'.2.ready
    rw [← ht, List.drop_append_of_le_length h.lead]
    exact List.mem_append_left _ (h.accept hold hr)
  . by_cases hfd : fd.num < 0
    . have heq : s.exec (.submitAsyncAccept fd hasAddrBuffer cb) = .ok (-1, s) := by
        simp [Epoll.exec, submitAsyncAccept, hfd]
      rw [heq] at hs
      cases hs
      exact h.accept ha hr
    . exact h.toListens.submitAsyncAccept_queued hfd hs hid hr

theorem Listens.setAction {s : Epoll} {n id k i : Nat} (h : s.Listens n id k) {a : EventAction}
    (hm : a.multishotReadTask = (s.infos i).action.multishotReadTask)
    : (s.setAction i a).Listens n id k := by
  rw [setAction_def]
  refine { h with wf := h.wf.setAction, key := ?_, multishot := ?_ }
  . rw [modifyInfo_infos]
    split
    next heq =>
      rw [← heq]
      exact h.key
    . exact h.key
  . rw [modifyInfo_infos]
    split
    next heq =>
      rw [hm, ← heq]
      exact h.multishot
    . exact h.multishot

-- The action may find out that there is nothing left.
theorem Accepting.setAction {s : Epoll} {n id k i : Nat} (h : s.Accepting n id k) {a : EventAction}
    (hm : a.multishotReadTask = (s.infos i).action.multishotReadTask)
    (ha : i = id → a.hasAcceptTask = (s.infos i).action.hasAcceptTask
      ∧ (a.isReadable = true → (s.infos i).action.isReadable = true))
    : (s.setAction i a).Accepting n id k := by
  refine { h.toListens.setAction hm with accept := ?_ }
  rw [setAction_def, modifyInfo_infos]
  split
  next heq =>
    rw [heq] at h ⊢
    intro hacc hr
    exact h.accept ((ha heq.symm).1 ▸ hacc) ((ha heq.symm).2 hr)
  . exact h.accept

theorem Listens.of_not_readable {s : Epoll} {n id k : Nat} (h : s.Listens n id k)
    (hr : (s.infos id).action.isReadable = false)
    : s.Accepting n id k := by
  refine { h with accept := ?_ }
  rw [hr]
  intro _ h
  cases h

-- The front of `ready_events_` is handled next.
theorem Accepting.head {s : Epoll} {id k i : Nat} {ids : List Nat} (h : s.Accepting 0 id k)
    (hids : s.readyEvents = i :: ids) (hne : i ≠ id)
    : s.Accepting 1 id k := by
  refine { h with lead := by simp [hids], accept := ?_ }
  intro ha hr
  have := h.accept ha hr
  rw [hids] at this ⊢
  simpa [hne.symm] using this

-- The front of `ready_events_` has been handled.
theorem Accepting.tail {s : Epoll} {id k : Nat} (h : s.Accepting 1 id k)
    : { s with readyEvents := s.readyEvents.tail }.Accepting 0 id k := by
  refine { h with wf := ?_, lead := Nat.zero_le _, accept := ?_ }
  . exact { h.wf with ready := fun j hj => h.wf.ready j (List.mem_of_mem_tail hj) }
  . intro ha hr
    simpa using h.accept ha hr

end Epoll

end Event
end Ezio
