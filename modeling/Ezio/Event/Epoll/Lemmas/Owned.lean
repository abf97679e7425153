import Ezio.Event.Epoll.Lemmas.Registration

/-!
This module contains the ownership of the `event_info` objects. `fd_to_event_info_` keeps them alive, the change list
and the kernel only have plain pointers to them.
-/

namespace Ezio
namespace Event

open EStateM (Preserves Triple)

-- The errors after which `EPOLL_CTL_DEL` takes the file for one that is not registered.
def isUnknownFd : Errno → Bool
  | .noent | .badf | .perm => true
  | _ => false

-- The kernel answers with none of them but for what `Kernel.epollCtl` sees itself: a file that is not open or not
-- registered.
def Truthful (errs : List (Option Errno)) : Prop :=
  ∀ e, some e ∈ errs → isUnknownFd e = false

instance (errs : List (Option Errno)) : Decidable (Truthful errs) :=
  decidable_of_iff (∀ o ∈ errs, ∀ e ∈ o, isUnknownFd e = false)
    ⟨fun h e he => h (some e) he e rfl, fun h _ ho e he => h e (he ▸ ho)⟩

theorem Kernel.epollCtl_cases {k k' : Kernel} {op : CtlOp} {fd ptr : Nat} {mask : Mask} {err : Option Errno}
    (h : k.epollCtl op fd mask ptr = (err, k'))
    : (∃ e, err = some e ∧ k'.interest = k.interest
        ∧ (some e ∈ k.ctlErrs ∨ k.isOpen fd = false ∨ op = .add ∧ e = .exist ∨ k.interest fd = none))
      ∨ err = none ∧ k.isOpen fd = true
        ∧ k'.interest = Function.update k.interest fd (if op = .del then none else some (mask, ptr)) := by
  unfold epollCtl at h
  dsimp only at h
  split at h
  . next e hhead =>
    cases h
    refine .inl ⟨e, rfl, rfl, .inl ?_⟩
    cases herrs : k.ctlErrs with
    | nil => simp [herrs] at hhead
    | cons o errs =>
      rw [herrs] at hhead
      have ho : o = some e := by simpa using hhead
      rw [ho]
      exact List.mem_cons_self
  . split at h
    . next hopen =>
      cases h
      exact .inl ⟨_, rfl, rfl, .inr (.inl (by simpa using hopen))⟩
    . next hopen =>
      have hopen : k.isOpen fd = true := by simpa using hopen
      split at h
      . cases h
        exact .inr ⟨rfl, hopen, rfl⟩
      . cases h
        exact .inl ⟨_, rfl, rfl, .inr (.inr (.inl ⟨rfl, rfl⟩))⟩
      . cases h
        exact .inr ⟨rfl, hopen, rfl⟩
      . next hnone =>
        cases h
        exact .inl ⟨_, rfl, rfl, .inr (.inr (.inr hnone))⟩
      . cases h
        exact .inr ⟨rfl, hopen, rfl⟩
      . next hnone =>
        cases h
        exact .inl ⟨_, rfl, rfl, .inr (.inr (.inr hnone))⟩

namespace Epoll

-- Whatever the kernel has a pointer to belongs to the number that it is registered for.
structure Owned (s : Epoll) : Prop where
  owner : ∀ k mask id, s.kernel.interest k = some (mask, id)
    → s.fdToEventInfo k = some id ∧ (s.infos id).isInEpoll = true
  isOpen : ∀ k mask id, s.kernel.interest k = some (mask, id) → s.kernel.isOpen k = true
  ctlErrs : Truthful s.kernel.ctlErrs

namespace Owned

variable {s s' : Epoll} {id k : Nat}

theorem of_fields (h : s.Owned) (hkernel : s'.kernel = s.kernel) (hmap : s'.fdToEventInfo = s.fdToEventInfo)
    (hin : ∀ j, (s'.infos j).isInEpoll = (s.infos j).isInEpoll)
    : s'.Owned := by
  refine ⟨?_, ?_, ?_⟩
  . rw [hkernel, hmap]
    intro k mask j hj
    rw [hin]
    exact h.owner k mask j hj
  . rw [hkernel]
    exact h.isOpen
  . rw [hkernel]
    exact h.ctlErrs

theorem modifyInfo (h : s.Owned) {f : EventInfo → EventInfo} (hf : ∀ info, (f info).isInEpoll = info.isInEpoll)
    : (s.modifyInfo id f).Owned := by
  apply h.of_fields (modifyInfo_kernel s id f) (modifyInfo_fdToEventInfo s id f)
  intro j
  rw [modifyInfo_infos]
  split
  . next heq => rw [hf, heq]
  . rfl

theorem setAction (h : s.Owned) {a : EventAction}
    : (s.setAction id a).Owned := by
  rw [setAction_def]
  exact h.modifyInfo fun _ => rfl

theorem of_same (h : s.Owned) (hs : SameReg s s')
    : s'.Owned := h.of_fields hs.kernel hs.map hs.inEpoll

theorem insert (h : s.Owned) (hlisted : s.Listed s.evtChangeLst) {fd : Fd} (info : EventInfo)
    (hmap : s.fdToEventInfo fd.key = none)
    : (s.insert fd info).Owned := by
  refine ⟨?_, h.isOpen, h.ctlErrs⟩
  intro k mask j hj
  have ⟨hk, hin⟩ := h.owner k mask j hj
  have hne : k ≠ fd.key := by
    rintro rfl
    rw [hmap] at hk
    cases hk
  rw [insert_fdToEventInfo, if_neg hne, insert_infos, if_neg (Nat.ne_of_lt (hlisted.map k j hk).1)]
  exact ⟨hk, hin⟩

theorem update {op : Op} {s₀ : Epoll} (h : s.Owned) (hlisted : s.Listed s.evtChangeLst) (hs : Update op s₀ s s')
    : s'.Owned := by
  cases hs with
  | insert fd info hmap hinfo => exact h.insert hlisted info hmap
  | watch fd i events hi => exact h.modifyInfo fun _ => rfl
  | enlist fd i hi hflag =>
    have henlist : { s with evtChangeLst := s.evtChangeLst ++ [i] }.Owned := h.of_fields rfl rfl fun _ => rfl
    exact henlist.modifyInfo fun _ => rfl
  | quiet fd i a hi ha => exact h.setAction
  | accept fd hasAddrBuffer cb i hop hi => exact h.setAction
  | group fd group cb opt i t blocks hop hi => exact h.setAction
  | buffers buffers => exact h.of_fields rfl rfl fun _ => rfl
  | queueRead fd buf cb opt i t isSubmit hop hi htype ht hbuf => exact h.of_same (SameReg.queueRead s i t isSubmit)
  | queueWrite fd buf cb opt i t isSubmit hop hi ht hbuf => exact h.of_same (SameReg.queueWrite s i t isSubmit)
  | pushReady fd i hi => exact h.of_same (SameReg.pushReady s i)
  | insertNonSubmit fd i hi => exact h.of_same (SameReg.insertNonSubmit s i)
  | submittedOne i hop hi => exact h.of_same (SameReg.submittedOne s i)
  | submitted hop => exact h.of_fields rfl rfl fun _ => rfl
  | close fd hop =>
    have hne : ∀ k mask id, (s.kernel.close fd).interest k = some (mask, id)
        → k ≠ fd ∧ s.kernel.interest k = some (mask, id) := by
      intro k mask id hk
      have hk : Function.update s.kernel.interest fd none k = some (mask, id) := hk
      rw [Function.update_apply] at hk
      split at hk
      . cases hk
      . next hne => exact ⟨hne, hk⟩
    refine ⟨fun k mask id hk => h.owner k mask id (hne k mask id hk).2, ?_, h.ctlErrs⟩
    intro k mask id hk
    obtain ⟨hne, hk⟩ := hne k mask id hk
    exact (Function.update_of_ne hne ..).trans (h.isOpen k mask id hk)
  | «open» fd hop =>
    refine ⟨h.owner, ?_, h.ctlErrs⟩
    intro k mask id hk
    change Function.update s.kernel.isOpen fd true k = true
    rw [Function.update_apply]
    split
    . rfl
    . exact h.isOpen k mask id hk
  | clear k i a hop hi ha => exact h.setAction

-- The number of `id` is registered with a pointer to it.
theorem registers (h : s.Owned) {mask : Mask} {kernel : Kernel} (hid : s.fdToEventInfo k = some id)
    (hopen : s.kernel.isOpen k = true) (hisOpen : kernel.isOpen = s.kernel.isOpen) (hctl : Truthful kernel.ctlErrs)
    (hinterest : kernel.interest = Function.update s.kernel.interest k (some (mask, id))) {f : EventInfo → EventInfo}
    (hf : ∀ info, (f info).isInEpoll = true)
    : ({ s with kernel }.modifyInfo id f).Owned := by
  refine ⟨?_, ?_, hctl⟩
  . intro k' mask' j hj
    have hj : kernel.interest k' = some (mask', j) := hj
    rw [hinterest, Function.update_apply] at hj
    have hown : s.fdToEventInfo k' = some j ∧ (j = id ∨ (s.infos j).isInEpoll = true) := by
      split at hj
      . next hk =>
        cases hj
        exact ⟨hk ▸ hid, .inl rfl⟩
      . have ⟨hk, hin⟩ := h.owner k' mask' j hj
        exact ⟨hk, .inr hin⟩
    refine ⟨hown.1, ?_⟩
    rw [modifyInfo_infos]
    split
    . exact hf _
    . next hne => exact hown.2.resolve_left hne
  . intro k' mask' j hj
    have hj : kernel.interest k' = some (mask', j) := hj
    change kernel.isOpen k' = true
    rw [hisOpen]
    rw [hinterest, Function.update_apply] at hj
    split at hj
    . next hk => exact hk ▸ hopen
    . exact h.isOpen k' mask' j hj

-- A number that is not registered is taken out of the map.
theorem erase (h : s.Owned) {kernel : Kernel} {removed : List Nat} (hisOpen : kernel.isOpen = s.kernel.isOpen)
    (hctl : Truthful kernel.ctlErrs) (hnone : kernel.interest k = none)
    (hinterest : ∀ k', k' ≠ k → kernel.interest k' = s.kernel.interest k')
    : { s with
        kernel
        fdToEventInfo := Function.update s.fdToEventInfo k none
        removedEventInfo := removed }.Owned := by
  have hne : ∀ k' mask id, kernel.interest k' = some (mask, id) → k' ≠ k := by
    rintro k' mask id hk rfl
    rw [hnone] at hk
    cases hk
  refine ⟨?_, ?_, hctl⟩
  . intro k' mask id hk
    have hk : kernel.interest k' = some (mask, id) := hk
    have hne := hne k' mask id hk
    rw [hinterest k' hne] at hk
    have ⟨hmap, hin⟩ := h.owner k' mask id hk
    exact ⟨(Function.update_of_ne hne ..).trans hmap, hin⟩
  . intro k' mask id hk
    have hk : kernel.interest k' = some (mask, id) := hk
    change kernel.isOpen k' = true
    rw [hisOpen]
    rw [hinterest k' (hne k' mask id hk)] at hk
    exact h.isOpen k' mask id hk

theorem fails (h : s.Owned) {kernel : Kernel} (hinterest : kernel.interest = s.kernel.interest)
    (hisOpen : kernel.isOpen = s.kernel.isOpen) (hctl : Truthful kernel.ctlErrs)
    : { s with kernel }.Owned := by
  refine ⟨?_, ?_, hctl⟩
  . change ∀ k mask id, kernel.interest k = some (mask, id) → _
    rw [hinterest]
    exact h.owner
  . change ∀ k mask id, kernel.interest k = some (mask, id) → kernel.isOpen k = true
    rw [hinterest, hisOpen]
    exact h.isOpen

theorem truthful_tail {errs : List (Option Errno)} (h : Truthful errs)
    : Truthful errs.tail := fun e he => h e (List.mem_of_mem_tail he)

-- What a failed call leaves behind, the file is either unknown to the kernel or stays as it is.
theorem unknown_of_fails (h : s.Owned) {e : Errno} (hunknown : isUnknownFd e = true)
    (hreason : some e ∈ s.kernel.ctlErrs ∨ s.kernel.isOpen k = false ∨ CtlOp.del = .add ∧ e = .exist
      ∨ s.kernel.interest k = none)
    : s.kernel.interest k = none := by
  rcases hreason with herr | hclosed | ⟨hop, _⟩ | hnone
  . rw [h.ctlErrs e herr] at hunknown
    cases hunknown
  . cases hinterest : s.kernel.interest k with
    | none => rfl
    | some p =>
      have hopen := h.isOpen k p.1 p.2 hinterest
      rw [hclosed] at hopen
      cases hopen
  . cases hop
  . exact hnone

-- The call that is tried again adds the file or changes it.
theorem retry (h : s.Owned) {op : CtlOp} {mask : Mask} {err : Option Errno} {kernel : Kernel}
    (hop : op ≠ .del) (hid : s.fdToEventInfo k = some id)
    (hcall : s.kernel.epollCtl op k mask id = (err, kernel))
    : (if err.isNone then { s with kernel }.modifyInfo id fun info => { info with isInEpoll := true }
        else { s with kernel }).Owned := by
  have hisOpen : kernel.isOpen = s.kernel.isOpen := by
    have := Kernel.epollCtl_isOpen s.kernel op k id mask
    rwa [hcall] at this
  have hctl : Truthful kernel.ctlErrs := by
    have := Kernel.epollCtl_ctlErrs s.kernel op k id mask
    rw [hcall] at this
    rw [this]
    exact truthful_tail h.ctlErrs
  rcases Kernel.epollCtl_cases hcall with ⟨e, rfl, hinterest, _⟩ | ⟨rfl, hopen, hinterest⟩
  . exact h.fails hinterest hisOpen hctl
  . rw [if_neg hop] at hinterest
    have hreg := h.registers (f := fun info => { info with isInEpoll := true }) hid hopen hisOpen hctl hinterest
      fun _ => rfl
    exact hreg

theorem retryOp_ne_del {op op' : CtlOp} {e : Errno} (h : retryOp op e = some op')
    : op' ≠ .del := by
  unfold retryOp at h
  split at h <;> cases h <;> simp

theorem applyOneChange (h : s.Owned) (hid : s.fdToEventInfo (s.infos id).fd.key = some id)
    : (s.applyOneChange id).Owned := by
  unfold Epoll.applyOneChange
  dsimp only
  split
  . next hop =>
    -- the file is neither in use nor registered
    have hnone : s.kernel.interest (s.infos id).fd.key = none := by
      cases hinterest : s.kernel.interest (s.infos id).fd.key with
      | none => rfl
      | some p =>
        have ⟨hmap, hin⟩ := h.owner _ p.1 p.2 hinterest
        rw [hid] at hmap
        cases hmap
        unfold changeOp at hop
        rw [hin] at hop
        split at hop <;> cases hop
    unfold Epoll.removeEventInfo
    rw [hid]
    exact h.erase rfl h.ctlErrs hnone fun _ _ => rfl
  . next op hop =>
    have hisOpen : (s.kernel.epollCtl op (s.infos id).fd.key
        { (s.infos id).action.events with et := (s.infos id).events.et } id).2.isOpen = s.kernel.isOpen :=
      Kernel.epollCtl_isOpen ..
    have hctl : Truthful (s.kernel.epollCtl op (s.infos id).fd.key
        { (s.infos id).action.events with et := (s.infos id).events.et } id).2.ctlErrs := by
      rw [Kernel.epollCtl_ctlErrs]
      exact truthful_tail h.ctlErrs
    generalize hcall : s.kernel.epollCtl op (s.infos id).fd.key
      { (s.infos id).action.events with et := (s.infos id).events.et } id = result at hisOpen hctl ⊢
    obtain ⟨err, kernel⟩ := result
    dsimp only at hisOpen hctl ⊢
    rcases Kernel.epollCtl_cases hcall with ⟨e, rfl, hinterest, hreason⟩ | ⟨rfl, hopen, hinterest⟩
    . dsimp only
      have hfails : { s with kernel }.Owned := h.fails hinterest hisOpen hctl
      split
      . next hdel =>
        have hdel : op = .del ∧ (e = .noent ∨ e = .badf ∨ e = .perm) := by
          simpa [or_assoc] using hdel
        obtain ⟨rfl, herr⟩ := hdel
        have hunknown : isUnknownFd e = true := by
          rcases herr with rfl | rfl | rfl <;> rfl
        have hnone := h.unknown_of_fails hunknown hreason
        rw [← hinterest] at hnone
        exact h.erase hisOpen hctl hnone fun _ _ => by rw [hinterest]
      . split
        . exact hfails.modifyInfo fun _ => rfl
        . next op' hretry =>
          refine modifyInfo ?_ fun _ => rfl
          exact hfails.retry (retryOp_ne_del hretry) hid rfl
    . dsimp only
      split
      . next hdel =>
        unfold Epoll.removeEventInfo
        dsimp only
        rw [hid]
        rw [if_pos hdel] at hinterest
        refine h.erase hisOpen hctl ?_ ?_
        . rw [hinterest, Function.update_self]
        . intro k' hk'
          rw [hinterest, Function.update_of_ne hk']
      . next hdel =>
        rw [if_neg hdel] at hinterest
        exact h.registers hid hopen hisOpen hctl hinterest fun _ => rfl

theorem foldl_applyOneChange {lst : List Nat} (h : s.Owned) (hlisted : s.Listed lst)
    : (lst.foldl Epoll.applyOneChange s).Owned := by
  induction lst generalizing s with
  | nil => exact h
  | cons id lst ih =>
    exact ih (h.applyOneChange (hlisted.mapped id List.mem_cons_self)) hlisted.applyOneChange

theorem applyChanges (h : s.Owned) (hlisted : s.Listed s.evtChangeLst) : s.applyChanges.Owned :=
  (h.foldl_applyOneChange hlisted).of_fields rfl rfl fun _ => rfl

theorem init (isOpen : Nat → Bool) : (Epoll.init isOpen).Owned := by
  constructor <;> simp [Epoll.init, Truthful]

theorem updates {op : Op} {s₀ : Epoll} (h : s.Owned) (hlisted : s.Listed s.evtChangeLst) (hs : Updates op s₀ s s')
    : s'.Owned := by
  have hboth : s'.Listed s'.evtChangeLst ∧ s'.Owned := by
    induction hs with
    | refl => exact ⟨hlisted, h⟩
    | tail _ hs ih => exact ⟨ih.1.update hs, ih.2.update ih.1 hs⟩
  exact hboth.2

theorem runFrame
    : RunFrame (fun _ => True) Truthful (fun w => w.poll.Listed w.poll.evtChangeLst ∧ w.poll.Owned) := by
  constructor
  . apply EventFrame.of_handled
    . intro op _
      apply exec_triple
      . intro w r s hw h
        have hs := Epoll.exec_updates h
        exact ⟨hw.1.updates hs, hw.2.updates hw.1 hs⟩
      . intro w f hw _
        exact hw
    . intro w sys user log hw
      exact hw
    . intro w id a _ hw
      exact ⟨hw.1.setAction, hw.2.setAction⟩
    . intro w group f hw
      exact ⟨hw.1.of_fields rfl rfl (fun _ => rfl) (fun _ => rfl), hw.2.of_fields rfl rfl fun _ => rfl⟩
    . intro w ready _ hw
      exact ⟨hw.1.of_fields rfl rfl (fun _ => rfl) (fun _ => rfl), hw.2.of_fields rfl rfl fun _ => rfl⟩
  . intro w hw
    exact ⟨hw.1.applyChanges, hw.2.applyChanges hw.1⟩
  . intro w hw
    exact ⟨hw.1.of_fields rfl rfl (fun _ => rfl) (fun _ => rfl), hw.2.of_fields rfl rfl fun _ => rfl⟩
  . intro w errs herrs hw
    exact ⟨hw.1.of_fields rfl rfl (fun _ => rfl) (fun _ => rfl), { hw.2 with ctlErrs := herrs }⟩

end Owned

-- `fd_to_event_info_` keeps the `event_info` alive.
def Alive (s : Epoll) (id : Nat) : Prop := ∃ k, s.fdToEventInfo k = some id

theorem Alive.update {op : Op} {s₀ s s' : Epoll} {id : Nat} (h : s.Alive id) (hs : Update op s₀ s s')
    : s'.Alive id := by
  obtain ⟨k, hk⟩ := h
  refine ⟨k, ?_⟩
  cases hs with
  | insert fd info hmap hinfo =>
    have hne : k ≠ fd.key := by
      rintro rfl
      rw [hmap] at hk
      cases hk
    rw [insert_fdToEventInfo, if_neg hne]
    exact hk
  | queueRead fd buf cb opt i t isSubmit hop hi htype ht hbuf => rwa [(SameReg.queueRead s i t isSubmit).map]
  | queueWrite fd buf cb opt i t isSubmit hop hi ht hbuf => rwa [(SameReg.queueWrite s i t isSubmit).map]
  | pushReady fd i hi => rwa [(SameReg.pushReady s i).map]
  | insertNonSubmit fd i hi => rwa [(SameReg.insertNonSubmit s i).map]
  | submittedOne i hop hi => rwa [(SameReg.submittedOne s i).map]
  | _ => exact hk

theorem Alive.updates {op : Op} {s₀ s s' : Epoll} {id : Nat} (h : s.Alive id) (hs : Updates op s₀ s s')
    : s'.Alive id := by
  induction hs with
  | refl => exact h
  | tail _ hs ih => exact ih.update hs

-- Only `apply_changes` takes an `event_info` out of the map, no callback does.
theorem Alive.eventFrame (id : Nat) : EventFrame (fun _ => True) (fun w => w.poll.Alive id) := by
  apply EventFrame.of_handled
  . intro op _
    apply exec_triple
    . intro w r s hw h
      exact hw.updates (Epoll.exec_updates h)
    . intro w f hw _
      exact hw
  . intro w sys user log hw
    exact hw
  . intro w i a _ hw
    exact hw
  . intro w group f hw
    exact hw
  . intro w ready _ hw
    exact hw

-- `epoll_wait` only returns pointers that have been registered.
theorem Owned.alive {s : Epoll} (h : s.Owned) {ready : List (Nat × Mask)} {p : Nat × Mask}
    (hp : p ∈ epollWait s.kernel ready)
    : s.Alive p.1 := by
  have hp := List.mem_of_mem_take hp
  rw [List.mem_filterMap] at hp
  obtain ⟨⟨k, events⟩, _, hp⟩ := hp
  obtain ⟨⟨mask, id⟩, hinterest, rfl⟩ := Option.map_eq_some_iff.mp hp
  exact ⟨k, (h.owner k mask id hinterest).1⟩

end Epoll

-- The state in which a `dispatch` calls `epoll_wait`.
def World.waits (w : World) (sys : List SysRet) (user : List (List Op)) (ctlErrs : List (Option Errno)) : World :=
  { w.load sys user ctlErrs with poll := (w.load sys user ctlErrs).poll.applyChanges }

/--
The kernel only has plain pointers to the `event_info`s. In every run, each pointer that `epoll_wait` returns still
belongs to an `event_info` that `fd_to_event_info_` owns when `dispatch` follows it, whatever the changes have removed
and whatever the callbacks that run before it cancel, close and open. All that is asked of the kernel is that it has a
reason to say that it does not know a file.
-/
theorem run_alive {isOpen : Nat → Bool} {sts : List Step} {w w' : World} {errs : List (Option Errno)}
    (ready : List (Nat × Mask)) (sys : List SysRet) (user : List (List Op)) (before : List (Nat × Mask))
    (p : Nat × Mask) (after : List (Nat × Mask)) (hsts : ∀ st ∈ sts, Truthful st.ctlErrs) (herrs : Truthful errs)
    (hrun : run sts (World.init isOpen) = .ok () w)
    (hwait : epollWait (w.waits sys user errs).poll.kernel ready = before ++ p :: after)
    (hbefore : (before.forM fun e => setReadyEvents e.1 e.2) (w.waits sys user errs) = .ok () w')
    : w'.poll.Alive p.1 := by
  have hframe := Epoll.Owned.runFrame
  have hw := (hframe.run (fun st _ => by cases st <;> simp [Step.Calls]) hsts).of_ok
    ⟨Epoll.Listed.init isOpen, Epoll.Owned.init isOpen⟩ hrun
  have hload : (w.load sys user errs).poll.Listed (w.load sys user errs).poll.evtChangeLst
      ∧ (w.load sys user errs).poll.Owned := hframe.ctlErrs w errs herrs hw
  have howned : (w.waits sys user errs).poll.Owned := hload.2.applyChanges hload.1
  have halive : (w.waits sys user errs).poll.Alive p.1 := by
    apply howned.alive
    rw [hwait]
    exact List.mem_append_right before List.mem_cons_self
  have hkeeps : Preserves (Frame.Inv (fun _ => True) fun w => w.poll.Alive p.1)
      (before.forM fun e => setReadyEvents e.1 e.2) := by
    apply Preserves.forM
    intro e _
    exact (Epoll.Alive.eventFrame p.1).setReadyEvents _ _
  exact (hkeeps.of_ok ⟨fun _ _ _ _ => trivial, halive⟩ hbefore).2

-- Two files are ready, and the callback of the first one cancels the read of the second one and closes it.
def twoReadsRun : List Step :=
  [.op (.submitAsyncRead ⟨3, .tcp⟩ ⟨false, [⟨4096, 8⟩]⟩ (some 0) none),
    .op (.submitAsyncRead ⟨4, .tcp⟩ ⟨false, [⟨8192, 8⟩]⟩ (some 1) none)]

def cancelsOther : List (List Op) := [[.cancelAsyncRead ⟨4, .tcp⟩ (some 2), .close 4]]

def twoReadsEnd : World := (run twoReadsRun (World.init fun _ => true)).state

def twoReadsFirst : World :=
  (setReadyEvents 0 ⟨true, false, false⟩ (twoReadsEnd.waits [.ok 4 [], .fail .again] cancelsOther [])).state

theorem twoReadsRun_alive
    : run twoReadsRun (World.init fun _ => true) = .ok () twoReadsEnd
      ∧ setReadyEvents 0 ⟨true, false, false⟩ (twoReadsEnd.waits [.ok 4 [], .fail .again] cancelsOther []) =
          .ok () twoReadsFirst
      ∧ (twoReadsFirst.action 1).isReading = false ∧ twoReadsFirst.poll.kernel.interest 4 = none
      ∧ twoReadsFirst.poll.Alive 1 := by
  have hrun : run twoReadsRun (World.init fun _ => true) = .ok () twoReadsEnd :=
    EStateM.Result.eq_ok_of_isOk (by decide +kernel)
  have hfirst : setReadyEvents 0 ⟨true, false, false⟩ (twoReadsEnd.waits [.ok 4 [], .fail .again] cancelsOther []) =
      .ok () twoReadsFirst := EStateM.Result.eq_ok_of_isOk (by decide +kernel)
  refine ⟨hrun, hfirst, by decide +kernel, by decide +kernel, ?_⟩
  have hkernel : Truthful [] := by decide
  refine run_alive [(3, ⟨true, false, false⟩), (4, ⟨true, false, false⟩)] [.ok 4 [], .fail .again] cancelsOther
    [(0, ⟨true, false, false⟩)] (1, ⟨true, false, false⟩) [] (by decide) hkernel hrun (by decide +kernel) ?_
  rw [List.forM_eq_forM, List.forM_cons, EStateM.bind_apply, hfirst]
  rfl

end Event
end Ezio
