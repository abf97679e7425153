import Ezio.Event.Epoll.Lemmas.Wf

/-!
This module contains the invariant of the change list: an `event_info` is in it exactly if its flag says
so, it is in it only once, and it is the one that its file descriptor is looked up to.
-/

namespace Ezio
namespace Event

open EStateM (Preserves Triple)

namespace Epoll

-- What registration is about is the same in both states.
structure SameReg (s s' : Epoll) : Prop where
  isInited : s'.isInited = s.isInited
  next : s'.next = s.next
  map : s'.fdToEventInfo = s.fdToEventInfo
  change : s'.evtChangeLst = s.evtChangeLst
  kernel : s'.kernel = s.kernel
  fd : ∀ j, (s'.infos j).fd = (s.infos j).fd
  bits : ∀ j, (s'.infos j).events = (s.infos j).events
  inEpoll : ∀ j, (s'.infos j).isInEpoll = (s.infos j).isInEpoll
  flag : ∀ j, (s'.infos j).isInChangeList = (s.infos j).isInChangeList
  events : ∀ j, (s'.infos j).action.events = (s.infos j).action.events

namespace SameReg

theorem refl (s : Epoll) : SameReg s s := by
  constructor <;> simp

theorem trans {s₁ s₂ s₃ : Epoll} (h : SameReg s₁ s₂) (h' : SameReg s₂ s₃) : SameReg s₁ s₃ := by
  constructor
  . rw [h'.isInited, h.isInited]
  . rw [h'.next, h.next]
  . rw [h'.map, h.map]
  . rw [h'.change, h.change]
  . rw [h'.kernel, h.kernel]
  . intro j
    rw [h'.fd, h.fd]
  . intro j
    rw [h'.bits, h.bits]
  . intro j
    rw [h'.inEpoll, h.inEpoll]
  . intro j
    rw [h'.flag, h.flag]
  . intro j
    rw [h'.events, h.events]

theorem setAction (s : Epoll) {id : Nat} {a : EventAction} (ha : a.events = (s.infos id).action.events)
    : SameReg s (s.setAction id a) := by
  rw [setAction_def]
  constructor
  all_goals try rfl
  all_goals
    intro j
    rw [modifyInfo_infos]
    split
    next h => simp [h, ha]
    . rfl

theorem modifyAction (s : Epoll) {id : Nat} {g : EventAction → EventAction}
    (hg : ∀ a : EventAction, (g a).events = a.events)
    : SameReg s (s.modifyAction id g) := setAction s (hg _)

theorem setBuffers (s : Epoll) (buffers : List (Option RingBufferInfo))
    : SameReg s { s with buffers := buffers } := by
  constructor <;> simp

theorem addMultishotReadTask (s : Epoll) (id : Nat) (t : MultishotTask) (blocks : List Iovec)
    : SameReg s (s.modifyAction id fun a => a.addMultishotReadTask t blocks) := by
  apply modifyAction
  intro a
  have ⟨_, _, h⟩ := a.addMultishotReadTask_eq t blocks
  rw [h]

theorem setReadOffset (s : Epoll) (id : Nat) (offset : Option Nat)
    : SameReg s (s.setReadOffset id offset) := by
  unfold Epoll.setReadOffset
  split
  . exact modifyAction s (fun _ => rfl)
  . exact refl s

theorem setWriteOffset (s : Epoll) (id : Nat) (offset : Option Nat)
    : SameReg s (s.setWriteOffset id offset) := by
  unfold Epoll.setWriteOffset
  split
  . exact modifyAction s (fun _ => rfl)
  . exact refl s

theorem pushReady (s : Epoll) (id : Nat) : SameReg s (s.pushReady id) := by
  constructor <;> simp [Epoll.pushReady]

theorem pushIfReadable (s : Epoll) (id : Nat) : SameReg s (s.pushIfReadable id) := by
  unfold Epoll.pushIfReadable
  split
  . exact pushReady s id
  . exact refl s

theorem pushIfWritable (s : Epoll) (id : Nat) : SameReg s (s.pushIfWritable id) := by
  unfold Epoll.pushIfWritable
  split
  . exact pushReady s id
  . exact refl s

theorem insertNonSubmit (s : Epoll) (id : Nat) : SameReg s (s.insertNonSubmit id) := by
  unfold Epoll.insertNonSubmit
  split
  . exact refl s
  . constructor <;> simp

theorem takeTask (s : Epoll) : SameReg s s.takeTask := by
  constructor <;> simp [Epoll.takeTask]

theorem queueRead (s : Epoll) (id : Nat) (t : Task) (isSubmit : Bool)
    : SameReg s (s.queueRead id t isSubmit) := by
  unfold Epoll.queueRead
  split
  . refine SameReg.trans ?_ (pushIfReadable _ id)
    exact (takeTask s).trans (modifyAction _ (fun _ => rfl))
  . refine SameReg.trans ?_ (insertNonSubmit _ id)
    exact (takeTask s).trans (modifyAction _ (fun _ => rfl))

theorem queueWrite (s : Epoll) (id : Nat) (t : Task) (isSubmit : Bool)
    : SameReg s (s.queueWrite id t isSubmit) := by
  unfold Epoll.queueWrite
  split
  . refine SameReg.trans ?_ (pushIfWritable _ id)
    exact (takeTask s).trans (modifyAction _ (fun _ => rfl))
  . refine SameReg.trans ?_ (insertNonSubmit _ id)
    exact (takeTask s).trans (modifyAction _ (fun _ => rfl))

theorem submittedOne (s : Epoll) (id : Nat) : SameReg s (s.submittedOne id) := by
  unfold Epoll.submittedOne
  dsimp only
  split
  . refine SameReg.trans ?_ (pushReady _ id)
    exact modifyAction _ (fun _ => rfl)
  . exact modifyAction _ (fun _ => rfl)

theorem submit {r : Int} {s s' : Epoll} (h : s.submit = .ok (r, s')) : SameReg s s' := by
  replace h := (submit_eq_ok h).2
  unfold Epoll.submitted at h
  split at h
  . cases h
    exact refl s
  . cases h
    have hfold : ∀ (ids : List Nat) (t : Epoll), SameReg t (ids.foldl Epoll.submittedOne t) := by
      intro ids
      induction ids with
      | nil =>
        intro t
        exact refl t
      | cons id ids ih =>
        intro t
        exact (submittedOne t id).trans (ih _)
    exact { hfold s.nonSubmitEvents s with }

theorem clearMultishotTask {s s' : Epoll} {id : Nat} (h : s.clearMultishotTask id = .ok s')
    : SameReg s s' := by
  obtain ⟨buffers, a, ha, rfl⟩ := clearMultishotTask_eq_ok h
  obtain ⟨_, _, _, _, _, _, rfl⟩ := EventAction.clearMultishotTask_eq_ok ha
  exact (setBuffers s buffers).trans (setAction _ rfl)

theorem unregisterRingBuffer {r : Int} {s s' : Epoll} {group : Nat}
    (h : s.unregisterRingBuffer group = .ok (r, s'))
    : SameReg s s' := by
  unfold Epoll.unregisterRingBuffer at h
  split at h
  . cases h
    exact refl s
  next ring _ =>
    obtain ⟨s₁, hrem, h⟩ := Except.bind_eq_ok h
    cases h
    have hfold : ∀ (fdSet : List Nat) (t : Epoll), t.removeMultishotTask fdSet = .ok s₁ → SameReg t s₁ := by
      intro fdSet
      induction fdSet with
      | nil =>
        intro t h
        cases h
        exact refl _
      | cons fd fdSet ih =>
        intro t h
        unfold removeMultishotTask at h
        rw [List.foldlM_cons] at h
        obtain ⟨t₁, hclear, h⟩ := Except.bind_eq_ok h
        split at hclear
        . cases hclear
          exact ih _ h
        . exact (clearMultishotTask hclear).trans (ih _ h)
    exact { hfold ring.fdSet s hrem with }

theorem registerRingBuffer (s : Epoll) (blockSize blockCount : Nat) (addrs : List Nat)
    : SameReg s (s.registerRingBuffer blockSize blockCount addrs).2 := by
  unfold Epoll.registerRingBuffer
  dsimp only
  generalize (_ || _ : Bool) = c
  cases c with
  | true => exact refl s
  | false => exact setBuffers s _

end SameReg

structure Listed (s : Epoll) (lst : List Nat) : Prop where
  map : ∀ k id, s.fdToEventInfo k = some id → id < s.next ∧ (s.infos id).fd.key = k
  nodup : lst.Nodup
  mapped : ∀ id ∈ lst, s.fdToEventInfo (s.infos id).fd.key = some id
  flag : ∀ k id, s.fdToEventInfo k = some id → ((s.infos id).isInChangeList = true ↔ id ∈ lst)

namespace Listed

variable {s s' : Epoll} {lst : List Nat} {id : Nat}

theorem lt (h : s.Listed lst) (hid : id ∈ lst) : id < s.next := (h.map _ _ (h.mapped id hid)).1

theorem of_fields (h : s.Listed lst) (hnext : s'.next = s.next)
    (hmap : s'.fdToEventInfo = s.fdToEventInfo) (hfd : ∀ j, (s'.infos j).fd = (s.infos j).fd)
    (hflag : ∀ j, (s'.infos j).isInChangeList = (s.infos j).isInChangeList)
    : s'.Listed lst := by
  constructor
  . rw [hmap, hnext]
    intro k j hj
    rw [hfd]
    exact h.map k j hj
  . exact h.nodup
  . rw [hmap]
    intro j hj
    rw [hfd]
    exact h.mapped j hj
  . rw [hmap]
    intro k j hj
    rw [hflag]
    exact h.flag k j hj

theorem of_same (h : s.Listed s.evtChangeLst) (hs : SameReg s s') : s'.Listed s'.evtChangeLst := by
  rw [hs.change]
  exact h.of_fields hs.next hs.map hs.fd hs.flag

theorem modifyInfo (h : s.Listed lst) {f : EventInfo → EventInfo}
    (hfd : ∀ info, (f info).fd = info.fd)
    (hflag : ∀ info, (f info).isInChangeList = info.isInChangeList)
    : (s.modifyInfo id f).Listed lst := by
  apply h.of_fields (modifyInfo_next s id f) (modifyInfo_fdToEventInfo s id f)
  . intro j
    rw [modifyInfo_infos]
    split
    next heq => rw [hfd, heq]
    . rfl
  . intro j
    rw [modifyInfo_infos]
    split
    next heq => rw [hflag, heq]
    . rfl

theorem setAction (h : s.Listed lst) {a : EventAction} : (s.setAction id a).Listed lst := by
  rw [setAction_def]
  apply h.modifyInfo
  . intro info
    rfl
  . intro info
    rfl

theorem insert (h : s.Listed lst) {fd : Fd} {info : EventInfo}
    (hmap : s.fdToEventInfo fd.key = none) (hinfo : EventInfo.new fd = .ok info)
    : (s.insert fd info).Listed lst := by
  have hinfo := EventInfo.new_eq_ok hinfo
  constructor
  . intro k j hj
    rw [insert_fdToEventInfo] at hj
    split at hj
    next heq =>
      cases hj
      rw [insert_infos, if_pos rfl, hinfo]
      exact ⟨Nat.lt_succ_self _, heq.symm⟩
    . have := h.map k j hj
      have hne : j ≠ s.next := by omega
      rw [insert_infos, if_neg hne]
      exact ⟨Nat.lt_succ_of_lt this.1, this.2⟩
  . exact h.nodup
  . intro j hj
    have hmapped := h.mapped j hj
    have hlt := h.lt hj
    have hne : j ≠ s.next := by omega
    have hkey : (s.infos j).fd.key ≠ fd.key := by
      intro heq
      rw [heq, hmap] at hmapped
      cases hmapped
    rw [insert_infos, if_neg hne, insert_fdToEventInfo, if_neg hkey]
    exact hmapped
  . intro k j hj
    rw [insert_fdToEventInfo] at hj
    split at hj
    . cases hj
      rw [insert_infos, if_pos rfl, hinfo]
      have hnot : s.next ∉ lst := by
        intro hmem
        have := h.lt hmem
        omega
      simp [hnot]
    . have := h.map k j hj
      have hne : j ≠ s.next := by omega
      rw [insert_infos, if_neg hne]
      exact h.flag k j hj

theorem enlist (h : s.Listed lst) {k : Nat} (hid : s.fdToEventInfo k = some id)
    (hflag : (s.infos id).isInChangeList = false)
    : ({ s with evtChangeLst := s.evtChangeLst ++ [id] }.modifyInfo id
        fun info => { info with isInChangeList := true }).Listed (lst ++ [id]) := by
  have hkey := (h.map _ _ hid).2
  have hnot : id ∉ lst := by
    intro hmem
    have := (h.flag k id hid).mpr hmem
    rw [hflag] at this
    cases this
  have hfd : ∀ j, (({ s with evtChangeLst := s.evtChangeLst ++ [id] }.modifyInfo id
      fun info => { info with isInChangeList := true }).infos j).fd = (s.infos j).fd := by
    intro j
    rw [modifyInfo_infos]
    split
    next heq => rw [heq]
    . rfl
  constructor
  . intro k' j hj
    rw [hfd]
    exact h.map k' j hj
  . rw [List.nodup_append]
    refine ⟨h.nodup, by simp, ?_⟩
    intro a ha b hb heq
    rw [List.mem_singleton] at hb
    rw [heq, hb] at ha
    exact hnot ha
  . intro j hj
    rw [hfd]
    rw [List.mem_append, List.mem_singleton] at hj
    cases hj with
    | inl hj => exact h.mapped j hj
    | inr hj =>
      rw [hj, hkey]
      exact hid
  . intro k' j hj
    rw [modifyInfo_infos, List.mem_append, List.mem_singleton]
    split
    next heq => simp [heq]
    next hne =>
      simp only [hne, or_false]
      exact h.flag k' j hj

theorem update {op : Op} {s₀ : Epoll} (h : s.Listed s.evtChangeLst) (hs : Update op s₀ s s')
    : s'.Listed s'.evtChangeLst := by
  cases hs with
  | insert fd info hmap hinfo => exact h.insert hmap hinfo
  | watch fd i events hi => exact h.modifyInfo (fun _ => rfl) (fun _ => rfl)
  | enlist fd i hi hflag => exact h.enlist hi hflag
  | quiet fd i a hi ha => exact h.setAction
  | accept fd hasAddrBuffer cb i hop hi => exact h.setAction
  | group fd group cb opt i t blocks hop hi => exact h.setAction
  | buffers buffers => exact h.of_fields rfl rfl (fun _ => rfl) (fun _ => rfl)
  | queueRead fd buf cb opt i t isSubmit hop hi htype ht hbuf =>
    exact h.of_same (SameReg.queueRead s i t isSubmit)
  | queueWrite fd buf cb opt i t isSubmit hop hi ht hbuf =>
    exact h.of_same (SameReg.queueWrite s i t isSubmit)
  | pushReady fd i hi => exact h.of_same (SameReg.pushReady s i)
  | insertNonSubmit fd i hi => exact h.of_same (SameReg.insertNonSubmit s i)
  | submittedOne i hop hi => exact h.of_same (SameReg.submittedOne s i)
  | submitted hop => exact h.of_fields rfl rfl (fun _ => rfl) (fun _ => rfl)
  | close fd hop => exact h.of_fields rfl rfl (fun _ => rfl) (fun _ => rfl)
  | «open» fd hop => exact h.of_fields rfl rfl (fun _ => rfl) (fun _ => rfl)
  | clear k i a hop hi ha => exact h.setAction

theorem updates {op : Op} {s₀ : Epoll} (h : s.Listed s.evtChangeLst) (hs : Updates op s₀ s s')
    : s'.Listed s'.evtChangeLst := by
  induction hs with
  | refl => exact h
  | tail _ hs ih => exact ih.update hs

end Listed

-- A change that is applied either takes the `event_info` out or clears its flag.
theorem applyOneChange_map {s : Epoll} {id : Nat}
    (hid : s.fdToEventInfo (s.infos id).fd.key = some id)
    : (s.applyOneChange id).fdToEventInfo =
          Function.update s.fdToEventInfo (s.infos id).fd.key none
        ∨ ((s.applyOneChange id).fdToEventInfo = s.fdToEventInfo
          ∧ ((s.applyOneChange id).infos id).isInChangeList = false) := by
  unfold applyOneChange removeEventInfo
  dsimp only
  rw [hid]
  split
  . exact .inl rfl
  . split
    . split
      . exact .inl rfl
      . right
        simp
    . split
      . exact .inl rfl
      . right
        simp only [modifyInfo_infos, if_true, and_true, modifyInfo_fdToEventInfo]
        split
        . rfl
        . split <;> rfl

theorem applyOneChange_infos_of_ne (s : Epoll) {id j : Nat} (hj : j ≠ id)
    : (s.applyOneChange id).infos j = s.infos j := by
  unfold applyOneChange removeEventInfo
  dsimp only
  split
  . split <;> rfl
  . split
    . split
      . split <;> rfl
      . simp [hj]
    . split
      . rfl
      . rw [modifyInfo_infos, if_neg hj]
        split
        . rfl
        . split
          . rw [modifyInfo_infos, if_neg hj]
          . rfl

-- Two `event_info` that are looked up have different numbers.
theorem key_ne {s : Epoll} {i j k : Nat} (hi : s.fdToEventInfo (s.infos i).fd.key = some i)
    (hj : s.fdToEventInfo k = some j) (hne : j ≠ i)
    : k ≠ (s.infos i).fd.key := by
  intro heq
  rw [heq, hi] at hj
  cases hj
  exact hne rfl

namespace Listed

variable {s : Epoll} {lst : List Nat} {id : Nat}

theorem applyOneChange (h : s.Listed (id :: lst)) : (s.applyOneChange id).Listed lst := by
  have hnext := (applyOneChange_sameTasks s id).next
  have hfd := (applyOneChange_sameTasks s id).fd
  have hid := h.mapped id (by simp)
  have hnodup := List.nodup_cons.mp h.nodup
  have hmapped : ∀ j ∈ lst, s.fdToEventInfo (s.infos j).fd.key = some j ∧ j ≠ id := by
    intro j hj
    refine ⟨h.mapped j (by simp [hj]), ?_⟩
    intro heq
    rw [heq] at hj
    exact hnodup.1 hj
  constructor
  . intro k j hj
    rw [hnext, hfd]
    apply h.map
    cases applyOneChange_map hid with
    | inl hmap =>
      rw [hmap, Function.update_apply] at hj
      split at hj
      . cases hj
      . exact hj
    | inr hmap =>
      rw [hmap.1] at hj
      exact hj
  . exact hnodup.2
  . intro j hj
    have ⟨hmap, hne⟩ := hmapped j hj
    rw [hfd]
    cases applyOneChange_map hid with
    | inl hmap' =>
      rw [hmap', Function.update_of_ne (key_ne hid hmap hne)]
      exact hmap
    | inr hmap' =>
      rw [hmap'.1]
      exact hmap
  . intro k j hj
    have hkept : s.fdToEventInfo k = some j
        ∧ (j = id → ((s.applyOneChange id).infos id).isInChangeList = false) := by
      cases applyOneChange_map hid with
      | inl hmap =>
        rw [hmap, Function.update_apply] at hj
        split at hj
        . cases hj
        next hk =>
          refine ⟨hj, ?_⟩
          intro heq
          rw [heq] at hj
          exact absurd (h.map k id hj).2.symm hk
      | inr hmap =>
        rw [hmap.1] at hj
        exact ⟨hj, fun _ => hmap.2⟩
    by_cases heq : j = id
    . rw [heq, hkept.2 heq]
      simp [hnodup.1]
    . rw [applyOneChange_infos_of_ne s heq, h.flag k j hkept.1, List.mem_cons]
      simp [heq]

theorem foldl_applyOneChange (h : s.Listed lst) : (lst.foldl Epoll.applyOneChange s).Listed [] := by
  induction lst generalizing s with
  | nil => exact h
  | cons id lst ih => exact ih h.applyOneChange

theorem applyChanges (h : s.Listed s.evtChangeLst) : s.applyChanges.Listed s.applyChanges.evtChangeLst :=
  h.foldl_applyOneChange.of_fields rfl rfl (fun _ => rfl) (fun _ => rfl)

theorem init (isOpen : Nat → Bool) : (Epoll.init isOpen).Listed (Epoll.init isOpen).evtChangeLst := by
  constructor <;> simp [Epoll.init]

theorem runFrame
    : RunFrame (fun _ => True) (fun _ => True) (fun w => w.poll.Listed w.poll.evtChangeLst) := by
  constructor
  . apply EventFrame.of_handled
    . intro op _
      apply exec_triple
      . intro w r s hw h
        exact hw.updates (Epoll.exec_updates h)
      . intro w f hw _
        exact hw
    . intro w sys user log hw
      exact hw
    . intro w id a _ hw
      exact hw.setAction
    . intro w group f hw
      exact hw.of_fields rfl rfl (fun _ => rfl) (fun _ => rfl)
    . intro w ready _ hw
      exact hw.of_fields rfl rfl (fun _ => rfl) (fun _ => rfl)
  . intro w hw
    exact hw.applyChanges
  . intro w hw
    exact hw.of_fields rfl rfl (fun _ => rfl) (fun _ => rfl)
  . intro w errs _ hw
    exact hw.of_fields rfl rfl (fun _ => rfl) (fun _ => rfl)

end Listed

end Epoll

end Event
end Ezio
