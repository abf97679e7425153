import Ezio.Event.Epoll.Lemmas.Registration

/-!
This module contains what becomes of a number that is closed without a cancel and then given to another
file. Its `event_info` is still the one of the file before.
-/

namespace Ezio
namespace Event

open EStateM (Preserves Triple)

namespace Epoll

variable {s s' : Epoll} {lst : List Nat} {id k : Nat}

theorem Listed.applyOneChange_map_of_ne (h : s.Listed lst) (hid : s.fdToEventInfo k = some id) {j : Nat}
    (hj : j ∈ lst) (hne : j ≠ id)
    : (s.applyOneChange j).fdToEventInfo k = some id := by
  have hmapped := h.mapped j hj
  cases applyOneChange_map hmapped with
  | inl hmap =>
    rw [hmap, Function.update_of_ne (key_ne hmapped hid hne.symm)]
    exact hid
  | inr hmap =>
    rw [hmap.1]
    exact hid

-- Whoever is not on the list is left as it is.
theorem Listed.foldl_applyOneChange_interest (h : s.Listed lst) (hid : s.fdToEventInfo k = some id)
    (hnot : id ∉ lst)
    : (lst.foldl Epoll.applyOneChange s).kernel.interest k = s.kernel.interest k := by
  induction lst generalizing s with
  | nil => rfl
  | cons j lst ih =>
    rw [List.mem_cons, not_or] at hnot
    have hmem : j ∈ j :: lst := by simp
    have hne : j ≠ id := fun heq => hnot.1 heq.symm
    rw [List.foldl_cons, ih h.applyOneChange (h.applyOneChange_map_of_ne hid hmem hne) hnot.2]
    exact applyOneChange_interest_of_ne s (key_ne (h.mapped j hmem) hid hne.symm)

-- Whoever is on the list and in use ends up registered.
theorem Listed.foldl_applyOneChange_registers (h : s.Listed lst) (hid : s.fdToEventInfo k = some id)
    (hmem : id ∈ lst) (hopen : s.kernel.isOpen k = true) (hctl : s.kernel.ctlErrs = [])
    (huse : (s.infos id).action.isNoneEvt = false)
    : (lst.foldl Epoll.applyOneChange s).kernel.interest k =
        some ({ (s.infos id).action.events with et := (s.infos id).events.et }, id) := by
  induction lst generalizing s with
  | nil => cases hmem
  | cons j lst ih =>
    rw [List.foldl_cons]
    by_cases heq : j = id
    . have hkey := (h.map k id hid).2
      have hreg := applyOneChange_registers (hkey ▸ hopen) hctl huse
      have hnot := (List.nodup_cons.mp h.nodup).1
      rw [heq] at hnot h ⊢
      rw [h.applyOneChange.foldl_applyOneChange_interest (by rw [hreg.2]; exact hid) hnot, ← hkey]
      exact hreg.1
    . have hj : j ∈ j :: lst := by simp
      have hid' := h.applyOneChange_map_of_ne hid hj heq
      have hinfo := applyOneChange_infos_of_ne s (fun h => heq h.symm)
      rw [List.mem_cons] at hmem
      rw [ih h.applyOneChange hid' (hmem.resolve_left fun h => heq h.symm)]
      . rw [hinfo]
      . rw [applyOneChange_isOpen]
        exact hopen
      . exact applyOneChange_ctlErrs hctl j
      . rw [hinfo]
        exact huse

theorem Listed.applyChanges_hasRead (h : s.Listed s.evtChangeLst) (hid : s.fdToEventInfo k = some id)
    (hopen : s.kernel.isOpen k = true) (hctl : s.kernel.ctlErrs = [])
    (hreading : (s.infos id).action.isReading = true)
    : s.applyChanges.kernel.hasRead k = true ↔ s.kernel.hasRead k = true ∨ id ∈ s.evtChangeLst := by
  unfold Kernel.hasRead Epoll.applyChanges
  dsimp only
  by_cases hmem : id ∈ s.evtChangeLst
  . have huse : (s.infos id).action.isNoneEvt = false := by simp [EventAction.isNoneEvt, hreading]
    rw [h.foldl_applyOneChange_registers hid hmem hopen hctl huse]
    simpa [hmem, EventAction.isReading] using hreading
  . rw [h.foldl_applyOneChange_interest hid hmem]
    simp [hmem]

theorem Listed.applyChanges_hasWrite (h : s.Listed s.evtChangeLst) (hid : s.fdToEventInfo k = some id)
    (hopen : s.kernel.isOpen k = true) (hctl : s.kernel.ctlErrs = [])
    (hwriting : (s.infos id).action.isWriting = true)
    : s.applyChanges.kernel.hasWrite k = true ↔ s.kernel.hasWrite k = true ∨ id ∈ s.evtChangeLst := by
  unfold Kernel.hasWrite Epoll.applyChanges
  dsimp only
  by_cases hmem : id ∈ s.evtChangeLst
  . have huse : (s.infos id).action.isNoneEvt = false := by simp [EventAction.isNoneEvt, hwriting]
    rw [h.foldl_applyOneChange_registers hid hmem hopen hctl huse]
    simpa [hmem, EventAction.isWriting] using hwriting
  . rw [h.foldl_applyOneChange_interest hid hmem]
    simp [hmem]

-- The next `apply_changes` looks at the file: a change for the number is on the list already, or the
-- bit in the `event_info` that is found for it does not stand in the way of one.
def announcesRead (s : Epoll) (fd : Fd) : Bool :=
  match s.fdToEventInfo fd.key with
  | none => fd.type ≠ .file
  | some id => (s.infos id).isInChangeList || (!(s.infos id).events.read && fd.type ≠ .file)

def announcesWrite (s : Epoll) (fd : Fd) : Bool :=
  match s.fdToEventInfo fd.key with
  | none => fd.type ≠ .file
  | some id => (s.infos id).isInChangeList || (!(s.infos id).events.write && fd.type ≠ .file)

theorem findOrInsert_announces {fd : Fd} (hfind : s.findOrInsert fd = .ok (id, s'))
    : s'.announcesRead fd = s.announcesRead fd ∧ s'.announcesWrite fd = s.announcesWrite fd
        ∧ s'.kernel = s.kernel := by
  rcases findOrInsert_cases hfind with ⟨_, rfl⟩ | ⟨hmap, rfl, info, hinfo, rfl⟩
  . simp
  . refine ⟨?_, ?_, rfl⟩
    . simp [announcesRead, hmap, EventInfo.new_eq_ok hinfo, Mask.empty]
    . simp [announcesWrite, hmap, EventInfo.new_eq_ok hinfo, Mask.empty]

theorem Listed.prepareRead_mem (h : s.Listed s.evtChangeLst) {fd : Fd} (cb : Callback)
    (opt : Option ReadOptions) (hid : s.fdToEventInfo fd.key = some id)
    : (id ∈ (s.prepareRead fd id (some cb) opt).evtChangeLst ↔ s.announcesRead fd = true)
        ∧ (s.prepareRead fd id (some cb) opt).kernel = s.kernel
        ∧ ((s.prepareRead fd id (some cb) opt).infos id).action.isReading = true := by
  have hflag := h.flag _ _ hid
  unfold Epoll.prepareRead
  dsimp only [Option.map_some]
  have hsame := SameReg.setReadOffset
    (if fd.type = .file then s.setReadCb id (some (.read cb))
      else (s.setReadCb id (some (.read cb))).watchRead id) id (opt.bind (·.offset))
  rw [EventAction.isReading, hsame.change, hsame.kernel, hsame.events, announcesRead, hid]
  split
  next hfile => simp [hfile, setReadCb, hflag, EventAction.setReadCallback]
  next hfile =>
    rw [watchRead_action, watchRead_evtChangeLst, watchRead_kernel, setReadCb_kernel]
    cases hread : (s.infos id).events.read <;> cases hin : (s.infos id).isInChangeList <;>
      simp [hfile, setReadCb, EventAction.setReadCallback, hread, hin, ← hflag]

theorem Listed.prepareWrite_mem (h : s.Listed s.evtChangeLst) {fd : Fd} (cb : Callback)
    (opt : Option WriteOptions) (hid : s.fdToEventInfo fd.key = some id)
    : (id ∈ (s.prepareWrite fd id (some cb) opt).evtChangeLst ↔ s.announcesWrite fd = true)
        ∧ (s.prepareWrite fd id (some cb) opt).kernel = s.kernel
        ∧ ((s.prepareWrite fd id (some cb) opt).infos id).action.isWriting = true := by
  have hflag := h.flag _ _ hid
  unfold Epoll.prepareWrite
  dsimp only
  have hsame := SameReg.setWriteOffset
    (if fd.type = .file then s.setWriteCb id (some cb)
      else (s.setWriteCb id (some cb)).watchWrite id) id (opt.bind (·.offset))
  rw [EventAction.isWriting, hsame.change, hsame.kernel, hsame.events, announcesWrite, hid]
  split
  next hfile => simp [hfile, setWriteCb, hflag, EventAction.setWriteCallback]
  next hfile =>
    rw [watchWrite_action, watchWrite_evtChangeLst, watchWrite_kernel, setWriteCb_kernel]
    cases hwrite : (s.infos id).events.write <;> cases hin : (s.infos id).isInChangeList <;>
      simp [hfile, setWriteCb, EventAction.setWriteCallback, hwrite, hin, ← hflag]

theorem Listed.findOrInsert (h : s.Listed s.evtChangeLst) {fd : Fd}
    (hfind : s.findOrInsert fd = .ok (id, s'))
    : s'.Listed s'.evtChangeLst := by
  have hupdates : Updates .submit s s s' := Updates.findOrInsert hfind
  exact h.updates hupdates

theorem Listed.submitAsyncRead_mem (h : s.Listed s.evtChangeLst) {fd : Fd} {buf : UserBuf}
    {cb : Callback} {opt : Option ReadOptions}
    (hs : s.submitAsyncRead fd buf (some cb) opt = .ok (0, s'))
    : ∃ id, s'.fdToEventInfo fd.key = some id ∧ (s'.infos id).action.isReading = true
        ∧ s'.kernel = s.kernel ∧ (id ∈ s'.evtChangeLst ↔ s.announcesRead fd = true) := by
  unfold Epoll.submitAsyncRead at hs
  split at hs
  . cases hs
  . obtain ⟨⟨i, s₁⟩, hfind, hs⟩ := Except.bind_eq_ok hs
    have hid := findOrInsert_map hfind
    have hprep := (h.findOrInsert hfind).prepareRead_mem cb opt hid
    have hann := findOrInsert_announces hfind
    cases hs
    refine ⟨i, ?_⟩
    rw [EventAction.isReading, (SameReg.queueRead _ _ _ _).map, (SameReg.queueRead _ _ _ _).events,
      (SameReg.queueRead _ _ _ _).kernel, (SameReg.queueRead _ _ _ _).change,
      prepareRead_fdToEventInfo, hprep.1, hprep.2.1, hann.1, hann.2.2]
    exact ⟨hid, hprep.2.2, rfl, Iff.rfl⟩

theorem Listed.submitAsyncWrite_mem (h : s.Listed s.evtChangeLst) {fd : Fd} {buf : UserBuf}
    {cb : Callback} {opt : Option WriteOptions}
    (hs : s.submitAsyncWrite fd buf (some cb) opt = .ok (0, s'))
    : ∃ id, s'.fdToEventInfo fd.key = some id ∧ (s'.infos id).action.isWriting = true
        ∧ s'.kernel = s.kernel ∧ (id ∈ s'.evtChangeLst ↔ s.announcesWrite fd = true) := by
  unfold Epoll.submitAsyncWrite at hs
  split at hs
  . cases hs
  . obtain ⟨⟨i, s₁⟩, hfind, hs⟩ := Except.bind_eq_ok hs
    have hid := findOrInsert_map hfind
    have hprep := (h.findOrInsert hfind).prepareWrite_mem cb opt hid
    have hann := findOrInsert_announces hfind
    cases hs
    refine ⟨i, ?_⟩
    rw [EventAction.isWriting, (SameReg.queueWrite _ _ _ _).map, (SameReg.queueWrite _ _ _ _).events,
      (SameReg.queueWrite _ _ _ _).kernel, (SameReg.queueWrite _ _ _ _).change,
      prepareWrite_fdToEventInfo, hprep.1, hprep.2.1, hann.2.1, hann.2.2]
    exact ⟨hid, hprep.2.2, rfl, Iff.rfl⟩

theorem Update.kernel {op : Op} {s₀ : Epoll} (hs : Update op s₀ s s') (hop : op ≠ .close k)
    : s'.kernel.interest k = s.kernel.interest k
        ∧ (s.kernel.isOpen k = true → s'.kernel.isOpen k = true) := by
  cases hs with
  | queueRead fd buf cb opt i t isSubmit _ hi htype ht hbuf => simp [(SameReg.queueRead s i t isSubmit).kernel]
  | queueWrite fd buf cb opt i t isSubmit _ hi ht hbuf => simp [(SameReg.queueWrite s i t isSubmit).kernel]
  | insertNonSubmit fd i hi => simp [(SameReg.insertNonSubmit s i).kernel]
  | submittedOne i _ hi => simp [(SameReg.submittedOne s i).kernel]
  | close fd heq =>
    have hne : k ≠ fd := by
      rintro rfl
      exact hop heq
    simp [Kernel.close, hne]
  | «open» fd _ => simp +contextual [Kernel.open, Function.update_apply]
  | _ => exact ⟨rfl, fun h => h⟩

theorem Updates.kernel {op : Op} {s₀ : Epoll} (hs : Updates op s₀ s s') (hop : op ≠ .close k)
    : s'.kernel.interest k = s.kernel.interest k
        ∧ (s.kernel.isOpen k = true → s'.kernel.isOpen k = true) := by
  induction hs with
  | refl => exact ⟨rfl, fun h => h⟩
  | tail _ hs ih =>
    have hs := hs.kernel hop
    exact ⟨hs.1.trans ih.1, fun h => hs.2 (ih.2 h)⟩

theorem applyChanges_isOpen (s : Epoll) : s.applyChanges.kernel.isOpen = s.kernel.isOpen := by
  have hfold : ∀ (ids : List Nat) (t : Epoll),
      (ids.foldl applyOneChange t).kernel.isOpen = t.kernel.isOpen := by
    intro ids
    induction ids with
    | nil =>
      intro t
      rfl
    | cons id ids ih =>
      intro t
      rw [List.foldl_cons, ih, applyOneChange_isOpen]
  exact hfold _ _

end Epoll

-- Between two calls of `apply_changes` only closing a file changes what the kernel watches of it.
theorem interestFrame (k : Nat) (c : Option (Mask × Nat))
    : EventFrame (· ≠ .close k) (fun w => w.poll.kernel.interest k = c) := by
  apply EventFrame.of_handled
  . intro op hop
    apply exec_triple
    . intro w r s hw h
      exact ((Epoll.exec_updates h).kernel hop).1.trans hw
    . intro w f hw _
      exact hw
  . intro w sys user log hw
    exact hw
  . intro w id a _ hw
    exact hw
  . intro w group f hw
    exact hw
  . intro w ready _ hw
    exact hw

theorem openFrame (k : Nat)
    : RunFrame (· ≠ .close k) (fun _ => True) (fun w => w.poll.kernel.isOpen k = true) := by
  constructor
  . apply EventFrame.of_handled
    . intro op hop
      apply exec_triple
      . intro w r s hw h
        exact ((Epoll.exec_updates h).kernel hop).2 hw
      . intro w f hw _
        exact hw
    . intro w sys user log hw
      exact hw
    . intro w id a _ hw
      exact hw
    . intro w group f hw
      exact hw
    . intro w ready _ hw
      exact hw
  . intro w hw
    rw [Epoll.applyChanges_isOpen]
    exact hw
  . intro w hw
    exact hw
  . intro w errs _ hw
    exact hw

theorem run_append_eq_ok {xs ys : List Step} {w w' : World} (h : run (xs ++ ys) w = .ok () w')
    : ∃ u, run xs w = .ok () u ∧ run ys u = .ok () w' := EStateM.forM_append_eq_ok h

theorem dispatch_interest (k : Nat) (c : Option (Mask × Nat)) (ready : Option (List (Nat × Mask)))
    : Triple (fun w => w.Calls (· ≠ .close k) ∧ w.poll.applyChanges.kernel.interest k = c)
        (dispatch ready) (fun _ w => w.poll.kernel.interest k = c) (fun _ _ => True) := by
  apply Triple.modify_bind (T := Frame.Inv (· ≠ .close k) (fun w => w.poll.kernel.interest k = c))
  . intro w hw
    exact hw
  . split
    . exact Triple.pure (fun _ hw => hw.2)
    next ready =>
      apply Triple.get_bind
      intro w hw
      have hevents : Preserves (Frame.Inv (· ≠ .close k) (fun w => w.poll.kernel.interest k = c))
          ((epollWait w.poll.kernel ready).forM fun e => setReadyEvents e.1 e.2) :=
        Preserves.forM fun e _ => (interestFrame k c).setReadyEvents e.1 e.2
      apply Triple.bind (hevents.ignore_error.at_state hw)
      intro _
      apply Triple.bind (interestFrame k c).doReadyTasks.ignore_error
      intro _
      apply Triple.modify
      intro w hw
      exact hw.2

-- A submission and the `dispatch` after it.
theorem run_submit_interest {op : Op} {ready : Option (List (Nat × Mask))} {sys : List SysRet}
    {user : List (List Op)} {k : Nat} {w w' : World} {s : Epoll} {r : Int}
    (hop : w.poll.exec op = .ok (r, s)) (huser : ∀ ops ∈ user, ∀ op ∈ ops, op ≠ .close k)
    (hrun : run [.op op, .dispatch ready sys user []] w = .ok () w')
    : w'.poll.kernel.interest k =
        { s with kernel := { s.kernel with ctlErrs := [] } }.applyChanges.kernel.interest k := by
  obtain ⟨_, u, hexec, hrun⟩ := EStateM.bind_eq_ok_iff.mp hrun
  obtain ⟨_, v, hdisp, hrun⟩ := EStateM.bind_eq_ok_iff.mp hrun
  cases hrun
  simp only [step, exec, hop] at hexec
  cases hexec
  rw [step, EStateM.modify_bind_apply] at hdisp
  apply (dispatch_interest k _ ready).of_ok _ hdisp
  exact ⟨huser, rfl⟩

-- A file that is opened and not closed since is open, and its number is looked up correctly.
theorem run_opened {isOpen : Nat → Bool} {sts₁ sts₂ : List Step} {k : Nat} {w : World}
    (hsts : ∀ st ∈ sts₂, st.Calls (· ≠ .close k))
    (hrun : run (sts₁ ++ .op (.open k) :: sts₂) (World.init isOpen) = .ok () w)
    : w.poll.kernel.isOpen k = true ∧ w.poll.Listed w.poll.evtChangeLst := by
  constructor
  . obtain ⟨u, _, hopen⟩ := run_append_eq_ok hrun
    obtain ⟨_, v, hexec, hrest⟩ := EStateM.bind_eq_ok_iff.mp hopen
    cases hexec
    apply ((openFrame k).run hsts (fun _ _ => trivial)).of_ok _ hrest
    simp [Kernel.open]
  . exact (Epoll.Listed.runFrame.run (fun st _ => st.calls_true) (fun _ _ => trivial)).of_ok
      (Epoll.Listed.init isOpen) hrun

theorem run_reused_registered_iff {isOpen : Nat → Bool} (sts₁ sts₂ sts₃ : List Step) (fd : Fd)
    {w : World} (hsts : ∀ st ∈ sts₃, st.Calls (· ≠ .close fd.key))
    (hrun : run (sts₁ ++ .op (.close fd.key) :: sts₂ ++ .op (.open fd.key) :: sts₃)
      (World.init isOpen) = .ok () w)
    {buf : UserBuf} {cb : Callback} {ready : Option (List (Nat × Mask))} {sys : List SysRet}
    {user : List (List Op)} (huser : ∀ ops ∈ user, ∀ op ∈ ops, op ≠ .close fd.key) {s : Epoll}
    {w' : World}
    : (∀ opt, w.poll.submitAsyncRead fd buf (some cb) opt = .ok (0, s)
        → run [.op (.submitAsyncRead fd buf (some cb) opt), .dispatch ready sys user []] w = .ok () w'
        → (w'.poll.kernel.hasRead fd.key = true
          ↔ w.poll.kernel.hasRead fd.key = true ∨ w.poll.announcesRead fd = true))
      ∧ (∀ opt, w.poll.submitAsyncWrite fd buf (some cb) opt = .ok (0, s)
        → run [.op (.submitAsyncWrite fd buf (some cb) opt), .dispatch ready sys user []] w = .ok () w'
        → (w'.poll.kernel.hasWrite fd.key = true
          ↔ w.poll.kernel.hasWrite fd.key = true ∨ w.poll.announcesWrite fd = true)) := by
  obtain ⟨hopen, hlisted⟩ := run_opened hsts hrun
  constructor
  . intro opt hsub hrun'
    have hint := run_submit_interest
      (show w.poll.exec (.submitAsyncRead fd buf (some cb) opt) = .ok (0, s) from hsub) huser hrun'
    obtain ⟨id, hid, hreading, hkernel, hmem⟩ := hlisted.submitAsyncRead_mem hsub
    have hs : { s with kernel := { s.kernel with ctlErrs := [] } }.Listed s.evtChangeLst :=
      { hlisted.updates (Epoll.submitAsyncRead_updates hsub) with }
    have happly := hs.applyChanges_hasRead hid (by rw [hkernel]; exact hopen) rfl hreading
    unfold Kernel.hasRead at happly ⊢
    rw [hint, happly, hmem, hkernel]
  . intro opt hsub hrun'
    have hint := run_submit_interest
      (show w.poll.exec (.submitAsyncWrite fd buf (some cb) opt) = .ok (0, s) from hsub) huser hrun'
    obtain ⟨id, hid, hwriting, hkernel, hmem⟩ := hlisted.submitAsyncWrite_mem hsub
    have hs : { s with kernel := { s.kernel with ctlErrs := [] } }.Listed s.evtChangeLst :=
      { hlisted.updates (Epoll.submitAsyncWrite_updates hsub) with }
    have happly := hs.applyChanges_hasWrite hid (by rw [hkernel]; exact hopen) rfl hwriting
    unfold Kernel.hasWrite at happly ⊢
    rw [hint, happly, hmem, hkernel]

-- The number of a client is closed after its first operation, the next client receives it.
def reusingRun (first : Op) (events : Mask) (answer : SysRet) : List Step :=
  [.op first, .dispatch (some [(3, events)]) [answer] [] [], .op (.close 3), .op (.open 3)]

def readClient : Op := .submitAsyncRead ⟨3, .tcp⟩ ⟨false, [⟨4096, 8⟩]⟩ (some 0) none

def writeClient : Op := .submitAsyncWrite ⟨3, .tcp⟩ ⟨false, [⟨8192, 8⟩]⟩ (some 1) none

theorem reusingRun_registered
    : ∃ w w', run (reusingRun writeClient ⟨false, true, false⟩ (.ok 8 [])) (World.init fun _ => true)
          = .ok () w
        ∧ run [.op readClient, .dispatch (some []) [] [] []] w = .ok () w'
        ∧ w'.poll.kernel.hasRead 3 = true := by
  have hrun := EStateM.Result.eq_ok_of_isOk
    (show (run (reusingRun writeClient ⟨false, true, false⟩ (.ok 8 [])) (World.init fun _ => true)).isOk
      by decide +kernel)
  have hrun' := EStateM.Result.eq_ok_of_isOk
    (show (run [.op readClient, .dispatch (some []) [] [] []]
      (run (reusingRun writeClient ⟨false, true, false⟩ (.ok 8 [])) (World.init fun _ => true)).state).isOk
      by decide +kernel)
  have hannounces : (run (reusingRun writeClient ⟨false, true, false⟩ (.ok 8 []))
      (World.init fun _ => true)).state.poll.announcesRead ⟨3, .tcp⟩ = true := by decide +kernel
  have hret : ((run (reusingRun writeClient ⟨false, true, false⟩ (.ok 8 []))
    (World.init fun _ => true)).state.poll.submitAsyncRead
      ⟨3, .tcp⟩ ⟨false, [⟨4096, 8⟩]⟩ (some 0) none).toOption.map (·.1) = some 0 := by decide +kernel
  generalize (run (reusingRun writeClient ⟨false, true, false⟩ (.ok 8 []))
    (World.init fun _ => true)).state = w at hrun hrun' hannounces hret
  obtain ⟨s, hsub⟩ := Except.exists_eq_ok_of_map hret
  refine ⟨w, _, hrun, hrun', ?_⟩
  have hnone : ∀ ops ∈ ([] : List (List Op)), ∀ op ∈ ops, op ≠ .close 3 := by simp
  exact ((run_reused_registered_iff
    [.op writeClient, .dispatch (some [(3, ⟨false, true, false⟩)]) [.ok 8 []] [] []] [] [] ⟨3, .tcp⟩
    (by simp) hrun hnone).1 none hsub hrun').mpr (.inr hannounces)

theorem reusingRun_not_registered
    : ∃ w w', run (reusingRun readClient ⟨true, false, false⟩ (.ok 0 [])) (World.init fun _ => true)
          = .ok () w
        ∧ w.poll.fdToEventInfo 3 = some 0 ∧ (w.action 0).pendingReadTask = []
        ∧ w.poll.kernel.isOpen 3 = true
        ∧ run [.op readClient, .dispatch (some []) [.fail .again] [] []] w = .ok () w'
        ∧ w'.poll.kernel.interest 3 = none := by
  have hrun := EStateM.Result.eq_ok_of_isOk
    (show (run (reusingRun readClient ⟨true, false, false⟩ (.ok 0 [])) (World.init fun _ => true)).isOk
      by decide +kernel)
  have hrun' := EStateM.Result.eq_ok_of_isOk
    (show (run [.op readClient, .dispatch (some []) [.fail .again] [] []]
      (run (reusingRun readClient ⟨true, false, false⟩ (.ok 0 [])) (World.init fun _ => true)).state).isOk
      by decide +kernel)
  exact ⟨_, _, hrun, by decide +kernel, by decide +kernel, by decide +kernel, hrun', by decide +kernel⟩

end Event
end Ezio
