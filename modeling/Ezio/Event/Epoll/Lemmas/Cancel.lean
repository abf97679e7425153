import Ezio.Event.Epoll.Lemmas.Wf

/-!
This module contains what it means that a callback may cancel the reads of the file it is called for,
and how the calls of the interface act on the reads of a single file.
-/

namespace Ezio

def Fault.isRead : Fault → Bool
  | .emptyReadQueue | .emptyReadCallback => true
  | _ => false

namespace Event

open EStateM (Preserves Triple)

-- One of the calls that are made from `s` on gives up all reads of the action.
def Epoll.cancelled (s : Epoll) (id : Nat) : List Op → Bool
  | [] => false
  | op :: ops =>
    op.cancelsReads s id ||
      match s.exec op with
      | .ok (_, s') => s'.cancelled id ops
      | .error _ => false

-- A callback that has cancelled the reads returns.
def Entry.cancels (id : Nat) : Entry → Bool
  | .readReturn id' _ _ before ops _ => id' = id && before.cancelled id ops
  | _ => false

-- A callback is called for a read that was pending in `before`.
def Entry.callsBack (id : Nat) (before : Epoll) : Entry → Bool
  | .readCallback id' _ (.task t) _ _ =>
    id' = id && ((before.action id).pendingReadTask.map (·.id)).contains t
  | .readCallback id' _ .multishot _ _ => id' = id && (before.action id).multishotReadTask.isSome
  | _ => false

-- The user gives up reads of the action.
def Entry.stops (id : Nat) : Entry → Bool
  | .call op before => op.cancelsReads before id || op.isUnregister
  | _ => false

-- The state in which the user gives up reads for the next time, `s` if this does not happen any more.
def nextStop (id : Nat) (s : Epoll) : List Entry → Epoll
  | [] => s
  | .call op before :: es =>
    if op.cancelsReads before id || op.isUnregister then before else nextStop id s es
  | _ :: es => nextStop id s es

-- The reads that were pending are still pending.
structure Epoll.ReadsKept (id : Nat) (s s' : Epoll) : Prop where
  reads : (s.action id).pendingReadTask ⊆ (s'.action id).pendingReadTask
  shot : (s.action id).multishotReadTask.isSome → (s'.action id).multishotReadTask.isSome

-- Since the log had `n` entries, every cancel has been respected: what it has given up is not called
-- back any more, and what has been submitted after it has not been lost.
def World.Respects (n id : Nat) (w : World) : Prop :=
  ∀ (log : List Entry) src ret (before : Epoll) ops (after : Epoll) (log' : List Entry),
    w.log = log ++ Entry.readReturn id src ret before ops after :: log' → n ≤ log.length
    → before.cancelled id ops = true
    → (∀ e ∈ log', e.callsBack id before = false) ∧ after.ReadsKept id (nextStop id w.poll log')

-- Neither is an empty queue looked at nor is an empty callback called, and all cancels are respected.
structure Safe (n id : Nat) (r : EStateM.Result Fault World Unit) : Prop where
  fault : ∀ f w, r = .error f w → f.isRead = false
  respects : r.state.Respects n id

-- A callback for a queued task does not cancel. One for a multishot read only does so on an error or at
-- the end of the stream, and does not leave an accept without a callback behind.
def Entry.calm (id : Nat) : Entry → Bool
  | .readReturn id' (.task _) _ before ops _ => !(id' = id && before.cancelled id ops)
  | .readReturn id' .multishot ret before ops after =>
    !(id' = id && before.cancelled id ops)
      || ((ret < 0 || (ret = 0 && (before.action id).fd.type ≠ .udp))
        && (!(after.action id).hasAcceptTask || (after.action id).readBufIdxCallback.isSome))
  | _ => true

def World.Calm (n id : Nat) (w : World) : Prop := ∀ e ∈ w.log.drop n, e.calm id = true

instance (n id : Nat) (w : World) : Decidable (w.Calm n id) :=
  inferInstanceAs (Decidable (∀ e ∈ w.log.drop n, e.calm id = true))

namespace Epoll.ReadsKept

variable {id : Nat} {s s' s'' : Epoll}

theorem refl (s : Epoll) : ReadsKept id s s := ⟨List.Subset.refl _, fun h => h⟩

theorem trans (h : ReadsKept id s s') (h' : ReadsKept id s' s'') : ReadsKept id s s'' :=
  ⟨List.Subset.trans h.reads h'.reads, fun hs => h'.shot (h.shot hs)⟩

end Epoll.ReadsKept

theorem nextStop_append (id : Nat) (s : Epoll) (es es' : List Entry)
    : nextStop id s (es ++ es') = nextStop id (nextStop id s es') es := by
  induction es with
  | nil => rfl
  | cons e es ih =>
    cases e with
    | call op before =>
      simp only [List.cons_append, nextStop]
      split
      . rfl
      . exact ih
    | _ => exact ih

theorem nextStop_of_not_stops {id : Nat} (s : Epoll) {es : List Entry}
    (h : ∀ e ∈ es, e.stops id = false)
    : nextStop id s es = s := by
  induction es with
  | nil => rfl
  | cons e es ih =>
    have hes := ih (fun e he => h e (by simp [he]))
    cases e with
    | call op before =>
      have hop := h (.call op before) (by simp)
      rw [Entry.stops] at hop
      rw [nextStop, hop, if_neg (by simp)]
      exact hes
    | _ => exact hes

-- What holds of the state that counts still does if the last state can be exchanged.
theorem nextStop_mono {id : Nat} {s s' : Epoll} {es : List Entry} {P : Epoll → Prop}
    (h : P (nextStop id s es)) (hs : P s → P s')
    : P (nextStop id s' es) := by
  induction es with
  | nil => exact hs h
  | cons e es ih =>
    cases e with
    | call op before =>
      simp only [nextStop] at h ⊢
      split
      next hop =>
        rw [if_pos hop] at h
        exact h
      next hop =>
        rw [if_neg hop] at h
        exact ih h
    | _ => exact ih h

theorem Entry.stops_of_owner {e : Entry} {i id : Nat} (h : e.owner = some i) : e.stops id = false := by
  cases e with
  | call op before => cases h
  | _ => rfl

-- What a call that does not cancel the reads of the action does to them.
structure Epoll.Grows (op : Op) (id : Nat) (s s' : Epoll) : Prop where
  next : s.next ≤ s'.next
  callback : (s.action id).readBufIdxCallback.isSome → (s'.action id).readBufIdxCallback.isSome
  reads : (s.action id).pendingReadTask <+: (s'.action id).pendingReadTask
  shot : op.isUnregister = false → (s.action id).multishotReadTask.isSome
    → (s'.action id).multishotReadTask.isSome

namespace Epoll.Grows

variable {op : Op} {id : Nat} {s s' s'' : Epoll}

theorem of_action (hnext : s.next ≤ s'.next) (h : (s'.infos id).action = (s.infos id).action)
    : Grows op id s s' := by
  refine ⟨hnext, ?_, ?_, ?_⟩
  all_goals simp only [Epoll.action_def, h]
  . exact fun h => h
  . exact List.prefix_rfl
  . exact fun _ h => h

theorem refl (s : Epoll) : Grows op id s s := of_action (Nat.le_refl _) rfl

theorem trans (h : Grows op id s s') (h' : Grows op id s' s'') : Grows op id s s'' :=
  ⟨Nat.le_trans h.next h'.next, fun hs => h'.callback (h.callback hs), h.reads.trans h'.reads,
    fun hop hs => h'.shot hop (h.shot hop hs)⟩

-- A single action is replaced.
theorem of_replaced {i : Nat} {a : EventAction} (hnext : s.next ≤ s'.next)
    (hinfos : (s'.infos id).action = if id = i then a else (s.infos id).action)
    (h : id = i → ((s.infos id).action.readBufIdxCallback.isSome → a.readBufIdxCallback.isSome)
      ∧ (s.infos id).action.pendingReadTask <+: a.pendingReadTask
      ∧ (op.isUnregister = false → (s.infos id).action.multishotReadTask.isSome
        → a.multishotReadTask.isSome))
    : Grows op id s s' := by
  by_cases heq : id = i
  . rw [if_pos heq] at hinfos
    obtain ⟨hcb, hreads, hshot⟩ := h heq
    refine ⟨hnext, ?_, ?_, ?_⟩
    all_goals simp only [Epoll.action_def, hinfos]
    . exact hcb
    . exact hreads
    . exact hshot
  . rw [if_neg heq] at hinfos
    exact of_action hnext hinfos

theorem setAction {i : Nat} {a : EventAction}
    (h : id = i → ((s.infos id).action.readBufIdxCallback.isSome → a.readBufIdxCallback.isSome)
      ∧ (s.infos id).action.pendingReadTask <+: a.pendingReadTask
      ∧ (op.isUnregister = false → (s.infos id).action.multishotReadTask.isSome
        → a.multishotReadTask.isSome))
    : Grows op id s (s.setAction i a) := by
  refine of_replaced (Nat.le_refl _) ?_ h
  rw [setAction_def, modifyInfo_infos]
  split <;> rfl

theorem update {s₀ : Epoll} (hlt : id < s.next) (hop : op.cancelsReads s₀ id = false)
    (h : Update op s₀ s s')
    : Grows op id s s' := by
  cases h with
  | insert fd info hmap hinfo =>
    refine of_action (Nat.le_succ _) ?_
    rw [insert_infos, if_neg (by omega)]
  | watch fd i events hi =>
    refine of_action (Nat.le_refl _) ?_
    rw [modifyInfo_infos]
    split
    next heq => rw [heq]
    . rfl
  | enlist fd i hi _ =>
    refine of_action (Nat.le_refl _) ?_
    rw [modifyInfo_infos]
    split
    next heq => rw [heq]
    . rfl
  | quiet fd i a hi ha =>
    apply setAction
    intro heq
    rw [heq, ha.pendingReadTask, ha.multishotReadTask]
    exact ⟨ha.readBufIdxCallback, List.prefix_rfl, fun _ h => h⟩
  | accept fd hasAddrBuffer cb i hop hi =>
    apply setAction
    intro heq
    rw [heq]
    exact ⟨fun h => h, List.prefix_rfl, fun _ h => h⟩
  | group fd group cb opt i t blocks hop hi =>
    have ⟨_, _, ha⟩ := EventAction.addMultishotReadTask_eq (s.infos i).action t blocks
    apply setAction
    intro heq
    rw [heq, ha]
    exact ⟨fun h => h, List.prefix_rfl, fun _ _ => rfl⟩
  | buffers buffers => exact of_action (Nat.le_refl _) rfl
  | queueRead fd buf cb opt i t isSubmit hop hi htype ht hbuf =>
    refine of_replaced (by simp) (by rw [queueRead_infos, apply_ite EventInfo.action]) ?_
    intro heq
    rw [heq]
    cases isSubmit with
    | true => exact ⟨fun h => h, List.prefix_append _ _, fun _ h => h⟩
    | false => exact ⟨fun h => h, List.prefix_rfl, fun _ h => h⟩
  | queueWrite fd buf cb opt i t isSubmit hop hi ht hbuf =>
    refine of_replaced (by simp) (by rw [queueWrite_infos, apply_ite EventInfo.action]) ?_
    intro heq
    rw [heq]
    cases isSubmit with
    | true => exact ⟨fun h => h, List.prefix_rfl, fun _ h => h⟩
    | false => exact ⟨fun h => h, List.prefix_rfl, fun _ h => h⟩
  | pushReady fd i hi => exact of_action (Nat.le_refl _) rfl
  | insertNonSubmit fd i hi =>
    unfold Epoll.insertNonSubmit
    split
    . exact refl s
    . exact of_action (Nat.le_refl _) rfl
  | submittedOne i hop hi =>
    refine of_replaced (by simp) (by rw [submittedOne_infos, apply_ite EventInfo.action]) ?_
    intro heq
    rw [heq]
    refine ⟨fun h => h, List.prefix_append _ _, fun _ h => ?_⟩
    simpa [EventAction.submitted] using h
  | submitted hop => exact of_action (Nat.le_refl _) rfl
  | close fd hop => exact of_action (Nat.le_refl _) rfl
  | «open» fd hop => exact of_action (Nat.le_refl _) rfl
  | clear k i a _ hi ha hreads =>
    apply setAction
    intro heq
    rcases hreads with hcancel | hkeeps
    . rw [← heq, hop] at hcancel
      cases hcancel
    . rw [heq, hkeeps.readBufIdxCallback, hkeeps.pendingReadTask]
      refine ⟨fun h => h, List.prefix_rfl, fun hu h => ?_⟩
      rw [hkeeps.multishotReadTask hu]
      exact h

theorem exec {r : Int} (hlt : id < s.next) (hop : op.cancelsReads s id = false)
    (h : s.exec op = .ok (r, s'))
    : Grows op id s s' := by
  have key : ∀ {t}, Updates op s s t → Grows op id s t := by
    intro t ht
    induction ht with
    | refl => exact refl s
    | tail _ hu ih => exact ih.trans (update (Nat.lt_of_lt_of_le hlt ih.next) hop hu)
  exact key (Epoll.exec_updates h)

end Epoll.Grows

namespace Epoll

variable {op : Op} {id : Nat} {s s' : Epoll}

-- The reads of the action that have not been carried out yet.
def readIds (s : Epoll) (id : Nat) : List Nat :=
  ((s.action id).pendingReadTask ++ (s.action id).nonSubmitReadTask).map (·.id)

-- What an update does to them.
structure Renews (op : Op) (id : Nat) (s₀ s s' : Epoll) : Prop where
  nextTask : s.nextTask ≤ s'.nextTask
  ids : (s'.readIds id).Perm (s.readIds id)
    ∨ (s'.nextTask = s.nextTask + 1 ∧ (s'.readIds id).Perm (s.nextTask :: s.readIds id))
    ∨ (op.cancelsReads s₀ id = true ∧ s'.readIds id ⊆ s.readIds id)

namespace Renews

variable {s₀ : Epoll}

theorem of_ids (hnext : s.nextTask ≤ s'.nextTask) (h : s'.readIds id = s.readIds id)
    : Renews op id s₀ s s' := by
  refine ⟨hnext, .inl ?_⟩
  rw [h]

theorem of_action (hnext : s.nextTask ≤ s'.nextTask) (h : (s'.infos id).action = (s.infos id).action)
    : Renews op id s₀ s s' := by
  apply of_ids hnext
  rw [readIds, readIds, action_def, action_def, h]

theorem setAction {i : Nat} {a : EventAction} (h : id = i →
      a.pendingReadTask = (s.infos id).action.pendingReadTask
        ∧ a.nonSubmitReadTask = (s.infos id).action.nonSubmitReadTask)
    : Renews op id s₀ s (s.setAction i a) := by
  refine of_ids (Nat.le_refl _) ?_
  rw [readIds, readIds, action_def, action_def, setAction_def, modifyInfo_infos]
  split
  next heq => rw [(h heq).1, (h heq).2]
  . rfl

theorem update (hlt : id < s.next) (h : Update op s₀ s s') : Renews op id s₀ s s' := by
  cases h with
  | insert fd info hmap hinfo =>
    refine of_action (Nat.le_refl _) ?_
    rw [insert_infos, if_neg (by omega)]
  | watch fd i events hi =>
    refine of_action (Nat.le_refl _) ?_
    rw [modifyInfo_infos]
    split
    next heq => rw [heq]
    . rfl
  | enlist fd i hi _ =>
    refine of_action (Nat.le_refl _) ?_
    rw [modifyInfo_infos]
    split
    next heq => rw [heq]
    . rfl
  | quiet fd i a hi ha =>
    apply setAction
    intro heq
    rw [heq]
    exact ⟨ha.pendingReadTask, ha.nonSubmitReadTask⟩
  | accept fd hasAddrBuffer cb i hop hi =>
    apply setAction
    intro heq
    rw [heq]
    exact ⟨rfl, rfl⟩
  | group fd group cb opt i t blocks hop hi =>
    have ⟨_, _, ha⟩ := EventAction.addMultishotReadTask_eq (s.infos i).action t blocks
    apply setAction
    intro heq
    rw [heq, ha]
    exact ⟨rfl, rfl⟩
  | buffers buffers => exact of_action (Nat.le_refl _) rfl
  | queueRead fd buf cb opt i t isSubmit hop hi htype ht hbuf =>
    have hnext := queueRead_nextTask s i t isSubmit
    by_cases heq : id = i
    . refine ⟨by omega, .inr (.inl ⟨hnext, ?_⟩)⟩
      rw [heq, readIds, readIds, action_def, action_def, queueRead_infos, if_pos rfl, ← ht]
      cases isSubmit with
      | true =>
        simp only [if_true, EventAction.addReadTask, List.map_append, List.map_cons, List.map_nil,
          List.append_assoc]
        exact List.perm_middle
      | false =>
        simp only [Bool.false_eq_true, if_false, EventAction.addNonSubmitReadTask, List.map_append,
          List.map_cons, List.map_nil, ← List.append_assoc]
        exact List.perm_append_singleton _ _
    . refine of_action (by omega) ?_
      rw [queueRead_infos, if_neg heq]
  | queueWrite fd buf cb opt i t isSubmit hop hi ht hbuf =>
    have hnext := queueWrite_nextTask s i t isSubmit
    apply of_ids (by omega)
    rw [readIds, readIds, action_def, action_def, queueWrite_infos]
    split
    next heq =>
      rw [heq]
      cases isSubmit <;> rfl
    . rfl
  | pushReady fd i hi => exact of_action (Nat.le_refl _) rfl
  | insertNonSubmit fd i hi =>
    unfold Epoll.insertNonSubmit
    split
    . exact of_action (Nat.le_refl _) rfl
    . exact of_action (Nat.le_refl _) rfl
  | submittedOne i hop hi =>
    apply of_ids (Nat.le_of_eq (submittedOne_nextTask s i).symm)
    rw [readIds, readIds, action_def, action_def, submittedOne_infos]
    split
    next heq =>
      rw [heq]
      simp [EventAction.submitted]
    . rfl
  | submitted hop => exact of_action (Nat.le_refl _) rfl
  | close fd hop => exact of_action (Nat.le_refl _) rfl
  | «open» fd hop => exact of_action (Nat.le_refl _) rfl
  | clear k i a _ hi ha hreads =>
    rcases hreads with hcancel | hkeeps
    . by_cases heq : id = i
      . rw [← heq] at ha hcancel ⊢
        refine ⟨Nat.le_refl _, .inr (.inr ⟨hcancel, ?_⟩)⟩
        rw [readIds, readIds, action_def, action_def, setAction_def, modifyInfo_infos, if_pos rfl]
        apply List.map_subset
        rw [List.append_subset]
        exact ⟨List.subset_append_of_subset_left _ ha.pendingReadTask,
          List.subset_append_of_subset_right _ ha.nonSubmitReadTask⟩
      . exact setAction (fun h => absurd h heq)
    . apply setAction
      intro heq
      rw [heq]
      exact ⟨hkeeps.pendingReadTask, hkeeps.nonSubmitReadTask⟩

end Renews

theorem Update.next_le {s₀ : Epoll} (h : Update op s₀ s s') : s.next ≤ s'.next := by
  cases h with
  | insert fd info hmap hinfo => exact Nat.le_succ _
  | queueRead => simp
  | queueWrite => simp
  | submittedOne => simp
  | insertNonSubmit =>
    unfold Epoll.insertNonSubmit
    split <;> exact Nat.le_refl _
  | _ => exact Nat.le_refl _

-- The read `t` has been taken out of the queue.
structure Lost (id t : Nat) (s : Epoll) : Prop where
  lt : id < s.next
  notMem : t ∉ s.readIds id
  old : t < s.nextTask

theorem Lost.exec {t : Nat} {r : Int} (h : s.Lost id t) (hs : s.exec op = .ok (r, s'))
    : s'.Lost id t := by
  have key : ∀ {u}, Updates op s s u → u.Lost id t := by
    intro u hu
    induction hu with
    | refl => exact h
    | tail _ hu ih =>
      have hnew := Renews.update ih.lt hu
      have hnext := hnew.nextTask
      have hold := ih.old
      refine ⟨Nat.lt_of_lt_of_le ih.lt hu.next_le, ?_, by omega⟩
      rcases hnew.ids with hperm | ⟨_, hperm⟩ | ⟨_, hsub⟩
      . rw [hperm.mem_iff]
        exact ih.notMem
      . rw [hperm.mem_iff, List.mem_cons]
        rintro (heq | hmem)
        . omega
        . exact ih.notMem hmem
      . exact fun hmem => ih.notMem (hsub hmem)
  exact key (exec_updates hs)

-- All reads are told apart by their ids.
structure Fresh (id : Nat) (s : Epoll) : Prop where
  nodup : (s.readIds id).Nodup
  old : ∀ t ∈ s.readIds id, t < s.nextTask

theorem Fresh.exec {r : Int} (hlt : id < s.next) (h : s.Fresh id) (hop : op.cancelsReads s id = false)
    (hs : s.exec op = .ok (r, s'))
    : s'.Fresh id := by
  have key : ∀ {u}, Updates op s s u → id < u.next ∧ u.Fresh id := by
    intro u hu
    induction hu with
    | refl => exact ⟨hlt, h⟩
    | tail _ hu ih =>
      have hnew := Renews.update ih.1 hu
      have hnext := hnew.nextTask
      refine ⟨Nat.lt_of_lt_of_le ih.1 hu.next_le, ?_⟩
      rcases hnew.ids with hperm | ⟨hsucc, hperm⟩ | ⟨hcancel, _⟩
      . refine ⟨hperm.nodup_iff.mpr ih.2.nodup, ?_⟩
        intro t ht
        have := ih.2.old t (hperm.mem_iff.mp ht)
        omega
      . refine ⟨hperm.nodup_iff.mpr (List.nodup_cons.mpr ⟨?_, ih.2.nodup⟩), ?_⟩
        . intro hmem
          have := ih.2.old _ hmem
          omega
        . intro t ht
          rcases List.mem_cons.mp (hperm.mem_iff.mp ht) with heq | hmem
          . omega
          . have := ih.2.old t hmem
            omega
      . rw [hop] at hcancel
        cases hcancel
  exact (key (exec_updates hs)).2

-- A cancel takes all of them.
theorem readIds_of_cancelsReads {r : Int} (hop : op.cancelsReads s id = true)
    (hs : s.exec op = .ok (r, s'))
    : s'.readIds id = [] := by
  have hdisable : ∀ {u}, s.disableRead id = .ok u → u.readIds id = [] := by
    intro u hu
    obtain ⟨_, _, _, _, _, _, _, rfl⟩ := disableRead_eq_ok hu
    simp [readIds]
  cases op with
  | cancelAsyncRead fd cb =>
    simp only [Op.cancelsReads, Bool.and_eq_true, decide_eq_true_eq] at hop
    obtain ⟨⟨⟨hinit, hfd⟩, hmap⟩, hreading⟩ := hop
    replace hs : s.cancelAsyncRead fd cb = .ok (r, s') := hs
    unfold cancelAsyncRead at hs
    rw [if_neg (by simp [hinit]; omega), hmap] at hs
    simp only [hreading, Bool.not_true, Bool.false_eq_true, if_false] at hs
    obtain ⟨u, hu, hs⟩ := Except.bind_eq_ok hs
    cases hs
    split
    . rw [← hdisable hu, readIds, readIds, action_def, action_def]
      simp
    . exact hdisable hu
  | cancelAsyncAccept fd cb =>
    simp only [Op.cancelsReads, Bool.and_eq_true, decide_eq_true_eq] at hop
    obtain ⟨⟨hinit, hfd⟩, hmap⟩ := hop
    replace hs : s.cancelAsyncAccept fd cb = .ok (r, s') := hs
    unfold cancelAsyncAccept at hs
    rw [if_neg (by simp [hinit]; omega), hmap] at hs
    obtain ⟨u, hu, hs⟩ := Except.bind_eq_ok hs
    cases hs
    exact hdisable hu
  | _ => cases hop

section Fault

variable {f : Fault}

theorem findOrInsert_fault {fd : Fd} (h : s.findOrInsert fd = .error f) : f.isRead = false := by
  unfold findOrInsert at h
  split at h
  . cases h
  . rcases Except.bind_eq_error h with h | ⟨_, _, h⟩
    . unfold EventInfo.new EventAction.new at h
      split at h <;> cases h
      rfl
    . cases h

theorem EventAction.clearMultishotTask_fault {a : EventAction} (h : a.clearMultishotTask = .error f)
    : f.isRead = false := by
  unfold EventAction.clearMultishotTask at h
  split at h
  . cases h
  . split at h <;> cases h
    rfl

theorem clearMultishotTask_fault (h : s.clearMultishotTask id = .error f) : f.isRead = false := by
  unfold clearMultishotTask at h
  split at h
  . cases h
  . split at h
    . cases h
      rfl
    . rcases Except.bind_eq_error h with h | ⟨_, _, h⟩
      . exact EventAction.clearMultishotTask_fault h
      . cases h

theorem disableRead_fault (h : s.disableRead id = .error f) : f.isRead = false := by
  rcases Except.bind_eq_error h with h | ⟨_, _, h⟩
  . exact clearMultishotTask_fault h
  . rcases Except.bind_eq_error h with h | ⟨_, _, h⟩
    . rcases Except.bind_eq_error h with h | ⟨_, _, h⟩
      . exact EventAction.clearMultishotTask_fault h
      . cases h
    . cases h

theorem removeMultishotTask_fault {fdSet : List Nat} (h : s.removeMultishotTask fdSet = .error f)
    : f.isRead = false := by
  unfold removeMultishotTask at h
  induction fdSet generalizing s with
  | nil => cases h
  | cons fd fdSet ih =>
    rw [List.foldlM_cons] at h
    rcases Except.bind_eq_error h with h | ⟨_, _, h⟩
    . split at h
      . cases h
      . exact clearMultishotTask_fault h
    . exact ih h

-- None of the calls runs into an empty queue or an empty callback.
theorem exec_fault (h : s.exec op = .error f) : f.isRead = false := by
  cases op with
  | submitAsyncRead fd buf cb opt =>
    replace h : s.submitAsyncRead fd buf cb opt = .error f := h
    unfold submitAsyncRead at h
    split at h
    . cases h
    . rcases Except.bind_eq_error h with h | ⟨_, _, h⟩
      . exact findOrInsert_fault h
      . cases h
  | submitAsyncReadGroup fd group cb opt =>
    replace h : s.submitAsyncReadGroup fd group cb opt = .error f := h
    unfold submitAsyncReadGroup at h
    split at h
    . cases h
    . split at h
      . cases h
      . rcases Except.bind_eq_error h with h | ⟨_, _, h⟩
        . exact findOrInsert_fault h
        . cases h
  | submitAsyncWrite fd buf cb opt =>
    replace h : s.submitAsyncWrite fd buf cb opt = .error f := h
    unfold submitAsyncWrite at h
    split at h
    . cases h
    . rcases Except.bind_eq_error h with h | ⟨_, _, h⟩
      . exact findOrInsert_fault h
      . cases h
  | submitAsyncAccept fd hasAddrBuffer cb =>
    replace h : s.submitAsyncAccept fd hasAddrBuffer cb = .error f := h
    unfold submitAsyncAccept at h
    split at h
    . cases h
    . rcases Except.bind_eq_error h with h | ⟨_, _, h⟩
      . exact findOrInsert_fault h
      . cases h
  | cancelAsyncRead fd cb =>
    replace h : s.cancelAsyncRead fd cb = .error f := h
    unfold cancelAsyncRead at h
    split at h
    . cases h
    . split at h
      . cases h
      . split at h
        . cases h
        . rcases Except.bind_eq_error h with h | ⟨_, _, h⟩
          . exact disableRead_fault h
          . cases h
  | cancelAsyncWrite fd cb =>
    replace h : s.cancelAsyncWrite fd cb = .error f := h
    unfold cancelAsyncWrite at h
    split at h
    . cases h
    . split at h <;> cases h
  | cancelAsyncAccept fd cb =>
    replace h : s.cancelAsyncAccept fd cb = .error f := h
    unfold cancelAsyncAccept at h
    split at h
    . cases h
    . split at h
      . cases h
      . rcases Except.bind_eq_error h with h | ⟨_, _, h⟩
        . exact disableRead_fault h
        . cases h
  | submit =>
    replace h : s.submit = .error f := h
    rw [submit_eq] at h
    split at h
    . cases h
    . cases h
      rfl
  | unregisterRingBuffer group =>
    replace h : s.unregisterRingBuffer group = .error f := h
    unfold unregisterRingBuffer at h
    split at h
    . cases h
    . rcases Except.bind_eq_error h with h | ⟨_, _, h⟩
      . exact removeMultishotTask_fault h
      . cases h
  | _ => cases h

end Fault

end Epoll

end Event
end Ezio
