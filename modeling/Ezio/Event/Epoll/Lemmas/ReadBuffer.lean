import Ezio.Event.FdIo.Lemmas
import Ezio.Event.Epoll.Lemmas.Wf

/-!
This module contains the buffer that the callback of a read task is called with. It is the one of the
call that has made the task, a UDP socket gets its `iovec`s one by one.
-/

namespace Ezio
namespace Event

open EStateM (Preserves Triple)
open Relation

def EventAction.readTasks (a : EventAction) : List Task := a.pendingReadTask ++ a.nonSubmitReadTask

namespace Epoll

-- A buffer group was submitted for the action.
def Groups (op : Op) (s : Epoll) (id : Nat) : Prop :=
  ∃ fd group cb opt, op = .submitAsyncReadGroup fd group cb opt ∧ s.fdToEventInfo fd.key = some id

-- What a call leaves of the actions and their read tasks, a read of a buffer apart.
structure Inherits (op : Op) (s s' : Epoll) : Prop where
  map : ∀ k id, s.fdToEventInfo k = some id → s'.fdToEventInfo k = some id
  next : s.next ≤ s'.next
  sock : ∀ id < s.next,
      (s'.infos id).action.mmsghdrForUdpSock = (s.infos id).action.mmsghdrForUdpSock
  tasks : ∀ id, ∀ t ∈ (s'.infos id).action.readTasks, t ∈ (s.infos id).action.readTasks
      ∧ (s'.infos id).action.fd = (s.infos id).action.fd
  ops : ∀ id, (s'.infos id).action.fd.type = .udp → (s'.infos id).action.readOp = some .udp
      ∨ ((s'.infos id).action.fd = (s.infos id).action.fd
        ∧ (s'.infos id).action.readOp = (s.infos id).action.readOp)
      ∨ Groups op s' id

namespace Inherits

variable {op : Op} {s₀ s s' s'' : Epoll} {i : Nat} {a : EventAction}

theorem refl (s : Epoll) : Inherits op s s :=
  ⟨fun _ _ h => h, Nat.le_refl _, fun _ _ => rfl, fun _ _ h => ⟨h, rfl⟩,
    fun _ _ => .inr (.inl ⟨rfl, rfl⟩)⟩

theorem trans (h : Inherits op s s') (h' : Inherits op s' s'') : Inherits op s s'' := by
  refine ⟨fun k id hk => h'.map k id (h.map k id hk), Nat.le_trans h.next h'.next, ?_, ?_, ?_⟩
  . intro id hid
    rw [h'.sock id (Nat.lt_of_lt_of_le hid h.next), h.sock id hid]
  . intro id t ht
    obtain ⟨ht', hfd'⟩ := h'.tasks id t ht
    obtain ⟨ht, hfd⟩ := h.tasks id t ht'
    exact ⟨ht, hfd'.trans hfd⟩
  . intro id htype
    rcases h'.ops id htype with hudp | ⟨hfd, hop⟩ | hgroups
    . exact .inl hudp
    . rw [hfd] at htype
      rw [hfd, hop]
      rcases h.ops id htype with hudp | hsame | ⟨fd, group, cb, opt, heq, hmap⟩
      . exact .inl hudp
      . exact .inr (.inl hsame)
      . exact .inr (.inr ⟨fd, group, cb, opt, heq, h'.map _ _ hmap⟩)
    . exact .inr (.inr hgroups)

theorem of_action (hmap : s'.fdToEventInfo = s.fdToEventInfo) (hnext : s'.next = s.next)
    (haction : ∀ j, (s'.infos j).action = (s.infos j).action)
    : Inherits op s s' := by
  refine ⟨?_, Nat.le_of_eq hnext.symm, ?_, ?_, ?_⟩
  . rw [hmap]
    exact fun _ _ h => h
  . intro id _
    rw [haction]
  . intro id t ht
    rw [haction] at ht ⊢
    exact ⟨ht, rfl⟩
  . intro id _
    rw [haction]
    exact .inr (.inl ⟨rfl, rfl⟩)

theorem of_update (hmap : s'.fdToEventInfo = s.fdToEventInfo) (hnext : s'.next = s.next)
    (haction : ∀ j, (s'.infos j).action = if j = i then a else (s.infos j).action)
    (hfd : a.fd = (s.infos i).action.fd)
    (hsock : a.mmsghdrForUdpSock = (s.infos i).action.mmsghdrForUdpSock)
    (htasks : ∀ t ∈ a.readTasks, t ∈ (s.infos i).action.readTasks)
    (hops : a.fd.type = .udp → a.readOp = some .udp ∨ a.readOp = (s.infos i).action.readOp
      ∨ Groups op s' i)
    : Inherits op s s' := by
  have heq : ∀ j, j = i → (s'.infos j).action = a := by
    intro j hj
    rw [haction, if_pos hj]
  have hne : ∀ j, j ≠ i → (s'.infos j).action = (s.infos j).action := by
    intro j hj
    rw [haction, if_neg hj]
  refine ⟨?_, Nat.le_of_eq hnext.symm, ?_, ?_, ?_⟩
  . rw [hmap]
    exact fun _ _ h => h
  . intro j _
    by_cases hj : j = i
    . rw [heq j hj, hsock, hj]
    . rw [hne j hj]
  . intro j t ht
    by_cases hj : j = i
    . rw [heq j hj] at ht ⊢
      rw [hj]
      exact ⟨htasks t ht, hfd⟩
    . rw [hne j hj] at ht ⊢
      exact ⟨ht, rfl⟩
  . intro j htype
    by_cases hj : j = i
    . rw [heq j hj] at htype ⊢
      rw [hj]
      rcases hops htype with hudp | hsame | hgroups
      . exact .inl hudp
      . exact .inr (.inl ⟨hfd, hsame⟩)
      . exact .inr (.inr hgroups)
    . rw [hne j hj]
      exact .inr (.inl ⟨rfl, rfl⟩)

theorem of_same (hmap : s'.fdToEventInfo = s.fdToEventInfo) (hnext : s'.next = s.next)
    (haction : ∀ j, (s'.infos j).action = if j = i then a else (s.infos j).action)
    (hfd : a.fd = (s.infos i).action.fd)
    (hsock : a.mmsghdrForUdpSock = (s.infos i).action.mmsghdrForUdpSock)
    (htasks : ∀ t ∈ a.readTasks, t ∈ (s.infos i).action.readTasks)
    (hops : a.fdOps = (s.infos i).action.fdOps)
    : Inherits op s s' := by
  apply of_update hmap hnext haction hfd hsock htasks
  intro _
  unfold EventAction.readOp
  rw [hops]
  exact .inr (.inl rfl)

theorem setAction_action (s : Epoll) (i j : Nat) (a : EventAction)
    : ((s.setAction i a).infos j).action = if j = i then a else (s.infos j).action := by
  simp only [setAction_def, modifyInfo_infos]
  split
  . rfl
  . rfl

theorem insert {fd : Fd} {info : EventInfo} (hmap : s.fdToEventInfo fd.key = none)
    (hinfo : EventInfo.new fd = .ok info)
    : Inherits op s (s.insert fd info) := by
  have hnew := EventInfo.new_eq_ok hinfo
  refine ⟨?_, Nat.le_succ _, ?_, ?_, ?_⟩
  . intro k id hk
    rw [insert_fdToEventInfo, if_neg]
    . exact hk
    . intro hkey
      rw [hkey, hmap] at hk
      cases hk
  . intro id hid
    rw [insert_infos, if_neg (Nat.ne_of_lt hid)]
  . intro id t ht
    rw [insert_infos] at ht ⊢
    split at ht
    . rw [hnew] at ht
      simp [EventAction.readTasks, EventAction.blank] at ht
    next hid =>
      rw [if_neg hid]
      exact ⟨ht, rfl⟩
  . intro id htype
    rw [insert_infos] at htype ⊢
    split at htype
    next hid =>
      rw [if_pos hid, hnew]
      rw [hnew] at htype
      have htype : fd.type = .udp := by simpa [EventAction.blank] using htype
      rw [htype]
      exact .inl rfl
    next hid =>
      rw [if_neg hid]
      exact .inr (.inl ⟨rfl, rfl⟩)

theorem update (h : Update op s₀ s s') (hop : ∀ fd buf cb opt, op ≠ .submitAsyncRead fd buf cb opt)
    : Inherits op s s' := by
  cases h with
  | insert fd info hmap hinfo => exact insert hmap hinfo
  | watch fd i events hi =>
    refine of_action rfl rfl fun j => ?_
    rw [modifyInfo_infos]
    split
    next heq => rw [heq]
    . rfl
  | enlist fd i hi _ =>
    refine of_action rfl rfl fun j => ?_
    rw [modifyInfo_infos]
    split
    next heq => rw [heq]
    . rfl
  | quiet fd i a hi ha =>
    refine of_same rfl rfl (fun j => setAction_action s i j a) ha.fd ha.mmsghdrForUdpSock ?_ ha.fdOps
    unfold EventAction.readTasks
    rw [ha.pendingReadTask, ha.nonSubmitReadTask]
    exact fun _ h => h
  | accept fd hasAddrBuffer cb i hop hi =>
    exact of_same rfl rfl (fun j => setAction_action s i j _) rfl rfl (fun _ h => h) rfl
  | group fd group cb opt i t blocks hop hi =>
    obtain ⟨hdrs, ops, heq⟩ := EventAction.addMultishotReadTask_eq (s.infos i).action t blocks
    rw [heq]
    exact of_update rfl rfl (fun j => setAction_action s i j _) rfl rfl (fun _ h => h)
      fun _ => .inr (.inr ⟨fd, group, cb, opt, hop, hi⟩)
  | buffers buffers => exact of_action rfl rfl fun _ => rfl
  | queueRead fd buf cb opt i t isSubmit heq => exact absurd heq (hop fd buf cb opt)
  | queueWrite fd buf cb opt i t isSubmit hop hi ht hbuf =>
    have haction : ∀ j, ((s.queueWrite i t isSubmit).infos j).action
        = if j = i then (if isSubmit then (s.infos i).action.addWriteTask t
            else (s.infos i).action.addNonSubmitWriteTask t)
          else (s.infos j).action := by
      intro j
      rw [queueWrite_infos]
      split
      . rfl
      . rfl
    refine of_same ?_ ?_ haction ?_ ?_ ?_ ?_
    . simp
    . simp
    all_goals cases isSubmit <;> simp [EventAction.addWriteTask, EventAction.addNonSubmitWriteTask,
      EventAction.readTasks]
  | pushReady fd i hi => exact of_action rfl rfl fun _ => rfl
  | insertNonSubmit fd i hi =>
    unfold Epoll.insertNonSubmit
    split
    . exact refl s
    . exact of_action rfl rfl fun _ => rfl
  | submittedOne i hop hi =>
    have haction : ∀ j, ((s.submittedOne i).infos j).action
        = if j = i then (s.infos i).action.submitted else (s.infos j).action := by
      intro j
      rw [submittedOne_infos]
      split
      . rfl
      . rfl
    refine of_same ?_ ?_ haction ?_ ?_ ?_ ?_
    . simp
    . simp
    all_goals simp [EventAction.submitted, EventAction.readTasks]
  | submitted hop => exact of_action rfl rfl fun _ => rfl
  | close fd hop => exact of_action rfl rfl fun _ => rfl
  | «open» fd hop => exact of_action rfl rfl fun _ => rfl
  | clear k i a hop hi ha =>
    refine of_update rfl rfl (fun j => setAction_action s i j a) ha.fd ha.mmsghdrForUdpSock ?_ ?_
    . intro t ht
      unfold EventAction.readTasks at ht ⊢
      rw [List.mem_append] at ht ⊢
      exact ht.imp (fun h => ha.pendingReadTask h) fun h => ha.nonSubmitReadTask h
    . intro htype
      unfold EventAction.readOp
      rcases ha.fdOps with hops | hops
      . rw [hops]
        exact .inr (.inl rfl)
      . rw [hops, ← ha.fd, htype]
        exact .inl rfl

theorem updates (h : Updates op s₀ s s') (hop : ∀ fd buf cb opt, op ≠ .submitAsyncRead fd buf cb opt)
    : Inherits op s s' := by
  induction h with
  | refl => exact refl s
  | tail _ h ih => exact ih.trans (update h hop)

end Inherits

-- A read of a buffer that is not turned down adds one task.
theorem submitAsyncRead_cases {s s' : Epoll} {fd : Fd} {buf : UserBuf} {cb : Option Callback}
    {opt : Option ReadOptions} {r : Int} (h : s.submitAsyncRead fd buf cb opt = .ok (r, s'))
    : s' = s ∨ ∃ s₁ id t isSubmit, Inherits .submit s s₁ ∧ s₁.nextTask = s.nextTask
        ∧ s₁.fdToEventInfo fd.key = some id ∧ t.id = s.nextTask ∧ t.buffer = buf.iov
        ∧ s' = s₁.queueRead id t isSubmit := by
  unfold submitAsyncRead at h
  split at h
  . cases h
    exact .inl rfl
  . obtain ⟨⟨id, s₁⟩, hfind, h⟩ := Except.bind_eq_ok h
    have hid := findOrInsert_map hfind
    have htask : s₁.nextTask = s.nextTask := by
      rcases findOrInsert_cases hfind with ⟨_, rfl⟩ | ⟨_, _, info, _, rfl⟩
      . rfl
      . rfl
    have hupdates : Updates .submit s s (s₁.prepareRead fd id cb opt) :=
      (Updates.findOrInsert hfind).trans (Updates.prepareRead fd cb opt hid)
    cases h
    refine .inr ⟨_, id, _, _, Inherits.updates hupdates ?_, ?_, ?_, ?_, rfl, rfl⟩
    . intro fd buf cb opt heq
      cases heq
    . rw [prepareRead_nextTask, htask]
    . rw [prepareRead_fdToEventInfo]
      exact hid
    . dsimp only
      rw [prepareRead_nextTask, htask]

theorem queueRead_readTasks {s : Epoll} {id j : Nat} {t t' : Task} {isSubmit : Bool}
    (h : t' ∈ ((s.queueRead id t isSubmit).infos j).action.readTasks)
    : t' ∈ (s.infos j).action.readTasks ∨ j = id ∧ t' = t := by
  rw [queueRead_infos] at h
  split at h
  next hj =>
    rw [hj]
    cases isSubmit <;> simp_all [EventAction.readTasks, EventAction.addReadTask,
      EventAction.addNonSubmitReadTask] <;> grind
  . exact .inl h

theorem queueRead_keeps (s : Epoll) (id j : Nat) (t : Task) (isSubmit : Bool)
    : ((s.queueRead id t isSubmit).infos j).action.fd = (s.infos j).action.fd
        ∧ ((s.queueRead id t isSubmit).infos j).action.readOp = (s.infos j).action.readOp
        ∧ ((s.queueRead id t isSubmit).infos j).action.mmsghdrForUdpSock
          = (s.infos j).action.mmsghdrForUdpSock := by
  rw [queueRead_infos]
  split
  next hj =>
    rw [hj]
    cases isSubmit
    . exact ⟨rfl, rfl, rfl⟩
    . exact ⟨rfl, rfl, rfl⟩
  . exact ⟨rfl, rfl, rfl⟩

end Epoll

-- The call has made the read task `t` of the action `id`, which has the file descriptor `fd`.
def Entry.Makes (id : Nat) (fd : Fd) (t : Task) : Entry → Prop
  | .call (.submitAsyncRead fd' buf cb opt) s =>
    ∃ r s', s.submitAsyncRead fd' buf cb opt = .ok (r, s') ∧ s.nextTask = t.id
      ∧ s'.nextTask = t.id + 1 ∧ s'.fdToEventInfo fd'.key = some id ∧ (s'.infos id).action.fd = fd
      ∧ buf.iov = t.buffer
  | _ => False

theorem Entry.Makes.call {id : Nat} {fd : Fd} {t : Task} {e : Entry} (h : e.Makes id fd t)
    : ∃ fd' buf cb opt s r s', e = Entry.call (.submitAsyncRead fd' buf cb opt) s
        ∧ s.submitAsyncRead fd' buf cb opt = .ok (r, s') ∧ s.nextTask = t.id
        ∧ s'.nextTask = t.id + 1 ∧ s'.fdToEventInfo fd'.key = some id ∧ (s'.infos id).action.fd = fd
        ∧ buf.iov = t.buffer := by
  cases e with
  | call op s =>
    cases op with
    | submitAsyncRead fd' buf cb opt =>
      obtain ⟨r, s', h⟩ := h
      exact ⟨fd', buf, cb, opt, s, r, s', rfl, h⟩
    | _ => exact h.elim
  | _ => exact h.elim

-- The call has submitted a buffer group for the action `id`.
def Entry.Groups (id : Nat) : Entry → Prop
  | .call op s => ∃ r s', s.exec op = .ok (r, s') ∧ Epoll.Groups op s' id
  | _ => False

def Entry.isTask : Entry → Bool
  | .readCallback _ _ (.task _) _ _ => true
  | _ => false

-- A datagram comes with one `iovec` of the task, nothing that was received with none.
def Task.Single (t : Task) (ret : Int) (iov : List Iovec) : Prop :=
  (ret ≤ 0 ∧ iov = []) ∨ ∃ v ∈ t.buffer, iov = [v]

-- What the callback of the task `t` may be given.
def Gives (log : List Entry) (id : Nat) (fd : Fd) (t : Task) (ret : Int) (iov : List Iovec) : Prop :=
  if fd.type = .udp then t.Single ret iov ∨ ∃ e ∈ log, e.Groups id else iov = t.buffer

structure Traced (w : World) : Prop where
  wf : w.poll.Wf
  tasks : ∀ id, ∀ t ∈ (w.poll.infos id).action.readTasks, id < w.poll.next
      ∧ ∃ e ∈ w.log, e.Makes id (w.poll.infos id).action.fd t
  ops : ∀ id, (w.poll.infos id).action.fd.type = .udp
      → (w.poll.infos id).action.readOp = some .udp ∨ ∃ e ∈ w.log, e.Groups id
  callbacks : ∀ id cb n ret iov, .readCallback id cb (.task n) ret iov ∈ w.log
      → ∃ fd t, t.id = n ∧ (∃ e ∈ w.log, e.Makes id fd t) ∧ Gives w.log id fd t ret iov

theorem Gives.mono {log log' : List Entry} {id : Nat} {fd : Fd} {t : Task} {ret : Int} {iov : List Iovec}
    (h : Gives log id fd t ret iov) (hlog : log ⊆ log')
    : Gives log' id fd t ret iov := by
  unfold Gives at h ⊢
  split at h
  next hudp =>
    rw [if_pos hudp]
    exact h.imp_right fun ⟨e, he, hgroups⟩ => ⟨e, hlog he, hgroups⟩
  next hudp =>
    rw [if_neg hudp]
    exact h

namespace Traced

variable {w w' : World}

theorem callbacks_of {log : List Entry} (h : Traced w) (hsub : w.log ⊆ log)
    (hnew : ∀ e ∈ log, e ∈ w.log ∨ e.isTask = false)
    : ∀ id cb n ret iov, .readCallback id cb (.task n) ret iov ∈ log
      → ∃ fd t, t.id = n ∧ (∃ e ∈ log, e.Makes id fd t) ∧ Gives log id fd t ret iov := by
  intro id cb n ret iov hmem
  rcases hnew _ hmem with hold | hfalse
  . obtain ⟨fd, t, ht, ⟨e, he, hmakes⟩, hgives⟩ := h.callbacks id cb n ret iov hold
    exact ⟨fd, t, ht, ⟨e, hsub he, hmakes⟩, hgives.mono hsub⟩
  . cases hfalse

-- Nothing is changed but what is logged and the order of the tasks.
theorem keep (h : Traced w) (hwf : w'.poll.Wf) (hsub : w.log ⊆ w'.log)
    (hnew : ∀ e ∈ w'.log, e ∈ w.log ∨ e.isTask = false) (hnext : w'.poll.next = w.poll.next)
    (htasks : ∀ id, (w'.poll.infos id).action.readTasks ⊆ (w.poll.infos id).action.readTasks)
    (hfd : ∀ id, (w'.poll.infos id).action.fd = (w.poll.infos id).action.fd)
    (hops : ∀ id, (w'.poll.infos id).action.readOp = (w.poll.infos id).action.readOp)
    : Traced w' := by
  refine ⟨hwf, ?_, ?_, h.callbacks_of hsub hnew⟩
  . intro id t ht
    obtain ⟨hlt, e, he, hmakes⟩ := h.tasks id t (htasks id ht)
    rw [hnext, hfd]
    exact ⟨hlt, e, hsub he, hmakes⟩
  . intro id htype
    rw [hfd] at htype
    rw [hops]
    exact (h.ops id htype).imp_right fun ⟨e, he, hgroups⟩ => ⟨e, hsub he, hgroups⟩

theorem mem_addLog {w : World} {e e' : Entry} (he : e'.isTask = false)
    (h : e ∈ (w.addLog [e']).log)
    : e ∈ w.log ∨ e.isTask = false := by
  unfold World.addLog at h
  rw [List.mem_append, List.mem_singleton] at h
  exact h.imp_right fun heq => by rw [heq]; exact he

theorem inherits {op : Op} {s : Epoll} {r : Int} (h : Traced w) (hexec : w.poll.exec op = .ok (r, s))
    (hop : ∀ fd buf cb opt, op ≠ .submitAsyncRead fd buf cb opt)
    : Traced { w.addLog [.call op w.poll] with poll := s } := by
  have hupdates := Epoll.exec_updates hexec
  have hinherits := Epoll.Inherits.updates hupdates hop
  have hsub : w.log ⊆ (w.addLog [.call op w.poll]).log := List.subset_append_left _ _
  refine ⟨h.wf.updates hupdates, ?_, ?_, h.callbacks_of hsub fun e he => mem_addLog rfl he⟩
  . intro id t ht
    obtain ⟨ht, hfd⟩ := hinherits.tasks id t ht
    obtain ⟨hlt, e, he, hmakes⟩ := h.tasks id t ht
    rw [hfd]
    exact ⟨Nat.lt_of_lt_of_le hlt hinherits.next, e, hsub he, hmakes⟩
  . intro id htype
    rcases hinherits.ops id htype with hudp | ⟨hfd, hsame⟩ | hgroups
    . exact .inl hudp
    . dsimp only at htype
      rw [hfd] at htype
      rw [hsame]
      exact (h.ops id htype).imp_right fun ⟨e, he, hgroups⟩ => ⟨e, hsub he, hgroups⟩
    . exact .inr ⟨.call op w.poll, List.mem_append_right _ List.mem_cons_self, r, s, hexec, hgroups⟩

theorem reads {fd : Fd} {buf : UserBuf} {cb : Option Callback} {opt : Option ReadOptions} {s : Epoll}
    {r : Int} (h : Traced w) (hread : w.poll.submitAsyncRead fd buf cb opt = .ok (r, s))
    : Traced { w.addLog [.call (.submitAsyncRead fd buf cb opt) w.poll] with poll := s } := by
  have hwf := h.wf.updates (Epoll.submitAsyncRead_updates hread)
  have hsub : w.log ⊆ (w.addLog [.call (.submitAsyncRead fd buf cb opt) w.poll]).log :=
    List.subset_append_left _ _
  rcases Epoll.submitAsyncRead_cases hread with hsame | ⟨s₁, id, t, isSubmit, hinherits, htask, hmap,
    ht, hbuf, heq⟩
  . rw [hsame]
    exact h.keep h.wf hsub (fun e he => mem_addLog rfl he) rfl (fun _ => List.Subset.refl _)
      (fun _ => rfl) fun _ => rfl
  . have hkeeps := fun j => Epoll.queueRead_keeps s₁ id j t isSubmit
    refine ⟨hwf, ?_, ?_, h.callbacks_of hsub fun e he => mem_addLog rfl he⟩
    . intro j t' ht'
      dsimp only at ht'
      rw [heq] at ht'
      rcases Epoll.queueRead_readTasks ht' with hold | ⟨hj, hnew⟩
      . obtain ⟨hold, hfd⟩ := hinherits.tasks j t' hold
        obtain ⟨hlt, e, he, hmakes⟩ := h.tasks j t' hold
        dsimp only
        rw [heq, (hkeeps j).1, hfd, Epoll.queueRead_next]
        exact ⟨Nat.lt_of_lt_of_le hlt hinherits.next, e, hsub he, hmakes⟩
      . have hmap' : s.fdToEventInfo fd.key = some j := by
          rw [heq, Epoll.queueRead_fdToEventInfo, hmap, hj]
        refine ⟨(hwf.map _ _ hmap').1, _, List.mem_append_right _ List.mem_cons_self, r, s, hread, ?_, ?_,
          hmap', rfl, ?_⟩
        . rw [hnew, ht]
        . rw [heq, Epoll.queueRead_nextTask, htask, hnew, ht]
        . rw [hnew, hbuf]
    . intro j htype
      dsimp only at htype ⊢
      rw [heq, (hkeeps j).1] at htype
      rw [heq, (hkeeps j).2.1]
      rcases hinherits.ops j htype with hudp | ⟨hfd, hsame⟩ | ⟨_, _, _, _, hgroup, _⟩
      . exact .inl hudp
      . rw [hfd] at htype
        rw [hsame]
        exact (h.ops j htype).imp_right fun ⟨e, he, hgroups⟩ => ⟨e, hsub he, hgroups⟩
      . cases hgroup

theorem exec (op : Op) : Preserves Traced (Event.exec op) := by
  apply exec_triple
  . intro w r s hw hexec
    by_cases hop : ∃ fd buf cb opt, op = .submitAsyncRead fd buf cb opt
    . obtain ⟨fd, buf, cb, opt, hop⟩ := hop
      subst hop
      exact hw.reads hexec
    . apply hw.inherits hexec
      intro fd buf cb opt heq
      exact hop ⟨fd, buf, cb, opt, heq⟩
  . intro w f hw _
    exact hw.keep hw.wf (List.subset_append_left _ _) (fun e he => mem_addLog rfl he) rfl
      (fun _ => List.Subset.refl _) (fun _ => rfl) fun _ => rfl

theorem modifyAction (h : Traced w) {id : Nat} {a : EventAction}
    (hfd : a.fd = (w.poll.infos id).action.fd)
    (htasks : ∀ t ∈ a.readTasks, id < w.poll.next
      ∧ ∃ e ∈ w.log, e.Makes id (w.poll.infos id).action.fd t)
    (hops : a.fdOps = (w.poll.infos id).action.fdOps)
    : Traced (w.modifyAction id fun _ => a) := by
  have haction : ∀ j, ((w.modifyAction id fun _ => a).poll.infos j).action
      = if j = id then a else (w.poll.infos j).action :=
    fun j => Epoll.Inherits.setAction_action w.poll id j a
  refine ⟨h.wf.setAction, ?_, ?_, h.callbacks⟩
  . intro j
    rw [haction]
    split
    next hj =>
      rw [hj, hfd]
      exact htasks
    . exact h.tasks j
  . intro j
    rw [haction]
    split
    next hj =>
      unfold EventAction.readOp
      rw [hj, hfd, hops]
      exact h.ops id
    . exact h.ops j

theorem poll (h : Traced w) {s : Epoll} (hwf : s.Wf) (hnext : s.next = w.poll.next)
    (haction : ∀ id, (s.infos id).action = (w.poll.infos id).action)
    : Traced { w with poll := s } := by
  refine h.keep hwf (List.Subset.refl _) (fun e he => .inl he) hnext ?_ ?_ ?_
  . intro id
    dsimp only
    rw [haction]
    exact List.Subset.refl _
  . intro id
    dsimp only
    rw [haction]
  . intro id
    dsimp only
    rw [haction]

theorem io (h : Traced w) (sys : List SysRet) (user : List (List Op)) {log : List Entry}
    (hlog : ∀ e ∈ log, e.isTask = false)
    : Traced { w with sys := sys, user := user, log := w.log ++ log } := by
  refine h.keep h.wf (List.subset_append_left _ _) ?_ rfl (fun _ => List.Subset.refl _)
    (fun _ => rfl) fun _ => rfl
  intro e he
  exact (List.mem_append.mp he).imp_right (hlog e)

theorem touch (h : Traced w) {id : Nat} {a : EventAction} (ha : (w.action id).Touch a)
    : Traced (w.modifyAction id fun _ => a) := by
  obtain ⟨_, _, _, _, _, _, rfl⟩ := ha
  exact h.modifyAction rfl (h.tasks id) rfl

theorem entryFrame (id : Nat)
    : EntryFrame id (fun e => e.isWrite = false ∧ e.isTask = false) (fun _ => True) Traced := by
  refine ⟨⟨fun op _ => exec op, ?_, fun w a ha _ hw => hw.touch ha⟩, ?_, fun _ _ _ _ _ => ⟨rfl, rfl⟩⟩
  . intro w sys user log hlog hw
    exact hw.io sys user fun e he => (hlog e he).2.2
  . intro w group f hw
    exact hw.poll { hw.wf with } rfl fun _ => rfl

theorem isTask_of_isRead {e : Entry} (h : e.isRead = false) : e.isTask = false := by
  cases e <;> simp_all [Entry.isRead, Entry.isTask]

theorem writeFrame (id : Nat) : WriteFrame id (fun _ => True) Traced := by
  refine ⟨⟨⟨fun op _ => exec op, ?_, fun w a ha _ hw => hw.touch ha⟩, ?_⟩, ?_⟩
  . intro w sys user log hlog hw
    exact hw.io sys user fun e he => isTask_of_isRead (hlog e he).2
  . intro w offset hw
    exact hw.modifyAction rfl (hw.tasks id) rfl
  . rintro w _ ⟨_, _, rfl⟩ hw
    exact hw.modifyAction rfl (hw.tasks id) rfl

end Traced

-- The task `t` is carried out, the callback of a UDP socket may be given what `V` allows.
structure AtTask (id : Nat) (fd : Fd) (t : Task) (V : Int → List Iovec → Prop) (w : World) : Prop where
  traced : Traced w
  holds : w.poll.Holds id fd
  made : ∃ e ∈ w.log, e.Makes id fd t
  allowed : ∀ ret iov, V ret iov → t.Single ret iov ∨ ∃ e ∈ w.log, e.Groups id

-- The callback is given all of the buffer or, for a UDP socket, what `V` allows.
def Allows (fd : Fd) (t : Task) (V : Int → List Iovec → Prop) (e : Entry) : Prop :=
  e.isWrite = false ∧ ∀ id cb n ret iov, e = .readCallback id cb (.task n) ret iov
    → n = t.id ∧ if fd.type = .udp then V ret iov else iov = t.buffer

namespace AtTask

variable {id : Nat} {fd : Fd} {t : Task} {V : Int → List Iovec → Prop} {w w' : World}

theorem of_traced (h : AtTask id fd t V w) (htraced : Traced w') (hholds : w'.poll.Holds id fd)
    (hsub : w.log ⊆ w'.log)
    : AtTask id fd t V w' := by
  obtain ⟨e, he, hmakes⟩ := h.made
  refine ⟨htraced, hholds, ⟨e, hsub he, hmakes⟩, ?_⟩
  intro ret iov hiov
  exact (h.allowed ret iov hiov).imp_right fun ⟨e, he, hgroups⟩ => ⟨e, hsub he, hgroups⟩

theorem callbacks (h : AtTask id fd t V w) {log : List Entry}
    (hlog : ∀ e ∈ log, e.owner = some id ∧ Allows fd t V e)
    : ∀ j cb n ret iov, .readCallback j cb (.task n) ret iov ∈ w.log ++ log
      → ∃ fd' t', t'.id = n ∧ (∃ e ∈ w.log ++ log, e.Makes j fd' t')
        ∧ Gives (w.log ++ log) j fd' t' ret iov := by
  intro j cb n ret iov hmem
  have hsub : w.log ⊆ w.log ++ log := List.subset_append_left _ _
  rcases List.mem_append.mp hmem with hold | hnew
  . obtain ⟨fd', t', ht', ⟨e, he, hmakes⟩, hgives⟩ := h.traced.callbacks j cb n ret iov hold
    exact ⟨fd', t', ht', ⟨e, hsub he, hmakes⟩, hgives.mono hsub⟩
  . obtain ⟨howner, _, hallows⟩ := hlog _ hnew
    obtain ⟨hn, hiov⟩ := hallows j cb n ret iov rfl
    obtain ⟨e, he, hmakes⟩ := h.made
    cases howner
    refine ⟨fd, t, hn.symm, ⟨e, hsub he, hmakes⟩, ?_⟩
    unfold Gives
    split at hiov
    next hudp =>
      rw [if_pos hudp]
      exact (h.allowed ret iov hiov).imp_right fun ⟨e, he, hgroups⟩ => ⟨e, hsub he, hgroups⟩
    next hudp =>
      rw [if_neg hudp]
      exact hiov

theorem exec (op : Op) : Preserves (AtTask id fd t V) (Event.exec op) := by
  intro w hw
  have htraced := Traced.exec op w hw.traced
  have hholds := ((Epoll.Holds.runFrame id fd (fun _ => True)).read 0).exec op trivial w hw.holds
  have hlog := ((logFrame w.log (fun _ => True)).read 0).exec op trivial w List.prefix_rfl
  cases hexec : Event.exec op w with
  | ok r w' =>
    rw [hexec] at htraced hholds hlog
    exact hw.of_traced htraced hholds hlog.subset
  | error f w' =>
    rw [hexec] at htraced hholds hlog
    exact hw.of_traced htraced hholds hlog.subset

theorem entryFrame : EntryFrame id (Allows fd t V) (fun _ => True) (AtTask id fd t V) := by
  refine ⟨⟨fun op _ => exec op, ?_, ?_⟩, ?_, ?_⟩
  . intro w sys user log hlog hw
    have hsub : w.log ⊆ w.log ++ log := List.subset_append_left _ _
    refine hw.of_traced ⟨hw.traced.wf, ?_, ?_, hw.callbacks hlog⟩ hw.holds hsub
    . intro j t' ht'
      obtain ⟨hlt, e, he, hmakes⟩ := hw.traced.tasks j t' ht'
      exact ⟨hlt, e, hsub he, hmakes⟩
    . intro j htype
      exact (hw.traced.ops j htype).imp_right fun ⟨e, he, hgroups⟩ => ⟨e, hsub he, hgroups⟩
  . intro w a ha _ hw
    refine hw.of_traced (hw.traced.touch ha) ?_ (List.Subset.refl _)
    obtain ⟨_, _, _, _, _, _, rfl⟩ := ha
    exact hw.holds.setAction rfl
  . intro w group f hw
    exact hw.of_traced (hw.traced.poll { hw.traced.wf with } rfl fun _ => rfl)
      (hw.holds.of_fd { hw.holds.wf with } rfl fun _ => rfl) (List.Subset.refl _)
  . intro src ret before ops after
    refine ⟨rfl, ?_⟩
    intro j cb n ret iov heq
    cases heq

end AtTask

-- The buffers that the headers of single reads point at.
def EventAction.sockIov (a : EventAction) : List Iovec := a.mmsghdrForUdpSock.map (·.iov)

def Epoll.SockIs (id : Nat) (iovs : List Iovec) (s : Epoll) : Prop :=
  id < s.next ∧ (s.infos id).action.sockIov = iovs

theorem Epoll.SockIs.exec {id : Nat} {iovs : List Iovec} (op : Op)
    : Preserves (fun w : World => w.poll.SockIs id iovs) (Event.exec op) := by
  apply exec_triple
  . rintro w r s ⟨hlt, hsock⟩ hexec
    unfold Epoll.SockIs EventAction.sockIov
    dsimp only
    by_cases hop : ∃ fd buf cb opt, op = .submitAsyncRead fd buf cb opt
    . obtain ⟨fd, buf, cb, opt, hop⟩ := hop
      subst hop
      rcases Epoll.submitAsyncRead_cases hexec with hsame | ⟨s₁, id', t, isSubmit, hinherits, _, _, _, _,
        heq⟩
      . rw [hsame]
        exact ⟨hlt, hsock⟩
      . rw [heq, Epoll.queueRead_next, (Epoll.queueRead_keeps s₁ id' id t isSubmit).2.2,
          hinherits.sock id hlt]
        exact ⟨Nat.lt_of_lt_of_le hlt hinherits.next, hsock⟩
    . have hinherits := Epoll.Inherits.updates (Epoll.exec_updates hexec) (by
        intro fd buf cb opt heq
        exact hop ⟨fd, buf, cb, opt, heq⟩)
      rw [hinherits.sock id hlt]
      exact ⟨Nat.lt_of_lt_of_le hlt hinherits.next, hsock⟩
  . intro w f hw _
    exact hw

theorem Epoll.SockIs.readCallback {id : Nat} {iovs : List Iovec} (src : ReadSource) (ret : Int)
    (iov : List Iovec)
    : Preserves (fun w : World => w.poll.SockIs id iovs) (Event.readCallback id src ret iov) := by
  apply Preserves.get_bind
  intro w _
  split
  . exact Preserves.throw _
  . apply Preserves.modify_bind
    . intro w hw
      exact hw
    . apply Preserves.bind
      . apply Preserves.forM
        intro op _
        exact Epoll.SockIs.exec op
      . intro _
        apply Preserves.modify
        intro w hw
        exact hw

theorem EventAction.prepareHdrs_iov (buf : List FdIo.Udp.Mmsghdr) (t : Task) {i : Nat} {v : Iovec}
    (h : t.buffer[i]? = some v)
    : ((prepareHdrs buf t).map (·.iov))[i]? = some v := by
  obtain ⟨hlt, hget⟩ := List.getElem?_eq_some_iff.mp h
  unfold prepareHdrs
  by_cases hle : t.buffer.length ≤ buf.length
  . have hlt' : i < buf.length := Nat.lt_of_lt_of_le hlt hle
    simp [hle, h, hlt']
  . simp [hle, hget, hlt]

namespace AtTask

open Ezio.Event.Frame (Inv)

variable {id : Nat} {fd : Fd} {t : Task} {iovs : List Iovec}

-- A task of a UDP socket is carried out, the headers are set up for it.
def AtHdrs (id : Nat) (fd : Fd) (t : Task) (iovs : List Iovec) (w : World) : Prop :=
  Inv (fun _ => True) (AtTask id fd t t.Single) w ∧ w.poll.SockIs id iovs

theorem allows_udp {V : Int → List Iovec → Prop} {ret : Int} {iov : List Iovec} (hudp : fd.type = .udp)
    (hiov : V ret iov) (cb : ReadCallback)
    : Allows fd t V (.readCallback id cb (.task t.id) ret iov) := by
  refine ⟨rfl, ?_⟩
  intro id' cb' n ret' iov' heq
  cases heq
  rw [if_pos hudp]
  exact ⟨rfl, hiov⟩

theorem allows_buffer {V : Int → List Iovec → Prop} (hfd : fd.type ≠ .udp) (cb : ReadCallback) (ret : Int)
    : Allows fd t V (.readCallback id cb (.task t.id) ret t.buffer) := by
  refine ⟨rfl, ?_⟩
  intro id' cb' n ret' iov' heq
  cases heq
  rw [if_neg hfd]
  exact ⟨rfl, rfl⟩

theorem udpHdrs_hdrs
    : Triple (AtHdrs id fd t iovs) (udpHdrs id false)
        (fun buf w => AtHdrs id fd t iovs w ∧ buf.map (·.iov) = iovs)
        (fun _ => Inv (fun _ => True) (AtTask id fd t t.Single)) := by
  intro w hw
  exact ⟨hw, hw.2.2⟩

theorem readCallback_hdrs (hudp : fd.type = .udp) {ret : Int} {iov : List Iovec}
    (hiov : t.Single ret iov)
    : Triple (AtHdrs id fd t iovs) (readCallback id (.task t.id) ret iov)
        (fun _ => AtHdrs id fd t iovs)
        (fun _ => Inv (fun _ => True) (AtTask id fd t t.Single)) := by
  have hframe : EntryFrame id (Allows fd t t.Single) (fun _ => True)
      (AtTask id fd t t.Single) := entryFrame
  have htask := hframe.readCallback fun cb => allows_udp hudp hiov cb
  have hsock : Preserves (fun w : World => w.poll.SockIs id iovs) (readCallback id (.task t.id) ret iov) :=
    Epoll.SockIs.readCallback (.task t.id) ret iov
  exact (htask.and hsock).conseq (fun _ h => h) (fun _ _ h => h) fun _ _ h => h.1

theorem udpCallbacks_hdrs (hudp : fd.type = .udp)
    (hiovs : ∀ (i : Nat) v, t.buffer[i]? = some v → iovs[i]? = some v) (i n : Nat)
    (hn : i + n ≤ t.buffer.length)
    : Triple (AtHdrs id fd t iovs) (udpCallbacks id false (.task t.id) i n)
        (fun _ => AtHdrs id fd t iovs)
        (fun _ => Inv (fun _ => True) (AtTask id fd t t.Single)) := by
  induction n generalizing i with
  | zero => exact Triple.pure fun _ h => h
  | succ n ih =>
    apply Triple.bind udpHdrs_hdrs
    intro buf
    apply Triple.of_states
    rintro w ⟨hw, hbuf⟩
    split
    . exact Triple.throw fun _ h => h ▸ hw.1
    next hdr hget =>
      have hlt : i < t.buffer.length := by omega
      have hv := hiovs i t.buffer[i] (List.getElem?_eq_getElem hlt)
      rw [← hbuf, List.getElem?_map, hget] at hv
      have hiov : hdr.iov = t.buffer[i] := Option.some.inj hv
      have hmem : hdr.iov ∈ t.buffer := hiov ▸ List.getElem_mem hlt
      refine Triple.bind ((readCallback_hdrs hudp (.inr ⟨_, hmem, rfl⟩)).at_state hw) ?_
      intro _
      exact ih (i + 1) (by omega)

theorem touch_hdrs {f : EventAction → EventAction} {iovs' : List Iovec}
    (hf : ∀ a : EventAction, a.Touch (f a) ∧ (f a).writeOffset = a.writeOffset)
    (hiovs : ∀ a, a.sockIov = iovs → (f a).sockIov = iovs')
    : Triple (AtHdrs id fd t iovs) (modifyAction id f) (fun _ => AtHdrs id fd t iovs')
        (fun _ => Inv (fun _ => True) (AtTask id fd t t.Single)) := by
  intro w hw
  refine ⟨entryFrame.modifyAction hf w hw.1, hw.2.1, ?_⟩
  have haction := Epoll.Inherits.setAction_action w.poll id id (f (w.poll.infos id).action)
  rw [if_pos rfl] at haction
  have hsock := hiovs _ hw.2.2
  rw [← haction] at hsock
  exact hsock

theorem liftIo_hdrs {buf : List FdIo.Udp.Mmsghdr} (hbuf : buf.map (·.iov) = iovs)
    : Triple (AtHdrs id fd t iovs) (liftIo (readHdrs (some .udp) buf t.buffer.length))
        (fun r w => AtHdrs id fd t iovs w ∧ r.buf.map (·.iov) = iovs
          ∧ (r.ret = INT32_MAX ∨ r.ret ≤ t.buffer.length))
        (fun _ => Inv (fun _ => True) (AtTask id fd t t.Single)) := by
  intro w hw
  have htask := entryFrame.liftIo (readHdrs (some .udp) buf t.buffer.length) w hw.1
  unfold liftIo at htask ⊢
  cases hread : readHdrs (some .udp) buf t.buffer.length w.sys with
  | done r sys =>
    rw [hread] at htask
    obtain ⟨hiov, hret⟩ := FdIo.Udp.readFd_go_spec (Nat.zero_le _) hread
    exact ⟨⟨htask, hw.2⟩, hiov.trans hbuf, hret⟩
  | cut => exact hw.1
  | null => exact hw.1

theorem readUdp_hdrs {w : World} (hudp : fd.type = .udp)
    (hiovs : ∀ (i : Nat) v, t.buffer[i]? = some v → iovs[i]? = some v)
    (hop : (w.action id).readOp = some .udp) (hw : AtHdrs id fd t iovs w)
    : Triple (· = w) (readUdp id false (.task t.id) t.buffer.length)
        (fun _ => Inv (fun _ => True) (AtTask id fd t t.Single))
        (fun _ => Inv (fun _ => True) (AtTask id fd t t.Single)) := by
  have hhdrs : Triple (· = w) (udpHdrs id false)
      (fun buf w' => w' = w ∧ buf.map (·.iov) = iovs)
      (fun _ => Inv (fun _ => True) (AtTask id fd t t.Single)) := by
    rintro _ rfl
    exact ⟨rfl, hw.2.2⟩
  apply Triple.bind hhdrs
  intro buf
  apply Triple.get_bind
  rintro w' ⟨rfl, hbuf⟩
  rw [hop]
  apply Triple.bind ((liftIo_hdrs hbuf).at_state hw)
  intro r
  apply Triple.of_states
  rintro w' ⟨hw', hiov, hret⟩
  have hset : Triple (AtHdrs id fd t iovs) (setUdpHdrs id false r.buf)
      (fun _ => AtHdrs id fd t iovs)
      (fun _ => Inv (fun _ => True) (AtTask id fd t t.Single)) :=
    touch_hdrs (fun a => ⟨⟨_, _, _, _, _, by simp +contextual, rfl⟩, rfl⟩) fun _ _ => hiov
  apply Triple.bind (hset.at_state hw')
  intro _
  split
  . apply Triple.bind
    . exact touch_hdrs (fun a => ⟨⟨_, _, _, _, _, by simp +contextual, rfl⟩, rfl⟩) fun _ h => h
    . intro _
      split
      . exact Triple.pure fun _ h => h.1
      next hne =>
        have hle := hret.resolve_left hne
        refine Triple.bind (udpCallbacks_hdrs hudp hiovs 0 r.ret.toNat (by omega)) ?_
        intro _
        exact Triple.pure fun _ h => h.1
  next hpos =>
    apply Triple.bind (readCallback_hdrs hudp (.inl ⟨Int.not_lt.mp hpos, rfl⟩))
    intro _
    exact Triple.pure fun _ h => h.1

-- A buffer group that was submitted may have changed the operation, which then counts on its own.
theorem readUdp_groups {w : World} (hudp : fd.type = .udp) (hgroups : ∃ e ∈ w.log, e.Groups id)
    (hw : Inv (fun _ => True) (AtTask id fd t t.Single) w)
    : Triple (· = w) (readUdp id false (.task t.id) t.buffer.length)
        (fun _ => Inv (fun _ => True) (AtTask id fd t t.Single))
        (fun _ => Inv (fun _ => True) (AtTask id fd t t.Single)) := by
  have hany : Inv (fun _ => True) (AtTask id fd t fun _ _ => True) w :=
    ⟨hw.1, hw.2.traced, hw.2.holds, hw.2.made, fun _ _ _ => .inr hgroups⟩
  have hback : ∀ w, Inv (fun _ => True) (AtTask id fd t fun _ _ => True) w
      → Inv (fun _ => True) (AtTask id fd t t.Single) w :=
    fun w h => ⟨h.1, h.2.traced, h.2.holds, h.2.made, fun _ _ hiov => .inl hiov⟩
  have hframe : EntryFrame id (Allows fd t fun _ _ => True) (fun _ => True)
      (AtTask id fd t fun _ _ => True) := entryFrame
  have hread : Preserves (Inv (fun _ => True) (AtTask id fd t fun _ _ => True))
      (readUdp id false (.task t.id) t.buffer.length) := by
    apply hframe.readUdp
    intro cb ret iov _
    exact allows_udp hudp trivial cb
  exact (hread.conseq (fun _ h => h) (fun _ w h => hback w h) fun _ w h => hback w h).at_state hany

theorem prepareHdrs_hdrs
    : Triple (Inv (fun _ => True) (AtTask id fd t t.Single))
        (modifyAction id fun a =>
          { a with mmsghdrForUdpSock := EventAction.prepareHdrs a.mmsghdrForUdpSock t })
        (fun _ w => ∃ iovs : List Iovec, (∀ (i : Nat) v, t.buffer[i]? = some v → iovs[i]? = some v)
          ∧ AtHdrs id fd t iovs w)
        (fun _ => Inv (fun _ => True) (AtTask id fd t t.Single)) := by
  intro w hw
  have htask := entryFrame.modifyAction (f := fun a =>
    { a with mmsghdrForUdpSock := EventAction.prepareHdrs a.mmsghdrForUdpSock t })
    (fun a => ⟨⟨_, _, _, _, _, by simp +contextual, rfl⟩, rfl⟩) w hw
  refine ⟨_, fun i v h => EventAction.prepareHdrs_iov (w.action id).mmsghdrForUdpSock t h, htask,
    hw.2.holds.lt, ?_⟩
  have haction := Epoll.Inherits.setAction_action w.poll id id
    { w.action id with mmsghdrForUdpSock := EventAction.prepareHdrs (w.action id).mmsghdrForUdpSock t }
  rw [if_pos rfl] at haction
  exact congrArg EventAction.sockIov haction

theorem transfer (isEventTriggered : Bool)
    : Preserves (Inv (fun _ => True) (AtTask id fd t t.Single))
        (doReadTask.transfer id t isEventTriggered) := by
  apply Preserves.get_bind
  intro w hw
  have hfd : (w.action id).fd = fd := hw.2.holds.fd
  rw [hfd]
  split
  next hudp =>
    apply Triple.bind prepareHdrs_hdrs
    intro _
    apply Triple.of_states
    rintro w' ⟨iovs, hiovs, hw'⟩
    have hread : Triple (· = w') (readUdp id false (.task t.id) t.buffer.length)
        (fun _ => Inv (fun _ => True) (AtTask id fd t t.Single))
        (fun _ => Inv (fun _ => True) (AtTask id fd t t.Single)) := by
      have hops := hw'.1.2.traced.ops id
      rw [hw'.1.2.holds.fd] at hops
      rcases hops hudp with hop | hgroups
      . exact readUdp_hdrs hudp hiovs hop hw'
      . exact readUdp_groups hudp hgroups hw'.1
    apply Triple.bind hread
    intro ret
    exact Triple.pure fun _ h => h
  next hudp =>
    apply Preserves.bind (entryFrame.liftIo _)
    intro r
    apply Preserves.bind
    . apply entryFrame.modifyAction
      intro a
      exact ⟨⟨_, _, _, _, _, by simp +contextual, rfl⟩, rfl⟩
    . intro _
      split
      . exact Preserves.pure _
      . apply Preserves.bind (entryFrame.readCallback fun cb => allows_buffer hudp cb _)
        intro _
        exact Preserves.pure _

theorem doReadTask (isEventTriggered : Bool)
    : Preserves (Inv (fun _ => True) (AtTask id fd t t.Single))
        (doReadTask id t isEventTriggered) := by
  apply Preserves.get_bind
  intro w hw
  have hfd : (w.action id).fd = fd := hw.2.holds.fd
  rw [hfd]
  split
  next hbuffer =>
    refine Preserves.bind (entryFrame.readCallback fun cb => ?_) fun _ => Preserves.pure _
    by_cases hudp : fd.type = .udp
    . exact allows_udp hudp (.inl ⟨Int.le_refl 0, hbuffer⟩) cb
    . exact allows_buffer hudp cb _
  . split
    . exact transfer isEventTriggered
    next offset hoffset =>
      have hudp : fd.type ≠ .udp := by
        intro hudp
        simp [hudp] at hoffset
      apply Preserves.bind
      . apply entryFrame.lseek
        intro id task offset
        refine ⟨rfl, ?_⟩
        intro id' cb n ret iov heq
        cases heq
      . intro ok
        split
        . apply Preserves.bind
          . apply entryFrame.modifyAction
            intro a
            exact ⟨⟨_, _, _, _, _, by simp +contextual, rfl⟩, rfl⟩
          . intro _
            exact transfer isEventTriggered
        . refine Preserves.bind (entryFrame.readCallback fun cb => allows_buffer hudp cb _)
            fun _ => Preserves.pure _

end AtTask

namespace Traced

open Ezio.Event.Frame (Inv)

variable {id : Nat}

theorem atTask {w : World} {t : Task} (h : Traced w)
    (ht : t ∈ (w.poll.infos id).action.readTasks)
    : AtTask id (w.poll.infos id).action.fd t t.Single w := by
  obtain ⟨hlt, hmade⟩ := h.tasks id t ht
  exact ⟨h, ⟨h.wf, hlt, rfl⟩, hmade, fun _ _ hiov => .inl hiov⟩

-- A task that is tried again is put at the end of the queue.
theorem requeue {w : World} {fd : Fd} {t : Task} (h : AtTask id fd t t.Single w) (again : Bool)
    : Traced (w.modifyAction id fun a => if again then a.addReadTask t else a) := by
  cases again with
  | false => exact h.traced.modifyAction rfl (h.traced.tasks id) rfl
  | true =>
    refine h.traced.modifyAction (a := (w.poll.infos id).action.addReadTask t) rfl ?_ rfl
    intro t' ht'
    have ht' : t' ∈ (w.poll.infos id).action.readTasks ∨ t' = t := by
      unfold EventAction.readTasks EventAction.addReadTask at ht'
      unfold EventAction.readTasks
      simp only [List.mem_append, List.mem_singleton] at ht' ⊢
      grind
    rcases ht' with hold | hnew
    . exact h.traced.tasks id t' hold
    . rw [hnew, h.holds.fd]
      exact ⟨h.holds.lt, h.made⟩

theorem popReadTask : Preserves (Inv (fun _ => True) Traced) (popReadTask id) := by
  apply Triple.get_bind
  intro w hw
  split
  . exact Triple.throw fun _ h => h ▸ hw
  next t ts hts =>
    apply Triple.modify
    intro w' heq
    rw [heq]
    refine ⟨hw.1, hw.2.modifyAction (a := { w.action id with pendingReadTask := ts }) rfl ?_ rfl⟩
    intro t' ht'
    apply hw.2.tasks id t'
    have hts : (w.poll.infos id).action.pendingReadTask = t :: ts := hts
    unfold EventAction.readTasks at ht' ⊢
    rw [hts]
    exact List.mem_cons_of_mem t ht'

theorem readLoop (isEventTriggered : Bool) (n : Nat)
    : Preserves (Inv (fun _ => True) Traced) (readLoop id isEventTriggered n) := by
  induction n with
  | zero => exact Preserves.pure _
  | succ n ih =>
    apply Triple.get_bind
    intro w hw
    split
    . exact Triple.throw fun _ h => h ▸ hw
    next t ts hts =>
      have hmem : t ∈ (w.poll.infos id).action.readTasks := by
        have hts : (w.poll.infos id).action.pendingReadTask = t :: ts := hts
        unfold EventAction.readTasks
        rw [hts]
        exact List.mem_cons_self
      have htask := (AtTask.doReadTask isEventTriggered).at_state ⟨hw.1, hw.2.atTask hmem⟩
      apply Triple.bind (htask.conseq (fun _ h => h) (fun _ _ h => h) fun _ _ h => ⟨h.1, h.2.traced⟩)
      intro again
      apply Triple.bind (Q := fun _ => Inv (fun _ => True) Traced)
      . apply Triple.modify
        intro w' hw'
        exact ⟨hw'.1, requeue hw'.2 again⟩
      . intro _
        apply Preserves.bind popReadTask
        intro _
        exact ih

theorem handleRead (isEventTriggered : Bool)
    : Preserves (Inv (fun _ => True) Traced) (handleRead id isEventTriggered) := by
  have haccept := (entryFrame id).acceptPass fun _ _ _ => ⟨rfl, rfl⟩
  apply Preserves.get_bind
  intro w _
  split
  . split
    . apply Preserves.bind ((entryFrame id).doMultishotReadTask _ fun _ _ _ => ⟨rfl, rfl⟩)
      intro _
      exact haccept
    . apply Preserves.bind
      . apply Preserves.get_bind
        intro w _
        apply Preserves.modify_bind
        . intro w hw
          exact ⟨hw.1, (entryFrame id).addLog w (by simp [Entry.owner, Entry.isWrite, Entry.isTask]) hw.2⟩
        . exact readLoop isEventTriggered _
      . intro _
        exact haccept
  . exact Preserves.pure _

theorem handleEvents (id : Nat) (isEventTriggered : Bool)
    : Preserves (Inv (fun _ => True) Traced) (handleEvents id isEventTriggered) := by
  apply Preserves.get_bind
  intro w _
  split
  . exact Preserves.pure _
  . apply Preserves.bind (handleRead isEventTriggered)
    intro _
    exact (writeFrame id).handleWrite

theorem dispatchFrame : DispatchFrame (fun _ => True) (fun _ => True) Traced := by
  refine ⟨⟨handleEvents, ?_, ?_⟩, fun op _ => exec op, ?_, ?_, ?_, ?_⟩
  . intro w id r s hw
    exact hw.modifyAction (a := { w.action id with isReadable := r, isWritable := s }) rfl
      (hw.tasks id) rfl
  . intro w ready hready hw
    exact hw.poll { hw.wf with ready := fun j hj => hw.wf.ready j (hready hj) } rfl fun _ => rfl
  . intro w sys user hw
    exact ⟨hw.wf, hw.tasks, hw.ops, hw.callbacks⟩
  . intro w hw
    have hsame := Epoll.applyChanges_sameTasks w.poll
    exact hw.poll hw.wf.applyChanges hsame.next hsame.action
  . intro w hw
    exact hw.poll { hw.wf with } rfl fun _ => rfl
  . intro w errs _ hw
    exact hw.poll { hw.wf with } rfl fun _ => rfl

theorem init (isOpen : Nat → Bool) : Traced (World.init isOpen) := by
  refine ⟨Epoll.Wf.init isOpen, ?_, ?_, ?_⟩
  . intro id t ht
    simp [World.init, Epoll.init, EventAction.readTasks, EventAction.blank] at ht
  . intro id htype
    simp [World.init, Epoll.init, EventAction.blank] at htype
  . intro id cb n ret iov hmem
    cases hmem

end Traced

-- The callback of a read task is given the buffer of the call that has made the task.
theorem run_traced (isOpen : Nat → Bool) (sts : List Step)
    : Traced (run sts (World.init isOpen)).state :=
  (Traced.dispatchFrame.run (fun st _ => st.calls_true) fun _ _ => trivial).state (Traced.init isOpen)

end Event
end Ezio
