import Ezio.Event.FdIo.Lemmas
import Ezio.Event.Epoll.Lemmas.Wf

/-!
This module contains the invariant that an action that is known to be ready and has a task is put up in
`ready_events_`, in the form it has while `handle_events` is at work on one of the actions.
-/

namespace Ezio
namespace Event

open EStateM (Preserves Triple)

-- All but the first `n` tasks of the action `j` are accounted for: a pass that starts now either meets
-- them in `ready_events_`, from index `k` on, or the file has to become ready first.
def Queued (k n : Nat) (ready : List Nat) (j : Nat) (tasks : List Task) (flag : Bool) : Prop :=
  n ≤ tasks.length ∧ (n < tasks.length → flag = true → j ∈ ready.drop k)

namespace Queued

variable {k n j : Nat} {ready : List Nat} {tasks : List Task} {flag : Bool}

theorem all (k j : Nat) (ready : List Nat) (tasks : List Task) (flag : Bool)
    : Queued k tasks.length ready j tasks flag :=
  ⟨Nat.le_refl _, fun h => absurd h (Nat.lt_irrefl _)⟩

theorem of_not (h : n ≤ tasks.length) : Queued k n ready j tasks false :=
  ⟨h, fun _ h => absurd h Bool.false_ne_true⟩

theorem mem_drop_append (xs : List Nat) (h : j ∈ ready.drop k) : j ∈ (ready ++ xs).drop k := by
  rw [List.drop_append]
  exact List.mem_append_left _ h

theorem push (h : Queued k n ready j tasks flag) (xs : List Nat)
    : Queued k n (ready ++ xs) j tasks flag :=
  ⟨h.1, fun hn hflag => mem_drop_append xs (h.2 hn hflag)⟩

theorem fall {flag' : Bool} (h : Queued k n ready j tasks flag) (hflag : flag' = true → flag = true)
    : Queued k n ready j tasks flag' :=
  ⟨h.1, fun hn hf => h.2 hn (hflag hf)⟩

theorem append (h : n ≤ tasks.length) (hk : k ≤ ready.length) (ts : List Task)
    : Queued k n (ready ++ [j]) j (tasks ++ ts) flag := by
  constructor
  . rw [List.length_append]
    omega
  . intro _ _
    rw [List.drop_append_of_le_length hk]
    simp

theorem append_of_not (h : n ≤ tasks.length) (ts : List Task)
    : Queued k n ready j (tasks ++ ts) false := by
  apply of_not
  rw [List.length_append]
  omega

theorem pop {t : Task} (h : Queued k (n + 1) ready j (t :: tasks) flag)
    : Queued k n ready j tasks flag := by
  have hlen : (t :: tasks).length = tasks.length + 1 := rfl
  constructor
  . have := h.1
    omega
  . intro hn
    apply h.2
    omega

end Queued

-- What the invariant says about the action `j`, of which `nr` reads and `nw` writes are left to a pass.
structure EventAction.Settled (a : EventAction) (k nr nw : Nat) (ready : List Nat) (j : Nat)
    : Prop where
  read : a.multishotReadTask = none → Queued k nr ready j a.pendingReadTask a.isReadable
  write : a.multishotReadTask = none → Queued k nw ready j a.pendingWriteTask a.isWritable
  ops : a.multishotReadTask = none → a.fd.type = .udp → a.readOp = some .udp
  bufs : a.fd.type = .udp → ∀ t ∈ a.pendingReadTask ++ a.nonSubmitReadTask,
    toInt32 t.buffer.length ≠ INT32_MAX

namespace EventAction.Settled

variable {a a' : EventAction} {k nr nw j : Nat} {ready : List Nat}

theorem push (h : a.Settled k nr nw ready j) (xs : List Nat) : a.Settled k nr nw (ready ++ xs) j :=
  { h with
    read := fun hm => (h.read hm).push xs
    write := fun hm => (h.write hm).push xs }

theorem quiet (h : a.Settled k nr nw ready j) (ha : a.Quiet a') : a'.Settled k nr nw ready j := by
  constructor
  . rw [ha.pendingReadTask, ha.isReadable, ha.multishotReadTask]
    exact h.read
  . rw [ha.pendingWriteTask, ha.isWritable, ha.multishotReadTask]
    exact h.write
  . unfold EventAction.readOp
    rw [ha.fd, ha.fdOps, ha.multishotReadTask]
    exact h.ops
  . rw [ha.fd, ha.pendingReadTask, ha.nonSubmitReadTask]
    exact h.bufs

-- Nothing is said of an action while a multishot read is in its way.
theorem addMultishotReadTask (h : a.Settled k nr nw ready j) (t : MultishotTask) (blocks : List Iovec)
    : (a.addMultishotReadTask t blocks).Settled k nr nw ready j := by
  have ⟨_, _, heq⟩ := a.addMultishotReadTask_eq t blocks
  rw [heq]
  constructor
  . simp
  . simp
  . simp
  . exact h.bufs

theorem touch (h : a.Settled k nr nw ready j) (ha : a.Touch a') : a'.Settled k nr nw ready j := by
  obtain ⟨r, _, _, _, _, hr, rfl⟩ := ha
  exact { h with read := fun hm => (h.read hm).fall hr }

-- A task is queued, and `ready'` tells whether the action has been put up for it.
theorem addReadTask (h : a.Settled k nr nw ready j) (hk : k ≤ ready.length) {t : Task}
    (ht : a.fd.type = .udp → toInt32 t.buffer.length ≠ INT32_MAX)
    : (a.addReadTask t).Settled k nr nw (if a.isReadable then ready ++ [j] else ready) j := by
  have hpush : a.Settled k nr nw (if a.isReadable then ready ++ [j] else ready) j := by
    split
    . exact h.push [j]
    . exact h
  refine { hpush with read := ?_, bufs := ?_ }
  . intro hm
    have hlen := (h.read hm).1
    show Queued k nr _ j (a.pendingReadTask ++ [t]) a.isReadable
    cases a.isReadable with
    | true => exact Queued.append hlen hk [t]
    | false => exact Queued.append_of_not hlen [t]
  . intro hudp t' ht'
    simp only [EventAction.addReadTask, List.mem_append, List.mem_singleton] at ht'
    rcases ht' with (ht' | rfl) | ht'
    . exact h.bufs hudp t' (List.mem_append_left _ ht')
    . exact ht hudp
    . exact h.bufs hudp t' (List.mem_append_right _ ht')

theorem addNonSubmitReadTask (h : a.Settled k nr nw ready j) {t : Task}
    (ht : a.fd.type = .udp → toInt32 t.buffer.length ≠ INT32_MAX)
    : (a.addNonSubmitReadTask t).Settled k nr nw ready j := by
  refine { h with bufs := ?_ }
  intro hudp t' ht'
  simp only [EventAction.addNonSubmitReadTask, List.mem_append, List.mem_singleton] at ht'
  rcases ht' with ht' | ht' | rfl
  . exact h.bufs hudp t' (List.mem_append_left _ ht')
  . exact h.bufs hudp t' (List.mem_append_right _ ht')
  . exact ht hudp

theorem addWriteTask (h : a.Settled k nr nw ready j) (hk : k ≤ ready.length) (t : Task)
    : (a.addWriteTask t).Settled k nr nw (if a.isWritable then ready ++ [j] else ready) j := by
  have hpush : a.Settled k nr nw (if a.isWritable then ready ++ [j] else ready) j := by
    split
    . exact h.push [j]
    . exact h
  refine { hpush with write := ?_ }
  intro hm
  have hlen := (h.write hm).1
  show Queued k nw _ j (a.pendingWriteTask ++ [t]) a.isWritable
  cases a.isWritable with
  | true => exact Queued.append hlen hk [t]
  | false => exact Queued.append_of_not hlen [t]

theorem addNonSubmitWriteTask (h : a.Settled k nr nw ready j) (t : Task)
    : (a.addNonSubmitWriteTask t).Settled k nr nw ready j := { h with }

theorem submit (h : a.Settled k nr nw ready j) (hk : k ≤ ready.length)
    : a.submitted.Settled k nr nw (if a.isReadable ∨ a.isWritable then ready ++ [j] else ready) j := by
  have hm : a.submitted.multishotReadTask = none → a.multishotReadTask = none := by
    simp [EventAction.submitted]
  constructor
  . intro hnone
    have hlen := (h.read (hm hnone)).1
    show Queued k nr _ j (a.pendingReadTask ++ a.nonSubmitReadTask) a.isReadable
    cases a.isReadable with
    | true =>
      simp only [true_or, if_true]
      exact Queued.append hlen hk _
    | false => exact Queued.append_of_not hlen _
  . intro hnone
    have hlen := (h.write (hm hnone)).1
    show Queued k nw _ j (a.pendingWriteTask ++ a.nonSubmitWriteTask) a.isWritable
    cases a.isWritable with
    | true =>
      simp only [or_true, if_true]
      exact Queued.append hlen hk _
    | false => exact Queued.append_of_not hlen _
  . intro hnone hudp
    exact h.ops (hm hnone) hudp
  . intro hudp t ht
    simp only [EventAction.submitted, List.append_nil] at ht
    exact h.bufs hudp t ht

theorem of_multishot {nr' nw' : Nat} (h : a.Settled k nr nw ready j)
    (hm : a.multishotReadTask.isSome)
    : a.Settled k nr' nw' ready j := by
  have hne : a.multishotReadTask ≠ none := by
    intro hnone
    simp [hnone] at hm
  exact { h with read := fun h => absurd h hne, write := fun h => absurd h hne }

theorem new (k j : Nat) (ready : List Nat) (fd : Fd)
    : ((EventAction.blank fd).setFdOps fd.type).Settled k 0 0 ready j := by
  constructor
  . intro _
    rw [setFdOps_pendingReadTask]
    exact Queued.all k j ready [] _
  . intro _
    rw [setFdOps_pendingWriteTask]
    exact Queued.all k j ready [] _
  . intro _ hudp
    rw [setFdOps_fd] at hudp
    have hudp : fd.type = .udp := hudp
    rw [hudp]
    rfl
  . intro _ t ht
    rw [setFdOps_pendingReadTask, setFdOps_nonSubmitReadTask] at ht
    simp [EventAction.blank] at ht

end EventAction.Settled

-- `INT32_MAX` is what `read_udp` returns for a task that has to wait, so it must not be a count.
def Op.collides (op : Op) (before : Epoll) : Bool :=
  match op with
  | .submitAsyncRead fd buf _ _ => before.typeOf fd = .udp && toInt32 buf.iov.length = INT32_MAX
  | _ => false

def Op.Submits (op : Op) : Prop := ¬op.isCancel

namespace Epoll

-- The invariant while the tasks of `id` are carried out. All of the first `n` actions have been made.
structure Ready (n k id nr nw : Nat) (s : Epoll) : Prop where
  wf : s.Wf
  base : n ≤ s.next
  lead : k ≤ s.readyEvents.length
  act : ∀ j, j < s.next → (s.infos j).action.Settled k (if j = id then nr else 0)
    (if j = id then nw else 0) s.readyEvents j

namespace Ready

variable {n k id nr nw : Nat} {s s' : Epoll}

-- The invariant survives if it does at the one action that has changed.
theorem of_single (i : Nat) (h : s.Ready n k id nr nw) (hwf : s'.Wf) (hnext : s.next ≤ s'.next)
    (hready : ∃ xs, s'.readyEvents = s.readyEvents ++ xs)
    (hother : ∀ j, j < s'.next → j ≠ i → j < s.next ∧ (s'.infos j).action = (s.infos j).action)
    (hi : (s'.infos i).action.Settled k (if i = id then nr else 0) (if i = id then nw else 0)
      s'.readyEvents i)
    : s'.Ready n k id nr nw := by
  obtain ⟨xs, hxs⟩ := hready
  constructor
  . exact hwf
  . have := h.base
    omega
  . have := h.lead
    rw [hxs, List.length_append]
    omega
  . intro j hj
    by_cases hji : j = i
    . rw [hji]
      exact hi
    . have ⟨hlt, heq⟩ := hother j hj hji
      rw [heq, hxs]
      exact (h.act j hlt).push xs

-- The action at work may change together with what is left of its tasks.
theorem recount {nr' nw' : Nat} {a : EventAction} (h : s.Ready n k id nr nw)
    (ha : id < s.next → (s.infos id).action.Settled k nr nw s.readyEvents id
      → a.Settled k nr' nw' s.readyEvents id)
    : (s.setAction id a).Ready n k id nr' nw' := by
  constructor
  . exact h.wf.setAction
  . exact h.base
  . exact h.lead
  . intro j hj
    have hact := h.act j hj
    simp only [setAction_def, modifyInfo_infos, modifyInfo_readyEvents]
    split
    next heq =>
      subst heq
      rw [if_pos rfl, if_pos rfl] at hact
      exact ha hj hact
    next hne =>
      rw [if_neg hne, if_neg hne] at hact
      exact hact

theorem relabel {nr' nw' : Nat} (h : s.Ready n k id nr nw)
    (ha : (s.infos id).action.Settled k nr nw s.readyEvents id
      → (s.infos id).action.Settled k nr' nw' s.readyEvents id)
    : s.Ready n k id nr' nw' := by
  refine { h with act := ?_ }
  intro j hj
  have hact := h.act j hj
  by_cases heq : j = id
  . subst heq
    rw [if_pos rfl, if_pos rfl] at hact ⊢
    exact ha hact
  . rw [if_neg heq, if_neg heq] at hact ⊢
    exact hact

-- While nothing is left to a pass it does not matter whose pass it is.
theorem idle {n' id' : Nat} (h : s.Ready n k id 0 0) (hn : n' ≤ s.next) : s.Ready n' k id' 0 0 := by
  refine { h with base := hn, act := ?_ }
  intro j hj
  have := h.act j hj
  rw [ite_self] at this ⊢
  exact this

-- The action at the front of `ready_events_` is taken, its own place there does not count any more.
theorem head {id' : Nat} {ids : List Nat} (h : s.Ready n 0 id 0 0) (hids : s.readyEvents = id' :: ids)
    : s.Ready s.next 1 id' (s.infos id').action.pendingReadTask.length
        (s.infos id').action.pendingWriteTask.length := by
  constructor
  . exact h.wf
  . exact Nat.le_refl _
  . simp [hids]
  . intro j hj
    have hact := h.act j hj
    rw [ite_self] at hact
    by_cases heq : j = id'
    . subst heq
      rw [if_pos rfl, if_pos rfl]
      exact { hact with read := fun _ => Queued.all _ _ _ _ _, write := fun _ => Queued.all _ _ _ _ _ }
    . rw [if_neg heq, if_neg heq]
      rw [hids] at hact ⊢
      have hmem : j ∈ (id' :: ids).drop 0 → j ∈ (id' :: ids).drop 1 := by
        simp [heq]
      exact
        { hact with
          read := fun hm => ⟨Nat.zero_le _, fun hn hf => hmem ((hact.read hm).2 hn hf)⟩
          write := fun hm => ⟨Nat.zero_le _, fun hn hf => hmem ((hact.write hm).2 hn hf)⟩ }

-- The front of `ready_events_` is taken off.
theorem tail (h : s.Ready n 1 id 0 0)
    : { s with readyEvents := s.readyEvents.tail }.Ready 0 0 0 0 0 := by
  constructor
  . exact { h.wf with ready := fun j hj => h.wf.ready j (List.mem_of_mem_tail hj) }
  . exact Nat.zero_le _
  . exact Nat.zero_le _
  . intro j hj
    have hact := h.act j hj
    rw [ite_self] at hact ⊢
    have hmem : j ∈ s.readyEvents.drop 1 → j ∈ s.readyEvents.tail.drop 0 := by
      simp
    exact
      { hact with
        read := fun hm => ⟨Nat.zero_le _, fun hn hf => hmem ((hact.read hm).2 hn hf)⟩
        write := fun hm => ⟨Nat.zero_le _, fun hn hf => hmem ((hact.write hm).2 hn hf)⟩ }

theorem setAction (h : s.Ready n k id nr nw) {i : Nat} {a : EventAction}
    (ha : i < s.next → a.Settled k (if i = id then nr else 0) (if i = id then nw else 0)
      s.readyEvents i)
    : (s.setAction i a).Ready n k id nr nw := by
  constructor
  . exact h.wf.setAction
  . exact h.base
  . exact h.lead
  . intro j hj
    simp only [setAction_def, modifyInfo_infos, modifyInfo_readyEvents]
    split
    next heq =>
      rw [heq] at hj ⊢
      exact ha hj
    . exact h.act j hj

theorem pushReady (h : s.Ready n k id nr nw) {i : Nat} (hi : i < s.next)
    : (s.pushReady i).Ready n k id nr nw := by
  apply h.of_single i (h.wf.pushReady hi) (Nat.le_refl _) ⟨[i], rfl⟩
  . intro j hj _
    exact ⟨hj, rfl⟩
  . exact (h.act i hi).push [i]

theorem of_actions (h : s.Ready n k id nr nw) (hwf : s'.Wf) (hnext : s'.next = s.next)
    (hready : s'.readyEvents = s.readyEvents) (hact : ∀ j, (s'.infos j).action = (s.infos j).action)
    : s'.Ready n k id nr nw := by
  constructor
  . exact hwf
  . rw [hnext]
    exact h.base
  . rw [hready]
    exact h.lead
  . intro j hj
    rw [hnext] at hj
    rw [hact, hready]
    exact h.act j hj

theorem insert (h : s.Ready n k id nr nw) (hid : id < n ∨ (nr = 0 ∧ nw = 0)) {fd : Fd}
    {info : EventInfo} (hinfo : EventInfo.new fd = .ok info)
    : (s.insert fd info).Ready n k id nr nw := by
  apply h.of_single s.next (h.wf.insert hinfo) (Nat.le_succ _) ⟨[], by simp [Epoll.insert]⟩
  . intro j hj hne
    have hj : j < s.next + 1 := hj
    refine ⟨by omega, ?_⟩
    rw [insert_infos, if_neg hne]
  . have hr : (if s.next = id then nr else 0) = 0 := by
      have := h.base
      split
      . omega
      . rfl
    have hw : (if s.next = id then nw else 0) = 0 := by
      have := h.base
      split
      . omega
      . rfl
    rw [insert_infos, if_pos rfl, EventInfo.new_eq_ok hinfo, hr, hw]
    exact EventAction.Settled.new k _ _ fd

theorem update {op : Op} {s₀ : Epoll} (h : s.Ready n k id nr nw)
    (hid : id < n ∨ (nr = 0 ∧ nw = 0)) (hop : op.Submits) (hbuf : op.collides s₀ = false)
    (hs : Update op s₀ s s')
    : s'.Ready n k id nr nw := by
  have hwf := h.wf.update hs
  cases hs with
  | insert fd info hmap hinfo => exact h.insert hid hinfo
  | watch fd i events hi =>
    apply h.of_actions hwf rfl rfl
    intro j
    rw [modifyInfo_infos]
    split
    next heq => simp [heq]
    . rfl
  | enlist fd i hi _ =>
    apply h.of_actions hwf rfl rfl
    intro j
    rw [modifyInfo_infos]
    split
    next heq => simp [heq]
    . rfl
  | quiet fd i a hi ha =>
    apply h.setAction
    intro hlt
    exact (h.act i hlt).quiet ha
  | accept fd hasAddrBuffer cb i hop' hi =>
    apply h.setAction
    intro hlt
    exact { h.act i hlt with }
  | group fd group cb opt i t blocks hop' hi =>
    apply h.setAction
    intro hlt
    exact (h.act i hlt).addMultishotReadTask t blocks
  | buffers buffers => exact h.of_actions hwf rfl rfl (fun _ => rfl)
  | queueRead fd buf cb opt i t isSubmit hop' hi htype ht hbuf' =>
    have hlt := (h.wf.map _ _ hi).1
    have ht : (s.infos i).action.fd.type = .udp → toInt32 t.buffer.length ≠ INT32_MAX := by
      rw [hop'] at hbuf
      rw [hbuf', htype]
      simpa [Op.collides] using hbuf
    apply h.of_single i hwf (by simp)
    . rw [queueRead_readyEvents]
      split
      . exact ⟨[i], rfl⟩
      . exact ⟨[], by simp⟩
    . intro j hj hne
      rw [queueRead_next] at hj
      rw [queueRead_infos, if_neg hne]
      exact ⟨hj, rfl⟩
    . rw [queueRead_infos, if_pos rfl, queueRead_readyEvents]
      cases isSubmit with
      | true => simpa using (h.act i hlt).addReadTask h.lead ht
      | false => simpa using (h.act i hlt).addNonSubmitReadTask ht
  | queueWrite fd buf cb opt i t isSubmit hop' hi ht hbuf' =>
    have hlt := (h.wf.map _ _ hi).1
    apply h.of_single i hwf (by simp)
    . rw [queueWrite_readyEvents]
      split
      . exact ⟨[i], rfl⟩
      . exact ⟨[], by simp⟩
    . intro j hj hne
      rw [queueWrite_next] at hj
      rw [queueWrite_infos, if_neg hne]
      exact ⟨hj, rfl⟩
    . rw [queueWrite_infos, if_pos rfl, queueWrite_readyEvents]
      cases isSubmit with
      | true => simpa using (h.act i hlt).addWriteTask h.lead t
      | false => simpa using (h.act i hlt).addNonSubmitWriteTask t
  | pushReady fd i hi => exact h.pushReady (h.wf.map _ _ hi).1
  | insertNonSubmit fd i hi =>
    unfold Epoll.insertNonSubmit at hwf ⊢
    split
    . exact h
    next hmem =>
      rw [if_neg hmem] at hwf
      exact h.of_actions hwf rfl rfl (fun _ => rfl)
  | submittedOne i hop' hi =>
    have hlt := h.wf.nonSubmit i hi
    apply h.of_single i hwf (by simp)
    . rw [submittedOne_readyEvents]
      split
      . exact ⟨[i], rfl⟩
      . exact ⟨[], by simp⟩
    . intro j hj hne
      rw [submittedOne_next] at hj
      rw [submittedOne_infos, if_neg hne]
      exact ⟨hj, rfl⟩
    . rw [submittedOne_infos, if_pos rfl, submittedOne_readyEvents]
      exact (h.act i hlt).submit h.lead
  | submitted hop' => exact h.of_actions hwf rfl rfl (fun _ => rfl)
  | close fd hop' => exact h.of_actions hwf rfl rfl (fun _ => rfl)
  | «open» fd hop' => exact h.of_actions hwf rfl rfl (fun _ => rfl)
  | clear k' i a hop' hi ha => exact absurd hop' hop

theorem updates {op : Op} {s₀ : Epoll} (h : s.Ready n k id nr nw)
    (hid : id < n ∨ (nr = 0 ∧ nw = 0)) (hop : op.Submits) (hbuf : op.collides s₀ = false)
    (hs : Updates op s₀ s s')
    : s'.Ready n k id nr nw := by
  induction hs with
  | refl => exact h
  | tail _ hs ih => exact ih.update hid hop hbuf hs

end Ready

end Epoll

def Entry.collides : Entry → Bool
  | .call op before => op.collides before
  | _ => false

def Entry.NoCollision (e : Entry) : Prop := e.collides = false

instance : DecidablePred Entry.NoCollision := fun e => inferInstanceAs (Decidable (e.collides = false))

-- The property of the `World` that the parts of `handle_events` preserve.
def World.Ready (n k id nr nw : Nat) (w : World) : Prop :=
  w.All Entry.NoCollision → w.poll.Ready n k id nr nw

theorem World.Ready.ioFrame {n k id nr nw i : Nat} {K : Entry → Prop}
    (hid : id < n ∨ (nr = 0 ∧ nw = 0))
    : IoFrame i K Op.Submits (World.Ready n k id nr nw) := by
  constructor
  . intro op hop
    apply exec_triple
    . intro w r s hw h hlog
      have hbuf : op.collides w.poll = false := hlog (.call op w.poll) (by simp [World.addLog])
      exact (hw (World.All.of_append hlog)).updates hid hop hbuf (Epoll.exec_updates h)
    . intro w f hw _ hlog
      exact hw (World.All.of_append hlog)
  . intro w sys user log _ hw hlog
    exact hw (World.All.of_append hlog)
  . intro w a ha _ hw hlog
    apply (hw hlog).setAction
    intro hlt
    exact ((hw hlog).act i hlt).touch ha

theorem World.Ready.frame {n k id nr nw i : Nat} (hid : id < n ∨ (nr = 0 ∧ nw = 0))
    : Frame i Op.Submits (World.Ready n k id nr nw) := by
  refine ⟨World.Ready.ioFrame hid, ?_⟩
  intro w group f hw hlog
  have h := hw hlog
  exact h.of_actions { h.wf with } rfl rfl (fun _ => rfl)

theorem World.Ready.sendFrame {n k id nr nw i : Nat} (hid : id < n ∨ (nr = 0 ∧ nw = 0))
    : SendFrame i Op.Submits (World.Ready n k id nr nw) := by
  refine ⟨World.Ready.ioFrame hid, ?_⟩
  intro w offset hw hlog
  apply (hw hlog).setAction
  intro hlt
  exact ((hw hlog).act i hlt).touch ⟨_, _, _, _, _, fun h => h, rfl⟩

end Event
end Ezio
