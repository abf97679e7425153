import Ezio.Event.FdIo.UdpWrite
import Ezio.Event.Epoll.Lemmas.Observe
import Ezio.Event.IoUring.Lemmas.Batch

/-!
This module contains the datagrams that both backends hand to the kernel for a write to a UDP socket.
-/

namespace Ezio
namespace Event

open EStateM (Preserves Triple get_bind_apply modify_bind_apply bind_apply)

-- A `sendmmsg` hands over the messages that it counts.
def Entry.datagrams (mem : Nat → UInt8) (peer : Option Nat) : Entry → List Datagram
  | .sent _ _ sockaddr offered n => (offered.take n).map fun v => .of mem peer [v] sockaddr
  | _ => []

def World.datagrams (w : World) (mem : Nat → UInt8) (peer : Option Nat) : List Datagram :=
  w.log.flatMap (Entry.datagrams mem peer)

-- Nothing is waiting to be written and nothing is there to be read.
structure EventAction.Idle (a : EventAction) : Prop where
  write : a.writeOp = some .udp
  pendingWriteTask : a.pendingWriteTask = []
  nonSubmitWriteTask : a.nonSubmitWriteTask = []
  writeOffset : a.writeOffset = none
  isReadable : a.isReadable = false

-- The file has no `event_info` yet or is idle.
def Epoll.Idle (s : Epoll) (fd : Fd) : Prop :=
  s.isInited ∧ ∀ id, s.fdToEventInfo fd.key = some id → (s.action id).Idle

-- The file becomes writable, and the kernel accepts every message.
def becomeWritable (fd : Fd) (buf : UserBuf) : EventM Unit := do
  modify fun w => { w with sys := FdIo.Udp.acceptAll buf.iov }
  let w ← get
  match w.poll.fdToEventInfo fd.key with
  | none => pure ()
  | some id => setReadyEvents id { read := false, write := true, et := false }

-- A write, with the call of `submit` that a deferred one waits for.
def sendUdp (fd : Fd) (buf : UserBuf) (cb : Callback) (opt : WriteOptions) : EventM Unit := do
  exec (.submitAsyncWrite fd buf (some cb) (some opt))
  exec .submit
  becomeWritable fd buf

-- The only task of the action that is to be written.
structure EventAction.Queued (a : EventAction) (cb : Callback) (t : Task) : Prop where
  write : a.writeOp = some .udp
  writeCallback : a.writeCallback = some cb
  tasks : a.pendingWriteTask ++ a.nonSubmitWriteTask = [t]
  writeOffset : a.writeOffset = none
  isReadable : a.isReadable = false

theorem EventAction.Queued.submit {a : EventAction} {cb : Callback} {t : Task} (h : a.Queued cb t)
    : a.submitted.Queued cb t ∧ a.submitted.pendingWriteTask = [t] := by
  refine ⟨⟨h.write, h.writeCallback, ?_, h.writeOffset, h.isReadable⟩, h.tasks⟩
  unfold EventAction.submitted
  rw [List.append_nil]
  exact h.tasks

theorem EventAction.Idle.queued {a : EventAction} {cb : Callback} (h : a.Idle)
    (hcb : a.writeCallback = some cb) (t : Task)
    : (a.addWriteTask t).Queued cb t ∧ (a.addWriteTask t).pendingWriteTask = [t]
        ∧ (a.addNonSubmitWriteTask t).Queued cb t := by
  have htask : a.pendingWriteTask ++ [t] = [t] := by rw [h.pendingWriteTask, List.nil_append]
  have htask' : a.nonSubmitWriteTask ++ [t] = [t] := by rw [h.nonSubmitWriteTask, List.nil_append]
  refine ⟨⟨h.write, hcb, ?_, h.writeOffset, h.isReadable⟩, htask,
    ⟨h.write, hcb, ?_, h.writeOffset, h.isReadable⟩⟩
  . unfold EventAction.addWriteTask
    rw [htask, h.nonSubmitWriteTask, List.append_nil]
  . unfold EventAction.addNonSubmitWriteTask
    rw [htask', h.pendingWriteTask, List.nil_append]

namespace Epoll

variable {s s' : Epoll} {fd : Fd} {buf : UserBuf} {cb : Callback} {opt : WriteOptions}

theorem Idle.findOrInsert {id : Nat} (h : s.Idle fd) (hudp : fd.type = .udp)
    (hfind : s.findOrInsert fd = .ok (id, s'))
    : (s'.action id).Idle := by
  rcases findOrInsert_cases hfind with ⟨hmap, rfl⟩ | ⟨_, rfl, info, hinfo, rfl⟩
  . exact h.2 id hmap
  . have haction : info.action = EventAction.setFdOps (EventAction.blank fd) fd.type := by
      rw [EventInfo.new_eq_ok hinfo]
    have hidle : (EventAction.setFdOps (EventAction.blank fd) fd.type).Idle := by
      rw [hudp]
      exact ⟨rfl, rfl, rfl, rfl, rfl⟩
    rw [action_def, insert_infos, if_pos rfl, haction]
    exact hidle

theorem prepareWrite_action (s : Epoll) (id : Nat) (hoffset : opt.offset = none)
    : (s.prepareWrite fd id (some cb) (some opt)).action id
        = (s.action id).setWriteCallback cb := by
  unfold prepareWrite setWriteCb setWriteOffset
  rw [Option.bind_some, hoffset]
  dsimp only
  split
  . simp [action_def]
  . simp [action_def]

structure Queues (s : Epoll) (fd : Fd) (cb : Callback) (t : Task) (id : Nat) : Prop where
  map : s.fdToEventInfo fd.key = some id
  queued : (s.action id).Queued cb t

theorem queueWrite_queues {id : Nat} (cb : Callback) (t : Task) (isSubmit : Bool)
    (hmap : s.fdToEventInfo fd.key = some id) (hidle : (s.action id).Idle)
    (hcb : (s.action id).writeCallback = some cb)
    : (s.queueWrite id t isSubmit).Queues fd cb t id
        ∧ (((s.queueWrite id t isSubmit).action id).pendingWriteTask = [t]
          ∨ id ∈ (s.queueWrite id t isSubmit).nonSubmitEvents) := by
  have haction : (s.queueWrite id t isSubmit).action id
      = if isSubmit then (s.action id).addWriteTask t else (s.action id).addNonSubmitWriteTask t := by
    rw [action_def, queueWrite_infos, if_pos rfl]
    rfl
  obtain ⟨hnow, hpending, hlater⟩ := hidle.queued hcb t
  cases isSubmit with
  | true =>
    rw [if_pos rfl] at haction
    rw [← haction] at hnow hpending
    exact ⟨⟨by simpa using hmap, hnow⟩, .inl hpending⟩
  | false =>
    rw [if_neg (by decide)] at haction
    rw [← haction] at hlater
    refine ⟨⟨by simpa using hmap, hlater⟩, .inr ?_⟩
    unfold queueWrite insertNonSubmit
    rw [if_neg (by decide)]
    split
    . assumption
    . simp

theorem Idle.submitAsyncWrite (h : s.Idle fd) (cb : Callback) (hudp : fd.type = .udp) (hfd : 0 ≤ fd.num)
    (hbuf : buf.isNull → buf.iov = []) (hoffset : opt.offset = none)
    : ∃ s' id t, s.submitAsyncWrite fd buf (some cb) (some opt) = .ok (0, s')
        ∧ t.buffer = buf.iov ∧ t.sockaddr = opt.sockaddr ∧ s'.Queues fd cb t id
        ∧ ((s'.action id).pendingWriteTask = [t] ∨ id ∈ s'.nonSubmitEvents) := by
  obtain ⟨⟨id, s₁⟩, hfind⟩ : ∃ p, s.findOrInsert fd = .ok p := by
    unfold Epoll.findOrInsert EventInfo.new EventAction.new
    cases s.fdToEventInfo fd.key with
    | some id => exact ⟨_, rfl⟩
    | none =>
      rw [hudp]
      exact ⟨_, rfl⟩
  have hidle := h.findOrInsert hudp hfind
  have haction : (s₁.prepareWrite fd id (some cb) (some opt)).action id = (s₁.action id).setWriteCallback cb :=
    prepareWrite_action s₁ id hoffset
  have hwrite : ((s₁.prepareWrite fd id (some cb) (some opt)).action id).Idle := by
    rw [haction]
    exact ⟨hidle.write, hidle.pendingWriteTask, hidle.nonSubmitWriteTask, hidle.writeOffset,
      hidle.isReadable⟩
  let t : Task :=
    { id := (s₁.prepareWrite fd id (some cb) (some opt)).nextTask, buffer := buf.iov,
      sockaddr := opt.sockaddr, needSockDetail := false }
  refine ⟨_, id, t, ?_, rfl, rfl, queueWrite_queues cb t opt.isSubmit ?_ hwrite ?_⟩
  . unfold Epoll.submitAsyncWrite
    rw [if_neg, hfind]
    . dsimp only
      rw [if_pos hudp]
      rfl
    . cases hnull : buf.isNull with
      | false => simp [h.1, hfd]
      | true => simp [h.1, hfd, hbuf hnull]
  . simpa using findOrInsert_map hfind
  . rw [haction]
    rfl

-- A deferred write is the only one of its file.
theorem submitAsyncWrite_countable (h : s.Idle fd) {r : Int} (hcount : ∀ id, (s.action id).Countable)
    (hcall : s.submitAsyncWrite fd buf (some cb) (some opt) = .ok (r, s')) (id : Nat) : (s'.action id).Countable := by
  unfold Epoll.submitAsyncWrite at hcall
  split at hcall
  . cases hcall
    exact hcount id
  . obtain ⟨⟨j, s₁⟩, hfind, hcall⟩ := Except.bind_eq_ok hcall
    cases hcall
    have hwrites : (s₁.action j).deferredTask false = [] := by
      rw [findOrInsert_deferredTask hfind]
      split
      . rfl
      next hold =>
        rcases findOrInsert_cases hfind with ⟨hmap, _⟩ | ⟨hmap, heq, _⟩
        . exact (h.2 j hmap).nonSubmitWriteTask
        . exact absurd ⟨hmap, heq⟩ hold
    have hold : ((s₁.action id).deferredTask false).length < 2 ^ 32
      ∧ ((s₁.action id).deferredTask true).length < 2 ^ 32 := by
      rw [findOrInsert_deferredTask hfind, findOrInsert_deferredTask hfind]
      split
      . exact ⟨Nat.two_pow_pos 32, Nat.two_pow_pos 32⟩
      . exact (hcount id).symm
    rw [EventAction.countable_iff]
    intro isRead
    rw [queueWrite_deferredTask, prepareWrite_deferredTask]
    split
    next hnew =>
      rw [hnew.1, hnew.2.2, hwrites]
      exact Nat.one_lt_two_pow (by decide)
    . rw [List.append_nil]
      cases isRead with
      | false => exact hold.1
      | true => exact hold.2

theorem Queues.submittedOne {id : Nat} {t : Task} (h : s.Queues fd cb t id) (j : Nat)
    : (s.submittedOne j).Queues fd cb t id
        ∧ ((s.action id).pendingWriteTask = [t] ∨ j = id
          → ((s.submittedOne j).action id).pendingWriteTask = [t]) := by
  obtain ⟨hqueued, hpending⟩ := h.queued.submit
  by_cases hj : id = j
  . have haction : (s.submittedOne j).action id = (s.action id).submitted := by
      rw [action_def, submittedOne_infos, if_pos hj, ← hj]
      rfl
    rw [← haction] at hqueued hpending
    exact ⟨⟨by simpa using h.map, hqueued⟩, fun _ => hpending⟩
  . have haction : (s.submittedOne j).action id = s.action id := by
      rw [action_def, submittedOne_infos, if_neg hj]
      rfl
    refine ⟨⟨by simpa using h.map, ?_⟩, ?_⟩
    . rw [haction]
      exact h.queued
    . rw [haction]
      rintro (hold | heq)
      . exact hold
      . exact absurd heq.symm hj

theorem Queues.foldl_submittedOne {id : Nat} {t : Task} (h : s.Queues fd cb t id) {ids : List Nat}
    (hpending : (s.action id).pendingWriteTask = [t] ∨ id ∈ ids)
    : (ids.foldl Epoll.submittedOne s).Queues fd cb t id
        ∧ ((ids.foldl Epoll.submittedOne s).action id).pendingWriteTask = [t] := by
  induction ids generalizing s with
  | nil => exact ⟨h, hpending.resolve_right (List.not_mem_nil)⟩
  | cons j ids ih =>
    obtain ⟨hone, hmoves⟩ := h.submittedOne j
    apply ih hone
    rw [List.mem_cons] at hpending
    rcases hpending with hold | rfl | hmem
    . exact .inl (hmoves (.inl hold))
    . exact .inl (hmoves (.inr rfl))
    . exact .inr hmem

theorem Queues.submitted {id : Nat} {t : Task} (h : s.Queues fd cb t id)
    (hpending : (s.action id).pendingWriteTask = [t] ∨ id ∈ s.nonSubmitEvents)
    : s.submitted.2.Queues fd cb t id ∧ (s.submitted.2.action id).pendingWriteTask = [t] := by
  unfold Epoll.submitted
  split
  . next hnone =>
    rw [hnone] at hpending
    exact ⟨h, hpending.resolve_right (List.not_mem_nil)⟩
  . obtain ⟨hqueues, htask⟩ := h.foldl_submittedOne hpending
    exact ⟨⟨hqueues.map, hqueues.queued⟩, htask⟩

theorem Idle.submitted (h : s.Idle fd) : s.submitted.2.Idle fd := by
  have hone : ∀ (s : Epoll) (j : Nat), s.Idle fd → (s.submittedOne j).Idle fd := by
    intro s j h
    refine ⟨by rw [submittedOne_isInited]; exact h.1, ?_⟩
    intro id hmap
    rw [submittedOne_fdToEventInfo] at hmap
    have hidle := h.2 id hmap
    rw [action_def, submittedOne_infos]
    split
    . next heq =>
      rw [← heq]
      refine ⟨hidle.write, ?_, rfl, hidle.writeOffset, hidle.isReadable⟩
      unfold EventAction.submitted
      rw [← action_def, hidle.pendingWriteTask, hidle.nonSubmitWriteTask]
      rfl
    . exact hidle
  unfold Epoll.submitted
  split
  . exact h
  . have hfold := foldl_invariant (I := fun s => s.Idle fd) s.nonSubmitEvents (fun s j _ h => hone s j h) h
    exact ⟨hfold.1, hfold.2⟩

end Epoll

section Datagrams

variable {mem : Nat → UInt8} {peer : Option Nat} {ds : List Datagram} {fd : Fd} {buf : UserBuf} {cb : Callback}
  {opt : WriteOptions} {id : Nat} {t : Task}

abbrev HasSent (mem : Nat → UInt8) (peer : Option Nat) : List Datagram → World → Prop :=
  Observes (Entry.datagrams mem peer)

theorem datagrams_observation (mem : Nat → UInt8) (peer : Option Nat) : Observation (Entry.datagrams mem peer) :=
  ⟨fun _ _ => rfl, fun _ _ _ _ _ _ => rfl⟩

theorem writeCallback_hasSent (id task : Nat) (ret : Int)
    : Preserves (HasSent mem peer ds) (writeCallback id task ret) := by
  apply Preserves.get_bind
  intro w _
  split
  . exact Preserves.throw _
  . apply Preserves.modify_bind
    . intro w hw
      exact hw.silent rfl (by simp [Entry.datagrams])
    . exact script_observes (datagrams_observation mem peer) _

-- The datagrams of a task, one for each entry of its array.
def Task.datagrams (mem : Nat → UInt8) (peer : Option Nat) (t : Task) : List Datagram :=
  t.buffer.map fun v => .of mem peer [v] t.sockaddr

-- The file has the task to write, and the kernel is going to accept all of its messages.
structure Ready (mem : Nat → UInt8) (peer : Option Nat) (ds : List Datagram) (cb : Callback) (t : Task) (id : Nat)
    (w : World) : Prop where
  queued : (w.action id).Queued cb t
  sys : w.sys = FdIo.Udp.acceptAll t.buffer
  sent : HasSent mem peer ds w

theorem transfer_sends
    : Triple (Ready mem peer ds cb t id) (doWriteTask.transfer id t)
        (fun _ => HasSent mem peer (ds ++ t.datagrams mem peer))
        (fun _ => HasSent mem peer (ds ++ t.datagrams mem peer)) := by
  apply Triple.get_bind
  intro w hw
  obtain ⟨ret, hwrite⟩ := FdIo.Udp.writeFd_acceptAll t.buffer []
  rw [List.append_nil, ← hw.sys] at hwrite
  apply Triple.bind (Q := fun r w' =>
    r = ⟨ret, false, t.buffer, FdIo.Udp.batches t.buffer 0 (FdIo.Udp.batchCnt t.buffer)⟩
    ∧ HasSent mem peer ds w')
  . rintro _ rfl
    unfold liftIo writeIov
    rw [hw.queued.write]
    dsimp only
    rw [hwrite]
    exact ⟨rfl, hw.sent.of_log rfl⟩
  . intro r
    apply Triple.modify_bind (T := fun w' => r.flag = false ∧ HasSent mem peer (ds ++ t.datagrams mem peer) w')
    . rintro w' ⟨rfl, hsent⟩
      refine ⟨rfl, ?_⟩
      have hmessages : (FdIo.Udp.batches t.buffer 0 (FdIo.Udp.batchCnt t.buffer)).flatMap
          (fun b => (b.1.take b.2).map fun v => Datagram.of mem peer [v] t.sockaddr) = t.datagrams mem peer := by
        rw [← List.map_flatMap, FdIo.Udp.batches_messages]
        rfl
      have hsent := hsent.addLog ((FdIo.Udp.batches t.buffer 0 (FdIo.Udp.batchCnt t.buffer)).map fun m =>
        .sent id t.id t.sockaddr m.1 m.2)
      rw [List.flatMap_map] at hsent
      rw [← hmessages]
      exact hsent
    . apply Triple.modify_bind (T := fun w' => r.flag = false ∧ HasSent mem peer (ds ++ t.datagrams mem peer) w')
      . intro w' hw'
        exact ⟨hw'.1, hw'.2.of_log rfl⟩
      . apply Triple.of_states
        rintro w' ⟨hflag, hsent⟩
        rw [if_neg (by simp [hflag])]
        apply Triple.bind ((writeCallback_hasSent _ _ _).at_state hsent)
        intro _
        exact Triple.pure fun _ h => h

theorem doWriteTask_sends
    : Triple (Ready mem peer ds cb t id) (doWriteTask id t)
        (fun _ => HasSent mem peer (ds ++ t.datagrams mem peer))
        (fun _ => HasSent mem peer (ds ++ t.datagrams mem peer)) := by
  apply Triple.get_bind
  intro w hw
  by_cases hnil : t.buffer = []
  . rw [if_pos hnil]
    have hsent := hw.sent
    rw [show ds = ds ++ t.datagrams mem peer by simp [Task.datagrams, hnil]] at hsent
    apply Triple.bind ((writeCallback_hasSent _ _ _).at_state hsent)
    intro _
    exact Triple.pure fun _ h => h
  . rw [if_neg hnil, hw.queued.writeOffset]
    exact transfer_sends.at_state hw

theorem popWriteTask_hasSent (id : Nat) : Preserves (HasSent mem peer ds) (popWriteTask id) := by
  apply Preserves.get_bind
  intro w _
  split
  . exact Preserves.throw _
  . exact Preserves.modify fun w hw => hw.of_log rfl

theorem writePass_sends
    : Triple (fun w => Ready mem peer ds cb t id w ∧ (w.action id).pendingWriteTask = [t]) (writePass id)
        (fun _ => HasSent mem peer (ds ++ t.datagrams mem peer))
        (fun _ => HasSent mem peer (ds ++ t.datagrams mem peer)) := by
  apply Triple.get_bind
  rintro w ⟨hw, htask⟩
  have hready : Ready mem peer ds cb t id (w.addLog [.writePass id w.poll w.sys w.user]) :=
    ⟨hw.queued, hw.sys, hw.sent.silent rfl (by simp [Entry.datagrams])⟩
  rw [htask]
  apply Triple.modify_bind (T := (· = w.addLog [.writePass id w.poll w.sys w.user]))
  . rintro _ rfl
    rfl
  . apply Triple.get_bind
    rintro _ rfl
    have hfront : ((w.addLog [.writePass id w.poll w.sys w.user]).action id).pendingWriteTask = [t] := htask
    rw [hfront]
    apply Triple.bind (doWriteTask_sends.at_state hready)
    intro again
    apply Preserves.modify_bind
    . intro w hw
      exact hw.of_log rfl
    . apply Preserves.bind (popWriteTask_hasSent id)
      intro _
      exact Preserves.pure _

theorem handleEvents_of_not_readable {w : World} (isEventTriggered : Bool) (h : (w.action id).isReadable = false)
    : handleEvents id isEventTriggered w = handleWrite id w := by
  have hheld : (w.action id).isHeld = false := by
    unfold EventAction.isHeld
    rw [h, Bool.false_and]
  have hread : handleRead id isEventTriggered w = .ok () w := by
    unfold handleRead
    rw [get_bind_apply, h]
    rfl
  unfold handleEvents
  rw [get_bind_apply, hheld, if_neg (by decide), bind_apply, hread]

-- The file becomes writable while nothing is there to be read.
theorem setReadyEvents_writable {w : World} (h : (w.action id).isReadable = false)
    : setReadyEvents id { read := false, write := true, et := false } w
        = handleWrite id (w.modifyAction id fun a => { a with isWritable := true }) := by
  have haction : (fun a : EventAction =>
      { a with isReadable := a.isReadable || false, isWritable := a.isWritable || true })
      = fun a => { a with isWritable := true } := by
    funext a
    rw [Bool.or_false, Bool.or_true]
  unfold setReadyEvents modifyAction
  rw [modify_bind_apply]
  dsimp only
  rw [haction, handleEvents_of_not_readable]
  simpa using h

theorem modifyAction_action (w : World) (id : Nat) (f : EventAction → EventAction)
    : (w.modifyAction id f).action id = f (w.action id) := by
  simp

theorem setReadyEvents_sends {w : World} (hw : Ready mem peer ds cb t id w)
    (htask : (w.action id).pendingWriteTask = [t])
    : HasSent mem peer (ds ++ t.datagrams mem peer)
        (setReadyEvents id { read := false, write := true, et := false } w).state := by
  have hq := hw.queued
  rw [setReadyEvents_writable hq.isReadable]
  generalize hw' : (w.modifyAction id fun a => { a with isWritable := true }) = w'
  have haction : w'.action id = { w.action id with isWritable := true } := by
    rw [← hw', modifyAction_action]
  have hready : Ready mem peer ds cb t id w' := by
    refine ⟨?_, by rw [← hw']; exact hw.sys, hw.sent.of_log (by rw [← hw']; rfl)⟩
    rw [haction]
    exact ⟨hq.write, hq.writeCallback, hq.tasks, hq.writeOffset, hq.isReadable⟩
  have htask' : (w'.action id).pendingWriteTask = [t] := by
    rw [haction]
    exact htask
  unfold handleWrite
  rw [get_bind_apply, if_pos]
  . have hpass := writePass_sends w' ⟨hready, htask'⟩
    cases hrun : writePass id w' with
    | ok a w'' =>
      rw [hrun] at hpass
      exact hpass
    | error e w'' =>
      rw [hrun] at hpass
      exact hpass
  . rw [htask', haction]
    rfl

-- A file that is idle stays so, nothing is written.
theorem setReadyEvents_hasSent {w : World} (h : (w.action id).Idle) (hsent : HasSent mem peer ds w)
    : HasSent mem peer ds (setReadyEvents id { read := false, write := true, et := false } w).state := by
  rw [setReadyEvents_writable h.isReadable]
  have hnone : ((w.modifyAction id fun a => { a with isWritable := true }).action id).pendingWriteTask = [] := by
    rw [modifyAction_action]
    exact h.pendingWriteTask
  unfold handleWrite
  rw [get_bind_apply, hnone, if_neg (by simp)]
  exact hsent.of_log rfl

theorem exec_ok {op : Op} {w : World} {r : Int} {s : Epoll} (h : w.poll.exec op = .ok (r, s))
    : exec op w = .ok () { w.addLog [.call op w.poll] with poll := s } := by
  unfold exec
  dsimp only
  rw [h]

theorem becomeWritable_eq (w : World)
    : becomeWritable fd buf w = match w.poll.fdToEventInfo fd.key with
        | none => .ok () { w with sys := FdIo.Udp.acceptAll buf.iov }
        | some id => setReadyEvents id { read := false, write := true, et := false }
            { w with sys := FdIo.Udp.acceptAll buf.iov } := by
  unfold becomeWritable
  rw [modify_bind_apply, get_bind_apply]
  dsimp only
  cases w.poll.fdToEventInfo fd.key with
  | none => rfl
  | some id => rfl

-- The calls hand nothing over yet.
theorem sendUdp_eq {w : World} {r : Int} {s : Epoll}
    (hidle : w.poll.Idle fd) (hcount : ∀ id, (w.poll.action id).Countable)
    (h : w.poll.submitAsyncWrite fd buf (some cb) (some opt) = .ok (r, s))
    : ∃ w', sendUdp fd buf cb opt w = becomeWritable fd buf w' ∧ w'.poll = s.submitted.2
        ∧ ∀ mem peer, HasSent mem peer (w.datagrams mem peer) w' := by
  let op : Op := .submitAsyncWrite fd buf (some cb) (some opt)
  have hcall : w.poll.exec op = .ok (r, s) := h
  let w₁ : World := { w.addLog [.call op w.poll] with poll := s }
  have hsubmit : w₁.poll.exec .submit = .ok s.submitted :=
    Epoll.submit_of_countable fun id _ => Epoll.submitAsyncWrite_countable hidle hcount h id
  refine ⟨{ w₁.addLog [.call .submit w₁.poll] with poll := s.submitted.2 }, ?_, rfl, ?_⟩
  . unfold sendUdp
    rw [bind_apply, exec_ok hcall]
    dsimp only
    rw [bind_apply, exec_ok hsubmit]
    rfl
  . intro mem peer
    apply Observes.silent (w := w₁) _ rfl (by simp [Entry.datagrams])
    exact Observes.silent (w := w) rfl rfl (by simp [Entry.datagrams])

-- Each entry of the array is a datagram of its own, and it goes to the address that the options name.
theorem sendUdp_datagrams {w : World} (hidle : w.poll.Idle fd) (hcount : ∀ id, (w.poll.action id).Countable)
    (hudp : fd.type = .udp) (hfd : 0 ≤ fd.num) (hoffset : opt.offset = none)
    : (sendUdp fd buf cb opt w).state.datagrams mem peer
        =
      w.datagrams mem peer
        ++ if buf.isNull then [] else buf.iov.map fun v => Datagram.of mem peer [v] opt.sockaddr := by
  by_cases hreject : buf.isNull ∧ buf.iov ≠ []
  . have hcall : w.poll.submitAsyncWrite fd buf (some cb) (some opt) = .ok (-1, w.poll) := by
      unfold Epoll.submitAsyncWrite
      rw [if_pos (by simp [hreject.1, hreject.2])]
    obtain ⟨w', heq, hpoll, hsent⟩ := sendUdp_eq hidle hcount hcall
    have hsent := hsent mem peer
    have hidle' := hidle.submitted
    rw [← hpoll] at hidle'
    rw [heq, becomeWritable_eq, if_pos hreject.1, List.append_nil]
    split
    . exact hsent.of_log rfl
    . next id hmap => exact setReadyEvents_hasSent (hidle'.2 id hmap) (hsent.of_log rfl)
  . have hbuf : buf.isNull → buf.iov = [] := by
      intro hnull
      by_contra hne
      exact hreject ⟨hnull, hne⟩
    obtain ⟨s, id, t, hcall, hbuffer, hsockaddr, hqueues, hpending⟩ :=
      hidle.submitAsyncWrite cb hudp hfd hbuf hoffset
    obtain ⟨w', heq, hpoll, hsent⟩ := sendUdp_eq hidle hcount hcall
    have hsent := hsent mem peer
    obtain ⟨hsubmitted, htask⟩ := hqueues.submitted hpending
    rw [← hpoll] at hsubmitted htask
    have hready : Ready mem peer (w.datagrams mem peer) cb t id { w' with sys := FdIo.Udp.acceptAll buf.iov } :=
      ⟨hsubmitted.queued, by rw [hbuffer], hsent.of_log rfl⟩
    have hdatagrams : t.datagrams mem peer
        = if buf.isNull then [] else buf.iov.map fun v => Datagram.of mem peer [v] opt.sockaddr := by
      unfold Task.datagrams
      rw [hbuffer, hsockaddr]
      split
      . next hnull => rw [hbuf hnull, List.map_nil]
      . rfl
    rw [heq, becomeWritable_eq, hsubmitted.map, ← hdatagrams]
    exact setReadyEvents_sends hready htask

end Datagrams

namespace Uring

-- A `sendmsg` is a single message. `msg_name` is never set.
def Executed.datagrams (mem : Nat → UInt8) (peer : Option Nat) (e : Executed) : List Datagram :=
  match e.sqe.opcode with
  | .sendmsg => [.of mem peer e.msg.iovecs none]
  | _ => []

namespace IoUring

variable {k head : Nat} {queue : List Sqe} {s : IoUring}

theorem submit_calls (s : IoUring) (calls : Nat)
    : { s with calls }.submit.2.ring = s.submit.2.ring := by
  unfold IoUring.submit
  dsimp only
  split
  . rfl
  . rfl

theorem submitRing_submit {s : IoUring} (h : s.isInited) : s.submitRing = s.submit := by
  unfold IoUring.submit
  rw [if_pos h]

-- An entry that is filled in is executed, whether the operation submits it or the call of `submit` that follows.
theorem prepared_sent {s₁ : IoUring} (isSubmit : Bool) (hqueue : Queue k s₁.ring.sq head queue 0)
    (hinited : s₁.isInited)
    (hall : ∀ p ∈ (if isSubmit then s₁.submitRing.2 else s₁).submit.2.ring.asked, p.2 = p.1)
    : (if isSubmit then s₁.submitRing.2 else s₁).submit.2.ring.executed
        = s₁.ring.executed ++ queue.map (Wrapper.execute s₁.msghdrs) := by
  cases isSubmit with
  | false =>
    rw [if_neg (by decide)] at hall ⊢
    exact (submit_all hqueue hinited hall).1
  | true =>
    rw [if_pos rfl, submitRing_submit hinited] at hall ⊢
    have hfirst : ∀ p ∈ s₁.submit.2.ring.asked, p.2 = p.1 :=
      fun p hp => hall p ((submit_asked _).subset hp)
    obtain ⟨hexecuted, hinited', head', hempty⟩ := submit_all hqueue hinited hfirst
    rw [(submit_all hempty hinited' hall).1, hexecuted, List.map_nil, List.append_nil]

variable {lag : Nat} {fd : Fd} {buffer : Option IovPtr} {cnt : Nat} {cb : Option Callback} {opt : Option WriteOptions}
  {mem : Nat → UInt8} {peer : Option Nat}

theorem submitAsyncWrite_eq (hinited : s.isInited) (hfd : 0 ≤ fd.num) (hbuffer : buffer = none → cnt = 0)
    : s.submitAsyncWrite fd buffer cnt cb opt
        = s.withSqe (opt.all (·.isSubmit)) (fillWrite fd buffer cnt cb opt) := by
  unfold submitAsyncWrite
  rw [if_neg]
  cases buffer with
  | none => simp [hinited, hfd, hbuffer rfl]
  | some buf => simp [hinited, hfd]

-- The datagrams of a write that finds room in the ring: one with the bytes of all entries of the array.
theorem submitAsyncWrite_datagrams (hheap : Heap (fun _ _ _ => True) s)
    (hqueue : Queue k s.ring.sq head queue lag) (hbehind : Behind s.ring.asked lag) (hinited : s.isInited)
    (hfd : 0 ≤ fd.num) (hstream : isStream fd) (hbuffer : buffer = none → cnt = 0) (hroom : queue.length < 2 ^ k)
    (hall : ∀ p ∈ (s.exec (.submitAsyncWrite fd buffer cnt cb opt)).2.submit.2.ring.asked, p.2 = p.1)
    : ((s.exec (.submitAsyncWrite fd buffer cnt cb opt)).2.submit.2.ring.executed.drop
          (s.ring.executed.length + queue.length)).flatMap (Executed.datagrams mem peer)
        =
      buffer.toList.map fun buf => .of mem peer (buf.iov.take cnt) none := by
  obtain ⟨slot, sq, hlast, heq⟩ :=
    withSqe_room hqueue hroom (opt.all (·.isSubmit)) (fillWrite fd buffer cnt cb opt)
  generalize hs₀ : ({ s with ring := { s.ring with sq } } : IoUring) = s₀ at heq
  have hheap₀ : Heap (fun _ _ _ => True) s₀ := by
    rw [← hs₀]
    exact hheap.same ⟨rfl, rfl, rfl, rfl⟩
  have hcarries : Carries fd .write s₀ slot (buffer.map fun buf => ⟨some buf, cnt⟩)
      (fillWrite fd buffer cnt cb opt s₀ slot) := fillWrite_carries slot hheap₀ hstream
  obtain ⟨_, hinited₁, _⟩ := (fillWrite_fills fd buffer cnt cb opt).fillsSlot s₀ slot
  generalize fillWrite fd buffer cnt cb opt s₀ slot = s₁ at heq hcarries hinited₁
  obtain ⟨⟨f, hring, hfill⟩, _, hsets, _⟩ := hcarries
  have hring₁ : s₁.ring = { s.ring with sq := sq.modify slot f } := by
    rw [hring, ← hs₀]
    rfl
  have hrun : (s.exec (.submitAsyncWrite fd buffer cnt cb opt)).2.submit.2.ring
      = (if opt.all (·.isSubmit) then s₁.submitRing.2 else s₁).submit.2.ring := by
    unfold exec run
    dsimp only
    rw [submitAsyncWrite_eq hinited hfd hbuffer, heq, submit_calls]
    split
    . rfl
    . rfl
  rw [hrun] at hall ⊢
  have hasked : s.ring.asked <+: (if opt.all (·.isSubmit) then s₁.submitRing.2 else s₁).submit.2.ring.asked := by
    have hsame : s.ring.asked = s₁.ring.asked := by rw [hring₁]
    rw [hsame]
    split
    . rw [submitRing_submit (hinited₁.trans (by rw [← hs₀]; exact hinited))]
      exact (submit_asked _).trans (submit_asked _)
    . exact submit_asked _
  have hlag : lag = 0 := hbehind.zero_iff.mpr fun p hp => hall p (hasked.subset hp)
  subst hlag
  have hqueue₁ : Queue k s₁.ring.sq head (queue ++ [f (initializeSqe s.ring.nextSqe)]) 0 := by
    rw [hring₁]
    exact (hlast.modify f).toQueue
  rw [prepared_sent _ hqueue₁ (hinited₁.trans (by rw [← hs₀]; exact hinited)) hall, List.map_append,
    ← List.append_assoc, List.drop_left' (by rw [hring₁]; simp), List.map_singleton, List.flatMap_singleton]
  obtain ⟨haddr, hopcode⟩ := hfill (initializeSqe s.ring.nextSqe)
  generalize f (initializeSqe s.ring.nextSqe) = q at haddr hopcode ⊢
  unfold Executed.datagrams Wrapper.execute
  cases buffer with
  | none =>
    have hnull : q.addr = .null := haddr
    have hpoll : q.opcode = .pollAdd := hopcode
    rw [hnull]
    dsimp only
    rw [hpoll]
    rfl
  | some buf =>
    have hmsghdr : q.addr = .msghdr (s₀.msg fd .write) := haddr
    have hsendmsg : q.opcode = .sendmsg := hopcode
    obtain ⟨_, hmsg⟩ := hsets _ rfl
    rw [hmsghdr]
    dsimp only
    rw [hsendmsg, hmsg]
    rfl

theorem submit_executed_length {hist : List Sqe} (ht : Tracks k s.ring hist)
    : s.submit.2.ring.executed.length ≤ hist.length :=
  (submit_tracks ht).executed_length

-- A write that finds no room in the ring hands nothing over.
theorem submitAsyncWrite_full (hqueue : Queue k s.ring.sq head queue lag) (hbehind : Behind s.ring.asked lag)
    (hinited : s.isInited) (hfd : 0 ≤ fd.num) (hbuffer : buffer = none → cnt = 0) (hfull : ¬queue.length < 2 ^ k)
    : (s.exec (.submitAsyncWrite fd buffer cnt cb opt)).2.submit.2.ring.executed.length
        ≤ s.ring.executed.length + queue.length := by
  have hrun : (s.exec (.submitAsyncWrite fd buffer cnt cb opt)).2.submit.2.ring
      = ({ s with ring := (s.ring.submit s.msghdrs).2 } : IoUring).submit.2.ring := by
    unfold exec run
    dsimp only
    rw [submitAsyncWrite_eq hinited hfd hbuffer, withSqe_full hqueue hfull, submit_calls]
  obtain ⟨n, hsub⟩ := hqueue.submit s.msghdrs
  have htracks := hsub.tracks hqueue.lag_le hbehind
  rw [hrun]
  refine (submit_executed_length (s := { s with ring := (s.ring.submit s.msghdrs).2 }) htracks).trans ?_
  simp

-- Neither does one that is refused.
theorem submitAsyncWrite_refused (hqueue : Queue k s.ring.sq head queue lag) (hbehind : Behind s.ring.asked lag)
    (hcnt : 0 < cnt)
    : (s.exec (.submitAsyncWrite fd none cnt cb opt)).2.submit.2.ring.executed.length
        ≤ s.ring.executed.length + queue.length := by
  have hrun : (s.exec (.submitAsyncWrite fd none cnt cb opt)).2.submit.2.ring = s.submit.2.ring := by
    have hcall : s.submitAsyncWrite fd none cnt cb opt = (-1, s) := by
      unfold submitAsyncWrite
      rw [if_pos (by simp [hcnt])]
    unfold exec run
    dsimp only
    rw [hcall, submit_calls]
  have htracks : Tracks k s.ring (s.ring.executed.map (·.sqe) ++ queue) := ⟨head, queue, lag, hqueue, hbehind, rfl⟩
  rw [hrun]
  refine (submit_executed_length htracks).trans ?_
  simp

end IoUring
end Uring

-- The array of a write as the other backend is given it.
def UserBuf.pointer (buf : UserBuf) (addr : Nat) : Option Uring.IovPtr :=
  if buf.isNull then none else some ⟨addr, buf.iov⟩

-- The array is sent as one datagram by the one backend and entry by entry by the other.
theorem datagrams_eq_iff {mem : Nat → UInt8} {peer sockaddr : Option Nat} {iov : List Iovec}
    : iov.map (fun v => Datagram.of mem peer [v] sockaddr) = [.of mem peer iov none]
        ↔ iov.length = 1 ∧ sockaddr.or peer = peer := by
  constructor
  . intro h
    have hlength := congrArg List.length h
    rw [List.length_map, List.length_singleton] at hlength
    obtain ⟨v, rfl⟩ := List.length_eq_one_iff.mp hlength
    rw [List.map_singleton, List.singleton_inj] at h
    exact ⟨rfl, congrArg Datagram.addr h⟩
  . rintro ⟨hlength, haddr⟩
    obtain ⟨v, rfl⟩ := List.length_eq_one_iff.mp hlength
    unfold Datagram.of
    rw [List.map_singleton, haddr]
    rfl

def opened : World := World.init fun _ => true

end Event
end Ezio
