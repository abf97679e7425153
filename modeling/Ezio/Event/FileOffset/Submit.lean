import Ezio.Event.FileOffset

/-!
This module contains the proof of where the tasks of a file start that have been queued up for one dispatch:
the backend keeps one offset for each side of a file, the one that was submitted last.
-/

namespace Ezio
namespace Event

open EStateM (Preserves Triple get_bind_apply modify_bind_apply bind_apply)

-- The tasks of a file that are waiting, with the numbers they were given.
structure FileQueue where
  pending : List (Nat × Submission)
  nonSubmit : List (Nat × Submission)
  next : Nat
  last : Option Nat

namespace FileQueue

def empty (next : Nat) : FileQueue := ⟨[], [], next, none⟩

-- A call that names an offset, or a call of `submit`.
def call (q : FileQueue) : Option Submission → FileQueue
  | some r =>
    if r.isSubmit then
      { q with pending := q.pending ++ [(q.next, r)], next := q.next + 1, last := some r.offset }
    else
      { q with nonSubmit := q.nonSubmit ++ [(q.next, r)], next := q.next + 1, last := some r.offset }
  | none => { q with pending := q.pending ++ q.nonSubmit, nonSubmit := [] }

def calls (q : FileQueue) (calls : List (Option Submission)) : FileQueue := calls.foldl call q

end FileQueue

def callOp (side : Side) (fd : Fd) : Option Submission → Op
  | some r => r.op side fd
  | none => .submit

-- The offset that the task `n` was submitted with.
def offsetOf (next : Nat) (calls : List (Option Submission)) (n : Nat) : Option Nat :=
  ((calls.filterMap fun c => c)[n - next]?).map (·.offset)

-- The action of the file, with the tasks of one side.
structure Holding (side : Side) (q : FileQueue) (a : EventAction) : Prop where
  type : a.fd.type = .file
  ops : a.fdOps = some ⟨.file, .file⟩
  ready : a.isReady side = true
  only : a.Only side
  reads : side = .write → a.nonSubmitReadTask = []
  pending : a.pendingTask side = q.pending.map fun s => s.2.task side s.1
  nonSubmit : a.nonSubmitTask side = q.nonSubmit.map fun s => s.2.task side s.1
  offset : ∀ o, q.last = some o → a.offset side = some o

-- The file has no `event_info` yet or its action holds the tasks.
structure Epoll.Waiting (side : Side) (fd : Fd) (q : FileQueue) (s : Epoll) : Prop where
  isInited : s.isInited = true
  nextTask : s.nextTask = q.next
  fresh : s.fdToEventInfo fd.key = none → q.pending = [] ∧ q.nonSubmit = [] ∧ q.last = none
  holding : ∀ id, s.fdToEventInfo fd.key = some id → Holding side q (s.action id)
  waits : ∀ id, s.fdToEventInfo fd.key = some id → q.nonSubmit ≠ [] → id ∈ s.nonSubmitEvents

namespace Submission

-- What a call does to the action before it queues the task.
def prepare (side : Side) (r : Submission) (a : EventAction) : EventAction :=
  match side with
  | .read =>
    { (match r.cb with | some cb => a.setReadCallback (.read cb) | none => a) with readOffset := some r.offset }
  | .write =>
    { (match r.cb with | some cb => a.setWriteCallback cb | none => a) with writeOffset := some r.offset }

end Submission

def EventAction.addTask (side : Side) (t : Task) (isSubmit : Bool) (a : EventAction) : EventAction :=
  match side with
  | .read => if isSubmit then a.addReadTask t else a.addNonSubmitReadTask t
  | .write => if isSubmit then a.addWriteTask t else a.addNonSubmitWriteTask t

section

variable {side : Side} {fd : Fd} {q : FileQueue} {r : Submission} {s s' : Epoll} {id : Nat}

theorem prepare_pendingTask (side : Side) (r : Submission) (a : EventAction)
    : (r.prepare side a).pendingTask side = a.pendingTask side
        ∧ (r.prepare side a).nonSubmitTask side = a.nonSubmitTask side := by
  cases side with
  | read =>
    unfold Submission.prepare
    cases r.cb with
    | none => exact ⟨rfl, rfl⟩
    | some cb => exact ⟨rfl, rfl⟩
  | write =>
    unfold Submission.prepare
    cases r.cb with
    | none => exact ⟨rfl, rfl⟩
    | some cb => exact ⟨rfl, rfl⟩

theorem addTask_pendingTask (side : Side) (t : Task) (isSubmit : Bool) (a : EventAction)
    : (a.addTask side t isSubmit).pendingTask side = a.pendingTask side ++ (if isSubmit then [t] else [])
        ∧ (a.addTask side t isSubmit).nonSubmitTask side = a.nonSubmitTask side ++ (if isSubmit then [] else [t]) := by
  cases side with
  | read =>
    unfold EventAction.addTask
    cases isSubmit with
    | true => exact ⟨rfl, (List.append_nil _).symm⟩
    | false => exact ⟨(List.append_nil _).symm, rfl⟩
  | write =>
    unfold EventAction.addTask
    cases isSubmit with
    | true => exact ⟨rfl, (List.append_nil _).symm⟩
    | false => exact ⟨(List.append_nil _).symm, rfl⟩

-- What a call changes in the action besides the tasks.
theorem prepared_holding (t : Task) (isSubmit : Bool) {a : EventAction} (h : Holding side q a)
    : let a' := (r.prepare side a).addTask side t isSubmit
      a'.fd.type = .file ∧ a'.fdOps = some ⟨.file, .file⟩ ∧ a'.isReady side = true ∧ a'.Only side
        ∧ (side = .write → a'.nonSubmitReadTask = []) ∧ a'.offset side = some r.offset := by
  cases side with
  | read =>
    unfold Submission.prepare EventAction.addTask
    cases r.cb with
    | none =>
      cases isSubmit with
      | true => exact ⟨h.type, h.ops, h.ready, ⟨h.only.1, nofun⟩, nofun, if_pos h.type⟩
      | false => exact ⟨h.type, h.ops, h.ready, ⟨h.only.1, nofun⟩, nofun, if_pos h.type⟩
    | some cb =>
      cases isSubmit with
      | true => exact ⟨h.type, h.ops, h.ready, ⟨h.only.1, nofun⟩, nofun, if_pos h.type⟩
      | false => exact ⟨h.type, h.ops, h.ready, ⟨h.only.1, nofun⟩, nofun, if_pos h.type⟩
  | write =>
    unfold Submission.prepare EventAction.addTask
    cases r.cb with
    | none =>
      cases isSubmit with
      | true => exact ⟨h.type, h.ops, h.ready, ⟨h.only.1, h.only.2⟩, h.reads, rfl⟩
      | false => exact ⟨h.type, h.ops, h.ready, ⟨h.only.1, h.only.2⟩, h.reads, rfl⟩
    | some cb =>
      cases isSubmit with
      | true => exact ⟨h.type, h.ops, h.ready, ⟨h.only.1, h.only.2⟩, h.reads, rfl⟩
      | false => exact ⟨h.type, h.ops, h.ready, ⟨h.only.1, h.only.2⟩, h.reads, rfl⟩

theorem Holding.call {a : EventAction} (h : Holding side q a) (r : Submission)
    : Holding side (q.call (some r)) ((r.prepare side a).addTask side (r.task side q.next) r.isSubmit) := by
  obtain ⟨htype, hops, hready, honly, hreads, hoffset⟩ := prepared_holding (r.task side q.next) r.isSubmit h
  obtain ⟨hpending, hnonSubmit⟩ := addTask_pendingTask side (r.task side q.next) r.isSubmit (r.prepare side a)
  obtain ⟨hpending', hnonSubmit'⟩ := prepare_pendingTask side r a
  rw [hpending', h.pending] at hpending
  rw [hnonSubmit', h.nonSubmit] at hnonSubmit
  refine ⟨htype, hops, hready, honly, hreads, ?_, ?_, ?_⟩
  . rw [hpending]
    unfold FileQueue.call
    dsimp only
    split
    . rw [List.map_append]
      rfl
    . rw [List.append_nil]
  . rw [hnonSubmit]
    unfold FileQueue.call
    dsimp only
    split
    . rw [List.append_nil]
    . rw [List.map_append]
      rfl
  . intro o ho
    have hlast : (q.call (some r)).last = some r.offset := by
      unfold FileQueue.call
      dsimp only
      split
      . rfl
      . rfl
    rw [hlast] at ho
    rw [hoffset, ho]

-- What `submit` does to the action.
theorem Holding.submit {a : EventAction} (h : Holding side q a) : Holding side (q.call none) a.submitted := by
  have hpending := h.pending
  have hnonSubmit := h.nonSubmit
  have htasks : a.submitted.pendingTask side = a.pendingTask side ++ a.nonSubmitTask side
      ∧ a.submitted.nonSubmitTask side = [] ∧ a.submitted.isReady side = a.isReady side
      ∧ a.submitted.offset side = a.offset side := by
    cases side with
    | read => exact ⟨rfl, rfl, rfl, rfl⟩
    | write => exact ⟨rfl, rfl, rfl, rfl⟩
  refine ⟨h.type, h.ops, htasks.2.2.1.trans h.ready, ⟨?_, ?_⟩, fun _ => rfl, ?_, htasks.2.1, ?_⟩
  . show a.multishotReadTask.map _ = none
    rw [h.only.1]
    rfl
  . intro hwrite
    refine ⟨?_, (h.only.2 hwrite).2⟩
    show a.pendingReadTask ++ a.nonSubmitReadTask = []
    rw [(h.only.2 hwrite).1, h.reads hwrite, List.append_nil]
  . rw [htasks.1, hpending, hnonSubmit, ← List.map_append]
    rfl
  . intro o ho
    rw [htasks.2.2.2]
    exact h.offset o ho

namespace Epoll

-- The end of both `submit_async_read` of a buffer and `submit_async_write`.
def queueTask (side : Side) (s : Epoll) (id : Nat) (t : Task) (isSubmit : Bool) : Epoll :=
  match side with
  | .read => s.queueRead id t isSubmit
  | .write => s.queueWrite id t isSubmit

theorem queueTask_action (side : Side) (s : Epoll) (id : Nat) (t : Task) (isSubmit : Bool)
    : (s.queueTask side id t isSubmit).action id = (s.action id).addTask side t isSubmit := by
  cases side with
  | read =>
    unfold queueTask
    rw [Epoll.action_def, queueRead_infos, if_pos rfl]
    rfl
  | write =>
    unfold queueTask
    rw [Epoll.action_def, queueWrite_infos, if_pos rfl]
    rfl

theorem queueTask_fields (side : Side) (s : Epoll) (id : Nat) (t : Task) (isSubmit : Bool)
    : (s.queueTask side id t isSubmit).isInited = s.isInited
        ∧ (s.queueTask side id t isSubmit).nextTask = s.nextTask + 1
        ∧ (s.queueTask side id t isSubmit).fdToEventInfo = s.fdToEventInfo := by
  cases side with
  | read =>
    refine ⟨?_, queueRead_nextTask s id t isSubmit, queueRead_fdToEventInfo s id t isSubmit⟩
    show (s.queueRead id t isSubmit).isInited = s.isInited
    unfold queueRead pushIfReadable insertNonSubmit
    repeat' split
    all_goals rfl
  | write =>
    refine ⟨?_, queueWrite_nextTask s id t isSubmit, queueWrite_fdToEventInfo s id t isSubmit⟩
    show (s.queueWrite id t isSubmit).isInited = s.isInited
    unfold queueWrite pushIfWritable insertNonSubmit
    repeat' split
    all_goals rfl

theorem queueTask_waits (side : Side) (s : Epoll) (id : Nat) (t : Task) (isSubmit : Bool)
    : s.nonSubmitEvents ⊆ (s.queueTask side id t isSubmit).nonSubmitEvents
        ∧ (isSubmit = false → id ∈ (s.queueTask side id t isSubmit).nonSubmitEvents) := by
  cases isSubmit with
  | true =>
    refine ⟨?_, nofun⟩
    unfold queueTask
    cases side with
    | read =>
      unfold queueRead pushIfReadable
      dsimp only
      rw [if_pos rfl]
      split
      . exact List.Subset.refl _
      . exact List.Subset.refl _
    | write =>
      unfold queueWrite pushIfWritable
      dsimp only
      rw [if_pos rfl]
      split
      . exact List.Subset.refl _
      . exact List.Subset.refl _
  | false =>
    unfold queueTask
    cases side with
    | read =>
      have hwaits := insertNonSubmit_waits (s.takeTask.modifyAction id fun a => a.addNonSubmitReadTask t) id
      unfold queueRead
      dsimp only
      rw [if_neg (by decide)]
      exact ⟨hwaits.2, fun _ => hwaits.1⟩
    | write =>
      have hwaits := insertNonSubmit_waits (s.takeTask.modifyAction id fun a => a.addNonSubmitWriteTask t) id
      unfold queueWrite
      dsimp only
      rw [if_neg (by decide)]
      exact ⟨hwaits.2, fun _ => hwaits.1⟩

-- A file is never registered with the kernel, so that the call only changes its action.
theorem prepareRead_file (htype : fd.type = .file) (s : Epoll) (id : Nat) {r : Submission} {opt : ReadOptions}
    (hopt : opt.offset = some r.offset)
    : s.prepareRead fd id r.cb (some opt) = s.modifyAction id (r.prepare .read) := by
  unfold prepareRead setReadCb setReadOffset
  dsimp only
  rw [if_pos htype, Option.bind_some, hopt]
  unfold Submission.prepare
  cases r.cb with
  | none => rfl
  | some cb => simp [modifyInfo]

theorem prepareWrite_file (htype : fd.type = .file) (s : Epoll) (id : Nat) {r : Submission} {opt : WriteOptions}
    (hopt : opt.offset = some r.offset)
    : s.prepareWrite fd id r.cb (some opt) = s.modifyAction id (r.prepare .write) := by
  unfold prepareWrite setWriteCb setWriteOffset
  dsimp only
  rw [if_pos htype, Option.bind_some, hopt]
  unfold Submission.prepare
  cases r.cb with
  | none => rfl
  | some cb => simp [modifyInfo]

theorem exec_submission (hinit : s.isInited = true) (hfd : 0 ≤ fd.num) (htype : fd.type = .file)
    (hfind : s.findOrInsert fd = .ok (id, s')) (r : Submission)
    : s.exec (r.op side fd) = .ok (0, (s'.modifyAction id (r.prepare side)).queueTask side id
        (r.task side s'.nextTask) r.isSubmit) := by
  cases side with
  | read =>
    show s.submitAsyncRead fd _ _ _ = _
    unfold Epoll.submitAsyncRead
    rw [if_neg (by simp [hinit, hfd]), hfind]
    dsimp only [bind, Except.bind]
    rw [prepareRead_file htype s' id rfl]
    rfl
  | write =>
    show s.submitAsyncWrite fd _ _ _ = _
    unfold Epoll.submitAsyncWrite
    rw [if_neg (by simp [hinit, hfd]), hfind]
    dsimp only [bind, Except.bind]
    rw [prepareWrite_file htype s' id rfl, if_neg (by rw [htype]; decide)]
    rfl

theorem Waiting.findOrInsert (h : s.Waiting side fd q) (htype : fd.type = .file)
    : ∃ id s', s.findOrInsert fd = .ok (id, s') ∧ s'.Waiting side fd q ∧ s'.fdToEventInfo fd.key = some id := by
  cases hmap : s.fdToEventInfo fd.key with
  | some id =>
    refine ⟨id, s, ?_, h, hmap⟩
    unfold Epoll.findOrInsert
    rw [hmap]
  | none =>
    obtain ⟨hpending, hnonSubmit, hlast⟩ := h.fresh hmap
    obtain ⟨info, hinfo⟩ : ∃ info, EventInfo.new fd = .ok info := by
      unfold EventInfo.new EventAction.new
      rw [htype]
      exact ⟨_, rfl⟩
    have haction : info.action = EventAction.setFdOps (EventAction.blank fd) .file := by
      rw [EventInfo.new_eq_ok hinfo, ← htype]
    have hnew : (s.insert fd info).fdToEventInfo fd.key = some s.next := by
      rw [insert_fdToEventInfo, if_pos rfl]
    refine ⟨s.next, s.insert fd info, ?_, ⟨h.isInited, h.nextTask, ?_, ?_, ?_⟩, hnew⟩
    . unfold Epoll.findOrInsert
      rw [hmap, hinfo]
      rfl
    . intro hnone
      rw [hnew] at hnone
      cases hnone
    . intro id hid
      rw [hnew] at hid
      cases hid
      rw [Epoll.action_def, insert_infos, if_pos rfl, haction]
      refine ⟨?_, ?_, ?_, ⟨rfl, fun _ => ⟨rfl, rfl⟩⟩, fun _ => rfl, ?_, ?_, ?_⟩
      . exact htype
      . rfl
      . cases side <;> rfl
      . rw [hpending]
        cases side <;> rfl
      . rw [hnonSubmit]
        cases side <;> rfl
      . rw [hlast]
        nofun
    . intro id _ hne
      exact absurd hnonSubmit hne

theorem Waiting.submission (h : s.Waiting side fd q) (hfd : 0 ≤ fd.num) (htype : fd.type = .file) (r : Submission)
    : ∃ s', s.exec (r.op side fd) = .ok (0, s') ∧ s'.Waiting side fd (q.call (some r)) := by
  obtain ⟨id, s₁, hfind, h₁, hid⟩ := h.findOrInsert htype
  refine ⟨_, exec_submission h.isInited hfd htype hfind r, ?_⟩
  obtain ⟨hinit, hnext, hmap⟩ := queueTask_fields side (s₁.modifyAction id (r.prepare side)) id
    (r.task side s₁.nextTask) r.isSubmit
  have haction := queueTask_action side (s₁.modifyAction id (r.prepare side)) id
    (r.task side s₁.nextTask) r.isSubmit
  have hprepared : (s₁.modifyAction id (r.prepare side)).action id = r.prepare side (s₁.action id) := by simp
  obtain ⟨hkeeps, hwaits⟩ := queueTask_waits side (s₁.modifyAction id (r.prepare side)) id
    (r.task side s₁.nextTask) r.isSubmit
  rw [hprepared, h₁.nextTask] at haction
  rw [h₁.nextTask] at hinit hnext hmap hkeeps hwaits ⊢
  refine ⟨hinit.trans h₁.isInited, ?_, ?_, ?_, ?_⟩
  . rw [hnext]
    show s₁.nextTask + 1 = _
    rw [h₁.nextTask]
    unfold FileQueue.call
    dsimp only
    split
    . rfl
    . rfl
  . intro hnone
    rw [hmap] at hnone
    exact absurd (hid.symm.trans hnone) nofun
  . intro j hj
    rw [hmap] at hj
    have heq : id = j := Option.some.inj (hid.symm.trans hj)
    rw [← heq, haction]
    exact (h₁.holding id hid).call r
  . intro j hj hne
    rw [hmap] at hj
    have heq : id = j := Option.some.inj (hid.symm.trans hj)
    rw [← heq]
    by_cases hsubmit : r.isSubmit = true
    . apply hkeeps
      apply h₁.waits id hid
      unfold FileQueue.call at hne
      dsimp only at hne
      rw [if_pos hsubmit] at hne
      exact hne
    . exact hwaits (Bool.eq_false_iff.mpr hsubmit)

theorem call_none_call_none (q : FileQueue) : (q.call none).call none = q.call none := by
  unfold FileQueue.call
  dsimp only
  rw [List.append_nil]

theorem call_none_of_nil (h : q.nonSubmit = []) : q.call none = q := by
  unfold FileQueue.call
  dsimp only
  rw [h, List.append_nil, ← h]

-- `submit` goes through the actions one by one, the tasks of the file are moved when it is its turn.
theorem foldl_submittedOne_holding {ids : List Nat}
    (h : Holding side (q.call none) (s.action id) ∨ Holding side q (s.action id) ∧ id ∈ ids)
    : Holding side (q.call none) ((ids.foldl submittedOne s).action id) := by
  induction ids generalizing s with
  | nil => exact h.resolve_right fun h => List.not_mem_nil h.2
  | cons j ids ih =>
    apply ih
    rw [Epoll.action_def, submittedOne_infos]
    split
    next heq =>
      rw [← heq]
      left
      rcases h with hmoved | ⟨hholding, _⟩
      . rw [← call_none_call_none]
        exact hmoved.submit
      . exact hholding.submit
    next hne =>
      rcases h with hmoved | ⟨hholding, hmem⟩
      . exact .inl hmoved
      . exact .inr ⟨hholding, (List.mem_cons.mp hmem).resolve_left hne⟩

theorem Waiting.submit {n : Int} (h : s.Waiting side fd q) (hs : s.submit = .ok (n, s'))
    : s'.Waiting side fd (q.call none) := by
  have heq := (submit_eq_ok hs).2
  unfold Epoll.submitted at heq
  split at heq
  next hnone =>
    have hnil : q.nonSubmit = [] := by
      cases hmap : s.fdToEventInfo fd.key with
      | none => exact (h.fresh hmap).2.1
      | some id =>
        by_contra hne
        have hmem := h.waits id hmap hne
        rw [hnone] at hmem
        cases hmem
    cases heq
    rw [call_none_of_nil hnil]
    exact h
  next hsome =>
    cases heq
    have hlists := foldl_submittedOne_lists s.nonSubmitEvents s
    refine ⟨hlists.isInited.trans h.isInited, hlists.nextTask.trans h.nextTask, ?_, ?_, fun _ _ hne => absurd rfl hne⟩
    . intro hfresh
      obtain ⟨hpending, hnonSubmit, hlast⟩ := h.fresh ((congrFun hlists.map _).symm.trans hfresh)
      rw [call_none_of_nil hnonSubmit]
      exact ⟨hpending, hnonSubmit, hlast⟩
    . intro id hid
      have hid := (congrFun hlists.map _).symm.trans hid
      apply foldl_submittedOne_holding
      by_cases hnil : q.nonSubmit = []
      . left
        rw [call_none_of_nil hnil]
        exact h.holding id hid
      . exact .inr ⟨h.holding id hid, h.waits id hid hnil⟩

theorem Waiting.call {n : Int} {c : Option Submission} (h : s.Waiting side fd q) (hfd : 0 ≤ fd.num)
    (htype : fd.type = .file) (hexec : s.exec (callOp side fd c) = .ok (n, s')) : s'.Waiting side fd (q.call c) := by
  cases c with
  | none => exact h.submit hexec
  | some r =>
    obtain ⟨s₁, hexec', hwaiting⟩ := h.submission hfd htype r
    rw [show s.exec (callOp side fd (some r)) = _ from hexec'] at hexec
    cases hexec
    exact hwaiting

end Epoll

-- The state after the calls.
theorem calls_waiting {w v : World} {cs : List (Option Submission)} (h : w.poll.Waiting side fd q) (hfd : 0 ≤ fd.num)
    (htype : fd.type = .file) (hcs : (cs.map (callOp side fd)).forM exec w = .ok () v)
    : v.poll.Waiting side fd (q.calls cs) := by
  induction cs generalizing w q with
  | nil =>
    cases hcs
    exact h
  | cons c cs ih =>
    have hcons : ((c :: cs).map (callOp side fd)).forM exec w
        = (exec (callOp side fd c) >>= fun _ => (cs.map (callOp side fd)).forM exec) w := rfl
    rw [hcons, bind_apply] at hcs
    split at hcs
    next n u hrun =>
      unfold exec at hrun
      split at hrun
      next s' hexec =>
        cases hrun
        exact ih (h.call hfd htype hexec) hcs
      next => cases hrun
    next => cases hcs

-- The numbers of the tasks tell which calls they come from.
structure FileQueue.Numbers (q : FileQueue) (n : Nat) (subs : List Submission) : Prop where
  next : q.next = n + subs.length
  last : q.last = subs.getLast?.map (·.offset)
  tasks : ∀ s ∈ q.pending ++ q.nonSubmit, n ≤ s.1 ∧ subs[s.1 - n]? = some s.2

theorem FileQueue.Numbers.call {n : Nat} {subs : List Submission} (h : q.Numbers n subs) (c : Option Submission)
    : (q.call c).Numbers n (subs ++ c.toList) := by
  cases c with
  | none =>
    rw [Option.toList_none, List.append_nil]
    refine ⟨h.next, h.last, ?_⟩
    unfold FileQueue.call
    dsimp only
    rw [List.append_nil]
    exact h.tasks
  | some r =>
    have hold : ∀ s ∈ q.pending ++ q.nonSubmit, n ≤ s.1 ∧ (subs ++ [r])[s.1 - n]? = some s.2 := by
      intro s hs
      obtain ⟨hle, hget⟩ := h.tasks s hs
      refine ⟨hle, ?_⟩
      rw [List.getElem?_append_left (List.getElem?_eq_some_iff.mp hget).1]
      exact hget
    have hnew : n ≤ q.next ∧ (subs ++ [r])[q.next - n]? = some r := by
      rw [h.next, Nat.add_sub_cancel_left]
      exact ⟨Nat.le_add_right _ _, by simp⟩
    have hlast : (subs ++ [r]).getLast?.map (·.offset) = some r.offset := by simp
    rw [Option.toList_some]
    unfold FileQueue.call
    dsimp only
    split
    . refine ⟨?_, hlast.symm, ?_⟩
      . show q.next + 1 = _
        rw [h.next, List.length_append]
        rfl
      . intro s hs
        rw [List.append_assoc, List.mem_append, List.mem_append, List.mem_singleton] at hs
        rcases hs with hs | rfl | hs
        . exact hold s (List.mem_append_left _ hs)
        . exact hnew
        . exact hold s (List.mem_append_right _ hs)
    . refine ⟨?_, hlast.symm, ?_⟩
      . show q.next + 1 = _
        rw [h.next, List.length_append]
        rfl
      . intro s hs
        rw [← List.append_assoc, List.mem_append, List.mem_singleton] at hs
        rcases hs with hs | rfl
        . exact hold s hs
        . exact hnew

theorem FileQueue.Numbers.calls {n : Nat} {subs : List Submission} (h : q.Numbers n subs)
    (cs : List (Option Submission))
    : (q.calls cs).Numbers n (subs ++ cs.filterMap fun c => c) := by
  induction cs generalizing q subs with
  | nil =>
    rw [List.filterMap_nil, List.append_nil]
    exact h
  | cons c cs ih =>
    have hrest := ih (h.call c)
    rw [List.append_assoc] at hrest
    cases c with
    | none => exact hrest
    | some r => exact hrest

theorem startsOf_eq {q : List (Nat × Submission)} {w : World} {isEventTriggered : Bool}
    (h : ServingFile side q (w.action id))
    (honly : (w.action id).Only side) (pos : Nat)
    (hcalls : (handleEvents id isEventTriggered w).state.Untouched w.log.length id)
    : startsOf side id isEventTriggered pos w = fileStarts side.io ((w.action id).offset side) pos q w.sys := by
  cases side with
  | read => exact startsOf_read h honly pos hcalls
  | write => exact startsOf_write h honly pos hcalls

-- The tasks that are waiting for `handle_events` after the calls, and the offset the backend has kept.
def queueOf (n : Nat) (cs : List (Option Submission)) : FileQueue := (FileQueue.empty n).calls cs

-- The first of the tasks that `lseek` succeeds for has the offset that was submitted last, and each task
-- after it the offset at which the transfer before it ends.
def InPlace (side : Side) (n : Nat) (cs : List (Option Submission)) (sys : List SysRet) : Prop :=
  ∀ last, (queueOf n cs).last = some last → Sought side.io last ((queueOf n cs).pending.map (·.2)) sys

-- Nothing is waiting to be read from or written to the file.
def Epoll.FileIdle (side : Side) (fd : Fd) (s : Epoll) : Prop := s.Waiting side fd (.empty s.nextTask)

variable {w u v : World} {cs : List (Option Submission)} {isEventTriggered : Bool} {sys : List SysRet}
  {user : List (List Op)} {errs : List (Option Errno)}

/--
The tasks that are queued for the same dispatch start at their own offsets only if these follow each other
from the offset that was submitted last.
-/
theorem fileTransfers_own_iff (hidle : w.poll.FileIdle side fd) (hfd : 0 ≤ fd.num) (htype : fd.type = .file)
    (hbuf : ∀ r, some r ∈ cs → r.buf ≠ [])
    (hu : (cs.map (callOp side fd)).forM exec w = .ok () u) (hv : u.load sys user errs = v)
    (hid : v.poll.fdToEventInfo fd.key = some id) (hcb : (v.action id).hasCallback side = true)
    (hcalls : (handleEvents id isEventTriggered v).state.Untouched v.log.length id) (pos : Nat)
    : StartsAt (offsetOf w.poll.nextTask cs) (startsOf side id isEventTriggered pos v)
        ↔ InPlace side w.poll.nextTask cs sys := by
  have hwaiting := calls_waiting hidle hfd htype hu
  have hmap : u.poll.fdToEventInfo fd.key = some id := by
    rw [← hv] at hid
    exact hid
  have haction : v.action id = u.action id := by rw [← hv]; rfl
  have hsys : v.sys = sys := by rw [← hv]; rfl
  have hholding : Holding side (queueOf w.poll.nextTask cs) (v.action id) := by
    rw [haction]
    exact hwaiting.holding id hmap
  have hempty : (FileQueue.empty w.poll.nextTask).Numbers w.poll.nextTask [] := ⟨rfl, rfl, List.forall_mem_nil _⟩
  have hnumbers : (queueOf w.poll.nextTask cs).Numbers w.poll.nextTask (cs.filterMap fun c => c) := hempty.calls cs
  have hsubmitted : ∀ s ∈ (queueOf w.poll.nextTask cs).pending, some s.2 ∈ cs := by
    intro s hs
    have hget := (hnumbers.tasks s (List.mem_append_left _ hs)).2
    obtain ⟨c, hc, hsome⟩ := List.mem_filterMap.mp (List.mem_of_getElem? hget)
    rw [← hsome]
    exact hc
  have hbuffers : ∀ s ∈ (queueOf w.poll.nextTask cs).pending, s.2.buf ≠ [] := fun s hs => hbuf _ (hsubmitted s hs)
  have hown : ∀ s ∈ (queueOf w.poll.nextTask cs).pending, offsetOf w.poll.nextTask cs s.1 = some s.2.offset := by
    intro s hs
    unfold offsetOf
    rw [(hnumbers.tasks s (List.mem_append_left _ hs)).2]
    rfl
  have hserving : ServingFile side (queueOf w.poll.nextTask cs).pending (v.action id) :=
    ⟨hholding.type, hholding.ops, hholding.ready, hcb, hholding.pending, hbuffers⟩
  rw [startsOf_eq hserving hholding.only pos hcalls, hsys]
  unfold InPlace
  cases hlast : (queueOf w.poll.nextTask cs).last with
  | none =>
    have hsubs : (cs.filterMap fun c => c) = [] := by
      have hnone := hnumbers.last
      rw [hlast, eq_comm, Option.map_eq_none_iff] at hnone
      exact List.getLast?_eq_none_iff.mp hnone
    have hnone : (queueOf w.poll.nextTask cs).pending = [] := by
      apply List.eq_nil_iff_forall_not_mem.mpr
      intro s hs
      have hget := (hnumbers.tasks s (List.mem_append_left _ hs)).2
      rw [hsubs] at hget
      cases hget
    rw [hnone]
    exact iff_of_true startsAt_nil nofun
  | some last =>
    rw [hholding.offset last hlast, fileStarts_some_iff hown hbuffers]
    constructor
    . intro h last' heq
      rw [← Option.some.inj heq]
      exact h
    . intro h
      exact h last rfl

end

-- A file with number 3, `sys` are the answers of the kernel to the dispatch after the calls.
def queuedWorld (side : Side) (cs : List (Option Submission)) (sys : List SysRet) : World :=
  ((cs.map (callOp side ⟨3, .file⟩)).forM exec (World.init fun _ => true)).state.load sys [] []

def submissionAt (offset : Nat) : Submission :=
  { buf := [⟨0, 8⟩], cb := some 7, offset := offset, isSubmit := true, needSocketDetail := false, sockaddr := none }

-- The offset 100 is used for the task that was submitted with 0.
theorem queuedWorld_mixes_offsets
    : let cs := [some (submissionAt 0), some (submissionAt 100)]
      let sys : List SysRet := [.ok 100 [], .ok 8 [], .ok 8 []]
      ¬StartsAt (offsetOf 0 cs) (startsOf .read 0 false 0 (queuedWorld .read cs sys))
        ∧ ¬StartsAt (offsetOf 0 cs) (startsOf .write 0 false 0 (queuedWorld .write cs sys)) := by
  constructor
  . intro h
    exact absurd (h 0 100 (by decide +kernel)) (by decide)
  . intro h
    exact absurd (h 0 100 (by decide +kernel)) (by decide)

theorem queuedWorld_single
    : StartsAt (offsetOf 0 [some (submissionAt 64)])
        (startsOf .read 0 false 0 (queuedWorld .read [some (submissionAt 64)] [.ok 64 [], .ok 8 []])) := by
  have hidle : (World.init fun _ => true).poll.FileIdle .read ⟨3, .file⟩ := by
    refine ⟨rfl, rfl, fun _ => ⟨rfl, rfl, rfl⟩, ?_, ?_⟩
    . intro id hid
      cases hid
    . intro id hid
      cases hid
  have hbuf : ∀ r, some r ∈ [some (submissionAt 64)] → r.buf ≠ [] := by
    intro r hr
    rw [List.mem_singleton, Option.some.injEq] at hr
    rw [hr]
    nofun
  refine (fileTransfers_own_iff hidle (by decide) rfl hbuf rfl rfl rfl (by decide +kernel) (handleEvents_untouched ?_)
    0).mpr ?_
  . exact List.forall_mem_nil _
  . intro last hlast
    cases hlast
    exact ⟨rfl, trivial⟩

end Event
end Ezio
