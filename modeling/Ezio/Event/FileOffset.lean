import Ezio.Event.Epoll.Lemmas.WriteSide

/-!
This module contains the file positions at which the epoll backend carries out the tasks of a file. A task
starts where `lseek` has put the file position, or where the last transfer has left it.
-/

namespace Ezio

-- How far the file position has been moved.
def FdRet.count (r : FdRet) : Nat := (r.moved.map (·.2)).sum

namespace Event

open EStateM (Preserves Triple get_bind_apply modify_bind_apply bind_apply)

-- What is done for reads and what is done for writes.
inductive Side where
  | read
  | write
  deriving DecidableEq, Repr

def Side.io : Side → List Iovec → List SysRet → Io FdRet
  | .read => FdIo.File.readFd
  | .write => FdIo.File.writeFd

namespace EventAction

def isReady (a : EventAction) : Side → Bool
  | .read => a.isReadable
  | .write => a.isWritable

def pendingTask (a : EventAction) : Side → List Task
  | .read => a.pendingReadTask
  | .write => a.pendingWriteTask

def nonSubmitTask (a : EventAction) : Side → List Task
  | .read => a.nonSubmitReadTask
  | .write => a.nonSubmitWriteTask

-- Only a read checks that it is a file that is read from.
def offset (a : EventAction) : Side → Option Nat
  | .read => if a.fd.type = .file then a.readOffset else none
  | .write => a.writeOffset

def hasCallback (a : EventAction) : Side → Bool
  | .read => a.readBufIdxCallback.isSome
  | .write => a.writeCallback.isSome

end EventAction

def doTask (side : Side) (id : Nat) (t : Task) (isEventTriggered : Bool) : EventM Bool :=
  match side with
  | .read => doReadTask id t isEventTriggered
  | .write => doWriteTask id t

-- The task that has been tried comes off the front, and it is pushed back if it is to be tried again.
def requeue (side : Side) (id : Nat) (t : Task) (again : Bool) : EventM Unit :=
  match side with
  | .read => do
    modifyAction id fun a => if again then a.addReadTask t else a
    popReadTask id
  | .write => do
    modifyAction id fun a => if again then { a with isWritable := false }.addWriteTask t else a
    popWriteTask id

-- The body of the loop over the tasks of one side.
def iteration (side : Side) (id : Nat) (t : Task) (isEventTriggered : Bool) : EventM Unit := do
  let again ← doTask side id t isEventTriggered
  requeue side id t again

-- A transfer at a file position: where it starts, and the position that it leaves.
def transferAt (io : List Iovec → List SysRet → Io FdRet) (buf : List Iovec) (pos : Nat)
    (sys : List SysRet)
    : Option Nat × Nat :=
  match io buf sys with
  | .done r _ => (some pos, pos + r.count)
  | _ => (some pos, pos)

-- A task at a file position, nothing is transferred if `lseek` fails.
def taskAt (io : List Iovec → List SysRet → Io FdRet) (offset : Option Nat) (buf : List Iovec)
    (pos : Nat) (sys : List SysRet)
    : Option Nat × Nat :=
  if buf = [] then
    (none, pos)
  else
    match offset, sys with
    | none, sys => transferAt io buf pos sys
    | some offset, .ok _ _ :: sys => transferAt io buf offset sys
    | some _, _ => (none, pos)

-- Where the tasks start that a loop of `n` iterations carries out, `pos` is the file position before.
def loopStarts (side : Side) (id : Nat) (isEventTriggered : Bool) : Nat → Nat → World → List (Nat × Option Nat)
  | 0, _, _ => []
  | n + 1, pos, w =>
    match (w.action id).pendingTask side with
    | [] => []
    | t :: _ =>
      let spot := taskAt side.io ((w.action id).offset side) t.buffer pos w.sys
      (t.id, spot.1) :: match iteration side id t isEventTriggered w with
        | .ok _ u => loopStarts side id isEventTriggered n spot.2 u
        | .error .. => []

-- Where the tasks start that `handle_events` carries out.
def startsOf (side : Side) (id : Nat) (isEventTriggered : Bool) (pos : Nat) (w : World)
    : List (Nat × Option Nat) :=
  if (w.action id).isHeld then
    []
  else
    match side with
    | .read =>
      if (w.action id).isReadable && (w.action id).multishotReadTask.isNone then
        loopStarts .read id isEventTriggered (w.action id).pendingReadTask.length pos
          (w.addLog [.readPass id w.poll w.sys w.user])
      else
        []
    | .write =>
      match handleRead id isEventTriggered w with
      | .ok _ u =>
        if (u.action id).isWritable then
          loopStarts .write id isEventTriggered (u.action id).pendingWriteTask.length pos
            (u.addLog [.writePass id u.poll u.sys u.user])
        else
          []
      | .error .. => []

def loop (side : Side) (id : Nat) (isEventTriggered : Bool) (n : Nat) : EventM Unit :=
  match side with
  | .read => readLoop id isEventTriggered n
  | .write => writeLoop id n

theorem loop_succ {side : Side} {id : Nat} {t : Task} {ts : List Task} {w : World}
    (h : (w.action id).pendingTask side = t :: ts) (isEventTriggered : Bool) (n : Nat)
    : loop side id isEventTriggered (n + 1) w
        = (iteration side id t isEventTriggered >>= fun _ => loop side id isEventTriggered n) w := by
  unfold loop iteration requeue doTask
  cases side with
  | read =>
    dsimp only
    rw [readLoop, get_bind_apply, show (w.action id).pendingReadTask = _ from h]
    dsimp only
    rw [bind_assoc]
    rfl
  | write =>
    dsimp only
    rw [writeLoop, get_bind_apply, show (w.action id).pendingWriteTask = _ from h]
    dsimp only
    rw [bind_assoc]
    rfl

-- The arguments of a call that names an offset.
structure Submission where
  buf : List Iovec
  cb : Option Callback
  offset : Nat
  isSubmit : Bool
  needSocketDetail : Bool
  sockaddr : Option Nat
  deriving DecidableEq, Repr

namespace Submission

def op (side : Side) (fd : Fd) (r : Submission) : Op :=
  match side with
  | .read => .submitAsyncRead fd ⟨false, r.buf⟩ r.cb (some ⟨some r.offset, r.isSubmit, r.needSocketDetail⟩)
  | .write => .submitAsyncWrite fd ⟨false, r.buf⟩ r.cb (some ⟨some r.offset, r.isSubmit, r.sockaddr⟩)

-- The task that is made for a file.
def task (side : Side) (n : Nat) (r : Submission) : Task :=
  { id := n, buffer := r.buf, sockaddr := none,
    needSockDetail := match side with | .read => r.needSocketDetail | .write => false }

end Submission

-- What a task leaves of the offset and of the answers, nothing if it does not return.
def taskLeaves (io : List Iovec → List SysRet → Io FdRet) (offset : Option Nat) (buf : List Iovec)
    (sys : List SysRet)
    : Option (Option Nat × List SysRet) :=
  match offset, sys with
  | none, sys =>
    match io buf sys with
    | .done _ sys => some (none, sys)
    | _ => none
  | some _, .ok _ _ :: sys =>
    match io buf sys with
    | .done _ sys => some (none, sys)
    | _ => none
  | some offset, .fail _ :: sys => some (some offset, sys)
  | some _, [] => none

-- Where the tasks of a queue start, in terms of the answers of the kernel alone.
def fileStarts (io : List Iovec → List SysRet → Io FdRet)
    : Option Nat → Nat → List (Nat × Submission) → List SysRet → List (Nat × Option Nat)
  | _, _, [], _ => []
  | offset, pos, (n, r) :: q, sys =>
    let spot := taskAt io offset r.buf pos sys
    (n, spot.1) :: match taskLeaves io offset r.buf sys with
      | some (offset, sys) => fileStarts io offset spot.2 q sys
      | none => []

-- The action of the file, where the tasks of one side are waiting.
structure ServingFile (side : Side) (q : List (Nat × Submission)) (a : EventAction) : Prop where
  type : a.fd.type = .file
  ops : a.fdOps = some ⟨.file, .file⟩
  ready : a.isReady side = true
  callback : a.hasCallback side = true
  tasks : a.pendingTask side = q.map fun s => s.2.task side s.1
  buffers : ∀ s ∈ q, s.2.buf ≠ []

section

variable {side : Side} {id k : Nat} {q : List (Nat × Submission)} {w : World} {isEventTriggered : Bool}

theorem fileIo_flag {op : FdIo.StreamOp} (hagain : op.onAgain = false) {passed iov : List Iovec} {result : Nat}
    {moved : List (List Iovec × Nat)} {sys left : List SysRet} {r : FdRet}
    (h : FdIo.streamFd.go op passed iov result moved sys = .done r left)
    : r.flag = false := by
  induction sys generalizing passed iov result moved with
  | nil => cases h
  | cons a sys ih =>
    unfold FdIo.streamFd.go at h
    cases a with
    | ok n lens =>
      dsimp only at h
      split at h
      . rw [← (Io.done.inj h).1]
      . split at h
        . rw [← (Io.done.inj h).1]
        . split at h
          . exact ih h
          . rw [← (Io.done.inj h).1]
    | fail e =>
      rw [hagain] at h
      simp only [Bool.false_eq_true, false_and, if_false] at h
      split at h
      . exact ih h
      . rw [← (Io.done.inj h).1]

theorem Side.io_flag {buf : List Iovec} {sys left : List SysRet} {r : FdRet}
    (h : side.io buf sys = .done r left)
    : r.flag = false := by
  cases side with
  | read => exact fileIo_flag rfl h
  | write => exact fileIo_flag rfl h

-- What a callback leaves that does not touch the action.
theorem readCallback_untouched {src : ReadSource} {ret : Int} {iov : List Iovec} (hk : k ≤ w.log.length)
    (hcb : (w.action id).hasCallback .read = true)
    (hcalls : (readCallback id src ret iov w).state.Untouched k id)
    : ∃ u, readCallback id src ret iov w = .ok () u ∧ u.action id = w.action id ∧ u.sys = w.sys
        ∧ w.log <+: u.log := by
  obtain ⟨cb, hcb⟩ := Option.isSome_iff_exists.mp hcb
  unfold readCallback at hcalls ⊢
  rw [get_bind_apply, hcb] at hcalls ⊢
  dsimp only at hcalls ⊢
  rw [modify_bind_apply, bind_apply] at hcalls ⊢
  generalize hv : ({ w.addLog [Entry.readCallback id cb src ret iov] with user := w.user.tail } : World) = v at *
  have hvlog : v.log = w.log ++ [Entry.readCallback id cb src ret iov] := by rw [← hv]; rfl
  have hscript : ((w.user.headD []).forM exec v).state.Untouched k id := by
    cases hrun : (w.user.headD []).forM exec v with
    | ok r u =>
      rw [hrun] at hcalls
      exact hcalls.of_prefix (List.prefix_append _ _)
    | error f u =>
      rw [hrun] at hcalls
      exact hcalls
  have hlen : k ≤ v.log.length := by
    rw [hvlog, List.length_append]
    exact Nat.le_add_right_of_le hk
  obtain ⟨u, hu, haction, hsys, hgrows, _⟩ := script_untouched _ hlen hscript
  rw [hu]
  refine ⟨_, rfl, ?_, ?_, ?_⟩
  . show u.action id = w.action id
    rw [haction, ← hv]
    rfl
  . show u.sys = w.sys
    rw [hsys, ← hv]
    rfl
  . rw [hvlog] at hgrows
    exact (List.prefix_append _ _).trans (hgrows.trans (List.prefix_append _ _))

theorem writeCallback_untouched {task : Nat} {ret : Int} (hk : k ≤ w.log.length)
    (hcb : (w.action id).hasCallback .write = true)
    (hcalls : (writeCallback id task ret w).state.Untouched k id)
    : ∃ u, writeCallback id task ret w = .ok () u ∧ u.action id = w.action id ∧ u.sys = w.sys
        ∧ w.log <+: u.log := by
  obtain ⟨cb, hcb⟩ := Option.isSome_iff_exists.mp hcb
  unfold writeCallback at hcalls ⊢
  rw [get_bind_apply, hcb] at hcalls ⊢
  dsimp only at hcalls ⊢
  rw [modify_bind_apply] at hcalls ⊢
  generalize hv : ({ w.addLog [Entry.writeCallback id cb task ret (w.user.headD [])] with
    user := w.user.tail } : World) = v at *
  have hvlog : v.log = w.log ++ [Entry.writeCallback id cb task ret (w.user.headD [])] := by rw [← hv]; rfl
  have hlen : k ≤ v.log.length := by
    rw [hvlog, List.length_append]
    exact Nat.le_add_right_of_le hk
  obtain ⟨u, hu, haction, hsys, hgrows, _⟩ := script_untouched _ hlen hcalls
  refine ⟨u, hu, ?_, ?_, ?_⟩
  . rw [haction, ← hv]
    rfl
  . rw [hsys, ← hv]
    rfl
  . rw [hvlog] at hgrows
    exact (List.prefix_append _ _).trans hgrows

def transfer (side : Side) (id : Nat) (t : Task) (isEventTriggered : Bool) : EventM Bool :=
  match side with
  | .read => doReadTask.transfer id t isEventTriggered
  | .write => doWriteTask.transfer id t

-- A transfer goes on at the file position from then on.
def EventAction.clearOffset (a : EventAction) : Side → EventAction
  | .read => { a with readOffset := none }
  | .write => { a with writeOffset := none }

def callback (side : Side) (id : Nat) (t : Task) (ret : Int) : EventM Unit :=
  match side with
  | .read => readCallback id (.task t.id) ret t.buffer
  | .write => writeCallback id t.id ret

theorem callback_untouched {t : Task} {ret : Int} (hk : k ≤ w.log.length)
    (hcb : (w.action id).hasCallback side = true) (hcalls : (callback side id t ret w).state.Untouched k id)
    : ∃ u, callback side id t ret w = .ok () u ∧ u.action id = w.action id ∧ u.sys = w.sys
        ∧ w.log <+: u.log := by
  cases side with
  | read => exact readCallback_untouched hk hcb hcalls
  | write => exact writeCallback_untouched hk hcb hcalls

-- A transfer that is finished reports to the callback.
theorem transfer_eq (isEventTriggered : Bool) (t : Task) {r : FdRet} {sys : List SysRet}
    (h : ServingFile side q (w.action id))
    (hoffset : side = .read → (w.action id).readOffset = none) (hio : side.io t.buffer w.sys = .done r sys)
    : ∃ v, transfer side id t isEventTriggered w = (do callback side id t r.ret; return false : EventM Bool) v
        ∧ v.action id = (w.action id).clearOffset side ∧ v.sys = sys ∧ w.log <+: v.log := by
  have hflag := Side.io_flag hio
  cases side with
  | read =>
    have hread : (w.action id).readOp = some .file := by
      unfold EventAction.readOp
      rw [h.ops]
      rfl
    have hfile : liftIo (readIov (some .file) false t.buffer) w = .ok r { w with sys := sys } := by
      unfold liftIo
      rw [show readIov (some .file) false t.buffer w.sys = _ from hio]
    refine ⟨{ w with sys := sys }, ?_, ?_, rfl, List.prefix_rfl⟩
    . unfold transfer doReadTask.transfer
      dsimp only
      rw [get_bind_apply, h.type, if_neg (by decide), hread, bind_apply, hfile]
      dsimp only
      unfold Event.modifyAction
      rw [modify_bind_apply, hflag]
      simp only [Bool.not_false, Bool.and_true, World.modifyAction_self, Bool.false_and, Bool.false_eq_true, if_false]
      rfl
    . show w.action id = _
      unfold EventAction.clearOffset
      dsimp only
      rw [← hoffset rfl]
  | write =>
    have hwrite : (w.action id).writeOp = some .file := by
      unfold EventAction.writeOp
      rw [h.ops]
      rfl
    have hfile : liftIo (writeIov (some .file) t.buffer) w = .ok r { w with sys := sys } := by
      unfold liftIo
      rw [show writeIov (some .file) t.buffer w.sys = _ from hio]
    refine ⟨({ w with sys := sys }.addLog
      (r.moved.map fun m : List Iovec × Nat => .sent id t.id t.sockaddr m.1 m.2)).modifyAction id
      fun a => { a with writeOffset := none }, ?_, ?_, rfl, List.prefix_append _ _⟩
    . unfold transfer doWriteTask.transfer
      dsimp only
      rw [get_bind_apply, hwrite, bind_apply, hfile]
      dsimp only
      unfold Event.modifyAction
      rw [modify_bind_apply, modify_bind_apply, hflag, Bool.false_and, if_neg (by decide)]
      rfl
    . simp [EventAction.clearOffset, World.addLog, World.action]

theorem transfer_stuck (isEventTriggered : Bool) (t : Task) (h : ServingFile side q (w.action id))
    (hio : ∀ r sys, side.io t.buffer w.sys ≠ .done r sys)
    : ∃ f u, transfer side id t isEventTriggered w = .error f u := by
  cases side with
  | read =>
    have hread : (w.action id).readOp = some .file := by
      unfold EventAction.readOp
      rw [h.ops]
      rfl
    have hfile : ∃ f, liftIo (readIov (some .file) false t.buffer) w = .error f w := by
      unfold liftIo
      cases hread : readIov (some .file) false t.buffer w.sys with
      | done r sys => exact absurd hread (hio r sys)
      | cut => exact ⟨.cut, rfl⟩
      | null => exact ⟨.nullDeref, rfl⟩
    obtain ⟨f, hfile⟩ := hfile
    refine ⟨f, w, ?_⟩
    unfold transfer doReadTask.transfer
    dsimp only
    rw [get_bind_apply, h.type, if_neg (by decide), hread, bind_apply, hfile]
  | write =>
    have hwrite : (w.action id).writeOp = some .file := by
      unfold EventAction.writeOp
      rw [h.ops]
      rfl
    have hfile : ∃ f, liftIo (writeIov (some .file) t.buffer) w = .error f w := by
      unfold liftIo
      cases hwrite : writeIov (some .file) t.buffer w.sys with
      | done r sys => exact absurd hwrite (hio r sys)
      | cut => exact ⟨.cut, rfl⟩
      | null => exact ⟨.nullDeref, rfl⟩
    obtain ⟨f, hfile⟩ := hfile
    refine ⟨f, w, ?_⟩
    unfold transfer doWriteTask.transfer
    dsimp only
    rw [get_bind_apply, hwrite, bind_apply, hfile]

theorem doTask_none {t : Task} (h : ServingFile side q (w.action id)) (hbuf : t.buffer ≠ [])
    (hoffset : (w.action id).offset side = none)
    : doTask side id t isEventTriggered w = transfer side id t isEventTriggered w := by
  cases side with
  | read =>
    unfold EventAction.offset at hoffset
    dsimp only at hoffset
    unfold doTask doReadTask
    dsimp only
    rw [get_bind_apply, if_neg hbuf, hoffset]
    rfl
  | write =>
    unfold EventAction.offset at hoffset
    dsimp only at hoffset
    unfold doTask doWriteTask
    dsimp only
    rw [get_bind_apply, if_neg hbuf, hoffset]
    rfl

theorem lseek_cut (task offset : Nat) (hsys : w.sys = []) : lseek id task offset w = .error .cut w := by
  unfold lseek
  rw [bind_apply]
  unfold liftIo
  rw [hsys]

theorem lseek_fail {e : Errno} {sys : List SysRet} (task offset : Nat) (hsys : w.sys = .fail e :: sys)
    : lseek id task offset w = .ok false { w with sys := sys } := by
  unfold lseek
  rw [bind_apply]
  unfold liftIo
  rw [hsys]
  dsimp only
  rw [modify_bind_apply, if_neg (by decide)]
  unfold World.addLog
  rw [List.append_nil]
  rfl

theorem lseek_moves {n : Nat} {lens : List Nat} {sys : List SysRet} (task offset : Nat)
    (hsys : w.sys = .ok n lens :: sys)
    : lseek id task offset w = .ok true ({ w with sys := sys }.addLog [.lseek id task offset]) := by
  unfold lseek
  rw [bind_apply]
  unfold liftIo
  rw [hsys]
  rfl

-- `lseek` has succeeded.
def afterSeek (side : Side) (id : Nat) (t : Task) (o : Nat) (sys : List SysRet) (w : World) : World :=
  match side with
  | .read => ({ w with sys := sys }.addLog [.lseek id t.id o]).modifyAction id fun a => { a with readOffset := none }
  | .write => { w with sys := sys }.addLog [.lseek id t.id o]

theorem afterSeek_sys (side : Side) (t : Task) (o : Nat) (sys : List SysRet) (w : World)
    : (afterSeek side id t o sys w).sys = sys := by
  cases side with
  | read => rfl
  | write => rfl

theorem afterSeek_log (id : Nat) (side : Side) (t : Task) (o : Nat) (sys : List SysRet) (w : World)
    : w.log <+: (afterSeek side id t o sys w).log := by
  cases side with
  | read => exact List.prefix_append _ _
  | write => exact List.prefix_append _ _

theorem ServingFile.afterSeek (t : Task) (o : Nat) (sys : List SysRet) (h : ServingFile side q (w.action id))
    : ServingFile side q ((afterSeek side id t o sys w).action id)
        ∧ (side = .read → ((Event.afterSeek side id t o sys w).action id).readOffset = none) := by
  cases side with
  | read =>
    have haction : (Event.afterSeek .read id t o sys w).action id = { w.action id with readOffset := none } := by
      simp [Event.afterSeek, World.addLog, World.action]
    rw [haction]
    exact ⟨⟨h.type, h.ops, h.ready, h.callback, h.tasks, h.buffers⟩, fun _ => rfl⟩
  | write => exact ⟨h, nofun⟩

-- `lseek` is called for the first task after an offset has been given.
theorem doTask_some (isEventTriggered : Bool) {t : Task} {o : Nat} (h : ServingFile side q (w.action id))
    (hbuf : t.buffer ≠ [])
    (hoffset : (w.action id).offset side = some o)
    : doTask side id t isEventTriggered w = match w.sys with
        | [] => .error .cut w
        | .fail _ :: sys => (do callback side id t (-1); return false : EventM Bool) { w with sys := sys }
        | .ok _ _ :: sys => transfer side id t isEventTriggered (afterSeek side id t o sys w) := by
  cases side with
  | read =>
    unfold EventAction.offset at hoffset
    dsimp only at hoffset
    unfold doTask doReadTask
    dsimp only
    rw [get_bind_apply, if_neg hbuf, hoffset]
    dsimp only
    rw [bind_apply]
    cases hsys : w.sys with
    | nil => rw [lseek_cut _ _ hsys]
    | cons a sys =>
      cases a with
      | ok n lens =>
        rw [lseek_moves _ _ hsys]
        rfl
      | fail e =>
        rw [lseek_fail _ _ hsys]
        rfl
  | write =>
    unfold EventAction.offset at hoffset
    dsimp only at hoffset
    unfold doTask doWriteTask
    dsimp only
    rw [get_bind_apply, if_neg hbuf, hoffset]
    dsimp only
    rw [bind_apply]
    cases hsys : w.sys with
    | nil => rw [lseek_cut _ _ hsys]
    | cons a sys =>
      cases a with
      | ok n lens =>
        rw [lseek_moves _ _ hsys]
        rfl
      | fail e =>
        rw [lseek_fail _ _ hsys]
        rfl

theorem popReadTask_log (id : Nat) (w : World) : (popReadTask id w).state.log = w.log := by
  unfold popReadTask
  rw [get_bind_apply]
  cases (w.action id).pendingReadTask <;> rfl

theorem popWriteTask_state_log (id : Nat) (w : World) : (popWriteTask id w).state.log = w.log := by
  unfold popWriteTask
  rw [get_bind_apply]
  cases (w.action id).pendingWriteTask <;> rfl

theorem requeue_log (side : Side) (id : Nat) (t : Task) (again : Bool) (w : World)
    : (requeue side id t again w).state.log = w.log := by
  unfold requeue Event.modifyAction
  cases side with
  | read =>
    dsimp only
    rw [modify_bind_apply, popReadTask_log]
    rfl
  | write =>
    dsimp only
    rw [modify_bind_apply, popWriteTask_state_log]
    rfl

-- The task that has been carried out leaves the queue.
theorem requeue_serving {s : Nat × Submission} (t : Task) (h : ServingFile side (s :: q) (w.action id))
    : ∃ u, requeue side id t false w = .ok () u ∧ ServingFile side q (u.action id)
        ∧ (u.action id).offset side = (w.action id).offset side ∧ u.sys = w.sys ∧ u.log = w.log := by
  have htasks := h.tasks
  cases side with
  | read =>
    unfold EventAction.pendingTask at htasks
    dsimp only at htasks
    rw [List.map_cons] at htasks
    have haction : (w.modifyAction id fun a =>
        { a with pendingReadTask := q.map fun s => s.2.task .read s.1 }).action id
        = { w.action id with pendingReadTask := q.map fun s => s.2.task .read s.1 } := by simp
    refine ⟨w.modifyAction id fun a => { a with pendingReadTask := q.map fun s => s.2.task .read s.1 }, ?_, ?_, ?_,
      rfl, rfl⟩
    . unfold requeue popReadTask Event.modifyAction
      dsimp only
      rw [modify_bind_apply]
      simp only [Bool.false_eq_true, if_false, World.modifyAction_self]
      rw [get_bind_apply, htasks]
      rfl
    . rw [haction]
      exact ⟨h.type, h.ops, h.ready, h.callback, rfl, fun s hs => h.buffers s (List.mem_cons_of_mem _ hs)⟩
    . rw [haction]
      rfl
  | write =>
    unfold EventAction.pendingTask at htasks
    dsimp only at htasks
    rw [List.map_cons] at htasks
    have haction : (w.modifyAction id fun a =>
        { a with pendingWriteTask := q.map fun s => s.2.task .write s.1 }).action id
        = { w.action id with pendingWriteTask := q.map fun s => s.2.task .write s.1 } := by simp
    refine ⟨w.modifyAction id fun a => { a with pendingWriteTask := q.map fun s => s.2.task .write s.1 }, ?_, ?_, ?_,
      rfl, rfl⟩
    . unfold requeue popWriteTask Event.modifyAction
      dsimp only
      rw [modify_bind_apply]
      simp only [Bool.false_eq_true, if_false, World.modifyAction_self]
      rw [get_bind_apply, htasks]
      rfl
    . rw [haction]
      exact ⟨h.type, h.ops, h.ready, h.callback, rfl, fun s hs => h.buffers s (List.mem_cons_of_mem _ hs)⟩
    . rw [haction]
      rfl

theorem ServingFile.clearOffset {a : EventAction} (h : ServingFile side q a)
    : ServingFile side q (a.clearOffset side) := by
  cases side with
  | read => exact ⟨h.type, h.ops, h.ready, h.callback, h.tasks, h.buffers⟩
  | write => exact ⟨h.type, h.ops, h.ready, h.callback, h.tasks, h.buffers⟩

theorem clearOffset_offset (a : EventAction) : (a.clearOffset side).offset side = none := by
  cases side with
  | read =>
    unfold EventAction.offset EventAction.clearOffset
    dsimp only
    split
    . rfl
    . rfl
  | write => rfl

-- The callback is called, the task leaves the queue.
theorem callback_requeue {s : Nat × Submission} {t : Task} {ret : Int} (hk : k ≤ w.log.length)
    (h : ServingFile side (s :: q) (w.action id))
    (hcalls : ((do callback side id t ret; requeue side id t false : EventM Unit) w).state.Untouched k id)
    : ∃ u, (do callback side id t ret; requeue side id t false : EventM Unit) w = .ok () u
        ∧ ServingFile side q (u.action id) ∧ (u.action id).offset side = (w.action id).offset side ∧ u.sys = w.sys
        ∧ w.log <+: u.log := by
  have hcallback : (callback side id t ret w).state.Untouched k id :=
    EStateM.state_of_bind (G := fun w : World => w.Untouched k id)
      (fun _ u hu => hu.of_log (requeue_log side id t false u).symm) hcalls
  obtain ⟨v, hv, haction, hsys, hlog⟩ := callback_untouched hk h.callback hcallback
  rw [← haction] at h ⊢
  obtain ⟨u, hu, hserving, hoffset, hsys', hlog'⟩ := requeue_serving t h
  refine ⟨u, ?_, hserving, hoffset, by rw [hsys', hsys], by rw [hlog']; exact hlog⟩
  rw [bind_apply, hv]
  exact hu

theorem doTask_requeue {m : EventM Bool} {v : World} {s : Nat × Submission} {t : Task} {ret : Int}
    (hm : m w = (do callback side id t ret; return false : EventM Bool) v) (hk : k ≤ v.log.length)
    (h : ServingFile side (s :: q) (v.action id))
    (hcalls : ((m >>= fun again => requeue side id t again) w).state.Untouched k id)
    : ∃ u, (m >>= fun again => requeue side id t again) w = .ok () u ∧ ServingFile side q (u.action id)
        ∧ (u.action id).offset side = (v.action id).offset side ∧ u.sys = v.sys ∧ v.log <+: u.log := by
  have hrun : (m >>= fun again => requeue side id t again) w
      = (do callback side id t ret; requeue side id t false : EventM Unit) v := by
    rw [bind_apply, hm, bind_apply, bind_apply]
    cases callback side id t ret v with
    | ok r u => rfl
    | error f u => rfl
  rw [hrun] at hcalls ⊢
  exact callback_requeue hk h hcalls

-- A transfer at the file position.
theorem transfer_leaves {m : EventM Bool} {v : World} {s : Nat × Submission}
    (h : ServingFile side (s :: q) (v.action id))
    (hm : m w = transfer side id (s.2.task side s.1) isEventTriggered v)
    (hoffset : side = .read → (v.action id).readOffset = none) (hk : k ≤ v.log.length)
    (hcalls : ((m >>= fun again => requeue side id (s.2.task side s.1) again) w).state.Untouched k id)
    : match side.io s.2.buf v.sys with
      | .done _ sys => ∃ u, (m >>= fun again => requeue side id (s.2.task side s.1) again) w = .ok () u
          ∧ ServingFile side q (u.action id) ∧ (u.action id).offset side = none ∧ u.sys = sys ∧ v.log <+: u.log
      | _ => ∃ f u, (m >>= fun again => requeue side id (s.2.task side s.1) again) w = .error f u := by
  have hstuck : (∀ r sys, side.io s.2.buf v.sys ≠ .done r sys)
      → ∃ f u, (m >>= fun again => requeue side id (s.2.task side s.1) again) w = .error f u := by
    intro hio
    obtain ⟨f, u, hu⟩ := transfer_stuck isEventTriggered (s.2.task side s.1) h hio
    refine ⟨f, u, ?_⟩
    rw [bind_apply, hm, hu]
  cases hio : side.io s.2.buf v.sys with
  | done r sys =>
    obtain ⟨v', hv', haction, hsys, hlog⟩ := transfer_eq isEventTriggered (s.2.task side s.1) h hoffset hio
    have hserving : ServingFile side (s :: q) (v'.action id) := by
      rw [haction]
      exact h.clearOffset
    obtain ⟨u, hu, hserving', hoffset', hsys', hlog'⟩ :=
      doTask_requeue (hm.trans hv') (Nat.le_trans hk hlog.length_le) hserving hcalls
    refine ⟨u, hu, hserving', ?_, by rw [hsys', hsys], hlog.trans hlog'⟩
    rw [hoffset', haction, clearOffset_offset]
  | cut => exact hstuck (by rw [hio]; nofun)
  | null => exact hstuck (by rw [hio]; nofun)

theorem iteration_leaves {s : Nat × Submission} (h : ServingFile side (s :: q) (w.action id)) (hk : k ≤ w.log.length)
    (hcalls : (iteration side id (s.2.task side s.1) isEventTriggered w).state.Untouched k id)
    : match taskLeaves side.io ((w.action id).offset side) s.2.buf w.sys with
      | some (offset, sys) => ∃ u, iteration side id (s.2.task side s.1) isEventTriggered w = .ok () u
          ∧ ServingFile side q (u.action id) ∧ (u.action id).offset side = offset ∧ u.sys = sys ∧ w.log <+: u.log
      | none => ∃ f u, iteration side id (s.2.task side s.1) isEventTriggered w = .error f u := by
  have hbuf : (s.2.task side s.1).buffer ≠ [] := h.buffers s List.mem_cons_self
  unfold iteration at hcalls ⊢
  unfold taskLeaves
  cases hoffset : (w.action id).offset side with
  | none =>
    have hread : side = .read → (w.action id).readOffset = none := by
      rintro rfl
      unfold EventAction.offset at hoffset
      dsimp only at hoffset
      rwa [if_pos h.type] at hoffset
    have hleaves := transfer_leaves h (doTask_none h hbuf hoffset) hread hk hcalls
    dsimp only
    cases hio : side.io s.2.buf w.sys with
    | done r sys =>
      rw [hio] at hleaves
      exact hleaves
    | cut =>
      rw [hio] at hleaves
      exact hleaves
    | null =>
      rw [hio] at hleaves
      exact hleaves
  | some o =>
    have hdo := doTask_some isEventTriggered h hbuf hoffset
    cases hsys : w.sys with
    | nil =>
      rw [hsys] at hdo
      refine ⟨.cut, w, ?_⟩
      rw [bind_apply, hdo]
    | cons a sys =>
      cases a with
      | fail e =>
        rw [hsys] at hdo
        obtain ⟨u, hu, hserving, hoffset', hsys', hlog⟩ := doTask_requeue hdo hk h hcalls
        exact ⟨u, hu, hserving, hoffset'.trans hoffset, hsys', hlog⟩
      | ok n lens =>
        rw [hsys] at hdo
        obtain ⟨hserving, hread⟩ := h.afterSeek (s.2.task side s.1) o sys
        have hlog := afterSeek_log id side (s.2.task side s.1) o sys w
        have hleaves := transfer_leaves hserving hdo hread (Nat.le_trans hk hlog.length_le) hcalls
        rw [afterSeek_sys] at hleaves
        dsimp only
        cases hio : side.io s.2.buf sys with
        | done r left =>
          rw [hio] at hleaves
          obtain ⟨u, hu, hserving', hoffset', hsys', hlog'⟩ := hleaves
          exact ⟨u, hu, hserving', hoffset', hsys', hlog.trans hlog'⟩
        | cut =>
          rw [hio] at hleaves
          exact hleaves
        | null =>
          rw [hio] at hleaves
          exact hleaves

theorem loop_log (log : List Entry) (n : Nat)
    : Preserves (fun w => log <+: w.log) (loop side id isEventTriggered n) := by
  have hframe := logFrame log fun _ => True
  intro w hw
  cases side with
  | read =>
    exact (((hframe.read id).readLoop isEventTriggered n).conseq (fun _ h => h) (fun _ _ h => h.2)
      fun _ _ h => h.2) w ⟨fun _ _ _ _ => True.intro, hw⟩
  | write => exact writeLoop_log log n w hw

theorem loopStarts_eq (h : ServingFile side q (w.action id)) (hk : k ≤ w.log.length) (pos : Nat)
    (hcalls : (loop side id isEventTriggered q.length w).state.Untouched k id)
    : loopStarts side id isEventTriggered q.length pos w
        = fileStarts side.io ((w.action id).offset side) pos q w.sys := by
  induction q generalizing w pos with
  | nil => rfl
  | cons s q ih =>
    have htasks := h.tasks
    rw [List.map_cons] at htasks
    rw [List.length_cons, loop_succ htasks] at hcalls
    have hiteration : (iteration side id (s.2.task side s.1) isEventTriggered w).state.Untouched k id :=
      EStateM.state_of_bind (G := fun w : World => w.Untouched k id)
        (fun _ u hu => hu.of_prefix ((loop_log u.log q.length).state List.prefix_rfl)) hcalls
    have hleaves := iteration_leaves h hk hiteration
    rw [List.length_cons, loopStarts, htasks]
    unfold fileStarts
    dsimp only
    congr 1
    rw [show (s.2.task side s.1).buffer = s.2.buf from rfl]
    cases hnext : taskLeaves side.io ((w.action id).offset side) s.2.buf w.sys with
    | none =>
      rw [hnext] at hleaves
      obtain ⟨f, u, hu⟩ := hleaves
      rw [hu]
    | some p =>
      rw [hnext] at hleaves
      obtain ⟨u, hu, hserving, hoffset, hsys, hlog⟩ := hleaves
      rw [bind_apply, hu] at hcalls
      rw [hu]
      dsimp only
      rw [ih hserving (Nat.le_trans hk hlog.length_le) _ hcalls, hoffset, hsys]

end

section

variable {io : List Iovec → List SysRet → Io FdRet} {own : Nat → Option Nat} {q : List (Nat × Submission)}

-- Every transfer starts at the offset of its task.
def StartsAt (own : Nat → Option Nat) (starts : List (Nat × Option Nat)) : Prop :=
  ∀ n pos, (n, some pos) ∈ starts → own n = some pos

-- Each task has the offset at which the transfer before it ends.
def Follows (io : List Iovec → List SysRet → Io FdRet) : Nat → List Submission → List SysRet → Prop
  | _, [], _ => True
  | pos, r :: rs, sys => r.offset = pos ∧ match io r.buf sys with
    | .done f sys => Follows io (pos + f.count) rs sys
    | _ => True

-- The first task that `lseek` succeeds for has the offset `last`.
def Sought (io : List Iovec → List SysRet → Io FdRet) (last : Nat) : List Submission → List SysRet → Prop
  | r :: rs, .ok _ _ :: sys => Follows io last (r :: rs) sys
  | _ :: rs, .fail _ :: sys => Sought io last rs sys
  | _, _ => True

theorem StartsAt.cons_iff {n : Nat} {start : Option Nat} {starts : List (Nat × Option Nat)}
    : StartsAt own ((n, start) :: starts) ↔ (∀ pos, start = some pos → own n = some pos) ∧ StartsAt own starts := by
  unfold StartsAt
  constructor
  . intro h
    refine ⟨?_, fun m pos hmem => h m pos (List.mem_cons_of_mem _ hmem)⟩
    rintro pos rfl
    exact h n pos List.mem_cons_self
  . rintro ⟨hfirst, hrest⟩ m pos hmem
    rcases List.mem_cons.mp hmem with heq | hmem
    . cases heq
      exact hfirst pos rfl
    . exact hrest m pos hmem

theorem startsAt_nil : StartsAt own [] := by
  intro n pos hmem
  cases hmem

theorem fileStarts_none_iff (hown : ∀ s ∈ q, own s.1 = some s.2.offset) (hbuf : ∀ s ∈ q, s.2.buf ≠ []) (pos : Nat)
    (sys : List SysRet)
    : StartsAt own (fileStarts io none pos q sys) ↔ Follows io pos (q.map (·.2)) sys := by
  induction q generalizing pos sys with
  | nil => exact ⟨fun _ => trivial, fun _ => startsAt_nil⟩
  | cons s q ih =>
    rw [List.forall_mem_cons] at hown hbuf
    have hstart : (∀ p, some pos = some p → own s.1 = some p) ↔ s.2.offset = pos := by
      rw [hown.1]
      constructor
      . intro h
        exact Option.some.inj (h pos rfl)
      . rintro h p hp
        rw [h]
        exact hp
    unfold fileStarts taskAt taskLeaves
    rw [if_neg hbuf.1, List.map_cons, Follows]
    dsimp only
    unfold transferAt
    cases hio : io s.2.buf sys with
    | done f sys =>
      dsimp only
      rw [StartsAt.cons_iff, hstart, ih hown.2 hbuf.2]
    | cut =>
      dsimp only
      rw [StartsAt.cons_iff, hstart]
      exact and_congr_right fun _ => iff_of_true startsAt_nil trivial
    | null =>
      dsimp only
      rw [StartsAt.cons_iff, hstart]
      exact and_congr_right fun _ => iff_of_true startsAt_nil trivial

theorem fileStarts_some_iff (hown : ∀ s ∈ q, own s.1 = some s.2.offset) (hbuf : ∀ s ∈ q, s.2.buf ≠ []) (last pos : Nat)
    (sys : List SysRet)
    : StartsAt own (fileStarts io (some last) pos q sys) ↔ Sought io last (q.map (·.2)) sys := by
  induction q generalizing pos sys with
  | nil => exact ⟨fun _ => by unfold Sought; trivial, fun _ => startsAt_nil⟩
  | cons s q ih =>
    cases sys with
    | nil =>
      rw [List.forall_mem_cons] at hbuf
      refine iff_of_true ?_ (by unfold Sought; trivial)
      unfold fileStarts taskAt
      rw [if_neg hbuf.1]
      exact StartsAt.cons_iff.mpr ⟨nofun, startsAt_nil⟩
    | cons a sys =>
      cases a with
      | ok n lens =>
        rw [List.map_cons, Sought, ← List.map_cons (f := Prod.snd), ← fileStarts_none_iff hown hbuf]
        rw [List.forall_mem_cons] at hbuf
        unfold fileStarts taskAt taskLeaves
        rw [if_neg hbuf.1, if_neg hbuf.1]
      | fail e =>
        rw [List.forall_mem_cons] at hown hbuf
        rw [List.map_cons, Sought, ← ih hown.2 hbuf.2 pos]
        have hstarts : fileStarts io (some last) pos (s :: q) (.fail e :: sys)
            = (s.1, none) :: fileStarts io (some last) pos q sys := by
          rw [fileStarts]
          unfold taskAt taskLeaves
          rw [if_neg hbuf.1]
        rw [hstarts, StartsAt.cons_iff]
        exact and_iff_right nofun

end

section

variable {side : Side} {id : Nat} {q : List (Nat × Submission)} {w : World} {isEventTriggered : Bool}

-- Nothing but the tasks of the side is to be carried out before them.
structure EventAction.Only (a : EventAction) (side : Side) : Prop where
  multishotReadTask : a.multishotReadTask = none
  reads : side = .write → a.pendingReadTask = [] ∧ a.hasAcceptTask = false

theorem EventAction.Only.isHeld {a : EventAction} (h : a.Only side) : a.isHeld = false := by
  unfold EventAction.isHeld
  rw [h.multishotReadTask, Option.any_none, Bool.and_false]

theorem handleRead_nothing (isEventTriggered : Bool) (h : (w.action id).Only .write)
    : ∃ u, handleRead id isEventTriggered w = .ok () u ∧ u.action id = w.action id ∧ u.sys = w.sys
        ∧ w.log <+: u.log := by
  obtain ⟨hreads, haccept⟩ := h.reads rfl
  unfold handleRead
  rw [get_bind_apply]
  cases hready : (w.action id).isReadable with
  | false => exact ⟨w, rfl, rfl, rfl, List.prefix_rfl⟩
  | true =>
    refine ⟨w.addLog [.readPass id w.poll w.sys w.user], ?_, rfl, rfl, List.prefix_append _ _⟩
    have hpass : readPass id isEventTriggered w = .ok () (w.addLog [.readPass id w.poll w.sys w.user]) := by
      unfold readPass
      rw [get_bind_apply, modify_bind_apply, hreads]
      rfl
    rw [if_pos rfl, h.multishotReadTask]
    dsimp only
    rw [bind_apply, hpass]
    unfold acceptPass
    dsimp only
    rw [get_bind_apply,
      show ((w.addLog [.readPass id w.poll w.sys w.user]).action id).hasAcceptTask = false from haccept]
    rfl

theorem acceptPass_log (log : List Entry) : Preserves (fun w => log <+: w.log) (acceptPass id) := by
  intro w hw
  exact ((((logFrame log fun _ => True).read id).acceptPass).conseq (fun _ h => h) (fun _ _ h => h.2)
    fun _ _ h => h.2) w ⟨fun _ _ _ _ => True.intro, hw⟩

theorem startsOf_read (h : ServingFile .read q (w.action id)) (honly : (w.action id).Only .read) (pos : Nat)
    (hcalls : (handleEvents id isEventTriggered w).state.Untouched w.log.length id)
    : startsOf .read id isEventTriggered pos w
        = fileStarts Side.read.io ((w.action id).offset .read) pos q w.sys := by
  have hlength : (w.action id).pendingReadTask.length = q.length := by
    rw [show (w.action id).pendingReadTask = _ from h.tasks, List.length_map]
  have hready : (w.action id).isReadable = true := h.ready
  have hpass : handleRead id isEventTriggered w = (do
      loop .read id isEventTriggered q.length
      acceptPass id : EventM Unit) (w.addLog [.readPass id w.poll w.sys w.user]) := by
    unfold handleRead
    rw [get_bind_apply, if_pos hready, honly.multishotReadTask]
    dsimp only
    unfold readPass
    rw [bind_apply, get_bind_apply, modify_bind_apply, hlength]
    rfl
  have hread : (handleRead id isEventTriggered w).state.Untouched w.log.length id := by
    unfold handleEvents at hcalls
    rw [get_bind_apply, honly.isHeld, if_neg (by decide)] at hcalls
    exact EStateM.state_of_bind (G := fun u : World => u.Untouched w.log.length id)
      (fun _ u hu => hu.of_prefix ((handleWrite_log u.log).state List.prefix_rfl)) hcalls
  rw [hpass] at hread
  have hloop := EStateM.state_of_bind (G := fun u : World => u.Untouched w.log.length id)
    (fun _ u hu => hu.of_prefix ((acceptPass_log u.log).state List.prefix_rfl)) hread
  unfold startsOf
  rw [honly.isHeld, if_neg (by decide)]
  dsimp only
  rw [hready, honly.multishotReadTask, if_pos (by decide), hlength]
  exact loopStarts_eq (w := w.addLog [.readPass id w.poll w.sys w.user]) h (List.prefix_append _ _).length_le pos hloop

theorem startsOf_write (h : ServingFile .write q (w.action id)) (honly : (w.action id).Only .write) (pos : Nat)
    (hcalls : (handleEvents id isEventTriggered w).state.Untouched w.log.length id)
    : startsOf .write id isEventTriggered pos w
        = fileStarts Side.write.io ((w.action id).offset .write) pos q w.sys := by
  obtain ⟨u, hu, haction, hsys, hlog⟩ := handleRead_nothing isEventTriggered honly
  rw [handleEvents_of_handleRead honly.isHeld hu] at hcalls
  rw [← haction] at h
  have hlength : (u.action id).pendingWriteTask.length = q.length := by
    rw [show (u.action id).pendingWriteTask = _ from h.tasks, List.length_map]
  have hready : (u.action id).isWritable = true := h.ready
  unfold startsOf
  rw [honly.isHeld, if_neg (by decide)]
  dsimp only
  rw [hu]
  dsimp only
  rw [hready, if_pos rfl, hlength, ← haction, ← hsys]
  cases q with
  | nil => rfl
  | cons s q =>
    have htasks : (u.action id).pendingWriteTask ≠ [] := by
      rw [show (u.action id).pendingWriteTask = _ from h.tasks]
      nofun
    have hpass : handleWrite id u = loop .write id isEventTriggered (s :: q).length
        (u.addLog [.writePass id u.poll u.sys u.user]) := by
      unfold handleWrite
      rw [get_bind_apply, hready, Bool.true_and, if_pos (decide_eq_true htasks)]
      unfold writePass
      rw [get_bind_apply, modify_bind_apply, hlength]
      rfl
    rw [hpass] at hcalls
    exact loopStarts_eq (w := u.addLog [.writePass id u.poll u.sys u.user]) h
      (hlog.trans (List.prefix_append _ _)).length_le pos hcalls

end

end Event
end Ezio
