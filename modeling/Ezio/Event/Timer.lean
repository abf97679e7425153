import Ezio.Lib.Run
import Ezio.Event.Epoll.Dispatch

/-!
This module contains `timer` on the epoll backend: `create_timer` and `close_timer` of `epoll`, the timerfds in the
kernel and the steps in which `dispatch` reads them and calls the handlers.

`handle_events` and `do_ready_tasks` are cut into steps here, so that a timer may expire between any two of them. The
user creates and closes timers in the handlers, in other callbacks and between two calls of `dispatch`. The other files
of the loop are left out, they have an `event_info` and numbers of their own.
-/

namespace Ezio
namespace Event
namespace Timers

-- `iov_ptr_`, which describes `callback_para_`
def iov : List Iovec := [⟨0, 8⟩]

def NANOS_OF_ONE_SECONDS : UInt64 := 1000000000

-- `timer`, and what the kernel knows about its file.
structure Timer where
  isActive : Bool := true
  -- `poll_ptr_` is not null
  hasPoll : Bool := false
  fd : Option Nat := none
  -- `timer_handler_` is not null
  hasHandler : Bool := false
  -- nobody refers to the object any more
  destroyed : Bool := false
  -- the expirations that have not been read
  counter : Nat := 0
  -- an event for the file is queued in the kernel
  edge : Bool := false
  deriving DecidableEq, Repr

-- Who has called `handle_events`: `dispatch`, which has the actions `rest` to go, or `do_ready_tasks`, which has `left`
-- of them to go.
inductive Caller where
  | dispatch (rest : List Nat)
  | doReadyTasks (left : Nat)
  deriving DecidableEq, Repr

def Caller.isEventTriggered : Caller → Bool
  | dispatch _ => true
  | doReadyTasks _ => false

-- The loop over `left` tasks of the action `id`.
structure Pass where
  id : Nat
  left : Nat
  caller : Caller
  deriving DecidableEq, Repr

-- Where the thread of the loop is.
inductive Pc where
  -- between two calls of `dispatch`
  | outside
  -- in front of `epoll_wait`
  | waiting
  -- in front of `set_ready_events` of the first action
  | reported (ids : List Nat)
  -- in front of `do_read_task`
  | readTask (p : Pass)
  -- inside of `timer_handler_` of the timer `t`
  | handler (t : Nat) (p : Pass)
  -- `do_read_task` has returned
  | popTask (p : Pass)
  | readyTasks (left : Nat)
  | faulted (f : Fault)
  deriving DecidableEq, Repr

inductive Entry where
  | expires (t : Nat)
  -- `epoll_wait` gets what is queued for these timers
  | harvests (ts : List Nat)
  | handles (t count : Nat)
  | closes (t : Nat)
  -- `dispatch` returns
  | returns
  deriving DecidableEq, Repr

-- What the system calls in `timer::open` return.
structure OpenAnswers where
  -- the number of the file, `timerfd_create` fails without one
  fd : Option Nat
  nonblocking : Bool := true
  deriving DecidableEq, Repr

-- How the kernel treats the next system call of the thread of the loop.
structure Turn where
  -- `epoll_wait` fails with `EINTR`
  interrupted : Bool := false
  -- the timers that `epoll_wait` looks at, the events of the others stay queued
  harvest : List Nat := []
  -- how often `readv` fails with `EINTR`
  intrs : Nat := 0
  deriving DecidableEq, Repr

inductive Action where
  | expire (t : Nat)
  -- the user
  | createTimer (intervalS intervalNs : UInt64) (cb : Bool) (answers : OpenAnswers)
  | closeTimer (timerId : UInt32)
  | tick (turn : Turn)
  deriving DecidableEq, Repr

end Timers

open Timers

structure Timers where
  poll : Epoll := Epoll.init fun _ => false
  timers : Nat → Timer := fun _ => {}
  -- the objects that have been made
  next : Nat := 0
  timerId : UInt32 := 0
  idToTimer : UInt32 → Option Nat := fun _ => none
  -- the open timerfds in the kernel
  files : Nat → Option Nat := fun _ => none
  pc : Timers.Pc := .outside
  log : List Timers.Entry := []

namespace Timers

def addLog (w : Timers) (e : Entry) : Timers :=
  { w with log := w.log ++ [e] }

def fault (w : Timers) (f : Fault) : Timers :=
  { w with pc := .faulted f }

def modifyAction (w : Timers) (id : Nat) (f : EventAction → EventAction) : Timers :=
  { w with poll := w.poll.modifyAction id f }

def modifyTimer (w : Timers) (t : Nat) (f : Timer → Timer) : Timers :=
  { w with timers := Function.update w.timers t (f (w.timers t)) }

def timerFd (n : Nat) : Fd :=
  ⟨n, .timer⟩

def isRegistered (w : Timers) (n : Nat) : Bool :=
  (w.poll.kernel.interest n).isSome

/-! ### The kernel -/

def expire (w : Timers) (t : Nat) : Timers :=
  match (w.timers t).fd with
  | some n =>
    (w.addLog (.expires t)).modifyTimer t fun r =>
      { r with counter := r.counter + 1, edge := r.edge || w.isRegistered n }
  | none => w

-- `timerfd_settime` refuses a time in the past.
def settime (intervalS intervalNs : UInt64) : Bool :=
  (intervalS + intervalNs / NANOS_OF_ONE_SECONDS).toNat < 2 ^ 63

-- What `readv` on the number answers.
def readAnswers (w : Timers) (n intrs : Nat) : List SysRet :=
  List.replicate intrs (SysRet.fail .intr) ++
    [match w.files n with
      | some t => if 0 < (w.timers t).counter then SysRet.ok 8 [] else SysRet.fail .again
      | none => SysRet.fail .badf]

-- The file is read, the number of the expirations is in `callback_para_`.
def readCounter (w : Timers) (n : Nat) : Timers × Nat :=
  match w.files n with
  | some t => (w.modifyTimer t fun r => { r with counter := 0 }, (w.timers t).counter)
  | none => (w, 0)

/-! ### `timer` -/

-- `timer::open`, the result says whether it returns `RET_SUC`
def openTimer (w : Timers) (t : Nat) (intervalS intervalNs : UInt64) (answers : OpenAnswers) : Timers × Bool :=
  -- the sum wraps around
  if intervalS + intervalNs / NANOS_OF_ONE_SECONDS = 0 ∧ intervalNs % NANOS_OF_ONE_SECONDS = 0 then
    (w, false)
  else
    match answers.fd with
    | none => (w, false)
    | some n =>
      let w := { w with
        poll := { w.poll with kernel := w.poll.kernel.open n }
        files := Function.update w.files n (some t) }
      let w := w.modifyTimer t fun r => { r with fd := some n }
      if !answers.nonblocking || !settime intervalS intervalNs then
        (w, false)
      else
        let w := w.modifyTimer t fun r => { r with hasPoll := true }
        match w.poll.submitAsyncRead (timerFd n) ⟨false, iov⟩ (some t) none with
        | .ok (ret, poll) => ({ w with poll }, ret = 0)
        | .error f => (w.fault f, false)

-- `timer::close`
def close (w : Timers) (t : Nat) : Timers :=
  let w := (w.addLog (.closes t)).modifyTimer t fun r => { r with isActive := false, hasHandler := false }
  match (w.timers t).fd with
  | none => w
  | some n =>
    let w := { w with
      poll := { w.poll with kernel := w.poll.kernel.close n }
      files := Function.update w.files n none }
    let w := w.modifyTimer t fun r => { r with fd := none }
    if (w.timers t).hasPoll then
      match w.poll.cancelAsyncRead (timerFd n) none with
      | .ok (_, poll) => { w with poll }
      | .error f => w.fault f
    else
      w.fault .nullDeref

-- `id_to_timer_` does not refer to the timer. The object is gone if the callback of the reads of `fd` does not refer to
-- it either, and `~timer` closes the file.
def release (w : Timers) (t : Nat) (fd : Option Nat) : Timers :=
  let cb := (fd.bind w.poll.fdToEventInfo).bind fun id => (w.poll.action id).readBufIdxCallback
  if cb = some (.read t) then
    w
  else
    let w := if (w.timers t).fd.isSome then w.close t else w
    w.modifyTimer t fun r => { r with destroyed := true }

def submitReadRequest (w : Timers) (t : Nat) : Timers :=
  match (w.timers t).fd with
  | some n =>
    match w.poll.submitAsyncRead (timerFd n) ⟨false, iov⟩ none none with
    | .ok (ret, poll) => if ret = 0 then { w with poll } else w.fault .assert
    | .error f => w.fault f
  | none => w.fault .assert

/-! ### `epoll` -/

def createTimer (w : Timers) (intervalS intervalNs : UInt64) (cb : Bool) (answers : OpenAnswers) : Timers × Int :=
  if (intervalS = 0 ∧ intervalNs = 0) ∨ !cb then
    (w, -1)
  else
    let t := w.next
    match { w with next := w.next + 1 }.openTimer t intervalS intervalNs answers with
    | (w, false) => (w.release t answers.fd, -1)
    | (w, true) =>
      let timerId := w.timerId
      ({ w.modifyTimer t fun r => { r with hasHandler := true } with
          idToTimer := Function.update w.idToTimer timerId (some t)
          timerId := w.timerId + 1 }, timerId.toBitVec.toInt)

def closeTimer (w : Timers) (timerId : UInt32) : Timers × Int :=
  match w.idToTimer timerId with
  | none => (w, -1)
  | some t =>
    let fd := (w.timers t).fd
    let w := { w.close t with idToTimer := Function.update w.idToTimer timerId none }
    (w.release t fd, 0)

-- The end of `handle_events`.
def endPass (w : Timers) (caller : Caller) : Timers :=
  match caller with
  | .dispatch rest => { w with pc := .reported rest }
  | .doReadyTasks left =>
    { w with poll := { w.poll with readyEvents := w.poll.readyEvents.tail }, pc := .readyTasks left }

-- `handle_events`, a timerfd only has tasks that read
def handleEvents (w : Timers) (id : Nat) (caller : Caller) : Timers :=
  let a := w.poll.action id
  if a.isReadable ∧ a.pendingReadTask ≠ [] then
    { w with pc := .readTask ⟨id, a.pendingReadTask.length, caller⟩ }
  else
    w.endPass caller

-- `handle_timeout` of the timer that `read_buf_idx_callback_` is bound to, with the number that has been read
def handleTimeout (w : Timers) (p : Pass) (ret : Int) (count : Nat) : Timers :=
  match (w.poll.action p.id).readBufIdxCallback with
  | some (.read t) =>
    if ret ≤ 0 ∨ !(w.timers t).isActive then
      { w with pc := .popTask p }
    else if (w.timers t).hasHandler then
      { w.addLog (.handles t count) with pc := .handler t p }
    else
      { w with pc := .popTask p }.submitReadRequest t
  | _ => w.fault .emptyReadCallback

def doReadTask (w : Timers) (p : Pass) (intrs : Nat) : Timers :=
  match (w.poll.action p.id).pendingReadTask with
  | [] => w.fault .emptyReadQueue
  | task :: _ =>
    if task.buffer = [] then
      w.handleTimeout p 0 0
    else
      let n := (w.poll.action p.id).fd.key
      match readIov (w.poll.action p.id).readOp false task.buffer (w.readAnswers n intrs) with
      | .done r _ =>
        match if r.moved = [] then (w, 0) else w.readCounter n with
        | (w, count) =>
          let w := w.modifyAction p.id fun a => { a with isReadable := a.isReadable && !r.flag }
          if r.flag ∧ !p.caller.isEventTriggered ∧ r.ret = 0 then
            { w.modifyAction p.id fun a => a.addReadTask task with pc := .popTask p }
          else
            w.handleTimeout p r.ret count
      | .cut => w.fault .cut
      | .null => w.fault .nullDeref

-- The handler returns to `handle_timeout`.
def handlerReturns (w : Timers) (t : Nat) (p : Pass) : Timers :=
  if (w.timers t).destroyed then
    w.fault .useAfterFree
  else
    let w := { w with pc := .popTask p }
    if (w.timers t).isActive then w.submitReadRequest t else w

def popReadTask (w : Timers) (p : Pass) : Timers :=
  match (w.poll.action p.id).pendingReadTask with
  | [] => w.fault .emptyReadQueue
  | _ :: ts =>
    let w := w.modifyAction p.id fun a => { a with pendingReadTask := ts }
    if p.left ≤ 1 then w.endPass p.caller else { w with pc := .readTask { p with left := p.left - 1 } }

-- The kernel looks at a file when it is registered or modified.
def polled (w : Timers) (poll : Epoll) (t : Nat) : Bool :=
  match (w.timers t).fd with
  | some n =>
    0 < (w.timers t).counter ∧ (poll.kernel.interest n).isSome
      ∧ w.poll.evtChangeLst.any fun id => (w.poll.infos id).fd.key = n
  | none => false

def applyChanges (w : Timers) : Timers :=
  let poll := w.poll.applyChanges
  { w with
    poll
    timers := fun t => { w.timers t with edge := (w.timers t).edge || w.polled poll t }
    pc := .waiting }

-- What `epoll_wait` reports for the timer, if it looks at it.
def report (w : Timers) (t : Nat) : Option Nat :=
  match (w.timers t).fd with
  | some n =>
    match w.poll.kernel.interest n with
    | some (mask, id) => if (w.timers t).edge ∧ 0 < (w.timers t).counter ∧ mask.read then some id else none
    | none => none
  | none => none

def harvest (w : Timers) : List Nat → Timers × List Nat
  | [] => (w, [])
  | t :: ts =>
    match harvest (w.modifyTimer t fun r => { r with edge := false }) ts with
    | (w', ids) => (w', (w.report t).toList ++ ids)

def epollWait (w : Timers) (turn : Turn) : Timers :=
  if turn.interrupted then
    { w.addLog .returns with pc := .outside }
  else
    match w.harvest (turn.harvest.take EVENT_CNT) with
    | (w, ids) => { w.addLog (.harvests (turn.harvest.take EVENT_CNT)) with pc := .reported ids }

def setReadyEvents (w : Timers) : List Nat → Timers
  | [] => { w with pc := .readyTasks w.poll.readyEvents.length }
  | id :: rest => (w.modifyAction id fun a => { a with isReadable := true }).handleEvents id (.dispatch rest)

def doReadyTasks (w : Timers) : Nat → Timers
  | 0 => { w.addLog .returns with poll := { w.poll with removedEventInfo := [] }, pc := .outside }
  | left + 1 =>
    match w.poll.readyEvents with
    | id :: _ => w.handleEvents id (.doReadyTasks left)
    | [] => w.fault .outOfBounds

/-! ### Steps -/

def tick (w : Timers) (turn : Turn) : Timers :=
  match w.pc with
  | .outside => w.applyChanges
  | .waiting => w.epollWait turn
  | .reported ids => w.setReadyEvents ids
  | .readTask p => w.doReadTask p turn.intrs
  | .handler t p => w.handlerReturns t p
  | .popTask p => w.popReadTask p
  | .readyTasks left => w.doReadyTasks left
  | .faulted _ => w

-- The code of the user runs, between two actions it runs in the callbacks of other files.
def mayCall (w : Timers) : Bool :=
  match w.pc with
  | .outside | .reported _ | .handler _ _ | .readyTasks _ => true
  | .waiting | .readTask _ | .popTask _ | .faulted _ => false

-- The number that `timerfd_create` returns is not in use.
def OpenAnswers.possible (w : Timers) (answers : OpenAnswers) : Bool :=
  answers.fd.all fun n => (w.files n).isNone

def step (w : Timers) : Action → Timers
  | .expire t => w.expire t
  | .createTimer intervalS intervalNs cb answers =>
    if w.mayCall ∧ answers.possible w then (w.createTimer intervalS intervalNs cb answers).1 else w
  | .closeTimer timerId => if w.mayCall then (w.closeTimer timerId).1 else w
  | .tick turn => w.tick turn

def run (w : Timers) (as : List Action) : Timers :=
  as.foldl step w

end Timers

end Event
end Ezio
