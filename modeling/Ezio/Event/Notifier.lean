import Ezio.Lib.Run
import Ezio.Event.Source

/-!
This module contains `notifier` on the epoll backend: the eventfd that the other threads write to and the steps in
which `dispatch` reads it and calls the handler.

`handle_events` and `do_ready_tasks` are cut into steps here, so that `notify` may come between any two of them. The
other files of the loop are left out, they have an `event_info` of their own.
-/

namespace Ezio
namespace Event
namespace Notifier

-- `event_base::handle_event_ready` and `notifier::handle_notify`, bound to the notifier
def handleEventReady : Callback := 0
def handleNotify : Callback := 1

-- `iov_ptr_`, which describes `callback_para_`
def iov : List Iovec := [⟨0, 8⟩]

-- The largest counter of an eventfd is `UINT64_MAX - 1`.
def MAX_COUNTER : Nat := 2 ^ 64 - 2

-- A loop over `left` tasks of the action `id`, `do_ready_tasks` has `ready` actions to go if it has called it.
structure Pass where
  id : Nat
  ready : Option Nat
  left : Nat
  deriving DecidableEq, Repr

-- Where the thread of the loop is.
inductive Pc where
  -- between two calls of `dispatch`
  | outside
  -- in front of `epoll_wait`
  | waiting
  | reported (id : Nat)
  -- in front of `do_read_task`
  | readTask (p : Pass)
  -- `read_buf_idx_callback_` has been called
  | callback (p : Pass) (cb : ReadCallback) (ret : Int)
  -- inside of `notify_handler_`
  | handler (p : Pass)
  -- `do_read_task` has returned
  | popTask (p : Pass)
  | readyTasks (left : Nat)
  | faulted (f : Fault)
  deriving DecidableEq, Repr

inductive Entry where
  | notifies
  -- `epoll_wait` gets what is queued
  | harvests
  | calls (ret : Int)
  | handles
  -- `dispatch` returns
  | returns
  deriving DecidableEq, Repr

-- How the kernel treats the next system call of the thread of the loop.
structure Turn where
  -- `epoll_wait` fails with `EINTR`
  interrupted : Bool := false
  -- `events_ptr_` is filled by other files
  crowded : Bool := false
  -- how often `readv` fails with `EINTR`
  intrs : Nat := 0
  deriving DecidableEq, Repr

inductive Action where
  -- by any thread, also by the handler
  | notify
  | tick (turn : Turn)
  deriving DecidableEq, Repr

end Notifier

open Notifier

structure Notifier where
  fd : Fd
  poll : Epoll
  counter : Nat
  -- an event for the file is queued in the kernel
  edge : Bool := false
  pc : Notifier.Pc := .outside
  log : List Notifier.Entry := []

namespace Notifier

def addLog (w : Notifier) (e : Entry) : Notifier :=
  { w with log := w.log ++ [e] }

def fault (w : Notifier) (f : Fault) : Notifier :=
  { w with pc := .faulted f }

instance : Source Notifier where
  fd := Notifier.fd
  poll := Notifier.poll
  setPoll w poll := { w with poll }
  fault := Notifier.fault

def modifyAction (w : Notifier) (id : Nat) (f : EventAction → EventAction) : Notifier :=
  Source.modifyAction w id f

def isRegistered (w : Notifier) : Bool :=
  Source.isRegistered w

-- Every `write` queues an event. A `write` that would exceed the largest counter is tried again.
def notify (w : Notifier) : Notifier :=
  if w.counter < MAX_COUNTER then
    { w.addLog Entry.notifies with counter := w.counter + 1, edge := w.edge || w.isRegistered }
  else
    w

def submitAsyncRead (w : Notifier) (buf : UserBuf) (cb : Option Callback) : Notifier :=
  Source.submitAsyncRead w buf cb none

def submitReadRequest (w : Notifier) (cb : Option Callback) (next : Pc) : Notifier :=
  let w := { w with pc := next }
  w.submitAsyncRead ⟨false, iov⟩ cb

-- `read_buf_idx_callback_(ret, ..)`
def call (w : Notifier) (p : Pass) (ret : Int) : Notifier :=
  match (w.poll.action p.id).readBufIdxCallback with
  | some cb => { w.addLog (.calls ret) with pc := .callback p cb ret }
  | none => w.fault .emptyReadCallback

-- The end of `handle_events`.
def endPass (w : Notifier) (ready : Option Nat) : Notifier :=
  match ready with
  | none => { w with pc := .readyTasks w.poll.readyEvents.length }
  | some left =>
    { w with poll := { w.poll with readyEvents := w.poll.readyEvents.tail }, pc := .readyTasks left }

-- `handle_events`, an eventfd only has tasks that read
def handleEvents (w : Notifier) (id : Nat) (ready : Option Nat) : Notifier :=
  let a := w.poll.action id
  if a.isReadable ∧ a.pendingReadTask ≠ [] then
    { w with pc := .readTask ⟨id, ready, a.pendingReadTask.length⟩ }
  else
    w.endPass ready

-- What `readv` answers, the counter is reset by a read.
def readAnswers (w : Notifier) (intrs : Nat) : List SysRet :=
  List.replicate intrs (SysRet.fail .intr) ++ [if 0 < w.counter then SysRet.ok 8 [] else SysRet.fail .again]

def doReadTask (w : Notifier) (p : Pass) (intrs : Nat) : Notifier :=
  match (w.poll.action p.id).pendingReadTask with
  | [] => w.fault .emptyReadQueue
  | t :: _ =>
    if t.buffer = [] then
      w.call p 0
    else
      match readIov (w.poll.action p.id).readOp false t.buffer (w.readAnswers intrs) with
      | .done r _ =>
        let w := { w with counter := if r.moved = [] then w.counter else 0 }
        let w := w.modifyAction p.id fun a => { a with isReadable := a.isReadable && !r.flag }
        if r.flag ∧ p.ready.isSome ∧ r.ret = 0 then
          { w.modifyAction p.id fun a => a.addReadTask t with pc := .popTask p }
        else
          w.call p r.ret
      | .cut => w.fault .cut
      | .null => w.fault .nullDeref

def popReadTask (w : Notifier) (p : Pass) : Notifier :=
  match (w.poll.action p.id).pendingReadTask with
  | [] => w.fault .emptyReadQueue
  | _ :: ts =>
    let w := w.modifyAction p.id fun a => { a with pendingReadTask := ts }
    if p.left ≤ 1 then w.endPass p.ready else { w with pc := .readTask { p with left := p.left - 1 } }

-- What is done in a callback up to the next step.
def callback (w : Notifier) (p : Pass) (cb : ReadCallback) (ret : Int) : Notifier :=
  if cb = .read handleEventReady then
    -- `handle_read_ready` takes the callback that `open` has set
    if ret < 0 then { w with pc := .popTask p } else w.submitReadRequest (some handleNotify) (.popTask p)
  else if ret ≤ 0 then
    { w with pc := .popTask p }
  else
    { w.addLog .handles with pc := .handler p }

def applyChanges (w : Notifier) : Notifier :=
  let w' := { w with poll := w.poll.applyChanges, pc := .waiting }
  -- a file that can be read when it is registered is reported
  { w' with edge := w.edge || (w'.isRegistered && !w.isRegistered && 0 < w.counter) }

-- An event is reported if the counter is positive.
def epollWait (w : Notifier) (turn : Turn) : Notifier :=
  if turn.interrupted then
    { w.addLog .returns with pc := .outside }
  else if turn.crowded then
    { w with pc := .readyTasks w.poll.readyEvents.length }
  else
    let w' := { w.addLog Entry.harvests with edge := false }
    match w.poll.kernel.interest w.fd.key with
    | some (mask, id) =>
      if w.edge ∧ 0 < w.counter ∧ mask.read then
        { w' with pc := .reported id }
      else
        { w' with pc := .readyTasks w.poll.readyEvents.length }
    | none => { w' with pc := .readyTasks w.poll.readyEvents.length }

def setReadyEvents (w : Notifier) (id : Nat) : Notifier :=
  (w.modifyAction id fun a => { a with isReadable := true }).handleEvents id none

def doReadyTasks (w : Notifier) : Nat → Notifier
  | 0 => { w.addLog .returns with poll := { w.poll with removedEventInfo := [] }, pc := .outside }
  | left + 1 =>
    match w.poll.readyEvents with
    | id :: _ => w.handleEvents id (some left)
    | [] => w.fault .outOfBounds

def tick (w : Notifier) (turn : Turn) : Notifier :=
  match w.pc with
  | .outside => w.applyChanges
  | .waiting => w.epollWait turn
  | .reported id => w.setReadyEvents id
  | .readTask p => w.doReadTask p turn.intrs
  | .callback p cb ret => w.callback p cb ret
  | .handler p => w.submitReadRequest none (.popTask p)
  | .popTask p => w.popReadTask p
  | .readyTasks left => w.doReadyTasks left
  | .faulted _ => w

def step (w : Notifier) : Action → Notifier
  | .notify => w.notify
  | .tick turn => w.tick turn

def run (w : Notifier) (as : List Action) : Notifier :=
  as.foldl step w

-- The event loop has processed the instruction of `open`, `counter` calls of `notify` have come before.
def start (num counter : Nat) : Notifier :=
  let w : Notifier := { fd := ⟨num, .event⟩, poll := Epoll.init fun _ => true, counter }
  w.submitAsyncRead ⟨true, []⟩ (some handleEventReady)

end Notifier

end Event
end Ezio
