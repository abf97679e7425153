import Ezio.Event.EventLoop
import Ezio.Event.Inotify
import Ezio.Event.Poller

/-!
This module contains `event_service` with the classes derived from `event_base`: the instructions by which the loop
starts and stops an object, and the callbacks in which an object reads its file and calls the code of the user.

All three classes are one structure that tells them apart by its kind. The jobs of the loop are left out.
-/

namespace Ezio
namespace Event
namespace EventService

open EventLoop (ElState ElInstruction RET_SUC RET_ERR)

inductive Kind where
  | notifier
  | inotify
  | signalEvent
  deriving DecidableEq, Repr

inductive EventState where
  | default
  | opened
  | closed
  deriving DecidableEq, Repr

-- An entry of `fds_evts_`, `EV_READ` and `EV_WRITE` are the bits of the mask.
structure FdEvt where
  fd : Fd
  evt : Mask
  deriving DecidableEq, Repr

def EV_READ : Mask := ⟨true, false, false⟩

-- The members of `event_base` and of the derived classes. The handlers of the user are what `Read.user` does.
structure EventBase where
  kind : Kind
  fdsEvts : List FdEvt := []
  readCb : Option Callback := none
  cancelReadCb : Option Callback := none
  writeCb : Option Callback := none
  cancelWriteCb : Option Callback := none
  -- `evt_service_ptr_` is not null
  evtServicePtr : Bool := false
  evtState : EventState := .default
  fd : Fd := ⟨-1, .unknown⟩
  -- `stop_handler_` of a notifier
  stopHandler : Bool := false
  -- `buffer_` and `watch_fd_to_cb_` of an inotify
  bufferSize : Nat := 0
  watchFdToCb : UInt32 → Bool := fun _ => false
  -- `is_active_` of a signal_event
  isActive : Bool := true

-- What the system calls and the allocator return to `open`, and the arguments it is called with.
structure OpenArgs where
  hasCb : Bool := true
  hasStop : Bool := false
  bufferSize : Nat := 4096
  fdNum : Int
  allocated : Bool := true
  sigmask : Bool := true
  fcntl : Bool := true
  deriving DecidableEq, Repr

structure EventInfo where
  id : Nat
  instruction : ElInstruction
  fdsEvts : List FdEvt
  deriving DecidableEq, Repr

-- What any thread may call, also from the code of the user that an object calls.
inductive Call where
  | openObj (id : Nat) (args : OpenArgs)
  | close (id : Nat)
  | setCancelReadCallback (id : Nat) (cb : Callback)
  | addWatch (id : Nat) (watchFd : UInt32)
  -- `open`, `close` and `start_loop` of the loop change its state
  | setEeState (eeState : ElState)
  | epollOp (op : Op)
  | ioUringOp (op : Uring.Op)
  deriving DecidableEq, Repr

-- A completed read of an object: its result, the bytes of `buffer_` and what each handler does that is called.
structure Read where
  ret : Int
  mem : Nat → UInt8 := fun _ => 0
  user : List (List Call) := []

inductive Entry where
  -- `close` has succeeded, `started` is whether the loop knows the object
  | closes (id : Nat) (started : Bool)
  -- `cancel_async_read` has taken effect when the object is removed
  | cancels (id : Nat)
  | stops (id : Nat)
  -- a read of the file has been submitted by the object
  | reads (id : Nat)
  deriving DecidableEq, Repr

inductive Action where
  | call (c : Call)
  -- `process_new_instruction` takes the instructions, and processes the next one
  | swap
  | process
  -- the poller calls `handle_event_ready`
  | ready (id : Nat) (ret : Int)
  -- the poller calls the callback of a read
  | handle (id : Nat) (r : Read)
  | poll (st : Poller.Step)

end EventService

open EventService
open EventLoop (ElState ElInstruction RET_SUC RET_ERR)

structure EventService where
  poll : Poller
  eeState : ElState := .esInit
  evtHandlers : List Nat := []
  evtHandlersCache : List EventService.EventInfo := []
  -- the rest of `new_event_vec`
  newEventVec : List EventService.EventInfo := []
  objs : Nat → EventBase
  faulted : Option Fault := none
  log : List EventService.Entry := []

namespace EventService

def addLog (w : EventService) (e : Entry) : EventService :=
  { w with log := w.log ++ [e] }

def setObj (w : EventService) (id : Nat) (o : EventBase) : EventService :=
  { w with objs := Function.update w.objs id o }

def modifyObj (w : EventService) (id : Nat) (f : EventBase → EventBase) : EventService :=
  w.setObj id (f (w.objs id))

/-! ### `event_loop` -/

def addInstruction (w : EventService) (id : Nat) (instruction : ElInstruction) : EventService :=
  if w.eeState = .esInit ∨ w.eeState = .esStart then
    { w with evtHandlersCache := w.evtHandlersCache ++ [⟨id, instruction, (w.objs id).fdsEvts⟩] }
  else
    w

def addEvent (w : EventService) (id : Nat) : EventService :=
  w.addInstruction id .eiAdd

def removeEvent (w : EventService) (id : Nat) : EventService :=
  w.addInstruction id .eiRemove

-- `event_base::handle_event_ready` and the callback of `open`, bound to the object
def handleEventReady (id : Nat) : Callback := 2 * id
def handleRead (id : Nat) : Callback := 2 * id + 1

def assertZero (w : EventService) (r : Int × Poller) : Except Fault EventService :=
  if r.1 = 0 then .ok { w with poll := r.2 } else .error .assert

def addRead (w : EventService) (id : Nat) (e : FdEvt) : Except Fault EventService :=
  if e.evt.read then
    w.poll.submitAsyncRead e.fd none 0 (some (handleEventReady id)) none >>= w.assertZero
  else
    .ok w

def addWrite (w : EventService) (id : Nat) (e : FdEvt) : Except Fault EventService :=
  if e.evt.write then
    w.poll.submitAsyncWrite e.fd none 0 (some (handleEventReady id)) none >>= w.assertZero
  else
    .ok w

-- The bodies of the loops in `process_add_instruction` and in `process_remove_instruction`, the latter with `is_suc`.
def addOne (id : Nat) (w : EventService) (e : FdEvt) : Except Fault EventService := do
  let w ← w.addRead id e
  w.addWrite id e

def onStarted (w : EventService) (id : Nat) : EventService :=
  w.modifyObj id fun o => { o with evtState := .opened }

def processAddInstruction (w : EventService) (info : EventInfo) : Except Fault EventService :=
  if info.id ∈ w.evtHandlers then
    .ok w
  else do
    let w ← info.fdsEvts.foldlM (addOne info.id) { w with evtHandlers := w.evtHandlers ++ [info.id] }
    return w.onStarted info.id

def cancelRead (w : EventService) (id : Nat) (e : FdEvt) : Except Fault (Int × EventService) :=
  if e.evt.read then do
    let (ret, poll) ← w.poll.cancelAsyncRead e.fd (w.objs id).cancelReadCb
    let w' := { w with poll }
    return (ret, if w.poll.readCancelled e.fd poll then w'.addLog (.cancels id) else w')
  else
    .ok (0, w)

def cancelWrite (w : EventService) (id : Nat) (e : FdEvt) : Except Fault (Int × EventService) :=
  if e.evt.write then do
    let (ret, poll) ← w.poll.cancelAsyncWrite e.fd (w.objs id).cancelWriteCb
    return (ret, { w with poll })
  else
    .ok (0, w)

def cancelOne (id : Nat) (r : Bool × EventService) (e : FdEvt) : Except Fault (Bool × EventService) := do
  let (ret, w) ← r.2.cancelRead id e
  if ret ≠ 0 then
    return (false, w)
  else
    let (ret, w) ← w.cancelWrite id e
    return (r.1 && ret = 0, w)

-- `event_base::on_stopped`, and what `notifier::on_stopped` does before
def onStopped (w : EventService) (id : Nat) (isSuccess : Bool) : EventService :=
  if isSuccess then
    let o := w.objs id
    let w := if o.kind = .notifier ∧ o.stopHandler then w.addLog (.stops id) else w
    w.modifyObj id fun o => { o with evtState := .closed }
  else
    w

def processRemoveInstruction (w : EventService) (info : EventInfo) : Except Fault EventService :=
  if info.id ∈ w.evtHandlers then do
    let w := { w with evtHandlers := w.evtHandlers.filter (· ≠ info.id) }
    let (isSuc, w) ← info.fdsEvts.foldlM (cancelOne info.id) (true, w)
    return w.onStopped info.id isSuc
  else
    .ok (w.onStopped info.id true)

def processNewInstruction (w : EventService) : Except Fault EventService :=
  match w.newEventVec with
  | [] => .ok w
  | info :: rest =>
    let w := { w with newEventVec := rest }
    match info.instruction with
    | .eiRemove => w.processRemoveInstruction info
    | .eiAdd => w.processAddInstruction info

/-! ### `open` and `close` of the classes -/

-- What follows once the file has been opened, in all three classes.
def register (w : EventService) (id : Nat) (o : EventBase) : EventService :=
  (w.setObj id { o with fdsEvts := o.fdsEvts ++ [⟨o.fd, EV_READ⟩], evtServicePtr := true }).addEvent id

def notifierOpen (w : EventService) (id : Nat) (args : OpenArgs) : EventService × Int :=
  let o := w.objs id
  if o.evtServicePtr ∨ !args.hasCb ∨ o.evtState ≠ .default then
    (w, RET_ERR)
  else
    let o := { o with fd := ⟨args.fdNum, .event⟩ }
    if args.fdNum < 0 then
      (w.setObj id o, RET_ERR)
    else
      let w := w.register id { o with readCb := some (handleRead id), stopHandler := args.hasStop }
      (w.modifyObj id fun o => { o with evtState := .opened }, RET_SUC)

def inotifyOpen (w : EventService) (id : Nat) (args : OpenArgs) : EventService × Int :=
  let o := w.objs id
  if o.evtServicePtr ∨ o.evtState ≠ .default then
    (w, RET_ERR)
  else
    let o := { o with fd := ⟨args.fdNum, .inotify⟩ }
    if args.fdNum < 0 ∨ !args.allocated then
      (w.setObj id o, -1)
    else
      let w := w.register id { o with readCb := some (handleRead id), bufferSize := args.bufferSize }
      (w.modifyObj id fun o => { o with evtState := .opened }, RET_SUC)

def signalEventOpen (w : EventService) (id : Nat) (args : OpenArgs) : EventService × Int :=
  let o := w.objs id
  if o.evtServicePtr ∨ !args.hasCb then
    (w, -1)
  else
    let o := { o with readCb := some (handleRead id) }
    if !args.sigmask then
      (w.setObj id o, -1)
    else
      let o := { o with fd := ⟨args.fdNum, .signal⟩ }
      if args.fdNum < 0 ∨ !args.fcntl then (w.setObj id o, -1) else (w.register id o, 0)

def openObj (w : EventService) (id : Nat) (args : OpenArgs) : EventService × Int :=
  match (w.objs id).kind with
  | .notifier => w.notifierOpen id args
  | .inotify => w.inotifyOpen id args
  | .signalEvent => w.signalEventOpen id args

-- `event_base::close`
def closeBase (w : EventService) (id : Nat) : EventService :=
  let w := if (w.objs id).evtServicePtr then w.removeEvent id else w
  w.modifyObj id fun o =>
    { o with fdsEvts := [], readCb := none, writeCb := none, cancelReadCb := none, cancelWriteCb := none }

-- `fd_t::close`
def closeFd (o : EventBase) : EventBase :=
  { o with fd := ⟨-1, .unknown⟩ }

def notifierClose (w : EventService) (id : Nat) : EventService × Int :=
  if (w.objs id).evtState = .opened then
    ((w.closeBase id).modifyObj id fun o => { closeFd o with evtState := .closed }, RET_SUC)
  else
    (w, RET_ERR)

def inotifyClose (w : EventService) (id : Nat) : EventService × Int :=
  if (w.objs id).evtState = .opened then
    ((w.closeBase id).modifyObj id fun o => { closeFd o with watchFdToCb := fun _ => false, evtState := .closed },
      RET_SUC)
  else
    (w, RET_ERR)

def signalEventClose (w : EventService) (id : Nat) : EventService × Int :=
  ((w.closeBase id).modifyObj id fun o => { closeFd o with isActive := false, evtServicePtr := false }, 0)

def closeObj (w : EventService) (id : Nat) : EventService × Int :=
  match (w.objs id).kind with
  | .notifier => w.notifierClose id
  | .inotify => w.inotifyClose id
  | .signalEvent => w.signalEventClose id

-- A call of `close` with what the log says of it.
def close (w : EventService) (id : Nat) : EventService :=
  match w.closeObj id with
  | (w', ret) => if ret = 0 then w'.addLog (.closes id (w.evtHandlers.contains id)) else w'

-- `inotify_add_watch` has returned the descriptor.
def addWatch (w : EventService) (id : Nat) (watchFd : UInt32) : EventService :=
  if 0 ≤ (w.objs id).fd.num then
    w.modifyObj id fun o => { o with watchFdToCb := Function.update o.watchFdToCb watchFd true }
  else
    w

/-! ### The callbacks of the classes -/

-- `iov_`
def iov (o : EventBase) : List Iovec :=
  match o.kind with
  | .notifier => [⟨0, 8⟩]
  | .inotify => [⟨0, o.bufferSize⟩]
  | .signalEvent => [⟨0, 128⟩]

def readOptions (o : EventBase) : Option ReadOptions :=
  match o.kind with
  | .inotify => some ⟨some 0, true, false⟩
  | _ => none

-- The three classes differ in `iov_` and in the options.
def submitReadRequest (w : EventService) (id : Nat) (cb : Option Callback) : Except Fault EventService :=
  let o := w.objs id
  if o.evtServicePtr then do
    let w ← w.poll.submitAsyncRead o.fd (some ⟨id, iov o⟩) 1 cb (readOptions o) >>= w.assertZero
    return w.addLog (.reads id)
  else
    .error .nullDeref

-- `handle_event_ready` with `handle_read_ready`, which takes the callback that `open` has set
def onEventReady (w : EventService) (id : Nat) (ret : Int) : Except Fault EventService :=
  if ret < 0 then .ok w else w.submitReadRequest id (w.objs id).readCb

def stepPoll (w : EventService) (st : Poller.Step) : Except Fault EventService :=
  (w.poll.step st).map fun poll => { w with poll }

def runCall (w : EventService) : Call → Except Fault EventService
  | .openObj id args => .ok (w.openObj id args).1
  | .close id => .ok (w.close id)
  | .setCancelReadCallback id cb => .ok (w.modifyObj id fun o => { o with cancelReadCb := some cb })
  | .addWatch id watchFd => .ok (w.addWatch id watchFd)
  | .setEeState eeState => .ok { w with eeState }
  | .epollOp op => w.stepPoll (.epoll (.op op))
  | .ioUringOp op => w.stepPoll (.ioUring (.op op))

def runCalls (w : EventService) (cs : List Call) : Except Fault EventService :=
  cs.foldlM runCall w

-- The loop of `inotify::handle_notify` over the events in the buffer.
def callWatches (w : EventService) (id : Nat) : List UInt32 → List (List Call) → Except Fault EventService
  | [], _ => .ok w
  | wd :: wds, user =>
    if (w.objs id).watchFdToCb wd then do
      let w ← w.runCalls (user.headD [])
      w.callWatches id wds user.tail
    else
      w.callWatches id wds user

-- The check at the start of `notifier::handle_notify`, `inotify::handle_notify` and `signal_event::handle_signal`.
def skips (o : EventBase) (ret : Int) : Bool :=
  match o.kind with
  | .signalEvent => ret ≤ 0 || !o.isActive
  | _ => ret ≤ 0

-- The part of these functions that calls the handlers of the user.
def callUser (w : EventService) (id : Nat) (r : Read) : Except Fault EventService :=
  match (w.objs id).kind with
  | .inotify => w.callWatches id (Inotify.parse r.mem r.ret.toNat 0 r.ret.toNat) r.user
  | _ => w.runCalls (r.user.headD [])

def handle (w : EventService) (id : Nat) (r : Read) : Except Fault EventService :=
  if skips (w.objs id) r.ret then
    .ok w
  else do
    let w ← w.callUser id r
    w.submitReadRequest id none

def tryStep (w : EventService) : Action → Except Fault EventService
  | .call c => w.runCall c
  | .swap =>
    .ok <| if w.newEventVec = [] then { w with newEventVec := w.evtHandlersCache, evtHandlersCache := [] } else w
  | .process => w.processNewInstruction
  | .ready id ret => w.onEventReady id ret
  | .handle id r => w.handle id r
  | .poll st => w.stepPoll st

def step (w : EventService) (a : Action) : EventService :=
  match w.faulted with
  | some _ => w
  | none =>
    match w.tryStep a with
    | .ok w => w
    | .error f => { w with faulted := some f }

def run (w : EventService) (as : List Action) : EventService :=
  as.foldl step w

def init (p : Poller) (kinds : Nat → Kind) : EventService :=
  { poll := p, objs := fun id => { kind := kinds id } }

end EventService

end Event
end Ezio
