import Ezio.Lib.Run
import Ezio.Event.Source

/-!
This module contains `signal_event` on the epoll backend: the signals that are queued on the signalfd and the passes of
`handle_events` over the pending read.
-/

namespace Ezio
namespace Event
namespace SignalEvent

-- `event_base::handle_event_ready` and `signal_event::handle_signal`, bound to the object
def handleEventReady : Callback := 0
def handleSignalCb : Callback := 1

-- `sizeof(struct signalfd_siginfo)`
def SIGINFO_SIZE : Nat := 128

-- `iov_`, which describes `sig_info_`
def iov : List Iovec := [⟨0, SIGINFO_SIZE⟩]

inductive Action where
  | arrive (signo : Nat)
  -- `dispatch`, in which `readv` is interrupted a number of times before it is answered
  | dispatch (intrs : Nat)
  deriving DecidableEq, Repr

end SignalEvent

open SignalEvent

structure SignalEvent where
  fd : Fd
  poll : Epoll
  isActive : Bool := true
  -- the numbers of the signals that the kernel has queued
  queue : List Nat := []
  -- an event for the file is queued in the kernel
  edge : Bool := false
  -- `sig_info_.ssi_signo`
  ssiSigno : Nat := 0
  faulted : Option Fault := none
  -- how often `readv` has failed with `EAGAIN`, and what `signal_handler_` has been called with
  agains : Nat := 0
  handled : List Nat := []

namespace SignalEvent

def fault (w : SignalEvent) (f : Fault) : SignalEvent :=
  { w with faulted := some f }

instance : Source SignalEvent where
  fd := SignalEvent.fd
  poll := SignalEvent.poll
  setPoll w poll := { w with poll }
  fault := SignalEvent.fault

def modifyAction (w : SignalEvent) (id : Nat) (f : EventAction → EventAction) : SignalEvent :=
  Source.modifyAction w id f

def isRegistered (w : SignalEvent) : Bool :=
  Source.isRegistered w

def submitAsyncRead (w : SignalEvent) (buf : UserBuf) (cb : Option Callback) : SignalEvent :=
  Source.submitAsyncRead w buf cb none

def submitReadRequest (w : SignalEvent) (cb : Option Callback) : SignalEvent :=
  w.submitAsyncRead ⟨false, iov⟩ cb

-- The handler does not touch the object.
def handleSignal (w : SignalEvent) (res : Int) : SignalEvent :=
  if res ≤ 0 || !w.isActive then
    w
  else
    { w with handled := w.handled ++ [w.ssiSigno] }.submitReadRequest none

-- `read_buf_idx_callback_(ret, ..)`
def call (w : SignalEvent) (id : Nat) (ret : Int) : SignalEvent :=
  match (w.poll.action id).readBufIdxCallback with
  | none => w.fault .emptyReadCallback
  | some cb =>
    if cb = .read handleEventReady then
      -- `handle_read_ready` takes the callback that `open` has set
      if ret < 0 then w else w.submitReadRequest (some handleSignalCb)
    else
      w.handleSignal ret

-- What `readv` answers until it fails with `EAGAIN`: a record for each signal.
def readAnswers (w : SignalEvent) (intrs : Nat) : List SysRet :=
  List.replicate intrs (SysRet.fail .intr) ++ w.queue.map (fun _ => SysRet.ok SIGINFO_SIZE []) ++ [SysRet.fail .again]

-- The result is whether the task is pushed back.
def doReadTask (w : SignalEvent) (id : Nat) (t : Task) (isEventTriggered : Bool) (intrs : Nat) : SignalEvent × Bool :=
  if t.buffer = [] then
    (w.call id 0, false)
  else
    match readIov (w.poll.action id).readOp false t.buffer (w.readAnswers intrs) with
    | .done r left =>
      let taken := w.queue.length + 1 - left.length
      let w :=
        { w with
          queue := w.queue.drop taken
          ssiSigno := (w.queue.take taken).getLastD w.ssiSigno
          agains := if left = [] then w.agains + 1 else w.agains }
      let w := w.modifyAction id fun a => { a with isReadable := a.isReadable && !r.flag }
      if r.flag && !isEventTriggered && r.ret = 0 then (w, true) else (w.call id r.ret, false)
    | .cut => (w.fault .cut, false)
    | .null => (w.fault .nullDeref, false)

-- `handle_events`, a signalfd only has tasks that read
def handleEvents (w : SignalEvent) (id : Nat) (isEventTriggered : Bool) (intrs : Nat) : SignalEvent :=
  Source.handleEvents (fun w t => w.doReadTask id t isEventTriggered intrs) w id

def arrive (w : SignalEvent) (signo : Nat) : SignalEvent :=
  { w with queue := w.queue ++ [signo], edge := w.edge || w.isRegistered }

def applyChanges (w : SignalEvent) : SignalEvent :=
  let w' := { w with poll := w.poll.applyChanges }
  -- a file that can be read when it is registered is reported
  { w' with edge := w.edge || (w'.isRegistered && !w.isRegistered && w.queue ≠ []) }

def readyLoop (w : SignalEvent) (intrs : Nat) : Nat → SignalEvent
  | 0 => w
  | n + 1 =>
    match w.poll.readyEvents with
    | [] => w.fault .outOfBounds
    | id :: _ =>
      let w := w.handleEvents id false intrs
      { w with poll := { w.poll with readyEvents := w.poll.readyEvents.tail } }.readyLoop intrs n

def doReadyTasks (w : SignalEvent) (intrs : Nat) : SignalEvent :=
  w.readyLoop intrs w.poll.readyEvents.length

def setReadyEvents (w : SignalEvent) (id : Nat) (intrs : Nat) : SignalEvent :=
  (w.modifyAction id fun a => { a with isReadable := true }).handleEvents id true intrs

-- What `dispatch` does once `epoll_wait` has reported the file.
def deliver (w : SignalEvent) (id : Nat) (intrs : Nat) : SignalEvent :=
  (w.setReadyEvents id intrs).doReadyTasks intrs

-- The file is reported if there are signals.
def dispatch (w : SignalEvent) (intrs : Nat) : SignalEvent :=
  let w := w.applyChanges
  match w.poll.kernel.interest w.fd.key with
  | none => w.doReadyTasks intrs
  | some (mask, id) =>
    let w' := { w with edge := false }
    if w.edge ∧ w.queue ≠ [] ∧ mask.read then w'.deliver id intrs else w'.doReadyTasks intrs

def step (w : SignalEvent) : Action → SignalEvent
  | .arrive signo => w.arrive signo
  | .dispatch intrs => w.dispatch intrs

def run (w : SignalEvent) (as : List Action) : SignalEvent :=
  as.foldl step w

-- The event loop has processed the instruction of `open`.
def start (num : Nat) : SignalEvent :=
  let w : SignalEvent := { fd := ⟨num, .signal⟩, poll := Epoll.init fun _ => true }
  w.submitAsyncRead ⟨true, []⟩ (some handleEventReady)

end SignalEvent

end Event
end Ezio
