import Ezio.Lib.Run
import Ezio.Event.Source
import Ezio.Event.FdIo.Scatter

/-!
This module contains `inotify` on the epoll backend: the queue of the kernel, the passes of `handle_events` over the
pending read and the parser of the events that a read has left in the buffer.
-/

namespace Ezio
namespace Event

-- `struct inotify_event` with the name that follows it
structure InotifyEvent where
  wd : UInt32
  mask : UInt32
  cookie : UInt32
  name : List UInt8
  deriving DecidableEq, Repr

namespace Inotify

-- `sizeof(struct inotify_event)`
def HEADER_SIZE : Nat := 16

def size (e : InotifyEvent) : Nat :=
  HEADER_SIZE + e.name.length

def total (es : List InotifyEvent) : Nat :=
  (es.map size).sum

def u32Bytes (n : Nat) : List UInt8 :=
  [UInt8.ofNat n, UInt8.ofNat (n / 2 ^ 8), UInt8.ofNat (n / 2 ^ 16), UInt8.ofNat (n / 2 ^ 24)]

def bytes (e : InotifyEvent) : List UInt8 :=
  u32Bytes e.wd.toNat ++ u32Bytes e.mask.toNat ++ u32Bytes e.cookie.toNat ++ u32Bytes e.name.length ++ e.name

def readU32 (mem : Nat → UInt8) (offset : Nat) : Nat :=
  (mem offset).toNat + 2 ^ 8 * (mem (offset + 1)).toNat + 2 ^ 16 * (mem (offset + 2)).toNat
    + 2 ^ 24 * (mem (offset + 3)).toNat

-- The descriptors that the loop of `handle_notify` finds. An event is not empty, the bytes bound the iterations.
def parse (mem : Nat → UInt8) (dataLen offset : Nat) : Nat → List UInt32
  | 0 => []
  | n + 1 =>
    if offset < dataLen then
      let len := readU32 mem (offset + 12)
      UInt32.ofNat (readU32 mem offset) :: parse mem dataLen ((offset + (HEADER_SIZE + len)) % 2 ^ 32) n
    else
      []

/-! ### The kernel -/

def EINVAL : Errno := .other 22

-- What happens up to a call of `readv`: it is interrupted, or events arrive and it is answered.
inductive Call where
  | intr
  | serve (es : List InotifyEvent)
  deriving DecidableEq, Repr

def Call.events : Call → List InotifyEvent
  | .intr => []
  | .serve es => es

-- As many events as fit, and the others.
def takeFit (space : Nat) : List InotifyEvent → List InotifyEvent × List InotifyEvent
  | [] => ([], [])
  | e :: es =>
    if size e ≤ space then
      let (taken, left) := takeFit (space - size e) es
      (e :: taken, left)
    else
      ([], e :: es)

structure Served where
  sys : List SysRet
  taken : List InotifyEvent
  queue : List InotifyEvent
  arrived : List InotifyEvent
  deriving DecidableEq, Repr

-- The answers to the calls that are made until one of them fails or the buffer is full.
def serve (space : Nat) (queue : List InotifyEvent) : List Call → Served
  | [] => ⟨[], [], queue, []⟩
  | .intr :: cs =>
    let k := serve space queue cs
    { k with sys := .fail .intr :: k.sys }
  | .serve es :: cs =>
    let queue := queue ++ es
    if queue = [] then
      ⟨[.fail .again], [], [], es⟩
    else
      let (taken, left) := takeFit space queue
      if taken = [] then
        ⟨[.fail EINVAL], [], queue, es⟩
      else if total taken = space then
        ⟨[.ok space []], taken, left, es⟩
      else
        let k := serve (space - total taken) left cs
        { k with sys := .ok (total taken) [] :: k.sys, taken := taken ++ k.taken, arrived := es ++ k.arrived }

-- No event arrives before the calls that follow, the second one of them fails.
def quiet : List Call := [.serve [], .serve []]

-- `event_base::handle_event_ready` and `inotify::handle_notify`, bound to the object
def handleEventReady : Callback := 0
def handleNotifyCb : Callback := 1

inductive Action where
  | arrive (es : List InotifyEvent)
  -- `dispatch` begins
  | apply
  -- `epoll_wait` returns, with the calls of `readv` that a read makes
  | report (cs : List Call)
  -- an iteration of `do_ready_tasks`
  | ready (cs : List Call)
  deriving DecidableEq, Repr

def Action.events : Action → List InotifyEvent
  | .arrive es => es
  | .apply => []
  | .report cs | .ready cs => cs.flatMap Call.events

end Inotify

open Inotify

structure Inotify where
  fd : Fd
  poll : Epoll
  bufferSize : UInt32
  watchFdToCb : UInt32 → Option Callback
  -- `buffer_`
  buffer : Nat → UInt8 := fun _ => 0
  queue : List InotifyEvent := []
  -- an event for the file is queued in the kernel
  edge : Bool := false
  faulted : Option Fault := none
  -- the events that have arrived and the callbacks that have been called
  arrived : List InotifyEvent := []
  called : List Callback := []

namespace Inotify

-- `iov_`
def iov (w : Inotify) : List Iovec := [⟨0, w.bufferSize.toNat⟩]

def fault (w : Inotify) (f : Fault) : Inotify :=
  { w with faulted := some f }

instance : Source Inotify where
  fd := Inotify.fd
  poll := Inotify.poll
  setPoll w poll := { w with poll }
  fault := Inotify.fault

def modifyAction (w : Inotify) (id : Nat) (f : EventAction → EventAction) : Inotify :=
  Source.modifyAction w id f

def isRegistered (w : Inotify) : Bool :=
  Source.isRegistered w

def submitAsyncRead (w : Inotify) (buf : UserBuf) (cb : Option Callback) (opt : Option ReadOptions) : Inotify :=
  Source.submitAsyncRead w buf cb opt

def submitReadRequest (w : Inotify) (cb : Option Callback) : Inotify :=
  w.submitAsyncRead ⟨false, w.iov⟩ cb (some ⟨some 0, true, false⟩)

def handleNotify (w : Inotify) (res : Int) : Inotify :=
  if res ≤ 0 then
    w
  else
    let wds := parse w.buffer res.toNat 0 res.toNat
    let w := { w with called := w.called ++ wds.filterMap w.watchFdToCb }
    w.submitReadRequest none

-- `read_buf_idx_callback_(ret, ..)`
def call (w : Inotify) (id : Nat) (ret : Int) : Inotify :=
  match (w.poll.action id).readBufIdxCallback with
  | none => w.fault .emptyReadCallback
  | some cb =>
    if cb = .read handleEventReady then
      -- `handle_read_ready` takes the callback that `open` has set
      if ret < 0 then w else w.submitReadRequest (some handleNotifyCb)
    else
      w.handleNotify ret

-- The result is whether the task is pushed back.
def doReadTask (w : Inotify) (id : Nat) (t : Task) (isEventTriggered : Bool) (cs : List Call) : Inotify × Bool :=
  if t.buffer = [] then
    (w.call id 0, false)
  else
    let k := serve w.bufferSize.toNat w.queue (cs ++ quiet)
    match readIov (w.poll.action id).readOp false t.buffer k.sys with
    | .done r _ =>
      let w :=
        { w with
          buffer := FdIo.deliver w.buffer (FdIo.places r.moved) (k.taken.flatMap bytes)
          queue := k.queue
          arrived := w.arrived ++ k.arrived
          edge := w.edge || k.arrived ≠ [] }
      let w := w.modifyAction id fun a => { a with isReadable := a.isReadable && !r.flag }
      if r.flag && !isEventTriggered && r.ret = 0 then (w, true) else (w.call id r.ret, false)
    | .cut => (w.fault .cut, false)
    | .null => (w.fault .nullDeref, false)

-- `handle_events`, an inotify only has tasks that read
def handleEvents (w : Inotify) (id : Nat) (isEventTriggered : Bool) (cs : List Call) : Inotify :=
  Source.handleEvents (fun w t => w.doReadTask id t isEventTriggered cs) w id

def arrive (w : Inotify) (es : List InotifyEvent) : Inotify :=
  { w with
    queue := w.queue ++ es
    arrived := w.arrived ++ es
    edge := w.edge || (es ≠ [] && w.isRegistered) }

def applyChanges (w : Inotify) : Inotify :=
  let w' := { w with poll := w.poll.applyChanges }
  -- a file that can be read when it is registered is reported
  { w' with edge := w.edge || (w'.isRegistered && !w.isRegistered && w.queue ≠ []) }

-- An event is reported if the queue is not empty.
def report (w : Inotify) (cs : List Call) : Inotify :=
  match w.poll.kernel.interest w.fd.key with
  | none => w
  | some (mask, id) =>
    let w' := { w with edge := false }
    if w.edge ∧ w.queue ≠ [] ∧ mask.read then
      (w'.modifyAction id fun a => { a with isReadable := true }).handleEvents id true cs
    else
      w'

def doReadyTask (w : Inotify) (cs : List Call) : Inotify :=
  match w.poll.readyEvents with
  | [] => w
  | id :: _ =>
    let w := w.handleEvents id false cs
    { w with poll := { w.poll with readyEvents := w.poll.readyEvents.tail } }

def step (w : Inotify) : Action → Inotify
  | .arrive es => w.arrive es
  | .apply => w.applyChanges
  | .report cs => w.report cs
  | .ready cs => w.doReadyTask cs

def run (w : Inotify) (as : List Action) : Inotify :=
  as.foldl step w

-- The event loop has processed the instruction of `open`.
def start (num : Nat) (bufferSize : UInt32) (watchFdToCb : UInt32 → Option Callback) : Inotify :=
  let w : Inotify := { fd := ⟨num, .inotify⟩, poll := Epoll.init fun _ => true, bufferSize, watchFdToCb }
  w.submitAsyncRead ⟨true, []⟩ (some handleEventReady) none

end Inotify

end Event
end Ezio
