import Ezio.Lib.Exec
import Ezio.Event.Epoll.Basic

/-!
This module contains `handle_events` of `event_action` and `dispatch` of `epoll`. Both run callbacks
of the user, which call the interface of the backend again. What the kernel answers and what the
callbacks do are lists that a run consumes from the front.
-/

namespace Ezio
namespace Event

inductive Op where
  | submitAsyncRead (fd : Fd) (buf : UserBuf) (cb : Option Callback) (opt : Option ReadOptions)
  | submitAsyncReadGroup (fd : Fd) (group : Nat) (cb : Option Callback) (opt : Option ReadOptions)
  | submitAsyncWrite (fd : Fd) (buf : UserBuf) (cb : Option Callback) (opt : Option WriteOptions)
  | submitAsyncAccept (listenFd : Fd) (hasAddrBuffer : Bool) (cb : Option Callback)
  | cancelAsyncRead (fd : Fd) (cb : Option Callback)
  | cancelAsyncWrite (fd : Fd) (cb : Option Callback)
  | cancelAsyncAccept (listenFd : Fd) (cb : Option Callback)
  | submit
  | registerRingBuffer (blockSize blockCount : Nat) (addrs : List Nat)
  | unregisterRingBuffer (group : Nat)
  -- the user closes a file, or a file that is opened receives the number
  | close (fd : Nat)
  | open (fd : Nat)
  deriving DecidableEq, Repr

-- The callback of a cancel is called last, so what it does is what the user does next.
def Epoll.exec (s : Epoll) (op : Op) : Except Fault (Int × Epoll) :=
  match op with
  | .submitAsyncRead fd buf cb opt => s.submitAsyncRead fd buf cb opt
  | .submitAsyncReadGroup fd group cb opt => s.submitAsyncReadGroup fd group cb opt
  | .submitAsyncWrite fd buf cb opt => s.submitAsyncWrite fd buf cb opt
  | .submitAsyncAccept fd hasAddrBuffer cb => s.submitAsyncAccept fd hasAddrBuffer cb
  | .cancelAsyncRead fd cb => s.cancelAsyncRead fd cb
  | .cancelAsyncWrite fd cb => s.cancelAsyncWrite fd cb
  | .cancelAsyncAccept fd cb => s.cancelAsyncAccept fd cb
  | .submit => s.submit
  | .registerRingBuffer blockSize blockCount addrs =>
    .ok (s.registerRingBuffer blockSize blockCount addrs)
  | .unregisterRingBuffer group => s.unregisterRingBuffer group
  | .close fd => .ok (0, { s with kernel := s.kernel.close fd })
  | .open fd => .ok (0, { s with kernel := s.kernel.open fd })

-- What `read_buf_idx_callback_` is called for.
inductive ReadSource where
  | task (id : Nat)
  | multishot
  | accept
  deriving DecidableEq, Repr

-- What has happened so far, oldest first. Calls and passes over a queue come with what they start
-- from, callbacks with what they do.
inductive Entry where
  | call (op : Op) (before : Epoll)
  | readPass (id : Nat) (before : Epoll) (sys : List SysRet) (user : List (List Op))
  | writePass (id : Nat) (before : Epoll) (sys : List SysRet) (user : List (List Op))
  -- the buffers that the kernel was given, with the address, and the count that it returned
  | sent (id task : Nat) (sockaddr : Option Nat) (offered : List Iovec) (n : Nat)
  | refused (id task : Nat)
  | lseek (id task offset : Nat)
  | readCallback (id : Nat) (cb : ReadCallback) (src : ReadSource) (ret : Int) (iov : List Iovec)
  | readReturn (id : Nat) (src : ReadSource) (ret : Int) (before : Epoll) (ops : List Op)
      (after : Epoll)
  | writeCallback (id : Nat) (cb : Callback) (task : Nat) (ret : Int) (ops : List Op)

structure World where
  poll : Epoll
  sys : List SysRet
  user : List (List Op)
  log : List Entry

namespace World

def action (w : World) (id : Nat) : EventAction := w.poll.action id

def modifyAction (w : World) (id : Nat) (f : EventAction → EventAction) : World :=
  { w with poll := w.poll.modifyAction id f }

def addLog (w : World) (es : List Entry) : World :=
  { w with log := w.log ++ es }

end World

abbrev EventM := EStateM Fault World

def exec (op : Op) : EventM Unit := fun w =>
  let w' := w.addLog [Entry.call op w.poll]
  match w.poll.exec op with
  | .ok (_, s) => .ok () { w' with poll := s }
  | .error f => .error f w'

def modifyAction (id : Nat) (f : EventAction → EventAction) : EventM Unit :=
  modify fun w => w.modifyAction id f

def liftIo (io : List SysRet → Io α) : EventM α := fun w =>
  match io w.sys with
  | .done r sys => .ok r { w with sys := sys }
  | .cut => .error .cut w
  | .null => .error .nullDeref w

def readCallback (id : Nat) (src : ReadSource) (ret : Int) (iov : List Iovec) : EventM Unit := do
  let w ← get
  match (w.action id).readBufIdxCallback with
  | none => throw .emptyReadCallback
  | some cb =>
    let ops := w.user.headD []
    modify fun w =>
      { w.addLog [.readCallback id cb src ret iov] with user := w.user.tail }
    ops.forM exec
    modify fun w' => w'.addLog [.readReturn id src ret w.poll ops w'.poll]

def writeCallback (id : Nat) (task : Nat) (ret : Int) : EventM Unit := do
  let w ← get
  match (w.action id).writeCallback with
  | none => throw .emptyWriteCallback
  | some cb =>
    let ops := w.user.headD []
    modify fun w =>
      { w.addLog [.writeCallback id cb task ret ops] with user := w.user.tail }
    ops.forM exec

-- `fd_ops_.read` on an array of `iovec`
def readIov (op : Option ReadOp) (hasMsg : Bool) (iov : List Iovec) (sys : List SysRet) : Io FdRet :=
  match op with
  | some .tcp => FdIo.Tcp.readFd iov sys
  | some .tcpMultishot => if hasMsg then FdIo.Tcp.readFdForMultishot iov sys else .null
  | some .inotify => FdIo.Inotify.readFd iov sys
  | some .file => FdIo.File.readFd iov sys
  | some .eventFd => FdIo.EventFd.readFd iov sys
  | some .signalFd => FdIo.SignalFd.readFd iov sys
  -- the customized data is not a `mmsghdr_buf_info`
  | some .udp | some .udpMultishot => .null
  | none => .null

-- `fd_ops_.read` on a `mmsghdr_buf_info`
def readHdrs (op : Option ReadOp) (buf : List FdIo.Udp.Mmsghdr) (iovCnt : Nat) (sys : List SysRet)
    : Io FdIo.Udp.RecvRet :=
  match op with
  | some .udp => FdIo.Udp.readFd buf iovCnt sys
  | some .udpMultishot => FdIo.Udp.readFdForMultishot buf sys
  | _ => .null

def writeIov (op : Option WriteOp) (iov : List Iovec) (sys : List SysRet) : Io FdRet :=
  match op with
  | some .tcp => FdIo.Tcp.writeFd iov sys
  | some .udp => FdIo.Udp.writeFd iov sys
  | some .file => FdIo.File.writeFd iov sys
  | some .eventFd => FdIo.EventFd.writeFd iov sys
  | some .none => .done ⟨0, false, iov, []⟩ sys
  | none => .null

def EventAction.readOp (a : EventAction) : Option ReadOp := a.fdOps.map (·.read)

def EventAction.writeOp (a : EventAction) : Option WriteOp := a.fdOps.map (·.write)

-- The headers that `read_udp` is given: those of the multishot read or those of single reads.
def udpHdrs (id : Nat) (isMultishot : Bool) : EventM (List FdIo.Udp.Mmsghdr) := do
  let w ← get
  if isMultishot then
    match (w.action id).mmsghdrForUdpMultishot with
    | .live buf => return buf
    | .null => throw .nullDeref
    | .freed => throw .useAfterFree
  else
    return (w.action id).mmsghdrForUdpSock

def setUdpHdrs (id : Nat) (isMultishot : Bool) (buf : List FdIo.Udp.Mmsghdr) : EventM Unit :=
  modifyAction id fun a =>
    if isMultishot then { a with mmsghdrForUdpMultishot := .live buf }
    else { a with mmsghdrForUdpSock := buf }

-- The loop of `read_udp` over the datagrams, from index `i` on.
def udpCallbacks (id : Nat) (isMultishot : Bool) (src : ReadSource) (i : Nat) : Nat → EventM Unit
  | 0 => pure ()
  | n + 1 => do
    let buf ← udpHdrs id isMultishot
    match buf[i]? with
    | none => throw .outOfBounds
    | some hdr =>
      readCallback id src hdr.msgLen [hdr.iov]
      udpCallbacks id isMultishot src (i + 1) n

def readUdp (id : Nat) (isMultishot : Bool) (src : ReadSource) (realIovCnt : Nat) : EventM Int := do
  let buf ← udpHdrs id isMultishot
  let w ← get
  let r ← liftIo (readHdrs (w.action id).readOp buf realIovCnt)
  setUdpHdrs id isMultishot r.buf
  if 0 < r.ret then
    modifyAction id fun a => { a with isReadable := a.isReadable && !r.isEmpty }
    if r.ret = INT32_MAX then
      return r.ret
    else
      udpCallbacks id isMultishot src 0 r.ret.toNat
      return 0
  else
    readCallback id src r.ret []
    return -1

-- `ring` is the ring buffer that `do_multishot_read_task` has taken a reference to.
def readTcp (id : Nat) (ring : Nat) (iov : List Iovec) : EventM Int := do
  let w ← get
  let r ← liftIo (readIov (w.action id).readOp true iov)
  modify fun w => { w with poll := w.poll.modifyBuffer ring fun b => { b with blocks := r.iov } }
  if 0 < r.ret then
    if r.ret = INT32_MAX && r.flag then
      modifyAction id fun a => { a with isReadable := false }
      return -1
    else
      readCallback id .multishot r.ret r.iov
      return 0
  else
    readCallback id .multishot r.ret []
    return -1

def readShot (id : Nat) (ring : Nat) (iov : List Iovec) : EventM Int := do
  let w ← get
  if (w.action id).fd.type = .udp then readUdp id true .multishot 0 else readTcp id ring iov

-- Every iteration waits for an answer of the kernel, so there are at most as many as answers.
def multishotLoop (id : Nat) (ring : Nat) : Nat → EventM Unit
  | 0 => throw .cut
  | n + 1 => do
    let w ← get
    match w.poll.bufferOf ring with
    | none => throw .useAfterFree
    | some b =>
      if b.blocks = [] then
        throw .assert
      else
        let ret ← readShot id ring b.blocks
        if ret < 0 then
          pure ()
        else
          multishotLoop id ring n

def doMultishotReadTask (id : Nat) (t : MultishotTask) : EventM Unit := do
  let w ← get
  multishotLoop id t.bufRing (w.sys.length + 1)

inductive AcceptRet where
  | again
  | error
  | conn (fd : Nat)
  deriving DecidableEq, Repr

def acceptLoop : List SysRet → Io AcceptRet
  | [] => .cut
  | .ok n _ :: sys => if n = 0 then acceptLoop sys else .done (.conn n) sys
  | .fail e :: sys =>
    if e = .again then .done .again sys
    else if e = .intr then acceptLoop sys
    else .done .error sys

def doAcceptTask (id : Nat) : EventM Unit := do
  let w ← get
  let r ← liftIo acceptLoop
  match r with
  | .again => modifyAction id fun a => { a with isReadable := false }
  | .error => readCallback id .accept (-1) []
  | .conn fd =>
    if (w.action id).hasAddrBuffer then
      readCallback id .accept fd []
    else
      throw .nullDeref

-- Call `lseek`, the result says whether it has succeeded.
def lseek (id : Nat) (task offset : Nat) : EventM Bool := do
  let ok ← liftIo fun sys =>
    match sys with
    | [] => .cut
    | .ok _ _ :: sys => .done true sys
    | .fail _ :: sys => .done false sys
  modify fun w => w.addLog (if ok then [.lseek id task offset] else [])
  return ok

-- The result of `do_read_task` and of `do_write_task` is whether they return `INT32_MAX`.
def doReadTask (id : Nat) (t : Task) (isEventTriggered : Bool) : EventM Bool := do
  let w ← get
  if t.buffer = [] then
    -- just detect is readable or not, do not need to read fd
    readCallback id (.task t.id) 0 t.buffer
    return false
  else
    match (if (w.action id).fd.type = .file then (w.action id).readOffset else none) with
    | none => transfer
    | some offset =>
      let ok ← lseek id t.id offset
      if ok then
        -- next time, continue to read at current offset
        modifyAction id fun a => { a with readOffset := none }
        transfer
      else
        readCallback id (.task t.id) (-1) t.buffer
        return false
where
  transfer : EventM Bool := do
    let w ← get
    if (w.action id).fd.type = .udp then
      modifyAction id fun a =>
        { a with mmsghdrForUdpSock := EventAction.prepareHdrs a.mmsghdrForUdpSock t }
      let ret ← readUdp id false (.task t.id) t.buffer.length
      return ret = INT32_MAX
    else
      let r ← liftIo (readIov (w.action id).readOp false t.buffer)
      modifyAction id fun a => { a with isReadable := a.isReadable && !r.flag }
      if r.flag && !isEventTriggered && r.ret = 0 then
        return true
      else
        readCallback id (.task t.id) r.ret t.buffer
        return false

def doWriteTask (id : Nat) (t : Task) : EventM Bool := do
  let w ← get
  if t.buffer = [] then
    -- just detect is writable or not, do not need to write fd
    writeCallback id t.id 0
    return false
  else
    match (w.action id).writeOffset with
    | none => transfer
    | some offset =>
      let ok ← lseek id t.id offset
      if ok then
        transfer
      else
        writeCallback id t.id (-1)
        return false
where
  transfer : EventM Bool := do
    let w ← get
    let r ← liftIo (writeIov (w.action id).writeOp t.buffer)
    modify fun w => w.addLog (r.moved.map fun m => .sent id t.id t.sockaddr m.1 m.2)
    -- next time, continue to write at current offset
    modifyAction id fun a => { a with writeOffset := none }
    if r.flag && r.ret = 0 then
      modify fun w => w.addLog [.refused id t.id]
      return true
    else
      writeCallback id t.id r.ret
      return false

def popReadTask (id : Nat) : EventM Unit := do
  let w ← get
  match (w.action id).pendingReadTask with
  | [] => throw .emptyReadQueue
  | _ :: ts => modifyAction id fun a => { a with pendingReadTask := ts }

def popWriteTask (id : Nat) : EventM Unit := do
  let w ← get
  match (w.action id).pendingWriteTask with
  | [] => throw .emptyWriteQueue
  | _ :: ts => modifyAction id fun a => { a with pendingWriteTask := ts }

def readLoop (id : Nat) (isEventTriggered : Bool) : Nat → EventM Unit
  | 0 => pure ()
  | n + 1 => do
    let w ← get
    match (w.action id).pendingReadTask with
    | [] => throw .emptyReadQueue
    | t :: _ =>
      let again ← doReadTask id t isEventTriggered
      modifyAction id fun a => if again then a.addReadTask t else a
      popReadTask id
      readLoop id isEventTriggered n

def writeLoop (id : Nat) : Nat → EventM Unit
  | 0 => pure ()
  | n + 1 => do
    let w ← get
    match (w.action id).pendingWriteTask with
    | [] => throw .emptyWriteQueue
    | t :: _ =>
      let again ← doWriteTask id t
      modifyAction id fun a => if again then { a with isWritable := false }.addWriteTask t else a
      popWriteTask id
      writeLoop id n

def readPass (id : Nat) (isEventTriggered : Bool) : EventM Unit := do
  let w ← get
  modify fun w => w.addLog [.readPass id w.poll w.sys w.user]
  readLoop id isEventTriggered (w.action id).pendingReadTask.length

def writePass (id : Nat) : EventM Unit := do
  let w ← get
  modify fun w => w.addLog [.writePass id w.poll w.sys w.user]
  writeLoop id (w.action id).pendingWriteTask.length

def acceptPass (id : Nat) : EventM Unit := do
  let w ← get
  if (w.action id).hasAcceptTask then doAcceptTask id else pure ()

def handleRead (id : Nat) (isEventTriggered : Bool) : EventM Unit := do
  let w ← get
  if (w.action id).isReadable then
    match (w.action id).multishotReadTask with
    | some t => doMultishotReadTask id t
    | none => readPass id isEventTriggered
    acceptPass id
  else
    pure ()

def handleWrite (id : Nat) : EventM Unit := do
  let w ← get
  if (w.action id).isWritable && (w.action id).pendingWriteTask ≠ [] then
    writePass id
  else
    pure ()

-- `handle_events` returns at once if the multishot read is not submitted yet.
def EventAction.isHeld (a : EventAction) : Bool :=
  a.isReadable && a.multishotReadTask.any fun t => !t.isSubmit

def handleEvents (id : Nat) (isEventTriggered : Bool) : EventM Unit := do
  let w ← get
  if (w.action id).isHeld then
    pure ()
  else
    handleRead id isEventTriggered
    handleWrite id

def setReadyEvents (id : Nat) (events : Mask) : EventM Unit := do
  modifyAction id fun a =>
    { a with
      isReadable := a.isReadable || events.read
      isWritable := a.isWritable || events.write }
  handleEvents id true

def readyLoop : Nat → EventM Unit
  | 0 => pure ()
  | n + 1 => do
    let w ← get
    match w.poll.readyEvents with
    | [] => throw .outOfBounds
    | id :: _ =>
      handleEvents id false
      modify fun w => { w with poll := { w.poll with readyEvents := w.poll.readyEvents.tail } }
      readyLoop n

def doReadyTasks : EventM Unit := do
  let w ← get
  readyLoop w.poll.readyEvents.length

def EVENT_CNT : Nat := 1024

-- What `epoll_wait` reports if the files named in `ready` are ready for the given events: only what
-- is registered, as far as it is registered, and no more than fits in `events_ptr_`.
def epollWait (k : Kernel) (ready : List (Nat × Mask)) : List (Nat × Mask) :=
  (ready.filterMap fun (fd, events) => (k.interest fd).map fun (mask, ptr) =>
    (ptr, { read := events.read && mask.read, write := events.write && mask.write, et := false }))
  |>.take EVENT_CNT

-- `none` is a call of `epoll_wait` that returns -1.
def dispatch (ready : Option (List (Nat × Mask))) : EventM Unit := do
  modify fun w => { w with poll := w.poll.applyChanges }
  match ready with
  | none => pure ()
  | some ready =>
    let w ← get
    (epollWait w.poll.kernel ready).forM fun e => setReadyEvents e.1 e.2
    doReadyTasks
    modify fun w => { w with poll := { w.poll with removedEventInfo := [] } }

inductive Step where
  | op (op : Op)
  | dispatch (ready : Option (List (Nat × Mask))) (sys : List SysRet) (user : List (List Op))
      (ctlErrs : List (Option Errno))

def World.load (w : World) (sys : List SysRet) (user : List (List Op))
    (ctlErrs : List (Option Errno))
    : World :=
  { w with
    poll := { w.poll with kernel := { w.poll.kernel with ctlErrs := ctlErrs } }
    sys := sys
    user := user }

def step (st : Step) : EventM Unit :=
  match st with
  | .op op => exec op
  | .dispatch ready sys user ctlErrs => do
    modify fun w => w.load sys user ctlErrs
    Event.dispatch ready

def run (sts : List Step) : EventM Unit := sts.forM step

def Epoll.init (isOpen : Nat → Bool) : Epoll :=
  let fd := { num := -1, type := .unknown }
  { isInited := true
    infos := fun _ =>
      { fd := fd, events := .empty, isInEpoll := false, isInChangeList := false
        action := EventAction.blank fd }
    next := 0
    fdToEventInfo := fun _ => none
    removedEventInfo := []
    evtChangeLst := []
    readyEvents := []
    buffers := []
    nonSubmitEvents := []
    nextTask := 0
    kernel := { interest := fun _ => none, isOpen := isOpen, ctlErrs := [] } }

def World.init (isOpen : Nat → Bool) : World :=
  { poll := Epoll.init isOpen, sys := [], user := [], log := [] }

end Event
end Ezio
