import Ezio.Event.FdIo

/-!
This module contains `event_action`, the state that the epoll backend keeps for a file descriptor, up
to `handle_events`, which calls back into the backend.
-/

namespace Ezio

inductive FdType where
  | tcp
  | udp
  | file
  | accept
  | event
  | timer
  | signal
  | inotify
  | udsStream
  | udsDgram
  | unknown
  deriving DecidableEq, Repr

structure Fd where
  num : Int
  type : FdType
  deriving DecidableEq, Repr

-- The number as a key of `opt_map`.
def Fd.key (fd : Fd) : Nat := fd.num.toNat

-- The identity of a callback that the user passes in, `nullptr` is `none` wherever one is expected.
abbrev Callback := Nat

-- The ways a run of the backend can end without returning.
inductive Fault where
  -- `STABLE_INFRA_ASSERT`
  | assert
  -- `front` or `pop_front` of an empty deque of read tasks
  | emptyReadQueue
  -- `front` or `pop_front` of an empty deque of write tasks
  | emptyWriteQueue
  -- `front` or `pop_front` of an empty deque of deferred tasks
  | emptyDeferredQueue
  -- an empty `std::function` is called for a read
  | emptyReadCallback
  -- an empty `std::function` is called for a write
  | emptyWriteCallback
  | nullDeref
  | useAfterFree
  -- a reference to an element of a `std::vector` that has been reallocated since
  | dangling
  | outOfBounds
  -- the answers of the kernel end here, the code still waits for the next one
  | cut
  deriving DecidableEq, Repr

namespace Event

-- The event bits that are ever combined: the bits of `read_event_` (or `EV_READ`), of `write_event_`
-- (or `EV_WRITE`) and of `EPOLLET` (or `EV_ET`).
structure Mask where
  read : Bool
  write : Bool
  et : Bool
  deriving DecidableEq, Repr

def Mask.empty : Mask := ⟨false, false, false⟩

-- The `buffer` and `buffer_iov_cnt` arguments.
structure UserBuf where
  isNull : Bool
  iov : List Iovec
  deriving DecidableEq, Repr

-- `task`, `id` numbers the tasks in the order they are submitted.
structure Task where
  id : Nat
  buffer : List Iovec
  sockaddr : Option Nat
  needSockDetail : Bool
  deriving DecidableEq, Repr

-- `multishot_task`, the ring buffer is named by its group id.
structure MultishotTask where
  bufRing : Nat
  needSockDetail : Bool
  isSubmit : Bool
  deriving DecidableEq, Repr

inductive ReadOp where
  | tcp
  | tcpMultishot
  | udp
  | udpMultishot
  | inotify
  | file
  | eventFd
  | signalFd
  deriving DecidableEq, Repr

inductive WriteOp where
  | tcp
  | udp
  | file
  | eventFd
  -- `inotify` and `signalfd` are not written to
  | none
  deriving DecidableEq, Repr

structure FdOperations where
  read : ReadOp
  write : WriteOp
  deriving DecidableEq, Repr

-- What `read_buf_idx_callback_` holds: the callback of a read, or the callback of an accept in the
-- wrapper that `submit_async_accept` puts around it.
inductive ReadCallback where
  | read (cb : Callback)
  | accept (cb : Callback)
  deriving DecidableEq, Repr

-- `mmsghdr_for_udp_multishot_`, which `clear_multishot_task` deletes but does not reset.
inductive HdrPtr where
  | null
  | live (buf : List FdIo.Udp.Mmsghdr)
  | freed
  deriving DecidableEq, Repr

structure EventAction where
  fd : Fd
  events : Mask
  readBufIdxCallback : Option ReadCallback
  writeCallback : Option Callback
  hasAcceptTask : Bool
  hasAddrBuffer : Bool
  pendingReadTask : List Task
  nonSubmitReadTask : List Task
  pendingWriteTask : List Task
  nonSubmitWriteTask : List Task
  multishotReadTask : Option MultishotTask
  mmsghdrForUdpMultishot : HdrPtr
  mmsghdrForUdpSock : List FdIo.Udp.Mmsghdr
  isReadable : Bool
  isWritable : Bool
  fdOps : Option FdOperations
  -- `UINT64_MAX` is `none`
  readOffset : Option Nat
  writeOffset : Option Nat
  deriving DecidableEq, Repr

namespace EventAction

-- The operations that `set_fd_ops` picks, an `ACCEPT_FD` gets none.
def opsOf (type : FdType) : Option FdOperations :=
  match type with
  | .tcp => some ⟨.tcp, .tcp⟩
  | .udp => some ⟨.udp, .udp⟩
  | .inotify => some ⟨.inotify, .none⟩
  | .file => some ⟨.file, .file⟩
  | .timer => some ⟨.eventFd, .eventFd⟩
  | .event => some ⟨.eventFd, .eventFd⟩
  | .signal => some ⟨.signalFd, .none⟩
  | .udsStream => some ⟨.tcp, .tcp⟩
  | .udsDgram => some ⟨.udp, .udp⟩
  | .accept => none
  | .unknown => none

def setFdOps (a : EventAction) (type : FdType) : EventAction :=
  match opsOf type with
  | none => a
  | some ops =>
    if type = .file then
      -- file fds are always readable and writable
      { a with fdOps := some ops, isWritable := true, isReadable := true }
    else
      { a with fdOps := some ops }

-- The members before `set_fd_ops` is called.
def blank (fd : Fd) : EventAction :=
  { fd := fd, events := .empty, readBufIdxCallback := none, writeCallback := none,
    hasAcceptTask := false, hasAddrBuffer := false, pendingReadTask := [],
    nonSubmitReadTask := [], pendingWriteTask := [], nonSubmitWriteTask := [],
    multishotReadTask := none, mmsghdrForUdpMultishot := .null, mmsghdrForUdpSock := [],
    isReadable := false, isWritable := false, fdOps := none, readOffset := none,
    writeOffset := none }

-- `set_fd_ops` asserts that the type is known.
def new (fd : Fd) : Except Fault EventAction :=
  if fd.type = .unknown then .error .assert else .ok <| setFdOps (blank fd) fd.type

def setReadCallback (a : EventAction) (cb : ReadCallback) : EventAction :=
  { a with events := { a.events with read := true }, readBufIdxCallback := some cb }

def setWriteCallback (a : EventAction) (cb : Callback) : EventAction :=
  { a with events := { a.events with write := true }, writeCallback := some cb }

def isReading (a : EventAction) : Bool := a.events.read

def isWriting (a : EventAction) : Bool := a.events.write

def isNoneEvt (a : EventAction) : Bool := !(a.isWriting || a.isReading)

def addReadTask (a : EventAction) (t : Task) : EventAction :=
  { a with pendingReadTask := a.pendingReadTask ++ [t] }

def addNonSubmitReadTask (a : EventAction) (t : Task) : EventAction :=
  { a with nonSubmitReadTask := a.nonSubmitReadTask ++ [t] }

def addAcceptTask (a : EventAction) : EventAction :=
  { a with hasAcceptTask := true }

def addWriteTask (a : EventAction) (t : Task) : EventAction :=
  { a with pendingWriteTask := a.pendingWriteTask ++ [t] }

def addNonSubmitWriteTask (a : EventAction) (t : Task) : EventAction :=
  { a with nonSubmitWriteTask := a.nonSubmitWriteTask ++ [t] }

-- The loop of `submit` that moves the deferred tasks, with the pending and the deferred ones. `i` is a `uint32_t` and
-- the size of the deque a `size_t`.
def moveTasks (size : Nat) : (i : BitVec 32) → (pending nonSubmit : List Task) → Except Fault (List Task × List Task)
  | i, pending, [] => if i.toNat < size then .error .emptyDeferredQueue else .ok (pending, [])
  | i, pending, t :: nonSubmit =>
    if i.toNat < size then moveTasks size (i + 1) (pending ++ [t]) nonSubmit else .ok (pending, t :: nonSubmit)

def submit (a : EventAction) : Except Fault EventAction := do
  let (pendingRead, nonSubmitRead) ← moveTasks a.nonSubmitReadTask.length 0 a.pendingReadTask a.nonSubmitReadTask
  if nonSubmitRead ≠ [] then
    throw .assert
  let (pendingWrite, nonSubmitWrite) ←
    moveTasks a.nonSubmitWriteTask.length 0 a.pendingWriteTask a.nonSubmitWriteTask
  if nonSubmitWrite ≠ [] then
    throw .assert
  return { a with
    pendingReadTask := pendingRead
    nonSubmitReadTask := nonSubmitRead
    pendingWriteTask := pendingWrite
    nonSubmitWriteTask := nonSubmitWrite
    multishotReadTask := a.multishotReadTask.map fun t => { t with isSubmit := true } }

-- The headers of a fresh `mmsghdr_buf_info` that describe the given blocks.
def hdrsOf (blocks : List Iovec) (needSockDetail : Bool) : List FdIo.Udp.Mmsghdr :=
  blocks.map fun v => { iov := v, hasName := needSockDetail, msgLen := 0 }

def setReadOp (a : EventAction) (op : ReadOp) : EventAction :=
  { a with fdOps := a.fdOps.map fun ops => { ops with read := op } }

-- The part of `add_multishot_read_task` that stays inside the object, `register_fd` is called on the
-- ring buffer besides. The headers are made only once.
def addMultishotReadTask (a : EventAction) (t : MultishotTask) (blocks : List Iovec) : EventAction :=
  match a.fd.type with
  | .tcp => setReadOp { a with multishotReadTask := some t } .tcpMultishot
  | .udp =>
    match a.mmsghdrForUdpMultishot with
    | .null =>
      setReadOp
        { a with
          multishotReadTask := some t
          mmsghdrForUdpMultishot := .live (hdrsOf blocks t.needSockDetail) }
        .udpMultishot
    | _ => setReadOp { a with multishotReadTask := some t } .udpMultishot
  | _ => { a with multishotReadTask := some t }

-- The part of `clear_multishot_task` that stays inside the object, `unregister_fd` is called on the
-- ring buffer besides.
def clearMultishotTask (a : EventAction) : Except Fault EventAction :=
  match a.multishotReadTask with
  | none => .ok a
  | some _ =>
    match a.mmsghdrForUdpMultishot with
    | .null => .ok <| setFdOps { a with multishotReadTask := none } a.fd.type
    | .live _ =>
      .ok <| setFdOps { a with multishotReadTask := none, mmsghdrForUdpMultishot := .freed } a.fd.type
    | .freed => .error .useAfterFree

def disableRead (a : EventAction) : Except Fault EventAction := do
  let a ← clearMultishotTask
    { a with
      events := { a.events with read := false }
      readBufIdxCallback := none
      pendingReadTask := []
      nonSubmitReadTask := [] }
  return { a with hasAcceptTask := false }

def disableWrite (a : EventAction) : EventAction :=
  { a with
    events := { a.events with write := false }
    writeCallback := none
    pendingWriteTask := []
    nonSubmitWriteTask := [] }

-- The headers that `do_read_task` builds in `mmsghdr_for_udp_sock_`: `set_param` only grows the array,
-- which clears it, so that entries keep the `msg_len` of earlier reads.
def prepareHdrs (buf : List FdIo.Udp.Mmsghdr) (t : Task) : List FdIo.Udp.Mmsghdr :=
  let buf :=
    if t.buffer.length ≤ buf.length then buf
    else List.replicate t.buffer.length ⟨⟨0, 0⟩, false, 0⟩
  buf.mapIdx fun i m =>
    match t.buffer[i]? with
    | some v => { m with iov := v, hasName := t.needSockDetail }
    | none => m

end EventAction

end Event

end Ezio
