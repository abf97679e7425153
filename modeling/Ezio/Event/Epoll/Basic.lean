import Mathlib.Logic.Function.Basic
import Ezio.Event.EventAction

/-!
This module contains the state of the epoll backend, the functions of its interface that submit and
cancel operations, and `apply_changes`, which brings the interest list of the kernel up to date.
-/

namespace Ezio
namespace Event

-- `event_info` together with the `event_action` that its constructor makes.
structure EventInfo where
  fd : Fd
  events : Mask
  isInEpoll : Bool
  isInChangeList : Bool
  action : EventAction
  deriving DecidableEq, Repr

def EventInfo.new (fd : Fd) : Except Fault EventInfo := do
  let action ← EventAction.new fd
  return { fd := fd, events := .empty, isInEpoll := false, isInChangeList := false, action := action }

-- `ring_buffer_info`. Nothing is ever committed to the ring buffer of a group, so that
-- `writer_get_buffer` always hands out all of its blocks, it returns `nullptr` if there is none.
structure RingBufferInfo where
  blocks : List Iovec
  fdSet : List Nat
  deriving DecidableEq, Repr

def RingBufferInfo.registerFd (r : RingBufferInfo) (fd : Nat) : RingBufferInfo :=
  { r with fdSet := if fd ∈ r.fdSet then r.fdSet else r.fdSet ++ [fd] }

def RingBufferInfo.unregisterFd (r : RingBufferInfo) (fd : Nat) : RingBufferInfo :=
  { r with fdSet := r.fdSet.filter (· ≠ fd) }

inductive CtlOp where
  | add
  | mod
  | del
  deriving DecidableEq, Repr

-- The part of the kernel behind `epfd_`: which open file is registered for which events and with which
-- `data.ptr`, and the errors that the next calls of `epoll_ctl` run into for reasons of their own.
structure Kernel where
  interest : Nat → Option (Mask × Nat)
  isOpen : Nat → Bool
  ctlErrs : List (Option Errno)

-- Call `epoll_ctl`, `none` is success.
def Kernel.epollCtl (k : Kernel) (op : CtlOp) (fd : Nat) (mask : Mask) (ptr : Nat)
    : Option Errno × Kernel :=
  let k' := { k with ctlErrs := k.ctlErrs.tail }
  match k.ctlErrs.head?.join with
  | some e => (some e, k')
  | none =>
    if !k.isOpen fd then
      (some .badf, k')
    else
      match op, k.interest fd with
      | .add, none => (none, { k' with interest := Function.update k.interest fd (some (mask, ptr)) })
      | .add, some _ => (some .exist, k')
      | .mod, some _ => (none, { k' with interest := Function.update k.interest fd (some (mask, ptr)) })
      | .mod, none => (some .noent, k')
      | .del, some _ => (none, { k' with interest := Function.update k.interest fd none })
      | .del, none => (some .noent, k')

-- The user calls `close`, the kernel drops the file from the interest list.
def Kernel.close (k : Kernel) (fd : Nat) : Kernel :=
  { k with
    interest := Function.update k.interest fd none
    isOpen := Function.update k.isOpen fd false }

-- A file is opened and receives the number.
def Kernel.open (k : Kernel) (fd : Nat) : Kernel :=
  { k with isOpen := Function.update k.isOpen fd true }

structure ReadOptions where
  offset : Option Nat
  isSubmit : Bool
  needSocketDetail : Bool
  deriving DecidableEq, Repr

structure WriteOptions where
  offset : Option Nat
  isSubmit : Bool
  sockaddr : Option Nat
  deriving DecidableEq, Repr

-- `epoll`. The `event_info` objects live at `infos`, a pointer to one of them or to its `event_action`
-- is its index.
structure Epoll where
  isInited : Bool
  infos : Nat → EventInfo
  next : Nat
  fdToEventInfo : Nat → Option Nat
  removedEventInfo : List Nat
  evtChangeLst : List Nat
  readyEvents : List Nat
  buffers : List (Option RingBufferInfo)
  nonSubmitEvents : List Nat
  nextTask : Nat
  kernel : Kernel

namespace Epoll

def action (s : Epoll) (id : Nat) : EventAction := (s.infos id).action

def modifyInfo (s : Epoll) (id : Nat) (f : EventInfo → EventInfo) : Epoll :=
  { s with infos := Function.update s.infos id (f (s.infos id)) }

def modifyAction (s : Epoll) (id : Nat) (f : EventAction → EventAction) : Epoll :=
  s.modifyInfo id fun info => { info with action := f info.action }

def setAction (s : Epoll) (id : Nat) (a : EventAction) : Epoll :=
  s.modifyAction id fun _ => a

-- Find the `event_info` of a file descriptor, make one if there is none.
def findOrInsert (s : Epoll) (fd : Fd) : Except Fault (Nat × Epoll) :=
  match s.fdToEventInfo fd.key with
  | some id => .ok (id, s)
  | none => do
    let info ← EventInfo.new fd
    return (s.next,
      { s with
        infos := Function.update s.infos s.next info
        next := s.next + 1
        fdToEventInfo := Function.update s.fdToEventInfo fd.key (some s.next) })

def pushToChangeList (s : Epoll) (id : Nat) : Epoll :=
  if (s.infos id).isInChangeList then
    s
  else
    { s with evtChangeLst := s.evtChangeLst ++ [id] }.modifyInfo id
      fun info => { info with isInChangeList := true }

-- The event changed: `EV_READ` is not set yet.
def watchRead (s : Epoll) (id : Nat) : Epoll :=
  if (s.infos id).events.read then
    s
  else
    (s.modifyInfo id fun info =>
      { info with events := { info.events with read := true, et := true } }).pushToChangeList id

def watchWrite (s : Epoll) (id : Nat) : Epoll :=
  if (s.infos id).events.write then
    s
  else
    (s.modifyInfo id fun info =>
      { info with events := { info.events with write := true, et := true } }).pushToChangeList id

def pushReady (s : Epoll) (id : Nat) : Epoll :=
  { s with readyEvents := s.readyEvents ++ [id] }

def pushIfReadable (s : Epoll) (id : Nat) : Epoll :=
  if (s.action id).isReadable then s.pushReady id else s

def pushIfWritable (s : Epoll) (id : Nat) : Epoll :=
  if (s.action id).isWritable then s.pushReady id else s

def insertNonSubmit (s : Epoll) (id : Nat) : Epoll :=
  if id ∈ s.nonSubmitEvents then s else { s with nonSubmitEvents := s.nonSubmitEvents ++ [id] }

def setReadCb (s : Epoll) (id : Nat) (cb : Option ReadCallback) : Epoll :=
  match cb with
  | some cb => s.modifyAction id fun a => a.setReadCallback cb
  | none => s

def setWriteCb (s : Epoll) (id : Nat) (cb : Option Callback) : Epoll :=
  match cb with
  | some cb => s.modifyAction id fun a => a.setWriteCallback cb
  | none => s

def takeTask (s : Epoll) : Epoll := { s with nextTask := s.nextTask + 1 }

-- The end of both `submit_async_read` of a buffer and `submit_async_write`: the task is queued, and the
-- action is put up for the next `do_ready_tasks` if the file is known to be ready.
def queueRead (s : Epoll) (id : Nat) (t : Task) (isSubmit : Bool) : Epoll :=
  if isSubmit then
    ((s.takeTask).modifyAction id fun a => a.addReadTask t).pushIfReadable id
  else
    ((s.takeTask).modifyAction id fun a => a.addNonSubmitReadTask t).insertNonSubmit id

def queueWrite (s : Epoll) (id : Nat) (t : Task) (isSubmit : Bool) : Epoll :=
  if isSubmit then
    ((s.takeTask).modifyAction id fun a => a.addWriteTask t).pushIfWritable id
  else
    ((s.takeTask).modifyAction id fun a => a.addNonSubmitWriteTask t).insertNonSubmit id

def setReadOffset (s : Epoll) (id : Nat) (offset : Option Nat) : Epoll :=
  match offset with
  | some offset => s.modifyAction id fun a => { a with readOffset := some offset }
  | none => s

def setWriteOffset (s : Epoll) (id : Nat) (offset : Option Nat) : Epoll :=
  match offset with
  | some offset => s.modifyAction id fun a => { a with writeOffset := some offset }
  | none => s

-- What `submit_async_read` and `submit_async_write` do before they queue the task.
def prepareRead (s : Epoll) (fd : Fd) (id : Nat) (cb : Option Callback) (opt : Option ReadOptions)
    : Epoll :=
  let s := s.setReadCb id (cb.map .read)
  -- epoll not support file fd
  let s := if fd.type = .file then s else s.watchRead id
  s.setReadOffset id (opt.bind (·.offset))

def prepareWrite (s : Epoll) (fd : Fd) (id : Nat) (cb : Option Callback) (opt : Option WriteOptions)
    : Epoll :=
  let s := s.setWriteCb id cb
  -- epoll not support file fd
  let s := if fd.type = .file then s else s.watchWrite id
  s.setWriteOffset id (opt.bind (·.offset))

def submitAsyncRead (s : Epoll) (fd : Fd) (buf : UserBuf) (cb : Option Callback)
    (opt : Option ReadOptions)
    : Except Fault (Int × Epoll) :=
  if !s.isInited || fd.num < 0 || (buf.iov ≠ [] && buf.isNull) then
    .ok (-1, s)
  else do
    let (id, s) ← s.findOrInsert fd
    let s := s.prepareRead fd id cb opt
    let t :=
      { id := s.nextTask, buffer := buf.iov, sockaddr := none,
        needSockDetail := (opt.map (·.needSocketDetail)).getD false }
    return (0, s.queueRead id t ((opt.map (·.isSubmit)).getD true))

def submitAsyncWrite (s : Epoll) (fd : Fd) (buf : UserBuf) (cb : Option Callback)
    (opt : Option WriteOptions)
    : Except Fault (Int × Epoll) :=
  if !s.isInited || fd.num < 0 || (buf.iov ≠ [] && buf.isNull) then
    .ok (-1, s)
  else do
    let (id, s) ← s.findOrInsert fd
    let s := s.prepareWrite fd id cb opt
    let t :=
      { id := s.nextTask, buffer := buf.iov,
        sockaddr := if fd.type = .udp then opt.bind (·.sockaddr) else none, needSockDetail := false }
    return (0, s.queueWrite id t ((opt.map (·.isSubmit)).getD true))

def prepareAccept (s : Epoll) (id : Nat) (hasAddrBuffer : Bool) (cb : Option Callback) : Epoll :=
  let s := s.modifyAction id fun a => { a with hasAddrBuffer := a.hasAddrBuffer || hasAddrBuffer }
  let s := s.setReadCb id (cb.map .accept)
  let s := s.watchRead id
  s.modifyAction id fun a => a.addAcceptTask

def submitAsyncAccept (s : Epoll) (listenFd : Fd) (hasAddrBuffer : Bool) (cb : Option Callback)
    : Except Fault (Int × Epoll) :=
  if !s.isInited || listenFd.num < 0 then
    .ok (-1, s)
  else do
    let (id, s) ← s.findOrInsert listenFd
    return (0, (s.prepareAccept id hasAddrBuffer cb).pushIfReadable id)

def bufferOf (s : Epoll) (group : Nat) : Option RingBufferInfo := (s.buffers[group]?).join

def modifyBuffer (s : Epoll) (group : Nat) (f : RingBufferInfo → RingBufferInfo) : Epoll :=
  { s with buffers := s.buffers.modify group (Option.map f) }

def prepareReadGroup (s : Epoll) (id group : Nat) (cb : Option Callback) (t : MultishotTask)
    (blocks : List Iovec)
    : Epoll :=
  let s := s.setReadCb id (cb.map .read)
  let s := s.watchRead id
  let s := s.modifyAction id fun a => a.addMultishotReadTask t blocks
  s.modifyBuffer group fun r => r.registerFd (s.action id).fd.key

-- The `submit_async_read` that reads into a buffer group.
def submitAsyncReadGroup (s : Epoll) (fd : Fd) (group : Nat) (cb : Option Callback)
    (opt : Option ReadOptions)
    : Except Fault (Int × Epoll) :=
  match s.bufferOf group with
  | none => .ok (-1, s)
  | some ring =>
    if !s.isInited || fd.num ≤ 0 || !(fd.type = .tcp || fd.type = .udp) then
      .ok (-1, s)
    else do
      let (id, s) ← s.findOrInsert fd
      let isSubmit := (opt.map (·.isSubmit)).getD true
      let t :=
        { bufRing := group, needSockDetail := (opt.map (·.needSocketDetail)).getD false,
          isSubmit := isSubmit }
      let s := s.prepareReadGroup id group cb t ring.blocks
      return (0, if isSubmit then s.pushIfReadable id else s.insertNonSubmit id)

-- `clear_multishot_task` of the action at `id`.
def clearMultishotTask (s : Epoll) (id : Nat) : Except Fault Epoll :=
  match (s.action id).multishotReadTask with
  | none => .ok s
  | some t =>
    match s.bufferOf t.bufRing with
    | none => .error .useAfterFree
    | some _ => do
      let a ← (s.action id).clearMultishotTask
      return (s.modifyBuffer t.bufRing fun r => r.unregisterFd (s.action id).fd.key).setAction id a

-- `disable_read` of the action at `id`.
def disableRead (s : Epoll) (id : Nat) : Except Fault Epoll := do
  let s ← s.clearMultishotTask id
  let a ← (s.action id).disableRead
  return s.setAction id a

def cancelAsyncRead (s : Epoll) (fd : Fd) (cb : Option Callback) : Except Fault (Int × Epoll) :=
  if !s.isInited || fd.num ≤ 0 then
    .ok (-1, s)
  else
    match s.fdToEventInfo fd.key with
    | none => .ok (-1, s)
    | some id =>
      if !(s.action id).isReading then
        .ok (-1, s)
      else do
        let s ← s.disableRead id
        let s := if (s.action id).isNoneEvt then s.pushToChangeList id else s
        return (if cb.isSome then 0 else -1, s)

def cancelAsyncWrite (s : Epoll) (fd : Fd) (cb : Option Callback) : Except Fault (Int × Epoll) :=
  if !s.isInited || fd.num ≤ 0 then
    .ok (-1, s)
  else
    match s.fdToEventInfo fd.key with
    | none => .ok (-1, s)
    | some id => .ok (if cb.isSome then 0 else -1, s.modifyAction id fun a => a.disableWrite)

def cancelAsyncAccept (s : Epoll) (listenFd : Fd) (cb : Option Callback)
    : Except Fault (Int × Epoll) :=
  if !s.isInited || listenFd.num < 0 then
    .ok (-1, s)
  else
    match s.fdToEventInfo listenFd.key with
    | none => .ok (-1, s)
    | some id => do
      let s ← s.disableRead id
      return (if cb.isSome then 0 else -1, s)

-- The body of the loop in `submit`.
def submitOne (s : Epoll) (id : Nat) : Except Fault Epoll := do
  let a ← (s.action id).submit
  let s := s.setAction id a
  return if (s.action id).isReadable || (s.action id).isWritable then s.pushReady id else s

def submit (s : Epoll) : Except Fault (Int × Epoll) :=
  if s.nonSubmitEvents = [] then
    .ok (-1, s)
  else do
    let s ← s.nonSubmitEvents.foldlM submitOne s
    return (0, { s with nonSubmitEvents := [] })

-- `addrs` are the blocks that could be allocated.
def registerRingBuffer (s : Epoll) (blockSize blockCount : Nat) (addrs : List Nat) : Int × Epoll :=
  let realBlockCnt :=
    if Util.isPowerOf2 blockCount then blockCount
    else Util.roundupPowerOfTwo blockCount % 2 ^ 32
  if realBlockCnt = 0 || addrs.length < blockCount then
    (-1, s)
  else
    let ring :=
      { blocks := (addrs.take blockCount).map fun addr => ⟨addr, blockSize⟩, fdSet := [] }
    (s.buffers.length, { s with buffers := s.buffers ++ [some ring] })

def removeMultishotTask (s : Epoll) (fdSet : List Nat) : Except Fault Epoll :=
  fdSet.foldlM (fun s fd =>
    match s.fdToEventInfo fd with
    | none => .ok s
    | some id => s.clearMultishotTask id) s

def unregisterRingBuffer (s : Epoll) (group : Nat) : Except Fault (Int × Epoll) :=
  match s.bufferOf group with
  | none => .ok (-1, s)
  | some ring => do
    let s ← s.removeMultishotTask ring.fdSet
    return (0, { s with buffers := s.buffers.set group none })

def removeEventInfo (s : Epoll) (fd : Fd) : Epoll :=
  match s.fdToEventInfo fd.key with
  | none => s
  | some id =>
    { s with
      removedEventInfo := s.removedEventInfo ++ [id]
      fdToEventInfo := Function.update s.fdToEventInfo fd.key none }

-- The call of `epoll_ctl` that `apply_one_change` starts with, there is none if the `event_info` is
-- neither in use nor known to the kernel.
def changeOp (info : EventInfo) : Option CtlOp :=
  if info.action.isNoneEvt then
    if info.isInEpoll then some .del else none
  else
    if info.isInEpoll then some .mod else some .add

-- The call of `epoll_ctl` that is tried after the first one has failed.
def retryOp (op : CtlOp) (e : Errno) : Option CtlOp :=
  match op, e with
  -- the fd was probably closed and re-opened
  | .mod, .noent => some .add
  | .add, .exist => some .mod
  | _, _ => none

def applyOneChange (s : Epoll) (id : Nat) : Epoll :=
  let info := s.infos id
  let mask := { info.action.events with et := info.events.et }
  match changeOp info with
  | none => s.removeEventInfo info.fd
  | some op =>
    let (err, kernel) := s.kernel.epollCtl op info.fd.key mask id
    let s := { s with kernel := kernel }
    match err with
    | none =>
      if op = .del then
        s.removeEventInfo info.fd
      else
        s.modifyInfo id fun info => { info with isInEpoll := true, isInChangeList := false }
    | some e =>
      if op = .del && (e = .noent || e = .badf || e = .perm) then
        { s with fdToEventInfo := Function.update s.fdToEventInfo info.fd.key none }
      else
        let s :=
          match retryOp op e with
          | none => s
          | some op =>
            let (err, kernel) := s.kernel.epollCtl op info.fd.key mask id
            let s := { s with kernel := kernel }
            if err.isNone then s.modifyInfo id fun info => { info with isInEpoll := true } else s
        s.modifyInfo id fun info => { info with isInChangeList := false }

-- The part of `dispatch` before `epoll_wait`.
def applyChanges (s : Epoll) : Epoll :=
  { s.evtChangeLst.foldl applyOneChange s with evtChangeLst := [] }

end Epoll

end Event
end Ezio
