import Mathlib.Logic.Function.Basic
import Ezio.Event.Epoll.Basic
import Ezio.Event.IoUring.Wrapper

/-!
This module contains `complete_action` and the functions of the interface of the io_uring backend that
submit and cancel operations, up to `dispatch`.
-/

namespace Ezio
namespace Event
namespace Uring

-- The closures that are stored in `callback_`, with what they capture.
inductive ActionCallback where
  | timer (cb : Callback) (intervalS intervalNs : Nat)
  | accept (cb : Callback) (addrBuffer : Nat)
  | result (cb : Option Callback)
  -- the closure of `cancel_async_read` is the only one that checks for an empty `cb`
  | cancelRead (cb : Option Callback)
  | read (cb : Callback) (buffer : Option IovPtr) (bufferIovCnt : Nat) (msghdr : Option Nat)
  | readGroup (cb : Callback) (msghdr : Option Nat) (needSocketDetail : Bool)
  deriving DecidableEq, Repr

-- What the closure of `set_resubmit_multishot_func` captures.
structure Resubmit where
  fd : Int
  bufferGroupId : Nat
  msghdr : Option Nat
  needSocketDetail : Bool
  deriving DecidableEq, Repr

-- The pointers in `msghdr_ptr_` are indices of the heap of `msghdr`s.
structure CompleteAction where
  callback : Option ActionCallback := none
  addrBuffer : Option Nat := none
  isOffsetEnabled : Bool := true
  offset : Nat := 0
  resubmitMultishotFunc : Option Resubmit := none
  readMsghdr : Option Nat := none
  writeMsghdr : Option Nat := none
  deriving DecidableEq, Repr

def CompleteAction.setOffset (a : CompleteAction) (offset : Nat) : CompleteAction :=
  { a with offset := if a.isOffsetEnabled then offset else 0 }

structure IouringEventInfo where
  readCompleteAction : Option Nat := none
  writeCompleteAction : Option Nat := none
  cancelReadCompleteAction : Option Nat := none
  cancelWriteCompleteAction : Option Nat := none
  deriving DecidableEq, Repr

-- An entry of a ring of provided buffers.
structure IoUringBuf where
  addr : Nat
  len : Nat
  bid : BitVec 16
  deriving DecidableEq, Repr

structure IoUringBufRing where
  bufs : List IoUringBuf
  tail : BitVec 16
  deriving DecidableEq, Repr

structure LastBufferInfo where
  offset : BitVec 32 := 0
  bufIndex : BitVec 32 := BitVec.allOnes 32
  deriving DecidableEq, Repr

def LastBufferInfo.getOffset (l : LastBufferInfo) (bufIndex : BitVec 32) : BitVec 32 :=
  if l.bufIndex = bufIndex then l.offset else 0

def LastBufferInfo.updateOffset (l : LastBufferInfo) (bufIndex : BitVec 32) (res : Int)
    : LastBufferInfo :=
  let res := if 0 < res then BitVec.ofInt 32 res else 0
  if l.bufIndex = bufIndex then
    { l with offset := l.offset + res }
  else
    { offset := res, bufIndex }

-- `buffer_info`, a null `iov_base` is `none`. The ring and the last buffer of a group are shared by its
-- blocks, they are named by the count of the groups made before.
structure BufferInfo where
  base : Option Nat
  len : Nat
  bufRings : Nat
  mask : Nat
  deriving DecidableEq, Repr

structure BufferRingInfo where
  bufRing : Nat
  entryCnt : Nat
  startIndex : Nat
  deriving DecidableEq, Repr

-- `io_uring`. A `complete_action` is at the address that is its index, which is never 0, and one that
-- is deleted is `none`.
structure IoUring where
  isInited : Bool
  -- whether the headers define `IORING_TIMEOUT_MULTISHOT`
  hasTimeoutMultishot : Bool
  ring : Wrapper
  actions : Nat → Option CompleteAction
  nextAction : Nat
  msghdrs : Nat → Msghdr
  nextMsghdr : Nat
  fdToEventInfo : Nat → Option IouringEventInfo
  buffers : List BufferInfo
  bufRings : List IoUringBufRing
  lastBufs : List LastBufferInfo
  grpIdToBufRings : Nat → Option BufferRingInfo
  bufferGroupId : Nat
  timerId : Nat
  idToTimer : Nat → Option Nat
  -- the calls made so far
  calls : Nat
  -- the capacity of `buffers_`
  bufferCapacity : Nat := 0
  -- the groups that the kernel still has although `register_ring_buffer` has given them up
  givenUp : List Nat := []

namespace IoUring

def getIoUringSqe (s : IoUring) : Option Nat × IoUring :=
  let (slot, ring) := s.ring.getIoUringSqe s.msghdrs
  (slot, { s with ring })

def modifyAction (s : IoUring) (action : Nat) (f : CompleteAction → CompleteAction) : IoUring :=
  { s with actions := Function.update s.actions action ((s.actions action).map f) }

def action (s : IoUring) (action : Nat) : CompleteAction :=
  (s.actions action).getD {}

def newAction (s : IoUring) (a : CompleteAction) : Nat × IoUring :=
  (s.nextAction,
    { s with
      actions := Function.update s.actions s.nextAction (some a)
      nextAction := s.nextAction + 1 })

def newMsghdr (s : IoUring) : Nat × IoUring :=
  (s.nextMsghdr,
    { s with
      msghdrs := Function.update s.msghdrs s.nextMsghdr {}
      nextMsghdr := s.nextMsghdr + 1 })

-- The four kinds of `complete_action` of a file descriptor.
inductive Kind where
  | read
  | write
  | cancelRead
  | cancelWrite
  deriving DecidableEq, Repr

end IoUring

def IouringEventInfo.get (info : IouringEventInfo) : IoUring.Kind → Option Nat
  | .read => info.readCompleteAction
  | .write => info.writeCompleteAction
  | .cancelRead => info.cancelReadCompleteAction
  | .cancelWrite => info.cancelWriteCompleteAction

def IouringEventInfo.set (info : IouringEventInfo) (kind : IoUring.Kind) (action : Nat)
    : IouringEventInfo :=
  match kind with
  | .read => { info with readCompleteAction := some action }
  | .write => { info with writeCompleteAction := some action }
  | .cancelRead => { info with cancelReadCompleteAction := some action }
  | .cancelWrite => { info with cancelWriteCompleteAction := some action }

namespace IoUring

-- A `complete_action` for reading has no offset on the file descriptors that have none.
def makeAction (kind : Kind) (fd : Fd) : CompleteAction :=
  match kind with
  | .read =>
    if fd.type = .signal ∨ fd.type = .timer ∨ fd.type = .event then
      { isOffsetEnabled := false }
    else
      {}
  | _ => {}

-- `get_read_complete_action` and the like, made on first use.
def getCompleteAction (s : IoUring) (fd : Fd) (info : IouringEventInfo) (kind : Kind)
    : Nat × IoUring :=
  match info.get kind with
  | some action => (action, s)
  | none =>
    let (action, s) := s.newAction (makeAction kind fd)
    let infos := Function.update s.fdToEventInfo fd.key (some (info.set kind action))
    (action, { s with fdToEventInfo := infos })

-- Find the event information of a file descriptor, make one if there is none.
def findOrInsert (s : IoUring) (fd : Fd) (kind : Kind) : Nat × IoUring :=
  match s.fdToEventInfo fd.key with
  | some info => s.getCompleteAction fd info kind
  | none => s.getCompleteAction fd {} kind

def setCallback (s : IoUring) (action : Nat) (cb : ActionCallback) : IoUring :=
  s.modifyAction action fun a => { a with callback := some cb }

-- A null callback leaves the one that is stored.
def storeCallback (s : IoUring) (action : Nat) (cb : Option ActionCallback) : IoUring :=
  match cb with
  | none => s
  | some cb => s.setCallback action cb

def getReadMsghdr (s : IoUring) (action : Nat) : Nat × IoUring :=
  match (s.action action).readMsghdr with
  | some p => (p, s)
  | none =>
    let (p, s) := s.newMsghdr
    (p, s.modifyAction action fun a => { a with readMsghdr := some p })

def getWriteMsghdr (s : IoUring) (action : Nat) : Nat × IoUring :=
  match (s.action action).writeMsghdr with
  | some p => (p, s)
  | none =>
    let (p, s) := s.newMsghdr
    (p, s.modifyAction action fun a => { a with writeMsghdr := some p })

def setMsghdr (s : IoUring) (p : Nat) (buffer : IovPtr) (bufferIovCnt : Nat) : IoUring :=
  { s with msghdrs := Function.update s.msghdrs p ⟨some buffer, bufferIovCnt⟩ }

def prepare (s : IoUring) (slot : Nat) (action : Option Nat) (f : Sqe → Origin → Sqe) : IoUring :=
  { s with ring := s.ring.modifySqe slot fun sqe => f sqe ⟨s.calls, action⟩ }

def setUserData (s : IoUring) (slot : Nat) (action : Nat) : IoUring :=
  { s with ring := s.ring.setUserData slot action }

-- The last lines of every operation.
def submitRing (s : IoUring) : Int × IoUring :=
  let (ret, ring) := s.ring.submit s.msghdrs
  (if 0 < ret then 0 else -1, { s with ring })

def submit (s : IoUring) : Int × IoUring :=
  if s.isInited then s.submitRing else (-1, s)

def isStream (fd : Fd) : Bool :=
  fd.type = .tcp || fd.type = .udp

-- `opt->get_offset()` is kept for the next operation.
def offsetFor (s : IoUring) (action : Nat) (opt : Option Nat) : Nat × IoUring :=
  match opt with
  | none => ((s.action action).offset, s)
  | some offset => (offset, s.modifyAction action fun a => a.setOffset offset)

-- An operation takes an entry, fills it in and submits it if it is not deferred.
def withSqe (s : IoUring) (isSubmit : Bool) (fill : IoUring → Nat → IoUring) : Int × IoUring :=
  match s.getIoUringSqe with
  | (none, s) => (-1, s)
  | (some slot, s) =>
    let s := fill s slot
    if isSubmit then s.submitRing else (0, s)

def fillWrite (fd : Fd) (buffer : Option IovPtr) (bufferIovCnt : Nat) (cb : Option Callback)
    (opt : Option WriteOptions) (s : IoUring) (slot : Nat) : IoUring :=
  let (action, s) := s.findOrInsert fd .write
  let s := s.storeCallback action (cb.map fun cb => .result (some cb))
  let (offset, s) := s.offsetFor action (opt.bind (·.offset))
  let s := match buffer with
    | none => s.prepare slot action fun sqe origin => preparePoll sqe origin fd.num POLLOUT
    | some buf =>
      if isStream fd then
        let (msg, s) := s.getWriteMsghdr action
        (s.setMsghdr msg buf bufferIovCnt).prepare slot action fun sqe origin =>
          prepareSendmsg sqe origin fd.num msg MSG_DONTWAIT
      else
        s.prepare slot action fun sqe origin =>
          prepareWritev sqe origin fd.num buf bufferIovCnt offset
  s.setUserData slot action

def submitAsyncWrite (s : IoUring) (fd : Fd) (buffer : Option IovPtr) (bufferIovCnt : Nat)
    (cb : Option Callback) (opt : Option WriteOptions) : Int × IoUring :=
  if !s.isInited || fd.num < 0 || (0 < bufferIovCnt && buffer.isNone) then
    (-1, s)
  else
    s.withSqe (opt.all (·.isSubmit)) (fillWrite fd buffer bufferIovCnt cb opt)

def storeReadCallback (s : IoUring) (action : Nat) (fd : Fd) (buffer : Option IovPtr)
    (bufferIovCnt : Nat) (cb : Option Callback) : IoUring :=
  match cb with
  | none => s
  | some cb =>
    if isStream fd then
      let (msghdr, s) := s.getReadMsghdr action
      s.setCallback action (.read cb buffer bufferIovCnt (some msghdr))
    else
      s.setCallback action (.read cb buffer bufferIovCnt none)

def fillRead (fd : Fd) (buffer : Option IovPtr) (bufferIovCnt : Nat) (cb : Option Callback)
    (opt : Option ReadOptions) (s : IoUring) (slot : Nat) : IoUring :=
  let (action, s) := s.findOrInsert fd .read
  let s := s.storeReadCallback action fd buffer bufferIovCnt cb
  let (offset, s) := s.offsetFor action (opt.bind (·.offset))
  let s := match buffer with
    | none => s.prepare slot action fun sqe origin => preparePoll sqe origin fd.num POLLIN
    | some buf =>
      if isStream fd then
        let (msg, s) := s.getReadMsghdr action
        (s.setMsghdr msg buf bufferIovCnt).prepare slot action fun sqe origin =>
          prepareRecvmsg sqe origin fd.num msg 0
      else
        s.prepare slot action fun sqe origin =>
          prepareReadv sqe origin fd.num buf bufferIovCnt offset
  s.setUserData slot action

def submitAsyncRead (s : IoUring) (fd : Fd) (buffer : Option IovPtr) (bufferIovCnt : Nat)
    (cb : Option Callback) (opt : Option ReadOptions) : Int × IoUring :=
  if !s.isInited || fd.num < 0 || (0 < bufferIovCnt && buffer.isNone) then
    (-1, s)
  else
    s.withSqe (opt.all (·.isSubmit)) (fillRead fd buffer bufferIovCnt cb opt)

def isBufferValid (s : IoUring) (bufferIndex : Nat) : Bool :=
  match s.buffers[bufferIndex]? with
  | none => false
  | some buf => buf.base.isSome

def prepareShot (s : IoUring) (slot : Nat) (action : Option Nat) (r : Resubmit) : IoUring :=
  s.prepare slot action fun sqe origin =>
    if r.needSocketDetail then
      prepareRecvmsgMultishot sqe origin r.fd r.msghdr 0 r.bufferGroupId
    else
      prepareRecvMultishot sqe origin r.fd r.msghdr 0 r.bufferGroupId

def storeGroupCallback (s : IoUring) (action : Nat) (cb : Option Callback) (needSocketDetail : Bool)
    : Option Nat × IoUring :=
  match cb with
  | none => (none, s)
  | some cb =>
    let (msghdr, s) := s.getReadMsghdr action
    (some msghdr, s.setCallback action (.readGroup cb (some msghdr) needSocketDetail))

def fillReadGroup (fd : Fd) (bufferGroupId : Nat) (cb : Option Callback) (needSocketDetail : Bool)
    (s : IoUring) (slot : Nat) : IoUring :=
  let (action, s) := s.findOrInsert fd .read
  let (msghdr, s) := s.storeGroupCallback action cb needSocketDetail
  let resubmit := ⟨fd.num, bufferGroupId, msghdr, needSocketDetail⟩
  let s := s.modifyAction action fun a => { a with resubmitMultishotFunc := some resubmit }
  (s.prepareShot slot action resubmit).setUserData slot action

def submitAsyncReadGroup (s : IoUring) (fd : Fd) (bufferGroupId : Nat) (cb : Option Callback)
    (opt : Option ReadOptions) : Int × IoUring :=
  if !s.isInited || fd.num < 0 || !s.isBufferValid bufferGroupId || !isStream fd then
    (-1, s)
  else
    s.withSqe (opt.all (·.isSubmit))
      (fillReadGroup fd bufferGroupId cb (opt.any (·.needSocketDetail)))

def fillAccept (listenFd : Fd) (addr : Nat) (cb : Option Callback) (s : IoUring) (slot : Nat)
    : IoUring :=
  let (action, s) := s.findOrInsert listenFd .read
  let s := s.modifyAction action fun a => { a with addrBuffer := some addr }
  let s := s.prepare slot action fun sqe origin =>
    prepareAcceptMultishot sqe origin listenFd.num addr 0
  (s.setUserData slot action).storeCallback action (cb.map fun cb => .accept cb addr)

def submitAsyncAccept (s : IoUring) (listenFd : Fd) (addrBuffer : Option Nat) (cb : Option Callback)
    : Int × IoUring :=
  match addrBuffer with
  | none => (-1, s)
  | some addr =>
    if !s.isInited || listenFd.num < 0 then
      (-1, s)
    else
      s.withSqe true (fillAccept listenFd addr cb)

-- The three operations that cancel: which `complete_action` they use, the closure they store there and
-- how the SQE is filled in.
def cancelAsync (s : IoUring) (fd : Fd) (kind : Kind) (cb : ActionCallback)
    (fill : Sqe → Origin → Nat → Sqe) : Int × IoUring :=
  if !s.isInited || fd.num < 0 then
    (-1, s)
  else
    match s.fdToEventInfo fd.key with
    | none => (-1, s)
    | some info =>
      let (action, s) := s.getCompleteAction fd info kind
      (s.setCallback action cb).withSqe true fun s slot =>
        s.prepare slot action fun sqe origin => fill sqe origin action

def cancelAsyncRead (s : IoUring) (fd : Fd) (cb : Option Callback) : Int × IoUring :=
  s.cancelAsync fd .cancelRead (.cancelRead cb) fun sqe origin action =>
    prepareCancelByFd sqe origin action fd.num

def cancelAsyncAccept (s : IoUring) (fd : Fd) (cb : Option Callback) : Int × IoUring :=
  s.cancelAsync fd .cancelRead (.result cb) fun sqe origin action =>
    prepareCancelByFd sqe origin action fd.num

def cancelAsyncWrite (s : IoUring) (fd : Fd) (cb : Option Callback) : Int × IoUring :=
  s.cancelAsync fd .cancelWrite (.result cb) fun sqe origin action =>
    prepareCancel sqe origin action 0

def submitTimeout (s : IoUring) (intervalS intervalNs : Nat) (action : Nat) : Int × IoUring :=
  s.withSqe true fun s slot =>
    let flags := if s.hasTimeoutMultishot then IORING_TIMEOUT_MULTISHOT else 0
    let s := s.prepare slot action fun sqe origin =>
      prepareTimeout sqe origin intervalS intervalNs 1 flags
    s.setUserData slot action

-- `id_to_timer_[timer_id_]` drops the timer that an id has had before it came round again.
def storeTimer (s : IoUring) (action : Nat) : IoUring :=
  let actions := match s.idToTimer s.timerId with
    | none => s.actions
    | some replaced => Function.update s.actions replaced none
  { s with
    actions
    idToTimer := Function.update s.idToTimer s.timerId (some action)
    timerId := (s.timerId + 1) % 2 ^ 32 }

def createTimer (s : IoUring) (intervalS intervalNs : Nat) (cb : Option Callback) : Int × IoUring :=
  match cb with
  | none => (-1, s)
  | some cb =>
    if intervalS = 0 ∧ intervalNs = 0 then
      (-1, s)
    else
      let (action, s) := s.newAction { callback := some (.timer cb intervalS intervalNs) }
      match s.submitTimeout intervalS intervalNs action with
      | (ret, s) =>
        if ret = 0 then
          (toInt32 s.timerId, s.storeTimer action)
        else
          -- the last reference to the `complete_action` is gone
          (-1, { s with actions := Function.update s.actions action none })

def eraseTimer (s : IoUring) (timerId action : Nat) : IoUring :=
  { s with
    idToTimer := Function.update s.idToTimer timerId none
    actions := Function.update s.actions action none }

def closeTimer (s : IoUring) (timerId : Nat) : Int × IoUring :=
  match s.idToTimer timerId with
  | none => (-1, s)
  | some action =>
    let s := s.modifyAction action fun a => { a with callback := none }
    if s.hasTimeoutMultishot then
      -- the operation has no `complete_action` of its own
      match s.withSqe true fun s slot =>
          s.prepare slot none fun sqe origin => prepareCancel sqe origin action 0 with
      | (ret, s) => if ret = 0 then (0, s.eraseTimer timerId action) else (-1, s)
    else
      (0, s.eraseTimer timerId action)

def addBufRing (s : IoUring) (br : Nat) (addr blockSize : Nat) (bid : Nat) (mask idx : Nat)
    : IoUring :=
  let buf := ⟨addr, blockSize, BitVec.ofNat 16 bid⟩
  let set (r : IoUringBufRing) : IoUringBufRing :=
    { r with bufs := r.bufs.set ((r.tail.toNat + idx) &&& mask) buf }
  { s with bufRings := s.bufRings.modify br set }

def bufRingAdvance (s : IoUring) (br : Nat) (blockCount : Nat) : IoUring :=
  let advance (r : IoUringBufRing) : IoUringBufRing :=
    { r with tail := r.tail + BitVec.ofNat 16 blockCount }
  { s with bufRings := s.bufRings.modify br advance }

-- `push_back` of a `std::vector`, which doubles its capacity when it is full. The elements move then.
def pushBuffer (s : IoUring) (buf : BufferInfo) : IoUring :=
  { s with
    buffers := s.buffers ++ [buf]
    bufferCapacity :=
      if s.buffers.length < s.bufferCapacity then s.bufferCapacity else max 1 (2 * s.bufferCapacity) }

-- The loop over the blocks of a group.
def addBlocks (s : IoUring) (br blockSize mask : Nat) : (i : Nat) → (addrs : List Nat) → IoUring
  | _, [] => s
  | i, addr :: addrs =>
    let bid := s.buffers.length
    let s := s.pushBuffer ⟨some addr, blockSize, br, mask⟩
    (s.addBufRing br addr blockSize bid mask i).addBlocks br blockSize mask (i + 1) addrs

-- The blocks are at the addresses `addrs`, there are fewer of them if the allocator fails. Then the ring is handed to
-- `free` although it is a mapping, and the kernel is not told that the group is gone.
def registerRingBuffer (s : IoUring) (blockSize blockCount : Nat) (setup : Bool) (addrs : List Nat)
    : Int × IoUring :=
  if !(0 < blockSize && 0 < blockCount && Util.isPowerOf2 blockCount) then
    (-1, s)
  else
    let mask := blockCount - 1
    let bufGrpId : Nat := s.bufferGroupId % 2 ^ 16
    let s : IoUring := { s with bufferGroupId := (s.bufferGroupId + 1) % 2 ^ 32 }
    if !setup then
      (-1, s)
    else if addrs.length < blockCount then
      (-1, { s with givenUp := s.givenUp ++ [bufGrpId] })
    else
      let br := s.bufRings.length
      let startIndex := s.buffers.length
      let s : IoUring := { s with
        bufRings := s.bufRings ++ [⟨List.replicate blockCount ⟨0, 0, 0⟩, 0⟩]
        lastBufs := s.lastBufs ++ [{}] }
      let s := (s.addBlocks br blockSize mask 0 (addrs.take blockCount)).bufRingAdvance br blockCount
      let groups := if (s.grpIdToBufRings bufGrpId).isSome then s.grpIdToBufRings
        else Function.update s.grpIdToBufRings bufGrpId (some ⟨br, blockCount, startIndex⟩)
      (bufGrpId, { s with grpIdToBufRings := groups })

-- The loop of `unregister_ring_buffer` looks at `buffers_[start_index]` in every round. It frees the
-- block in the first round and fails in the second, a group that ends `buffers_` with its only block is
-- the one that goes through.
def unregisterRingBuffer (s : IoUring) (bufGroupId : Nat) (freed : Bool) : Int × IoUring :=
  match s.grpIdToBufRings bufGroupId with
  | none => (-1, s)
  | some info =>
    if !freed then
      (-1, s)
    else
      match s.buffers[info.startIndex]? with
      | none => (-1, s)
      | some buf =>
        if buf.bufRings ≠ info.bufRing ∨ buf.base.isNone then
          (-1, s)
        else
          let s' : IoUring := { s with buffers := s.buffers.set info.startIndex { buf with base := none } }
          if info.startIndex + 1 < s.buffers.length then
            (-1, s')
          else
            (0, { s' with grpIdToBufRings := Function.update s.grpIdToBufRings bufGroupId none })

end IoUring

end Uring
end Event
end Ezio
