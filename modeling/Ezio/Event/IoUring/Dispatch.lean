import Ezio.Event.IoUring.Basic

/-!
This module contains `dispatch` of the io_uring backend. It is cut into steps between which the kernel
posts completions and the callbacks of the user call the interface again.
-/

namespace Ezio
namespace Event
namespace Uring

inductive Op where
  | submitAsyncRead (fd : Fd) (buffer : Option IovPtr) (bufferIovCnt : Nat) (cb : Option Callback)
      (opt : Option ReadOptions)
  | submitAsyncReadGroup (fd : Fd) (bufferGroupId : Nat) (cb : Option Callback)
      (opt : Option ReadOptions)
  | submitAsyncWrite (fd : Fd) (buffer : Option IovPtr) (bufferIovCnt : Nat) (cb : Option Callback)
      (opt : Option WriteOptions)
  | submitAsyncAccept (listenFd : Fd) (addrBuffer : Option Nat) (cb : Option Callback)
  | cancelAsyncRead (fd : Fd) (cb : Option Callback)
  | cancelAsyncWrite (fd : Fd) (cb : Option Callback)
  | cancelAsyncAccept (fd : Fd) (cb : Option Callback)
  | createTimer (intervalS intervalNs : Nat) (cb : Option Callback)
  | closeTimer (timerId : Nat)
  | submit
  | registerRingBuffer (blockSize blockCount : Nat) (setup : Bool) (addrs : List Nat)
  | unregisterRingBuffer (bufGroupId : Nat) (freed : Bool)
  deriving DecidableEq, Repr

namespace IoUring

def run (s : IoUring) (op : Op) : Int × IoUring :=
  match op with
  | .submitAsyncRead fd buffer cnt cb opt => s.submitAsyncRead fd buffer cnt cb opt
  | .submitAsyncReadGroup fd group cb opt => s.submitAsyncReadGroup fd group cb opt
  | .submitAsyncWrite fd buffer cnt cb opt => s.submitAsyncWrite fd buffer cnt cb opt
  | .submitAsyncAccept fd addrBuffer cb => s.submitAsyncAccept fd addrBuffer cb
  | .cancelAsyncRead fd cb => s.cancelAsyncRead fd cb
  | .cancelAsyncWrite fd cb => s.cancelAsyncWrite fd cb
  | .cancelAsyncAccept fd cb => s.cancelAsyncAccept fd cb
  | .createTimer intervalS intervalNs cb => s.createTimer intervalS intervalNs cb
  | .closeTimer timerId => s.closeTimer timerId
  | .submit => s.submit
  | .registerRingBuffer blockSize blockCount setup addrs =>
    s.registerRingBuffer blockSize blockCount setup addrs
  | .unregisterRingBuffer group freed => s.unregisterRingBuffer group freed

def exec (s : IoUring) (op : Op) : Int × IoUring :=
  let (ret, s) := s.run op
  (ret, { s with calls := s.calls + 1 })

-- The closure of `set_resubmit_multishot_func` does not look at the pointer it gets.
def resubmitMultishot (s : IoUring) (action : Nat) : Except Fault IoUring :=
  match s.actions action with
  | none => .error .useAfterFree
  | some a =>
    match a.resubmitMultishotFunc with
    | none => .ok s
    | some r =>
      match s.getIoUringSqe with
      | (none, _) => .error .nullDeref
      | (some _, _) =>
        let (_, s) := s.withSqe true fun s slot => s.prepareShot slot (some action) r
        .ok { s with calls := s.calls + 1 }

end IoUring

-- What the user is called back with: the call that has completed and the arguments.
structure Called where
  origin : Origin
  action : Nat
  cb : Callback
  res : Int
  buffer : Option IovPtr
  bufferIovCnt : Nat
  deriving DecidableEq, Repr

-- Where a thread stands in `dispatch`. A callback is called only for `called`.
inductive Phase where
  | idle
  | loop (i ret : Nat)
  | callback (i ret : Nat) (cqe : Cqe) (called : Bool)
  deriving DecidableEq, Repr

structure World where
  uring : IoUring
  phase : Phase := .idle
  -- the capacity of `buffers_` when the loop has taken its reference to the block
  heldCapacity : Nat := 0
  -- the completions that the kernel has posted and those that the loop has taken
  produced : List Cqe := []
  processed : List Cqe := []
  -- the calls made, with what they returned, and the callbacks called
  returned : List (Nat × Op × Int) := []
  callbacks : List Called := []
  fault : Option Fault := none

inductive Step where
  | op (op : Op)
  -- the kernel posts a completion of the n-th SQE that it has executed
  | complete (n : Nat) (res : Int) (flags : BitVec 32)
  | wait (errno : Option Nat)
  -- the next round of the loop of `dispatch`, up to the callback and from there on
  | next
  | finish
  | consume
  deriving DecidableEq, Repr

-- The backend after `init`.
def IoUring.init (hasTimeoutMultishot : Bool) (ring : Wrapper) : IoUring :=
  { isInited := true
    hasTimeoutMultishot
    ring
    actions := fun _ => none
    nextAction := 1
    msghdrs := fun _ => {}
    nextMsghdr := 0
    fdToEventInfo := fun _ => none
    buffers := []
    bufRings := []
    lastBufs := []
    grpIdToBufRings := fun _ => none
    bufferGroupId := 0
    timerId := 0
    idToTimer := fun _ => none
    calls := 0 }

namespace World

-- The arguments that a closure gives to the callback, a buffer of a group has no `iovec` of the user.
def calledWith (cb : ActionCallback) : Option (Callback × Option IovPtr × Nat) :=
  match cb with
  | .timer cb _ _ => some (cb, none, 0)
  | .accept cb _ => some (cb, none, 0)
  | .result cb => cb.map fun cb => (cb, none, 0)
  | .cancelRead cb => cb.map fun cb => (cb, none, 0)
  | .read cb buffer cnt _ => some (cb, buffer, cnt)
  | .readGroup cb _ _ => some (cb, none, 1)

-- A timer that has expired completes with `-ETIME`, its callback gets 0. `ETIME` is 62.
def resOf (cb : ActionCallback) (res : Int) : Int :=
  match cb with
  | .timer .. => if res = -62 then 0 else res
  | _ => res

-- A timer that is not a multishot one is submitted again before its callback is called.
def rearm (s : IoUring) (action : Nat) (cb : ActionCallback) : Except Fault IoUring :=
  match cb with
  | .timer _ intervalS intervalNs =>
    if s.hasTimeoutMultishot then
      .ok s
    else
      match s.submitTimeout intervalS intervalNs action with
      | (ret, s) => if ret = 0 then .ok { s with calls := s.calls + 1 } else .error .assert
  | _ => .ok s

def completeCallback (w : World) (cqe : Cqe) (a : CompleteAction) : Except Fault World :=
  match a.callback with
  | none => .ok w
  | some cb => do
    let s := w.uring.modifyAction cqe.userData fun a =>
      if 0 < cqe.res ∧ a.isOffsetEnabled then { a with offset := a.offset + cqe.res.toNat } else a
    let s ← rearm s cqe.userData cb
    match calledWith cb with
    | some (user, buffer, cnt) =>
      return { w with
        uring := s
        callbacks := w.callbacks ++ [⟨cqe.origin, cqe.userData, user, resOf cb cqe.res, buffer, cnt⟩] }
    | none =>
      match cb with
      | .cancelRead _ => return { w with uring := s }
      | _ => throw .emptyReadCallback

-- Whether the block of a completion still has room for data behind its last offset.
def hasRoom (s : IoUring) (cqe : Cqe) : Except Fault Bool :=
  match s.buffers[cqe.bufIndex]? with
  | none => .error .outOfBounds
  | some buf =>
    match buf.base with
    | none => .ok false
    | some _ =>
      let last := s.lastBufs.getD buf.bufRings {}
      .ok ((last.getOffset (BitVec.ofNat 32 cqe.bufIndex)).toNat < buf.len)

def isCalled (s : IoUring) (cqe : Cqe) : Except Fault Bool :=
  if cqe.hasBuffer then hasRoom s cqe else .ok true

def next (w : World) (i ret : Nat) : Except Fault World := do
  let cqe := w.uring.ring.getCqe i
  let w := { w with processed := w.processed ++ [cqe] }
  if cqe.userData = 0 then
    return { w with phase := .loop (i + 1) ret }
  else
    match w.uring.actions cqe.userData with
    | none => throw .useAfterFree
    | some a =>
      match ← isCalled w.uring cqe with
      | false => return { w with phase := .callback i ret cqe false }
      | true =>
        let w ← w.completeCallback cqe a
        return { w with phase := .callback i ret cqe true, heldCapacity := w.uring.bufferCapacity }

-- The block goes back to the kernel. It is looked up by its index, which is what the reference `buf_info` stands for as
-- long as `buffers_` is not reallocated.
def giveBack (s : IoUring) (cqe : Cqe) : IoUring :=
  match s.buffers[cqe.bufIndex]? with
  | none => s
  | some buf =>
    match buf.base with
    | none => s
    | some base =>
      let s := { s with lastBufs := s.lastBufs.modify buf.bufRings fun last =>
        last.updateOffset (BitVec.ofNat 32 cqe.bufIndex) cqe.res }
      (s.addBufRing buf.bufRings base buf.len cqe.bufIndex buf.mask 0).bufRingAdvance buf.bufRings 1

def finish (w : World) (i ret : Nat) (cqe : Cqe) (called : Bool) : Except Fault World := do
  let w := { w with phase := .loop (i + 1) ret }
  if cqe.hasBuffer then
    if called ∧ w.uring.bufferCapacity ≠ w.heldCapacity then
      throw .dangling
    else
      let s := if called then giveBack w.uring cqe else w.uring
      if cqe.hasMore then
        return { w with uring := s }
      else
        let s ← s.resubmitMultishot cqe.userData
        return { w with uring := s }
  else
    return w

def complete (w : World) (n : Nat) (res : Int) (flags : BitVec 32) : World :=
  match w.uring.ring.executed[n]? with
  | none => w
  | some e =>
    let cqe := ⟨e.sqe.userData, res, flags, e.sqe.origin⟩
    let ring := w.uring.ring.post cqe
    if ring.cq.ktail = w.uring.ring.cq.ktail then
      w
    else
      { w with uring.ring := ring, produced := w.produced ++ [cqe] }

def tryStep (w : World) : Step → Except Fault World
  | .op op =>
    let (ret, uring) := w.uring.exec op
    .ok { w with uring, returned := w.returned ++ [(w.uring.calls, op, ret)] }
  | .complete n res flags => .ok (w.complete n res flags)
  | .wait errno =>
    match w.phase with
    | .idle =>
      let ret := w.uring.ring.waitCqeTimeout errno
      .ok (if 0 < ret then { w with phase := .loop 0 ret.toNat } else w)
    | _ => .ok w
  | .next =>
    match w.phase with
    | .loop i ret => if i < ret then w.next i ret else .ok w
    | _ => .ok w
  | .finish =>
    match w.phase with
    | .callback i ret cqe called => w.finish i ret cqe called
    | _ => .ok w
  | .consume =>
    match w.phase with
    | .loop i ret =>
      .ok (if i < ret then w
        else { w with
          uring.ring := w.uring.ring.cqConsume (BitVec.ofNat 32 ret)
          phase := .idle })
    | _ => .ok w

def step (w : World) (st : Step) : World :=
  match w.fault with
  | some _ => w
  | none =>
    match w.tryStep st with
    | .ok w => w
    | .error f => { w with fault := some f }

def run (w : World) (steps : List Step) : World :=
  steps.foldl step w

end World

end Uring
end Event
end Ezio
