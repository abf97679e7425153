import Ezio.Event.EventAction

/-!
This module contains `io_uring_wrapper`: the submission queue, the completion queue and the rings of
provided buffers that the process shares with the kernel. The kernel takes submissions only inside
`io_uring_enter` as the rings are set up without `IORING_SETUP_SQPOLL`.
-/

namespace Ezio
namespace Event
namespace Uring

-- A pointer to an array of `iovec`, with the array that stands there.
structure IovPtr where
  addr : Nat
  iov : List Iovec
  deriving DecidableEq, Repr

-- `msg_iov` and `msg_iovlen`
structure Msghdr where
  iov : Option IovPtr := none
  iovlen : Nat := 0
  deriving DecidableEq, Repr

def Msghdr.iovecs (m : Msghdr) : List Iovec :=
  match m.iov with
  | none => []
  | some p => p.iov.take m.iovlen

inductive Opcode where
  | nop
  | readv
  | writev
  | recv
  | recvmsg
  | sendmsg
  | pollAdd
  | accept
  | timeout
  | asyncCancel
  deriving DecidableEq, Repr

-- What the `addr` field points at.
inductive Addr where
  | null
  | iov (p : IovPtr)
  | msghdr (p : Nat)
  | sockaddr (p : Nat)
  | timespec (s ns : Nat)
  | userData (action : Nat)
  deriving DecidableEq, Repr

-- The call that an SQE is prepared for: its number and the `complete_action` of the operation.
structure Origin where
  call : Nat
  action : Option Nat
  deriving DecidableEq, Repr

structure Sqe where
  opcode : Opcode := .nop
  fd : Int := 0
  addr : Addr := .null
  len : Nat := 0
  off : Nat := 0
  flags : Nat := 0
  ioprio : Nat := 0
  -- the union of `rw_flags`, `msg_flags`, `poll32_events`, `timeout_flags` and `cancel_flags`
  rwFlags : Nat := 0
  -- the union of `buf_index` and `buf_group`
  bufGroup : Nat := 0
  personality : Nat := 0
  fileIndex : Nat := 0
  addr3 : Nat := 0
  -- the address of a `complete_action`, 0 is a null pointer
  userData : Nat := 0
  origin : Origin := ⟨0, none⟩
  deriving DecidableEq, Repr

def initializeSqe (sqe : Sqe) : Sqe :=
  { sqe with
    flags := 0, ioprio := 0, rwFlags := 0, bufGroup := 0, personality := 0, fileIndex := 0,
    addr3 := 0 }

-- `PREPARE_SQE`
def prepareSqe (sqe : Sqe) (origin : Origin) (opcode : Opcode) (fd : Int) (addr : Addr)
    (len off flags : Nat) : Sqe :=
  { sqe with origin, opcode, fd, addr, len, off, flags }

def MSG_DONTWAIT : Nat := 0x40
def POLLIN : Nat := 0x001
def POLLOUT : Nat := 0x004
def IOSQE_BUFFER_SELECT : Nat := 32
def IORING_RECV_MULTISHOT : Nat := 2
def IORING_ACCEPT_MULTISHOT : Nat := 1
def IORING_TIMEOUT_MULTISHOT : Nat := 64
def IORING_ASYNC_CANCEL_FD_ANY : Nat := 6
def IORING_OP_READ : Nat := 22

def prepareReadv (sqe : Sqe) (origin : Origin) (fd : Int) (iov : IovPtr) (nrVecs offset : Nat) : Sqe :=
  prepareSqe sqe origin .readv fd (.iov iov) nrVecs offset 0

def prepareWritev (sqe : Sqe) (origin : Origin) (fd : Int) (iov : IovPtr) (iovcnt offset : Nat)
    : Sqe :=
  prepareSqe sqe origin .writev fd (.iov iov) iovcnt offset 0

def prepareRecvmsg (sqe : Sqe) (origin : Origin) (fd : Int) (msghdr flags : Nat) : Sqe :=
  prepareSqe sqe origin .recvmsg fd (.msghdr msghdr) 0 0 flags

def prepareSendmsg (sqe : Sqe) (origin : Origin) (fd : Int) (msg flags : Nat) : Sqe :=
  { prepareSqe sqe origin .sendmsg fd (.msghdr msg) 1 0 0 with rwFlags := flags }

def preparePoll (sqe : Sqe) (origin : Origin) (fd : Int) (events : Nat) : Sqe :=
  { prepareSqe sqe origin .pollAdd fd .null 0 0 0 with rwFlags := events }

-- `off` is the address of `SOCK_LEN`, which is left out.
def prepareAcceptMultishot (sqe : Sqe) (origin : Origin) (listenFd : Int) (addr flags : Nat) : Sqe :=
  let sqe := prepareSqe sqe origin .accept listenFd (.sockaddr addr) 0 0 flags
  { sqe with ioprio := sqe.ioprio ||| IORING_ACCEPT_MULTISHOT }

def prepareTimeout (sqe : Sqe) (origin : Origin) (s ns count flags : Nat) : Sqe :=
  { prepareSqe sqe origin .timeout (-1) (.timespec s ns) count 0 0 with rwFlags := flags }

def prepareCancel (sqe : Sqe) (origin : Origin) (userData flags : Nat) : Sqe :=
  { prepareSqe sqe origin .asyncCancel (-1) (.userData userData) 0 0 0 with rwFlags := flags }

def prepareCancelByFd (sqe : Sqe) (origin : Origin) (userData : Nat) (fd : Int) : Sqe :=
  { prepareSqe sqe origin .asyncCancel fd (.userData userData) 0 0 0 with
    rwFlags := IORING_ASYNC_CANCEL_FD_ANY
    len := IORING_OP_READ }

-- `prepare_recv_multishot` and `prepare_recvmsg_multishot` differ in the opcode only.
def prepareMultishot (opcode : Opcode) (sqe : Sqe) (origin : Origin) (fd : Int)
    (msghdr : Option Nat) (flags bufGroupId : Nat) : Sqe :=
  let addr := match msghdr with
    | none => .null
    | some p => .msghdr p
  let sqe := prepareSqe sqe origin opcode fd addr 0 0 (flags ||| IOSQE_BUFFER_SELECT)
  { sqe with ioprio := sqe.ioprio ||| IORING_RECV_MULTISHOT, bufGroup := bufGroupId % 2 ^ 16 }

def prepareRecvMultishot := prepareMultishot .recv

def prepareRecvmsgMultishot := prepareMultishot .recvmsg

-- The `origin` goes with the `user_data` of the SQE that the completion is of.
structure Cqe where
  userData : Nat := 0
  res : Int := 0
  flags : BitVec 32 := 0
  origin : Origin := ⟨0, none⟩
  deriving DecidableEq, Repr

-- `IORING_CQE_F_BUFFER`, `IORING_CQE_F_MORE` and `IORING_CQE_BUFFER_SHIFT`
def Cqe.hasBuffer (cqe : Cqe) : Bool := cqe.flags &&& 1 != 0
def Cqe.hasMore (cqe : Cqe) : Bool := cqe.flags &&& 2 != 0
def Cqe.bufIndex (cqe : Cqe) : Nat := (cqe.flags >>> 16).toNat

structure SubmissionQueue where
  khead : BitVec 32
  ktail : BitVec 32
  kringMask : BitVec 32
  kringEntries : BitVec 32
  sqes : List Sqe
  sqeTail : BitVec 32
  deriving DecidableEq, Repr

structure CompletionQueue where
  khead : BitVec 32
  ktail : BitVec 32
  kringMask : BitVec 32
  kringEntries : BitVec 32
  cqes : List Cqe
  deriving DecidableEq, Repr

-- The answer to `io_uring_enter(to_submit)`: it fails with `errno + 1`, as no error is 0, it takes at
-- most `n` entries or it takes all that it is asked to.
inductive EnterRet where
  | fail (errno : Nat)
  | took (n : Nat)
  | all
  deriving DecidableEq, Repr

-- An SQE that the kernel has taken, with the `msghdr` it found there.
structure Executed where
  sqe : Sqe
  msg : Msghdr
  deriving DecidableEq, Repr

-- `io_uring_wrapper`, and of the kernel the answers it is going to give, what it has been asked for
-- with how much of it was taken, and what it has executed.
structure Wrapper where
  sq : SubmissionQueue
  cq : CompletionQueue
  enters : List EnterRet
  asked : List (Nat × Nat)
  executed : List Executed
  deriving DecidableEq, Repr

namespace SubmissionQueue

def get (sq : SubmissionQueue) (slot : Nat) : Sqe :=
  sq.sqes.getD slot {}

def modify (sq : SubmissionQueue) (slot : Nat) (f : Sqe → Sqe) : SubmissionQueue :=
  { sq with sqes := sq.sqes.modify slot f }

def slot (sq : SubmissionQueue) (n : BitVec 32) : Nat :=
  (n &&& sq.kringMask).toNat

-- The pointer to an SQE is its slot.
def getSqe (sq : SubmissionQueue) : Option Nat × SubmissionQueue :=
  let next := sq.sqeTail + 1
  if next - sq.khead ≤ sq.kringEntries then
    let slot := sq.slot sq.sqeTail
    (some slot, { sq with sqeTail := next }.modify slot initializeSqe)
  else
    (none, sq)

-- The `n` entries from the head of the ring on.
def pending (sq : SubmissionQueue) (n : Nat) : List Sqe :=
  (List.range n).map fun i => sq.get (sq.slot (sq.khead + BitVec.ofNat 32 i))

end SubmissionQueue

namespace Wrapper

-- The rings that `io_uring_setup` makes with `2 ^ sqOrder` and `2 ^ cqOrder` entries. Their counters
-- may stand anywhere.
def init (sqOrder cqOrder sqStart cqStart : Nat) (enters : List EnterRet) : Wrapper :=
  { sq :=
      { khead := BitVec.ofNat 32 sqStart
        ktail := BitVec.ofNat 32 sqStart
        kringMask := BitVec.ofNat 32 (2 ^ sqOrder - 1)
        kringEntries := BitVec.ofNat 32 (2 ^ sqOrder)
        sqes := List.replicate (2 ^ sqOrder) {}
        sqeTail := BitVec.ofNat 32 sqStart }
    cq :=
      { khead := BitVec.ofNat 32 cqStart
        ktail := BitVec.ofNat 32 cqStart
        kringMask := BitVec.ofNat 32 (2 ^ cqOrder - 1)
        kringEntries := BitVec.ofNat 32 (2 ^ cqOrder)
        cqes := List.replicate (2 ^ cqOrder) {} }
    enters
    asked := []
    executed := [] }

def getSqe (w : Wrapper) : Option Nat × Wrapper :=
  let (slot, sq) := w.sq.getSqe
  (slot, { w with sq })

def modifySqe (w : Wrapper) (slot : Nat) (f : Sqe → Sqe) : Wrapper :=
  { w with sq := w.sq.modify slot f }

def setUserData (w : Wrapper) (slot : Nat) (userData : Nat) : Wrapper :=
  w.modifySqe slot fun sqe => { sqe with userData }

def execute (msghdrs : Nat → Msghdr) (sqe : Sqe) : Executed :=
  match sqe.addr with
  | .msghdr p => ⟨sqe, msghdrs p⟩
  | _ => ⟨sqe, {}⟩

-- `io_uring_enter(to_submit)`, the kernel reads a `msghdr` when it takes the SQE.
def enter (w : Wrapper) (msghdrs : Nat → Msghdr) (toSubmit : Nat) : Int × Wrapper :=
  let take (n : Nat) : Int × Wrapper :=
    (n, { w with
      enters := w.enters.tail
      asked := w.asked ++ [(toSubmit, n)]
      executed := w.executed ++ (w.sq.pending n).map (execute msghdrs)
      sq.khead := w.sq.khead + BitVec.ofNat 32 n })
  match w.enters with
  | .fail errno :: enters =>
    (-(errno + 1 : Int), { w with enters, asked := w.asked ++ [(toSubmit, 0)] })
  | .took n :: _ => take (min n toSubmit)
  | .all :: _ => take toSubmit
  | [] => take toSubmit

def submit (w : Wrapper) (msghdrs : Nat → Msghdr) : Int × Wrapper :=
  let toSubmit := (w.sq.sqeTail - w.sq.ktail).toNat
  if 0 < toSubmit then
    { w with sq.ktail := w.sq.sqeTail }.enter msghdrs toSubmit
  else
    (0, w)

-- `get_io_uring_sqe` of `io_uring`, which works on the ring only.
def getIoUringSqe (w : Wrapper) (msghdrs : Nat → Msghdr) : Option Nat × Wrapper :=
  match w.getSqe with
  | (some slot, w) => (some slot, w)
  | (none, w) =>
    match w.submit msghdrs with
    | (ret, w) => if ret = 0 then w.getSqe else (none, w)

def getCqe (w : Wrapper) (idx : Nat) : Cqe :=
  w.cq.cqes.getD ((w.cq.khead + BitVec.ofNat 32 idx) &&& w.cq.kringMask).toNat {}

-- The kernel posts a completion if there is room, else it keeps it back.
def post (w : Wrapper) (cqe : Cqe) : Wrapper :=
  if w.cq.ktail - w.cq.khead < w.cq.kringEntries then
    { w with
      cq.cqes := w.cq.cqes.set (w.cq.ktail &&& w.cq.kringMask).toNat cqe
      cq.ktail := w.cq.ktail + 1 }
  else
    w

-- `ETIME` is 62.
def waitCqeTimeout (w : Wrapper) (errno : Option Nat) : Int :=
  match errno with
  | some errno => -(errno + 1 : Int)
  | none =>
    let ready := (w.cq.ktail - w.cq.khead).toNat
    if ready = 0 then -62 else toInt32 ready

def cqConsume (w : Wrapper) (count : BitVec 32) : Wrapper :=
  let tail := w.cq.ktail
  let head := w.cq.khead
  let count := if tail < head + count then tail - head else count
  { w with cq.khead := head + count }

end Wrapper

end Uring
end Event
end Ezio
