import Ezio.Util

/-!
This module contains the specialisations of `fd_io_operation`. The kernel is a list of the answers it
gives to the system calls in the order they are made, every loop of the operations is a recursion on
that list.
-/

namespace Ezio

def INT32_MAX : Int := 2147483647

inductive Errno where
  | again
  | intr
  | noent
  | exist
  | badf
  | perm
  | other (code : Nat)
  deriving DecidableEq, Repr

-- The answer to one system call. A call that fails returns -1 and sets `errno`. The lengths are the
-- `msg_len` fields that `recvmmsg` fills in.
inductive SysRet where
  | ok (n : Nat) (lens : List Nat)
  | fail (e : Errno)
  deriving DecidableEq, Repr

-- What a call of `fd_ops_.read` or `fd_ops_.write` leaves behind.
structure FdRet where
  ret : Int
  -- `is_empty` of a read and `is_full` of a write
  flag : Bool
  -- the `iovec` array that was passed in
  iov : List Iovec
  -- the buffers offered to each successful system call and the count it returned
  moved : List (List Iovec × Nat)
  deriving DecidableEq, Repr

-- The outcome of an operation on a file descriptor: it returns and leaves the rest of the answers, the
-- answers end while it still waits for one, or it follows a null `customized_data`.
inductive Io (α : Type) where
  | done (r : α) (sys : List SysRet)
  | cut
  | null
  deriving DecidableEq, Repr

namespace FdIo

-- What a stream operation does with a system call that returns 0.
inductive OnZero where
  -- return 0, the peer has closed
  | closed
  -- return what has been moved so far
  | eof
  -- go on as for any other count
  | count
  deriving DecidableEq, Repr

-- The loop shared by the operations that move a stream of bytes.
structure StreamOp where
  -- the system call is given `msg`, whose `msg_iov` never moves, instead of `iov`
  isMsg : Bool
  onZero : OnZero
  -- `EAGAIN` ends the loop and sets the flag
  onAgain : Bool

def streamFd (op : StreamOp) (iov : List Iovec) (sys : List SysRet) : Io FdRet :=
  go op [] iov 0 [] sys
where
  go (op : StreamOp) (passed iov : List Iovec) (result : Nat) (moved : List (List Iovec × Nat))
      : List SysRet → Io FdRet
    | [] => .cut
    | .ok n _ :: sys =>
      let offered := if op.isMsg then passed ++ iov else iov
      if n = 0 ∧ op.onZero = .closed then
        .done ⟨0, false, passed ++ iov, moved⟩ sys
      else if n = 0 ∧ op.onZero = .eof then
        .done ⟨toInt32 result, false, passed ++ iov, moved⟩ sys
      else
        let result := (result + n) % 2 ^ 32
        let moved := moved ++ [(offered, n)]
        let (ret, passed', iov) := Util.moveIov iov (n % 2 ^ 32)
        if ret = 0 then
          go op (passed ++ passed') iov result moved sys
        else
          .done ⟨toInt32 result, false, passed ++ passed' ++ iov, moved⟩ sys
    | .fail e :: sys =>
      if op.onAgain ∧ e = .again then
        .done ⟨toInt32 result, true, passed ++ iov, moved⟩ sys
      else if e = .intr then
        go op passed iov result moved sys
      else
        .done ⟨-1, false, passed ++ iov, moved⟩ sys

namespace Tcp

def readFd : List Iovec → List SysRet → Io FdRet :=
  streamFd { isMsg := true, onZero := .closed, onAgain := true }

def writeFd : List Iovec → List SysRet → Io FdRet :=
  streamFd { isMsg := true, onZero := .count, onAgain := true }

def readFdForMultishot (iov : List Iovec) : List SysRet → Io FdRet
  | [] => .cut
  | .ok n _ :: sys =>
    .done ⟨toInt32 (n % 2 ^ 32), false, iov, if n = 0 then [] else [(iov, n)]⟩ sys
  | .fail e :: sys =>
    if e = .again then
      .done ⟨INT32_MAX, true, iov, []⟩ sys
    else if e = .intr then
      readFdForMultishot iov sys
    else
      .done ⟨-1, false, iov, []⟩ sys

end Tcp

namespace Inotify

def readFd : List Iovec → List SysRet → Io FdRet :=
  streamFd { isMsg := false, onZero := .eof, onAgain := true }

end Inotify

namespace File

def readFd : List Iovec → List SysRet → Io FdRet :=
  streamFd { isMsg := false, onZero := .eof, onAgain := false }

def writeFd : List Iovec → List SysRet → Io FdRet :=
  streamFd { isMsg := false, onZero := .count, onAgain := false }

end File

-- The reads of an `eventfd` and of a `signalfd`, which only differ in the size of a record.
def readRecord (size : Nat) (iov : List Iovec) (sys : List SysRet) : Io FdRet :=
  if (iov.headD ⟨0, 0⟩).len < size then
    .done ⟨-1, false, iov, []⟩ sys
  else
    go sys
where
  go : List SysRet → Io FdRet
    | [] => .cut
    | .ok n _ :: sys => if n = size then .done ⟨n, true, iov, [(iov, n)]⟩ sys else go sys
    | .fail e :: sys => if e = .intr then go sys else .done ⟨-1, true, iov, []⟩ sys

namespace EventFd

def readFd : List Iovec → List SysRet → Io FdRet :=
  readRecord 8

-- `ret_w` is unsigned, so that no answer of `writev` ever takes the error branch.
def writeFd (iov : List Iovec) (sys : List SysRet) : Io FdRet :=
  if (iov.headD ⟨0, 0⟩).len < 8 then
    .done ⟨-1, false, iov, []⟩ sys
  else
    go sys
where
  go : List SysRet → Io FdRet
    | [] => .cut
    | .ok n _ :: sys => if n = 8 then .done ⟨8, false, iov, [(iov, n)]⟩ sys else go sys
    | .fail _ :: sys => go sys

end EventFd

namespace SignalFd

-- `sizeof(struct signalfd_siginfo)` is 128.
def readFd : List Iovec → List SysRet → Io FdRet :=
  readRecord 128

end SignalFd

namespace Udp

def RECV_CNT_ONCE : Nat := 100

-- `struct mmsghdr` with the parts of it that are used.
structure Mmsghdr where
  iov : Iovec
  -- `msg_name` is set
  hasName : Bool
  msgLen : Nat
  deriving DecidableEq, Repr

-- `recvmmsg` has filled in `msg_len` from index `start` on.
def fillLens (buf : List Mmsghdr) (start : Nat) (lens : List Nat) : List Mmsghdr :=
  buf.mapIdx fun i m => if start ≤ i ∧ i < start + lens.length then
    { m with msgLen := lens.getD (i - start) 0 } else m

structure RecvRet where
  ret : Int
  isEmpty : Bool
  buf : List Mmsghdr
  deriving DecidableEq, Repr

-- An error is returned as `-ret`, which is 1. The kernel never receives more than `cur_cnt` messages.
def readFd (buf : List Mmsghdr) (iovCnt : Nat) (sys : List SysRet) : Io RecvRet :=
  go buf 0 sys
where
  go (buf : List Mmsghdr) (result : Nat) (sys : List SysRet) : Io RecvRet :=
    if iovCnt ≤ result then
      .done ⟨toInt32 result, false, buf⟩ sys
    else
      match sys with
      | [] => .cut
      | .ok n lens :: sys =>
        let n := min n (iovCnt - result)
        go (fillLens buf result (lens.take n)) (result + n) sys
      | .fail e :: sys =>
        if e = .again then
          if 0 < toInt32 result then .done ⟨toInt32 result, true, buf⟩ sys
          else .done ⟨INT32_MAX, true, buf⟩ sys
        else if e = .intr then
          go buf result sys
        else
          .done ⟨1, false, buf⟩ sys

def readFdForMultishot (buf : List Mmsghdr) : List SysRet → Io RecvRet
  | [] => .cut
  | .ok n lens :: sys => .done ⟨n, false, fillLens buf 0 (lens.take n)⟩ sys
  | .fail e :: sys =>
    if e = .again then
      .done ⟨INT32_MAX, true, buf⟩ sys
    else if e = .intr then
      readFdForMultishot buf sys
    else
      .done ⟨1, false, buf⟩ sys

-- Neither `EAGAIN` nor a short count ends the loop over the batches. `cur_cnt` is a `uint32_t` that only wraps around
-- for an array of more than `2^32 - 100` entries, `result` an `int32_t`.
def writeFd (iov : List Iovec) (sys : List SysRet) : Io FdRet :=
  go 0 0 false [] sys
where
  go (curCnt result : Nat) (isFull : Bool) (moved : List (List Iovec × Nat)) (sys : List SysRet)
      : Io FdRet :=
    if iov.length < curCnt then
      .done ⟨toInt32 result, isFull, iov, moved⟩ sys
    else
      match sys with
      | [] => .cut
      | .ok n _ :: sys =>
        let batch := (iov.drop curCnt).take RECV_CNT_ONCE
        go (curCnt + RECV_CNT_ONCE) (result + n) isFull (moved ++ [(batch, n)]) sys
      | .fail e :: sys =>
        if e = .again then
          go (curCnt + RECV_CNT_ONCE) result true moved sys
        else if e = .intr then
          go curCnt result isFull moved sys
        else
          .done ⟨1, isFull, iov, moved⟩ sys

end Udp

end FdIo

end Ezio
