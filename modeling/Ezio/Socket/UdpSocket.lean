import Ezio.Event.Epoll.Lemmas.MultishotRead
import Ezio.Event.IoUring.Lemmas.Provided

/-!
This module contains the read side of `udp_socket`: the way of a datagram from the kernel to the callback of the user,
with the epoll backend and with the io_uring backend.
-/

namespace Ezio
namespace Socket
namespace UdpSocket

open Event

-- The part of `udp_config` that the read side looks at.
structure UdpConfig where
  needReadDetail : Bool
  -- `cb_error_` is set
  hasCbError : Bool
  deriving DecidableEq, Repr

inductive UserCall where
  | data (iov : Iovec)
  | error (ret : Int)
  deriving DecidableEq, Repr

-- What `cb_data_` is called with.
def UserCall.data? : UserCall → Option Iovec
  | .data iov => some iov
  | .error _ => none

-- `cb_data_` gets the first `iovec`.
def onReadUdpMsg (conf : UdpConfig) (ret : Int) (iov : List Iovec) : List UserCall :=
  if 0 < ret then
    (iov.take 1).map .data
  else if ret < 0 ∧ conf.hasCbError then
    [.error ret]
  else
    []

/-! ### epoll -/

-- What the user is called with when the multishot read calls back.
def entryCalls (conf : UdpConfig) : Event.Entry → List UserCall
  | .readCallback _ _ .multishot ret iov => onReadUdpMsg conf ret iov
  | _ => []

-- A read of the action `id` is under way, it receives into the headers `buf`.
structure Reading (id ring : Nat) (blocks : List Iovec) (buf : List FdIo.Udp.Mmsghdr) (s : Epoll) : Prop where
  multishot : Multishot id ring .udp blocks s
  hdrs : (s.action id).mmsghdrForUdpMultishot = .live buf

-- The call succeeds and leaves the read as it is.
def Keeps (id ring : Nat) (op : Op) : Prop :=
  ∀ blocks buf s, Reading id ring blocks buf s
    → ∃ r s', s.exec op = .ok (r, s') ∧ Reading id ring blocks buf s'

-- The most messages that one `recvmmsg` receives.
def UIO_MAXIOV : Nat := 1024

-- The datagrams of an answer of `recvmmsg`, each as its block and its length.
def slots (blocks : List Iovec) : SysRet → List (Iovec × Nat)
  | .ok n lens => blocks.zip (lens.take n)
  | .fail _ => []

-- Datagrams, none longer than its block, or there is none yet.
def Arrives (blocks : List Iovec) : SysRet → Prop
  | .ok n lens =>
    0 < n ∧ n ≤ UIO_MAXIOV ∧ n ≤ blocks.length ∧ lens.length = n ∧ ∀ slot ∈ blocks.zip lens, slot.2 ≤ slot.1.len
  | .fail e => e = .again ∨ e = .intr

instance (blocks : List Iovec) : DecidablePred (Arrives blocks)
  | .ok _ _ => inferInstanceAs (Decidable (_ ∧ _))
  | .fail _ => inferInstanceAs (Decidable (_ ∨ _))

-- A read of the socket by `do_multishot_read_task`. The kernel gives the answers, and whatever the user does in a
-- callback leaves the read as it is.
structure EpollReception (conf : UdpConfig) where
  id : Nat
  task : MultishotTask
  blocks : List Iovec
  world : World
  answers : List SysRet
  detail : task.needSockDetail = conf.needReadDetail
  reading : ∃ buf, Reading id task.bufRing blocks buf world.poll ∧ buf.map (·.iov) = blocks
  keeps : world.Calls (Keeps id task.bufRing)
  arrives : ∀ a ∈ answers, Arrives blocks a

namespace EpollReception

variable {conf : UdpConfig}

-- The state in which the read waits for the next answer.
def final (r : EpollReception conf) : World :=
  (doMultishotReadTask r.id r.task { r.world with sys := r.answers }).state

def calls (r : EpollReception conf) : List UserCall :=
  r.world.since (entryCalls conf) r.final

def datagrams (r : EpollReception conf) : List (Option Iovec) :=
  (r.answers.flatMap (slots r.blocks)).map fun slot => some ⟨slot.1.base, slot.2⟩

-- Every datagram is as long as its block.
def Fills (r : EpollReception conf) : Prop :=
  ∀ slot ∈ r.answers.flatMap (slots r.blocks), 0 < slot.2 ∧ slot.2 = slot.1.len

end EpollReception

/-! ### io_uring -/

-- `sizeof(struct io_uring_recvmsg_out) + sizeof(struct sockaddr_storage)`
def DETAIL_SIZE : Nat := 16 + 128

-- What `complete_callback` calls the closure of the read with.
def completeCallback (cqe : Uring.Cqe) (buffer : Nat) : Int × Iovec :=
  (cqe.res, ⟨buffer, if 0 < cqe.res ∧ cqe.hasBuffer then cqe.res.toNat else 0⟩)

-- The closure of `submit_async_read` for a group of blocks, `payloadlen` is the member of the header at an address.
def groupReadCallback (needSocketDetail : Bool) (payloadlen : Nat → Nat) (res : Int) (iov : Iovec) : Int × Iovec :=
  if !needSocketDetail ∨ res ≤ 0 then
    (res, iov)
  else
    (res, ⟨iov.base + DETAIL_SIZE, payloadlen iov.base⟩)

-- The multishot read of the socket. The kernel ends it with `-ENOBUFS` when it finds no block in the ring, and
-- nothing submits it again.
inductive Shot where
  | armed
  | exhausted
  | over
  deriving DecidableEq, Repr

structure UringRead where
  provided : Uring.Provided
  shot : Shot := .armed

-- The backend after `init`, the socket has begun to read.
def UringRead.init (hasTimeoutMultishot : Bool) (ring : Uring.Wrapper) : UringRead :=
  { provided := .init hasTimeoutMultishot ring }

def ENOBUFS : Int := 105

-- A datagram of the length `len`: its completion, what the headers say then and the calls that the callback makes. The
-- read is submitted again after a completion without `IORING_CQE_F_MORE` if there is an entry for it.
structure Arrival where
  len : Nat
  cqe : Uring.Cqe
  payloadlen : Nat → Nat
  ops : List Uring.Op
  resubmits : Bool

inductive RecvStep where
  | other (st : Uring.ProvidedStep)
  | datagram (a : Arrival)
  -- the kernel finds the ring of the group empty, and `dispatch` comes to the completion that says so
  | exhausted
  | ended (ops : List Uring.Op)
  -- a datagram arrives that no read waits for
  | unread

-- The block of a completion.
def blockOf (p : Uring.Provided) (cqe : Uring.Cqe) : Iovec :=
  match p.uring.buffers[cqe.bufIndex]? with
  | none => ⟨0, 0⟩
  | some buf => ⟨buf.base.getD 0, buf.len⟩

def Arrival.calls (a : Arrival) (conf : UdpConfig) (buffer : Nat) : List UserCall :=
  match completeCallback a.cqe buffer with
  | (res, iov) =>
    match groupReadCallback conf.needReadDetail a.payloadlen res iov with
    | (ret, iov) => onReadUdpMsg conf ret [iov]

-- The kernel has selected the block. `recv` puts the datagram at its start, `recvmsg` puts the header and the address
-- there and cuts the datagram off where the block ends.
def Arrival.Received (a : Arrival) (conf : UdpConfig) (block : Iovec) : Prop :=
  a.len ≤ block.len
    ∧ if conf.needReadDetail then
        DETAIL_SIZE ≤ block.len
          ∧ a.payloadlen block.base = min a.len (block.len - DETAIL_SIZE)
          ∧ a.cqe.res = ↑(DETAIL_SIZE + min a.len (block.len - DETAIL_SIZE))
      else
        0 < a.len ∧ a.cqe.res = a.len

instance (a : Arrival) (conf : UdpConfig) (block : Iovec) : Decidable (a.Received conf block) :=
  inferInstanceAs (Decidable (_ ∧ if conf.needReadDetail then _ else _))

namespace RecvStep

-- A completion without a block does not change the blocks, an empty datagram has one and ends the read.
def next (s : UringRead) : RecvStep → UringRead
  | .other st => { s with provided := s.provided.step st }
  | .datagram a =>
    if a.cqe.hasBuffer then
      { provided := s.provided.step (.complete a.cqe a.ops)
        shot := if a.cqe.hasMore || a.resubmits then s.shot else .over }
    else
      { s with shot := .over }
  | .exhausted => { s with shot := .exhausted }
  | .ended ops => { provided := ops.foldl (fun p op => p.step (.call op)) s.provided, shot := .over }
  | .unread => s

def calls (conf : UdpConfig) (s : UringRead) : RecvStep → List UserCall
  | .datagram a =>
    match s.provided.fault with
    | some _ => []
    | none =>
      if a.cqe.hasBuffer then
        match Uring.World.hasRoom s.provided.uring a.cqe with
        | .ok true => a.calls conf (s.provided.uring.dataBuf a.cqe)
        | _ => []
      else
        a.calls conf 0
  | .ended _ => onReadUdpMsg conf (-ENOBUFS) [⟨0, 0⟩]
  | _ => []

-- Where the kernel has put the datagram, nowhere if it is not read.
def datagrams (conf : UdpConfig) (s : UringRead) : RecvStep → List (Option Iovec)
  | .datagram a =>
    if conf.needReadDetail then
      [some ⟨(blockOf s.provided a.cqe).base + DETAIL_SIZE, a.len⟩]
    else
      [some ⟨(blockOf s.provided a.cqe).base, a.len⟩]
  | .unread => [none]
  | _ => []

-- The group `g` is read by the socket only, from which the kernel takes a block for the read that is armed. Without the
-- detail, an empty datagram does not take a block.
def Allowed (conf : UdpConfig) (g : Nat) (s : UringRead) : RecvStep → Prop
  | .other st =>
    st.Allowed g s.provided
      ∧ match st with
        | .complete cqe _ => s.provided.uring.blocks.groupOf cqe.bufIndex ≠ some g
        | .select br => br = g → s.shot = .armed
        | .call _ => True
  | .datagram a =>
    if a.cqe.hasBuffer then
      (Uring.ProvidedStep.complete a.cqe a.ops).Allowed g s.provided
        ∧ s.provided.uring.blocks.groupOf a.cqe.bufIndex = some g
        ∧ a.Received conf (blockOf s.provided a.cqe)
    else
      !conf.needReadDetail ∧ a.len = 0 ∧ a.cqe.res = 0 ∧ s.shot = .armed
  | .exhausted =>
    s.shot = .armed
      ∧ s.provided.uring.bufRings[g]?.map (·.tail) = some (s.provided.heads g)
  | .ended ops =>
    s.shot = .exhausted
      ∧ Along (fun p op => p.step (.call op)) (fun p op => (Uring.ProvidedStep.call op).Allowed g p) s.provided ops
  | .unread => s.shot ≠ .armed

instance (conf : UdpConfig) (g : Nat) (s : UringRead) (st : RecvStep) : Decidable (st.Allowed conf g s) :=
  match st with
  | .other st =>
    match st with
    | .complete _ _ => inferInstanceAs (Decidable (_ ∧ _ ≠ _))
    | .select _ => inferInstanceAs (Decidable (_ ∧ (_ → _)))
    | .call _ => inferInstanceAs (Decidable (_ ∧ True))
  | .datagram a => inferInstanceAs (Decidable (if a.cqe.hasBuffer then _ else _))
  | .exhausted | .ended _ => inferInstanceAs (Decidable (_ ∧ _))
  | .unread => inferInstanceAs (Decidable (_ ≠ _))

-- The read waits for the datagram, no callback before has left a dangling reference, the last completion of the group
-- was of another block, and the datagram is neither empty nor cut off.
def Fits (conf : UdpConfig) (g : Nat) (s : UringRead) : RecvStep → Prop
  | .datagram a =>
    s.provided.fault = none
      ∧ (s.provided.uring.blocks.lastBuf g).bufIndex ≠ BitVec.ofNat 32 a.cqe.bufIndex
      ∧ if conf.needReadDetail then a.len + DETAIL_SIZE ≤ (blockOf s.provided a.cqe).len else 0 < a.len
  | .unread => False
  | _ => True

instance (conf : UdpConfig) (g : Nat) (s : UringRead) (st : RecvStep) : Decidable (st.Fits conf g s) :=
  match st with
  | .datagram _ => inferInstanceAs (Decidable (_ ∧ _ ∧ if conf.needReadDetail then _ else _))
  | .unread => .isFalse id
  | .other _ | .exhausted | .ended _ => .isTrue trivial

end RecvStep

-- A run of the backend, the socket has the blocks of `group`.
structure UringReception (conf : UdpConfig) where
  group : Nat
  hasTimeoutMultishot : Bool
  ring : Uring.Wrapper
  steps : List RecvStep
  allowed : Along RecvStep.next (fun s st => st.Allowed conf group s) (.init hasTimeoutMultishot ring) steps

namespace UringReception

variable {conf : UdpConfig}

def calls (r : UringReception conf) : List UserCall :=
  outputs RecvStep.next (fun s st => st.calls conf s) (.init r.hasTimeoutMultishot r.ring) r.steps

def datagrams (r : UringReception conf) : List (Option Iovec) :=
  outputs RecvStep.next (fun s st => st.datagrams conf s) (.init r.hasTimeoutMultishot r.ring) r.steps

def Fits (r : UringReception conf) : Prop :=
  Along RecvStep.next (fun s st => st.Fits conf r.group s) (.init r.hasTimeoutMultishot r.ring) r.steps

end UringReception

/-! ### Both -/

inductive Reception (conf : UdpConfig) where
  | epoll (r : EpollReception conf)
  | uring (r : UringReception conf)

namespace Reception

variable {conf : UdpConfig}

def calls : Reception conf → List UserCall
  | .epoll r => r.calls
  | .uring r => r.calls

-- The datagrams that have arrived, in this order and where the kernel has put them.
def datagrams : Reception conf → List (Option Iovec)
  | .epoll r => r.datagrams
  | .uring r => r.datagrams

-- `cb_data_` is called once for each datagram, with its bytes.
def Delivers (r : Reception conf) : Prop :=
  (r.calls.filterMap UserCall.data?).map some = r.datagrams

def Fits : Reception conf → Prop
  | .epoll r => r.Fills
  | .uring r => r.Fits

end Reception

end UdpSocket
end Socket
end Ezio
