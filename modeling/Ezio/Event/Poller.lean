import Ezio.Lib.Run
import Ezio.Event.Epoll.Dispatch
import Ezio.Event.IoUring.Lemmas.Timers

/-!
This module contains the two backends behind `poll_base`, as far as the loop and the classes derived from
`event_base` use them.
-/

namespace Ezio
namespace Event

inductive Poller where
  | epoll (w : World)
  | ioUring (w : Uring.World)

namespace Poller

-- What a backend does apart from the calls of the loop and of the classes.
inductive Step where
  | epoll (st : Event.Step)
  | ioUring (st : Uring.Step)

def isIoUring : Poller → Bool
  | .epoll _ => false
  | .ioUring _ => true

-- A step of the other backend leaves the poller as it is.
def step : Poller → Step → Except Fault Poller
  | .epoll w, .epoll st =>
    match Event.step st w with
    | .ok _ w => .ok (.epoll w)
    | .error f _ => .error f
  | .ioUring w, .ioUring st => (w.tryStep st).map .ioUring
  | p, _ => .ok p

-- A call of the interface, as each of the backends sees it.
def exec (p : Poller) (onEpoll : Op) (onIoUring : Uring.Op) : Except Fault (Int × Poller) :=
  match p with
  | .epoll w =>
    (w.poll.exec onEpoll).map fun (ret, s) => (ret, .epoll { w.addLog [Entry.call onEpoll w.poll] with poll := s })
  | .ioUring w =>
    let (ret, uring) := w.uring.exec onIoUring
    .ok (ret, .ioUring { w with uring, returned := w.returned ++ [(w.uring.calls, onIoUring, ret)] })

-- The `buffer` and `buffer_iov_cnt` arguments.
def userBuf (buffer : Option Uring.IovPtr) (bufferIovCnt : Nat) : UserBuf :=
  ⟨buffer.isNone, (buffer.map (·.iov.take bufferIovCnt)).getD []⟩

def submitAsyncRead (p : Poller) (fd : Fd) (buffer : Option Uring.IovPtr) (bufferIovCnt : Nat)
    (cb : Option Callback) (opt : Option ReadOptions)
    : Except Fault (Int × Poller) :=
  p.exec (.submitAsyncRead fd (userBuf buffer bufferIovCnt) cb opt) (.submitAsyncRead fd buffer bufferIovCnt cb opt)

def submitAsyncWrite (p : Poller) (fd : Fd) (buffer : Option Uring.IovPtr) (bufferIovCnt : Nat)
    (cb : Option Callback) (opt : Option WriteOptions)
    : Except Fault (Int × Poller) :=
  p.exec (.submitAsyncWrite fd (userBuf buffer bufferIovCnt) cb opt)
    (.submitAsyncWrite fd buffer bufferIovCnt cb opt)

def cancelAsyncRead (p : Poller) (fd : Fd) (cb : Option Callback) : Except Fault (Int × Poller) :=
  p.exec (.cancelAsyncRead fd cb) (.cancelAsyncRead fd cb)

def cancelAsyncWrite (p : Poller) (fd : Fd) (cb : Option Callback) : Except Fault (Int × Poller) :=
  p.exec (.cancelAsyncWrite fd cb) (.cancelAsyncWrite fd cb)

-- A call of `cancel_async_read` has taken effect: epoll has stopped reading the file, the kernel has taken the request
-- that io_uring has made in the call.
def readCancelled (p : Poller) (fd : Fd) (p' : Poller) : Bool :=
  match p, p' with
  | .epoll w, .epoll w' =>
    (w.poll.fdToEventInfo fd.key).any fun id => (w.action id).isReading && !(w'.action id).isReading
  | .ioUring w, .ioUring w' => w'.uring.ring.executed.any fun e => e.sqe.origin.call = w.uring.calls
  | _, _ => false

-- The backends after `init`.
inductive Fresh : Poller → Prop where
  | epoll (isOpen : Nat → Bool) : Fresh (.epoll (World.init isOpen))
  | ioUring {k : Nat} (c sqStart cqStart : Nat) (enters : List Uring.EnterRet) (hk : k < 32)
      (hasTimeoutMultishot : Bool)
      : Fresh (.ioUring { uring := .init hasTimeoutMultishot (Uring.Wrapper.init k c sqStart cqStart enters) })

end Poller

end Event
end Ezio
