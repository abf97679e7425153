import Mathlib.Algebra.Ring.Int.Defs
import Mathlib.Algebra.Ring.Nat
import Ezio.Lib.Run
import Mathlib.Logic.Function.Basic

/-!
This module contains the awaitables of `coroutine_service` between the coroutines that await them and the
backend that completes them. The backend keeps one callback for each slot of a file descriptor, a
completion calls the callback that is in the slot at that time.

`handle_.resume()` makes the coroutine run, what it does then are the next steps. The rest of a
`cancel_read` that resumed a reader is a step of its own, no completion comes before it.
-/

namespace Ezio
namespace Coroutine

def EALREADY : Int := 114

def ECANCELED : Int := 125

inductive Backend where
  | epoll
  | ioUring
  deriving DecidableEq, Repr

-- What the backend or the service completes an awaiter with.
structure Completion where
  ret : Int
  iov : Option Nat := none
  iovCnt : Nat := 0
  extra : Option Nat := none
  info : Option Nat := none
  deriving DecidableEq, Repr

-- The result fields of the state blocks.
inductive Outcome where
  | result (ret : Int)
  | read (ret : Int) (iov : Option Nat) (iovCnt : Nat) (extra : Option Nat)
  | accept (fd : Int) (info : Option Nat)
  | timer (expirationCount : Nat)
  deriving DecidableEq, Repr

-- `async_result`, `async_read_result`, `async_accept_result` and `async_timer_result`
inductive Kind where
  | result
  | read
  | accept
  | timer
  deriving DecidableEq, Repr

namespace Kind

def initial : Kind → Outcome
  | result => .result 0
  | read => .read 0 none 0 none
  | accept => .accept (-1) none
  | timer => .timer 0

def outcome : Kind → Completion → Outcome
  | result, x => .result x.ret
  | read, x => .read x.ret x.iov x.iovCnt x.extra
  | accept, x => .accept x.ret x.info
  | timer, x => .timer (x.ret % 2 ^ 64).toNat

end Kind

structure StateBlock where
  kind : Kind
  -- the coroutine whose frame holds the awaitable
  owner : Nat
  handle : Option Nat := none
  -- only an `async_result` has the flag
  ready : Bool := false
  result : Outcome
  deriving DecidableEq, Repr

namespace StateBlock

def awaitReady (b : StateBlock) : Bool :=
  match b.kind with
  | .result => b.ready
  | .read | .accept | .timer => false

def complete (b : StateBlock) (x : Completion) : StateBlock :=
  { b with ready := b.ready || b.kind = .result, result := b.kind.outcome x }

end StateBlock

inductive CoroStatus where
  | running
  | suspended (a : Nat)
  deriving DecidableEq, Repr

structure Coro where
  status : CoroStatus := .running
  spawned : Bool
  deriving DecidableEq, Repr

inductive FdReadState where
  | none
  | pending
  | cancelling
  deriving DecidableEq, Repr

structure FdInfo where
  state : FdReadState := .none
  pendingReadAwaiter : Option Nat := Option.none
  deriving DecidableEq, Repr

inductive Callback where
  -- `tmp_cb` of `read`
  | read (fd a : Nat)
  -- `as_callback`, `as_accept_callback` and `timer_cb`
  | awaiter (a : Nat)
  -- `guarded_cb` of `cancel_read`
  | cancelRead (fd a : Nat)
  deriving DecidableEq, Repr

def Callback.target : Callback → Nat
  | read _ a | awaiter a | cancelRead _ a => a

inductive Slot where
  -- reads, reads into a buffer group and accepts of a file descriptor
  | read (fd : Nat)
  | write (fd : Nat)
  | cancelRead (fd : Nat)
  | cancelWrite (fd : Nat)
  | timer (id : Nat)
  deriving DecidableEq, Repr

-- An operation that is outstanding in the backend, `awaiter` is the one it was submitted for.
structure Request where
  slot : Slot
  awaiter : Nat
  multishot : Bool
  deriving DecidableEq, Repr

-- How the backend answers a submission, all but `accepted` return -1.
inductive Submit where
  | accepted
  | refused
  -- io_uring replaced the callback of a cancel but has no entry left
  | stored
  -- io_uring filled the entry but could not submit it
  | left
  deriving DecidableEq, Repr

inductive Source where
  | inline
  | request (awaiter : Nat) (multishot : Bool)
  deriving DecidableEq, Repr

-- The coroutine `coro` goes on from the `co_await` of `on` with the result `obtained`.
structure Resumption where
  coro : Nat
  on : Nat
  obtained : Option Outcome
  deriving DecidableEq, Repr

inductive Entry where
  -- the state block of `a` was completed
  | completed (src : Source) (a : Nat) (o : Outcome) (resumed : Option Resumption)
  -- `co_await` of `a` did not suspend
  | returned (c a : Nat) (o : Outcome)
  | suspended (c a : Nat)
  | useAfterFree (src : Source) (a : Nat)
  -- a coroutine is resumed that is not suspended
  | badResume (c : Nat)
  deriving DecidableEq, Repr

-- A `cancel_read` of the coroutine `caller` that will return the awaiter `awaiter`.
structure CancelCall where
  caller : Nat
  fd : Nat
  awaiter : Nat
  deriving DecidableEq, Repr

structure World where
  backend : Backend
  coros : Nat → Option Coro := fun _ => none
  nextCoro : Nat := 0
  blocks : Nat → Option StateBlock := fun _ => none
  nextBlock : Nat := 0
  fdInfoMap : Nat → Option FdInfo := fun _ => none
  slots : Slot → Option Callback := fun _ => none
  requests : List Request := []
  -- `done_flag` of the `cancel_read` that returned the awaiter
  doneFlag : Nat → Bool := fun _ => false
  -- the calls of `cancel_read` that have resumed the reader, the innermost first
  cancels : List CancelCall := []
  log : List Entry := []

namespace World

def setBlock (w : World) (a : Nat) (b : Option StateBlock) : World :=
  { w with blocks := Function.update w.blocks a b }

def setCoro (w : World) (c : Nat) (coro : Option Coro) : World :=
  { w with coros := Function.update w.coros c coro }

def setFdInfo (w : World) (fd : Nat) (info : FdInfo) : World :=
  { w with fdInfoMap := Function.update w.fdInfoMap fd (some info) }

def setSlot (w : World) (slot : Slot) (cb : Option Callback) : World :=
  { w with slots := Function.update w.slots slot cb }

def addLog (w : World) (e : Entry) : World :=
  { w with log := w.log ++ [e] }

def newBlock (w : World) (c : Nat) (kind : Kind) : World :=
  { w.setBlock w.nextBlock (some { kind, owner := c, result := kind.initial }) with
    nextBlock := w.nextBlock + 1 }

-- `complete` of an awaitable and the callbacks that capture its state block
def complete (w : World) (src : Source) (a : Nat) (x : Completion) : World :=
  match w.blocks a with
  | none => w.addLog (.useAfterFree src a)
  | some b =>
    let o := b.kind.outcome x
    let w := w.setBlock a (some (b.complete x))
    match b.handle with
    | none => w.addLog (.completed src a o none)
    | some c =>
      match w.coros c with
      | some { status := .suspended on, spawned } =>
        (w.setCoro c (some { status := .running, spawned })).addLog
          (.completed src a o (some ⟨c, on, (w.blocks on).map (·.result)⟩))
      | _ => (w.addLog (.completed src a o none)).addLog (.badResume c)

-- What `tmp_cb` of `read` does before it completes the awaiter.
def resetRead (w : World) (fd : Nat) : World :=
  match w.fdInfoMap fd with
  | none => w
  | some _ => w.setFdInfo fd {}

def setReadState (w : World) (fd : Nat) (state : FdReadState) : World :=
  match w.fdInfoMap fd with
  | none => w
  | some info => w.setFdInfo fd { info with state }

def invoke (w : World) (src : Source) (cb : Callback) (x : Completion) : World :=
  match cb with
  | .read fd a => (w.resetRead fd).complete src a x
  | .awaiter a => w.complete src a x
  | .cancelRead fd a =>
    if w.doneFlag a then
      w
    else
      let w := { w with doneFlag := Function.update w.doneFlag a true }
      (w.setReadState fd .none).complete src a x

def submit (w : World) (slot : Slot) (cb : Callback) (multishot : Bool) (sub : Submit) : World :=
  match sub with
  | .accepted | .left =>
    { w.setSlot slot (some cb) with
      requests := w.requests ++ [{ slot, awaiter := cb.target, multishot }] }
  | .stored => w.setSlot slot (some cb)
  | .refused => w

-- `disable_read` and `disable_write` of epoll
def disable (w : World) (slot : Slot) : World :=
  { w.setSlot slot none with requests := w.requests.filter (·.slot ≠ slot) }

def readWith (w : World) (c fd : Nat) (multishot : Bool) (buffer : Option Nat) (cnt : Nat) (sub : Submit)
    : World :=
  let a := w.nextBlock
  let w := w.newBlock c .read
  let info := (w.fdInfoMap fd).getD {}
  let w := w.setFdInfo fd info
  if info.state ≠ .none then
    w.complete .inline a { ret := -EALREADY, iov := buffer, iovCnt := cnt }
  else
    let w := w.setFdInfo fd ⟨.pending, some a⟩
    let w := w.submit (.read fd) (.read fd a) multishot sub
    if sub = .accepted then
      w
    else
      (w.setFdInfo fd {}).complete .inline a { ret := -1, iov := buffer, iovCnt := cnt }

def read (w : World) (c fd : Nat) (buffer : Option Nat) (cnt : Nat) (sub : Submit) : World :=
  w.readWith c fd false buffer cnt sub

def readGroup (w : World) (c fd : Nat) (sub : Submit) : World :=
  w.readWith c fd true none 0 sub

def submitWith (w : World) (c : Nat) (kind : Kind) (slot : Slot) (multishot : Bool) (sub : Submit)
    : World :=
  let a := w.nextBlock
  let w := w.newBlock c kind
  let w := w.submit slot (.awaiter a) multishot sub
  if sub = .accepted then
    w
  else
    w.complete .inline a { ret := -1 }

def write (w : World) (c fd : Nat) (sub : Submit) : World :=
  w.submitWith c .result (.write fd) false sub

def accept (w : World) (c fd : Nat) (sub : Submit) : World :=
  w.submitWith c .accept (.read fd) true sub

-- The timer is known by the awaiter that it was created for.
def sleep (w : World) (c : Nat) (sub : Submit) : World :=
  w.submitWith c .timer (.timer w.nextBlock) false sub

def cancelWith (w : World) (c : Nat) (slot cancelSlot : Slot) (sub : Submit) : World :=
  match w.backend, sub with
  | .epoll, .accepted =>
    let a := w.nextBlock
    ((w.newBlock c .result).disable slot).invoke .inline (.awaiter a) { ret := 0 }
  | _, _ => w.submitWith c .result cancelSlot false sub

def cancelWrite (w : World) (c fd : Nat) (sub : Submit) : World :=
  w.cancelWith c (.write fd) (.cancelWrite fd) sub

def cancelAccept (w : World) (c fd : Nat) (sub : Submit) : World :=
  w.cancelWith c (.read fd) (.cancelRead fd) sub

-- `cancel_read` up to the end of the `complete` that resumes the reader
def cancelRead (w : World) (c fd : Nat) : World :=
  let a := w.nextBlock
  let w := w.newBlock c .result
  match w.fdInfoMap fd with
  | some ⟨.pending, pending⟩ =>
    let w := w.setReadState fd .cancelling
    let w := match pending with
      | some p => w.complete .inline p { ret := -ECANCELED }
      | none => w
    { w with cancels := ⟨c, fd, a⟩ :: w.cancels }
  | _ => w.complete .inline a { ret := -EALREADY }

-- `pending_read_awaiter_ = nullptr`
def clearPending (w : World) (fd : Nat) : World :=
  match w.fdInfoMap fd with
  | none => w
  | some info => w.setFdInfo fd { info with pendingReadAwaiter := none }

-- The rest of the innermost `cancel_read`.
def cancelReadRest (w : World) (sub : Submit) : World :=
  match w.cancels with
  | [] => w
  | ⟨_, fd, a⟩ :: cancels =>
    let w := { w with cancels }.clearPending fd
    match w.backend, sub with
    | .epoll, .accepted =>
      let w := (w.disable (.read fd)).invoke .inline (.cancelRead fd a) { ret := 0 }
      { w with doneFlag := Function.update w.doneFlag a true }.complete .inline a { ret := 0 }
    | _, .accepted =>
      let w := w.submit (.cancelRead fd) (.cancelRead fd a) false sub
      { w with doneFlag := Function.update w.doneFlag a true }.complete .inline a { ret := 0 }
    | _, _ =>
      let w := w.submit (.cancelRead fd) (.cancelRead fd a) false sub
      (w.setReadState fd .none).complete .inline a { ret := -1 }

-- `co_await *ar`
def await (w : World) (c a : Nat) : World :=
  match w.coros c, w.blocks a with
  | some { status := .running, spawned }, some b =>
    if b.owner = c ∧ b.handle = none then
      if b.awaitReady then
        w.addLog (.returned c a b.result)
      else
        ((w.setBlock a (some { b with handle := some c })).setCoro c
          (some { status := .suspended a, spawned })).addLog (.suspended c a)
    else
      w
  | _, _ => w

-- The awaitable goes out of scope.
def drop (w : World) (c a : Nat) : World :=
  match w.coros c, w.blocks a with
  | some { status := .running, .. }, some b => if b.owner = c then w.setBlock a none else w
  | _, _ => w

def dropOwned (w : World) (p : Nat → Bool) : World :=
  { w with blocks := fun a => (w.blocks a).filter fun b => !p b.owner }

-- The coroutine ends with all awaitables that its frame holds.
def finish (w : World) (c : Nat) : World :=
  match w.coros c with
  | some { status := .running, .. } => (w.dropOwned (· = c)).setCoro c none
  | _ => w

def start (w : World) (spawned : Bool) : World :=
  { w.setCoro w.nextCoro (some { spawned }) with nextCoro := w.nextCoro + 1 }

def isSpawned (w : World) (c : Nat) : Bool :=
  (w.coros c).any (·.spawned)

def isRunning (w : World) (c : Nat) : Bool :=
  (w.coros c).any (·.status = .running)

-- The frames of all spawned coroutines are destroyed, a coroutine that runs cannot be destroyed.
def clearSpawned (w : World) : World :=
  if ∀ c < w.nextCoro, w.isSpawned c → !w.isRunning c then
    { w.dropOwned w.isSpawned with coros := fun c => (w.coros c).filter fun coro => !coro.spawned }
  else
    w

-- The backend completes the request `i`, a multishot request may stay.
def completeRequest (w : World) (i : Nat) (x : Completion) (more : Bool) : World :=
  match w.requests[i]? with
  | none => w
  | some r =>
    if w.cancels = [] then
      let w := if r.multishot && more then w else { w with requests := w.requests.eraseIdx i }
      match w.slots r.slot with
      | none => w
      | some cb => w.invoke (.request r.awaiter r.multishot) cb x
    else
      w

inductive Call where
  | read (fd : Nat) (buffer : Option Nat) (cnt : Nat)
  | readGroup (fd : Nat)
  | write (fd : Nat)
  | accept (fd : Nat)
  | sleep
  | cancelRead (fd : Nat)
  | cancelWrite (fd : Nat)
  | cancelAccept (fd : Nat)
  deriving DecidableEq, Repr

-- The answers that a backend can give.
def Submit.possible (backend : Backend) (isCancel : Bool) : Submit → Bool
  | .accepted | .refused => true
  | .stored => backend = .ioUring && isCancel
  | .left => backend = .ioUring

def call (w : World) (c : Nat) (op : Call) (sub : Submit) : World :=
  match op with
  | .read fd buffer cnt => if Submit.possible w.backend false sub then w.read c fd buffer cnt sub else w
  | .readGroup fd => if Submit.possible w.backend false sub then w.readGroup c fd sub else w
  | .write fd => if Submit.possible w.backend false sub then w.write c fd sub else w
  | .accept fd => if Submit.possible w.backend false sub then w.accept c fd sub else w
  | .sleep => if Submit.possible .epoll false sub then w.sleep c sub else w
  | .cancelRead fd => w.cancelRead c fd
  | .cancelWrite fd => if Submit.possible w.backend true sub then w.cancelWrite c fd sub else w
  | .cancelAccept fd => if Submit.possible w.backend true sub then w.cancelAccept c fd sub else w

inductive Step where
  | start (spawned : Bool)
  | call (c : Nat) (op : Call) (sub : Submit)
  | cancelReadRest (sub : Submit)
  | await (c a : Nat)
  | drop (c a : Nat)
  | finish (c : Nat)
  | complete (i : Nat) (x : Completion) (more : Bool)
  | clearSpawned
  deriving DecidableEq, Repr

-- The coroutine runs and has not resumed another one from inside a call.
def canAct (w : World) (c : Nat) : Bool :=
  w.isRunning c && w.cancels.all (·.caller ≠ c)

def step (w : World) : Step → World
  | .start spawned => w.start spawned
  | .call c op sub => if w.canAct c then w.call c op sub else w
  | .cancelReadRest sub => if Submit.possible w.backend true sub then w.cancelReadRest sub else w
  | .await c a => if w.canAct c then w.await c a else w
  | .drop c a => if w.canAct c then w.drop c a else w
  | .finish c => if w.canAct c then w.finish c else w
  | .complete i x more => w.completeRequest i x more
  | .clearSpawned => w.clearSpawned

def run (w : World) (steps : List Step) : World :=
  steps.foldl step w

end World

end Coroutine
end Ezio
