import Ezio.Lib.Run
import Mathlib.Logic.Function.Basic

/-!
This module contains `tcp_socket` with the `tcp_event`s of its connections and the `tcp_shared_data` of both.

The code of the user runs in the callbacks and between them, it may close a connection or the socket wherever it
runs. The stack holds what the code has to do when the callback that runs returns. The event loop, the poller and
the kernel take part by the instructions, requests and answers that the socket gets from them.
-/

namespace Ezio
namespace Socket

inductive TcpConnectMode where
  | listen
  | connect
  deriving DecidableEq, Repr

inductive TcpState where
  | def_
  | connected
  | closed
  | inprogress
  deriving DecidableEq, Repr

inductive EventState where
  | def_
  | opened
  | closed
  deriving DecidableEq, Repr

inductive Ev where
  | read
  | write
  deriving DecidableEq, Repr

-- `poll_type_` of the event loop.
inductive PollType where
  | epoll
  | ioUring
  deriving DecidableEq, Repr

structure TcpConfig where
  pollType : PollType := .epoll
  mode : TcpConnectMode := .listen
  maxConnectCnt : UInt32 := 4294967295
  -- `cb_conn_`, `cb_close_` and `cb_data_` are set
  handlers : Bool := true
  cbError : Bool := true
  -- the parts of `addr_` between colons
  addrParts : Nat := 2
  deriving DecidableEq

-- A connection is known by its channel id.
structure TcpEvent where
  fd : Option Nat := none
  -- `shared_data_ptr_` is not null
  sharedData : Bool := false
  tcpState : TcpState := .def_
  bufId : Option Nat := none
  curTimerTriggerTimes : Int := -1
  evtState : EventState := .def_
  fdsEvts : List (Nat × Ev) := []
  -- what the poller has been asked for: to tell when a fd can be written (how often) or read, and to read it
  writeReady : Nat := 0
  readReady : Bool := false
  multishot : Bool := false
  deriving DecidableEq, Repr

inductive Target where
  | socket
  | event (c : Nat)
  deriving DecidableEq, Repr

inductive ElInstruction where
  | eiAdd
  | eiRemove
  deriving DecidableEq, Repr

-- An instruction in `evt_handlers_cache_` of the event loop.
structure EventInfo where
  evtPtr : Target
  instruction : ElInstruction
  fdsEvts : List (Nat × Ev)
  deriving DecidableEq, Repr

-- What is left to do when the callback returns.
inductive Frame where
  -- `cb_conn_` in `on_accept`
  | accepted (c : Nat)
  -- `cb_conn_` in `on_started`
  | started (c : Nat)
  -- `cb_data_`, with the lengths of the next blocks
  | data (c : Nat) (rest : List Nat)
  -- `cb_close_` in `on_read_tcp_msg`
  | eof (c : Nat)
  | error (c : Nat)
  -- `cb_close_` in `tcp_event::close`
  | closing (c : Nat)
  -- the loop of `tcp_socket::close`
  | closeAll (rest : List Nat)
  deriving DecidableEq, Repr

def Frame.isCloseAll : Frame → Bool
  | closeAll _ => true
  | _ => false

inductive Entry where
  | conn (c : Nat)
  | data (c : Nat) (len : Nat)
  | error (c : Nat) (ret : Int)
  | close (c : Nat)
  -- `shared_data_ptr_` is used after the connection has released it
  | released (c : Nat)
  -- `connect` is called
  | tries (c : Nat)
  deriving DecidableEq, Repr

-- Why nothing happens any more.
inductive Halt where
  | exited
  | undefined
  deriving DecidableEq, Repr

inductive ConnectResult where
  | success
  | inProgress
  | failed
  deriving DecidableEq, Repr

structure OpenAnswers where
  socket : Bool := true
  -- the calls in `set_keep_alive` and `make_listen_fd`
  listen : Bool := true
  registerRingBuffer : Bool := true
  connect : ConnectResult := .inProgress
  deriving DecidableEq, Repr

structure TimerAnswers where
  socket : Bool := true
  listen : Bool := true
  connect : ConnectResult := .inProgress
  established : Bool := false
  deriving DecidableEq, Repr

structure TcpSocket where
  conf : TcpConfig
  -- `evt_service_ptr_` is not null
  evtService : Bool := false
  fd : Option Nat := none
  fdsEvts : List (Nat × Ev) := []
  events : Nat → TcpEvent := fun _ => {}
  -- the channel ids that have been used
  nextChan : Nat := 0
  chanIdToConnections : List Nat := []
  isEnabled : Bool := true
  connectCnt : UInt32 := 0
  timer : Bool := false
  -- `tcp_shared_data`
  bufferIdList : List Nat := []
  closedChanIds : List Nat := []
  reqTimerSet : List Nat := []
  -- event loop, poller and kernel
  evtHandlersCache : List EventInfo := []
  evtHandlers : List Target := []
  listenReady : Bool := false
  accepting : Bool := false
  nextBuf : Nat := 0
  nextFd : Nat := 0
  closedFds : List Nat := []
  stack : List Frame := []
  halt : Option Halt := none
  log : List Entry := []

namespace TcpSocket

def setEvent (w : TcpSocket) (c : Nat) (e : TcpEvent) : TcpSocket :=
  { w with events := Function.update w.events c e }

def addLog (w : TcpSocket) (e : Entry) : TcpSocket :=
  { w with log := w.log ++ [e] }

-- A callback of the user is called, `f` is left to do when it returns.
def callback (w : TcpSocket) (e : Entry) (f : Frame) : TcpSocket :=
  { w.addLog e with stack := f :: w.stack }

def useReleased (w : TcpSocket) (c : Nat) : TcpSocket :=
  { w.addLog (.released c) with halt := some .undefined }

-- `fd_t::close`
def closeFd (w : TcpSocket) (fd : Option Nat) : TcpSocket :=
  match fd with
  | some fd => { w with closedFds := w.closedFds ++ [fd] }
  | none => w

-- `get_tcp_socket_fd`
def getTcpSocketFd (w : TcpSocket) (ok : Bool) : TcpSocket × Option Nat :=
  if ok then ({ w with nextFd := w.nextFd + 1 }, some w.nextFd) else (w, none)

def getFdsAndEvts (w : TcpSocket) : Target → List (Nat × Ev)
  | .socket => w.fdsEvts
  | .event c => (w.events c).fdsEvts

def addInstruction (w : TcpSocket) (t : Target) (instruction : ElInstruction) : TcpSocket :=
  { w with evtHandlersCache := w.evtHandlersCache ++ [⟨t, instruction, w.getFdsAndEvts t⟩] }

def addEvent (w : TcpSocket) (t : Target) : TcpSocket :=
  w.addInstruction t .eiAdd

def removeEvent (w : TcpSocket) (t : Target) : TcpSocket :=
  w.addInstruction t .eiRemove

/-! ### `tcp_shared_data` -/

def getBufferId (w : TcpSocket) (registerRingBuffer : Bool) : TcpSocket × Option Nat :=
  match w.bufferIdList with
  | [] => if registerRingBuffer then ({ w with nextBuf := w.nextBuf + 1 }, some w.nextBuf) else (w, none)
  | id :: ids => ({ w with bufferIdList := ids }, some id)

def regTimerReq (w : TcpSocket) (c : Nat) : TcpSocket :=
  { w with reqTimerSet := if c ∈ w.reqTimerSet then w.reqTimerSet else w.reqTimerSet ++ [c] }

def removeTimerReq (w : TcpSocket) (c : Nat) : TcpSocket :=
  { w with reqTimerSet := w.reqTimerSet.erase c }

/-! ### `tcp_event` -/

-- `tcp_event::remove_event`
def removeTcpEvent (w : TcpSocket) (c : Nat) (isCloseFd : Bool) : TcpSocket :=
  let w := w.removeEvent (.event c)
  let e := w.events c
  if isCloseFd then
    (w.closeFd e.fd).setEvent c { e with fdsEvts := [], fd := none }
  else
    w.setEvent c { e with fdsEvts := [] }

-- `connect` and what follows it in `try_connect`, returns whether `try_connect` returns `0`
def connectFd (w : TcpSocket) (c : Nat) (result : ConnectResult) : TcpSocket × Bool :=
  let e := w.events c
  match e.fd with
  | none => (w, false)
  | some fd =>
    let w := w.addLog (.tries c)
    match result with
    | .failed => ((w.closeFd e.fd).setEvent c { e with fd := none }, false)
    | .success =>
      ((w.setEvent c { e with tcpState := .connected, fdsEvts := e.fdsEvts ++ [(fd, .write)] }).addEvent (.event c),
        true)
    | .inProgress =>
      ((w.setEvent c { e with tcpState := .inprogress, fdsEvts := e.fdsEvts ++ [(fd, .write)] }).addEvent (.event c),
        true)

-- `try_connect` of a connection that has been tried before
def tryConnect (w : TcpSocket) (c : Nat) (socket : Bool) (result : ConnectResult) : TcpSocket × Bool :=
  let w := if (w.events c).fd.isSome then w.removeTcpEvent c true else w
  match w.getTcpSocketFd socket with
  | (w, fd) =>
    let w := w.setEvent c { w.events c with fd }
    if fd.isSome then w.connectFd c result else (w, false)

-- `create_timer_for_reconnect`
def createTimerForReconnect (w : TcpSocket) (c : Nat) : TcpSocket :=
  let e := w.events c
  let w := w.setEvent c { e with curTimerTriggerTimes := 0 }
  if e.sharedData then w.regTimerReq c else w.useReleased c

-- `close_reconnect_timer`
def closeReconnectTimer (w : TcpSocket) (c : Nat) : TcpSocket :=
  let w := w.setEvent c { w.events c with curTimerTriggerTimes := -1 }
  w.removeTimerReq c

-- `check_and_process_tcp_connected`, a fd that is not valid is not connected
def checkAndProcessTcpConnected (w : TcpSocket) (c : Nat) (established : Bool) : TcpSocket :=
  match (w.events c).fd, established with
  | some fd, true =>
    if (w.events c).sharedData then
      let w := w.setEvent c { w.events c with tcpState := .connected }
      let w := w.closeReconnectTimer c
      let w := w.removeTcpEvent c false
      (w.setEvent c { w.events c with fdsEvts := [(fd, .read)] }).addEvent (.event c)
    else
      w.useReleased c
  | _, _ =>
    let w := w.removeTcpEvent c true
    if (w.events c).curTimerTriggerTimes ≠ -1 then w else w.createTimerForReconnect c

-- `tcp_event::on_timer`
def onEventTimer (w : TcpSocket) (c : Nat) (answers : TimerAnswers) : TcpSocket :=
  let e := w.events c
  let w := w.setEvent c { e with curTimerTriggerTimes := e.curTimerTriggerTimes + 1 }
  if e.curTimerTriggerTimes + 1 < 10 ∨ e.tcpState = .connected then
    w
  else
    match w.tryConnect c answers.socket answers.connect with
    | (w, ok) =>
      if ok ∧ (w.events c).tcpState = .connected then
        w.checkAndProcessTcpConnected c answers.established
      else
        w

-- `tcp_event::close` up to its callback
def shutdown (w : TcpSocket) (c : Nat) : TcpSocket :=
  let w := w.removeEvent (.event c)
  let e := w.events c
  let w := (w.closeFd e.fd).closeReconnectTimer c
  let w := { w with bufferIdList := w.bufferIdList ++ e.bufId.toList }
  w.setEvent c { w.events c with fdsEvts := [], fd := none, bufId := none, tcpState := .closed }

-- The end of `tcp_event::close`.
def finishClose (w : TcpSocket) (c : Nat) : TcpSocket :=
  { w.setEvent c { w.events c with sharedData := false, evtState := .closed } with
    closedChanIds := w.closedChanIds ++ [c] }

-- `tcp_event::close`
def closeEvent (w : TcpSocket) (c : Nat) : TcpSocket :=
  if (w.events c).tcpState = .closed then
    w
  else if (w.events c).tcpState = .connected then
    (w.shutdown c).callback (.close c) (.closing c)
  else
    (w.shutdown c).finishClose c

-- The lengths of the blocks that are passed to `cb_data_`.
def blocks : Int → List Nat → List Nat
  | _, [] => []
  | len, iovLen :: iov => if 0 < len then min len.toNat iovLen :: blocks (len - iovLen) iov else []

-- The loop of `on_read_tcp_msg` over the blocks that are left.
def readBlocks (w : TcpSocket) (c : Nat) : List Nat → TcpSocket
  | [] => w
  | len :: rest => w.callback (.data c len) (.data c rest)

def onReadTcpMsg (w : TcpSocket) (c : Nat) (ret : Int) (iov : List Nat) : TcpSocket :=
  if (w.events c).sharedData then
    if 0 < ret then
      w.readBlocks c (blocks ret iov)
    else if ret = 0 then
      w.callback (.close c) (.eof c)
    else if w.conf.cbError then
      w.callback (.error c ret) (.error c)
    else
      w.closeEvent c
  else
    w.useReleased c

-- `tcp_event::handle_read_ready`, a connection that has been closed has no buffer
def handleReadReady (w : TcpSocket) (c : Nat) : TcpSocket :=
  let e := w.events c
  if e.bufId.isSome then
    w.setEvent c { e with readReady := false, multishot := true }
  else
    { w.setEvent c { e with readReady := false } with halt := some .exited }

-- `tcp_event::on_started`
def onStarted (w : TcpSocket) (c : Nat) : TcpSocket :=
  let e := w.events c
  if e.tcpState = .connected ∧ e.evtState ≠ .def_ then
    w.callback (.conn c) (.started c)
  else
    w.setEvent c { e with evtState := .opened }

/-! ### `tcp_socket` -/

-- `tcp_socket::remove_event`
def removeListener (w : TcpSocket) : TcpSocket :=
  { (w.removeEvent .socket).closeFd w.fd with fdsEvts := [], fd := none }

def newEvent (w : TcpSocket) (fd : Option Nat) : TcpSocket × Nat :=
  ({ w with
      nextChan := w.nextChan + 1
      events := Function.update w.events w.nextChan { fd, sharedData := true } }, w.nextChan)

-- The object of the connection is gone, it closes nothing.
def destroyEvent (w : TcpSocket) (c : Nat) : TcpSocket :=
  w.setEvent c {}

-- `on_accept` with the new fd `fd`
def onAccept (w : TcpSocket) (fd : Nat) (registerRingBuffer established : Bool) : TcpSocket :=
  if w.isEnabled then
    match w.newEvent (some fd) with
    | (w, c) =>
      match w.getBufferId registerRingBuffer with
      | (w, none) => (w.closeFd (some fd)).destroyEvent c
      | (w, some bufId) =>
        let w := w.setEvent c { w.events c with bufId := some bufId }
        if established then
          let w := w.setEvent c { w.events c with fdsEvts := [(fd, .read)] }
          let w := w.addEvent (.event c)
          let w := w.setEvent c { w.events c with tcpState := .connected }
          w.callback (.conn c) (.accepted c)
        else
          (w.closeFd (some fd)).destroyEvent c
  else
    w

-- `on_accept` after `tcp_event::open`
def addConnection (w : TcpSocket) (c : Nat) : TcpSocket :=
  let w := { w with
    chanIdToConnections := w.chanIdToConnections ++ [c]
    connectCnt := w.connectCnt + 1 }
  if w.connectCnt < w.conf.maxConnectCnt then
    w
  else
    { w with isEnabled := false }.removeListener

def openListener (w : TcpSocket) (answers : OpenAnswers) : TcpSocket × Bool :=
  match w.fd, answers.listen with
  | some fd, true =>
    let w := { w with fdsEvts := w.fdsEvts ++ [(fd, Ev.read)] }
    (w.addEvent .socket, true)
  | _, _ => (w, false)

def openConnector (w : TcpSocket) (answers : OpenAnswers) : TcpSocket × Bool :=
  match w.newEvent w.fd with
  | (w, c) =>
    match w.getBufferId answers.registerRingBuffer with
    | (w, none) => (w.destroyEvent c, false)
    | (w, some bufId) =>
      let w := w.setEvent c { w.events c with bufId := some bufId }
      match w.connectFd c answers.connect with
      | (w, true) => ({ w with chanIdToConnections := w.chanIdToConnections ++ [c] }, true)
      | (w, false) => (w.destroyEvent c, false)

def openSocket (w : TcpSocket) (answers : OpenAnswers) : TcpSocket × Int :=
  if w.evtService ∨ w.conf.maxConnectCnt = 0 ∨ !w.conf.handlers then
    (w, -1)
  else
    let w := { w with evtService := true }
    if w.conf.addrParts ≠ 2 then
      (w, -1)
    else
      match w.getTcpSocketFd answers.socket with
      | (w, none) => (w, -1)
      | (w, some fd) =>
        let w := { w with fd := some fd }
        match if w.conf.mode = .listen then w.openListener answers else w.openConnector answers with
        | (w, true) => ({ w with timer := true }, 0)
        | (w, false) => ({ w.closeFd w.fd with fd := none }, -1)

-- The loop of `tcp_socket::close`, it stops at the first callback.
def closeConnections (w : TcpSocket) : List Nat → TcpSocket
  | [] => { w with chanIdToConnections := [], isEnabled := false }
  | c :: rest =>
    if (w.events c).tcpState = .connected then
      { w with stack := .closeAll rest :: w.stack }.closeEvent c
    else
      (w.closeEvent c).closeConnections rest

-- `tcp_socket::close`, it must not be called by a callback that it calls
def closeSocket (w : TcpSocket) : TcpSocket :=
  if w.stack.any Frame.isCloseAll then
    { w with halt := some .undefined }
  else
    let w := if w.evtService then w.removeEvent .socket else w
    { w with fdsEvts := [], timer := false }.closeConnections w.chanIdToConnections

def closeTcpChannel (w : TcpSocket) (c : Nat) : TcpSocket :=
  if c ∈ w.chanIdToConnections then w.closeEvent c else w

def reopenListener (w : TcpSocket) (answers : TimerAnswers) : TcpSocket :=
  match w.removeListener.getTcpSocketFd answers.socket with
  | (w, fd) =>
    let w := { w with fd }
    match fd, answers.listen with
    | some fd, true =>
      let w := { w with fdsEvts := w.fdsEvts ++ [(fd, Ev.read)] }
      { w.addEvent .socket with isEnabled := true }
    | _, _ => { w with halt := some .exited }

-- The connections that wait for their timer, one that removes itself invalidates the iterator.
def onEventTimers (w : TcpSocket) (answers : TimerAnswers) : List Nat → TcpSocket
  | [] => w
  | c :: rest =>
    let w := w.onEventTimer c answers
    if c ∈ w.reqTimerSet then w.onEventTimers answers rest else { w with halt := some .undefined }

def removeClosedChans (w : TcpSocket) : TcpSocket :=
  let connections := w.chanIdToConnections.filter (· ∉ w.closedChanIds)
  { w with
    chanIdToConnections := connections
    closedChanIds := []
    connectCnt := .ofNat connections.length }

def isReopenListener (w : TcpSocket) : Bool :=
  !w.isEnabled ∧ w.connectCnt < w.conf.maxConnectCnt

-- `tcp_socket::on_timer`
def onTimer (w : TcpSocket) (answers : TimerAnswers) : TcpSocket :=
  if w.conf.mode = .listen then
    let w := w.removeClosedChans
    let w := if w.isReopenListener then w.reopenListener answers else w
    if w.halt.isSome then w else w.onEventTimers answers w.reqTimerSet
  else
    w.onEventTimers answers w.reqTimerSet

/-! ### The event loop -/

def processAddInstruction (w : TcpSocket) (info : EventInfo) : TcpSocket :=
  if info.evtPtr ∈ w.evtHandlers then
    w
  else
    let w := { w with evtHandlers := w.evtHandlers ++ [info.evtPtr] }
    match info.evtPtr with
    | .socket => { w with listenReady := w.listenReady || info.fdsEvts ≠ [] }
    | .event c =>
      let e := w.events c
      (w.setEvent c { e with
        writeReady := e.writeReady + info.fdsEvts.countP (·.2 = .write)
        readReady := e.readReady || info.fdsEvts.any (·.2 = .read) }).onStarted c

-- `io_uring` cancels no write, and reads by a fd that has been closed: what it has been asked for completes later.
def processRemoveInstruction (w : TcpSocket) (info : EventInfo) : TcpSocket :=
  let cancel : Bool := info.evtPtr ∈ w.evtHandlers ∧ w.conf.pollType = .epoll
  let w := { w with evtHandlers := w.evtHandlers.erase info.evtPtr }
  match info.evtPtr with
  | .socket =>
    if cancel ∧ info.fdsEvts ≠ [] then { w with listenReady := false, accepting := false } else w
  | .event c =>
    let e := w.events c
    let write := cancel && info.fdsEvts.any (·.2 = .write)
    let read := cancel && info.fdsEvts.any (·.2 = .read)
    w.setEvent c { e with
      evtState := .closed
      writeReady := if write then 0 else e.writeReady
      readReady := e.readReady && !read
      multishot := e.multishot && !read }

def processInstruction (w : TcpSocket) : TcpSocket :=
  match w.evtHandlersCache with
  | [] => w
  | info :: infos =>
    let w := { w with evtHandlersCache := infos }
    match info.instruction with
    | .eiAdd => w.processAddInstruction info
    | .eiRemove => w.processRemoveInstruction info

/-! ### Steps -/

-- The callback that runs returns.
def ret (w : TcpSocket) : TcpSocket :=
  match w.stack with
  | [] => w
  | f :: stack =>
    let w := { w with stack }
    match f with
    | .accepted c => w.addConnection c
    | .started _ => w
    | .data c rest => w.readBlocks c rest
    | .eof _ => w
    | .error c => w.closeEvent c
    | .closing c =>
      let w := w.finishClose c
      match w.stack with
      | .closeAll rest :: stack => { w with stack }.closeConnections rest
      | _ => w
    | .closeAll _ => w

inductive Action where
  -- the user
  | openSocket (answers : OpenAnswers)
  | closeSocket
  | closeTcpChannel (c : Nat)
  | ret
  -- the event loop and the poller
  | processInstruction
  | acceptReady
  | accept (registerRingBuffer established : Bool)
  | readReady (c : Nat)
  | writeReady (c : Nat) (established : Bool)
  | readTcpMsg (c : Nat) (ret : Int) (iov : List Nat)
  | timer (answers : TimerAnswers)
  deriving DecidableEq, Repr

-- The event loop and the poller go on when no callback is running.
def dispatch (w : TcpSocket) : Action → TcpSocket
  | .processInstruction => w.processInstruction
  | .acceptReady => if w.listenReady then { w with listenReady := false, accepting := true } else w
  | .accept registerRingBuffer established =>
    if w.accepting then
      { w with nextFd := w.nextFd + 1 }.onAccept w.nextFd registerRingBuffer established
    else
      w
  | .readReady c =>
    if (w.events c).readReady then w.handleReadReady c else w
  | .writeReady c established =>
    let e := w.events c
    if e.writeReady ≠ 0 then
      (w.setEvent c { e with writeReady := e.writeReady - 1 }).checkAndProcessTcpConnected c established
    else
      w
  | .readTcpMsg c ret iov => if (w.events c).multishot then w.onReadTcpMsg c ret iov else w
  | .timer answers => if w.timer then w.onTimer answers else w
  | _ => w

def step (w : TcpSocket) (a : Action) : TcpSocket :=
  if w.halt.isSome then
    w
  else
    match a with
    | .openSocket answers => (w.openSocket answers).1
    | .closeSocket => w.closeSocket
    | .closeTcpChannel c => w.closeTcpChannel c
    | .ret => w.ret
    | a => if w.stack = [] then w.dispatch a else w

def run (w : TcpSocket) (as : List Action) : TcpSocket :=
  as.foldl step w

def init (conf : TcpConfig) : TcpSocket :=
  { conf }

end TcpSocket

end Socket
end Ezio
