import Ezio.Socket.TcpSocket

/-!
This module contains what the functions of a `tcp_socket` leave unchanged, and the branches of a step. The functions
that connect a `tcp_event` only touch the event itself, the queues of the event loop, the fds and the log.
-/

namespace Ezio
namespace Socket
namespace TcpSocket

variable {w w' : TcpSocket} {c x : Nat}

-- What is not touched when a connection is connected.
def core (w : TcpSocket) : TcpSocket :=
  { w with
    events := fun _ => {}
    log := []
    evtHandlersCache := []
    reqTimerSet := []
    nextFd := 0
    closedFds := []
    halt := none }

@[simp]
theorem core_setEvent (w : TcpSocket) (c : Nat) (e : TcpEvent) : (w.setEvent c e).core = w.core := rfl

@[simp]
theorem core_addLog (w : TcpSocket) (e : Entry) : (w.addLog e).core = w.core := rfl

@[simp]
theorem core_useReleased (w : TcpSocket) (c : Nat) : (w.useReleased c).core = w.core := rfl

@[simp]
theorem core_addEvent (w : TcpSocket) (t : Target) : (w.addEvent t).core = w.core := rfl

@[simp]
theorem core_removeEvent (w : TcpSocket) (t : Target) : (w.removeEvent t).core = w.core := rfl

@[simp]
theorem core_regTimerReq (w : TcpSocket) (c : Nat) : (w.regTimerReq c).core = w.core := rfl

@[simp]
theorem core_removeTimerReq (w : TcpSocket) (c : Nat) : (w.removeTimerReq c).core = w.core := rfl

@[simp]
theorem core_closeFd (w : TcpSocket) (fd : Option Nat) : (w.closeFd fd).core = w.core := by
  cases fd <;> rfl

@[simp]
theorem core_getTcpSocketFd (w : TcpSocket) (ok : Bool) : (w.getTcpSocketFd ok).1.core = w.core := by
  cases ok <;> rfl

@[simp]
theorem events_addLog (w : TcpSocket) (e : Entry) : (w.addLog e).events = w.events := rfl

@[simp]
theorem events_useReleased (w : TcpSocket) (c : Nat) : (w.useReleased c).events = w.events := rfl

@[simp]
theorem events_addEvent (w : TcpSocket) (t : Target) : (w.addEvent t).events = w.events := rfl

@[simp]
theorem events_removeEvent (w : TcpSocket) (t : Target) : (w.removeEvent t).events = w.events := rfl

@[simp]
theorem events_regTimerReq (w : TcpSocket) (c : Nat) : (w.regTimerReq c).events = w.events := rfl

@[simp]
theorem events_removeTimerReq (w : TcpSocket) (c : Nat) : (w.removeTimerReq c).events = w.events := rfl

@[simp]
theorem events_callback (w : TcpSocket) (e : Entry) (f : Frame) : (w.callback e f).events = w.events := rfl

@[simp]
theorem events_closeFd (w : TcpSocket) (fd : Option Nat) : (w.closeFd fd).events = w.events := by
  cases fd <;> rfl

@[simp]
theorem events_getTcpSocketFd (w : TcpSocket) (ok : Bool) : (w.getTcpSocketFd ok).1.events = w.events := by
  cases ok <;> rfl

@[simp]
theorem events_setEvent (w : TcpSocket) (c : Nat) (e : TcpEvent)
    : (w.setEvent c e).events = Function.update w.events c e := rfl

-- The event has its buffer, its shared data and its requests as before, and is not closed.
structure TcpEvent.Kept (e e' : TcpEvent) : Prop where
  sharedData : e'.sharedData = e.sharedData
  bufId : e'.bufId = e.bufId
  evtState : e'.evtState = e.evtState
  readReady : e'.readReady = e.readReady
  multishot : e'.multishot = e.multishot
  closed : e'.tcpState = .closed → e.tcpState = .closed

theorem TcpEvent.Kept.refl (e : TcpEvent)
    : TcpEvent.Kept e e :=
  ⟨rfl, rfl, rfl, rfl, rfl, id⟩

theorem TcpEvent.Kept.trans {e₁ e₂ e₃ : TcpEvent} (h : TcpEvent.Kept e₁ e₂) (h' : TcpEvent.Kept e₂ e₃)
    : TcpEvent.Kept e₁ e₃ :=
  ⟨h'.sharedData.trans h.sharedData, h'.bufId.trans h.bufId, h'.evtState.trans h.evtState,
    h'.readReady.trans h.readReady, h'.multishot.trans h.multishot, fun hc => h.closed (h'.closed hc)⟩

-- A step that only connects the connection `c`.
structure Connects (c : Nat) (w w' : TcpSocket) : Prop where
  core : w'.core = w.core
  kept : TcpEvent.Kept (w.events c) (w'.events c)
  other : ∀ x, x ≠ c → w'.events x = w.events x

theorem Connects.refl (c : Nat) (w : TcpSocket)
    : Connects c w w :=
  ⟨rfl, .refl _, fun _ _ => rfl⟩

theorem Connects.trans {w₁ w₂ w₃ : TcpSocket} (h : Connects c w₁ w₂) (h' : Connects c w₂ w₃)
    : Connects c w₁ w₃ :=
  ⟨h'.core.trans h.core, h.kept.trans h'.kept, fun x hx => (h'.other x hx).trans (h.other x hx)⟩

theorem Connects.setEvent {e : TcpEvent} (h : Connects c w w') (he : TcpEvent.Kept (w'.events c) e)
    : Connects c w (w'.setEvent c e) := by
  refine ⟨h.core, ?_, ?_⟩
  . rw [events_setEvent, Function.update_self]
    exact h.kept.trans he
  . intro x hx
    rw [events_setEvent, Function.update_of_ne hx]
    exact h.other x hx

-- What changes neither the core nor an event.
theorem Connects.same {w'' : TcpSocket} (h : Connects c w w') (hcore : w''.core = w'.core)
    (hevents : w''.events = w'.events)
    : Connects c w w'' := by
  refine ⟨hcore.trans h.core, ?_, ?_⟩
  . rw [hevents]
    exact h.kept
  . intro x hx
    rw [hevents]
    exact h.other x hx

theorem removeTcpEvent_connects (w : TcpSocket) (c : Nat) (isCloseFd : Bool)
    : Connects c w (w.removeTcpEvent c isCloseFd) := by
  have hremove : Connects c w (w.removeEvent (.event c)) := (Connects.refl c w).same rfl rfl
  unfold removeTcpEvent
  dsimp only
  split
  . exact (hremove.same (core_closeFd ..) (events_closeFd ..)).setEvent
      (by rw [events_closeFd]; exact ⟨rfl, rfl, rfl, rfl, rfl, id⟩)
  . exact hremove.setEvent ⟨rfl, rfl, rfl, rfl, rfl, id⟩

theorem connectFd_connects (w : TcpSocket) (c : Nat) (result : ConnectResult)
    : Connects c w (w.connectFd c result).1 := by
  have hlog : Connects c w (w.addLog (.tries c)) := (Connects.refl c w).same rfl rfl
  unfold connectFd
  dsimp only
  split
  . exact .refl c w
  . rename_i fd _
    have hstate : ∀ state, state ≠ .closed → Connects c w ((w.addLog (.tries c)).setEvent c
        { w.events c with tcpState := state, fdsEvts := (w.events c).fdsEvts ++ [(fd, .write)] }) :=
      fun state hstate => hlog.setEvent ⟨rfl, rfl, rfl, rfl, rfl, fun h => absurd h hstate⟩
    split
    . exact (hlog.same (core_closeFd ..) (events_closeFd ..)).setEvent
        (by rw [events_closeFd]; exact ⟨rfl, rfl, rfl, rfl, rfl, id⟩)
    . exact (hstate .connected (by simp)).same rfl rfl
    . exact (hstate .inprogress (by simp)).same rfl rfl

theorem tryConnect_connects (w : TcpSocket) (c : Nat) (socket : Bool) (result : ConnectResult)
    : Connects c w (w.tryConnect c socket result).1 := by
  unfold tryConnect
  have hremove : Connects c w (if (w.events c).fd.isSome then w.removeTcpEvent c true else w) := by
    split
    . exact removeTcpEvent_connects w c true
    . exact .refl c w
  generalize (if (w.events c).fd.isSome then w.removeTcpEvent c true else w) = w₁ at *
  have hfd := hremove.same (core_getTcpSocketFd w₁ socket) (events_getTcpSocketFd w₁ socket)
  have hset : Connects c w ((w₁.getTcpSocketFd socket).1.setEvent c
      { (w₁.getTcpSocketFd socket).1.events c with fd := (w₁.getTcpSocketFd socket).2 }) :=
    hfd.setEvent ⟨rfl, rfl, rfl, rfl, rfl, id⟩
  dsimp only
  split
  . exact hset.trans (connectFd_connects ..)
  . exact hset

theorem createTimerForReconnect_connects (w : TcpSocket) (c : Nat)
    : Connects c w (w.createTimerForReconnect c) := by
  have h : Connects c w (w.setEvent c { w.events c with curTimerTriggerTimes := 0 }) :=
    (Connects.refl c w).setEvent ⟨rfl, rfl, rfl, rfl, rfl, id⟩
  unfold createTimerForReconnect
  dsimp only
  split
  . exact h.same rfl rfl
  . exact h.same rfl rfl

theorem closeReconnectTimer_connects (w : TcpSocket) (c : Nat)
    : Connects c w (w.closeReconnectTimer c) := by
  have h : Connects c w (w.setEvent c { w.events c with curTimerTriggerTimes := -1 }) :=
    (Connects.refl c w).setEvent ⟨rfl, rfl, rfl, rfl, rfl, id⟩
  exact h.same rfl rfl

theorem checkAndProcessTcpConnected_connects (w : TcpSocket) (c : Nat) (established : Bool)
    : Connects c w (w.checkAndProcessTcpConnected c established) := by
  unfold checkAndProcessTcpConnected
  split
  . rename_i fd _
    split
    . dsimp only
      have h : Connects c w (w.setEvent c { w.events c with tcpState := .connected }) :=
        (Connects.refl c w).setEvent ⟨rfl, rfl, rfl, rfl, rfl, by simp⟩
      have h' := (h.trans (closeReconnectTimer_connects _ c)).trans (removeTcpEvent_connects _ c false)
      generalize ((w.setEvent c _).closeReconnectTimer c).removeTcpEvent c false = w₁ at *
      have h₁ : Connects c w (w₁.setEvent c { w₁.events c with fdsEvts := [(fd, .read)] }) :=
        h'.setEvent ⟨rfl, rfl, rfl, rfl, rfl, id⟩
      exact h₁.same rfl rfl
    . exact (Connects.refl c w).same rfl rfl
  . have h := removeTcpEvent_connects w c true
    dsimp only
    split
    . exact h
    . exact h.trans (createTimerForReconnect_connects _ c)

theorem onEventTimer_connects (w : TcpSocket) (c : Nat) (answers : TimerAnswers)
    : Connects c w (w.onEventTimer c answers) := by
  unfold onEventTimer
  dsimp only
  have h : Connects c w (w.setEvent c
      { w.events c with curTimerTriggerTimes := (w.events c).curTimerTriggerTimes + 1 }) :=
    (Connects.refl c w).setEvent ⟨rfl, rfl, rfl, rfl, rfl, id⟩
  split
  . exact h
  . have h' := h.trans (tryConnect_connects _ c answers.socket answers.connect)
    split
    . exact h'.trans (checkAndProcessTcpConnected_connects _ c answers.established)
    . exact h'

-- The requests of the event are changed, and the program may end.
theorem handleReadReady_eq (w : TcpSocket) (c : Nat)
    : ∃ multishot halt, (halt = w.halt ∨ halt = some .exited)
        ∧ w.handleReadReady c = { w.setEvent c { w.events c with readReady := false, multishot } with halt } := by
  unfold handleReadReady
  dsimp only
  split
  . exact ⟨_, _, .inl rfl, rfl⟩
  . exact ⟨_, _, .inr rfl, rfl⟩

/-! ### Steps -/

-- What a step does, with the event loop and the poller only while no callback is running.
inductive Steps (w : TcpSocket) : Action → TcpSocket → Prop where
  | idle (a : Action) : Steps w a w
  | openSocket (hhalt : w.halt = none) (answers : OpenAnswers) : Steps w (.openSocket answers) (w.openSocket answers).1
  | closeSocket (hhalt : w.halt = none) : Steps w .closeSocket w.closeSocket
  | closeTcpChannel (hhalt : w.halt = none) {c : Nat} (hc : c ∈ w.chanIdToConnections)
      : Steps w (.closeTcpChannel c) (w.closeEvent c)
  | ret (hhalt : w.halt = none) : Steps w .ret w.ret
  | processInstruction (hhalt : w.halt = none) (hstack : w.stack = [])
      : Steps w .processInstruction w.processInstruction
  | acceptReady (hhalt : w.halt = none) (hstack : w.stack = []) (hready : w.listenReady = true)
      : Steps w .acceptReady { w with listenReady := false, accepting := true }
  | accept (hhalt : w.halt = none) (hstack : w.stack = []) (haccepting : w.accepting = true)
      (registerRingBuffer established : Bool)
      : Steps w (.accept registerRingBuffer established)
          ({ w with nextFd := w.nextFd + 1 }.onAccept w.nextFd registerRingBuffer established)
  | readReady (hhalt : w.halt = none) (hstack : w.stack = []) {c : Nat} (hready : (w.events c).readReady = true)
      : Steps w (.readReady c) (w.handleReadReady c)
  | writeReady (hhalt : w.halt = none) (hstack : w.stack = []) {c : Nat} (hready : (w.events c).writeReady ≠ 0)
      (established : Bool)
      : Steps w (.writeReady c established)
          ((w.setEvent c { w.events c with
            writeReady := (w.events c).writeReady - 1 }).checkAndProcessTcpConnected c established)
  | readTcpMsg (hhalt : w.halt = none) (hstack : w.stack = []) {c : Nat} (hmultishot : (w.events c).multishot = true)
      (ret : Int) (iov : List Nat)
      : Steps w (.readTcpMsg c ret iov) (w.onReadTcpMsg c ret iov)
  | timer (hhalt : w.halt = none) (hstack : w.stack = []) (htimer : w.timer = true) (answers : TimerAnswers)
      : Steps w (.timer answers) (w.onTimer answers)

theorem dispatch_steps (hhalt : w.halt = none) (hstack : w.stack = []) (a : Action)
    : Steps w a (w.dispatch a) := by
  have hidle := Steps.idle (w := w) a
  cases a with
  | processInstruction => exact .processInstruction hhalt hstack
  | acceptReady =>
    dsimp only [TcpSocket.dispatch]
    split
    . next hready => exact .acceptReady hhalt hstack hready
    . exact hidle
  | accept registerRingBuffer established =>
    dsimp only [TcpSocket.dispatch]
    split
    . next haccepting => exact .accept hhalt hstack haccepting registerRingBuffer established
    . exact hidle
  | readReady c =>
    dsimp only [TcpSocket.dispatch]
    split
    . next hready => exact .readReady hhalt hstack hready
    . exact hidle
  | writeReady c established =>
    dsimp only [TcpSocket.dispatch]
    split
    . next hready => exact .writeReady hhalt hstack hready established
    . exact hidle
  | readTcpMsg c ret iov =>
    dsimp only [TcpSocket.dispatch]
    split
    . next hmultishot => exact .readTcpMsg hhalt hstack hmultishot ret iov
    . exact hidle
  | timer answers =>
    dsimp only [TcpSocket.dispatch]
    split
    . next htimer => exact .timer hhalt hstack htimer answers
    . exact hidle
  | _ => exact hidle

theorem step_steps (w : TcpSocket) (a : Action) : Steps w a (w.step a) := by
  have hidle := Steps.idle (w := w) a
  unfold step
  split
  . exact hidle
  . next hhalted =>
    have hhalt : w.halt = none := by simpa using hhalted
    have hdispatch : Steps w a (if w.stack = [] then w.dispatch a else w) := by
      split
      . next hstack => exact dispatch_steps hhalt hstack a
      . exact hidle
    cases a with
    | openSocket answers => exact .openSocket hhalt answers
    | closeSocket => exact .closeSocket hhalt
    | closeTcpChannel c =>
      dsimp only [closeTcpChannel]
      split
      . next hc => exact .closeTcpChannel hhalt hc
      . exact hidle
    | ret => exact .ret hhalt
    | _ => exact hdispatch

end TcpSocket

end Socket
end Ezio
