import Ezio.Socket.TcpSocket.Buffers
import Ezio.Socket.TcpSocket.Fds

/-!
This module contains the fds of a `tcp_socket` that connects: the connection owns the fd that it tries to connect, the
copy of it that the socket has is only closed when the connection could not be opened.
-/

namespace Ezio
namespace Socket
namespace TcpSocket

variable {w w' w'' : TcpSocket} {c : Nat}

def connectionFds (w : TcpSocket) : Handles Nat where
  held c := (w.events c).fd
  next := w.nextFd
  closed := w.closedFds

theorem connectionFds_ext {h : Handles Nat} (hheld : ∀ c, (w.events c).fd = h.held c) (hnext : w.nextFd = h.next)
    (hclosed : w.closedFds = h.closed)
    : w.connectionFds = h := by
  obtain ⟨held, next, closed⟩ := h
  simp only [connectionFds, Handles.mk.injEq]
  exact ⟨funext hheld, hnext, hclosed⟩

theorem connectionFds_of_handles (h : w'.handles = w.handles)
    : w'.connectionFds = w.connectionFds := by
  refine connectionFds_ext ?_ ?_ ?_
  . exact fun c => congrFun (congrArg Handles.held h) (.event c)
  . exact congrArg Handles.next h
  . exact congrArg Handles.closed h

-- The connection `c` closes its fd.
theorem connectionFds_release (hnone : (w'.events c).fd = none) (hother : ∀ x, x ≠ c → w'.events x = w.events x)
    (hnext : w'.nextFd = w.nextFd) (hclosed : w'.closedFds = w.closedFds ++ (w.events c).fd.toList)
    : w'.connectionFds = w.connectionFds.release c := by
  refine connectionFds_ext ?_ hnext hclosed
  intro x
  by_cases hx : x = c
  . rw [hx, hnone, Handles.release_held_self]
  . rw [hother x hx, Handles.release_held_of_ne hx]
    rfl

-- The connection `c` gets the next fd.
theorem connectionFds_acquire (hsome : (w'.events c).fd = some w.nextFd)
    (hother : ∀ x, x ≠ c → w'.events x = w.events x)
    (hnext : w'.nextFd = w.nextFd + 1) (hclosed : w'.closedFds = w.closedFds)
    : w'.connectionFds = w.connectionFds.acquire c := by
  refine connectionFds_ext ?_ hnext hclosed
  intro x
  by_cases hx : x = c
  . rw [hx, hsome, Handles.acquire_held_self]
    rfl
  . rw [hother x hx, Handles.acquire_held_of_ne hx]
    rfl

/-! ### What the functions do to the connections -/

-- What belongs to the listener.
def listener (w : TcpSocket) : TcpConfig × Bool × Bool × Bool :=
  (w.conf, w.evtService, w.listenReady, w.accepting)

-- Fds are closed by their connections, and created only by the timer.
structure Carries (w w' : TcpSocket) : Prop where
  moves : w.connectionFds.Moves w'.connectionFds
  timer : w.timer = false → w'.timer = false ∧ w'.nextFd = w.nextFd
  listener : w'.listener = w.listener
  cache : ∀ info ∈ w'.evtHandlersCache,
    info ∈ w.evtHandlersCache ∨ (info.evtPtr = .socket → info.instruction = .eiRemove)
  stack : ∀ f ∈ w'.stack, f ∈ w.stack ∨ f.isAccepted = false

namespace Carries

theorem refl (w : TcpSocket) : Carries w w :=
  ⟨.refl, fun h => ⟨h, rfl⟩, rfl, fun _ => .inl, fun _ => .inl⟩

theorem trans (h : Carries w w') (h' : Carries w' w'') : Carries w w'' := by
  refine ⟨h.moves.trans h'.moves, ?_, h'.listener.trans h.listener, ?_, ?_⟩
  . intro htimer
    obtain ⟨htimer', hnext⟩ := h.timer htimer
    obtain ⟨htimer'', hnext'⟩ := h'.timer htimer'
    exact ⟨htimer'', hnext'.trans hnext⟩
  . intro info hinfo
    rcases h'.cache info hinfo with hinfo | hremove
    . exact h.cache info hinfo
    . exact .inr hremove
  . intro f hf
    rcases h'.stack f hf with hf | haccepted
    . exact h.stack f hf
    . exact .inr haccepted

theorem frame (h : Carries w w') (hfds : w''.connectionFds = w'.connectionFds) (hlistener : w''.listener = w'.listener)
    (htimer : w'.timer = false → w''.timer = false) (hcache : w''.evtHandlersCache = w'.evtHandlersCache)
    (hstack : w''.stack = w'.stack)
    : Carries w w'' := by
  refine ⟨hfds ▸ h.moves, ?_, hlistener.trans h.listener, ?_, ?_⟩
  . intro hfalse
    obtain ⟨htimer', hnext⟩ := h.timer hfalse
    exact ⟨htimer htimer', Eq.trans (congrArg Handles.next hfds) hnext⟩
  . exact hcache ▸ h.cache
  . exact hstack ▸ h.stack

theorem setEvent (h : Carries w w') {e : TcpEvent} (he : e.fd = (w'.events c).fd) : Carries w (w'.setEvent c e) := by
  refine h.frame ?_ rfl id rfl rfl
  exact connectionFds_of_handles (handles_setEvent he)

theorem addInstruction (h : Carries w w') {t : Target} {instruction : ElInstruction}
    (ht : t = .socket → instruction = .eiRemove)
    : Carries w (w'.addInstruction t instruction) := by
  refine ⟨h.moves, h.timer, h.listener, ?_, h.stack⟩
  intro info hinfo
  rcases List.mem_append.mp hinfo with hinfo | hinfo
  . exact h.cache info hinfo
  . rw [List.mem_singleton.mp hinfo]
    exact .inr ht

theorem addEvent (h : Carries w w') (c : Nat) : Carries w (w'.addEvent (.event c)) :=
  h.addInstruction fun ht => by cases ht

theorem removeEvent (h : Carries w w') (t : Target) : Carries w (w'.removeEvent t) :=
  h.addInstruction fun _ => rfl

theorem callback (h : Carries w w') (e : Entry) {f : Frame} (hf : f.isAccepted = false)
    : Carries w (w'.callback e f) := by
  refine ⟨h.moves, h.timer, h.listener, h.cache, ?_⟩
  intro g hg
  rcases List.mem_cons.mp hg with rfl | hg
  . exact .inr hf
  . exact h.stack g hg

-- The connection closes its fd.
theorem closeFd (h : Carries w w') {e : TcpEvent} (he : e.fd = none)
    : Carries w ((w'.closeFd (w'.events c).fd).setEvent c e) := by
  have hrelease : ((w'.closeFd (w'.events c).fd).setEvent c e).connectionFds = w'.connectionFds.release c := by
    refine connectionFds_release ?_ ?_ ?_ ?_
    . rw [events_setEvent, Function.update_self]
      exact he
    . intro x hx
      rw [events_setEvent, Function.update_of_ne hx, events_closeFd]
    all_goals cases (w'.events c).fd <;> simp [TcpSocket.closeFd, TcpSocket.setEvent]
  refine ⟨?_, ?_, ?_, ?_, ?_⟩
  . rw [hrelease]
    exact h.moves.release
  . cases (w'.events c).fd <;> exact h.timer
  . cases (w'.events c).fd <;> exact h.listener
  . cases (w'.events c).fd <;> exact h.cache
  . cases (w'.events c).fd <;> exact h.stack

-- The connection creates a fd.
theorem getTcpSocketFd (h : Carries w w') (htimer : w.timer = true) (hnone : (w'.events c).fd = none) (ok : Bool)
    : Carries w ((w'.getTcpSocketFd ok).1.setEvent c
        { (w'.getTcpSocketFd ok).1.events c with fd := (w'.getTcpSocketFd ok).2 }) := by
  cases ok with
  | false => exact h.setEvent hnone.symm
  | true =>
    refine ⟨?_, fun hfalse => Bool.noConfusion (htimer.symm.trans hfalse), h.listener, h.cache, h.stack⟩
    have hacquire : ((w'.getTcpSocketFd true).1.setEvent c
        { (w'.getTcpSocketFd true).1.events c with fd := (w'.getTcpSocketFd true).2 }).connectionFds
          = w'.connectionFds.acquire c := by
      refine connectionFds_acquire ?_ ?_ rfl rfl
      . rw [events_setEvent, Function.update_self]
        rfl
      . intro x hx
        rw [events_setEvent, Function.update_of_ne hx]
        rfl
    rw [hacquire]
    exact h.moves.acquire hnone

theorem useReleased (h : Carries w w') (c : Nat) : Carries w (w'.useReleased c) :=
  h.frame rfl rfl id rfl rfl

theorem setHandlers (h : Carries w w') (ts : List Target) : Carries w { w' with evtHandlers := ts } :=
  h.frame rfl rfl id rfl rfl

theorem removeTcpEvent (h : Carries w w') (c : Nat) (isCloseFd : Bool) : Carries w (w'.removeTcpEvent c isCloseFd) := by
  have hremove := h.removeEvent (.event c)
  unfold TcpSocket.removeTcpEvent
  dsimp only
  split
  . exact hremove.closeFd rfl
  . exact hremove.setEvent rfl

theorem connectFd (h : Carries w w') (c : Nat) (result : ConnectResult) : Carries w (w'.connectFd c result).1 := by
  have hlog : Carries w (w'.addLog (.tries c)) := h.frame rfl rfl id rfl rfl
  unfold TcpSocket.connectFd
  dsimp only
  split
  . exact h
  . split
    . exact hlog.closeFd rfl
    . refine .addEvent (.setEvent hlog ?_) c
      rfl
    . refine .addEvent (.setEvent hlog ?_) c
      rfl

-- A fd of an earlier attempt is closed first.
theorem tryConnect (h : Carries w w') (htimer : w.timer = true) (c : Nat) (socket : Bool) (result : ConnectResult)
    : Carries w (w'.tryConnect c socket result).1 := by
  unfold TcpSocket.tryConnect
  have hremove : Carries w (if (w'.events c).fd.isSome then w'.removeTcpEvent c true else w')
      ∧ ((if (w'.events c).fd.isSome then w'.removeTcpEvent c true else w').events c).fd = none := by
    split
    . refine ⟨h.removeTcpEvent c true, ?_⟩
      simp [TcpSocket.removeTcpEvent]
    . next hfd => exact ⟨h, by simpa using hfd⟩
  generalize (if (w'.events c).fd.isSome then w'.removeTcpEvent c true else w') = w₁ at *
  have hset := hremove.1.getTcpSocketFd htimer hremove.2 socket
  dsimp only
  split
  . exact hset.connectFd c result
  . exact hset

theorem createTimerForReconnect (h : Carries w w') (c : Nat) : Carries w (w'.createTimerForReconnect c) := by
  have hset : Carries w (w'.setEvent c { w'.events c with curTimerTriggerTimes := 0 }) := h.setEvent rfl
  unfold TcpSocket.createTimerForReconnect
  dsimp only
  split
  . exact hset.frame rfl rfl id rfl rfl
  . exact hset.useReleased c

theorem closeReconnectTimer (h : Carries w w') (c : Nat) : Carries w (w'.closeReconnectTimer c) := by
  have hset : Carries w (w'.setEvent c { w'.events c with curTimerTriggerTimes := -1 }) := h.setEvent rfl
  exact hset.frame rfl rfl id rfl rfl

theorem checkAndProcessTcpConnected (h : Carries w w') (c : Nat) (established : Bool)
    : Carries w (w'.checkAndProcessTcpConnected c established) := by
  unfold TcpSocket.checkAndProcessTcpConnected
  split
  . dsimp only
    split
    . have hset : Carries w (w'.setEvent c { w'.events c with tcpState := .connected }) := h.setEvent rfl
      refine .addEvent (.setEvent ((hset.closeReconnectTimer c).removeTcpEvent c false) ?_) c
      rfl
    . exact h.useReleased c
  . have hremove := h.removeTcpEvent c true
    dsimp only
    split
    . exact hremove
    . exact hremove.createTimerForReconnect c

theorem onEventTimer (h : Carries w w') (htimer : w.timer = true) (c : Nat) (answers : TimerAnswers)
    : Carries w (w'.onEventTimer c answers) := by
  have hset : Carries w (w'.setEvent c
      { w'.events c with curTimerTriggerTimes := (w'.events c).curTimerTriggerTimes + 1 }) := h.setEvent rfl
  unfold TcpSocket.onEventTimer
  dsimp only
  split
  . exact hset
  . have htry := hset.tryConnect htimer c answers.socket answers.connect
    split
    . exact htry.checkAndProcessTcpConnected c answers.established
    . exact htry

theorem onEventTimers (h : Carries w w') (htimer : w.timer = true) (answers : TimerAnswers) (cs : List Nat)
    : Carries w (w'.onEventTimers answers cs) := by
  induction cs generalizing w' with
  | nil => exact h
  | cons c cs ih =>
    have hfirst := h.onEventTimer htimer c answers
    unfold TcpSocket.onEventTimers
    dsimp only
    split
    . exact ih hfirst
    . exact hfirst.frame rfl rfl id rfl rfl

theorem shutdown (h : Carries w w') (c : Nat) : Carries w (w'.shutdown c) := by
  have hhandles := shutdown_handles w' c
  have hcore := shutdown_core w' c
  obtain ⟨hnone, hother⟩ := shutdown_fd w' c
  have hrelease : (w'.shutdown c).connectionFds = w'.connectionFds.release c := by
    refine connectionFds_release hnone hother ?_ ?_
    . exact congrArg Handles.next hhandles
    . exact congrArg Handles.closed hhandles
  refine ⟨?_, ?_, ?_, ?_, ?_⟩
  . rw [hrelease]
    exact h.moves.release
  . intro hfalse
    obtain ⟨htimer, hnext⟩ := h.timer hfalse
    have hsame := congrArg TcpSocket.timer hcore
    exact ⟨Eq.trans hsame htimer, Eq.trans (congrArg Handles.next hhandles) hnext⟩
  . have hsame := congrArg TcpSocket.listener hcore
    exact Eq.trans hsame h.listener
  . have hcache : (w'.shutdown c).evtHandlersCache = (w'.removeEvent (.event c)).evtHandlersCache := by
      cases hfd : (w'.events c).fd <;> simp [TcpSocket.shutdown, TcpSocket.closeFd, TcpSocket.closeReconnectTimer,
        TcpSocket.removeTimerReq, TcpSocket.setEvent, TcpSocket.removeEvent, TcpSocket.addInstruction, hfd]
    rw [hcache]
    exact (h.removeEvent (.event c)).cache
  . rw [shutdown_stack]
    exact h.stack

theorem closeEvent (h : Carries w w') (c : Nat) : Carries w (w'.closeEvent c) := by
  have hshutdown := h.shutdown c
  unfold TcpSocket.closeEvent
  split
  . exact h
  . split
    . exact hshutdown.callback _ rfl
    . have hset : Carries w ((w'.shutdown c).setEvent c { (w'.shutdown c).events c with
          sharedData := false, evtState := .closed }) := hshutdown.setEvent rfl
      exact hset.frame rfl rfl id rfl rfl

end Carries

/-! ### Runs -/

-- Nothing is created by the listener, and before `open` nothing has been created at all.
structure Connector (w : TcpSocket) : Prop where
  mode : w.conf.mode = .connect
  listenReady : w.listenReady = false
  accepting : w.accepting = false
  cache : ∀ info ∈ w.evtHandlersCache, info.evtPtr = .socket → info.instruction = .eiRemove
  stack : ∀ f ∈ w.stack, f.isAccepted = false
  idle : w.evtService = false → w.timer = false ∧ ∀ c, (w.events c).fd = none

theorem Connector.carries (h : w.Connector) (hcarries : Carries w w')
    : w'.Connector := by
  have hlistener := hcarries.listener
  simp only [listener, Prod.mk.injEq] at hlistener
  obtain ⟨hconf, hservice, hready, haccepting⟩ := hlistener
  refine ⟨hconf ▸ h.mode, hready.trans h.listenReady, haccepting.trans h.accepting, ?_, ?_, ?_⟩
  . intro info hinfo
    rcases hcarries.cache info hinfo with hinfo | hremove
    . exact h.cache info hinfo
    . exact hremove
  . intro f hf
    rcases hcarries.stack f hf with hf | haccepted
    . exact h.stack f hf
    . exact haccepted
  . intro hidle
    obtain ⟨htimer, hnone⟩ := h.idle (hservice ▸ hidle)
    obtain ⟨htimer', hnext⟩ := hcarries.timer htimer
    exact ⟨htimer', hcarries.moves.held_none hnext hnone⟩

namespace Carries

theorem closeConnections (h : Carries w w') (cs : List Nat) : Carries w (w'.closeConnections cs) := by
  induction cs generalizing w' with
  | nil => exact h.frame rfl rfl id rfl rfl
  | cons c cs ih =>
    unfold TcpSocket.closeConnections
    split
    . apply closeEvent
      refine ⟨h.moves, h.timer, h.listener, h.cache, ?_⟩
      intro f hf
      rcases List.mem_cons.mp hf with rfl | hf
      . exact .inr rfl
      . exact h.stack f hf
    . exact ih (h.closeEvent c)

theorem closeSocket (w : TcpSocket) : Carries w w.closeSocket := by
  have hremove : Carries w (if w.evtService then w.removeEvent .socket else w) := by
    split
    . exact (refl w).removeEvent .socket
    . exact refl w
  unfold TcpSocket.closeSocket
  split
  . exact (refl w).frame rfl rfl id rfl rfl
  . refine closeConnections (hremove.frame ?_ ?_ ?_ ?_ ?_) _
    . rfl
    . rfl
    . exact fun _ => rfl
    . rfl
    . rfl

theorem readBlocks (h : Carries w w') (c : Nat) (lens : List Nat) : Carries w (w'.readBlocks c lens) := by
  cases lens with
  | nil => exact h
  | cons len lens => exact h.callback _ rfl

theorem onReadTcpMsg (h : Carries w w') (c : Nat) (ret : Int) (iov : List Nat)
    : Carries w (w'.onReadTcpMsg c ret iov) := by
  unfold TcpSocket.onReadTcpMsg
  split
  . split
    . exact h.readBlocks c _
    . split
      . exact h.callback _ rfl
      . split
        . exact h.callback _ rfl
        . exact h.closeEvent c
  . exact h.useReleased c

theorem onStarted (h : Carries w w') (c : Nat) : Carries w (w'.onStarted c) := by
  unfold TcpSocket.onStarted
  dsimp only
  split
  . exact h.callback _ rfl
  . exact h.setEvent rfl

end Carries

theorem Connector.processInstruction (h : w.Connector)
    : Carries w w.processInstruction := by
  unfold TcpSocket.processInstruction
  split
  . exact .refl w
  . next info infos hcache =>
    have hrest : Carries w { w with evtHandlersCache := infos } := by
      refine ⟨.refl, fun h => ⟨h, rfl⟩, rfl, ?_, fun _ => .inl⟩
      intro info hinfo
      rw [hcache]
      exact .inl (List.mem_cons_of_mem _ hinfo)
    have hmem : info ∈ w.evtHandlersCache := by
      rw [hcache]
      exact List.mem_cons_self
    dsimp only
    split
    . next hadd =>
      unfold processAddInstruction
      dsimp only
      split
      . exact hrest
      . split
        . next hsocket => cases hadd.symm.trans (h.cache info hmem hsocket)
        . refine .onStarted (.setEvent (hrest.setHandlers _) ?_) _
          rfl
    . unfold processRemoveInstruction
      dsimp only
      split
      . split
        . refine hrest.frame rfl ?_ id rfl rfl
          simp only [listener, h.listenReady, h.accepting]
        . exact hrest.setHandlers _
      . refine .setEvent (hrest.setHandlers _) ?_
        rfl

theorem Connector.ret (h : w.Connector)
    : Carries w w.ret := by
  unfold TcpSocket.ret
  split
  . exact .refl w
  . next f stack hstack =>
    have hrest : Carries w { w with stack } := by
      refine ⟨.refl, fun h => ⟨h, rfl⟩, rfl, fun _ => .inl, ?_⟩
      intro f hf
      rw [hstack]
      exact .inl (List.mem_cons_of_mem _ hf)
    have haccepted := h.stack f (by rw [hstack]; exact List.mem_cons_self)
    cases f with
    | accepted c => cases haccepted
    | data c rest => exact hrest.readBlocks c rest
    | error c => exact hrest.closeEvent c
    | closing c =>
      have hset : Carries w (TcpSocket.setEvent { w with stack } c
          { w.events c with sharedData := false, evtState := .closed }) := hrest.setEvent rfl
      have hfinish : Carries w (TcpSocket.finishClose { w with stack } c) := hset.frame rfl rfl id rfl rfl
      dsimp only
      split
      . next rest stack' hstack' =>
        apply Carries.closeConnections
        refine ⟨hfinish.moves, hfinish.timer, hfinish.listener, hfinish.cache, ?_⟩
        intro f hf
        apply hfinish.stack f
        rw [hstack']
        exact List.mem_cons_of_mem _ hf
      . exact hfinish
    | _ => exact hrest

theorem Connector.onTimer (h : w.Connector) (htimer : w.timer = true) (answers : TimerAnswers)
    : Carries w (w.onTimer answers) := by
  unfold TcpSocket.onTimer
  rw [if_neg (by rw [h.mode]; decide)]
  exact (Carries.refl w).onEventTimers htimer answers _

-- `connect` fails in `open`, the fd is closed by the connection and by the socket.
def ClosesTwice (w : TcpSocket) : Action → Prop
  | .openSocket answers => w.halt = none ∧ w.LosesBuffer (.openSocket answers)
  | _ => False

instance ClosesTwice.decidable (w : TcpSocket) : (a : Action) → Decidable (w.ClosesTwice a)
  | .openSocket _ => inferInstanceAs (Decidable (_ ∧ _))
  | .closeSocket | .closeTcpChannel _ | .ret | .processInstruction | .acceptReady | .accept _ _ | .readReady _
  | .writeReady _ _ | .readTcpMsg _ _ _ | .timer _ => inferInstanceAs (Decidable False)

-- The socket is opened once.
theorem Connector.opened (h : w.Connector) (hlistener : w'.listener = (w.conf, true, w.listenReady, w.accepting))
    (hcache : ∀ info ∈ w'.evtHandlersCache,
      info ∈ w.evtHandlersCache ∨ (info.evtPtr = .socket → info.instruction = .eiRemove))
    (hstack : ∀ f ∈ w'.stack, f ∈ w.stack ∨ f.isAccepted = false)
    : w'.Connector := by
  simp only [listener, Prod.mk.injEq] at hlistener
  obtain ⟨hconf, hservice, hready, haccepting⟩ := hlistener
  refine ⟨hconf ▸ h.mode, hready.trans h.listenReady, haccepting.trans h.accepting, ?_, ?_, ?_⟩
  . exact fun info hinfo => (hcache info hinfo).elim (h.cache info) id
  . exact fun f hf => (hstack f hf).elim (h.stack f) id
  . intro hidle
    cases hservice.symm.trans hidle

theorem Carries.getBufferId (h : Carries w w') (registerRingBuffer : Bool)
    : Carries w (w'.getBufferId registerRingBuffer).1 := by
  unfold TcpSocket.getBufferId
  split
  . split
    . exact h.frame rfl rfl id rfl rfl
    . exact h
  . exact h.frame rfl rfl id rfl rfl

-- The connection has the fd of the socket, and closes it when `connect` fails.
inductive ConnectorOpens (w : TcpSocket) (answers : OpenAnswers) (w' : TcpSocket) : TcpSocket × Bool → Prop
  | opened (hconnect : answers.connect ≠ .failed)
      : ConnectorOpens w answers w' ({ w' with chanIdToConnections := w'.chanIdToConnections ++ [w.nextChan] }, true)
  | noBuffer (hbuf : ¬(w.bufferIdList ≠ [] ∨ answers.registerRingBuffer))
      (hfds : w'.connectionFds = (w.newEvent w.fd).1.connectionFds)
      : ConnectorOpens w answers w' (w'.destroyEvent w.nextChan, false)
  | failed (hbuf : w.bufferIdList ≠ [] ∨ answers.registerRingBuffer) (hconnect : answers.connect = .failed)
      (hfds : w'.connectionFds = (w.newEvent w.fd).1.connectionFds.release w.nextChan)
      : ConnectorOpens w answers w' (w'.destroyEvent w.nextChan, false)

theorem openConnector_opens {fd : Nat} (hfd : w.fd = some fd) (answers : OpenAnswers)
    : ∃ w', Carries (w.newEvent w.fd).1 w' ∧ w'.fd = w.fd ∧ w'.nextFd = w.nextFd
      ∧ ConnectorOpens w answers w' (w.openConnector answers) := by
  unfold TcpSocket.openConnector
  split
  next w₁ c hnew =>
    cases hnew
    have hget := (Carries.refl (w.newEvent w.fd).1).getBufferId answers.registerRingBuffer
    split
    . next w₂ hbuf =>
      have hgot : (w.newEvent w.fd).1.getBufferId answers.registerRingBuffer = (w₂, none) := hbuf
      have hframe := getBufferId_frame (w.newEvent w.fd).1 answers.registerRingBuffer
      rw [hgot] at hget hframe
      obtain ⟨rfl, hlist, hregister⟩ := hframe.2.2 rfl
      refine ⟨_, hget, rfl, rfl, .noBuffer ?_ rfl⟩
      rintro (hne | hset)
      . exact hne hlist
      . cases hregister.symm.trans hset
    . next w₂ bufId hbuf =>
      have hgot : (w.newEvent w.fd).1.getBufferId answers.registerRingBuffer = (w₂, some bufId) := hbuf
      have hsome : w.bufferIdList ≠ [] ∨ answers.registerRingBuffer :=
        getBufferId_some (w := (w.newEvent w.fd).1) hgot
      have heq := getBufferId_eq hgot
      rw [hgot] at hget
      have hset : Carries (w.newEvent w.fd).1
          (w₂.setEvent w.nextChan { w₂.events w.nextChan with bufId := some bufId }) := hget.setEvent rfl
      have hsame : (w₂.setEvent w.nextChan { w₂.events w.nextChan with bufId := some bufId }).handles
          = (w.newEvent w.fd).1.handles := by
        refine Eq.trans (handles_setEvent (w := w₂) ?_) ?_
        . rfl
        . rw [heq]
          rfl
      dsimp only
      generalize w₂.setEvent w.nextChan _ = w₃ at *
      have hfd₃ : (w₃.events w.nextChan).fd = some fd := by
        have hheld := congrFun (congrArg Handles.held hsame) (.event w.nextChan)
        refine Eq.trans hheld ?_
        simp [handles, newEvent, hfd]
      have hlistener : w₃.fd = w.fd := congrFun (congrArg Handles.held hsame) .socket
      have hnext : w₃.nextFd = w.nextFd := congrArg Handles.next hsame
      have htries := hset.connectFd w.nextChan answers.connect
      unfold connectFd at htries ⊢
      simp only [hfd₃] at htries ⊢
      cases hconnect : answers.connect with
      | success =>
        rw [hconnect] at htries
        exact ⟨_, htries, hlistener, hnext, .opened (by rw [hconnect]; decide)⟩
      | inProgress =>
        rw [hconnect] at htries
        exact ⟨_, htries, hlistener, hnext, .opened (by rw [hconnect]; decide)⟩
      | failed =>
        rw [hconnect] at htries
        refine ⟨_, htries, hlistener, hnext, .failed hsome hconnect ?_⟩
        rw [← connectionFds_of_handles hsame]
        apply connectionFds_release
        . rw [events_setEvent, Function.update_self]
        . intro x hx
          rw [events_setEvent, Function.update_of_ne hx]
          rfl
        . rfl
        . rw [hfd₃]
          rfl

theorem Connector.newEvent_moves (h : w.Connector) (hs : w.evtService = false)
    (hw' : w' = { w with evtService := true, fd := some w.nextFd, nextFd := w.nextFd + 1 })
    : w.connectionFds.Moves (w'.newEvent w'.fd).1.connectionFds := by
  have hacquire : (w'.newEvent w'.fd).1.connectionFds = w.connectionFds.acquire w.nextChan := by
    rw [hw']
    apply connectionFds_acquire
    . simp [newEvent]
    . intro x hx
      simp [newEvent, Function.update_of_ne hx]
    . rfl
    . rfl
  rw [hacquire]
  exact .acquire .refl ((h.idle hs).2 _)

-- `open` closes the fd of the socket when the connection is gone.
theorem connectionFds_destroyed {fd : Nat} (hfd : w.fd = some fd) (c : Nat)
    : ({ (w.destroyEvent c).closeFd (w.destroyEvent c).fd with fd := none } : TcpSocket).connectionFds
      = { w.connectionFds.release c with closed := w.closedFds ++ [fd] } := by
  have hdestroyed : (w.destroyEvent c).fd = some fd := hfd
  rw [hdestroyed]
  refine connectionFds_ext ?_ rfl rfl
  intro x
  change (Function.update w.events c {} x).fd = _
  by_cases hx : x = c
  . rw [hx, Function.update_self]
    exact (Handles.release_held_self w.connectionFds c).symm
  . rw [Function.update_of_ne hx]
    exact (Handles.release_held_of_ne (h := w.connectionFds) hx).symm

theorem Connector.openSocket (h : w.Connector) (answers : OpenAnswers)
    : (w.openSocket answers).1.Connector
      ∧ (¬w.LosesBuffer (.openSocket answers) → w.connectionFds.Moves (w.openSocket answers).1.connectionFds)
      ∧ (w.LosesBuffer (.openSocket answers) → (w.openSocket answers).1.connectionFds =
        { w.connectionFds with
          next := w.nextFd + 1
          closed := w.closedFds ++ [w.nextFd, w.nextFd] }) := by
  simp only [LosesBuffer]
  unfold TcpSocket.openSocket
  split
  . next hopen =>
    refine ⟨h, fun _ => .refl, ?_⟩
    rintro ⟨hs, hmax, hhandlers, -⟩
    simp [hmax, hhandlers] at hopen
    simp [hopen] at hs
  . next hopen =>
    simp only [not_or, Bool.not_eq_true, Bool.not_eq_false'] at hopen
    obtain ⟨hs, hmax, hhandlers⟩ := hopen
    dsimp only
    split
    . next haddr =>
      refine ⟨h.opened rfl (fun _ => .inl) fun _ => .inl, fun _ => .refl, ?_⟩
      rintro ⟨-, -, -, haddr', -⟩
      exact absurd haddr' haddr
    . next haddr =>
      cases hsocket : answers.socket with
      | false =>
        refine ⟨h.opened rfl (fun _ => .inl) fun _ => .inl, fun _ => .refl, ?_⟩
        rintro ⟨-, -, -, -, hsocket', -⟩
        cases hsocket'
      | true =>
        simp only [getTcpSocketFd, if_true, h.mode]
        rw [if_neg (by decide)]
        obtain ⟨w₁, hcarries, hfd, hnext, hopens⟩ := openConnector_opens
          (w := { w with evtService := true, fd := some w.nextFd, nextFd := w.nextFd + 1 }) rfl answers
        have hmoves := (h.newEvent_moves hs rfl).trans hcarries.moves
        have hopened : ∀ w' : TcpSocket, w'.listener = w₁.listener → w'.evtHandlersCache = w₁.evtHandlersCache
            → w'.stack = w₁.stack → w'.Connector := by
          intro w' hlistener hcache hstack
          refine h.opened (hlistener.trans hcarries.listener) ?_ ?_
          . exact hcache ▸ hcarries.cache
          . exact hstack ▸ hcarries.stack
        generalize hresult : TcpSocket.openConnector _ answers = result at hopens ⊢
        cases hopens with
        | opened hconnect =>
          refine ⟨hopened _ rfl rfl rfl, fun _ => hmoves, ?_⟩
          rintro ⟨-, -, -, -, -, -, -, hfailed⟩
          exact absurd hfailed hconnect
        | noBuffer hbuf hfds =>
          have hdestroyed := connectionFds_destroyed hfd w.nextChan
          have hlistener : (w₁.destroyEvent w.nextChan).fd = some w.nextFd := hfd
          dsimp only
          rw [hlistener] at hdestroyed ⊢
          have hheld : (w₁.events w.nextChan).fd = some w.nextFd := by
            have := congrFun (congrArg Handles.held hfds) w.nextChan
            refine Eq.trans this ?_
            simp [connectionFds, newEvent]
          refine ⟨hopened _ rfl rfl rfl, fun _ => ?_, ?_⟩
          . refine Eq.subst (motive := w.connectionFds.Moves) ?_ (hmoves.release (k := w.nextChan))
            rw [hdestroyed]
            simp [Handles.release, connectionFds, hheld]
          . rintro ⟨-, -, -, -, -, -, hbuf', -⟩
            exact absurd hbuf' hbuf
        | failed hbuf hconnect hfds =>
          have hdestroyed := connectionFds_destroyed hfd w.nextChan
          have hlistener : (w₁.destroyEvent w.nextChan).fd = some w.nextFd := hfd
          dsimp only
          rw [hlistener] at hdestroyed ⊢
          refine ⟨hopened _ rfl rfl rfl, ?_, fun _ => ?_⟩
          . intro hkeeps
            refine absurd ⟨?_, hmax, hhandlers, ?_, trivial, trivial, hbuf, hconnect⟩ hkeeps
            . rw [hs]
              rfl
            . simpa using haddr
          . rw [hdestroyed]
            have hclosed : w₁.closedFds = w.closedFds ++ [w.nextFd] := by
              refine Eq.trans (congrArg Handles.closed hfds) ?_
              simp [Handles.release, connectionFds, newEvent]
            have hheld : (w₁.connectionFds.release w.nextChan).held = w.connectionFds.held := by
              rw [hfds]
              funext x
              by_cases hx : x = w.nextChan
              . rw [hx, Handles.release_held_self]
                exact ((h.idle hs).2 _).symm
              . rw [Handles.release_held_of_ne hx, Handles.release_held_of_ne hx]
                simp [connectionFds, newEvent, Function.update_of_ne hx]
            simp only [Handles.mk.injEq]
            refine ⟨hheld, hnext, ?_⟩
            rw [hclosed, List.append_assoc]
            rfl

theorem Connector.step_moves (h : w.Connector) {a : Action} (hkeeps : ¬w.ClosesTwice a)
    : (w.step a).Connector ∧ w.connectionFds.Moves (w.step a).connectionFds := by
  have hcarries : ∀ w' : TcpSocket, Carries w w' → w'.Connector ∧ w.connectionFds.Moves w'.connectionFds :=
    fun w' hw' => ⟨h.carries hw', hw'.moves⟩
  have hsteps := w.step_steps a
  generalize w.step a = w' at hsteps ⊢
  cases hsteps with
  | idle => exact hcarries _ (.refl w)
  | openSocket hhalt answers =>
    obtain ⟨hconnector, hmoves, -⟩ := h.openSocket answers
    exact ⟨hconnector, hmoves fun hloses => hkeeps ⟨hhalt, hloses⟩⟩
  | closeSocket => exact hcarries _ (.closeSocket w)
  | closeTcpChannel => exact hcarries _ ((Carries.refl w).closeEvent _)
  | ret => exact hcarries _ h.ret
  | processInstruction => exact hcarries _ h.processInstruction
  | acceptReady _ _ hready => cases h.listenReady.symm.trans hready
  | accept _ _ haccepting => cases h.accepting.symm.trans haccepting
  | @readReady _ _ c =>
    obtain ⟨multishot, _, -, heq⟩ := handleReadReady_eq w c
    have hset : Carries w (w.setEvent c { w.events c with readReady := false, multishot }) :=
      (Carries.refl w).setEvent rfl
    rw [heq]
    exact hcarries _ (hset.frame rfl rfl id rfl rfl)
  | @writeReady _ _ c _ established =>
    refine hcarries _ (.checkAndProcessTcpConnected (.setEvent (.refl w) ?_) c established)
    rfl
  | readTcpMsg _ _ _ ret iov => exact hcarries _ ((Carries.refl w).onReadTcpMsg _ ret iov)
  | timer _ _ htimer answers => exact hcarries _ (h.onTimer htimer answers)

theorem Connector.step_of_closesTwice (h : w.Connector) {a : Action} (htwice : w.ClosesTwice a)
    : (w.step a).Connector
      ∧ (w.step a).connectionFds =
        { w.connectionFds with
          next := w.nextFd + 1
          closed := w.closedFds ++ [w.nextFd, w.nextFd] } := by
  cases a with
  | openSocket answers =>
    obtain ⟨hhalt, hloses⟩ := htwice
    obtain ⟨hconnector, -, hcloses⟩ := h.openSocket answers
    unfold TcpSocket.step
    rw [if_neg (by simp [hhalt])]
    exact ⟨hconnector, hcloses hloses⟩
  | _ => exact htwice.elim

theorem Connector.step (h : w.Connector) (a : Action) : (w.step a).Connector := by
  by_cases htwice : w.ClosesTwice a
  . exact (h.step_of_closesTwice htwice).1
  . exact (h.step_moves htwice).1

theorem init_connector {conf : TcpConfig} (hmode : conf.mode = .connect)
    : (init conf).Connector := by
  refine ⟨hmode, rfl, rfl, ?_, ?_, ?_⟩
  . exact List.forall_mem_nil _
  . exact List.forall_mem_nil _
  . exact fun _ => ⟨rfl, fun _ => rfl⟩

-- A fd that is closed twice is not lost.
theorem Connector.step_complete (h : w.Connector) (hall : w.connectionFds.Complete) (a : Action)
    : (w.step a).connectionFds.Complete := by
  by_cases htwice : w.ClosesTwice a
  . rw [(h.step_of_closesTwice htwice).2]
    intro fd hlt
    rcases Nat.lt_succ_iff_lt_or_eq.mp hlt with hlt | rfl
    . exact (hall fd hlt).imp_left (List.mem_append_left _)
    . exact .inl (List.mem_append_right _ List.mem_cons_self)
  . exact (h.step_moves htwice).2.complete_iff.mpr hall

theorem Connector.step_nodup_iff (h : w.Connector) (hx : w.connectionFds.Exclusive) (a : Action)
    : (w.step a).closedFds.Nodup ↔ w.closedFds.Nodup ∧ ¬w.ClosesTwice a := by
  by_cases htwice : w.ClosesTwice a
  . have hclosed : (w.step a).closedFds = w.closedFds ++ [w.nextFd, w.nextFd] :=
      congrArg Handles.closed (h.step_of_closesTwice htwice).2
    rw [hclosed]
    refine ⟨fun hnodup => ?_, fun hboth => absurd htwice hboth.2⟩
    have htail := (List.nodup_append.mp hnodup).2.1
    simp at htail
  . have hnodup := (hx.moves (h.step_moves htwice).2).nodup
    exact ⟨fun _ => ⟨hx.nodup, htwice⟩, fun _ => hnodup⟩

-- Nothing that has been closed is forgotten.
theorem Connector.closedFds_extends (h : w.Connector) (a : Action)
    : w.closedFds <+: (w.step a).closedFds := by
  by_cases htwice : w.ClosesTwice a
  . have hclosed : (w.step a).closedFds = w.closedFds ++ [w.nextFd, w.nextFd] :=
      congrArg Handles.closed (h.step_of_closesTwice htwice).2
    rw [hclosed]
    exact List.prefix_append _ _
  . exact (h.step_moves htwice).2.closed_extends

-- As long as no fd has been closed twice, none has two owners.
structure ConnectFds (w : TcpSocket) : Prop where
  connector : w.Connector
  complete : w.connectionFds.Complete
  exclusive : w.closedFds.Nodup → w.connectionFds.Exclusive

theorem ConnectFds.step_iff (h : ConnectFds w) (a : Action)
    : (w.step a).closedFds.Nodup ↔ w.closedFds.Nodup ∧ ¬w.ClosesTwice a := by
  constructor
  . intro hnodup
    have hbefore := hnodup.sublist (h.connector.closedFds_extends a).sublist
    exact (h.connector.step_nodup_iff (h.exclusive hbefore) a).mp hnodup
  . rintro ⟨hnodup, hkeeps⟩
    exact (h.connector.step_nodup_iff (h.exclusive hnodup) a).mpr ⟨hnodup, hkeeps⟩

theorem ConnectFds.step (h : ConnectFds w) (a : Action)
    : ConnectFds (w.step a) := by
  refine ⟨h.connector.step a, h.connector.step_complete h.complete a, ?_⟩
  intro hnodup
  obtain ⟨hbefore, hkeeps⟩ := (h.step_iff a).mp hnodup
  exact (h.exclusive hbefore).moves (h.connector.step_moves hkeeps).2

theorem init_connectFds {conf : TcpConfig} (hmode : conf.mode = .connect)
    : ConnectFds (init conf) := by
  refine ⟨init_connector hmode, ?_, fun _ => ⟨?_, ?_, ?_, ?_⟩⟩
  . intro fd hlt
    cases hlt
  . exact List.forall_mem_nil _
  . exact List.nodup_nil
  . intro c fd hheld
    cases hheld
  . intro c c' fd hheld
    cases hheld

-- The first `connect` is refused, the next one waits for the timer.
def connectsAgain : List Action :=
  [.openSocket {}, .processInstruction, .writeReady 0 false] ++ List.replicate 10 (.timer {})

-- `connect` fails in `open`.
example : (run (init { mode := .connect }) [.openSocket { connect := .failed }]).closedFds = [0, 0] := by
  decide +kernel

end TcpSocket

end Socket
end Ezio
