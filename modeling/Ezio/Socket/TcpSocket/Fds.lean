import Ezio.Lib.Handles
import Ezio.Socket.TcpSocket.Owned

/-!
This module contains the fds of a listening `tcp_socket`: the socket owns the fd that it listens with, and a
connection owns the fd that it has been accepted with.
-/

namespace Ezio
namespace Socket
namespace TcpSocket

variable {w w' : TcpSocket} {c : Nat}

def handles (w : TcpSocket) : Handles Target where
  held
    | .socket => w.fd
    | .event c => (w.events c).fd
  next := w.nextFd
  closed := w.closedFds

theorem handles_ext {h : Handles Target} (hheld : ∀ t, w.handles.held t = h.held t) (hnext : w.nextFd = h.next)
    (hclosed : w.closedFds = h.closed)
    : w.handles = h := by
  obtain ⟨held, next, closed⟩ := h
  simp only [handles, Handles.mk.injEq]
  exact ⟨funext hheld, hnext, hclosed⟩

theorem handles_setEvent {e : TcpEvent} (hfd : e.fd = (w.events c).fd)
    : (w.setEvent c e).handles = w.handles := by
  refine handles_ext ?_ rfl rfl
  intro t
  cases t with
  | socket => rfl
  | event x =>
    change (Function.update w.events c e x).fd = (w.events x).fd
    by_cases hx : x = c
    . rw [hx, Function.update_self]
      exact hfd
    . rw [Function.update_of_ne hx]

-- The owner `t` closes its fd.
theorem handles_release {t : Target} (ht : w'.handles.held t = none)
    (hother : ∀ t', t' ≠ t → w'.handles.held t' = w.handles.held t') (hnext : w'.nextFd = w.nextFd)
    (hclosed : w'.closedFds = w.closedFds ++ (w.handles.held t).toList)
    : w'.handles = w.handles.release t := by
  refine handles_ext ?_ hnext hclosed
  intro t'
  by_cases ht' : t' = t
  . rw [ht', ht, Handles.release_held_self]
  . rw [hother t' ht', Handles.release_held_of_ne ht']

-- The owner `t` gets the next fd.
theorem handles_acquire {t : Target} (ht : w'.handles.held t = some w.nextFd)
    (hother : ∀ t', t' ≠ t → w'.handles.held t' = w.handles.held t') (hnext : w'.nextFd = w.nextFd + 1)
    (hclosed : w'.closedFds = w.closedFds)
    : w'.handles = w.handles.acquire t := by
  refine handles_ext ?_ hnext hclosed
  intro t'
  by_cases ht' : t' = t
  . rw [ht', ht, Handles.acquire_held_self]
    rfl
  . rw [hother t' ht', Handles.acquire_held_of_ne ht']

-- The listener is opened, no connection is touched.
theorem handles_acquire_socket (hfd : w'.fd = some w.nextFd) (hevents : w'.events = w.events)
    (hnext : w'.nextFd = w.nextFd + 1) (hclosed : w'.closedFds = w.closedFds)
    : w'.handles = w.handles.acquire .socket := by
  refine handles_acquire hfd ?_ hnext hclosed
  intro t ht
  cases t with
  | socket => exact absurd rfl ht
  | event x => exact congrArg (fun e => (e x).fd) hevents

theorem handles_release_socket (hfd : w'.fd = none) (hevents : w'.events = w.events) (hnext : w'.nextFd = w.nextFd)
    (hclosed : w'.closedFds = w.closedFds ++ w.fd.toList)
    : w'.handles = w.handles.release .socket := by
  refine handles_release hfd ?_ hnext hclosed
  intro t ht
  cases t with
  | socket => exact absurd rfl ht
  | event x => exact congrArg (fun e => (e x).fd) hevents

theorem shutdown_handles (w : TcpSocket) (c : Nat)
    : (w.shutdown c).handles = w.handles.release (.event c) := by
  obtain ⟨hnone, hother⟩ := shutdown_fd w c
  refine handles_release hnone ?_ ?_ ?_
  . intro t ht
    cases t with
    | socket =>
      have := congrArg TcpSocket.fd (shutdown_core w c)
      exact this
    | event x => exact congrArg TcpEvent.fd (hother x fun hx => ht (by rw [hx]))
  all_goals cases hfd : (w.events c).fd <;> simp [shutdown, hfd, handles, closeFd, closeReconnectTimer, removeTimerReq,
    setEvent, removeEvent, addInstruction]

theorem closeEvent_moves (w : TcpSocket) (c : Nat)
    : w.handles.Moves (w.closeEvent c).handles := by
  have hshutdown : w.handles.Moves (w.shutdown c).handles := by
    rw [shutdown_handles]
    exact .release .refl
  unfold closeEvent
  split
  . exact .refl
  . split
    . exact hshutdown
    . have hfinish : ((w.shutdown c).finishClose c).handles = (w.shutdown c).handles :=
        handles_setEvent (w := w.shutdown c) rfl
      rw [hfinish]
      exact hshutdown

theorem closeConnections_moves (w : TcpSocket) (cs : List Nat)
    : w.handles.Moves (w.closeConnections cs).handles := by
  induction cs generalizing w with
  | nil => exact .refl
  | cons c cs ih =>
    unfold closeConnections
    split
    . exact closeEvent_moves { w with stack := .closeAll cs :: w.stack } c
    . exact (closeEvent_moves w c).trans (ih _)

theorem closeSocket_moves (w : TcpSocket)
    : w.handles.Moves w.closeSocket.handles := by
  unfold closeSocket
  split
  . exact .refl
  . have hhandles : handles { if w.evtService then w.removeEvent .socket else w with fdsEvts := [], timer := false }
        = w.handles := by
      split <;> rfl
    dsimp only
    rw [← hhandles]
    exact closeConnections_moves _ _

theorem readBlocks_handles (w : TcpSocket) (c : Nat) (lens : List Nat)
    : (w.readBlocks c lens).handles = w.handles := by
  cases lens <;> rfl

theorem onReadTcpMsg_moves (w : TcpSocket) (c : Nat) (ret : Int) (iov : List Nat)
    : w.handles.Moves (w.onReadTcpMsg c ret iov).handles := by
  unfold onReadTcpMsg
  split
  . split
    . rw [readBlocks_handles]
      exact .refl
    . split
      . exact .refl
      . split
        . exact .refl
        . exact closeEvent_moves w c
  . exact .refl

theorem onStarted_handles (w : TcpSocket) (c : Nat)
    : (w.onStarted c).handles = w.handles := by
  unfold onStarted
  dsimp only
  split
  . rfl
  . exact handles_setEvent rfl

theorem processInstruction_handles (w : TcpSocket)
    : w.processInstruction.handles = w.handles := by
  unfold processInstruction
  split
  . rfl
  . rename_i info infos _
    dsimp only
    split
    . unfold processAddInstruction
      dsimp only
      split
      . rfl
      . split
        . rfl
        . rw [onStarted_handles]
          exact handles_setEvent (w := { w with
            evtHandlersCache := infos
            evtHandlers := w.evtHandlers ++ [info.evtPtr] }) rfl
    . unfold processRemoveInstruction
      dsimp only
      split
      . split <;> rfl
      . exact handles_setEvent (w := { w with
          evtHandlersCache := infos
          evtHandlers := w.evtHandlers.erase info.evtPtr }) rfl

theorem removeListener_handles (w : TcpSocket)
    : w.removeListener.handles = w.handles.release .socket := by
  apply handles_release_socket
  all_goals cases hfd : w.fd <;> simp [removeListener, hfd, closeFd, removeEvent, addInstruction]

theorem addConnection_moves (w : TcpSocket) (c : Nat)
    : w.handles.Moves (w.addConnection c).handles := by
  unfold addConnection
  dsimp only
  split
  . exact .refl
  . rw [removeListener_handles]
    exact .release .refl

theorem ret_moves (w : TcpSocket)
    : w.handles.Moves w.ret.handles := by
  unfold ret
  split
  . exact .refl
  . rename_i f stack _
    have hfinish : ∀ c, (finishClose { w with stack } c).handles = w.handles :=
      fun c => handles_setEvent (w := { w with stack }) rfl
    cases f with
    | accepted c => exact addConnection_moves { w with stack } c
    | data c rest =>
      dsimp only
      rw [readBlocks_handles]
      exact .refl
    | error c => exact closeEvent_moves { w with stack } c
    | closing c =>
      dsimp only
      split
      . rename_i rest stack' _
        rw [← hfinish c]
        exact closeConnections_moves { finishClose { w with stack } c with stack := stack' } rest
      . rw [hfinish]
        exact .refl
    | _ => exact .refl

theorem reopenListener_moves (w : TcpSocket) (answers : TimerAnswers)
    : w.handles.Moves (w.reopenListener answers).handles := by
  have hremove : w.handles.Moves w.removeListener.handles := by
    rw [removeListener_handles]
    exact .release .refl
  have hnone : w.removeListener.fd = none := rfl
  unfold reopenListener
  generalize w.removeListener = w₁ at *
  cases answers.socket with
  | false =>
    have hsame : handles { w₁ with fd := none, halt := some .exited } = w₁.handles := by
      refine handles_ext ?_ rfl rfl
      intro t
      cases t with
      | socket => exact hnone.symm
      | event c => rfl
    exact hsame ▸ hremove
  | true =>
    have hacquire : ∀ w₂ : TcpSocket, w₂.fd = some w₁.nextFd → w₂.events = w₁.events → w₂.nextFd = w₁.nextFd + 1
        → w₂.closedFds = w₁.closedFds → w.handles.Moves w₂.handles := by
      intro w₂ hfd hevents hnext hclosed
      rw [handles_acquire_socket hfd hevents hnext hclosed]
      exact .acquire hremove hnone
    cases answers.listen with
    | false => exact hacquire _ rfl rfl rfl rfl
    | true => exact hacquire _ rfl rfl rfl rfl

theorem Owned.onTimer_moves (h : w.Owned) (hs : w.evtService = true) (answers : TimerAnswers)
    : w.handles.Moves (w.onTimer answers).handles := by
  have h₁ := h.removeClosedChans
  have hs₁ : w.removeClosedChans.evtService = true := hs
  have hhandles : w.removeClosedChans.handles = w.handles := rfl
  unfold TcpSocket.onTimer
  rw [if_pos h.listens, ← hhandles]
  generalize w.removeClosedChans = w₁ at *
  have h₂ : Owned (if w₁.isReopenListener then w₁.reopenListener answers else w₁) := by
    split
    . exact h₁.reopenListener hs₁ answers
    . exact h₁
  have hmoves : w₁.handles.Moves (if w₁.isReopenListener then w₁.reopenListener answers else w₁).handles := by
    split
    . exact reopenListener_moves w₁ answers
    . exact .refl
  dsimp only
  generalize (if w₁.isReopenListener then w₁.reopenListener answers else w₁) = w₂ at *
  split
  . exact hmoves
  . rw [h₂.timers]
    exact hmoves

theorem Owned.openSocket_moves (h : w.Owned) (answers : OpenAnswers)
    : w.handles.Moves (w.openSocket answers).1.handles := by
  unfold TcpSocket.openSocket
  split
  . exact .refl
  . rename_i hopen
    have hfd : w.fd = none := by
      simp only [not_or, Bool.not_eq_true] at hopen
      exact (h.idle hopen.1).2.1
    have hacquire : ∀ w₁ : TcpSocket, w₁.fd = some w.nextFd → w₁.events = w.events → w₁.nextFd = w.nextFd + 1
        → w₁.closedFds = w.closedFds → w.handles.Moves w₁.handles := by
      intro w₁ hfd₁ hevents hnext hclosed
      rw [handles_acquire_socket hfd₁ hevents hnext hclosed]
      exact .acquire .refl hfd
    dsimp only
    split
    . exact .refl
    . cases answers.socket with
      | false => exact .refl
      | true =>
        simp only [getTcpSocketFd, if_true, h.listens, openListener]
        cases answers.listen with
        | false =>
          have h₁ := hacquire { w with evtService := true, fd := some w.nextFd, nextFd := w.nextFd + 1 } rfl rfl rfl rfl
          have hclose : handles { w with
              evtService := true
              fd := none
              nextFd := w.nextFd + 1
              closedFds := w.closedFds ++ [w.nextFd] }
              = (handles { w with evtService := true, fd := some w.nextFd, nextFd := w.nextFd + 1 }).release .socket :=
            handles_release_socket rfl rfl rfl rfl
          exact hclose ▸ h₁.release
        | true => exact hacquire _ rfl rfl rfl rfl

-- `accept` has returned a fd after the limit has been reached.
def DropsFd (w : TcpSocket) : Action → Prop
  | .accept _ _ => w.halt = none ∧ w.stack = [] ∧ w.accepting ∧ !w.isEnabled
  | _ => False

instance DropsFd.decidable (w : TcpSocket) : (a : Action) → Decidable (w.DropsFd a)
  | .accept _ _ => inferInstanceAs (Decidable (_ ∧ _ ∧ _ ∧ _))
  | .openSocket _ | .closeSocket | .closeTcpChannel _ | .ret | .processInstruction | .acceptReady | .readReady _
  | .writeReady _ _ | .readTcpMsg _ _ _ | .timer _ => inferInstanceAs (Decidable False)

theorem Owned.onAccept_moves (h : w.Owned) (henabled : w.isEnabled = true) (registerRingBuffer established : Bool)
    : w.handles.Moves
        (TcpSocket.onAccept { w with nextFd := w.nextFd + 1 } w.nextFd registerRingBuffer established).handles := by
  have hnone : w.handles.held (.event w.nextChan) = none := (h.fresh _ (Nat.le_refl _)).2.2
  have hacquire : ∀ w₁ : TcpSocket, w₁.fd = w.fd → (w₁.events w.nextChan).fd = some w.nextFd
      → (∀ x, x ≠ w.nextChan → (w₁.events x).fd = (w.events x).fd) → w₁.nextFd = w.nextFd + 1
      → w₁.closedFds = w.closedFds → w.handles.Moves w₁.handles := by
    intro w₁ hfd hnew hother hnext hclosed
    have heq : w₁.handles = w.handles.acquire (.event w.nextChan) := by
      refine handles_acquire hnew ?_ hnext hclosed
      intro t ht
      cases t with
      | socket => exact hfd
      | event x => exact hother x fun hx => ht (by rw [hx])
    rw [heq]
    exact .acquire .refl hnone
  -- `tcp_event::open` fails, the fd is closed
  have hgiven : ∀ w₁ : TcpSocket, w₁.fd = w.fd → (w₁.events w.nextChan).fd = some w.nextFd
      → (∀ x, x ≠ w.nextChan → (w₁.events x).fd = (w.events x).fd) → w₁.nextFd = w.nextFd + 1
      → w₁.closedFds = w.closedFds
      → w.handles.Moves ((w₁.closeFd (some w.nextFd)).destroyEvent w.nextChan).handles := by
    intro w₁ hfd hnew hother hnext hclosed
    have heq : ((w₁.closeFd (some w.nextFd)).destroyEvent w.nextChan).handles
        = w₁.handles.release (.event w.nextChan) := by
      refine handles_release ?_ ?_ rfl ?_
      . change (Function.update w₁.events w.nextChan {} w.nextChan).fd = none
        rw [Function.update_self]
      . intro t ht
        cases t with
        | socket => rfl
        | event x =>
          change (Function.update w₁.events w.nextChan {} x).fd = (w₁.events x).fd
          rw [Function.update_of_ne fun hx => ht (by rw [hx])]
      . change w₁.closedFds ++ [w.nextFd] = w₁.closedFds ++ (w₁.events w.nextChan).fd.toList
        rw [hnew]
        rfl
    rw [heq]
    exact (hacquire w₁ hfd hnew hother hnext hclosed).release
  have hbuf : ∀ {w₁ bufId}, (TcpSocket.newEvent { w with nextFd := w.nextFd + 1 } (some w.nextFd)).1.getBufferId
      registerRingBuffer = (w₁, bufId) → w₁.fd = w.fd
        ∧ w₁.events = Function.update w.events w.nextChan { fd := some w.nextFd, sharedData := true }
        ∧ w₁.nextFd = w.nextFd + 1 ∧ w₁.closedFds = w.closedFds := by
    intro w₁ bufId hget
    have heq := getBufferId_eq hget
    exact ⟨(congrArg TcpSocket.fd heq :), (congrArg TcpSocket.events heq :), (congrArg TcpSocket.nextFd heq :),
      (congrArg TcpSocket.closedFds heq :)⟩
  unfold TcpSocket.onAccept
  rw [if_pos henabled]
  dsimp only
  split
  . rename_i w₁ hget
    obtain ⟨hfd, hevents, hnext, hclosed⟩ := hbuf hget
    apply hgiven w₁ hfd _ _ hnext hclosed
    . rw [hevents, Function.update_self]
    . intro x hx
      rw [hevents, Function.update_of_ne hx]
  . rename_i w₁ bufId hget
    obtain ⟨hfd, hevents, hnext, hclosed⟩ := hbuf hget
    split
    . apply hacquire
      . simp only [TcpSocket.callback, TcpSocket.addLog, TcpSocket.addEvent, TcpSocket.addInstruction,
          TcpSocket.setEvent, hfd]
      . simp [newEvent, hevents]
      . intro x hx
        simp [newEvent, hevents, Function.update_of_ne hx]
      . simp only [TcpSocket.callback, TcpSocket.addLog, TcpSocket.addEvent, TcpSocket.addInstruction,
          TcpSocket.setEvent, hnext]
      . simp only [TcpSocket.callback, TcpSocket.addLog, TcpSocket.addEvent, TcpSocket.addInstruction,
          TcpSocket.setEvent, hclosed]
    . apply hgiven
      . exact hfd
      . simp [newEvent, hevents]
      . intro x hx
        simp [newEvent, hevents, Function.update_of_ne hx]
      . exact hnext
      . exact hclosed

-- Every fd that a step creates gets an owner, unless it is dropped.
theorem Owned.step_moves (h : w.Owned) {a : Action} (hkeeps : ¬w.DropsFd a)
    : w.handles.Moves (w.step a).handles := by
  have hsteps := w.step_steps a
  generalize w.step a = w' at hsteps ⊢
  cases hsteps with
  | idle => exact .refl
  | openSocket _ answers => exact h.openSocket_moves answers
  | closeSocket => exact closeSocket_moves w
  | closeTcpChannel => exact closeEvent_moves w _
  | ret => exact ret_moves w
  | processInstruction =>
    rw [processInstruction_handles]
    exact .refl
  | acceptReady => exact .refl
  | accept hhalt hstack haccepting =>
    apply h.onAccept_moves
    by_contra henabled
    exact hkeeps ⟨hhalt, hstack, haccepting, by simpa using henabled⟩
  | @readReady _ _ c =>
    obtain ⟨multishot, _, -, heq⟩ := handleReadReady_eq w c
    have hsame : (w.setEvent c { w.events c with readReady := false, multishot }).handles = w.handles :=
      handles_setEvent rfl
    rw [heq]
    exact hsame ▸ .refl
  | @writeReady _ _ c hready => exact absurd (h.events c).write hready
  | readTcpMsg _ _ _ ret iov => exact onReadTcpMsg_moves w _ ret iov
  | timer _ _ htimer answers =>
    have hs : w.evtService = true := by
      cases hs : w.evtService with
      | true => rfl
      | false => cases htimer.symm.trans (h.idle hs).2.2.2.2.2
    exact h.onTimer_moves hs answers

-- The fd that `accept` has returned is forgotten.
theorem step_of_dropsFd {a : Action} (hdrops : w.DropsFd a)
    : (w.step a).handles = w.handles.lose := by
  cases a with
  | accept registerRingBuffer established =>
    obtain ⟨hrun, hstack, haccepting, hdisabled⟩ := hdrops
    have hdisabled' : w.isEnabled = false := by simpa using hdisabled
    simp [step, hrun, hstack, dispatch, haccepting, onAccept, hdisabled', handles, Handles.lose]
  | _ => exact hdrops.elim

theorem Owned.step_exclusive (h : w.Owned) (hx : w.handles.Exclusive) (a : Action)
    : (w.step a).handles.Exclusive := by
  by_cases hdrops : w.DropsFd a
  . rw [step_of_dropsFd hdrops]
    exact hx.lose
  . exact hx.moves (h.step_moves hdrops)

theorem Owned.step_complete_iff (h : w.Owned) (hx : w.handles.Exclusive) (a : Action)
    : (w.step a).handles.Complete ↔ w.handles.Complete ∧ ¬w.DropsFd a := by
  by_cases hdrops : w.DropsFd a
  . rw [step_of_dropsFd hdrops]
    exact ⟨fun hall => absurd hall hx.not_complete_lose, fun hboth => absurd hdrops hboth.2⟩
  . rw [(h.step_moves hdrops).complete_iff]
    exact (and_iff_left hdrops).symm

theorem run_exclusive {conf : TcpConfig} (hmode : conf.mode = .listen) (as : List Action)
    : (run (init conf) as).Owned ∧ (run (init conf) as).handles.Exclusive := by
  refine foldl_invariant (I := fun w : TcpSocket => w.Owned ∧ w.handles.Exclusive) as ?_ ?_
  . intro w a _ hw
    exact ⟨hw.1.step a, hw.1.step_exclusive hw.2 a⟩
  . refine ⟨init_owned hmode, ?_, ?_, ?_, ?_⟩
    . exact List.forall_mem_nil _
    . exact List.nodup_nil
    . intro t x hheld
      cases t <;> cases hheld
    . intro t t' x hheld
      cases t <;> cases hheld

theorem run_complete_iff {conf : TcpConfig} (hmode : conf.mode = .listen) (as : List Action)
    : (run (init conf) as).handles.Complete ↔ Along step (fun w a => ¬w.DropsFd a) (init conf) as := by
  have hiff : (run (init conf) as).handles.Complete
      ↔ (init conf).handles.Complete ∧ Along step (fun w a => ¬w.DropsFd a) (init conf) as := by
    refine Along.foldl_iff_and (I := fun w : TcpSocket => w.Owned ∧ w.handles.Exclusive)
      (Q := fun w : TcpSocket => w.handles.Complete) as ?_ ?_
      (run_exclusive hmode [])
    . exact fun w a hw => hw.1.step_complete_iff hw.2 a
    . exact fun w a hw => ⟨hw.1.step a, hw.1.step_exclusive hw.2 a⟩
  refine hiff.trans (and_iff_right ?_)
  intro x hlt
  cases hlt

-- Two connections are accepted, the limit is one.
def acceptsTwo : List Action :=
  [.openSocket {}, .processInstruction, .acceptReady, .accept true true, .ret, .accept true true]

-- On io_uring connections are still accepted when the event of the listener has been removed.
example :
    let w := run (init { pollType := .ioUring, maxConnectCnt := 1 })
      [.openSocket {}, .processInstruction, .acceptReady, .accept true true, .ret, .processInstruction,
        .processInstruction]
    w.evtHandlersCache = [] ∧ w.DropsFd (.accept true true) := by
  decide +kernel

/-! ### `tcp_socket::close` -/

-- `close` has been called with the listener `fd` and the frames `lower`, and has not returned.
structure Closing (fd : Option Nat) (lower : List Frame) (w : TcpSocket) : Prop where
  fd : w.fd = fd
  stack : ∃ c, ∃ cs : List Nat, ∃ rest, w.stack = .closing c :: cs.map .closing ++ .closeAll rest :: lower

structure Returned (fd : Option Nat) (lower : List Frame) (w : TcpSocket) : Prop where
  fd : w.fd = fd
  stack : w.stack = lower
  chans : w.chanIdToConnections = []

theorem closeEvent_fd (w : TcpSocket) (c : Nat)
    : (w.closeEvent c).fd = w.fd := by
  have hshutdown : (w.shutdown c).fd = w.fd := by
    have := congrArg TcpSocket.fd (shutdown_core w c)
    exact this
  unfold closeEvent
  split
  . rfl
  . split
    . exact hshutdown
    . exact hshutdown

theorem closeConnections_closing (w : TcpSocket) (cs : List Nat)
    : Closing w.fd w.stack (w.closeConnections cs) ∨ Returned w.fd w.stack (w.closeConnections cs) := by
  induction cs generalizing w with
  | nil => exact .inr ⟨rfl, rfl, rfl⟩
  | cons c cs ih =>
    unfold closeConnections
    split
    . rename_i hconnected
      rw [closeEvent_connected hconnected]
      refine .inl ⟨?_, c, [], cs, rfl⟩
      have := congrArg TcpSocket.fd (shutdown_core w c)
      exact this
    . rename_i hconnected
      have hrest := ih (w.closeEvent c)
      rw [closeEvent_fd, closeEvent_stack hconnected] at hrest
      exact hrest

variable {fd : Option Nat} {lower : List Frame}

theorem Closing.ret (h : Closing fd lower w)
    : Closing fd lower w.ret ∨ Returned fd lower w.ret := by
  obtain ⟨c, cs, rest, hstack⟩ := h.stack
  unfold TcpSocket.ret
  rw [hstack]
  cases cs with
  | nil =>
    have hloop := closeConnections_closing
      { finishClose { w with stack := .closeAll rest :: lower } c with stack := lower } rest
    rw [← h.fd]
    exact hloop
  | cons c' cs => exact .inl ⟨h.fd, c', cs, rest, rfl⟩

-- Only the callbacks that `close` calls can run.
theorem Closing.step (h : Closing fd lower w) (hs : w.evtService = true) (a : Action)
    : Closing fd lower (w.step a) ∨ Returned fd lower (w.step a) := by
  obtain ⟨c, cs, rest, hstack⟩ := h.stack
  have hne : w.stack ≠ [] := by
    rw [hstack]
    exact List.cons_ne_nil _ _
  unfold TcpSocket.step
  split
  . exact .inl h
  . cases a with
    | openSocket answers =>
      dsimp only
      unfold openSocket
      rw [if_pos (.inl hs)]
      exact .inl h
    | closeSocket =>
      dsimp only
      unfold closeSocket
      rw [if_pos (by simp [hstack, Frame.isCloseAll])]
      exact .inl ⟨h.fd, c, cs, rest, hstack⟩
    | closeTcpChannel x =>
      dsimp only [closeTcpChannel]
      split
      . obtain ⟨-, hsame | hpush⟩ := closeEvent_limits w x
        . exact .inl ⟨(closeEvent_fd w x).trans h.fd, c, cs, rest, hsame.trans hstack⟩
        . refine .inl ⟨(closeEvent_fd w x).trans h.fd, x, c :: cs, rest, ?_⟩
          rw [hpush, hstack]
          rfl
      . exact .inl h
    | ret => exact h.ret
    | _ => exact .inl h

theorem run_of_halt (hhalt : w.halt.isSome) (as : List Action)
    : run w as = w := by
  induction as with
  | nil => rfl
  | cons a as ih =>
    have hstep : w.step a = w := by
      unfold step
      rw [if_pos hhalt]
    change run (w.step a) as = w
    rw [hstep]
    exact ih

-- `close` is called in `w` and returns after `bs`.
structure CloseReturns (w : TcpSocket) (bs : List Action) : Prop where
  pending : Along step (fun w _ => w.stack.any Frame.isCloseAll) (w.step .closeSocket) bs
  returned : (run (w.step .closeSocket) bs).stack.any Frame.isCloseAll = false
  running : (run (w.step .closeSocket) bs).halt = none

theorem Owned.closeReturns (h : w.Owned) {bs : List Action} (hreturns : w.CloseReturns bs)
    : Returned w.fd w.stack (run (w.step .closeSocket) bs) := by
  have hrun : ∀ w', w'.halt.isSome → run w' bs ≠ run (w.step .closeSocket) bs := by
    intro w' hhalt heq
    have hnone := hreturns.running
    rw [← heq, run_of_halt hhalt bs] at hnone
    rw [hnone] at hhalt
    cases hhalt
  have hhalt : ¬w.halt.isSome := by
    intro hhalt
    apply hrun w hhalt
    unfold TcpSocket.step
    rw [if_pos hhalt]
  have hlower : w.stack.any Frame.isCloseAll = false := by
    by_contra hmem
    apply hrun (w.step .closeSocket) _ rfl
    unfold TcpSocket.step
    rw [if_neg hhalt]
    unfold TcpSocket.closeSocket
    dsimp only
    rw [if_pos (by simpa using hmem)]
    rfl
  have hstart : Closing w.fd w.stack (w.step .closeSocket) ∨ Returned w.fd w.stack (w.step .closeSocket) := by
    unfold TcpSocket.step
    rw [if_neg hhalt]
    unfold TcpSocket.closeSocket
    dsimp only
    rw [if_neg (by simp [hlower])]
    have hloop := closeConnections_closing
      { if w.evtService then w.removeEvent .socket else w with fdsEvts := [], timer := false } w.chanIdToConnections
    split at hloop
    . rw [if_pos ‹_›]
      exact hloop
    . rw [if_neg ‹_›]
      exact hloop
  have hgo : ∀ w', w'.Owned → Closing w.fd w.stack w' ∨ Returned w.fd w.stack w'
      → Along TcpSocket.step (fun w _ => w.stack.any Frame.isCloseAll) w' bs
        → (run w' bs).stack.any Frame.isCloseAll = false
      → Returned w.fd w.stack (run w' bs) := by
    clear hreturns hrun hstart
    induction bs with
    | nil =>
      rintro w' - (hclosing | hreturned) - hnone
      . obtain ⟨c, cs, rest, hstack⟩ := hclosing.stack
        change w'.stack.any Frame.isCloseAll = false at hnone
        simp [hstack, Frame.isCloseAll] at hnone
      . exact hreturned
    | cons a bs ih =>
      rintro w' h' hphase ⟨hpending, halong⟩ hnone
      have hclosing : Closing w.fd w.stack w' := by
        refine hphase.resolve_right fun hreturned => ?_
        rw [hreturned.stack, hlower] at hpending
        cases hpending
      obtain ⟨c, cs, rest, hstack⟩ := hclosing.stack
      have hs : w'.evtService = true :=
        h'.opened (h'.frames (.closing c) (by rw [hstack]; exact List.mem_cons_self) c rfl)
      exact ih (w'.step a) (h'.step a) (hclosing.step hs a) halong hnone
  exact hgo _ (h.step _) hstart hreturns.pending hreturns.returned

-- No fd is left open, and none has been closed twice.
def FdsClosed (w : TcpSocket) : Prop :=
  ∀ fd < w.nextFd, w.closedFds.count fd = 1

-- The limit of one connection is reached, the connection is closed by `close`.
def closedAtLimit : List Action :=
  [.openSocket {}, .processInstruction, .acceptReady, .accept true true, .ret]

end TcpSocket

end Socket
end Ezio
