import Ezio.Socket.TcpSocket.Lemmas
import Mathlib.Data.List.Nodup

/-!
This module contains the attempts to connect that `on_timer` makes and the number of ticks between them. The counter of
a connection starts when its timer is created, an attempt does not start it again.
-/

namespace Ezio
namespace Socket
namespace TcpSocket

variable {w w' w'' : TcpSocket} {c x : Nat}

-- `cur_timer_trigger_times_`
def times (w : TcpSocket) (c : Nat) : Int :=
  (w.events c).curTimerTriggerTimes

-- `on_timer` of the connection calls `try_connect`.
def Tries (w : TcpSocket) (c : Nat) : Prop :=
  10 ≤ w.times c + 1 ∧ (w.events c).tcpState ≠ .connected

instance (w : TcpSocket) (c : Nat) : Decidable (w.Tries c) :=
  inferInstanceAs (Decidable (_ ∧ _))

-- The connections that `onEventTimers` tries to connect.
def tried (w : TcpSocket) (answers : TimerAnswers) : List Nat → List Nat
  | [] => []
  | c :: rest =>
    let w' := w.onEventTimer c answers
    (if w.Tries c then [c] else []) ++ if c ∈ w'.reqTimerSet then w'.tried answers rest else []

-- `tcp_socket::on_timer` up to the timers of the connections
def startTimers (w : TcpSocket) (answers : TimerAnswers) : TcpSocket :=
  if w.conf.mode = .listen then
    let w := w.removeClosedChans
    if w.isReopenListener then w.reopenListener answers else w
  else
    w

-- The connections that a tick tries to connect, `none` if the step is not a tick.
def tick (w : TcpSocket) : Action → Option (List Nat)
  | .timer answers =>
    if w.halt = none ∧ w.stack = [] ∧ w.timer then
      let w := w.startTimers answers
      some (if w.halt.isSome then [] else w.tried answers w.reqTimerSet)
    else
      none
  | _ => none

def ticks (w : TcpSocket) : List Action → List (List Nat)
  | [] => []
  | a :: as => (w.tick a).toList ++ (w.step a).ticks as

-- There are ten ticks from an attempt to the next one.
def Spaced (c : Nat) (ticks : List (List Nat)) : Prop :=
  ∀ i j before after, ticks[i]? = some before → ticks[j]? = some after → c ∈ before → c ∈ after → i < j → i + 10 ≤ j

-- A tick does not come to a connection with a counter that has been left at ten or more.
def Rested (c : Nat) (w : TcpSocket) (a : Action) : Prop :=
  (w.tick a).isSome → 10 ≤ w.times c → (w.events c).tcpState = .connected

instance (c : Nat) (w : TcpSocket) (a : Action) : Decidable (Rested c w a) :=
  inferInstanceAs (Decidable (_ → _))

/-! ### The counter -/

-- The counter does not count, at most it starts again or stops.
structure Rests (c : Nat) (w w' : TcpSocket) : Prop where
  times : w'.times c = w.times c ∨ w'.times c = 0 ∨ w'.times c = -1
  nodup : w.reqTimerSet.Nodup → w'.reqTimerSet.Nodup

theorem Rests.refl (c : Nat) (w : TcpSocket) : Rests c w w :=
  ⟨.inl rfl, id⟩

theorem Rests.trans (h : Rests c w w') (h' : Rests c w' w'') : Rests c w w'' := by
  refine ⟨?_, fun hnodup => h'.nodup (h.nodup hnodup)⟩
  rcases h'.times with heq | hstart
  . rw [heq]
    exact h.times
  . exact .inr hstart

theorem Rests.frame (h : Rests c w w') (hevents : w''.events = w'.events) (hset : w''.reqTimerSet = w'.reqTimerSet)
    : Rests c w w'' := by
  refine ⟨?_, ?_⟩
  . unfold TcpSocket.times
    rw [hevents]
    exact h.times
  . rw [hset]
    exact h.nodup

theorem Rests.setEvent (h : Rests c w w') {e : TcpEvent}
    (he : e.curTimerTriggerTimes = w'.times x ∨ e.curTimerTriggerTimes = 0 ∨ e.curTimerTriggerTimes = -1)
    : Rests c w (w'.setEvent x e) := by
  refine h.trans ⟨?_, id⟩
  unfold TcpSocket.times
  rw [events_setEvent, Function.update_apply]
  split
  . rename_i heq
    rw [heq]
    exact he
  . exact .inl rfl

theorem Rests.addEvent (h : Rests c w w') (t : Target) : Rests c w (w'.addEvent t) :=
  h.frame rfl rfl

theorem Rests.removeEvent (h : Rests c w w') (t : Target) : Rests c w (w'.removeEvent t) :=
  h.frame rfl rfl

theorem Rests.callback (h : Rests c w w') (e : Entry) (f : Frame) : Rests c w (w'.callback e f) :=
  h.frame rfl rfl

theorem Rests.useReleased (h : Rests c w w') (x : Nat) : Rests c w (w'.useReleased x) :=
  h.frame rfl rfl

theorem Rests.closeFd (h : Rests c w w') (fd : Option Nat) : Rests c w (w'.closeFd fd) := by
  cases fd with
  | none => exact h
  | some fd => exact h.frame rfl rfl

theorem Rests.getTcpSocketFd (h : Rests c w w') (ok : Bool) : Rests c w (w'.getTcpSocketFd ok).1 := by
  cases ok with
  | false => exact h
  | true => exact h.frame rfl rfl

theorem Rests.regTimerReq (h : Rests c w w') (x : Nat) : Rests c w (w'.regTimerReq x) := by
  refine h.trans ⟨.inl rfl, ?_⟩
  intro hnodup
  unfold TcpSocket.regTimerReq
  dsimp only
  split
  . exact hnodup
  . rename_i hnot
    rw [← List.concat_eq_append]
    exact List.Nodup.concat hnot hnodup

theorem Rests.removeTimerReq (h : Rests c w w') (x : Nat) : Rests c w (w'.removeTimerReq x) :=
  h.trans ⟨.inl rfl, fun hnodup => hnodup.erase x⟩

theorem Rests.getBufferId (h : Rests c w w') (registerRingBuffer : Bool)
    : Rests c w (w'.getBufferId registerRingBuffer).1 := by
  unfold TcpSocket.getBufferId
  split
  . split
    . exact h.frame rfl rfl
    . exact h
  . exact h.frame rfl rfl

theorem Rests.removeTcpEvent (h : Rests c w w') (x : Nat) (isCloseFd : Bool)
    : Rests c w (w'.removeTcpEvent x isCloseFd) := by
  unfold TcpSocket.removeTcpEvent
  dsimp only
  split
  . exact ((h.removeEvent _).closeFd _).setEvent (.inl (by simp [TcpSocket.times]))
  . exact (h.removeEvent _).setEvent (.inl rfl)

theorem Rests.connectFd (h : Rests c w w') (x : Nat) (result : ConnectResult)
    : Rests c w (w'.connectFd x result).1 := by
  have hlog : Rests c w (w'.addLog (.tries x)) := h.frame rfl rfl
  unfold TcpSocket.connectFd
  dsimp only
  split
  . exact h
  . split
    . exact (hlog.closeFd _).setEvent (.inl (by simp [TcpSocket.times]))
    . refine Rests.addEvent (Rests.setEvent hlog ?_) _
      exact .inl rfl
    . refine Rests.addEvent (Rests.setEvent hlog ?_) _
      exact .inl rfl

theorem Rests.tryConnect (h : Rests c w w') (x : Nat) (socket : Bool) (result : ConnectResult)
    : Rests c w (w'.tryConnect x socket result).1 := by
  unfold TcpSocket.tryConnect
  have hremove : Rests c w (if (w'.events x).fd.isSome then w'.removeTcpEvent x true else w') := by
    split
    . exact h.removeTcpEvent x true
    . exact h
  generalize (if (w'.events x).fd.isSome then w'.removeTcpEvent x true else w') = w₁ at *
  have hset := (hremove.getTcpSocketFd socket).setEvent (x := x)
    (e := { (w₁.getTcpSocketFd socket).1.events x with fd := (w₁.getTcpSocketFd socket).2 }) (.inl rfl)
  dsimp only
  split
  . exact hset.connectFd x result
  . exact hset

theorem Rests.createTimerForReconnect (h : Rests c w w') (x : Nat)
    : Rests c w (w'.createTimerForReconnect x) := by
  have hset := h.setEvent (x := x) (e := { w'.events x with curTimerTriggerTimes := 0 }) (.inr (.inl rfl))
  unfold TcpSocket.createTimerForReconnect
  dsimp only
  split
  . exact hset.regTimerReq x
  . exact hset.useReleased x

theorem Rests.closeReconnectTimer (h : Rests c w w') (x : Nat)
    : Rests c w (w'.closeReconnectTimer x) :=
  (h.setEvent (x := x) (e := { w'.events x with curTimerTriggerTimes := -1 }) (.inr (.inr rfl))).removeTimerReq x

theorem Rests.checkAndProcessTcpConnected (h : Rests c w w') (x : Nat) (established : Bool)
    : Rests c w (w'.checkAndProcessTcpConnected x established) := by
  unfold TcpSocket.checkAndProcessTcpConnected
  split
  . split
    . have hset := h.setEvent (x := x) (e := { w'.events x with tcpState := .connected }) (.inl rfl)
      have hremove := (hset.closeReconnectTimer x).removeTcpEvent x false
      refine Rests.addEvent (Rests.setEvent hremove ?_) _
      exact .inl rfl
    . exact h.useReleased x
  . have hremove := h.removeTcpEvent x true
    dsimp only
    split
    . exact hremove
    . exact hremove.createTimerForReconnect x

theorem Rests.shutdown (h : Rests c w w') (x : Nat) : Rests c w (w'.shutdown x) := by
  have hclosed : Rests c w (((w'.removeEvent (.event x)).closeFd (w'.events x).fd).closeReconnectTimer x) :=
    ((h.removeEvent (.event x)).closeFd _).closeReconnectTimer x
  have hbuf : Rests c w { ((w'.removeEvent (.event x)).closeFd (w'.events x).fd).closeReconnectTimer x with
      bufferIdList := (((w'.removeEvent (.event x)).closeFd (w'.events x).fd).closeReconnectTimer x).bufferIdList
        ++ (w'.events x).bufId.toList } := hclosed.frame rfl rfl
  refine Rests.setEvent hbuf ?_
  exact .inl rfl

theorem Rests.finishClose (h : Rests c w w') (x : Nat) : Rests c w (w'.finishClose x) := by
  have hset := h.setEvent (x := x) (e := { w'.events x with sharedData := false, evtState := .closed }) (.inl rfl)
  exact hset.frame rfl rfl

theorem Rests.closeEvent (h : Rests c w w') (x : Nat) : Rests c w (w'.closeEvent x) := by
  unfold TcpSocket.closeEvent
  split
  . exact h
  . split
    . exact (h.shutdown x).callback _ _
    . exact (h.shutdown x).finishClose x

theorem Rests.closeConnections (h : Rests c w w') (cs : List Nat) : Rests c w (w'.closeConnections cs) := by
  induction cs generalizing w' with
  | nil => exact h.frame rfl rfl
  | cons x cs ih =>
    unfold TcpSocket.closeConnections
    split
    . apply Rests.closeEvent
      exact h.frame rfl rfl
    . exact ih (h.closeEvent x)

theorem Rests.closeSocket (h : Rests c w w') : Rests c w w'.closeSocket := by
  unfold TcpSocket.closeSocket
  split
  . exact h.frame rfl rfl
  . apply Rests.closeConnections
    split
    . exact h.frame rfl rfl
    . exact h.frame rfl rfl

theorem Rests.readBlocks (h : Rests c w w') (x : Nat) (lens : List Nat) : Rests c w (w'.readBlocks x lens) := by
  cases lens with
  | nil => exact h
  | cons len rest => exact h.callback _ _

theorem Rests.onReadTcpMsg (h : Rests c w w') (x : Nat) (ret : Int) (iov : List Nat)
    : Rests c w (w'.onReadTcpMsg x ret iov) := by
  unfold TcpSocket.onReadTcpMsg
  split
  . split
    . exact h.readBlocks x _
    . split
      . exact h.callback _ _
      . split
        . exact h.callback _ _
        . exact h.closeEvent x
  . exact h.useReleased x

theorem Rests.onStarted (h : Rests c w w') (x : Nat) : Rests c w (w'.onStarted x) := by
  unfold TcpSocket.onStarted
  dsimp only
  split
  . exact h.callback _ _
  . refine Rests.setEvent h ?_
    exact .inl rfl

theorem Rests.processInstruction (h : Rests c w w') : Rests c w w'.processInstruction := by
  unfold TcpSocket.processInstruction
  split
  . exact h
  . rename_i info infos _
    have hrest : Rests c w { w' with evtHandlersCache := infos } := h.frame rfl rfl
    dsimp only
    split
    . unfold processAddInstruction
      dsimp only
      split
      . exact hrest
      . split
        . exact hrest.frame rfl rfl
        . apply Rests.onStarted
          apply Rests.setEvent
          . exact hrest.frame rfl rfl
          . exact .inl rfl
    . unfold processRemoveInstruction
      dsimp only
      split
      . split
        . exact hrest.frame rfl rfl
        . exact hrest.frame rfl rfl
      . apply Rests.setEvent
        . exact hrest.frame rfl rfl
        . exact .inl rfl

theorem Rests.removeListener (h : Rests c w w') : Rests c w w'.removeListener :=
  ((h.removeEvent .socket).closeFd w'.fd).frame rfl rfl

theorem Rests.addConnection (h : Rests c w w') (x : Nat) : Rests c w (w'.addConnection x) := by
  unfold TcpSocket.addConnection
  dsimp only
  split
  . exact h.frame rfl rfl
  . apply Rests.removeListener
    exact h.frame rfl rfl

theorem Rests.ret (h : Rests c w w') : Rests c w w'.ret := by
  unfold TcpSocket.ret
  split
  . exact h
  . rename_i f stack _
    have hpop : Rests c w { w' with stack } := h.frame rfl rfl
    dsimp only
    split
    . exact hpop.addConnection _
    . exact hpop
    . exact hpop.readBlocks _ _
    . exact hpop
    . exact hpop.closeEvent _
    . rename_i x _
      have hclose := hpop.finishClose x
      split
      . apply Rests.closeConnections
        exact hclose.frame rfl rfl
      . exact hclose
    . exact hpop

theorem Rests.newEvent (h : Rests c w w') (fd : Option Nat) : Rests c w (w'.newEvent fd).1 := by
  have hset := h.setEvent (x := w'.nextChan) (e := { fd, sharedData := true }) (.inr (.inr rfl))
  exact hset.frame rfl rfl

theorem Rests.destroyEvent (h : Rests c w w') (x : Nat) : Rests c w (w'.destroyEvent x) :=
  h.setEvent (.inr (.inr rfl))

theorem Rests.openListener (h : Rests c w w') (answers : OpenAnswers) : Rests c w (w'.openListener answers).1 := by
  unfold TcpSocket.openListener
  split
  . apply Rests.addEvent
    exact h.frame rfl rfl
  . exact h

theorem Rests.openConnector (h : Rests c w w') (answers : OpenAnswers) : Rests c w (w'.openConnector answers).1 := by
  have hnew := h.newEvent w'.fd
  have hbuf := hnew.getBufferId answers.registerRingBuffer
  unfold TcpSocket.openConnector
  dsimp only
  generalize (w'.newEvent w'.fd).2 = x
  generalize (w'.newEvent w'.fd).1.getBufferId answers.registerRingBuffer = r at hbuf
  obtain ⟨w₁, bufId⟩ := r
  dsimp only at hbuf
  cases bufId with
  | none => exact hbuf.destroyEvent x
  | some bufId =>
    have hset := hbuf.setEvent (x := x) (e := { w₁.events x with bufId := some bufId }) (.inl rfl)
    have hconnect := hset.connectFd x answers.connect
    dsimp only
    generalize (w₁.setEvent x { w₁.events x with bufId := some bufId }).connectFd x answers.connect = r at hconnect
    obtain ⟨w₂, ok⟩ := r
    cases ok with
    | true => exact hconnect.frame rfl rfl
    | false => exact hconnect.destroyEvent x

theorem Rests.openSocket (h : Rests c w w') (answers : OpenAnswers) : Rests c w (w'.openSocket answers).1 := by
  unfold TcpSocket.openSocket
  split
  . exact h
  . have hservice : Rests c w { w' with evtService := true } := h.frame rfl rfl
    dsimp only
    split
    . exact hservice
    . have hfd := hservice.getTcpSocketFd answers.socket
      generalize TcpSocket.getTcpSocketFd { w' with evtService := true } answers.socket = r at hfd
      obtain ⟨w₁, fd⟩ := r
      cases fd with
      | none => exact hfd
      | some fd =>
        have hopen : Rests c w (if w₁.conf.mode = .listen then TcpSocket.openListener { w₁ with fd := some fd } answers
            else TcpSocket.openConnector { w₁ with fd := some fd } answers).1 := by
          split
          . apply Rests.openListener
            exact hfd.frame rfl rfl
          . apply Rests.openConnector
            exact hfd.frame rfl rfl
        dsimp only
        generalize (if w₁.conf.mode = .listen then TcpSocket.openListener { w₁ with fd := some fd } answers
            else TcpSocket.openConnector { w₁ with fd := some fd } answers) = r at hopen
        obtain ⟨w₂, ok⟩ := r
        cases ok with
        | true => exact hopen.frame rfl rfl
        | false => exact (hopen.closeFd w₂.fd).frame rfl rfl

theorem Rests.onAccept (h : Rests c w w') (fd : Nat) (registerRingBuffer established : Bool)
    : Rests c w (w'.onAccept fd registerRingBuffer established) := by
  unfold TcpSocket.onAccept
  split
  . have hbuf := (h.newEvent (some fd)).getBufferId registerRingBuffer
    dsimp only
    generalize (w'.newEvent (some fd)).2 = x
    generalize (w'.newEvent (some fd)).1.getBufferId registerRingBuffer = r at hbuf
    obtain ⟨w₁, bufId⟩ := r
    dsimp only at hbuf
    cases bufId with
    | none => exact (hbuf.closeFd _).destroyEvent x
    | some bufId =>
      have hset := hbuf.setEvent (x := x) (e := { w₁.events x with bufId := some bufId }) (.inl rfl)
      dsimp only
      split
      . generalize w₁.setEvent x { w₁.events x with bufId := some bufId } = w₂ at hset
        have hread := hset.setEvent (x := x) (e := { w₂.events x with fdsEvts := [(fd, .read)] }) (.inl rfl)
        refine Rests.callback (Rests.setEvent (hread.addEvent _) ?_) _ _
        exact .inl rfl
      . exact (hset.closeFd _).destroyEvent x
  . exact h

theorem Rests.startTimers (h : Rests c w w') (answers : TimerAnswers) : Rests c w (w'.startTimers answers) := by
  unfold TcpSocket.startTimers
  split
  . have hclosed : Rests c w w'.removeClosedChans := h.frame rfl rfl
    dsimp only
    split
    . unfold reopenListener
      have hfd := hclosed.removeListener.getTcpSocketFd answers.socket
      dsimp only
      split
      . exact hfd.frame rfl rfl
      . exact hfd.frame rfl rfl
    . exact hclosed
  . exact h

/-! ### Ticks -/

-- The counter counts, or it starts again or stops.
def Counts (c : Nat) (w w' : TcpSocket) : Prop :=
  w'.times c = w.times c + 1 ∨ w'.times c = 0 ∨ w'.times c = -1

theorem onEventTimer_rests (w : TcpSocket) (c : Nat) (answers : TimerAnswers)
    : Rests c (w.setEvent c { w.events c with curTimerTriggerTimes := w.times c + 1 }) (w.onEventTimer c answers) := by
  have hset := Rests.refl c (w.setEvent c { w.events c with curTimerTriggerTimes := w.times c + 1 })
  unfold onEventTimer
  dsimp only
  split
  . exact hset
  . have htry := hset.tryConnect c answers.socket answers.connect
    split
    . exact htry.checkAndProcessTcpConnected c answers.established
    . exact htry

theorem onEventTimer_counts (w : TcpSocket) (c : Nat) (answers : TimerAnswers)
    : Counts c w (w.onEventTimer c answers) := by
  have hset : (w.setEvent c { w.events c with curTimerTriggerTimes := w.times c + 1 }).times c = w.times c + 1 := by
    unfold times
    rw [events_setEvent, Function.update_self]
  have htimes := (onEventTimer_rests w c answers).times
  rw [hset] at htimes
  exact htimes

theorem onEventTimer_of_ne (answers : TimerAnswers) (h : x ≠ c)
    : (w.onEventTimer x answers).events c = w.events c :=
  (onEventTimer_connects w x answers).other c h.symm

theorem onEventTimers_notMem (answers : TimerAnswers) {cs : List Nat} (h : c ∉ cs)
    : (w.onEventTimers answers cs).times c = w.times c ∧ c ∉ w.tried answers cs := by
  induction cs generalizing w with
  | nil => exact ⟨rfl, by simp [tried]⟩
  | cons x cs ih =>
    rw [List.mem_cons, not_or] at h
    have hevents := onEventTimer_of_ne (w := w) answers (Ne.symm h.1)
    have htimes : (w.onEventTimer x answers).times c = w.times c := by
      unfold times
      rw [hevents]
    have hhead : c ∉ if w.Tries x then [x] else [] := by
      split
      . simpa using h.1
      . simp
    unfold onEventTimers tried
    dsimp only
    rw [List.mem_append, not_or]
    split
    . obtain ⟨hrest, hnot⟩ := ih (w := w.onEventTimer x answers) h.2
      exact ⟨hrest.trans htimes, hhead, hnot⟩
    . exact ⟨htimes, hhead, by simp⟩

-- The timer of a connection runs once in a tick.
theorem onEventTimers_counts (answers : TimerAnswers) {cs : List Nat} (h : cs.Nodup)
    : (c ∈ w.tried answers cs → w.Tries c ∧ Counts c w (w.onEventTimers answers cs))
        ∧ ((w.onEventTimers answers cs).times c = w.times c ∨ Counts c w (w.onEventTimers answers cs)) := by
  induction cs generalizing w with
  | nil => exact ⟨by simp [tried], .inl rfl⟩
  | cons x cs ih =>
    rw [List.nodup_cons] at h
    by_cases hx : x = c
    . subst hx
      have hcounts := onEventTimer_counts w x answers
      have hafter : Counts x w (w.onEventTimers answers (x :: cs)) := by
        unfold onEventTimers
        dsimp only
        split
        . unfold Counts
          rw [(onEventTimers_notMem answers h.1).1]
          exact hcounts
        . exact hcounts
      refine ⟨?_, .inr hafter⟩
      intro hmem
      refine ⟨?_, hafter⟩
      unfold tried at hmem
      dsimp only at hmem
      rcases List.mem_append.mp hmem with hmem | hmem
      . split at hmem
        . assumption
        . cases hmem
      . split at hmem
        . exact absurd hmem (onEventTimers_notMem answers h.1).2
        . cases hmem
    . have hevents := onEventTimer_of_ne (w := w) answers hx
      have htimes : (w.onEventTimer x answers).times c = w.times c := by
        unfold times
        rw [hevents]
      have htries : (w.onEventTimer x answers).Tries c ↔ w.Tries c := by
        unfold Tries
        rw [htimes, hevents]
      have hhead : c ∉ if w.Tries x then [x] else [] := by
        split
        . simpa using Ne.symm hx
        . simp
      obtain ⟨htried, hrest⟩ := ih (w := w.onEventTimer x answers) h.2
      unfold Counts at htried hrest ⊢
      unfold onEventTimers tried
      dsimp only
      rw [List.mem_append, or_iff_right hhead]
      rw [htimes] at htried hrest
      split
      . rw [htries] at htried
        exact ⟨htried, hrest⟩
      . exact ⟨by simp, .inl htimes⟩

theorem onEventTimers_nodup (answers : TimerAnswers) (cs : List Nat) (h : w.reqTimerSet.Nodup)
    : (w.onEventTimers answers cs).reqTimerSet.Nodup := by
  induction cs generalizing w with
  | nil => exact h
  | cons x cs ih =>
    have hnodup := (onEventTimer_rests w x answers).nodup h
    unfold onEventTimers
    dsimp only
    split
    . exact ih hnodup
    . exact hnodup

theorem startTimers_events (w : TcpSocket) (answers : TimerAnswers)
    : (w.startTimers answers).events = w.events ∧ (w.startTimers answers).reqTimerSet = w.reqTimerSet := by
  unfold startTimers
  split
  . have hlistener : ∀ w' : TcpSocket, w'.removeListener.events = w'.events
        ∧ w'.removeListener.reqTimerSet = w'.reqTimerSet := by
      intro w'
      unfold removeListener
      cases w'.fd <;> exact ⟨rfl, rfl⟩
    dsimp only
    split
    . unfold reopenListener getTcpSocketFd
      cases answers.socket <;> cases answers.listen <;> exact hlistener w.removeClosedChans
    . exact ⟨rfl, rfl⟩
  . exact ⟨rfl, rfl⟩

theorem onTimer_eq (answers : TimerAnswers) (hhalt : w.halt = none)
    : w.onTimer answers = if (w.startTimers answers).halt.isSome then w.startTimers answers
        else (w.startTimers answers).onEventTimers answers (w.startTimers answers).reqTimerSet := by
  unfold onTimer startTimers
  split
  . rfl
  . simp [hhalt]

theorem step_timer (answers : TimerAnswers) (hhalt : w.halt = none) (hstack : w.stack = []) (htimer : w.timer = true)
    : w.step (.timer answers) = w.onTimer answers := by
  simp [step, hhalt, hstack, dispatch, htimer]

theorem step_rests {a : Action} (htick : w.tick a = none) : Rests c w (w.step a) := by
  have hrefl := Rests.refl c w
  have hsteps := w.step_steps a
  generalize w.step a = w' at hsteps ⊢
  cases hsteps with
  | idle => exact hrefl
  | openSocket _ answers => exact hrefl.openSocket answers
  | closeSocket => exact hrefl.closeSocket
  | closeTcpChannel => exact hrefl.closeEvent _
  | ret => exact hrefl.ret
  | processInstruction => exact hrefl.processInstruction
  | acceptReady => exact hrefl.frame rfl rfl
  | accept =>
    apply Rests.onAccept
    exact hrefl.frame rfl rfl
  | @readReady _ _ c =>
    obtain ⟨multishot, _, -, heq⟩ := handleReadReady_eq w c
    have hset : Rests _ w (w.setEvent c { w.events c with readReady := false, multishot }) :=
      Rests.setEvent hrefl (.inl rfl)
    rw [heq]
    exact hset.frame rfl rfl
  | writeReady =>
    apply Rests.checkAndProcessTcpConnected
    refine Rests.setEvent hrefl ?_
    exact .inl rfl
  | readTcpMsg _ _ _ ret iov => exact hrefl.onReadTcpMsg _ ret iov
  | timer hhalt hstack htimer => simp [tick, hhalt, hstack, htimer] at htick

/-! ### Runs -/

-- There is no attempt in the next `gap` ticks, and none in the nine ticks after one.
def Waits (c : Nat) : Nat → List (List Nat) → Prop
  | _, [] => True
  | gap, cs :: ticks => if c ∈ cs then gap = 0 ∧ Waits c 9 ticks else Waits c (gap - 1) ticks

theorem Waits.spaced {gap : Nat} {ticks : List (List Nat)} (h : Waits c gap ticks)
    : (∀ i cs, ticks[i]? = some cs → c ∈ cs → gap ≤ i) ∧ Spaced c ticks := by
  induction ticks generalizing gap with
  | nil => exact ⟨by simp, fun i j before after hi => by simp at hi⟩
  | cons cs ticks ih =>
    unfold Waits at h
    have hrest : ∃ gap', Waits c gap' ticks ∧ gap ≤ gap' + 1 ∧ (c ∈ cs → gap = 0 ∧ gap' = 9) := by
      split at h
      . exact ⟨9, h.2, by omega, fun _ => ⟨h.1, rfl⟩⟩
      . rename_i hnot
        exact ⟨gap - 1, h, by omega, fun hmem => absurd hmem hnot⟩
    obtain ⟨gap', hrest, hle, hhead⟩ := hrest
    obtain ⟨hfirst, hspaced⟩ := ih hrest
    constructor
    . intro i cs' hi hmem
      cases i with
      | zero =>
        rw [List.getElem?_cons_zero, Option.some.injEq] at hi
        have hzero := (hhead (hi ▸ hmem)).1
        omega
      | succ i =>
        rw [List.getElem?_cons_succ] at hi
        have := hfirst i cs' hi hmem
        omega
    . intro i j before after hi hj hbefore hafter hlt
      cases j with
      | zero => omega
      | succ j =>
        rw [List.getElem?_cons_succ] at hj
        cases i with
        | zero =>
          rw [List.getElem?_cons_zero, Option.some.injEq] at hi
          have hgap := (hhead (hi ▸ hbefore)).2
          have := hfirst j after hj hafter
          omega
        | succ i =>
          rw [List.getElem?_cons_succ] at hi
          have := hspaced i j before after hi hj hbefore hafter (by omega)
          omega

-- The counter needs at least `gap` more ticks to come to nine, or it is at ten or more.
structure Paced (c gap : Nat) (w : TcpSocket) : Prop where
  times : 10 ≤ w.times c ∨ w.times c + gap ≤ 9
  le : gap ≤ 9
  nodup : w.reqTimerSet.Nodup

theorem Paced.rests {gap : Nat} (h : Paced c gap w) (hrests : Rests c w w') : Paced c gap w' := by
  obtain ⟨htimes, hle, hnodup⟩ := h
  refine ⟨?_, hle, hrests.nodup hnodup⟩
  have := hrests.times
  omega

theorem Paced.tick {gap : Nat} (h : Paced c gap w) {a : Action} {cs : List Nat} (hrested : Rested c w a)
    (htick : w.tick a = some cs)
    : if c ∈ cs then gap = 0 ∧ Paced c 9 (w.step a) else Paced c (gap - 1) (w.step a) := by
  obtain ⟨htimes, hle, hnodup⟩ := h
  have hconnected := hrested (by rw [htick]; rfl)
  cases a with
  | timer answers =>
    simp only [TcpSocket.tick] at htick
    split at htick
    . rename_i hguard
      obtain ⟨hhalt, hstack, htimer⟩ := hguard
      obtain ⟨hevents, hset⟩ := startTimers_events w answers
      rw [step_timer answers hhalt hstack htimer, onTimer_eq answers hhalt]
      have hstart : (w.startTimers answers).times c = w.times c := by
        unfold TcpSocket.times
        rw [hevents]
      rw [← hset] at hnodup
      cases htick
      split
      . rw [if_neg (by simp)]
        exact ⟨by omega, by omega, hnodup⟩
      . obtain ⟨htried, hcounts⟩ := onEventTimers_counts (c := c) (w := w.startTimers answers) answers hnodup
        have hafter := onEventTimers_nodup answers (w.startTimers answers).reqTimerSet hnodup
        unfold Counts Tries at *
        rw [hstart, hevents] at htried
        rw [hstart] at hcounts
        split
        . rename_i hmem
          obtain ⟨⟨hten, hstate⟩, hcounts⟩ := htried hmem
          have hnine : ¬10 ≤ w.times c := fun hge => hstate (hconnected hge)
          exact ⟨by omega, by omega, by omega, hafter⟩
        . exact ⟨by omega, by omega, hafter⟩
    . cases htick
  | _ => cases htick

theorem Paced.waits {gap : Nat} (h : Paced c gap w) {as : List Action} (hrested : Along TcpSocket.step (Rested c) w as)
    : Waits c gap (w.ticks as) := by
  induction as generalizing w gap with
  | nil => trivial
  | cons a as ih =>
    obtain ⟨ha, hrested⟩ := hrested
    unfold ticks
    cases htick : w.tick a with
    | none => exact ih (h.rests (step_rests htick)) hrested
    | some cs =>
      have hstep := h.tick ha htick
      change if c ∈ cs then _ else _
      split
      . rename_i hmem
        rw [if_pos hmem] at hstep
        exact ⟨hstep.1, ih hstep.2 hrested⟩
      . rename_i hnot
        rw [if_neg hnot] at hstep
        exact ih hstep hrested

theorem init_paced (conf : TcpConfig) (c : Nat) : Paced c 0 (init conf) :=
  ⟨.inr (by simp [times, init]), by decide, List.nodup_nil⟩

theorem run_spaced (conf : TcpConfig) (c : Nat) (as : List Action) (hrested : Along step (Rested c) (init conf) as)
    : Spaced c (ticks (init conf) as) :=
  ((init_paced conf c).waits hrested).spaced.2

-- The first attempt to connect is refused, `n` ticks follow.
def refused (n : Nat) : List Action :=
  [.openSocket {}, .processInstruction, .writeReady 0 false] ++ List.replicate n (.timer {})

theorem refused_ten_spaced
    : Spaced 0 (ticks (init { mode := .connect }) (refused 10 ++ [.processInstruction, .processInstruction,
        .processInstruction, .writeReady 0 true, .timer {}])) :=
  run_spaced { mode := .connect } 0 _ (by decide +kernel)

-- The attempt of the tenth tick is in progress and is given up in the next tick.
theorem refused_eleven_not_spaced
    : ¬Spaced 0 (ticks (init { mode := .connect }) (refused 11)) := by
  have hticks : ticks (init { mode := .connect }) (refused 11) = List.replicate 9 [] ++ [[0], [0]] := by
    decide +kernel
  rw [hticks]
  intro h
  have hlt := h 9 10 [0] [0] rfl rfl (by simp) (by simp) (by decide)
  omega

end TcpSocket

end Socket
end Ezio
