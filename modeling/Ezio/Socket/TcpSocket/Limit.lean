import Ezio.Socket.TcpSocket.Lemmas

/-!
This module contains the limit of the connections of a listening `tcp_socket`.
-/

namespace Ezio
namespace Socket

def Frame.isAccepted : Frame → Bool
  | accepted _ => true
  | _ => false

namespace TcpSocket

variable {w w' : TcpSocket} {c : Nat}

-- What the limit depends on.
def limits (w : TcpSocket) : TcpConfig × List Nat × Bool × UInt32 :=
  (w.conf, w.chanIdToConnections, w.isEnabled, w.connectCnt)

@[simp]
theorem limits_setEvent (w : TcpSocket) (c : Nat) (e : TcpEvent) : (w.setEvent c e).limits = w.limits := rfl

@[simp]
theorem limits_addEvent (w : TcpSocket) (t : Target) : (w.addEvent t).limits = w.limits := rfl

@[simp]
theorem limits_callback (w : TcpSocket) (e : Entry) (f : Frame) : (w.callback e f).limits = w.limits := rfl

theorem Connects.limits (h : Connects c w w')
    : w'.limits = w.limits := by
  have := congrArg TcpSocket.limits h.core
  exact this

theorem Connects.stack (h : Connects c w w')
    : w'.stack = w.stack := by
  have := congrArg TcpSocket.stack h.core
  exact this

theorem shutdown_core (w : TcpSocket) (c : Nat)
    : (w.shutdown c).core = { w with bufferIdList := (w.shutdown c).bufferIdList }.core := by
  cases hfd : (w.events c).fd <;> simp [shutdown, core, closeFd, hfd, closeReconnectTimer, setEvent, removeTimerReq,
    removeEvent, addInstruction]

theorem shutdown_limits (w : TcpSocket) (c : Nat)
    : (w.shutdown c).limits = w.limits := by
  have := congrArg limits (shutdown_core w c)
  exact this

theorem shutdown_stack (w : TcpSocket) (c : Nat)
    : (w.shutdown c).stack = w.stack := by
  have := congrArg stack (shutdown_core w c)
  exact this

theorem closeEvent_limits (w : TcpSocket) (c : Nat)
    : (w.closeEvent c).limits = w.limits
      ∧ ((w.closeEvent c).stack = w.stack ∨ (w.closeEvent c).stack = .closing c :: w.stack) := by
  unfold closeEvent
  split
  . exact ⟨rfl, .inl rfl⟩
  . split
    . refine ⟨shutdown_limits w c, .inr ?_⟩
      rw [← shutdown_stack w c]
      rfl
    . exact ⟨shutdown_limits w c, .inl (shutdown_stack w c)⟩

theorem onEventTimers_limits (w : TcpSocket) (answers : TimerAnswers) (cs : List Nat)
    : (w.onEventTimers answers cs).limits = w.limits ∧ (w.onEventTimers answers cs).stack = w.stack := by
  induction cs generalizing w with
  | nil => exact ⟨rfl, rfl⟩
  | cons c cs ih =>
    have h := onEventTimer_connects w c answers
    unfold onEventTimers
    dsimp only
    split
    . obtain ⟨hlimits, hstack⟩ := ih (w.onEventTimer c answers)
      exact ⟨hlimits.trans h.limits, hstack.trans h.stack⟩
    . exact ⟨h.limits, h.stack⟩

theorem removeListener_limits (w : TcpSocket)
    : w.removeListener.limits = w.limits ∧ w.removeListener.stack = w.stack := by
  unfold removeListener
  cases w.fd <;> exact ⟨rfl, rfl⟩

structure Limited (w : TcpSocket) : Prop where
  listens : w.conf.mode = .listen
  count : w.connectCnt.toNat = w.chanIdToConnections.length
  le : w.chanIdToConnections.length ≤ w.conf.maxConnectCnt.toNat
  enabled : w.isEnabled → w.chanIdToConnections.length < w.conf.maxConnectCnt.toNat
  -- the socket has not been closed
  notClosed : ∀ f ∈ w.stack, f.isCloseAll = false
  -- a connection that is not counted yet
  accepted : ∀ f ∈ w.stack, f.isAccepted → w.isEnabled
  once : w.stack.countP Frame.isAccepted ≤ 1

theorem Limited.same (h : w.Limited) (hlimits : w'.limits = w.limits) (hstack : w'.stack = w.stack)
    : w'.Limited := by
  simp only [limits, Prod.mk.injEq] at hlimits
  obtain ⟨hconf, hmap, henabled, hcnt⟩ := hlimits
  constructor
  . rw [hconf]
    exact h.listens
  . rw [hcnt, hmap]
    exact h.count
  . rw [hconf, hmap]
    exact h.le
  . rw [hconf, hmap, henabled]
    exact h.enabled
  . rw [hstack]
    exact h.notClosed
  . rw [hstack, henabled]
    exact h.accepted
  . rw [hstack]
    exact h.once

-- A callback is called.
theorem Limited.push (h : w.Limited) {f : Frame} (hlimits : w'.limits = w.limits) (hstack : w'.stack = f :: w.stack)
    (hclose : f.isCloseAll = false) (haccepted : f.isAccepted = false)
    : w'.Limited := by
  have h' : Limited { w' with stack := w.stack } := h.same hlimits rfl
  refine ⟨h'.listens, h'.count, h'.le, h'.enabled, ?_, ?_, ?_⟩
  . rw [hstack]
    exact List.forall_mem_cons.mpr ⟨hclose, h.notClosed⟩
  . rw [hstack]
    exact List.forall_mem_cons.mpr ⟨by simp [haccepted], h'.accepted⟩
  . rw [hstack, List.countP_cons_of_neg (by simp [haccepted])]
    exact h.once

theorem Limited.pushAccepted (h : w.Limited) (henabled : w.isEnabled) (hlimits : w'.limits = w.limits)
    (hstack' : w'.stack = [.accepted c])
    : w'.Limited := by
  have h' : Limited { w' with stack := w.stack } := h.same hlimits rfl
  have henabled' : w'.isEnabled := by
    have := congrArg (fun l => l.2.2.1) hlimits
    exact this.trans henabled
  refine ⟨h'.listens, h'.count, h'.le, h'.enabled, ?_, ?_, ?_⟩
  . rw [hstack']
    simp [Frame.isCloseAll]
  . exact fun _ _ _ => henabled'
  . rw [hstack']
    exact Nat.le_refl _

theorem Limited.closeEvent (h : w.Limited) (c : Nat)
    : (w.closeEvent c).Limited := by
  obtain ⟨hlimits, hstack | hstack⟩ := closeEvent_limits w c
  . exact h.same hlimits hstack
  . exact h.push hlimits hstack rfl rfl

theorem Limited.readBlocks (h : w.Limited) (c : Nat) (lens : List Nat)
    : (w.readBlocks c lens).Limited := by
  cases lens with
  | nil => exact h
  | cons len rest => exact h.push (f := .data c rest) rfl rfl rfl rfl

theorem Limited.onReadTcpMsg (h : w.Limited) (c : Nat) (ret : Int) (iov : List Nat)
    : (w.onReadTcpMsg c ret iov).Limited := by
  unfold TcpSocket.onReadTcpMsg
  split
  . split
    . exact h.readBlocks c _
    . split
      . exact h.push (f := .eof c) rfl rfl rfl rfl
      . split
        . exact h.push (f := .error c) rfl rfl rfl rfl
        . exact h.closeEvent c
  . exact h.same rfl rfl

theorem Limited.onStarted (h : w.Limited) (c : Nat)
    : (w.onStarted c).Limited := by
  unfold TcpSocket.onStarted
  dsimp only
  split
  . exact h.push (f := .started c) rfl rfl rfl rfl
  . exact h.same rfl rfl

theorem Limited.processInstruction (h : w.Limited)
    : w.processInstruction.Limited := by
  unfold TcpSocket.processInstruction
  split
  . exact h
  . dsimp only
    split
    . unfold processAddInstruction
      dsimp only
      split
      . exact h.same rfl rfl
      . split
        . exact h.same rfl rfl
        . apply Limited.onStarted
          exact h.same rfl rfl
    . unfold processRemoveInstruction
      dsimp only
      repeat' split
      all_goals exact h.same rfl rfl

theorem getBufferId_limits (w : TcpSocket) (registerRingBuffer : Bool)
    : (w.getBufferId registerRingBuffer).1.limits = w.limits
      ∧ (w.getBufferId registerRingBuffer).1.stack = w.stack := by
  unfold getBufferId
  repeat' split
  all_goals exact ⟨rfl, rfl⟩

-- A connection is accepted when no callback is running.
theorem Limited.onAccept (h : w.Limited) (hstack : w.stack = []) (fd : Nat) (registerRingBuffer established : Bool)
    : (w.onAccept fd registerRingBuffer established).Limited := by
  unfold TcpSocket.onAccept
  split
  . rename_i henabled
    have hbuf := getBufferId_limits (w.newEvent (some fd)).1 registerRingBuffer
    dsimp only
    split
    . rename_i w₁ heq
      rw [heq] at hbuf
      exact h.same hbuf.1 hbuf.2
    . rename_i w₁ bufId heq
      rw [heq] at hbuf
      have h₁ : w₁.Limited := h.same hbuf.1 hbuf.2
      have hstack₁ : w₁.stack = [] := hbuf.2.trans hstack
      split
      . apply h.pushAccepted (c := (w.newEvent (some fd)).2) henabled
        . simp only [limits_callback, limits_setEvent, limits_addEvent]
          exact hbuf.1
        . rw [← hstack₁]
          rfl
      . exact h₁.same rfl rfl
  . exact h

-- The connection is counted when its callback has returned.
theorem Limited.addConnection (h : w.Limited) {stack : List Frame} (hstack : w.stack = .accepted c :: stack)
    : (addConnection { w with stack } c).Limited := by
  have henabled : w.isEnabled := h.accepted _ (by rw [hstack]; exact List.mem_cons_self) rfl
  have hlt := h.enabled henabled
  have hcount := h.count
  have hmax := w.conf.maxConnectCnt.toNat_lt
  have hcnt : (w.connectCnt + 1).toNat = w.connectCnt.toNat + 1 := by
    rw [UInt32.toNat_add]
    exact Nat.mod_eq_of_lt (by simp; omega)
  have honce := h.once
  have hnotClosed := h.notClosed
  rw [hstack] at hnotClosed
  rw [hstack, List.countP_cons_of_pos (by rfl)] at honce
  have hnone : ∀ f ∈ stack, f.isAccepted = false := by
    intro f hf
    have := List.countP_eq_zero.mp (show stack.countP Frame.isAccepted = 0 by omega) f hf
    simpa using this
  have h' : w.connectCnt + 1 < w.conf.maxConnectCnt
      ↔ w.chanIdToConnections.length + 1 < w.conf.maxConnectCnt.toNat := by
    rw [UInt32.lt_iff_toNat_lt, hcnt, hcount]
  unfold TcpSocket.addConnection
  dsimp only
  split
  . rename_i hlt'
    refine ⟨h.listens, ?_, ?_, ?_, ?_, ?_, ?_⟩
    . simp [hcnt, hcount]
    . simp
      omega
    . intro _
      simpa using h'.mp hlt'
    . exact fun f hf => hnotClosed f (List.mem_cons_of_mem _ hf)
    . exact fun _ _ _ => henabled
    . simp only
      omega
  . refine Limited.same (w := { w with
        stack
        chanIdToConnections := w.chanIdToConnections ++ [c]
        connectCnt := w.connectCnt + 1
        isEnabled := false }) ?_ (removeListener_limits _).1 (removeListener_limits _).2
    refine ⟨h.listens, ?_, ?_, by simp, ?_, ?_, ?_⟩
    . simp [hcnt, hcount]
    . simp
      omega
    . exact fun f hf => hnotClosed f (List.mem_cons_of_mem _ hf)
    . intro f hf haccepted
      rw [hnone f hf] at haccepted
      cases haccepted
    . simp only
      omega

theorem Limited.ret (h : w.Limited)
    : w.ret.Limited := by
  have hpop : ∀ {f stack}, w.stack = f :: stack → f.isAccepted = false → Limited { w with stack } := by
    intro f stack hstack hf
    refine ⟨h.listens, h.count, h.le, h.enabled, ?_, ?_, ?_⟩
    . intro g hg
      exact h.notClosed g (by rw [hstack]; exact List.mem_cons_of_mem _ hg)
    . intro g hg
      exact h.accepted g (by rw [hstack]; exact List.mem_cons_of_mem _ hg)
    . have := h.once
      rw [hstack, List.countP_cons_of_neg (by simp [hf])] at this
      exact this
  unfold TcpSocket.ret
  split
  . exact h
  . rename_i f stack hstack
    cases f with
    | accepted c => exact h.addConnection hstack
    | started c => exact hpop hstack rfl
    | data c rest => exact (hpop hstack rfl).readBlocks c rest
    | eof c => exact hpop hstack rfl
    | error c => exact (hpop hstack rfl).closeEvent c
    | closing c =>
      have h' : Limited (finishClose { w with stack } c) := (hpop hstack rfl).same rfl rfl
      dsimp only
      split
      . rename_i rest stack' hstack'
        have hstack'' : stack = .closeAll rest :: stack' := hstack'
        have := h.notClosed (.closeAll rest) (by
          rw [hstack, hstack'']
          exact List.mem_cons_of_mem _ List.mem_cons_self)
        cases this
      . exact h'
    | closeAll rest => exact hpop hstack rfl

theorem Limited.reopenListener (h : w.Limited)
    (hlt : w.chanIdToConnections.length < w.conf.maxConnectCnt.toNat) (answers : TimerAnswers)
    : (w.reopenListener answers).Limited := by
  have hremove : w.removeListener.Limited := h.same (removeListener_limits w).1 (removeListener_limits w).2
  have hlimits := (removeListener_limits w).1
  generalize hw₁ : w.removeListener = w₁ at *
  simp only [limits, Prod.mk.injEq] at hlimits
  obtain ⟨hconf, hmap, -, -⟩ := hlimits
  unfold TcpSocket.reopenListener
  rw [hw₁]
  cases answers.socket with
  | false => exact hremove.same rfl rfl
  | true =>
    cases answers.listen with
    | false => exact hremove.same rfl rfl
    | true =>
      refine ⟨hremove.listens, hremove.count, hremove.le, ?_, hremove.notClosed, fun _ _ _ => rfl, hremove.once⟩
      intro _
      change w₁.chanIdToConnections.length < w₁.conf.maxConnectCnt.toNat
      rw [hmap, hconf]
      exact hlt

theorem Limited.removeClosedChans (h : w.Limited)
    : w.removeClosedChans.Limited := by
  have hmax := w.conf.maxConnectCnt.toNat_lt
  have hle : (w.chanIdToConnections.filter (· ∉ w.closedChanIds)).length ≤ w.chanIdToConnections.length :=
    List.length_filter_le _ _
  refine ⟨h.listens, ?_, Nat.le_trans hle h.le, ?_, h.notClosed, h.accepted, h.once⟩
  . simp only [TcpSocket.removeClosedChans]
    rw [UInt32.toNat_ofNat']
    apply Nat.mod_eq_of_lt
    have := h.le
    omega
  . exact fun henabled => Nat.lt_of_le_of_lt hle (h.enabled henabled)

theorem Limited.onTimer (h : w.Limited) (answers : TimerAnswers)
    : (w.onTimer answers).Limited := by
  have h₁ := h.removeClosedChans
  unfold TcpSocket.onTimer
  rw [if_pos h.listens]
  generalize w.removeClosedChans = w₁ at *
  have h₂ : Limited (if w₁.isReopenListener then w₁.reopenListener answers else w₁) := by
    split
    . rename_i hreopen
      simp only [isReopenListener, decide_eq_true_eq] at hreopen
      apply h₁.reopenListener
      rw [← h₁.count]
      exact UInt32.lt_iff_toNat_lt.mp hreopen.2
    . exact h₁
  dsimp only
  generalize (if w₁.isReopenListener then w₁.reopenListener answers else w₁) = w₂ at *
  split
  . exact h₂
  . exact h₂.same (onEventTimers_limits ..).1 (onEventTimers_limits ..).2

theorem Limited.openSocket (h : w.Limited) (answers : OpenAnswers)
    : (w.openSocket answers).1.Limited := by
  unfold TcpSocket.openSocket
  split
  . exact h
  . dsimp only
    split
    . exact h.same rfl rfl
    . cases answers.socket with
      | false => exact h.same rfl rfl
      | true =>
        simp only [getTcpSocketFd, if_true, h.listens, openListener]
        cases answers.listen with
        | false => exact h.same rfl rfl
        | true => exact h.same rfl rfl

theorem Limited.step (h : w.Limited) (a : Action) (ha : a ≠ .closeSocket)
    : (w.step a).Limited := by
  have hsteps := w.step_steps a
  generalize w.step a = w' at hsteps ⊢
  cases hsteps with
  | idle => exact h
  | openSocket _ answers => exact h.openSocket answers
  | closeSocket => exact absurd rfl ha
  | closeTcpChannel => exact h.closeEvent _
  | ret => exact h.ret
  | processInstruction => exact h.processInstruction
  | acceptReady => exact h.same rfl rfl
  | accept _ hstack =>
    have h' : Limited { w with nextFd := w.nextFd + 1 } := h.same rfl rfl
    exact h'.onAccept hstack _ _ _
  | @readReady _ _ c =>
    obtain ⟨_, _, -, heq⟩ := handleReadReady_eq w c
    rw [heq]
    exact h.same rfl rfl
  | @writeReady _ _ c _ established =>
    have hc := checkAndProcessTcpConnected_connects
      (w.setEvent c { w.events c with writeReady := (w.events c).writeReady - 1 }) c established
    exact h.same hc.limits hc.stack
  | readTcpMsg _ _ _ ret iov => exact h.onReadTcpMsg _ ret iov
  | timer _ _ _ answers => exact h.onTimer answers

/--
The limit holds until the socket is closed, whatever happens to its connections.
-/
theorem run_limited (conf : TcpConfig) (hmode : conf.mode = .listen) (hmax : 0 < conf.maxConnectCnt) (as : List Action)
    (hclose : .closeSocket ∉ as)
    : let w := run (init conf) as
      w.connectCnt.toNat = w.chanIdToConnections.length
        ∧ w.chanIdToConnections.length ≤ w.conf.maxConnectCnt.toNat
        ∧ (w.isEnabled → w.chanIdToConnections.length < w.conf.maxConnectCnt.toNat) := by
  have hmax' : 0 < conf.maxConnectCnt.toNat := UInt32.lt_iff_toNat_lt.mp hmax
  have hinit : (init conf).Limited :=
    ⟨hmode, rfl, Nat.zero_le _, fun _ => hmax', by simp [init], by simp [init], by simp [init]⟩
  have h : (run (init conf) as).Limited := by
    apply foldl_invariant (I := Limited) as
    . intro w a ha hw
      apply hw.step a
      rintro rfl
      exact hclose ha
    . exact hinit
  exact ⟨h.count, h.le, h.enabled⟩

-- The second connection reaches the limit, it is closed and the listener is reopened for a third one.
def limitedActions : List Action :=
  [.openSocket {}, .processInstruction, .acceptReady, .accept true true, .ret, .accept true true, .ret,
    .closeTcpChannel 1, .ret, .timer {}]

theorem limitedActions_limited
    : (run (init { maxConnectCnt := 2 }) limitedActions).chanIdToConnections = [0]
      ∧ (run (init { maxConnectCnt := 2 }) limitedActions).connectCnt.toNat
        = (run (init { maxConnectCnt := 2 }) limitedActions).chanIdToConnections.length := by
  refine ⟨by decide +kernel, ?_⟩
  exact (run_limited { maxConnectCnt := 2 } rfl (by decide) limitedActions (by decide)).1

end TcpSocket

end Socket
end Ezio
