import Mathlib.Data.List.Nodup
import Ezio.Socket.TcpSocket.Reconnect
import Ezio.Socket.TcpSocket.Channel

/-!
This module contains how the functions of a `tcp_socket` act on its connections: each of them is in one of the stages,
and a function that is about one connection leaves the other ones where they are.
-/

namespace Ezio
namespace Socket
namespace TcpSocket

open Function (update update_self update_of_ne update_idem)

variable {w w' : TcpSocket} {c x : Nat}

def pendingOf (w : TcpSocket) (c : Nat) : List (ElInstruction × Bool) :=
  (w.evtHandlersCache.filter (·.evtPtr = .event c)).map fun info =>
    (info.instruction, info.fdsEvts.any (·.2 = .read))

def phase (w : TcpSocket) (c : Nat) : Phase :=
  (w.log.filter (·.chan = c)).foldl Phase.next .idle

def channel (w : TcpSocket) (c : Nat) : Channel where
  event := w.events c
  pending := w.pendingOf c
  frames := w.stack.filter (·.chan = some c)
  timed := w.reqTimerSet.contains c
  phase := w.phase c

/-! ### The parts of the functions -/

-- Only the connection `c` is touched.
theorem channel_eq_update {v : Channel} (hc : w'.channel c = v) (hother : ∀ x, x ≠ c → w'.channel x = w.channel x)
    : w'.channel = update w.channel c v := by
  funext x
  by_cases hx : x = c
  . rw [hx, update_self, hc]
  . rw [update_of_ne hx, hother x hx]

theorem channel_setEvent (w : TcpSocket) (c : Nat) (e : TcpEvent)
    : (w.setEvent c e).channel = update w.channel c { w.channel c with event := e } := by
  apply channel_eq_update
  . simp [channel, setEvent, pendingOf, phase]
  . intro x hx
    simp [channel, setEvent, pendingOf, phase, hx]

theorem channel_addInstruction (w : TcpSocket) (c : Nat) (instruction : ElInstruction)
    : (w.addInstruction (.event c) instruction).channel = update w.channel c ((w.channel c).instruct instruction) := by
  apply channel_eq_update
  . simp [channel, Channel.instruct, addInstruction, pendingOf, phase, getFdsAndEvts, TcpEvent.reads]
  . intro x hx
    have hne : c ≠ x := fun h => hx h.symm
    simp [channel, addInstruction, pendingOf, phase, hne]

theorem channel_addInstruction_socket (w : TcpSocket) (instruction : ElInstruction)
    : (w.addInstruction .socket instruction).channel = w.channel := by
  funext x
  simp [channel, addInstruction, pendingOf, phase]

theorem channel_regTimerReq (w : TcpSocket) (c : Nat)
    : (w.regTimerReq c).channel = update w.channel c { w.channel c with timed := true } := by
  apply channel_eq_update
  . by_cases hc : c ∈ w.reqTimerSet <;> simp [channel, regTimerReq, pendingOf, phase, hc]
  . intro x hx
    by_cases hc : c ∈ w.reqTimerSet <;> simp [channel, regTimerReq, pendingOf, phase, hc, hx]

theorem channel_removeTimerReq (hnodup : w.reqTimerSet.Nodup) (c : Nat)
    : (w.removeTimerReq c).channel = update w.channel c { w.channel c with timed := false } := by
  apply channel_eq_update
  . simp [channel, removeTimerReq, pendingOf, phase, hnodup.mem_erase_iff]
  . intro x hx
    simp [channel, removeTimerReq, pendingOf, phase, hnodup.mem_erase_iff, hx]

-- An entry of the log that is no callback of the user.
theorem channel_addLog_tries (w : TcpSocket) (c : Nat) : (w.addLog (.tries c)).channel = w.channel := by
  funext x
  by_cases hx : c = x
  . subst hx
    simp [channel, addLog, pendingOf, phase, Entry.chan]
  . simp [channel, addLog, pendingOf, phase, Entry.chan, hx]

theorem channel_useReleased (w : TcpSocket) (c : Nat)
    : (w.useReleased c).channel = update w.channel c { w.channel c with phase := .broken } := by
  apply channel_eq_update
  . simp [channel, useReleased, addLog, pendingOf, phase, Entry.chan]
  . intro x hx
    have hne : c ≠ x := fun h => hx h.symm
    simp [channel, useReleased, addLog, pendingOf, phase, Entry.chan, hne]

theorem channel_callback (w : TcpSocket) {e : Entry} {f : Frame} (he : e.chan = c) (hf : f.chan = some c)
    : (w.callback e f).channel = update w.channel c ((w.channel c).call e f) := by
  apply channel_eq_update
  . simp [channel, Channel.call, callback, addLog, pendingOf, phase, he, hf]
  . intro x hx
    have hne : c ≠ x := fun h => hx h.symm
    simp [channel, callback, addLog, pendingOf, phase, he, hf, hne]

/-! ### The functions of a connection -/

-- What the connections do not change.
def outline (w : TcpSocket) : Option Halt × Nat × List Nat × List Frame :=
  (w.halt, w.nextChan, w.chanIdToConnections, w.stack.filter Frame.isCloseAll)

-- A function that only makes `v` of the connection `c`.
structure Acts (c : Nat) (v : Channel) (w w' : TcpSocket) : Prop where
  channel : w'.channel = update w.channel c v
  outline : w'.outline = w.outline
  nodup : w'.reqTimerSet.Nodup

theorem Acts.self {v : Channel} (h : Acts c v w w') : w'.channel c = v := by
  rw [h.channel, update_self]

theorem Acts.event {v : Channel} (h : Acts c v w w') : w'.events c = v.event :=
  congrArg Channel.event h.self

theorem Acts.nextChan {v : Channel} (h : Acts c v w w') : w'.nextChan = w.nextChan :=
  congrArg (fun o => o.2.1) h.outline

theorem Acts.refl (hnodup : w.reqTimerSet.Nodup) (c : Nat) : Acts c (w.channel c) w w :=
  ⟨(Function.update_eq_self c w.channel).symm, rfl, hnodup⟩

theorem Acts.trans {w'' : TcpSocket} {v v' : Channel} (h : Acts c v w w') (h' : Acts c v' w' w'')
    : Acts c v' w w'' := by
  refine ⟨?_, h'.outline.trans h.outline, h'.nodup⟩
  rw [h'.channel, h.channel, update_idem]

theorem Acts.same {w'' : TcpSocket} {v : Channel} (h : Acts c v w w') (hchannel : w''.channel = w'.channel)
    (houtline : w''.outline = w'.outline) (htimers : w''.reqTimerSet = w'.reqTimerSet)
    : Acts c v w w'' :=
  ⟨hchannel.trans h.channel, houtline.trans h.outline, by rw [htimers]; exact h.nodup⟩

theorem Acts.closeFd {v : Channel} (h : Acts c v w w') (fd : Option Nat) : Acts c v w (w'.closeFd fd) := by
  cases fd <;> exact h.same rfl rfl rfl

theorem Acts.setEvent {v : Channel} (h : Acts c v w w') (e : TcpEvent)
    : Acts c { v with event := e } w (w'.setEvent c e) := by
  refine h.trans ⟨?_, rfl, h.nodup⟩
  rw [channel_setEvent, h.self]

theorem Acts.addInstruction {v : Channel} (h : Acts c v w w') (instruction : ElInstruction)
    : Acts c (v.instruct instruction) w (w'.addInstruction (.event c) instruction) := by
  refine h.trans ⟨?_, rfl, h.nodup⟩
  rw [channel_addInstruction, h.self]

theorem Acts.removeTimerReq {v : Channel} (h : Acts c v w w')
    : Acts c { v with timed := false } w (w'.removeTimerReq c) := by
  refine h.trans ⟨?_, rfl, h.nodup.erase c⟩
  rw [channel_removeTimerReq h.nodup, h.self]

theorem Acts.regTimerReq {v : Channel} (h : Acts c v w w')
    : Acts c { v with timed := true } w (w'.regTimerReq c) := by
  refine h.trans ⟨?_, rfl, ?_⟩
  . rw [channel_regTimerReq, h.self]
  . unfold TcpSocket.regTimerReq
    dsimp only
    split
    . exact h.nodup
    . next hc => exact List.Nodup.append h.nodup (List.nodup_singleton c) (by simpa using hc)

theorem Acts.callback {v : Channel} (h : Acts c v w w') {e : Entry} {f : Frame} (he : e.chan = c)
    (hf : f.chan = some c)
    : Acts c (v.call e f) w (w'.callback e f) := by
  have hclose : f.isCloseAll = false := by
    cases f with
    | closeAll rest => cases hf
    | _ => rfl
  refine h.trans ⟨?_, ?_, h.nodup⟩
  . rw [channel_callback w' he hf, h.self]
  . simp [TcpSocket.outline, TcpSocket.callback, addLog, hclose]

theorem Acts.modify {v : Channel} (h : Acts c v w w') (f : TcpEvent → TcpEvent)
    : Acts c { v with event := f v.event } w (w'.setEvent c (f (w'.events c))) := by
  rw [h.event]
  exact h.setEvent _

theorem Acts.removeTcpEvent {v : Channel} (h : Acts c v w w') (isCloseFd : Bool)
    : Acts c { v.instruct .eiRemove with
        event := { v.event with fdsEvts := [], fd := if isCloseFd then none else v.event.fd } }
        w (w'.removeTcpEvent c isCloseFd) := by
  have hremove := h.addInstruction .eiRemove
  unfold TcpSocket.removeTcpEvent
  cases isCloseFd with
  | true =>
    have hset := (hremove.closeFd (w'.events c).fd).setEvent { w'.events c with fdsEvts := [], fd := none }
    rw [← h.event]
    exact hset
  | false => exact hremove.modify fun e => { e with fdsEvts := [] }

theorem Acts.closeReconnectTimer {v : Channel} (h : Acts c v w w')
    : Acts c { v with event := { v.event with curTimerTriggerTimes := -1 }, timed := false }
        w (w'.closeReconnectTimer c) :=
  (h.modify fun e => { e with curTimerTriggerTimes := -1 }).removeTimerReq

theorem Acts.shutdown {v : Channel} (h : Acts c v w w') : Acts c v.shutdown w (w'.shutdown c) := by
  have htimer := ((h.addInstruction .eiRemove).closeFd (w'.events c).fd).closeReconnectTimer
  have hbuf : Acts c _ w { TcpSocket.closeReconnectTimer ((w'.removeEvent (.event c)).closeFd (w'.events c).fd) c with
      bufferIdList := ((w'.removeEvent (.event c)).closeFd (w'.events c).fd).bufferIdList
        ++ (w'.events c).bufId.toList } :=
    htimer.same rfl rfl rfl
  exact hbuf.modify fun e => { e with fdsEvts := [], fd := none, bufId := none, tcpState := .closed }

theorem Acts.finishClose {v : Channel} (h : Acts c v w w') : Acts c v.finishClose w (w'.finishClose c) :=
  (h.modify fun e => { e with sharedData := false, evtState := .closed }).same rfl rfl rfl

-- `tcp_event::close`
theorem Acts.closeEvent {v : Channel} (h : Acts c v w w') : Acts c (v.close c) w (w'.closeEvent c) := by
  unfold TcpSocket.closeEvent Channel.close
  rw [h.event]
  split
  . exact h
  . split
    . exact h.shutdown.callback rfl rfl
    . exact h.shutdown.finishClose

/-! ### Connecting -/

-- A function that leaves the connection active.
def Leads (c : Nat) (w w' : TcpSocket) : Prop :=
  ∃ v : Channel, Acts c v w w' ∧ v.Active c

theorem connectFd_leads {v : Channel} (h : Acts c v w w') (hv : v.Active c) (hnot : v.event.tcpState ≠ .connected)
    (result : ConnectResult)
    : Leads c w (w'.connectFd c result).1 := by
  have hlog : Acts c v w (w'.addLog (.tries c)) := h.same (channel_addLog_tries w' c) rfl rfl
  unfold connectFd
  dsimp only
  split
  . exact ⟨v, h, hv⟩
  . next fd _ =>
    rw [h.event]
    cases result with
    | failed =>
      exact ⟨_, (hlog.closeFd v.event.fd).setEvent _, hv.setEvent rfl rfl id rfl rfl fun _ => id⟩
    | success => exact ⟨_, (hlog.setEvent _).addInstruction .eiAdd, hv.connect hnot fd (.inl rfl)⟩
    | inProgress => exact ⟨_, (hlog.setEvent _).addInstruction .eiAdd, hv.connect hnot fd (.inr rfl)⟩

theorem tryConnect_leads {v : Channel} (h : Acts c v w w') (hv : v.Active c) (hnot : v.event.tcpState ≠ .connected)
    (socket : Bool) (result : ConnectResult)
    : Leads c w (w'.tryConnect c socket result).1 := by
  have hremove : ∃ v' : Channel, Acts c v' w (if (w'.events c).fd.isSome then w'.removeTcpEvent c true else w')
      ∧ v'.Active c ∧ v'.event.tcpState ≠ .connected := by
    split
    . exact ⟨_, h.removeTcpEvent true, hv.remove.setEvent rfl rfl id rfl rfl fun _ => by simp [TcpEvent.reads], hnot⟩
    . exact ⟨v, h, hv, hnot⟩
  unfold tryConnect
  generalize (if (w'.events c).fd.isSome then w'.removeTcpEvent c true else w') = w₁ at *
  obtain ⟨v₁, h₁, hv₁, hnot₁⟩ := hremove
  have h₂ : Acts c v₁ w (w₁.getTcpSocketFd socket).1 := by
    cases socket <;> exact h₁.same rfl rfl rfl
  dsimp only
  generalize (w₁.getTcpSocketFd socket).2 = fd
  generalize (w₁.getTcpSocketFd socket).1 = w₂ at *
  have h₃ := h₂.modify fun e => { e with fd }
  have hv₃ : ({ v₁ with event := { v₁.event with fd } } : Channel).Active c :=
    hv₁.setEvent rfl rfl id rfl rfl fun _ => id
  split
  . exact connectFd_leads h₃ hv₃ hnot₁ result
  . exact ⟨_, h₃, hv₃⟩

theorem createTimerForReconnect_leads {v : Channel} (h : Acts c v w w') (hv : v.Active c)
    : Leads c w (w'.createTimerForReconnect c) := by
  have h₁ := h.modify fun e => { e with curTimerTriggerTimes := 0 }
  have hv₁ : ({ v with event := { v.event with curTimerTriggerTimes := 0 } } : Channel).Active c :=
    hv.setEvent rfl rfl id rfl rfl fun _ => id
  unfold createTimerForReconnect
  dsimp only
  rw [if_pos (by rw [h.event]; exact hv.shared)]
  exact ⟨_, h₁.regTimerReq, hv₁.setTimed true⟩

theorem checkAndProcessTcpConnected_leads {v : Channel} (h : Acts c v w w') (hv : v.Active c) (established : Bool)
    : Leads c w (w'.checkAndProcessTcpConnected c established) := by
  unfold checkAndProcessTcpConnected
  split
  . next fd _ =>
    rw [if_pos (by rw [h.event]; exact hv.shared)]
    have hconnected := ((h.modify fun e => { e with tcpState := .connected }).closeReconnectTimer).removeTcpEvent false
    exact ⟨_, (hconnected.modify fun e => { e with fdsEvts := [(fd, .read)] }).addInstruction .eiAdd,
      hv.establish fd _⟩
  . have hremove := h.removeTcpEvent true
    have hv' : ({ v.instruct .eiRemove with event := { v.event with fdsEvts := [], fd := none } } : Channel).Active c :=
      hv.remove.setEvent rfl rfl id rfl rfl fun _ => by simp [TcpEvent.reads]
    dsimp only
    split
    . exact ⟨_, hremove, hv'⟩
    . exact createTimerForReconnect_leads hremove hv'

-- A connection that waits for its timer is not closed.
theorem onEventTimer_leads {v : Channel} (h : Acts c v w w') (hv : v.Active c) (answers : TimerAnswers)
    : Leads c w (w'.onEventTimer c answers) := by
  have h₁ := h.modify fun e => { e with curTimerTriggerTimes := e.curTimerTriggerTimes + 1 }
  have hv₁ : ({ v with event := { v.event with curTimerTriggerTimes := v.event.curTimerTriggerTimes + 1 } } :
      Channel).Active c :=
    hv.setEvent rfl rfl id rfl rfl fun _ => id
  unfold onEventTimer
  dsimp only
  split
  . exact ⟨_, h₁, hv₁⟩
  . next hnot =>
    have hnot₁ : v.event.tcpState ≠ .connected := by
      rw [← h.event]
      exact fun hconnected => hnot (.inr hconnected)
    obtain ⟨v₂, h₂, hv₂⟩ := tryConnect_leads h₁ hv₁ hnot₁ answers.socket answers.connect
    split
    . exact checkAndProcessTcpConnected_leads h₂ hv₂ answers.established
    . exact ⟨v₂, h₂, hv₂⟩

/-! ### The socket -/

-- Each connection is in one of the stages, and nothing undefined has happened.
structure Tracked (w : TcpSocket) : Prop where
  defined : w.halt ≠ some .undefined
  lives : ∀ c, (w.channel c).Lives c
  fresh : ∀ c, w.nextChan ≤ c → w.channel c = {}
  nodup : w.reqTimerSet.Nodup
  known : ∀ c ∈ w.chanIdToConnections, c < w.nextChan
  closing : ∀ rest, .closeAll rest ∈ w.stack → ∀ c ∈ rest, c < w.nextChan

theorem init_tracked (conf : TcpConfig) : (init conf).Tracked :=
  ⟨nofun, fun _ => .blank, fun _ _ => rfl, List.nodup_nil, fun _ hc => absurd hc List.not_mem_nil,
    fun _ hrest => absurd hrest List.not_mem_nil⟩

theorem Tracked.lt_of_ne (h : w.Tracked) (hne : w.channel c ≠ {}) : c < w.nextChan := by
  by_contra hnot
  exact hne (h.fresh c (Nat.le_of_not_lt hnot))

theorem Tracked.refl_acts (h : w.Tracked) (c : Nat) : Acts c (w.channel c) w w :=
  .refl h.nodup c

theorem Tracked.acts (h : w.Tracked) {v : Channel} (hacts : Acts c v w w') (hv : v.Lives c) (hc : c < w.nextChan)
    : w'.Tracked := by
  have houtline := hacts.outline
  simp only [outline, Prod.mk.injEq] at houtline
  obtain ⟨hhalt, hnext, hchans, hstack⟩ := houtline
  refine ⟨?_, ?_, ?_, hacts.nodup, ?_, ?_⟩
  . rw [hhalt]
    exact h.defined
  . intro x
    rw [hacts.channel]
    by_cases hx : x = c
    . rw [hx, update_self]
      exact hv
    . rw [update_of_ne hx]
      exact h.lives x
  . intro x hx
    rw [hnext] at hx
    have hne : x ≠ c := Nat.ne_of_gt (Nat.lt_of_lt_of_le hc hx)
    rw [hacts.channel, update_of_ne hne]
    exact h.fresh x hx
  . rw [hchans, hnext]
    exact h.known
  . intro rest hrest
    have hmem : .closeAll rest ∈ w'.stack.filter Frame.isCloseAll := List.mem_filter.mpr ⟨hrest, rfl⟩
    rw [hstack] at hmem
    rw [hnext]
    exact h.closing rest (List.mem_filter.mp hmem).1

theorem Tracked.leads (h : w.Tracked) (hleads : Leads c w w') (hc : c < w.nextChan) : w'.Tracked := by
  obtain ⟨v, hacts, hv⟩ := hleads
  exact h.acts hacts hv.lives hc

-- What is about no connection.
theorem Tracked.same (h : w.Tracked) (hchannel : w'.channel = w.channel) (hnext : w'.nextChan = w.nextChan)
    (hchans : ∀ c ∈ w'.chanIdToConnections, c < w.nextChan) (hstack : w'.stack = w.stack)
    (htimers : w'.reqTimerSet = w.reqTimerSet) (hhalt : w'.halt = w.halt ∨ w'.halt = some .exited)
    : w'.Tracked := by
  refine ⟨?_, ?_, ?_, ?_, ?_, ?_⟩
  . rcases hhalt with hhalt | hhalt <;> rw [hhalt]
    . exact h.defined
    . simp
  . rw [hchannel]
    exact h.lives
  . rw [hchannel, hnext]
    exact h.fresh
  . rw [htimers]
    exact h.nodup
  . rw [hnext]
    exact hchans
  . rw [hstack, hnext]
    exact h.closing

-- The callback on top of the stack returns, or the loop of `close` does.
theorem channel_pop {f : Frame} {stack : List Frame} (hstack : w.stack = f :: stack) (hf : f.chan = some c)
    : { w with stack }.channel = update w.channel c { w.channel c with frames := stack.filter (·.chan = some c) } := by
  apply channel_eq_update
  . rfl
  . intro x hx
    have hne : c ≠ x := fun h => hx h.symm
    simp [channel, pendingOf, phase, hstack, hf, hne]

theorem channel_frames {f : Frame} {stack : List Frame} (hstack : w.stack = f :: stack) (hf : f.chan = some c)
    : (w.channel c).frames = f :: stack.filter (·.chan = some c) := by
  simp [channel, hstack, hf]

theorem Tracked.pop_acts (h : w.Tracked) {f : Frame} {stack : List Frame} (hstack : w.stack = f :: stack)
    (hf : f.chan = some c)
    : Acts c { w.channel c with frames := stack.filter (·.chan = some c) } w { w with stack } := by
  refine ⟨channel_pop hstack hf, ?_, h.nodup⟩
  have hclose : f.isCloseAll = false := by
    cases f with
    | closeAll rest => cases hf
    | _ => rfl
  simp [outline, hstack, hclose]

theorem Tracked.closeAll (h : w.Tracked) {rest : List Nat} (stack : List Frame) (hrest : ∀ c ∈ rest, c < w.nextChan)
    (hstack : w.stack = .closeAll rest :: stack ∨ stack = .closeAll rest :: w.stack)
    : { w with stack : TcpSocket }.Tracked := by
  have hchannel : { w with stack : TcpSocket }.channel = w.channel := by
    funext x
    rcases hstack with hstack | rfl <;> simp [channel, pendingOf, phase, Frame.chan, *]
  refine ⟨h.defined, ?_, ?_, h.nodup, h.known, ?_⟩
  . rw [hchannel]
    exact h.lives
  . rw [hchannel]
    exact h.fresh
  . intro rest' hrest'
    rcases hstack with hstack | rfl
    . exact h.closing rest' (by rw [hstack]; exact List.mem_cons_of_mem _ hrest')
    . rcases List.mem_cons.mp hrest' with heq | hmem
      . cases heq
        exact hrest
      . exact h.closing rest' hmem

theorem Tracked.lt_of_frame (h : w.Tracked) {f : Frame} {stack : List Frame} (hstack : w.stack = f :: stack)
    (hf : f.chan = some c)
    : c < w.nextChan := by
  apply h.lt_of_ne
  intro hblank
  have hframes := channel_frames hstack hf
  rw [hblank] at hframes
  cases hframes

theorem Tracked.pop (h : w.Tracked) {f : Frame} {stack : List Frame} (hstack : w.stack = f :: stack)
    (hf : f.chan = some c) (hclosing : f ≠ .closing c) (herror : f ≠ .error c)
    : { w with stack : TcpSocket }.Tracked :=
  h.acts (h.pop_acts hstack hf) ((h.lives c).pop (channel_frames hstack hf) hclosing herror) (h.lt_of_frame hstack hf)

theorem channel_removeListener (w : TcpSocket) : w.removeListener.channel = w.channel := by
  have hremove : (w.removeEvent .socket).channel = w.channel := channel_addInstruction_socket w .eiRemove
  unfold TcpSocket.removeListener
  cases w.fd <;> exact hremove

theorem Tracked.removeListener (h : w.Tracked) : w.removeListener.Tracked := by
  have hchannel := channel_removeListener w
  unfold TcpSocket.removeListener at hchannel ⊢
  cases hfd : w.fd <;> rw [hfd] at hchannel <;> exact h.same hchannel rfl h.known rfl rfl (.inl rfl)

theorem Tracked.known_append (h : w.Tracked) (hc : c < w.nextChan)
    : ∀ x ∈ w.chanIdToConnections ++ [c], x < w.nextChan := by
  intro x hx
  rcases List.mem_append.mp hx with hx | hx
  . exact h.known x hx
  . rw [List.mem_singleton.mp hx]
    exact hc

theorem Tracked.addConnection (h : w.Tracked) (hc : c < w.nextChan) : (w.addConnection c).Tracked := by
  have hchans := h.known_append hc
  unfold TcpSocket.addConnection
  dsimp only
  split
  . exact h.same rfl rfl hchans rfl rfl (.inl rfl)
  . generalize hw : ({ w with
      chanIdToConnections := w.chanIdToConnections ++ [c], connectCnt := w.connectCnt + 1, isEnabled := false } :
        TcpSocket) = w₁
    have h₁ : w₁.Tracked := by
      rw [← hw]
      exact h.same rfl rfl hchans rfl rfl (.inl rfl)
    exact h₁.removeListener

theorem Tracked.startTimers (h : w.Tracked) (answers : TimerAnswers) : (w.startTimers answers).Tracked := by
  unfold TcpSocket.startTimers
  split
  . have hclosed : w.removeClosedChans.Tracked :=
      h.same rfl rfl (fun x hx => h.known x (List.mem_of_mem_filter hx)) rfl rfl (.inl rfl)
    dsimp only
    split
    . have hlistener := hclosed.removeListener
      have hadd : ∀ w₁ : TcpSocket, w₁.Tracked → (w₁.addEvent .socket).Tracked := fun w₁ h₁ =>
        h₁.same (channel_addInstruction_socket w₁ .eiAdd) rfl h₁.known rfl rfl (.inl rfl)
      unfold reopenListener getTcpSocketFd
      generalize w.removeClosedChans.removeListener = w₁ at hlistener
      cases answers.socket with
      | false => exact hlistener.same rfl rfl hlistener.known rfl rfl (.inr rfl)
      | true =>
        cases answers.listen with
        | false => exact hlistener.same rfl rfl hlistener.known rfl rfl (.inr rfl)
        | true =>
          have hfds : Tracked { w₁ with
              nextFd := w₁.nextFd + 1
              fd := some w₁.nextFd
              fdsEvts := w₁.fdsEvts ++ [(w₁.nextFd, Ev.read)] } :=
            hlistener.same rfl rfl hlistener.known rfl rfl (.inl rfl)
          have hadded := hadd _ hfds
          exact hadded.same rfl rfl hadded.known rfl rfl (.inl rfl)
    . exact hclosed
  . exact h

theorem mem_reqTimerSet_iff : c ∈ w.reqTimerSet ↔ (w.channel c).timed = true := by
  simp [channel]

-- The timer of the connection connects it at once, and is taken out of the set while it is iterated.
def ConnectsAtOnce (w : TcpSocket) (answers : TimerAnswers) (c : Nat) : Prop :=
  w.Tries c ∧ answers.socket ∧ answers.connect = .success ∧ answers.established

instance (w : TcpSocket) (answers : TimerAnswers) (c : Nat) : Decidable (w.ConnectsAtOnce answers c) :=
  inferInstanceAs (Decidable (_ ∧ _))

theorem removeTcpEvent_timers (w : TcpSocket) (c : Nat) (isCloseFd : Bool)
    : (w.removeTcpEvent c isCloseFd).reqTimerSet = w.reqTimerSet := by
  unfold TcpSocket.removeTcpEvent
  cases isCloseFd with
  | true => cases hfd : (w.events c).fd <;> simp [hfd, TcpSocket.closeFd, TcpSocket.setEvent, removeEvent,
      TcpSocket.addInstruction]
  | false => rfl

-- `try_connect` of a connection that is not connected, it has a fd when it is connected at once.
theorem tryConnect_timers (hnot : (w.events c).tcpState ≠ .connected) (socket : Bool) (result : ConnectResult)
    : (w.tryConnect c socket result).1.reqTimerSet = w.reqTimerSet
        ∧ ((w.tryConnect c socket result).2 ∧ ((w.tryConnect c socket result).1.events c).tcpState = .connected
          ↔ socket ∧ result = .success)
        ∧ (socket ∧ result = .success → ((w.tryConnect c socket result).1.events c).fd ≠ none) := by
  have hremove : ∃ w₁ : TcpSocket, (if (w.events c).fd.isSome then w.removeTcpEvent c true else w) = w₁
      ∧ w₁.reqTimerSet = w.reqTimerSet ∧ (w₁.events c).tcpState ≠ .connected := by
    refine ⟨_, rfl, ?_⟩
    split
    . refine ⟨removeTcpEvent_timers w c true, ?_⟩
      simpa [TcpSocket.removeTcpEvent] using hnot
    . exact ⟨rfl, hnot⟩
  obtain ⟨w₁, heq, htimers, hnot₁⟩ := hremove
  unfold tryConnect
  rw [heq]
  cases socket with
  | false => simp [getTcpSocketFd, TcpSocket.setEvent, htimers]
  | true =>
    cases result <;> simp [getTcpSocketFd, TcpSocket.setEvent, htimers, connectFd, TcpSocket.closeFd, addLog,
      addEvent, TcpSocket.addInstruction]

theorem checkAndProcessTcpConnected_timers (hnodup : w.reqTimerSet.Nodup) (hc : c ∈ w.reqTimerSet)
    (hshared : (w.events c).sharedData = true) (hfd : (w.events c).fd ≠ none) (established : Bool)
    : c ∈ (w.checkAndProcessTcpConnected c established).reqTimerSet ↔ established = false := by
  obtain ⟨fd, hfd⟩ := Option.ne_none_iff_exists'.mp hfd
  unfold checkAndProcessTcpConnected
  rw [hfd]
  cases established with
  | true =>
    dsimp only
    have hadd : ∀ (w' : TcpSocket) e t, ((w'.setEvent c e).addEvent t).reqTimerSet = w'.reqTimerSet :=
      fun _ _ _ => rfl
    rw [if_pos hshared, hadd, removeTcpEvent_timers]
    change c ∈ w.reqTimerSet.erase c ↔ _
    simp [hnodup.mem_erase_iff]
  | false =>
    simp only [iff_true]
    have hmem : c ∈ (w.removeTcpEvent c true).reqTimerSet := by
      rw [removeTcpEvent_timers]
      exact hc
    split
    . exact hmem
    . have hkept := (removeTcpEvent_connects w c true).kept.sharedData
      unfold createTimerForReconnect
      dsimp only
      rw [if_pos (hkept.trans hshared)]
      change c ∈ (if c ∈ (w.removeTcpEvent c true).reqTimerSet then _ else _)
      rw [if_pos hmem]
      exact hmem

-- Only a connection that is connected at once takes itself out of the set.
theorem onEventTimer_timed (hnodup : w.reqTimerSet.Nodup) (hc : c ∈ w.reqTimerSet)
    (hshared : (w.events c).sharedData = true) (answers : TimerAnswers)
    : c ∈ (w.onEventTimer c answers).reqTimerSet ↔ ¬w.ConnectsAtOnce answers c := by
  have htries : w.Tries c ↔ ¬((w.events c).curTimerTriggerTimes + 1 < 10 ∨ (w.events c).tcpState = .connected) := by
    unfold Tries times
    rw [not_or, Int.not_lt]
  unfold onEventTimer ConnectsAtOnce
  rw [htries]
  dsimp only
  split
  . next hwaits => exact iff_of_true hc fun h => h.1 hwaits
  . next hnot =>
    generalize hw₁ : w.setEvent c _ = w₁
    have hnot₁ : (w₁.events c).tcpState ≠ .connected := by
      rw [← hw₁, events_setEvent, update_self]
      exact fun hconnected => hnot (.inr hconnected)
    have hset : w₁.reqTimerSet = w.reqTimerSet := by rw [← hw₁]; rfl
    have hshared₁ : (w₁.events c).sharedData = true := by
      rw [← hw₁, events_setEvent, update_self]
      exact hshared
    obtain ⟨htimers, hconnected, hfd⟩ := tryConnect_timers hnot₁ answers.socket answers.connect
    have hkept := (tryConnect_connects w₁ c answers.socket answers.connect).kept.sharedData
    rw [hset] at htimers
    generalize w₁.tryConnect c answers.socket answers.connect = r at *
    split
    . next hsuccess =>
      have hanswers := hconnected.mp hsuccess
      rw [← htimers] at hnodup hc
      rw [checkAndProcessTcpConnected_timers hnodup hc (hkept.trans hshared₁) (hfd hanswers)]
      simp [hnot, hanswers]
    . next hfails =>
      rw [htimers]
      refine iff_of_true hc fun h => hfails (hconnected.mpr ⟨h.2.1, h.2.2.1⟩)

-- The set of timers can be iterated if and only if none of the connections takes itself out of it.
theorem Tracked.onEventTimers (h : w.Tracked) (answers : TimerAnswers) {cs : List Nat}
    (hcs : ∀ c ∈ cs, c ∈ w.reqTimerSet) (hnodup : cs.Nodup)
    : ((∀ c ∈ cs, ¬w.ConnectsAtOnce answers c) → (w.onEventTimers answers cs).Tracked)
        ∧ ∀ c ∈ cs, w.ConnectsAtOnce answers c → (w.onEventTimers answers cs).halt = some .undefined := by
  induction cs generalizing w with
  | nil => exact ⟨fun _ => h, List.forall_mem_nil _⟩
  | cons c rest ih =>
    obtain ⟨hc, hrest⟩ := List.forall_mem_cons.mp hcs
    have hactive := Channel.Active.of_timed (h.lives c) (mem_reqTimerSet_iff.mp hc)
    obtain ⟨v, hacts, hv⟩ := onEventTimer_leads (h.refl_acts c) hactive answers
    have h₁ := h.acts hacts hv.lives (h.lt_of_ne hactive.ne)
    have hiff := onEventTimer_timed h.nodup hc hactive.shared answers
    have hother : ∀ x ∈ rest, (w.onEventTimer c answers).ConnectsAtOnce answers x ↔ w.ConnectsAtOnce answers x := by
      intro x hx
      have hxc : x ≠ c := fun heq => (List.nodup_cons.mp hnodup).1 (heq ▸ hx)
      have hchannel := congrFun hacts.channel x
      rw [update_of_ne hxc] at hchannel
      have hevent : (w.onEventTimer c answers).events x = w.events x := congrArg Channel.event hchannel
      unfold ConnectsAtOnce Tries times
      rw [hevent]
    unfold TcpSocket.onEventTimers
    dsimp only
    split
    . next hmem =>
      have hrest₁ : ∀ x ∈ rest, x ∈ (w.onEventTimer c answers).reqTimerSet := by
        intro x hx
        by_cases hxc : x = c
        . rw [hxc]
          exact hmem
        . rw [mem_reqTimerSet_iff, hacts.channel, update_of_ne hxc, ← mem_reqTimerSet_iff]
          exact hrest x hx
      obtain ⟨htracked, hundefined⟩ := ih h₁ hrest₁ (List.nodup_cons.mp hnodup).2
      constructor
      . intro hnone
        exact htracked fun x hx => (not_congr (hother x hx)).mpr (hnone x (List.mem_cons_of_mem c hx))
      . intro x hx honce
        rcases List.mem_cons.mp hx with rfl | hx
        . exact absurd honce (hiff.mp hmem)
        . exact hundefined x hx ((hother x hx).mpr honce)
    . next hnot => exact ⟨fun hnone => absurd (hiff.mpr (hnone c List.mem_cons_self)) hnot, fun _ _ _ => rfl⟩

-- A listener has no connection that waits for its timer.
theorem Tracked.onTimer (h : w.Tracked) (hhalt : w.halt = none) (hlisten : w.conf.mode = .listen → w.reqTimerSet = [])
    (answers : TimerAnswers)
    : ((∀ c ∈ w.reqTimerSet, ¬w.ConnectsAtOnce answers c) → (w.onTimer answers).Tracked)
        ∧ ∀ c ∈ w.reqTimerSet, w.ConnectsAtOnce answers c → (w.onTimer answers).halt = some .undefined := by
  have hstart := h.startTimers answers
  have hset := (startTimers_events w answers).2
  rw [onTimer_eq answers hhalt]
  cases hmode : w.conf.mode with
  | listen =>
    rw [hset, hlisten hmode]
    refine ⟨fun _ => ?_, List.forall_mem_nil _⟩
    split <;> exact hstart
  | connect =>
    have hsame : w.startTimers answers = w := by
      unfold TcpSocket.startTimers
      rw [if_neg (by simp [hmode])]
    rw [hsame, if_neg (by simp [hhalt])]
    exact h.onEventTimers answers (fun _ hc => hc) h.nodup

/-! ### New connections -/

theorem newChannel_active (fd : Option Nat) (c : Nat)
    : Channel.Active c { event := { fd, sharedData := true } } :=
  ⟨.connecting (.inl rfl) rfl rfl rfl rfl rfl List.not_mem_nil rfl, rfl, by simp⟩

theorem Tracked.newEvent (h : w.Tracked) (fd : Option Nat)
    : (w.newEvent fd).1.Tracked
        ∧ Acts (w.newEvent fd).2 { event := { fd, sharedData := true } } (w.newEvent fd).1 (w.newEvent fd).1
        ∧ (w.newEvent fd).2 < (w.newEvent fd).1.nextChan := by
  have hchannel : (w.newEvent fd).1.channel = update w.channel w.nextChan { event := { fd, sharedData := true } } := by
    have hset := channel_setEvent w w.nextChan { fd, sharedData := true }
    rw [h.fresh w.nextChan (Nat.le_refl _)] at hset
    exact hset
  refine ⟨?_, ?_, Nat.lt_succ_self _⟩
  . refine ⟨h.defined, ?_, ?_, h.nodup, fun c hc => Nat.lt_succ_of_lt (h.known c hc),
      fun rest hrest c hc => Nat.lt_succ_of_lt (h.closing rest hrest c hc)⟩
    . intro x
      rw [hchannel]
      by_cases hx : x = w.nextChan
      . rw [hx, update_self]
        exact (newChannel_active fd w.nextChan).lives
      . rw [update_of_ne hx]
        exact h.lives x
    . intro x hx
      have hx : w.nextChan < x := hx
      rw [hchannel, update_of_ne (Nat.ne_of_gt hx)]
      exact h.fresh x (Nat.le_of_lt hx)
  . refine ⟨?_, rfl, h.nodup⟩
    rw [hchannel]
    exact (update_idem _ _ _).symm

theorem Acts.getBufferId {v : Channel} (h : Acts c v w w') (registerRingBuffer : Bool)
    : Acts c v w (w'.getBufferId registerRingBuffer).1 := by
  unfold TcpSocket.getBufferId
  split
  . split <;> exact h.same rfl rfl rfl
  . exact h.same rfl rfl rfl

-- The connection that `connect` has failed for gets no instruction.
theorem connectFd_failed {v : Channel} (h : Acts c v w w') (result : ConnectResult)
    (hfailed : (w'.connectFd c result).2 = false)
    : ∃ e : TcpEvent, Acts c { v with event := e } w (w'.connectFd c result).1 := by
  have hlog : Acts c v w (w'.addLog (.tries c)) := h.same (channel_addLog_tries w' c) rfl rfl
  unfold connectFd at hfailed ⊢
  dsimp only at hfailed ⊢
  split
  . exact ⟨v.event, h⟩
  . next hfd =>
    rw [hfd] at hfailed
    cases result with
    | failed => exact ⟨_, (hlog.closeFd _).setEvent _⟩
    | success | inProgress => cases hfailed

theorem Tracked.openConnector (h : w.Tracked) (answers : OpenAnswers) : (w.openConnector answers).1.Tracked := by
  obtain ⟨hnew, hacts, hlt⟩ := h.newEvent w.fd
  have hbuf := hacts.getBufferId answers.registerRingBuffer
  unfold TcpSocket.openConnector
  dsimp only
  generalize (w.newEvent w.fd).2 = c at *
  generalize (w.newEvent w.fd).1.getBufferId answers.registerRingBuffer = r at hbuf
  obtain ⟨w₁, bufId⟩ := r
  cases bufId with
  | none => exact hnew.acts (hbuf.setEvent {}) .blank hlt
  | some bufId =>
    have hset := hbuf.modify fun e => { e with bufId := some bufId }
    have hactive : Channel.Active c { event := { fd := w.fd, sharedData := true, bufId := some bufId } } :=
      (newChannel_active w.fd c).setEvent rfl rfl id rfl rfl fun _ => id
    have hleads := connectFd_leads hset hactive (by simp) answers.connect
    have hfailed := connectFd_failed hset answers.connect
    dsimp only
    generalize (w₁.setEvent c { w₁.events c with bufId := some bufId }).connectFd c answers.connect = r
      at hleads hfailed
    obtain ⟨w₂, ok⟩ := r
    cases ok with
    | true =>
      have h₂ : w₂.Tracked := hnew.leads hleads hlt
      obtain ⟨v, hacts₂, -⟩ := hleads
      have hnext : w₂.nextChan = (w.newEvent w.fd).1.nextChan := hacts₂.nextChan
      exact h₂.same rfl rfl (h₂.known_append (by rwa [hnext])) rfl rfl (.inl rfl)
    | false =>
      obtain ⟨e, hacts₂⟩ := hfailed rfl
      exact hnew.acts (hacts₂.setEvent {}) .blank hlt

theorem Tracked.openSocket (h : w.Tracked) (answers : OpenAnswers) : (w.openSocket answers).1.Tracked := by
  unfold TcpSocket.openSocket
  split
  . exact h
  . have hservice : Tracked { w with evtService := true } := h.same rfl rfl h.known rfl rfl (.inl rfl)
    dsimp only
    split
    . exact hservice
    . cases answers.socket with
      | false => exact hservice
      | true =>
        have hfd : Tracked { w with evtService := true, nextFd := w.nextFd + 1, fd := some w.nextFd } :=
          h.same rfl rfl h.known rfl rfl (.inl rfl)
        simp only [getTcpSocketFd, if_true]
        have hopen : (if w.conf.mode = .listen
            then TcpSocket.openListener { w with evtService := true, nextFd := w.nextFd + 1, fd := some w.nextFd }
              answers
            else TcpSocket.openConnector { w with evtService := true, nextFd := w.nextFd + 1, fd := some w.nextFd }
              answers).1.Tracked := by
          split
          . unfold openListener
            split
            . next fd _ _ =>
              have hfds : Tracked { w with
                  evtService := true
                  nextFd := w.nextFd + 1
                  fd := some w.nextFd
                  fdsEvts := w.fdsEvts ++ [(fd, Ev.read)] } :=
                hfd.same rfl rfl h.known rfl rfl (.inl rfl)
              exact hfds.same (channel_addInstruction_socket _ .eiAdd) rfl h.known rfl rfl (.inl rfl)
            . exact hfd
          . exact hfd.openConnector answers
        split
        . next w₂ heq =>
          rw [heq] at hopen
          exact hopen.same rfl rfl hopen.known rfl rfl (.inl rfl)
        . next w₂ heq =>
          rw [heq] at hopen
          cases hfd₂ : w₂.fd <;> exact hopen.same rfl rfl hopen.known rfl rfl (.inl rfl)

theorem Tracked.onAccept (h : w.Tracked) (fd : Nat) (registerRingBuffer established : Bool)
    : (w.onAccept fd registerRingBuffer established).Tracked := by
  unfold TcpSocket.onAccept
  split
  . obtain ⟨hnew, hacts, hlt⟩ := h.newEvent (some fd)
    have hbuf := hacts.getBufferId registerRingBuffer
    dsimp only
    generalize (w.newEvent (some fd)).2 = c at *
    generalize (w.newEvent (some fd)).1.getBufferId registerRingBuffer = r at hbuf
    obtain ⟨w₁, bufId⟩ := r
    cases bufId with
    | none => exact hnew.acts ((hbuf.closeFd _).setEvent {}) .blank hlt
    | some bufId =>
      have hset := hbuf.modify fun e => { e with bufId := some bufId }
      dsimp only
      split
      . have hreads := (hset.modify fun e => { e with fdsEvts := [(fd, .read)] }).addInstruction .eiAdd
        have hconnected := hreads.modify fun e => { e with tcpState := .connected }
        have hcall := hconnected.callback (e := .conn c) (f := .accepted c) rfl rfl
        apply hnew.acts hcall _ hlt
        exact .opened rfl rfl rfl (by simp [Channel.call, Channel.instruct]) (by simp [Channel.call, Channel.instruct])
      . exact hnew.acts ((hset.closeFd _).setEvent {}) .blank hlt
  . exact h

end TcpSocket
end Socket
end Ezio
