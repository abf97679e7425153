import Mathlib.Data.List.Induction
import Ezio.Socket.TcpSocket.ConnectFds
import Ezio.Socket.TcpSocket.Tracked

/-!
This module contains when the callbacks of the connections of a `tcp_socket` come in order: in the runs in which no
connection is read after it has been closed or its reads have ended, and none is closed before `cb_conn_` or twice.
-/

namespace Ezio
namespace Socket
namespace TcpSocket

open Function (update update_self update_of_ne update_idem)

variable {w w' : TcpSocket} {c x : Nat}

-- Nothing undefined has happened, the callbacks of every connection come in order, and those of one that has been
-- closed are complete.
def Ordered (w : TcpSocket) : Prop :=
  w.halt ≠ some .undefined
    ∧ ∀ c, w.phase c ≠ .broken ∧ ((w.events c).tcpState = .closed → w.phase c = .idle ∨ w.phase c = .closed)

-- The first of the connections that is closed with a callback has got `cb_conn_`, and no `cb_close_` yet.
def Closable (w : TcpSocket) (cs : List Nat) : Prop :=
  ∀ c ∈ cs.find? fun c => (w.events c).tcpState = .connected, .conn c ∈ w.log ∧ .close c ∉ w.log

instance (w : TcpSocket) (cs : List Nat) : Decidable (w.Closable cs) :=
  inferInstanceAs (Decidable (∀ _ ∈ _, _ ∧ _))

-- Only a connection that is not closed is read or found to be writable, `cb_data_` is not called again once the
-- connection has been closed, nothing is read after a read has returned 0, `on_started` calls `cb_conn_` only once,
-- and a connection that is connected is only closed after its `cb_conn_` and before a read has returned 0. Neither
-- the connections nor the set of timers change while they are iterated: the socket is not closed while it is being
-- closed, and no timer connects its connection at once.
def Orderly (w : TcpSocket) : Action → Prop
  | .closeSocket => ¬w.stack.any Frame.isCloseAll ∧ w.Closable w.chanIdToConnections
  | .closeTcpChannel c => c ∈ w.chanIdToConnections → w.Closable [c]
  | .ret =>
    match w.stack with
    | .data c (_ :: _) :: _ => (w.events c).tcpState ≠ .closed
    | .closing _ :: .closeAll rest :: _ => w.Closable rest
    | _ => True
  | .processInstruction =>
    match w.stack, w.evtHandlersCache with
    | [], ⟨.event c, .eiAdd, _⟩ :: _ =>
      .event c ∈ w.evtHandlers ∨ (w.events c).tcpState ≠ .connected ∨ (w.events c).evtState = .def_
        ∨ .conn c ∉ w.log
    | _, _ => True
  | .writeReady c _ => w.stack = [] → (w.events c).writeReady ≠ 0 → (w.events c).tcpState ≠ .closed
  | .readTcpMsg c ret iov =>
    w.stack = [] → (w.events c).multishot
      → (w.events c).tcpState ≠ .closed ∧ (0 < ret ∧ iov = [] ∨ .close c ∉ w.log)
  | .timer answers => w.stack = [] → w.timer → ∀ c ∈ w.reqTimerSet, ¬w.ConnectsAtOnce answers c
  | _ => True

instance (w : TcpSocket) (a : Action) : Decidable (w.Orderly a) := by
  unfold Orderly
  split
  . infer_instance
  . infer_instance
  . split <;> infer_instance
  . split <;> infer_instance
  . infer_instance
  . infer_instance
  . infer_instance
  . infer_instance

-- The phase tells which callbacks have been called.
theorem mem_log_iff (hunbroken : w.phase c ≠ .broken)
    : (.conn c ∈ w.log ↔ w.phase c ≠ .idle) ∧ (.close c ∈ w.log ↔ w.phase c = .closed) := by
  have hmem : ∀ e : Entry, e.chan = c → (e ∈ w.log ↔ e ∈ w.log.filter (·.chan = c)) := by
    intro e he
    simp [he]
  rw [hmem (.conn c) rfl, hmem (.close c) rfl]
  have hchan : ∀ e ∈ w.log.filter (·.chan = c), e.chan = c := by simp
  unfold phase at hunbroken ⊢
  generalize w.log.filter (·.chan = c) = es at *
  clear hmem
  induction es using List.reverseRecOn with
  | nil => simp
  | append_singleton es e ih =>
    rw [List.foldl_append] at hunbroken ⊢
    simp only [List.foldl_cons, List.foldl_nil] at hunbroken ⊢
    have hes : es.foldl Phase.next .idle ≠ .broken := by
      intro heq
      rw [heq] at hunbroken
      apply hunbroken
      cases e <;> rfl
    obtain ⟨hconn, hclose⟩ := ih hes fun e he => hchan e (List.mem_append_left _ he)
    rw [List.mem_append, List.mem_append, hconn, hclose, List.mem_singleton, List.mem_singleton]
    have he := hchan e (List.mem_append_right _ (List.mem_singleton.mpr rfl))
    generalize es.foldl Phase.next .idle = p at *
    cases p <;> cases e <;> simp_all [Phase.next, Entry.chan]

theorem Tracked.closable_iff (h : w.Tracked)
    : .conn c ∈ w.log ∧ .close c ∉ w.log ↔ w.phase c = .opened ∨ w.phase c = .erred := by
  have hunbroken : w.phase c ≠ .broken := (h.lives c).unbroken
  obtain ⟨hconn, hclose⟩ := mem_log_iff hunbroken
  rw [hconn, hclose]
  cases hphase : w.phase c <;> simp_all

theorem Tracked.ordered (h : w.Tracked) : w.Ordered :=
  ⟨h.defined, fun c => ⟨(h.lives c).unbroken, (h.lives c).phase_of_closed⟩⟩

theorem not_ordered_of_phase (h : w.phase c = .broken) : ¬w.Ordered :=
  fun hordered => (hordered.2 c).1 h

theorem not_ordered_of_halt (h : w.halt = some .undefined) : ¬w.Ordered :=
  fun hordered => hordered.1 h

/-! ### Closing -/

-- The callbacks go on in order if and only if `P` holds.
structure Hinges (P : Prop) (w : TcpSocket) : Prop where
  tracked : P → w.Tracked
  broken : ¬P → ¬w.Ordered

theorem Hinges.of_tracked {P : Prop} (h : w.Tracked) (hP : P) : Hinges P w :=
  ⟨fun _ => h, fun hnot => absurd hP hnot⟩

theorem Hinges.congr {P Q : Prop} (h : Hinges P w) (hiff : P ↔ Q) : Hinges Q w := by
  rwa [← hiff]

theorem closable_nil (w : TcpSocket) : w.Closable [] := by
  simp [Closable]

theorem closable_cons (w : TcpSocket) (c : Nat) (cs : List Nat)
    : w.Closable (c :: cs) ↔ if (w.events c).tcpState = .connected then .conn c ∈ w.log ∧ .close c ∉ w.log
        else w.Closable cs := by
  unfold Closable
  split
  . next hconnected => simp [hconnected]
  . next hnot => simp [hnot]

theorem closable_congr (hlog : w'.log = w.log)
    (hstate : ∀ c, (w'.events c).tcpState = .connected ↔ (w.events c).tcpState = .connected) (cs : List Nat)
    : w'.Closable cs ↔ w.Closable cs := by
  unfold Closable
  simp only [hlog, hstate]

theorem Tracked.closeEvent (h : w.Tracked) (hc : c < w.nextChan) : Hinges (w.Closable [c]) (w.closeEvent c) := by
  have hacts := (h.refl_acts c).closeEvent
  rw [closable_cons, h.closable_iff]
  constructor
  . intro hclosable
    apply h.acts hacts ((h.lives c).close ?_) hc
    intro (hconnected : (w.events c).tcpState = .connected)
    rwa [if_pos hconnected] at hclosable
  . intro hnot
    split at hnot
    . next hconnected =>
      rw [not_or] at hnot
      apply not_ordered_of_phase (c := c)
      have hphase : (w.closeEvent c).phase c = ((w.channel c).close c).phase := congrArg Channel.phase hacts.self
      rw [hphase]
      exact (h.lives c).close_broken hconnected hnot.1 hnot.2
    . exact absurd (closable_nil w) hnot

-- A connection that is not connected is closed without a callback.
theorem closeEvent_quiet (hnot : (w.events c).tcpState ≠ .connected)
    : (w.closeEvent c).log = w.log
        ∧ ∀ x, ((w.closeEvent c).events x).tcpState = .connected ↔ (w.events x).tcpState = .connected := by
  unfold TcpSocket.closeEvent
  split
  . exact ⟨rfl, fun _ => Iff.rfl⟩
  . have hlog : (w.shutdown c).log = w.log := by
      cases hfd : (w.events c).fd <;> simp [TcpSocket.shutdown, hfd, TcpSocket.closeFd, TcpSocket.closeReconnectTimer,
        TcpSocket.removeTimerReq, TcpSocket.setEvent, removeEvent, TcpSocket.addInstruction]
    have hevents : ∀ x, x ≠ c → (w.shutdown c).events x = w.events x := (shutdown_fd w c).2
    refine ⟨hlog, ?_⟩
    intro x
    unfold TcpSocket.finishClose
    dsimp only
    rw [events_setEvent]
    by_cases hx : x = c
    . subst hx
      rw [update_self]
      simp [TcpSocket.shutdown, hnot]
    . rw [update_of_ne hx, hevents x hx]

-- The loop of `close` with the connections `cs` left.
theorem Tracked.closeConnections (h : w.Tracked) {cs : List Nat} (hcs : ∀ c ∈ cs, c < w.nextChan)
    : Hinges (w.Closable cs) (w.closeConnections cs) := by
  induction cs generalizing w with
  | nil => exact .of_tracked (h.same rfl rfl (List.forall_mem_nil _) rfl rfl (.inl rfl)) (closable_nil w)
  | cons c rest ih =>
    obtain ⟨hc, hrest⟩ := List.forall_mem_cons.mp hcs
    rw [closable_cons]
    unfold TcpSocket.closeConnections
    split
    . next hconnected =>
      have hpushed := h.closeAll (.closeAll rest :: w.stack) hrest (.inr rfl)
      have hclose := hpushed.closeEvent hc
      rw [closable_cons, if_pos hconnected] at hclose
      exact hclose
    . next hnot =>
      have hclosed : (w.closeEvent c).Tracked := by
        apply (h.closeEvent hc).tracked
        rw [closable_cons, if_neg hnot]
        exact closable_nil w
      obtain ⟨hlog, hstate⟩ := closeEvent_quiet hnot
      rw [← closeEvent_nextChan w c] at hrest
      exact (ih hclosed hrest).congr (closable_congr hlog hstate rest)

theorem Tracked.closeSocket (h : w.Tracked) : Hinges (w.Orderly .closeSocket) w.closeSocket := by
  unfold Orderly TcpSocket.closeSocket
  dsimp only
  split
  . next hloop => exact ⟨fun horderly => absurd hloop horderly.1, fun _ => not_ordered_of_halt rfl⟩
  . next hloop =>
    rw [and_iff_right hloop]
    cases w.evtService with
    | true =>
      have hremove : Tracked { w.removeEvent .socket with fdsEvts := [], timer := false } :=
        h.same (channel_addInstruction_socket w .eiRemove) rfl h.known rfl rfl (.inl rfl)
      exact hremove.closeConnections h.known
    | false =>
      have hquiet : Tracked { w with fdsEvts := [], timer := false } := h.same rfl rfl h.known rfl rfl (.inl rfl)
      exact hquiet.closeConnections h.known

theorem Tracked.closeTcpChannel (h : w.Tracked) (c : Nat)
    : Hinges (w.Orderly (.closeTcpChannel c)) (w.closeTcpChannel c) := by
  unfold Orderly TcpSocket.closeTcpChannel
  dsimp only
  split
  . next hmem =>
    rw [forall_prop_of_true hmem]
    exact h.closeEvent (h.known c hmem)
  . next hmem => exact .of_tracked h fun hmem' => absurd hmem' hmem

/-! ### Callbacks that return -/

-- The loop of `on_read_tcp_msg` goes on with the next block.
theorem Tracked.nextBlock (h : w.Tracked) {len : Nat} {rest : List Nat} {stack : List Frame}
    (hstack : w.stack = .data c (len :: rest) :: stack)
    : Hinges ((w.events c).tcpState ≠ .closed) (({ w with stack } : TcpSocket).readBlocks c (len :: rest)) := by
  have hacts := (h.pop_acts hstack rfl).callback (e := .data c len) (f := .data c rest) rfl rfl
  have hframes := channel_frames (c := c) hstack rfl
  constructor
  . intro hopen
    exact h.acts hacts ((h.lives c).data hframes hopen len) (h.lt_of_frame hstack rfl)
  . intro hnot
    have hclosed : (w.channel c).event.tcpState = .closed := not_not.mp hnot
    apply not_ordered_of_phase (c := c)
    have hphase := congrArg Channel.phase hacts.self
    change _ = (w.channel c).phase.next (.data c len) at hphase
    rcases (h.lives c).phase_of_closed hclosed with hp | hp <;> rw [hp] at hphase <;> exact hphase

-- The callback of `tcp_event::close` returns, perhaps to the loop of `tcp_socket::close`.
theorem Tracked.closed (h : w.Tracked) {stack : List Frame} (hstack : w.stack = .closing c :: stack)
    : Hinges (w.Orderly .ret) w.ret := by
  have hacts := (h.pop_acts hstack rfl).finishClose
  have hframes := channel_frames (c := c) hstack rfl
  have hclosed := h.acts hacts ((h.lives c).finishClose hframes) (h.lt_of_frame hstack rfl)
  have hstate : ∀ x, ((TcpSocket.finishClose { w with stack } c).events x).tcpState = .connected
      ↔ (w.events x).tcpState = .connected := by
    intro x
    by_cases hx : x = c
    . simp [TcpSocket.finishClose, hx]
    . simp [TcpSocket.finishClose, hx]
  unfold Orderly TcpSocket.ret
  rw [hstack]
  dsimp only
  cases stack with
  | nil => exact .of_tracked hclosed trivial
  | cons g stack =>
    cases g with
    | closeAll rest =>
      have hrest : ∀ x ∈ rest, x < (TcpSocket.finishClose { w with stack := .closeAll rest :: stack } c).nextChan :=
        hclosed.closing rest List.mem_cons_self
      have hpopped := hclosed.closeAll stack hrest (.inl rfl)
      have hloop := hpopped.closeConnections hrest
      apply hloop.congr
      change _ ↔ w.Closable rest
      apply closable_congr
      . rfl
      . exact hstate
    | _ => exact .of_tracked hclosed trivial

theorem Tracked.ret (h : w.Tracked) : Hinges (w.Orderly .ret) w.ret := by
  cases hstack : w.stack with
  | nil =>
    unfold Orderly TcpSocket.ret
    rw [hstack]
    exact .of_tracked h trivial
  | cons f stack =>
    cases f with
    | closing c => exact h.closed hstack
    | data c lens =>
      have hpop := h.pop hstack rfl (by simp) (by simp)
      cases lens with
      | nil =>
        unfold Orderly TcpSocket.ret
        rw [hstack]
        exact .of_tracked hpop trivial
      | cons len rest =>
        have hnext := h.nextBlock hstack
        unfold Orderly TcpSocket.ret
        rw [hstack]
        exact hnext
    | error c =>
      have hacts := (h.pop_acts hstack rfl).closeEvent
      have hclosed := h.acts hacts ((h.lives c).popError (channel_frames hstack rfl)) (h.lt_of_frame hstack rfl)
      unfold Orderly TcpSocket.ret
      rw [hstack]
      exact .of_tracked hclosed trivial
    | accepted c =>
      have hpop := h.pop hstack rfl (by simp) (by simp)
      unfold Orderly TcpSocket.ret
      rw [hstack]
      exact .of_tracked (hpop.addConnection (h.lt_of_frame hstack rfl)) trivial
    | started c | eof c =>
      have hpop := h.pop hstack rfl (by simp) (by simp)
      unfold Orderly TcpSocket.ret
      rw [hstack]
      exact .of_tracked hpop trivial
    | closeAll rest =>
      have hpop := h.closeAll stack (h.closing rest (by rw [hstack]; exact List.mem_cons_self)) (.inl hstack)
      unfold Orderly TcpSocket.ret
      rw [hstack]
      exact .of_tracked hpop trivial

/-! ### The event loop -/

theorem pendingOf_cons {info : EventInfo} {infos : List EventInfo} (hcache : w.evtHandlersCache = info :: infos)
    (hinfo : info.evtPtr = .event c)
    : (w.channel c).pending = (info.instruction, info.fdsEvts.any (·.2 = .read))
        :: { w with evtHandlersCache := infos }.pendingOf c := by
  simp [channel, pendingOf, hcache, hinfo]

theorem ne_of_pending {v : Channel} {p : ElInstruction × Bool} {q : List (ElInstruction × Bool)}
    (h : v.pending = p :: q)
    : v ≠ {} := by
  rintro rfl
  cases h

-- The event loop takes an instruction about the connection `c`.
theorem Tracked.next_acts (h : w.Tracked) {info : EventInfo} {infos : List EventInfo}
    (hcache : w.evtHandlersCache = info :: infos) (hinfo : info.evtPtr = .event c) (evtHandlers : List Target)
    : Acts c { w.channel c with pending := { w with evtHandlersCache := infos }.pendingOf c } w
        { w with evtHandlersCache := infos, evtHandlers } := by
  refine ⟨?_, rfl, h.nodup⟩
  apply channel_eq_update
  . rfl
  . intro x hx
    have hne : c ≠ x := fun heq => hx heq.symm
    simp [channel, pendingOf, phase, hcache, hinfo, hne]

-- The handler is new to the event loop, which starts it.
theorem Tracked.addHandler (h : w.Tracked) {info : EventInfo} {infos : List EventInfo}
    (hcache : w.evtHandlersCache = info :: infos) (hinfo : info.evtPtr = .event c) (hadd : info.instruction = .eiAdd)
    (hnew : .event c ∉ w.evtHandlers)
    : Hinges ((w.events c).tcpState ≠ .connected ∨ (w.events c).evtState = .def_ ∨ .conn c ∉ w.log)
        (({ w with evtHandlersCache := infos } : TcpSocket).processAddInstruction info) := by
  have hpending := pendingOf_cons hcache hinfo
  rw [hadd] at hpending
  have hne := ne_of_pending hpending
  have hc := h.lt_of_ne hne
  have hreads := ((h.lives c).next hpending (by simp)).2 rfl
  have hlog := mem_log_iff (h.lives c).unbroken
  have h₁ := h.next_acts hcache hinfo (w.evtHandlers ++ [.event c])
  have h₂ := h₁.modify fun e => { e with
    writeReady := e.writeReady + info.fdsEvts.countP (·.2 = .write)
    readReady := e.readReady || info.fdsEvts.any (·.2 = .read) }
  unfold TcpSocket.processAddInstruction
  rw [hinfo, if_neg hnew]
  dsimp only
  unfold TcpSocket.onStarted
  dsimp only
  rw [h₂.event]
  dsimp only
  split
  . next hstarted =>
    have hcall := h₂.callback (e := .conn c) (f := .started c) rfl rfl
    constructor
    . intro hconn
      have hidle : (w.channel c).phase = .idle := by
        rcases hconn with hnot | hnot | hnot
        . exact absurd hstarted.1 hnot
        . exact absurd hnot hstarted.2
        . exact not_not.mp (mt hlog.1.mpr hnot)
      refine h.acts hcall ?_ hc
      apply (h.lives c).announce hstarted.1 hidle
      . exact hstarted.1
      . rfl
    . intro hnot
      simp only [not_or, not_not] at hnot
      apply not_ordered_of_phase (c := c)
      have hphase := congrArg Channel.phase hcall.self
      exact hphase.trans (Phase.next_conn_broken (hlog.1.mp hnot.2.2) c)
  . next hnot =>
    have hset := h₂.setEvent { w.events c with
      writeReady := (w.events c).writeReady + info.fdsEvts.countP (·.2 = .write)
      readReady := (w.events c).readReady || info.fdsEvts.any (·.2 = .read)
      evtState := .opened }
    apply Hinges.of_tracked
    . have hlives : ({ w.channel c with
          event := { w.events c with
            writeReady := (w.events c).writeReady + info.fdsEvts.countP (·.2 = .write)
            readReady := (w.events c).readReady || info.fdsEvts.any (·.2 = .read)
            evtState := .opened } } : Channel).Lives c := by
        apply (h.lives c).stays hne
        . exact ⟨rfl, rfl, fun _ => rfl, fun _ => id, fun _ => id⟩
        . intro hidle hopen hready hmultishot
          refine ⟨?_, hmultishot⟩
          cases hread : info.fdsEvts.any (·.2 = .read) with
          | false =>
            rw [Bool.or_false]
            exact hready
          | true =>
            obtain ⟨hconnected, hstarted⟩ := hreads hread hidle hopen
            exact absurd ⟨hconnected, by simpa [TcpEvent.started] using hstarted⟩ hnot
      exact h.acts hset (hlives.next hpending (by simp)).1 hc
    . by_contra hconn
      simp only [not_or, not_not] at hconn
      exact hnot ⟨hconn.1, hconn.2.1⟩

theorem Tracked.removeHandler (h : w.Tracked) {info : EventInfo} {infos : List EventInfo}
    (hcache : w.evtHandlersCache = info :: infos) (hinfo : info.evtPtr = .event c)
    (hremove : info.instruction = .eiRemove)
    : (({ w with evtHandlersCache := infos } : TcpSocket).processRemoveInstruction info).Tracked := by
  have hpending := pendingOf_cons hcache hinfo
  rw [hremove] at hpending
  have hne := ne_of_pending hpending
  have h₁ := h.next_acts hcache hinfo (w.evtHandlers.erase (.event c))
  unfold TcpSocket.processRemoveInstruction
  rw [hinfo]
  dsimp only
  apply h.acts (h₁.setEvent _) ?_ (h.lt_of_ne hne)
  have hstays : ∀ (writeReady : Nat) (read : Bool), ({ w.channel c with
      event := { w.events c with
        evtState := .closed
        writeReady
        readReady := (w.events c).readReady && !read
        multishot := (w.events c).multishot && !read } } : Channel).Lives c := by
    intro writeReady read
    apply (h.lives c).stays hne
    . exact ⟨rfl, rfl, fun _ => rfl, fun _ => id, fun _ => id⟩
    . intro _ _ (hready : (w.events c).readReady = false) (hmultishot : (w.events c).multishot = false)
      simp [hready, hmultishot]
  exact ((hstays _ _).next hpending fun _ => rfl).1

-- An instruction that is about the listener.
theorem Tracked.nextSocket (h : w.Tracked) {instruction : ElInstruction} {fdsEvts : List (Nat × Ev)}
    {infos : List EventInfo} (hcache : w.evtHandlersCache = ⟨.socket, instruction, fdsEvts⟩ :: infos)
    : w.processInstruction.Tracked := by
  have hchannel : channel { w with evtHandlersCache := infos } = w.channel := by
    funext x
    simp [channel, pendingOf, phase, hcache]
  have hnext : Tracked { w with evtHandlersCache := infos } := h.same hchannel rfl h.known rfl rfl (.inl rfl)
  unfold TcpSocket.processInstruction
  rw [hcache]
  cases instruction with
  | eiAdd =>
    dsimp only [processAddInstruction]
    split
    . exact hnext
    . exact hnext.same rfl rfl h.known rfl rfl (.inl rfl)
  | eiRemove =>
    dsimp only [processRemoveInstruction]
    split <;> exact hnext.same rfl rfl h.known rfl rfl (.inl rfl)

theorem Tracked.processInstruction (h : w.Tracked) (hstack : w.stack = [])
    : Hinges (w.Orderly .processInstruction) w.processInstruction := by
  cases hcache : w.evtHandlersCache with
  | nil =>
    unfold Orderly TcpSocket.processInstruction
    rw [hcache]
    exact .of_tracked h (by rw [hstack]; trivial)
  | cons info infos =>
    obtain ⟨evtPtr, instruction, fdsEvts⟩ := info
    cases evtPtr with
    | socket =>
      apply Hinges.of_tracked (h.nextSocket hcache)
      unfold Orderly
      rw [hstack, hcache]
      trivial
    | event c =>
      have hpending := pendingOf_cons (c := c) hcache rfl
      have hc : c < w.nextChan := h.lt_of_ne (ne_of_pending hpending)
      cases instruction with
      | eiRemove =>
        have hremove := h.removeHandler hcache rfl rfl
        unfold Orderly TcpSocket.processInstruction
        rw [hcache]
        exact .of_tracked hremove (by rw [hstack]; trivial)
      | eiAdd =>
        have horderly : w.Orderly .processInstruction ↔ .event c ∈ w.evtHandlers
            ∨ (w.events c).tcpState ≠ .connected ∨ (w.events c).evtState = .def_ ∨ .conn c ∉ w.log := by
          unfold Orderly
          rw [hstack, hcache]
        rw [horderly]
        unfold TcpSocket.processInstruction
        rw [hcache]
        by_cases hmem : .event c ∈ w.evtHandlers
        . have hnext := h.acts (h.next_acts hcache rfl w.evtHandlers) ((h.lives c).next hpending (by simp)).1 hc
          dsimp only [processAddInstruction]
          rw [if_pos hmem]
          exact .of_tracked hnext (.inl hmem)
        . exact (h.addHandler hcache rfl rfl hmem).congr (or_iff_right hmem).symm

/-! ### The kernel -/

theorem Tracked.handleReadReady (h : w.Tracked) (hready : (w.events c).readReady = true)
    : (w.handleReadReady c).Tracked := by
  have hne : w.channel c ≠ {} := by
    intro hblank
    have hevent : w.events c = {} := congrArg Channel.event hblank
    rw [hevent] at hready
    cases hready
  obtain ⟨multishot, halt, hhalt, heq⟩ := handleReadReady_eq w c
  have hset : (w.setEvent c { w.events c with readReady := false, multishot }).Tracked := by
    apply h.acts ((h.refl_acts c).setEvent _) ?_ (h.lt_of_ne hne)
    apply (h.lives c).stays hne
    . exact ⟨rfl, rfl, id, fun _ => id, fun _ => id⟩
    . exact fun _ _ hnot => absurd (hready.symm.trans hnot) (by simp)
  rw [heq]
  exact hset.same rfl rfl h.known rfl rfl hhalt

theorem useReleased_phase (w : TcpSocket) (c : Nat) : (w.useReleased c).phase c = .broken := by
  have hchannel := congrFun (channel_useReleased w c) c
  rw [update_self] at hchannel
  exact congrArg Channel.phase hchannel

-- Nothing is left of a connection that has been closed.
theorem createTimerForReconnect_broken {v : Channel} (h : Acts c v w w') (hshared : v.event.sharedData = false)
    : (w'.createTimerForReconnect c).phase c = .broken := by
  unfold createTimerForReconnect
  dsimp only
  rw [if_neg (by rw [h.event, hshared]; simp)]
  exact useReleased_phase _ c

theorem Tracked.writeReady (h : w.Tracked) (hstack : w.stack = []) (hready : (w.events c).writeReady ≠ 0)
    (established : Bool)
    : Hinges ((w.events c).tcpState ≠ .closed)
        ((w.setEvent c { w.events c with
          writeReady := (w.events c).writeReady - 1 }).checkAndProcessTcpConnected c established) := by
  have hne : w.channel c ≠ {} := by
    intro hblank
    have hevent : w.events c = {} := congrArg Channel.event hblank
    rw [hevent] at hready
    exact hready rfl
  have hset := (h.refl_acts c).setEvent { w.events c with writeReady := (w.events c).writeReady - 1 }
  constructor
  . intro hopen
    have hactive := (Channel.Active.of_lives (h.lives c) hne hopen).setEvent
      (e := { w.events c with writeReady := (w.events c).writeReady - 1 }) rfl rfl id rfl rfl fun _ => id
    exact h.leads (checkAndProcessTcpConnected_leads hset hactive established) (h.lt_of_ne hne)
  . intro hnot
    obtain ⟨hshared, hfd, htimes⟩ := (h.lives c).shared_of_closed (by simp [channel, hstack]) (not_not.mp hnot)
    have hremove := hset.removeTcpEvent true
    apply not_ordered_of_phase (c := c)
    unfold checkAndProcessTcpConnected
    split
    . next fd hsome =>
      rw [hset.event] at hsome
      cases hfd.symm.trans hsome
    . dsimp only
      rw [if_neg (by rw [hremove.event]; exact not_not.mpr htimes)]
      exact createTimerForReconnect_broken hremove hshared

-- A read completes after `cb_conn_` and before the connection is closed.
theorem Tracked.read_opened (h : w.Tracked) (hstack : w.stack = []) (hc : c < w.nextChan)
    (hconnected : (w.events c).tcpState = .connected) (hshared : (w.events c).sharedData = true)
    (hphase : w.phase c = .opened) (ret : Int) (iov : List Nat)
    : (w.onReadTcpMsg c ret iov).Tracked := by
  have hframes : (w.channel c).frames = [] := by simp [channel, hstack]
  have hrefl := h.refl_acts c
  have hcall : ∀ {e : Entry}, ((w.channel c).phase.next e) = Phase.opened.next e := by
    intro e
    rw [← hphase]
    rfl
  unfold TcpSocket.onReadTcpMsg
  rw [if_pos hshared]
  split
  . cases blocks ret iov with
    | nil => exact h
    | cons len rest =>
      refine h.acts (hrefl.callback (e := .data c len) (f := .data c rest) rfl rfl) ?_ hc
      exact .opened hconnected hshared hcall (by simp [Channel.call, hframes]) (by simp [Channel.call, hframes])
  . split
    . refine h.acts (hrefl.callback (e := .close c) (f := .eof c) rfl rfl) ?_ hc
      exact .ended hconnected hshared hcall (by simp [Channel.call, hframes])
    . split
      . refine h.acts (hrefl.callback (e := .error c ret) (f := .error c) rfl rfl) ?_ hc
        exact .erred hconnected hshared hcall (by simp [Channel.call, hframes])
      . apply (h.closeEvent hc).tracked
        rw [closable_cons, if_pos hconnected, h.closable_iff]
        exact .inl hphase

-- A read completes after one has returned 0.
theorem Tracked.read_ended (h : w.Tracked) (hc : c < w.nextChan) (hconnected : (w.events c).tcpState = .connected)
    (hshared : (w.events c).sharedData = true) (hphase : w.phase c = .closed) (ret : Int) (iov : List Nat)
    : Hinges (0 < ret ∧ iov = []) (w.onReadTcpMsg c ret iov) := by
  have hcall : ∀ (e : Entry) (f : Frame), e.chan = c → f.chan = some c → Phase.closed.next e = .broken
      → (w.callback e f).phase c = .broken := by
    intro e f he hf hbroken
    have hacts := congrArg Channel.phase ((h.refl_acts c).callback he hf).self
    rw [← hbroken, ← hphase]
    exact hacts
  unfold TcpSocket.onReadTcpMsg
  rw [if_pos hshared]
  split
  . next hpos =>
    cases iov with
    | nil => exact .of_tracked h ⟨hpos, rfl⟩
    | cons iovLen iov =>
      refine ⟨by simp, fun _ => not_ordered_of_phase (c := c) ?_⟩
      unfold blocks
      rw [if_pos hpos]
      exact hcall _ _ rfl rfl rfl
  . next hpos =>
    refine ⟨fun h => absurd h.1 hpos, fun _ => ?_⟩
    split
    . exact not_ordered_of_phase (hcall _ _ rfl rfl rfl)
    . split
      . exact not_ordered_of_phase (hcall _ _ rfl rfl rfl)
      . apply (h.closeEvent hc).broken
        rw [closable_cons, if_pos hconnected, h.closable_iff, hphase]
        simp

theorem Tracked.onReadTcpMsg (h : w.Tracked) (hstack : w.stack = []) (hmultishot : (w.events c).multishot = true)
    (ret : Int) (iov : List Nat)
    : Hinges ((w.events c).tcpState ≠ .closed ∧ (0 < ret ∧ iov = [] ∨ .close c ∉ w.log))
        (w.onReadTcpMsg c ret iov) := by
  have hframes : (w.channel c).frames = [] := by simp [channel, hstack]
  have hc : c < w.nextChan := by
    apply h.lt_of_ne
    intro hblank
    have hevent : w.events c = {} := congrArg Channel.event hblank
    rw [hevent] at hmultishot
    cases hmultishot
  by_cases hclosed : (w.events c).tcpState = .closed
  . obtain ⟨hshared, -, -⟩ := (h.lives c).shared_of_closed hframes hclosed
    refine ⟨fun hopen => absurd hclosed hopen.1, fun _ => not_ordered_of_phase (c := c) ?_⟩
    unfold TcpSocket.onReadTcpMsg
    have hnot : ¬(w.events c).sharedData = true := by
      intro hshared'
      cases hshared'.symm.trans hshared
    rw [if_neg hnot]
    exact useReleased_phase w c
  . obtain ⟨hconnected, hshared, hphase⟩ := (h.lives c).reading hframes hmultishot hclosed
    have hlog := (mem_log_iff (h.lives c).unbroken).2
    rw [and_iff_right hclosed, hlog]
    rcases hphase with hphase | hphase
    . apply Hinges.of_tracked (h.read_opened hstack hc hconnected hshared hphase ret iov)
      refine .inr fun hnot => ?_
      cases hphase.symm.trans hnot
    . apply (h.read_ended hc hconnected hshared hphase ret iov).congr
      exact (or_iff_left (not_not.mpr hphase)).symm

/-! ### Runs -/

theorem Tracked.dispatch (h : w.Tracked) (hhalt : w.halt = none) (hstack : w.stack = [])
    (hlisten : w.conf.mode = .listen → w.reqTimerSet = []) (a : Action)
    (ha : a ≠ .closeSocket ∧ (∀ c, a ≠ .closeTcpChannel c) ∧ a ≠ .ret)
    : Hinges (w.Orderly a) (w.dispatch a) := by
  cases a with
  | processInstruction => exact h.processInstruction hstack
  | acceptReady =>
    apply Hinges.of_tracked _ trivial
    dsimp only [TcpSocket.dispatch]
    split
    . exact h.same rfl rfl h.known rfl rfl (.inl rfl)
    . exact h
  | accept registerRingBuffer established =>
    apply Hinges.of_tracked _ trivial
    dsimp only [TcpSocket.dispatch]
    split
    . have hfd : Tracked { w with nextFd := w.nextFd + 1 } := h.same rfl rfl h.known rfl rfl (.inl rfl)
      exact hfd.onAccept w.nextFd registerRingBuffer established
    . exact h
  | readReady c =>
    apply Hinges.of_tracked _ trivial
    dsimp only [TcpSocket.dispatch]
    split
    . next hready => exact h.handleReadReady hready
    . exact h
  | writeReady c established =>
    dsimp only [TcpSocket.dispatch]
    split
    . next hready =>
      apply (h.writeReady hstack hready established).congr
      unfold Orderly
      simp [hstack, hready]
    . next hready => exact .of_tracked h fun _ hready' => absurd hready' hready
  | readTcpMsg c ret iov =>
    dsimp only [TcpSocket.dispatch]
    split
    . next hmultishot =>
      apply (h.onReadTcpMsg hstack hmultishot ret iov).congr
      unfold Orderly
      simp only [hstack, hmultishot, true_imp_iff]
    . next hmultishot => exact .of_tracked h fun _ hmultishot' => absurd hmultishot' hmultishot
  | timer answers =>
    obtain ⟨htracked, hundefined⟩ := h.onTimer hhalt hlisten answers
    dsimp only [TcpSocket.dispatch]
    split
    . next htimer =>
      constructor
      . exact fun horderly => htracked (horderly hstack htimer)
      . intro hnot
        unfold Orderly at hnot
        simp only [hstack, htimer, true_imp_iff, not_forall, not_not] at hnot
        obtain ⟨c, hc, honce⟩ := hnot
        exact not_ordered_of_halt (hundefined c hc honce)
    . next htimer => exact .of_tracked h fun _ htimer' => absurd htimer' htimer
  | openSocket answers => exact .of_tracked h trivial
  | closeSocket => exact absurd rfl ha.1
  | closeTcpChannel c => exact absurd rfl (ha.2.1 c)
  | ret => exact absurd rfl ha.2.2

-- As long as nothing undefined has happened, the steps are orderly.
def KeepsOrder (w : TcpSocket) (a : Action) : Prop :=
  w.halt = none → w.Orderly a

instance (w : TcpSocket) (a : Action) : Decidable (w.KeepsOrder a) :=
  inferInstanceAs (Decidable (_ → _))

-- The event loop and the poller do nothing while a callback is running.
theorem orderly_of_running (hstack : w.stack ≠ []) {a : Action}
    (ha : a ≠ .closeSocket ∧ (∀ c, a ≠ .closeTcpChannel c) ∧ a ≠ .ret)
    : w.Orderly a := by
  cases a with
  | processInstruction =>
    unfold Orderly
    dsimp only
    split
    . contradiction
    . trivial
  | writeReady c established => exact fun hnil => absurd hnil hstack
  | readTcpMsg c ret iov => exact fun hnil => absurd hnil hstack
  | timer answers => exact fun hnil => absurd hnil hstack
  | closeSocket => exact absurd rfl ha.1
  | closeTcpChannel c => exact absurd rfl (ha.2.1 c)
  | ret => exact absurd rfl ha.2.2
  | _ => trivial

theorem Tracked.step (h : w.Tracked) (hlisten : w.conf.mode = .listen → w.reqTimerSet = []) (a : Action)
    : Hinges (w.KeepsOrder a) (w.step a) := by
  unfold KeepsOrder TcpSocket.step
  split
  . next hhalted =>
    apply Hinges.of_tracked h
    intro hhalt
    rw [hhalt] at hhalted
    cases hhalted
  . next hhalted =>
    have hhalt : w.halt = none := by simpa using hhalted
    rw [forall_prop_of_true hhalt]
    have hdispatch : (a ≠ .closeSocket ∧ (∀ c, a ≠ .closeTcpChannel c) ∧ a ≠ .ret)
        → Hinges (w.Orderly a) (if w.stack = [] then w.dispatch a else w) := by
      intro ha
      split
      . next hstack => exact h.dispatch hhalt hstack hlisten a ha
      . next hstack => exact .of_tracked h (orderly_of_running hstack ha)
    cases a with
    | openSocket answers => exact .of_tracked (h.openSocket answers) trivial
    | closeSocket => exact h.closeSocket
    | closeTcpChannel c => exact h.closeTcpChannel c
    | ret => exact h.ret
    | _ => exact hdispatch (by simp)

-- Only a socket that connects has connections that wait for their timers.
def Sided (w : TcpSocket) : Prop :=
  w.Owned ∨ w.Connector

theorem Sided.timers (h : w.Sided) (hmode : w.conf.mode = .listen) : w.reqTimerSet = [] := by
  rcases h with h | h
  . exact h.timers
  . cases h.mode.symm.trans hmode

theorem Sided.step (h : w.Sided) (a : Action) : (w.step a).Sided :=
  h.imp (fun h => h.step a) fun h => h.step a

theorem init_sided (conf : TcpConfig) : (init conf).Sided := by
  cases hmode : conf.mode with
  | listen => exact .inl (init_owned hmode)
  | connect => exact .inr (init_connector hmode)

-- The peer closes a connection, then the user does.
def closedTwice : List Action := [
  .openSocket {},
  .processInstruction,
  .acceptReady,
  .accept true true,
  .ret,
  .processInstruction,
  .readReady 0,
  .readTcpMsg 0 0 [],
  .ret,
  .closeTcpChannel 0
]

-- The same connection without the peer's part: it is read, fails and is closed once.
example : Along step KeepsOrder (init {}) (closedTwice.take 7 ++ [
    .readTcpMsg 0 5 [4, 4], .ret, .ret, .readTcpMsg 0 (-104) [], .closeTcpChannel 0, .ret, .ret]) := by
  decide

-- The user closes it while it is read. On epoll no data comes when the event has been removed, on io_uring it does.
example :
    let as := closedTwice.take 7 ++ [.closeTcpChannel 0, .ret, .processInstruction, .readTcpMsg 0 5 [5]]
    Along step KeepsOrder (init {}) as ∧ ¬Along step KeepsOrder (init { pollType := .ioUring }) as := by
  decide

-- A timer that connects at once takes its connection out of the set that is iterated.
example :
    let as := [.openSocket {}, .processInstruction, .writeReady 0 false] ++ List.replicate 9 (.timer {})
      ++ [.timer { connect := .success, established := true }]
    (run (init { mode := .connect }) as).halt = some .undefined
      ∧ ¬Along step KeepsOrder (init { mode := .connect }) as := by
  decide

end TcpSocket
end Socket
end Ezio
