import Ezio.Socket.TcpSocket.Limit

/-!
This module contains the places where a listening `tcp_socket` keeps its connections: a connection that has a fd is in
`chan_id_to_connections_` or the callback `cb_conn_` is running.
-/

namespace Ezio
namespace Socket

-- The connection of a frame, the ones of `closeAll` are listed by the frame itself.
def Frame.chan : Frame → Option Nat
  | accepted c | started c | data c _ | eof c | error c | closing c => some c
  | closeAll _ => none

-- The frame may lie above other ones.
def Frame.isNested : Frame → Bool
  | closing _ | closeAll _ => true
  | _ => false

-- The event waits for nothing but data, it has closed its fd when it is closed.
structure TcpEvent.Listens (e : TcpEvent) : Prop where
  write : e.writeReady = 0
  evts : ∀ p ∈ e.fdsEvts, p.2 = .read
  closed : e.tcpState = .closed → e.fd = none

namespace TcpSocket

variable {w w' : TcpSocket} {c x : Nat}

-- Nothing has happened to the socket.
def Idle (w : TcpSocket) : Prop :=
  w.nextChan = 0 ∧ w.fd = none ∧ w.evtHandlersCache = [] ∧ w.listenReady = false ∧ w.accepting = false ∧ w.timer = false

structure Owned (w : TcpSocket) : Prop where
  listens : w.conf.mode = .listen
  timers : w.reqTimerSet = []
  idle : w.evtService = false → w.Idle
  events : ∀ c, (w.events c).Listens
  fresh : ∀ c, w.nextChan ≤ c
    → (w.events c).readReady = false ∧ (w.events c).multishot = false ∧ (w.events c).fd = none
  cache : ∀ info ∈ w.evtHandlersCache, ∀ c, info.evtPtr = .event c → c < w.nextChan ∧ ∀ p ∈ info.fdsEvts, p.2 = .read
  known : ∀ c ∈ w.chanIdToConnections, c < w.nextChan
  gone : ∀ c ∈ w.closedChanIds, (w.events c).fd = none ∧ c < w.nextChan
  frames : ∀ f ∈ w.stack, ∀ c, f.chan = some c → c < w.nextChan
  nested : ∀ f ∈ w.stack.dropLast, f.isNested
  -- a connection that has a fd can be found by `close`, or its callback is running
  placed : ∀ c, (w.events c).fd ≠ none → c ∈ w.chanIdToConnections ∨ .accepted c ∈ w.stack
  accepted : ∀ c, .accepted c ∈ w.stack → (w.events c).fd ≠ none ∧ c ∉ w.chanIdToConnections
  shut : ∀ c, .closing c ∈ w.stack → (w.events c).fd = none
  closing : ∀ rest, .closeAll rest ∈ w.stack → (∀ c ∈ rest, c < w.nextChan ∧ .accepted c ∉ w.stack)
    ∧ ∀ c ∈ w.chanIdToConnections, (w.events c).fd = none ∨ c ∈ rest

-- What the owners do not depend on.
def erased (w : TcpSocket) : TcpSocket :=
  { w with
    fdsEvts := []
    isEnabled := true
    connectCnt := 0
    bufferIdList := []
    evtHandlers := []
    nextBuf := 0
    nextFd := 0
    closedFds := []
    halt := none
    log := [] }

@[simp]
theorem erased_closeFd (w : TcpSocket) (fd : Option Nat) : (w.closeFd fd).erased = w.erased := by
  cases fd <;> rfl

theorem Owned.same (h : w.Owned) (heq : w'.erased = w.erased)
    : w'.Owned := by
  have h' : w'.erased.Owned := by
    rw [heq]
    exact ⟨h.listens, h.timers, h.idle, h.events, h.fresh, h.cache, h.known, h.gone, h.frames, h.nested, h.placed,
      h.accepted, h.shut, h.closing⟩
  exact ⟨h'.listens, h'.timers, h'.idle, h'.events, h'.fresh, h'.cache, h'.known, h'.gone, h'.frames, h'.nested,
    h'.placed, h'.accepted, h'.shut, h'.closing⟩

theorem init_owned {conf : TcpConfig} (hmode : conf.mode = .listen)
    : (init conf).Owned := by
  constructor
  . exact hmode
  . rfl
  . exact fun _ => ⟨rfl, rfl, rfl, rfl, rfl, rfl⟩
  . exact fun _ => ⟨rfl, by simp [init], fun _ => rfl⟩
  . exact fun _ _ => ⟨rfl, rfl, rfl⟩
  all_goals simp [init]

-- A socket that has a connection has been opened.
theorem Owned.opened (h : w.Owned) (hc : c < w.nextChan)
    : w.evtService = true := by
  cases hs : w.evtService with
  | true => rfl
  | false =>
    rw [(h.idle hs).1] at hc
    cases hc

theorem Owned.lt_of_readReady (h : w.Owned) (hready : (w.events c).readReady = true)
    : c < w.nextChan := by
  by_contra hc
  cases hready.symm.trans (h.fresh c (Nat.le_of_not_lt hc)).1

theorem Owned.lt_of_multishot (h : w.Owned) (hmultishot : (w.events c).multishot = true)
    : c < w.nextChan := by
  by_contra hc
  cases hmultishot.symm.trans (h.fresh c (Nat.le_of_not_lt hc)).2.1

theorem Owned.bottom (h : w.Owned) {f : Frame} {stack : List Frame} (hstack : w.stack = f :: stack)
    (hf : f.isNested = false)
    : stack = [] := by
  cases stack with
  | nil => rfl
  | cons g stack =>
    have hnested := h.nested f (by rw [hstack, List.dropLast_cons_cons]; exact List.mem_cons_self)
    rw [hf] at hnested
    cases hnested

-- The event keeps its fd or gives it up.
theorem Owned.setEvent (h : w.Owned) {e : TcpEvent} (hc : c < w.nextChan) (he : e.Listens)
    (hfd : e.fd = (w.events c).fd ∨ e.fd = none ∧ .accepted c ∉ w.stack)
    : (w.setEvent c e).Owned := by
  have hfd' : ∀ x, ((w.setEvent c e).events x).fd = (w.events x).fd
      ∨ ((w.setEvent c e).events x).fd = none ∧ .accepted x ∉ w.stack := by
    intro x
    by_cases hx : x = c
    . rw [hx, events_setEvent, Function.update_self]
      exact hfd
    . rw [events_setEvent, Function.update_of_ne hx]
      exact .inl rfl
  have hnone : ∀ x, (w.events x).fd = none → ((w.setEvent c e).events x).fd = none := by
    intro x hx
    rcases hfd' x with heq | ⟨heq, -⟩
    . exact heq.trans hx
    . exact heq
  refine ⟨h.listens, h.timers, ?_, ?_, ?_, h.cache, h.known, ?_, h.frames, h.nested, ?_, ?_, ?_, ?_⟩
  . intro hs
    cases hs.symm.trans (h.opened hc)
  . intro x
    by_cases hx : x = c
    . rw [hx, events_setEvent, Function.update_self]
      exact he
    . rw [events_setEvent, Function.update_of_ne hx]
      exact h.events x
  . intro x hx
    have hne : x ≠ c := Nat.ne_of_gt (Nat.lt_of_lt_of_le hc hx)
    rw [events_setEvent, Function.update_of_ne hne]
    exact h.fresh x hx
  . intro x hx
    exact ⟨hnone x (h.gone x hx).1, (h.gone x hx).2⟩
  . intro x hx
    exact h.placed x fun heq => hx (hnone x heq)
  . intro x hx
    rcases hfd' x with heq | ⟨-, hnot⟩
    . rw [heq]
      exact h.accepted x hx
    . exact absurd hx hnot
  . intro x hx
    exact hnone x (h.shut x hx)
  . intro rest hrest
    refine ⟨(h.closing rest hrest).1, ?_⟩
    intro x hx
    exact ((h.closing rest hrest).2 x hx).imp_left (hnone x)

theorem Owned.addInstruction (h : w.Owned) (hs : w.evtService = true) {t : Target}
    (ht : ∀ c, t = .event c → c < w.nextChan) (instruction : ElInstruction)
    : (w.addInstruction t instruction).Owned := by
  refine ⟨h.listens, h.timers, ?_, h.events, h.fresh, ?_, h.known, h.gone, h.frames, h.nested, h.placed, h.accepted,
    h.shut, h.closing⟩
  . intro hs'
    cases hs'.symm.trans hs
  . intro info hinfo c hc
    rcases List.mem_append.mp hinfo with hinfo | hinfo
    . exact h.cache info hinfo c hc
    . rw [List.mem_singleton.mp hinfo] at hc ⊢
      refine ⟨ht c hc, ?_⟩
      rw [show t = .event c from hc]
      exact (h.events c).evts

theorem Owned.removeTimerReq (h : w.Owned) (c : Nat)
    : (w.removeTimerReq c).Owned := by
  refine ⟨h.listens, ?_, h.idle, h.events, h.fresh, h.cache, h.known, h.gone, h.frames, h.nested, h.placed, h.accepted,
    h.shut, h.closing⟩
  rw [TcpSocket.removeTimerReq, h.timers]
  rfl

theorem Owned.shutdown (h : w.Owned) (hc : c < w.nextChan) (haccepted : .accepted c ∉ w.stack)
    : (w.shutdown c).Owned := by
  have h₁ : (w.removeEvent (.event c)).Owned :=
    h.addInstruction (h.opened hc) (by rintro x ⟨⟩; exact hc) .eiRemove
  have h₂ : ((w.removeEvent (.event c)).closeFd (w.events c).fd).Owned := h₁.same (erased_closeFd ..)
  have hevents : ((w.removeEvent (.event c)).closeFd (w.events c).fd).events = w.events := by
    rw [events_closeFd]
    rfl
  have hkept : ((w.removeEvent (.event c)).closeFd (w.events c).fd).nextChan = w.nextChan
      ∧ ((w.removeEvent (.event c)).closeFd (w.events c).fd).stack = w.stack := by
    cases (w.events c).fd <;> exact ⟨rfl, rfl⟩
  unfold TcpSocket.shutdown closeReconnectTimer
  dsimp only
  rw [show (w.removeEvent (.event c)).events = w.events from rfl]
  generalize (w.removeEvent (.event c)).closeFd (w.events c).fd = w₂ at *
  obtain ⟨hchan, hstack⟩ := hkept
  have he := h₂.events c
  have h₃ : (w₂.setEvent c { w₂.events c with curTimerTriggerTimes := -1 }).Owned :=
    h₂.setEvent (by rw [hchan]; exact hc) ⟨he.write, he.evts, he.closed⟩ (.inl rfl)
  have h₄ := h₃.removeTimerReq c
  have h₅ : ∀ bufferIdList, Owned
      { (w₂.setEvent c { w₂.events c with curTimerTriggerTimes := -1 }).removeTimerReq c with
      bufferIdList } :=
    fun _ => h₄.same rfl
  refine (h₅ _).setEvent ?_ ?_ ?_
  . change c < w₂.nextChan
    rw [hchan]
    exact hc
  . exact ⟨(h₄.events c).write, by simp, fun _ => rfl⟩
  . refine .inr ⟨rfl, ?_⟩
    change .accepted c ∉ w₂.stack
    rw [hstack]
    exact haccepted

theorem mem_dropLast_cons {f g : Frame} {stack : List Frame} (hg : g ∈ (f :: stack).dropLast)
    : g = f ∨ g ∈ stack.dropLast := by
  cases stack with
  | nil => cases hg
  | cons f' stack => exact List.mem_cons.mp hg

theorem Owned.push (h : w.Owned) {f : Frame} (hchan : ∀ c, f.chan = some c → c < w.nextChan)
    (hbottom : w.stack = [] ∨ f.isNested) (haccepted : f.isAccepted = false) (hclose : f.isCloseAll = false)
    (hshut : ∀ c, f = .closing c → (w.events c).fd = none)
    : Owned { w with stack := f :: w.stack } := by
  have hmem : ∀ c, .accepted c ∈ f :: w.stack ↔ .accepted c ∈ w.stack := by
    intro c
    rw [List.mem_cons]
    refine ⟨fun hc => hc.resolve_left ?_, .inr⟩
    rintro rfl
    cases haccepted
  refine ⟨h.listens, h.timers, h.idle, h.events, h.fresh, h.cache, h.known, h.gone, ?_, ?_, ?_, ?_, ?_, ?_⟩
  . exact List.forall_mem_cons.mpr ⟨hchan, h.frames⟩
  . rcases hbottom with hnil | hnested
    . simp [hnil]
    . intro g hg
      rcases mem_dropLast_cons hg with rfl | hg
      . exact hnested
      . exact h.nested g hg
  . intro c hc
    exact (h.placed c hc).imp_right (hmem c).mpr
  . intro c hc
    exact h.accepted c ((hmem c).mp hc)
  . intro c hc
    rcases List.mem_cons.mp hc with heq | hc
    . exact hshut c heq.symm
    . exact h.shut c hc
  . intro rest hrest
    have hrest' : .closeAll rest ∈ w.stack := by
      rcases List.mem_cons.mp hrest with heq | hrest
      . rw [← heq] at hclose
        cases hclose
      . exact hrest
    obtain ⟨hlt, hnone⟩ := h.closing rest hrest'
    refine ⟨?_, hnone⟩
    intro c hc
    exact ⟨(hlt c hc).1, fun hmem' => (hlt c hc).2 ((hmem c).mp hmem')⟩

theorem Owned.callback (h : w.Owned) {f : Frame} (hchan : ∀ c, f.chan = some c → c < w.nextChan)
    (hbottom : w.stack = [] ∨ f.isNested) (haccepted : f.isAccepted = false) (hclose : f.isCloseAll = false)
    (hshut : ∀ c, f = .closing c → (w.events c).fd = none) (e : Entry)
    : (w.callback e f).Owned :=
  (h.push hchan hbottom haccepted hclose hshut).same rfl

theorem Owned.pop (h : w.Owned) {f : Frame} {stack : List Frame} (hstack : w.stack = f :: stack)
    (haccepted : f.isAccepted = false)
    : Owned { w with stack } := by
  have hsub : ∀ g ∈ stack, g ∈ w.stack := by
    intro g hg
    rw [hstack]
    exact List.mem_cons_of_mem f hg
  refine ⟨h.listens, h.timers, h.idle, h.events, h.fresh, h.cache, h.known, h.gone, fun g hg => h.frames g (hsub g hg),
    ?_, ?_, fun c hc => h.accepted c (hsub _ hc), fun c hc => h.shut c (hsub _ hc), ?_⟩
  . intro g hg
    apply h.nested
    have hne : stack ≠ [] := by
      rintro rfl
      cases hg
    rw [hstack, List.dropLast_cons_of_ne_nil hne]
    exact List.mem_cons_of_mem f hg
  . intro c hc
    refine (h.placed c hc).imp_right ?_
    rw [hstack, List.mem_cons]
    intro hmem
    refine hmem.resolve_left ?_
    rintro rfl
    cases haccepted
  . intro rest hrest
    obtain ⟨hlt, hnone⟩ := h.closing rest (hsub _ hrest)
    exact ⟨fun c hc => ⟨(hlt c hc).1, fun hmem => (hlt c hc).2 (hsub _ hmem)⟩, hnone⟩

theorem Owned.finishClose (h : w.Owned) (hc : c < w.nextChan) (hfd : (w.events c).fd = none)
    : (w.finishClose c).Owned := by
  have he := h.events c
  have h₁ : (w.setEvent c { w.events c with sharedData := false, evtState := .closed }).Owned :=
    h.setEvent hc ⟨he.write, he.evts, he.closed⟩ (.inl rfl)
  refine ⟨h₁.listens, h₁.timers, h₁.idle, h₁.events, h₁.fresh, h₁.cache, h₁.known, ?_, h₁.frames, h₁.nested, h₁.placed,
    h₁.accepted, h₁.shut, h₁.closing⟩
  intro x hx
  rcases List.mem_append.mp hx with hx | hx
  . exact h₁.gone x hx
  . rw [List.mem_singleton.mp hx]
    refine ⟨?_, hc⟩
    change (Function.update w.events c _ c).fd = none
    rw [Function.update_self]
    exact hfd

theorem shutdown_fd (w : TcpSocket) (c : Nat)
    : ((w.shutdown c).events c).fd = none ∧ ∀ x, x ≠ c → (w.shutdown c).events x = w.events x := by
  cases hfd : (w.events c).fd <;> simp +contextual [TcpSocket.shutdown, hfd, closeFd, closeReconnectTimer,
    TcpSocket.removeTimerReq, TcpSocket.setEvent, removeEvent, TcpSocket.addInstruction]

theorem shutdown_nextChan (w : TcpSocket) (c : Nat)
    : (w.shutdown c).nextChan = w.nextChan := by
  have := congrArg nextChan (shutdown_core w c)
  exact this

theorem Owned.closeEvent (h : w.Owned) (hc : c < w.nextChan) (haccepted : .accepted c ∉ w.stack)
    : (w.closeEvent c).Owned := by
  have h₁ := h.shutdown hc haccepted
  have hc₁ : c < (w.shutdown c).nextChan := by
    rw [shutdown_nextChan]
    exact hc
  unfold TcpSocket.closeEvent
  split
  . exact h
  . split
    . refine h₁.callback ?_ (.inr rfl) rfl rfl ?_ _
      . rintro x ⟨⟩
        exact hc₁
      . rintro x ⟨⟩
        exact (shutdown_fd w c).1
    . exact h₁.finishClose hc₁ (shutdown_fd w c).1

theorem Owned.closeEvent_fd (h : w.Owned) (c : Nat)
    : ((w.closeEvent c).events c).fd = none
      ∧ ∀ x, x ≠ c → ((w.closeEvent c).events x).fd = (w.events x).fd := by
  obtain ⟨hnone, hother⟩ := shutdown_fd w c
  unfold TcpSocket.closeEvent
  split
  . rename_i hclosed
    exact ⟨(h.events c).closed hclosed, fun _ _ => rfl⟩
  . split
    . exact ⟨hnone, fun x hx => congrArg TcpEvent.fd (hother x hx)⟩
    . refine ⟨?_, ?_⟩
      . change (Function.update (w.shutdown c).events c _ c).fd = none
        rw [Function.update_self]
        exact hnone
      . intro x hx
        change (Function.update (w.shutdown c).events c _ x).fd = (w.events x).fd
        rw [Function.update_of_ne hx, hother x hx]

theorem closeEvent_nextChan (w : TcpSocket) (c : Nat)
    : (w.closeEvent c).nextChan = w.nextChan := by
  unfold TcpSocket.closeEvent
  split
  . rfl
  . split
    . exact shutdown_nextChan w c
    . exact shutdown_nextChan w c

theorem closeEvent_stack (hconnected : (w.events c).tcpState ≠ .connected)
    : (w.closeEvent c).stack = w.stack := by
  unfold TcpSocket.closeEvent
  split
  . rfl
  . exact shutdown_stack w c

theorem closeEvent_chans (w : TcpSocket) (c : Nat)
    : (w.closeEvent c).chanIdToConnections = w.chanIdToConnections := by
  have := congrArg (fun l => l.2.1) (closeEvent_limits w c).1
  exact this

theorem closeEvent_connected (hconnected : (w.events c).tcpState = .connected) (stack : List Frame)
    : closeEvent { w with stack } c = ({ w.shutdown c with stack } : TcpSocket).callback (.close c) (.closing c) := by
  unfold TcpSocket.closeEvent
  rw [if_neg (by simp [hconnected]), if_pos hconnected]
  cases hfd : (w.events c).fd <;> simp [TcpSocket.shutdown, hfd, closeFd, closeReconnectTimer, TcpSocket.removeTimerReq,
    TcpSocket.setEvent, removeEvent, TcpSocket.addInstruction, getFdsAndEvts]

theorem Owned.pushCloseAll (h : w.Owned) {rest : List Nat} (hrest : ∀ c ∈ rest, c < w.nextChan ∧ .accepted c ∉ w.stack)
    (hfd : ∀ c ∈ w.chanIdToConnections, (w.events c).fd = none ∨ c ∈ rest)
    : Owned { w with stack := .closeAll rest :: w.stack } := by
  have hmem : ∀ c, Frame.accepted c ∈ Frame.closeAll rest :: w.stack ↔ .accepted c ∈ w.stack := by
    intro c
    simp
  refine ⟨h.listens, h.timers, h.idle, h.events, h.fresh, h.cache, h.known, h.gone, ?_, ?_, ?_, ?_, ?_, ?_⟩
  . exact List.forall_mem_cons.mpr ⟨by simp [Frame.chan], h.frames⟩
  . intro g hg
    rcases mem_dropLast_cons hg with rfl | hg
    . rfl
    . exact h.nested g hg
  . intro c hc
    exact (h.placed c hc).imp_right (hmem c).mpr
  . intro c hc
    exact h.accepted c ((hmem c).mp hc)
  . intro c hc
    exact h.shut c (by simpa using hc)
  . intro rest' hrest'
    have hclosing : (∀ c ∈ rest', c < w.nextChan ∧ .accepted c ∉ w.stack)
        ∧ ∀ c ∈ w.chanIdToConnections, (w.events c).fd = none ∨ c ∈ rest' := by
      rcases List.mem_cons.mp hrest' with heq | hmem'
      . rw [Frame.closeAll.inj heq]
        exact ⟨hrest, hfd⟩
      . exact h.closing rest' hmem'
    refine ⟨?_, hclosing.2⟩
    intro c hc
    exact ⟨(hclosing.1 c hc).1, fun hmem' => (hclosing.1 c hc).2 ((hmem c).mp hmem')⟩

-- The loop of `close` with the connections `cs` left.
theorem Owned.closeConnections (h : w.Owned) {cs : List Nat} (hcs : ∀ c ∈ cs, c < w.nextChan ∧ .accepted c ∉ w.stack)
    (hfd : ∀ c ∈ w.chanIdToConnections, (w.events c).fd = none ∨ c ∈ cs)
    : (w.closeConnections cs).Owned := by
  induction cs generalizing w with
  | nil =>
    refine ⟨h.listens, h.timers, h.idle, h.events, h.fresh, h.cache, ?_, h.gone, h.frames, h.nested, ?_, ?_, h.shut, ?_⟩
    . exact List.forall_mem_nil _
    . intro c hc
      rcases h.placed c hc with hmem | hmem
      . rcases hfd c hmem with hnone | hmem
        . exact absurd hnone hc
        . cases hmem
      . exact .inr hmem
    . intro c hc
      exact ⟨(h.accepted c hc).1, List.not_mem_nil⟩
    . intro rest hrest
      exact ⟨(h.closing rest hrest).1, List.forall_mem_nil _⟩
  | cons c cs ih =>
    obtain ⟨hc, hcs⟩ := List.forall_mem_cons.mp hcs
    have hfd' : ∀ e : Nat → TcpEvent, (e c).fd = none → (∀ x, x ≠ c → (e x).fd = (w.events x).fd)
        → ∀ x ∈ w.chanIdToConnections, (e x).fd = none ∨ x ∈ cs := by
      intro e hnone hother x hx
      by_cases hxc : x = c
      . rw [hxc]
        exact .inl hnone
      . rw [hother x hxc]
        exact (hfd x hx).imp_right fun hmem => (List.mem_cons.mp hmem).resolve_left hxc
    unfold TcpSocket.closeConnections
    split
    . rename_i hconnected
      obtain ⟨hnone, hother⟩ := shutdown_fd w c
      rw [closeEvent_connected hconnected]
      have h₁ := h.shutdown hc.1 hc.2
      have hchans : (w.shutdown c).chanIdToConnections = w.chanIdToConnections :=
        congrArg (fun l => l.2.1) (shutdown_limits w c)
      have h₂ : Owned { w.shutdown c with stack := .closeAll cs :: w.stack } := by
        rw [← shutdown_stack w c]
        apply h₁.pushCloseAll
        . rw [shutdown_nextChan, shutdown_stack]
          exact hcs
        . rw [hchans]
          exact hfd' _ hnone fun x hx => congrArg TcpEvent.fd (hother x hx)
      apply h₂.callback _ (.inr rfl) rfl rfl
      . rintro x ⟨⟩
        exact hnone
      . rintro x ⟨⟩
        change c < (w.shutdown c).nextChan
        rw [shutdown_nextChan]
        exact hc.1
    . rename_i hconnected
      obtain ⟨hnone, hother⟩ := h.closeEvent_fd c
      apply ih (h.closeEvent hc.1 hc.2)
      . rw [closeEvent_nextChan, closeEvent_stack hconnected]
        exact hcs
      . rw [closeEvent_chans]
        exact hfd' _ hnone hother

theorem Owned.closeSocket (h : w.Owned)
    : w.closeSocket.Owned := by
  have h₁ : Owned { if w.evtService then w.removeEvent .socket else w with fdsEvts := [], timer := false } := by
    split
    . rename_i hs
      have h₂ : (w.removeEvent .socket).Owned := h.addInstruction hs (by simp) .eiRemove
      refine ⟨h₂.listens, h₂.timers, ?_, h₂.events, h₂.fresh, h₂.cache, h₂.known, h₂.gone, h₂.frames, h₂.nested,
        h₂.placed, h₂.accepted, h₂.shut, h₂.closing⟩
      intro hs'
      cases hs'.symm.trans hs
    . refine ⟨h.listens, h.timers, ?_, h.events, h.fresh, h.cache, h.known, h.gone, h.frames, h.nested, h.placed,
        h.accepted, h.shut, h.closing⟩
      intro hs
      obtain ⟨hchan, hfd, hcache, hready, haccepting, -⟩ := h.idle hs
      exact ⟨hchan, hfd, hcache, hready, haccepting, rfl⟩
  unfold TcpSocket.closeSocket
  split
  . exact h.same rfl
  . apply h₁.closeConnections
    . intro c hc
      refine ⟨h₁.known c hc, ?_⟩
      exact fun hmem => (h₁.accepted c hmem).2 hc
    . exact fun c hc => .inr hc

theorem Owned.readBlocks (h : w.Owned) (hstack : w.stack = []) (hc : c < w.nextChan) (lens : List Nat)
    : (w.readBlocks c lens).Owned := by
  cases lens with
  | nil => exact h
  | cons len rest =>
    apply h.callback _ (.inl hstack) rfl rfl (by simp)
    rintro x ⟨⟩
    exact hc

theorem Owned.onReadTcpMsg (h : w.Owned) (hstack : w.stack = []) (hc : c < w.nextChan) (ret : Int) (iov : List Nat)
    : (w.onReadTcpMsg c ret iov).Owned := by
  have hchan : ∀ x, some c = some x → x < w.nextChan := by
    rintro x ⟨⟩
    exact hc
  unfold TcpSocket.onReadTcpMsg
  split
  . split
    . exact h.readBlocks hstack hc _
    . split
      . exact h.callback (f := .eof c) hchan (.inl hstack) rfl rfl (by simp) _
      . split
        . exact h.callback (f := .error c) hchan (.inl hstack) rfl rfl (by simp) _
        . exact h.closeEvent hc (by rw [hstack]; exact List.not_mem_nil)
  . exact h.same rfl

theorem Owned.onStarted (h : w.Owned) (hstack : w.stack = []) (hc : c < w.nextChan)
    : (w.onStarted c).Owned := by
  have he := h.events c
  unfold TcpSocket.onStarted
  dsimp only
  split
  . apply h.callback _ (.inl hstack) rfl rfl (by simp)
    rintro x ⟨⟩
    exact hc
  . exact h.setEvent hc ⟨he.write, he.evts, he.closed⟩ (.inl rfl)

theorem Owned.processInstruction (h : w.Owned) (hstack : w.stack = [])
    : w.processInstruction.Owned := by
  unfold TcpSocket.processInstruction
  split
  . exact h
  . rename_i info infos hcache
    have hs : w.evtService = true := by
      cases hs : w.evtService with
      | true => rfl
      | false => cases hcache.symm.trans (h.idle hs).2.2.1
    have hidle : ∀ {p : Prop}, w.evtService = false → p := fun hs' => absurd (hs'.symm.trans hs) (by simp)
    have hinfo := h.cache info (by rw [hcache]; exact List.mem_cons_self)
    have h₁ : Owned { w with evtHandlersCache := infos } := by
      refine ⟨h.listens, h.timers, hidle, h.events, h.fresh, ?_, h.known, h.gone, h.frames, h.nested, h.placed,
        h.accepted, h.shut, h.closing⟩
      intro info' hinfo'
      exact h.cache info' (by rw [hcache]; exact List.mem_cons_of_mem _ hinfo')
    have h₂ : ∀ handlers ready accepting, Owned { w with
        evtHandlersCache := infos
        evtHandlers := handlers
        listenReady := ready
        accepting := accepting } :=
      fun _ _ _ => ⟨h.listens, h.timers, hidle, h.events, h.fresh, h₁.cache, h.known, h.gone, h.frames, h.nested,
        h.placed, h.accepted, h.shut, h.closing⟩
    dsimp only
    split
    . unfold processAddInstruction
      dsimp only
      split
      . exact h₁
      . split
        . exact h₂ _ _ _
        . rename_i c heq
          obtain ⟨hc, hevts⟩ := hinfo c heq
          have hwrite : info.fdsEvts.countP (·.2 = .write) = 0 := by
            rw [List.countP_eq_zero]
            intro p hp
            simp [hevts p hp]
          have he := h.events c
          have h₃ := h₂ (w.evtHandlers ++ [info.evtPtr]) w.listenReady w.accepting
          refine Owned.onStarted (h₃.setEvent hc ⟨?_, he.evts, he.closed⟩ (.inl rfl)) hstack hc
          simp only [hwrite, Nat.add_zero]
          exact he.write
    . unfold processRemoveInstruction
      dsimp only
      split
      . split
        . exact h₂ _ _ _
        . exact h₂ _ _ _
      . rename_i c heq
        have he := h.events c
        have h₃ := h₂ (w.evtHandlers.erase info.evtPtr) w.listenReady w.accepting
        refine h₃.setEvent (hinfo c heq).1 ⟨?_, he.evts, he.closed⟩ (.inl rfl)
        change (if _ then 0 else (w.events c).writeReady) = 0
        rw [he.write, ite_self]

theorem Owned.setListener (h : w.Owned) (hs : w.evtService = true) (fd : Option Nat)
    : Owned { w with fd } := by
  refine ⟨h.listens, h.timers, ?_, h.events, h.fresh, h.cache, h.known, h.gone, h.frames, h.nested, h.placed,
    h.accepted, h.shut, h.closing⟩
  intro hs'
  cases hs'.symm.trans hs

theorem Owned.removeListener (h : w.Owned) (hs : w.evtService = true)
    : w.removeListener.Owned := by
  have h₁ : (w.removeEvent .socket).Owned := h.addInstruction hs (by simp) .eiRemove
  have h₂ : ((w.removeEvent .socket).closeFd w.fd).Owned := h₁.same (erased_closeFd ..)
  have hs₂ : ((w.removeEvent .socket).closeFd w.fd).evtService = true := by
    cases w.fd <;> exact hs
  exact (h₂.setListener hs₂ none).same rfl

-- The callback `cb_conn_` has returned, from now on the connection can be closed.
theorem Owned.addConnection (h : w.Owned) {stack : List Frame} (hstack : w.stack = .accepted c :: stack)
    : (addConnection { w with stack } c).Owned := by
  have hnil : stack = [] := h.bottom hstack rfl
  have hmem : .accepted c ∈ w.stack := by
    rw [hstack]
    exact List.mem_cons_self
  have hc : c < w.nextChan := h.frames _ hmem c rfl
  have h₁ : Owned { w with
      stack
      chanIdToConnections := w.chanIdToConnections ++ [c]
      connectCnt := w.connectCnt + 1 } := by
    rw [hnil]
    refine ⟨h.listens, h.timers, h.idle, h.events, h.fresh, h.cache, ?_, h.gone, ?_, ?_, ?_, ?_, ?_, ?_⟩
    . intro x hx
      rcases List.mem_append.mp hx with hx | hx
      . exact h.known x hx
      . rw [List.mem_singleton.mp hx]
        exact hc
    . exact List.forall_mem_nil _
    . exact List.forall_mem_nil _
    . intro x hx
      refine .inl (List.mem_append.mpr ((h.placed x hx).imp_right ?_))
      rw [hstack, hnil, List.mem_singleton, Frame.accepted.injEq]
      rintro rfl
      exact List.mem_singleton_self _
    all_goals simp
  unfold TcpSocket.addConnection
  dsimp only
  split
  . exact h₁
  . exact Owned.removeListener (h₁.same rfl) (h.opened hc)

theorem Owned.ret (h : w.Owned)
    : w.ret.Owned := by
  unfold TcpSocket.ret
  split
  . exact h
  . rename_i f stack hstack
    have hmem : f ∈ w.stack := by
      rw [hstack]
      exact List.mem_cons_self
    have hchan := h.frames f hmem
    cases f with
    | accepted c => exact h.addConnection hstack
    | started c => exact h.pop hstack rfl
    | data c rest => exact (h.pop hstack rfl).readBlocks (h.bottom hstack rfl) (hchan c rfl) rest
    | eof c => exact h.pop hstack rfl
    | error c =>
      have hnil : stack = [] := h.bottom hstack rfl
      exact (h.pop hstack rfl).closeEvent (hchan c rfl) (by rw [hnil]; exact List.not_mem_nil)
    | closing c =>
      have h₁ := (h.pop hstack rfl).finishClose (hchan c rfl) (h.shut c hmem)
      dsimp only
      split
      . rename_i rest stack' hstack'
        have hrest : .closeAll rest ∈ (TcpSocket.finishClose { w with stack } c).stack := by
          rw [hstack']
          exact List.mem_cons_self
        obtain ⟨hlt, hnone⟩ := h₁.closing rest hrest
        apply Owned.closeConnections (h₁.pop hstack' rfl)
        . intro x hx
          refine ⟨(hlt x hx).1, fun hmem' => (hlt x hx).2 ?_⟩
          rw [hstack']
          exact List.mem_cons_of_mem _ hmem'
        . exact hnone
      . exact h₁
    | closeAll rest => exact h.pop hstack rfl

theorem Owned.removeClosedChans (h : w.Owned)
    : w.removeClosedChans.Owned := by
  have hsub : ∀ c ∈ w.chanIdToConnections.filter (· ∉ w.closedChanIds), c ∈ w.chanIdToConnections :=
    fun c hc => (List.mem_filter.mp hc).1
  refine ⟨h.listens, h.timers, h.idle, h.events, h.fresh, h.cache, ?_, ?_, h.frames, h.nested, ?_, ?_, h.shut, ?_⟩
  . exact fun c hc => h.known c (hsub c hc)
  . exact List.forall_mem_nil _
  . intro c hc
    refine (h.placed c hc).imp_left fun hmem => List.mem_filter.mpr ⟨hmem, ?_⟩
    exact decide_eq_true fun hclosed => hc (h.gone c hclosed).1
  . intro c hc
    exact ⟨(h.accepted c hc).1, fun hmem => (h.accepted c hc).2 (hsub c hmem)⟩
  . intro rest hrest
    exact ⟨(h.closing rest hrest).1, fun c hc => (h.closing rest hrest).2 c (hsub c hc)⟩

theorem Owned.reopenListener (h : w.Owned) (hs : w.evtService = true) (answers : TimerAnswers)
    : (w.reopenListener answers).Owned := by
  have h₁ := h.removeListener hs
  have hs₁ : w.removeListener.evtService = true := by
    unfold TcpSocket.removeListener
    cases w.fd <;> exact hs
  unfold TcpSocket.reopenListener
  generalize w.removeListener = w₁ at *
  cases answers.socket with
  | false => exact (h₁.setListener hs₁ none).same rfl
  | true =>
    have h₂ : Owned { w₁ with fd := some w₁.nextFd, fdsEvts := w₁.fdsEvts ++ [(w₁.nextFd, Ev.read)] } :=
      (h₁.setListener hs₁ (some w₁.nextFd)).same rfl
    cases answers.listen with
    | false => exact h₂.same rfl
    | true => exact (h₂.addInstruction hs₁ (by simp) .eiAdd).same rfl

theorem Owned.onTimer (h : w.Owned) (hs : w.evtService = true) (answers : TimerAnswers)
    : (w.onTimer answers).Owned := by
  have h₁ := h.removeClosedChans
  have hs₁ : w.removeClosedChans.evtService = true := hs
  unfold TcpSocket.onTimer
  rw [if_pos h.listens]
  generalize w.removeClosedChans = w₁ at *
  have h₂ : Owned (if w₁.isReopenListener then w₁.reopenListener answers else w₁) := by
    split
    . exact h₁.reopenListener hs₁ answers
    . exact h₁
  dsimp only
  generalize (if w₁.isReopenListener then w₁.reopenListener answers else w₁) = w₂ at *
  split
  . exact h₂
  . rw [h₂.timers]
    exact h₂

theorem Owned.openSocket (h : w.Owned) (answers : OpenAnswers)
    : (w.openSocket answers).1.Owned := by
  have h₁ : ∀ fd fdsEvts timer, Owned { w with evtService := true, fd, fdsEvts, timer } := by
    intro fd fdsEvts timer
    exact ⟨h.listens, h.timers, by simp, h.events, h.fresh, h.cache, h.known, h.gone, h.frames, h.nested, h.placed,
      h.accepted, h.shut, h.closing⟩
  unfold TcpSocket.openSocket
  split
  . exact h
  . dsimp only
    split
    . exact h₁ _ _ _
    . cases answers.socket with
      | false => exact h₁ _ _ _
      | true =>
        simp only [getTcpSocketFd, if_true, h.listens, openListener]
        cases answers.listen with
        | false => exact (h₁ none w.fdsEvts w.timer).same rfl
        | true =>
          exact ((h₁ (some w.nextFd) (w.fdsEvts ++ [(w.nextFd, Ev.read)]) true).addInstruction rfl
            (by simp) .eiAdd).same
            rfl

-- A connection that is given up in `tcp_event::open`.
theorem Owned.newChan (h : w.Owned) (hs : w.evtService = true)
    : Owned { w with nextChan := w.nextChan + 1, events := Function.update w.events w.nextChan {} } := by
  have hfd : ∀ c, (Function.update w.events w.nextChan {} c).fd = (w.events c).fd := by
    intro c
    by_cases hc : c = w.nextChan
    . rw [hc, Function.update_self, (h.fresh _ (Nat.le_refl _)).2.2]
    . rw [Function.update_of_ne hc]
  refine ⟨h.listens, h.timers, ?_, ?_, ?_, ?_, ?_, ?_, ?_, h.nested, ?_, ?_, ?_, ?_⟩
  . intro hs'
    cases hs'.symm.trans hs
  . intro c
    by_cases hc : c = w.nextChan
    . rw [hc]
      simp only [Function.update_self]
      exact ⟨rfl, by simp, fun _ => rfl⟩
    . simp only [Function.update_of_ne hc]
      exact h.events c
  . intro c hc
    have hne : c ≠ w.nextChan := Nat.ne_of_gt hc
    simp only [Function.update_of_ne hne]
    exact h.fresh c (Nat.le_of_succ_le hc)
  . exact fun info hinfo c hc => ⟨Nat.lt_succ_of_lt (h.cache info hinfo c hc).1, (h.cache info hinfo c hc).2⟩
  . exact fun c hc => Nat.lt_succ_of_lt (h.known c hc)
  . intro c hc
    exact ⟨(hfd c).trans (h.gone c hc).1, Nat.lt_succ_of_lt (h.gone c hc).2⟩
  . exact fun f hf c hc => Nat.lt_succ_of_lt (h.frames f hf c hc)
  . intro c hc
    exact h.placed c (by rw [← hfd]; exact hc)
  . intro c hc
    exact ⟨by rw [hfd]; exact (h.accepted c hc).1, (h.accepted c hc).2⟩
  . intro c hc
    exact (hfd c).trans (h.shut c hc)
  . intro rest hrest
    obtain ⟨hlt, hnone⟩ := h.closing rest hrest
    refine ⟨fun c hc => ⟨Nat.lt_succ_of_lt (hlt c hc).1, (hlt c hc).2⟩, ?_⟩
    intro c hc
    rw [hfd]
    exact hnone c hc

-- A connection that has been opened, `cb_conn_` is called.
theorem Owned.accept (h : w.Owned) (hs : w.evtService = true) (hstack : w.stack = []) {e : TcpEvent} (he : e.Listens)
    (hfd : e.fd ≠ none)
    : Owned { w with
        nextChan := w.nextChan + 1
        events := Function.update w.events w.nextChan e
        stack := [.accepted w.nextChan] } := by
  have hne : ∀ c, c < w.nextChan → c ≠ w.nextChan := fun c hc => Nat.ne_of_lt hc
  refine ⟨h.listens, h.timers, ?_, ?_, ?_, ?_, ?_, ?_, ?_, ?_, ?_, ?_, ?_, ?_⟩
  . intro hs'
    cases hs'.symm.trans hs
  . intro c
    by_cases hc : c = w.nextChan
    . rw [hc]
      simp only [Function.update_self]
      exact he
    . simp only [Function.update_of_ne hc]
      exact h.events c
  . intro c hc
    have hne' : c ≠ w.nextChan := Nat.ne_of_gt hc
    simp only [Function.update_of_ne hne']
    exact h.fresh c (Nat.le_of_succ_le hc)
  . exact fun info hinfo c hc => ⟨Nat.lt_succ_of_lt (h.cache info hinfo c hc).1, (h.cache info hinfo c hc).2⟩
  . exact fun c hc => Nat.lt_succ_of_lt (h.known c hc)
  . intro c hc
    obtain ⟨hnone, hlt⟩ := h.gone c hc
    simp only [Function.update_of_ne (hne c hlt)]
    exact ⟨hnone, Nat.lt_succ_of_lt hlt⟩
  . intro f hf c hc
    rw [List.mem_singleton.mp hf] at hc
    cases hc
    exact Nat.lt_succ_self _
  . simp
  . intro c hc
    by_cases hc' : c = w.nextChan
    . rw [hc']
      exact .inr (List.mem_singleton_self _)
    . simp only [Function.update_of_ne hc'] at hc
      refine (h.placed c hc).imp_right fun hmem => ?_
      rw [hstack] at hmem
      cases hmem
  . intro c hc
    rw [List.mem_singleton, Frame.accepted.injEq] at hc
    rw [hc]
    simp only [Function.update_self]
    exact ⟨hfd, fun hmem => Nat.lt_irrefl _ (h.known _ hmem)⟩
  . simp
  . simp

theorem getBufferId_eq {registerRingBuffer : Bool} {bufId : Option Nat}
    (hget : w.getBufferId registerRingBuffer = (w', bufId))
    : w' = { w with bufferIdList := w'.bufferIdList, nextBuf := w'.nextBuf } := by
  unfold getBufferId at hget
  split at hget
  . split at hget
    . cases hget
      rfl
    . cases hget
      rfl
  . cases hget
    rfl

theorem Owned.onAccept (h : w.Owned) (hs : w.evtService = true) (hstack : w.stack = []) (fd : Nat)
    (registerRingBuffer established : Bool)
    : (w.onAccept fd registerRingBuffer established).Owned := by
  unfold TcpSocket.onAccept
  split
  . dsimp only
    split
    . rename_i w₁ hget
      have heq := getBufferId_eq hget
      generalize w₁.bufferIdList = ids, w₁.nextBuf = nextBuf at heq
      subst heq
      apply (h.newChan hs).same
      simp [erased, closeFd, destroyEvent, TcpSocket.setEvent, newEvent]
    . rename_i w₁ bufId hget
      have heq := getBufferId_eq hget
      generalize w₁.bufferIdList = ids, w₁.nextBuf = nextBuf at heq
      subst heq
      split
      . have he : TcpEvent.Listens {
            fd := some fd
            sharedData := true
            tcpState := .connected
            bufId := some bufId
            fdsEvts := [(fd, .read)] } :=
          ⟨rfl, by simp, by simp⟩
        have h₁ := h.accept hs hstack he (by simp)
        apply (h₁.addInstruction (t := .event w.nextChan) hs (by rintro c ⟨⟩; exact Nat.lt_succ_self _) .eiAdd).same
        simp [erased, TcpSocket.callback, addLog, addEvent, TcpSocket.addInstruction, getFdsAndEvts, TcpSocket.setEvent,
          newEvent, hstack]
      . apply (h.newChan hs).same
        simp [erased, closeFd, destroyEvent, TcpSocket.setEvent, newEvent]
  . exact h

theorem Owned.step (h : w.Owned) (a : Action)
    : (w.step a).Owned := by
  have hservice : ∀ b : Bool, b = true → (w.evtService = false → b = false) → w.evtService = true := by
    intro b hb hidle
    cases hs : w.evtService with
    | true => rfl
    | false => cases hb.symm.trans (hidle hs)
  have hsteps := w.step_steps a
  generalize w.step a = w' at hsteps ⊢
  cases hsteps with
  | idle => exact h
  | openSocket _ answers => exact h.openSocket answers
  | closeSocket => exact h.closeSocket
  | closeTcpChannel _ hc => exact h.closeEvent (h.known _ hc) fun hmem => (h.accepted _ hmem).2 hc
  | ret => exact h.ret
  | processInstruction _ hstack => exact h.processInstruction hstack
  | acceptReady _ _ hready =>
    have hs := hservice _ hready fun hs => (h.idle hs).2.2.2.1
    refine ⟨h.listens, h.timers, ?_, h.events, h.fresh, h.cache, h.known, h.gone, h.frames, h.nested, h.placed,
      h.accepted, h.shut, h.closing⟩
    intro hs'
    cases hs'.symm.trans hs
  | accept _ hstack haccepting =>
    have hs := hservice _ haccepting fun hs => (h.idle hs).2.2.2.2.1
    have h₁ : Owned { w with nextFd := w.nextFd + 1 } := h.same rfl
    exact h₁.onAccept hs hstack _ _ _
  | @readReady _ _ c hready =>
    have he := h.events c
    obtain ⟨multishot, _, -, heq⟩ := handleReadReady_eq w c
    have hset : (w.setEvent c { w.events c with readReady := false, multishot }).Owned :=
      h.setEvent (h.lt_of_readReady hready) ⟨he.write, he.evts, he.closed⟩ (.inl rfl)
    rw [heq]
    exact hset.same rfl
  | @writeReady _ _ c hready => exact absurd (h.events c).write hready
  | readTcpMsg _ hstack hmultishot ret iov =>
    exact h.onReadTcpMsg hstack (h.lt_of_multishot hmultishot) ret iov
  | timer _ _ htimer answers =>
    exact h.onTimer (hservice _ htimer fun hs => (h.idle hs).2.2.2.2.2) answers

end TcpSocket

end Socket
end Ezio
