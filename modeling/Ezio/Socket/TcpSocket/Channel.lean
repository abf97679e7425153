import Ezio.Socket.TcpSocket.Owned

/-!
This module contains a connection of a `tcp_socket` on its own: the order of its callbacks, and the stages that the
connection goes through.
-/

namespace Ezio
namespace Socket

def Entry.chan : Entry → Nat
  | conn c | data c _ | error c _ | close c | released c | tries c => c

-- How far the callbacks of a connection have come, `broken` if one of them has been called out of order.
inductive Phase where
  | idle
  | opened
  | erred
  | closed
  | broken
  deriving DecidableEq, Repr

-- `cb_conn_` comes first, then `cb_data_` any number of times, then perhaps `cb_error_`, and `cb_close_` comes last.
-- The shared data is not used once it has been released.
def Phase.next : Phase → Entry → Phase
  | p, .tries _ => p
  | idle, .conn _ => opened
  | opened, .data _ _ => opened
  | opened, .error _ _ => erred
  | opened, .close _ => closed
  | erred, .close _ => closed
  | _, _ => broken

@[simp]
theorem Phase.next_tries (p : Phase) (c : Nat) : p.next (.tries c) = p := by
  cases p <;> rfl

@[simp]
theorem Phase.next_released (p : Phase) (c : Nat) : p.next (.released c) = broken := by
  cases p <;> rfl

-- `cb_conn_` comes only once.
theorem Phase.next_conn_broken {p : Phase} (hp : p ≠ idle) (c : Nat) : p.next (.conn c) = broken := by
  cases p with
  | idle => exact absurd rfl hp
  | _ => rfl

-- The fds of the event are to be read.
def TcpEvent.reads (e : TcpEvent) : Bool :=
  e.fdsEvts.any (·.2 = .read)

-- `on_started` has been called.
def TcpEvent.started (e : TcpEvent) : Bool :=
  e.evtState ≠ .def_

-- The event stays in its stage.
structure TcpEvent.Stays (e e' : TcpEvent) : Prop where
  state : e'.tcpState = e.tcpState
  shared : e'.sharedData = e.sharedData
  started : e.started = true → e'.started = true
  reads : e.tcpState ≠ .connected → e'.reads = true → e.reads = true
  closed : e.tcpState = .closed → e.fd = none ∧ e.curTimerTriggerTimes = -1
    → e'.fd = none ∧ e'.curTimerTriggerTimes = -1

-- What the socket, the event loop and the user have of a connection.
structure Channel where
  event : TcpEvent := {}
  -- the instructions that the event loop has not seen, with whether they are about reading
  pending : List (ElInstruction × Bool) := []
  frames : List Frame := []
  timed : Bool := false
  phase : Phase := .idle
  deriving DecidableEq

namespace Channel

variable {v : Channel} {c : Nat}

def instruct (v : Channel) (instruction : ElInstruction) : Channel :=
  { v with pending := v.pending ++ [(instruction, v.event.reads)] }

def call (v : Channel) (e : Entry) (f : Frame) : Channel :=
  { v with phase := v.phase.next e, frames := f :: v.frames }

def shutdown (v : Channel) : Channel :=
  { v.instruct .eiRemove with
    timed := false
    event := { v.event with
      fdsEvts := [], fd := none, bufId := none, tcpState := .closed, curTimerTriggerTimes := -1 } }

def finishClose (v : Channel) : Channel :=
  { v with event := { v.event with sharedData := false, evtState := .closed } }

def close (c : Nat) (v : Channel) : Channel :=
  if v.event.tcpState = .closed then
    v
  else if v.event.tcpState = .connected then
    v.shutdown.call (.close c) (.closing c)
  else
    v.shutdown.finishClose

-- The event is only asked to be read once it has been started.
def Covered : Bool → List (ElInstruction × Bool) → Prop
  | _, [] => True
  | _, (.eiRemove, _) :: q => Covered true q
  | started, (.eiAdd, reads) :: q => (reads → started) ∧ Covered started q

theorem Covered.mono {started : Bool} {q : List (ElInstruction × Bool)} (h : Covered started q)
    : Covered true q := by
  induction q generalizing started with
  | nil => trivial
  | cons p q ih =>
    obtain ⟨instruction, reads⟩ := p
    cases instruction with
    | eiAdd => exact ⟨fun _ => rfl, ih h.2⟩
    | eiRemove => exact h

theorem covered_append {started : Bool} {q q' : List (ElInstruction × Bool)} (h : Covered started q)
    (h' : Covered started q')
    : Covered started (q ++ q') := by
  induction q generalizing started with
  | nil => exact h'
  | cons p q ih =>
    obtain ⟨instruction, reads⟩ := p
    cases instruction with
    | eiAdd => exact ⟨h.1, ih h.2 h'⟩
    | eiRemove => exact ih h h'.mono

-- There is nothing to be read.
theorem covered_of_notMem {q : List (ElInstruction × Bool)} (started : Bool) (h : (.eiAdd, true) ∉ q)
    : Covered started q := by
  induction q generalizing started with
  | nil => trivial
  | cons p q ih =>
    obtain ⟨instruction, reads⟩ := p
    rw [List.mem_cons, not_or] at h
    cases instruction with
    | eiAdd =>
      refine ⟨?_, ih started h.2⟩
      rintro rfl
      exact absurd rfl h.1
    | eiRemove => exact ih true h.2

-- The stages of a connection.
inductive Lives (c : Nat) : Channel → Prop where
  -- there is no such connection
  | blank : Lives c {}
  | connecting {v : Channel} (hstate : v.event.tcpState = .def_ ∨ v.event.tcpState = .inprogress)
      (hshared : v.event.sharedData = true) (hphase : v.phase = .idle) (hready : v.event.readReady = false)
      (hmultishot : v.event.multishot = false) (hreads : v.event.reads = false)
      (hpending : (.eiAdd, true) ∉ v.pending) (hframes : v.frames = [])
      : Lives c v
  -- `cb_conn_` is to come
  | connected {v : Channel} (hstate : v.event.tcpState = .connected) (hshared : v.event.sharedData = true)
      (hphase : v.phase = .idle) (hready : v.event.readReady = false) (hmultishot : v.event.multishot = false)
      (hpending : Covered v.event.started v.pending) (hframes : v.frames = [])
      : Lives c v
  | opened {v : Channel} (hstate : v.event.tcpState = .connected) (hshared : v.event.sharedData = true)
      (hphase : v.phase = .opened) (herror : .error c ∉ v.frames) (hclosing : .closing c ∉ v.frames)
      : Lives c v
  | erred {v : Channel} (hstate : v.event.tcpState = .connected) (hshared : v.event.sharedData = true)
      (hphase : v.phase = .erred) (hframes : v.frames = [.error c])
      : Lives c v
  -- a read has returned 0
  | ended {v : Channel} (hstate : v.event.tcpState = .connected) (hshared : v.event.sharedData = true)
      (hphase : v.phase = .closed) (hframes : ∀ f ∈ v.frames, f = .eof c)
      : Lives c v
  | closing {v : Channel} {frames : List Frame} (hstate : v.event.tcpState = .closed)
      (hphase : v.phase = .closed) (hframes : v.frames = .closing c :: frames) (hfd : v.event.fd = none)
      (htimes : v.event.curTimerTriggerTimes = -1) (htimed : v.timed = false)
      : Lives c v
  | closed {v : Channel} (hstate : v.event.tcpState = .closed) (hshared : v.event.sharedData = false)
      (hphase : v.phase = .idle ∨ v.phase = .closed) (hfd : v.event.fd = none)
      (htimes : v.event.curTimerTriggerTimes = -1) (htimed : v.timed = false)
      : Lives c v

namespace Lives

theorem unbroken (h : v.Lives c) : v.phase ≠ .broken := by
  cases h with
  | blank => simp
  | closed _ _ hphase => rcases hphase with hphase | hphase <;> simp [hphase]
  | _ => simp_all

theorem phase_of_closed (h : v.Lives c) (hclosed : v.event.tcpState = .closed)
    : v.phase = .idle ∨ v.phase = .closed := by
  cases h with
  | blank => cases hclosed
  | connecting hstate =>
    rw [hclosed] at hstate
    rcases hstate with hstate | hstate <;> cases hstate
  | closing _ hphase => exact .inr hphase
  | closed _ _ hphase => exact hphase
  | connected hstate | opened hstate | erred hstate | ended hstate =>
    rw [hclosed] at hstate
    cases hstate

-- The connection can be closed in these phases.
theorem close (h : v.Lives c)
    (hclosable : v.event.tcpState = .connected → v.phase = .opened ∨ v.phase = .erred)
    : (v.close c).Lives c := by
  unfold Channel.close
  split
  . exact h
  . next hopen =>
    split
    . next hconnected =>
      refine .closing rfl ?_ rfl rfl rfl rfl
      change v.phase.next (.close c) = .closed
      rcases hclosable hconnected with hphase | hphase <;> rw [hphase] <;> rfl
    . next hnot =>
      refine .closed rfl rfl ?_ rfl rfl rfl
      change v.phase = .idle ∨ v.phase = .closed
      cases h with
      | blank => exact .inl rfl
      | connecting _ _ hphase => exact .inl hphase
      | connected hstate | opened hstate | erred hstate | ended hstate => exact absurd hstate hnot
      | closing hstate | closed hstate => exact absurd hstate hopen

-- Otherwise its `cb_close_` is out of order.
theorem close_broken (h : v.Lives c) (hconnected : v.event.tcpState = .connected) (hopened : v.phase ≠ .opened)
    (herred : v.phase ≠ .erred)
    : (v.close c).phase = .broken := by
  have hphase : v.phase = .idle ∨ v.phase = .closed := by
    cases hphase : v.phase with
    | idle => exact .inl rfl
    | closed => exact .inr rfl
    | opened => exact absurd hphase hopened
    | erred => exact absurd hphase herred
    | broken => exact absurd hphase h.unbroken
  unfold Channel.close
  rw [if_neg (by simp [hconnected]), if_pos hconnected]
  change v.phase.next (.close c) = .broken
  rcases hphase with hphase | hphase <;> rw [hphase] <;> rfl

-- The callback of `tcp_event::close` returns.
theorem finishClose (h : v.Lives c) {frames : List Frame} (hframes : v.frames = .closing c :: frames)
    : ({ v with frames } : Channel).finishClose.Lives c := by
  cases h with
  | blank => cases hframes
  | opened _ _ _ _ hclosing => exact absurd (hframes ▸ List.mem_cons_self) hclosing
  | ended _ _ _ hall =>
    have := hall (.closing c) (hframes ▸ List.mem_cons_self)
    cases this
  | closing hstate hphase _ hfd htimes htimed => exact .closed hstate rfl (.inr hphase) hfd htimes htimed
  | closed hstate _ hphase hfd htimes htimed => exact .closed hstate rfl hphase hfd htimes htimed
  | connecting _ _ _ _ _ _ _ hnone | connected _ _ _ _ _ _ hnone | erred _ _ _ hnone =>
    rw [hframes] at hnone
    cases hnone

-- Another callback returns.
theorem pop (h : v.Lives c) {f : Frame} {frames : List Frame} (hframes : v.frames = f :: frames)
    (hclosing : f ≠ .closing c) (herror : f ≠ .error c)
    : ({ v with frames } : Channel).Lives c := by
  have hmem : ∀ g ∈ frames, g ∈ v.frames := by
    intro g hg
    rw [hframes]
    exact List.mem_cons_of_mem f hg
  cases h with
  | blank => cases hframes
  | opened hstate hshared hphase herror hclosing =>
    exact .opened hstate hshared hphase (fun h => herror (hmem _ h)) (fun h => hclosing (hmem _ h))
  | ended hstate hshared hphase hall => exact .ended hstate hshared hphase fun g hg => hall g (hmem g hg)
  | closed hstate hshared hphase hfd htimes htimed => exact .closed hstate hshared hphase hfd htimes htimed
  | erred _ _ _ herr =>
    rw [hframes] at herr
    cases herr
    exact absurd rfl herror
  | closing _ _ hclose =>
    rw [hframes] at hclose
    cases hclose
    exact absurd rfl hclosing
  | connecting _ _ _ _ _ _ _ hnone | connected _ _ _ _ _ _ hnone =>
    rw [hframes] at hnone
    cases hnone

-- `cb_error_` returns.
theorem popError (h : v.Lives c) {frames : List Frame} (hframes : v.frames = .error c :: frames)
    : (({ v with frames } : Channel).close c).Lives c := by
  cases h with
  | blank => cases hframes
  | opened _ _ _ herror => exact absurd (hframes ▸ List.mem_cons_self) herror
  | ended _ _ _ hall =>
    have := hall (.error c) (hframes ▸ List.mem_cons_self)
    cases this
  | erred hstate _ hphase _ =>
    unfold Channel.close
    rw [if_neg (by simp [hstate]), if_pos hstate]
    refine .closing rfl ?_ rfl rfl rfl rfl
    change v.phase.next (.close c) = .closed
    rw [hphase]
    rfl
  | closed hstate hshared hphase hfd htimes htimed =>
    unfold Channel.close
    rw [if_pos hstate]
    exact .closed hstate hshared hphase hfd htimes htimed
  | connecting _ _ _ _ _ _ _ hnone | connected _ _ _ _ _ _ hnone | closing _ _ hnone =>
    rw [hframes] at hnone
    cases hnone

-- `cb_data_` returns and there is a block left.
theorem data (h : v.Lives c) {lens rest : List Nat} {frames : List Frame} (hframes : v.frames = .data c lens :: frames)
    (hopen : v.event.tcpState ≠ .closed) (len : Nat)
    : (({ v with frames } : Channel).call (.data c len) (.data c rest)).Lives c := by
  cases h with
  | blank => cases hframes
  | opened hstate hshared hphase herror hclosing =>
    rw [hframes, List.mem_cons, not_or] at herror hclosing
    refine .opened hstate hshared ?_ ?_ ?_
    . change v.phase.next (.data c len) = .opened
      rw [hphase]
      rfl
    . exact List.not_mem_cons_of_ne_of_not_mem (by simp) herror.2
    . exact List.not_mem_cons_of_ne_of_not_mem (by simp) hclosing.2
  | ended _ _ _ hall =>
    have := hall (.data c lens) (hframes ▸ List.mem_cons_self)
    cases this
  | closing hstate | closed hstate => exact absurd hstate hopen
  | connecting _ _ _ _ _ _ _ hnone | connected _ _ _ _ _ _ hnone | erred _ _ _ hnone =>
    rw [hframes] at hnone
    cases hnone

-- A read completes while no callback is running.
theorem reading (h : v.Lives c) (hframes : v.frames = []) (hmultishot : v.event.multishot = true)
    (hopen : v.event.tcpState ≠ .closed)
    : v.event.tcpState = .connected ∧ v.event.sharedData = true ∧ (v.phase = .opened ∨ v.phase = .closed) := by
  cases h with
  | blank => cases hmultishot
  | opened hstate hshared hphase => exact ⟨hstate, hshared, .inl hphase⟩
  | ended hstate hshared hphase => exact ⟨hstate, hshared, .inr hphase⟩
  | closing hstate | closed hstate => exact absurd hstate hopen
  | connecting _ _ _ _ hnot | connected _ _ _ _ hnot =>
    rw [hmultishot] at hnot
    cases hnot
  | erred _ _ _ herr =>
    rw [hframes] at herr
    cases herr

-- The shared data has been released.
theorem shared_of_closed (h : v.Lives c) (hframes : v.frames = []) (hclosed : v.event.tcpState = .closed)
    : v.event.sharedData = false ∧ v.event.fd = none ∧ v.event.curTimerTriggerTimes = -1 := by
  cases h with
  | blank => cases hclosed
  | closed _ hshared _ hfd htimes => exact ⟨hshared, hfd, htimes⟩
  | closing _ _ hnone =>
    rw [hframes] at hnone
    cases hnone
  | connecting hstate =>
    rw [hclosed] at hstate
    rcases hstate with hstate | hstate <;> cases hstate
  | connected hstate | opened hstate | erred hstate | ended hstate =>
    rw [hclosed] at hstate
    cases hstate

theorem shared_of_open (h : v.Lives c) (hne : v ≠ {}) (hopen : v.event.tcpState ≠ .closed)
    : v.event.sharedData = true := by
  cases h with
  | blank => exact absurd rfl hne
  | closing hstate | closed hstate => exact absurd hstate hopen
  | connecting _ hshared | connected _ hshared | opened _ hshared | erred _ hshared | ended _ hshared => exact hshared

-- As long as `cb_conn_` is to come, the event is not read.
theorem stays (h : v.Lives c) (hne : v ≠ {}) {e : TcpEvent} (he : v.event.Stays e)
    (hread : v.phase = .idle → v.event.tcpState ≠ .closed → v.event.readReady = false → v.event.multishot = false
      → e.readReady = false ∧ e.multishot = false)
    : ({ v with event := e } : Channel).Lives c := by
  cases h with
  | blank => exact absurd rfl hne
  | connecting hstate hshared hphase hnotReady hnotMultishot hreads hpending hframes =>
    have hopen : v.event.tcpState ≠ .closed := by
      rcases hstate with hstate | hstate <;> rw [hstate] <;> simp
    obtain ⟨hnotReady', hnotMultishot'⟩ := hread hphase hopen hnotReady hnotMultishot
    have hreads' : e.reads = false := by
      have hnot := mt (he.reads (by rcases hstate with hstate | hstate <;> rw [hstate] <;> simp))
      rw [hreads] at hnot
      simpa using hnot
    refine .connecting ?_ (he.shared.trans hshared) hphase hnotReady' hnotMultishot' hreads' hpending hframes
    exact hstate.imp he.state.trans he.state.trans
  | connected hstate hshared hphase hnotReady hnotMultishot hpending hframes =>
    obtain ⟨hnotReady', hnotMultishot'⟩ := hread hphase (by simp [hstate]) hnotReady hnotMultishot
    refine .connected (he.state.trans hstate) (he.shared.trans hshared) hphase hnotReady' hnotMultishot' ?_ hframes
    cases hstarted : v.event.started with
    | true =>
      rw [hstarted] at hpending
      change Covered e.started v.pending
      rw [he.started hstarted]
      exact hpending
    | false =>
      rw [hstarted] at hpending
      change Covered e.started v.pending
      cases e.started with
      | true => exact hpending.mono
      | false => exact hpending
  | opened hstate hshared hphase herror hclosing =>
    exact .opened (he.state.trans hstate) (he.shared.trans hshared) hphase herror hclosing
  | erred hstate hshared hphase hframes =>
    exact .erred (he.state.trans hstate) (he.shared.trans hshared) hphase hframes
  | ended hstate hshared hphase hframes =>
    exact .ended (he.state.trans hstate) (he.shared.trans hshared) hphase hframes
  | closing hstate hphase hframes hfd htimes htimed =>
    obtain ⟨hfd', htimes'⟩ := he.closed hstate ⟨hfd, htimes⟩
    exact .closing (he.state.trans hstate) hphase hframes hfd' htimes' htimed
  | closed hstate hshared hphase hfd htimes htimed =>
    obtain ⟨hfd', htimes'⟩ := he.closed hstate ⟨hfd, htimes⟩
    exact .closed (he.state.trans hstate) (he.shared.trans hshared) hphase hfd' htimes' htimed

-- Whatever is added to the queue must not ask for reading before the event has been started.
theorem append (h : v.Lives c) (hne : v ≠ {}) {q : List (ElInstruction × Bool)}
    (hconnecting : v.event.tcpState ≠ .connected → (.eiAdd, true) ∉ q) (hcovered : Covered v.event.started q)
    : ({ v with pending := v.pending ++ q } : Channel).Lives c := by
  cases h with
  | blank => exact absurd rfl hne
  | connecting hstate hshared hphase hready hmultishot hreads hpending hframes =>
    refine .connecting hstate hshared hphase hready hmultishot hreads ?_ hframes
    rw [List.mem_append, not_or]
    refine ⟨hpending, hconnecting ?_⟩
    intro hconnected
    rw [hconnected] at hstate
    rcases hstate with hstate | hstate <;> cases hstate
  | connected hstate hshared hphase hready hmultishot hpending hframes =>
    exact .connected hstate hshared hphase hready hmultishot (covered_append hpending hcovered) hframes
  | opened hstate hshared hphase herror hclosing => exact .opened hstate hshared hphase herror hclosing
  | erred hstate hshared hphase hframes => exact .erred hstate hshared hphase hframes
  | ended hstate hshared hphase hframes => exact .ended hstate hshared hphase hframes
  | closing hstate hphase hframes hfd htimes htimed => exact .closing hstate hphase hframes hfd htimes htimed
  | closed hstate hshared hphase hfd htimes htimed => exact .closed hstate hshared hphase hfd htimes htimed

theorem remove (h : v.Lives c) (hne : v ≠ {}) : (v.instruct .eiRemove).Lives c :=
  h.append hne (fun _ => by simp) trivial

theorem setTimed (h : v.Lives c) (hne : v ≠ {}) {timed : Bool} (hopen : timed = true → v.event.tcpState ≠ .closed)
    : ({ v with timed } : Channel).Lives c := by
  have hnot : v.event.tcpState = .closed → timed = false := by
    intro hclosed
    cases timed with
    | true => exact absurd hclosed (hopen rfl)
    | false => rfl
  cases h with
  | blank => exact absurd rfl hne
  | connecting hstate hshared hphase hready hmultishot hreads hpending hframes =>
    exact .connecting hstate hshared hphase hready hmultishot hreads hpending hframes
  | connected hstate hshared hphase hready hmultishot hpending hframes =>
    exact .connected hstate hshared hphase hready hmultishot hpending hframes
  | opened hstate hshared hphase herror hclosing => exact .opened hstate hshared hphase herror hclosing
  | erred hstate hshared hphase hframes => exact .erred hstate hshared hphase hframes
  | ended hstate hshared hphase hframes => exact .ended hstate hshared hphase hframes
  | closing hstate hphase hframes hfd htimes htimed => exact .closing hstate hphase hframes hfd htimes (hnot hstate)
  | closed hstate hshared hphase hfd htimes htimed => exact .closed hstate hshared hphase hfd htimes (hnot hstate)

-- A connection that is neither connected nor closed.
theorem connecting_of (h : v.Lives c) (hne : v ≠ {}) (hopen : v.event.tcpState ≠ .closed)
    (hnot : v.event.tcpState ≠ .connected)
    : v.event.sharedData = true ∧ v.phase = .idle ∧ v.event.readReady = false ∧ v.event.multishot = false
      ∧ v.event.reads = false ∧ (.eiAdd, true) ∉ v.pending ∧ v.frames = [] := by
  cases h with
  | blank => exact absurd rfl hne
  | connecting _ hshared hphase hready hmultishot hreads hpending hframes =>
    exact ⟨hshared, hphase, hready, hmultishot, hreads, hpending, hframes⟩
  | connected hstate | opened hstate | erred hstate | ended hstate => exact absurd hstate hnot
  | closing hstate | closed hstate => exact absurd hstate hopen

-- The connection is connected, whether `cb_conn_` has been called or not.
theorem setConnected (h : v.Lives c) (hne : v ≠ {}) (hopen : v.event.tcpState ≠ .closed)
    : ({ v with event := { v.event with tcpState := .connected } } : Channel).Lives c := by
  by_cases hconnected : v.event.tcpState = .connected
  . have hsame : ({ v.event with tcpState := .connected } : TcpEvent) = v.event := by rw [← hconnected]
    rw [hsame]
    exact h
  . obtain ⟨hshared, hphase, hready, hmultishot, -, hpending, hframes⟩ := h.connecting_of hne hopen hconnected
    exact .connected rfl hshared hphase hready hmultishot (covered_of_notMem _ hpending) hframes

-- The event loop takes an instruction from the queue. One that is to be read is read if it has been started.
theorem next (h : v.Lives c) {instruction : ElInstruction} {reads : Bool} {q : List (ElInstruction × Bool)}
    (hpending : v.pending = (instruction, reads) :: q) (hremove : instruction = .eiRemove → v.event.started = true)
    : ({ v with pending := q } : Channel).Lives c
        ∧ (instruction = .eiAdd → reads = true → v.phase = .idle → v.event.tcpState ≠ .closed
          → v.event.tcpState = .connected ∧ v.event.started = true) := by
  cases h with
  | blank => cases hpending
  | connecting hstate hshared hphase hready hmultishot hreads hnone hframes =>
    rw [hpending, List.mem_cons, not_or] at hnone
    refine ⟨.connecting hstate hshared hphase hready hmultishot hreads hnone.2 hframes, ?_⟩
    rintro rfl rfl
    exact absurd rfl hnone.1
  | connected hstate hshared hphase hready hmultishot hcovered hframes =>
    rw [hpending] at hcovered
    cases instruction with
    | eiAdd =>
      refine ⟨.connected hstate hshared hphase hready hmultishot hcovered.2 hframes, ?_⟩
      exact fun _ hreads _ _ => ⟨hstate, hcovered.1 hreads⟩
    | eiRemove =>
      refine ⟨.connected hstate hshared hphase hready hmultishot ?_ hframes, by simp⟩
      rw [hremove rfl]
      exact hcovered
  | opened hstate hshared hphase herror hclosing =>
    exact ⟨.opened hstate hshared hphase herror hclosing, by simp [hphase]⟩
  | erred hstate hshared hphase hframes => exact ⟨.erred hstate hshared hphase hframes, by simp [hphase]⟩
  | ended hstate hshared hphase hframes => exact ⟨.ended hstate hshared hphase hframes, by simp [hphase]⟩
  | closing hstate hphase hframes hfd htimes htimed =>
    exact ⟨.closing hstate hphase hframes hfd htimes htimed, fun _ _ _ hopen => absurd hstate hopen⟩
  | closed hstate hshared hphase hfd htimes htimed =>
    exact ⟨.closed hstate hshared hphase hfd htimes htimed, fun _ _ _ hopen => absurd hstate hopen⟩

-- `cb_conn_` is called.
theorem announce (h : v.Lives c) (hstate : v.event.tcpState = .connected) (hphase : v.phase = .idle) {e : TcpEvent}
    (hstate' : e.tcpState = .connected) (hshared' : e.sharedData = v.event.sharedData)
    (q : List (ElInstruction × Bool))
    : (({ v with event := e, pending := q } : Channel).call (.conn c) (.started c)).Lives c := by
  cases h with
  | blank => cases hstate
  | connected _ hshared _ _ _ _ hframes =>
    refine .opened hstate' (hshared'.trans hshared) ?_ ?_ ?_
    . change v.phase.next (.conn c) = .opened
      rw [hphase]
      rfl
    . simp [call, hframes]
    . simp [call, hframes]
  | connecting hnot =>
    rw [hstate] at hnot
    rcases hnot with hnot | hnot <;> cases hnot
  | opened _ _ hnot | erred _ _ hnot | ended _ _ hnot =>
    rw [hphase] at hnot
    cases hnot
  | closing hnot | closed hnot =>
    rw [hstate] at hnot
    cases hnot

end Lives

-- A connection that has not been closed.
structure Active (c : Nat) (v : Channel) : Prop where
  lives : v.Lives c
  shared : v.event.sharedData = true
  open_ : v.event.tcpState ≠ .closed

namespace Active

theorem ne (h : v.Active c) : v ≠ {} := by
  rintro rfl
  cases h.shared

theorem of_lives (h : v.Lives c) (hne : v ≠ {}) (hopen : v.event.tcpState ≠ .closed) : v.Active c :=
  ⟨h, h.shared_of_open hne hopen, hopen⟩

-- A connection that waits for its timer.
theorem of_timed (h : v.Lives c) (htimed : v.timed = true) : v.Active c := by
  apply of_lives h
  . rintro rfl
    cases htimed
  . intro hclosed
    cases h with
    | blank => cases hclosed
    | closing _ _ _ _ _ hnot | closed _ _ _ _ _ hnot =>
      rw [htimed] at hnot
      cases hnot
    | connecting hstate =>
      rw [hclosed] at hstate
      rcases hstate with hstate | hstate <;> cases hstate
    | connected hstate | opened hstate | erred hstate | ended hstate =>
      rw [hclosed] at hstate
      cases hstate

-- What does not change the state and asks for no reading.
theorem setEvent (h : v.Active c) {e : TcpEvent} (hstate : e.tcpState = v.event.tcpState)
    (hshared : e.sharedData = v.event.sharedData) (hstarted : v.event.started = true → e.started = true)
    (hready : e.readReady = v.event.readReady) (hmultishot : e.multishot = v.event.multishot)
    (hreads : v.event.tcpState ≠ .connected → e.reads = true → v.event.reads = true)
    : ({ v with event := e } : Channel).Active c := by
  refine ⟨?_, hshared.trans h.shared, ?_⟩
  . apply h.lives.stays h.ne
    . exact ⟨hstate, hshared, hstarted, hreads, fun hclosed => absurd hclosed h.open_⟩
    . exact fun _ _ hr hm => ⟨hready.trans hr, hmultishot.trans hm⟩
  . rw [hstate]
    exact h.open_

theorem setTimed (h : v.Active c) (timed : Bool) : ({ v with timed } : Channel).Active c :=
  ⟨h.lives.setTimed h.ne fun _ => h.open_, h.shared, h.open_⟩

theorem remove (h : v.Active c) : (v.instruct .eiRemove).Active c :=
  ⟨h.lives.remove h.ne, h.shared, h.open_⟩

-- `connect` has been called for a connection that has not been connected before.
theorem connect (h : v.Active c) (hnot : v.event.tcpState ≠ .connected) (fd : Nat) {state : TcpState}
    (hstate : state = .connected ∨ state = .inprogress)
    : (({ v with event := { v.event with tcpState := state, fdsEvts := v.event.fdsEvts ++ [(fd, .write)] } } :
        Channel).instruct .eiAdd).Active c := by
  obtain ⟨hshared, hphase, hready, hmultishot, hreads, hpending, hframes⟩ := h.lives.connecting_of h.ne h.open_ hnot
  have hreads' : TcpEvent.reads { v.event with tcpState := state, fdsEvts := v.event.fdsEvts ++ [(fd, .write)] }
      = false := by
    unfold TcpEvent.reads at hreads ⊢
    simp [hreads]
  have hpending' : (.eiAdd, true) ∉ v.pending ++ [(ElInstruction.eiAdd, false)] := by simp [hpending]
  unfold instruct
  dsimp only
  rw [hreads']
  rcases hstate with rfl | rfl
  . refine ⟨.connected rfl hshared hphase hready hmultishot (covered_of_notMem _ hpending') hframes, hshared, ?_⟩
    simp
  . refine ⟨.connecting (.inr rfl) hshared hphase hready hmultishot hreads' hpending' hframes, hshared, ?_⟩
    simp

-- The connection is found to be established, from then on its fd is read.
theorem establish (h : v.Active c) (fd : Nat) (reads : Bool)
    : ({ v with
        event := { v.event with
          tcpState := .connected, curTimerTriggerTimes := -1, fdsEvts := [(fd, .read)] }
        pending := v.pending ++ [(.eiRemove, reads)] ++ [(.eiAdd, true)]
        timed := false } : Channel).Active c := by
  have hconnected : ({ v with event := { v.event with tcpState := .connected } } : Channel).Active c :=
    ⟨h.lives.setConnected h.ne h.open_, h.shared, by simp⟩
  have hqueued : ({ v with
      event := { v.event with tcpState := .connected }
      pending := v.pending ++ [(.eiRemove, reads), (.eiAdd, true)] } : Channel).Active c := by
    refine ⟨hconnected.lives.append hconnected.ne ?_ ?_, h.shared, by simp⟩
    . exact fun hnot => absurd rfl hnot
    . exact ⟨fun _ => rfl, trivial⟩
  rw [List.append_assoc]
  exact (hqueued.setTimed false).setEvent rfl rfl id rfl rfl fun hnot => absurd rfl hnot

end Active

end Channel

end Socket
end Ezio
