import Ezio.Socket.TcpSocket.Lemmas

/-!
This module contains the ownership of the ring buffers of a `tcp_socket`: an id is either in `buffer_id_list_` or
held by one connection.
-/

namespace Ezio
namespace Socket
namespace TcpSocket

variable {w w' : TcpSocket} {c id : Nat}

-- An open connection reads into the buffer group `id`.
def Holds (w : TcpSocket) (c id : Nat) : Prop :=
  (w.events c).bufId = some id ∧ (w.events c).tcpState ≠ .closed

-- Every id that has been registered is free or held, and not more than once.
def BuffersConserved (w : TcpSocket) : Prop :=
  ∀ id < w.nextBuf,
    w.bufferIdList.count id = 1 ∧ (∀ c, ¬ w.Holds c id)
      ∨ w.bufferIdList.count id = 0 ∧ ∃ c, w.Holds c id ∧ ∀ c', w.Holds c' id → c' = c

structure Banked (w : TcpSocket) : Prop where
  listed : ∀ id ∈ w.bufferIdList, id < w.nextBuf
  nodup : w.bufferIdList.Nodup
  held : ∀ c id, (w.events c).bufId = some id → id < w.nextBuf ∧ id ∉ w.bufferIdList
  single : ∀ c c' id, (w.events c).bufId = some id → (w.events c').bufId = some id → c = c'
  complete : ∀ id < w.nextBuf, id ∈ w.bufferIdList ∨ ∃ c, (w.events c).bufId = some id
  closed : ∀ c, (w.events c).tcpState = .closed → (w.events c).bufId = none
  fresh : ∀ c, w.nextChan ≤ c → (w.events c).bufId = none

theorem Banked.buffersConserved (h : w.Banked)
    : w.BuffersConserved := by
  intro id hid
  by_cases hmem : id ∈ w.bufferIdList
  . refine .inl ⟨by rw [h.nodup.count, if_pos hmem], ?_⟩
    exact fun c hc => (h.held c id hc.1).2 hmem
  . refine .inr ⟨List.count_eq_zero.mpr hmem, ?_⟩
    obtain ⟨c, hc⟩ := (h.complete id hid).resolve_left hmem
    refine ⟨c, ⟨hc, ?_⟩, fun c' hc' => h.single c' c id hc'.1 hc⟩
    intro hclosed
    rw [h.closed c hclosed] at hc
    cases hc

-- No buffer changes hands.
theorem Banked.same (h : w.Banked) (hlist : w'.bufferIdList = w.bufferIdList) (hnext : w'.nextBuf = w.nextBuf)
    (hbuf : ∀ c, (w'.events c).bufId = (w.events c).bufId)
    (hclosed : ∀ c, (w'.events c).tcpState = .closed → (w.events c).tcpState = .closed ∨ (w.events c).bufId = none)
    (hchan : w.nextChan ≤ w'.nextChan)
    : w'.Banked := by
  constructor
  . rw [hlist, hnext]
    exact h.listed
  . rw [hlist]
    exact h.nodup
  . intro c id hc
    rw [hbuf] at hc
    rw [hlist, hnext]
    exact h.held c id hc
  . intro c c' id hc hc'
    rw [hbuf] at hc hc'
    exact h.single c c' id hc hc'
  . intro id hid
    rw [hnext] at hid
    rw [hlist]
    rcases h.complete id hid with hmem | ⟨c, hc⟩
    . exact .inl hmem
    . exact .inr ⟨c, (hbuf c).trans hc⟩
  . intro c hc
    rw [hbuf]
    rcases hclosed c hc with hc | hc
    . exact h.closed c hc
    . exact hc
  . intro c hc
    rw [hbuf]
    exact h.fresh c (Nat.le_trans hchan hc)

-- A connection gives its buffer back.
theorem Banked.release (h : w.Banked) (hlist : w'.bufferIdList = w.bufferIdList ++ (w.events c).bufId.toList)
    (hnext : w'.nextBuf = w.nextBuf) (hc : (w'.events c).bufId = none)
    (hother : ∀ x, x ≠ c → w'.events x = w.events x) (hchan : w'.nextChan = w.nextChan)
    : w'.Banked := by
  have hbuf : ∀ x id, (w'.events x).bufId = some id → x ≠ c ∧ (w.events x).bufId = some id := by
    intro x id hx
    by_cases hxc : x = c
    . rw [hxc, hc] at hx
      cases hx
    . rw [hother x hxc] at hx
      exact ⟨hxc, hx⟩
  constructor
  . intro id hid
    rw [hlist] at hid
    rw [hnext]
    rcases List.mem_append.mp hid with hid | hid
    . exact h.listed id hid
    . exact (h.held c id (Option.mem_toList.mp hid)).1
  . rw [hlist, List.nodup_append]
    refine ⟨h.nodup, ?_, ?_⟩
    . cases (w.events c).bufId <;> simp
    . rintro a ha b hb rfl
      exact (h.held c a (Option.mem_toList.mp hb)).2 ha
  . intro x id hx
    obtain ⟨hxc, hx⟩ := hbuf x id hx
    rw [hlist, hnext, List.mem_append, not_or]
    obtain ⟨hlt, hnot⟩ := h.held x id hx
    refine ⟨hlt, hnot, ?_⟩
    intro hid
    exact hxc (h.single x c id hx (Option.mem_toList.mp hid))
  . intro x y id hx hy
    exact h.single x y id (hbuf x id hx).2 (hbuf y id hy).2
  . intro id hid
    rw [hnext] at hid
    rw [hlist, List.mem_append]
    rcases h.complete id hid with hmem | ⟨x, hx⟩
    . exact .inl (.inl hmem)
    . by_cases hxc : x = c
      . rw [hxc] at hx
        exact .inl (.inr (Option.mem_toList.mpr hx))
      . exact .inr ⟨x, by rw [hother x hxc]; exact hx⟩
  . intro x hx
    by_cases hxc : x = c
    . rw [hxc]
      exact hc
    . rw [hother x hxc] at hx ⊢
      exact h.closed x hx
  . intro x hx
    by_cases hxc : x = c
    . rw [hxc]
      exact hc
    . rw [hother x hxc]
      exact h.fresh x (hchan ▸ hx)

theorem getBufferId_frame (w : TcpSocket) (registerRingBuffer : Bool)
    : (w.getBufferId registerRingBuffer).1.events = w.events
      ∧ (w.getBufferId registerRingBuffer).1.nextChan = w.nextChan
      ∧ ((w.getBufferId registerRingBuffer).2 = none
        → (w.getBufferId registerRingBuffer).1 = w ∧ w.bufferIdList = [] ∧ registerRingBuffer = false) := by
  unfold getBufferId
  split
  . rename_i hempty
    split
    . exact ⟨rfl, rfl, nofun⟩
    . rename_i hregister
      exact ⟨rfl, rfl, fun _ => ⟨rfl, hempty, by simpa using hregister⟩⟩
  . exact ⟨rfl, rfl, nofun⟩

theorem getBufferId_some {registerRingBuffer : Bool} (hget : w.getBufferId registerRingBuffer = (w', some id))
    : w.bufferIdList ≠ [] ∨ registerRingBuffer = true := by
  unfold getBufferId at hget
  split at hget
  . split at hget
    . rename_i hregister
      exact .inr hregister
    . cases hget
  . rename_i hlist
    rw [hlist]
    exact .inl (List.cons_ne_nil _ _)

-- A new connection takes a buffer.
theorem Banked.acquire (h : w.Banked) (hnone : (w.events c).bufId = none) {registerRingBuffer : Bool}
    (hget : w.getBufferId registerRingBuffer = (w', some id)) {e : TcpEvent} (he : e.bufId = some id)
    (hclosed : e.tcpState ≠ .closed) (hlt : c < w.nextChan)
    : (w'.setEvent c e).Banked := by
  have hw' : w'.events = w.events ∧ w'.nextChan = w.nextChan := by
    have hframe := getBufferId_frame w registerRingBuffer
    rw [hget] at hframe
    exact ⟨hframe.1, hframe.2.1⟩
  have hcase : w.bufferIdList = id :: w'.bufferIdList ∧ w'.nextBuf = w.nextBuf
      ∨ w'.bufferIdList = w.bufferIdList ∧ id = w.nextBuf ∧ w'.nextBuf = w.nextBuf + 1 := by
    unfold getBufferId at hget
    split at hget
    . split at hget
      . cases hget
        exact .inr ⟨rfl, rfl, rfl⟩
      . cases hget
    . rename_i hlist
      cases hget
      exact .inl ⟨hlist, rfl⟩
  have hevents : ∀ x, ((w'.setEvent c e).events x).bufId = if x = c then some id else (w.events x).bufId := by
    intro x
    rw [events_setEvent, hw'.1]
    by_cases hxc : x = c
    . rw [hxc, Function.update_self, if_pos rfl]
      exact he
    . rw [Function.update_of_ne hxc, if_neg hxc]
  have hnot : ∀ x, (w.events x).bufId ≠ some id := by
    intro x hx
    have hheld := h.held x id hx
    rcases hcase with ⟨hlist, -⟩ | ⟨-, hid, -⟩
    . exact hheld.2 (by rw [hlist]; exact List.mem_cons_self)
    . omega
  have hmem : ∀ id' ∈ w'.bufferIdList, id' ∈ w.bufferIdList ∧ id' ≠ id := by
    intro id' hid'
    rcases hcase with ⟨hlist, -⟩ | ⟨hlist, hid, -⟩
    . have hnodup := h.nodup
      rw [hlist] at hnodup ⊢
      refine ⟨List.mem_cons_of_mem _ hid', ?_⟩
      rintro rfl
      exact (List.nodup_cons.mp hnodup).1 hid'
    . rw [hlist] at hid'
      have := h.listed id' hid'
      exact ⟨hid', by omega⟩
  have hle : w.nextBuf ≤ w'.nextBuf := by
    rcases hcase with ⟨-, hnext⟩ | ⟨-, -, hnext⟩ <;> omega
  have hidlt : id < w'.nextBuf := by
    rcases hcase with ⟨hlist, hnext⟩ | ⟨-, hid, hnext⟩
    . rw [hnext]
      exact h.listed id (by rw [hlist]; exact List.mem_cons_self)
    . omega
  constructor
  . intro id' hid'
    exact Nat.lt_of_lt_of_le (h.listed id' (hmem id' hid').1) hle
  . change w'.bufferIdList.Nodup
    have hnodup := h.nodup
    rcases hcase with ⟨hlist, -⟩ | ⟨hlist, -⟩
    . rw [hlist] at hnodup
      exact (List.nodup_cons.mp hnodup).2
    . rw [hlist]
      exact hnodup
  . intro x id' hx
    rw [hevents] at hx
    split at hx
    . cases hx
      exact ⟨hidlt, fun hid => (hmem id hid).2 rfl⟩
    . obtain ⟨hlt', hnot'⟩ := h.held x id' hx
      exact ⟨Nat.lt_of_lt_of_le hlt' hle, fun hid => hnot' (hmem id' hid).1⟩
  . intro x y id' hx hy
    rw [hevents] at hx hy
    split at hx <;> split at hy
    . rename_i hxc hyc
      rw [hxc, hyc]
    . cases hx
      exact absurd hy (hnot y)
    . cases hy
      exact absurd hx (hnot x)
    . exact h.single x y id' hx hy
  . intro id' hid'
    have hid'' : id' < w.nextBuf ∨ id' = id := by
      change id' < w'.nextBuf at hid'
      rcases hcase with ⟨-, hnext⟩ | ⟨-, hid, hnext⟩ <;> omega
    rcases hid'' with hid'' | rfl
    . rcases h.complete id' hid'' with hmem' | ⟨x, hx⟩
      . rcases hcase with ⟨hlist, -⟩ | ⟨hlist, -⟩
        . rw [hlist] at hmem'
          rcases List.mem_cons.mp hmem' with rfl | hmem'
          . exact .inr ⟨c, by rw [hevents, if_pos rfl]⟩
          . exact .inl hmem'
        . exact .inl (by change id' ∈ w'.bufferIdList; rw [hlist]; exact hmem')
      . refine .inr ⟨x, ?_⟩
        rw [hevents, if_neg]
        . exact hx
        . rintro rfl
          rw [hnone] at hx
          cases hx
    . exact .inr ⟨c, by rw [hevents, if_pos rfl]⟩
  . intro x hx
    rw [hevents]
    rw [events_setEvent, hw'.1] at hx
    by_cases hxc : x = c
    . rw [hxc, Function.update_self] at hx
      exact absurd hx hclosed
    . rw [Function.update_of_ne hxc] at hx
      rw [if_neg hxc]
      exact h.closed x hx
  . intro x hx
    change w'.nextChan ≤ x at hx
    rw [hw'.2] at hx
    rw [hevents, if_neg (by omega)]
    exact h.fresh x hx

-- Neither the list nor an event changes.
theorem Banked.frame (h : w.Banked) (hlist : w'.bufferIdList = w.bufferIdList) (hnext : w'.nextBuf = w.nextBuf)
    (hevents : w'.events = w.events) (hchan : w'.nextChan = w.nextChan)
    : w'.Banked := by
  apply h.same hlist hnext
  . intro c
    rw [hevents]
  . intro c hc
    rw [hevents] at hc
    exact .inl hc
  . exact Nat.le_of_eq hchan.symm

theorem Banked.setEvent (h : w.Banked) {e : TcpEvent} (hbuf : e.bufId = (w.events c).bufId)
    (hclosed : e.tcpState = .closed → (w.events c).tcpState = .closed ∨ (w.events c).bufId = none)
    : (w.setEvent c e).Banked := by
  refine h.same rfl rfl ?_ ?_ (Nat.le_refl _)
  . intro x
    by_cases hx : x = c
    . rw [hx, events_setEvent, Function.update_self]
      exact hbuf
    . rw [events_setEvent, Function.update_of_ne hx]
  . intro x hx
    by_cases hxc : x = c
    . rw [hxc, events_setEvent, Function.update_self] at hx
      rw [hxc]
      exact hclosed hx
    . rw [events_setEvent, Function.update_of_ne hxc] at hx
      exact .inl hx

theorem Banked.connects (h : w.Banked) (hc : Connects c w w')
    : w'.Banked := by
  have hcore : ∀ {α : Type} (f : TcpSocket → α), f w'.core = f w.core := fun f => congrArg f hc.core
  refine h.same (hcore bufferIdList) (hcore nextBuf) ?_ ?_ (Nat.le_of_eq (hcore nextChan).symm)
  . intro x
    by_cases hx : x = c
    . rw [hx]
      exact hc.kept.bufId
    . rw [hc.other x hx]
  . intro x hx
    by_cases hxc : x = c
    . rw [hxc] at hx ⊢
      exact .inl (hc.kept.closed hx)
    . rw [hc.other x hxc] at hx
      exact .inl hx

theorem Banked.shutdown (h : w.Banked) (c : Nat)
    : (w.shutdown c).Banked := by
  cases hfd : (w.events c).fd with
  | none =>
    apply h.release (c := c)
    all_goals simp +contextual [TcpSocket.shutdown, hfd, closeFd, closeReconnectTimer, removeTimerReq,
      TcpSocket.setEvent,
      removeEvent, addInstruction]
  | some fd =>
    apply h.release (c := c)
    all_goals simp +contextual [TcpSocket.shutdown, hfd, closeFd, closeReconnectTimer, removeTimerReq,
      TcpSocket.setEvent,
      removeEvent, addInstruction]

theorem Banked.finishClose (h : w.Banked) (c : Nat)
    : (w.finishClose c).Banked := by
  have h' : (w.setEvent c { w.events c with sharedData := false, evtState := .closed }).Banked :=
    h.setEvent rfl .inl
  exact h'.frame rfl rfl rfl rfl

theorem Banked.callback (h : w.Banked) (e : Entry) (f : Frame)
    : (w.callback e f).Banked :=
  h.frame rfl rfl rfl rfl

theorem Banked.closeEvent (h : w.Banked) (c : Nat)
    : (w.closeEvent c).Banked := by
  unfold TcpSocket.closeEvent
  split
  . exact h
  . split
    . exact (h.shutdown c).callback _ _
    . exact (h.shutdown c).finishClose c

theorem Banked.closeConnections (h : w.Banked) (cs : List Nat)
    : (w.closeConnections cs).Banked := by
  induction cs generalizing w with
  | nil => exact h.frame rfl rfl rfl rfl
  | cons c cs ih =>
    unfold TcpSocket.closeConnections
    split
    . apply Banked.closeEvent
      exact h.frame rfl rfl rfl rfl
    . exact ih (h.closeEvent c)

theorem Banked.closeSocket (h : w.Banked)
    : w.closeSocket.Banked := by
  unfold TcpSocket.closeSocket
  split
  . exact h.frame rfl rfl rfl rfl
  . apply Banked.closeConnections
    split
    . exact h.frame rfl rfl rfl rfl
    . exact h.frame rfl rfl rfl rfl

theorem Banked.readBlocks (h : w.Banked) (c : Nat) (lens : List Nat)
    : (w.readBlocks c lens).Banked := by
  cases lens with
  | nil => exact h
  | cons len rest => exact h.callback _ _

theorem Banked.onReadTcpMsg (h : w.Banked) (c : Nat) (ret : Int) (iov : List Nat)
    : (w.onReadTcpMsg c ret iov).Banked := by
  unfold TcpSocket.onReadTcpMsg
  split
  . split
    . exact h.readBlocks c _
    . split
      . exact h.callback _ _
      . split
        . exact h.callback _ _
        . exact h.closeEvent c
  . exact h.frame rfl rfl rfl rfl

theorem Banked.onStarted (h : w.Banked) (c : Nat)
    : (w.onStarted c).Banked := by
  unfold TcpSocket.onStarted
  dsimp only
  split
  . exact h.callback _ _
  . exact h.setEvent rfl .inl

theorem Banked.processInstruction (h : w.Banked)
    : w.processInstruction.Banked := by
  unfold TcpSocket.processInstruction
  split
  . exact h
  . rename_i info infos _
    have h₁ : Banked { w with evtHandlersCache := infos } := h.frame rfl rfl rfl rfl
    dsimp only
    split
    . unfold processAddInstruction
      dsimp only
      split
      . exact h₁
      . split
        . exact h₁.frame rfl rfl rfl rfl
        . apply Banked.onStarted
          apply Banked.setEvent
          . exact h₁.frame rfl rfl rfl rfl
          . rfl
          . exact .inl
    . unfold processRemoveInstruction
      dsimp only
      split
      . split
        . exact h₁.frame rfl rfl rfl rfl
        . exact h₁.frame rfl rfl rfl rfl
      . apply Banked.setEvent
        . exact h₁.frame rfl rfl rfl rfl
        . rfl
        . exact .inl

theorem Banked.removeListener (h : w.Banked)
    : w.removeListener.Banked := by
  unfold TcpSocket.removeListener
  cases w.fd with
  | none => exact h.frame rfl rfl rfl rfl
  | some fd => exact h.frame rfl rfl rfl rfl

theorem Banked.addConnection (h : w.Banked) (c : Nat)
    : (w.addConnection c).Banked := by
  unfold TcpSocket.addConnection
  dsimp only
  split
  . exact h.frame rfl rfl rfl rfl
  . apply Banked.removeListener
    exact h.frame rfl rfl rfl rfl

theorem Banked.ret (h : w.Banked)
    : w.ret.Banked := by
  unfold TcpSocket.ret
  split
  . exact h
  . rename_i f stack hstack
    have h₁ : Banked { w with stack } := h.frame rfl rfl rfl rfl
    cases f with
    | accepted c => exact h₁.addConnection c
    | started c => exact h₁
    | data c rest => exact h₁.readBlocks c rest
    | eof c => exact h₁
    | error c => exact h₁.closeEvent c
    | closing c =>
      have h₂ := h₁.finishClose c
      dsimp only
      split
      . apply Banked.closeConnections
        exact h₂.frame rfl rfl rfl rfl
      . exact h₂
    | closeAll rest => exact h₁

theorem Banked.reopenListener (h : w.Banked) (answers : TimerAnswers)
    : (w.reopenListener answers).Banked := by
  have h₁ := h.removeListener
  unfold TcpSocket.reopenListener
  cases answers.socket with
  | false => exact h₁.frame rfl rfl rfl rfl
  | true =>
    cases answers.listen with
    | false => exact h₁.frame rfl rfl rfl rfl
    | true => exact h₁.frame rfl rfl rfl rfl

theorem Banked.onEventTimers (h : w.Banked) (answers : TimerAnswers) (cs : List Nat)
    : (w.onEventTimers answers cs).Banked := by
  induction cs generalizing w with
  | nil => exact h
  | cons c cs ih =>
    have h₁ := h.connects (onEventTimer_connects w c answers)
    unfold TcpSocket.onEventTimers
    dsimp only
    split
    . exact ih h₁
    . exact h₁.frame rfl rfl rfl rfl

theorem Banked.onTimer (h : w.Banked) (answers : TimerAnswers)
    : (w.onTimer answers).Banked := by
  have h₁ : w.removeClosedChans.Banked := h.frame rfl rfl rfl rfl
  unfold TcpSocket.onTimer
  split
  . generalize w.removeClosedChans = w₁ at *
    have h₂ : Banked (if w₁.isReopenListener then w₁.reopenListener answers else w₁) := by
      split
      . exact h₁.reopenListener answers
      . exact h₁
    dsimp only
    generalize (if w₁.isReopenListener then w₁.reopenListener answers else w₁) = w₂ at *
    split
    . exact h₂
    . exact h₂.onEventTimers answers _
  . exact h.onEventTimers answers _

theorem Banked.newEvent (h : w.Banked) (fd : Option Nat)
    : (w.newEvent fd).1.Banked := by
  have hnone : (w.events w.nextChan).bufId = none := h.fresh _ (Nat.le_refl _)
  have h₁ : (w.setEvent w.nextChan { fd, sharedData := true }).Banked := h.setEvent hnone.symm nofun
  exact h₁.same rfl rfl (fun _ => rfl) (fun _ => .inl) (Nat.le_succ _)

theorem newEvent_bufId (w : TcpSocket) (fd : Option Nat)
    : ((w.newEvent fd).1.events w.nextChan).bufId = none
      ∧ ((w.newEvent fd).1.events w.nextChan).tcpState ≠ .closed := by
  simp [TcpSocket.newEvent]

-- The connection had no buffer.
theorem Banked.destroyEvent (h : w.Banked) (hbuf : (w.events c).bufId = none)
    : (w.destroyEvent c).Banked :=
  h.setEvent hbuf.symm nofun

-- `get_buffer_id` in `tcp_event::open` finds no buffer.
theorem Banked.notOpened (h : w.Banked) {fd : Option Nat} {registerRingBuffer : Bool}
    (hget : (w.newEvent fd).1.getBufferId registerRingBuffer = (w', none))
    : w'.Banked ∧ (w'.events w.nextChan).bufId = none := by
  have hframe := getBufferId_frame (w.newEvent fd).1 registerRingBuffer
  rw [hget] at hframe
  obtain rfl : w' = (w.newEvent fd).1 := (hframe.2.2 rfl).1
  exact ⟨h.newEvent fd, (newEvent_bufId w fd).1⟩

-- `get_buffer_id` in `tcp_event::open` finds a buffer.
theorem Banked.opened (h : w.Banked) {fd : Option Nat} {registerRingBuffer : Bool}
    (hget : (w.newEvent fd).1.getBufferId registerRingBuffer = (w', some id))
    : (w'.setEvent w.nextChan { w'.events w.nextChan with bufId := some id }).Banked := by
  have hframe := getBufferId_frame (w.newEvent fd).1 registerRingBuffer
  rw [hget] at hframe
  have hnone := newEvent_bufId w fd
  apply (h.newEvent fd).acquire hnone.1 hget rfl
  . rw [hframe.1]
    exact hnone.2
  . exact Nat.lt_succ_self _

theorem opened_fd {fd : Option Nat} {registerRingBuffer : Bool}
    (hget : (w.newEvent fd).1.getBufferId registerRingBuffer = (w', some id))
    : (w'.events w.nextChan).fd = fd := by
  have hframe := getBufferId_frame (w.newEvent fd).1 registerRingBuffer
  rw [hget] at hframe
  rw [hframe.1]
  simp [TcpSocket.newEvent]

-- A buffer is there and the peer is not there any more.
def LosesBuffer (w : TcpSocket) : Action → Prop
  | .accept registerRingBuffer established =>
    w.accepting ∧ w.isEnabled ∧ (w.bufferIdList ≠ [] ∨ registerRingBuffer) ∧ !established
  | .openSocket answers =>
    !w.evtService ∧ w.conf.maxConnectCnt ≠ 0 ∧ w.conf.handlers ∧ w.conf.addrParts = 2 ∧ answers.socket
      ∧ w.conf.mode = .connect ∧ (w.bufferIdList ≠ [] ∨ answers.registerRingBuffer) ∧ answers.connect = .failed
  | _ => False

instance LosesBuffer.decidable (w : TcpSocket) : (a : Action) → Decidable (w.LosesBuffer a)
  | .accept _ _ => inferInstanceAs (Decidable (_ ∧ _ ∧ _ ∧ _))
  | .openSocket _ => inferInstanceAs (Decidable (_ ∧ _ ∧ _ ∧ _ ∧ _ ∧ _ ∧ _ ∧ _))
  | .closeSocket | .closeTcpChannel _ | .ret | .processInstruction | .acceptReady | .readReady _ | .writeReady _ _
  | .readTcpMsg _ _ _ | .timer _ => inferInstanceAs (Decidable False)

theorem Banked.onAccept (h : w.Banked) (fd : Nat) {registerRingBuffer established : Bool}
    (hkeeps : ¬ (w.isEnabled ∧ (w.bufferIdList ≠ [] ∨ registerRingBuffer) ∧ !established))
    : (w.onAccept fd registerRingBuffer established).Banked := by
  unfold TcpSocket.onAccept
  split
  . rename_i henabled
    split
    rename_i w₁ c hnew
    cases hnew
    split
    . rename_i w₂ hget
      obtain ⟨h₂, hnone⟩ := h.notOpened hget
      apply Banked.destroyEvent
      . exact h₂.frame rfl rfl rfl rfl
      . exact hnone
    . rename_i w₂ bufId hget
      have h₂ := h.opened hget
      have hsome : w.bufferIdList ≠ [] ∨ registerRingBuffer := getBufferId_some (w := (w.newEvent (some fd)).1) hget
      have hestablished : established = true := by
        by_contra hestablished
        apply hkeeps
        exact ⟨henabled, hsome, by simpa using hestablished⟩
      dsimp only
      rw [if_pos hestablished]
      generalize w₂.setEvent w.nextChan _ = w₃ at *
      apply Banked.callback
      apply Banked.setEvent
      . have h₃ : (w₃.setEvent w.nextChan { w₃.events w.nextChan with fdsEvts := [(fd, .read)] }).Banked :=
          h₂.setEvent rfl .inl
        exact h₃.frame rfl rfl rfl rfl
      . rfl
      . exact nofun
  . exact h

theorem connectFd_ok {fd : Nat} {result : ConnectResult} (hfd : (w.events c).fd = some fd) (hresult : result ≠ .failed)
    : (w.connectFd c result).2 = true := by
  unfold connectFd
  simp only [hfd]
  cases result with
  | success => rfl
  | inProgress => rfl
  | failed => exact absurd rfl hresult

theorem Banked.openConnector (h : w.Banked) {fd : Nat} (hfd : w.fd = some fd) {answers : OpenAnswers}
    (hkeeps : ¬ ((w.bufferIdList ≠ [] ∨ answers.registerRingBuffer) ∧ answers.connect = .failed))
    : (w.openConnector answers).1.Banked := by
  unfold TcpSocket.openConnector
  split
  rename_i w₁ c hnew
  cases hnew
  split
  . rename_i w₂ hget
    obtain ⟨h₂, hnone⟩ := h.notOpened hget
    exact h₂.destroyEvent hnone
  . rename_i w₂ bufId hget
    have hsome : w.bufferIdList ≠ [] ∨ answers.registerRingBuffer :=
      getBufferId_some (w := (w.newEvent w.fd).1) hget
    have hresult : answers.connect ≠ .failed := fun hfailed => hkeeps ⟨hsome, hfailed⟩
    have hfd₂ : (w₂.events w.nextChan).fd = some fd := (opened_fd hget).trans hfd
    have h₃ := h.opened hget
    have hok : ((w₂.setEvent w.nextChan { w₂.events w.nextChan with bufId := some bufId }).connectFd w.nextChan
        answers.connect).2 = true := by
      apply connectFd_ok _ hresult
      . exact fd
      . rw [events_setEvent, Function.update_self]
        exact hfd₂
    dsimp only
    generalize w₂.setEvent w.nextChan _ = w₃ at *
    have h₄ := h₃.connects (connectFd_connects w₃ w.nextChan answers.connect)
    split
    . rename_i w₄ hconnect
      rw [hconnect] at h₄
      exact h₄.frame rfl rfl rfl rfl
    . rename_i w₄ hconnect
      rw [hconnect] at hok
      cases hok

theorem Banked.openSocket (h : w.Banked) {answers : OpenAnswers} (hkeeps : ¬ w.LosesBuffer (.openSocket answers))
    : (w.openSocket answers).1.Banked := by
  unfold TcpSocket.openSocket
  split
  . exact h
  . rename_i hopen
    simp only [not_or, Bool.not_eq_true, Bool.not_eq_false'] at hopen
    obtain ⟨hservice, hmax, hhandlers⟩ := hopen
    dsimp only
    split
    . exact h.frame rfl rfl rfl rfl
    . rename_i haddr
      have h₁ : Banked { w with evtService := true, fd := some w.nextFd, nextFd := w.nextFd + 1 } :=
        h.frame rfl rfl rfl rfl
      cases hsocket : answers.socket with
      | false => exact h.frame rfl rfl rfl rfl
      | true =>
        simp only [getTcpSocketFd, if_true]
        have h₂ : (if w.conf.mode = .listen
            then TcpSocket.openListener { w with evtService := true, fd := some w.nextFd, nextFd := w.nextFd + 1 }
              answers
            else TcpSocket.openConnector { w with evtService := true, fd := some w.nextFd, nextFd := w.nextFd + 1 }
              answers).1.Banked := by
          split
          . unfold openListener
            split
            . exact h₁.frame rfl rfl rfl rfl
            . exact h₁
          . rename_i hmode
            apply h₁.openConnector rfl
            rintro ⟨hbuf, hfailed⟩
            refine hkeeps ⟨by rw [hservice]; rfl, hmax, hhandlers, by simpa using haddr, hsocket, ?_, hbuf, hfailed⟩
            cases hconf : w.conf.mode with
            | listen => exact absurd hconf hmode
            | connect => rfl
        split
        . rename_i w₂ heq
          rw [heq] at h₂
          exact h₂.frame rfl rfl rfl rfl
        . rename_i w₂ heq
          rw [heq] at h₂
          cases hfd : w₂.fd with
          | none => exact h₂.frame rfl rfl rfl rfl
          | some fd => exact h₂.frame rfl rfl rfl rfl

theorem Banked.step (h : w.Banked) {a : Action} (hkeeps : ¬ w.LosesBuffer a)
    : (w.step a).Banked := by
  have hsteps := w.step_steps a
  generalize w.step a = w' at hsteps ⊢
  cases hsteps with
  | idle => exact h
  | openSocket => exact h.openSocket hkeeps
  | closeSocket => exact h.closeSocket
  | closeTcpChannel => exact h.closeEvent _
  | ret => exact h.ret
  | processInstruction => exact h.processInstruction
  | acceptReady => exact h.frame rfl rfl rfl rfl
  | accept _ _ haccepting =>
    have h₁ : Banked { w with nextFd := w.nextFd + 1 } := h.frame rfl rfl rfl rfl
    apply h₁.onAccept
    exact fun hloses => hkeeps ⟨haccepting, hloses⟩
  | @readReady _ _ c =>
    obtain ⟨multishot, _, -, heq⟩ := handleReadReady_eq w c
    have hset : (w.setEvent c { w.events c with readReady := false, multishot }).Banked := h.setEvent rfl .inl
    rw [heq]
    exact hset.frame rfl rfl rfl rfl
  | @writeReady _ _ c _ established =>
    have h₁ : (w.setEvent c { w.events c with writeReady := (w.events c).writeReady - 1 }).Banked :=
      h.setEvent rfl .inl
    exact h₁.connects (checkAndProcessTcpConnected_connects _ c established)
  | readTcpMsg _ _ _ ret iov => exact h.onReadTcpMsg _ ret iov
  | timer _ _ _ answers => exact h.onTimer answers

theorem init_banked (conf : TcpConfig)
    : (init conf).Banked := by
  constructor <;> simp [init]

/--
No buffer is lost or used twice as long as no connection is given up in `tcp_event::open` after it has got one.
-/
theorem run_buffersConserved (conf : TcpConfig) (as : List Action)
    (hkeeps : Along step (fun w a => ¬ w.LosesBuffer a) (init conf) as)
    : (run (init conf) as).BuffersConserved := by
  have h : (run (init conf) as).Banked := by
    apply Along.invariant ?_ (init_banked conf) hkeeps
    exact fun w a hw ha => hw.step ha
  exact h.buffersConserved

-- A connection is closed and its buffer is used by the next one.
def reusedBuffer : List Action :=
  [.openSocket {}, .processInstruction, .acceptReady, .accept true true, .ret, .accept true true, .ret,
    .closeTcpChannel 0, .ret, .accept true true, .ret]

theorem reusedBuffer_conserved
    : (run (init {}) reusedBuffer).BuffersConserved ∧ ((run (init {}) reusedBuffer).events 2).bufId = some 0 := by
  refine ⟨run_buffersConserved {} reusedBuffer ?_, ?_⟩
  . decide +kernel
  . decide +kernel

-- The peer of the first connection is gone when the connection is opened.
def disconnectedPeer : List Action :=
  [.openSocket {}, .processInstruction, .acceptReady, .accept true false]

theorem disconnectedPeer_not_conserved
    : (run (init {}) disconnectedPeer).nextBuf = 1 ∧ ¬ (run (init {}) disconnectedPeer).BuffersConserved := by
  refine ⟨by decide +kernel, ?_⟩
  intro h
  have hnone : ∀ c, ((run (init {}) disconnectedPeer).events c).bufId = none := by
    intro c
    simp [disconnectedPeer, run, step, init, openSocket, getTcpSocketFd, openListener, addEvent, addInstruction,
      dispatch, TcpSocket.processInstruction, processAddInstruction, onAccept, newEvent, getBufferId, destroyEvent,
      closeFd, setEvent, getFdsAndEvts, Function.update]
  have hlist : (run (init {}) disconnectedPeer).bufferIdList = [] := by decide +kernel
  rcases h 0 (by decide +kernel) with ⟨hcount, -⟩ | ⟨-, c, hc, -⟩
  . rw [hlist] at hcount
    cases hcount
  . rw [Holds, hnone c] at hc
    cases hc.1

end TcpSocket

end Socket
end Ezio
