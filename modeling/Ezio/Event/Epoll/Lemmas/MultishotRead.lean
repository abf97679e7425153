import Ezio.Event.Epoll.Lemmas.Observe

/-!
This module contains when the loop of `do_multishot_read_task` comes to an end. The answers of the kernel are finitely
many, a loop that never ends uses all of them up, however many there are.
-/

namespace Ezio

-- The count that the call returns if it succeeds.
def SysRet.count : SysRet → Nat
  | .ok n _ => n
  | .fail _ => 0

namespace Event

open EStateM (Preserves Triple get_bind_apply modify_bind_apply bind_apply)

-- What the callback of the multishot read is called with.
def Entry.shots : Entry → List Int
  | .readCallback _ _ .multishot ret _ => [ret]
  | _ => []

theorem shots_observation : Observation Entry.shots := ⟨fun _ _ => rfl, fun _ _ _ _ _ _ => rfl⟩

def multishotOp (type : FdType) : ReadOp :=
  if type = .udp then .udpMultishot else .tcpMultishot

-- A multishot read of the action `id` is under way, the buffers come from the ring buffer.
structure Multishot (id ring : Nat) (type : FdType) (blocks : List Iovec) (s : Epoll) : Prop where
  fdType : (s.action id).fd.type = type
  op : (s.action id).readOp = some (multishotOp type)
  callback : (s.action id).readBufIdxCallback.isSome
  ring : ∃ b, s.bufferOf ring = some b ∧ b.blocks = blocks
  -- there is no ring buffer without blocks
  nonempty : blocks ≠ []

-- The call succeeds and leaves the read as it is.
def Op.Leaves (id ring : Nat) (op : Op) : Prop :=
  ∀ type blocks s, Multishot id ring type blocks s
    → ∃ r s', s.exec op = .ok (r, s') ∧ Multishot id ring type blocks s'

-- The socket has something to be read.
def Receives (a : SysRet) : Prop :=
  ∃ n lens, a = .ok n lens ∧ 0 < n ∧ n < 2 ^ 31

-- The read is under way: the callback has been called for `shots`, the kernel is going to give the answers `sys`, and
-- whatever the callback does leaves the read as it is.
structure Serving (id ring : Nat) (type : FdType) (blocks : List Iovec) (shots : List Int)
    (sys : List SysRet) (w : World) : Prop where
  multishot : Multishot id ring type blocks w.poll
  calls : w.Calls (Op.Leaves id ring)
  shots : Observes Entry.shots shots w
  sys : w.sys = sys

section

variable {id ring : Nat} {type : FdType} {blocks : List Iovec} {shots : List Int} {sys : List SysRet}
  {w w' : World}

theorem Serving.readCallback (h : Serving id ring type blocks shots sys w) (ret : Int) (iov : List Iovec)
    : ∃ w', Event.readCallback id .multishot ret iov w = .ok () w'
        ∧ Serving id ring type blocks (shots ++ [ret]) sys w' := by
  obtain ⟨cb, hcb⟩ := Option.isSome_iff_exists.mp h.multishot.callback
  have hretained : Retained (Op.Leaves id ring) (Multishot id ring type blocks) Entry.shots shots sys w :=
    ⟨h.multishot, h.calls, h.shots, h.sys⟩
  obtain ⟨w', hrun, hw'⟩ :=
    hretained.readCallback shots_observation (fun op hop => hop type blocks) hcb .multishot ret iov
  exact ⟨w', hrun, hw'.inv, hw'.calls, hw'.observes, hw'.sys⟩

theorem Multishot.modifyBuffer {s : Epoll} (h : Multishot id ring type blocks s)
    : Multishot id ring type blocks (s.modifyBuffer ring fun b => { b with blocks := blocks }) := by
  obtain ⟨b, hb, hblocks⟩ := h.ring
  refine ⟨h.fdType, h.op, h.callback, ⟨b, ?_, hblocks⟩, h.nonempty⟩
  unfold Epoll.bufferOf Epoll.modifyBuffer at *
  rw [Option.join_eq_some_iff] at hb
  rw [List.getElem?_modify_eq, hb]
  simp [← hblocks]

theorem Multishot.modifyAction {s : Epoll} {f : EventAction → EventAction} (h : Multishot id ring type blocks s)
    (hfd : ∀ a, (f a).fd = a.fd) (hops : ∀ a, (f a).fdOps = a.fdOps)
    (hcb : ∀ a, (f a).readBufIdxCallback = a.readBufIdxCallback)
    : Multishot id ring type blocks (s.modifyAction id f) := by
  have haction : (s.modifyAction id f).action id = f (s.action id) := by simp [Epoll.action_def]
  refine ⟨?_, ?_, ?_, h.ring, h.nonempty⟩
  . rw [haction, hfd]
    exact h.fdType
  . unfold EventAction.readOp
    rw [haction, hops]
    exact h.op
  . rw [haction, hcb]
    exact h.callback

-- A chunk of a TCP socket is handed on, and the loop asks for the next one.
theorem Serving.readTcp_ok {n : Nat} {lens : List Nat} (h : Serving id ring .tcp blocks shots (.ok n lens :: sys) w)
    (hpos : 0 < n) (hlt : n < 2 ^ 31)
    : ∃ w', readTcp id ring blocks w = .ok 0 w'
        ∧ Serving id ring .tcp blocks (shots ++ [(n : Int)]) sys w' := by
  have hret : toInt32 (n % 2 ^ 32) = n := by
    rw [toInt32_mod, toInt32_of_lt hlt]
  have hread : liftIo (readIov (w.action id).readOp true blocks) w
      = .ok ⟨n, false, blocks, [(blocks, n)]⟩ { w with sys := sys } := by
    have hop : (w.action id).readOp = some .tcpMultishot := h.multishot.op
    unfold liftIo
    rw [hop, h.sys]
    dsimp only [readIov]
    rw [if_pos rfl, FdIo.Tcp.readFdForMultishot, hret, if_neg (Nat.ne_of_gt hpos)]
  have hnext : Serving id ring .tcp blocks shots sys
      { w with sys := sys, poll := w.poll.modifyBuffer ring fun b => { b with blocks := blocks } } :=
    ⟨h.multishot.modifyBuffer, h.calls, h.shots.of_log rfl, rfl⟩
  obtain ⟨w', hcall, hw'⟩ := hnext.readCallback n blocks
  refine ⟨w', ?_, hw'⟩
  unfold readTcp
  rw [get_bind_apply, bind_apply, hread]
  dsimp only
  rw [modify_bind_apply, if_pos (by omega), if_neg (by simp), bind_apply, hcall]
  rfl

-- The socket is empty.
theorem Serving.readTcp_again (h : Serving id ring .tcp blocks shots (.fail .again :: sys) w)
    : ∃ w', readTcp id ring blocks w = .ok (-1) w' ∧ Serving id ring .tcp blocks shots sys w'
        ∧ (w'.action id).isReadable = false := by
  have hread : liftIo (readIov (w.action id).readOp true blocks) w
      = .ok ⟨INT32_MAX, true, blocks, []⟩ { w with sys := sys } := by
    have hop : (w.action id).readOp = some .tcpMultishot := h.multishot.op
    unfold liftIo
    rw [hop, h.sys]
    dsimp only [readIov]
    rw [if_pos rfl, FdIo.Tcp.readFdForMultishot, if_pos rfl]
  refine ⟨World.modifyAction { w with
      sys := sys, poll := w.poll.modifyBuffer ring fun b => { b with blocks := blocks } } id
    fun a => { a with isReadable := false }, ?_, ⟨?_, h.calls, h.shots.of_log rfl, rfl⟩, ?_⟩
  . unfold readTcp
    rw [get_bind_apply, bind_apply, hread]
    dsimp only
    rw [modify_bind_apply, if_pos (by simp [INT32_MAX]), if_pos (by simp)]
    rfl
  . exact h.multishot.modifyBuffer.modifyAction (f := fun a => { a with isReadable := false }) (fun _ => rfl)
      (fun _ => rfl) (fun _ => rfl)
  . simp

theorem Multishot.readShot_eq (h : Multishot id ring type blocks w.poll) (iov : List Iovec)
    : Event.readShot id ring iov w = if type = .udp then readUdp id true .multishot 0 w else readTcp id ring iov w := by
  have htype : (w.action id).fd.type = type := h.fdType
  unfold Event.readShot
  rw [get_bind_apply, htype]
  split
  . rfl
  . rfl

theorem Multishot.multishotLoop_succ (h : Multishot id ring type blocks w.poll) (n : Nat)
    : Event.multishotLoop id ring (n + 1) w =
        (readShot id ring blocks >>= fun ret => if ret < 0 then pure () else multishotLoop id ring n) w := by
  obtain ⟨b, hb, rfl⟩ := h.ring
  rw [multishotLoop, get_bind_apply, hb]
  dsimp only
  rw [if_neg h.nonempty]

-- The chunks are handed on one after the other, then the loop ends.
theorem Serving.multishotLoop_tcp {chunks left : List SysRet}
    (h : Serving id ring .tcp blocks shots (chunks ++ .fail .again :: left) w) (fuel : Nat)
    (hchunks : ∀ a ∈ chunks, Receives a) (hfuel : chunks.length < fuel)
    : ∃ w', multishotLoop id ring fuel w = .ok () w' ∧ (w'.action id).isReadable = false
        ∧ Observes Entry.shots (shots ++ chunks.map fun a => (a.count : Int)) w' := by
  induction chunks generalizing w shots fuel with
  | nil =>
    obtain ⟨w', hagain, hw', hreadable⟩ := h.readTcp_again
    obtain ⟨fuel, rfl⟩ := Nat.exists_eq_add_one_of_ne_zero (Nat.ne_zero_of_lt hfuel)
    refine ⟨w', ?_, hreadable, by simpa using hw'.shots⟩
    rw [h.multishot.multishotLoop_succ, bind_apply, h.multishot.readShot_eq,
      if_neg (by decide), hagain]
    rfl
  | cons a chunks ih =>
    rw [List.forall_mem_cons] at hchunks
    obtain ⟨⟨n, lens, rfl, hpos, hlt⟩, hchunks⟩ := hchunks
    obtain ⟨w₁, hok, hw₁⟩ := h.readTcp_ok hpos hlt
    obtain ⟨fuel, rfl⟩ := Nat.exists_eq_add_one_of_ne_zero (Nat.ne_zero_of_lt hfuel)
    obtain ⟨w', hrun, hreadable, hshots⟩ := ih hw₁ fuel hchunks (Nat.lt_of_succ_lt_succ hfuel)
    refine ⟨w', ?_, hreadable, by simpa [SysRet.count] using hshots⟩
    rw [h.multishot.multishotLoop_succ, bind_apply, h.multishot.readShot_eq,
      if_neg (by decide), hok]
    exact hrun

-- `recvmmsg` does not return 0.
def NotClosed (a : SysRet) : Prop := ∀ lens, a ≠ .ok 0 lens

theorem Receives.notClosed {a : SysRet} (h : Receives a) : NotClosed a := by
  obtain ⟨n, lens, rfl, hpos, -⟩ := h
  rintro lens' heq
  cases heq
  exact Nat.lt_irrefl 0 hpos

-- The result is positive whatever `recvmmsg` answers.
theorem readFdForMultishot_pos {buf : List FdIo.Udp.Mmsghdr} {left : List SysRet} {r : FdIo.Udp.RecvRet}
    (hsys : ∀ a ∈ sys, NotClosed a) (h : FdIo.Udp.readFdForMultishot buf sys = .done r left)
    : 0 < r.ret ∧ ∀ a ∈ left, NotClosed a := by
  induction sys with
  | nil => cases h
  | cons a sys ih =>
    rw [List.forall_mem_cons] at hsys
    cases a with
    | ok n lens =>
      have hpos : 0 < n := Nat.pos_of_ne_zero fun hzero => hsys.1 lens (by rw [hzero])
      cases h
      exact ⟨Int.natCast_pos.mpr hpos, hsys.2⟩
    | fail e =>
      rw [FdIo.Udp.readFdForMultishot] at h
      split at h
      . cases h
        exact ⟨by simp [INT32_MAX], hsys.2⟩
      . split at h
        . exact ih hsys.2 h
        . cases h
          exact ⟨Int.one_pos, hsys.2⟩

-- The read of a UDP socket that is under way. Since `xs`, the callback has not been called with a negative value.
structure Spinning (id ring : Nat) (blocks : List Iovec) (xs : List Int) (w : World) : Prop where
  multishot : Multishot id ring .udp blocks w.poll
  calls : w.Calls (Op.Leaves id ring)
  sys : ∀ a ∈ w.sys, NotClosed a
  shots : ∃ ys, Observes Entry.shots (xs ++ ys) w ∧ ∀ y ∈ ys, 0 ≤ y

section

variable {xs : List Int}

theorem Spinning.modifyAction {f : EventAction → EventAction} (hfd : ∀ a, (f a).fd = a.fd)
    (hops : ∀ a, (f a).fdOps = a.fdOps) (hcb : ∀ a, (f a).readBufIdxCallback = a.readBufIdxCallback)
    : Preserves (Spinning id ring blocks xs) (Event.modifyAction id f) :=
  Preserves.modify fun _ hw => ⟨hw.multishot.modifyAction hfd hops hcb, hw.calls, hw.sys, hw.shots⟩

theorem Spinning.readCallback {ret : Int} (hret : 0 ≤ ret) (iov : List Iovec)
    : Preserves (Spinning id ring blocks xs) (Event.readCallback id .multishot ret iov) := by
  intro w hw
  obtain ⟨ys, hys, hpos⟩ := hw.shots
  obtain ⟨cb, hcb⟩ := Option.isSome_iff_exists.mp hw.multishot.callback
  have hretained : Retained (Op.Leaves id ring) (Multishot id ring .udp blocks) Entry.shots (xs ++ ys) w.sys w :=
    ⟨hw.multishot, hw.calls, hys, rfl⟩
  obtain ⟨w', hrun, hw'⟩ :=
    hretained.readCallback shots_observation (fun op hop => hop .udp blocks) hcb .multishot ret iov
  rw [hrun]
  refine ⟨hw'.inv, hw'.calls, ?_, ys ++ [ret], ?_, ?_⟩
  . rw [hw'.sys]
    exact hw.sys
  . rw [← List.append_assoc]
    exact hw'.observes
  . intro y hy
    rw [List.mem_append, List.mem_singleton] at hy
    rcases hy with hy | rfl
    . exact hpos y hy
    . exact hret

theorem Spinning.udpHdrs (isMultishot : Bool)
    : Preserves (Spinning id ring blocks xs) (Event.udpHdrs id isMultishot) := by
  apply Preserves.get_bind
  intro w _
  split
  . split
    . exact Preserves.pure _
    . exact Preserves.throw _
    . exact Preserves.throw _
  . exact Preserves.pure _

theorem Spinning.udpCallbacks (isMultishot : Bool) (i n : Nat)
    : Preserves (Spinning id ring blocks xs) (Event.udpCallbacks id isMultishot .multishot i n) := by
  induction n generalizing i with
  | zero => exact Preserves.pure _
  | succ n ih =>
    apply Preserves.bind (Spinning.udpHdrs isMultishot)
    intro buf
    split
    . exact Preserves.throw _
    . apply Preserves.bind (Spinning.readCallback (Int.natCast_nonneg _) _)
      intro _
      exact ih (i + 1)

-- Whatever is received, the result is not negative.
theorem Spinning.readUdp
    : Triple (Spinning id ring blocks xs) (Event.readUdp id true .multishot 0)
        (fun ret w => 0 ≤ ret ∧ Spinning id ring blocks xs w) (fun _ => Spinning id ring blocks xs) := by
  apply Triple.bind (Spinning.udpHdrs true)
  intro buf
  apply Triple.get_bind
  intro w hw
  have hop : (w.action id).readOp = some .udpMultishot := hw.multishot.op
  apply Triple.bind (Q := fun r w => 0 < r.ret ∧ Spinning id ring blocks xs w)
  . intro w' heq
    rw [heq]
    unfold liftIo
    rw [hop]
    dsimp only [readHdrs]
    cases hread : FdIo.Udp.readFdForMultishot buf w.sys with
    | done r left =>
      obtain ⟨hpos, hleft⟩ := readFdForMultishot_pos hw.sys hread
      exact ⟨hpos, hw.multishot, hw.calls, hleft, hw.shots⟩
    | cut => exact hw
    | null => exact hw
  intro r
  apply Triple.of_states
  rintro w ⟨hpos, hw⟩
  apply Triple.bind (Q := fun _ w => Spinning id ring blocks xs w)
  . unfold setUdpHdrs
    refine Triple.at_state (Spinning.modifyAction ?_ ?_ ?_) hw
    all_goals
      intro a
      rfl
  intro _
  rw [if_pos hpos]
  apply Triple.bind (Q := fun _ w => Spinning id ring blocks xs w)
  . apply Spinning.modifyAction
    all_goals
      intro a
      rfl
  intro _
  split
  . next hmax => exact Triple.pure fun w hw => ⟨by rw [hmax]; decide, hw⟩
  . apply Triple.bind (Spinning.udpCallbacks true 0 _)
    intro _
    exact Triple.pure fun w hw => ⟨Int.le_refl 0, hw⟩

-- The loop does not end, however many answers it is given.
theorem Spinning.multishotLoop (n : Nat)
    : Triple (Spinning id ring blocks xs) (Event.multishotLoop id ring n) (fun _ _ => False)
        (fun _ => Spinning id ring blocks xs) := by
  induction n with
  | zero => exact Triple.throw fun _ hw => hw
  | succ n ih =>
    intro w hw
    have hshot : Triple (Spinning id ring blocks xs) (Event.readUdp id true .multishot 0 >>= fun ret =>
        if ret < 0 then pure () else Event.multishotLoop id ring n) (fun _ _ => False)
        (fun _ => Spinning id ring blocks xs) := by
      apply Triple.bind Spinning.readUdp
      intro ret
      apply Triple.of_states
      rintro w ⟨hret, hw⟩
      rw [if_neg (by omega)]
      exact ih.at_state hw
    have hloop := hshot w hw
    rw [bind_apply] at hloop
    rw [hw.multishot.multishotLoop_succ, bind_apply, hw.multishot.readShot_eq, if_pos rfl]
    exact hloop

end

-- What has been received, as it is reported: a chunk by its length, and each datagram by its own.
def deliveries (type : FdType) (chunks : List SysRet) : List Int :=
  chunks.flatMap fun
    | .ok n lens => if type = .udp then (lens.take n).map fun len => (len : Int) else [(n : Int)]
    | .fail _ => []

theorem deliveries_tcp {chunks : List SysRet} (h : ∀ a ∈ chunks, Receives a)
    : deliveries .tcp chunks = chunks.map fun a => (a.count : Int) := by
  unfold deliveries
  rw [List.map_eq_flatMap]
  apply List.flatMap_congr
  intro a ha
  obtain ⟨n, lens, rfl, -, -⟩ := h a ha
  rfl

-- The read returns once the socket stays empty, all that has been received is reported and the socket is not readable.
def ReturnsToLoop (id : Nat) (t : MultishotTask) (type : FdType) (chunks : List SysRet) (w : World) : Prop :=
  ∃ m w', doMultishotReadTask id t { w with sys := chunks ++ List.replicate m (.fail .again) } = .ok () w'
    ∧ (w'.action id).isReadable = false
    ∧ w'.log.flatMap Entry.shots = w.log.flatMap Entry.shots ++ deliveries type chunks

theorem not_returnsToLoop_udp {chunks : List SysRet} {t : MultishotTask}
    (h : Multishot id t.bufRing .udp blocks w.poll) (hcalls : w.Calls (Op.Leaves id t.bufRing))
    (hchunks : ∀ a ∈ chunks, Receives a)
    : ¬ReturnsToLoop id t .udp chunks w := by
  rintro ⟨m, w', hrun, -⟩
  have hsys : ∀ a ∈ chunks ++ List.replicate m (SysRet.fail .again), NotClosed a := by
    intro a ha
    rw [List.mem_append, List.mem_replicate] at ha
    rcases ha with ha | ⟨-, rfl⟩
    . exact (hchunks a ha).notClosed
    . exact fun _ => nofun
  have hspin : Spinning id t.bufRing blocks (w.log.flatMap Entry.shots)
      { w with sys := chunks ++ List.replicate m (SysRet.fail .again) } :=
    ⟨h, hcalls, hsys, [], by rw [List.append_nil]; rfl, List.forall_mem_nil _⟩
  exact (Spinning.multishotLoop _).of_ok hspin hrun

/--
The loop ends if and only if the socket is a TCP socket: `read_udp` returns `INT32_MAX` for an empty socket, which does
not end it.
-/
theorem returnsToLoop_iff {chunks : List SysRet} {t : MultishotTask} (htype : type = .tcp ∨ type = .udp)
    (h : Multishot id t.bufRing type blocks w.poll) (hcalls : w.Calls (Op.Leaves id t.bufRing))
    (hchunks : ∀ a ∈ chunks, Receives a)
    : ReturnsToLoop id t type chunks w ↔ type = .tcp := by
  rcases htype with rfl | rfl
  . constructor
    . exact fun _ => rfl
    . intro _
      have hserving : Serving id t.bufRing .tcp blocks (w.log.flatMap Entry.shots) (chunks ++ [SysRet.fail .again])
          { w with sys := chunks ++ [SysRet.fail .again] } :=
        ⟨h, hcalls, rfl, rfl⟩
      obtain ⟨w', hrun, hreadable, hshots⟩ := hserving.multishotLoop_tcp (chunks.length + 2) hchunks (by omega)
      refine ⟨1, w', ?_, hreadable, ?_⟩
      . unfold doMultishotReadTask
        rw [get_bind_apply]
        have hlen : (chunks ++ [SysRet.fail .again]).length + 1 = chunks.length + 2 := by simp
        rw [List.replicate_one]
        dsimp only
        rw [hlen]
        exact hrun
      . rw [deliveries_tcp hchunks]
        exact hshots
  . constructor
    . intro hreturns
      exact absurd hreturns (not_returnsToLoop_udp h hcalls hchunks)
    . intro htcp
      cases htcp

theorem Op.leaves_open (fd : Nat) : (Op.open fd).Leaves id ring := by
  intro type blocks s h
  exact ⟨0, _, rfl, h.fdType, h.op, h.callback, h.ring, h.nonempty⟩

-- A multishot read into two blocks has been submitted, its callback opens a file.
def multishotWorld (type : FdType) : World :=
  let submitRead : EventM Unit := do
    exec (.registerRingBuffer 8 2 [0, 8])
    exec (.submitAsyncReadGroup ⟨3, type⟩ 0 (some 7) none)
  { (submitRead (World.init fun _ => true)).state with user := [[.open 5]] }

theorem multishotWorld_multishot {type : FdType} (htype : type = .tcp ∨ type = .udp)
    : Multishot 0 0 type [⟨0, 8⟩, ⟨8, 8⟩] (multishotWorld type).poll := by
  rcases htype with rfl | rfl
  . exact ⟨by decide +kernel, by decide +kernel, by decide +kernel, ⟨_, rfl, by decide +kernel⟩, by decide⟩
  . exact ⟨by decide +kernel, by decide +kernel, by decide +kernel, ⟨_, rfl, by decide +kernel⟩, by decide⟩

theorem multishotWorld_calls (type : FdType) : (multishotWorld type).Calls (Op.Leaves 0 0) := by
  intro ops hops op hop
  have hopen : op = .open 5 := by
    have heq : ops = [.open 5] := List.mem_singleton.mp hops
    rw [heq] at hop
    exact List.mem_singleton.mp hop
  rw [hopen]
  exact Op.leaves_open 5

-- Two bytes or datagrams, as many as there are blocks, then one.
def arrivals : List SysRet := [.ok 2 [1, 2], .ok 1 [3]]

theorem arrivals_receive : ∀ a ∈ arrivals, Receives a := by
  intro a ha
  simp only [arrivals, List.mem_cons, List.not_mem_nil, or_false] at ha
  rcases ha with rfl | rfl
  . exact ⟨2, _, rfl, by decide, by decide⟩
  . exact ⟨1, _, rfl, by decide, by decide⟩

theorem returnsToLoop_tcp : ReturnsToLoop 0 ⟨0, false, true⟩ .tcp arrivals (multishotWorld .tcp) :=
  (returnsToLoop_iff (.inl rfl) (multishotWorld_multishot (.inl rfl)) (multishotWorld_calls .tcp) arrivals_receive).mpr
    rfl

-- The socket stays empty after the arrivals, but the loop goes on.
theorem not_returnsToLoop : ¬ReturnsToLoop 0 ⟨0, false, true⟩ .udp arrivals (multishotWorld .udp) :=
  not_returnsToLoop_udp (multishotWorld_multishot (.inr rfl)) (multishotWorld_calls .udp) arrivals_receive

end

end Event
end Ezio
