import Ezio.Event.FdIo.Lemmas
import Ezio.Event.Epoll.Lemmas.MultishotRead

/-!
This module contains when the read part of `handle_events` returns. The callbacks leave the action alone, which is
seen in the log: a call that touches the action stays there.
-/

namespace Ezio

-- The types of files that a plain read can be carried out for: `fd_ops_.read` of a `UDS_DGRAM_FD` expects headers that
-- it is not given, an `ACCEPT_FD` has no `fd_ops_.read`.
def FdType.canRead (type : FdType) : Bool := type ≠ .udsDgram && type ≠ .accept && type ≠ .unknown

namespace FdIo

theorem streamFd_go_ne_null (op : StreamOp) (passed iov : List Iovec) (result : Nat) (moved : List (List Iovec × Nat))
    (sys : List SysRet)
    : streamFd.go op passed iov result moved sys ≠ .null := by
  induction sys generalizing passed iov result moved with
  | nil => simp [streamFd.go]
  | cons a sys ih =>
    cases a with
    | ok n lens =>
      unfold streamFd.go
      dsimp only
      split
      . simp
      . split
        . simp
        . split
          . exact ih _ _ _ _
          . simp
    | fail e =>
      unfold streamFd.go
      split
      . simp
      . split
        . exact ih _ _ _ _
        . simp

theorem streamFd_ne_null (op : StreamOp) (iov : List Iovec) (sys : List SysRet) : streamFd op iov sys ≠ .null :=
  streamFd_go_ne_null op [] iov 0 [] sys

theorem readRecord_ne_null (size : Nat) (iov : List Iovec) (sys : List SysRet) : readRecord size iov sys ≠ .null := by
  unfold readRecord
  split
  . simp
  . induction sys with
    | nil => simp [readRecord.go]
    | cons a sys ih =>
      unfold readRecord.go
      cases a with
      | ok n lens =>
        dsimp only
        split
        . simp
        . exact ih
      | fail e =>
        dsimp only
        split
        . exact ih
        . simp

theorem Tcp.readFdForMultishot_spec {iov : List Iovec} {sys left : List SysRet} {r : FdRet}
    (h : readFdForMultishot iov sys = .done r left)
    : r.iov = iov := by
  induction sys with
  | nil => cases h
  | cons a sys ih =>
    cases a with
    | ok n lens => rw [← (Io.done.inj h).1]
    | fail e =>
      rw [readFdForMultishot] at h
      split at h
      . rw [← (Io.done.inj h).1]
      . split at h
        . exact ih h
        . rw [← (Io.done.inj h).1]

theorem Tcp.readFdForMultishot_ne_null (iov : List Iovec) (sys : List SysRet) : readFdForMultishot iov sys ≠ .null := by
  induction sys with
  | nil => simp [readFdForMultishot]
  | cons a sys ih =>
    cases a with
    | ok n lens => simp [readFdForMultishot]
    | fail e =>
      rw [readFdForMultishot]
      split
      . simp
      . split
        . exact ih
        . simp

theorem Udp.readFdForMultishot_ne_null (buf : List Mmsghdr) (sys : List SysRet)
    : readFdForMultishot buf sys ≠ .null := by
  induction sys with
  | nil => simp [readFdForMultishot]
  | cons a sys ih =>
    cases a with
    | ok n lens => simp [readFdForMultishot]
    | fail e =>
      rw [readFdForMultishot]
      split
      . simp
      . split
        . exact ih
        . simp

theorem Udp.readFd_go_ne_null (cnt : Nat) (buf : List Mmsghdr) (result : Nat) (sys : List SysRet)
    : readFd.go cnt buf result sys ≠ .null := by
  induction sys generalizing buf result with
  | nil =>
    unfold readFd.go
    split
    . simp
    . simp
  | cons a sys ih =>
    unfold readFd.go
    split
    . simp
    . cases a with
      | ok n lens => exact ih _ _
      | fail e =>
        dsimp only
        split
        . split
          . simp
          . simp
        . split
          . exact ih _ _
          . simp

end FdIo

namespace Event

open EStateM (Preserves Triple)

-- What the read part reads of an action does not change while it is carried out.
structure EventAction.SameSetup (a a' : EventAction) : Prop where
  fd : a'.fd = a.fd
  callback : a'.readBufIdxCallback = a.readBufIdxCallback
  ops : a'.fdOps = a.fdOps
  shot : a'.multishotReadTask = a.multishotReadTask
  accept : a'.hasAcceptTask = a.hasAcceptTask
  addr : a'.hasAddrBuffer = a.hasAddrBuffer

namespace EventAction

-- There is something to be read or accepted.
def hasReadWork (a : EventAction) : Bool := a.multishotReadTask.isSome || a.pendingReadTask ≠ [] || a.hasAcceptTask

-- There is a pending read that `fd_ops_.read` cannot be called for.
def hasUnreadable (a : EventAction) : Bool :=
  a.multishotReadTask.isNone && !a.fd.type.canRead && a.pendingReadTask.any fun t => t.buffer ≠ []

-- The write tasks are not come to: the multishot read is not submitted yet or it is one of a UDP socket, or the file
-- cannot be read.
def blocksWrites (a : EventAction) : Bool :=
  a.isReadable && ((a.multishotReadTask.any fun t => !t.isSubmit || a.fd.type = .udp) || a.hasUnreadable)

theorem SameSetup.refl (a : EventAction) : a.SameSetup a := ⟨rfl, rfl, rfl, rfl, rfl, rfl⟩

theorem SameSetup.trans {a a' a'' : EventAction} (h : a.SameSetup a') (h' : a'.SameSetup a'') : a.SameSetup a'' :=
  ⟨h'.fd.trans h.fd, h'.callback.trans h.callback, h'.ops.trans h.ops, h'.shot.trans h.shot,
    h'.accept.trans h.accept, h'.addr.trans h.addr⟩

theorem SameSetup.readOp {a a' : EventAction} (h : a.SameSetup a') : a'.readOp = a.readOp := by
  unfold EventAction.readOp
  rw [h.ops]

end EventAction

-- What the interface has set up for the reads of an action: the callback, the operation that the type of the file or
-- the multishot read asks for, the buffers of the ring and the place for the address of an accepted connection.
structure ReadSound (id : Nat) (s : Epoll) : Prop where
  callback : (s.action id).hasReadWork → (s.action id).readBufIdxCallback.isSome
  ops : (s.action id).multishotReadTask = none
    → (s.action id).readOp = (EventAction.opsOf (s.action id).fd.type).map (·.read)
  shot : ∀ t, (s.action id).multishotReadTask = some t
    → (s.action id).readOp = some (multishotOp (s.action id).fd.type)
      ∧ ∃ b, s.bufferOf t.bufRing = some b ∧ b.blocks ≠ []
  accept : (s.action id).hasAcceptTask → (s.action id).hasAddrBuffer

-- A call that returns and touches neither the action nor the buffers of its multishot read.
def Entry.Spares (id : Nat) : Entry → Prop
  | .call op before => ∃ r s, before.exec op = .ok (r, s) ∧ s.action id = before.action id
    ∧ ∀ t, (before.action id).multishotReadTask = some t
      → (s.bufferOf t.bufRing).map (·.blocks) = (before.bufferOf t.bufRing).map (·.blocks)
  | _ => True

-- No call since the log had `n` entries has touched the action.
def World.Untouched (n id : Nat) (w : World) : Prop := ∀ e ∈ w.log.drop n, e.Spares id

-- The property holds, unless a call has touched the action.
def World.IfUntouched (n id : Nat) (S : World → Prop) (w : World) : Prop := w.Untouched n id → S w

-- The run stops for nothing but the end of the answers, unless a call has touched the action.
def Starves (n id : Nat) (f : Fault) : World → Prop := World.IfUntouched n id fun _ => f = .cut

-- The action is `a`, its multishot read goes into `blocks`, the kernel is going to give the answers `sys`.
structure World.At (n id : Nat) (blocks : List Iovec) (a : EventAction) (sys : List SysRet) (w : World) : Prop where
  length : n ≤ w.log.length
  action : w.action id = a
  ring : ∀ t, a.multishotReadTask = some t → ∃ b, w.poll.bufferOf t.bufRing = some b ∧ b.blocks = blocks
  sys : w.sys = sys

section

variable {α : Type} {n id : Nat} {w w' : World} {blocks : List Iovec} {a : EventAction} {sys : List SysRet}

theorem World.Untouched.of_prefix (h : w'.Untouched n id) (hlog : w.log <+: w'.log) : w.Untouched n id := by
  intro e he
  obtain ⟨log, hlog⟩ := hlog
  apply h
  rw [← hlog, List.drop_append]
  exact List.mem_append_left _ he

theorem World.Untouched.of_log (h : w.Untouched n id) (hlog : w'.log = w.log) : w'.Untouched n id := by
  unfold World.Untouched
  rw [hlog]
  exact h

-- The last call of an untouched run.
theorem World.Untouched.call {op : Op} {s : Epoll} {log : List Entry} (hn : n ≤ log.length)
    (hlog : w.log = log ++ [Entry.call op s]) (h : w.Untouched n id)
    : (Entry.call op s).Spares id := by
  apply h
  rw [hlog, List.drop_append_of_le_length hn]
  simp

-- What a call has touched stays touched.
theorem touched_readFrame (i : Nat) : ReadFrame i (fun _ => True) (fun w => ¬w.Untouched n id) := by
  have hlog : ∀ w w' : World, w.log <+: w'.log → ¬w.Untouched n id → ¬w'.Untouched n id :=
    fun _ _ hprefix hw huntouched => hw (huntouched.of_prefix hprefix)
  refine ⟨⟨⟨?_, ?_, ?_⟩, ?_⟩, ?_⟩
  . intro op _
    apply exec_triple
    . exact fun w _ _ hw _ => hlog _ _ (List.prefix_append _ _) hw
    . exact fun w _ hw _ => hlog _ _ (List.prefix_append _ _) hw
  . exact fun w _ _ _ _ hw => hlog _ _ (List.prefix_append _ _) hw
  . exact fun w _ _ _ hw => hlog w _ List.prefix_rfl hw
  . exact fun w _ _ hw => hlog w _ List.prefix_rfl hw
  . exact fun w _ _ hw => hlog w _ List.prefix_rfl hw

theorem Preserves.of_inv {P : World → Prop} {m : EventM α} (h : Preserves (Frame.Inv (fun _ => True) P) m)
    : Preserves P m := by
  intro w hw
  exact (h.conseq (fun _ hw => ⟨fun _ _ _ _ => True.intro, hw⟩) (fun _ _ h => h.2) fun _ _ h => h.2) w hw

-- Once the action is touched nothing is asked of the run.
theorem Triple.unless {S : World → Prop} {m : EventM α} {Q : α → World → Prop} {E : Fault → World → Prop}
    (hm : Preserves (fun w => ¬w.Untouched n id) m)
    (h : Triple S m (fun r => World.IfUntouched n id (Q r)) (fun f => World.IfUntouched n id (E f)))
    : Triple (World.IfUntouched n id S) m (fun r => World.IfUntouched n id (Q r))
        (fun f => World.IfUntouched n id (E f)) := by
  intro w hw
  by_cases hcalls : w.Untouched n id
  . exact h w (hw hcalls)
  . have htouched := hm w hcalls
    cases hrun : m w with
    | ok r u =>
      rw [hrun] at htouched
      exact fun h => absurd h htouched
    | error f u =>
      rw [hrun] at htouched
      exact fun h => absurd h htouched

-- Nothing is asked of the runs that fail.
theorem Triple.any_error {P : World → Prop} {m : EventM α} {Q : α → World → Prop} {E : Fault → World → Prop}
    (h : Triple P m Q E)
    : Triple P m Q (fun _ => World.IfUntouched n id fun _ => True) :=
  h.conseq (fun _ h => h) (fun _ _ h => h) fun _ _ _ _ => True.intro

namespace World.At

theorem exec (op : Op)
    : Triple (World.At n id blocks a sys) (exec op) (fun _ => World.IfUntouched n id (World.At n id blocks a sys))
        (Starves n id) := by
  apply exec_triple
  . intro w r s hw hexec hcalls
    have hlog : { w.addLog [Entry.call op w.poll] with poll := s }.log = w.log ++ [Entry.call op w.poll] := rfl
    obtain ⟨r', s', hexec', haction, hring⟩ := hcalls.call hw.length hlog
    rw [hexec] at hexec'
    cases hexec'
    have ha : w.poll.action id = a := hw.action
    refine ⟨?_, ?_, ?_, hw.sys⟩
    . rw [hlog, List.length_append]
      exact Nat.le_add_right_of_le hw.length
    . exact haction.trans ha
    . intro t ht
      obtain ⟨b, hb, hblocks⟩ := hw.ring t ht
      have hkept := hring t (by rw [ha]; exact ht)
      rw [hb, Option.map_some, Option.map_eq_some_iff] at hkept
      obtain ⟨b', hb', heq⟩ := hkept
      exact ⟨b', hb', heq.trans hblocks⟩
  . intro w f hw hexec hcalls
    have hlog : (w.addLog [Entry.call op w.poll]).log = w.log ++ [Entry.call op w.poll] := rfl
    obtain ⟨r', s', hexec', _⟩ := hcalls.call hw.length hlog
    rw [hexec] at hexec'
    cases hexec'

theorem addLog (h : w.At n id blocks a sys) {log : List Entry} {user : List (List Op)}
    : { w.addLog log with user := user }.At n id blocks a sys := by
  refine ⟨?_, h.action, h.ring, h.sys⟩
  show n ≤ (w.log ++ log).length
  rw [List.length_append]
  exact Nat.le_add_right_of_le h.length

theorem readCallback (hcb : a.readBufIdxCallback.isSome) (src : ReadSource) (ret : Int) (iov : List Iovec)
    : Triple (World.At n id blocks a sys) (readCallback id src ret iov)
        (fun _ => World.IfUntouched n id (World.At n id blocks a sys)) (Starves n id) := by
  apply Triple.get_bind
  intro w hw
  rw [hw.action]
  split
  next hnone =>
    rw [hnone] at hcb
    cases hcb
  next cb _ =>
    apply Triple.modify_bind (T := World.At n id blocks a sys)
    . rintro _ rfl
      exact hw.addLog
    . apply Triple.bind (Q := fun _ => World.IfUntouched n id (World.At n id blocks a sys))
      . apply Triple.pre (P := World.IfUntouched n id (World.At n id blocks a sys))
        . apply Triple.forM
          intro op _
          exact Triple.unless ((touched_readFrame id).exec op trivial) (exec op)
        . exact fun _ hw _ => hw
      . intro _
        apply Triple.modify
        intro u hu hcalls
        exact (hu (hcalls.of_prefix (List.prefix_append _ _))).addLog

theorem liftIo {io : List SysRet → Io α} (hio : io sys ≠ .null)
    : Triple (World.At n id blocks a sys) (liftIo io)
        (fun r w => ∃ left, io sys = .done r left ∧ w.At n id blocks a left) (Starves n id) := by
  intro w hw
  unfold Event.liftIo
  rw [hw.sys]
  cases hrun : io sys with
  | done r left => exact ⟨left, rfl, hw.length, hw.action, hw.ring, rfl⟩
  | cut => exact fun _ => rfl
  | null => exact (hio hrun).elim

theorem setAction {a' : EventAction} (h : w.At n id blocks a sys) (hshot : a'.multishotReadTask = a.multishotReadTask)
    : (w.modifyAction id fun _ => a').At n id blocks a' sys := by
  refine ⟨h.length, by simp, ?_, h.sys⟩
  intro t ht
  rw [hshot] at ht
  exact h.ring t ht

-- A property of the state that the action is not part of may be forgotten.
theorem modifyAction {f : EventAction → EventAction} (hf : (f a).multishotReadTask = a.multishotReadTask)
    : Triple (World.At n id blocks a sys) (Event.modifyAction id f)
        (fun _ => World.At n id blocks (f a) sys) (Starves n id) := by
  apply Triple.modify
  intro w hw
  have hset : w.modifyAction id f = w.modifyAction id fun _ => f a := by
    have haction : (w.poll.infos id).action = a := hw.action
    rw [World.modifyAction_eq, haction, World.modifyAction_eq]
  rw [hset]
  exact hw.setAction hf

-- The loop over the datagrams, there is a header for each of them.
theorem udpCallbacks (hcb : a.readBufIdxCallback.isSome) (src : ReadSource) (k i : Nat)
    (hlen : i + k ≤ a.mmsghdrForUdpSock.length)
    : Triple (World.IfUntouched n id (World.At n id blocks a sys)) (udpCallbacks id false src i k)
        (fun _ => World.IfUntouched n id (World.At n id blocks a sys)) (Starves n id) := by
  induction k generalizing i with
  | zero => exact Triple.pure fun _ hw => hw
  | succ k ih =>
    apply Triple.unless
      (Preserves.of_inv ((touched_readFrame id).entry.udpCallbacks false i (k + 1) fun _ _ _ _ => rfl))
    apply Triple.get_bind
    intro w hw
    have hlt : i < a.mmsghdrForUdpSock.length := by omega
    rw [hw.action, List.getElem?_eq_getElem hlt]
    apply Triple.bind
    . exact (readCallback hcb src _ _).at_state hw
    . intro _
      exact ih (i + 1) (by omega)

end World.At

-- The action is set up as `a`, the pending reads are `pend`, every answer of the kernel is in `C`.
def World.Reads (n id : Nat) (blocks : List Iovec) (C : SysRet → Prop) (a : EventAction) (pend : List Task) (w : World)
    : Prop :=
  ∃ a' sys, a.SameSetup a' ∧ a'.pendingReadTask = pend ∧ (∀ x ∈ sys, C x) ∧ w.At n id blocks a' sys

variable {C : SysRet → Prop} {pend : List Task}

namespace World.Reads

theorem readCallback (hcb : a.readBufIdxCallback.isSome) (src : ReadSource) (ret : Int) (iov : List Iovec)
    : Triple (World.Reads n id blocks C a pend) (readCallback id src ret iov)
        (fun _ => World.IfUntouched n id (World.Reads n id blocks C a pend)) (Starves n id) := by
  apply Triple.of_states
  rintro w ⟨a', sys, hsetup, hpend, hsys, hat⟩
  refine (Triple.at_state (World.At.readCallback ?_ src ret iov) hat).conseq (fun _ h => h) ?_ fun _ _ h => h
  . rw [hsetup.callback]
    exact hcb
  . intro _ u hu hcalls
    exact ⟨a', sys, hsetup, hpend, hsys, hu hcalls⟩

theorem modifyAction {f : EventAction → EventAction} {pend' : List Task}
    (hf : ∀ a : EventAction, a.SameSetup (f a))
    (hpend : ∀ a : EventAction, a.pendingReadTask = pend → (f a).pendingReadTask = pend')
    : Triple (World.Reads n id blocks C a pend) (Event.modifyAction id f)
        (fun _ => World.Reads n id blocks C a pend') (Starves n id) := by
  apply Triple.of_states
  rintro w ⟨a', sys, hsetup, hp, hsys, hat⟩
  refine (Triple.at_state (World.At.modifyAction (hf a').shot) hat).conseq (fun _ h => h) ?_ fun _ _ h => h
  intro _ u hu
  exact ⟨f a', sys, hsetup.trans (hf a'), hpend a' hp, hsys, hu⟩

theorem liftIo {io : List SysRet → Io α} (hio : ∀ sys, io sys ≠ .null)
    : Triple (World.Reads n id blocks (fun _ => True) a pend) (liftIo io)
        (fun _ => World.Reads n id blocks (fun _ => True) a pend) (Starves n id) := by
  apply Triple.of_states
  rintro w ⟨a', sys, hsetup, hpend, hsys, hat⟩
  refine (Triple.at_state (World.At.liftIo (hio sys)) hat).conseq (fun _ h => h) ?_ fun _ _ h => h
  rintro r u ⟨left, _, hu⟩
  exact ⟨a', left, hsetup, hpend, fun _ _ => True.intro, hu⟩

end World.Reads

theorem prepareHdrs_length (buf : List FdIo.Udp.Mmsghdr) (t : Task)
    : t.buffer.length ≤ (EventAction.prepareHdrs buf t).length := by
  unfold EventAction.prepareHdrs
  dsimp only
  split
  . simpa
  . simp

-- The datagrams of a plain read are handed on, and none is counted that there is no header for.
theorem udpDeliver_returns {a' : EventAction} (hsetup : a.SameSetup a')
    (hpend : a'.pendingReadTask = pend) (hcb : a.readBufIdxCallback.isSome) (src : ReadSource) (ret : Int)
    (isReadable : EventAction → Bool) (hret : ret = INT32_MAX ∨ ret ≤ a'.mmsghdrForUdpSock.length)
    : Triple (World.At n id blocks a' sys)
        (if 0 < ret then do
          modifyAction id fun a => { a with isReadable := isReadable a }
          if ret = INT32_MAX then
            return ret
          else
            udpCallbacks id false src 0 ret.toNat
            return 0
        else do
          readCallback id src ret []
          return -1)
        (fun _ => World.IfUntouched n id (World.Reads n id blocks (fun _ => True) a pend)) (Starves n id) := by
  have hcb' : a'.readBufIdxCallback.isSome := by
    rw [hsetup.callback]
    exact hcb
  split
  . have hset : ∀ u : World, u.At n id blocks { a' with isReadable := isReadable a' } sys
        → u.Reads n id blocks (fun _ => True) a pend :=
      fun u hu => ⟨{ a' with isReadable := isReadable a' }, sys, hsetup.trans ⟨rfl, rfl, rfl, rfl, rfl, rfl⟩, hpend,
        fun _ _ => True.intro, hu⟩
    apply Triple.bind (Q := fun _ => World.At n id blocks { a' with isReadable := isReadable a' } sys)
    . exact World.At.modifyAction (f := fun a => { a with isReadable := isReadable a }) rfl
    intro _
    split
    . exact Triple.pure fun u hu _ => hset u hu
    next hmax =>
      have hle := hret.resolve_left hmax
      apply Triple.bind
      . refine (World.At.udpCallbacks (a := { a' with isReadable := isReadable a' }) hcb' src ret.toNat 0 ?_).pre
          fun _ hw _ => hw
        show 0 + ret.toNat ≤ a'.mmsghdrForUdpSock.length
        omega
      . intro _
        exact Triple.pure fun u hu hcalls => hset u (hu hcalls)
  . apply Triple.bind (World.At.readCallback hcb' src _ _)
    intro _
    exact Triple.pure fun _ hw hcalls => ⟨a', sys, hsetup, hpend, fun _ _ => True.intro, hw hcalls⟩

-- A plain read of a UDP socket returns.
theorem readUdp_returns {a' : EventAction} (hsetup : a.SameSetup a') (hpend : a'.pendingReadTask = pend)
    (hcb : a.readBufIdxCallback.isSome) (hop : a.readOp = some .udp) (src : ReadSource) (cnt : Nat)
    (hcnt : cnt ≤ a'.mmsghdrForUdpSock.length)
    : Triple (World.At n id blocks a' sys) (readUdp id false src cnt)
        (fun _ => World.IfUntouched n id (World.Reads n id blocks (fun _ => True) a pend)) (Starves n id) := by
  have hread : ∀ sys, readHdrs a'.readOp a'.mmsghdrForUdpSock cnt sys
      = FdIo.Udp.readFd.go cnt a'.mmsghdrForUdpSock 0 sys := by
    intro sys
    rw [hsetup.readOp, hop]
    rfl
  apply Triple.get_bind
  intro w hw
  rw [hw.action]
  apply Triple.at_state _ hw
  apply Triple.get_bind
  intro w hw
  rw [hw.action]
  apply Triple.at_state _ hw
  apply Triple.bind (World.At.liftIo (by rw [hread]; exact FdIo.Udp.readFd_go_ne_null _ _ _ _))
  intro r
  apply Triple.of_states
  rintro w ⟨left, hr, hw⟩
  rw [hread] at hr
  obtain ⟨hbuf, hret⟩ := FdIo.Udp.readFd_go_spec (Nat.zero_le cnt) hr
  have hlen : r.buf.length = a'.mmsghdrForUdpSock.length := by simpa using congrArg List.length hbuf
  apply Triple.at_state _ hw
  have hset : Triple (World.At n id blocks a' left) (setUdpHdrs id false r.buf)
      (fun _ => World.At n id blocks { a' with mmsghdrForUdpSock := r.buf } left) (Starves n id) :=
    World.At.modifyAction rfl
  apply Triple.bind hset
  intro _
  have hbufs : a.SameSetup { a' with mmsghdrForUdpSock := r.buf } := hsetup.trans ⟨rfl, rfl, rfl, rfl, rfl, rfl⟩
  have hcount : r.ret = INT32_MAX ∨ r.ret ≤ r.buf.length := by
    apply hret.imp_right
    intro hle
    omega
  exact udpDeliver_returns hbufs hpend hcb src r.ret (fun a => a.isReadable && !r.isEmpty) hcount

-- What the read part needs of an action that holds no multishot read.
structure EventAction.PlainSound (a : EventAction) : Prop where
  callback : a.readBufIdxCallback.isSome
  ops : a.readOp = (EventAction.opsOf a.fd.type).map (·.read)
  shot : a.multishotReadTask = none

theorem readIov_ne_null (hop : a.readOp = (EventAction.opsOf a.fd.type).map (·.read)) (hread : a.fd.type.canRead)
    (hudp : a.fd.type ≠ .udp) (iov : List Iovec) (sys : List SysRet)
    : readIov a.readOp false iov sys ≠ .null := by
  rw [hop]
  cases htype : a.fd.type with
  | udp => exact absurd htype hudp
  | udsDgram | accept | unknown =>
    rw [htype] at hread
    cases hread
  | tcp | file | inotify | udsStream => exact FdIo.streamFd_ne_null _ _ _
  | event | timer | signal => exact FdIo.readRecord_ne_null _ _ _

theorem transfer_returns (h : a.PlainSound) (hread : a.fd.type.canRead) (t : Task)
    (isEventTriggered : Bool)
    : Triple (World.Reads n id blocks (fun _ => True) a pend) (doReadTask.transfer id t isEventTriggered)
        (fun _ => World.IfUntouched n id (World.Reads n id blocks (fun _ => True) a pend)) (Starves n id) := by
  apply Triple.get_bind
  intro w hw
  have ⟨a', sys, hsetup, hpend, hsys, hat⟩ := hw
  rw [hat.action, hsetup.fd]
  split
  next hudp =>
    have hset : a.SameSetup { a' with mmsghdrForUdpSock := EventAction.prepareHdrs a'.mmsghdrForUdpSock t } :=
      hsetup.trans ⟨rfl, rfl, rfl, rfl, rfl, rfl⟩
    have hprepare : Triple (World.At n id blocks a' sys)
        (modifyAction id fun a => { a with mmsghdrForUdpSock := EventAction.prepareHdrs a.mmsghdrForUdpSock t })
        (fun _ => World.At n id blocks
          { a' with mmsghdrForUdpSock := EventAction.prepareHdrs a'.mmsghdrForUdpSock t } sys) (Starves n id) :=
      World.At.modifyAction rfl
    have hop : a.readOp = some .udp := by
      rw [h.ops, hudp]
      rfl
    apply Triple.at_state _ hat
    apply Triple.bind hprepare
    intro _
    apply Triple.bind (readUdp_returns hset hpend h.callback hop _ _ (prepareHdrs_length _ _))
    intro ret
    exact Triple.pure fun _ hw => hw
  next hudp =>
    have hop : a'.readOp = a.readOp := hsetup.readOp
    rw [hop]
    apply Triple.at_state _ hw
    apply Triple.bind (World.Reads.liftIo (readIov_ne_null h.ops hread hudp _))
    intro r
    apply Triple.bind (World.Reads.modifyAction (f := fun a => { a with isReadable := a.isReadable && !r.flag })
      (fun _ => ⟨rfl, rfl, rfl, rfl, rfl, rfl⟩) fun _ h => h)
    intro _
    split
    . exact Triple.pure fun _ hw _ => hw
    . apply Triple.bind (World.Reads.readCallback h.callback _ _ _)
      intro _
      exact Triple.pure fun _ hw => hw

theorem doReadTask_returns (h : a.PlainSound) (t : Task) (hread : t.buffer ≠ [] → a.fd.type.canRead)
    (isEventTriggered : Bool)
    : Triple (World.Reads n id blocks (fun _ => True) a pend) (doReadTask id t isEventTriggered)
        (fun _ => World.IfUntouched n id (World.Reads n id blocks (fun _ => True) a pend)) (Starves n id) := by
  have hcallback : ∀ ret, Triple (World.Reads n id blocks (fun _ => True) a pend)
      (do readCallback id (.task t.id) ret t.buffer; return false)
      (fun _ => World.IfUntouched n id (World.Reads n id blocks (fun _ => True) a pend)) (Starves n id) := by
    intro ret
    apply Triple.bind (World.Reads.readCallback h.callback _ _ _)
    intro _
    exact Triple.pure fun _ hw => hw
  apply Triple.get_bind
  intro w hw
  apply Triple.at_state _ hw
  split
  . exact hcallback 0
  next hbuffer =>
    split
    . exact transfer_returns h (hread hbuffer) t isEventTriggered
    next offset _ =>
      have hlseek : Triple (World.Reads n id blocks (fun _ => True) a pend) (lseek id t.id offset)
          (fun _ => World.Reads n id blocks (fun _ => True) a pend) (Starves n id) := by
        apply Triple.bind (World.Reads.liftIo _)
        . intro ok
          apply Triple.modify_bind (T := World.Reads n id blocks (fun _ => True) a pend)
          . rintro u ⟨a', sys, hsetup, hpend, hsys, hat⟩
            exact ⟨a', sys, hsetup, hpend, hsys, hat.addLog⟩
          . exact Triple.pure fun _ hu => hu
        . rintro (_ | ⟨_ | _, _⟩) <;> simp
      apply Triple.bind hlseek
      intro ok
      split
      . apply Triple.bind (World.Reads.modifyAction (f := fun a => { a with readOffset := none })
          (fun _ => ⟨rfl, rfl, rfl, rfl, rfl, rfl⟩) fun _ h => h)
        intro _
        exact transfer_returns h (hread hbuffer) t isEventTriggered
      . exact hcallback (-1)

-- There are `k` pending reads at least, all of them can be carried out.
def World.Queued (n id : Nat) (blocks : List Iovec) (a : EventAction) (k : Nat) (w : World) : Prop :=
  ∃ pend, k ≤ pend.length ∧ (∀ t ∈ pend, t.buffer ≠ [] → a.fd.type.canRead)
    ∧ w.Reads n id blocks (fun _ => True) a pend

-- The task that has been carried out is pushed back if there was nothing to be read for it.
theorem pushBack_returns {t : Task} (again : Bool)
    : Triple (World.IfUntouched n id (World.Reads n id blocks (fun _ => True) a (t :: pend)))
        (modifyAction id fun a => if again then a.addReadTask t else a)
        (fun _ => World.IfUntouched n id
          (World.Reads n id blocks (fun _ => True) a (t :: (pend ++ if again then [t] else []))))
        (Starves n id) := by
  apply Triple.unless
  . exact Preserves.modify fun _ hw => hw
  . refine Triple.conseq (World.Reads.modifyAction ?_ ?_) (fun _ h => h) (fun _ _ h _ => h) fun _ _ h => h
    . intro a'
      split
      . exact ⟨rfl, rfl, rfl, rfl, rfl, rfl⟩
      . exact .refl a'
    . intro a' hpend
      split
      . show a'.pendingReadTask ++ [t] = _
        rw [hpend]
        rfl
      . rw [hpend, List.append_nil]

theorem popReadTask_returns {t : Task}
    : Triple (World.IfUntouched n id (World.Reads n id blocks (fun _ => True) a (t :: pend))) (popReadTask id)
        (fun _ => World.IfUntouched n id (World.Reads n id blocks (fun _ => True) a pend)) (Starves n id) := by
  apply Triple.unless
  . apply Preserves.get_bind
    intro w _
    split
    . exact Preserves.throw _
    . exact Preserves.modify fun _ hw => hw
  . apply Triple.get_bind
    intro w hw
    have ⟨a', _, _, hpend, _, hat⟩ := hw
    rw [hat.action, hpend]
    apply Triple.at_state _ hw
    exact (World.Reads.modifyAction (f := fun a => { a with pendingReadTask := pend })
      (fun _ => ⟨rfl, rfl, rfl, rfl, rfl, rfl⟩) fun _ _ => rfl).conseq (fun _ h => h) (fun _ _ h _ => h) fun _ _ h => h

theorem readLoop_returns (h : a.PlainSound) (isEventTriggered : Bool) (k : Nat)
    : Triple (World.IfUntouched n id (World.Queued n id blocks a k)) (readLoop id isEventTriggered k)
        (fun _ => World.IfUntouched n id (World.Queued n id blocks a 0)) (Starves n id) := by
  induction k with
  | zero => exact Triple.pure fun _ hw => hw
  | succ k ih =>
    apply Triple.unless (Preserves.of_inv ((touched_readFrame id).readLoop isEventTriggered (k + 1)))
    apply Triple.get_bind
    rintro w ⟨pend, hlen, hread, hw⟩
    have ⟨a', _, _, hpend, _, hat⟩ := hw
    rw [hat.action, hpend]
    cases pend with
    | nil => cases hlen
    | cons t pend =>
      apply Triple.bind
      . exact (doReadTask_returns h t (hread t List.mem_cons_self) isEventTriggered).at_state hw
      . intro again
        apply Triple.bind (pushBack_returns again)
        intro _
        apply Triple.bind popReadTask_returns
        intro _
        apply ih.pre
        intro u hu hcalls
        refine ⟨_, ?_, ?_, hu hcalls⟩
        . rw [List.length_append]
          exact Nat.le_add_right_of_le (Nat.le_of_succ_le_succ hlen)
        . intro t' ht'
          rw [List.mem_append] at ht'
          rcases ht' with ht' | ht'
          . exact hread t' (List.mem_cons_of_mem _ ht')
          . split at ht'
            . rw [List.mem_singleton.mp ht']
              exact hread t List.mem_cons_self
            . cases ht'

theorem readPass_returns (h : a.pendingReadTask ≠ [] → a.PlainSound) (isEventTriggered : Bool)
    (hread : ∀ t ∈ a.pendingReadTask, t.buffer ≠ [] → a.fd.type.canRead)
    : Triple (World.At n id blocks a sys) (readPass id isEventTriggered)
        (fun _ => World.IfUntouched n id (World.Queued n id blocks a 0)) (Starves n id) := by
  apply Triple.get_bind
  intro w hw
  apply Triple.modify_bind (T := World.At n id blocks a sys)
  . rintro _ rfl
    exact hw.addLog
  . have hqueued : ∀ u : World, u.At n id blocks a sys → u.Queued n id blocks a a.pendingReadTask.length :=
      fun u hu => ⟨_, Nat.le_refl _, hread, a, sys, .refl a, rfl, fun _ _ => True.intro, hu⟩
    rw [hw.action]
    by_cases hpend : a.pendingReadTask = []
    . rw [hpend] at hqueued ⊢
      exact Triple.pure fun u hu _ => hqueued u hu
    . exact (readLoop_returns (h hpend) isEventTriggered a.pendingReadTask.length).pre fun u hu _ => hqueued u hu

theorem acceptLoop_ne_null (sys : List SysRet) : acceptLoop sys ≠ .null := by
  induction sys with
  | nil => simp [acceptLoop]
  | cons x sys ih =>
    cases x with
    | ok k lens =>
      rw [acceptLoop]
      split
      . exact ih
      . simp
    | fail e =>
      rw [acceptLoop]
      split
      . simp
      . split
        . exact ih
        . simp

theorem acceptPass_returns (haccept : a.hasAcceptTask → a.readBufIdxCallback.isSome ∧ a.hasAddrBuffer)
    : Triple (World.IfUntouched n id (World.Reads n id blocks (fun _ => True) a pend)) (acceptPass id)
        (fun _ => World.IfUntouched n id (World.Reads n id blocks (fun _ => True) a pend)) (Starves n id) := by
  apply Triple.unless (Preserves.of_inv (touched_readFrame id).acceptPass)
  apply Triple.get_bind
  intro w hw
  have ⟨a', _, hsetup, _, _, hat⟩ := hw
  rw [hat.action, hsetup.accept]
  apply Triple.at_state _ hw
  split
  next htask =>
    obtain ⟨hcb, haddr⟩ := haccept htask
    apply Triple.get_bind
    intro w hw
    have ⟨a', _, hsetup, _, _, hat⟩ := hw
    apply Triple.at_state _ hw
    apply Triple.bind (World.Reads.liftIo acceptLoop_ne_null)
    intro r
    split
    . exact (World.Reads.modifyAction (f := fun a => { a with isReadable := false })
        (fun _ => ⟨rfl, rfl, rfl, rfl, rfl, rfl⟩) fun _ h => h).conseq (fun _ h => h) (fun _ _ h _ => h) fun _ _ h => h
    . exact World.Reads.readCallback hcb _ _ _
    . rw [hat.action, hsetup.addr, if_pos haddr]
      exact World.Reads.readCallback hcb _ _ _
  . exact Triple.pure fun _ hw _ => hw

theorem World.At.modifyBuffer {t : MultishotTask} (ht : a.multishotReadTask = some t) (h : w.At n id blocks a sys)
    : { w with poll := w.poll.modifyBuffer t.bufRing fun b => { b with blocks := blocks } }.At n id blocks a sys := by
  refine ⟨h.length, h.action, ?_, h.sys⟩
  intro t' ht'
  rw [ht] at ht'
  cases ht'
  obtain ⟨b, hb, hblocks⟩ := h.ring t ht
  refine ⟨{ b with blocks := blocks }, ?_, rfl⟩
  unfold Epoll.bufferOf Epoll.modifyBuffer at *
  rw [Option.join_eq_some_iff] at hb ⊢
  rw [List.getElem?_modify_eq, hb]
  rfl

section

variable {t : MultishotTask}

-- A multishot read of a TCP socket comes back from each call.
theorem readTcp_returns (hcb : a.readBufIdxCallback.isSome) (hop : a.readOp = some .tcpMultishot)
    (ht : a.multishotReadTask = some t)
    : Triple (World.Reads n id blocks (fun _ => True) a pend) (readTcp id t.bufRing blocks)
        (fun _ => World.IfUntouched n id (World.Reads n id blocks (fun _ => True) a pend)) (Starves n id) := by
  apply Triple.get_bind
  rintro w ⟨a', sys, hsetup, hpend, _, hat⟩
  have hread : ∀ sys, readIov a'.readOp true blocks sys = FdIo.Tcp.readFdForMultishot blocks sys := by
    intro sys
    rw [hsetup.readOp, hop]
    rfl
  rw [hat.action]
  apply Triple.at_state _ hat
  apply Triple.bind (World.At.liftIo (by rw [hread]; exact FdIo.Tcp.readFdForMultishot_ne_null _ _))
  intro r
  apply Triple.modify_bind (T := World.Reads n id blocks (fun _ => True) a pend)
  . rintro u ⟨left, hr, hu⟩
    rw [hread] at hr
    rw [FdIo.Tcp.readFdForMultishot_spec hr]
    exact ⟨a', left, hsetup, hpend, fun _ _ => True.intro, hu.modifyBuffer (hsetup.shot.trans ht)⟩
  . split
    . split
      . apply Triple.bind (World.Reads.modifyAction (f := fun a => { a with isReadable := false })
          (fun _ => ⟨rfl, rfl, rfl, rfl, rfl, rfl⟩) fun _ h => h)
        intro _
        exact Triple.pure fun _ hw _ => hw
      . apply Triple.bind (World.Reads.readCallback hcb _ _ _)
        intro _
        exact Triple.pure fun _ hw => hw
    . apply Triple.bind (World.Reads.readCallback hcb _ _ _)
      intro _
      exact Triple.pure fun _ hw => hw

-- One round of the loop.
theorem multishotLoop_triple {Q : Unit → World → Prop} {E : Fault → World → Prop} (hblocks : blocks ≠ [])
    (ht : a.multishotReadTask = some t) (k : Nat)
    (h : Triple (World.Reads n id blocks C a pend)
      ((if a.fd.type = .udp then readUdp id true .multishot 0 else readTcp id t.bufRing blocks) >>= fun ret =>
        if ret < 0 then pure () else multishotLoop id t.bufRing k) Q E)
    : Triple (World.Reads n id blocks C a pend) (multishotLoop id t.bufRing (k + 1)) Q E := by
  apply Triple.get_bind
  intro v hw
  have ⟨a', sys, hsetup, _, _, hat⟩ := hw
  obtain ⟨b, hb, heq⟩ := hat.ring t (hsetup.shot.trans ht)
  rw [hb]
  dsimp only
  rw [heq, if_neg hblocks]
  rintro w rfl
  have hshot : readShot id t.bufRing blocks w
      = (if a.fd.type = .udp then readUdp id true .multishot 0 else readTcp id t.bufRing blocks) w := by
    unfold readShot
    rw [EStateM.get_bind_apply, hat.action, hsetup.fd]
  have hrun := h w hw
  rw [EStateM.bind_apply] at hrun ⊢
  rw [hshot]
  exact hrun

theorem multishotLoop_tcp_returns (hcb : a.readBufIdxCallback.isSome) (hop : a.readOp = some .tcpMultishot)
    (hudp : a.fd.type ≠ .udp) (hblocks : blocks ≠ []) (ht : a.multishotReadTask = some t) (k : Nat)
    : Triple (World.IfUntouched n id (World.Reads n id blocks (fun _ => True) a pend)) (multishotLoop id t.bufRing k)
        (fun _ => World.IfUntouched n id (World.Reads n id blocks (fun _ => True) a pend)) (Starves n id) := by
  induction k with
  | zero => exact Triple.throw fun _ _ _ => rfl
  | succ k ih =>
    apply Triple.unless (Preserves.of_inv ((touched_readFrame id).multishotLoop t.bufRing (k + 1)))
    apply multishotLoop_triple hblocks ht
    rw [if_neg hudp]
    apply Triple.bind (readTcp_returns hcb hop ht)
    intro ret
    split
    . exact Triple.pure fun _ hw => hw
    . exact ih

theorem udpHdrs_goes_on
    : Triple (World.Reads n id blocks C a pend) (udpHdrs id true) (fun _ => World.Reads n id blocks C a pend)
        (fun _ => World.IfUntouched n id fun _ => True) := by
  apply Triple.get_bind
  intro w hw
  apply Triple.at_state _ hw
  rw [if_pos rfl]
  split
  . exact Triple.pure fun _ hw => hw
  . exact Triple.throw fun _ _ _ => True.intro
  . exact Triple.throw fun _ _ _ => True.intro

theorem udpCallbacks_goes_on (hcb : a.readBufIdxCallback.isSome) (i k : Nat)
    : Triple (World.IfUntouched n id (World.Reads n id blocks C a pend)) (udpCallbacks id true .multishot i k)
        (fun _ => World.IfUntouched n id (World.Reads n id blocks C a pend))
        (fun _ => World.IfUntouched n id fun _ => True) := by
  induction k generalizing i with
  | zero => exact Triple.pure fun _ hw => hw
  | succ k ih =>
    apply Triple.unless
      (Preserves.of_inv ((touched_readFrame id).entry.udpCallbacks true i (k + 1) fun _ _ _ _ => rfl))
    apply Triple.bind udpHdrs_goes_on
    intro buf
    split
    . exact Triple.throw fun _ _ _ => True.intro
    next hdr _ =>
      apply Triple.bind
      . exact Triple.any_error (World.Reads.readCallback hcb .multishot hdr.msgLen [hdr.iov])
      . intro _
        exact ih (i + 1)

-- Whatever is received on a UDP socket, the multishot read goes on.
theorem readUdp_goes_on (hcb : a.readBufIdxCallback.isSome) (hop : a.readOp = some .udpMultishot)
    : Triple (World.Reads n id blocks NotClosed a pend) (readUdp id true .multishot 0)
        (fun ret => World.IfUntouched n id fun w => 0 ≤ ret ∧ w.Reads n id blocks NotClosed a pend)
        (fun _ => World.IfUntouched n id fun _ => True) := by
  apply Triple.bind udpHdrs_goes_on
  intro buf
  apply Triple.get_bind
  rintro w ⟨a', sys, hsetup, hpend, hsys, hat⟩
  have hread : ∀ sys, readHdrs a'.readOp buf 0 sys = FdIo.Udp.readFdForMultishot buf sys := by
    intro sys
    rw [hsetup.readOp, hop]
    rfl
  rw [hat.action]
  apply Triple.at_state _ hat
  apply Triple.bind (Q := fun r w => 0 < r.ret ∧ w.Reads n id blocks NotClosed a pend)
  . refine (World.At.liftIo (by rw [hread]; exact FdIo.Udp.readFdForMultishot_ne_null _ _)).conseq (fun _ h => h) ?_
      fun _ _ _ _ => True.intro
    rintro r u ⟨left, hr, hu⟩
    rw [hread] at hr
    obtain ⟨hpos, hleft⟩ := readFdForMultishot_pos hsys hr
    exact ⟨hpos, a', left, hsetup, hpend, hleft, hu⟩
  intro r
  apply Triple.of_states
  rintro u ⟨hpos, hu⟩
  apply Triple.at_state _ hu
  rw [if_pos hpos]
  have hmodify : ∀ f : EventAction → EventAction, (∀ a : EventAction, a.SameSetup (f a))
      → (∀ a : EventAction, a.pendingReadTask = pend → (f a).pendingReadTask = pend)
      → Triple (World.Reads n id blocks NotClosed a pend) (modifyAction id f)
          (fun _ => World.Reads n id blocks NotClosed a pend) (fun _ => World.IfUntouched n id fun _ => True) :=
    fun f hf hpend => Triple.any_error (World.Reads.modifyAction hf hpend)
  apply Triple.bind (Q := fun _ => World.Reads n id blocks NotClosed a pend)
  . exact hmodify (fun a => { a with mmsghdrForUdpMultishot := .live r.buf })
      (fun _ => ⟨rfl, rfl, rfl, rfl, rfl, rfl⟩) fun _ h => h
  intro _
  apply Triple.bind (hmodify (fun a => { a with isReadable := a.isReadable && !r.isEmpty })
    (fun _ => ⟨rfl, rfl, rfl, rfl, rfl, rfl⟩) fun _ h => h)
  intro _
  split
  . exact Triple.pure fun _ hw _ => ⟨Int.le_of_lt hpos, hw⟩
  . apply Triple.bind ((udpCallbacks_goes_on hcb 0 _).pre fun _ hw _ => hw)
    intro _
    exact Triple.pure fun _ hw hcalls => ⟨Int.le_refl 0, hw hcalls⟩

theorem multishotLoop_udp_goes_on (hcb : a.readBufIdxCallback.isSome) (hop : a.readOp = some .udpMultishot)
    (hudp : a.fd.type = .udp) (hblocks : blocks ≠ []) (ht : a.multishotReadTask = some t) (k : Nat)
    : Triple (World.IfUntouched n id (World.Reads n id blocks NotClosed a pend)) (multishotLoop id t.bufRing k)
        (fun _ => World.IfUntouched n id fun _ => False) (fun _ => World.IfUntouched n id fun _ => True) := by
  induction k with
  | zero => exact Triple.throw fun _ _ _ => True.intro
  | succ k ih =>
    apply Triple.unless (Preserves.of_inv ((touched_readFrame id).multishotLoop t.bufRing (k + 1)))
    apply multishotLoop_triple hblocks ht
    rw [if_pos hudp]
    apply Triple.bind (readUdp_goes_on hcb hop)
    intro ret
    split
    next hneg =>
      apply Triple.pure
      intro u hu hcalls
      obtain ⟨hret, _⟩ := hu hcalls
      omega
    . exact ih.pre fun u hu hcalls => (hu hcalls).2

end

theorem readIov_null (hop : a.readOp = (EventAction.opsOf a.fd.type).map (·.read)) (hread : a.fd.type.canRead = false)
    (iov : List Iovec) (sys : List SysRet)
    : a.fd.type ≠ .file ∧ a.fd.type ≠ .udp ∧ readIov a.readOp false iov sys = .null := by
  rw [hop]
  cases htype : a.fd.type with
  | udsDgram | accept | unknown => exact ⟨nofun, nofun, rfl⟩
  | tcp | udp | file | event | timer | signal | inotify | udsStream =>
    rw [htype] at hread
    cases hread

theorem doReadTask_unreadable (hop : a.readOp = (EventAction.opsOf a.fd.type).map (·.read))
    (hread : a.fd.type.canRead = false) {t : Task} (hbuffer : t.buffer ≠ []) (isEventTriggered : Bool)
    : Triple (World.Reads n id blocks C a pend) (doReadTask id t isEventTriggered)
        (fun _ => World.IfUntouched n id fun _ => False) (fun _ => World.IfUntouched n id fun _ => True) := by
  apply Triple.get_bind
  rintro w ⟨a', sys, hsetup, _, _, hat⟩
  obtain ⟨hfile, hudp, hnull⟩ := readIov_null hop hread t.buffer w.sys
  rw [if_neg hbuffer, hat.action, hsetup.fd, if_neg hfile]
  dsimp only
  rintro _ rfl
  unfold doReadTask.transfer
  rw [EStateM.get_bind_apply, hat.action, hsetup.fd, if_neg hudp, hsetup.readOp, EStateM.bind_apply]
  unfold liftIo
  rw [hnull]
  exact fun _ => True.intro

-- The read loop comes to a task that `fd_ops_.read` cannot be called for.
theorem readLoop_unreadable (hcb : a.readBufIdxCallback.isSome)
    (hop : a.readOp = (EventAction.opsOf a.fd.type).map (·.read)) (hread : a.fd.type.canRead = false)
    (isEventTriggered : Bool) (k : Nat)
    : Triple (World.IfUntouched n id fun w => ∃ pend, (∃ t ∈ pend.take k, t.buffer ≠ [])
          ∧ w.Reads n id blocks (fun _ => True) a pend)
        (readLoop id isEventTriggered k) (fun _ => World.IfUntouched n id fun _ => False)
        (fun _ => World.IfUntouched n id fun _ => True) := by
  induction k with
  | zero =>
    apply Triple.pure
    intro u hu hcalls
    obtain ⟨pend, ⟨t, ht, _⟩, _⟩ := hu hcalls
    rw [List.take_zero] at ht
    cases ht
  | succ k ih =>
    apply Triple.unless (Preserves.of_inv ((touched_readFrame id).readLoop isEventTriggered (k + 1)))
    apply Triple.get_bind
    rintro w ⟨pend, ⟨t', ht', hbuffer'⟩, hw⟩
    have ⟨a', _, _, hpend, _, hat⟩ := hw
    rw [hat.action, hpend]
    cases pend with
    | nil =>
      rw [List.take_nil] at ht'
      cases ht'
    | cons t pend =>
      by_cases hbuffer : t.buffer = []
      . have hmem : t' ∈ pend.take k := by
          rw [List.take_succ_cons, List.mem_cons] at ht'
          refine ht'.resolve_left ?_
          rintro rfl
          exact hbuffer' hbuffer
        have hread : Triple (World.Reads n id blocks (fun _ => True) a (t :: pend)) (doReadTask id t isEventTriggered)
            (fun _ => World.IfUntouched n id (World.Reads n id blocks (fun _ => True) a (t :: pend)))
            (fun _ => World.IfUntouched n id fun _ => True) := by
          apply Triple.get_bind
          intro w hw
          rw [if_pos hbuffer]
          apply Triple.at_state _ hw
          apply Triple.bind (Triple.any_error (World.Reads.readCallback hcb _ _ _))
          intro _
          exact Triple.pure fun _ hw => hw
        apply Triple.bind (hread.at_state hw)
        intro again
        apply Triple.bind (Triple.any_error (pushBack_returns again))
        intro _
        apply Triple.bind (Triple.any_error popReadTask_returns)
        intro _
        apply ih.pre
        intro u hu hcalls
        refine ⟨_, ⟨t', ?_, hbuffer'⟩, hu hcalls⟩
        rw [List.take_append]
        exact List.mem_append_left _ hmem
      . apply Triple.bind ((doReadTask_unreadable hop hread hbuffer isEventTriggered).at_state hw)
        intro again
        have hfalse : ∀ {β : Type} (m : EventM β) {Q : β → World → Prop}, Preserves (fun w => ¬w.Untouched n id) m
            → Triple (World.IfUntouched n id fun _ => False) m (fun r => World.IfUntouched n id (Q r))
              (fun _ => World.IfUntouched n id fun _ => True) :=
          fun m Q hm => Triple.unless hm fun _ hfalse => hfalse.elim
        apply Triple.bind
        . exact hfalse (Q := fun _ _ => False) _ (Preserves.modify fun _ hw => hw)
        intro _
        apply Triple.bind
        . refine hfalse (Q := fun _ _ => False) _ ?_
          apply Preserves.get_bind
          intro w _
          split
          . exact Preserves.throw _
          . exact Preserves.modify fun _ hw => hw
        intro _
        exact hfalse _ (Preserves.of_inv ((touched_readFrame id).readLoop isEventTriggered k))

namespace ReadSound

theorem world_at (h : ReadSound id w.poll)
    : ∃ blocks, w.At w.log.length id blocks (w.action id) w.sys
      ∧ ((w.action id).multishotReadTask.isSome → blocks ≠ []) := by
  cases htask : (w.action id).multishotReadTask with
  | none =>
    refine ⟨[], ⟨Nat.le_refl _, rfl, ?_, rfl⟩, nofun⟩
    intro t ht
    rw [htask] at ht
    cases ht
  | some t =>
    obtain ⟨_, b, hb, hblocks⟩ := h.shot t htask
    refine ⟨b.blocks, ⟨Nat.le_refl _, rfl, ?_, rfl⟩, fun _ => hblocks⟩
    intro t' ht'
    rw [htask] at ht'
    cases ht'
    exact ⟨b, hb, rfl⟩

theorem accepts (h : ReadSound id w.poll) (haccept : (w.action id).hasAcceptTask)
    : (w.action id).readBufIdxCallback.isSome ∧ (w.action id).hasAddrBuffer := by
  refine ⟨h.callback ?_, h.accept haccept⟩
  have htask : (w.poll.action id).hasAcceptTask := haccept
  unfold EventAction.hasReadWork
  rw [htask, Bool.or_true]

theorem callback_of_shot (h : ReadSound id w.poll) {t : MultishotTask} (ht : (w.action id).multishotReadTask = some t)
    : (w.action id).readBufIdxCallback.isSome := by
  apply h.callback
  have htask : (w.poll.action id).multishotReadTask = some t := ht
  unfold EventAction.hasReadWork
  rw [htask]
  rfl

theorem plain (h : ReadSound id w.poll) (hnone : (w.action id).multishotReadTask = none)
    (hpend : (w.action id).pendingReadTask ≠ [])
    : (w.action id).PlainSound := by
  refine ⟨?_, h.ops hnone, hnone⟩
  apply h.callback
  have hpending : (w.poll.action id).pendingReadTask ≠ [] := hpend
  unfold EventAction.hasReadWork
  rw [decide_eq_true hpending, Bool.or_true, Bool.true_or]

end ReadSound

-- The read part returns, unless the answers of the kernel come to an end.
theorem handleRead_returns (h : ReadSound id w.poll) (hblocks : (w.action id).blocksWrites = false)
    (isEventTriggered : Bool)
    : Triple (· = w) (handleRead id isEventTriggered) (fun _ _ => True) (Starves w.log.length id) := by
  obtain ⟨blocks, hat, hne⟩ := h.world_at
  unfold EventAction.blocksWrites at hblocks
  rw [Bool.and_eq_false_iff] at hblocks
  have haccept : ∀ pend, Triple (World.IfUntouched w.log.length id
      (World.Reads w.log.length id blocks (fun _ => True) (w.action id) pend)) (acceptPass id) (fun _ _ => True)
      (Starves w.log.length id) :=
    fun _ => (acceptPass_returns h.accepts).conseq (fun _ h => h) (fun _ _ _ => True.intro) fun _ _ h => h
  apply Triple.get_bind
  rintro v rfl
  split
  next hreadable =>
    have hspared := hblocks.resolve_left (by rw [hreadable]; decide)
    rw [Bool.or_eq_false_iff] at hspared
    obtain ⟨hshot, hplain⟩ := hspared
    split
    next t ht =>
      obtain ⟨hop, _⟩ := h.shot t ht
      have hudp : (v.action id).fd.type ≠ .udp := by
        intro hudp
        rw [ht, hudp] at hshot
        simp at hshot
      have htcp : (v.action id).readOp = some .tcpMultishot := by
        rw [show (v.action id).readOp = some (multishotOp (v.action id).fd.type) from hop, multishotOp, if_neg hudp]
      have hloop : ∀ k, Triple (World.IfUntouched v.log.length id
          (World.Reads v.log.length id blocks (fun _ => True) (v.action id) (v.action id).pendingReadTask)) _ _ _ :=
        multishotLoop_tcp_returns (h.callback_of_shot ht) htcp hudp (hne (by rw [ht]; rfl)) ht
      apply Triple.bind
      . apply Triple.get_bind
        rintro u rfl
        exact ((hloop _).pre fun _ hw _ => hw).at_state ⟨_, _, .refl _, rfl, fun _ _ => True.intro, hat⟩
      . intro _
        exact haccept _
    next hnone =>
      have hread : ∀ t ∈ (v.action id).pendingReadTask, t.buffer ≠ [] → (v.action id).fd.type.canRead := by
        intro t ht hbuffer
        unfold EventAction.hasUnreadable at hplain
        rw [hnone] at hplain
        cases hcan : (v.action id).fd.type.canRead with
        | true => rfl
        | false =>
          rw [hcan] at hplain
          have hall := List.any_eq_false.mp hplain t ht
          simp [hbuffer] at hall
      apply Triple.bind
      . exact (readPass_returns (h.plain hnone) isEventTriggered hread).at_state hat
      . intro _
        apply Triple.of_states
        intro u hu
        by_cases hcalls : u.Untouched v.log.length id
        . obtain ⟨pend, _, _, hreads⟩ := hu hcalls
          exact (haccept pend).at_state fun _ => hreads
        . exact (haccept []).at_state fun hcalls' => absurd hcalls' hcalls
  . exact Triple.pure fun _ _ => True.intro

-- The read part does not return where it keeps from the write tasks: no answer of `recvmmsg` ends the loop of the
-- multishot read, and `fd_ops_.read` cannot be called.
theorem handleRead_stuck (h : ReadSound id w.poll) (hheld : (w.action id).isHeld = false)
    (hblocks : (w.action id).blocksWrites = true) (hsys : (w.action id).fd.type = .udp → ∀ x ∈ w.sys, NotClosed x)
    (isEventTriggered : Bool)
    : Triple (· = w) (handleRead id isEventTriggered) (fun _ => World.IfUntouched w.log.length id fun _ => False)
        (fun _ => World.IfUntouched w.log.length id fun _ => True) := by
  obtain ⟨blocks, hat, hne⟩ := h.world_at
  unfold EventAction.blocksWrites at hblocks
  rw [Bool.and_eq_true] at hblocks
  obtain ⟨hreadable, hblocks⟩ := hblocks
  unfold EventAction.isHeld at hheld
  rw [hreadable, Bool.true_and] at hheld
  have haccept : Triple (World.IfUntouched w.log.length id fun _ => False) (acceptPass id)
      (fun _ => World.IfUntouched w.log.length id fun _ => False)
      (fun _ => World.IfUntouched w.log.length id fun _ => True) :=
    Triple.unless (Preserves.of_inv (touched_readFrame id).acceptPass) fun _ hfalse => hfalse.elim
  apply Triple.get_bind
  rintro v rfl
  rw [if_pos hreadable]
  split
  next t ht =>
    rw [ht] at hheld hblocks
    have hudp : (v.action id).fd.type = .udp := by
      have hnone : (v.action id).hasUnreadable = false := by
        unfold EventAction.hasUnreadable
        rw [ht]
        rfl
      rw [hnone, Bool.or_false] at hblocks
      rw [Option.any_some] at hheld hblocks
      rw [hheld, Bool.false_or] at hblocks
      exact of_decide_eq_true hblocks
    obtain ⟨hop, _⟩ := h.shot t ht
    have hmultishot : (v.action id).readOp = some .udpMultishot := by
      rw [show (v.action id).readOp = some (multishotOp (v.action id).fd.type) from hop, multishotOp, if_pos hudp]
    have hloop : ∀ k, Triple (World.IfUntouched v.log.length id
        (World.Reads v.log.length id blocks NotClosed (v.action id) (v.action id).pendingReadTask)) _ _ _ :=
      multishotLoop_udp_goes_on (h.callback_of_shot ht) hmultishot hudp (hne (by rw [ht]; rfl)) ht
    apply Triple.bind (Q := fun _ => World.IfUntouched v.log.length id fun _ => False)
    . apply Triple.get_bind
      rintro u rfl
      exact ((hloop _).pre fun _ hw _ => hw).at_state ⟨_, _, .refl _, rfl, hsys hudp, hat⟩
    . intro _
      exact haccept
  next hnone =>
    have hunreadable : (v.action id).hasUnreadable = true := by
      rw [hnone] at hblocks
      exact hblocks
    unfold EventAction.hasUnreadable at hunreadable
    rw [hnone, Option.isNone_none, Bool.true_and, Bool.and_eq_true, Bool.not_eq_true'] at hunreadable
    obtain ⟨hcan, hany⟩ := hunreadable
    obtain ⟨t, ht, hbuffer⟩ := List.any_eq_true.mp hany
    have hplain := h.plain hnone (List.ne_nil_of_mem ht)
    apply Triple.bind (Q := fun _ => World.IfUntouched v.log.length id fun _ => False)
    . apply Triple.get_bind
      rintro u rfl
      apply Triple.modify_bind (T := World.At u.log.length id blocks (u.action id) u.sys)
      . rintro _ rfl
        exact hat.addLog
      . have hloop : Triple (World.IfUntouched u.log.length id fun w => ∃ pend,
            (∃ t ∈ pend.take (u.action id).pendingReadTask.length, t.buffer ≠ [])
              ∧ w.Reads u.log.length id blocks (fun _ => True) (u.action id) pend) _ _ _ :=
          readLoop_unreadable hplain.callback hplain.ops hcan isEventTriggered (u.action id).pendingReadTask.length
        apply hloop.pre
        intro w hw _
        refine ⟨(u.action id).pendingReadTask, ⟨t, ?_, of_decide_eq_true hbuffer⟩, u.action id, u.sys, .refl _, rfl,
          fun _ _ => True.intro, hw⟩
        rw [List.take_length]
        exact ht
    . intro _
      exact haccept

end

end Event
end Ezio
