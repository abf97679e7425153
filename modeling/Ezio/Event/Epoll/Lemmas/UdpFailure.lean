import Ezio.Event.FdIo.UdpError
import Ezio.Event.Epoll.Lemmas.MultishotRead
import Ezio.Event.Epoll.Lemmas.TcpTask

/-!
This module contains what the callbacks of a UDP socket are called with when a system call fails.
-/

namespace Ezio
namespace Event

open EStateM (Preserves Triple get_bind_apply modify_bind_apply bind_apply)
open FdIo.Udp (BeforeError Unsent)
open FdIo.Tcp (received)

-- The tasks whose write callbacks have been called and what they have been called with.
def Entry.writeRets : Entry → List (Nat × Int)
  | .writeCallback _ _ task ret _ => [(task, ret)]
  | _ => []

theorem writeRets_observation : Observation Entry.writeRets := ⟨fun _ _ => rfl, fun _ _ _ _ _ _ => rfl⟩

-- The read task gets to see an error.
structure ReadFails (id : Nat) (t : Task) (w : World) (used : List SysRet) (e : Errno) (left : List SysRet) : Prop where
  type : (w.action id).fd.type = .udp
  op : (w.action id).readOp = some .udp
  buffer : t.buffer ≠ []
  sys : w.sys = used ++ .fail e :: left
  before : ∀ a ∈ used, BeforeError a
  room : (received used).sum < t.buffer.length
  again : e ≠ .again
  intr : e ≠ .intr

-- The write task gets to see an error before it has sent anything. If there is an offset, `lseek` succeeds.
structure WriteFails (id : Nat) (t : Task) (w : World) (pre : List SysRet) (e : Errno) (left : List SysRet) : Prop where
  op : (w.action id).writeOp = some .udp
  buffer : t.buffer ≠ []
  sys : (w.action id).writeOffset = none ∧ w.sys = pre ++ .fail e :: left
    ∨ (w.action id).writeOffset.isSome ∧ ∃ n lens, w.sys = .ok n lens :: (pre ++ .fail e :: left)
  unsent : ∀ a ∈ pre, Unsent a
  reached : pre.count (.fail .again) * FdIo.Udp.RECV_CNT_ONCE ≤ t.buffer.length
  again : e ≠ .again
  intr : e ≠ .intr

-- The log has grown, but no task has been told that it has failed.
def NoFailure (log : List Entry) (w : World) : Prop :=
  ∃ es, w.log = log ++ es ∧ ∀ e ∈ es, ∀ r ∈ e.taskRets, 0 ≤ r.2

section

variable {id : Nat} {t : Task} {b : Bool} {w w' : World} {log : List Entry}

theorem NoFailure.addLog (h : NoFailure log w) {es : List Entry} (hes : ∀ e ∈ es, ∀ r ∈ e.taskRets, 0 ≤ r.2)
    (hlog : w'.log = w.log ++ es)
    : NoFailure log w' := by
  obtain ⟨es', heq, hnone⟩ := h
  refine ⟨es' ++ es, by rw [hlog, heq, List.append_assoc], ?_⟩
  intro e he
  rcases List.mem_append.mp he with he | he
  . exact hnone e he
  . exact hes e he

theorem NoFailure.of_log (h : NoFailure log w) (hlog : w'.log = w.log) : NoFailure log w' := by
  unfold NoFailure at h ⊢
  rw [hlog]
  exact h

theorem noFailure_frame (id : Nat) (log : List Entry)
    : EntryFrame id (fun e => ∀ r ∈ e.taskRets, 0 ≤ r.2) (fun _ => True) (NoFailure log) := by
  have hcall : ∀ op s, ∀ e ∈ [Entry.call op s], ∀ r ∈ e.taskRets, 0 ≤ r.2 := by
    intro op s e he
    rw [List.mem_singleton.mp he]
    exact List.forall_mem_nil _
  refine ⟨⟨?_, ?_, ?_⟩, ?_, ?_⟩
  . intro op _
    apply exec_triple
    . intro w r s hw _
      exact hw.addLog (hcall op w.poll) rfl
    . intro w f hw _
      exact hw.addLog (hcall op w.poll) rfl
  . intro w sys user es hes hw
    exact hw.addLog (fun e he => (hes e he).2) rfl
  . intro w a _ _ hw
    exact hw.of_log rfl
  . intro w group f hw
    exact hw.of_log rfl
  . intro src ret before ops after
    exact List.forall_mem_nil _

theorem NoFailure.newRets (h : NoFailure w.log w') : ∀ r ∈ w.newRets w', 0 ≤ r.2 := by
  obtain ⟨es, hlog, hes⟩ := h
  have happend : w'.taskRets = w.taskRets ++ es.flatMap Entry.taskRets := by
    unfold World.taskRets
    rw [hlog, List.flatMap_append]
  rw [World.newRets_of_append happend]
  intro r hr
  obtain ⟨e, he, hr⟩ := List.mem_flatMap.mp hr
  exact hes e he r hr

-- The 1 that stands for the error is taken for the number of datagrams.
theorem readUdp_noFailure {cnt : Nat} {buf : List FdIo.Udp.Mmsghdr} {left : List SysRet} (hw : NoFailure log w)
    (hop : (w.action id).readOp = some .udp)
    (hread : FdIo.Udp.readFd (w.action id).mmsghdrForUdpSock cnt w.sys = .done ⟨1, false, buf⟩ left)
    : NoFailure log (readUdp id false (.task t.id) cnt w).state := by
  have hframe := noFailure_frame id log
  have hcalls : ∀ w : World, w.Calls fun _ => True := fun _ _ _ _ _ => trivial
  have hhdrs : udpHdrs id false w = .ok (w.action id).mmsghdrForUdpSock w := by
    unfold udpHdrs
    rw [get_bind_apply]
    rfl
  have hio : liftIo (readHdrs (w.action id).readOp (w.action id).mmsghdrForUdpSock cnt) w
      = .ok ⟨1, false, buf⟩ { w with sys := left } := by
    unfold liftIo
    rw [hop]
    dsimp only [readHdrs]
    rw [hread]
  have hrest : Preserves (Frame.Inv (fun _ => True) (NoFailure log)) (do
      setUdpHdrs id false buf
      modifyAction id fun a => { a with isReadable := a.isReadable && !false }
      udpCallbacks id false (.task t.id) 0 1
      pure (0 : Int)) := by
    apply Preserves.bind (hframe.setUdpHdrs _ _)
    intro _
    apply Preserves.bind
    . apply hframe.modifyAction
      intro a
      exact ⟨⟨_, _, _, _, _, by simp +contextual, rfl⟩, rfl⟩
    . intro _
      apply Preserves.bind
      . apply hframe.udpCallbacks
        intro cb len iov _ r hr
        rw [List.mem_singleton.mp hr]
        exact Int.natCast_nonneg len
      . intro _
        exact Preserves.pure _
  have hstart : Frame.Inv (fun _ => True) (NoFailure log) { w with sys := left } := ⟨hcalls _, hw.of_log rfl⟩
  unfold readUdp
  rw [bind_apply, hhdrs]
  dsimp only
  rw [get_bind_apply, bind_apply, hio]
  exact (hrest.state hstart).2

theorem ReadFails.noFailure {used left : List SysRet} {e : Errno} (h : ReadFails id t w used e left)
    : NoFailure w.log (doReadTask id t b w).state := by
  have hfile : ¬(w.action id).fd.type = .file := by
    rw [h.type]
    decide
  let w₁ := w.modifyAction id fun a => { a with mmsghdrForUdpSock := EventAction.prepareHdrs a.mmsghdrForUdpSock t }
  have hop : (w₁.action id).readOp = some .udp := by
    have hsame : (w₁.action id).readOp = (w.action id).readOp := by
      simp [w₁, EventAction.readOp]
    rw [hsame]
    exact h.op
  obtain ⟨buf, hread⟩ := FdIo.Udp.readFd_error (w₁.action id).mmsghdrForUdpSock h.before h.room h.again h.intr left
  rw [← h.sys] at hread
  have hstart : NoFailure w.log w₁ := ⟨[], (List.append_nil _).symm, List.forall_mem_nil _⟩
  have hudp := readUdp_noFailure (t := t) hstart hop hread
  unfold doReadTask
  rw [get_bind_apply, if_neg h.buffer, if_neg hfile]
  dsimp only
  unfold doReadTask.transfer
  rw [get_bind_apply, if_pos h.type]
  unfold modifyAction
  rw [modify_bind_apply, EStateM.bind_pure_state]
  exact hudp

-- The 1 that stands for the error is taken for the number of datagrams that have been sent.
theorem writeTransfer_rets {r : FdRet} {left : List SysRet} {xs : List (Nat × Int)}
    (h : Observes Entry.writeRets xs w) (hop : (w.action id).writeOp = some .udp)
    (hwrite : FdIo.Udp.writeFd t.buffer w.sys = .done r left) (hret : r.ret = 1)
    : ∃ rets, Observes Entry.writeRets (xs ++ rets) (doWriteTask.transfer id t w).state ∧ ∀ ret ∈ rets, 0 ≤ ret.2 := by
  have hio : liftIo (writeIov (w.action id).writeOp t.buffer) w = .ok r { w with sys := left } := by
    unfold liftIo
    rw [hop]
    dsimp only [writeIov]
    rw [hwrite]
  have hsent : ∀ moved : List (List Iovec × Nat),
      (moved.map fun m => Entry.sent id t.id t.sockaddr m.1 m.2).flatMap Entry.writeRets = [] := by
    intro moved
    rw [List.flatMap_eq_nil_iff]
    intro e he
    obtain ⟨m, -, rfl⟩ := List.mem_map.mp he
    rfl
  unfold doWriteTask.transfer
  rw [get_bind_apply, bind_apply, hio]
  dsimp only
  unfold modifyAction
  rw [modify_bind_apply, modify_bind_apply, if_neg (by simp [hret]), EStateM.bind_pure_state]
  generalize hw' : (World.modifyAction _ id fun a => { a with writeOffset := none }) = w'
  have hobserves : Observes Entry.writeRets xs w' := by
    rw [← hw']
    exact h.silent rfl (hsent r.moved)
  cases hcb : (w'.action id).writeCallback with
  | none =>
    rw [writeCallback_none hcb]
    exact ⟨[], by rw [List.append_nil]; exact hobserves, List.forall_mem_nil _⟩
  | some cb =>
    refine ⟨_, writeCallback_observes writeRets_observation hcb hobserves, ?_⟩
    intro ret hmem
    rw [List.mem_singleton.mp hmem, hret]
    exact Int.zero_le_ofNat 1

theorem lseek_ok {task offset n : Nat} {lens left : List _} (h : w.sys = .ok n lens :: left)
    : lseek id task offset w = .ok true ({ w with sys := left }.addLog [.lseek id task offset]) := by
  unfold lseek
  rw [bind_apply]
  unfold liftIo
  rw [h]
  rfl

theorem WriteFails.rets {pre left : List SysRet} {e : Errno} (h : WriteFails id t w pre e left)
    : ∀ ret ∈ w.since Entry.writeRets (doWriteTask id t w).state, 0 ≤ ret.2 := by
  obtain ⟨r, hwrite, hret⟩ := FdIo.Udp.writeFd_error h.unsent h.reached h.again h.intr left
  generalize hanswers : pre ++ SysRet.fail e :: left = answers at hwrite
  have hobserves : Observes Entry.writeRets (w.log.flatMap Entry.writeRets) w := rfl
  have hrun : ∃ rets, Observes Entry.writeRets (w.log.flatMap Entry.writeRets ++ rets) (doWriteTask id t w).state
      ∧ ∀ ret ∈ rets, 0 ≤ ret.2 := by
    unfold doWriteTask
    rw [get_bind_apply, if_neg h.buffer]
    rcases h.sys with ⟨hoffset, hsys⟩ | ⟨hoffset, n, lens, hsys⟩
    . rw [hoffset]
      rw [← hanswers, ← hsys] at hwrite
      exact writeTransfer_rets hobserves h.op hwrite hret
    . obtain ⟨offset, hoffset⟩ := Option.isSome_iff_exists.mp hoffset
      rw [hanswers] at hsys
      rw [hoffset]
      dsimp only
      rw [bind_apply, lseek_ok hsys]
      have hlog : Observes Entry.writeRets (w.log.flatMap Entry.writeRets)
          ({ w with sys := answers }.addLog [.lseek id t.id offset]) := hobserves.silent rfl rfl
      exact writeTransfer_rets hlog h.op hwrite hret
  obtain ⟨rets, hrets, hpos⟩ := hrun
  rw [hrets.since]
  exact hpos

/--
No callback of a UDP socket is ever told that a system call has failed: neither that of a read task or of a multishot
read that gets to see an error, nor that of a write task that has not sent anything before.
-/
theorem udp_failures_unreported (id : Nat) (w : World)
    : (∀ (t : Task) (b : Bool) used e left, ReadFails id t w used e left
        → ¬∃ r ∈ w.newRets (doReadTask id t b w).state, r.2 < 0)
      ∧ (∀ (t : MultishotTask) blocks, Multishot id t.bufRing .udp blocks w.poll → w.Calls (Op.Leaves id t.bufRing)
        → (∀ a ∈ w.sys, NotClosed a) → ¬∃ ret ∈ w.since Entry.shots (doMultishotReadTask id t w).state, ret < 0)
      ∧ (∀ (t : Task) pre e left, WriteFails id t w pre e left
        → ¬∃ r ∈ w.since Entry.writeRets (doWriteTask id t w).state, r.2 < 0) := by
  refine ⟨?_, ?_, ?_⟩
  . rintro t b used e left h ⟨r, hr, hneg⟩
    have := h.noFailure.newRets r hr
    omega
  . rintro t blocks h hcalls hsys ⟨ret, hret, hneg⟩
    have hstart : Spinning id t.bufRing blocks (w.log.flatMap Entry.shots) w :=
      ⟨h, hcalls, hsys, [], by rw [List.append_nil]; rfl, List.forall_mem_nil _⟩
    have hend : Spinning id t.bufRing blocks (w.log.flatMap Entry.shots) (doMultishotReadTask id t w).state := by
      unfold doMultishotReadTask
      rw [get_bind_apply]
      have hloop := Spinning.multishotLoop (w.sys.length + 1) w hstart
      cases hrun : multishotLoop id t.bufRing (w.sys.length + 1) w with
      | ok a w' =>
        rw [hrun] at hloop
        exact hloop.elim
      | error f w' =>
        rw [hrun] at hloop
        exact hloop
    obtain ⟨ys, hys, hpos⟩ := hend.shots
    rw [hys.since] at hret
    have := hpos ret hret
    omega
  . rintro t pre e left h ⟨r, hr, hneg⟩
    have := h.rets r hr
    omega

-- A buffer of 8 bytes, to be read into or to be written.
def udpTask (id : Nat) : Task := { id := id, buffer := [⟨0, 8⟩], sockaddr := none, needSockDetail := false }

-- A read and a write of it are pending.
def udpWorld (sys : List SysRet) : World :=
  let submitBoth : EventM Unit := do
    exec (.submitAsyncRead ⟨3, .udp⟩ ⟨false, [⟨0, 8⟩]⟩ (some 7) none)
    exec (.submitAsyncWrite ⟨3, .udp⟩ ⟨false, [⟨0, 8⟩]⟩ (some 8) none)
  { (submitBoth (World.init fun _ => true)).state with sys := sys }

theorem udp_failures_unreported_refused
    : (¬∃ r ∈ (udpWorld [.fail (.other 111)]).newRets
          (doReadTask 0 (udpTask 0) true (udpWorld [.fail (.other 111)])).state,
        r.2 < 0)
      ∧ (¬∃ r ∈ (udpWorld [.fail (.other 111)]).since Entry.writeRets
          (doWriteTask 0 (udpTask 1) (udpWorld [.fail (.other 111)])).state, r.2 < 0) := by
  have hnone : ∀ a ∈ ([] : List SysRet), BeforeError a := List.forall_mem_nil _
  have hunsent : ∀ a ∈ ([] : List SysRet), Unsent a := List.forall_mem_nil _
  refine ⟨?_, ?_⟩
  . exact (udp_failures_unreported 0 _).1 _ _ [] (.other 111) []
      ⟨by decide +kernel, by decide +kernel, by decide, rfl, hnone, by decide, by decide, by decide⟩
  . exact (udp_failures_unreported 0 _).2.2 _ [] (.other 111) []
      ⟨by decide +kernel, by decide, .inl ⟨by decide +kernel, rfl⟩, hunsent, by decide, by decide, by decide⟩

-- The connection is refused: the read is told of a datagram, the write that one has been sent.
theorem udp_failure_succeeds
    : let w := udpWorld [.fail (.other 111)]
      w.newRets (doReadTask 0 (udpTask 0) true w).state = [(0, 0)]
        ∧ w.since Entry.writeRets (doWriteTask 0 (udpTask 1) w).state = [(1, 1)]
        ∧ ¬∃ r ∈ w.newRets (doReadTask 0 (udpTask 0) true w).state, r.2 < 0 := by
  have hread : (udpWorld [.fail (.other 111)]).newRets
      (doReadTask 0 (udpTask 0) true (udpWorld [.fail (.other 111)])).state = [(0, 0)] := by decide +kernel
  refine ⟨hread, by decide +kernel, ?_⟩
  rw [hread]
  decide

end

end Event
end Ezio
