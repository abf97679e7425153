import Ezio.Event.FdIo.TcpAttempt
import Ezio.Event.Epoll.Lemmas.Observe

/-!
This module contains what a read task of a TCP socket reports to its callback: the data, the end of the stream, or
nothing if it is kept pending.
-/

namespace Ezio
namespace Event

open EStateM (Preserves Triple get_bind_apply modify_bind_apply bind_apply)
open FdIo.Tcp (Attempt Fits GoesOn endOf received)

-- The tasks whose callbacks have been called and what they have been called with.
def Entry.taskRets : Entry → List (Nat × Int)
  | .readCallback _ _ (.task t) ret _ => [(t, ret)]
  | _ => []

def World.taskRets (w : World) : List (Nat × Int) := w.log.flatMap Entry.taskRets

def World.newRets (w w' : World) : List (Nat × Int) := w.since Entry.taskRets w'

theorem taskRets_observation : Observation Entry.taskRets :=
  ⟨fun _ _ => rfl, fun _ _ _ _ _ _ => rfl⟩

theorem World.newRets_of_append {w w' : World} {rets : List (Nat × Int)} (h : w'.taskRets = w.taskRets ++ rets)
    : w.newRets w' = rets :=
  Observes.since h

theorem World.newRets_self (w : World) : w.newRets w = [] := World.newRets_of_append (List.append_nil _).symm

-- A file that single reads are made on with `recvmsg`.
structure EventAction.ReadsTcp (a : EventAction) : Prop where
  type : a.fd.type = .tcp
  op : a.readOp = some .tcp

-- The read has returned, the callback is not called yet.
def World.afterRead (w : World) (id : Nat) (flag : Bool) (left : List SysRet) : World :=
  { w with sys := left }.modifyAction id fun a => { a with isReadable := a.isReadable && !flag }

section

variable {id : Nat} {t : Task} {b : Bool} {w : World} {left : List SysRet} {r : FdRet} {ret : Int} {flag : Bool}

theorem doReadTask_tcp (h : (w.action id).ReadsTcp) (hbuf : t.buffer ≠ [])
    (hread : FdIo.Tcp.readFd t.buffer w.sys = .done r left)
    : doReadTask id t b w =
        if r.flag && !b && r.ret = 0 then
          .ok true (w.afterRead id r.flag left)
        else
          (readCallback id (.task t.id) r.ret t.buffer >>= fun _ => pure false) (w.afterRead id r.flag left) := by
  have hfile : ¬(w.action id).fd.type = .file := by
    rw [h.type]
    decide
  have hudp : ¬(w.action id).fd.type = .udp := by
    rw [h.type]
    decide
  have hio : liftIo (readIov (w.action id).readOp false t.buffer) w = .ok r { w with sys := left } := by
    unfold liftIo
    rw [h.op]
    dsimp only [readIov]
    rw [hread]
  unfold doReadTask
  rw [get_bind_apply, if_neg hbuf, if_neg hfile]
  dsimp only
  unfold doReadTask.transfer
  rw [get_bind_apply, if_neg hudp, bind_apply, hio]
  dsimp only
  unfold modifyAction
  rw [modify_bind_apply]
  split
  . rfl
  . rfl

theorem doReadTask_cut (h : (w.action id).ReadsTcp) (hbuf : t.buffer ≠ [])
    (hread : ∀ r left, FdIo.Tcp.readFd t.buffer w.sys ≠ .done r left)
    : ∃ f, doReadTask id t b w = .error f w := by
  have hfile : ¬(w.action id).fd.type = .file := by
    rw [h.type]
    decide
  have hudp : ¬(w.action id).fd.type = .udp := by
    rw [h.type]
    decide
  have hio : ∃ f, liftIo (readIov (w.action id).readOp false t.buffer) w = .error f w := by
    unfold liftIo
    rw [h.op]
    dsimp only [readIov]
    cases hio : FdIo.Tcp.readFd t.buffer w.sys with
    | done r left => exact absurd hio (hread r left)
    | cut => exact ⟨_, rfl⟩
    | null => exact ⟨_, rfl⟩
  obtain ⟨f, hio⟩ := hio
  refine ⟨f, ?_⟩
  unfold doReadTask
  rw [get_bind_apply, if_neg hbuf, if_neg hfile]
  dsimp only
  unfold doReadTask.transfer
  rw [get_bind_apply, if_neg hudp, bind_apply, hio]

theorem readCallback_taskRets (id : Nat) (ret : Int) (task : Nat) (iov : List Iovec) (w : World)
    : (readCallback id (.task task) ret iov w).state.taskRets = w.taskRets ++
        if (w.action id).readBufIdxCallback.isSome then [(task, ret)] else [] := by
  cases hcb : (w.action id).readBufIdxCallback with
  | none =>
    rw [readCallback_none hcb]
    simp
  | some cb =>
    have hrets : Observes Entry.taskRets w.taskRets w := rfl
    exact readCallback_observes taskRets_observation hcb hrets

theorem afterRead_callback (flag : Bool) (left : List SysRet)
    : ((w.afterRead id flag left).action id).readBufIdxCallback = (w.action id).readBufIdxCallback := by
  unfold World.afterRead
  simp

-- A task that is not kept pending reports the result of the read.
theorem doReadTask_newRets (h : (w.action id).ReadsTcp) (hbuf : t.buffer ≠ [])
    (hread : FdIo.Tcp.readFd t.buffer w.sys = .done r left)
    : w.newRets (doReadTask id t b w).state =
        if (r.flag && !b && r.ret = 0) = false ∧ (w.action id).readBufIdxCallback.isSome then [(t.id, r.ret)]
        else [] := by
  rw [doReadTask_tcp h hbuf hread]
  cases hreport : r.flag && !b && decide (r.ret = 0) with
  | true =>
    rw [if_pos rfl, if_neg (by simp)]
    exact World.newRets_of_append (List.append_nil _).symm
  | false =>
    have hrets : (readCallback id (.task t.id) r.ret t.buffer (w.afterRead id r.flag left)).state.taskRets
        = w.taskRets ++ if ((w.afterRead id r.flag left).action id).readBufIdxCallback.isSome then [(t.id, r.ret)]
          else [] :=
      readCallback_taskRets id r.ret t.id t.buffer (w.afterRead id r.flag left)
    rw [afterRead_callback] at hrets
    rw [if_neg (by decide), EStateM.bind_pure_state, World.newRets_of_append hrets]
    split
    . rw [if_pos ⟨rfl, ‹_›⟩]
    . rw [if_neg (fun h => absurd h.2 ‹_›)]

-- The callback is called with the number of bytes that have been received, and with nothing else.
def ReportsReceived (id : Nat) (t : Task) (b : Bool) (w : World) (n : Nat) : Prop :=
  w.newRets (doReadTask id t b w).state = [(t.id, (n : Int))]

/--
The bytes that have been received before the peer closes or an error occurs are never reported, if this is found in the
same call.
-/
theorem doReadTask_discards {used : List SysRet} {x : SysRet} (h : (w.action id).ReadsTcp) (hbuf : t.buffer ≠ [])
    (hsys : w.sys = used ++ x :: left) (hattempt : Attempt t.buffer used x)
    (hx : (∃ lens, x = .ok 0 lens) ∨ ∃ e, x = .fail e ∧ e ≠ .again) (hpos : 0 < (received used).sum)
    : ¬ReportsReceived id t b w (received used).sum := by
  obtain ⟨r, hread, hend⟩ := FdIo.Tcp.readFd_attempt left hattempt
  rw [← hsys] at hread
  have hret : r.ret ≤ 0 := by
    rcases hx with ⟨lens, rfl⟩ | ⟨e, rfl, hagain⟩
    . rw [FdIo.Tcp.endOf_closed, Prod.mk.injEq] at hend
      exact Int.le_of_eq hend.1
    . rw [FdIo.Tcp.endOf_error _ hagain, Prod.mk.injEq] at hend
      rw [hend.1]
      decide
  unfold ReportsReceived
  rw [doReadTask_newRets h hbuf hread]
  split
  . intro heq
    rw [List.singleton_inj, Prod.mk.injEq] at heq
    omega
  . nofun

-- A task of 8 bytes.
def byteTask : Task := { id := 0, buffer := [⟨0, 8⟩], sockaddr := none, needSockDetail := false }

-- The file is readable, the task is pending.
def answeringWorld (sys : List SysRet) : World :=
  let s := (exec (.submitAsyncRead ⟨3, .tcp⟩ ⟨false, byteTask.buffer⟩ (some 7) none) (World.init fun _ => true)).state
  { s with sys := sys }

theorem doReadTask_discards_data
    : ¬ReportsReceived 0 byteTask true (answeringWorld [.ok 5 [], .fail .intr, .ok 0 []]) 5 := by
  have hattempt : Attempt byteTask.buffer [.ok 5 [], .fail .intr] (.ok 0 []) := by
    refine ⟨?_, .inr (by decide), nofun, ?_⟩
    . intro a ha
      simp only [List.mem_cons, List.not_mem_nil, or_false] at ha
      rcases ha with rfl | rfl
      . exact .inr ⟨5, [], rfl, by decide, by decide⟩
      . exact .inl rfl
    . rintro n lens heq
      cases heq
      exact .inl rfl
  exact doReadTask_discards ⟨by decide +kernel, by decide +kernel⟩ (by decide) rfl hattempt
    (.inl ⟨[], rfl⟩) (by decide)

-- Five bytes, then the peer closes: the callback is called with 0, although the read has received the bytes.
theorem run_discards_data
    : let w := answeringWorld [.ok 5 [], .ok 0 []]
      (received [.ok 5 [], .ok 0 []]).sum = 5
        ∧ w.newRets (setReadyEvents 0 ⟨true, false, false⟩ w).state = [(0, 0)]
        ∧ ¬ReportsReceived 0 byteTask true w 5 := by
  refine ⟨by decide, by decide +kernel, ?_⟩
  unfold ReportsReceived
  decide +kernel

end

end Event
end Ezio
