import Ezio.Event.Epoll.Lemmas.Update

/-!
This module contains the rules for what `handle_events` leaves alone. A property of the `World` that the
calls of the callbacks and a few kinds of updates preserve is preserved by all of its parts.
-/

namespace Ezio
namespace Event

open EStateM (Preserves Triple)

-- What carrying out a task changes in its `event_action`, apart from its callback.
def EventAction.Touch (a a' : EventAction) : Prop :=
  ∃ r hdrs sock ro wo, (r = true → a.isReadable = true) ∧ a' =
    { a with
      isReadable := r, mmsghdrForUdpMultishot := hdrs, mmsghdrForUdpSock := sock, readOffset := ro,
      writeOffset := wo }

-- The callbacks that are still to come only make the calls in `A`.
def World.Calls (A : Op → Prop) (w : World) : Prop :=
  ∀ ops ∈ w.user, ∀ op ∈ ops, A op

theorem exec_triple {op : Op} {P : World → Prop} {Q : Unit → World → Prop} {E : Fault → World → Prop}
    (hok : ∀ w r s, P w → w.poll.exec op = .ok (r, s)
      → Q () { w.addLog [.call op w.poll] with poll := s })
    (herr : ∀ w f, P w → w.poll.exec op = .error f → E f (w.addLog [.call op w.poll]))
    : Triple P (exec op) Q E := by
  intro w hw
  unfold exec
  dsimp only
  cases h : w.poll.exec op with
  | ok p => exact hok w p.1 p.2 hw h
  | error f => exact herr w f hw h

theorem liftIo_poll {α : Type} (io : List SysRet → Io α) (P : Epoll → Prop)
    : Preserves (fun w => P w.poll) (liftIo io) := by
  intro w hw
  unfold liftIo
  cases io w.sys with
  | done r sys => exact hw
  | cut => exact hw
  | null => exact hw

theorem lseek_poll (id task offset : Nat) (P : Epoll → Prop)
    : Preserves (fun w => P w.poll) (lseek id task offset) := by
  apply Preserves.bind (liftIo_poll _ P)
  intro ok
  apply Preserves.modify_bind
  . intro w hw
    exact hw
  . exact Preserves.pure _

-- The action that an entry of the log is about.
def Entry.owner : Entry → Option Nat
  | .call .. => none
  | .readPass id .. | .writePass id .. | .sent id .. | .refused id .. | .lseek id ..
  | .readCallback id .. | .readReturn id .. | .writeCallback id .. => some id

-- The entry is about the write tasks of the action.
def Entry.isWrite : Entry → Bool
  | .writePass .. | .sent .. | .refused .. | .writeCallback .. => true
  | _ => false

-- The entry is about the read tasks of the action.
def Entry.isRead : Entry → Bool
  | .readPass .. | .readCallback .. | .readReturn .. => true
  | _ => false

namespace Frame

variable {A : Op → Prop}

def Inv (A : Op → Prop) (P : World → Prop) (w : World) : Prop := w.Calls A ∧ P w

theorem exec_calls (op : Op) : Preserves (World.Calls A) (Event.exec op) := by
  apply exec_triple
  . intro w r s hw _
    exact hw
  . intro w f hw _
    exact hw

theorem head_calls {w : World} (h : w.Calls A) : ∀ op ∈ w.user.headD [], A op := by
  cases huser : w.user with
  | nil => simp
  | cons ops user =>
    apply h
    rw [huser]
    simp

theorem tail_calls {w : World} (h : w.Calls A) : ∀ ops ∈ w.user.tail, ∀ op ∈ ops, A op := by
  intro ops hops
  exact h ops (List.mem_of_mem_tail hops)

end Frame

-- The rules for what is done on behalf of the action `id`, where the entries that are logged are in `K`.
structure IoFrame (id : Nat) (K : Entry → Prop) (A : Op → Prop) (P : World → Prop) : Prop where
  exec : ∀ op, A op → Preserves P (exec op)
  io : ∀ w sys user log, (∀ e ∈ log, e.owner = some id ∧ K e) → P w
    → P { w with sys := sys, user := user, log := w.log ++ log }
  touch : ∀ w a, (w.action id).Touch a → a.writeOffset = (w.action id).writeOffset → P w
    → P (w.modifyAction id fun _ => a)

namespace IoFrame

variable {id : Nat} {K : Entry → Prop} {A : Op → Prop} {P : World → Prop}

open Ezio.Event.Frame (Inv)

theorem addLog (hf : IoFrame id K A P) (w : World) {log : List Entry}
    (hlog : ∀ e ∈ log, e.owner = some id ∧ K e) (h : P w)
    : P (w.addLog log) := hf.io w w.sys w.user log hlog h

theorem script (hf : IoFrame id K A P) {ops : List Op} (hops : ∀ op ∈ ops, A op)
    : Preserves (Inv A P) (ops.forM Event.exec) := by
  apply Preserves.forM
  intro op hop
  exact (Frame.exec_calls op).and (hf.exec op (hops op hop))

theorem liftIo (hf : IoFrame id K A P) {α : Type} (io : List SysRet → Io α)
    : Preserves (Inv A P) (liftIo io) := by
  intro w hw
  unfold Event.liftIo
  cases h : io w.sys with
  | done r sys =>
    refine ⟨hw.1, ?_⟩
    have := hf.io w sys w.user [] (by simp) hw.2
    simpa using this
  | cut => exact hw
  | null => exact hw

theorem modifyAction (hf : IoFrame id K A P) {f : EventAction → EventAction}
    (h : ∀ a : EventAction, a.Touch (f a) ∧ (f a).writeOffset = a.writeOffset)
    : Preserves (Inv A P) (modifyAction id f) := by
  apply Preserves.modify
  intro w hw
  refine ⟨hw.1, hf.touch w (f (w.action id)) (h _).1 (h _).2 hw.2⟩

theorem lseek (hf : IoFrame id K A P) (hK : ∀ id task offset, K (.lseek id task offset))
    (task offset : Nat)
    : Preserves (Inv A P) (lseek id task offset) := by
  apply Preserves.bind (hf.liftIo _)
  intro ok
  apply Preserves.modify_bind
  . intro w hw
    exact ⟨hw.1, hf.addLog w (by simp [Entry.owner, hK]) hw.2⟩
  . exact Preserves.pure _

end IoFrame

-- The rules for the callbacks of reads.
structure EntryFrame (id : Nat) (K : Entry → Prop) (A : Op → Prop) (P : World → Prop) : Prop extends
    IoFrame id K A P where
  buffer : ∀ w group f, P w → P { w with poll := w.poll.modifyBuffer group f }
  returns : ∀ src ret before ops after, K (.readReturn id src ret before ops after)

namespace EntryFrame

variable {id : Nat} {K : Entry → Prop} {A : Op → Prop} {P : World → Prop} {src : ReadSource}

open Ezio.Event.Frame (Inv)

theorem readCallback (hf : EntryFrame id K A P) {ret : Int} {iov : List Iovec}
    (hK : ∀ cb, K (.readCallback id cb src ret iov))
    : Preserves (Inv A P) (readCallback id src ret iov) := by
  apply Preserves.get_bind
  intro w hw
  split
  . exact Preserves.throw _
  next cb hcb =>
    have hops := Frame.head_calls hw.1
    apply Preserves.modify_bind
    . intro w hw
      exact ⟨Frame.tail_calls hw.1,
        hf.io w w.sys w.user.tail _ (by simp [Entry.owner, hK]) hw.2⟩
    . apply Preserves.bind
      . exact hf.script hops
      . intro _
        apply Preserves.modify
        intro w hw
        exact ⟨hw.1, hf.addLog w (by simp [Entry.owner, hf.returns]) hw.2⟩

theorem udpHdrs (isMultishot : Bool) : Preserves (Inv A P) (udpHdrs id isMultishot) := by
  apply Preserves.get_bind
  intro w _
  split
  . split
    . exact Preserves.pure _
    . exact Preserves.throw _
    . exact Preserves.throw _
  . exact Preserves.pure _

theorem setUdpHdrs (hf : EntryFrame id K A P) (isMultishot : Bool) (buf : List FdIo.Udp.Mmsghdr)
    : Preserves (Inv A P) (setUdpHdrs id isMultishot buf) := by
  apply hf.modifyAction
  intro a
  split
  . exact ⟨⟨_, _, _, _, _, by simp +contextual, rfl⟩, rfl⟩
  . exact ⟨⟨_, _, _, _, _, by simp +contextual, rfl⟩, rfl⟩

theorem udpCallbacks (hf : EntryFrame id K A P) (isMultishot : Bool) (i n : Nat)
    (hK : ∀ cb (len : Nat) iov, iov.length ≤ 1 → K (.readCallback id cb src len iov))
    : Preserves (Inv A P) (udpCallbacks id isMultishot src i n) := by
  induction n generalizing i with
  | zero => exact Preserves.pure _
  | succ n ih =>
    apply Preserves.bind (udpHdrs isMultishot)
    intro buf
    split
    . exact Preserves.throw _
    . apply Preserves.bind (hf.readCallback fun cb => hK cb _ _ (by simp))
      intro _
      apply ih

theorem readUdp (hf : EntryFrame id K A P) (isMultishot : Bool) (cnt : Nat)
    (hK : ∀ cb ret iov, iov.length ≤ 1 → K (.readCallback id cb src ret iov))
    : Preserves (Inv A P) (readUdp id isMultishot src cnt) := by
  apply Preserves.bind (udpHdrs isMultishot)
  intro buf
  apply Preserves.get_bind
  intro w _
  apply Preserves.bind (hf.liftIo _)
  intro r
  apply Preserves.bind (hf.setUdpHdrs _ _)
  intro _
  split
  . apply Preserves.bind
    . apply hf.modifyAction
      intro a
      exact ⟨⟨_, _, _, _, _, by simp +contextual, rfl⟩, rfl⟩
    . intro _
      split
      . exact Preserves.pure _
      . apply Preserves.bind (hf.udpCallbacks _ _ _ fun cb len iov => hK cb len iov)
        intro _
        exact Preserves.pure _
  . apply Preserves.bind (hf.readCallback fun cb => hK cb _ _ (by simp))
    intro _
    exact Preserves.pure _

theorem readTcp (hf : EntryFrame id K A P) (ring : Nat) (iov : List Iovec)
    (hK : ∀ cb ret iov, K (.readCallback id cb .multishot ret iov))
    : Preserves (Inv A P) (readTcp id ring iov) := by
  apply Preserves.get_bind
  intro w _
  apply Preserves.bind (hf.liftIo _)
  intro r
  apply Preserves.modify_bind
  . intro w hw
    exact ⟨hw.1, hf.buffer w ring _ hw.2⟩
  . split
    . split
      . apply Preserves.bind
        . apply hf.modifyAction
          intro a
          exact ⟨⟨_, _, _, _, _, by simp +contextual, rfl⟩, rfl⟩
        . intro _
          exact Preserves.pure _
      . apply Preserves.bind (hf.readCallback fun cb => hK cb _ _)
        intro _
        exact Preserves.pure _
    . apply Preserves.bind (hf.readCallback fun cb => hK cb _ _)
      intro _
      exact Preserves.pure _

theorem readShot (hf : EntryFrame id K A P) (ring : Nat) (iov : List Iovec)
    (hK : ∀ cb ret iov, K (.readCallback id cb .multishot ret iov))
    : Preserves (Inv A P) (readShot id ring iov) := by
  apply Preserves.get_bind
  intro w _
  split
  . exact hf.readUdp _ _ fun cb ret iov _ => hK cb ret iov
  . exact hf.readTcp _ _ hK

theorem multishotLoop (hf : EntryFrame id K A P) (ring n : Nat)
    (hK : ∀ cb ret iov, K (.readCallback id cb .multishot ret iov))
    : Preserves (Inv A P) (multishotLoop id ring n) := by
  induction n with
  | zero => exact Preserves.throw _
  | succ n ih =>
    apply Preserves.get_bind
    intro w _
    split
    . exact Preserves.throw _
    . split
      . exact Preserves.throw _
      . apply Preserves.bind (hf.readShot _ _ hK)
        intro ret
        split
        . exact Preserves.pure _
        . exact ih

theorem doMultishotReadTask (hf : EntryFrame id K A P) (t : MultishotTask)
    (hK : ∀ cb ret iov, K (.readCallback id cb .multishot ret iov))
    : Preserves (Inv A P) (doMultishotReadTask id t) := by
  apply Preserves.get_bind
  intro w _
  exact hf.multishotLoop _ _ hK

theorem doAcceptTask (hf : EntryFrame id K A P)
    (hK : ∀ cb ret iov, K (.readCallback id cb .accept ret iov))
    : Preserves (Inv A P) (doAcceptTask id) := by
  apply Preserves.get_bind
  intro w _
  apply Preserves.bind (hf.liftIo _)
  intro r
  split
  . apply hf.modifyAction
    intro a
    exact ⟨⟨_, _, _, _, _, by simp +contextual, rfl⟩, rfl⟩
  . exact hf.readCallback fun cb => hK cb _ _
  . split
    . exact hf.readCallback fun cb => hK cb _ _
    . exact Preserves.throw _

theorem acceptPass (hf : EntryFrame id K A P)
    (hK : ∀ cb ret iov, K (.readCallback id cb .accept ret iov))
    : Preserves (Inv A P) (acceptPass id) := by
  apply Preserves.get_bind
  intro w _
  split
  . exact hf.doAcceptTask hK
  . exact Preserves.pure _

end EntryFrame

structure Frame (id : Nat) (A : Op → Prop) (P : World → Prop) : Prop extends
    IoFrame id (fun e => e.isWrite = false) A P where
  buffer : ∀ w group f, P w → P { w with poll := w.poll.modifyBuffer group f }

namespace Frame

variable {id : Nat} {A : Op → Prop} {P : World → Prop}

theorem entry (hf : Frame id A P) : EntryFrame id (fun e => e.isWrite = false) A P :=
  ⟨hf.toIoFrame, hf.buffer, fun _ _ _ _ _ => rfl⟩

theorem readCallback (hf : Frame id A P) (src : ReadSource) (ret : Int) (iov : List Iovec)
    : Preserves (Inv A P) (readCallback id src ret iov) :=
  hf.entry.readCallback fun _ => rfl

theorem readUdp (hf : Frame id A P) (isMultishot : Bool) (src : ReadSource) (cnt : Nat)
    : Preserves (Inv A P) (readUdp id isMultishot src cnt) :=
  hf.entry.readUdp isMultishot cnt fun _ _ _ _ => rfl

theorem multishotLoop (hf : Frame id A P) (ring n : Nat)
    : Preserves (Inv A P) (multishotLoop id ring n) :=
  hf.entry.multishotLoop ring n fun _ _ _ => rfl

theorem doMultishotReadTask (hf : Frame id A P) (t : MultishotTask)
    : Preserves (Inv A P) (doMultishotReadTask id t) :=
  hf.entry.doMultishotReadTask t fun _ _ _ => rfl

theorem acceptPass (hf : Frame id A P) : Preserves (Inv A P) (acceptPass id) :=
  hf.entry.acceptPass fun _ _ _ => rfl

theorem doReadTask_transfer (hf : Frame id A P) (t : Task) (isEventTriggered : Bool)
    : Preserves (Inv A P) (doReadTask.transfer id t isEventTriggered) := by
  apply Preserves.get_bind
  intro w _
  split
  . apply Preserves.bind
    . apply hf.modifyAction
      intro a
      exact ⟨⟨_, _, _, _, _, by simp +contextual, rfl⟩, rfl⟩
    . intro _
      apply Preserves.bind (hf.readUdp _ _ _)
      intro ret
      exact Preserves.pure _
  . apply Preserves.bind (hf.liftIo _)
    intro r
    apply Preserves.bind
    . apply hf.modifyAction
      intro a
      exact ⟨⟨_, _, _, _, _, by simp +contextual, rfl⟩, rfl⟩
    . intro _
      split
      . exact Preserves.pure _
      . apply Preserves.bind (hf.readCallback _ _ _)
        intro _
        exact Preserves.pure _

theorem doReadTask (hf : Frame id A P) (t : Task) (isEventTriggered : Bool)
    : Preserves (Inv A P) (doReadTask id t isEventTriggered) := by
  apply Preserves.get_bind
  intro w _
  split
  . apply Preserves.bind (hf.readCallback _ _ _)
    intro _
    exact Preserves.pure _
  . split
    . exact hf.doReadTask_transfer _ _
    . apply Preserves.bind (hf.lseek (fun _ _ _ => rfl) _ _)
      intro ok
      split
      . apply Preserves.bind
        . apply hf.modifyAction
          intro a
          exact ⟨⟨_, _, _, _, _, by simp +contextual, rfl⟩, rfl⟩
        . intro _
          exact hf.doReadTask_transfer _ _
      . apply Preserves.bind (hf.readCallback _ _ _)
        intro _
        exact Preserves.pure _

end Frame

structure SendFrame (id : Nat) (A : Op → Prop) (P : World → Prop) : Prop extends
    IoFrame id (fun e => e.isRead = false) A P where
  offset : ∀ w offset, P w → P (w.modifyAction id fun a => { a with writeOffset := offset })

namespace SendFrame

variable {id : Nat} {A : Op → Prop} {P : World → Prop}

open Ezio.Event.Frame (Inv)

theorem writeCallback (hf : SendFrame id A P) (task : Nat) (ret : Int)
    : Preserves (Inv A P) (writeCallback id task ret) := by
  apply Preserves.get_bind
  intro w hw
  split
  . exact Preserves.throw _
  next cb hcb =>
    have hops := Frame.head_calls hw.1
    apply Preserves.modify_bind
    . intro w hw
      exact ⟨Frame.tail_calls hw.1, hf.io w w.sys w.user.tail _ (by simp [Entry.owner, Entry.isRead]) hw.2⟩
    . exact hf.script hops

theorem doWriteTask_transfer (hf : SendFrame id A P) (t : Task)
    : Preserves (Inv A P) (doWriteTask.transfer id t) := by
  apply Preserves.get_bind
  intro w _
  apply Preserves.bind (hf.liftIo _)
  intro r
  apply Preserves.modify_bind
  . intro w hw
    refine ⟨hw.1, hf.addLog w ?_ hw.2⟩
    intro e he
    rw [List.mem_map] at he
    obtain ⟨_, _, rfl⟩ := he
    exact ⟨rfl, rfl⟩
  . apply Preserves.bind
    . apply Preserves.modify
      intro w hw
      exact ⟨hw.1, hf.offset w none hw.2⟩
    . intro _
      split
      . apply Preserves.modify_bind
        . intro w hw
          exact ⟨hw.1, hf.addLog w (by simp [Entry.owner, Entry.isRead]) hw.2⟩
        . exact Preserves.pure _
      . apply Preserves.bind (hf.writeCallback _ _)
        intro _
        exact Preserves.pure _

theorem doWriteTask (hf : SendFrame id A P) (t : Task)
    : Preserves (Inv A P) (doWriteTask id t) := by
  apply Preserves.get_bind
  intro w _
  split
  . apply Preserves.bind (hf.writeCallback _ _)
    intro _
    exact Preserves.pure _
  . split
    . exact hf.doWriteTask_transfer _
    . apply Preserves.bind (hf.lseek (fun _ _ _ => rfl) _ _)
      intro ok
      split
      . exact hf.doWriteTask_transfer _
      . apply Preserves.bind (hf.writeCallback _ _)
        intro _
        exact Preserves.pure _

end SendFrame

-- What moving read tasks changes in an `event_action`.
def EventAction.RequeueRead (a a' : EventAction) : Prop := ∃ reads, a' = { a with pendingReadTask := reads }

-- What moving write tasks changes in an `event_action`.
def EventAction.RequeueWrite (a a' : EventAction) : Prop :=
  ∃ writes w, a' = { a with pendingWriteTask := writes, isWritable := w }

structure ReadFrame (id : Nat) (A : Op → Prop) (P : World → Prop) : Prop extends Frame id A P where
  requeueRead : ∀ w a, (w.action id).RequeueRead a → P w → P (w.modifyAction id fun _ => a)

structure WriteFrame (id : Nat) (A : Op → Prop) (P : World → Prop) : Prop extends
    SendFrame id A P where
  requeueWrite : ∀ w a, (w.action id).RequeueWrite a → P w → P (w.modifyAction id fun _ => a)

namespace ReadFrame

variable {id : Nat} {A : Op → Prop} {P : World → Prop}

open Ezio.Event.Frame (Inv)

theorem modifyAction (hf : ReadFrame id A P) {f : EventAction → EventAction}
    (h : ∀ a : EventAction, a.RequeueRead (f a))
    : Preserves (Inv A P) (modifyAction id f) := by
  apply Preserves.modify
  intro w hw
  exact ⟨hw.1, hf.requeueRead w (f (w.action id)) (h _) hw.2⟩

theorem readLoop (hf : ReadFrame id A P) (isEventTriggered : Bool) (n : Nat)
    : Preserves (Inv A P) (readLoop id isEventTriggered n) := by
  induction n with
  | zero => exact Preserves.pure _
  | succ n ih =>
    apply Preserves.get_bind
    intro w _
    split
    . exact Preserves.throw _
    . apply Preserves.bind (hf.doReadTask _ _)
      intro again
      apply Preserves.bind
      . apply hf.modifyAction
        intro a
        split
        . exact ⟨_, rfl⟩
        . exact ⟨_, rfl⟩
      . intro _
        apply Preserves.bind
        . apply Preserves.get_bind
          intro w _
          split
          . exact Preserves.throw _
          . apply hf.modifyAction
            intro a
            exact ⟨_, rfl⟩
        . intro _
          exact ih

theorem readPass (hf : ReadFrame id A P) (isEventTriggered : Bool)
    : Preserves (Inv A P) (readPass id isEventTriggered) := by
  apply Preserves.get_bind
  intro w _
  apply Preserves.modify_bind
  . intro w hw
    exact ⟨hw.1, hf.addLog w (by simp [Entry.owner, Entry.isWrite]) hw.2⟩
  . exact hf.readLoop _ _

theorem handleRead (hf : ReadFrame id A P) (isEventTriggered : Bool)
    : Preserves (Inv A P) (handleRead id isEventTriggered) := by
  apply Preserves.get_bind
  intro w _
  split
  . split
    . apply Preserves.bind (hf.doMultishotReadTask _)
      intro _
      exact hf.acceptPass
    . apply Preserves.bind (hf.readPass _)
      intro _
      exact hf.acceptPass
  . exact Preserves.pure _

end ReadFrame

namespace WriteFrame

variable {id : Nat} {A : Op → Prop} {P : World → Prop}

open Ezio.Event.Frame (Inv)

theorem modifyAction (hf : WriteFrame id A P) {f : EventAction → EventAction}
    (h : ∀ a : EventAction, a.RequeueWrite (f a))
    : Preserves (Inv A P) (modifyAction id f) := by
  apply Preserves.modify
  intro w hw
  exact ⟨hw.1, hf.requeueWrite w (f (w.action id)) (h _) hw.2⟩

theorem writeLoop (hf : WriteFrame id A P) (n : Nat) : Preserves (Inv A P) (writeLoop id n) := by
  induction n with
  | zero => exact Preserves.pure _
  | succ n ih =>
    apply Preserves.get_bind
    intro w _
    split
    . exact Preserves.throw _
    . apply Preserves.bind (hf.doWriteTask _)
      intro again
      apply Preserves.bind
      . apply hf.modifyAction
        intro a
        split
        . exact ⟨_, _, rfl⟩
        . exact ⟨_, _, rfl⟩
      . intro _
        apply Preserves.bind
        . apply Preserves.get_bind
          intro w _
          split
          . exact Preserves.throw _
          . apply hf.modifyAction
            intro a
            exact ⟨_, _, rfl⟩
        . intro _
          exact ih

theorem writePass (hf : WriteFrame id A P) : Preserves (Inv A P) (writePass id) := by
  apply Preserves.get_bind
  intro w _
  apply Preserves.modify_bind
  . intro w hw
    exact ⟨hw.1, hf.addLog w (by simp [Entry.owner, Entry.isRead]) hw.2⟩
  . exact hf.writeLoop _

theorem handleWrite (hf : WriteFrame id A P) : Preserves (Inv A P) (handleWrite id) := by
  apply Preserves.get_bind
  intro w _
  split
  . exact hf.writePass
  . exact Preserves.pure _

end WriteFrame

theorem Frame.handleEvents {id : Nat} {A : Op → Prop} {P : World → Prop} (hr : ReadFrame id A P)
    (hw : WriteFrame id A P) (isEventTriggered : Bool)
    : Preserves (Inv A P) (handleEvents id isEventTriggered) := by
  apply Preserves.get_bind
  intro w _
  split
  . exact Preserves.pure _
  . apply Preserves.bind (hr.handleRead _)
    intro _
    exact hw.handleWrite

-- The rules for the loops that go from one action to the next.
structure HandleFrame (A : Op → Prop) (P : World → Prop) : Prop where
  handle : ∀ id isEventTriggered, Preserves (Frame.Inv A P) (handleEvents id isEventTriggered)
  notify : ∀ w id r s, P w
    → P (w.modifyAction id fun a => { a with isReadable := r, isWritable := s })
  ready : ∀ w ready, ready ⊆ w.poll.readyEvents → P w
    → P { w with poll := { w.poll with readyEvents := ready } }

namespace HandleFrame

variable {A : Op → Prop} {P : World → Prop}

open Ezio.Event.Frame (Inv)

theorem setReadyEvents (hf : HandleFrame A P) (id : Nat) (events : Mask)
    : Preserves (Inv A P) (setReadyEvents id events) := by
  apply Preserves.bind
  . apply Preserves.modify
    intro w hw
    exact ⟨hw.1, hf.notify w id _ _ hw.2⟩
  . intro _
    exact hf.handle _ _

theorem readyLoop (hf : HandleFrame A P) (n : Nat) : Preserves (Inv A P) (readyLoop n) := by
  induction n with
  | zero => exact Preserves.pure _
  | succ n ih =>
    apply Preserves.get_bind
    intro w _
    split
    . exact Preserves.throw _
    . apply Preserves.bind (hf.handle _ _)
      intro _
      apply Preserves.modify_bind
      . intro w hw
        exact ⟨hw.1, hf.ready w _ (fun _ => List.mem_of_mem_tail) hw.2⟩
      . exact ih

theorem doReadyTasks (hf : HandleFrame A P) : Preserves (Inv A P) doReadyTasks := by
  apply Preserves.get_bind
  intro w _
  exact hf.readyLoop _

end HandleFrame

-- The rules for all actions, and for the loops that go from one to the next.
structure EventFrame (A : Op → Prop) (P : World → Prop) : Prop where
  read : ∀ id, ReadFrame id A P
  write : ∀ id, WriteFrame id A P
  notify : ∀ w id r s, P w
    → P (w.modifyAction id fun a => { a with isReadable := r, isWritable := s })
  ready : ∀ w ready, ready ⊆ w.poll.readyEvents → P w
    → P { w with poll := { w.poll with readyEvents := ready } }

-- All that handling events changes in an `event_action`, apart from its callbacks.
def EventAction.Handled (a a' : EventAction) : Prop :=
  ∃ reads writes r w hdrs sock ro wo, a' =
    { a with
      pendingReadTask := reads, pendingWriteTask := writes, isReadable := r, isWritable := w,
      mmsghdrForUdpMultishot := hdrs, mmsghdrForUdpSock := sock, readOffset := ro, writeOffset := wo }

namespace EventFrame

variable {A : Op → Prop} {P : World → Prop}

open Ezio.Event.Frame (Inv)

theorem of_handled (hexec : ∀ op, A op → Preserves P (exec op))
    (hio : ∀ w sys user log, P w → P { w with sys := sys, user := user, log := w.log ++ log })
    (haction : ∀ w id a, (w.action id).Handled a → P w → P (w.modifyAction id fun _ => a))
    (hbuffer : ∀ w group f, P w → P { w with poll := w.poll.modifyBuffer group f })
    (hready : ∀ w ready, ready ⊆ w.poll.readyEvents → P w
      → P { w with poll := { w.poll with readyEvents := ready } })
    : EventFrame A P := by
  have htouch : ∀ id w a, (w.action id).Touch a → P w → P (w.modifyAction id fun _ => a) := by
    rintro id w _ ⟨_, _, _, _, _, _, rfl⟩
    exact haction w id _ ⟨_, _, _, _, _, _, _, _, rfl⟩
  have hframe : ∀ id, Frame id A P := by
    intro id
    exact ⟨⟨hexec, fun w sys user log _ => hio w sys user log, fun w a ha _ => htouch id w a ha⟩, hbuffer⟩
  have hsend : ∀ id, SendFrame id A P := by
    intro id
    refine ⟨⟨hexec, fun w sys user log _ => hio w sys user log, fun w a ha _ => htouch id w a ha⟩, ?_⟩
    intro w offset
    exact haction w id { w.action id with writeOffset := offset } ⟨_, _, _, _, _, _, _, _, rfl⟩
  refine ⟨fun id => ⟨hframe id, ?_⟩, fun id => ⟨hsend id, ?_⟩, ?_, hready⟩
  . rintro w _ ⟨_, rfl⟩
    exact haction w id _ ⟨_, _, _, _, _, _, _, _, rfl⟩
  . rintro w _ ⟨_, _, rfl⟩
    exact haction w id _ ⟨_, _, _, _, _, _, _, _, rfl⟩
  . intro w id r s
    exact haction w id { w.action id with isReadable := r, isWritable := s }
      ⟨_, _, _, _, _, _, _, _, rfl⟩

theorem handleEvents (hf : EventFrame A P) (id : Nat) (isEventTriggered : Bool)
    : Preserves (Inv A P) (handleEvents id isEventTriggered) :=
  Frame.handleEvents (hf.read id) (hf.write id) isEventTriggered

theorem handleFrame (hf : EventFrame A P) : HandleFrame A P := ⟨hf.handleEvents, hf.notify, hf.ready⟩

theorem setReadyEvents (hf : EventFrame A P) (id : Nat) (events : Mask)
    : Preserves (Inv A P) (setReadyEvents id events) := hf.handleFrame.setReadyEvents id events

theorem readyLoop (hf : EventFrame A P) (n : Nat) : Preserves (Inv A P) (readyLoop n) :=
  hf.handleFrame.readyLoop n

theorem doReadyTasks (hf : EventFrame A P) : Preserves (Inv A P) doReadyTasks :=
  hf.handleFrame.doReadyTasks

end EventFrame

-- All calls that a step makes, directly or from callbacks, are in `A`.
def Step.Calls (A : Op → Prop) : Step → Prop
  | .op call => A call
  | .dispatch _ _ user _ => ∀ ops ∈ user, ∀ op ∈ ops, A op

instance (A : Op → Prop) [DecidablePred A] (st : Step) : Decidable (st.Calls A) :=
  match st with
  | .op call => inferInstanceAs (Decidable (A call))
  | .dispatch _ _ user _ => inferInstanceAs (Decidable (∀ ops ∈ user, ∀ op ∈ ops, A op))

-- The errors that `epoll_ctl` runs into during a step.
def Step.ctlErrs : Step → List (Option Errno)
  | .op _ => []
  | .dispatch _ _ _ errs => errs

structure DispatchFrame (A : Op → Prop) (B : List (Option Errno) → Prop) (P : World → Prop) : Prop
    extends HandleFrame A P where
  exec : ∀ op, A op → Preserves P (exec op)
  answers : ∀ w sys user, P w → P { w with sys := sys, user := user }
  changes : ∀ w, P w → P { w with poll := w.poll.applyChanges }
  removed : ∀ w, P w → P { w with poll := { w.poll with removedEventInfo := [] } }
  ctlErrs : ∀ w errs, B errs → P w
    → P { w with poll := { w.poll with kernel := { w.poll.kernel with ctlErrs := errs } } }

namespace DispatchFrame

variable {A : Op → Prop} {B : List (Option Errno) → Prop} {P : World → Prop}

open Ezio.Event.Frame (Inv)

theorem dispatch (hf : DispatchFrame A B P) (ready : Option (List (Nat × Mask)))
    : Preserves (Inv A P) (dispatch ready) := by
  apply Preserves.modify_bind
  . intro w hw
    exact ⟨hw.1, hf.changes w hw.2⟩
  . split
    . exact Preserves.pure _
    . apply Preserves.get_bind
      intro w _
      apply Preserves.bind
      . apply Preserves.forM
        intro e _
        exact hf.setReadyEvents _ _
      . intro _
        apply Preserves.bind hf.doReadyTasks
        intro _
        apply Preserves.modify
        intro w hw
        exact ⟨hw.1, hf.removed w hw.2⟩

-- A step brings its own callbacks, so that nothing has to be known of those that are left.
theorem step (hf : DispatchFrame A B P) {st : Step} (hst : st.Calls A) (herrs : B st.ctlErrs)
    : Preserves P (step st) := by
  cases st with
  | op op => exact hf.exec op hst
  | dispatch ready sys user ctlErrs =>
    have hdispatch : Triple (Inv A P) (Event.dispatch ready) (fun _ => P) (fun _ => P) :=
      (hf.dispatch ready).conseq (fun _ hw => hw) (fun _ _ hw => hw.2) (fun _ _ hw => hw.2)
    refine Triple.modify_bind ?_ hdispatch
    intro w hw
    exact ⟨hst, hf.answers _ sys user (hf.ctlErrs w ctlErrs herrs hw)⟩

theorem run (hf : DispatchFrame A B P) {sts : List Step} (hsts : ∀ st ∈ sts, st.Calls A)
    (herrs : ∀ st ∈ sts, B st.ctlErrs)
    : Preserves P (run sts) := by
  apply Preserves.forM
  intro st hst
  exact hf.step (hsts st hst) (herrs st hst)

end DispatchFrame

structure RunFrame (A : Op → Prop) (B : List (Option Errno) → Prop) (P : World → Prop) : Prop
    extends EventFrame A P where
  changes : ∀ w, P w → P { w with poll := w.poll.applyChanges }
  removed : ∀ w, P w → P { w with poll := { w.poll with removedEventInfo := [] } }
  ctlErrs : ∀ w errs, B errs → P w
    → P { w with poll := { w.poll with kernel := { w.poll.kernel with ctlErrs := errs } } }

namespace RunFrame

variable {A : Op → Prop} {B : List (Option Errno) → Prop} {P : World → Prop}

open Ezio.Event.Frame (Inv)

theorem dispatchFrame (hf : RunFrame A B P) : DispatchFrame A B P := by
  refine ⟨hf.handleFrame, (hf.read 0).exec, ?_, hf.changes, hf.removed, hf.ctlErrs⟩
  intro w sys user hw
  have := (hf.read 0).io w sys user [] (by simp) hw
  simpa using this

theorem dispatch (hf : RunFrame A B P) (ready : Option (List (Nat × Mask)))
    : Preserves (Inv A P) (dispatch ready) := hf.dispatchFrame.dispatch ready

theorem step (hf : RunFrame A B P) {st : Step} (hst : st.Calls A) (herrs : B st.ctlErrs)
    : Preserves P (step st) := hf.dispatchFrame.step hst herrs

theorem run (hf : RunFrame A B P) {sts : List Step} (hsts : ∀ st ∈ sts, st.Calls A)
    (herrs : ∀ st ∈ sts, B st.ctlErrs)
    : Preserves P (run sts) := hf.dispatchFrame.run hsts herrs

end RunFrame

end Event
end Ezio
