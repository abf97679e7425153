import Ezio.Lib.Exec
import Ezio.Event.IoUring.Lemmas.TryStep

/-!
This module contains what the blocks and the rings of provided buffers are left as: only the calls that register and
unregister groups and the end of a round of `dispatch` change them.
-/

namespace Ezio
namespace Event
namespace Uring

-- The part of the backend that provided buffers are kept in.
structure Blocks where
  buffers : List BufferInfo
  bufRings : List IoUringBufRing
  lastBufs : List LastBufferInfo
  groups : Nat → Option BufferRingInfo

def IoUring.blocks (s : IoUring) : Blocks :=
  ⟨s.buffers, s.bufRings, s.lastBufs, s.grpIdToBufRings⟩

def Op.isGroupCall : Op → Bool
  | .registerRingBuffer _ _ _ _ | .unregisterRingBuffer _ _ => true
  | _ => false

namespace IoUring

variable {s : IoUring}

@[simp]
theorem modifyAction_blocks (action : Nat) (f : CompleteAction → CompleteAction)
    : (s.modifyAction action f).blocks = s.blocks := rfl

@[simp]
theorem setCallback_blocks (action : Nat) (cb : ActionCallback) : (s.setCallback action cb).blocks = s.blocks := rfl

@[simp]
theorem prepare_blocks (slot : Nat) (action : Option Nat) (f : Sqe → Origin → Sqe)
    : (s.prepare slot action f).blocks = s.blocks := rfl

@[simp]
theorem prepareShot_blocks (slot : Nat) (action : Option Nat) (r : Resubmit)
    : (s.prepareShot slot action r).blocks = s.blocks := rfl

@[simp]
theorem setUserData_blocks (slot action : Nat) : (s.setUserData slot action).blocks = s.blocks := rfl

@[simp]
theorem setMsghdr_blocks (p : Nat) (buffer : IovPtr) (cnt : Nat) : (s.setMsghdr p buffer cnt).blocks = s.blocks := rfl

@[simp]
theorem submitRing_blocks : s.submitRing.2.blocks = s.blocks := rfl

@[simp]
theorem storeTimer_blocks (action : Nat) : (s.storeTimer action).blocks = s.blocks := rfl

@[simp]
theorem eraseTimer_blocks (timerId action : Nat) : (s.eraseTimer timerId action).blocks = s.blocks := rfl

@[simp]
theorem storeCallback_blocks (action : Nat) (cb : Option ActionCallback)
    : (s.storeCallback action cb).blocks = s.blocks := by
  cases cb with
  | none => rfl
  | some cb => rfl

@[simp]
theorem getReadMsghdr_blocks (action : Nat) : (s.getReadMsghdr action).2.blocks = s.blocks := by
  unfold getReadMsghdr
  split
  . rfl
  . rfl

@[simp]
theorem getWriteMsghdr_blocks (action : Nat) : (s.getWriteMsghdr action).2.blocks = s.blocks := by
  unfold getWriteMsghdr
  split
  . rfl
  . rfl

@[simp]
theorem offsetFor_blocks (action : Nat) (opt : Option Nat) : (s.offsetFor action opt).2.blocks = s.blocks := by
  unfold offsetFor
  split
  . rfl
  . rfl

@[simp]
theorem getCompleteAction_blocks (fd : Fd) (info : IouringEventInfo) (kind : Kind)
    : (s.getCompleteAction fd info kind).2.blocks = s.blocks := by
  unfold getCompleteAction
  split
  . rfl
  . rfl

@[simp]
theorem findOrInsert_blocks (fd : Fd) (kind : Kind) : (s.findOrInsert fd kind).2.blocks = s.blocks := by
  unfold findOrInsert
  split
  . exact getCompleteAction_blocks ..
  . exact getCompleteAction_blocks ..

@[simp]
theorem storeReadCallback_blocks (action : Nat) (fd : Fd) (buffer : Option IovPtr) (cnt : Nat) (cb : Option Callback)
    : (s.storeReadCallback action fd buffer cnt cb).blocks = s.blocks := by
  unfold storeReadCallback
  split
  . rfl
  . split
    . exact getReadMsghdr_blocks action
    . rfl

@[simp]
theorem storeGroupCallback_blocks (action : Nat) (cb : Option Callback) (needSocketDetail : Bool)
    : (s.storeGroupCallback action cb needSocketDetail).2.blocks = s.blocks := by
  cases cb with
  | none => rfl
  | some cb => exact getReadMsghdr_blocks action

theorem withSqe_blocks (isSubmit : Bool) {fill : IoUring → Nat → IoUring}
    (hfill : ∀ s slot, (fill s slot).blocks = s.blocks)
    : (s.withSqe isSubmit fill).2.blocks = s.blocks := by
  unfold withSqe getIoUringSqe
  cases s.ring.getIoUringSqe s.msghdrs with
  | mk slot w =>
    cases slot with
    | none => rfl
    | some slot =>
      cases isSubmit with
      | false => exact hfill { s with ring := w } slot
      | true => exact (submitRing_blocks).trans (hfill { s with ring := w } slot)

theorem fillWrite_blocks (fd : Fd) (buffer : Option IovPtr) (cnt : Nat) (cb : Option Callback)
    (opt : Option WriteOptions) (s : IoUring) (slot : Nat)
    : (fillWrite fd buffer cnt cb opt s slot).blocks = s.blocks := by
  unfold fillWrite
  cases buffer with
  | none => simp
  | some buf =>
    cases isStream fd with
    | false => simp
    | true => simp

theorem fillRead_blocks (fd : Fd) (buffer : Option IovPtr) (cnt : Nat) (cb : Option Callback)
    (opt : Option ReadOptions) (s : IoUring) (slot : Nat)
    : (fillRead fd buffer cnt cb opt s slot).blocks = s.blocks := by
  unfold fillRead
  cases buffer with
  | none => simp
  | some buf =>
    cases isStream fd with
    | false => simp
    | true => simp

theorem submitTimeout_blocks (intervalS intervalNs action : Nat)
    : (s.submitTimeout intervalS intervalNs action).2.blocks = s.blocks :=
  withSqe_blocks true fun _ _ => rfl

theorem cancelAsync_blocks (fd : Fd) (kind : Kind) (cb : ActionCallback) (fill : Sqe → Origin → Nat → Sqe)
    : (s.cancelAsync fd kind cb fill).2.blocks = s.blocks := by
  unfold cancelAsync
  split
  . rfl
  . split
    . rfl
    . exact (withSqe_blocks true fun s slot => prepare_blocks slot _ _).trans (getCompleteAction_blocks fd _ kind)

theorem createTimer_blocks (intervalS intervalNs : Nat) (cb : Option Callback)
    : (s.createTimer intervalS intervalNs cb).2.blocks = s.blocks := by
  unfold createTimer
  cases cb with
  | none => rfl
  | some cb =>
    dsimp only
    split
    . rfl
    . have hnew : (s.newAction { callback := some (.timer cb intervalS intervalNs) }).2.blocks = s.blocks := rfl
      generalize s.newAction { callback := some (.timer cb intervalS intervalNs) } = r at hnew
      obtain ⟨action, s₁⟩ := r
      have htimeout : (s₁.submitTimeout intervalS intervalNs action).2.blocks = s.blocks :=
        (submitTimeout_blocks ..).trans hnew
      dsimp only
      generalize s₁.submitTimeout intervalS intervalNs action = r at htimeout
      obtain ⟨ret, s₂⟩ := r
      dsimp only
      split
      . exact htimeout
      . exact htimeout

theorem closeTimer_blocks (timerId : Nat) : (s.closeTimer timerId).2.blocks = s.blocks := by
  unfold closeTimer
  split
  . rfl
  . next action _ =>
    dsimp only
    split
    . have hsqe : ((s.modifyAction action fun a => { a with callback := none }).withSqe true fun s slot =>
          s.prepare slot none fun sqe origin => prepareCancel sqe origin action 0).2.blocks = s.blocks :=
        withSqe_blocks true fun s slot => prepare_blocks slot _ _
      generalize (s.modifyAction action fun a => { a with callback := none }).withSqe true (fun s slot =>
          s.prepare slot none fun sqe origin => prepareCancel sqe origin action 0) = r at hsqe
      obtain ⟨ret, s₁⟩ := r
      dsimp only
      split
      . exact hsqe
      . exact hsqe
    . rfl

theorem run_blocks {op : Op} (h : op.isGroupCall = false) : (s.run op).2.blocks = s.blocks := by
  cases op with
  | submitAsyncRead fd buffer cnt cb opt =>
    unfold run submitAsyncRead
    dsimp only
    split
    . rfl
    . exact withSqe_blocks _ (fillRead_blocks fd buffer cnt cb opt)
  | submitAsyncReadGroup fd group cb opt =>
    unfold run submitAsyncReadGroup
    dsimp only
    split
    . rfl
    . refine withSqe_blocks _ fun s slot => ?_
      simp [fillReadGroup]
  | submitAsyncWrite fd buffer cnt cb opt =>
    unfold run submitAsyncWrite
    dsimp only
    split
    . rfl
    . exact withSqe_blocks _ (fillWrite_blocks fd buffer cnt cb opt)
  | submitAsyncAccept fd addrBuffer cb =>
    unfold run submitAsyncAccept
    dsimp only
    split
    . rfl
    . split
      . rfl
      . refine withSqe_blocks _ fun s slot => ?_
        simp [fillAccept]
  | cancelAsyncRead fd cb =>
    unfold run cancelAsyncRead
    exact cancelAsync_blocks ..
  | cancelAsyncWrite fd cb =>
    unfold run cancelAsyncWrite
    exact cancelAsync_blocks ..
  | cancelAsyncAccept fd cb =>
    unfold run cancelAsyncAccept
    exact cancelAsync_blocks ..
  | createTimer intervalS intervalNs cb =>
    unfold run
    exact createTimer_blocks ..
  | closeTimer timerId =>
    unfold run
    exact closeTimer_blocks ..
  | submit =>
    unfold run submit
    dsimp only
    split
    . rfl
    . rfl
  | registerRingBuffer blockSize blockCount setup addrs => cases h
  | unregisterRingBuffer group freed => cases h

theorem exec_blocks {op : Op} (h : op.isGroupCall = false) : (s.exec op).2.blocks = s.blocks :=
  run_blocks h

theorem resubmitMultishot_blocks {s' : IoUring} {action : Nat} (h : s.resubmitMultishot action = .ok s')
    : s'.blocks = s.blocks := by
  unfold resubmitMultishot at h
  split at h
  . cases h
  . split at h
    . cases h
      rfl
    . next r _ =>
      split at h
      . cases h
      . have hsqe : (s.withSqe true fun s slot => s.prepareShot slot (some action) r).2.blocks = s.blocks :=
          withSqe_blocks true fun s slot => prepareShot_blocks slot (some action) r
        generalize s.withSqe true (fun s slot => s.prepareShot slot (some action) r) = q at h hsqe
        obtain ⟨ret, s₁⟩ := q
        cases h
        exact hsqe

end IoUring

namespace World

variable {w w' : World}

theorem rearm_blocks {s s' : IoUring} {action : Nat} {cb : ActionCallback} (h : rearm s action cb = .ok s')
    : s'.blocks = s.blocks := by
  unfold rearm at h
  split at h
  . next user intervalS intervalNs =>
    split at h
    . cases h
      rfl
    . have htimeout := IoUring.submitTimeout_blocks (s := s) intervalS intervalNs action
      generalize s.submitTimeout intervalS intervalNs action = q at h htimeout
      obtain ⟨ret, s₁⟩ := q
      dsimp only at h
      split at h
      . cases h
        exact htimeout
      . cases h
  . cases h
    rfl

theorem completeCallback_blocks {cqe : Cqe} {a : CompleteAction} (h : w.completeCallback cqe a = .ok w')
    : w'.uring.blocks = w.uring.blocks := by
  unfold completeCallback at h
  split at h
  . cases h
    rfl
  . obtain ⟨s, hrearm, hrest⟩ := Except.bind_eq_ok h
    have hblocks := rearm_blocks hrearm
    rw [IoUring.modifyAction_blocks] at hblocks
    split at hrest
    . cases hrest
      exact hblocks
    . split at hrest
      . cases hrest
        exact hblocks
      . cases hrest

-- What a round does up to the callback, which is called for a buffer if there is room behind its last offset.
theorem next_blocks {i ret : Nat} (h : w.next i ret = .ok w')
    : w'.uring.blocks = w.uring.blocks
        ∧ ((w.uring.ring.getCqe i).userData ≠ 0 → (w.uring.ring.getCqe i).hasBuffer
          → ∃ called, hasRoom w.uring (w.uring.ring.getCqe i) = .ok called
            ∧ w'.phase = .callback i ret (w.uring.ring.getCqe i) called) := by
  unfold next at h
  dsimp only at h
  split at h
  . next hzero =>
    cases h
    exact ⟨rfl, fun hnot => absurd hzero hnot⟩
  . split at h
    . cases h
    . obtain ⟨called, hcalled, hrest⟩ := Except.bind_eq_ok h
      have hroom : (w.uring.ring.getCqe i).hasBuffer
          → hasRoom w.uring (w.uring.ring.getCqe i) = .ok called := by
        intro hbuffer
        unfold isCalled at hcalled
        rw [if_pos hbuffer] at hcalled
        exact hcalled
      cases called with
      | false =>
        cases hrest
        exact ⟨rfl, fun _ hbuffer => ⟨false, hroom hbuffer, rfl⟩⟩
      | true =>
        obtain ⟨w₁, hcomplete, hrest⟩ := Except.bind_eq_ok hrest
        cases hrest
        have hblocks := completeCallback_blocks hcomplete
        exact ⟨hblocks, fun _ hbuffer => ⟨true, hroom hbuffer, rfl⟩⟩

theorem finish_blocks {i ret : Nat} {cqe : Cqe} {called : Bool} (h : w.finish i ret cqe called = .ok w')
    : w'.uring.blocks = if cqe.hasBuffer && called then (giveBack w.uring cqe).blocks else w.uring.blocks := by
  unfold finish at h
  dsimp only at h
  split at h
  . next hbuffer =>
    rw [hbuffer, Bool.true_and]
    have hgiven : (if called then giveBack w.uring cqe else w.uring).blocks
        = if called then (giveBack w.uring cqe).blocks else w.uring.blocks := by
      split
      . rfl
      . rfl
    split at h
    . cases h
    split at h
    . cases h
      exact hgiven
    . obtain ⟨s, hresubmit, hrest⟩ := Except.bind_eq_ok h
      cases hrest
      exact (IoUring.resubmitMultishot_blocks hresubmit).trans hgiven
  . next hbuffer =>
    cases h
    rw [Bool.not_eq_true] at hbuffer
    rw [hbuffer]
    rfl

-- Of the steps of the backend only these change the blocks.
theorem step_blocks (w : World) (st : Step)
    : (w.step st).uring.blocks = w.uring.blocks
        ∨ (∃ op : Op, st = .op op ∧ op.isGroupCall ∧ (w.step st).uring.blocks = (w.uring.exec op).2.blocks)
        ∨ ∃ i ret cqe, st = .finish ∧ w.phase = .callback i ret cqe true ∧ cqe.hasBuffer
          ∧ (w.step st).uring.blocks = (giveBack w.uring cqe).blocks := by
  unfold step
  cases hfault : w.fault with
  | some f => exact .inl rfl
  | none =>
    dsimp only
    cases htry : w.tryStep st with
    | error f => exact .inl rfl
    | ok w' =>
      dsimp only
      cases tryStep_tries htry with
      | idle => exact .inl rfl
      | called op =>
        cases hgroup : op.isGroupCall with
        | false => exact .inl (IoUring.exec_blocks hgroup)
        | true => exact .inr (.inl ⟨op, rfl, hgroup, rfl⟩)
      | posted => exact .inl rfl
      | waited => exact .inl rfl
      | taken _ _ hnext => exact .inl (next_blocks hnext).1
      | @finished _ i ret cqe called hphase hfinish =>
        have hblocks := finish_blocks hfinish
        by_cases hgiven : (cqe.hasBuffer && called) = true
        . rw [if_pos hgiven] at hblocks
          obtain ⟨hbuffer, rfl⟩ := Bool.and_eq_true_iff.mp hgiven
          exact .inr (.inr ⟨i, ret, cqe, rfl, hphase, hbuffer, hblocks⟩)
        . rw [if_neg hgiven] at hblocks
          exact .inl hblocks
      | consumed => exact .inl rfl

end World

end Uring
end Event
end Ezio
