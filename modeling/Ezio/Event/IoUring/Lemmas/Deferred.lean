import Ezio.Event.IoUring.Lemmas.Step

/-!
This module contains batches of operations that are deferred: each one takes an entry of the ring, and
the one that finds the ring full fails even if the ring is flushed.
-/

namespace Ezio
namespace Event
namespace Uring

-- A read or a write with `set_submit(false)` that passes its checks.
def Op.isDeferred (s : IoUring) : Op → Bool
  | .submitAsyncRead fd buffer cnt _ opt =>
    s.isInited && 0 ≤ fd.num && (cnt = 0 || buffer.isSome) && opt.any (!·.isSubmit)
  | .submitAsyncReadGroup fd group _ opt =>
    s.isInited && 0 ≤ fd.num && s.isBufferValid group && IoUring.isStream fd
      && opt.any (!·.isSubmit)
  | .submitAsyncWrite fd buffer cnt _ opt =>
    s.isInited && 0 ≤ fd.num && (cnt = 0 || buffer.isSome) && opt.any (!·.isSubmit)
  | _ => false

theorem Op.isInited_of_isDeferred {s : IoUring} {op : Op} (h : op.isDeferred s)
    : s.isInited := by
  cases op
  case submitAsyncRead | submitAsyncReadGroup | submitAsyncWrite =>
    simp only [Op.isDeferred, Bool.and_eq_true] at h
    tauto
  all_goals cases h

namespace IoUring

variable {k head lag : Nat} {queue : List Sqe} {s : IoUring}

def execAll (s : IoUring) : List Op → List Int × IoUring
  | [] => ([], s)
  | op :: ops =>
    let (ret, s) := s.exec op
    let (rets, s) := s.execAll ops
    (ret :: rets, s)

theorem execAll_cons (s : IoUring) (op : Op) (ops : List Op)
    : s.execAll (op :: ops)
        =
      ((s.exec op).1 :: ((s.exec op).2.execAll ops).1, ((s.exec op).2.execAll ops).2) :=
  rfl

theorem getIoUringSqe_isSome_iff (h : Queue k s.ring.sq head queue lag)
    : s.getIoUringSqe.1.isSome ↔ queue.length < 2 ^ k := by
  have hfits := h.fits
  rw [getIoUringSqe_eq]
  by_cases hroom : queue.length < 2 ^ k
  . obtain ⟨slot, sq, heq, _⟩ := h.getIoUringSqe s.msghdrs hroom
    simp [heq, hroom]
  . rw [h.getIoUringSqe_full s.msghdrs (by omega)]
    simp [hroom]

theorem withSqe_full (h : Queue k s.ring.sq head queue lag) (hfull : ¬queue.length < 2 ^ k)
    (isSubmit : Bool) (fill : IoUring → Nat → IoUring)
    : s.withSqe isSubmit fill = (-1, { s with ring := (s.ring.submit s.msghdrs).2 }) := by
  have hfits := h.fits
  unfold withSqe
  rw [getIoUringSqe_eq, h.getIoUringSqe_full s.msghdrs (by omega)]

theorem withSqe_room (h : Queue k s.ring.sq head queue lag) (hroom : queue.length < 2 ^ k)
    (isSubmit : Bool) (fill : IoUring → Nat → IoUring)
    : ∃ slot sq, Queue.Last k sq head queue (initializeSqe s.ring.nextSqe) lag slot
        ∧ s.withSqe isSubmit fill
          = if isSubmit then (fill { s with ring := { s.ring with sq } } slot).submitRing
            else (0, fill { s with ring := { s.ring with sq } } slot) := by
  obtain ⟨slot, sq, heq, hslot, hlast⟩ := h.getIoUringSqe s.msghdrs hroom
  rw [hslot] at hlast
  refine ⟨s.ring.sq.slot s.ring.sq.sqeTail, sq, hlast, ?_⟩
  unfold withSqe
  rw [getIoUringSqe_eq, heq, hslot]

theorem submitAsyncRead_deferred {fd : Fd} {buffer : Option IovPtr} {cnt : Nat}
    {cb : Option Callback} {opt : Option ReadOptions}
    (h : (Op.submitAsyncRead fd buffer cnt cb opt).isDeferred s)
    : s.submitAsyncRead fd buffer cnt cb opt = s.withSqe false (fillRead fd buffer cnt cb opt) := by
  unfold submitAsyncRead
  cases opt with
  | none => simp [Op.isDeferred] at h
  | some opt =>
    simp only [Op.isDeferred, Bool.and_eq_true, Bool.or_eq_true, decide_eq_true_eq,
      Option.any_some, Bool.not_eq_true'] at h
    obtain ⟨⟨⟨hinited, hfd⟩, hbuffer⟩, hsubmit⟩ := h
    rw [if_neg, Option.all_some, hsubmit]
    cases buffer with
    | none => simp_all
    | some buf => simp_all

theorem submitAsyncWrite_deferred {fd : Fd} {buffer : Option IovPtr} {cnt : Nat}
    {cb : Option Callback} {opt : Option WriteOptions}
    (h : (Op.submitAsyncWrite fd buffer cnt cb opt).isDeferred s)
    : s.submitAsyncWrite fd buffer cnt cb opt
        =
      s.withSqe false (fillWrite fd buffer cnt cb opt) := by
  unfold submitAsyncWrite
  cases opt with
  | none => simp [Op.isDeferred] at h
  | some opt =>
    simp only [Op.isDeferred, Bool.and_eq_true, Bool.or_eq_true, decide_eq_true_eq,
      Option.any_some, Bool.not_eq_true'] at h
    obtain ⟨⟨⟨hinited, hfd⟩, hbuffer⟩, hsubmit⟩ := h
    rw [if_neg, Option.all_some, hsubmit]
    cases buffer with
    | none => simp_all
    | some buf => simp_all

theorem submitAsyncReadGroup_deferred {fd : Fd} {group : Nat} {cb : Option Callback}
    {opt : Option ReadOptions} (h : (Op.submitAsyncReadGroup fd group cb opt).isDeferred s)
    : s.submitAsyncReadGroup fd group cb opt
        =
      s.withSqe false (fillReadGroup fd group cb (opt.any (·.needSocketDetail))) := by
  unfold submitAsyncReadGroup
  cases opt with
  | none => simp [Op.isDeferred] at h
  | some opt =>
    simp only [Op.isDeferred, Bool.and_eq_true, decide_eq_true_eq, Option.any_some,
      Bool.not_eq_true'] at h
    obtain ⟨⟨⟨⟨hinited, hfd⟩, hvalid⟩, hstream⟩, hsubmit⟩ := h
    rw [if_neg, Option.all_some, hsubmit]
    simp [hinited, hfd, hvalid, hstream]

theorem run_deferred {op : Op} (h : op.isDeferred s)
    : ∃ fill, FillsSlot none fill ∧ s.run op = s.withSqe false fill := by
  cases op with
  | submitAsyncRead fd buffer cnt cb opt =>
    exact ⟨_, (fillRead_fills fd buffer cnt cb opt).fillsSlot, submitAsyncRead_deferred h⟩
  | submitAsyncReadGroup fd group cb opt =>
    exact ⟨_, (fillReadGroup_fills fd group cb _).fillsSlot, submitAsyncReadGroup_deferred h⟩
  | submitAsyncWrite fd buffer cnt cb opt =>
    exact ⟨_, (fillWrite_fills fd buffer cnt cb opt).fillsSlot, submitAsyncWrite_deferred h⟩
  | _ => simp [Op.isDeferred] at h

-- A deferred operation that finds room adds one entry to the queue.
theorem exec_deferred {op : Op} (h : Queue k s.ring.sq head queue lag)
    (hroom : queue.length < 2 ^ k) (hdeferred : op.isDeferred s)
    : ∃ q, (s.exec op).1 = 0 ∧ Queue k (s.exec op).2.ring.sq head (queue ++ [q]) lag
        ∧ (s.exec op).2.isInited = s.isInited ∧ (s.exec op).2.buffers = s.buffers := by
  obtain ⟨fill, hfills, hrun⟩ := run_deferred hdeferred
  obtain ⟨slot, sq, hlast, heq⟩ := withSqe_room h hroom false fill
  rw [if_neg (by decide)] at heq
  obtain ⟨_, hinited, hbuffers, f, hring, _⟩ := hfills { s with ring := { s.ring with sq } } slot
  unfold exec
  rw [hrun, heq]
  refine ⟨f (initializeSqe s.ring.nextSqe), rfl, ?_, hinited, hbuffers⟩
  dsimp only
  rw [hring]
  exact (hlast.modify f).toQueue

theorem exec_deferred_full {op : Op} (h : Queue k s.ring.sq head queue lag)
    (hfull : ¬queue.length < 2 ^ k) (hdeferred : op.isDeferred s)
    : (s.exec op).1 = -1 := by
  obtain ⟨fill, hfills, hrun⟩ := run_deferred hdeferred
  unfold exec
  rw [hrun, withSqe_full h hfull]

theorem isDeferred_congr {s' : IoUring} (hinited : s'.isInited = s.isInited)
    (hbuffers : s'.buffers = s.buffers) (op : Op)
    : op.isDeferred s' = op.isDeferred s := by
  cases op with
  | submitAsyncReadGroup fd group cb opt =>
    simp only [Op.isDeferred, isBufferValid, hinited, hbuffers]
  | _ => simp only [Op.isDeferred, hinited]

-- Whether any of the calls finds the ring full depends on their count only.
theorem execAll_deferred_iff {ops : List Op} (h : Queue k s.ring.sq head queue lag)
    (hdeferred : ∀ op ∈ ops, op.isDeferred s)
    : (∀ ret ∈ (s.execAll ops).1, ret ≠ -1) ↔ queue.length + ops.length ≤ 2 ^ k := by
  have hfits := h.fits
  induction ops generalizing s queue with
  | nil => simpa [execAll] using hfits
  | cons first ops ih =>
    have hop := hdeferred first List.mem_cons_self
    rw [execAll_cons, List.forall_mem_cons, List.length_cons]
    by_cases hroom : queue.length < 2 ^ k
    . obtain ⟨q, hret, hqueue, hinited, hbuffers⟩ := exec_deferred h hroom hop
      have hrest : ∀ op ∈ ops, op.isDeferred (s.exec first).2 := by
        intro op hop
        rw [isDeferred_congr hinited hbuffers]
        exact hdeferred op (List.mem_cons_of_mem _ hop)
      refine (and_congr_right' (ih hqueue hrest hqueue.fits)).trans ?_
      rw [hret, List.length_append, List.length_singleton]
      omega
    . rw [exec_deferred_full h hroom hop]
      simp
      omega

end IoUring

open IoUring in
theorem deferred_no_failure_iff (k c sqStart cqStart : Nat) (enters : List EnterRet) (hk : k < 32)
    (hasTimeoutMultishot : Bool) (steps : List Step) (ops : List Op)
    : let s := (World.run
          { uring := .init hasTimeoutMultishot (Wrapper.init k c sqStart cqStart enters) }
          steps).uring
      (∀ op ∈ ops, op.isDeferred s)
        → (s.getIoUringSqe.1.isSome ↔ (s.ring.sq.sqeTail - s.ring.sq.khead).toNat < 2 ^ k)
          ∧ ((∀ ret ∈ (s.execAll ops).1, ret ≠ -1)
            ↔ (s.ring.sq.sqeTail - s.ring.sq.khead).toNat + ops.length ≤ 2 ^ k) := by
  intro s hdeferred
  obtain ⟨hist, head, queue, lag, hqueue, _⟩ :=
    World.run_tracks c sqStart cqStart enters hk hasTimeoutMultishot steps
  rw [hqueue.count]
  exact ⟨getIoUringSqe_isSome_iff hqueue, execAll_deferred_iff hqueue hdeferred⟩

-- Two deferred writes on a ring of one entry. The flush goes through, the second write fails.
def deferredWrites : List Op :=
  [.submitAsyncWrite ⟨3, .tcp⟩ (some ⟨100, [⟨4096, 5⟩]⟩) 1 (some 7) (some ⟨none, false, none⟩),
    .submitAsyncWrite ⟨4, .tcp⟩ (some ⟨200, [⟨8192, 6⟩]⟩) 1 (some 8) (some ⟨none, false, none⟩)]

theorem deferredWrites_fails
    : ((IoUring.init true (Wrapper.init 0 1 0 0 [])).execAll deferredWrites).1 = [0, -1]
        ∧ ((IoUring.init true (Wrapper.init 0 1 0 0 [])).execAll deferredWrites).2.ring.asked
          = [(1, 1)] := by
  decide +kernel

theorem deferredWrites_no_failure
    : ((IoUring.init true (Wrapper.init 1 1 0 0 [])).execAll deferredWrites).1.length = 2
        ∧ ∀ ret ∈ ((IoUring.init true (Wrapper.init 1 1 0 0 [])).execAll deferredWrites).1, ret ≠ -1 :=
  ⟨by decide +kernel,
    (deferred_no_failure_iff 1 1 0 0 [] (by decide) true [] deferredWrites (by decide +kernel)).2.mpr
      (by decide +kernel)⟩

end Uring
end Event
end Ezio
