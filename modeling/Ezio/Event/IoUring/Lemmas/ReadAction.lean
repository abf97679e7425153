import Ezio.Event.IoUring.Lemmas.CancelTarget

/-!
This module contains what leaves the `complete_action` of the reads of a file descriptor alone: the
operations on other file descriptors, the writes and the timers.
-/

namespace Ezio
namespace Event
namespace Uring

open IoUring

-- The operations that use the `complete_action` of the reads of the file descriptor with this key.
def Op.usesReads (key : Nat) : Op → Bool
  | .submitAsyncRead fd _ _ _ _ => fd.key = key
  | .submitAsyncReadGroup fd _ _ _ => fd.key = key
  | .submitAsyncAccept fd _ _ => fd.key = key
  | _ => false

namespace IoUring

-- The `complete_action` of the reads of the file descriptor with this key.
def readAction (s : IoUring) (key : Nat) : Option Nat :=
  (s.fdToEventInfo key).bind (·.readCompleteAction)

theorem readAction_eq_some_iff (s : IoUring) (key a : Nat)
    : s.readAction key = some a ↔ s.Owns key .read a := by
  unfold readAction Owns
  cases s.fdToEventInfo key with
  | none => simp
  | some info => simp [IouringEventInfo.get]

-- The `complete_action` of the reads is the same one and has not changed.
structure Spares (key : Nat) (s s' : IoUring) : Prop where
  readAction : s'.readAction key = s.readAction key
  actions : ∀ a, s.readAction key = some a → s'.actions a = s.actions a

-- An operation has no effect on the reads, and the entry that it prepares is not one of theirs.
structure SparesRing (key : Nat) (s s' : IoUring) : Prop extends Spares key s s' where
  effect : ∃ ret, Effect (Labels s none fun a => s'.readAction key ≠ some a) s.ring ret s'.ring

variable {key : Nat} {s s' s'' : IoUring} {I : Nat → Kind → Option ActionCallback → Prop}

theorem Spares.refl (s : IoUring) : Spares key s s := ⟨rfl, fun _ _ => rfl⟩

theorem Spares.trans (h : Spares key s s') (h' : Spares key s' s'') : Spares key s s'' := by
  refine ⟨h'.readAction.trans h.readAction, ?_⟩
  intro a ha
  rw [h'.actions a (h.readAction.trans ha), h.actions a ha]

theorem SameHeap.spares (h : SameHeap s s') : Spares key s s' := by
  refine ⟨?_, fun a _ => congrFun h.actions a⟩
  unfold IoUring.readAction
  rw [h.fdToEventInfo]

theorem Edits.spares {action : Nat} (h : Edits action s s') (hne : s.readAction key ≠ some action)
    : Spares key s s' := by
  refine ⟨?_, ?_⟩
  . unfold IoUring.readAction
    rw [h.fdToEventInfo]
  . intro a ha
    apply h.others
    intro heq
    rw [heq] at ha
    exact hne ha

theorem SparesRing.of_quiet (h : Spares key s s') (hring : s'.ring = s.ring) : SparesRing key s s' := by
  refine ⟨h, -1, ?_⟩
  rw [hring]
  exact Effect.same (-1)

theorem SparesRing.refl (s : IoUring) : SparesRing key s s := .of_quiet (Spares.refl s) rfl

-- A `complete_action` is made for another use.
theorem getCompleteAction_spares {info : IouringEventInfo} {fd : Fd} {kind : Kind} (hheap : Heap I s)
    (hinfo : s.fdToEventInfo fd.key = some info ∨ s.fdToEventInfo fd.key = none ∧ info = {})
    (hother : fd.key = key → kind ≠ .read)
    : Spares key s (s.getCompleteAction fd info kind).2 := by
  unfold getCompleteAction
  cases hget : info.get kind with
  | some a => exact .refl s
  | none =>
    refine ⟨?_, ?_⟩
    . unfold IoUring.readAction
      dsimp only
      by_cases hkey : key = fd.key
      . rw [hkey, Function.update_self]
        have hread : (info.set kind (s.newAction (makeAction kind fd)).1).readCompleteAction
            = info.readCompleteAction := by
          cases kind with
          | read => exact absurd rfl (hother hkey.symm)
          | write => rfl
          | cancelRead => rfl
          | cancelWrite => rfl
        rw [Option.bind_some, hread]
        rcases hinfo with hsome | ⟨hnone, hempty⟩
        . rw [hsome, Option.bind_some]
        . rw [hnone, hempty]
          rfl
      . rw [Function.update_of_ne hkey]
        rfl
    . intro a ha
      have hlt := (hheap.alive key .read a ((s.readAction_eq_some_iff key a).mp ha)).1
      exact Function.update_of_ne (Nat.ne_of_lt hlt) ..

theorem findOrInsert_spares {fd : Fd} {kind : Kind} (hheap : Heap I s)
    (hother : fd.key = key → kind ≠ .read)
    : Spares key s (s.findOrInsert fd kind).2 := by
  unfold IoUring.findOrInsert
  cases hinfo : s.fdToEventInfo fd.key with
  | some info => exact getCompleteAction_spares hheap (.inl hinfo) hother
  | none => exact getCompleteAction_spares hheap (.inr ⟨hinfo, rfl⟩) hother

-- What belongs to another use is not the `complete_action` of the reads.
theorem Heap.readAction_ne {a : Nat} {key' : Nat} {kind : Kind} (hheap : Heap I s)
    (hown : s.Owns key' kind a) (hother : key' = key → kind ≠ .read)
    : s.readAction key ≠ some a := by
  intro ha
  obtain ⟨hkey, hkind⟩ := hheap.inj key .read key' kind a ((s.readAction_eq_some_iff key a).mp ha) hown
  exact hother hkey.symm hkind.symm

theorem withSqe_spares {fd : Fd} {kind : Kind} {fill : IoUring → Nat → IoUring} (isSubmit : Bool)
    (hheap : Heap (fun _ _ _ => True) s) (hgrows : Heap (fun _ _ _ => True) (s.withSqe isSubmit fill).2)
    (honly : FillsOnly fd kind fill) (hfills : FillsBy (SetsTo fun s => (s.findOrInsert fd kind).1) fill)
    (hother : fd.key = key → kind ≠ .read)
    : SparesRing key s (s.withSqe isSubmit fill).2 := by
  have hlabels : Effect (Labels s none _) s.ring _ _ := withSqe_labels isSubmit honly.owned hfills
  refine ⟨?_, _, hlabels.mono fun f hf => hf.mono fun _ a ha => hgrows.readAction_ne ha hother⟩
  unfold withSqe
  rw [getIoUringSqe_eq]
  cases s.ring.getIoUringSqe s.msghdrs with
  | mk slot ring =>
    have hring : SameHeap s { s with ring } := ⟨rfl, rfl, rfl, rfl⟩
    cases slot with
    | none => exact hring.spares
    | some slot =>
      have hheap' := hheap.same hring
      have hfound := hheap'.findOrInsert fd kind fun _ _ => trivial
      have hfilled : Spares key s (fill { s with ring } slot) :=
        (hring.spares.trans (findOrInsert_spares hheap' hother)).trans
          ((honly { s with ring } slot).spares (hfound.1.heap.readAction_ne hfound.2 hother))
      cases isSubmit with
      | false => exact hfilled
      | true =>
        have hsubmit : SameHeap (fill { s with ring } slot) (fill { s with ring } slot).submitRing.2 :=
          ⟨rfl, rfl, rfl, rfl⟩
        exact hfilled.trans hsubmit.spares

-- A `complete_action` is released that nothing owns.
theorem Spares.free {a : Nat} (h : Spares key s s') (hfree : s'.readAction key ≠ some a)
    : Spares key s { s' with actions := Function.update s'.actions a none } := by
  refine ⟨h.readAction, ?_⟩
  intro b hb
  have hne : b ≠ a := by
    intro heq
    rw [← heq] at hfree
    exact hfree (h.readAction.trans hb)
  exact (Function.update_of_ne hne ..).trans (h.actions b hb)

theorem Heap.timer_ne_readAction {t a : Nat} (hheap : Heap I s) (htimer : s.idToTimer t = some a)
    : s.readAction key ≠ some a := by
  intro ha
  exact (hheap.timers t a htimer).2 key .read ((s.readAction_eq_some_iff key a).mp ha)

theorem storeTimer_spares {a : Nat} (hheap : Heap I s) : Spares key s (s.storeTimer a) := by
  refine ⟨rfl, ?_⟩
  intro b hb
  rw [storeTimer_actions, if_neg]
  intro htimer
  exact hheap.timer_ne_readAction htimer hb

theorem createTimer_spares (hheap : Heap (fun _ _ _ => True) s) (intervalS intervalNs : Nat)
    (cb : Option Callback)
    : SparesRing key s (s.createTimer intervalS intervalNs cb).2 := by
  cases cb with
  | none => exact .refl s
  | some cb =>
    by_cases hsome : intervalS = 0 ∧ intervalNs = 0
    . unfold createTimer
      dsimp only
      rw [if_pos hsome]
      exact .refl s
    . obtain ⟨hnew, hfree⟩ := hheap.newAction { callback := some (.timer cb intervalS intervalNs) }
      have hsame := submitTimeout_same (s.newAction { callback := some (.timer cb intervalS intervalNs) }).2
        intervalS intervalNs s.nextAction
      have heffect : Effect _ s.ring _ _ := submitTimeout_effect
        (s.newAction { callback := some (.timer cb intervalS intervalNs) }).2 intervalS intervalNs
        s.nextAction
      have hnone : s.readAction key ≠ some s.nextAction := by
        intro ha
        exact Nat.lt_irrefl _ (hheap.alive key .read _ ((s.readAction_eq_some_iff key _).mp ha)).1
      have hspares : Spares key s (s.newAction { callback := some (.timer cb intervalS intervalNs) }).2 := by
        refine ⟨rfl, ?_⟩
        intro a ha
        apply Function.update_of_ne
        intro heq
        rw [heq] at ha
        exact hnone ha
      rw [createTimer_of_valid cb hsome]
      dsimp only
      generalize (s.newAction { callback := some (.timer cb intervalS intervalNs) }).2.submitTimeout
        intervalS intervalNs s.nextAction = r at hsame heffect ⊢
      have hsubmitted := hspares.trans hsame.spares
      have hne : r.2.readAction key ≠ some s.nextAction := by
        rw [hsubmitted.readAction]
        exact hnone
      have hlabels : ∀ s' : IoUring, s'.readAction key = r.2.readAction key
          → Effect (Labels s none fun a => s'.readAction key ≠ some a) s.ring r.1 r.2.ring := by
        intro s' heq
        refine heffect.mono fun f hf => .inr ⟨s.nextAction, hf.2, fun _ => ?_⟩
        rw [heq]
        exact hne
      by_cases hzero : r.1 = 0
      . rw [if_pos hzero]
        have hstore : Spares key r.2 (r.2.storeTimer s.nextAction) :=
          storeTimer_spares (hnew.same hsame).heap
        exact ⟨hsubmitted.trans hstore, r.1, hlabels _ hstore.readAction⟩
      . rw [if_neg hzero]
        exact ⟨hsubmitted.free hne, r.1, hlabels _ rfl⟩

theorem closeTimer_spares {timerId : Nat} (hheap : Heap I s) (hown : (Op.closeTimer timerId).own s = none)
    : SparesRing key s (s.closeTimer timerId).2 := by
  cases htimer : s.idToTimer timerId with
  | none =>
    unfold closeTimer
    rw [htimer]
    exact .refl s
  | some a =>
    have hshot : s.hasTimeoutMultishot = false := by
      cases hshot : s.hasTimeoutMultishot with
      | false => rfl
      | true => simp [Op.own, hshot, htimer] at hown
    have hne : s.readAction key ≠ some a := hheap.timer_ne_readAction htimer
    have hclear : Spares key s (s.clearAction a) := (Edits.modifyAction s a _).spares hne
    rw [closeTimer_of_timer htimer, hshot, if_neg Bool.false_ne_true]
    refine .of_quiet ?_ rfl
    have hfreed := hclear.free (a := a) (by rw [hclear.readAction]; exact hne)
    exact ⟨hfreed.readAction, hfreed.actions⟩

theorem run_spares {op : Op} (hheap : Heap (fun _ _ _ => True) s) (hown : op.own s = none)
    (hother : op.usesReads key = false)
    : SparesRing key s (s.run op).2 := by
  have hgrows : Grows (fun _ _ _ => True) s (s.run op).2 :=
    run_grows hheap (fun _ _ => trivial) fun _ _ _ _ => trivial
  have hgrown := hgrows.heap
  cases op with
  | submitAsyncRead fd buffer cnt cb opt =>
    unfold run submitAsyncRead at hgrown ⊢
    dsimp only at hgrown ⊢
    revert hgrown
    split
    . exact fun _ => .refl s
    . intro hgrown
      exact withSqe_spares _ hheap hgrown (fillRead_only fd buffer cnt cb opt)
        (fillRead_fills fd buffer cnt cb opt) fun hkey => absurd hkey (of_decide_eq_false hother)
  | submitAsyncReadGroup fd group cb opt =>
    unfold run submitAsyncReadGroup at hgrown ⊢
    dsimp only at hgrown ⊢
    revert hgrown
    split
    . exact fun _ => .refl s
    . intro hgrown
      exact withSqe_spares _ hheap hgrown (fillReadGroup_only fd group cb _)
        (fillReadGroup_fills fd group cb _) fun hkey => absurd hkey (of_decide_eq_false hother)
  | submitAsyncWrite fd buffer cnt cb opt =>
    unfold run submitAsyncWrite at hgrown ⊢
    dsimp only at hgrown ⊢
    revert hgrown
    split
    . exact fun _ => .refl s
    . intro hgrown
      exact withSqe_spares _ hheap hgrown (fillWrite_only fd buffer cnt cb opt)
        (fillWrite_fills fd buffer cnt cb opt) fun _ => Kind.noConfusion
  | submitAsyncAccept fd addr cb =>
    unfold run submitAsyncAccept at hgrown ⊢
    cases addr with
    | none => exact .refl s
    | some addr =>
      dsimp only at hgrown ⊢
      revert hgrown
      split
      . exact fun _ => .refl s
      . intro hgrown
        exact withSqe_spares true hheap hgrown (fillAccept_only fd addr cb) (fillAccept_fills fd addr cb)
          fun hkey => absurd hkey (of_decide_eq_false hother)
  | cancelAsyncRead fd cb =>
    unfold run cancelAsyncRead
    dsimp only
    rw [cancelAsync_of_own_none _ _ hown]
    exact .refl s
  | cancelAsyncWrite fd cb =>
    unfold run cancelAsyncWrite
    dsimp only
    rw [cancelAsync_of_own_none _ _ hown]
    exact .refl s
  | cancelAsyncAccept fd cb =>
    unfold run cancelAsyncAccept
    dsimp only
    rw [cancelAsync_of_own_none _ _ hown]
    exact .refl s
  | createTimer intervalS intervalNs cb => exact createTimer_spares hheap intervalS intervalNs cb
  | closeTimer timerId => exact closeTimer_spares hheap hown
  | submit =>
    refine ⟨(submit_same s).spares, -1, ?_⟩
    unfold run submit
    dsimp only
    split
    . exact Effect.flushed s.msghdrs (-1)
    . exact Effect.same (-1)
  | registerRingBuffer blockSize blockCount setup addrs =>
    exact .of_quiet (registerRingBuffer_same s blockSize blockCount setup addrs).spares
      (registerRingBuffer_quiet blockSize blockCount setup addrs).ring
  | unregisterRingBuffer group freed =>
    exact .of_quiet (unregisterRingBuffer_same s group freed).spares
      (unregisterRingBuffer_quiet group freed).ring

end IoUring

end Uring
end Event
end Ezio
