import Ezio.Event.Epoll.Lemmas.Synced

/-!
This module contains the theorems about what the kernel is asked to watch in a run.
-/

namespace Ezio
namespace Event

open EStateM (Preserves Triple)

-- The calls that are made with a callback and for a file that epoll can watch and that stays open.
def Op.isWatched : Op → Bool
  | .submitAsyncRead fd _ cb _ => cb.isSome && fd.type ≠ .file
  | .submitAsyncReadGroup _ _ cb _ => cb.isSome
  | .submitAsyncWrite fd _ cb _ => cb.isSome && fd.type ≠ .file
  | .submitAsyncAccept _ _ cb => cb.isSome
  | .close _ => false
  | _ => true

-- No submission finds its bit set in `event_info` without anything behind it.
def Entry.isBacked : Entry → Bool
  | .call (.submitAsyncRead fd _ _ _) before => before.backsRead fd.key
  | .call (.submitAsyncReadGroup fd _ _ _) before => before.backsRead fd.key
  | .call (.submitAsyncAccept fd _ _) before => before.backsRead fd.key
  | .call (.submitAsyncWrite fd _ _ _) before => before.backsWrite fd.key
  | _ => true

namespace Epoll.Synced

variable {s s' : Epoll}

theorem exec {r : Int} {op : Op} (h : s.Synced s.evtChangeLst) (hop : op.isWatched = true)
    (hbacked : (Entry.call op s).isBacked = true) (hs : s.exec op = .ok (r, s'))
    : s'.Synced s'.evtChangeLst := by
  cases op with
  | submitAsyncRead fd buf cb opt =>
    simp only [Op.isWatched, Bool.and_eq_true, decide_eq_true_eq] at hop
    obtain ⟨cb, rfl⟩ := Option.isSome_iff_exists.mp hop.1
    exact h.submitAsyncRead hop.2 hbacked hs
  | submitAsyncReadGroup fd group cb opt =>
    obtain ⟨cb, rfl⟩ := Option.isSome_iff_exists.mp hop
    exact h.submitAsyncReadGroup hbacked hs
  | submitAsyncWrite fd buf cb opt =>
    simp only [Op.isWatched, Bool.and_eq_true, decide_eq_true_eq] at hop
    obtain ⟨cb, rfl⟩ := Option.isSome_iff_exists.mp hop.1
    exact h.submitAsyncWrite hop.2 hbacked hs
  | submitAsyncAccept fd hasAddrBuffer cb =>
    obtain ⟨cb, rfl⟩ := Option.isSome_iff_exists.mp hop
    exact h.submitAsyncAccept hbacked hs
  | cancelAsyncRead fd cb => exact h.cancelAsyncRead hs
  | cancelAsyncWrite fd cb => exact h.cancelAsyncWrite hs
  | cancelAsyncAccept fd cb => exact h.cancelAsyncAccept hs
  | submit => exact h.of_same (SameReg.submit hs)
  | registerRingBuffer blockSize blockCount addrs =>
    have hreg := SameReg.registerRingBuffer s blockSize blockCount addrs
    rw [show s.registerRingBuffer blockSize blockCount addrs = (r, s') from Except.ok.inj hs] at hreg
    exact h.of_same hreg
  | unregisterRingBuffer group => exact h.of_same (SameReg.unregisterRingBuffer hs)
  | close fd => cases hop
  | «open» fd =>
    cases hs
    refine { h with isOpen := ?_ }
    intro k
    simp [Kernel.open, Function.update_apply, h.isOpen]

theorem runFrame
    : RunFrame (Op.isWatched ·) (· = [])
        (fun w => w.All (Entry.isBacked ·) → w.poll.Synced w.poll.evtChangeLst) := by
  constructor
  . apply EventFrame.of_handled
    . intro op hop
      apply exec_triple
      . intro w r s hw h hall
        exact (hw hall.of_append).exec hop (hall _ (by simp [World.addLog])) h
      . intro w f hw _ hall
        exact hw hall.of_append
    . intro w sys user log hw hall
      exact hw hall.of_append
    . intro w id a ha hw hall
      obtain ⟨_, _, _, _, _, _, _, _, rfl⟩ := ha
      exact (hw hall).of_same (SameReg.setAction _ rfl)
    . intro w group f hw hall
      exact (hw hall).of_same (SameReg.setBuffers _ _)
    . intro w ready _ hw hall
      exact { hw hall with }
  . intro w hw hall
    exact (hw hall).applyChanges
  . intro w hw hall
    exact { hw hall with }
  . intro w errs herrs hw hall
    exact { hw hall with ctlErrs := herrs }

end Epoll.Synced

-- The kernel watches whatever the `event_action` of a file waits for.
def Epoll.InSync (s : Epoll) : Prop :=
  ∀ k id, s.fdToEventInfo k = some id
    → ((s.infos id).action.isReading = true → s.kernel.hasRead k = true)
      ∧ ((s.infos id).action.isWriting = true → s.kernel.hasWrite k = true)

theorem Epoll.Synced.inSync {s : Epoll} (h : s.Synced []) : s.InSync := by
  intro k id hid
  constructor
  . intro hreading
    exact (h.read k id hid hreading).resolve_left List.not_mem_nil
  . intro hwriting
    exact (h.write k id hid hwriting).resolve_left List.not_mem_nil

/--
The state between two steps that `apply_changes` starts from is the last state of a run.
-/
theorem run_applyChanges_inSync {sts : List Step} {w : World}
    (hcalls : ∀ st ∈ sts, st.Calls (Op.isWatched ·)) (hctl : ∀ st ∈ sts, st.ctlErrs = [])
    (hrun : run sts (World.init fun _ => true) = .ok () w) (hbacked : w.All (Entry.isBacked ·))
    : w.poll.applyChanges.InSync := by
  have hw := (Epoll.Synced.runFrame.run hcalls hctl).of_ok (fun _ => Epoll.Synced.init) hrun
  exact (hw hbacked).applyChanges.inSync

-- A read and a write on the same file, the first of them cancelled once the kernel watches for both.
def cancellingRun : List Step :=
  [.op (.submitAsyncRead ⟨3, .tcp⟩ ⟨false, [⟨4096, 8⟩]⟩ (some 0) none),
    .op (.submitAsyncWrite ⟨3, .tcp⟩ ⟨false, [⟨8192, 8⟩]⟩ (some 1) none),
    .dispatch (some []) [] [] [],
    .op (.cancelAsyncWrite ⟨3, .tcp⟩ (some 2)),
    .dispatch (some []) [] [] [],
    .op (.submitAsyncWrite ⟨3, .tcp⟩ ⟨false, [⟨8192, 8⟩]⟩ (some 1) none)]

theorem cancellingRun_applyChanges_inSync
    : ∃ w, run cancellingRun (World.init fun _ => true) = .ok () w
        ∧ (w.poll.applyChanges.infos 0).action.isWriting = true ∧ w.poll.applyChanges.InSync := by
  have hrun := EStateM.Result.eq_ok_of_isOk
    (show (run cancellingRun (World.init fun _ => true)).isOk by decide +kernel)
  refine ⟨_, hrun, by decide +kernel, ?_⟩
  exact run_applyChanges_inSync (by decide +kernel) (by decide +kernel) hrun (by decide +kernel)

-- The write that is cancelled before the change of the read is applied is never registered again: the
-- change reaches the kernel without it, and its bit stays set in `event_info`.
def resubmittingRun : List Step :=
  [.op (.submitAsyncWrite ⟨3, .tcp⟩ ⟨false, [⟨8192, 8⟩]⟩ (some 1) none),
    .op (.submitAsyncRead ⟨3, .tcp⟩ ⟨false, [⟨4096, 8⟩]⟩ (some 0) none),
    .op (.cancelAsyncWrite ⟨3, .tcp⟩ (some 2)),
    .dispatch (some []) [] [] [],
    .op (.submitAsyncWrite ⟨3, .tcp⟩ ⟨false, [⟨8192, 8⟩]⟩ (some 1) none)]

theorem run_applyChanges_not_inSync
    : ∃ w, run resubmittingRun (World.init fun _ => true) = .ok () w
        ∧ (∀ st ∈ resubmittingRun, st.Calls (Op.isWatched ·)) ∧ (∀ st ∈ resubmittingRun, st.ctlErrs = [])
        ∧ w.poll.applyChanges.fdToEventInfo 3 = some 0
        ∧ (w.poll.applyChanges.infos 0).action.isWriting = true
        ∧ w.poll.applyChanges.kernel.hasWrite 3 = false := by
  have hrun := EStateM.Result.eq_ok_of_isOk
    (show (run resubmittingRun (World.init fun _ => true)).isOk by decide +kernel)
  exact ⟨_, hrun, by decide +kernel, by decide +kernel, by decide +kernel, by decide +kernel,
    by decide +kernel⟩

end Event
end Ezio
