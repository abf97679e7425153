import Ezio.Event.EventLoop.Ledger
import Mathlib.Data.List.Infix

/-!
This module contains the execution of the jobs that are posted by `run_in_event_loop`, in every interleaving of
the thread of the loop with the threads that post.
-/

namespace Ezio
namespace Event
namespace EventLoop

variable {J : Type} {w w' : EventLoop J} {q : Queue} {a : Action J}

def ids (jobs : List (Job J)) : List Nat :=
  jobs.map (·.id)

-- The jobs of a queue that have not been run.
def waiting (w : EventLoop J) : Queue → List Nat
  | .sameThread =>
    match w.pc with
    | .sameThreadJob .. => ids w.sameThreadPendingFuncs.tail
    | _ => ids w.sameThreadPendingFuncs
  | .otherThread =>
    match w.pc with
    | .otherThreadJob i => ids (w.otherThreadJobSwapCacheVec.drop (i + 1)) ++ ids w.otherThreadPendingFuncs
    | _ => ids w.otherThreadPendingFuncs

-- The jobs of a queue that the current `loop_once` has still to run.
def due (w : EventLoop J) : Queue → List Nat
  | .sameThread =>
    match w.pc with
    | .sameThreadJob i cnt => ids (w.sameThreadPendingFuncs.take (cnt - i)).tail
    | _ => []
  | .otherThread =>
    match w.pc with
    | .swap => ids w.otherThreadPendingFuncs
    | .otherThreadJob i => ids (w.otherThreadJobSwapCacheVec.drop (i + 1))
    | _ => []

-- No job is running or about to run.
def Pc.plain : Pc → Bool
  | sameThreadJob .. | swap | otherThreadJob _ => false
  | _ => true

structure Accounted (w : EventLoop J) : Prop where
  ledger : Ledger w.log w.nextJob w.waiting w.due
  cache : (∀ i, w.pc ≠ .otherThreadJob i) → w.otherThreadJobSwapCacheVec = []
  count : ∀ i cnt, w.pc = .sameThreadJob i cnt → i < cnt ∧ cnt - i ≤ w.sameThreadPendingFuncs.length

-- The queues and what is known about them are the same.
structure SameJobs (w w' : EventLoop J) : Prop where
  sameThread : w'.sameThreadPendingFuncs = w.sameThreadPendingFuncs
  otherThread : w'.otherThreadPendingFuncs = w.otherThreadPendingFuncs
  cache : w'.otherThreadJobSwapCacheVec = w.otherThreadJobSwapCacheVec
  nextJob : w'.nextJob = w.nextJob
  log : w'.log = w.log

theorem SameJobs.refl (w : EventLoop J)
    : SameJobs w w :=
  ⟨rfl, rfl, rfl, rfl, rfl⟩

-- A state with the same jobs in which the thread of the loop is at a place that is about as many of them.
theorem Accounted.of_sameJobs (h : w.Accounted) (hsame : SameJobs w w') (hpc : w'.pc = w.pc)
    : w'.Accounted := by
  have hwaiting : w'.waiting = w.waiting := by
    funext q
    cases q <;> simp only [waiting, hpc, hsame.sameThread, hsame.otherThread, hsame.cache]
  have hdue : w'.due = w.due := by
    funext q
    cases q <;> simp only [due, hpc, hsame.sameThread, hsame.otherThread, hsame.cache]
  refine ⟨?_, ?_, ?_⟩
  . rw [hsame.log, hsame.nextJob, hwaiting, hdue]
    exact h.ledger
  . rw [hpc, hsame.cache]
    exact h.cache
  . rw [hpc, hsame.sameThread]
    exact h.count

theorem waiting_of_plain (hpc : w.pc.plain)
    : w.waiting .sameThread = ids w.sameThreadPendingFuncs
      ∧ w.waiting .otherThread = ids w.otherThreadPendingFuncs := by
  cases hw : w.pc <;> simp_all [Pc.plain, waiting]

theorem due_of_plain (hpc : w.pc.plain) (q : Queue)
    : w.due q = [] := by
  cases q <;> cases hw : w.pc <;> simp_all [Pc.plain, due]

theorem Accounted.cache_of_plain (h : w.Accounted) (hpc : w.pc.plain)
    : w.otherThreadJobSwapCacheVec = [] := by
  apply h.cache
  intro i hi
  rw [hi] at hpc
  cases hpc

-- The thread of the loop goes from one place without jobs to another, the log tells so.
theorem Accounted.of_plain (hpc : w.pc.plain) (hpc' : w'.pc.plain) (h : w.Accounted)
    (hsame : w'.sameThreadPendingFuncs = w.sameThreadPendingFuncs)
    (hother : w'.otherThreadPendingFuncs = w.otherThreadPendingFuncs)
    (hcache : w'.otherThreadJobSwapCacheVec = w.otherThreadJobSwapCacheVec)
    (hledger : Ledger w'.log w'.nextJob w.waiting w.due)
    : w'.Accounted := by
  have hwaiting : w'.waiting = w.waiting := by
    obtain ⟨h₁, h₂⟩ := waiting_of_plain hpc
    obtain ⟨h₁', h₂'⟩ := waiting_of_plain hpc'
    funext q
    cases q
    . rw [h₁, h₁', hsame]
    . rw [h₂, h₂', hother]
  have hdue : w'.due = w.due := by
    funext q
    rw [due_of_plain hpc, due_of_plain hpc']
  refine ⟨?_, ?_, ?_⟩
  . rw [hwaiting, hdue]
    exact hledger
  . rw [hcache]
    exact fun _ => h.cache_of_plain hpc
  . intro i cnt hi
    rw [hi] at hpc'
    cases hpc'

theorem Accounted.of_plain_sameJobs (hpc : w.pc.plain) (hpc' : w'.pc.plain) (h : w.Accounted)
    (hsame : SameJobs w w')
    : w'.Accounted := by
  apply h.of_plain hpc hpc' hsame.sameThread hsame.otherThread hsame.cache
  rw [hsame.log, hsame.nextJob]
  exact h.ledger

/-! ### What the functions of the loop do to the jobs -/

theorem addInstruction_sameJobs (w : EventLoop J) (h : Handler) (instruction : ElInstruction)
    : SameJobs w (w.addInstruction h instruction) ∧ (w.addInstruction h instruction).pc = w.pc := by
  unfold addInstruction
  split
  . exact ⟨⟨rfl, rfl, rfl, rfl, rfl⟩, rfl⟩
  . exact ⟨.refl w, rfl⟩

theorem openLoop_sameJobs (w : EventLoop J) (param : PollParam) (results : OpenResults)
    : SameJobs w (w.openLoop param results).1 ∧ (w.openLoop param results).1.pc = w.pc := by
  unfold openLoop openNotifier submitReadRequest
  dsimp only
  repeat' split
  all_goals exact ⟨⟨rfl, rfl, rfl, rfl, rfl⟩, rfl⟩

theorem startLoop_sameJobs (w : EventLoop J) (t : Nat)
    : SameJobs w (w.startLoop t) ∧ ((w.startLoop t).pc = w.pc ∨ (w.startLoop t).pc = .starting) := by
  unfold startLoop
  split
  . exact ⟨⟨rfl, rfl, rfl, rfl, rfl⟩, .inr rfl⟩
  . exact ⟨.refl w, .inl rfl⟩

theorem complete_sameJobs (w : EventLoop J) (r : Request) (raise : Handler → Bool)
    : SameJobs w (w.complete r raise) ∧ (w.complete r raise).pc = w.pc := by
  cases r <;> exact ⟨⟨rfl, rfl, rfl, rfl, rfl⟩, rfl⟩

theorem runFunc_sameJobs (w : EventLoop J) (func : PendingFunc J)
    : SameJobs w (w.runFunc func) := by
  cases func <;> exact ⟨rfl, rfl, rfl, rfl, rfl⟩

theorem processNewInstruction_sameJobs (w : EventLoop J) (infos : List EventInfo)
    : SameJobs w (w.processNewInstruction infos) ∧ (w.processNewInstruction infos).pc.plain := by
  unfold processNewInstruction processRemoveInstruction processAddInstruction
  split
  . exact ⟨⟨rfl, rfl, rfl, rfl, rfl⟩, rfl⟩
  . dsimp only
    repeat' split
    all_goals exact ⟨⟨rfl, rfl, rfl, rfl, rfl⟩, rfl⟩

theorem handleBusyPolls_sameJobs (w : EventLoop J) (hs : List Handler)
    : SameJobs w (w.handleBusyPolls hs) ∧ (w.handleBusyPolls hs).pc.plain := by
  cases hs <;> exact ⟨⟨rfl, rfl, rfl, rfl, rfl⟩, rfl⟩

-- The fields that tell about jobs after a post.
theorem runInEventLoop_cases (w : EventLoop J) (t : Nat) (job : Option (PendingFunc J))
    : (w.runInEventLoop t job).1 = w
      ∨ ∃ q func, let w' := (w.runInEventLoop t job).1
        w'.pc = w.pc ∧ w'.nextJob = w.nextJob + 1 ∧ w'.log = w.log ++ [Entry.posts q w.nextJob]
        ∧ w'.otherThreadJobSwapCacheVec = w.otherThreadJobSwapCacheVec
        ∧ (q = Queue.sameThread ∧ some t = w.threadId
            ∧ w'.sameThreadPendingFuncs = w.sameThreadPendingFuncs ++ [⟨w.nextJob, func⟩]
            ∧ w'.otherThreadPendingFuncs = w.otherThreadPendingFuncs
          ∨ q = Queue.otherThread ∧ w'.sameThreadPendingFuncs = w.sameThreadPendingFuncs
            ∧ w'.otherThreadPendingFuncs = w.otherThreadPendingFuncs ++ [⟨w.nextJob, func⟩]) := by
  cases job with
  | none => exact .inl rfl
  | some func =>
    right
    by_cases hsame : some t = w.threadId
    . refine ⟨Queue.sameThread, func, ?_⟩
      simp [runInEventLoop, hsame, addLog]
    . refine ⟨Queue.otherThread, func, ?_⟩
      by_cases hopen : w.ntfEvt.isSome <;> simp [runInEventLoop, hsame, wakeUp, notify, addLog, hopen]

theorem Accounted.runInEventLoop_due (h : w.Accounted) (t : Nat) (job : Option (PendingFunc J)) (q : Queue)
    : w.due q <+: (w.runInEventLoop t job).1.due q := by
  rcases runInEventLoop_cases w t job with heq | ⟨q', func, hpc, -, -, hcache, hqueue⟩
  . rw [heq]
  generalize (w.runInEventLoop t job).1 = w' at *
  cases q with
  | sameThread =>
    cases hw : w.pc with
    | sameThreadJob i cnt =>
      have hcnt := (h.count i cnt hw).2
      simp only [due, hpc, hw]
      rcases hqueue with ⟨-, -, hsame, -⟩ | ⟨-, hsame, -⟩
      . rw [hsame, List.take_append_of_le_length hcnt]
      . rw [hsame]
    | _ => simp [due, hw]
  | otherThread =>
    cases hw : w.pc with
    | swap =>
      simp only [due, hpc, hw]
      rcases hqueue with ⟨-, -, -, hother⟩ | ⟨-, -, hother⟩
      . rw [hother]
      . rw [hother, ids, ids, List.map_append]
        exact List.prefix_append _ _
    | otherThreadJob i =>
      simp only [due, hpc, hw, hcache]
      exact List.prefix_rfl
    | _ => simp [due, hw]

theorem Accounted.runInEventLoop (h : w.Accounted) (t : Nat) (job : Option (PendingFunc J))
    : (w.runInEventLoop t job).1.Accounted := by
  have hdue := h.runInEventLoop_due t job
  rcases runInEventLoop_cases w t job with heq | ⟨q, func, hpc, hnext, hlog, hcache, hqueue⟩
  . rw [heq]
    exact h
  generalize (w.runInEventLoop t job).1 = w' at *
  have hwait : w'.waiting q = w.waiting q ++ [w.nextJob] ∧ ∀ q', q' ≠ q → w'.waiting q' = w.waiting q' := by
    rcases hqueue with ⟨rfl, -, hsame, hother⟩ | ⟨rfl, hsame, hother⟩
    . constructor
      . unfold waiting
        rw [hpc, hsame]
        cases hw : w.pc with
        | sameThreadJob i cnt =>
          have hcnt := h.count i cnt hw
          have hne : w.sameThreadPendingFuncs ≠ [] := List.ne_nil_of_length_pos (by omega)
          simp [ids, List.tail_append_of_ne_nil hne]
        | _ => simp [ids]
      . intro q' hq'
        cases q' with
        | sameThread => exact absurd rfl hq'
        | otherThread => simp only [waiting, hpc, hother, hcache]
    . constructor
      . unfold waiting
        rw [hpc, hother, hcache]
        cases hw : w.pc <;> simp [ids]
      . intro q' hq'
        cases q' with
        | sameThread => simp only [waiting, hpc, hsame]
        | otherThread => exact absurd rfl hq'
  refine ⟨?_, ?_, ?_⟩
  . rw [hlog, hnext]
    exact h.ledger.posts hwait.1 hwait.2 fun q' id hid => (hdue q').subset hid
  . rw [hpc, hcache]
    exact h.cache
  . intro i cnt hi
    rw [hpc] at hi
    obtain ⟨hlt, hcnt⟩ := h.count i cnt hi
    refine ⟨hlt, Nat.le_trans hcnt ?_⟩
    rcases hqueue with ⟨-, -, hsame, -⟩ | ⟨-, hsame, -⟩
    . rw [hsame, List.length_append]
      omega
    . exact Nat.le_of_eq (congrArg List.length hsame.symm)

/-! ### The steps of the thread of the loop that run jobs -/

theorem tick_of_sameThreadJobs (hpc : w.pc = .sameThreadJobs)
    : w.tick
      = if w.sameThreadPendingFuncs = [] then
          { w.addLog (.drains .sameThread (ids w.sameThreadPendingFuncs)) with pc := .dispatch }
        else
          (w.addLog (.drains .sameThread (ids w.sameThreadPendingFuncs))).runSameThreadJob 0
            (w.sameThreadPendingFuncs.length % 2 ^ 32) := by
  unfold tick
  rw [hpc]
  rfl

theorem tick_of_sameThreadJob {i cnt : Nat} (hpc : w.pc = .sameThreadJob i cnt)
    : w.tick
      = runSameThreadJob { w with sameThreadPendingFuncs := w.sameThreadPendingFuncs.tail } (i + 1) cnt := by
  unfold tick
  rw [hpc]

theorem tick_of_dispatch (hpc : w.pc = .dispatch)
    : w.tick = { w.addLog (.dispatches w.timeoutMs) with pc := .dispatching false } := by
  unfold tick
  rw [hpc]

theorem tick_of_otherThreadJobs (hpc : w.pc = .otherThreadJobs)
    : w.tick
      = if w.otherThreadPendingFuncs = [] then
          (w.addLog (.drains .otherThread (ids w.otherThreadPendingFuncs))).endLoopOnce
        else
          { w.addLog (.drains .otherThread (ids w.otherThreadPendingFuncs)) with pc := .swap } := by
  unfold tick
  rw [hpc]
  rfl

theorem tick_of_swap (hpc : w.pc = .swap)
    : w.tick
      = runOtherThreadJob { w with
          otherThreadPendingFuncs := w.otherThreadJobSwapCacheVec
          otherThreadJobSwapCacheVec := w.otherThreadPendingFuncs } 0 := by
  unfold tick
  rw [hpc]

theorem tick_of_otherThreadJob {i : Nat} (hpc : w.pc = .otherThreadJob i)
    : w.tick = w.runOtherThreadJob (i + 1) := by
  unfold tick
  rw [hpc]

-- The loop over the jobs of the own thread, `due` are the ones that are left.
theorem accounted_runSameThreadJob {wait due : Queue → List Nat} {i cnt : Nat}
    (hledger : Ledger w.log w.nextJob wait due) (hcache : w.otherThreadJobSwapCacheVec = [])
    (hcnt : cnt - i ≤ w.sameThreadPendingFuncs.length)
    (hwait : wait .sameThread = ids w.sameThreadPendingFuncs)
    (hdue : due .sameThread = ids (w.sameThreadPendingFuncs.take (cnt - i)))
    (hwaitOther : wait .otherThread = ids w.otherThreadPendingFuncs) (hdueOther : due .otherThread = [])
    : (w.runSameThreadJob i cnt).Accounted := by
  unfold runSameThreadJob
  by_cases hi : i < cnt
  . rw [if_pos hi]
    obtain ⟨job, rest, hqueue⟩ := List.exists_cons_of_length_pos (show 0 < w.sameThreadPendingFuncs.length by omega)
    obtain ⟨m, hm⟩ : ∃ m, cnt - i = m + 1 := ⟨cnt - i - 1, by omega⟩
    have hfunc := runFunc_sameJobs (w.addLog (Entry.runs .sameThread job.id)) job.func
    rw [hqueue] at hwait hdue
    rw [hm, List.take_succ_cons] at hdue
    simp only [hqueue]
    generalize (w.addLog (Entry.runs .sameThread job.id)).runFunc job.func = w₁ at *
    have hsame : w₁.sameThreadPendingFuncs = job :: rest := hfunc.sameThread.trans hqueue
    have hother : w₁.otherThreadPendingFuncs = w.otherThreadPendingFuncs := hfunc.otherThread
    have hlog : w₁.log = w.log ++ [Entry.runs .sameThread job.id] := hfunc.log
    have hnext : w₁.nextJob = w.nextJob := hfunc.nextJob
    refine ⟨?_, ?_, ?_⟩
    . simp only [hlog, hnext]
      apply hledger.runs
      . simp only [waiting, hsame, List.tail_cons, hwait]
        rfl
      . simp only [EventLoop.due, hsame, hm, List.take_succ_cons, List.tail_cons, hdue]
        rfl
      . intro q' hq'
        cases q' with
        | sameThread => exact absurd rfl hq'
        | otherThread => simp only [waiting, EventLoop.due, hother, hwaitOther, hdueOther, and_self]
    . exact fun _ => hfunc.cache.trans hcache
    . intro i' cnt' heq
      cases heq
      simp only [hsame]
      rw [hqueue] at hcnt
      exact ⟨hi, hcnt⟩
  . rw [if_neg hi]
    have hzero : cnt - i = 0 := by omega
    refine ⟨?_, fun _ => hcache, by simp⟩
    have hwaiting : waiting { w with pc := .dispatch, timeoutMs := 0 } = wait := by
      funext q
      cases q
      . exact hwait.symm
      . exact hwaitOther.symm
    have hdue' : EventLoop.due { w with pc := .dispatch, timeoutMs := 0 } = due := by
      funext q
      cases q
      . rw [hdue, hzero, List.take_zero]
        rfl
      . exact hdueOther.symm
    rw [hwaiting, hdue']
    exact hledger

theorem accounted_endLoopOnce {wait due : Queue → List Nat}
    (hledger : Ledger w.log w.nextJob wait due) (hcache : w.otherThreadJobSwapCacheVec = [])
    (hwait : wait .sameThread = ids w.sameThreadPendingFuncs)
    (hwaitOther : wait .otherThread = ids w.otherThreadPendingFuncs) (hdue : ∀ q, due q = [])
    : w.endLoopOnce.Accounted := by
  refine ⟨?_, fun _ => hcache, by simp [endLoopOnce]⟩
  have hwaiting : w.endLoopOnce.waiting = wait := by
    funext q
    cases q
    . exact hwait.symm
    . exact hwaitOther.symm
  have hdue' : w.endLoopOnce.due = due := by
    funext q
    rw [hdue]
    cases q <;> rfl
  rw [hwaiting, hdue']
  exact hledger.returns hdue

-- The loop over the swapped vector.
theorem accounted_runOtherThreadJob {wait due : Queue → List Nat} {i : Nat}
    (hledger : Ledger w.log w.nextJob wait due)
    (hwait : wait .sameThread = ids w.sameThreadPendingFuncs) (hdue : due .sameThread = [])
    (hwaitOther : wait .otherThread
      = ids (w.otherThreadJobSwapCacheVec.drop i) ++ ids w.otherThreadPendingFuncs)
    (hdueOther : due .otherThread = ids (w.otherThreadJobSwapCacheVec.drop i))
    : (w.runOtherThreadJob i).Accounted := by
  unfold runOtherThreadJob
  cases hjob : w.otherThreadJobSwapCacheVec[i]? with
  | some job =>
    have hdrop : w.otherThreadJobSwapCacheVec.drop i = job :: w.otherThreadJobSwapCacheVec.drop (i + 1) := by
      obtain ⟨hlt, hget⟩ := List.getElem?_eq_some_iff.mp hjob
      rw [← hget]
      exact List.drop_eq_getElem_cons hlt
    rw [hdrop] at hwaitOther hdueOther
    have hfunc := runFunc_sameJobs (w.addLog (Entry.runs .otherThread job.id)) job.func
    simp only
    generalize (w.addLog (Entry.runs .otherThread job.id)).runFunc job.func = w₁ at *
    have hsame : w₁.sameThreadPendingFuncs = w.sameThreadPendingFuncs := hfunc.sameThread
    have hother : w₁.otherThreadPendingFuncs = w.otherThreadPendingFuncs := hfunc.otherThread
    have hcache : w₁.otherThreadJobSwapCacheVec = w.otherThreadJobSwapCacheVec := hfunc.cache
    have hlog : w₁.log = w.log ++ [Entry.runs .otherThread job.id] := hfunc.log
    have hnext : w₁.nextJob = w.nextJob := hfunc.nextJob
    refine ⟨?_, ?_, by simp⟩
    . simp only [hlog, hnext]
      apply hledger.runs
      . simp only [waiting, hother, hcache, hwaitOther]
        rfl
      . simp only [EventLoop.due, hcache, hdueOther]
        rfl
      . intro q' hq'
        cases q' with
        | otherThread => exact absurd rfl hq'
        | sameThread => simp only [waiting, EventLoop.due, hsame, hwait, hdue, and_self]
    . intro hnot
      exact absurd rfl (hnot i)
  | none =>
    have hdrop : w.otherThreadJobSwapCacheVec.drop i = [] :=
      List.drop_eq_nil_iff.mpr (List.getElem?_eq_none_iff.mp hjob)
    rw [hdrop] at hwaitOther hdueOther
    apply accounted_endLoopOnce (w := { w with otherThreadJobSwapCacheVec := [] }) hledger rfl hwait hwaitOther
    intro q
    cases q
    . exact hdue
    . exact hdueOther

-- The jobs of the own thread can be counted with 32 bits when they are about to be run.
def Fits (w : EventLoop J) (a : Action J) : Prop :=
  (a matches .tick) → w.pc = .sameThreadJobs → w.sameThreadPendingFuncs.length < 2 ^ 32

instance (w : EventLoop J) (a : Action J) : Decidable (w.Fits a) :=
  inferInstanceAs (Decidable (_ → _ → _))

theorem Accounted.tick_sameThreadJobs (h : w.Accounted) (hpc : w.pc = .sameThreadJobs)
    (hfits : w.sameThreadPendingFuncs.length < 2 ^ 32)
    : w.tick.Accounted := by
  have hplain : w.pc.plain := by rw [hpc]; rfl
  obtain ⟨hwait, hwaitOther⟩ := waiting_of_plain hplain
  rw [tick_of_sameThreadJobs hpc]
  split
  . rename_i hempty
    refine Accounted.of_plain hplain ?_ h ?_ ?_ ?_ ?_
    . rfl
    . rfl
    . rfl
    . rfl
    . refine h.ledger.drains _ (due_of_plain hplain _) ?_ (fun _ _ => rfl)
      rw [due_of_plain hplain, hempty]
      rfl
  . have hledger := h.ledger.drains (q := .sameThread) (ids w.sameThreadPendingFuncs)
      (due_of_plain hplain _) (Function.update_self ..) (fun q hq => Function.update_of_ne hq _ w.due)
    rw [Nat.mod_eq_of_lt hfits]
    apply accounted_runSameThreadJob
    . exact hledger
    . exact h.cache_of_plain hplain
    . exact Nat.le_refl _
    . exact hwait
    . rw [Function.update_self, Nat.sub_zero]
      exact congrArg ids (List.take_length).symm
    . exact hwaitOther
    . rw [Function.update_of_ne (by simp)]
      exact due_of_plain hplain _

theorem Accounted.tick_sameThreadJob (h : w.Accounted) {i cnt : Nat} (hpc : w.pc = .sameThreadJob i cnt)
    : w.tick.Accounted := by
  obtain ⟨hi, hcnt⟩ := h.count i cnt hpc
  rw [tick_of_sameThreadJob hpc]
  apply accounted_runSameThreadJob
  . exact h.ledger
  . exact h.cache (by simp [hpc])
  . simp only [List.length_tail]
    omega
  . simp only [waiting, hpc]
  . simp only [EventLoop.due, hpc]
    obtain ⟨m, hm⟩ : ∃ m, cnt - i = m + 1 := ⟨cnt - i - 1, by omega⟩
    rw [show cnt - (i + 1) = m by omega, hm]
    cases w.sameThreadPendingFuncs <;> simp
  . simp only [waiting, hpc]
  . simp only [EventLoop.due, hpc]

theorem Accounted.tick_otherThreadJobs (h : w.Accounted) (hpc : w.pc = .otherThreadJobs)
    : w.tick.Accounted := by
  have hplain : w.pc.plain := by rw [hpc]; rfl
  obtain ⟨hwait, hwaitOther⟩ := waiting_of_plain hplain
  have hledger := h.ledger.drains (q := .otherThread) (ids w.otherThreadPendingFuncs)
    (due_of_plain hplain _) (Function.update_self ..) (fun q hq => Function.update_of_ne hq _ w.due)
  rw [tick_of_otherThreadJobs hpc]
  split
  . rename_i hempty
    apply accounted_endLoopOnce
    . exact hledger
    . exact h.cache_of_plain hplain
    . exact hwait
    . exact hwaitOther
    . intro q
      cases q
      . rw [Function.update_of_ne (by simp)]
        exact due_of_plain hplain _
      . rw [Function.update_self, hempty]
        rfl
  . refine ⟨?_, fun _ => h.cache_of_plain hplain, by simp⟩
    have hwaiting : waiting { w.addLog (.drains .otherThread (ids w.otherThreadPendingFuncs)) with pc := .swap }
        = w.waiting := by
      funext q
      cases q
      . exact hwait.symm
      . exact hwaitOther.symm
    have hdue : EventLoop.due { w.addLog (.drains .otherThread (ids w.otherThreadPendingFuncs)) with pc := .swap }
        = Function.update w.due .otherThread (ids w.otherThreadPendingFuncs) := by
      funext q
      cases q
      . rw [Function.update_of_ne (by simp), due_of_plain hplain]
        rfl
      . rw [Function.update_self]
        rfl
    rw [hwaiting, hdue]
    exact hledger

theorem Accounted.tick_swap (h : w.Accounted) (hpc : w.pc = .swap)
    : w.tick.Accounted := by
  have hcache := h.cache (by simp [hpc])
  rw [tick_of_swap hpc]
  apply accounted_runOtherThreadJob
  . exact h.ledger
  . simp only [waiting, hpc]
  . simp only [EventLoop.due, hpc]
  . simp only [waiting, hpc, hcache, List.drop_zero]
    simp [ids]
  . simp only [EventLoop.due, hpc, List.drop_zero]

theorem Accounted.tick_otherThreadJob (h : w.Accounted) {i : Nat} (hpc : w.pc = .otherThreadJob i)
    : w.tick.Accounted := by
  rw [tick_of_otherThreadJob hpc]
  apply accounted_runOtherThreadJob
  . exact h.ledger
  . simp only [waiting, hpc]
  . simp only [EventLoop.due, hpc]
  . simp only [waiting, hpc]
  . simp only [EventLoop.due, hpc]

-- All other steps of the thread of the loop.
theorem tick_plain (hplain : w.pc.plain) (hsame : w.pc ≠ .sameThreadJobs) (hother : w.pc ≠ .otherThreadJobs)
    (hdispatch : w.pc ≠ .dispatch)
    : SameJobs w w.tick ∧ w.tick.pc.plain := by
  unfold EventLoop.tick
  split
  . exact ⟨.refl w, hplain⟩
  . exact ⟨⟨rfl, rfl, rfl, rfl, rfl⟩, rfl⟩
  . split <;> exact ⟨⟨rfl, rfl, rfl, rfl, rfl⟩, rfl⟩
  . obtain ⟨h, hpc⟩ := processNewInstruction_sameJobs { w with evtHandlersCache := [] } w.evtHandlersCache
    exact ⟨⟨h.sameThread, h.otherThread, h.cache, h.nextJob, h.log⟩, hpc⟩
  . exact processNewInstruction_sameJobs ..
  . split
    . exact ⟨⟨rfl, rfl, rfl, rfl, rfl⟩, rfl⟩
    . exact handleBusyPolls_sameJobs ..
  . exact handleBusyPolls_sameJobs ..
  . contradiction
  . simp_all [Pc.plain]
  . contradiction
  . split
    . exact ⟨⟨rfl, rfl, rfl, rfl, rfl⟩, rfl⟩
    . exact ⟨.refl w, hplain⟩
  . contradiction
  . simp_all [Pc.plain]
  . simp_all [Pc.plain]

theorem Accounted.tick_dispatch (h : w.Accounted) (hpc : w.pc = .dispatch)
    : w.tick.Accounted := by
  rw [tick_of_dispatch hpc]
  exact h.of_plain (by rw [hpc]; rfl) rfl rfl rfl rfl (h.ledger.dispatches _)

theorem Accounted.tick (h : w.Accounted) (hfits : w.Fits .tick)
    : w.tick.Accounted := by
  cases hpc : w.pc with
  | sameThreadJobs => exact h.tick_sameThreadJobs hpc (hfits rfl hpc)
  | sameThreadJob i cnt => exact h.tick_sameThreadJob hpc
  | dispatch => exact h.tick_dispatch hpc
  | otherThreadJobs => exact h.tick_otherThreadJobs hpc
  | swap => exact h.tick_swap hpc
  | otherThreadJob i => exact h.tick_otherThreadJob hpc
  | _ =>
    have hplain : w.pc.plain := by rw [hpc]; rfl
    obtain ⟨hsame, hplain'⟩ := tick_plain hplain (by simp [hpc]) (by simp [hpc]) (by simp [hpc])
    exact h.of_plain_sameJobs hplain hplain' hsame

def Action.isTick : Action J → Bool
  | tick => true
  | _ => false

-- The thread of the loop is at a place where nothing is known about the jobs.
def Pc.quiet : Pc → Bool
  | outside | starting | dispatching _ => true
  | _ => false

-- What happens between the steps of the thread of the loop.
theorem step_cases {a : Action J} (ha : a.isTick = false)
    : SameJobs w (w.step a) ∧ ((w.step a).pc = w.pc ∨ w.pc.quiet ∧ (w.step a).pc.quiet)
      ∨ ∃ t job, w.step a = (w.runInEventLoop t job).1 := by
  cases a with
  | tick => cases ha
  | openLoop param results =>
    left
    dsimp only [EventLoop.step]
    split
    . obtain ⟨hsame, hpc⟩ := openLoop_sameJobs w param results
      exact ⟨hsame, .inl hpc⟩
    . exact ⟨.refl w, .inl rfl⟩
  | addEvent t e =>
    left
    dsimp only [EventLoop.step]
    split
    . obtain ⟨hsame, hpc⟩ := addInstruction_sameJobs w e .eiAdd
      exact ⟨hsame, .inl hpc⟩
    . exact ⟨.refl w, .inl rfl⟩
  | removeEvent t e =>
    left
    dsimp only [EventLoop.step]
    split
    . obtain ⟨hsame, hpc⟩ := addInstruction_sameJobs w e .eiRemove
      exact ⟨hsame, .inl hpc⟩
    . exact ⟨.refl w, .inl rfl⟩
  | runInEventLoop t job =>
    dsimp only [EventLoop.step]
    split
    . exact .inr ⟨t, job, rfl⟩
    . exact .inl ⟨.refl w, .inl rfl⟩
  | stop t =>
    left
    dsimp only [EventLoop.step]
    split
    . exact ⟨⟨rfl, rfl, rfl, rfl, rfl⟩, .inl rfl⟩
    . exact ⟨.refl w, .inl rfl⟩
  | startLoop t =>
    left
    dsimp only [EventLoop.step]
    split
    . rename_i houtside
      obtain ⟨hsame, hpc | hpc⟩ := startLoop_sameJobs w t
      . exact ⟨hsame, .inl hpc⟩
      . exact ⟨hsame, .inr (by rw [houtside, hpc]; exact ⟨rfl, rfl⟩)⟩
    . exact ⟨.refl w, .inl rfl⟩
  | submit n =>
    left
    dsimp only [EventLoop.step]
    split
    . exact ⟨⟨rfl, rfl, rfl, rfl, rfl⟩, .inl rfl⟩
    . exact ⟨.refl w, .inl rfl⟩
  | complete r raise =>
    left
    dsimp only [EventLoop.step]
    split
    . rename_i completed hpc
      split
      . obtain ⟨hsame, -⟩ := complete_sameJobs w r raise
        refine ⟨⟨hsame.sameThread, hsame.otherThread, hsame.cache, hsame.nextJob, hsame.log⟩, .inr ?_⟩
        rw [hpc]
        exact ⟨rfl, rfl⟩
      . exact ⟨.refl w, .inl rfl⟩
    . exact ⟨.refl w, .inl rfl⟩

theorem Pc.plain_of_quiet {pc : Pc} (h : pc.quiet)
    : pc.plain := by
  cases pc <;> first | rfl | cases h

theorem Accounted.step (h : w.Accounted) (a : Action J) (hfits : w.Fits a)
    : (w.step a).Accounted := by
  cases ha : a.isTick with
  | true =>
    cases a with
    | tick => exact h.tick hfits
    | _ => cases ha
  | false =>
    rcases step_cases (w := w) ha with ⟨hsame, hpc | ⟨hquiet, hquiet'⟩⟩ | ⟨t, job, heq⟩
    . exact h.of_sameJobs hsame hpc
    . exact h.of_plain_sameJobs (Pc.plain_of_quiet hquiet) (Pc.plain_of_quiet hquiet') hsame
    . rw [heq]
      exact h.runInEventLoop t job

theorem init_accounted
    : Accounted ({} : EventLoop J) := by
  refine ⟨?_, fun _ => rfl, by simp⟩
  have hwaiting : waiting ({} : EventLoop J) = fun _ => [] := by
    funext q
    cases q <;> rfl
  have hdue : due ({} : EventLoop J) = fun _ => [] := by
    funext q
    cases q <;> rfl
  rw [hwaiting, hdue]
  exact .nil

theorem run_accounted (as : List (Action J)) (hfits : Along step Fits {} as)
    : (run {} as).Accounted :=
  Along.invariant (I := Accounted) (fun _ a h hf => h.step a hf) init_accounted hfits

/-! ### The jobs that are queued when the loop comes to run them -/

def queue (w : EventLoop J) : Queue → List (Job J)
  | .sameThread => w.sameThreadPendingFuncs
  | .otherThread => w.otherThreadPendingFuncs

-- Where `loop_once` starts to run the jobs of a queue.
def drainPoint : Queue → Pc
  | .sameThread => .sameThreadJobs
  | .otherThread => .otherThreadJobs

-- The jobs of a queue that are run next.
def coming (w : EventLoop J) (q : Queue) : List Nat :=
  if w.pc = drainPoint q then ids (w.queue q) else w.due q

-- The steps that the thread of the loop needs before it runs the first of them.
def delay (w : EventLoop J) (q : Queue) : Nat :=
  if w.pc = drainPoint q ∧ q = .otherThread then 1 else 0

theorem runSameThreadJob_coming {i cnt : Nat} {job : Job J} {rest : List (Job J)} (hi : i < cnt)
    (hqueue : w.sameThreadPendingFuncs = job :: rest)
    : (w.runSameThreadJob i cnt).log = w.log ++ [Entry.runs .sameThread job.id]
      ∧ (w.runSameThreadJob i cnt).coming .sameThread = ids (rest.take (cnt - i - 1))
      ∧ (w.runSameThreadJob i cnt).delay .sameThread = 0 := by
  obtain ⟨m, hm⟩ : ∃ m, cnt - i = m + 1 := ⟨cnt - i - 1, by omega⟩
  have hfunc := runFunc_sameJobs (w.addLog (Entry.runs .sameThread job.id)) job.func
  have hsame : ((w.addLog (Entry.runs .sameThread job.id)).runFunc job.func).sameThreadPendingFuncs = job :: rest :=
    hfunc.sameThread.trans hqueue
  simp only [runSameThreadJob, if_pos hi, hqueue]
  refine ⟨hfunc.log, ?_, ?_⟩
  . simp [coming, drainPoint, due, hsame, hm]
  . simp [delay]

theorem tick_coming_sameThread {d : Nat} {ds : List Nat} (h : w.Accounted) (hfits : w.Fits .tick)
    (hcoming : w.coming .sameThread = d :: ds)
    : .runs .sameThread d ∈ w.tick.log ∧ w.tick.coming .sameThread = ds ∧ w.tick.delay .sameThread = 0 := by
  by_cases hpc : w.pc = .sameThreadJobs
  . have hlen := hfits rfl hpc
    rw [coming, drainPoint, if_pos hpc, queue] at hcoming
    cases hqueue : w.sameThreadPendingFuncs with
    | nil => simp [hqueue, ids] at hcoming
    | cons job rest =>
      rw [hqueue] at hcoming hlen
      cases hcoming
      have hcnt : 0 < (job :: rest).length := Nat.succ_pos _
      obtain ⟨hlog, hnext, hdelay⟩ := runSameThreadJob_coming
        (w := w.addLog (.drains .sameThread (ids (job :: rest)))) hcnt hqueue
      rw [tick_of_sameThreadJobs hpc, if_neg (by simp [hqueue]), hqueue, Nat.mod_eq_of_lt hlen]
      refine ⟨by rw [hlog]; simp, ?_, hdelay⟩
      rw [hnext]
      simp [ids]
  . rw [coming, drainPoint, if_neg hpc] at hcoming
    cases hpc' : w.pc with
    | sameThreadJob i cnt =>
      obtain ⟨hi, hcnt⟩ := h.count i cnt hpc'
      obtain ⟨m, hm⟩ : ∃ m, cnt - i = m + 1 := ⟨cnt - i - 1, by omega⟩
      simp only [due, hpc', hm] at hcoming
      have htail : (w.sameThreadPendingFuncs.take (m + 1)).tail = w.sameThreadPendingFuncs.tail.take m := by
        cases w.sameThreadPendingFuncs <;> simp
      rw [htail] at hcoming
      cases m with
      | zero => simp [ids] at hcoming
      | succ m =>
        cases hqueue : w.sameThreadPendingFuncs.tail with
        | nil => simp [hqueue, ids] at hcoming
        | cons job rest =>
          rw [hqueue] at hcoming
          cases hcoming
          have hlt : i + 1 < cnt := by omega
          obtain ⟨hlog, hnext, hdelay⟩ := runSameThreadJob_coming
            (w := { w with sameThreadPendingFuncs := w.sameThreadPendingFuncs.tail }) hlt hqueue
          rw [tick_of_sameThreadJob hpc']
          refine ⟨by simp [hlog], ?_, hdelay⟩
          rw [hnext, show cnt - (i + 1) - 1 = m by omega]
          rfl
    | _ => simp [due, hpc'] at hcoming

theorem runOtherThreadJob_coming {i : Nat} {job : Job J} {rest : List (Job J)}
    (hcache : w.otherThreadJobSwapCacheVec.drop i = job :: rest)
    : Entry.runs .otherThread job.id ∈ (w.runOtherThreadJob i).log
      ∧ (w.runOtherThreadJob i).coming .otherThread = ids rest
      ∧ (w.runOtherThreadJob i).delay .otherThread = 0 := by
  have hjob : w.otherThreadJobSwapCacheVec[i]? = some job := by
    rw [← List.head?_drop, hcache]
    rfl
  have hrest : w.otherThreadJobSwapCacheVec.drop (i + 1) = rest := by
    rw [← List.tail_drop, hcache]
    rfl
  have hfunc := runFunc_sameJobs (w.addLog (Entry.runs .otherThread job.id)) job.func
  simp only [runOtherThreadJob, hjob]
  refine ⟨?_, ?_, ?_⟩
  . have hlog : ((w.addLog (Entry.runs .otherThread job.id)).runFunc job.func).log
        = w.log ++ [Entry.runs .otherThread job.id] := hfunc.log
    simp [hlog]
  . have hcache' : ((w.addLog (Entry.runs .otherThread job.id)).runFunc job.func).otherThreadJobSwapCacheVec
        = w.otherThreadJobSwapCacheVec := hfunc.cache
    simp [coming, drainPoint, due, hcache', hrest]
  . simp [delay, drainPoint]

theorem tick_coming_otherThread {d : Nat} {ds : List Nat} (hcoming : w.coming .otherThread = d :: ds)
    : w.delay .otherThread = 1 ∧ w.tick.coming .otherThread = d :: ds ∧ w.tick.delay .otherThread = 0
      ∨ .runs .otherThread d ∈ w.tick.log ∧ w.tick.coming .otherThread = ds ∧ w.tick.delay .otherThread = 0 := by
  by_cases hpc : w.pc = .otherThreadJobs
  . left
    rw [coming, drainPoint, if_pos hpc, queue] at hcoming
    have hne : w.otherThreadPendingFuncs ≠ [] := by
      intro hempty
      simp [hempty, ids] at hcoming
    rw [tick_of_otherThreadJobs hpc, if_neg hne]
    exact ⟨by simp [delay, hpc, drainPoint], hcoming, rfl⟩
  . right
    rw [coming, drainPoint, if_neg hpc] at hcoming
    cases hpc' : w.pc with
    | swap =>
      simp only [due, hpc'] at hcoming
      cases hqueue : w.otherThreadPendingFuncs with
      | nil => simp [hqueue, ids] at hcoming
      | cons job rest =>
        rw [hqueue] at hcoming
        cases hcoming
        rw [tick_of_swap hpc']
        exact runOtherThreadJob_coming hqueue
    | otherThreadJob i =>
      simp only [due, hpc'] at hcoming
      cases hqueue : w.otherThreadJobSwapCacheVec.drop (i + 1) with
      | nil => simp [hqueue, ids] at hcoming
      | cons job rest =>
        rw [hqueue] at hcoming
        cases hcoming
        rw [tick_of_otherThreadJob hpc']
        exact runOtherThreadJob_coming hqueue
    | _ => simp [due, hpc'] at hcoming

theorem step_coming (h : w.Accounted) {a : Action J} (ha : a.isTick = false)
    : w.coming q <+: (w.step a).coming q ∧ (w.coming q = [] ∨ (w.step a).delay q = w.delay q) := by
  rcases step_cases (w := w) ha with ⟨hsame, hpc | ⟨hquiet, -⟩⟩ | ⟨t, job, heq⟩
  . have heq : (w.step a).coming q = w.coming q := by
      cases q <;> simp only [coming, due, queue, hpc, hsame.sameThread, hsame.otherThread, hsame.cache]
    refine ⟨heq ▸ List.prefix_rfl, .inr ?_⟩
    simp only [delay, hpc]
  . have hnil : w.coming q = [] := by
      rw [coming, if_neg, due_of_plain (Pc.plain_of_quiet hquiet)]
      intro hpc
      rw [hpc] at hquiet
      cases q <;> cases hquiet
    exact ⟨hnil ▸ List.nil_prefix, .inl hnil⟩
  . rw [heq]
    have hdue := h.runInEventLoop_due t job q
    rcases runInEventLoop_cases w t job with heq | ⟨q', func, hpc, -, -, -, hqueue⟩
    . rw [heq]
      exact ⟨List.prefix_rfl, .inr rfl⟩
    refine ⟨?_, .inr (by simp only [delay, hpc])⟩
    rw [coming, coming, hpc]
    split
    . rcases hqueue with ⟨-, -, hsame, hother⟩ | ⟨-, hsame, hother⟩
      . cases q <;> simp [queue, hsame, hother, ids]
      . cases q <;> simp [queue, hsame, hother, ids]
    . exact hdue

theorem tick_coming {d : Nat} {ds : List Nat} (h : w.Accounted) (hfits : w.Fits .tick) (hcoming : w.coming q = d :: ds)
    : w.delay q = 1 ∧ w.tick.coming q = d :: ds ∧ w.tick.delay q = 0
      ∨ .runs q d ∈ w.tick.log ∧ w.tick.coming q = ds ∧ w.tick.delay q = 0 := by
  cases q with
  | sameThread => exact .inr (tick_coming_sameThread h hfits hcoming)
  | otherThread => exact tick_coming_otherThread hcoming

theorem runSameThreadJob_log (w : EventLoop J) (i cnt : Nat)
    : w.log <+: (w.runSameThreadJob i cnt).log := by
  unfold runSameThreadJob
  repeat' split
  . rename_i job _ _
    have hlog := (runFunc_sameJobs (w.addLog (.runs .sameThread job.id)) job.func).log
    exact hlog ▸ List.prefix_append _ _
  . exact List.prefix_rfl
  . exact List.prefix_rfl

theorem runOtherThreadJob_log (w : EventLoop J) (i : Nat)
    : w.log <+: (w.runOtherThreadJob i).log := by
  unfold runOtherThreadJob
  split
  . rename_i job _
    have hlog := (runFunc_sameJobs (w.addLog (.runs .otherThread job.id)) job.func).log
    exact hlog ▸ List.prefix_append _ _
  . exact List.prefix_append _ _

theorem step_log (w : EventLoop J) (a : Action J)
    : w.log <+: (w.step a).log := by
  cases ha : a.isTick with
  | false =>
    rcases step_cases (w := w) ha with ⟨hsame, -⟩ | ⟨t, job, heq⟩
    . exact hsame.log ▸ List.prefix_rfl
    . rw [heq]
      rcases runInEventLoop_cases w t job with heq | ⟨q, func, -, -, hlog, -⟩
      . rw [heq]
      . rw [hlog]
        exact List.prefix_append _ _
  | true =>
    cases a with
    | tick =>
      change w.log <+: w.tick.log
      cases hpc : w.pc with
      | sameThreadJobs =>
        rw [tick_of_sameThreadJobs hpc]
        split
        . exact List.prefix_append _ _
        . exact (List.prefix_append _ _).trans (runSameThreadJob_log (w.addLog _) _ _)
      | sameThreadJob i cnt =>
        rw [tick_of_sameThreadJob hpc]
        exact runSameThreadJob_log { w with sameThreadPendingFuncs := w.sameThreadPendingFuncs.tail } (i + 1) cnt
      | dispatch =>
        rw [tick_of_dispatch hpc]
        exact List.prefix_append _ _
      | otherThreadJobs =>
        rw [tick_of_otherThreadJobs hpc]
        split
        . exact (List.prefix_append _ _).trans (List.prefix_append _ _)
        . exact List.prefix_append _ _
      | swap =>
        rw [tick_of_swap hpc]
        exact runOtherThreadJob_log { w with
          otherThreadPendingFuncs := w.otherThreadJobSwapCacheVec
          otherThreadJobSwapCacheVec := w.otherThreadPendingFuncs } 0
      | otherThreadJob i =>
        rw [tick_of_otherThreadJob hpc]
        exact runOtherThreadJob_log ..
      | _ =>
        have hplain : w.pc.plain := by rw [hpc]; rfl
        obtain ⟨hsame, -⟩ := tick_plain hplain (by simp [hpc]) (by simp [hpc]) (by simp [hpc])
        exact hsame.log ▸ List.prefix_rfl
    | _ => cases ha

theorem run_log (w : EventLoop J) (as : List (Action J))
    : w.log <+: (run w as).log := by
  induction as generalizing w with
  | nil => exact List.prefix_rfl
  | cons a as ih => exact (step_log w a).trans (ih (w.step a))

-- The job at place `k` is run by one of the next steps of the thread of the loop.
theorem runs_of_coming {as : List (Action J)} {k id : Nat} (h : w.Accounted) (hfits : Along step Fits w as)
    (hk : (w.coming q)[k]? = some id) (hlt : k + w.delay q < as.countP Action.isTick)
    : .runs q id ∈ (run w as).log := by
  induction as generalizing w k with
  | nil => simp at hlt
  | cons a as ih =>
    have h' := h.step a hfits.1
    rw [List.countP_cons] at hlt
    obtain ⟨d, ds, hcoming⟩ : ∃ d ds, w.coming q = d :: ds := by
      cases hc : w.coming q with
      | nil => simp [hc] at hk
      | cons d ds => exact ⟨d, ds, rfl⟩
    cases ha : a.isTick with
    | false =>
      rw [ha] at hlt
      obtain ⟨hgrows, hnil | hdelay⟩ := step_coming (q := q) h ha
      . rw [hnil] at hcoming
        cases hcoming
      . apply ih h' hfits.2 (k := k)
        . obtain ⟨rest, hrest⟩ := hgrows
          rw [← hrest, List.getElem?_append_left (List.getElem?_eq_some_iff.mp hk).1]
          exact hk
        . rw [hdelay]
          simpa using hlt
    | true =>
      cases a with
      | tick =>
        simp only [ha, if_true] at hlt
        rcases tick_coming h hfits.1 hcoming with ⟨hdelay, hnext, hdelay'⟩ | ⟨hrun, hnext, hdelay'⟩
        . apply ih h' hfits.2 (k := k)
          . change (w.tick.coming q)[k]? = some id
            rw [hnext, ← hcoming]
            exact hk
          . change k + w.tick.delay q < _
            omega
        . cases k with
          | zero =>
            rw [hcoming] at hk
            cases hk
            exact (run_log w.tick as).subset hrun
          | succ k =>
            apply ih h' hfits.2 (k := k)
            . change (w.tick.coming q)[k]? = some id
              rw [hnext]
              rw [hcoming] at hk
              exact hk
            . change k + w.tick.delay q < _
              omega
      | _ => cases ha

theorem run_append (w : EventLoop J) (as bs : List (Action J))
    : run w (as ++ bs) = run (run w as) bs :=
  List.foldl_append

/--
In every interleaving the jobs are executed in order and at most once, and the ones that are queued when the loop
comes to run them are executed before `loop_once` returns, one with each step of the thread of the loop.
-/
theorem run_jobs_executed (as : List (Action J)) (hfits : Along step Fits {} as)
    : JobsExecuted (run {} as).log
      ∧ ∀ before after q, as = before ++ after → (run {} before).pc = drainPoint q
        → ((run {} before).queue q).length < after.countP Action.isTick
        → ∀ job ∈ (run {} before).queue q, .runs q job.id ∈ (run {} as).log := by
  refine ⟨(run_accounted as hfits).ledger.jobsExecuted, ?_⟩
  intro before after q has hpc hticks job hjob
  subst has
  obtain ⟨hbefore, hafter⟩ := Along.append_iff.mp hfits
  rw [run_append]
  change Along step Fits (run {} before) after at hafter
  have h := run_accounted before hbefore
  generalize run {} before = w at *
  obtain ⟨k, hk, hget⟩ := List.getElem_of_mem hjob
  apply runs_of_coming h hafter (k := k)
  . rw [coming, if_pos hpc, ids, List.getElem?_map, List.getElem?_eq_getElem hk, hget]
    rfl
  . have : w.delay q ≤ 1 := by
      unfold delay
      split <;> omega
    omega

-- The loop is opened and started by thread `0`, which gets as far as `dispatch`.
def startedActions : List (Action Unit) :=
  [Action.openLoop {} ⟨true, true, 4, 0⟩, Action.startLoop 0] ++ List.replicate 6 Action.tick

-- Thread `1` posts a job, the callback of a timer another one, the second one posts a third one.
def threeJobs : List (Action Unit) :=
  startedActions ++ [Action.runInEventLoop 1 (some (.user ())), Action.runInEventLoop 0 (some (.user ())),
    Action.complete .internalTimer fun _ => false] ++ List.replicate 8 Action.tick
    ++ [Action.runInEventLoop 0 (some (.user ()))] ++ List.replicate 9 Action.tick

theorem threeJobs_executed
    : ran (run {} threeJobs).log .sameThread = [1, 2] ∧ ran (run {} threeJobs).log .otherThread = [0]
      ∧ JobsExecuted (run {} threeJobs).log := by
  refine ⟨by decide +kernel, by decide +kernel, (run_jobs_executed threeJobs ?_).1⟩
  decide +kernel

-- A callback of the thread of the loop posts `n` jobs, then the loop goes on until `loop_once` returns twice.
def manyJobs (n : Nat) : List (Action Unit) :=
  startedActions ++ List.replicate n (Action.runInEventLoop 0 (some (.user ())))
    ++ (Action.complete .internalTimer (fun _ => false) :: List.replicate 9 Action.tick)

theorem run_posts (n : Nat) (hthread : w.threadId = some 0) (hpc : w.pc = .dispatching false) (f : PendingFunc J)
    : ∃ jobs, jobs.length = n
      ∧ run w (List.replicate n (.runInEventLoop 0 (some f))) = { w with
        sameThreadPendingFuncs := w.sameThreadPendingFuncs ++ jobs
        nextJob := w.nextJob + n
        log := w.log ++ (ids jobs).map (.posts .sameThread) } := by
  induction n with
  | zero => exact ⟨[], rfl, by simp [run, ids]⟩
  | succ n ih =>
    obtain ⟨jobs, hlen, hrun⟩ := ih
    refine ⟨jobs ++ [⟨w.nextJob + n, f⟩], by simp [hlen], ?_⟩
    rw [List.replicate_succ', run_append, hrun]
    simp [run, step, mayCall, hpc, Pc.inCallback, runInEventLoop, hthread, addLog, ids, Nat.add_assoc]

-- The jobs of the own thread are counted as none.
theorem run_ticks_of_mod_eq_zero (hpc : w.pc = .sameThreadJobs) (hne : w.sameThreadPendingFuncs ≠ [])
    (hmod : w.sameThreadPendingFuncs.length % 2 ^ 32 = 0) (hother : w.otherThreadPendingFuncs = [])
    : (run w (List.replicate 4 .tick)).log = w.log
      ++ [Entry.drains .sameThread (ids w.sameThreadPendingFuncs), Entry.dispatches 0, Entry.drains .otherThread [],
        Entry.returns] := by
  have h₁ : w.tick
      = { w.addLog (Entry.drains .sameThread (ids w.sameThreadPendingFuncs)) with
          pc := .dispatch, timeoutMs := 0 } := by
    rw [tick_of_sameThreadJobs hpc, if_neg hne, hmod]
    rfl
  have h₂ : w.tick.tick = { w.tick.addLog (Entry.dispatches 0) with pc := .dispatching false } := by
    rw [h₁]
    rfl
  have h₃ : w.tick.tick.tick = { w.tick.addLog (Entry.dispatches 0) with pc := .otherThreadJobs } := by
    rw [h₂, h₁]
    rfl
  have h₄ : w.tick.tick.tick.tick.log
      = w.tick.log ++ [Entry.dispatches 0, Entry.drains .otherThread [], Entry.returns] := by
    rw [h₃, tick_of_otherThreadJobs rfl, if_pos (by rw [h₁]; exact hother), h₁]
    simp [endLoopOnce, addLog, hother, ids]
  change w.tick.tick.tick.tick.log = _
  rw [h₄, h₁]
  simp [addLog]

theorem not_jobsExecuted_manyJobs (n : Nat) (hn : n % 2 ^ 32 = 0) (hpos : n ≠ 0)
    : ¬ JobsExecuted (run {} (manyJobs n)).log := by
  obtain ⟨jobs, hlen, hposts⟩ := run_posts (w := run {} startedActions) n rfl rfl (.user ())
  have hne : jobs ≠ [] := by
    rintro rfl
    exact hpos hlen.symm
  obtain ⟨w, hw, hpc, hsame, hother⟩ : ∃ w, run {} (manyJobs n) = run w (List.replicate 4 Action.tick)
      ∧ w.pc = .sameThreadJobs ∧ w.sameThreadPendingFuncs = jobs ∧ w.otherThreadPendingFuncs = [] := by
    have hticks : (List.replicate 9 Action.tick : List (Action Unit))
        = List.replicate 5 Action.tick ++ List.replicate 4 Action.tick :=
      rfl
    rw [manyJobs, run_append, run_append, hposts, hticks, ← List.cons_append, run_append]
    exact ⟨_, rfl, rfl, rfl, rfl⟩
  have hlog := run_ticks_of_mod_eq_zero hpc (hsame ▸ hne) (by rw [hsame, hlen, hn]) hother
  rw [← hw, hsame] at hlog
  intro h
  obtain ⟨job, hjob⟩ := List.exists_mem_of_ne_nil jobs hne
  have := h.drained w.log .sameThread (ids jobs) [.dispatches 0, .drains .otherThread []] [] (by simp [hlog]) (by simp)
    job.id (List.mem_map_of_mem hjob)
  simp at this

theorem manyJobs_not_executed
    : ¬ JobsExecuted (run {} (manyJobs (2 ^ 32))).log :=
  not_jobsExecuted_manyJobs (2 ^ 32) (by decide) (by decide)

end EventLoop

end Event
end Ezio
