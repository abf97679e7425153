import Ezio.Event.EventLoop.Jobs
import Ezio.Event.EventLoop.WakeUp

/-!
This module contains the race of `start_loop` with a `close` of another thread: both write the state of the loop,
the job `handle_close` makes up for a write that is overwritten.
-/

namespace Ezio
namespace Event
namespace EventLoop

variable {J : Type} {w : EventLoop J} {k : Nat}

def Pc.inLoopOnce : Pc → Bool
  | outside | starting | loopCheck => false
  | _ => true

def Action.isStart : Action J → Bool
  | startLoop _ => true
  | _ => false

-- The calls of `loop_once` that have returned.
def loops (w : EventLoop J) : Nat :=
  w.log.count .returns

def HasClose (jobs : List (Job J)) : Prop :=
  ∃ job ∈ jobs, job.func = .handleClose

-- How many more calls of `loop_once` return while `handle_close` is queued.
def Pc.queuedLoops : Pc → Nat
  | otherThreadJob _ => 2
  | _ => 1

-- At most `k` more calls of `loop_once` return.
inductive Closing (w : EventLoop J) : Nat → Prop where
  | queued (hqueue : HasClose w.otherThreadPendingFuncs) : Closing w w.pc.queuedLoops
  | swapped (i : Nat) (hpc : w.pc = .otherThreadJob i) (hcache : HasClose (w.otherThreadJobSwapCacheVec.drop (i + 1)))
    : Closing w 1
  | stopped (hstate : w.eeState = .esStop) (hpc : w.pc ≠ .starting) (hthread : w.threadId ≠ none)
    : Closing w w.pc.inLoopOnce.toNat

-- The thread of the loop is known when it runs.
def Started (w : EventLoop J) : Prop :=
  w.threadId = none → w.pc = .outside

theorem loops_addLog (w : EventLoop J) {e : Entry} (he : e ≠ .returns)
    : (w.addLog e).loops = w.loops := by
  simp [loops, addLog, List.count_append, he]

theorem SameJobs.loops {w' : EventLoop J} (h : SameJobs w w')
    : w'.loops = w.loops :=
  congrArg (List.count Entry.returns) h.log

/-! ### The other threads and the callbacks -/

-- What is written beside the jobs.
theorem step_control {a : Action J} (htick : a.isTick = false) (hstart : a.isStart = false)
    : (w.step a).threadId = w.threadId
      ∧ ((w.step a).pc = w.pc ∨ ∃ c c', w.pc = .dispatching c ∧ (w.step a).pc = .dispatching c')
      ∧ (w.eeState = .esStop → (w.step a).eeState = .esStop) := by
  have hrefl : w.threadId = w.threadId ∧ (w.pc = w.pc ∨ ∃ c c', w.pc = .dispatching c ∧ w.pc = .dispatching c')
      ∧ (w.eeState = .esStop → w.eeState = .esStop) := ⟨rfl, .inl rfl, id⟩
  have hinstruction : ∀ h instruction, (w.addInstruction h instruction).threadId = w.threadId
      ∧ ((w.addInstruction h instruction).pc = w.pc
        ∨ ∃ c c', w.pc = .dispatching c ∧ (w.addInstruction h instruction).pc = .dispatching c')
      ∧ (w.eeState = .esStop → (w.addInstruction h instruction).eeState = .esStop) := by
    intro h instruction
    unfold addInstruction
    split
    . exact ⟨rfl, .inl rfl, id⟩
    . exact hrefl
  cases a with
  | tick => cases htick
  | startLoop t => cases hstart
  | openLoop param results =>
    dsimp only [step]
    split
    . refine ⟨?_, .inl (openLoop_sameJobs w param results).2, ?_⟩
      . unfold openLoop openNotifier submitReadRequest
        dsimp only
        repeat' split
        all_goals rfl
      . intro hstop
        rw [openLoop, if_pos (.inl (by simp [hstop]))]
        exact hstop
    . exact hrefl
  | addEvent t h =>
    dsimp only [step]
    split
    . exact hinstruction h .eiAdd
    . exact hrefl
  | removeEvent t h =>
    dsimp only [step]
    split
    . exact hinstruction h .eiRemove
    . exact hrefl
  | runInEventLoop t job =>
    dsimp only [step]
    split
    . unfold runInEventLoop wakeUp
      dsimp only
      repeat' split
      all_goals exact ⟨rfl, .inl rfl, id⟩
    . exact hrefl
  | stop t =>
    dsimp only [step]
    split
    . exact ⟨rfl, .inl rfl, fun _ => rfl⟩
    . exact hrefl
  | submit n =>
    dsimp only [step]
    split
    . exact ⟨rfl, .inl rfl, id⟩
    . exact hrefl
  | complete r raise =>
    dsimp only [step]
    split
    . rename_i c hpc
      split
      . refine ⟨?_, .inr ⟨c, true, hpc, rfl⟩, ?_⟩
        . cases r <;> rfl
        . cases r <;> exact id
      . exact ⟨rfl, .inl rfl, id⟩
    . exact hrefl

-- The jobs of the other threads stay queued.
theorem step_queue {a : Action J} (htick : a.isTick = false)
    : w.otherThreadPendingFuncs <+: (w.step a).otherThreadPendingFuncs
      ∧ (w.step a).otherThreadJobSwapCacheVec = w.otherThreadJobSwapCacheVec
      ∧ (w.step a).loops = w.loops := by
  rcases step_cases (w := w) htick with ⟨hsame, -⟩ | ⟨t, job, heq⟩
  . exact ⟨hsame.otherThread ▸ List.prefix_rfl, hsame.cache, hsame.loops⟩
  . rw [heq]
    unfold runInEventLoop wakeUp
    dsimp only
    repeat' split
    . exact ⟨List.prefix_rfl, rfl, rfl⟩
    . exact ⟨List.prefix_append _ _, rfl, loops_addLog _ (by simp)⟩
    . exact ⟨List.prefix_append _ _, rfl, loops_addLog _ (by simp)⟩
    . exact ⟨List.prefix_rfl, rfl, loops_addLog _ (by simp)⟩

theorem Closing.step_other (h : w.Closing k) {a : Action J} (htick : a.isTick = false) (hstart : a.isStart = false)
    : (w.step a).Closing k ∧ (w.step a).loops = w.loops := by
  obtain ⟨hthread, hpc, hstate⟩ := step_control (w := w) htick hstart
  obtain ⟨hqueue, hcache, hloops⟩ := step_queue (w := w) htick
  refine ⟨?_, hloops⟩
  cases h with
  | queued hclose =>
    obtain ⟨job, hmem, hfunc⟩ := hclose
    have hqueued : (w.step a).pc.queuedLoops = w.pc.queuedLoops := by
      rcases hpc with hpc | ⟨c, c', hpc, hpc'⟩
      . rw [hpc]
      . rw [hpc, hpc']
        rfl
    rw [← hqueued]
    exact .queued ⟨job, hqueue.subset hmem, hfunc⟩
  | swapped i hi hclose =>
    rcases hpc with hpc | ⟨c, c', hpc, -⟩
    . exact .swapped i (hpc.trans hi) (hcache ▸ hclose)
    . rw [hi] at hpc
      cases hpc
  | stopped hstop hnot hknown =>
    have hin : (w.step a).pc.inLoopOnce = w.pc.inLoopOnce := by
      rcases hpc with hpc | ⟨c, c', hpc, hpc'⟩
      . rw [hpc]
      . rw [hpc, hpc']
        rfl
    rw [← hin]
    refine .stopped (hstate hstop) ?_ (hthread ▸ hknown)
    rcases hpc with hpc | ⟨c, c', -, hpc'⟩
    . rw [hpc]
      exact hnot
    . rw [hpc']
      exact nofun

/-! ### The thread of the loop -/

theorem endLoopOnce_loops (w : EventLoop J)
    : w.endLoopOnce.loops = w.loops + 1 := by
  simp [loops, endLoopOnce, addLog, List.count_append]

-- A step inside of `loop_once` that does not come to the jobs of the other threads.
structure Early (w w' : EventLoop J) : Prop where
  queue : w'.otherThreadPendingFuncs = w.otherThreadPendingFuncs
  loops : w'.loops = w.loops
  inLoopOnce : w'.pc.inLoopOnce
  notJob : ∀ i, w'.pc ≠ .otherThreadJob i
  threadId : w'.threadId = w.threadId
  stop : w.eeState = .esStop → w'.eeState = .esStop

theorem runSameThreadJob_early (w : EventLoop J) (i cnt : Nat)
    : Early w (w.runSameThreadJob i cnt) := by
  unfold runSameThreadJob
  split
  . split
    . rename_i job _ _
      have hlog := loops_addLog w (e := .runs .sameThread job.id) (by simp)
      cases job.func with
      | user j => exact ⟨rfl, hlog, rfl, nofun, rfl, id⟩
      | handleClose => exact ⟨rfl, hlog, rfl, nofun, rfl, fun _ => rfl⟩
    . exact ⟨rfl, rfl, rfl, nofun, rfl, id⟩
  . exact ⟨rfl, rfl, rfl, nofun, rfl, id⟩

theorem processNewInstruction_early (w : EventLoop J) (infos : List EventInfo)
    : Early w (w.processNewInstruction infos) := by
  unfold processNewInstruction processRemoveInstruction processAddInstruction
  split
  . exact ⟨rfl, rfl, rfl, nofun, rfl, id⟩
  . dsimp only
    repeat' split
    all_goals exact ⟨rfl, rfl, rfl, nofun, rfl, id⟩

theorem tick_early (hloop : w.pc.inLoopOnce) (hjobs : w.pc ≠ .otherThreadJobs) (hswap : w.pc ≠ .swap)
    (hjob : ∀ i, w.pc ≠ .otherThreadJob i)
    : Early w w.tick := by
  cases hpc : w.pc with
  | outside | starting | loopCheck =>
    rw [hpc] at hloop
    cases hloop
  | otherThreadJobs => exact absurd hpc hjobs
  | swap => exact absurd hpc hswap
  | otherThreadJob i => exact absurd hpc (hjob i)
  | newInstructions =>
    have h := processNewInstruction_early { w with evtHandlersCache := [] } w.evtHandlersCache
    simp only [tick, hpc] at h ⊢
    exact ⟨h.queue, h.loops, h.inLoopOnce, h.notJob, h.threadId, h.stop⟩
  | instruction called rest =>
    simp only [tick, hpc]
    exact processNewInstruction_early w rest
  | busyPolls =>
    simp only [tick, hpc]
    split
    . exact ⟨rfl, rfl, rfl, nofun, rfl, id⟩
    . cases w.busyPollEvts <;> exact ⟨rfl, rfl, rfl, nofun, rfl, id⟩
  | busyPoll rest =>
    simp only [tick, hpc]
    cases rest <;> exact ⟨rfl, rfl, rfl, nofun, rfl, id⟩
  | sameThreadJobs =>
    rw [tick_of_sameThreadJobs hpc]
    have hlog := loops_addLog w (e := .drains .sameThread (ids w.sameThreadPendingFuncs)) (by simp)
    split
    . exact ⟨rfl, hlog, rfl, nofun, rfl, id⟩
    . have h := runSameThreadJob_early (w.addLog (.drains .sameThread (ids w.sameThreadPendingFuncs))) 0
        (w.sameThreadPendingFuncs.length % 2 ^ 32)
      exact ⟨h.queue, h.loops.trans hlog, h.inLoopOnce, h.notJob, h.threadId, h.stop⟩
  | sameThreadJob i cnt =>
    rw [tick_of_sameThreadJob hpc]
    have h := runSameThreadJob_early { w with sameThreadPendingFuncs := w.sameThreadPendingFuncs.tail } (i + 1) cnt
    exact ⟨h.queue, h.loops, h.inLoopOnce, h.notJob, h.threadId, h.stop⟩
  | dispatch =>
    rw [tick_of_dispatch hpc]
    exact ⟨rfl, loops_addLog w (by simp), rfl, nofun, rfl, id⟩
  | dispatching completed =>
    simp only [tick, hpc]
    split
    . exact ⟨rfl, rfl, rfl, nofun, rfl, id⟩
    . exact ⟨rfl, rfl, by rw [hpc]; rfl, by rw [hpc]; exact nofun, rfl, id⟩

-- The next job of the swapped vector, or the end of `loop_once`.
theorem runOtherThreadJob_cases (w : EventLoop J) (i : Nat)
    : (∃ job, w.otherThreadJobSwapCacheVec[i]? = some job
        ∧ (w.runOtherThreadJob i).otherThreadJobSwapCacheVec = w.otherThreadJobSwapCacheVec
        ∧ (w.runOtherThreadJob i).pc = .otherThreadJob i ∧ (w.runOtherThreadJob i).loops = w.loops
        ∧ (job.func = .handleClose ∨ w.eeState = .esStop → (w.runOtherThreadJob i).eeState = .esStop))
      ∨ w.otherThreadJobSwapCacheVec[i]? = none ∧ (w.runOtherThreadJob i).pc = .loopCheck
        ∧ (w.runOtherThreadJob i).loops = w.loops + 1 ∧ (w.runOtherThreadJob i).eeState = w.eeState := by
  unfold runOtherThreadJob
  cases hjob : w.otherThreadJobSwapCacheVec[i]? with
  | some job =>
    have hlog := loops_addLog w (e := .runs .otherThread job.id) (by simp)
    refine .inl ⟨job, rfl, ?_⟩
    dsimp only
    cases hfunc : job.func with
    | user j => exact ⟨rfl, rfl, hlog, fun h => h.resolve_left nofun⟩
    | handleClose => exact ⟨rfl, rfl, hlog, fun _ => rfl⟩
  | none => exact .inr ⟨rfl, rfl, endLoopOnce_loops _, rfl⟩

theorem runOtherThreadJob_frame (w : EventLoop J) (i : Nat)
    : (w.runOtherThreadJob i).threadId = w.threadId
      ∧ (w.runOtherThreadJob i).otherThreadPendingFuncs = w.otherThreadPendingFuncs := by
  unfold runOtherThreadJob
  split
  . rename_i job _
    cases job.func <;> exact ⟨rfl, rfl⟩
  . exact ⟨rfl, rfl⟩

-- `handle_close` is run or stays in the vector.
theorem closing_runOtherThreadJob {i : Nat} (hclose : HasClose (w.otherThreadJobSwapCacheVec.drop i))
    (hthread : w.threadId ≠ none)
    : (w.runOtherThreadJob i).Closing 1 ∧ (w.runOtherThreadJob i).loops = w.loops := by
  rcases runOtherThreadJob_cases w i with ⟨job, hjob, hcache, hpc, hloops, hstate⟩ | ⟨hnone, -⟩
  . refine ⟨?_, hloops⟩
    obtain ⟨x, hx, hfunc⟩ := hclose
    obtain ⟨hi, hget⟩ := List.getElem?_eq_some_iff.mp hjob
    rw [List.drop_eq_getElem_cons hi, List.mem_cons] at hx
    rcases hx with rfl | hx
    . have h : (w.runOtherThreadJob i).Closing (w.runOtherThreadJob i).pc.inLoopOnce.toNat :=
        .stopped (hstate (.inl (hget ▸ hfunc))) (by rw [hpc]; exact nofun)
          (by rw [(runOtherThreadJob_frame w i).1]; exact hthread)
      rw [hpc] at h
      exact h
    . exact .swapped i hpc (by rw [hcache]; exact ⟨x, hx, hfunc⟩)
  . obtain ⟨x, hx, -⟩ := hclose
    rw [List.drop_eq_nil_of_le (List.getElem?_eq_none_iff.mp hnone)] at hx
    cases hx

theorem Started.tick (h : w.Started)
    : w.tick.Started ∧ w.tick.threadId = w.threadId := by
  have hthread : w.tick.threadId = w.threadId := by
    by_cases hjobs : w.pc = .otherThreadJobs
    . rw [tick_of_otherThreadJobs hjobs]
      split <;> rfl
    by_cases hswap : w.pc = .swap
    . rw [tick_of_swap hswap]
      exact (runOtherThreadJob_frame _ 0).1
    cases hpc : w.pc with
    | otherThreadJob i =>
      rw [tick_of_otherThreadJob hpc]
      exact (runOtherThreadJob_frame w (i + 1)).1
    | outside | starting => simp only [EventLoop.tick, hpc]
    | loopCheck =>
      simp only [EventLoop.tick, hpc]
      split <;> rfl
    | _ => exact (tick_early (by rw [hpc]; rfl) hjobs hswap (by simp [hpc])).threadId
  refine ⟨?_, hthread⟩
  intro hnone
  rw [hthread] at hnone
  have houtside := h hnone
  simp only [EventLoop.tick, houtside]

theorem Closing.tick_otherThreadJobs (h : w.Closing k) (hpc : w.pc = .otherThreadJobs)
    : ∃ k', w.tick.Closing k' ∧ k' + w.tick.loops ≤ k + w.loops := by
  have hlog := loops_addLog w (e := .drains .otherThread (ids w.otherThreadPendingFuncs)) (by simp)
  cases h with
  | queued hclose =>
    have hne : w.otherThreadPendingFuncs ≠ [] := by
      obtain ⟨job, hjob, -⟩ := hclose
      exact List.ne_nil_of_mem hjob
    rw [tick_of_otherThreadJobs hpc, if_neg hne, hpc]
    exact ⟨1, .queued hclose, Nat.le_of_eq (congrArg (1 + ·) hlog)⟩
  | swapped i hi hclose =>
    rw [hpc] at hi
    cases hi
  | stopped hstop hnot hknown =>
    rw [tick_of_otherThreadJobs hpc, hpc]
    split
    . have hloops := endLoopOnce_loops (w.addLog (.drains .otherThread (ids w.otherThreadPendingFuncs)))
      rw [hlog] at hloops
      refine ⟨0, .stopped hstop nofun hknown, ?_⟩
      rw [hloops]
      exact Nat.le_of_eq ((Nat.zero_add _).trans (Nat.add_comm w.loops 1))
    . exact ⟨1, .stopped hstop nofun hknown, Nat.le_of_eq (congrArg (1 + ·) hlog)⟩

-- The state has been written, the jobs do not matter any more.
theorem closing_of_stopped_runOtherThreadJob {i : Nat} (hstop : w.eeState = .esStop) (hthread : w.threadId ≠ none)
    : ∃ k', (w.runOtherThreadJob i).Closing k' ∧ k' + (w.runOtherThreadJob i).loops ≤ 1 + w.loops := by
  have hthread' : (w.runOtherThreadJob i).threadId ≠ none := by
    rw [(runOtherThreadJob_frame w i).1]
    exact hthread
  rcases runOtherThreadJob_cases w i with ⟨job, -, -, hpc, hloops, hstate⟩ | ⟨-, hpc, hloops, hstate⟩
  . refine ⟨_, .stopped (hstate (.inr hstop)) (by rw [hpc]; exact nofun) hthread', ?_⟩
    rw [hpc, hloops]
    exact Nat.le_refl _
  . refine ⟨_, .stopped (hstate.trans hstop) (by rw [hpc]; exact nofun) hthread', ?_⟩
    rw [hpc, hloops]
    simp only [Pc.inLoopOnce, Bool.toNat_false]
    omega

theorem Closing.tick_swap (h : w.Closing k) (hpc : w.pc = .swap) (hthread : w.threadId ≠ none)
    : ∃ k', w.tick.Closing k' ∧ k' + w.tick.loops ≤ k + w.loops := by
  rw [tick_of_swap hpc]
  cases h with
  | queued hclose =>
    obtain ⟨h₁, hloops⟩ := closing_runOtherThreadJob (i := 0) (w := { w with
      otherThreadPendingFuncs := w.otherThreadJobSwapCacheVec
      otherThreadJobSwapCacheVec := w.otherThreadPendingFuncs }) hclose hthread
    have hk : w.pc.queuedLoops = 1 := by rw [hpc]; rfl
    rw [hk]
    exact ⟨1, h₁, Nat.le_of_eq (congrArg (1 + ·) hloops)⟩
  | swapped i hi hclose =>
    rw [hpc] at hi
    cases hi
  | stopped hstop hnot hknown =>
    have hk : w.pc.inLoopOnce.toNat = 1 := by rw [hpc]; rfl
    rw [hk]
    exact closing_of_stopped_runOtherThreadJob (w := { w with
      otherThreadPendingFuncs := w.otherThreadJobSwapCacheVec
      otherThreadJobSwapCacheVec := w.otherThreadPendingFuncs }) hstop hthread

theorem Closing.tick_otherThreadJob {i : Nat} (h : w.Closing k) (hpc : w.pc = .otherThreadJob i)
    (hthread : w.threadId ≠ none)
    : ∃ k', w.tick.Closing k' ∧ k' + w.tick.loops ≤ k + w.loops := by
  rw [tick_of_otherThreadJob hpc]
  cases h with
  | queued hclose =>
    rw [hpc]
    have hclose' : HasClose (w.runOtherThreadJob (i + 1)).otherThreadPendingFuncs := by
      rw [(runOtherThreadJob_frame w (i + 1)).2]
      exact hclose
    refine ⟨_, .queued hclose', ?_⟩
    rcases runOtherThreadJob_cases w (i + 1) with ⟨job, -, -, hpc', hloops, -⟩ | ⟨-, hpc', hloops, -⟩
    . rw [hpc', hloops]
      exact Nat.le_refl _
    . rw [hpc', hloops]
      simp only [Pc.queuedLoops]
      omega
  | swapped j hj hclose =>
    rw [hpc] at hj
    cases hj
    obtain ⟨h₁, hloops⟩ := closing_runOtherThreadJob hclose hthread
    exact ⟨1, h₁, Nat.le_of_eq (congrArg (1 + ·) hloops)⟩
  | stopped hstop hnot hknown =>
    rw [hpc]
    exact closing_of_stopped_runOtherThreadJob hstop hthread

theorem Closing.tick_early (h : w.Closing k) (hearly : Early w w.tick) (hloop : w.pc.inLoopOnce)
    (hjob : ∀ i, w.pc ≠ .otherThreadJob i)
    : ∃ k', w.tick.Closing k' ∧ k' + w.tick.loops ≤ k + w.loops := by
  refine ⟨k, ?_, Nat.le_of_eq (congrArg (k + ·) hearly.loops)⟩
  cases h with
  | queued hclose =>
    have hqueued : ∀ {pc : Pc}, (∀ i, pc ≠ .otherThreadJob i) → pc.queuedLoops = 1 := by
      intro pc hpc
      cases pc with
      | otherThreadJob i => exact absurd rfl (hpc i)
      | _ => rfl
    rw [hqueued hjob, ← hqueued hearly.notJob]
    exact .queued (hearly.queue ▸ hclose)
  | swapped i hi hclose => exact absurd hi (hjob i)
  | stopped hstop hnot hknown =>
    rw [hloop, ← hearly.inLoopOnce]
    refine .stopped (hearly.stop hstop) ?_ (hearly.threadId ▸ hknown)
    intro hstarting
    have := hearly.inLoopOnce
    rw [hstarting] at this
    cases this

theorem Closing.tick (h : w.Closing k) (hstarted : w.Started)
    : ∃ k', w.tick.Closing k' ∧ k' + w.tick.loops ≤ k + w.loops := by
  have hthread : w.pc ≠ .outside → w.threadId ≠ none := fun hpc hnone => hpc (hstarted hnone)
  cases hpc : w.pc with
  | otherThreadJobs => exact h.tick_otherThreadJobs hpc
  | swap => exact h.tick_swap hpc (hthread (by simp [hpc]))
  | otherThreadJob i => exact h.tick_otherThreadJob hpc (hthread (by simp [hpc]))
  | outside =>
    have htick : w.tick = w := by simp only [EventLoop.tick, hpc]
    rw [htick]
    exact ⟨k, h, Nat.le_refl _⟩
  | starting =>
    simp only [EventLoop.tick, hpc]
    cases h with
    | queued hclose =>
      rw [hpc]
      exact ⟨1, .queued hclose, Nat.le_refl _⟩
    | swapped i hi hclose =>
      rw [hpc] at hi
      cases hi
    | stopped hstop hnot hknown => exact absurd hpc hnot
  | loopCheck =>
    simp only [EventLoop.tick, hpc]
    cases h with
    | queued hclose =>
      rw [hpc]
      split
      . exact ⟨1, .queued hclose, Nat.le_refl _⟩
      . exact ⟨1, .queued hclose, Nat.le_refl _⟩
    | swapped i hi hclose =>
      rw [hpc] at hi
      cases hi
    | stopped hstop hnot hknown =>
      rw [hpc, if_neg (by simp [hstop])]
      exact ⟨0, .stopped hstop nofun hknown, Nat.le_refl _⟩
  | _ =>
    have hloop : w.pc.inLoopOnce := by rw [hpc]; rfl
    have hjob : ∀ i, w.pc ≠ .otherThreadJob i := by simp [hpc]
    exact h.tick_early (EventLoop.tick_early hloop (by simp [hpc]) (by simp [hpc]) hjob) hloop hjob

/-! ### Runs -/

-- `start_loop` is called at most once.
def StartsLeft (w : EventLoop J) (as : List (Action J)) : Prop :=
  as.countP Action.isStart ≤ if w.threadId = none then 1 else 0

theorem Started.step (h : w.Started) (a : Action J)
    : (w.step a).Started := by
  cases htick : a.isTick with
  | true =>
    cases a with
    | tick => exact h.tick.1
    | _ => cases htick
  | false =>
    cases hstart : a.isStart with
    | true =>
      cases a with
      | startLoop t =>
        dsimp only [EventLoop.step, startLoop]
        split
        . split
          . exact nofun
          . exact h
        . exact h
      | _ => cases hstart
    | false =>
      obtain ⟨hthread, hpc, -⟩ := step_control (w := w) htick hstart
      intro hnone
      have houtside := h (hthread ▸ hnone)
      rcases hpc with hpc | ⟨c, c', hpc, -⟩
      . exact hpc.trans houtside
      . rw [houtside] at hpc
        cases hpc

-- The state that `start_loop` writes first leaves the job queued.
theorem Closing.startLoop (h : w.Closing k) (t : Nat) (hthread : w.threadId = none)
    : (w.step (.startLoop t)).Closing k ∧ (w.step (.startLoop t)).loops = w.loops := by
  dsimp only [EventLoop.step, EventLoop.startLoop]
  split
  . rename_i houtside
    split
    . cases h with
      | queued hclose =>
        rw [houtside]
        exact ⟨.queued hclose, rfl⟩
      | swapped i hi hclose =>
        rw [houtside] at hi
        cases hi
      | stopped hstop hnot hknown => exact absurd hthread hknown
    . exact ⟨h, rfl⟩
  . exact ⟨h, rfl⟩

theorem Closing.step (h : w.Closing k) (hstarted : w.Started) {a : Action J} {as : List (Action J)}
    (hstarts : w.StartsLeft (a :: as))
    : (∃ k', (w.step a).Closing k' ∧ k' + (w.step a).loops ≤ k + w.loops) ∧ (w.step a).StartsLeft as := by
  unfold StartsLeft at *
  rw [List.countP_cons] at hstarts
  cases htick : a.isTick with
  | true =>
    cases a with
    | tick =>
      refine ⟨h.tick hstarted, ?_⟩
      change _ ≤ if w.tick.threadId = none then 1 else 0
      rw [hstarted.tick.2]
      exact hstarts
    | _ => cases htick
  | false =>
    cases hstart : a.isStart with
    | true =>
      cases a with
      | startLoop t =>
        simp only [hstart, if_true] at hstarts
        have hnone : w.threadId = none := by
          by_contra hknown
          rw [if_neg hknown] at hstarts
          omega
        obtain ⟨h', hloops⟩ := h.startLoop t hnone
        refine ⟨⟨k, h', Nat.le_of_eq (congrArg (k + ·) hloops)⟩, ?_⟩
        rw [if_pos hnone] at hstarts
        omega
      | _ => cases hstart
    | false =>
      obtain ⟨h', hloops⟩ := h.step_other htick hstart
      refine ⟨⟨k, h', Nat.le_of_eq (congrArg (k + ·) hloops)⟩, ?_⟩
      rw [(step_control (w := w) htick hstart).1]
      simpa [hstart] using hstarts

theorem Closing.run (h : w.Closing k) (hstarted : w.Started) {as : List (Action J)} (hstarts : w.StartsLeft as)
    : ∃ k', (run w as).Closing k' ∧ k' + (run w as).loops ≤ k + w.loops := by
  induction as generalizing w k with
  | nil => exact ⟨k, h, Nat.le_refl _⟩
  | cons a as ih =>
    obtain ⟨⟨k₁, h₁, hle₁⟩, hstarts₁⟩ := h.step hstarted hstarts
    obtain ⟨k₂, h₂, hle₂⟩ := ih h₁ (hstarted.step a) hstarts₁
    exact ⟨k₂, h₂, Nat.le_trans hle₂ hle₁⟩

/-! ### The thread of the loop on its own -/

-- The steps until `loop_once` returns, if no other thread and no callback adds to them.
def rank (w : EventLoop J) : Nat :=
  let other := w.otherThreadPendingFuncs.length
  let same := w.sameThreadPendingFuncs.length
  let busy := w.busyPollEvts.length
  match w.pc with
  | .outside | .starting | .loopCheck => 0
  | .otherThreadJob i => w.otherThreadJobSwapCacheVec.length - i + 1
  | .swap => other + 2
  | .otherThreadJobs => other + 3
  | .dispatching _ => other + 4
  | .dispatch => other + 5
  | .sameThreadJob i cnt => other + 6 + (cnt - i)
  | .sameThreadJobs => other + 7 + same
  | .busyPoll rest => other + 8 + same + rest.length
  | .busyPolls => other + 9 + same + busy
  -- an instruction may add to the events that are polled
  | .instruction _ rest => other + 10 + same + busy + 2 * rest.length
  | .newInstructions => other + 11 + same + busy + 2 * w.evtHandlersCache.length

theorem insertHandler_length (hs : List Handler) (h : Handler)
    : (insertHandler hs h).length ≤ hs.length + 1 := by
  unfold insertHandler
  split <;> simp

theorem processNewInstruction_rank (w : EventLoop J) (infos : List EventInfo)
    : (w.processNewInstruction infos).rank
      < w.otherThreadPendingFuncs.length + 10 + w.sameThreadPendingFuncs.length + w.busyPollEvts.length
        + 2 * infos.length := by
  cases infos with
  | nil => simp [processNewInstruction, rank]
  | cons info rest =>
    have hinsert := insertHandler_length w.busyPollEvts info.evtPtr
    have herase := List.length_erase_le (a := info.evtPtr) (l := w.busyPollEvts)
    unfold processNewInstruction processAddInstruction processRemoveInstruction
    dsimp only
    repeat' split
    all_goals
      simp only [rank, List.length_cons]
      omega

theorem runSameThreadJob_rank (w : EventLoop J) (i cnt : Nat)
    : (w.runSameThreadJob i cnt).rank
      ≤ if i < cnt then w.otherThreadPendingFuncs.length + 6 + (cnt - i) else w.otherThreadPendingFuncs.length + 5 := by
  unfold runSameThreadJob
  split
  . split
    . rename_i job _ _
      cases job.func <;> simp [rank, runFunc, addLog]
    . simp [rank]
  . simp [rank]

theorem runOtherThreadJob_rank (w : EventLoop J) (i : Nat)
    : (w.runOtherThreadJob i).rank
      ≤ if i < w.otherThreadJobSwapCacheVec.length then w.otherThreadJobSwapCacheVec.length - i + 1 else 0 := by
  unfold runOtherThreadJob
  split
  . rename_i job hjob
    rw [if_pos (List.getElem?_eq_some_iff.mp hjob).1]
    cases job.func <;> simp [rank, runFunc, addLog]
  . simp [rank, endLoopOnce]

theorem tick_rank_lt (hloop : w.pc.inLoopOnce) (hwait : w.pc ≠ .dispatching false)
    : w.tick.rank < w.rank := by
  cases hpc : w.pc with
  | outside | starting | loopCheck =>
    rw [hpc] at hloop
    cases hloop
  | newInstructions =>
    have h := processNewInstruction_rank { w with evtHandlersCache := [] } w.evtHandlersCache
    simp only [tick, hpc, rank] at h ⊢
    omega
  | instruction called rest =>
    have h := processNewInstruction_rank w rest
    simp only [tick, hpc, rank] at h ⊢
    omega
  | busyPolls =>
    have hrank : w.rank = w.otherThreadPendingFuncs.length + 9 + w.sameThreadPendingFuncs.length
        + w.busyPollEvts.length := by
      simp only [rank, hpc]
    simp only [tick, hpc]
    cases hbusy : w.busyPollEvts with
    | nil =>
      rw [hrank]
      simp only [if_true, rank]
      omega
    | cons h rest =>
      rw [hrank, hbusy, if_neg (by simp)]
      simp only [handleBusyPolls, rank, List.length_cons]
      omega
  | busyPoll rest =>
    simp only [tick, hpc, rank]
    cases rest with
    | nil => simp [handleBusyPolls]
    | cons h rest => simp [handleBusyPolls]
  | sameThreadJobs =>
    rw [tick_of_sameThreadJobs hpc]
    split
    . simp only [rank, hpc, addLog]
      omega
    . have h := runSameThreadJob_rank (w.addLog (.drains .sameThread (ids w.sameThreadPendingFuncs))) 0
        (w.sameThreadPendingFuncs.length % 2 ^ 32)
      have hmod := Nat.mod_le w.sameThreadPendingFuncs.length (2 ^ 32)
      have hrank : w.rank = w.otherThreadPendingFuncs.length + 7 + w.sameThreadPendingFuncs.length := by
        simp only [rank, hpc]
      simp only [addLog] at h ⊢
      split at h <;> omega
  | sameThreadJob i cnt =>
    rw [tick_of_sameThreadJob hpc]
    have h := runSameThreadJob_rank { w with sameThreadPendingFuncs := w.sameThreadPendingFuncs.tail } (i + 1) cnt
    have hrank : w.rank = w.otherThreadPendingFuncs.length + 6 + (cnt - i) := by
      simp only [rank, hpc]
    simp only at h
    split at h <;> omega
  | dispatch =>
    rw [tick_of_dispatch hpc]
    simp [rank, hpc, addLog]
  | dispatching completed =>
    cases completed with
    | false => exact absurd hpc hwait
    | true => simp [tick, rank, hpc]
  | otherThreadJobs =>
    rw [tick_of_otherThreadJobs hpc]
    split
    . simp [rank, hpc, endLoopOnce]
    . simp [rank, hpc, addLog]
  | swap =>
    rw [tick_of_swap hpc]
    have h := runOtherThreadJob_rank { w with
      otherThreadPendingFuncs := w.otherThreadJobSwapCacheVec
      otherThreadJobSwapCacheVec := w.otherThreadPendingFuncs } 0
    have hrank : w.rank = w.otherThreadPendingFuncs.length + 2 := by
      simp only [rank, hpc]
    simp only at h
    split at h <;> omega
  | otherThreadJob i =>
    rw [tick_of_otherThreadJob hpc]
    have h := runOtherThreadJob_rank w (i + 1)
    have hrank : w.rank = w.otherThreadJobSwapCacheVec.length - i + 1 := by
      simp only [rank, hpc]
    split at h <;> omega

-- The thread of the loop alone, with its timer.
def OnlyLoop (as : List (Action J)) : Prop :=
  ∀ a ∈ as, a = .tick ∨ a = .complete .internalTimer fun _ => false

theorem tick_inLoopOnce (hloop : w.pc.inLoopOnce)
    : w.tick.pc.inLoopOnce ∨ w.tick.pc = .loopCheck ∧ w.tick.loops = w.loops + 1 := by
  cases hpc : w.pc with
  | outside | starting | loopCheck =>
    rw [hpc] at hloop
    cases hloop
  | otherThreadJobs =>
    rw [tick_of_otherThreadJobs hpc]
    split
    . refine .inr ⟨rfl, ?_⟩
      rw [endLoopOnce_loops, loops_addLog w (by simp)]
    . exact .inl rfl
  | swap =>
    rw [tick_of_swap hpc]
    rcases runOtherThreadJob_cases { w with
        otherThreadPendingFuncs := w.otherThreadJobSwapCacheVec
        otherThreadJobSwapCacheVec := w.otherThreadPendingFuncs } 0 with
      ⟨job, -, -, hpc', -⟩ | ⟨-, hpc', hloops, -⟩
    . exact .inl (by rw [hpc']; rfl)
    . exact .inr ⟨hpc', hloops⟩
  | otherThreadJob i =>
    rw [tick_of_otherThreadJob hpc]
    rcases runOtherThreadJob_cases w (i + 1) with ⟨job, -, -, hpc', -⟩ | ⟨-, hpc', hloops, -⟩
    . exact .inl (by rw [hpc']; rfl)
    . exact .inr ⟨hpc', hloops⟩
  | _ => exact .inl (tick_early hloop (by simp [hpc]) (by simp [hpc]) (by simp [hpc])).inLoopOnce

-- The internal timer ends the `dispatch` that waits.
theorem complete_internalTimer (hpc : w.pc = .dispatching false) (htimer : .internalTimer ∈ w.requests)
    : let w' := w.step (.complete .internalTimer fun _ => false)
      w'.pc = .dispatching true ∧ w'.rank = w.rank ∧ w'.loops = w.loops := by
  have hcan : w.canComplete .internalTimer := by simp [canComplete, htimer]
  simp [step, hpc, hcan, rank, loops, complete, onTimer]

-- `loop_once` returns.
theorem exists_loopCheck (hloop : w.pc.inLoopOnce) (htimer : .internalTimer ∈ w.requests)
    : ∃ as, OnlyLoop as ∧ (run w as).pc = .loopCheck ∧ w.loops < (run w as).loops := by
  induction hn : w.rank using Nat.strongRecOn generalizing w with
  | ind n ih =>
    -- a step of the thread of the loop that does not wait
    have hstep : ∀ {w' : EventLoop J}, w'.pc.inLoopOnce → w'.pc ≠ .dispatching false → .internalTimer ∈ w'.requests
        → w'.rank = n → ∃ as, OnlyLoop as ∧ (run w' as).pc = .loopCheck ∧ w'.loops < (run w' as).loops := by
      intro w' hloop' hwait htimer' hn'
      rcases tick_inLoopOnce hloop' with hin | ⟨hpc, hloops⟩
      . have hlt := tick_rank_lt hloop' hwait
        obtain ⟨as, honly, hpc, hloops⟩ := ih _ (hn' ▸ hlt) hin (step_internalTimer_mem .tick htimer') rfl
        refine ⟨.tick :: as, List.forall_mem_cons.mpr ⟨.inl rfl, honly⟩, hpc, ?_⟩
        exact Nat.lt_of_le_of_lt ((step_log w' .tick).sublist.count_le _) hloops
      . exact ⟨[.tick], by simp [OnlyLoop], hpc, by simp [run, step, hloops]⟩
    by_cases hwait : w.pc = .dispatching false
    . obtain ⟨hpc, hrank, hloops⟩ := complete_internalTimer hwait htimer
      obtain ⟨as, honly, hpc', hloops'⟩ := hstep (by rw [hpc]; rfl) (by simp [hpc]) (step_internalTimer_mem _ htimer)
        (hrank.trans hn)
      exact ⟨_ :: as, List.forall_mem_cons.mpr ⟨.inr rfl, honly⟩, hpc', hloops ▸ hloops'⟩
    . exact hstep hloop hwait htimer hn

theorem OnlyLoop.startsLeft {as : List (Action J)} (h : OnlyLoop as) (w : EventLoop J)
    : w.StartsLeft as := by
  have hzero : as.countP Action.isStart = 0 := by
    rw [List.countP_eq_zero]
    intro a ha
    rcases h a ha with rfl | rfl <;> simp [Action.isStart]
  rw [StartsLeft, hzero]
  exact Nat.zero_le _

theorem OnlyLoop.append {as bs : List (Action J)} (h : OnlyLoop as) (h' : OnlyLoop bs)
    : OnlyLoop (as ++ bs) := by
  intro a ha
  rcases List.mem_append.mp ha with ha | ha
  . exact h a ha
  . exact h' a ha

theorem Started.run (h : w.Started) (as : List (Action J))
    : (run w as).Started :=
  foldl_invariant (I := Started) as (fun _ a _ h => h.step a) h

theorem run_internalTimer_mem (as : List (Action J)) (h : .internalTimer ∈ w.requests)
    : .internalTimer ∈ (run w as).requests :=
  foldl_invariant (I := fun w : EventLoop J => .internalTimer ∈ w.requests) as
    (fun _ a _ h => step_internalTimer_mem a h) h

-- The loop is left when its state is checked or after one more `loop_once`, the induction is on what is left of them.
theorem Closing.exists_outside_of_loopCheck (h : w.Closing k) (hstarted : w.Started)
    (htimer : .internalTimer ∈ w.requests) (hpc : w.pc = .loopCheck)
    : ∃ as, OnlyLoop as ∧ (EventLoop.run w as).pc = .outside := by
  induction k using Nat.strongRecOn generalizing w with
  | ind k ih =>
    have htick : OnlyLoop [Action.tick (J := J)] := by simp [OnlyLoop]
    by_cases hstart : w.eeState = .esStart
    . obtain ⟨k₁, h₁, hle₁⟩ := h.run hstarted (htick.startsLeft w)
      have hpc₁ : (EventLoop.run w [Action.tick]).pc.inLoopOnce := by
        simp [EventLoop.run, EventLoop.step, EventLoop.tick, hpc, hstart, Pc.inLoopOnce]
      have hmono : w.loops ≤ (EventLoop.run w [Action.tick]).loops := (run_log w [Action.tick]).sublist.count_le _
      have htimer₁ := run_internalTimer_mem [Action.tick] htimer
      have hstarted₁ := hstarted.run [Action.tick]
      obtain ⟨as, honly, hpc₂, hlt⟩ := exists_loopCheck hpc₁ htimer₁
      obtain ⟨k₂, h₂, hle₂⟩ := h₁.run hstarted₁ (honly.startsLeft _)
      obtain ⟨bs, honly', hpc₃⟩ := ih k₂ (by omega) h₂ (hstarted₁.run as) (run_internalTimer_mem as htimer₁) hpc₂
      refine ⟨[Action.tick] ++ as ++ bs, (htick.append honly).append honly', ?_⟩
      rw [run_append, run_append]
      exact hpc₃
    . refine ⟨[Action.tick], htick, ?_⟩
      simp [EventLoop.run, EventLoop.step, EventLoop.tick, hpc, hstart]

theorem Closing.exists_outside (h : w.Closing k) (hstarted : w.Started) (htimer : .internalTimer ∈ w.requests)
    : ∃ as, OnlyLoop as ∧ (EventLoop.run w as).pc = .outside := by
  have hgo : ∀ {as}, OnlyLoop as → (EventLoop.run w as).pc = .loopCheck
      → ∃ as, OnlyLoop as ∧ (EventLoop.run w as).pc = .outside := by
    intro as honly hpc
    obtain ⟨k', h', -⟩ := h.run hstarted (honly.startsLeft w)
    obtain ⟨bs, honly', hpc'⟩ := h'.exists_outside_of_loopCheck (hstarted.run as) (run_internalTimer_mem as htimer) hpc
    exact ⟨as ++ bs, honly.append honly', by rw [run_append]; exact hpc'⟩
  cases hpc : w.pc with
  | outside => exact ⟨[], nofun, hpc⟩
  | starting =>
    have htick : OnlyLoop [Action.tick (J := J)] := by simp [OnlyLoop]
    apply hgo htick
    simp [EventLoop.run, EventLoop.step, EventLoop.tick, hpc]
  | loopCheck => exact hgo (show OnlyLoop [] from nofun) hpc
  | _ =>
    obtain ⟨as, honly, hpc', -⟩ := exists_loopCheck (by rw [hpc]; rfl) htimer
    exact hgo honly hpc'

theorem step_threadId (w : EventLoop J) (hstarted : w.Started) (a : Action J)
    : (w.step a).threadId = w.threadId ∨ ∃ t, a = .startLoop t ∧ (w.step a).threadId = some t := by
  cases htick : a.isTick with
  | true =>
    cases a with
    | tick => exact .inl hstarted.tick.2
    | _ => cases htick
  | false =>
    cases hstart : a.isStart with
    | true =>
      cases a with
      | startLoop t =>
        dsimp only [step, startLoop]
        repeat' split
        . exact .inr ⟨t, rfl, rfl⟩
        . exact .inl rfl
        . exact .inl rfl
      | _ => cases hstart
    | false => exact .inl (step_control (w := w) htick hstart).1

theorem run_threadId (hstarted : w.Started) (hnone : w.threadId = none) (as : List (Action J))
    : (run w as).threadId = none ∨ ∃ t, .startLoop t ∈ as ∧ (run w as).threadId = some t := by
  have h : (run w as).Started
      ∧ ((run w as).threadId = none ∨ ∃ t, .startLoop t ∈ as ∧ (run w as).threadId = some t) := by
    apply foldl_invariant
      (I := fun w : EventLoop J => w.Started ∧ (w.threadId = none ∨ ∃ t, .startLoop t ∈ as ∧ w.threadId = some t)) as
    . rintro w a ha ⟨hstarted, hw⟩
      refine ⟨hstarted.step a, ?_⟩
      rcases step_threadId w hstarted a with heq | ⟨t, rfl, heq⟩
      . rw [heq]
        exact hw
      . exact .inr ⟨t, ha, heq⟩
    . exact ⟨hstarted, .inl hnone⟩
  exact h.2

-- `close` has returned.
theorem closing_of_runInEventLoop {t : Nat} (hthread : w.threadId ≠ some t)
    : (w.step (.runInEventLoop t (some .handleClose))).Closing
      (w.step (.runInEventLoop t (some .handleClose))).pc.queuedLoops := by
  apply Closing.queued
  have hcall : w.mayCall t := by simp [mayCall, hthread.symm]
  simp only [step, hcall, if_true, runInEventLoop, hthread.symm, ne_eq, not_false_eq_true, wakeUp]
  refine ⟨⟨w.nextJob, .handleClose⟩, ?_, rfl⟩
  split
  . exact List.mem_append_right _ List.mem_cons_self
  . exact List.mem_append_right _ List.mem_cons_self

theorem openLoop_suc {param : PollParam} {results : OpenResults}
    (hopen : (({} : EventLoop J).openLoop param results).2 = RET_SUC)
    : let w := (({} : EventLoop J).openLoop param results).1
      w.threadId = none ∧ w.pc = .outside ∧ .internalTimer ∈ w.requests := by
  revert hopen
  unfold openLoop openNotifier submitReadRequest
  dsimp only
  repeat' split
  all_goals simp_all [RET_SUC, RET_ERR]

/--
When a `close` of another thread has returned, the `loop_once` that is running and one more return at most, and
`start_loop` returns, wherever in `start_loop` the state has been written and the job has been posted.
-/
theorem run_close_returns (param : PollParam) (results : OpenResults)
    (hopen : (({} : EventLoop J).openLoop param results).2 = RET_SUC) (t : Nat) (before between after : List (Action J))
    (hone : (before ++ between ++ after).countP Action.isStart ≤ 1)
    (hother : ∀ t', Action.startLoop t' ∈ before ++ between → t' ≠ t)
    : let closed := run (({} : EventLoop J).openLoop param results).1
        (before ++ [Action.stop t] ++ between ++ [Action.runInEventLoop t (some .handleClose)])
      let bound := closed.loops + if closed.pc.inLoopOnce then 2 else 1
      (run closed after).loops ≤ bound
        ∧ ∃ as, OnlyLoop as ∧ (run (run closed after) as).pc = .outside
          ∧ (run (run closed after) as).loops ≤ bound := by
  obtain ⟨hnone, houtside, htimer⟩ := openLoop_suc hopen
  have hstarted : (({} : EventLoop J).openLoop param results).1.Started := fun _ => houtside
  generalize (({} : EventLoop J).openLoop param results).1 = w₀ at *
  have hpush : run w₀ (before ++ [Action.stop t] ++ between ++ [Action.runInEventLoop t (some .handleClose)])
      = (run w₀ (before ++ [Action.stop t] ++ between)).step (Action.runInEventLoop t (some .handleClose)) :=
    run_append ..
  have hthread := run_threadId hstarted hnone (before ++ [Action.stop t] ++ between)
  have hstarted₁ := hstarted.run (before ++ [Action.stop t] ++ between)
  have htimer₁ := run_internalTimer_mem (before ++ [Action.stop t] ++ between) htimer
  rw [hpush]
  generalize run w₀ (before ++ [Action.stop t] ++ between) = w₁ at *
  have hmem : ∀ t', Action.startLoop t' ∈ before ++ [Action.stop t] ++ between
      → Action.startLoop t' ∈ before ++ between := by
    intro t' ht'
    simpa using ht'
  have hclosing : (w₁.step (Action.runInEventLoop t (some .handleClose))).Closing
      (w₁.step (Action.runInEventLoop t (some .handleClose))).pc.queuedLoops := by
    apply closing_of_runInEventLoop
    rcases hthread with hthread | ⟨t', ht', hthread⟩
    . rw [hthread]
      exact nofun
    . rw [hthread]
      exact fun heq => hother t' (hmem t' ht') (Option.some.inj heq)
  have hthread₂ : (w₁.step (Action.runInEventLoop t (some .handleClose))).threadId = w₁.threadId :=
    (step_control (w := w₁) rfl rfl).1
  have hstarts : (w₁.step (Action.runInEventLoop t (some .handleClose))).StartsLeft after := by
    unfold StartsLeft
    rw [List.countP_append] at hone
    rw [hthread₂]
    split
    . omega
    . rename_i hknown
      obtain ⟨t', ht', -⟩ := hthread.resolve_left hknown
      have hpos : 0 < (before ++ between).countP Action.isStart := List.countP_pos_iff.mpr ⟨_, hmem t' ht', rfl⟩
      omega
  have hstarted₂ := hstarted₁.step (Action.runInEventLoop t (some .handleClose))
  have htimer₂ := step_internalTimer_mem (Action.runInEventLoop t (some .handleClose)) htimer₁
  generalize w₁.step (Action.runInEventLoop t (some .handleClose)) = closed at *
  have hbound : closed.pc.queuedLoops ≤ if closed.pc.inLoopOnce then 2 else 1 := by
    cases closed.pc <;> simp [Pc.queuedLoops, Pc.inLoopOnce]
  obtain ⟨k₂, h₂, hle₂⟩ := hclosing.run hstarted₂ hstarts
  obtain ⟨as, honly, hpc⟩ := h₂.exists_outside (hstarted₂.run after) (run_internalTimer_mem after htimer₂)
  obtain ⟨k₃, -, hle₃⟩ := h₂.run (hstarted₂.run after) (honly.startsLeft _)
  dsimp only
  exact ⟨by omega, as, honly, hpc, by omega⟩

-- Thread `1` calls `close` after thread `0` has checked the state, then thread `0` overwrites the state.
def overwrittenClose : EventLoop Unit :=
  run (({} : EventLoop Unit).openLoop {} ⟨true, true, 4, 0⟩).1
    ([Action.startLoop 0] ++ [Action.stop 1] ++ [Action.tick] ++ [Action.runInEventLoop 1 (some .handleClose)])

theorem overwrittenClose_returns
    : overwrittenClose.eeState = .esStart
      ∧ (run overwrittenClose (List.replicate 7 .tick)).pc = .dispatching false
      ∧ ∃ as, OnlyLoop as ∧ (run (run overwrittenClose (List.replicate 7 .tick)) as).pc = .outside
        ∧ (run (run overwrittenClose (List.replicate 7 .tick)) as).loops ≤ 1 := by
  refine ⟨rfl, rfl, ?_⟩
  have h := run_close_returns {} ⟨true, true, 4, 0⟩ rfl 1 [.startLoop 0] [.tick] (List.replicate 7 (.tick (J := Unit)))
    (by decide) (by simp)
  exact h.2

end EventLoop

end Event
end Ezio
