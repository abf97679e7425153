import Ezio.Coroutine.Frames.Lemmas

/-!
This module contains what each step does to the frames of a thread. A step destroys the frames `destroys`
lists and keeps the invariant if all of them return to the allocator they came from.
-/

namespace Ezio
namespace Coroutine
namespace Frames

variable {w w' : Frames} {s f : Nat} {svc : Service} {fr : Frame}

-- The frames that a step gives to `frame_free`.
def destroys (w : Frames) : Step → List Nat
  | .destruct s | .clearSpawned s => (w.tasks s).filterMap (·.handle)
  | .destroy f =>
    match w.frames f with
    | some { status := .suspended, onFinalResume := none, .. }
    | some { status := .done, onFinalResume := none, .. } => [f]
    | _ => []
  | .spawn s f =>
    match w.services s, w.frames f with
    | some _, some { status := .done, onFinalResume := none, .. } => [f]
    | _, _ => []
  | _ => []

theorem Keeps.trans {w'' : Frames} (h : Keeps w w') (h' : Keeps w' w'')
    : Keeps w w'' :=
  ⟨h'.tasks.trans h.tasks, h'.pending.trans h.pending, h'.current.trans h.current,
    h'.nextService.trans h.nextService, h'.nextFrame.trans h.nextFrame⟩

theorem destroyFrame_returns (w : Frames) (f g : Nat)
    : (w.destroyFrame f).Returns g ↔ g = f ∨ w.Returns g := by
  simp only [Returns, destroyFrame_frames, (destroyFrame_keeps w f).current]
  by_cases hg : g = f
  . simp [hg]
  . simp [hg]

theorem foldl_destroyFrame_keeps (l : List Nat) (w : Frames)
    : Keeps w (l.foldl destroyFrame w) := by
  induction l generalizing w with
  | nil => exact .refl w
  | cons f l ih => exact (destroyFrame_keeps w f).trans (ih (w.destroyFrame f))

theorem foldl_destroyFrame_frames (l : List Nat) (w : Frames) (g : Nat)
    : (l.foldl destroyFrame w).frames g = if g ∈ l then none else w.frames g := by
  induction l generalizing w with
  | nil => simp
  | cons f l ih =>
    rw [List.foldl_cons, ih, destroyFrame_frames, Function.update_apply]
    by_cases hl : g ∈ l
    . simp [hl]
    . by_cases hg : g = f <;> simp [hl, hg]

theorem foldl_destroyFrame_memory (l : List Nat) (hmem : w.Memory) (hl : ∀ f ∈ l, w.Returns f)
    : (l.foldl destroyFrame w).Memory := by
  induction l generalizing w with
  | nil => exact hmem
  | cons f l ih =>
    apply ih
    . exact destroyFrame_memory hmem (hl f List.mem_cons_self)
    . intro g hg
      rw [destroyFrame_returns]
      exact .inr (hl g (List.mem_cons_of_mem f hg))

theorem foldl_destroyFrame_released_subset (l : List Nat) (w : Frames)
    : ∀ e ∈ w.released, e ∈ (l.foldl destroyFrame w).released := by
  induction l generalizing w with
  | nil => exact fun _ he => he
  | cons f l ih => exact fun e he => ih _ e (destroyFrame_released_subset w f e he)

theorem foldl_destroyFrame_returned (l : List Nat) (hmem : w.Memory)
    : (l.foldl destroyFrame w).Returned ↔ w.Returned ∧ ∀ f ∈ l, w.Returns f := by
  induction l generalizing w with
  | nil => simp
  | cons f l ih =>
    by_cases hf : w.Returns f
    . rw [List.foldl_cons, ih (destroyFrame_memory hmem hf), destroyFrame_returned hmem]
      simp only [destroyFrame_returns, List.mem_cons, forall_eq_or_imp]
      constructor
      . rintro ⟨⟨hold, -⟩, hl⟩
        refine ⟨hold, hf, ?_⟩
        intro g hg
        rcases hl g hg with heq | hreturns
        . rw [heq]
          exact hf
        . exact hreturns
      . rintro ⟨hold, -, hl⟩
        exact ⟨⟨hold, hf⟩, fun g hg => .inr (hl g hg)⟩
    -- the log keeps the frame that went to the wrong place
    . constructor
      . intro hall
        have hhead : (w.destroyFrame f).Returned := by
          intro e he
          exact hall e (foldl_destroyFrame_released_subset l _ e he)
        exact absurd ((destroyFrame_returned hmem).mp hhead).2 hf
      . intro hall
        exact absurd (hall.2 f List.mem_cons_self) hf

theorem memory_congr (h : w.Memory) (hpool : w'.pool = w.pool) (hblock : w'.block = w.block)
    (hservice : w'.nextService = w.nextService) (hframe : w'.nextFrame = w.nextFrame)
    (hcurrent : w'.currentCoroSvc = w.currentCoroSvc)
    : w'.Memory := by
  unfold Memory
  rw [hpool, hblock, hservice, hframe, hcurrent]
  exact h

-- A frame that no task of a `spawned_list_` holds is destroyed.
theorem destroyFrame_wf (h : w.Wf) (hreturns : w.Returns f)
    (hnone : ∀ fr, w.frames f = some fr → fr.onFinalResume = none)
    : (w.destroyFrame f).Wf := by
  have hkeeps := destroyFrame_keeps w f
  constructor
  . exact destroyFrame_memory h.memory hreturns
  . intro s t ht g hg
    rw [hkeeps.tasks] at ht
    obtain ⟨hiter, fr, hfr, hresume, hstatus⟩ := h.handle s t ht g hg
    refine ⟨hiter, fr, ?_, hresume, hstatus⟩
    rw [destroyFrame_frames, Function.update_of_ne]
    . exact hfr
    . intro heq
      rw [heq] at hfr
      rw [hnone fr hfr] at hresume
      cases hresume
  . intro s g hg
    rw [hkeeps.pending] at hg
    obtain ⟨hlt, hdone⟩ := h.pending s g hg
    rw [hkeeps.nextFrame]
    refine ⟨hlt, ?_⟩
    intro fr hfr
    rw [destroyFrame_frames, Function.update_apply] at hfr
    split at hfr
    . cases hfr
    . exact hdone fr hfr

theorem setStatus_wf {status : Status} (h : w.Wf) (hf : w.frames f = some fr) (hfr : fr.status ≠ .done)
    (hstatus : status ≠ .done)
    : (w.setFrame f (some { fr with status })).Wf := by
  have hget : ∀ g fr', w.frames g = some fr' → ∃ fr'', (w.setFrame f (some { fr with status })).frames g
      = some fr'' ∧ fr''.onFinalResume = fr'.onFinalResume ∧ (fr'.status ≠ .done → fr''.status ≠ .done) := by
    intro g fr' hg
    simp only [setFrame, Function.update_apply]
    split
    . rename_i heq
      rw [heq, hf] at hg
      cases hg
      exact ⟨_, rfl, rfl, fun _ => hstatus⟩
    . exact ⟨fr', hg, rfl, id⟩
  constructor
  . exact memory_congr h.memory rfl (setFrame_block_of_eq hf rfl) rfl rfl rfl
  . intro s t ht g hg
    obtain ⟨hiter, fr', hfr', hresume, hne⟩ := h.handle s t ht g hg
    obtain ⟨fr'', hfr'', hresume', hne'⟩ := hget g fr' hfr'
    exact ⟨hiter, fr'', hfr'', hresume'.trans hresume, hne' hne⟩
  . intro s g hg
    obtain ⟨hlt, hdone⟩ := h.pending s g hg
    refine ⟨hlt, ?_⟩
    intro fr' hfr'
    simp only [setFrame, Function.update_apply] at hfr'
    split at hfr'
    . rename_i heq
      rw [heq] at hdone
      exact absurd (hdone fr hf) hfr
    . exact hdone fr' hfr'

theorem resume_wf (h : w.Wf)
    : (w.resume f).Wf := by
  unfold resume
  split
  . rename_i fr hf
    split
    . rename_i hstatus
      exact setStatus_wf h hf (by simp [hstatus]) (by simp)
    . exact h
  . exact h

theorem suspend_wf (h : w.Wf)
    : (w.suspend f).Wf := by
  unfold suspend
  split
  . rename_i fr hf
    split
    . rename_i hstatus
      exact setStatus_wf h hf (by simp [hstatus]) (by simp)
    . exact h
  . exact h

theorem clearSpawned_eq (h : w.services s = some svc)
    : w.clearSpawned s = ((w.tasks s).filterMap (·.handle)).foldl destroyFrame
        (w.setService s
          (some { svc with spawnedList := [], pendingCleanup := [], cleanupPosted := false })) := by
  simp only [clearSpawned, h, dropTasks, tasks_eq h]

theorem clearSpawned_returned (h : w.Wf)
    : (w.clearSpawned s).Returned ↔ w.Returned ∧ ∀ f ∈ (w.tasks s).filterMap (·.handle), w.Returns f := by
  cases hsvc : w.services s with
  | none => simp [clearSpawned, hsvc, tasks]
  | some svc =>
    rw [clearSpawned_eq hsvc, foldl_destroyFrame_returned]
    . rfl
    . exact memory_congr h.memory (setService_pool_of_eq hsvc rfl) rfl rfl rfl rfl

theorem clearSpawned_wf (h : w.Wf) (hl : ∀ f ∈ (w.tasks s).filterMap (·.handle), w.Returns f)
    : (w.clearSpawned s).Wf := by
  cases hsvc : w.services s with
  | none =>
    simp only [clearSpawned, hsvc]
    exact h
  | some svc =>
    rw [clearSpawned_eq hsvc]
    have hkeeps := foldl_destroyFrame_keeps ((w.tasks s).filterMap (·.handle))
      (w.setService s (some { svc with spawnedList := [], pendingCleanup := [], cleanupPosted := false }))
    have hframes := foldl_destroyFrame_frames ((w.tasks s).filterMap (·.handle))
      (w.setService s (some { svc with spawnedList := [], pendingCleanup := [], cleanupPosted := false }))
    constructor
    . apply foldl_destroyFrame_memory
      . exact memory_congr h.memory (setService_pool_of_eq hsvc rfl) rfl rfl rfl rfl
      . exact hl
    . intro s' t ht g hg
      rw [hkeeps.tasks, setService_tasks, Function.update_apply] at ht
      split at ht
      . cases ht
      . rename_i hne
        obtain ⟨hiter, fr, hfr, hresume, hstatus⟩ := h.handle s' t ht g hg
        refine ⟨hiter, fr, ?_, hresume, hstatus⟩
        rw [hframes, if_neg]
        . exact hfr
        -- the frame is a task of another service
        . intro hmem
          obtain ⟨t', ht', hg'⟩ := List.mem_filterMap.mp hmem
          obtain ⟨-, fr', hfr', hresume', -⟩ := h.handle s t' ht' g hg'
          rw [hfr] at hfr'
          cases hfr'
          rw [hresume] at hresume'
          cases hresume'
          exact hne rfl
    . intro s' g hg
      rw [hkeeps.pending, setService_pending, Function.update_apply] at hg
      split at hg
      . cases hg
      . obtain ⟨hlt, hdone⟩ := h.pending s' g hg
        rw [hkeeps.nextFrame]
        refine ⟨hlt, ?_⟩
        intro fr hfr
        rw [hframes] at hfr
        split at hfr
        . cases hfr
        . exact hdone fr hfr

theorem destruct_wf (h : w.Wf) (hl : ∀ f ∈ (w.tasks s).filterMap (·.handle), w.Returns f)
    : (w.destruct s).Wf := by
  unfold destruct
  split
  . exact h
  . have hclear := clearSpawned_wf h hl
    generalize w.clearSpawned s = w' at hclear
    constructor
    . unfold Memory
      change Mem (w'.setService s none).pool w'.nextService w'.block w'.nextFrame none
      rw [setService_pool]
      exact hclear.memory.destruct
    . intro s' t ht
      change t ∈ (w'.setService s none).tasks s' at ht
      rw [setService_tasks, Function.update_apply] at ht
      split at ht
      . cases ht
      . exact hclear.handle s' t ht
    . intro s' g hg
      change g ∈ (w'.setService s none).pending s' at hg
      rw [setService_pending, Function.update_apply] at hg
      split at hg
      . cases hg
      . exact hclear.pending s' g hg

theorem construct_wf {blockSize capacity mem : Nat} (h : w.Wf)
    (hfits : (FramePool.new mem blockSize capacity).Fits)
    : (w.construct blockSize capacity mem).Wf := by
  unfold construct
  dsimp only
  split
  . rename_i hguard
    obtain ⟨-, hfresh⟩ := hguard
    have hnone : w.services w.nextService = none := by
      cases hs : w.services w.nextService with
      | none => rfl
      | some svc =>
        have hlt := h.memory.poolLt w.nextService svc.framePool (by simp [pool, hs])
        omega
    have htasks : (w.setService w.nextService
        (some { framePool := .new mem blockSize capacity })).tasks = w.tasks := by
      rw [setService_tasks]
      apply Function.update_eq_self_iff.mpr
      simp [tasks, hnone]
    have hpending : (w.setService w.nextService
        (some { framePool := .new mem blockSize capacity })).pending = w.pending := by
      rw [setService_pending]
      apply Function.update_eq_self_iff.mpr
      simp [Frames.pending, hnone]
    constructor
    . unfold Memory
      change Mem (w.setService _ _).pool (w.nextService + 1) w.block w.nextFrame (some w.nextService)
      rw [setService_pool]
      apply h.memory.construct hfits
      intro f b hf hb
      have hlt := h.memory.blockLt f b hf
      simp only [block, Option.map_eq_some_iff] at hf
      obtain ⟨fr, hfr, rfl⟩ := hf
      exact Or.symm (hfresh f hlt fr hfr hb)
    . intro s t ht
      change t ∈ (w.setService _ _).tasks s at ht
      rw [htasks] at ht
      exact h.handle s t ht
    . intro s f hf
      change f ∈ (w.setService _ _).pending s at hf
      rw [hpending] at hf
      exact h.pending s f hf
  . exact h

theorem setCurrent_wf (h : w.Wf)
    : (w.setCurrent s).Wf := by
  unfold setCurrent
  split
  . exact h
  . rename_i svc hsvc
    refine ⟨h.memory.setCurrent ?_, h.handle, h.pending⟩
    intro s' hs'
    cases hs'
    exact ⟨svc.framePool, by simp [pool, hsvc]⟩

theorem clearCurrent_wf (h : w.Wf)
    : w.clearCurrent.Wf := by
  refine ⟨h.memory.setCurrent ?_, h.handle, h.pending⟩
  intro s' hs'
  cases hs'

theorem createFrame_cases (w : Frames) (sz addr : Nat)
    : w.createFrame sz addr = w
        ∨ (∃ s svc ptr p, w.currentCoroSvc = some s ∧ w.services s = some svc ∧ 0 < sz
            ∧ sz ≤ svc.framePool.blockSize ∧ svc.framePool.alloc = some (ptr, p)
            ∧ w.createFrame sz addr
              = { (w.setService s (some { svc with framePool := p })).setFrame w.nextFrame
                    (some { ptr, size := sz, source := .pool s }) with nextFrame := w.nextFrame + 1 })
        ∨ 0 < sz ∧ w.Fresh addr sz
          ∧ w.createFrame sz addr
            = { w.setFrame w.nextFrame (some { ptr := addr, size := sz, source := .global })
                with nextFrame := w.nextFrame + 1 } := by
  have hglobal : w.frameAlloc sz addr = (.global, addr, w) → w.createFrame sz addr = w
      ∨ 0 < sz ∧ w.Fresh addr sz
        ∧ w.createFrame sz addr
          = { w.setFrame w.nextFrame (some { ptr := addr, size := sz, source := .global })
              with nextFrame := w.nextFrame + 1 } := by
    intro heq
    simp only [createFrame, heq, forall_const]
    by_cases hguard : 0 < sz ∧ w.Fresh addr sz
    . rw [if_pos hguard]
      exact .inr ⟨hguard.1, hguard.2, rfl⟩
    . rw [if_neg hguard]
      exact .inl rfl
  have hglobal' : w.frameAlloc sz addr = (.global, addr, w) → _ := fun heq =>
    (hglobal heq).imp_right (Or.inr (a := ∃ s svc ptr p, w.currentCoroSvc = some s
      ∧ w.services s = some svc ∧ 0 < sz ∧ sz ≤ svc.framePool.blockSize
      ∧ svc.framePool.alloc = some (ptr, p) ∧ w.createFrame sz addr
        = { (w.setService s (some { svc with framePool := p })).setFrame w.nextFrame
              (some { ptr, size := sz, source := .pool s }) with nextFrame := w.nextFrame + 1 }))
  cases hcurrent : w.current with
  | none =>
    apply hglobal'
    simp only [frameAlloc, hcurrent]
  | some c =>
    obtain ⟨s, svc⟩ := c
    obtain ⟨hs, hsvc⟩ := current_eq_some hcurrent
    by_cases hle : sz ≤ svc.framePool.blockSize
    . cases halloc : svc.framePool.alloc with
      | none =>
        apply hglobal'
        simp only [frameAlloc, hcurrent, Service.allocFrame, if_pos hle, halloc]
      | some r =>
        obtain ⟨ptr, p⟩ := r
        have heq : w.frameAlloc sz addr
            = (.pool s, ptr, w.setService s (some { svc with framePool := p })) := by
          simp only [frameAlloc, hcurrent, Service.allocFrame, if_pos hle, halloc]
        by_cases hsz : 0 < sz
        . refine .inr (.inl ⟨s, svc, ptr, p, hs, hsvc, hsz, hle, halloc, ?_⟩)
          simp [createFrame, heq, hsz]
        . left
          simp [createFrame, heq, hsz]
    . apply hglobal'
      simp only [frameAlloc, hcurrent, Service.allocFrame, if_neg hle]

-- A new frame is none of the frames of the tasks.
theorem newFrame_wf {b : Frame} (h : w.Wf) (hmem : w'.Memory) (htasks : w'.tasks = w.tasks)
    (hpending : w'.pending = w.pending) (hframes : w'.frames = Function.update w.frames w.nextFrame (some b))
    (hnext : w'.nextFrame = w.nextFrame + 1)
    : w'.Wf := by
  have hne : ∀ g fr, w.frames g = some fr → g ≠ w.nextFrame := by
    intro g fr hg heq
    have hlt := h.memory.blockLt g fr.block (by simp [block, hg])
    omega
  constructor
  . exact hmem
  . intro s t ht g hg
    rw [htasks] at ht
    obtain ⟨hiter, fr, hfr, hresume, hstatus⟩ := h.handle s t ht g hg
    refine ⟨hiter, fr, ?_, hresume, hstatus⟩
    rw [hframes, Function.update_of_ne (hne g fr hfr)]
    exact hfr
  . intro s g hg
    rw [hpending] at hg
    obtain ⟨hlt, hdone⟩ := h.pending s g hg
    rw [hnext]
    refine ⟨by omega, ?_⟩
    intro fr hfr
    rw [hframes, Function.update_of_ne (by omega)] at hfr
    exact hdone fr hfr

theorem createFrame_wf {sz addr : Nat} (h : w.Wf)
    : (w.createFrame sz addr).Wf := by
  rcases createFrame_cases w sz addr with heq | ⟨s, svc, ptr, p, hs, hsvc, hsz, hle, halloc, heq⟩
    | ⟨hsz, hfresh, heq⟩
  . rw [heq]
    exact h
  . rw [heq]
    refine newFrame_wf h ?_ (setPool_tasks hsvc) (setPool_pending hsvc) rfl rfl
    have hpool' := setService_pool w s (some { svc with framePool := p })
    have hblock' := setFrame_block w w.nextFrame (some { ptr, size := sz, source := .pool s })
    unfold Memory
    change Mem (w.setService s _).pool w.nextService (w.setFrame w.nextFrame _).block (w.nextFrame + 1)
      w.currentCoroSvc
    rw [hpool', hblock']
    exact h.memory.alloc (by simp [pool, hsvc]) hsz hle halloc
  . rw [heq]
    refine newFrame_wf h ?_ rfl rfl rfl rfl
    unfold Memory
    change Mem w.pool w.nextService (w.setFrame w.nextFrame _).block (w.nextFrame + 1) w.currentCoroSvc
    rw [setFrame_block]
    apply h.memory.new hsz
    intro s p hp
    have hlt := h.memory.poolLt s p hp
    simp only [pool, Option.map_eq_some_iff] at hp
    obtain ⟨svc, hsvc, rfl⟩ := hp
    exact hfresh.1 s hlt svc hsvc

theorem destroyTask_cases (w : Frames) (f : Nat)
    : (w.destroyTask f = w ∧ w.destroys (.destroy f) = [])
        ∨ ∃ fr, w.frames f = some fr ∧ fr.onFinalResume = none ∧ fr.status ≠ .running
          ∧ w.destroyTask f = w.destroyFrame f ∧ w.destroys (.destroy f) = [f] := by
  cases hf : w.frames f with
  | none => simp [destroyTask, destroys, hf]
  | some fr =>
    obtain ⟨ptr, size, source, status, onFinalResume⟩ := fr
    cases status <;> cases onFinalResume <;> simp [destroyTask, destroys, hf]

theorem spawn_cases (w : Frames) (s f : Nat)
    : (w.spawn s f = w ∧ w.destroys (.spawn s f) = [])
        ∨ (∃ fr, w.frames f = some fr ∧ fr.onFinalResume = none ∧ fr.status = .done
          ∧ w.spawn s f = w.destroyFrame f ∧ w.destroys (.spawn s f) = [f])
        ∨ ∃ svc fr, w.services s = some svc ∧ w.frames f = some fr ∧ fr.onFinalResume = none
          ∧ fr.status = .suspended ∧ w.destroys (.spawn s f) = []
          ∧ w.spawn s f = (w.setService s
              (some { svc with spawnedList := ⟨f, some f⟩ :: svc.spawnedList })).setFrame f
                (some { fr with onFinalResume := some s }) := by
  cases hs : w.services s with
  | none => simp [spawn, destroys, hs]
  | some svc =>
    cases hf : w.frames f with
    | none => simp [spawn, destroys, hs, hf]
    | some fr =>
      obtain ⟨ptr, size, source, status, onFinalResume⟩ := fr
      cases status <;> cases onFinalResume <;> simp [spawn, destroys, hs, hf]

theorem spawnTask_wf (h : w.Wf) (hs : w.services s = some svc) (hf : w.frames f = some fr)
    (hnone : fr.onFinalResume = none) (hstatus : fr.status = .suspended)
    : ((w.setService s (some { svc with spawnedList := ⟨f, some f⟩ :: svc.spawnedList })).setFrame f
        (some { fr with onFinalResume := some s })).Wf := by
  constructor
  . refine memory_congr h.memory ?_ ?_ rfl rfl rfl
    . exact setService_pool_of_eq hs rfl
    . exact setFrame_block_of_eq (w := w.setService s _) hf rfl
  . intro s' t ht g hg
    change t ∈ (w.setService s _).tasks s' at ht
    simp only [setFrame, Function.update_apply]
    -- a task that was there before is of another coroutine
    have hold : t ∈ w.tasks s' → t.iter = g
        ∧ ∃ fr', (if g = f then some { fr with onFinalResume := some s } else w.frames g) = some fr'
          ∧ fr'.onFinalResume = some s' ∧ fr'.status ≠ .done := by
      intro hmem
      obtain ⟨hiter, fr', hfr', hresume, hne⟩ := h.handle s' t hmem g hg
      refine ⟨hiter, fr', ?_, hresume, hne⟩
      rw [if_neg]
      . exact hfr'
      . intro heq
        rw [heq, hf] at hfr'
        cases hfr'
        rw [hnone] at hresume
        cases hresume
    rw [setService_tasks, Function.update_apply] at ht
    split at ht
    . rename_i heq
      simp only [Option.map_some, Option.getD_some, List.mem_cons] at ht
      rcases ht with ht | ht
      . rw [ht] at hg ⊢
        simp only [Option.some.injEq] at hg
        simp [hg, heq, hstatus]
      . rw [heq] at hold
        rw [heq]
        exact hold (by rw [tasks_eq hs]; exact ht)
    . exact hold ht
  . intro s' g hg
    change g ∈ (w.setService s _).pending s' at hg
    have hpending : (w.setService s
        (some { svc with spawnedList := ⟨f, some f⟩ :: svc.spawnedList })).pending = w.pending := by
      rw [setService_pending]
      exact Function.update_eq_self_iff.mpr (pending_eq hs).symm
    rw [hpending] at hg
    obtain ⟨hlt, hdone⟩ := h.pending s' g hg
    refine ⟨hlt, ?_⟩
    intro fr' hfr'
    simp only [setFrame, Function.update_apply] at hfr'
    split at hfr'
    . rename_i heq
      rw [heq] at hdone
      rw [hdone fr hf] at hstatus
      cases hstatus
    . exact hdone fr' hfr'

-- The task of `f` loses its handle and is queued for the cleanup.
theorem finishTask_wf (h : w.Wf) (hs : w.services s = some svc) (hf : w.frames f = some fr)
    (hresume : fr.onFinalResume = some s) {posted : Bool} {jobs : List Nat}
    : Wf { (w.setFrame f (some { fr with status := .done })).setService s (some { svc with
        spawnedList := svc.spawnedList.map fun t => if t.iter = f then { t with handle := none } else t,
        pendingCleanup := svc.pendingCleanup ++ [f], cleanupPosted := posted }) with jobs := jobs } := by
  constructor
  . refine memory_congr h.memory ?_ ?_ rfl rfl rfl
    . exact setService_pool_of_eq (w := w.setFrame f _) hs rfl
    . exact setFrame_block_of_eq hf rfl
  . intro s' t ht g hg
    change t ∈ ((w.setFrame f _).setService s _).tasks s' at ht
    simp only [setService, setFrame, Function.update_apply]
    rw [setService_tasks, Function.update_apply] at ht
    split at ht
    . rename_i heq
      simp only [Option.map_some, Option.getD_some, List.mem_map] at ht
      obtain ⟨t', ht', rfl⟩ := ht
      split at hg
      . cases hg
      . rename_i hne
        rw [if_neg hne]
        obtain ⟨hiter, fr', hfr', hresume', hstatus⟩ := h.handle s t' (by rw [tasks_eq hs]; exact ht') g hg
        rw [hiter] at hne
        rw [if_neg hne, heq]
        exact ⟨hiter, fr', hfr', hresume', hstatus⟩
    . rename_i hne
      obtain ⟨hiter, fr', hfr', hresume', hstatus⟩ := h.handle s' t ht g hg
      refine ⟨hiter, fr', ?_, hresume', hstatus⟩
      rw [if_neg]
      . exact hfr'
      . intro heq
        rw [heq, hf] at hfr'
        cases hfr'
        rw [hresume] at hresume'
        cases hresume'
        exact hne rfl
  . intro s' g hg
    change g ∈ ((w.setFrame f _).setService s _).pending s' at hg
    simp only [setService, setFrame, Function.update_apply]
    have hlt := h.memory.blockLt f fr.block (by simp [block, hf])
    have hold : g ∈ w.pending s' → g < w.nextFrame
        ∧ ∀ fr', (if g = f then some { fr with status := .done } else w.frames g) = some fr'
          → fr'.status = .done := by
      intro hmem
      obtain ⟨hlt, hdone⟩ := h.pending s' g hmem
      refine ⟨hlt, ?_⟩
      intro fr' hfr'
      split at hfr'
      . cases hfr'
        rfl
      . exact hdone fr' hfr'
    rw [setService_pending, Function.update_apply] at hg
    split at hg
    . rename_i heq
      simp only [Option.map_some, Option.getD_some, List.mem_append, List.mem_singleton] at hg
      rcases hg with hg | hg
      . apply hold
        rw [heq, pending_eq hs]
        exact hg
      . rw [hg]
        refine ⟨hlt, ?_⟩
        intro fr' hfr'
        rw [if_pos rfl] at hfr'
        cases hfr'
        rfl
    . exact hold hg

theorem finish_cases (w : Frames) (f : Nat)
    : w.finish f = w
        ∨ ∃ fr, w.frames f = some fr ∧ fr.status = .running
          ∧ ((∀ s, fr.onFinalResume = some s → w.services s = none)
              ∧ w.finish f = w.setFrame f (some { fr with status := .done })
            ∨ ∃ s svc posted jobs, fr.onFinalResume = some s ∧ w.services s = some svc
              ∧ w.finish f = { (w.setFrame f (some { fr with status := .done })).setService s
                  (some { svc with
                    spawnedList := svc.spawnedList.map fun t =>
                      if t.iter = f then { t with handle := none } else t,
                    pendingCleanup := svc.pendingCleanup ++ [f], cleanupPosted := posted })
                  with jobs := jobs }) := by
  unfold finish
  cases hf : w.frames f with
  | none => exact .inl rfl
  | some fr =>
    by_cases hstatus : fr.status = .running
    . right
      refine ⟨fr, rfl, hstatus, ?_⟩
      simp only [if_pos hstatus]
      cases hresume : fr.onFinalResume with
      | none => simp
      | some s =>
        cases hs : w.services s with
        | none =>
          left
          simp [onFinalResume, setFrame, hs]
        | some svc =>
          right
          simp only [onFinalResume, setFrame, hs]
          by_cases hposted : svc.cleanupPosted
          . refine ⟨s, svc, true, w.jobs, rfl, hs, ?_⟩
            rw [if_pos hposted, ← hposted]
            rfl
          . refine ⟨s, svc, true, w.jobs ++ [s], rfl, hs, ?_⟩
            rw [if_neg hposted]
    . left
      simp only [if_neg hstatus]

theorem finish_wf (h : w.Wf)
    : (w.finish f).Wf := by
  rcases finish_cases w f with heq | ⟨fr, hf, hstatus, ⟨hnone, heq⟩ | ⟨s, svc, posted, jobs, hresume, hs, heq⟩⟩
  . rw [heq]
    exact h
  . rw [heq]
    constructor
    . exact memory_congr h.memory rfl (setFrame_block_of_eq hf rfl) rfl rfl rfl
    . intro s t ht g hg
      change t ∈ w.tasks s at ht
      obtain ⟨hiter, fr', hfr', hresume, hne⟩ := h.handle s t ht g hg
      refine ⟨hiter, fr', ?_, hresume, hne⟩
      simp only [setFrame, Function.update_apply]
      rw [if_neg]
      . exact hfr'
      . intro heq
        rw [heq, hf] at hfr'
        cases hfr'
        simp [tasks, hnone s hresume] at ht
    . intro s g hg
      obtain ⟨hlt, hdone⟩ := h.pending s g hg
      refine ⟨hlt, ?_⟩
      intro fr' hfr'
      simp only [setFrame, Function.update_apply] at hfr'
      split at hfr'
      . cases hfr'
        rfl
      . exact hdone fr' hfr'
  . rw [heq]
    exact finishTask_wf h hs hf hresume

-- The frames, the pools and the current service are as before.
structure Calm (w w' : Frames) : Prop where
  frames : w'.frames = w.frames
  pool : w'.pool = w.pool
  nextService : w'.nextService = w.nextService
  nextFrame : w'.nextFrame = w.nextFrame
  current : w'.currentCoroSvc = w.currentCoroSvc
  released : w'.released = w.released

theorem Calm.trans {w'' : Frames} (h : Calm w w') (h' : Calm w' w'')
    : Calm w w'' :=
  ⟨h'.frames.trans h.frames, h'.pool.trans h.pool, h'.nextService.trans h.nextService,
    h'.nextFrame.trans h.nextFrame, h'.current.trans h.current, h'.released.trans h.released⟩

-- Fewer tasks and fewer entries that wait for the cleanup.
theorem Calm.wf (h : Calm w w') (hwf : w.Wf) (htasks : ∀ s, ∀ t ∈ w'.tasks s, t ∈ w.tasks s)
    (hpending : ∀ s, ∀ f ∈ w'.pending s, f ∈ w.pending s)
    : w'.Wf := by
  constructor
  . refine memory_congr hwf.memory h.pool ?_ h.nextService h.nextFrame h.current
    funext f
    simp only [block, h.frames]
  . intro s t ht
    rw [h.frames]
    exact hwf.handle s t (htasks s t ht)
  . intro s f hf
    rw [h.frames, h.nextFrame]
    exact hwf.pending s f (hpending s f hf)

theorem setService_calm {svc' : Service} (h : w.services s = some svc)
    (hpool : svc'.framePool = svc.framePool)
    : Calm w (w.setService s (some svc')) :=
  ⟨rfl, setService_pool_of_eq h hpool, rfl, rfl, rfl, rfl⟩

theorem setService_wf {svc' : Service} (hwf : w.Wf) (h : w.services s = some svc)
    (hpool : svc'.framePool = svc.framePool) (htasks : ∀ t ∈ svc'.spawnedList, t ∈ svc.spawnedList)
    (hpending : ∀ f ∈ svc'.pendingCleanup, f ∈ svc.pendingCleanup)
    : (w.setService s (some svc')).Wf := by
  apply (setService_calm h hpool).wf hwf
  . intro s' t ht
    rw [setService_tasks, Function.update_apply] at ht
    split at ht
    . rename_i heq
      rw [heq, tasks_eq h]
      exact htasks t ht
    . exact ht
  . intro s' f hf
    rw [setService_pending, Function.update_apply] at hf
    split at hf
    . rename_i heq
      rw [heq, pending_eq h]
      exact hpending f hf
    . exact hf

theorem eraseTask_of_handle (hs : w.services s = some svc)
    (hnone : ∀ t ∈ svc.spawnedList, t.iter = f → t.handle = none)
    : eraseTask s w f
        = w.setService s (some { svc with spawnedList := svc.spawnedList.filter (·.iter ≠ f) }) := by
  have hnil : (svc.spawnedList.filter (·.iter = f)).filterMap (·.handle) = [] := by
    rw [List.filterMap_eq_nil_iff]
    intro t ht
    simp only [List.mem_filter, decide_eq_true_eq] at ht
    exact hnone t ht.1 ht.2
  simp only [eraseTask, hs, dropTasks, hnil, List.foldl_nil]

-- A task that is swept has no handle any more.
theorem eraseTask_eq (h : w.Wf) (hs : w.services s = some svc) (hf : f ∈ svc.pendingCleanup)
    : eraseTask s w f
        = w.setService s (some { svc with spawnedList := svc.spawnedList.filter (·.iter ≠ f) }) := by
  apply eraseTask_of_handle hs
  intro t ht heq
  cases hhandle : t.handle with
  | none => rfl
  | some g =>
    obtain ⟨hiter, fr, hfr, -, hstatus⟩ := h.handle s t (by rw [tasks_eq hs]; exact ht) g hhandle
    have hdone := (h.pending s f (by rw [pending_eq hs]; exact hf)).2 fr
    rw [← heq, hiter] at hdone
    exact absurd (hdone hfr) hstatus

theorem foldl_eraseTask (l : List Nat) (h : w.Wf) (hs : w.services s = some svc)
    (hl : ∀ f ∈ l, f ∈ svc.pendingCleanup)
    : Calm w (l.foldl (eraseTask s) w) ∧ (l.foldl (eraseTask s) w).Wf
        ∧ ∃ svc', (l.foldl (eraseTask s) w).services s = some svc'
          ∧ svc'.pendingCleanup = svc.pendingCleanup := by
  induction l generalizing w svc with
  | nil => exact ⟨⟨rfl, rfl, rfl, rfl, rfl, rfl⟩, h, svc, hs, rfl⟩
  | cons f l ih =>
    rw [List.foldl_cons, eraseTask_eq h hs (hl f List.mem_cons_self)]
    have hwf : (w.setService s
        (some { svc with spawnedList := svc.spawnedList.filter (·.iter ≠ f) })).Wf :=
      setService_wf h hs rfl (fun t ht => (List.mem_filter.mp ht).1) (fun _ hf => hf)
    obtain ⟨hcalm, hwf', svc', hs', hpending⟩ := ih hwf (Function.update_self ..)
      (fun g hg => hl g (List.mem_cons_of_mem f hg))
    refine ⟨Calm.trans ?_ hcalm, hwf', svc', hs', hpending⟩
    exact setService_calm hs rfl

theorem sweepCompleted_spec (h : w.Wf)
    : Calm w (w.sweepCompleted s) ∧ (w.sweepCompleted s).Wf := by
  unfold sweepCompleted
  cases hs : w.services s with
  | none => exact ⟨⟨rfl, rfl, rfl, rfl, rfl, rfl⟩, h⟩
  | some svc =>
    obtain ⟨hcalm, hwf, svc', hs', -⟩ := foldl_eraseTask svc.pendingCleanup h hs (fun _ hf => hf)
    simp only [hs']
    refine ⟨hcalm.trans (setService_calm hs' rfl), ?_⟩
    exact setService_wf hwf hs' rfl (fun _ ht => ht) (by simp)

theorem runJob_spec (h : w.Wf)
    : Calm w w.runJob ∧ w.runJob.Wf := by
  unfold runJob
  cases hjobs : w.jobs with
  | nil => exact ⟨⟨rfl, rfl, rfl, rfl, rfl, rfl⟩, h⟩
  | cons s jobs =>
    have hwf : Wf { w with jobs := jobs } := ⟨h.memory, h.handle, h.pending⟩
    have hcalm : Calm w { w with jobs := jobs } := ⟨rfl, rfl, rfl, rfl, rfl, rfl⟩
    obtain ⟨hcalm', hwf'⟩ := sweepCompleted_spec (s := s) hwf
    simp only
    cases hs : (sweepCompleted { w with jobs := jobs } s).services s with
    | none => exact ⟨hcalm.trans hcalm', hwf'⟩
    | some svc =>
      refine ⟨(hcalm.trans hcalm').trans (setService_calm hs rfl), ?_⟩
      exact setService_wf hwf' hs rfl (fun _ ht => ht) (fun _ hf => hf)

-- A step that destroys a frame from another allocator than the one it goes to, is seen in the log.
theorem step_returned (h : w.Wf) (st : Step)
    : (w.step st).Returned ↔ w.Returned ∧ ∀ f ∈ w.destroys st, w.Returns f := by
  have hsame : ∀ w' : Frames, w'.released = w.released → w.destroys st = []
      → (w'.Returned ↔ w.Returned ∧ ∀ f ∈ w.destroys st, w.Returns f) := by
    intro w' hreleased hnil
    simp [Returned, hreleased, hnil]
  have hone : ∀ f, w.destroys st = [f]
      → ((w.destroyFrame f).Returned ↔ w.Returned ∧ ∀ f ∈ w.destroys st, w.Returns f) := by
    intro f hf
    rw [hf, destroyFrame_returned h.memory]
    simp
  cases st with
  | construct blockSize capacity mem =>
    apply hsame _ _ rfl
    simp only [step, construct]
    split <;> rfl
  | destruct s =>
    simp only [step, destruct]
    cases hs : w.services s with
    | none => simp [destroys, tasks, hs]
    | some svc => exact clearSpawned_returned h
  | setCurrent s =>
    apply hsame _ _ rfl
    simp only [step, setCurrent]
    split <;> rfl
  | clearCurrent => exact hsame _ rfl rfl
  | create sz addr =>
    apply hsame _ _ rfl
    rcases createFrame_cases w sz addr with heq | ⟨s, svc, ptr, p, -, -, -, -, -, heq⟩ | ⟨-, -, heq⟩
      <;> simp only [step, heq] <;> rfl
  | destroy f =>
    rcases destroyTask_cases w f with ⟨heq, hnil⟩ | ⟨fr, -, -, -, heq, hf⟩
    . exact hsame _ (by simp only [step, heq]) hnil
    . simp only [step, heq]
      exact hone f hf
  | resume f =>
    apply hsame _ _ rfl
    simp only [step, resume]
    split
    . split <;> rfl
    . rfl
  | suspend f =>
    apply hsame _ _ rfl
    simp only [step, suspend]
    split
    . split <;> rfl
    . rfl
  | finish f =>
    apply hsame _ _ rfl
    rcases finish_cases w f with heq | ⟨fr, -, -, ⟨-, heq⟩ | ⟨s, svc, posted, jobs, -, -, heq⟩⟩
      <;> simp only [step, heq] <;> rfl
  | spawn s f =>
    rcases spawn_cases w s f with ⟨heq, hnil⟩ | ⟨fr, -, -, -, heq, hf⟩ | ⟨svc, fr, -, -, -, -, hnil, heq⟩
    . exact hsame _ (by simp only [step, heq]) hnil
    . simp only [step, heq]
      exact hone f hf
    . refine hsame _ ?_ hnil
      simp only [step, heq]
      rfl
  | clearSpawned s => exact clearSpawned_returned h
  | runJob => exact hsame _ (runJob_spec h).1.released rfl

theorem step_wf (h : w.Wf) (st : Step) (hfits : st.Fits) (hst : ∀ f ∈ w.destroys st, w.Returns f)
    : (w.step st).Wf := by
  cases st with
  | construct blockSize capacity mem => exact construct_wf h hfits
  | destruct s => exact destruct_wf h hst
  | setCurrent s => exact setCurrent_wf h
  | clearCurrent => exact clearCurrent_wf h
  | create sz addr => exact createFrame_wf h
  | destroy f =>
    rcases destroyTask_cases w f with ⟨heq, -⟩ | ⟨fr, hfr, hnone, -, heq, hf⟩
    . simp only [step, heq]
      exact h
    . simp only [step, heq]
      apply destroyFrame_wf h (hst f (by simp [hf]))
      intro fr' hfr'
      rw [hfr] at hfr'
      cases hfr'
      exact hnone
  | resume f => exact resume_wf h
  | suspend f => exact suspend_wf h
  | finish f => exact finish_wf h
  | spawn s f =>
    rcases spawn_cases w s f with ⟨heq, -⟩ | ⟨fr, hfr, hnone, -, heq, hf⟩
      | ⟨svc, fr, hs, hfr, hnone, hstatus, -, heq⟩
    . simp only [step, heq]
      exact h
    . simp only [step, heq]
      apply destroyFrame_wf h (hst f (by simp [hf]))
      intro fr' hfr'
      rw [hfr] at hfr'
      cases hfr'
      exact hnone
    . simp only [step, heq]
      exact spawnTask_wf h hs hfr hnone hstatus
  | clearSpawned s => exact clearSpawned_wf h hst
  | runJob => exact (runJob_spec h).2

theorem init_wf
    : Wf {} := by
  constructor
  . constructor <;> intros <;> simp_all [pool, block]
  . intro s t ht
    simp [tasks] at ht
  . intro s f hf
    simp [Frames.pending] at hf

end Frames

end Coroutine
end Ezio
