import Ezio.Coroutine.Frames.Release

/-!
This module contains the memory that coroutine frames occupy: pools and frames from the global heap are apart from each
other, so that no two coroutines share memory.
-/

namespace Ezio
namespace Coroutine

theorem Apart.symm {addr size addr' size' : Nat} (h : Apart addr size addr' size')
    : Apart addr' size' addr size :=
  Or.symm h

theorem Apart.mono {addr size addr' size' a n : Nat} (h : Apart addr size addr' size') (hlo : addr ≤ a)
    (hhi : a + n ≤ addr + size)
    : Apart a n addr' size' := by
  unfold Apart at *
  omega

-- Two different blocks of a pool.
theorem Apart.of_blocks {i j n m size : Nat} (mem : Nat) (hne : i ≠ j) (hn : n ≤ size) (hm : m ≤ size)
    : Apart (mem + i * size) n (mem + j * size) m := by
  rcases Nat.lt_or_gt_of_ne hne with hlt | hlt
  . left
    have hmul := Nat.mul_le_mul_right size (Nat.succ_le_of_lt hlt)
    rw [Nat.succ_mul] at hmul
    omega
  . right
    have hmul := Nat.mul_le_mul_right size (Nat.succ_le_of_lt hlt)
    rw [Nat.succ_mul] at hmul
    omega

theorem FramePool.block_le {p : FramePool} {i : Nat} (hfits : p.Fits) (hi : i < p.capacity)
    : p.mem + i * p.blockSize + p.blockSize ≤ p.mem + p.total := by
  have hmul := Nat.mul_le_mul_right p.blockSize (Nat.succ_le_of_lt hi)
  rw [Nat.succ_mul, Nat.mul_comm p.capacity] at hmul
  rw [hfits.total_eq]
  omega

namespace Frames

variable {w w' : Frames} {s f : Nat} {svc : Service} {fr : Frame}

-- No memory is in use that has not been in use before.
structure Shrinks (w w' : Frames) : Prop where
  pool : ∀ s p', w'.pool s = some p' → ∃ p, w.pool s = some p ∧ p'.mem = p.mem ∧ p'.total = p.total
  block : ∀ f b, w'.block f = some b → w.block f = some b

structure Spread (w : Frames) : Prop where
  pools : ∀ s s' p p', s ≠ s' → w.pool s = some p → w.pool s' = some p' → Apart p.mem p.total p'.mem p'.total
  globals : ∀ f f' b b', f ≠ f' → w.block f = some b → w.block f' = some b' → b.source = .global
    → b'.source = .global → Apart b.ptr b.size b'.ptr b'.size

theorem Shrinks.of_eq (hpool : w'.pool = w.pool) (hblock : w'.block = w.block)
    : Shrinks w w' := by
  constructor
  . intro s p' hp
    exact ⟨p', hpool ▸ hp, rfl, rfl⟩
  . intro f b hb
    exact hblock ▸ hb

theorem Shrinks.trans {w'' : Frames} (h : Shrinks w w') (h' : Shrinks w' w'')
    : Shrinks w w'' := by
  constructor
  . intro s p'' hp
    obtain ⟨p', hp', hmem', hsize'⟩ := h'.pool s p'' hp
    obtain ⟨p, hp, hmem, hsize⟩ := h.pool s p' hp'
    exact ⟨p, hp, hmem'.trans hmem, hsize'.trans hsize⟩
  . exact fun f b hb => h.block f b (h'.block f b hb)

theorem Spread.shrinks (h : w.Spread) (hshrinks : Shrinks w w')
    : w'.Spread := by
  constructor
  . intro s s' p p' hne hp hp'
    obtain ⟨q, hq, hmem, hsize⟩ := hshrinks.pool s p hp
    obtain ⟨q', hq', hmem', hsize'⟩ := hshrinks.pool s' p' hp'
    rw [hmem, hsize, hmem', hsize']
    exact h.pools s s' q q' hne hq hq'
  . intro f f' b b' hne hb hb'
    exact h.globals f f' b b' hne (hshrinks.block f b hb) (hshrinks.block f' b' hb')

/-! ### The steps that take no memory -/

theorem block_of_setFrame_none {b : Block} {f' : Nat} (hb : (w.setFrame f none).block f' = some b)
    : w.block f' = some b := by
  rw [setFrame_block, Function.update_apply] at hb
  split at hb
  . cases hb
  . exact hb

-- A pool stays where it is.
theorem pool_of_setService {svc' : Service} {s' : Nat} {p' : FramePool} (hs : w.services s = some svc)
    (hmem : svc'.framePool.mem = svc.framePool.mem) (hsize : svc'.framePool.total = svc.framePool.total)
    (hp : (w.setService s (some svc')).pool s' = some p')
    : ∃ p, w.pool s' = some p ∧ p'.mem = p.mem ∧ p'.total = p.total := by
  rw [setService_pool, Function.update_apply] at hp
  split at hp
  . next heq =>
    cases hp
    exact ⟨svc.framePool, by rw [heq, pool, hs]; rfl, hmem, hsize⟩
  . exact ⟨p', hp, rfl, rfl⟩

theorem destroyFrame_shrinks (w : Frames) (f : Nat)
    : Shrinks w (w.destroyFrame f) := by
  cases hf : w.frames f with
  | none =>
    simp only [destroyFrame, hf]
    exact .of_eq rfl rfl
  | some fr =>
    rcases destroyFrame_cases hf with ⟨s, svc, -, hs, -, -, heq⟩ | ⟨-, heq⟩
    . rw [heq]
      constructor
      . intro s' p' hp
        refine pool_of_setService hs ?_ ?_ hp
        . exact FramePool.free_mem ..
        . exact FramePool.free_total ..
      . exact fun f' b hb => block_of_setFrame_none hb
    . rw [heq]
      exact ⟨fun s' p' hp => ⟨p', hp, rfl, rfl⟩, fun f' b hb => block_of_setFrame_none hb⟩

theorem foldl_destroyFrame_shrinks (l : List Nat) (w : Frames)
    : Shrinks w (l.foldl destroyFrame w) := by
  induction l generalizing w with
  | nil => exact .of_eq rfl rfl
  | cons f l ih => exact (destroyFrame_shrinks w f).trans (ih _)

theorem setService_shrinks {svc' : Service} (hs : w.services s = some svc) (hpool : svc'.framePool = svc.framePool)
    : Shrinks w (w.setService s (some svc')) :=
  .of_eq (setService_pool_of_eq hs hpool) rfl

theorem setFrame_shrinks {fr' : Frame} (hf : w.frames f = some fr) (hblock : fr'.block = fr.block)
    : Shrinks w (w.setFrame f (some fr')) :=
  .of_eq rfl (setFrame_block_of_eq hf hblock)

theorem clearSpawned_shrinks (w : Frames) (s : Nat)
    : Shrinks w (w.clearSpawned s) := by
  unfold clearSpawned
  split
  . exact .of_eq rfl rfl
  . next hs =>
    refine .trans (setService_shrinks hs ?_) (foldl_destroyFrame_shrinks ..)
    rfl

theorem destruct_shrinks (w : Frames) (s : Nat)
    : Shrinks w (w.destruct s) := by
  unfold destruct
  split
  . exact .of_eq rfl rfl
  . apply (clearSpawned_shrinks w s).trans
    constructor
    . intro s' p' hp
      have hupdate := congrFun (setService_pool (w.clearSpawned s) s none) s'
      rw [Function.update_apply] at hupdate
      split at hupdate
      . cases hupdate.symm.trans hp
      . exact ⟨p', hupdate.symm.trans hp, rfl, rfl⟩
    . exact fun f' b hb => hb

theorem finish_shrinks (w : Frames) (f : Nat)
    : Shrinks w (w.finish f) := by
  rcases finish_cases w f with heq | ⟨fr, hf, -, ⟨-, heq⟩ | ⟨s, svc, posted, jobs, -, hs, heq⟩⟩ <;> rw [heq]
  . exact .of_eq rfl rfl
  . exact setFrame_shrinks hf rfl
  . refine .of_eq ?_ ?_
    . exact setService_pool_of_eq hs rfl
    . exact setFrame_block_of_eq hf rfl

theorem step_shrinks (hwf : w.Wf) {st : Step}
    (hconstruct : ∀ blockSize capacity mem, st ≠ .construct blockSize capacity mem)
    (hcreate : ∀ sz addr, st ≠ .create sz addr)
    : Shrinks w (w.step st) := by
  cases st with
  | construct blockSize capacity mem => exact (hconstruct _ _ _ rfl).elim
  | destruct s => exact destruct_shrinks w s
  | setCurrent s =>
    unfold step setCurrent
    dsimp only
    split <;> exact .of_eq rfl rfl
  | clearCurrent => exact .of_eq rfl rfl
  | create sz addr => exact (hcreate _ _ rfl).elim
  | destroy f =>
    unfold step
    rcases destroyTask_cases w f with ⟨heq, -⟩ | ⟨fr, -, -, -, heq, -⟩
    . dsimp only
      rw [heq]
      exact .of_eq rfl rfl
    . dsimp only
      rw [heq]
      exact destroyFrame_shrinks w f
  | resume f =>
    unfold step resume
    dsimp only
    split
    . next hf =>
      split
      . exact setFrame_shrinks hf rfl
      . exact .of_eq rfl rfl
    . exact .of_eq rfl rfl
  | suspend f =>
    unfold step suspend
    dsimp only
    split
    . next hf =>
      split
      . exact setFrame_shrinks hf rfl
      . exact .of_eq rfl rfl
    . exact .of_eq rfl rfl
  | finish f => exact finish_shrinks w f
  | spawn s f =>
    unfold step
    dsimp only
    rcases spawn_cases w s f with ⟨heq, -⟩ | ⟨fr, -, -, -, heq, -⟩ | ⟨svc, fr, hs, hf, -, -, -, heq⟩ <;> rw [heq]
    . exact .of_eq rfl rfl
    . exact destroyFrame_shrinks w f
    . apply (setService_shrinks hs _).trans
      . apply setFrame_shrinks
        . exact hf
        . rfl
      . rfl
  | clearSpawned s => exact clearSpawned_shrinks w s
  | runJob =>
    have hcalm := (runJob_spec hwf).1
    refine .of_eq hcalm.pool ?_
    funext f
    simp only [block, step, hcalm.frames]

/-! ### The steps that take memory -/

variable {addr n : Nat}

theorem Fresh.pool (h : w.Fresh addr n) {p : FramePool} (hs : s < w.nextService) (hp : w.pool s = some p)
    : Apart addr n p.mem p.total := by
  unfold Frames.pool at hp
  obtain ⟨svc, hsvc, rfl⟩ := Option.map_eq_some_iff.mp hp
  exact h.1 s hs svc hsvc

theorem Fresh.global (h : w.Fresh addr n) {b : Block} (hf : f < w.nextFrame) (hb : w.block f = some b)
    (hsource : b.source = .global)
    : Apart addr n b.ptr b.size := by
  unfold block at hb
  obtain ⟨fr, hfr, rfl⟩ := Option.map_eq_some_iff.mp hb
  exact h.2 f hf fr hfr hsource

-- A pool is made.
theorem Spread.addPool (h : w.Spread) (hmem : w.Memory) {p : FramePool} (hfresh : w.Fresh p.mem p.total)
    (hpool : w'.pool = Function.update w.pool w.nextService (some p)) (hblock : w'.block = w.block)
    : w'.Spread := by
  have hnew : ∀ s q, s ≠ w.nextService → w'.pool s = some q → Apart p.mem p.total q.mem q.total := by
    intro s q hne hq
    rw [hpool, Function.update_of_ne hne] at hq
    exact hfresh.pool (hmem.poolLt s q hq) hq
  have hself : ∀ q, w'.pool w.nextService = some q → q = p := by
    intro q hq
    rw [hpool, Function.update_self] at hq
    exact (Option.some.inj hq).symm
  constructor
  . intro s s' q q' hne hq hq'
    by_cases hs : s = w.nextService
    . rw [hself q (hs ▸ hq)]
      exact hnew s' q' (fun heq => hne (hs.trans heq.symm)) hq'
    . by_cases hs' : s' = w.nextService
      . rw [hself q' (hs' ▸ hq')]
        exact (hnew s q hs hq).symm
      . rw [hpool, Function.update_of_ne hs] at hq
        rw [hpool, Function.update_of_ne hs'] at hq'
        exact h.pools s s' q q' hne hq hq'
  . rw [hblock]
    exact h.globals

-- A frame is made.
theorem Spread.addFrame (h : w.Spread) (hmem : w.Memory) {b : Block}
    (hpool : ∀ s p', w'.pool s = some p' → ∃ p, w.pool s = some p ∧ p'.mem = p.mem ∧ p'.total = p.total)
    (hblock : w'.block = Function.update w.block w.nextFrame (some b))
    (hfresh : b.source = .global → w.Fresh b.ptr b.size)
    : w'.Spread := by
  have hnew : ∀ f c, f ≠ w.nextFrame → w'.block f = some c → c.source = .global → b.source = .global
      → Apart b.ptr b.size c.ptr c.size := by
    intro f c hne hc hglobal hsource
    rw [hblock, Function.update_of_ne hne] at hc
    exact (hfresh hsource).global (hmem.blockLt f c hc) hc hglobal
  have hself : ∀ c, w'.block w.nextFrame = some c → c = b := by
    intro c hc
    rw [hblock, Function.update_self] at hc
    exact (Option.some.inj hc).symm
  constructor
  . intro s s' q q' hne hq hq'
    obtain ⟨p, hp, hpmem, hpsize⟩ := hpool s q hq
    obtain ⟨p', hp', hpmem', hpsize'⟩ := hpool s' q' hq'
    rw [hpmem, hpsize, hpmem', hpsize']
    exact h.pools s s' p p' hne hp hp'
  . intro f f' c c' hne hc hc' hsource hsource'
    by_cases hf : f = w.nextFrame
    . rw [hself c (hf ▸ hc)] at hsource ⊢
      exact hnew f' c' (fun heq => hne (hf.trans heq.symm)) hc' hsource' hsource
    . by_cases hf' : f' = w.nextFrame
      . rw [hself c' (hf' ▸ hc')] at hsource' ⊢
        exact (hnew f c hf hc hsource hsource').symm
      . rw [hblock, Function.update_of_ne hf] at hc
        rw [hblock, Function.update_of_ne hf'] at hc'
        exact h.globals f f' c c' hne hc hc' hsource hsource'

theorem construct_spread (h : w.Spread) (hwf : w.Wf) (blockSize capacity mem : Nat)
    : (w.construct blockSize capacity mem).Spread := by
  unfold construct
  dsimp only
  split
  . next hfresh =>
    apply h.addPool hwf.memory (p := .new mem blockSize capacity)
    . exact hfresh
    . exact setService_pool ..
    . rfl
  . exact h

theorem createFrame_spread (h : w.Spread) (hwf : w.Wf) (sz addr : Nat)
    : (w.createFrame sz addr).Spread := by
  rcases createFrame_cases w sz addr with heq | ⟨s, svc, ptr, p, -, hs, -, -, halloc, heq⟩ | ⟨-, hfresh, heq⟩
    <;> rw [heq]
  . exact h
  . apply h.addFrame hwf.memory (b := ⟨ptr, sz, .pool s⟩)
    . intro s' p' hp'
      have hp : p.mem = svc.framePool.mem ∧ p.total = svc.framePool.total := by
        unfold FramePool.alloc at halloc
        split at halloc
        . cases halloc
        . cases halloc
          exact ⟨rfl, rfl⟩
      exact pool_of_setService hs hp.1 hp.2 hp'
    . exact setFrame_block ..
    . exact fun hsource => Allocator.noConfusion hsource
  . apply h.addFrame hwf.memory (b := ⟨addr, sz, .global⟩)
    . exact fun s p' hp' => ⟨p', hp', rfl, rfl⟩
    . exact setFrame_block ..
    . exact fun _ => hfresh

theorem step_spread (h : w.Spread) (hwf : w.Wf) (st : Step)
    : (w.step st).Spread := by
  cases st with
  | construct blockSize capacity mem => exact construct_spread h hwf ..
  | create sz addr => exact createFrame_spread h hwf ..
  | _ => exact h.shrinks (step_shrinks hwf (by simp) (by simp))

theorem run_spread {steps : List Step} (hfits : ∀ st ∈ steps, st.Fits)
    (hsteps : Along step DestroysOwn {} steps)
    : (run {} steps).Wf ∧ (run {} steps).Spread := by
  refine Along.invariant (I := fun w : Frames => w.Wf ∧ w.Spread) ?_ ?_ (hsteps.and_of_mem hfits)
  . exact fun w st hw hst => ⟨step_wf hw.1 st hst.1 hst.2, step_spread hw.2 hw.1 st⟩
  . refine ⟨init_wf, ?_, ?_⟩
    . intro s s' p p' _ hp
      cases hp
    . intro f f' b b' _ hb
      cases hb

/-! ### Frames -/

-- The memory of the frame has not been given back together with its pool.
def Backed (w : Frames) (fr : Frame) : Prop :=
  ∀ s, fr.source = .pool s → ∃ svc, w.services s = some svc

variable {f' s' : Nat} {fr' : Frame} {p : FramePool}

theorem block_eq (hf : w.frames f = some fr)
    : w.block f = some fr.block := by
  rw [block, hf]
  rfl

theorem Backed.pool (hbacked : w.Backed fr) (hsource : fr.source = .pool s)
    : ∃ p, w.pool s = some p := by
  obtain ⟨svc, hs⟩ := hbacked s hsource
  exact ⟨svc.framePool, by rw [Frames.pool, hs]; rfl⟩

-- A frame of a pool occupies a block of it.
theorem Wf.placed (hwf : w.Wf) (hf : w.frames f = some fr) (hsource : fr.source = .pool s) (hp : w.pool s = some p)
    : ∃ i < p.capacity, fr.ptr = p.mem + i * p.blockSize ∧ fr.size ≤ p.blockSize := by
  obtain ⟨l, -, hholds⟩ := hwf.memory.free s p hp
  obtain ⟨hsize, i, hi, hptr, -⟩ := hholds.used f fr.block (block_eq hf) hsource
  exact ⟨i, hi, hptr, hsize⟩

theorem Wf.inside (hwf : w.Wf) (hf : w.frames f = some fr) (hsource : fr.source = .pool s) (hp : w.pool s = some p)
    : p.mem ≤ fr.ptr ∧ fr.ptr + fr.size ≤ p.mem + p.total := by
  obtain ⟨i, hi, hptr, hsize⟩ := hwf.placed hf hsource hp
  have hle := FramePool.block_le (hwf.memory.fits s p hp) hi
  omega

theorem Wf.apart_of_global (hwf : w.Wf) (hf : w.frames f = some fr) (hf' : w.frames f' = some fr')
    (hglobal : fr.source = .global) (hsource : fr'.source = .pool s) (hp : w.pool s = some p)
    : Apart fr'.ptr fr'.size fr.ptr fr.size := by
  have hapart := hwf.memory.apart s p f fr.block hp (block_eq hf) hglobal
  have hinside := hwf.inside hf' hsource hp
  exact Apart.mono hapart.symm hinside.1 hinside.2

theorem Wf.apart_of_pool (hwf : w.Wf) (hf : w.frames f = some fr) (hf' : w.frames f' = some fr') (hne : f ≠ f')
    (hsource : fr.source = .pool s) (hsource' : fr'.source = .pool s) (hp : w.pool s = some p)
    : Apart fr.ptr fr.size fr'.ptr fr'.size := by
  obtain ⟨i, -, hptr, hsize⟩ := hwf.placed hf hsource hp
  obtain ⟨j, -, hptr', hsize'⟩ := hwf.placed hf' hsource' hp
  have hij : i ≠ j := by
    rintro rfl
    obtain ⟨l, -, hholds⟩ := hwf.memory.free s p hp
    apply hne
    apply hholds.inj f fr.block f' fr'.block (block_eq hf) (block_eq hf') hsource hsource'
    exact hptr.trans hptr'.symm
  rw [hptr, hptr']
  exact .of_blocks p.mem hij hsize hsize'

theorem Wf.frames_apart (hwf : w.Wf) (h : w.Spread) (hf : w.frames f = some fr) (hf' : w.frames f' = some fr')
    (hne : f ≠ f') (hbacked : w.Backed fr) (hbacked' : w.Backed fr')
    : Apart fr.ptr fr.size fr'.ptr fr'.size := by
  cases hsource : fr.source with
  | global =>
    cases hsource' : fr'.source with
    | global => exact h.globals f f' _ _ hne (block_eq hf) (block_eq hf') hsource hsource'
    | pool s' =>
      obtain ⟨p', hp'⟩ := hbacked'.pool hsource'
      exact (hwf.apart_of_global hf hf' hsource hsource' hp').symm
  | pool s =>
    obtain ⟨p, hp⟩ := hbacked.pool hsource
    cases hsource' : fr'.source with
    | global => exact hwf.apart_of_global hf' hf hsource' hsource hp
    | pool s' =>
      obtain ⟨p', hp'⟩ := hbacked'.pool hsource'
      by_cases hs : s = s'
      . subst hs
        exact hwf.apart_of_pool hf hf' hne hsource hsource' hp
      . have hpools := h.pools s s' p p' hs hp hp'
        have hinside := hwf.inside hf hsource hp
        have hinside' := hwf.inside hf' hsource' hp'
        exact ((hpools.mono hinside.1 hinside.2).symm.mono hinside'.1 hinside'.2).symm

/--
Two coroutines that are alive do not share memory.
-/
theorem run_frames_apart {steps : List Step} (hfits : ∀ st ∈ steps, st.Fits)
    (hsteps : Along step DestroysOwn {} steps) (hf : (run {} steps).frames f = some fr)
      (hf' : (run {} steps).frames f' = some fr') (hne : f ≠ f')
    (hbacked : (run {} steps).Backed fr) (hbacked' : (run {} steps).Backed fr')
    : Apart fr.ptr fr.size fr'.ptr fr'.size :=
  (run_spread hfits hsteps).1.frames_apart (run_spread hfits hsteps).2 hf hf' hne hbacked hbacked'

-- A coroutine that does not fit into a block of the pool beside one that does.
def bigAndSmall : List Step :=
  [.construct 256 4 1000, .create 200 0, .create 300 100000]

theorem bigAndSmall_apart
    : Apart 1000 200 100000 300 := by
  have hsteps : Along step DestroysOwn {} bigAndSmall := by decide +kernel
  have hf : (run {} bigAndSmall).frames 0 = some ⟨1000, 200, .pool 0, .suspended, none⟩ := by decide +kernel
  have hf' : (run {} bigAndSmall).frames 1 = some ⟨100000, 300, .global, .suspended, none⟩ := by decide +kernel
  apply run_frames_apart (by decide +kernel) hsteps hf hf' (by decide)
  . intro s hs
    cases hs
    exact Option.isSome_iff_exists.mp (by decide +kernel)
  . intro s hs
    cases hs

end Frames

end Coroutine
end Ezio
