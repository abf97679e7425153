import Ezio.Coroutine.Frames.Release
import Mathlib.Data.Finset.Card

/-!
This module contains the number of free blocks of a pool over the life of the coroutines that are spawned
while its service is current.
-/

namespace Ezio
namespace Coroutine
namespace Frames

variable {w w' : Frames} {n s f k : Nat} {fr : Frame} {l : Finset Nat}

def freeCount (w : Frames) (s : Nat) : Option Nat :=
  (w.pool s).bind FramePool.freeCount

-- The steps of coroutines that are created after `n` others while the service `s` stays current.
def Local (n s : Nat) : Step → Prop
  | .create _ _ | .resume _ | .suspend _ | .finish _ | .runJob => True
  | .destroy f => n ≤ f
  | .spawn s' f => s' = s ∧ n ≤ f
  | _ => False

instance : (st : Step) → Decidable (Local n s st)
  | .create _ _ | .resume _ | .suspend _ | .finish _ | .runJob => .isTrue trivial
  | .destroy f => inferInstanceAs (Decidable (n ≤ f))
  | .spawn s' f => inferInstanceAs (Decidable (s' = s ∧ n ≤ f))
  | .construct _ _ _ | .destruct _ | .setCurrent _ | .clearCurrent | .clearSpawned _ => .isFalse id

-- Every such coroutine that is still there was spawned and has finished, the cleanup has run.
def Completed (n s : Nat) (w : Frames) : Prop :=
  (∀ f < w.nextFrame, n ≤ f → ∀ fr ∈ w.frames f, fr.onFinalResume = some s ∧ fr.status = .done)
    ∧ s ∉ w.jobs

instance (w : Frames) : Decidable (Completed n s w) :=
  inferInstanceAs (Decidable (_ ∧ _))

-- A coroutine that is spawned before it is done has its frame not from the pool.
def SpawnsOutside (n s : Nat) (w : Frames) (st : Step) : Prop :=
  ∀ f < w.nextFrame, st = .spawn s f → n ≤ f → ∀ fr ∈ w.frames f, fr.status = .suspended
    → fr.source ≠ .pool s

instance (w : Frames) (st : Step) : Decidable (w.SpawnsOutside n s st) :=
  inferInstanceAs (Decidable (∀ _ < _, _))

-- The frames `l` of the pool were created after `n` others and are alive, `k` blocks were free before.
structure Ledger (n s k : Nat) (l : Finset Nat) (w : Frames) : Prop where
  wf : w.Wf
  current : w.currentCoroSvc = some s
  next : n ≤ w.nextFrame
  source : ∀ f b, n ≤ f → w.block f = some b → b.source = .global ∨ b.source = .pool s
  live : ∀ f, f ∈ l ↔ n ≤ f ∧ ∃ b, w.block f = some b ∧ b.source = .pool s
  count : ∃ m, w.freeCount s = some m ∧ m + l.card = k

theorem Ledger.same (h : Ledger n s k l w) (hwf : w'.Wf) (hpool : w'.pool = w.pool)
    (hblock : w'.block = w.block) (hnext : w'.nextFrame = w.nextFrame)
    (hcurrent : w'.currentCoroSvc = w.currentCoroSvc)
    : Ledger n s k l w' := by
  constructor
  . exact hwf
  . rw [hcurrent]
    exact h.current
  . rw [hnext]
    exact h.next
  . rw [hblock]
    exact h.source
  . rw [hblock]
    exact h.live
  . unfold freeCount
    rw [hpool]
    exact h.count

theorem Ledger.returns (h : Ledger n s k l w) (hf : n ≤ f)
    : w.Returns f := by
  intro fr hfr
  rcases h.source f fr.block hf (by simp [block, Option.mem_def.mp hfr]) with hglobal | hpool
  . exact .inl hglobal
  . right
    rw [h.current]
    exact congrArg some hpool.symm

theorem Ledger.create {sz addr : Nat} (h : Ledger n s k l w)
    : ∃ l', Ledger n s k l' (w.createFrame sz addr) := by
  have hnone : ∀ f b, w.block f = some b → f ≠ w.nextFrame := by
    intro f b hf heq
    have := h.wf.memory.blockLt f b hf
    omega
  have hnext := h.next
  have hwf : (w.createFrame sz addr).Wf := createFrame_wf h.wf
  rcases createFrame_cases w sz addr with heq | ⟨s', svc, ptr, p, hs, hsvc, hsz, hle, halloc, heq⟩
    | ⟨-, -, heq⟩
  . rw [heq]
    exact ⟨l, h⟩
  . rw [heq] at hwf ⊢
    rw [h.current, Option.some.injEq] at hs
    subst hs
    have hpool : w.pool s = some svc.framePool := by simp [pool, hsvc]
    obtain ⟨free, hfree, -⟩ := h.wf.memory.free s _ hpool
    obtain ⟨i, free', hcons, -, -, hfree'⟩ := hfree.of_alloc (h.wf.memory.fits s _ hpool) halloc
    obtain ⟨m, hm, hcard⟩ := h.count
    simp only [freeCount, hpool, Option.bind_some, hfree.freeCount_eq, Option.some.injEq] at hm
    have hnot : w.nextFrame ∉ l := by
      intro hmem
      obtain ⟨-, b, hb, -⟩ := (h.live w.nextFrame).mp hmem
      exact hnone _ b hb rfl
    have hblock := setFrame_block w w.nextFrame (some { ptr, size := sz, source := .pool s })
    refine ⟨insert w.nextFrame l, hwf, h.current, ?_, ?_, ?_, ?_⟩
    . change n ≤ w.nextFrame + 1
      omega
    . intro f b hf hb
      change (w.setFrame w.nextFrame _).block f = some b at hb
      rw [hblock, Function.update_apply] at hb
      split at hb
      . cases hb
        exact .inr rfl
      . exact h.source f b hf hb
    . intro f
      change _ ↔ n ≤ f ∧ ∃ b, (w.setFrame w.nextFrame _).block f = some b ∧ _
      rw [hblock, Finset.mem_insert, h.live f]
      by_cases hf : f = w.nextFrame
      . rw [hf, Function.update_self]
        simp [hnext, Frame.block]
      . rw [Function.update_of_ne hf]
        simp [hf]
    . refine ⟨free'.length, ?_, ?_⟩
      . change ((w.setService s _).pool s).bind _ = _
        rw [setService_pool, Function.update_self]
        exact hfree'.freeCount_eq
      . rw [Finset.card_insert_of_notMem hnot]
        rw [hcons, List.length_cons] at hm
        omega
  . rw [heq] at hwf ⊢
    have hblock := setFrame_block w w.nextFrame
      (some { ptr := addr, size := sz, source := .global })
    refine ⟨l, hwf, h.current, ?_, ?_, ?_, h.count⟩
    . change n ≤ w.nextFrame + 1
      omega
    . intro f b hf hb
      change (w.setFrame w.nextFrame _).block f = some b at hb
      rw [hblock, Function.update_apply] at hb
      split at hb
      . cases hb
        exact .inl rfl
      . exact h.source f b hf hb
    . intro f
      change _ ↔ n ≤ f ∧ ∃ b, (w.setFrame w.nextFrame _).block f = some b ∧ _
      rw [hblock, h.live f]
      by_cases hf : f = w.nextFrame
      . rw [hf, Function.update_self]
        constructor
        . rintro ⟨-, b, hb, -⟩
          exact absurd rfl (hnone _ b hb)
        . rintro ⟨-, b, hb, hsource⟩
          cases hb
          cases hsource
      . rw [Function.update_of_ne hf]

theorem destroyFrame_block (w : Frames) (f : Nat)
    : (w.destroyFrame f).block = Function.update w.block f none := by
  funext g
  simp only [block, destroyFrame_frames, Function.update_apply]
  split <;> rfl

theorem Ledger.destroy (h : Ledger n s k l w) (hn : n ≤ f) (hf : w.frames f = some fr)
    (hnone : fr.onFinalResume = none)
    : ∃ l', Ledger n s k l' (w.destroyFrame f) := by
  have hkeeps := destroyFrame_keeps w f
  have hwf : (w.destroyFrame f).Wf := by
    apply destroyFrame_wf h.wf (h.returns hn)
    intro fr' hfr'
    rw [hf] at hfr'
    cases hfr'
    exact hnone
  have hb : w.block f = some fr.block := by simp [block, hf]
  have hnext : n ≤ (w.destroyFrame f).nextFrame := by
    rw [hkeeps.nextFrame]
    exact h.next
  have hcurrent : (w.destroyFrame f).currentCoroSvc = some s := by
    rw [hkeeps.current]
    exact h.current
  have hsource : ∀ g b, n ≤ g → (w.destroyFrame f).block g = some b
      → b.source = .global ∨ b.source = .pool s := by
    intro g b hg hgb
    rw [destroyFrame_block, Function.update_apply] at hgb
    split at hgb
    . cases hgb
    . exact h.source g b hg hgb
  obtain ⟨a, hreleased, hiff⟩ := destroyFrame_released h.wf.memory hf
  have ha := hiff.mpr (h.returns hn)
  rcases destroyFrame_cases hf with ⟨s', svc, hs, hsvc, -, -, heq⟩ | ⟨-, heq⟩
  -- the block goes back to the pool
  . rw [h.current, Option.some.injEq] at hs
    subst hs
    have hpool : w.pool s = some svc.framePool := by simp [pool, hsvc]
    have hfr : fr.source = .pool s := by
      rw [heq] at hreleased
      simp only [List.append_cancel_left_eq, List.cons.injEq, Prod.mk.injEq] at hreleased
      rw [← ha, ← hreleased.1.2]
    obtain ⟨free, hfree, hholds⟩ := h.wf.memory.free s _ hpool
    obtain ⟨hle, i, hi, hptr, hnot⟩ := hholds.used f _ hb hfr
    have hpos := Nat.lt_of_lt_of_le (h.wf.memory.size f _ hb) hle
    obtain ⟨m, hm, hcard⟩ := h.count
    simp only [freeCount, hpool, Option.bind_some, hfree.freeCount_eq, Option.some.injEq] at hm
    have hmem : f ∈ l := (h.live f).mpr ⟨hn, fr.block, hb, hfr⟩
    refine ⟨l.erase f, hwf, hcurrent, hnext, hsource, ?_, free.length + 1, ?_, ?_⟩
    . intro g
      rw [Finset.mem_erase, h.live g, destroyFrame_block]
      by_cases hg : g = f
      . rw [hg, Function.update_self]
        simp
      . rw [Function.update_of_ne hg]
        simp [hg]
    . rw [heq]
      change ((w.setService s _).pool s).bind _ = _
      rw [setService_pool, Function.update_self]
      simp only [Frame.block] at hptr
      rw [Option.map_some, Option.bind_some, hptr]
      exact (hfree.free_block (h.wf.memory.fits s _ hpool) hpos hi hnot).freeCount_eq
    . have hlt := Finset.card_pos.mpr ⟨f, hmem⟩
      rw [Finset.card_erase_of_mem hmem]
      omega
  . have hfr : fr.source = .global := by
      rw [heq] at hreleased
      simp only [List.append_cancel_left_eq, List.cons.injEq, Prod.mk.injEq] at hreleased
      rw [← ha, ← hreleased.1.2]
    refine ⟨l, hwf, hcurrent, hnext, hsource, ?_, ?_⟩
    . intro g
      rw [h.live g, destroyFrame_block]
      by_cases hg : g = f
      . rw [hg, Function.update_self, hb]
        simp [Frame.block, hfr]
      . rw [Function.update_of_ne hg]
    . rw [heq]
      exact h.count

theorem resume_block (w : Frames) (f : Nat)
    : (w.resume f).block = w.block := by
  unfold resume
  split
  . rename_i fr hf
    split
    . exact setFrame_block_of_eq hf rfl
    . rfl
  . rfl

theorem suspend_block (w : Frames) (f : Nat)
    : (w.suspend f).block = w.block := by
  unfold suspend
  split
  . rename_i fr hf
    split
    . exact setFrame_block_of_eq hf rfl
    . rfl
  . rfl

theorem Ledger.step {st : Step} (h : Ledger n s k l w) (hst : Local n s st)
    : ∃ l', Ledger n s k l' (w.step st) := by
  cases st with
  | create sz addr => exact h.create
  | destroy f =>
    rcases destroyTask_cases w f with ⟨heq, -⟩ | ⟨fr, hfr, hnone, -, heq, -⟩
    . simp only [Frames.step, heq]
      exact ⟨l, h⟩
    . simp only [Frames.step, heq]
      exact h.destroy hst hfr hnone
  | resume f =>
    have hsame : (w.resume f).pool = w.pool ∧ (w.resume f).nextFrame = w.nextFrame
        ∧ (w.resume f).currentCoroSvc = w.currentCoroSvc := by
      unfold Frames.resume
      split
      . split <;> exact ⟨rfl, rfl, rfl⟩
      . exact ⟨rfl, rfl, rfl⟩
    exact ⟨l, h.same (resume_wf h.wf) hsame.1 (resume_block w f) hsame.2.1 hsame.2.2⟩
  | suspend f =>
    have hsame : (w.suspend f).pool = w.pool ∧ (w.suspend f).nextFrame = w.nextFrame
        ∧ (w.suspend f).currentCoroSvc = w.currentCoroSvc := by
      unfold Frames.suspend
      split
      . split <;> exact ⟨rfl, rfl, rfl⟩
      . exact ⟨rfl, rfl, rfl⟩
    exact ⟨l, h.same (suspend_wf h.wf) hsame.1 (suspend_block w f) hsame.2.1 hsame.2.2⟩
  | finish f =>
    have hwf := finish_wf (f := f) h.wf
    simp only [Frames.step]
    rcases finish_cases w f with heq | ⟨fr, hfr, -, ⟨-, heq⟩ | ⟨s', svc, posted, jobs, -, hsvc, heq⟩⟩
    . rw [heq]
      exact ⟨l, h⟩
    . rw [heq] at hwf ⊢
      exact ⟨l, h.same hwf rfl (setFrame_block_of_eq hfr rfl) rfl rfl⟩
    . rw [heq] at hwf ⊢
      refine ⟨l, h.same hwf ?_ ?_ rfl rfl⟩
      . exact setService_pool_of_eq (w := w.setFrame f _) hsvc rfl
      . exact setFrame_block_of_eq hfr rfl
  | spawn s' f =>
    simp only [Frames.step]
    rcases spawn_cases w s' f with ⟨heq, -⟩ | ⟨fr, hfr, hnone, -, heq, -⟩
      | ⟨svc, fr, hs, hfr, hnone, hstatus, -, heq⟩
    . rw [heq]
      exact ⟨l, h⟩
    . rw [heq]
      exact h.destroy hst.2 hfr hnone
    . rw [heq]
      refine ⟨l, h.same (spawnTask_wf h.wf hs hfr hnone hstatus) ?_ ?_ rfl rfl⟩
      . exact setService_pool_of_eq hs rfl
      . exact setFrame_block_of_eq (w := w.setService s' _) hfr rfl
  | runJob =>
    obtain ⟨hcalm, hwf⟩ := runJob_spec h.wf
    refine ⟨l, h.same hwf hcalm.pool ?_ hcalm.nextFrame hcalm.current⟩
    funext f
    simp only [block, Frames.step, hcalm.frames]
  | construct _ _ _ => exact absurd hst id
  | destruct _ => exact absurd hst id
  | setCurrent _ => exact absurd hst id
  | clearCurrent => exact absurd hst id
  | clearSpawned _ => exact absurd hst id

-- What a step makes of the coroutine `g`.
inductive Becomes (s : Nat) (st : Step) (g : Nat) : Option Frame → Option Frame → Prop where
  | same {o : Option Frame} : Becomes s st g o o
  | created {fr : Frame} (hfr : fr.onFinalResume = none) : Becomes s st g none (some fr)
  | destroyed {fr : Frame} (hfr : fr.onFinalResume = none) : Becomes s st g (some fr) none
  | moved {fr fr' : Frame} (hsource : fr'.source = fr.source)
    (hresume : fr'.onFinalResume = fr.onFinalResume) : Becomes s st g (some fr) (some fr')
  | spawned {fr : Frame} (hst : st = .spawn s g) (hstatus : fr.status = .suspended)
    (hfr : fr.onFinalResume = none) : Becomes s st g (some fr) (some { fr with onFinalResume := some s })

theorem becomes_update {st : Step} {g : Nat} {o : Option Frame} (h : Becomes s st f (w.frames f) o)
    : Becomes s st g (w.frames g) (Function.update w.frames f o g) := by
  by_cases hg : g = f
  . rw [hg, Function.update_self]
    exact h
  . rw [Function.update_of_ne hg]
    exact .same

theorem step_becomes {st : Step} (h : w.Wf) (hst : Local n s st) (g : Nat)
    : Becomes s st g (w.frames g) ((w.step st).frames g) := by
  cases st with
  | create sz addr =>
    have hnone : w.frames w.nextFrame = none := by
      cases hf : w.frames w.nextFrame with
      | none => rfl
      | some fr =>
        have := h.memory.blockLt w.nextFrame fr.block (by simp [block, hf])
        omega
    simp only [Frames.step]
    rcases createFrame_cases w sz addr with heq | ⟨s', svc, ptr, p, -, -, -, -, -, heq⟩ | ⟨-, -, heq⟩
    . rw [heq]
      exact .same
    . rw [heq]
      apply becomes_update
      rw [hnone]
      exact .created rfl
    . rw [heq]
      apply becomes_update
      rw [hnone]
      exact .created rfl
  | destroy f =>
    simp only [Frames.step]
    rcases destroyTask_cases w f with ⟨heq, -⟩ | ⟨fr, hfr, hnone, -, heq, -⟩
    . rw [heq]
      exact .same
    . rw [heq, destroyFrame_frames]
      apply becomes_update
      rw [hfr]
      exact .destroyed hnone
  | resume f =>
    simp only [Frames.step, Frames.resume]
    split
    . rename_i fr hfr
      split
      . apply becomes_update
        rw [hfr]
        exact .moved rfl rfl
      . exact .same
    . exact .same
  | suspend f =>
    simp only [Frames.step, Frames.suspend]
    split
    . rename_i fr hfr
      split
      . apply becomes_update
        rw [hfr]
        exact .moved rfl rfl
      . exact .same
    . exact .same
  | finish f =>
    simp only [Frames.step]
    rcases finish_cases w f with heq | ⟨fr, hfr, -, ⟨-, heq⟩ | ⟨s', svc, posted, jobs, -, -, heq⟩⟩
    . rw [heq]
      exact .same
    . rw [heq]
      apply becomes_update
      rw [hfr]
      exact .moved rfl rfl
    . rw [heq]
      apply becomes_update
      rw [hfr]
      exact .moved rfl rfl
  | spawn s' f =>
    obtain ⟨rfl, -⟩ := hst
    simp only [Frames.step]
    rcases spawn_cases w s' f with ⟨heq, -⟩ | ⟨fr, hfr, hnone, -, heq, -⟩
      | ⟨svc, fr, hs, hfr, hnone, hstatus, -, heq⟩
    . rw [heq]
      exact .same
    . rw [heq, destroyFrame_frames]
      apply becomes_update
      rw [hfr]
      exact .destroyed hnone
    . rw [heq]
      simp only [setFrame, setService]
      by_cases hg : g = f
      . rw [hg, Function.update_self, hfr]
        exact .spawned rfl hstatus hnone
      . rw [Function.update_of_ne hg]
        exact .same
  | runJob =>
    simp only [Frames.step, (runJob_spec h).1.frames]
    exact .same
  | construct _ _ _ => exact absurd hst id
  | destruct _ => exact absurd hst id
  | setCurrent _ => exact absurd hst id
  | clearCurrent => exact absurd hst id
  | clearSpawned _ => exact absurd hst id

-- A coroutine of the pool that was spawned.
def Leaked (s f : Nat) (w : Frames) : Prop :=
  ∃ fr, w.frames f = some fr ∧ fr.onFinalResume ≠ none ∧ fr.source = .pool s

theorem Leaked.step {st : Step} (h : w.Wf) (hst : Local n s st) (hf : Leaked s f w)
    : Leaked s f (w.step st) := by
  obtain ⟨fr, hfr, hresume, hsource⟩ := hf
  have hbecomes := step_becomes h hst f
  rw [hfr] at hbecomes
  unfold Leaked
  generalize (w.step st).frames f = o at hbecomes
  cases hbecomes with
  | same => exact ⟨fr, rfl, hresume, hsource⟩
  | destroyed hnone => exact absurd hnone hresume
  | moved hsource' hresume' => exact ⟨_, rfl, by rw [hresume']; exact hresume, hsource'.trans hsource⟩
  | spawned _ _ hnone => exact absurd hnone hresume

-- No spawned coroutine has its frame from the pool.
def NoneLeaked (n s : Nat) (w : Frames) : Prop :=
  ∀ f, n ≤ f → ¬Leaked s f w

theorem step_noneLeaked_iff {st : Step} {svc : Service} (h : w.Wf) (hs : w.services s = some svc)
    (hst : Local n s st)
    : NoneLeaked n s (w.step st) ↔ NoneLeaked n s w ∧ SpawnsOutside n s w st := by
  constructor
  . intro hnone
    have hold : NoneLeaked n s w := fun f hf hleaked => hnone f hf (hleaked.step h hst)
    refine ⟨hold, ?_⟩
    intro f _ heq hf fr hfr hstatus hsource
    rw [Option.mem_def] at hfr
    cases hresume : fr.onFinalResume with
    | some s' => exact hold f hf ⟨fr, hfr, by simp [hresume], hsource⟩
    | none =>
      apply hnone f hf
      refine ⟨{ fr with onFinalResume := some s }, ?_, by simp, hsource⟩
      simp [heq, Frames.step, spawn, hs, hfr, hresume, hstatus, setFrame]
  . rintro ⟨hold, hcond⟩ f hf ⟨fr', hfr', hresume, hsource⟩
    have hbecomes := step_becomes h hst f
    rw [hfr'] at hbecomes
    cases hfr : w.frames f with
    | none =>
      rw [hfr] at hbecomes
      cases hbecomes with
      | created hnone => exact hresume hnone
    | some fr =>
      rw [hfr] at hbecomes
      cases hbecomes with
      | same => exact hold f hf ⟨fr', hfr, hresume, hsource⟩
      | moved hsource' hresume' =>
        exact hold f hf ⟨fr, hfr, by rw [← hresume']; exact hresume, hsource'.symm.trans hsource⟩
      | spawned heq hstatus hnone =>
        have hlt := h.memory.blockLt f fr.block (by simp [block, hfr])
        exact hcond f hlt heq hf fr hfr hstatus hsource

theorem Ledger.service (h : Ledger n s k l w)
    : ∃ svc, w.services s = some svc := by
  obtain ⟨p, hp⟩ := h.wf.memory.current s h.current
  simp only [pool, Option.map_eq_some_iff] at hp
  obtain ⟨svc, hsvc, -⟩ := hp
  exact ⟨svc, hsvc⟩

theorem run_ledger (steps : List Step) (h : Ledger n s k l w) (hsteps : ∀ st ∈ steps, Local n s st)
    : ∃ l', Ledger n s k l' (w.run steps) :=
  foldl_invariant (I := fun w => ∃ l, Ledger n s k l w) steps
    (fun _ st hst h => h.elim fun _ h => h.step (hsteps st hst)) ⟨l, h⟩

theorem run_leaked (steps : List Step) (h : Ledger n s k l w) (hsteps : ∀ st ∈ steps, Local n s st)
    (hf : Leaked s f w)
    : Leaked s f (w.run steps) := by
  have hstep : ∀ w, ∀ st ∈ steps, (∃ l, Ledger n s k l w) ∧ Leaked s f w
      → (∃ l, Ledger n s k l (w.step st)) ∧ Leaked s f (w.step st) := by
    rintro w st hst ⟨⟨l, h⟩, hf⟩
    exact ⟨h.step (hsteps st hst), hf.step h.wf (hsteps st hst)⟩
  exact (foldl_invariant steps hstep ⟨⟨l, h⟩, hf⟩).2

theorem run_noneLeaked_iff (steps : List Step) (h : Ledger n s k l w) (hnone : NoneLeaked n s w)
    (hsteps : ∀ st ∈ steps, Local n s st)
    : NoneLeaked n s (w.run steps) ↔ Along step (SpawnsOutside n s) w steps := by
  induction steps generalizing w l with
  | nil => exact ⟨fun _ => trivial, fun _ => hnone⟩
  | cons st steps ih =>
    have hst := hsteps st List.mem_cons_self
    have hsteps' : ∀ st ∈ steps, Local n s st := fun st' hst' => hsteps st' (List.mem_cons_of_mem st hst')
    obtain ⟨svc, hsvc⟩ := h.service
    obtain ⟨l', h'⟩ := h.step hst
    have hiff := step_noneLeaked_iff h.wf hsvc hst
    rw [Along]
    by_cases hcond : SpawnsOutside n s w st
    . rw [← ih h' (hiff.mpr ⟨hnone, hcond⟩) hsteps']
      exact ⟨fun hrun => ⟨hcond, hrun⟩, fun hrun => hrun.2⟩
    -- the coroutine of this step is never destroyed
    . constructor
      . intro hrun
        have hstep : NoneLeaked n s (w.step st) :=
          fun f hf hleaked => hrun f hf (run_leaked steps h' hsteps' hleaked)
        exact absurd (hiff.mp hstep).2 hcond
      . exact fun hrun => absurd hrun.1 hcond

theorem Ledger.init (h : w.Wf) (hs : w.currentCoroSvc = some s)
    : ∃ k, w.freeCount s = some k ∧ Ledger w.nextFrame s k ∅ w := by
  obtain ⟨p, hp⟩ := h.memory.current s hs
  obtain ⟨free, hfree, -⟩ := h.memory.free s p hp
  have hcount : w.freeCount s = some free.length := by
    rw [freeCount, hp]
    exact hfree.freeCount_eq
  have hold : ∀ f b, w.nextFrame ≤ f → w.block f ≠ some b := by
    intro f b hf hb
    have := h.memory.blockLt f b hb
    omega
  refine ⟨free.length, hcount, h, hs, Nat.le_refl _, ?_, ?_, free.length, hcount, by simp⟩
  . exact fun f b hf hb => absurd hb (hold f b hf)
  . intro f
    constructor
    . intro hf
      cases hf
    . rintro ⟨hf, b, hb, -⟩
      exact absurd hb (hold f b hf)

theorem Ledger.freeCount_iff (h : Ledger n s k l w) (hcompleted : Completed n s w)
    : w.freeCount s = some k ↔ NoneLeaked n s w := by
  obtain ⟨m, hm, hcard⟩ := h.count
  have hl : l = ∅ ↔ NoneLeaked n s w := by
    constructor
    . rintro rfl f hf ⟨fr, hfr, -, hsource⟩
      have hmem := (h.live f).mpr ⟨hf, fr.block, by simp [block, hfr], hsource⟩
      cases hmem
    . intro hnone
      rw [Finset.eq_empty_iff_forall_notMem]
      intro f hf
      obtain ⟨hn, b, hb, hsource⟩ := (h.live f).mp hf
      simp only [block, Option.map_eq_some_iff] at hb
      obtain ⟨fr, hfr, rfl⟩ := hb
      have hlt := h.wf.memory.blockLt f fr.block (by simp [block, hfr])
      have hspawned := (hcompleted.1 f hlt hn fr hfr).1
      exact hnone f hn ⟨fr, hfr, by simp [hspawned], hsource⟩
  rw [← hl, hm, Option.some.injEq, ← Finset.card_eq_zero]
  omega

theorem spawned_freeCount_iff (before steps : List Step) (s : Nat) (hfits : ∀ st ∈ before, st.Fits)
    (hbefore : Along step DestroysOwn {} before) (hs : (run {} before).currentCoroSvc = some s)
    (hsteps : ∀ st ∈ steps, Local (run {} before).nextFrame s st)
    (hcompleted : Completed (run {} before).nextFrame s ((run {} before).run steps))
    : ∃ k, (run {} before).freeCount s = some k
        ∧ (((run {} before).run steps).freeCount s = some k
          ↔ Along step (SpawnsOutside (run {} before).nextFrame s) (run {} before) steps) := by
  have hwf := run_wf init_wf hfits hbefore
  generalize run {} before = w at *
  obtain ⟨k, hk, hledger⟩ := Ledger.init hwf hs
  refine ⟨k, hk, ?_⟩
  obtain ⟨l, hledger'⟩ := run_ledger steps hledger hsteps
  rw [hledger'.freeCount_iff hcompleted]
  apply run_noneLeaked_iff steps hledger ?_ hsteps
  rintro f hf ⟨fr, hfr, -, -⟩
  have := hwf.memory.blockLt f fr.block (by simp [block, hfr])
  omega

-- One coroutine is created, spawned, suspended once and finished, then the cleanup runs.
def spawnOne (sz addr : Nat) : List Step :=
  [.create sz addr, .spawn 0 0, .resume 0, .suspend 0, .resume 0, .finish 0, .runJob]

theorem spawnOne_leaks
    : let w := run {} [.construct 8192 4 1000]
      w.currentCoroSvc = some 0 ∧ Completed w.nextFrame 0 (w.run (spawnOne 200 0))
        ∧ w.freeCount 0 = some 4 ∧ (w.run (spawnOne 200 0)).freeCount 0 = some 3 := by
  decide +kernel

theorem spawnOne_outside_freeCount
    : (run {} [.construct 8192 4 1000]).freeCount 0 = some 4
        ∧ ((run {} [.construct 8192 4 1000]).run (spawnOne 9000 100000)).freeCount 0 = some 4 := by
  obtain ⟨k, hk, hiff⟩ := spawned_freeCount_iff [.construct 8192 4 1000] (spawnOne 9000 100000) 0
    (by decide +kernel) (by decide +kernel) (by decide +kernel) (by decide +kernel) (by decide +kernel)
  have hfour : (run {} [.construct 8192 4 1000]).freeCount 0 = some 4 := by decide +kernel
  rw [hfour, Option.some.injEq] at hk
  rw [← hk] at hiff
  exact ⟨hfour, hiff.mpr (by decide +kernel)⟩

end Frames

end Coroutine
end Ezio
