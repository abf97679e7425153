import Ezio.Coroutine.Frames.Memory

/-!
This module contains the invariant of the frames of a thread and what one `frame_free` does to it.
-/

namespace Ezio
namespace Coroutine
namespace Frames

def pool (w : Frames) (s : Nat) : Option FramePool :=
  (w.services s).map (·.framePool)

def block (w : Frames) (f : Nat) : Option Block :=
  (w.frames f).map Frame.block

def tasks (w : Frames) (s : Nat) : List SpawnedTask :=
  ((w.services s).map (·.spawnedList)).getD []

def pending (w : Frames) (s : Nat) : List Nat :=
  ((w.services s).map (·.pendingCleanup)).getD []

def Memory (w : Frames) : Prop :=
  Mem w.pool w.nextService w.block w.nextFrame w.currentCoroSvc

structure Wf (w : Frames) : Prop where
  memory : w.Memory
  -- a task that still has its handle belongs to a coroutine that has not finished
  handle : ∀ s, ∀ t ∈ w.tasks s, ∀ f, t.handle = some f
    → t.iter = f ∧ ∃ fr, w.frames f = some fr ∧ fr.onFinalResume = some s ∧ fr.status ≠ .done
  pending : ∀ s, ∀ f ∈ w.pending s, f < w.nextFrame ∧ ∀ fr, w.frames f = some fr → fr.status = .done

-- The frame `f` was taken from the allocator that `frame_free` would now give it to.
def Returns (w : Frames) (f : Nat) : Prop :=
  ∀ fr ∈ w.frames f, fr.source = .global ∨ w.currentCoroSvc.map Allocator.pool = some fr.source

instance (w : Frames) (f : Nat) : Decidable (w.Returns f) :=
  inferInstanceAs (Decidable (∀ _ ∈ _, _))

-- Every frame was given back to the allocator it came from.
def Returned (w : Frames) : Prop :=
  ∀ e ∈ w.released, e.2 = e.1.source

variable {w : Frames} {s f : Nat} {svc : Service} {fr : Frame}

theorem current_eq_some (h : w.current = some (s, svc))
    : w.currentCoroSvc = some s ∧ w.services s = some svc := by
  simp only [current, Option.bind_eq_some_iff, Option.map_eq_some_iff, Prod.mk.injEq] at h
  obtain ⟨t, ht, svc', hsvc, rfl, rfl⟩ := h
  exact ⟨ht, hsvc⟩

theorem setService_pool (w : Frames) (s : Nat) (o : Option Service)
    : (w.setService s o).pool = Function.update w.pool s (o.map (·.framePool)) := by
  funext t
  simp only [pool, setService, Function.update_apply]
  split <;> rfl

theorem setFrame_block (w : Frames) (f : Nat) (o : Option Frame)
    : (w.setFrame f o).block = Function.update w.block f (o.map Frame.block) := by
  funext g
  simp only [block, setFrame, Function.update_apply]
  split <;> rfl

theorem setService_pool_of_eq {svc' : Service} (h : w.services s = some svc)
    (hpool : svc'.framePool = svc.framePool)
    : (w.setService s (some svc')).pool = w.pool := by
  rw [setService_pool, Option.map_some, hpool]
  apply Function.update_eq_self_iff.mpr
  simp [pool, h]

theorem setFrame_block_of_eq {fr' : Frame} (h : w.frames f = some fr) (hblock : fr'.block = fr.block)
    : (w.setFrame f (some fr')).block = w.block := by
  rw [setFrame_block, Option.map_some, hblock]
  apply Function.update_eq_self_iff.mpr
  simp [block, h]

theorem destroyFrame_cases (h : w.frames f = some fr)
    : (∃ s svc, w.currentCoroSvc = some s ∧ w.services s = some svc
          ∧ fr.size ≤ svc.framePool.blockSize ∧ svc.framePool.owns fr.ptr
          ∧ w.destroyFrame f
            = { (w.setService s (some { svc with framePool := svc.framePool.free fr.ptr })).setFrame f none
                with released := w.released ++ [(fr, .pool s)] })
        ∨ (∀ s svc, w.currentCoroSvc = some s → w.services s = some svc
            → fr.size ≤ svc.framePool.blockSize → svc.framePool.owns fr.ptr = false)
          ∧ w.destroyFrame f = { w.setFrame f none with released := w.released ++ [(fr, .global)] } := by
  simp only [destroyFrame, h, frameFree]
  cases hcurrent : w.current with
  | none =>
    refine .inr ⟨?_, rfl⟩
    intro s svc hs hsvc
    simp [current, hs, hsvc] at hcurrent
  | some c =>
    obtain ⟨s, svc⟩ := c
    obtain ⟨hs, hsvc⟩ := current_eq_some hcurrent
    simp only [Service.freeFrame, Bool.and_eq_true, decide_eq_true_eq]
    by_cases hfree : fr.size ≤ svc.framePool.blockSize ∧ svc.framePool.owns fr.ptr = true
    . rw [if_pos hfree]
      exact .inl ⟨s, svc, hs, hsvc, hfree.1, hfree.2, rfl⟩
    . rw [if_neg hfree]
      refine .inr ⟨?_, rfl⟩
      intro s' svc' hs' hsvc' hle
      rw [hs, Option.some.injEq] at hs'
      rw [← hs', hsvc, Option.some.injEq] at hsvc'
      rw [← hsvc'] at hle ⊢
      simpa [hle] using hfree

-- What a `frame_free` leaves as it is.
structure Keeps (w w' : Frames) : Prop where
  tasks : w'.tasks = w.tasks
  pending : w'.pending = w.pending
  current : w'.currentCoroSvc = w.currentCoroSvc
  nextService : w'.nextService = w.nextService
  nextFrame : w'.nextFrame = w.nextFrame

theorem Keeps.refl (w : Frames)
    : Keeps w w :=
  ⟨rfl, rfl, rfl, rfl, rfl⟩

theorem setService_tasks (w : Frames) (s : Nat) (o : Option Service)
    : (w.setService s o).tasks = Function.update w.tasks s ((o.map (·.spawnedList)).getD []) := by
  funext t
  simp only [tasks, setService, Function.update_apply]
  split <;> rfl

theorem setService_pending (w : Frames) (s : Nat) (o : Option Service)
    : (w.setService s o).pending = Function.update w.pending s ((o.map (·.pendingCleanup)).getD []) := by
  funext t
  simp only [Frames.pending, setService, Function.update_apply]
  split <;> rfl

theorem tasks_eq (h : w.services s = some svc)
    : w.tasks s = svc.spawnedList := by
  simp [tasks, h]

theorem pending_eq (h : w.services s = some svc)
    : w.pending s = svc.pendingCleanup := by
  simp [Frames.pending, h]

theorem setPool_tasks {p : FramePool} (h : w.services s = some svc)
    : (w.setService s (some { svc with framePool := p })).tasks = w.tasks := by
  rw [setService_tasks]
  exact Function.update_eq_self_iff.mpr (tasks_eq h).symm

theorem setPool_pending {p : FramePool} (h : w.services s = some svc)
    : (w.setService s (some { svc with framePool := p })).pending = w.pending := by
  rw [setService_pending]
  exact Function.update_eq_self_iff.mpr (pending_eq h).symm

theorem destroyFrame_keeps (w : Frames) (f : Nat)
    : Keeps w (w.destroyFrame f) := by
  cases h : w.frames f with
  | none =>
    simp only [destroyFrame, h]
    exact .refl w
  | some fr =>
    rcases destroyFrame_cases h with ⟨s, svc, -, hsvc, -, -, heq⟩ | ⟨-, heq⟩
    . rw [heq]
      exact ⟨setPool_tasks hsvc, setPool_pending hsvc, rfl, rfl, rfl⟩
    . rw [heq]
      exact ⟨rfl, rfl, rfl, rfl, rfl⟩

theorem destroyFrame_frames (w : Frames) (f : Nat)
    : (w.destroyFrame f).frames = Function.update w.frames f none := by
  cases h : w.frames f with
  | none =>
    simp only [destroyFrame, h]
    exact (Function.update_eq_self_iff.mpr h.symm).symm
  | some fr =>
    rcases destroyFrame_cases h with ⟨s, svc, -, -, -, -, heq⟩ | ⟨-, heq⟩ <;> rw [heq] <;> rfl

-- Where a frame goes and whether it came from there.
theorem destroyFrame_released (hmem : w.Memory) (h : w.frames f = some fr)
    : ∃ a, (w.destroyFrame f).released = w.released ++ [(fr, a)] ∧ (a = fr.source ↔ w.Returns f) := by
  have hblock : w.block f = some fr.block := by simp [block, h]
  have hreturns : w.Returns f
      ↔ fr.source = .global ∨ w.currentCoroSvc.map Allocator.pool = some fr.source := by
    simp [Returns, h]
  rw [hreturns]
  rcases destroyFrame_cases h with ⟨s, svc, hs, hsvc, -, howns, heq⟩ | ⟨hnot, heq⟩
  . refine ⟨.pool s, by rw [heq], ?_⟩
    have hpool : w.pool s = some svc.framePool := by simp [pool, hsvc]
    simp only [hs, Option.map_some, Option.some.injEq]
    constructor
    . exact .inr
    . rintro (hglobal | hsource)
      -- a frame from the global heap is apart from the pool
      . have hapart := hmem.apart s _ f _ hpool hblock hglobal
        have hsize := hmem.size f _ hblock
        simp only [Frame.block, Apart] at hapart hsize
        simp only [FramePool.owns, Bool.and_eq_true, decide_eq_true_eq] at howns
        omega
      . exact hsource
  . refine ⟨.global, by rw [heq], ?_⟩
    constructor
    . exact fun hsource => .inl hsource.symm
    . rintro (hglobal | hsource)
      . exact hglobal.symm
      . simp only [Option.map_eq_some_iff] at hsource
        obtain ⟨s, hs, hpool⟩ := hsource
        obtain ⟨p, hp⟩ := hmem.current s hs
        simp only [pool, Option.map_eq_some_iff] at hp
        obtain ⟨svc, hsvc, rfl⟩ := hp
        have hp : w.pool s = some svc.framePool := by simp [pool, hsvc]
        obtain ⟨l, hl, hholds⟩ := hmem.free s _ hp
        obtain ⟨hle, i, hi, hptr, -⟩ := hholds.used f _ hblock hpool.symm
        have hpos := Nat.lt_of_lt_of_le (hmem.size f _ hblock) hle
        have howns := hnot s svc hs hsvc hle
        simp only [Frame.block] at hptr
        rw [hptr, FramePool.owns_block (hmem.fits s _ hp) hpos hi] at howns
        cases howns

theorem destroyFrame_memory (hmem : w.Memory) (hreturns : w.Returns f)
    : (w.destroyFrame f).Memory := by
  cases h : w.frames f with
  | none =>
    simp only [destroyFrame, h]
    exact hmem
  | some fr =>
    have hblock : w.block f = some fr.block := by simp [block, h]
    obtain ⟨a, hreleased, hiff⟩ := destroyFrame_released hmem h
    have hsource := hiff.mpr hreturns
    rcases destroyFrame_cases h with ⟨s, svc, hs, hsvc, -, -, heq⟩ | ⟨-, heq⟩
    . have hpool : w.pool s = some svc.framePool := by simp [pool, hsvc]
      have ha : a = .pool s := by
        rw [heq] at hreleased
        simpa using hreleased.symm
      have hfree := hmem.freeBlock hpool hblock (by rw [← ha]; exact hsource.symm)
      rw [heq]
      unfold Memory
      have hpool' := setService_pool w s (some { svc with framePool := svc.framePool.free fr.ptr })
      have hblock' := setFrame_block w f none
      simp only [Option.map_some, Option.map_none] at hpool' hblock'
      change Mem (w.setService s _).pool w.nextService (w.setFrame f none).block w.nextFrame
        w.currentCoroSvc
      rw [hpool', hblock']
      exact hfree
    . rw [heq]
      unfold Memory
      change Mem w.pool w.nextService (w.setFrame f none).block w.nextFrame w.currentCoroSvc
      rw [setFrame_block]
      exact hmem.remove

theorem destroyFrame_returned (hmem : w.Memory)
    : (w.destroyFrame f).Returned ↔ w.Returned ∧ w.Returns f := by
  cases h : w.frames f with
  | none => simp [destroyFrame, h, Returns]
  | some fr =>
    obtain ⟨a, hreleased, hiff⟩ := destroyFrame_released hmem h
    simp only [Returned, hreleased, List.mem_append, List.mem_singleton, ← hiff]
    constructor
    . intro hall
      exact ⟨fun e he => hall e (.inl he), hall (fr, a) (.inr rfl)⟩
    . rintro ⟨hold, hnew⟩ e (he | rfl)
      . exact hold e he
      . exact hnew

theorem destroyFrame_released_subset (w : Frames) (f : Nat)
    : ∀ e ∈ w.released, e ∈ (w.destroyFrame f).released := by
  intro e he
  cases h : w.frames f with
  | none =>
    simp only [destroyFrame, h]
    exact he
  | some fr =>
    rcases destroyFrame_cases h with ⟨s, svc, -, -, -, -, heq⟩ | ⟨-, heq⟩ <;> rw [heq] <;> simp [he]

end Frames

end Coroutine
end Ezio
