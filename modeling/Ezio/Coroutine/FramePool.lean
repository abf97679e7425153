import Ezio.Lib.FreeList
import Mathlib.Algebra.Ring.Nat
import Mathlib.Data.List.Perm.Subperm

/-!
This module contains `coroutine_frame_pool`, the pool of blocks that coroutine frames are allocated from.
The index `-1` that ends the free list is `none`.
-/

namespace Ezio
namespace Coroutine

def DEFAULT_FRAME_BLOCK_SIZE : Nat := 8192

def DEFAULT_FRAME_POOL_CAPACITY : Nat := 4096

structure FramePool where
  mem : Nat
  blockSize : Nat
  capacity : Nat
  freeHead : Option Nat
  nextFree : Nat → Option Nat

namespace FramePool

-- `mem` is the answer of `::operator new`
def new (mem blockSize capacity : Nat) : FramePool where
  mem := mem
  blockSize := blockSize
  capacity := capacity
  freeHead := some 0
  nextFree := fun i => if i = capacity - 1 then none else some (i + 1)

-- the product is a `size_t`
def total (pool : FramePool) : Nat :=
  pool.blockSize * pool.capacity % 2 ^ 64

def owns (pool : FramePool) (ptr : Nat) : Bool :=
  pool.mem ≤ ptr && ptr < pool.mem + pool.total

def alloc (pool : FramePool) : Option (Nat × FramePool) :=
  match pool.freeHead with
  | none => none
  | some idx => some (pool.mem + idx * pool.blockSize % 2 ^ 64, { pool with freeHead := pool.nextFree idx })

def free (pool : FramePool) (ptr : Nat) : FramePool :=
  if pool.owns ptr then
    let offset := ptr - pool.mem
    let idx := offset / pool.blockSize
    { pool with nextFree := Function.update pool.nextFree idx pool.freeHead, freeHead := some idx }
  else
    pool

-- `none` if the walk along the free list does not end
def freeCount (pool : FramePool) : Option Nat :=
  linkCount pool.nextFree pool.capacity pool.freeHead

def empty (pool : FramePool) : Bool :=
  pool.freeHead.isNone

-- The constructor stays inside `next_free_`, and the memory has room for all blocks.
structure Fits (pool : FramePool) : Prop where
  pos : 0 < pool.capacity
  le : pool.capacity ≤ DEFAULT_FRAME_POOL_CAPACITY
  lt : pool.blockSize * pool.capacity < 2 ^ 64

instance (pool : FramePool) : Decidable pool.Fits :=
  decidable_of_iff (0 < pool.capacity ∧ pool.capacity ≤ DEFAULT_FRAME_POOL_CAPACITY
      ∧ pool.blockSize * pool.capacity < 2 ^ 64)
    ⟨fun ⟨hpos, hle, hlt⟩ => ⟨hpos, hle, hlt⟩, fun ⟨hpos, hle, hlt⟩ => ⟨hpos, hle, hlt⟩⟩

-- The blocks `l` are the free ones, in the order of the free list.
structure Free (pool : FramePool) (l : List Nat) : Prop where
  linked : Linked pool.nextFree pool.freeHead l
  nodup : l.Nodup
  lt : ∀ i ∈ l, i < pool.capacity

variable {pool : FramePool} {l : List Nat} {i : Nat}

theorem Fits.total_eq (h : pool.Fits)
    : pool.total = pool.blockSize * pool.capacity :=
  Nat.mod_eq_of_lt h.lt

theorem Fits.block_eq (h : pool.Fits) (hi : i < pool.capacity)
    : i * pool.blockSize % 2 ^ 64 = i * pool.blockSize := by
  have hle : i * pool.blockSize ≤ pool.blockSize * pool.capacity := by
    rw [Nat.mul_comm]
    exact Nat.mul_le_mul_left _ (Nat.le_of_lt hi)
  exact Nat.mod_eq_of_lt (Nat.lt_of_le_of_lt hle h.lt)

theorem owns_block (hfits : pool.Fits) (hsize : 0 < pool.blockSize) (hi : i < pool.capacity)
    : pool.owns (pool.mem + i * pool.blockSize) = true := by
  have hlt : i * pool.blockSize < pool.blockSize * pool.capacity := by
    rw [Nat.mul_comm]
    exact Nat.mul_lt_mul_of_pos_left hi hsize
  simp only [owns, hfits.total_eq, Bool.and_eq_true, decide_eq_true_eq]
  omega

theorem Free.freeCount_eq (h : pool.Free l)
    : pool.freeCount = some l.length := by
  apply h.linked.linkCount_eq
  have hsub : l ⊆ List.range pool.capacity := by
    intro i hi
    exact List.mem_range.mpr (h.lt i hi)
  have hle := (List.Nodup.subperm h.nodup hsub).length_le
  simpa using hle

theorem Free.of_alloc {ptr : Nat} {pool' : FramePool} (h : pool.Free l) (hfits : pool.Fits)
    (halloc : pool.alloc = some (ptr, pool'))
    : ∃ i l', l = i :: l' ∧ ptr = pool.mem + i * pool.blockSize
        ∧ pool' = { pool with freeHead := pool.nextFree i } ∧ pool'.Free l' := by
  unfold alloc at halloc
  split at halloc
  . cases halloc
  . rename_i idx hhead
    simp only [Option.some.injEq, Prod.mk.injEq] at halloc
    obtain ⟨hptr, hpool⟩ := halloc
    have hlinked := h.linked
    rw [hhead] at hlinked
    obtain ⟨l', hl, hlinked'⟩ := hlinked.eq_cons
    have hnodup := h.nodup
    have hlt := h.lt
    rw [hl] at hnodup hlt
    rw [hfits.block_eq (hlt idx List.mem_cons_self)] at hptr
    refine ⟨idx, l', hl, hptr.symm, hpool.symm, ?_⟩
    rw [← hpool]
    exact ⟨hlinked', (List.nodup_cons.mp hnodup).2, fun j hj => hlt j (List.mem_cons_of_mem idx hj)⟩

theorem Free.free_block (h : pool.Free l) (hfits : pool.Fits) (hsize : 0 < pool.blockSize)
    (hi : i < pool.capacity) (hnot : i ∉ l)
    : (pool.free (pool.mem + i * pool.blockSize)).Free (i :: l) := by
  unfold free
  rw [if_pos (owns_block hfits hsize hi)]
  simp only [Nat.add_sub_cancel_left, Nat.mul_div_cancel i hsize]
  refine ⟨h.linked.push hnot, List.nodup_cons.mpr ⟨hnot, h.nodup⟩, ?_⟩
  intro j hj
  rcases List.mem_cons.mp hj with heq | hmem
  . rw [heq]
    exact hi
  . exact h.lt j hmem

theorem new_free (mem blockSize capacity : Nat) (hcap : 0 < capacity)
    : (new mem blockSize capacity).Free (List.range capacity) := by
  refine ⟨?_, List.nodup_range, fun i hi => List.mem_range.mp hi⟩
  -- the free list from the block `i` on
  have hfrom : ∀ n i, i + n + 1 = capacity
      → Linked (new mem blockSize capacity).nextFree (some i) (List.range' i (n + 1)) := by
    intro n
    induction n with
    | zero =>
      intro i hi
      have hlast : i = capacity - 1 := by omega
      simp [Linked, new, hlast]
    | succ n ih =>
      intro i hi
      have hnot : i ≠ capacity - 1 := by omega
      rw [List.range'_succ]
      refine ⟨rfl, ?_⟩
      simp only [new, if_neg hnot]
      exact ih (i + 1) (by omega)
  rw [List.range_eq_range']
  have hsucc : capacity - 1 + 1 = capacity := by omega
  have hall := hfrom (capacity - 1) 0 (by omega)
  rw [hsucc] at hall
  exact hall

@[simp]
theorem free_mem (pool : FramePool) (ptr : Nat)
    : (pool.free ptr).mem = pool.mem := by
  unfold free
  split <;> rfl

@[simp]
theorem free_blockSize (pool : FramePool) (ptr : Nat)
    : (pool.free ptr).blockSize = pool.blockSize := by
  unfold free
  split <;> rfl

@[simp]
theorem free_capacity (pool : FramePool) (ptr : Nat)
    : (pool.free ptr).capacity = pool.capacity := by
  unfold free
  split <;> rfl

@[simp]
theorem free_total (pool : FramePool) (ptr : Nat)
    : (pool.free ptr).total = pool.total := by
  unfold total
  rw [free_blockSize, free_capacity]

theorem Fits.same {pool' : FramePool} (h : pool.Fits) (hsize : pool'.blockSize = pool.blockSize)
    (hcap : pool'.capacity = pool.capacity)
    : pool'.Fits := by
  refine ⟨?_, ?_, ?_⟩ <;> rw [hcap]
  . exact h.pos
  . exact h.le
  . rw [hsize]
    exact h.lt

end FramePool

end Coroutine
end Ezio
