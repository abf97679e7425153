import Mathlib.Algebra.Ring.Nat
import Ezio.Coroutine.FramePool
import Ezio.Lib.Run

/-!
This module contains `coroutine_frame_pool` as it lies in memory, with `size_t` fields and the array `next_free_`. An
access past the end of the array is undefined, the functions return `none` for it.
-/

namespace Ezio
namespace Coroutine

-- `static_cast<size_t>(-1)`
def NO_BLOCK : BitVec 64 := BitVec.allOnes 64

structure ArrayPool where
  mem : BitVec 64
  blockSize : BitVec 64
  capacity : BitVec 64
  freeHead : BitVec 64
  -- the elements of the array, those from `DEFAULT_FRAME_POOL_CAPACITY` on are not there
  nextFree : Nat → BitVec 64

namespace ArrayPool

def load (pool : ArrayPool) (i : BitVec 64) : Option (BitVec 64) :=
  if i.toNat < DEFAULT_FRAME_POOL_CAPACITY then some (pool.nextFree i.toNat) else none

def store (pool : ArrayPool) (i v : BitVec 64) : Option ArrayPool :=
  if i.toNat < DEFAULT_FRAME_POOL_CAPACITY then
    some { pool with nextFree := Function.update pool.nextFree i.toNat v }
  else
    none

-- The loop of the constructor, `i` has come to `capacity_ - cnt`.
def link (pool : ArrayPool) (i : Nat) : Nat → Option ArrayPool
  | 0 => some pool
  | cnt + 1 => do
    let pool ← pool.store (BitVec.ofNat 64 i) (BitVec.ofNat 64 (i + 1))
    pool.link (i + 1) cnt

-- `mem` is the answer of `::operator new`, which throws if there is none. `uninit` is what the array holds before.
def new (mem blockSize capacity : BitVec 64) (uninit : Nat → BitVec 64) : Option ArrayPool := do
  let pool := { mem, blockSize, capacity, freeHead := 0, nextFree := uninit }
  let pool ← link pool 0 capacity.toNat
  pool.store (capacity - 1) NO_BLOCK

def owns (pool : ArrayPool) (ptr : BitVec 64) : Bool :=
  pool.mem ≤ ptr && ptr < pool.mem + pool.blockSize * pool.capacity

-- The start of a block.
def block (pool : ArrayPool) (idx : BitVec 64) : BitVec 64 :=
  pool.mem + idx * pool.blockSize

def alloc (pool : ArrayPool) : Option (Option (BitVec 64) × ArrayPool) :=
  if pool.freeHead = NO_BLOCK then
    some (none, pool)
  else do
    let next ← pool.load pool.freeHead
    some (some (pool.block pool.freeHead), { pool with freeHead := next })

def free (pool : ArrayPool) (ptr : BitVec 64) : Option ArrayPool :=
  if ptr = 0 || !pool.owns ptr then
    some pool
  else do
    let idx := (ptr - pool.mem) / pool.blockSize
    let pool ← pool.store idx pool.freeHead
    some { pool with freeHead := idx }

-- The loop of `free_count` from the block `i` on. The inner `none` stands for a loop that goes on after `fuel` rounds.
def countFrom (pool : ArrayPool) : (fuel : Nat) → (i : BitVec 64) → Option (Option Nat)
  | 0, i => some (if i = NO_BLOCK then some 0 else none)
  | fuel + 1, i =>
    if i = NO_BLOCK then
      some (some 0)
    else do
      let next ← pool.load i
      let n ← pool.countFrom fuel next
      some (n.map (· + 1))

def freeCount (pool : ArrayPool) (fuel : Nat) : Option (Option Nat) :=
  pool.countFrom fuel pool.freeHead

inductive Call where
  | alloc
  | free (ptr : BitVec 64)
  -- the first `fuel` rounds of `free_count`
  | freeCount (fuel : Nat)
  deriving DecidableEq, Repr

def call (pool : ArrayPool) : Call → Option ArrayPool
  | .alloc => pool.alloc.map (·.2)
  | .free ptr => pool.free ptr
  | .freeCount fuel => (pool.freeCount fuel).map fun _ => pool

variable {pool pool' : ArrayPool} {mem blockSize capacity : BitVec 64} {uninit : Nat → BitVec 64} {i cnt : Nat}

/-! ### The constructor -/

theorem store_eq {i v : BitVec 64} (h : i.toNat < DEFAULT_FRAME_POOL_CAPACITY)
    : pool.store i v = some { pool with nextFree := Function.update pool.nextFree i.toNat v } := by
  unfold store
  rw [if_pos h]

theorem store_eq_none {i v : BitVec 64} (h : ¬i.toNat < DEFAULT_FRAME_POOL_CAPACITY)
    : pool.store i v = none := by
  unfold store
  rw [if_neg h]

theorem link_eq_none (hsize : i + cnt ≤ 2 ^ 64) (hle : i ≤ DEFAULT_FRAME_POOL_CAPACITY)
    (hlt : DEFAULT_FRAME_POOL_CAPACITY < i + cnt)
    : pool.link i cnt = none := by
  induction cnt generalizing i pool with
  | zero => omega
  | succ cnt ih =>
    have hi : (BitVec.ofNat 64 i).toNat = i := by
      rw [BitVec.toNat_ofNat]
      omega
    unfold link
    by_cases heq : i < DEFAULT_FRAME_POOL_CAPACITY
    . rw [store_eq (by rw [hi]; exact heq)]
      exact ih (by omega) (by omega) (by omega)
    . rw [store_eq_none (by rw [hi]; exact heq)]
      rfl

theorem link_eq (hle : i + cnt ≤ DEFAULT_FRAME_POOL_CAPACITY)
    : pool.link i cnt = some { pool with
        nextFree := fun j => if i ≤ j ∧ j < i + cnt then BitVec.ofNat 64 (j + 1) else pool.nextFree j } := by
  induction cnt generalizing i pool with
  | zero =>
    have hnone : ∀ j, (if i ≤ j ∧ j < i + 0 then BitVec.ofNat 64 (j + 1) else pool.nextFree j) = pool.nextFree j :=
      fun j => if_neg (by omega)
    simp only [link, hnone]
  | succ cnt ih =>
    have hdef : DEFAULT_FRAME_POOL_CAPACITY = 4096 := rfl
    have hi : (BitVec.ofNat 64 i).toNat = i := by
      rw [BitVec.toNat_ofNat]
      omega
    unfold link
    rw [store_eq (by omega), hi]
    refine (ih (by omega)).trans ?_
    congr 2
    funext j
    dsimp only
    by_cases heq : j = i
    . have hin : i ≤ j ∧ j < i + (cnt + 1) := by omega
      have hout : ¬(i + 1 ≤ j ∧ j < i + 1 + cnt) := by omega
      rw [if_pos hin, if_neg hout, heq, Function.update_self]
    . rw [Function.update_of_ne heq]
      have hiff : (i + 1 ≤ j ∧ j < i + 1 + cnt) ↔ i ≤ j ∧ j < i + (cnt + 1) := by omega
      simp only [hiff]

theorem new_eq (mem blockSize : BitVec 64) (uninit : Nat → BitVec 64) (hpos : 0 < capacity.toNat)
    (hle : capacity.toNat ≤ DEFAULT_FRAME_POOL_CAPACITY)
    : new mem blockSize capacity uninit = some {
        mem, blockSize, capacity
        freeHead := 0
        nextFree := fun j =>
          if j = capacity.toNat - 1 then NO_BLOCK
          else if j < capacity.toNat then BitVec.ofNat 64 (j + 1)
          else uninit j } := by
  have hlast : (capacity - 1).toNat = capacity.toNat - 1 := by
    have hone : (1 : BitVec 64).toNat = 1 := rfl
    have hge : (1 : BitVec 64) ≤ capacity := by
      rw [BitVec.le_def, hone]
      exact hpos
    rw [BitVec.toNat_sub_of_le hge, hone]
  unfold new
  dsimp only
  rw [link_eq (by omega)]
  refine (store_eq (by omega)).trans ?_
  rw [hlast]
  congr 2
  funext j
  rw [Function.update_apply]
  simp only [Nat.zero_le, true_and, Nat.zero_add]

-- The index of the last of no blocks is `-1`.
theorem new_zero
    : new mem blockSize 0 uninit = none := by
  change store ⟨mem, blockSize, 0, 0, uninit⟩ (0 - 1) NO_BLOCK = none
  exact store_eq_none (by decide)

theorem new_above (hlt : DEFAULT_FRAME_POOL_CAPACITY < capacity.toNat)
    : new mem blockSize capacity uninit = none := by
  have hcap := capacity.isLt
  unfold new
  dsimp only
  rw [link_eq_none (by omega) (Nat.zero_le _) (by omega)]
  rfl

theorem new_isSome_iff (mem blockSize capacity : BitVec 64) (uninit : Nat → BitVec 64)
    : (new mem blockSize capacity uninit).isSome
        ↔ 0 < capacity.toNat ∧ capacity.toNat ≤ DEFAULT_FRAME_POOL_CAPACITY := by
  by_cases hpos : 0 < capacity.toNat
  . by_cases hle : capacity.toNat ≤ DEFAULT_FRAME_POOL_CAPACITY
    . rw [new_eq mem blockSize uninit hpos hle]
      simp [hpos, hle]
    . rw [new_above (by omega)]
      simp [hle]
  . have hzero : capacity = 0 := by
      apply BitVec.eq_of_toNat_eq
      change capacity.toNat = 0
      omega
    rw [hzero, new_zero]
    simp

/-! ### Accesses -/

-- All links stay among the blocks of the pool.
structure InBounds (pool : ArrayPool) : Prop where
  pos : 0 < pool.capacity.toNat
  le : pool.capacity.toNat ≤ DEFAULT_FRAME_POOL_CAPACITY
  head : pool.freeHead ≠ NO_BLOCK → pool.freeHead.toNat < pool.capacity.toNat
  next : ∀ i < pool.capacity.toNat, pool.nextFree i ≠ NO_BLOCK → (pool.nextFree i).toNat < pool.capacity.toNat

theorem new_inBounds (hpos : 0 < capacity.toNat) (hle : capacity.toNat ≤ DEFAULT_FRAME_POOL_CAPACITY)
    (h : new mem blockSize capacity uninit = some pool)
    : pool.InBounds := by
  rw [new_eq mem blockSize uninit hpos hle] at h
  cases h
  refine ⟨hpos, hle, fun _ => hpos, ?_⟩
  intro i hi hne
  have hdef : DEFAULT_FRAME_POOL_CAPACITY = 4096 := rfl
  dsimp only at hi hne ⊢
  by_cases hlast : i = capacity.toNat - 1
  . simp [hlast] at hne
  . rw [if_neg hlast, if_pos hi, BitVec.toNat_ofNat]
    omega

theorem InBounds.load (h : pool.InBounds) {i : BitVec 64} (hi : i.toNat < pool.capacity.toNat)
    : pool.load i = some (pool.nextFree i.toNat) := by
  have hle := h.le
  unfold ArrayPool.load
  rw [if_pos (by omega)]

-- A block that the pool owns has an index among its blocks, whatever the pointer is.
theorem owns_idx_lt {ptr : BitVec 64} (hptr : pool.owns ptr = true)
    : ((ptr - pool.mem) / pool.blockSize).toNat < pool.capacity.toNat := by
  simp only [owns, Bool.and_eq_true, decide_eq_true_eq, BitVec.le_def, BitVec.lt_def] at hptr
  obtain ⟨hge, hlt⟩ := hptr
  have hsub : (ptr - pool.mem).toNat = ptr.toNat - pool.mem.toNat := BitVec.toNat_sub_of_le (BitVec.le_def.mpr hge)
  rw [BitVec.toNat_udiv, hsub]
  apply Nat.div_lt_of_lt_mul
  have hmul : (pool.blockSize * pool.capacity).toNat ≤ pool.blockSize.toNat * pool.capacity.toNat := by
    rw [BitVec.toNat_mul]
    exact Nat.mod_le _ _
  rw [BitVec.toNat_add] at hlt
  omega

theorem InBounds.alloc (h : pool.InBounds)
    : ∃ r pool', pool.alloc = some (r, pool') ∧ pool'.InBounds := by
  unfold ArrayPool.alloc
  by_cases hhead : pool.freeHead = NO_BLOCK
  . rw [if_pos hhead]
    exact ⟨_, _, rfl, h⟩
  . have hlt := h.head hhead
    rw [if_neg hhead, h.load hlt]
    exact ⟨_, _, rfl, h.pos, h.le, h.next _ hlt, h.next⟩

theorem InBounds.free (h : pool.InBounds) (ptr : BitVec 64)
    : ∃ pool', pool.free ptr = some pool' ∧ pool'.InBounds := by
  unfold ArrayPool.free
  cases howns : pool.owns ptr with
  | false => exact ⟨pool, by simp, h⟩
  | true =>
    by_cases hnull : ptr = 0
    . exact ⟨pool, by simp [hnull], h⟩
    . have hidx := owns_idx_lt howns
      have hle := h.le
      simp only [hnull, decide_false, Bool.not_true, Bool.or_self, Bool.false_eq_true, if_false]
      rw [store_eq (by omega)]
      refine ⟨_, rfl, h.pos, h.le, fun _ => hidx, ?_⟩
      intro i hi
      dsimp only
      rw [Function.update_apply]
      split
      . exact h.head
      . exact h.next i hi

theorem InBounds.countFrom (h : pool.InBounds) (fuel : Nat) {i : BitVec 64}
    (hi : i ≠ NO_BLOCK → i.toNat < pool.capacity.toNat)
    : ∃ n, pool.countFrom fuel i = some n := by
  induction fuel generalizing i with
  | zero => exact ⟨_, rfl⟩
  | succ fuel ih =>
    unfold ArrayPool.countFrom
    by_cases hend : i = NO_BLOCK
    . rw [if_pos hend]
      exact ⟨_, rfl⟩
    . obtain ⟨n, hn⟩ := ih (h.next _ (hi hend))
      rw [if_neg hend, h.load (hi hend)]
      refine ⟨n.map (· + 1), ?_⟩
      change (pool.countFrom fuel _).bind _ = _
      rw [hn]
      rfl

theorem InBounds.call (h : pool.InBounds) (c : Call)
    : ∃ pool', pool.call c = some pool' ∧ pool'.InBounds := by
  cases c with
  | alloc =>
    obtain ⟨r, pool', halloc, h'⟩ := h.alloc
    refine ⟨pool', ?_, h'⟩
    change (pool.alloc).map _ = _
    rw [halloc]
    rfl
  | free ptr => exact h.free ptr
  | freeCount fuel =>
    obtain ⟨n, hn⟩ := h.countFrom fuel h.head
    refine ⟨pool, ?_, h⟩
    change (pool.countFrom fuel pool.freeHead).map _ = _
    rw [hn]
    rfl

theorem InBounds.foldlM (h : pool.InBounds) (calls : List Call)
    : (calls.foldlM ArrayPool.call pool).isSome := by
  induction calls generalizing pool with
  | nil => rfl
  | cons c calls ih =>
    obtain ⟨pool', hcall, h'⟩ := h.call c
    rw [List.foldlM_cons, hcall]
    exact ih h'

theorem new_inBounds_iff (mem blockSize capacity : BitVec 64) (uninit : Nat → BitVec 64)
    : (∀ calls : List Call, ((new mem blockSize capacity uninit).bind (calls.foldlM call)).isSome)
        ↔
      0 < capacity.toNat ∧ capacity.toNat ≤ DEFAULT_FRAME_POOL_CAPACITY := by
  rw [← new_isSome_iff mem blockSize capacity uninit]
  constructor
  . intro h
    have hnil := h []
    cases hnew : new mem blockSize capacity uninit with
    | none => simp [hnew] at hnil
    | some pool => rfl
  . intro h calls
    obtain ⟨hpos, hle⟩ := (new_isSome_iff mem blockSize capacity uninit).mp h
    obtain ⟨pool, hpool⟩ := Option.isSome_iff_exists.mp h
    rw [hpool]
    exact (new_inBounds hpos hle hpool).foldlM calls

-- No block at all, and one more than the array has elements for.
theorem new_out_of_bounds
    : ¬(∀ calls : List Call, ((new 4096 8192 0 fun _ => 0).bind (calls.foldlM call)).isSome)
        ∧ ¬∀ calls : List Call, ((new 4096 8192 4097 fun _ => 0).bind (calls.foldlM call)).isSome := by
  constructor
  . intro h
    have hnil := h []
    rw [new_zero] at hnil
    cases hnil
  . intro h
    have hnil := h []
    rw [new_above (by decide)] at hnil
    cases hnil

end ArrayPool

end Coroutine
end Ezio
