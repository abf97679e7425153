import Ezio.Coroutine.FramePool.ArrayPool
import Mathlib.Data.BitVec
import Mathlib.Data.List.Nodup

/-!
This module contains the blocks that a `coroutine_frame_pool` has handed out, over runs in which only these are given
back. The pool in memory is a `FramePool` as long as its blocks fit into the address space.
-/

namespace Ezio
namespace Coroutine

structure Ledger where
  -- `none` after an access out of range
  pool : Option ArrayPool
  held : List (BitVec 64)

namespace Ledger

inductive Call where
  | alloc
  | free (ptr : BitVec 64)
  deriving DecidableEq, Repr

def start (mem blockSize capacity : BitVec 64) (uninit : Nat → BitVec 64) : Ledger where
  pool := ArrayPool.new mem blockSize capacity uninit
  held := []

def step (s : Ledger) : Call → Ledger
  | .alloc =>
    match s.pool.bind (·.alloc) with
    | none => { s with pool := none }
    | some (none, pool) => { s with pool := some pool }
    | some (some ptr, pool) => ⟨some pool, ptr :: s.held⟩
  | .free ptr => ⟨s.pool.bind (·.free ptr), s.held.erase ptr⟩

def run (s : Ledger) (calls : List Call) : Ledger :=
  calls.foldl step s

-- Only blocks that have been handed out are given back.
def Legal (s : Ledger) : Call → Prop
  | .alloc => True
  | .free ptr => ptr ∈ s.held

instance (s : Ledger) (c : Call) : Decidable (s.Legal c) :=
  match c with
  | .alloc => .isTrue trivial
  | .free ptr => inferInstanceAs (Decidable (ptr ∈ s.held))

-- The pointer is the start of a block that lies in the memory of the pool.
structure IsBlock (mem blockSize capacity ptr : BitVec 64) : Prop where
  start : ∃ i < capacity.toNat, ptr = mem + BitVec.ofNat 64 i * blockSize
  ge : mem.toNat ≤ ptr.toNat
  le : ptr.toNat + blockSize.toNat ≤ mem.toNat + (blockSize * capacity).toNat

-- `free_count` returns `n`.
def Counts (pool : ArrayPool) (n : Nat) : Prop :=
  ∃ fuel, pool.freeCount fuel = some (some n)

structure Accounted (mem blockSize capacity : BitVec 64) (s : Ledger) : Prop where
  nodup : s.held.Nodup
  blocks : ∀ ptr ∈ s.held, IsBlock mem blockSize capacity ptr
  pool : ∃ pool, s.pool = some pool
    ∧ (∃ n, Counts pool n ∧ n + s.held.length = capacity.toNat)
    ∧ ∃ r pool', pool.alloc = some (r, pool') ∧ (r = none ↔ s.held.length = capacity.toNat)

/-! ### The pool in memory -/

def encode : Option Nat → BitVec 64
  | none => NO_BLOCK
  | some i => BitVec.ofNat 64 i

theorem encode_toNat {i : Nat} (hi : i < DEFAULT_FRAME_POOL_CAPACITY)
    : (encode (some i)).toNat = i := by
  have hdef : DEFAULT_FRAME_POOL_CAPACITY = 4096 := rfl
  unfold encode
  rw [BitVec.toNat_ofNat]
  omega

theorem encode_ne {i : Nat} (hi : i < DEFAULT_FRAME_POOL_CAPACITY)
    : encode (some i) ≠ NO_BLOCK := by
  intro heq
  have htoNat := encode_toNat hi
  rw [heq] at htoNat
  rw [← htoNat] at hi
  exact absurd hi (by decide)

-- The links of the pool in memory are those of `q`.
structure Rep (p : ArrayPool) (q : FramePool) : Prop where
  mem : p.mem.toNat = q.mem
  blockSize : p.blockSize.toNat = q.blockSize
  capacity : p.capacity.toNat = q.capacity
  le : q.capacity ≤ DEFAULT_FRAME_POOL_CAPACITY
  head : p.freeHead = encode q.freeHead
  next : ∀ i < q.capacity, p.nextFree i = encode (q.nextFree i)

-- What no call changes.
structure Same (p p' : ArrayPool) : Prop where
  mem : p'.mem = p.mem
  blockSize : p'.blockSize = p.blockSize
  capacity : p'.capacity = p.capacity

variable {s : Ledger} {p p' p'' : ArrayPool} {q : FramePool} {l h : List Nat} {i : Nat}

theorem Same.trans (hleft : Same p p') (hright : Same p' p'') : Same p p'' :=
  ⟨hright.mem.trans hleft.mem, hright.blockSize.trans hleft.blockSize, hright.capacity.trans hleft.capacity⟩

theorem Same.block (hsame : Same p p') : p'.block = p.block := by
  unfold ArrayPool.block
  rw [hsame.mem, hsame.blockSize]

theorem Rep.new {mem blockSize capacity : BitVec 64} {uninit : Nat → BitVec 64} (hpos : 0 < capacity.toNat)
    (hle : capacity.toNat ≤ DEFAULT_FRAME_POOL_CAPACITY)
    (hnew : ArrayPool.new mem blockSize capacity uninit = some p)
    : Rep p (.new mem.toNat blockSize.toNat capacity.toNat) := by
  rw [ArrayPool.new_eq mem blockSize uninit hpos hle] at hnew
  cases hnew
  refine ⟨rfl, rfl, rfl, hle, rfl, ?_⟩
  intro i hi
  have hi : i < capacity.toNat := hi
  simp only [FramePool.new, hi, if_true]
  split <;> rfl

theorem Rep.load (hrep : Rep p q) (hi : i < q.capacity)
    : p.load (encode (some i)) = some (encode (q.nextFree i)) := by
  have hle := hrep.le
  rw [← hrep.next i hi]
  unfold ArrayPool.load
  rw [encode_toNat (by omega), if_pos (by omega)]

theorem Rep.alloc_nil (hrep : Rep p q) (hfree : q.Free [])
    : p.alloc = some (none, p) := by
  have hhead : q.freeHead = none := hfree.linked
  unfold ArrayPool.alloc
  rw [hrep.head, hhead]
  exact if_pos rfl

theorem Rep.alloc_cons (hrep : Rep p q) (hfree : q.Free (i :: l))
    : ∃ p', p.alloc = some (some (p.block (BitVec.ofNat 64 i)), p')
        ∧ Same p p' ∧ Rep p' { q with freeHead := q.nextFree i } ∧ { q with freeHead := q.nextFree i }.Free l := by
  have hlt := hfree.lt i List.mem_cons_self
  have hle := hrep.le
  obtain ⟨hhead, hlinked⟩ := hfree.linked
  refine ⟨{ p with freeHead := encode (q.nextFree i) }, ?_, ⟨rfl, rfl, rfl⟩, ?_, ?_⟩
  . unfold ArrayPool.alloc
    rw [hrep.head, hhead, if_neg (encode_ne (by omega)), hrep.load hlt]
    rfl
  . exact ⟨hrep.mem, hrep.blockSize, hrep.capacity, hrep.le, rfl, hrep.next⟩
  . exact ⟨hlinked, (List.nodup_cons.mp hfree.nodup).2, fun j hj => hfree.lt j (List.mem_cons_of_mem i hj)⟩

-- The loop of `free_count` goes through the free list once.
theorem Rep.countFrom (hrep : Rep p q) {head : Option Nat} (hlinked : Linked q.nextFree head l)
    (hlt : ∀ i ∈ l, i < q.capacity) (fuel : Nat)
    : p.countFrom fuel (encode head) = some (if l.length ≤ fuel then some l.length else none) := by
  have hle := hrep.le
  induction l generalizing head fuel with
  | nil =>
    have hhead : head = none := hlinked
    rw [hhead]
    cases fuel <;> simp [ArrayPool.countFrom, encode]
  | cons i l ih =>
    obtain ⟨hhead, hlinked⟩ := hlinked
    have hi := hlt i List.mem_cons_self
    have hne : encode (some i) ≠ NO_BLOCK := encode_ne (by omega)
    rw [hhead]
    cases fuel with
    | zero => simp [ArrayPool.countFrom, hne]
    | succ fuel =>
      unfold ArrayPool.countFrom
      rw [if_neg hne, hrep.load hi]
      change (p.countFrom fuel _).bind _ = _
      rw [ih hlinked (fun j hj => hlt j (List.mem_cons_of_mem i hj)) fuel]
      simp only [Option.bind_some, List.length_cons, Nat.add_le_add_iff_right]
      split <;> rfl

theorem Rep.counts_iff (hrep : Rep p q) (hfree : q.Free l) (n : Nat)
    : Counts p n ↔ n = l.length := by
  have hcount := hrep.countFrom hfree.linked hfree.lt
  rw [← hrep.head] at hcount
  constructor
  . rintro ⟨fuel, heq⟩
    have heq := (hcount fuel).symm.trans heq
    split at heq
    . simpa using heq.symm
    . cases heq
  . intro heq
    refine ⟨l.length, (hcount l.length).trans ?_⟩
    rw [if_pos (Nat.le_refl _), heq]

/-! ### The blocks that fit -/

-- The memory that `::operator new` returns is not at address `0` and does not go past the end of the addresses.
structure Memory (p : ArrayPool) : Prop where
  pos : 0 < p.mem.toNat
  last : p.mem.toNat + (p.blockSize * p.capacity).toNat < 2 ^ 64

-- The size of the memory is the product it is computed as.
structure Fits (p : ArrayPool) : Prop extends Memory p where
  blockSize : 0 < p.blockSize.toNat
  total : p.blockSize.toNat * p.capacity.toNat < 2 ^ 64

theorem Fits.total_eq (hfits : Fits p)
    : (p.blockSize * p.capacity).toNat = p.blockSize.toNat * p.capacity.toNat := by
  rw [BitVec.toNat_mul, Nat.mod_eq_of_lt hfits.total]

theorem block_le (p : ArrayPool) (hi : i < p.capacity.toNat)
    : i * p.blockSize.toNat + p.blockSize.toNat ≤ p.blockSize.toNat * p.capacity.toNat := by
  rw [← Nat.succ_mul, Nat.mul_comm]
  exact Nat.mul_le_mul_left _ hi

theorem Fits.block_toNat (hfits : Fits p) (hle : p.capacity.toNat ≤ DEFAULT_FRAME_POOL_CAPACITY)
    (hi : i < p.capacity.toNat)
    : (p.block (BitVec.ofNat 64 i)).toNat = p.mem.toNat + i * p.blockSize.toNat := by
  have hdef : DEFAULT_FRAME_POOL_CAPACITY = 4096 := rfl
  have hblock := block_le p hi
  have hlast := hfits.last
  rw [hfits.total_eq] at hlast
  have hidx : (BitVec.ofNat 64 i).toNat = i := by
    rw [BitVec.toNat_ofNat]
    omega
  unfold ArrayPool.block
  rw [BitVec.toNat_add, BitVec.toNat_mul, hidx, Nat.mod_eq_of_lt (show i * p.blockSize.toNat < 2 ^ 64 by omega),
    Nat.mod_eq_of_lt (by omega)]

theorem Fits.isBlock (hfits : Fits p) (hle : p.capacity.toNat ≤ DEFAULT_FRAME_POOL_CAPACITY)
    (hi : i < p.capacity.toNat)
    : IsBlock p.mem p.blockSize p.capacity (p.block (BitVec.ofNat 64 i)) := by
  have hblock := block_le p hi
  refine ⟨⟨i, hi, rfl⟩, ?_, ?_⟩
  . rw [hfits.block_toNat hle hi]
    omega
  . rw [hfits.block_toNat hle hi, hfits.total_eq]
    omega

theorem Rep.fits (hrep : Rep p q) (hfits : Fits p) (hi : i < q.capacity)
    : q.Fits := by
  have htotal := hfits.total
  rw [hrep.blockSize, hrep.capacity] at htotal
  exact ⟨Nat.zero_lt_of_lt hi, hrep.le, htotal⟩

theorem Rep.free (hrep : Rep p q) (hfits : Fits p) (hi : i < q.capacity)
    : ∃ p', p.free (p.block (BitVec.ofNat 64 i)) = some p'
        ∧ Same p p' ∧ Rep p' (q.free (q.mem + i * q.blockSize)) := by
  have hle := hrep.le
  have hcap := hrep.capacity
  have hdef : DEFAULT_FRAME_POOL_CAPACITY = 4096 := rfl
  have hblock := hfits.block_toNat (by omega) (show i < p.capacity.toNat by omega)
  have hend := block_le p (show i < p.capacity.toNat by omega)
  have hpos := hfits.blockSize
  have hlast := hfits.last
  have hmem := hfits.pos
  have howns : p.owns (p.block (BitVec.ofNat 64 i)) = true := by
    simp only [ArrayPool.owns, Bool.and_eq_true, decide_eq_true_eq, BitVec.le_def, BitVec.lt_def, hblock]
    rw [BitVec.toNat_add, Nat.mod_eq_of_lt hlast, hfits.total_eq]
    omega
  have hnull : p.block (BitVec.ofNat 64 i) ≠ 0 := by
    intro heq
    rw [heq] at hblock
    change 0 = _ at hblock
    omega
  have hidx : (p.block (BitVec.ofNat 64 i) - p.mem) / p.blockSize = BitVec.ofNat 64 i := by
    apply BitVec.eq_of_toNat_eq
    have hge : p.mem ≤ p.block (BitVec.ofNat 64 i) := by
      rw [BitVec.le_def, hblock]
      omega
    rw [BitVec.toNat_udiv, BitVec.toNat_sub_of_le hge, hblock, Nat.add_sub_cancel_left, Nat.mul_div_cancel _ hpos,
      BitVec.toNat_ofNat]
    omega
  have hidxNat : (BitVec.ofNat 64 i).toNat = i := encode_toNat (by omega)
  refine ⟨{ p with nextFree := Function.update p.nextFree i p.freeHead, freeHead := BitVec.ofNat 64 i }, ?_,
    ⟨rfl, rfl, rfl⟩, ?_⟩
  . unfold ArrayPool.free
    simp only [hnull, howns, decide_false, Bool.not_true, Bool.or_self, Bool.false_eq_true, if_false, hidx]
    rw [ArrayPool.store_eq (by omega), hidxNat]
    rfl
  . have howns' : q.owns (q.mem + i * q.blockSize) = true := by
      rw [hrep.blockSize] at hpos
      exact FramePool.owns_block (hrep.fits hfits hi) hpos hi
    have hdiv : (q.mem + i * q.blockSize - q.mem) / q.blockSize = i := by
      rw [hrep.blockSize] at hpos
      rw [Nat.add_sub_cancel_left, Nat.mul_div_cancel _ hpos]
    unfold FramePool.free
    simp only [howns', if_true, hdiv]
    refine ⟨hrep.mem, hrep.blockSize, hrep.capacity, hrep.le, rfl, ?_⟩
    intro j hj
    dsimp only at hj ⊢
    rw [Function.update_apply, Function.update_apply]
    split
    . exact hrep.head
    . exact hrep.next j hj

theorem Fits.same (hfits : Fits p) (hsame : Same p p') : Fits p' := by
  obtain ⟨hmem, hsize, hcap⟩ := hsame
  refine ⟨⟨?_, ?_⟩, ?_, ?_⟩
  . rw [hmem]
    exact hfits.pos
  . rw [hmem, hsize, hcap]
    exact hfits.last
  . rw [hsize]
    exact hfits.blockSize
  . rw [hsize, hcap]
    exact hfits.total

/-! ### Runs -/

-- The blocks `h` are handed out, those of `l` are free.
structure Balanced (s : Ledger) (p : ArrayPool) (q : FramePool) (h l : List Nat) : Prop where
  pool : s.pool = some p
  rep : Rep p q
  free : q.Free l
  held : s.held.Perm (h.map fun i => p.block (BitVec.ofNat 64 i))
  perm : (h ++ l).Perm (List.range q.capacity)

theorem Balanced.lt (hb : Balanced s p q h l) (hi : i ∈ h) : i < q.capacity :=
  List.mem_range.mp (hb.perm.subset (List.mem_append_left l hi))

theorem Balanced.nodup (hb : Balanced s p q h l) : (h ++ l).Nodup :=
  hb.perm.nodup_iff.mpr List.nodup_range

theorem Balanced.length (hb : Balanced s p q h l) : s.held.length + l.length = p.capacity.toNat := by
  have hlength := hb.perm.length_eq
  rw [List.length_append, List.length_range] at hlength
  rw [hb.held.length_eq, List.length_map, hb.rep.capacity]
  exact hlength

theorem Balanced.alloc_nil (hb : Balanced s p q h []) : Balanced (s.step .alloc) p q h [] := by
  have hstep : s.step .alloc = s := by
    obtain ⟨pool, held⟩ := s
    have hpool : pool = some p := hb.pool
    simp only [step, hpool, Option.bind_some, hb.rep.alloc_nil hb.free]
  rw [hstep]
  exact hb

theorem Balanced.alloc_cons (hb : Balanced s p q h (i :: l))
    : ∃ p' q', Same p p' ∧ Balanced (s.step .alloc) p' q' (i :: h) l := by
  obtain ⟨p', halloc, hsame, hrep, hfree⟩ := hb.rep.alloc_cons hb.free
  have hstep : s.step .alloc = ⟨some p', p.block (BitVec.ofNat 64 i) :: s.held⟩ := by
    simp only [step, hb.pool, Option.bind_some, halloc]
  refine ⟨p', { q with freeHead := q.nextFree i }, hsame, ?_⟩
  rw [hstep]
  refine ⟨rfl, hrep, hfree, ?_, ?_⟩
  . rw [hsame.block]
    exact hb.held.cons _
  . exact List.perm_middle.symm.trans hb.perm

theorem step_free {ptr : BitVec 64} (hpool : s.pool = some p)
    : s.step (.free ptr) = ⟨p.free ptr, s.held.erase ptr⟩ := by
  simp only [step, hpool, Option.bind_some]

theorem Balanced.give (hb : Balanced s p q h l) (hfits : Fits p) (hi : i ∈ h)
    : ∃ p' q', Same p p' ∧ Balanced (s.step (.free (p.block (BitVec.ofNat 64 i)))) p' q' (h.erase i) (i :: l) := by
  have hlt := hb.lt hi
  have hpos : 0 < q.blockSize := by
    rw [← hb.rep.blockSize]
    exact hfits.blockSize
  have hnot : i ∉ l := fun hmem => List.nodup_append.mp hb.nodup |>.2.2 i hi i hmem rfl
  have herase : h.Perm (i :: h.erase i) := List.perm_cons_erase hi
  obtain ⟨p', hfree, hsame, hrep⟩ := hb.rep.free hfits hlt
  refine ⟨p', q.free (q.mem + i * q.blockSize), hsame, ?_⟩
  have hstep : s.step (.free (p.block (BitVec.ofNat 64 i)))
      = ⟨some p', s.held.erase (p.block (BitVec.ofNat 64 i))⟩ := by
    rw [step_free hb.pool, hfree]
  rw [hstep]
  refine ⟨rfl, hrep, hb.free.free_block (hb.rep.fits hfits hlt) hpos hlt hnot, ?_, ?_⟩
  . rw [hsame.block]
    have hheld := (hb.held.trans (herase.map _)).erase (p.block (BitVec.ofNat 64 i))
    rw [List.map_cons, List.erase_cons_head] at hheld
    exact hheld
  . rw [FramePool.free_capacity]
    exact (List.perm_middle.trans (herase.append_right l).symm).trans hb.perm

theorem Balanced.start (mem blockSize : BitVec 64) {capacity : BitVec 64} (uninit : Nat → BitVec 64)
    (hpos : 0 < capacity.toNat) (hle : capacity.toNat ≤ DEFAULT_FRAME_POOL_CAPACITY)
    : ∃ p q, p.mem = mem ∧ p.blockSize = blockSize ∧ p.capacity = capacity
        ∧ Balanced (start mem blockSize capacity uninit) p q [] (List.range capacity.toNat) := by
  have hnew := ArrayPool.new_eq mem blockSize uninit hpos hle
  refine ⟨_, .new mem.toNat blockSize.toNat capacity.toNat, rfl, rfl, rfl, hnew, Rep.new hpos hle hnew, ?_, ?_, ?_⟩
  . exact FramePool.new_free _ _ _ hpos
  . exact List.Perm.refl _
  . exact List.Perm.refl _

theorem Balanced.accounted (hb : Balanced s p q h l) (hfits : Fits p)
    : Accounted p.mem p.blockSize p.capacity s := by
  have hcap := hb.rep.capacity
  have hle := hb.rep.le
  have hlength := hb.length
  refine ⟨?_, ?_, p, hb.pool, ⟨l.length, (hb.rep.counts_iff hb.free _).mpr rfl, by omega⟩, ?_⟩
  . rw [hb.held.nodup_iff]
    refine List.Nodup.map_on ?_ (List.nodup_append.mp hb.nodup).1
    intro i hi j hj heq
    have hpos := hfits.blockSize
    have hblocks := congrArg BitVec.toNat heq
    have hilt := hb.lt hi
    have hjlt := hb.lt hj
    rw [hfits.block_toNat (by omega) (by omega), hfits.block_toNat (by omega) (by omega)] at hblocks
    exact Nat.eq_of_mul_eq_mul_right hpos (by omega)
  . intro ptr hptr
    obtain ⟨i, hi, rfl⟩ := List.mem_map.mp (hb.held.subset hptr)
    have hilt := hb.lt hi
    exact hfits.isBlock (by omega) (by omega)
  . cases l with
    | nil =>
      refine ⟨none, p, hb.rep.alloc_nil hb.free, ?_⟩
      simpa using hlength
    | cons i l =>
      obtain ⟨p', halloc, _⟩ := hb.rep.alloc_cons hb.free
      refine ⟨_, p', halloc, ?_⟩
      rw [List.length_cons] at hlength
      simp only [reduceCtorEq, false_iff]
      omega

theorem Balanced.step (hb : Balanced s p q h l) (hfits : Fits p) (c : Call) (hlegal : s.Legal c)
    : ∃ p' q' h' l', Same p p' ∧ Balanced (s.step c) p' q' h' l' := by
  cases c with
  | alloc =>
    cases l with
    | nil => exact ⟨p, q, h, [], ⟨rfl, rfl, rfl⟩, hb.alloc_nil⟩
    | cons i l =>
      obtain ⟨p', q', hsame, hb'⟩ := hb.alloc_cons
      exact ⟨p', q', _, _, hsame, hb'⟩
  | free ptr =>
    obtain ⟨i, hi, rfl⟩ := List.mem_map.mp (hb.held.subset hlegal)
    obtain ⟨p', q', hsame, hb'⟩ := hb.give hfits hi
    exact ⟨p', q', _, _, hsame, hb'⟩

theorem Balanced.run (hb : Balanced s p q h l) (hfits : Fits p) {calls : List Call}
    (hlegal : Along Ledger.step Legal s calls)
    : ∃ p' q' h' l', Same p p' ∧ Balanced (s.run calls) p' q' h' l' := by
  refine hlegal.invariant (I := fun s => ∃ p' q' h' l', Same p p' ∧ Balanced s p' q' h' l') ?_
    ⟨p, q, h, l, ⟨rfl, rfl, rfl⟩, hb⟩
  rintro s c ⟨p', q', h', l', hsame, hb'⟩ hc
  obtain ⟨p'', q'', h'', l'', hsame', hb''⟩ := hb'.step (hfits.same hsame) c hc
  exact ⟨p'', q'', h'', l'', hsame.trans hsame', hb''⟩

/-! ### Blocks that do not fit -/

-- The blocks are handed out in the order of the free list.
theorem Balanced.allocs {l' : List Nat} (hb : Balanced s p q h (l ++ l'))
    : ∃ p' q', Same p p' ∧ Balanced (s.run (List.replicate l.length .alloc)) p' q' (l.reverse ++ h) l' := by
  induction l generalizing s p q h with
  | nil => exact ⟨p, q, ⟨rfl, rfl, rfl⟩, hb⟩
  | cons i l ih =>
    obtain ⟨p', q', hsame, hb'⟩ := hb.alloc_cons
    obtain ⟨p'', q'', hsame', hb''⟩ := ih hb'
    refine ⟨p'', q'', hsame.trans hsame', ?_⟩
    rw [List.reverse_cons, List.append_assoc]
    exact hb''

theorem along_allocs (s : Ledger) (n : Nat) : Along step Legal s (List.replicate n .alloc) := by
  induction n generalizing s with
  | zero => trivial
  | succ n ih => exact ⟨trivial, ih _⟩

-- The first block that goes past the end of the memory is handed out.
theorem overflow_not_accounted {mem blockSize capacity : BitVec 64} {uninit : Nat → BitVec 64}
    (hend : mem.toNat + (blockSize * capacity).toNat < 2 ^ 64) (hpos : 0 < capacity.toNat)
    (hle : capacity.toNat ≤ DEFAULT_FRAME_POOL_CAPACITY) (hover : 2 ^ 64 ≤ blockSize.toNat * capacity.toNat)
    : ¬Accounted mem blockSize capacity ((start mem blockSize capacity uninit).run
        (List.replicate ((blockSize * capacity).toNat / blockSize.toNat + 1) .alloc)) := by
  obtain ⟨p, q, hmem, hsize, hcap, hb⟩ := Balanced.start mem blockSize uninit hpos hle
  have hdef : DEFAULT_FRAME_POOL_CAPACITY = 4096 := rfl
  have htotal := (blockSize * capacity).isLt
  have hsizePos : 0 < blockSize.toNat := by
    by_contra hzero
    have hzero : blockSize.toNat = 0 := by omega
    rw [hzero] at hover
    omega
  generalize hidx : (blockSize * capacity).toNat / blockSize.toNat = idx
  have hlow : idx * blockSize.toNat ≤ (blockSize * capacity).toNat := by
    rw [← hidx]
    exact Nat.div_mul_le_self _ _
  have hhigh : (blockSize * capacity).toNat < idx * blockSize.toNat + blockSize.toNat := by
    rw [← Nat.succ_mul, ← hidx, Nat.mul_comm]
    exact Nat.lt_mul_div_succ _ hsizePos
  have hlt : idx < capacity.toNat := by
    rw [← hidx]
    exact Nat.div_lt_of_lt_mul (by omega)
  have hsplit : List.range capacity.toNat = List.range (idx + 1) ++ (List.range capacity.toNat).drop (idx + 1) := by
    conv =>
      lhs
      rw [← List.take_append_drop (idx + 1) (List.range capacity.toNat)]
    rw [List.take_range, Nat.min_eq_left (by omega)]
  rw [hsplit] at hb
  obtain ⟨p', q', hsame, hb'⟩ := hb.allocs
  rw [List.length_range] at hb'
  intro hacc
  have hmem' : idx ∈ (List.range (idx + 1)).reverse ++ [] := by simp
  have hheld := hb'.held.symm.subset (List.mem_map_of_mem (f := fun i => p'.block (BitVec.ofNat 64 i)) hmem')
  have hblock := (hacc.blocks _ hheld).le
  have hidxNat : (BitVec.ofNat 64 idx).toNat = idx := by
    rw [BitVec.toNat_ofNat]
    omega
  rw [hsame.block] at hblock
  unfold ArrayPool.block at hblock
  rw [hmem, hsize, BitVec.toNat_add, BitVec.toNat_mul, hidxNat, Nat.mod_eq_of_lt (show idx * _ < 2 ^ 64 by omega),
    Nat.mod_eq_of_lt (by omega)] at hblock
  omega

-- A block without bytes is not given back.
theorem empty_not_accounted (mem : BitVec 64) {capacity : BitVec 64} (uninit : Nat → BitVec 64)
    (hpos : 0 < capacity.toNat)
    (hle : capacity.toNat ≤ DEFAULT_FRAME_POOL_CAPACITY)
    : Along step Legal (start mem 0 capacity uninit) [.alloc, .free mem]
        ∧ ¬Accounted mem 0 capacity ((start mem 0 capacity uninit).run [.alloc, .free mem]) := by
  obtain ⟨p, q, hmem, hsize, hcap, hb⟩ := Balanced.start mem 0 uninit hpos hle
  have hsucc : capacity.toNat = (capacity.toNat - 1) + 1 := by omega
  rw [hsucc, List.range_succ_eq_map] at hb
  obtain ⟨p', q', hsame, hb'⟩ := hb.alloc_cons
  have hlength := hb'.length
  have hblock : p'.block (BitVec.ofNat 64 0) = mem := by
    unfold ArrayPool.block
    rw [hsame.mem, hmem]
    simp
  have hheld : ((start mem 0 capacity uninit).step .alloc).held = [mem] := by
    have hperm := hb'.held
    rw [List.map_singleton, hblock] at hperm
    exact List.perm_singleton.mp hperm
  have howns : p'.owns mem = false := by
    have hmul : p'.blockSize * p'.capacity = 0 := by
      rw [hsame.blockSize, hsize]
      simp
    unfold ArrayPool.owns
    rw [hmul, hsame.mem, hmem]
    simp
  have hfree : p'.free mem = some p' := by
    unfold ArrayPool.free
    simp [howns]
  refine ⟨⟨trivial, ?_, trivial⟩, ?_⟩
  . change mem ∈ ((start mem 0 capacity uninit).step .alloc).held
    rw [hheld]
    exact List.mem_singleton_self mem
  . have hrun : (start mem 0 capacity uninit).run [.alloc, .free mem] = ⟨some p', []⟩ := by
      change ((start mem 0 capacity uninit).step .alloc).step (.free mem) = _
      rw [step_free hb'.pool, hheld, hfree, List.erase_cons_head]
    rw [hrun]
    rintro ⟨_, _, pool, hpool, ⟨n, hcounts, hn⟩, _⟩
    cases hpool
    have hcount := (hb'.rep.counts_iff hb'.free n).mp hcounts
    rw [hheld, hsame.capacity, hcap] at hlength
    simp only [List.length_nil, List.length_singleton] at hn hlength
    omega

theorem accounted_iff (mem blockSize capacity : BitVec 64) (uninit : Nat → BitVec 64) (hmem : 0 < mem.toNat)
    (hend : mem.toNat + (blockSize * capacity).toNat < 2 ^ 64) (hpos : 0 < capacity.toNat)
    (hle : capacity.toNat ≤ DEFAULT_FRAME_POOL_CAPACITY)
    : (∀ calls : List Call, Along step Legal (start mem blockSize capacity uninit) calls
          → Accounted mem blockSize capacity ((start mem blockSize capacity uninit).run calls))
        ↔
      0 < blockSize.toNat ∧ blockSize.toNat * capacity.toNat < 2 ^ 64 := by
  constructor
  . intro hall
    constructor
    . by_contra hzero
      have hzero : blockSize = 0 := BitVec.eq_of_toNat_eq (Nat.eq_zero_of_not_pos hzero)
      subst hzero
      obtain ⟨hlegal, hnot⟩ := empty_not_accounted mem uninit hpos hle
      exact hnot (hall _ hlegal)
    . by_contra hover
      exact overflow_not_accounted hend hpos hle (Nat.le_of_not_lt hover) (hall _ (along_allocs _ _))
  . rintro ⟨hsize, htotal⟩ calls hlegal
    obtain ⟨p, q, rfl, rfl, rfl, hb⟩ := Balanced.start mem blockSize uninit hpos hle
    have hfits : Fits p := ⟨⟨hmem, hend⟩, hsize, htotal⟩
    obtain ⟨p', q', h', l', hsame, hb'⟩ := hb.run hfits hlegal
    have hacc := hb'.accounted (hfits.same hsame)
    rw [hsame.mem, hsame.blockSize, hsame.capacity] at hacc
    exact hacc

theorem accounted_default
    : Accounted 4096 8192 2 ((start 4096 8192 2 fun _ => 0).run [.alloc, .alloc, .free 4096, .alloc]) :=
  (accounted_iff 4096 8192 2 (fun _ => 0) (by decide) (by decide) (by decide) (by decide)).mpr (by decide) _
    (by decide +kernel)

-- The size of the memory comes out as `0`, the block that is handed out lies past its end.
theorem alloc_past_end
    : Along step Legal (start 4096 (2 ^ 63) 2 fun _ => 0) [.alloc]
        ∧ ¬Accounted 4096 (2 ^ 63) 2 ((start 4096 (2 ^ 63) 2 fun _ => 0).run [.alloc]) := by
  refine ⟨⟨trivial, trivial⟩, ?_⟩
  intro hacc
  have hheld : ((start 4096 (2 ^ 63) 2 fun _ => 0).run [.alloc]).held = [4096] := by decide +kernel
  have hblock := (hacc.blocks 4096 (by rw [hheld]; exact List.mem_singleton_self _)).le
  exact absurd hblock (by decide +kernel)

end Ledger

end Coroutine
end Ezio
