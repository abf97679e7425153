import Ezio.Coroutine.Frames

/-!
This module contains the invariant of the memory behind coroutine frames: every frame of a pool that is
alive occupies a block that is not in the free list, frames from the global heap are apart from all pools.
-/

namespace Ezio
namespace Coroutine

structure Block where
  ptr : Nat
  size : Nat
  source : Allocator

def Frame.block (fr : Frame) : Block :=
  ⟨fr.ptr, fr.size, fr.source⟩

-- The frames `block` of the pool of the service `s` when the blocks `l` are free.
structure Holds (block : Nat → Option Block) (s : Nat) (p : FramePool) (l : List Nat) : Prop where
  used : ∀ f b, block f = some b → b.source = .pool s
    → b.size ≤ p.blockSize ∧ ∃ i < p.capacity, b.ptr = p.mem + i * p.blockSize ∧ i ∉ l
  inj : ∀ f b f' b', block f = some b → block f' = some b' → b.source = .pool s
    → b'.source = .pool s → b.ptr = b'.ptr → f = f'

structure Mem (pool : Nat → Option FramePool) (nextService : Nat) (block : Nat → Option Block)
    (nextFrame : Nat) (current : Option Nat) : Prop where
  current : ∀ s, current = some s → ∃ p, pool s = some p
  poolLt : ∀ s p, pool s = some p → s < nextService
  blockLt : ∀ f b, block f = some b → f < nextFrame
  size : ∀ f b, block f = some b → 0 < b.size
  source : ∀ f b s, block f = some b → b.source = .pool s → s < nextService
  fits : ∀ s p, pool s = some p → p.Fits
  free : ∀ s p, pool s = some p → ∃ l, p.Free l ∧ Holds block s p l
  apart : ∀ s p f b, pool s = some p → block f = some b → b.source = .global
    → Apart b.ptr b.size p.mem p.total

variable {pool : Nat → Option FramePool} {block : Nat → Option Block} {current : Option Nat}
variable {nextService nextFrame s f : Nat} {p p' : FramePool} {b : Block} {l : List Nat}

theorem Holds.remove (h : Holds block s p l)
    : Holds (Function.update block f none) s p l := by
  have hmem : ∀ g b, Function.update block f none g = some b → block g = some b := by
    intro g b hg
    rw [Function.update_apply] at hg
    split at hg
    . cases hg
    . exact hg
  constructor
  . intro g b hg
    exact h.used g b (hmem g b hg)
  . intro g b g' b' hg hg'
    exact h.inj g b g' b' (hmem g b hg) (hmem g' b' hg')

theorem Holds.insert_ne (h : Holds block s p l) (hb : b.source ≠ .pool s)
    : Holds (Function.update block f (some b)) s p l := by
  have hmem : ∀ g c, Function.update block f (some b) g = some c → c.source = .pool s
      → block g = some c := by
    intro g c hg hc
    rw [Function.update_apply] at hg
    split at hg
    . cases hg
      exact absurd hc hb
    . exact hg
  constructor
  . intro g c hg hc
    exact h.used g c (hmem g c hg hc) hc
  . intro g c g' c' hg hg' hc hc'
    exact h.inj g c g' c' (hmem g c hg hc) (hmem g' c' hg' hc') hc hc'

theorem Holds.insert {i : Nat} (h : Holds block s p (i :: l)) (hi : i ∉ l) (hlt : i < p.capacity)
    (hsize : b.size ≤ p.blockSize) (hptr : b.ptr = p.mem + i * p.blockSize) (hpos : 0 < p.blockSize)
    : Holds (Function.update block f (some b)) s p l := by
  -- the new block is not the block of any other frame
  have hne : ∀ g c, block g = some c → c.source = .pool s → c.ptr ≠ b.ptr := by
    intro g c hg hc heq
    obtain ⟨-, j, -, hj, hnot⟩ := h.used g c hg hc
    have hmul : j * p.blockSize = i * p.blockSize := by omega
    have hij := Nat.eq_of_mul_eq_mul_right hpos hmul
    exact hnot (by simp [hij])
  constructor
  . intro g c hg hc
    rw [Function.update_apply] at hg
    split at hg
    . cases hg
      exact ⟨hsize, i, hlt, hptr, hi⟩
    . obtain ⟨hle, j, hj, hjptr, hnot⟩ := h.used g c hg hc
      exact ⟨hle, j, hj, hjptr, fun hmem => hnot (List.mem_cons_of_mem i hmem)⟩
  . intro g c g' c' hg hg' hc hc' heq
    rw [Function.update_apply] at hg hg'
    split at hg <;> split at hg'
    . rename_i hgf hgf'
      rw [hgf, hgf']
    . cases hg
      exact absurd heq.symm (hne g' c' hg' hc')
    . cases hg'
      exact absurd heq (hne g c hg hc)
    . exact h.inj g c g' c' hg hg' hc hc' heq

theorem Mem.remove (h : Mem pool nextService block nextFrame current)
    : Mem pool nextService (Function.update block f none) nextFrame current := by
  have hmem : ∀ g b, Function.update block f none g = some b → block g = some b := by
    intro g b hg
    rw [Function.update_apply] at hg
    split at hg
    . cases hg
    . exact hg
  constructor
  . exact h.current
  . exact h.poolLt
  . exact fun g b hg => h.blockLt g b (hmem g b hg)
  . exact fun g b hg => h.size g b (hmem g b hg)
  . exact fun g b s hg => h.source g b s (hmem g b hg)
  . exact h.fits
  . intro s p hp
    obtain ⟨l, hl, hholds⟩ := h.free s p hp
    exact ⟨l, hl, hholds.remove⟩
  . exact fun s p g b hp hg => h.apart s p g b hp (hmem g b hg)

-- The pool `s` is replaced by one at the same place.
theorem Mem.setPool (h : Mem pool nextService block nextFrame current) (hp : pool s = some p)
    (hmem : p'.mem = p.mem) (hsize : p'.blockSize = p.blockSize) (hcap : p'.capacity = p.capacity)
    (hfree : ∃ l, p'.Free l ∧ Holds block s p' l)
    : Mem (Function.update pool s (some p')) nextService block nextFrame current := by
  constructor
  . intro t ht
    rw [Function.update_apply]
    split
    . exact ⟨p', rfl⟩
    . exact h.current t ht
  . intro t q hq
    rw [Function.update_apply] at hq
    split at hq
    . rename_i heq
      rw [heq]
      exact h.poolLt s p hp
    . exact h.poolLt t q hq
  . exact h.blockLt
  . exact h.size
  . exact h.source
  . intro t q hq
    rw [Function.update_apply] at hq
    split at hq
    . cases hq
      exact (h.fits s p hp).same hsize hcap
    . exact h.fits t q hq
  . intro t q hq
    rw [Function.update_apply] at hq
    split at hq
    . rename_i heq
      cases hq
      rw [heq]
      exact hfree
    . exact h.free t q hq
  . intro t q g b hq hg hb
    rw [Function.update_apply] at hq
    split at hq
    . cases hq
      unfold FramePool.total
      rw [hmem, hsize, hcap]
      exact h.apart s p g b hp hg hb
    . exact h.apart t q g b hq hg hb

theorem Mem.insert (h : Mem pool nextService block nextFrame current) (hsize : 0 < b.size)
    (hsource : ∀ s, b.source = .pool s → s < nextService)
    (hfree : ∀ s p, pool s = some p
      → ∃ l, p.Free l ∧ Holds (Function.update block nextFrame (some b)) s p l)
    (hapart : ∀ s p, pool s = some p → b.source = .global → Apart b.ptr b.size p.mem p.total)
    : Mem pool nextService (Function.update block nextFrame (some b)) (nextFrame + 1) current := by
  have hmem : ∀ g c, Function.update block nextFrame (some b) g = some c
      → c = b ∧ g = nextFrame ∨ block g = some c := by
    intro g c hg
    rw [Function.update_apply] at hg
    split at hg
    . rename_i heq
      cases hg
      exact .inl ⟨rfl, heq⟩
    . exact .inr hg
  constructor
  . exact h.current
  . exact h.poolLt
  . intro g c hg
    rcases hmem g c hg with ⟨-, heq⟩ | hold
    . omega
    . have := h.blockLt g c hold
      omega
  . intro g c hg
    rcases hmem g c hg with ⟨heq, -⟩ | hold
    . rw [heq]
      exact hsize
    . exact h.size g c hold
  . intro g c s hg hc
    rcases hmem g c hg with ⟨heq, -⟩ | hold
    . rw [heq] at hc
      exact hsource s hc
    . exact h.source g c s hold hc
  . exact h.fits
  . exact hfree
  . intro s p g c hp hg hc
    rcases hmem g c hg with ⟨heq, -⟩ | hold
    . rw [heq] at hc ⊢
      exact hapart s p hp hc
    . exact h.apart s p g c hp hold hc

theorem Holds.congr (h : Holds block s p l) (hmem : p'.mem = p.mem) (hsize : p'.blockSize = p.blockSize)
    (hcap : p'.capacity = p.capacity)
    : Holds block s p' l := by
  refine ⟨?_, h.inj⟩
  rw [hmem, hsize, hcap]
  exact h.used

theorem Holds.mono {l' : List Nat} (h : Holds block s p l) (hsub : ∀ i ∈ l', i ∈ l)
    : Holds block s p l' := by
  refine ⟨?_, h.inj⟩
  intro f b hf hb
  obtain ⟨hle, i, hi, hptr, hnot⟩ := h.used f b hf hb
  exact ⟨hle, i, hi, hptr, fun hmem => hnot (hsub i hmem)⟩

theorem Mem.alloc {sz ptr : Nat} (h : Mem pool nextService block nextFrame current)
    (hp : pool s = some p) (hsz : 0 < sz) (hle : sz ≤ p.blockSize) (halloc : p.alloc = some (ptr, p'))
    : Mem (Function.update pool s (some p')) nextService
        (Function.update block nextFrame (some ⟨ptr, sz, .pool s⟩)) (nextFrame + 1) current := by
  obtain ⟨l, hl, hholds⟩ := h.free s p hp
  obtain ⟨i, l', hcons, hptr, hp', hfree⟩ := hl.of_alloc (h.fits s p hp) halloc
  have hnodup := hl.nodup
  rw [hcons, List.nodup_cons] at hnodup
  rw [hcons] at hholds
  have hlt := hl.lt i (by simp [hcons])
  have hset : Mem (Function.update pool s (some p')) nextService block nextFrame current := by
    apply h.setPool hp (by rw [hp']) (by rw [hp']) (by rw [hp'])
    have hrest : Holds block s p l' := hholds.mono fun j hj => List.mem_cons_of_mem i hj
    exact ⟨l', hfree, hrest.congr (by rw [hp']) (by rw [hp']) (by rw [hp'])⟩
  apply hset.insert hsz
  . intro t ht
    cases ht
    exact h.poolLt s p hp
  . intro t q hq
    by_cases hts : t = s
    . rw [hts, Function.update_self] at hq
      cases hq
      refine ⟨l', hfree, ?_⟩
      have hold : Holds block s p' (i :: l') := hholds.congr (by rw [hp']) (by rw [hp']) (by rw [hp'])
      rw [hts]
      apply hold.insert hnodup.1 <;> simp only [hp']
      . exact hlt
      . exact hle
      . exact hptr
      . omega
    . obtain ⟨l, hl, hholds⟩ := hset.free t q hq
      refine ⟨l, hl, hholds.insert_ne ?_⟩
      intro heq
      cases heq
      exact hts rfl
  . intro t q _ hglobal
    cases hglobal

theorem Mem.freeBlock (h : Mem pool nextService block nextFrame current) (hp : pool s = some p)
    (hf : block f = some b) (hb : b.source = .pool s)
    : Mem (Function.update pool s (some (p.free b.ptr))) nextService (Function.update block f none)
        nextFrame current := by
  obtain ⟨l, hl, hholds⟩ := h.free s p hp
  obtain ⟨hle, i, hi, hptr, hnot⟩ := hholds.used f b hf hb
  have hpos : 0 < p.blockSize := Nat.lt_of_lt_of_le (h.size f b hf) hle
  apply h.remove.setPool hp (by simp) (by simp) (by simp)
  refine ⟨i :: l, ?_, ?_⟩
  . rw [hptr]
    exact hl.free_block (h.fits s p hp) hpos hi hnot
  . refine Holds.congr (p := p) ⟨?_, hholds.remove.inj⟩ (by simp) (by simp) (by simp)
    intro g c hg hc
    have hgf : g ≠ f := by
      intro heq
      rw [heq, Function.update_self] at hg
      cases hg
    rw [Function.update_of_ne hgf] at hg
    obtain ⟨hle', j, hj, hjptr, hjnot⟩ := hholds.used g c hg hc
    refine ⟨hle', j, hj, hjptr, ?_⟩
    -- another frame has another block
    intro hmem
    rcases List.mem_cons.mp hmem with heq | hmem
    . apply hgf
      apply hholds.inj g c f b hg hf hc hb
      rw [hptr, hjptr, heq]
    . exact hjnot hmem

theorem Mem.new {ptr sz : Nat} (h : Mem pool nextService block nextFrame current) (hsz : 0 < sz)
    (hapart : ∀ s p, pool s = some p → Apart ptr sz p.mem p.total)
    : Mem pool nextService (Function.update block nextFrame (some ⟨ptr, sz, .global⟩)) (nextFrame + 1)
        current := by
  apply h.insert hsz
  . intro t ht
    cases ht
  . intro t q hq
    obtain ⟨l, hl, hholds⟩ := h.free t q hq
    refine ⟨l, hl, hholds.insert_ne ?_⟩
    intro heq
    cases heq
  . intro t q hq _
    exact hapart t q hq

theorem Mem.construct {mem blockSize capacity : Nat} (h : Mem pool nextService block nextFrame current)
    (hfits : (FramePool.new mem blockSize capacity).Fits)
    (hapart : ∀ f b, block f = some b → b.source = .global
      → Apart b.ptr b.size mem (FramePool.new mem blockSize capacity).total)
    : Mem (Function.update pool nextService (some (.new mem blockSize capacity))) (nextService + 1) block
        nextFrame (some nextService) := by
  have hmem : ∀ t q, Function.update pool nextService (some (.new mem blockSize capacity)) t = some q
      → q = .new mem blockSize capacity ∧ t = nextService ∨ pool t = some q := by
    intro t q hq
    rw [Function.update_apply] at hq
    split at hq
    . rename_i heq
      cases hq
      exact .inl ⟨rfl, heq⟩
    . exact .inr hq
  constructor
  . intro t ht
    cases ht
    exact ⟨_, Function.update_self ..⟩
  . intro t q hq
    rcases hmem t q hq with ⟨-, heq⟩ | hold
    . omega
    . have := h.poolLt t q hold
      omega
  . exact h.blockLt
  . exact h.size
  . intro g c t hg hc
    have := h.source g c t hg hc
    omega
  . intro t q hq
    rcases hmem t q hq with ⟨heq, -⟩ | hold
    . rw [heq]
      exact hfits
    . exact h.fits t q hold
  . intro t q hq
    rcases hmem t q hq with ⟨heq, ht⟩ | hold
    . rw [heq, ht]
      refine ⟨_, FramePool.new_free mem blockSize capacity hfits.pos, ?_, ?_⟩
      -- no frame is from a service that was not there
      . intro g c hg hc
        have := h.source g c nextService hg hc
        omega
      . intro g c g' c' hg _ hc
        have := h.source g c nextService hg hc
        omega
    . exact h.free t q hold
  . intro t q g c hq hg hc
    rcases hmem t q hq with ⟨heq, -⟩ | hold
    . rw [heq]
      exact hapart g c hg hc
    . exact h.apart t q g c hold hg hc

theorem Mem.destruct (h : Mem pool nextService block nextFrame current)
    : Mem (Function.update pool s none) nextService block nextFrame none := by
  have hmem : ∀ t q, Function.update pool s none t = some q → pool t = some q := by
    intro t q hq
    rw [Function.update_apply] at hq
    split at hq
    . cases hq
    . exact hq
  constructor
  . intro t ht
    cases ht
  . exact fun t q hq => h.poolLt t q (hmem t q hq)
  . exact h.blockLt
  . exact h.size
  . exact h.source
  . exact fun t q hq => h.fits t q (hmem t q hq)
  . exact fun t q hq => h.free t q (hmem t q hq)
  . exact fun t q g c hq => h.apart t q g c (hmem t q hq)

theorem Mem.setCurrent {current' : Option Nat} (h : Mem pool nextService block nextFrame current)
    (hcurrent : ∀ s, current' = some s → ∃ p, pool s = some p)
    : Mem pool nextService block nextFrame current' :=
  ⟨hcurrent, h.poolLt, h.blockLt, h.size, h.source, h.fits, h.free, h.apart⟩

end Coroutine
end Ezio
