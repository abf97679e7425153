import Mathlib.Algebra.BigOperators.Group.List.Basic
import Ezio.Event.IoUring.Lemmas.Deferred
import Ezio.Lib.List

/-!
This module contains the provided buffers. The id of a block is its index in `buffers_`, which goes
through the 16 bits of an entry of the ring of its group and of a completion.
-/

namespace Ezio
namespace Event
namespace Uring

-- A call of `register_ring_buffer`, the blocks are at the addresses `addrs`.
structure Registration where
  blockSize : Nat
  blockCount : Nat
  addrs : List Nat
  deriving DecidableEq, Repr

namespace Registration

def op (r : Registration) : Op :=
  .registerRingBuffer r.blockSize r.blockCount true r.addrs

-- The blocks of a group in `buffers_`, `br` is its ring.
def infos (r : Registration) (br : Nat) : List BufferInfo :=
  (r.addrs.take r.blockCount).map fun addr => ⟨some addr, r.blockSize, br, r.blockCount - 1⟩

-- The ring of a group whose first block has the index `start`.
def ring (r : Registration) (start : Nat) : IoUringBufRing :=
  { bufs := (r.addrs.take r.blockCount).mapIdx fun j addr =>
      ⟨addr, r.blockSize, BitVec.ofNat 16 (start + j)⟩
    tail := 0 + BitVec.ofNat 16 r.blockCount }

end Registration

-- The blocks that are registered in all.
def totalBlocks (regs : List Registration) : Nat :=
  (regs.map (·.blockCount)).sum

theorem totalBlocks_append (regs regs' : List Registration)
    : totalBlocks (regs ++ regs') = totalBlocks regs + totalBlocks regs' := by
  simp [totalBlocks]

theorem totalBlocks_take_succ {regs : List Registration} {g : Nat} (hg : g < regs.length)
    : totalBlocks (regs.take (g + 1)) = totalBlocks (regs.take g) + regs[g].blockCount := by
  rw [List.take_succ_eq_append_getElem hg, totalBlocks_append]
  simp [totalBlocks]

theorem totalBlocks_take_le (regs : List Registration) {g g' : Nat} (hle : g ≤ g')
    : totalBlocks (regs.take g) ≤ totalBlocks (regs.take g') := by
  obtain ⟨rest, hrest⟩ := List.take_prefix_take_left hle (l := regs)
  rw [← hrest, totalBlocks_append]
  omega

theorem totalBlocks_take_lt {regs : List Registration} {g j : Nat} (hg : g < regs.length)
    (hj : j < regs[g].blockCount)
    : totalBlocks (regs.take g) + j < totalBlocks regs := by
  have hle := totalBlocks_take_le regs (show g + 1 ≤ regs.length from hg)
  rw [totalBlocks_take_succ hg, List.take_length] at hle
  omega

-- The index of a block tells its group and its place there.
theorem totalBlocks_inj {regs : List Registration} {g g' j j' : Nat} (hg : g < regs.length)
    (hg' : g' < regs.length) (hj : j < regs[g].blockCount) (hj' : j' < regs[g'].blockCount)
    (h : totalBlocks (regs.take g) + j = totalBlocks (regs.take g') + j')
    : g = g' ∧ j = j' := by
  have hsucc := totalBlocks_take_succ hg
  have hsucc' := totalBlocks_take_succ hg'
  rcases Nat.lt_trichotomy g g' with hlt | heq | hlt
  . have := totalBlocks_take_le regs (show g + 1 ≤ g' from hlt)
    omega
  . subst heq
    omega
  . have := totalBlocks_take_le regs (show g' + 1 ≤ g from hlt)
    omega

theorem totalBlocks_exists {regs : List Registration} {n : Nat} (h : n < totalBlocks regs)
    : ∃ g j, ∃ hg : g < regs.length,
        j < regs[g].blockCount ∧ totalBlocks (regs.take g) + j = n := by
  induction regs generalizing n with
  | nil => cases h
  | cons r regs ih =>
    by_cases hr : n < r.blockCount
    . exact ⟨0, n, Nat.succ_pos _, hr, Nat.zero_add n⟩
    . have htotal : totalBlocks (r :: regs) = r.blockCount + totalBlocks regs := by
        simp [totalBlocks]
      obtain ⟨g, j, hg, hj, hn⟩ := ih (show n - r.blockCount < totalBlocks regs by omega)
      refine ⟨g + 1, j, Nat.succ_lt_succ hg, hj, ?_⟩
      rw [List.take_succ_cons]
      have : totalBlocks (r :: regs.take g) = r.blockCount + totalBlocks (regs.take g) := by
        simp [totalBlocks]
      omega

namespace IoUring

variable {s : IoUring}

theorem addBlocks_buffers (br blockSize mask i : Nat) (addrs : List Nat)
    : (s.addBlocks br blockSize mask i addrs).buffers
        =
      s.buffers ++ addrs.map fun addr => ⟨some addr, blockSize, br, mask⟩ := by
  induction addrs generalizing s i with
  | nil => simp [addBlocks]
  | cons addr addrs ih =>
    unfold addBlocks
    dsimp only
    rw [ih]
    simp [addBufRing, pushBuffer]

-- The loop fills the ring of the group, which is the last one, from the slot `i` on.
theorem addBlocks_bufRings {m : Nat} {rings : List IoUringBufRing} {bufs : List IoUringBuf}
    (blockSize i : Nat) (addrs : List Nat) (hrings : s.bufRings = rings ++ [⟨bufs, 0⟩])
    (hlength : bufs.length = 2 ^ m) (haddrs : i + addrs.length = 2 ^ m)
    : (s.addBlocks rings.length blockSize (2 ^ m - 1) i addrs).bufRings
        =
      rings ++ [⟨bufs.take i ++ addrs.mapIdx fun j addr =>
        ⟨addr, blockSize, BitVec.ofNat 16 (s.buffers.length + j)⟩, 0⟩] := by
  induction addrs generalizing s i bufs with
  | nil =>
    rw [List.length_nil, Nat.add_zero] at haddrs
    unfold addBlocks
    rw [hrings, List.mapIdx_nil, List.append_nil, List.take_of_length_le (by omega)]
  | cons addr addrs ih =>
    rw [List.length_cons] at haddrs
    have hslot : ((0 : BitVec 16).toNat + i) &&& (2 ^ m - 1) = i := by
      rw [show (0 : BitVec 16).toNat = 0 from rfl, Nat.zero_add, Nat.and_two_pow_sub_one_eq_mod,
        Nat.mod_eq_of_lt (by omega)]
    have hset : ((s.pushBuffer ⟨some addr, blockSize, rings.length, 2 ^ m - 1⟩).addBufRing
        rings.length addr blockSize s.buffers.length (2 ^ m - 1) i).bufRings
        = rings ++ [⟨bufs.set i ⟨addr, blockSize, BitVec.ofNat 16 s.buffers.length⟩, 0⟩] := by
      unfold addBufRing pushBuffer
      dsimp only
      rw [hrings, modify_concat, hslot]
    unfold addBlocks
    dsimp only
    rw [ih (i + 1) hset (by rw [List.length_set]; exact hlength) (by omega),
      take_set_succ (by omega), List.mapIdx_cons, List.append_assoc]
    simp [addBufRing, pushBuffer, Nat.add_assoc, Nat.add_comm 1]

theorem addBlocks_ring {m : Nat} {r : Registration} {rings : List IoUringBufRing}
    (hrings : s.bufRings = rings ++ [⟨List.replicate r.blockCount ⟨0, 0, 0⟩, 0⟩])
    (hm : r.blockCount = 2 ^ m) (hle : r.blockCount ≤ r.addrs.length)
    : ((s.addBlocks rings.length r.blockSize (r.blockCount - 1) 0
          (r.addrs.take r.blockCount)).bufRingAdvance rings.length r.blockCount).bufRings
        =
      rings ++ [r.ring s.buffers.length] := by
  have hfilled := addBlocks_bufRings r.blockSize 0 (r.addrs.take r.blockCount) hrings
    (by rw [List.length_replicate, hm]) (by rw [List.length_take]; omega)
  rw [← hm] at hfilled
  unfold bufRingAdvance
  dsimp only
  rw [hfilled, modify_concat, List.take_zero, List.nil_append]
  rfl

theorem registerRingBuffer_spec {r : Registration}
    (h : (s.registerRingBuffer r.blockSize r.blockCount true r.addrs).1 ≠ -1)
    : r.blockCount ≤ r.addrs.length
        ∧ (s.registerRingBuffer r.blockSize r.blockCount true r.addrs).2.buffers
          = s.buffers ++ r.infos s.bufRings.length
        ∧ (s.registerRingBuffer r.blockSize r.blockCount true r.addrs).2.bufRings
          = s.bufRings ++ [r.ring s.buffers.length] := by
  unfold registerRingBuffer at h ⊢
  split at h
  . exact absurd rfl h
  . next hvalid =>
    have hsetup : ¬(!true) = true := Bool.false_ne_true
    dsimp only at h ⊢
    rw [if_neg hsetup] at h
    split at h
    . exact absurd rfl h
    . next haddrs =>
      rw [if_neg hvalid, if_neg hsetup, if_neg haddrs]
      simp only [Bool.not_eq_true, Bool.not_eq_false', Bool.and_eq_true, decide_eq_true_eq] at hvalid
      have hpow : r.blockCount.isPowerOfTwo := by
        rw [← Nat.ne_zero_and_sub_one_eq_zero_iff_isPowerOfTwo]
        simpa [Util.isPowerOf2] using hvalid.2
      obtain ⟨m, hm⟩ := hpow
      have hle : r.blockCount ≤ r.addrs.length := Nat.le_of_not_lt haddrs
      refine ⟨hle, ?_, ?_⟩
      . exact addBlocks_buffers ..
      . exact addBlocks_ring rfl hm hle

-- The rings and the blocks after these calls.
structure Registered (s : IoUring) (regs : List Registration) : Prop where
  groups : s.bufRings.length = regs.length
  blocks : s.buffers.length = totalBlocks regs
  ring : ∀ g (hg : g < regs.length),
    s.bufRings[g]? = some (regs[g].ring (totalBlocks (regs.take g)))
  block : ∀ g (hg : g < regs.length) j, j < regs[g].blockCount
    → s.buffers[totalBlocks (regs.take g) + j]? = (regs[g].infos g)[j]?
  enough : ∀ r ∈ regs, r.blockCount ≤ r.addrs.length

theorem Registered.register {regs : List Registration} {r : Registration} (h : Registered s regs)
    (hret : (s.exec r.op).1 ≠ -1)
    : Registered (s.exec r.op).2 (regs ++ [r]) := by
  obtain ⟨hle, hbuffers, hrings⟩ := registerRingBuffer_spec hret
  have hinfos : (r.infos s.bufRings.length).length = r.blockCount := by
    simpa [Registration.infos] using hle
  have hbuffers' : (s.exec r.op).2.buffers = s.buffers ++ r.infos s.bufRings.length := hbuffers
  have hrings' : (s.exec r.op).2.bufRings = s.bufRings ++ [r.ring s.buffers.length] := hrings
  refine ⟨?_, ?_, ?_, ?_, ?_⟩
  . rw [hrings', List.length_append, h.groups, List.length_append]
    rfl
  . rw [hbuffers', List.length_append, h.blocks, hinfos, totalBlocks_append]
    simp [totalBlocks]
  . intro g hg
    rw [hrings']
    rw [List.length_append, List.length_singleton] at hg
    by_cases hlast : g = regs.length
    . subst hlast
      have hring : (s.bufRings ++ [r.ring s.buffers.length])[regs.length]?
          = some (r.ring s.buffers.length) := by
        rw [← h.groups, List.getElem?_concat_length]
      rw [hring, List.getElem_concat_length rfl, List.take_left, h.blocks]
    . rw [List.getElem?_append_left (by rw [h.groups]; omega), h.ring g (by omega),
        List.getElem_append_left (by omega), List.take_append_of_le_length (by omega)]
  . intro g hg j hj
    rw [hbuffers']
    rw [List.length_append, List.length_singleton] at hg
    by_cases hlast : g = regs.length
    . subst hlast
      rw [List.take_left, ← h.blocks, List.getElem?_append_right (by omega), Nat.add_sub_cancel_left,
        List.getElem_concat_length rfl, h.groups]
    . rw [List.getElem_append_left (by omega)] at hj ⊢
      have hlt := totalBlocks_take_lt (show g < regs.length by omega) hj
      rw [List.take_append_of_le_length (by omega), List.getElem?_append_left (by rw [h.blocks]; exact hlt)]
      exact h.block g (by omega) j hj
  . intro r' hr'
    rw [List.mem_append, List.mem_singleton] at hr'
    rcases hr' with hr' | hr'
    . exact h.enough r' hr'
    . rw [hr']
      exact hle

theorem exec_register_ret {r : Registration} (hsize : 0 < r.blockSize)
    (hpow : Util.isPowerOf2 r.blockCount) (hle : r.blockCount ≤ r.addrs.length)
    : (s.exec r.op).1 ≠ -1 := by
  have hcount : 0 < r.blockCount := by
    have : r.blockCount ≠ 0 := by
      intro hzero
      rw [hzero] at hpow
      cases hpow
    omega
  have hvalid : (!(decide (0 < r.blockSize) && decide (0 < r.blockCount)
      && Util.isPowerOf2 r.blockCount)) = false := by
    simp [hsize, hcount, hpow]
  have hsetup : ¬(!true) = true := Bool.false_ne_true
  unfold exec run Registration.op registerRingBuffer
  dsimp only
  rw [hvalid, if_neg Bool.false_ne_true, if_neg hsetup, if_neg (by omega)]
  omega

theorem execAll_register_ret {regs : List Registration} (hsize : ∀ r ∈ regs, 0 < r.blockSize)
    (hpow : ∀ r ∈ regs, Util.isPowerOf2 r.blockCount)
    (hle : ∀ r ∈ regs, r.blockCount ≤ r.addrs.length)
    : ∀ ret ∈ (s.execAll (regs.map (·.op))).1, ret ≠ -1 := by
  induction regs generalizing s with
  | nil =>
    intro ret hret
    cases hret
  | cons r regs ih =>
    rw [List.forall_mem_cons] at hsize hpow hle
    rw [List.map_cons, execAll_cons, List.forall_mem_cons]
    exact ⟨exec_register_ret hsize.1 hpow.1 hle.1, ih hsize.2 hpow.2 hle.2⟩

theorem Registered.execAll {done regs : List Registration} (h : Registered s done)
    (hret : ∀ ret ∈ (s.execAll (regs.map (·.op))).1, ret ≠ -1)
    : Registered (s.execAll (regs.map (·.op))).2 (done ++ regs) := by
  induction regs generalizing s done with
  | nil =>
    rw [List.append_nil]
    exact h
  | cons r regs ih =>
    rw [List.map_cons, execAll_cons] at hret ⊢
    rw [List.append_cons]
    apply ih
    . exact h.register (hret _ List.mem_cons_self)
    . intro ret hmem
      exact hret ret (List.mem_cons_of_mem _ hmem)

-- The entry of the ring of a group for one of its blocks.
def entry (s : IoUring) (g j : Nat) : Option IoUringBuf :=
  s.bufRings[g]?.bind (·.bufs[j]?)

theorem Registered.entry_eq {regs : List Registration} {g j : Nat} {buf : IoUringBuf}
    (h : Registered s regs) (hbuf : s.entry g j = some buf)
    : ∃ hg : g < regs.length, j < regs[g].blockCount
        ∧ buf.bid = BitVec.ofNat 16 (totalBlocks (regs.take g) + j)
        ∧ s.buffers[totalBlocks (regs.take g) + j]?
          = some ⟨some buf.addr, regs[g].blockSize, g, regs[g].blockCount - 1⟩ := by
  unfold entry at hbuf
  obtain ⟨ring, hring, hbuf⟩ := Option.bind_eq_some_iff.mp hbuf
  have hg : g < regs.length := by
    rw [← h.groups]
    exact (List.getElem?_eq_some_iff.mp hring).1
  rw [h.ring g hg, Option.some.injEq] at hring
  have hle := h.enough _ (List.getElem_mem hg)
  subst hring
  unfold Registration.ring at hbuf
  rw [List.getElem?_mapIdx, Option.map_eq_some_iff] at hbuf
  obtain ⟨addr, haddr, hbuf⟩ := hbuf
  have hj : j < regs[g].blockCount := by
    have := (List.getElem?_eq_some_iff.mp haddr).1
    rw [List.length_take] at this
    omega
  refine ⟨hg, hj, ?_, ?_⟩
  . rw [← hbuf]
  . rw [h.block g hg j hj, ← hbuf]
    unfold Registration.infos
    rw [List.getElem?_map, haddr]
    rfl

theorem Registered.entry_exists {regs : List Registration} {g j : Nat} (h : Registered s regs)
    (hg : g < regs.length) (hj : j < regs[g].blockCount)
    : ∃ buf, s.entry g j = some buf := by
  have hle := h.enough _ (List.getElem_mem hg)
  unfold entry
  rw [h.ring g hg, Option.bind_some]
  unfold Registration.ring
  dsimp only
  rw [List.getElem?_mapIdx, List.getElem?_eq_getElem (by rw [List.length_take]; omega)]
  exact ⟨_, rfl⟩

end IoUring

-- The completion of a receive into a buffer carries the id of the buffer in its flags.
def Cqe.Fills (cqe : Cqe) (bid : BitVec 16) : Prop :=
  cqe.flags >>> 16 = bid.setWidth 32

theorem Cqe.Fills.bufIndex_eq {cqe : Cqe} {bid : BitVec 16} (h : cqe.Fills bid)
    : cqe.bufIndex = bid.toNat := by
  unfold Cqe.bufIndex
  rw [h, BitVec.toNat_setWidth]
  have := bid.isLt
  omega

-- A block is found again by its id, and no other one has it.
structure Addressable (s : IoUring) (regs : List Registration) : Prop where
  decodes : ∀ g j buf, s.entry g j = some buf → ∀ cqe : Cqe, cqe.Fills buf.bid
    → cqe.bufIndex = totalBlocks (regs.take g) + j
      ∧ ∃ info, s.buffers[cqe.bufIndex]? = some info ∧ info.base = some buf.addr
        ∧ info.bufRings = g
  inj : ∀ g j g' j' buf buf', s.entry g j = some buf → s.entry g' j' = some buf'
    → buf.bid = buf'.bid → g = g' ∧ j = j'

theorem IoUring.Registered.addressable_iff {s : IoUring} {regs : List Registration}
    (h : s.Registered regs)
    : Addressable s regs ↔ totalBlocks regs ≤ 2 ^ 16 := by
  constructor
  . intro haddr
    by_contra htotal
    obtain ⟨g, j, hg, hj, hindex⟩ := totalBlocks_exists (show 2 ^ 16 < totalBlocks regs by omega)
    obtain ⟨buf, hbuf⟩ := h.entry_exists hg hj
    obtain ⟨_, _, hbid, _⟩ := h.entry_eq hbuf
    rw [hindex] at hbid
    have hdecodes := (haddr.decodes g j buf hbuf { flags := 0 } (by rw [hbid]; rfl)).1
    rw [hindex] at hdecodes
    cases hdecodes
  . intro htotal
    have hbid : ∀ g j buf, s.entry g j = some buf
        → buf.bid.toNat = totalBlocks (regs.take g) + j := by
      intro g j buf hbuf
      obtain ⟨hg, hj, hbid, _⟩ := h.entry_eq hbuf
      have hlt := totalBlocks_take_lt hg hj
      rw [hbid, BitVec.toNat_ofNat, Nat.mod_eq_of_lt (by omega)]
    refine ⟨?_, ?_⟩
    . intro g j buf hbuf cqe hcqe
      obtain ⟨hg, hj, _, hinfo⟩ := h.entry_eq hbuf
      rw [hcqe.bufIndex_eq, hbid g j buf hbuf]
      exact ⟨rfl, _, hinfo, rfl, rfl⟩
    . intro g j g' j' buf buf' hbuf hbuf' heq
      obtain ⟨hg, hj, _⟩ := h.entry_eq hbuf
      obtain ⟨hg', hj', _⟩ := h.entry_eq hbuf'
      apply totalBlocks_inj hg hg' hj hj'
      rw [← hbid g j buf hbuf, ← hbid g' j' buf' hbuf', heq]

theorem IoUring.Registered.init (hasTimeoutMultishot : Bool) (ring : Wrapper)
    : (IoUring.init hasTimeoutMultishot ring).Registered [] := by
  refine ⟨rfl, rfl, ?_, ?_, ?_⟩
  . intro g hg
    cases hg
  . intro g hg
    cases hg
  . intro r hr
    cases hr

theorem blocks_addressable_iff (hasTimeoutMultishot : Bool) (ring : Wrapper)
    (regs : List Registration)
    : let r := (IoUring.init hasTimeoutMultishot ring).execAll (regs.map (·.op))
      (∀ ret ∈ r.1, ret ≠ -1) → (Addressable r.2 regs ↔ totalBlocks regs ≤ 2 ^ 16) := by
  intro r hret
  exact ((IoUring.Registered.init hasTimeoutMultishot ring).execAll hret).addressable_iff

-- A group of this many blocks behind `start` others.
def group (start count : Nat) : Registration :=
  ⟨4096, count, (List.range count).map fun j => (start + j + 1) * 4096⟩

-- One block more than there are ids.
def largeGroups : List Registration :=
  [group 0 32768, group 32768 32768, group 65536 1]

theorem largeGroups_ret
    : ∀ ret ∈ ((IoUring.init true (Wrapper.init 2 2 0 0 [])).execAll (largeGroups.map (·.op))).1,
        ret ≠ -1 := by
  apply IoUring.execAll_register_ret
  . simp [largeGroups, group]
  . simp [largeGroups, group, Util.isPowerOf2]
  . simp [largeGroups, group]

theorem largeGroups_not_addressable
    : (∀ ret ∈ ((IoUring.init true (Wrapper.init 2 2 0 0 [])).execAll (largeGroups.map (·.op))).1,
          ret ≠ -1)
        ∧ ¬Addressable
          ((IoUring.init true (Wrapper.init 2 2 0 0 [])).execAll (largeGroups.map (·.op))).2
          largeGroups := by
  refine ⟨largeGroups_ret, ?_⟩
  have hregistered :=
    (IoUring.Registered.init true (Wrapper.init 2 2 0 0 [])).execAll largeGroups_ret
  have hiff := hregistered.addressable_iff
  rw [List.nil_append] at hiff
  rw [hiff]
  simp [largeGroups, group, totalBlocks]

theorem group_addressable
    : Addressable
        ((IoUring.init true (Wrapper.init 2 2 0 0 [])).execAll ([group 0 4].map (·.op))).2
        [group 0 4] :=
  (blocks_addressable_iff true (Wrapper.init 2 2 0 0 []) [group 0 4] (by decide +kernel)).mpr
    (by decide)

end Uring
end Event
end Ezio
