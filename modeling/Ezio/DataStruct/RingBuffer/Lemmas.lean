import Ezio.Lib.Ring
import Ezio.DataStruct.RingBuffer

/-!
This module contains what the operations of a `ring_buffer` with a power of two of blocks compute, in
terms of the counts of the values put and taken.
-/

namespace Ezio
namespace DataStruct

namespace RingBuffer

-- What `init` with a power of two of blocks leaves behind and every step keeps.
structure Shape (k blockSize : Nat) (rb : RingBuffer) : Prop where
  width : k < 32
  mask : rb.mask = BitVec.ofNat 64 (2 ^ k - 1)
  length : rb.data.length = 2 ^ k
  blocks : ∀ block ∈ rb.data, block.mem.length = blockSize
  blockSize : rb.getBlockSize = blockSize

def block (rb : RingBuffer) (j : Nat) : List UInt8 :=
  match rb.data[j]? with
  | none => []
  | some block => block.mem

variable {k blockSize : Nat} {rb : RingBuffer}

theorem Shape.congr {rb' : RingBuffer} (h : Shape k blockSize rb) (hdata : rb'.data = rb.data)
    (hmask : rb'.mask = rb.mask)
    : Shape k blockSize rb' := by
  refine ⟨h.width, hmask.trans h.mask, ?_, ?_, ?_⟩
  . rw [hdata]
    exact h.length
  . rw [hdata]
    exact h.blocks
  . unfold getBlockSize
    rw [hdata]
    exact h.blockSize

theorem Shape.pow_lt (h : Shape k blockSize rb) : 2 ^ k < 2 ^ 32 := by
  apply Nat.pow_lt_pow_right (by decide)
  exact h.width

theorem Shape.blockCnt (h : Shape k blockSize rb)
    : rb.getBlockCnt.setWidth 64 = BitVec.ofNat 64 (2 ^ k) := by
  have := h.pow_lt
  unfold getBlockCnt
  rw [h.length]
  apply BitVec.eq_of_toNat_eq
  rw [BitVec.toNat_setWidth, BitVec.toNat_ofNat, BitVec.toNat_ofNat, Nat.mod_eq_of_lt this]

theorem Shape.slot (h : Shape k blockSize rb) (n : Nat)
    : (BitVec.ofNat 64 n &&& rb.mask).toNat = n % 2 ^ k := by
  have := h.width
  rw [h.mask]
  exact Ring.toNat_slot (by omega) n

theorem Shape.block_length (h : Shape k blockSize rb) {j : Nat} (hj : j < 2 ^ k)
    : (rb.block j).length = blockSize := by
  have hlt : j < rb.data.length := by
    rw [h.length]
    omega
  unfold block
  rw [List.getElem?_eq_getElem hlt]
  exact h.blocks _ (List.getElem_mem hlt)

theorem block_writeByte (i : Nat) (b : UInt8) (j : Nat)
    : (rb.writeByte i b).block j
        =
      if j = rb.writer.bufInfo.iov then (rb.block j).set i b else rb.block j := by
  unfold block writeByte
  dsimp only
  rw [List.getElem?_modify]
  by_cases hj : j = rb.writer.bufInfo.iov
  . rw [if_pos hj, hj]
    cases rb.data[rb.writer.bufInfo.iov]? with
    | none => simp
    | some block => simp
  . rw [if_neg hj]
    have hne : ¬rb.writer.bufInfo.iov = j := by omega
    cases rb.data[j]? with
    | none => simp
    | some block => simp [hne]

theorem getBlockSize_writeByte (i : Nat) (b : UInt8)
    : (rb.writeByte i b).getBlockSize = rb.getBlockSize := by
  unfold getBlockSize writeByte
  cases rb.data with
  | nil => simp
  | cons block blocks =>
    cases rb.writer.bufInfo.iov with
    | zero => rfl
    | succ n => rfl

theorem Shape.writeByte (h : Shape k blockSize rb) (i : Nat) (b : UInt8)
    : Shape k blockSize (rb.writeByte i b) := by
  refine ⟨h.width, h.mask, ?_, ?_, (getBlockSize_writeByte i b).trans h.blockSize⟩
  . unfold RingBuffer.writeByte
    rw [List.length_modify]
    exact h.length
  . intro block hmem
    unfold RingBuffer.writeByte at hmem
    obtain ⟨j, hj, hget⟩ := List.mem_iff_getElem.mp hmem
    rw [List.getElem_modify] at hget
    have hold := h.blocks _ (List.getElem_mem (by simpa using hj))
    split at hget
    . rw [← hget]
      simpa using hold
    . rw [← hget]
      exact hold

theorem readByte_eq (i : Nat) : rb.readByte i = (rb.block rb.reader.bufInfo.iov).getD i 0 := by
  unfold readByte block
  cases rb.data[rb.reader.bufInfo.iov]? with
  | none => simp
  | some block => rfl

theorem Shape.iovCnt_pos (h : Shape k blockSize rb) (start stop : Nat)
    : 0 < rb.iovCnt (BitVec.ofNat 64 start) (BitVec.ofNat 64 stop) := by
  have hpow := h.pow_lt
  have hpos : 0 < 2 ^ k := Nat.two_pow_pos k
  have hstart : start % 2 ^ k < 2 ^ k := Nat.mod_lt _ hpos
  have hstop : stop % 2 ^ k < 2 ^ k := Nat.mod_lt _ hpos
  unfold iovCnt
  dsimp only
  split
  . next hlt =>
    rw [BitVec.lt_def, h.slot, h.slot] at hlt
    rw [BitVec.lt_def, BitVec.toNat_setWidth, BitVec.toNat_sub, h.slot, h.slot]
    change 0 < _
    omega
  . rw [h.blockCnt, BitVec.lt_def, BitVec.toNat_setWidth, BitVec.toNat_sub, h.slot,
      BitVec.toNat_ofNat]
    change 0 < _
    omega

theorem Shape.internalWriterGetBuffer (h : Shape k blockSize rb) {p q : Nat}
    (hidx : rb.writer.idx = BitVec.ofNat 64 p) (hle : q ≤ p) (hroom : p - q < 2 ^ k)
    : ∃ cnt, 0 < cnt ∧ rb.internalWriterGetBuffer (BitVec.ofNat 64 q)
        =
      (true, { rb with writer.bufInfo := ⟨p % 2 ^ k, cnt⟩ }) := by
  have hpow := h.pow_lt
  have hdiff : BitVec.ofNat 64 p - BitVec.ofNat 64 q < BitVec.ofNat 64 (2 ^ k) := by
    rw [BitVec.lt_def, Ring.toNat_sub hle (by omega), BitVec.toNat_ofNat]
    omega
  have hpos := h.iovCnt_pos p q
  refine ⟨_, hpos, ?_⟩
  unfold RingBuffer.internalWriterGetBuffer
  rw [hidx, h.blockCnt, if_pos hdiff]
  dsimp only
  rw [if_pos hpos, h.slot]

theorem Shape.internalWriterGetBuffer_full (h : Shape k blockSize rb) {p q : Nat}
    (hidx : rb.writer.idx = BitVec.ofNat 64 p) (hle : q ≤ p) (hfull : p - q = 2 ^ k)
    : rb.internalWriterGetBuffer (BitVec.ofNat 64 q) = (false, rb) := by
  have hpow := h.pow_lt
  have hdiff : ¬BitVec.ofNat 64 p - BitVec.ofNat 64 q < BitVec.ofNat 64 (2 ^ k) := by
    rw [BitVec.lt_def, Ring.toNat_sub hle (by omega), BitVec.toNat_ofNat]
    omega
  unfold RingBuffer.internalWriterGetBuffer
  rw [hidx, h.blockCnt, if_neg hdiff]

theorem Shape.writerGetBufferScreenshot (h : Shape k blockSize rb) {p q : Nat}
    (hidx : rb.writer.idx = BitVec.ofNat 64 p) (hshot : rb.writer.screenshot = BitVec.ofNat 64 q)
    (hle : q ≤ p) (hroom : p - q < 2 ^ k)
    : ∃ cnt, rb.writerGetBufferScreenshot 1
        =
      (true, { rb with writer.bufInfo := ⟨p % 2 ^ k, cnt⟩ }) := by
  obtain ⟨cnt, hpos, heq⟩ := h.internalWriterGetBuffer hidx hle hroom
  refine ⟨cnt, ?_⟩
  unfold RingBuffer.writerGetBufferScreenshot
  rw [hshot, heq]
  have hcnt : (1 : BitVec 64) ≤ cnt.setWidth 64 := by
    rw [BitVec.lt_def] at hpos
    change 0 < _ at hpos
    have := cnt.isLt
    rw [BitVec.le_def, BitVec.toNat_setWidth]
    change 1 ≤ _
    omega
  dsimp only
  rw [decide_eq_true hcnt]
  rfl

theorem Shape.internalReaderGetBuffer (h : Shape k blockSize rb) {m t : Nat} (hlt : t < m)
    (hm : m < 2 ^ 64)
    : rb.internalReaderGetBuffer (BitVec.ofNat 64 m) (BitVec.ofNat 64 t)
        =
      (true, { rb with reader.bufInfo.iov := t % 2 ^ k }) := by
  have hidx : BitVec.ofNat 64 t < BitVec.ofNat 64 m := by
    rw [BitVec.lt_def, BitVec.toNat_ofNat, BitVec.toNat_ofNat]
    omega
  unfold RingBuffer.internalReaderGetBuffer
  rw [if_pos hidx, h.slot, decide_eq_true (h.iovCnt_pos t m)]

theorem internalReaderGetBuffer_empty (i : BitVec 64)
    : rb.internalReaderGetBuffer i i = (false, rb) := by
  have hirrefl : ¬i < i := by
    rw [BitVec.lt_def]
    omega
  unfold internalReaderGetBuffer
  rw [if_neg hirrefl]

theorem allocBlocks_spec {bufferSize : Nat} {isZeroMem : Bool} {alloc : Nat → Option (Nat → UInt8)}
    {cnt i : Nat} {blocks : List Block}
    (h : allocBlocks bufferSize isZeroMem alloc cnt i = some blocks)
    : blocks.length = cnt
        ∧ ∀ block ∈ blocks, block.mem.length = bufferSize ∧ block.len = bufferSize := by
  induction cnt generalizing i blocks with
  | zero =>
    cases h
    exact ⟨rfl, fun block hmem => by cases hmem⟩
  | succ cnt ih =>
    unfold allocBlocks at h
    split at h
    . next mem rest hmem hrest =>
      cases h
      obtain ⟨hlen, hblocks⟩ := ih hrest
      refine ⟨by rw [List.length_cons, hlen], ?_⟩
      intro block hblock
      rw [List.mem_cons] at hblock
      rcases hblock with heq | hblock
      . rw [heq]
        simp
      . exact hblocks block hblock
    . cases h

theorem init_shape {blockCnt bufferSize : BitVec 32} {isZeroMem : Bool} {alignSize : BitVec 64}
    {alloc : Nat → Option (Nat → UInt8)} {ring : RingBuffer}
    (hpow : Util.isPowerOf2 blockCnt.toNat = true)
    (hinit : ({} : RingBuffer).init blockCnt bufferSize isZeroMem alignSize alloc = (0, ring))
    : ∃ k, blockCnt.toNat = 2 ^ k ∧ Shape k bufferSize.toNat ring
        ∧ ring.writer = {} ∧ ring.reader = {} := by
  have hk : blockCnt.toNat.isPowerOfTwo := by
    rw [← Nat.ne_zero_and_sub_one_eq_zero_iff_isPowerOfTwo]
    simpa [Util.isPowerOf2] using hpow
  obtain ⟨k, hk⟩ := hk
  have hcnt := blockCnt.isLt
  have hpos : 0 < 2 ^ k := Nat.two_pow_pos k
  have hwidth : k < 32 := by
    rw [hk] at hcnt
    exact (Nat.pow_lt_pow_iff_right (by decide)).mp hcnt
  refine ⟨k, hk, ?_⟩
  unfold init at hinit
  generalize (if Util.isPowerOf2 alignSize.toNat then BitVec.ofNat 32 alignSize.toNat
    else BitVec.ofNat 32 (Util.roundupPowerOfTwo alignSize.toNat)) = align at hinit
  rw [if_pos hpow] at hinit
  dsimp only at hinit
  split at hinit
  . cases hinit
  . split at hinit
    . cases hinit
    . next blocks hblocks =>
      cases hinit
      obtain ⟨hlen, hspec⟩ := allocBlocks_spec hblocks
      refine ⟨⟨hwidth, ?_, ?_, ?_, ?_⟩, rfl, rfl⟩
      . apply BitVec.eq_of_toNat_eq
        rw [BitVec.toNat_setWidth, BitVec.toNat_sub, BitVec.toNat_ofNat, hk]
        change (2 ^ 32 - 1 + 2 ^ k) % 2 ^ 32 % 2 ^ 64 = _
        omega
      . rw [List.nil_append, hlen, hk]
      . intro block hmem
        exact (hspec block hmem).1
      . unfold getBlockSize
        cases blocks with
        | nil =>
          rw [List.length_nil] at hlen
          omega
        | cons block rest =>
          dsimp only [List.nil_append]
          rw [(hspec block (by simp)).2]
          exact Nat.mod_eq_of_lt bufferSize.isLt

end RingBuffer

end DataStruct
end Ezio
