import Ezio.Util.Roundup
import Ezio.DataStruct.RingBuffer.Calls

/-!
This module contains the range of the slots that a `ring_buffer` computes. `init` makes as many blocks as it is
asked for, and the mask of the next power of two.
-/

namespace Ezio

namespace DataStruct
namespace RingBuffer

-- The indices that `internal_writer_get_buffer` and the functions of the reader mask.
def writerIdxs (rb : RingBuffer) (readIdx : BitVec 64) : List (BitVec 64) :=
  if rb.writer.idx - readIdx < rb.getBlockCnt.setWidth 64 then [rb.writer.idx, readIdx] else []

def readerIdxs (writeIdx readIdx : BitVec 64) : List (BitVec 64) :=
  if readIdx < writeIdx then [writeIdx, readIdx] else []

def readerIdxsAt (rb : RingBuffer) (readIdx writerIdx : BitVec 64) : List (BitVec 64) :=
  if rb.reader.idx ≤ readIdx ∧ readIdx < writerIdx then [writerIdx, readIdx] else []

-- The indices that a call masks to get a slot, in the order it does so.
def maskedIdxs (rb : RingBuffer) : Op → List (BitVec 64)
  | .writerGet => rb.writerIdxs rb.reader.idx
  | .writerGetNeed needCnt =>
    rb.writerIdxs rb.writer.screenshot
      ++ if (rb.writerGetBufferScreenshot needCnt).1 then [] else rb.writerIdxs rb.reader.idx
  | .readerGet => readerIdxs rb.writer.idx rb.reader.idx
  | .readerGetNeed needCnt =>
    readerIdxs rb.reader.screenshot rb.reader.idx
      ++ if (rb.readerGetBufferScreenshot needCnt).1 then [] else readerIdxs rb.writer.idx rb.reader.idx
  | .readerGetAt _ readIdx => rb.readerIdxsAt readIdx rb.writer.idx
  | .readerGetAtNeed ptr readIdx needCnt =>
    rb.readerIdxsAt readIdx rb.reader.screenshot
      ++ if (rb.readerGetBufferAtScreenshot ptr readIdx rb.reader.screenshot needCnt).1 then []
        else rb.readerIdxsAt readIdx rb.writer.idx
  | .readerGetAtShot ptr readIdx shot needCnt =>
    rb.readerIdxsAt readIdx shot
      ++ if (rb.readerGetBufferAtScreenshot ptr readIdx shot needCnt).1 then []
        else rb.readerIdxsAt readIdx rb.writer.idx
  | .writerCommit _ | .readerCommit _ | .readerGetUnreadCnt | .readerResetOut | .reset => []

def InRange (rb : RingBuffer) (op : Op) : Prop :=
  ∀ i ∈ rb.maskedIdxs op, (i &&& rb.mask).toNat < rb.data.length

def grantOf (p : Bool × RingBuffer) : Option BufferInfo :=
  if p.1 then some p.2.writer.bufInfo else none

-- The blocks that a call grants to the writer.
def granted (rb : RingBuffer) : Op → Option BufferInfo
  | .writerGet => grantOf rb.writerGetBufferAll
  | .writerGetNeed needCnt => grantOf (rb.writerGetBuffer needCnt)
  | _ => none

def WithinBlocks (rb : RingBuffer) (op : Op) : Prop :=
  ∀ info ∈ rb.granted op, info.iov + info.iovCnt.toNat ≤ rb.data.length

-- None of the blocks is one that the reader has yet to read.
def SparesUnread (rb : RingBuffer) (op : Op) : Prop :=
  ∀ info ∈ rb.granted op, ∀ i, rb.reader.idx.toNat ≤ i → i < rb.writer.idx.toNat
    → ¬(info.iov ≤ (BitVec.ofNat 64 i &&& rb.mask).toNat
      ∧ (BitVec.ofNat 64 i &&& rb.mask).toNat < info.iov + info.iovCnt.toNat)

-- The threads commit no more than what is free and what is unread, and the indices do not wrap.
def Allowed (rb : RingBuffer) : Op → Prop
  | .writerCommit doneCnt =>
    rb.writer.idx.toNat + doneCnt.toNat ≤ rb.reader.idx.toNat + rb.data.length
      ∧ rb.writer.idx.toNat + doneCnt.toNat < 2 ^ 64
  | .readerCommit doneCnt => rb.reader.idx.toNat + doneCnt.toNat ≤ rb.writer.idx.toNat
  | _ => True

instance (rb : RingBuffer) (op : Op) : Decidable (rb.Allowed op) :=
  match op with
  | .writerCommit _ => inferInstanceAs (Decidable (_ ∧ _))
  | .readerCommit _ => inferInstanceAs (Decidable (_ ≤ _))
  | .writerGet | .writerGetNeed _ | .readerGet | .readerGetNeed _ | .readerGetAt .. | .readerGetAtNeed ..
  | .readerGetAtShot .. | .readerGetUnreadCnt | .readerResetOut | .reset => inferInstanceAs (Decidable True)

-- not the instance that goes through all indices there are
instance (rb : RingBuffer) (op : Op) : Decidable (rb.InRange op) :=
  List.decidableBAll _ _

variable {k blockSize : Nat} {rb rb' : RingBuffer} {info : BufferInfo}

/-! ### A power of two of blocks -/

theorem Shape.inRange (h : Shape k blockSize rb) (op : Op)
    : rb.InRange op := by
  intro i _
  rw [h.slot_toNat, h.length]
  exact Nat.mod_lt _ (Nat.two_pow_pos k)

theorem Shape.gets (h : Shape k blockSize rb) (hgets : Gets rb rb')
    : Shape k blockSize rb' :=
  h.congr hgets.data hgets.mask

-- What is granted starts at the index of the writer, and ends before that of the reader that was used.
structure Grant (k : Nat) (rb : RingBuffer) (readIdx : BitVec 64) (info : BufferInfo) : Prop where
  room : (rb.writer.idx - readIdx).toNat < 2 ^ k
  iov : info.iov = rb.writer.idx.toNat % 2 ^ k
  iovCnt : info.iovCnt.toNat = Ring.stretch (2 ^ k) rb.writer.idx.toNat readIdx.toNat

theorem Shape.grantOf_internal (h : Shape k blockSize rb) {readIdx : BitVec 64}
    (hinfo : info ∈ grantOf (rb.internalWriterGetBuffer readIdx))
    : Grant k rb readIdx info := by
  unfold grantOf RingBuffer.internalWriterGetBuffer at hinfo
  dsimp only at hinfo
  split at hinfo
  . next hroom =>
    rw [if_pos (h.iovCnt_pos_idx _ _), if_pos rfl] at hinfo
    cases hinfo
    refine ⟨?_, h.slot_toNat _, h.iovCnt_toNat _ _⟩
    rw [BitVec.lt_def, h.blockCnt_toNat] at hroom
    exact hroom
  . cases hinfo

theorem Shape.grant (h : Shape k blockSize rb) {op : Op} (hinfo : info ∈ rb.granted op)
    : Grant k rb rb.reader.idx info ∨ Grant k rb rb.writer.screenshot info := by
  cases op with
  | writerGet => exact .inl (h.grantOf_internal hinfo)
  | writerGetNeed needCnt =>
    have hfirst : Gets rb (rb.writerGetBufferScreenshot needCnt).2 := internalWriterGetBuffer_gets rb _
    have hinfo : info ∈ grantOf (rb.writerGetBuffer needCnt) := hinfo
    rw [writerGetBuffer_eq] at hinfo
    split at hinfo
    . next hfound =>
      right
      apply h.grantOf_internal
      unfold grantOf at hinfo ⊢
      rw [if_pos hfound] at hinfo
      have hinternal : (rb.internalWriterGetBuffer rb.writer.screenshot).1 = true := (Bool.and_eq_true_iff.mp hfound).1
      rw [if_pos hinternal]
      exact hinfo
    . left
      have hshape : Shape k blockSize (rb.writerGetBufferScreenshot needCnt).2.writerTakeScreenshot :=
        (h.gets hfirst).congr rfl rfl
      have hgrant := hshape.grantOf_internal hinfo
      have hidx : (rb.writerGetBufferScreenshot needCnt).2.writerTakeScreenshot.writer.idx = rb.writer.idx :=
        hfirst.writerIdx
      have hread : (rb.writerGetBufferScreenshot needCnt).2.writerTakeScreenshot.reader.idx = rb.reader.idx :=
        hfirst.readerIdx
      obtain ⟨hroom, hiov, hcnt⟩ := hgrant
      rw [hidx, hread] at hroom hcnt
      rw [hidx] at hiov
      exact ⟨hroom, hiov, hcnt⟩
  | _ => cases hinfo

theorem Grant.within {readIdx : BitVec 64} (h : Grant k rb readIdx info)
    : info.iov + info.iovCnt.toNat ≤ 2 ^ k := by
  rw [h.iov, h.iovCnt]
  exact Ring.add_stretch_le (Nat.two_pow_pos k) _ _

theorem Shape.withinBlocks (h : Shape k blockSize rb) (op : Op)
    : rb.WithinBlocks op := by
  intro info hinfo
  rw [h.length]
  rcases h.grant hinfo with hgrant | hgrant
  . exact hgrant.within
  . exact hgrant.within

-- The indices while both threads keep to `Allowed`.
structure Ordered (rb : RingBuffer) : Prop where
  writerShot : rb.writer.screenshot.toNat ≤ rb.reader.idx.toNat
  le : rb.reader.idx.toNat ≤ rb.writer.idx.toNat
  fits : rb.writer.idx.toNat ≤ rb.reader.idx.toNat + rb.data.length
  readerShot : rb.reader.screenshot.toNat ≤ rb.writer.idx.toNat

theorem Ordered.gets (h : Ordered rb) (hgets : Gets rb rb')
    : Ordered rb' := by
  obtain ⟨hwriterShot, hle, hfits, hreaderShot⟩ := h
  obtain ⟨hdata, _, hwriter, hreader, hws, hrs⟩ := hgets
  refine ⟨?_, ?_, ?_, ?_⟩
  . rw [hreader]
    rcases hws with heq | heq
    . rw [heq]
      exact hwriterShot
    . rw [heq]
  . rw [hreader, hwriter]
    exact hle
  . rw [hreader, hwriter, hdata]
    exact hfits
  . rw [hwriter]
    rcases hrs with heq | heq
    . rw [heq]
      exact hreaderShot
    . rw [heq]

theorem Ordered.step (h : Ordered rb) {op : Op} (hop : rb.Allowed op)
    : Ordered (rb.step op) := by
  cases hget : op.isGet with
  | true => exact h.gets (step_gets hget)
  | false =>
    obtain ⟨hwriterShot, hle, hfits, hreaderShot⟩ := h
    cases op with
    | writerCommit doneCnt =>
      obtain ⟨hroom, hwrap⟩ := hop
      have hadd : (rb.writer.idx + doneCnt).toNat = rb.writer.idx.toNat + doneCnt.toNat :=
        BitVec.toNat_add_of_lt hwrap
      refine ⟨hwriterShot, ?_, ?_, ?_⟩
      all_goals
        simp only [RingBuffer.step, writerCommit, hadd]
        omega
    | readerCommit doneCnt =>
      have hunread : rb.reader.idx.toNat + doneCnt.toNat ≤ rb.writer.idx.toNat := hop
      have hadd : (rb.reader.idx + doneCnt).toNat = rb.reader.idx.toNat + doneCnt.toNat := by
        apply BitVec.toNat_add_of_lt
        have := rb.writer.idx.isLt
        omega
      refine ⟨?_, ?_, ?_, hreaderShot⟩
      all_goals
        simp only [RingBuffer.step, readerCommit, hadd]
        omega
    | readerResetOut =>
      refine ⟨?_, Nat.le_refl _, Nat.le_add_right _ _, Nat.le_refl _⟩
      exact Nat.le_trans hwriterShot hle
    | reset => exact ⟨Nat.le_refl _, Nat.le_refl _, Nat.zero_le _, Nat.le_refl _⟩
    | _ => cases hget

theorem Grant.spares {readIdx : BitVec 64} (h : Grant k rb readIdx info) (hle : readIdx.toNat ≤ rb.writer.idx.toNat)
    {i : Nat} (hi : readIdx.toNat ≤ i) (hlt : i < rb.writer.idx.toNat)
    : ¬(info.iov ≤ i % 2 ^ k ∧ i % 2 ^ k < info.iov + info.iovCnt.toNat) := by
  have hroom := h.room
  rw [BitVec.toNat_sub_of_le (BitVec.le_def.mpr hle)] at hroom
  rw [h.iov, h.iovCnt]
  exact Ring.not_mem_stretch hi hlt hroom

theorem Shape.sparesUnread (h : Shape k blockSize rb) (hordered : Ordered rb) (op : Op)
    : rb.SparesUnread op := by
  intro info hinfo i hi hlt
  rw [h.slot]
  have hshot := hordered.writerShot
  have hle := hordered.le
  rcases h.grant hinfo with hgrant | hgrant
  . exact hgrant.spares hle hi hlt
  . exact hgrant.spares (Nat.le_trans hshot hle) (Nat.le_trans hshot hi) hlt

/-! ### `init` -/

variable {blockCnt bufferSize : BitVec 32} {isZeroMem : Bool} {alignSize : BitVec 64}
  {alloc : Nat → Option (Nat → UInt8)} {ring : RingBuffer}

-- The blocks are as many as asked for, the mask is that of the real count.
theorem init_blocks (hinit : ({} : RingBuffer).init blockCnt bufferSize isZeroMem alignSize alloc = (0, ring))
    : ring.data.length = blockCnt.toNat ∧ ring.writer = {} ∧ ring.reader = {}
        ∧ ∃ realBlockCnt : BitVec 32, realBlockCnt ≠ 0 ∧ ring.mask = (realBlockCnt - 1).setWidth 64
          ∧ realBlockCnt = if Util.isPowerOf2 blockCnt.toNat then blockCnt
            else BitVec.ofNat 32 (Util.roundupPowerOfTwo blockCnt.toNat) := by
  unfold init at hinit
  generalize (if Util.isPowerOf2 alignSize.toNat then BitVec.ofNat 32 alignSize.toNat
    else BitVec.ofNat 32 (Util.roundupPowerOfTwo alignSize.toNat)) = align at hinit
  generalize hreal : (if Util.isPowerOf2 blockCnt.toNat then blockCnt
    else BitVec.ofNat 32 (Util.roundupPowerOfTwo blockCnt.toNat)) = realBlockCnt at hinit
  dsimp only at hinit
  split at hinit
  . cases hinit
  . next hzero =>
    split at hinit
    . cases hinit
    . next blocks hblocks =>
      cases hinit
      refine ⟨?_, rfl, rfl, realBlockCnt, fun heq => hzero (.inl heq), rfl, rfl⟩
      rw [List.nil_append]
      exact (allocBlocks_spec hblocks).1

-- The mask of a count that is no power of two lets the count itself through.
theorem init_slot_blockCnt (hinit : ({} : RingBuffer).init blockCnt bufferSize isZeroMem alignSize alloc = (0, ring))
    (hpow : Util.isPowerOf2 blockCnt.toNat = false)
    : 0 < blockCnt.toNat ∧ (blockCnt.setWidth 64 &&& ring.mask).toNat = blockCnt.toNat := by
  obtain ⟨_, _, _, real, hreal, hmask, heq⟩ := init_blocks hinit
  rw [hpow, if_neg Bool.false_ne_true] at heq
  have hlt := blockCnt.isLt
  have hpos : 0 < blockCnt.toNat := by
    by_contra hnot
    have hzero : blockCnt.toNat = 0 := by omega
    rw [hzero] at heq
    exact hreal heq
  refine ⟨hpos, ?_⟩
  have hround := Util.roundupPowerOfTwo_eq (Nat.lt_trans hlt (by decide)) hpos hpow
  have hlog : blockCnt.toNat.log2 < 32 := (Nat.log2_lt (by omega)).mpr hlt
  rw [Nat.mod_eq_of_lt (Nat.pow_lt_pow_right (by decide) (by omega))] at hround
  rw [hround] at heq
  -- a count above `2 ^ 31` is rounded up to `2 ^ 32`, which is truncated to `0`
  have hwidth : blockCnt.toNat.log2 + 1 < 32 := by
    by_contra hnot
    have hmax : blockCnt.toNat.log2 + 1 = 32 := by omega
    rw [hmax] at heq
    exact hreal heq
  have hsmall : 2 ^ (blockCnt.toNat.log2 + 1) < 2 ^ 32 := Nat.pow_lt_pow_right (by decide) hwidth
  have hmask' : ring.mask = BitVec.ofNat 64 (2 ^ (blockCnt.toNat.log2 + 1) - 1) := by
    rw [hmask, heq]
    apply BitVec.eq_of_toNat_eq
    have hone := Nat.two_pow_pos (blockCnt.toNat.log2 + 1)
    rw [BitVec.toNat_setWidth, BitVec.toNat_sub, BitVec.toNat_ofNat, BitVec.toNat_ofNat]
    change (2 ^ 32 - 1 + 2 ^ (blockCnt.toNat.log2 + 1) % 2 ^ 32) % 2 ^ 32 % 2 ^ 64 = _
    omega
  have hcnt : blockCnt.setWidth 64 = BitVec.ofNat 64 blockCnt.toNat := by
    apply BitVec.eq_of_toNat_eq
    rw [BitVec.toNat_setWidth, BitVec.toNat_ofNat]
  rw [hmask', hcnt, Ring.toNat_slot (by omega)]
  exact Nat.mod_eq_of_lt Nat.lt_log2_self

-- All blocks are written, and one of them is read.
def oneRound (blockCnt : BitVec 32) : List Op :=
  [.writerCommit (blockCnt.setWidth 64), .readerCommit 1, .writerGet]

theorem oneRound_not_inRange
    (hinit : ({} : RingBuffer).init blockCnt bufferSize isZeroMem alignSize alloc = (0, ring))
    (hpow : Util.isPowerOf2 blockCnt.toNat = false)
    : ¬Along step InRange ring (oneRound blockCnt) := by
  rintro ⟨_, _, hget, _⟩
  obtain ⟨hlen, hwriter, hreader, _⟩ := init_blocks hinit
  obtain ⟨hpos, hslot⟩ := init_slot_blockCnt hinit hpow
  have hlt := blockCnt.isLt
  have hbound := hget (blockCnt.setWidth 64) ?_
  . simp only [RingBuffer.step, writerCommit, readerCommit] at hbound
    omega
  . have hroom : blockCnt.setWidth 64 - 1 < ring.getBlockCnt.setWidth 64 := by
      have hone : (1 : BitVec 64).toNat = 1 := rfl
      have hle : (1 : BitVec 64) ≤ blockCnt.setWidth 64 := by
        rw [BitVec.le_def, BitVec.toNat_setWidth, hone]
        omega
      rw [BitVec.lt_def, BitVec.toNat_sub_of_le hle, hone]
      unfold getBlockCnt
      rw [hlen, BitVec.toNat_setWidth, BitVec.toNat_setWidth, BitVec.toNat_ofNat]
      omega
    simp only [maskedIdxs, writerIdxs, RingBuffer.step, writerCommit, readerCommit, hwriter, hreader,
      BitVec.ofNat_eq_ofNat, BitVec.zero_add, getBlockCnt] at hroom ⊢
    rw [if_pos hroom]
    exact List.mem_cons_self

theorem init_inRange_iff (hinit : ({} : RingBuffer).init blockCnt bufferSize isZeroMem alignSize alloc = (0, ring))
    : (∀ ops, Along step (fun rb op => rb.InRange op ∧ rb.WithinBlocks op) ring ops
        ∧ (Along step Allowed ring ops → Along step SparesUnread ring ops))
        ↔
      Util.isPowerOf2 blockCnt.toNat = true := by
  constructor
  . intro h
    by_contra hpow
    have hrange := (h (oneRound blockCnt)).1.of_invariant (P := InRange) (I := fun _ => True)
      (fun _ _ _ ha => ha.1) (fun _ _ _ _ => trivial) trivial
    exact oneRound_not_inRange hinit (Bool.not_eq_true _ ▸ hpow) hrange
  . intro hpow ops
    obtain ⟨k, _, hshape, hwriter, hreader⟩ := init_shape hpow hinit
    constructor
    . have hall : Along step (fun _ _ => True) ring ops := Along.of_mem fun _ _ => trivial
      exact hall.of_invariant (fun _ op h _ => ⟨Shape.inRange h op, Shape.withinBlocks h op⟩)
        (fun _ op h _ => Shape.step h op) hshape
    . intro hallowed
      have hordered : Ordered ring := by
        constructor <;> simp [hwriter, hreader]
      exact hallowed.of_invariant (I := fun rb => Shape k bufferSize.toNat rb ∧ Ordered rb)
        (fun _ op h _ => h.1.sparesUnread h.2 op) (fun _ op h hop => ⟨h.1.step op, h.2.step hop⟩) ⟨hshape, hordered⟩

-- A fresh object of `blockCnt` blocks of 8 bytes.
def ofBlocks (blockCnt : BitVec 32) : Int × RingBuffer :=
  ({} : RingBuffer).init blockCnt 8 false 1024 fun _ => some fun _ => 0

theorem ofBlocks_eq (blockCnt : BitVec 32) (h : (ofBlocks blockCnt).1 = 0)
    : ({} : RingBuffer).init blockCnt 8 false 1024 (fun _ => some fun _ => 0) = (0, (ofBlocks blockCnt).2) :=
  Prod.ext h rfl

-- The indices go round the blocks twice.
def twoRounds (blockCnt : BitVec 32) : List Op :=
  oneRound blockCnt ++ [.readerCommit 3, .writerGet, .writerCommit (blockCnt.setWidth 64), .readerGet, .readerCommit 2,
    .writerGet]

theorem fourBlocks_inRange
    : Along step (fun rb op => rb.InRange op ∧ rb.WithinBlocks op) (ofBlocks 4).2 (twoRounds 4)
        ∧ Along step SparesUnread (ofBlocks 4).2 (twoRounds 4) := by
  obtain ⟨hrange, hspares⟩ := (init_inRange_iff (ofBlocks_eq 4 (by decide +kernel))).mpr (by decide) (twoRounds 4)
  exact ⟨hrange, hspares (by decide +kernel)⟩

theorem threeBlocks_not_inRange
    : (ofBlocks 3).1 = 0 ∧ ¬Along step InRange (ofBlocks 3).2 (oneRound 3) := by
  decide +kernel

end RingBuffer
end DataStruct
end Ezio
