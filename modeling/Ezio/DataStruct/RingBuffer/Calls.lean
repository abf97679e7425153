import Ezio.DataStruct.RingBuffer.Lemmas
import Ezio.Lib.Run

/-!
This module contains runs of a `ring_buffer` as sequences of calls of its interface. A call loads the index of the
other thread once at most, it takes place when it does so.
-/

namespace Ezio
namespace DataStruct
namespace RingBuffer

inductive Op where
  -- `writer_get_buffer()` and `writer_get_buffer(need_cnt)`
  | writerGet
  | writerGetNeed (needCnt : BitVec 64)
  | writerCommit (doneCnt : BitVec 64)
  -- `reader_get_buffer()` and `reader_get_buffer(need_cnt)`
  | readerGet
  | readerGetNeed (needCnt : BitVec 64)
  -- the overloads of `reader_get_buffer` with a position
  | readerGetAt (bufInfoPtr : InfoPtr) (readIdx : BitVec 64)
  | readerGetAtNeed (bufInfoPtr : InfoPtr) (readIdx needCnt : BitVec 64)
  | readerGetAtShot (bufInfoPtr : InfoPtr) (readIdx writerIdxScreenshot needCnt : BitVec 64)
  | readerCommit (doneCnt : BitVec 64)
  | readerGetUnreadCnt
  | readerResetOut
  | reset
  deriving DecidableEq, Repr

def step (rb : RingBuffer) : Op → RingBuffer
  | .writerGet => rb.writerGetBufferAll.2
  | .writerGetNeed needCnt => (rb.writerGetBuffer needCnt).2
  | .writerCommit doneCnt => rb.writerCommit doneCnt
  | .readerGet => rb.readerGetBuffer.2
  | .readerGetNeed needCnt => (rb.readerGetBufferNeed needCnt).2
  | .readerGetAt ptr readIdx => (rb.readerGetBufferAt ptr readIdx).2
  | .readerGetAtNeed ptr readIdx needCnt => (rb.readerGetBufferAtNeed ptr readIdx needCnt).2
  | .readerGetAtShot ptr readIdx shot needCnt => (rb.readerGetBufferAtShot ptr readIdx shot needCnt).2.2
  | .readerCommit doneCnt => rb.readerCommit doneCnt
  | .readerGetUnreadCnt => rb.readerGetUnreadCnt.2
  | .readerResetOut => rb.readerResetOut
  | .reset => rb.reset

def run (rb : RingBuffer) (ops : List Op) : RingBuffer :=
  ops.foldl step rb

variable {k blockSize : Nat} {rb rb' : RingBuffer}

/-! ### Slots and counts of indices -/

theorem Shape.slot_toNat (h : Shape k blockSize rb) (i : BitVec 64)
    : (i &&& rb.mask).toNat = i.toNat % 2 ^ k := by
  have hslot := h.slot i.toNat
  rw [BitVec.ofNat_toNat, BitVec.setWidth_eq] at hslot
  exact hslot

theorem Shape.blockCnt_toNat (h : Shape k blockSize rb)
    : (rb.getBlockCnt.setWidth 64).toNat = 2 ^ k := by
  have hpow := h.pow_lt
  rw [h.blockCnt, BitVec.toNat_ofNat, Nat.mod_eq_of_lt (by omega)]

theorem Shape.iovCnt_toNat (h : Shape k blockSize rb) (start stop : BitVec 64)
    : (rb.iovCnt start stop).toNat = Ring.stretch (2 ^ k) start.toNat stop.toNat := by
  have hpow := h.pow_lt
  have hpos : 0 < 2 ^ k := Nat.two_pow_pos k
  have hstart := Nat.mod_lt start.toNat hpos
  have hstop := Nat.mod_lt stop.toNat hpos
  unfold iovCnt Ring.stretch
  simp only [BitVec.lt_def, h.slot_toNat]
  split
  . rw [BitVec.toNat_setWidth, BitVec.toNat_sub, h.slot_toNat, h.slot_toNat]
    omega
  . rw [BitVec.toNat_setWidth, BitVec.toNat_sub, h.slot_toNat, h.blockCnt_toNat]
    omega

theorem Shape.iovCnt_pos_idx (h : Shape k blockSize rb) (start stop : BitVec 64)
    : 0 < rb.iovCnt start stop := by
  rw [BitVec.lt_def, h.iovCnt_toNat]
  exact Ring.stretch_pos (Nat.two_pow_pos k) _ _

/-! ### What the internal functions change -/

-- Nothing but the two `buffer_info`s and the screenshots changes.
structure Gets (rb rb' : RingBuffer) : Prop where
  data : rb'.data = rb.data
  mask : rb'.mask = rb.mask
  writerIdx : rb'.writer.idx = rb.writer.idx
  readerIdx : rb'.reader.idx = rb.reader.idx
  writerShot : rb'.writer.screenshot = rb.writer.screenshot ∨ rb'.writer.screenshot = rb.reader.idx
  readerShot : rb'.reader.screenshot = rb.reader.screenshot ∨ rb'.reader.screenshot = rb.writer.idx

theorem Gets.refl (rb : RingBuffer)
    : Gets rb rb :=
  ⟨rfl, rfl, rfl, rfl, .inl rfl, .inl rfl⟩

theorem Gets.trans {rb'' : RingBuffer} (h : Gets rb rb') (h' : Gets rb' rb'')
    : Gets rb rb'' := by
  refine ⟨h'.data.trans h.data, h'.mask.trans h.mask, h'.writerIdx.trans h.writerIdx,
    h'.readerIdx.trans h.readerIdx, ?_, ?_⟩
  . rcases h'.writerShot with heq | heq
    . rw [heq]
      exact h.writerShot
    . exact .inr (heq.trans h.readerIdx)
  . rcases h'.readerShot with heq | heq
    . rw [heq]
      exact h.readerShot
    . exact .inr (heq.trans h.writerIdx)

theorem internalWriterGetBuffer_gets (rb : RingBuffer) (readIdx : BitVec 64)
    : Gets rb (rb.internalWriterGetBuffer readIdx).2 := by
  unfold internalWriterGetBuffer
  dsimp only
  split
  . split <;> exact ⟨rfl, rfl, rfl, rfl, .inl rfl, .inl rfl⟩
  . exact .refl rb

theorem internalReaderGetBuffer_gets (rb : RingBuffer) (writeIdx readIdx : BitVec 64)
    : Gets rb (rb.internalReaderGetBuffer writeIdx readIdx).2 := by
  unfold internalReaderGetBuffer
  split
  . exact ⟨rfl, rfl, rfl, rfl, .inl rfl, .inl rfl⟩
  . exact .refl rb

theorem internalReaderGetBufferAt_gets (rb : RingBuffer) (ptr : InfoPtr) (readIdx writerIdx : BitVec 64)
    : Gets rb (rb.internalReaderGetBufferAt ptr readIdx writerIdx).2 := by
  unfold internalReaderGetBufferAt
  dsimp only
  split
  . split
    . exact ⟨rfl, rfl, rfl, rfl, .inl rfl, .inl rfl⟩
    . exact .refl rb
  . exact .refl rb

/-! ### The functions that fall back on a new screenshot -/

theorem writerGetBuffer_eq (rb : RingBuffer) (needCnt : BitVec 64)
    : rb.writerGetBuffer needCnt
        =
      if (rb.writerGetBufferScreenshot needCnt).1 then
        rb.writerGetBufferScreenshot needCnt
      else
        (rb.writerGetBufferScreenshot needCnt).2.writerTakeScreenshot.writerGetBufferAll := by
  unfold writerGetBuffer
  cases rb.writerGetBufferScreenshot needCnt with
  | mk found rb₁ => cases found <;> rfl

theorem readerGetBufferNeed_eq (rb : RingBuffer) (needCnt : BitVec 64)
    : rb.readerGetBufferNeed needCnt
        =
      if (rb.readerGetBufferScreenshot needCnt).1 then
        rb.readerGetBufferScreenshot needCnt
      else
        (rb.readerGetBufferScreenshot needCnt).2.readerTakeScreenshot.readerGetBuffer := by
  unfold readerGetBufferNeed
  cases rb.readerGetBufferScreenshot needCnt with
  | mk found rb₁ => cases found <;> rfl

theorem readerGetBufferAtNeed_eq (rb : RingBuffer) (ptr : InfoPtr) (readIdx needCnt : BitVec 64)
    : rb.readerGetBufferAtNeed ptr readIdx needCnt
        =
      let first := rb.readerGetBufferAtScreenshot ptr readIdx rb.reader.screenshot needCnt
      if first.1 then (0, first.2) else first.2.readerTakeScreenshot.readerGetBufferAt ptr readIdx := by
  unfold readerGetBufferAtNeed
  cases rb.readerGetBufferAtScreenshot ptr readIdx rb.reader.screenshot needCnt with
  | mk found rb₁ => cases found <;> rfl

theorem readerGetBufferAtShot_eq (rb : RingBuffer) (ptr : InfoPtr) (readIdx shot needCnt : BitVec 64)
    : rb.readerGetBufferAtShot ptr readIdx shot needCnt
        =
      let first := rb.readerGetBufferAtScreenshot ptr readIdx shot needCnt
      if first.1 then
        (0, shot, first.2)
      else
        let second := first.2.readerGetBufferAt ptr readIdx
        (second.1, first.2.writer.idx, second.2) := by
  unfold readerGetBufferAtShot
  cases rb.readerGetBufferAtScreenshot ptr readIdx shot needCnt with
  | mk found rb₁ => cases found <;> rfl

theorem writerGetBuffer_gets (rb : RingBuffer) (needCnt : BitVec 64)
    : Gets rb (rb.writerGetBuffer needCnt).2 := by
  have hfirst : Gets rb (rb.writerGetBufferScreenshot needCnt).2 := internalWriterGetBuffer_gets rb _
  rw [writerGetBuffer_eq]
  split
  . exact hfirst
  . refine hfirst.trans (Gets.trans ?_ (internalWriterGetBuffer_gets _ _))
    exact ⟨rfl, rfl, rfl, rfl, .inr rfl, .inl rfl⟩

theorem readerTakeScreenshot_gets (rb : RingBuffer)
    : Gets rb rb.readerTakeScreenshot :=
  ⟨rfl, rfl, rfl, rfl, .inl rfl, .inr rfl⟩

theorem readerGetBufferNeed_gets (rb : RingBuffer) (needCnt : BitVec 64)
    : Gets rb (rb.readerGetBufferNeed needCnt).2 := by
  have hfirst : Gets rb (rb.readerGetBufferScreenshot needCnt).2 := internalReaderGetBuffer_gets rb _ _
  rw [readerGetBufferNeed_eq]
  split
  . exact hfirst
  . exact hfirst.trans ((readerTakeScreenshot_gets _).trans (internalReaderGetBuffer_gets _ _ _))

theorem readerGetBufferAtScreenshot_gets (rb : RingBuffer) (ptr : InfoPtr) (readIdx shot needCnt : BitVec 64)
    : Gets rb (rb.readerGetBufferAtScreenshot ptr readIdx shot needCnt).2 :=
  internalReaderGetBufferAt_gets rb ptr readIdx shot

theorem readerGetBufferAtNeed_gets (rb : RingBuffer) (ptr : InfoPtr) (readIdx needCnt : BitVec 64)
    : Gets rb (rb.readerGetBufferAtNeed ptr readIdx needCnt).2 := by
  have hfirst := readerGetBufferAtScreenshot_gets rb ptr readIdx rb.reader.screenshot needCnt
  rw [readerGetBufferAtNeed_eq]
  dsimp only
  split
  . exact hfirst
  . exact hfirst.trans ((readerTakeScreenshot_gets _).trans (internalReaderGetBufferAt_gets _ _ _ _))

theorem readerGetBufferAtShot_gets (rb : RingBuffer) (ptr : InfoPtr) (readIdx shot needCnt : BitVec 64)
    : Gets rb (rb.readerGetBufferAtShot ptr readIdx shot needCnt).2.2 := by
  have hfirst := readerGetBufferAtScreenshot_gets rb ptr readIdx shot needCnt
  rw [readerGetBufferAtShot_eq]
  dsimp only
  split
  . exact hfirst
  . exact hfirst.trans (internalReaderGetBufferAt_gets _ _ _ _)

-- A call that moves no index.
def Op.isGet : Op → Bool
  | .writerCommit _ | .readerCommit _ | .readerResetOut | .reset => false
  | _ => true

theorem step_gets {op : Op} (hop : op.isGet = true)
    : Gets rb (rb.step op) := by
  cases op with
  | writerGet => exact internalWriterGetBuffer_gets rb _
  | writerGetNeed needCnt => exact writerGetBuffer_gets rb needCnt
  | readerGet => exact internalReaderGetBuffer_gets rb _ _
  | readerGetNeed needCnt => exact readerGetBufferNeed_gets rb needCnt
  | readerGetAt ptr readIdx => exact internalReaderGetBufferAt_gets rb ptr readIdx _
  | readerGetAtNeed ptr readIdx needCnt => exact readerGetBufferAtNeed_gets rb ptr readIdx needCnt
  | readerGetAtShot ptr readIdx shot needCnt => exact readerGetBufferAtShot_gets rb ptr readIdx shot needCnt
  | readerGetUnreadCnt => exact ⟨rfl, rfl, rfl, rfl, .inl rfl, .inr rfl⟩
  | writerCommit _ | readerCommit _ | readerResetOut | reset => cases hop

theorem step_blocks (rb : RingBuffer) (op : Op)
    : (rb.step op).data = rb.data ∧ (rb.step op).mask = rb.mask := by
  cases hop : op.isGet with
  | true => exact ⟨(step_gets hop).data, (step_gets hop).mask⟩
  | false => cases op <;> first | exact ⟨rfl, rfl⟩ | cases hop

theorem Shape.step (h : Shape k blockSize rb) (op : Op)
    : Shape k blockSize (rb.step op) :=
  h.congr (step_blocks rb op).1 (step_blocks rb op).2

end RingBuffer
end DataStruct
end Ezio
