import Ezio.DataStruct.RingBuffer.Range

/-!
This module contains what `reader_get_buffer` hands out. The overloads without a position never set the count of
`reader_.buf_info_`, and those with a position set nothing else.
-/

namespace Ezio
namespace DataStruct
namespace RingBuffer

-- The blocks from `readIdx` up to `writerIdx` that lie next to each other.
def contiguous (rb : RingBuffer) (readIdx writerIdx : BitVec 64) : Nat :=
  min (writerIdx.toNat - readIdx.toNat) (rb.data.length - readIdx.toNat % rb.data.length)

-- The `buffer_info` that is due for these blocks.
def Describes (rb : RingBuffer) (info : BufferInfo) (readIdx writerIdx : BitVec 64) : Prop :=
  info.iov = readIdx.toNat % rb.data.length ∧ info.iovCnt.toNat = rb.contiguous readIdx writerIdx

instance (rb : RingBuffer) (info : BufferInfo) (readIdx writerIdx : BitVec 64)
    : Decidable (rb.Describes info readIdx writerIdx) :=
  inferInstanceAs (Decidable (_ ∧ _))

-- There is something to read, and no more than the ring holds.
def Unread (rb : RingBuffer) : Prop :=
  rb.reader.idx < rb.writer.idx ∧ rb.writer.idx.toNat ≤ rb.reader.idx.toNat + rb.data.length

instance (rb : RingBuffer) : Decidable rb.Unread :=
  inferInstanceAs (Decidable (_ ∧ _))

variable {k blockSize : Nat} {rb : RingBuffer}

/-! ### `reader_get_buffer()` and `reader_get_buffer(need_cnt)` -/

-- The index of the writer that the result comes from.
def usedIdx (rb : RingBuffer) (needCnt : BitVec 64) : BitVec 64 :=
  if (rb.readerGetBufferScreenshot needCnt).1 then rb.reader.screenshot else rb.writer.idx

-- There are as many blocks next to each other up to the screenshot.
def Satisfies (rb : RingBuffer) (needCnt : BitVec 64) : Prop :=
  rb.reader.idx < rb.reader.screenshot ∧ needCnt.toNat ≤ rb.contiguous rb.reader.idx rb.reader.screenshot

instance (rb : RingBuffer) (needCnt : BitVec 64) : Decidable (rb.Satisfies needCnt) :=
  inferInstanceAs (Decidable (_ ∧ _))

def ExactRead (rb : RingBuffer) : Op → Prop
  | .readerGet =>
    rb.Unread → rb.readerGetBuffer.1 = true
      ∧ rb.Describes rb.readerGetBuffer.2.reader.bufInfo rb.reader.idx rb.writer.idx
  | .readerGetNeed needCnt =>
    rb.Unread → (rb.readerGetBufferNeed needCnt).1 = true
      ∧ rb.Describes (rb.readerGetBufferNeed needCnt).2.reader.bufInfo rb.reader.idx (rb.usedIdx needCnt)
      ∧ (¬rb.Satisfies needCnt → rb.usedIdx needCnt = rb.writer.idx)
  | _ => True

-- The count that is left in `reader_.buf_info_` is the one that is due.
def CountDue (rb : RingBuffer) : Op → Prop
  | .readerGet => rb.Unread → rb.reader.bufInfo.iovCnt.toNat = rb.contiguous rb.reader.idx rb.writer.idx
  | .readerGetNeed needCnt =>
    rb.Unread → rb.reader.bufInfo.iovCnt.toNat
        =
      if rb.reader.idx < rb.reader.screenshot ∧ needCnt.toNat ≤ rb.reader.bufInfo.iovCnt.toNat then
        rb.contiguous rb.reader.idx rb.reader.screenshot
      else
        rb.contiguous rb.reader.idx rb.writer.idx
  | _ => True

instance (rb : RingBuffer) (op : Op) : Decidable (rb.ExactRead op) :=
  match op with
  | .readerGet => inferInstanceAs (Decidable (rb.Unread → _))
  | .readerGetNeed _ => inferInstanceAs (Decidable (rb.Unread → _))
  | .writerGet | .writerGetNeed _ | .writerCommit _ | .readerGetAt .. | .readerGetAtNeed .. | .readerGetAtShot ..
  | .readerCommit _ | .readerGetUnreadCnt | .readerResetOut | .reset => .isTrue trivial

instance (rb : RingBuffer) (op : Op) : Decidable (rb.CountDue op) :=
  match op with
  | .readerGet => inferInstanceAs (Decidable (rb.Unread → _))
  | .readerGetNeed _ => inferInstanceAs (Decidable (rb.Unread → _))
  | .writerGet | .writerGetNeed _ | .writerCommit _ | .readerGetAt .. | .readerGetAtNeed .. | .readerGetAtShot ..
  | .readerCommit _ | .readerGetUnreadCnt | .readerResetOut | .reset => .isTrue trivial

theorem Shape.readerGetInternal (h : Shape k blockSize rb) {writeIdx : BitVec 64} (hlt : rb.reader.idx < writeIdx)
    : rb.internalReaderGetBuffer writeIdx rb.reader.idx
        =
      (true, { rb with reader.bufInfo.iov := rb.reader.idx.toNat % rb.data.length }) := by
  unfold RingBuffer.internalReaderGetBuffer
  rw [if_pos hlt, h.slot_toNat, h.length, decide_eq_true (h.iovCnt_pos_idx _ _)]

theorem Shape.readerGetBuffer (h : Shape k blockSize rb) (hlt : rb.reader.idx < rb.writer.idx)
    : rb.readerGetBuffer = (true, { rb with reader.bufInfo.iov := rb.reader.idx.toNat % rb.data.length }) :=
  h.readerGetInternal hlt

-- The screenshot is used if the count that is left is enough.
theorem Shape.readerGetBufferScreenshot_fst (h : Shape k blockSize rb) (needCnt : BitVec 64)
    : (rb.readerGetBufferScreenshot needCnt).1 = true
        ↔
      rb.reader.idx < rb.reader.screenshot ∧ needCnt.toNat ≤ rb.reader.bufInfo.iovCnt.toNat := by
  have hwidth : (rb.reader.bufInfo.iovCnt.setWidth 64).toNat = rb.reader.bufInfo.iovCnt.toNat := by
    have := rb.reader.bufInfo.iovCnt.isLt
    rw [BitVec.toNat_setWidth]
    omega
  unfold RingBuffer.readerGetBufferScreenshot
  by_cases hlt : rb.reader.idx < rb.reader.screenshot
  . rw [h.readerGetInternal hlt]
    simp only [Bool.true_and, decide_eq_true_eq, BitVec.le_def, hwidth, hlt, true_and]
  . simp [RingBuffer.internalReaderGetBuffer, hlt]

theorem Shape.usedIdx_eq (h : Shape k blockSize rb) (needCnt : BitVec 64)
    : rb.usedIdx needCnt
        =
      if rb.reader.idx < rb.reader.screenshot ∧ needCnt.toNat ≤ rb.reader.bufInfo.iovCnt.toNat then
        rb.reader.screenshot
      else
        rb.writer.idx := by
  unfold RingBuffer.usedIdx
  simp only [h.readerGetBufferScreenshot_fst]

-- What is handed out is the block of the reader, with the count of an earlier call.
theorem Shape.readerGetBufferNeed (h : Shape k blockSize rb) (hlt : rb.reader.idx < rb.writer.idx)
    (needCnt : BitVec 64)
    : (rb.readerGetBufferNeed needCnt).1 = true
        ∧ (rb.readerGetBufferNeed needCnt).2.reader.bufInfo
          = ⟨rb.reader.idx.toNat % rb.data.length, rb.reader.bufInfo.iovCnt⟩ := by
  rw [readerGetBufferNeed_eq]
  split
  . next hfound =>
    refine ⟨hfound, ?_⟩
    have hsecond : (rb.readerGetBufferScreenshot needCnt).2
        = (rb.internalReaderGetBuffer rb.reader.screenshot rb.reader.idx).2 := rfl
    rw [hsecond, h.readerGetInternal ((h.readerGetBufferScreenshot_fst needCnt).mp hfound).1]
  . have hfirst : Gets rb (rb.readerGetBufferScreenshot needCnt).2 := internalReaderGetBuffer_gets rb _ _
    have hcnt : (rb.readerGetBufferScreenshot needCnt).2.reader.bufInfo.iovCnt = rb.reader.bufInfo.iovCnt := by
      change (rb.internalReaderGetBuffer _ _).2.reader.bufInfo.iovCnt = _
      unfold RingBuffer.internalReaderGetBuffer
      split <;> rfl
    have hshape : Shape k blockSize (rb.readerGetBufferScreenshot needCnt).2.readerTakeScreenshot :=
      (h.gets hfirst).congr rfl rfl
    generalize (rb.readerGetBufferScreenshot needCnt).2 = rb₁ at hfirst hcnt hshape ⊢
    have hlt₁ : rb₁.readerTakeScreenshot.reader.idx < rb₁.readerTakeScreenshot.writer.idx := by
      change rb₁.reader.idx < rb₁.writer.idx
      rw [hfirst.readerIdx, hfirst.writerIdx]
      exact hlt
    rw [hshape.readerGetBuffer hlt₁]
    refine ⟨rfl, ?_⟩
    change BufferInfo.mk (rb₁.reader.idx.toNat % rb₁.data.length) rb₁.reader.bufInfo.iovCnt = _
    rw [hfirst.readerIdx, hfirst.data, hcnt]

theorem Shape.exactRead_iff (h : Shape k blockSize rb) (op : Op)
    : rb.ExactRead op ↔ rb.CountDue op := by
  cases op with
  | readerGet =>
    apply imp_congr_right
    intro hunread
    rw [h.readerGetBuffer hunread.1]
    simp [Describes]
  | readerGetNeed needCnt =>
    apply imp_congr_right
    intro hunread
    obtain ⟨hfound, hinfo⟩ := h.readerGetBufferNeed hunread.1 needCnt
    rw [hfound, hinfo, h.usedIdx_eq]
    simp only [Describes, Satisfies, true_and]
    split
    . next hused =>
      refine ⟨fun hexact => hexact.1, fun hcnt => ⟨hcnt, fun hnot => absurd ⟨hused.1, ?_⟩ hnot⟩⟩
      rw [← hcnt]
      exact hused.2
    . simp
  | _ => exact Iff.rfl

theorem exactRead_iff_countDue {blockCnt bufferSize : BitVec 32} {isZeroMem : Bool} {alignSize : BitVec 64}
    {alloc : Nat → Option (Nat → UInt8)} {ring : RingBuffer}
    (hinit : ({} : RingBuffer).init blockCnt bufferSize isZeroMem alignSize alloc = (0, ring))
    (hpow : Util.isPowerOf2 blockCnt.toNat = true) (ops : List Op)
    : Along step ExactRead ring ops ↔ Along step CountDue ring ops := by
  obtain ⟨k, _, hshape, _, _⟩ := init_shape hpow hinit
  have hall : Along step (fun _ _ => True) ring ops := Along.of_mem fun _ _ => trivial
  exact hall.iff_of_invariant (fun _ op h _ => Shape.exactRead_iff h op) (fun _ op h _ _ => Shape.step h op) hshape

-- The positional read leaves the count behind that is due for the next read.
def positionedRead : List Op :=
  [.writerCommit 2, .readerGetAt (.own {}) 0, .readerGet, .readerCommit 1, .readerGetAt (.own {}) 1,
    .readerGetNeed 1]

theorem positionedRead_exact
    : Along step ExactRead (ofBlocks 4).2 positionedRead :=
  (exactRead_iff_countDue (ofBlocks_eq 4 (by decide +kernel)) (by decide) positionedRead).mpr (by decide +kernel)

-- One block is unread, and none is granted.
theorem freshRead_not_exact
    : ¬Along step ExactRead (ofBlocks 4).2 [.writerCommit 1, .readerGet]
        ∧ ((ofBlocks 4).2.run [.writerCommit 1, .readerGet]).reader.bufInfo = ⟨0, 0⟩ := by
  decide +kernel

/-! ### The overloads with a position -/

-- The position has something to read before the index of the writer.
def Readable (rb : RingBuffer) (readIdx writerIdx : BitVec 64) : Prop :=
  rb.reader.idx ≤ readIdx ∧ readIdx < writerIdx

instance (rb : RingBuffer) (readIdx writerIdx : BitVec 64) : Decidable (rb.Readable readIdx writerIdx) :=
  inferInstanceAs (Decidable (_ ∧ _))

-- The index of the writer that was used last.
def usedIdxAt (rb : RingBuffer) (ptr : InfoPtr) (readIdx shot needCnt : BitVec 64) : BitVec 64 :=
  if (rb.readerGetBufferAtScreenshot ptr readIdx shot needCnt).1 then shot else rb.writer.idx

-- The call succeeds when it should, and the structure of the caller is filled in then.
def FilledBy (rb : RingBuffer) (ptr : InfoPtr) (readIdx writerIdx : BitVec 64) (result : Int × RingBuffer) : Prop :=
  (result.1 = 0 ↔ rb.Readable readIdx writerIdx)
    ∧ (result.1 = 0 → rb.Describes (ptr.read result.2) readIdx writerIdx)

def FilledRead (rb : RingBuffer) : Op → Prop
  | .readerGetAt ptr readIdx =>
    rb.FilledBy ptr readIdx rb.writer.idx (rb.readerGetBufferAt ptr readIdx)
  | .readerGetAtNeed ptr readIdx needCnt =>
    rb.FilledBy ptr readIdx (rb.usedIdxAt ptr readIdx rb.reader.screenshot needCnt)
      (rb.readerGetBufferAtNeed ptr readIdx needCnt)
  | .readerGetAtShot ptr readIdx shot needCnt =>
    shot ≤ rb.writer.idx →
      let (ret, _, rb') := rb.readerGetBufferAtShot ptr readIdx shot needCnt
      rb.FilledBy ptr readIdx (rb.usedIdxAt ptr readIdx shot needCnt) (ret, rb')
  | _ => True

-- The structure of the caller holds already what it is to be filled with. One that is `reader_.buf_info_` is filled,
-- the count is right unless the position is further behind than the ring is long.
def KnownInfo (rb : RingBuffer) (ptr : InfoPtr) (readIdx writerIdx : BitVec 64) : Prop :=
  match ptr with
  | .own info => rb.Describes info readIdx writerIdx
  | .member =>
    writerIdx.toNat - readIdx.toNat ≤ rb.data.length
      ∨ writerIdx.toNat % rb.data.length ≤ readIdx.toNat % rb.data.length

-- The count that the first part of a call compares with `need_cnt`.
def knownCnt (rb : RingBuffer) (ptr : InfoPtr) (readIdx shot : BitVec 64) : Nat :=
  match ptr with
  | .own info => info.iovCnt.toNat
  | .member => (rb.iovCnt readIdx shot).toNat

def KnownFrom (rb : RingBuffer) (ptr : InfoPtr) (readIdx shot needCnt : BitVec 64) : Prop :=
  if rb.Readable readIdx shot ∧ needCnt.toNat ≤ rb.knownCnt ptr readIdx shot then
    rb.KnownInfo ptr readIdx shot
  else
    rb.Readable readIdx rb.writer.idx → rb.KnownInfo ptr readIdx rb.writer.idx

def KnownRead (rb : RingBuffer) : Op → Prop
  | .readerGetAt ptr readIdx => rb.Readable readIdx rb.writer.idx → rb.KnownInfo ptr readIdx rb.writer.idx
  | .readerGetAtNeed ptr readIdx needCnt => rb.KnownFrom ptr readIdx rb.reader.screenshot needCnt
  | .readerGetAtShot ptr readIdx shot needCnt => shot ≤ rb.writer.idx → rb.KnownFrom ptr readIdx shot needCnt
  | _ => True

-- The `buffer_info` that a successful call leaves in `reader_.buf_info_`.
def infoAt (rb : RingBuffer) (readIdx writerIdx : BitVec 64) : BufferInfo :=
  ⟨(readIdx &&& rb.mask).toNat, rb.iovCnt readIdx writerIdx⟩

theorem Shape.internalAt (h : Shape k blockSize rb) (ptr : InfoPtr) (readIdx writerIdx : BitVec 64)
    : rb.internalReaderGetBufferAt ptr readIdx writerIdx
        =
      if rb.Readable readIdx writerIdx then
        (0, { rb with reader.bufInfo := rb.infoAt readIdx writerIdx })
      else
        (-1, rb) := by
  unfold RingBuffer.internalReaderGetBufferAt
  dsimp only
  rw [if_pos (h.iovCnt_pos_idx _ _)]
  rfl

-- Whether the structure is filled in depends on where it is.
theorem Shape.describes_read (h : Shape k blockSize rb) (ptr : InfoPtr) {readIdx writerIdx : BitVec 64}
    (hlt : readIdx < writerIdx) {rb' : RingBuffer} (hinfo : rb'.reader.bufInfo = rb.infoAt readIdx writerIdx)
    : rb.Describes (ptr.read rb') readIdx writerIdx ↔ rb.KnownInfo ptr readIdx writerIdx := by
  cases ptr with
  | own info => exact Iff.rfl
  | member =>
    simp only [Describes, KnownInfo, InfoPtr.read, hinfo, infoAt, contiguous, h.slot_toNat, h.iovCnt_toNat, h.length,
      true_and]
    exact Ring.stretch_eq_min_iff (Nat.two_pow_pos k) hlt

theorem Shape.filledBy_iff (h : Shape k blockSize rb) (ptr : InfoPtr) (readIdx writerIdx : BitVec 64)
    {rb₁ : RingBuffer} (hshape : Shape k blockSize rb₁) (hmask : rb₁.mask = rb.mask) (hdata : rb₁.data = rb.data)
    (hidx : rb₁.reader.idx = rb.reader.idx)
    : rb.FilledBy ptr readIdx writerIdx (rb₁.internalReaderGetBufferAt ptr readIdx writerIdx)
        ↔
      (rb.Readable readIdx writerIdx → rb.KnownInfo ptr readIdx writerIdx) := by
  have hreadable : rb₁.Readable readIdx writerIdx ↔ rb.Readable readIdx writerIdx := by
    unfold Readable
    rw [hidx]
  have hinfo : rb₁.infoAt readIdx writerIdx = rb.infoAt readIdx writerIdx := by
    unfold infoAt iovCnt getBlockCnt
    rw [hmask, hdata]
  rw [hshape.internalAt]
  by_cases hr : rb.Readable readIdx writerIdx
  . rw [if_pos (hreadable.mpr hr)]
    simp only [FilledBy, hr, forall_const, true_and]
    exact h.describes_read ptr hr.2 hinfo
  . rw [if_neg (mt hreadable.mp hr)]
    simp [FilledBy, hr]

-- The first part of a call succeeds with what is known of the structure by then.
theorem Shape.readerGetBufferAtScreenshot_fst (h : Shape k blockSize rb) (ptr : InfoPtr)
    (readIdx shot needCnt : BitVec 64)
    : (rb.readerGetBufferAtScreenshot ptr readIdx shot needCnt).1 = true
        ↔
      rb.Readable readIdx shot ∧ needCnt.toNat ≤ rb.knownCnt ptr readIdx shot := by
  have hwidth : ∀ cnt : BitVec 32, (cnt.setWidth 64).toNat = cnt.toNat := by
    intro cnt
    have := cnt.isLt
    rw [BitVec.toNat_setWidth]
    omega
  unfold RingBuffer.readerGetBufferAtScreenshot
  rw [h.internalAt]
  by_cases hr : rb.Readable readIdx shot
  . rw [if_pos hr]
    simp only [decide_true, Bool.true_and, decide_eq_true_eq, BitVec.le_def, hwidth, hr, true_and]
    cases ptr <;> exact Iff.rfl
  . simp [hr]

-- A call with a screenshot, whichever the screenshot is.
theorem Shape.filledBy_screenshot_iff (h : Shape k blockSize rb) (ptr : InfoPtr) (readIdx shot needCnt : BitVec 64)
    {result : Int × RingBuffer} {rb₁ : RingBuffer}
    (hgets : Gets (rb.readerGetBufferAtScreenshot ptr readIdx shot needCnt).2 rb₁)
    (hresult : result = if (rb.readerGetBufferAtScreenshot ptr readIdx shot needCnt).1 then
        (0, (rb.readerGetBufferAtScreenshot ptr readIdx shot needCnt).2)
      else
        rb₁.readerGetBufferAt ptr readIdx)
    : rb.FilledBy ptr readIdx (rb.usedIdxAt ptr readIdx shot needCnt) result
        ↔
      rb.KnownFrom ptr readIdx shot needCnt := by
  have hgets' := (readerGetBufferAtScreenshot_gets rb ptr readIdx shot needCnt).trans hgets
  have hfst := h.readerGetBufferAtScreenshot_fst ptr readIdx shot needCnt
  rw [hresult]
  unfold usedIdxAt KnownFrom
  by_cases hfound : (rb.readerGetBufferAtScreenshot ptr readIdx shot needCnt).1 = true
  . have hreadable := hfst.mp hfound
    have hsecond : (rb.readerGetBufferAtScreenshot ptr readIdx shot needCnt).2
        = { rb with reader.bufInfo := rb.infoAt readIdx shot } := by
      change (rb.internalReaderGetBufferAt ptr readIdx shot).2 = _
      rw [h.internalAt, if_pos hreadable.1]
    rw [if_pos hfound, if_pos hfound, if_pos hreadable, hsecond]
    simp only [FilledBy, hreadable.1, forall_const, true_and]
    exact h.describes_read ptr hreadable.1.2 rfl
  . rw [if_neg hfound, if_neg hfound, if_neg (mt hfst.mpr hfound)]
    have hiff := h.filledBy_iff ptr readIdx rb.writer.idx (h.gets hgets') hgets'.mask hgets'.data hgets'.readerIdx
    rw [← hgets'.writerIdx] at hiff ⊢
    exact hiff

theorem Shape.filledRead_iff (h : Shape k blockSize rb) (op : Op)
    : rb.FilledRead op ↔ rb.KnownRead op := by
  cases op with
  | readerGetAt ptr readIdx => exact h.filledBy_iff ptr readIdx rb.writer.idx h rfl rfl rfl
  | readerGetAtNeed ptr readIdx needCnt =>
    apply h.filledBy_screenshot_iff ptr readIdx rb.reader.screenshot needCnt (readerTakeScreenshot_gets _)
    exact readerGetBufferAtNeed_eq rb ptr readIdx needCnt
  | readerGetAtShot ptr readIdx shot needCnt =>
    apply imp_congr_right
    intro _
    have hresult : ((rb.readerGetBufferAtShot ptr readIdx shot needCnt).1,
          (rb.readerGetBufferAtShot ptr readIdx shot needCnt).2.2)
        = if (rb.readerGetBufferAtScreenshot ptr readIdx shot needCnt).1 then
            (0, (rb.readerGetBufferAtScreenshot ptr readIdx shot needCnt).2)
          else
            (rb.readerGetBufferAtScreenshot ptr readIdx shot needCnt).2.readerGetBufferAt ptr readIdx := by
      rw [readerGetBufferAtShot_eq]
      dsimp only
      split <;> rfl
    exact h.filledBy_screenshot_iff ptr readIdx shot needCnt (Gets.refl _) hresult
  | _ => exact Iff.rfl

theorem filledRead_iff_knownRead {blockCnt bufferSize : BitVec 32} {isZeroMem : Bool} {alignSize : BitVec 64}
    {alloc : Nat → Option (Nat → UInt8)} {ring : RingBuffer}
    (hinit : ({} : RingBuffer).init blockCnt bufferSize isZeroMem alignSize alloc = (0, ring))
    (hpow : Util.isPowerOf2 blockCnt.toNat = true) (ops : List Op)
    : Along step FilledRead ring ops ↔ Along step KnownRead ring ops := by
  obtain ⟨k, _, hshape, _, _⟩ := init_shape hpow hinit
  have hall : Along step (fun _ _ => True) ring ops := Along.of_mem fun _ _ => trivial
  exact hall.iff_of_invariant (fun _ op h _ => Shape.filledRead_iff h op) (fun _ op h _ _ => Shape.step h op) hshape

-- While both threads keep to `Allowed`, `reader_.buf_info_` itself is filled in right.
theorem Ordered.knownInfo_member (h : Ordered rb) {readIdx writerIdx : BitVec 64} (hle : writerIdx ≤ rb.writer.idx)
    (hread : rb.Readable readIdx writerIdx)
    : rb.KnownInfo .member readIdx writerIdx := by
  have hfits := h.fits
  have hge := BitVec.le_def.mp hread.1
  rw [BitVec.le_def] at hle
  left
  omega

instance (rb : RingBuffer) (ptr : InfoPtr) (readIdx writerIdx : BitVec 64)
    : Decidable (rb.KnownInfo ptr readIdx writerIdx) :=
  match ptr with
  | .own info => inferInstanceAs (Decidable (rb.Describes info readIdx writerIdx))
  | .member => inferInstanceAs (Decidable (_ ∨ _))

-- The structure of the caller holds the block and the count before the call, or is the one of the ring.
def knownReads : List Op :=
  [.writerCommit 3, .readerGetAt (.own ⟨1, 2⟩) 1, .readerGetAt .member 0, .readerGetAtNeed .member 2 1]

theorem knownReads_filled
    : Along step FilledRead (ofBlocks 4).2 knownReads := by
  apply (filledRead_iff_knownRead (ofBlocks_eq 4 (by decide +kernel)) (by decide) knownReads).mpr
  refine ⟨trivial, ?_, ?_, ?_, trivial⟩
  . exact fun _ => by decide +kernel
  . exact fun _ => by decide +kernel
  . exact by
      unfold KnownRead KnownFrom
      decide +kernel

-- The call succeeds and the structure is as it was.
theorem ownRead_not_filled
    : ¬Along step FilledRead (ofBlocks 4).2 [.writerCommit 3, .readerGetAt (.own {}) 1]
        ∧ (((ofBlocks 4).2.writerCommit 3).readerGetBufferAt (.own {}) 1).1 = 0 := by
  have hread : (((ofBlocks 4).2.writerCommit 3).readerGetBufferAt (.own {}) 1).1 = 0 := by decide +kernel
  refine ⟨?_, hread⟩
  rintro ⟨_, hfilled, _⟩
  exact absurd (hfilled.2 hread) (by decide +kernel)

end RingBuffer
end DataStruct
end Ezio
