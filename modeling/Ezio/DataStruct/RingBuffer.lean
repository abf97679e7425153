import Ezio.Util

/-!
This module contains `ring_buffer`, the queue of fixed size blocks between one writing and one reading
thread.
-/

namespace Ezio
namespace DataStruct

-- `buffer_info`, the pointer `iov_` is the index in `data_` of the block that it points at.
structure BufferInfo where
  iov : Nat := 0
  iovCnt : BitVec 32 := 0
  deriving DecidableEq, Repr

-- `reader_info` and `writer_info`: the own index and the screenshot of the index of the other side.
structure Side where
  idx : BitVec 64 := 0
  screenshot : BitVec 64 := 0
  bufInfo : BufferInfo := {}
  deriving DecidableEq, Repr

-- An entry of `data_`: the memory at `iov_base` and `iov_len`.
structure Block where
  mem : List UInt8
  len : Nat
  deriving DecidableEq, Repr

structure RingBuffer where
  writer : Side := {}
  reader : Side := {}
  data : List Block := []
  mask : BitVec 64 := 0
  deriving DecidableEq, Repr

-- The `buffer_info*` that the caller of a positional read passes. It points at a structure of the caller, or it is
-- what `reader_get_buffer` has returned and points at `reader_.buf_info_`.
inductive InfoPtr where
  | own (info : BufferInfo)
  | member
  deriving DecidableEq, Repr

-- The structure that the pointer points at.
def InfoPtr.read (ptr : InfoPtr) (rb : RingBuffer) : BufferInfo :=
  match ptr with
  | .own info => info
  | .member => rb.reader.bufInfo

namespace RingBuffer

def getBlockCnt (rb : RingBuffer) : BitVec 32 :=
  BitVec.ofNat 32 rb.data.length

def getBlockSize (rb : RingBuffer) : Nat :=
  match rb.data with
  | [] => 0
  | block :: _ => block.len % 2 ^ 32

-- The blocks of `init`. The allocator answers the i-th request with the memory it hands out, or it
-- fails.
def allocBlocks (bufferSize : Nat) (isZeroMem : Bool) (alloc : Nat → Option (Nat → UInt8))
    : (cnt i : Nat) → Option (List Block)
  | 0, _ => some []
  | cnt + 1, i =>
    match alloc i, allocBlocks bufferSize isZeroMem alloc cnt (i + 1) with
    | some mem, some blocks =>
      let mem := if isZeroMem then fun _ => 0 else mem
      some (⟨(List.range bufferSize).map mem, bufferSize⟩ :: blocks)
    | _, _ => none

def init (rb : RingBuffer) (blockCnt bufferSize : BitVec 32) (isZeroMem : Bool)
    (alignSize : BitVec 64) (alloc : Nat → Option (Nat → UInt8)) : Int × RingBuffer :=
  let realAlignSize :=
    if Util.isPowerOf2 alignSize.toNat then
      BitVec.ofNat 32 alignSize.toNat
    else
      BitVec.ofNat 32 (Util.roundupPowerOfTwo alignSize.toNat)
  let realBlockCnt :=
    if Util.isPowerOf2 blockCnt.toNat then
      blockCnt
    else
      BitVec.ofNat 32 (Util.roundupPowerOfTwo blockCnt.toNat)
  if realBlockCnt = 0 ∨ realAlignSize = 0 then
    (-1, rb)
  else
    match allocBlocks bufferSize.toNat isZeroMem alloc blockCnt.toNat 0 with
    | none => (-1, { rb with data := [] })
    | some blocks =>
      (0, { rb with
        data := rb.data ++ blocks
        mask := (realBlockCnt - 1).setWidth 64 })

-- The blocks from the one of `start` up to the one of `stop` or to the end of `data_`, the same
-- computation for both sides.
def iovCnt (rb : RingBuffer) (start stop : BitVec 64) : BitVec 32 :=
  let idxStart := start &&& rb.mask
  let idxStop := stop &&& rb.mask
  if idxStart < idxStop then
    (idxStop - idxStart).setWidth 32
  else
    (rb.getBlockCnt.setWidth 64 - idxStart).setWidth 32

-- A null pointer is returned as false, else the result is `&writer_.buf_info_`.
def internalWriterGetBuffer (rb : RingBuffer) (readIdx : BitVec 64) : Bool × RingBuffer :=
  let writeIdx := rb.writer.idx
  if writeIdx - readIdx < rb.getBlockCnt.setWidth 64 then
    let iov := (writeIdx &&& rb.mask).toNat
    let iovCnt := rb.iovCnt writeIdx readIdx
    if 0 < iovCnt then
      (true, { rb with writer.bufInfo := ⟨iov, iovCnt⟩ })
    else
      (false, { rb with writer.bufInfo.iov := iov })
  else
    (false, rb)

-- The first part of `writer_get_buffer(need_cnt)`, which works from the screenshot.
def writerGetBufferScreenshot (rb : RingBuffer) (needCnt : BitVec 64) : Bool × RingBuffer :=
  let (found, rb) := rb.internalWriterGetBuffer rb.writer.screenshot
  (found && needCnt ≤ rb.writer.bufInfo.iovCnt.setWidth 64, rb)

def writerTakeScreenshot (rb : RingBuffer) : RingBuffer :=
  { rb with writer.screenshot := rb.reader.idx }

def writerGetBuffer (rb : RingBuffer) (needCnt : BitVec 64) : Bool × RingBuffer :=
  match rb.writerGetBufferScreenshot needCnt with
  | (true, rb) => (true, rb)
  | (false, rb) =>
    let rb := rb.writerTakeScreenshot
    rb.internalWriterGetBuffer rb.writer.screenshot

-- `writer_get_buffer()`
def writerGetBufferAll (rb : RingBuffer) : Bool × RingBuffer :=
  rb.internalWriterGetBuffer rb.reader.idx

def writerCommit (rb : RingBuffer) (doneCnt : BitVec 64) : RingBuffer :=
  { rb with writer.idx := rb.writer.idx + doneCnt }

def writeByte (rb : RingBuffer) (i : Nat) (b : UInt8) : RingBuffer :=
  { rb with data :=
      rb.data.modify rb.writer.bufInfo.iov (fun block => { block with mem := block.mem.set i b }) }

-- The `memcpy` of `put`, from byte `i` on.
def memcpy (rb : RingBuffer) (i : Nat) : List UInt8 → RingBuffer
  | [] => rb
  | b :: bs => (rb.writeByte i b).memcpy (i + 1) bs

-- A value of type T is the `sizeof(T)` bytes that represent it.
def put (rb : RingBuffer) (data : List UInt8) : Int × RingBuffer :=
  if rb.getBlockSize < data.length then
    (-1, rb)
  else
    match rb.writerGetBuffer 1 with
    | (false, rb) => (-2, rb)
    | (true, rb) => (0, (rb.memcpy 0 data).writerCommit 1)

-- `internal_reader_get_buffer(write_idx, read_idx)` leaves `iov_cnt_` as it is.
def internalReaderGetBuffer (rb : RingBuffer) (writeIdx readIdx : BitVec 64) : Bool × RingBuffer :=
  if readIdx < writeIdx then
    (0 < rb.iovCnt readIdx writeIdx,
      { rb with reader.bufInfo.iov := (readIdx &&& rb.mask).toNat })
  else
    (false, rb)

def readerGetBuffer (rb : RingBuffer) : Bool × RingBuffer :=
  rb.internalReaderGetBuffer rb.writer.idx rb.reader.idx

-- The first part of `reader_get_buffer(need_cnt)`, which works from the screenshot.
def readerGetBufferScreenshot (rb : RingBuffer) (needCnt : BitVec 64) : Bool × RingBuffer :=
  let (found, rb) := rb.internalReaderGetBuffer rb.reader.screenshot rb.reader.idx
  (found && needCnt ≤ rb.reader.bufInfo.iovCnt.setWidth 64, rb)

def readerTakeScreenshot (rb : RingBuffer) : RingBuffer :=
  { rb with reader.screenshot := rb.writer.idx }

-- `reader_get_buffer(need_cnt)`
def readerGetBufferNeed (rb : RingBuffer) (needCnt : BitVec 64) : Bool × RingBuffer :=
  match rb.readerGetBufferScreenshot needCnt with
  | (true, rb) => (true, rb)
  | (false, rb) =>
    let rb := rb.readerTakeScreenshot
    rb.internalReaderGetBuffer rb.reader.screenshot rb.reader.idx

-- `internal_reader_get_buffer(buf_info, read_idx, writer_idx)` assigns to its copy of the pointer, it writes to
-- nothing but `reader_.buf_info_`.
def internalReaderGetBufferAt (rb : RingBuffer) (_bufInfo : InfoPtr) (readIdx writerIdx : BitVec 64)
    : Int × RingBuffer :=
  if rb.reader.idx ≤ readIdx ∧ readIdx < writerIdx then
    let iovCnt := rb.iovCnt readIdx writerIdx
    if 0 < iovCnt then
      (0, { rb with reader.bufInfo := ⟨(readIdx &&& rb.mask).toNat, iovCnt⟩ })
    else
      (-1, rb)
  else
    (-1, rb)

-- `reader_get_buffer(buf_info_ptr, read_idx)`
def readerGetBufferAt (rb : RingBuffer) (bufInfoPtr : InfoPtr) (readIdx : BitVec 64) : Int × RingBuffer :=
  rb.internalReaderGetBufferAt bufInfoPtr readIdx rb.writer.idx

-- The first part of the overloads below, which works from a screenshot.
def readerGetBufferAtScreenshot (rb : RingBuffer) (bufInfoPtr : InfoPtr) (readIdx screenshot needCnt : BitVec 64)
    : Bool × RingBuffer :=
  let (ret, rb) := rb.internalReaderGetBufferAt bufInfoPtr readIdx screenshot
  (ret = 0 && needCnt ≤ (bufInfoPtr.read rb).iovCnt.setWidth 64, rb)

-- `reader_get_buffer(buf_info_ptr, read_idx, need_cnt)`
def readerGetBufferAtNeed (rb : RingBuffer) (bufInfoPtr : InfoPtr) (readIdx needCnt : BitVec 64) : Int × RingBuffer :=
  match rb.readerGetBufferAtScreenshot bufInfoPtr readIdx rb.reader.screenshot needCnt with
  | (true, rb) => (0, rb)
  | (false, rb) =>
    let rb := rb.readerTakeScreenshot
    rb.internalReaderGetBufferAt bufInfoPtr readIdx rb.reader.screenshot

-- `reader_get_buffer(buf_info_ptr, read_idx, writer_idx_screenshot, need_cnt)`, the screenshot is a variable of the
-- caller and comes back with the result.
def readerGetBufferAtShot (rb : RingBuffer) (bufInfoPtr : InfoPtr) (readIdx writerIdxScreenshot needCnt : BitVec 64)
    : Int × BitVec 64 × RingBuffer :=
  match rb.readerGetBufferAtScreenshot bufInfoPtr readIdx writerIdxScreenshot needCnt with
  | (true, rb) => (0, writerIdxScreenshot, rb)
  | (false, rb) =>
    let writerIdxScreenshot := rb.writer.idx
    let (ret, rb) := rb.internalReaderGetBufferAt bufInfoPtr readIdx writerIdxScreenshot
    (ret, writerIdxScreenshot, rb)

def readByte (rb : RingBuffer) (i : Nat) : UInt8 :=
  match rb.data[rb.reader.bufInfo.iov]? with
  | none => 0
  | some block => block.mem.getD i 0

def readerCommit (rb : RingBuffer) (doneCnt : BitVec 64) : RingBuffer :=
  { rb with reader.idx := rb.reader.idx + doneCnt }

def readerGetUnreadCnt (rb : RingBuffer) : BitVec 64 × RingBuffer :=
  (rb.writer.idx - rb.reader.idx, { rb with reader.screenshot := rb.writer.idx })

def readerResetOut (rb : RingBuffer) : RingBuffer :=
  { rb with reader.idx := rb.writer.idx, reader.screenshot := rb.writer.idx }

def reset (rb : RingBuffer) : RingBuffer :=
  { rb with writer.idx := 0, writer.screenshot := 0, reader.idx := 0, reader.screenshot := 0 }

end RingBuffer

end DataStruct
end Ezio
