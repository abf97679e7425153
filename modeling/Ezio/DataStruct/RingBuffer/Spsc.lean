import Ezio.DataStruct.RingBuffer

/-!
This module contains the two threads of a `ring_buffer`. Every load and store of an index of the other
side and every byte of the blocks is a step of its own, what a thread does between them is part of the
step before.
-/

namespace Ezio
namespace DataStruct

-- Where the writing thread stands in `put(v)`.
inductive WriterPc where
  | idle
  -- the screenshot shows no room, `reader_.idx_` is loaded next
  | refresh (v : List UInt8)
  -- the new screenshot is taken, `unread` values were unread at that time
  | retry (v : List UInt8) (unread : Nat)
  -- the first `i` bytes are copied
  | copy (v : List UInt8) (i : Nat)
  deriving DecidableEq, Repr

-- Where the reading thread stands in its loop.
inductive ReaderPc where
  | idle
  -- `writer_.idx_` is loaded
  | loaded (writeIdx : BitVec 64)
  -- `iov_[0]` is read byte by byte
  | read (bytes : List UInt8)
  | commit
  deriving DecidableEq, Repr

structure Spsc where
  ring : RingBuffer
  writer : WriterPc := .idle
  reader : ReaderPc := .idle
  -- the values of the calls of `put` that returned 0
  puts : List (List UInt8) := []
  reads : List (List UInt8) := []
  -- the calls of `reader_commit(1)`
  taken : Nat := 0
  -- for every `put` that returned -2 the count of the values unread when it loaded the reader index
  refused : List Nat := []
  deriving DecidableEq, Repr

-- The thread that takes the next step. A writer that is idle calls `put` on the value.
inductive Turn (size : Nat) where
  | writer (v : Vector UInt8 size)
  | reader

namespace Spsc

def unread (s : Spsc) : Nat :=
  s.puts.length - s.taken

def writerStep (s : Spsc) (next : List UInt8) : Spsc :=
  match s.writer with
  | .idle =>
    if s.ring.getBlockSize < next.length then
      s
    else
      match s.ring.writerGetBufferScreenshot 1 with
      | (true, ring) => { s with ring, writer := .copy next 0 }
      | (false, ring) => { s with ring, writer := .refresh next }
  | .refresh v => { s with ring := s.ring.writerTakeScreenshot, writer := .retry v s.unread }
  | .retry v unread =>
    match s.ring.internalWriterGetBuffer s.ring.writer.screenshot with
    | (true, ring) => { s with ring, writer := .copy v 0 }
    | (false, ring) => { s with ring, writer := .idle, refused := s.refused ++ [unread] }
  | .copy v i =>
    if h : i < v.length then
      { s with ring := s.ring.writeByte i v[i], writer := .copy v (i + 1) }
    else
      { s with ring := s.ring.writerCommit 1, writer := .idle, puts := s.puts ++ [v] }

def readerStep (s : Spsc) (size : Nat) : Spsc :=
  match s.reader with
  | .idle => { s with reader := .loaded s.ring.writer.idx }
  | .loaded writeIdx =>
    match s.ring.internalReaderGetBuffer writeIdx s.ring.reader.idx with
    | (true, ring) => { s with ring, reader := .read [] }
    | (false, ring) => { s with ring, reader := .idle }
  | .read bytes =>
    if bytes.length < size then
      { s with reader := .read (bytes ++ [s.ring.readByte bytes.length]) }
    else
      { s with reader := .commit, reads := s.reads ++ [bytes] }
  | .commit =>
    { s with ring := s.ring.readerCommit 1, reader := .idle, taken := s.taken + 1 }

def step {size : Nat} (s : Spsc) : Turn size → Spsc
  | .writer v => s.writerStep v.toList
  | .reader => s.readerStep size

def run {size : Nat} (s : Spsc) (turns : List (Turn size)) : Spsc :=
  turns.foldl step s

-- The block that the writing thread is writing to.
def writing (s : Spsc) : Option Nat :=
  match s.writer with
  | .copy _ _ => some s.ring.writer.bufInfo.iov
  | _ => none

-- The block of the n-th value.
def blockOf (s : Spsc) (n : Nat) : Nat :=
  (BitVec.ofNat 64 n &&& s.ring.mask).toNat

end Spsc

end DataStruct
end Ezio
