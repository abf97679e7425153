import Ezio.Lib.Ring
import Ezio.DataStruct.RingBuffer.Lemmas
import Ezio.DataStruct.RingBuffer.Spsc

/-!
This module contains the proof that the two threads of a `ring_buffer` hand over the values in order:
neither the stale screenshots nor the wrap around of the blocks lose or overwrite one.
-/

namespace Ezio
namespace DataStruct

namespace Spsc

open RingBuffer

variable {k blockSize size : Nat} {s : Spsc}

theorem run_cons (turn : Turn size) (turns : List (Turn size))
    : s.run (turn :: turns) = (s.step turn).run turns := rfl

theorem run_copy {v : List UInt8} {i n : Nat} (next : Vector UInt8 size)
    (hpc : s.writer = .copy v i) (hn : v.length - i = n) (hi : i ≤ v.length)
    : s.run (List.replicate (n + 1) (.writer next))
        =
      { s with
        ring := (s.ring.memcpy i (v.drop i)).writerCommit 1
        writer := .idle
        puts := s.puts ++ [v] } := by
  induction n generalizing s i with
  | zero =>
    have hdone : v.drop i = [] := List.drop_of_length_le (by omega)
    rw [hdone]
    unfold memcpy
    rw [List.replicate_one, run_cons]
    unfold step writerStep
    rw [hpc]
    dsimp only
    rw [dif_neg (by omega)]
    rfl
  | succ n ih =>
    have hlt : i < v.length := by omega
    rw [List.replicate_succ, run_cons]
    have hstep : s.step (.writer next)
        = { s with ring := s.ring.writeByte i v[i], writer := .copy v (i + 1) } := by
      unfold step writerStep
      rw [hpc]
      dsimp only
      rw [dif_pos hlt]
    rw [hstep, ih rfl (by omega) hlt, List.drop_eq_getElem_cons hlt]
    rfl

-- A writer that is not interrupted does what `put` does.
theorem run_put (v : Vector UInt8 size) (hpc : s.writer = .idle)
    : ∃ n, (s.run (List.replicate n (.writer v))).ring = (s.ring.put v.toList).2
        ∧ (s.run (List.replicate n (.writer v))).writer = .idle
        ∧ ((s.ring.put v.toList).1 = 0
            → (s.run (List.replicate n (.writer v))).puts = s.puts ++ [v.toList]) := by
  have hstep : s.step (.writer v) = s.writerStep v.toList := rfl
  unfold writerStep at hstep
  rw [hpc] at hstep
  dsimp only at hstep
  unfold put
  by_cases hsize : s.ring.getBlockSize < v.toList.length
  . refine ⟨1, ?_⟩
    rw [if_pos hsize] at hstep
    rw [if_pos hsize, List.replicate_one, run_cons, hstep]
    exact ⟨rfl, hpc, fun h => by cases h⟩
  . rw [if_neg hsize] at hstep
    rw [if_neg hsize]
    unfold writerGetBuffer
    cases hshot : s.ring.writerGetBufferScreenshot 1 with
    | mk found ring =>
      rw [hshot] at hstep
      cases found with
      | true =>
        refine ⟨v.toList.length + 1 + 1, ?_⟩
        rw [List.replicate_succ, run_cons, hstep]
        dsimp only
        rw [run_copy v rfl (Nat.sub_zero v.toList.length) (Nat.zero_le _)]
        exact ⟨rfl, rfl, fun _ => rfl⟩
      | false =>
        have hrefresh : (s.step (.writer v)).step (.writer v)
            = { s with ring := ring.writerTakeScreenshot, writer := .retry v.toList s.unread } := by
          rw [hstep]
          rfl
        have hretry : ((s.step (.writer v)).step (.writer v)).step (.writer v)
            = writerStep
                { s with ring := ring.writerTakeScreenshot, writer := .retry v.toList s.unread }
                v.toList := by
          rw [hrefresh]
          rfl
        unfold writerStep at hretry
        dsimp only at hretry ⊢
        cases hfound : ring.writerTakeScreenshot.internalWriterGetBuffer
            ring.writerTakeScreenshot.writer.screenshot with
        | mk found ring =>
          rw [hfound] at hretry
          cases found with
          | true =>
            refine ⟨v.toList.length + 1 + 1 + 1 + 1, ?_⟩
            rw [List.replicate_succ, run_cons, List.replicate_succ, run_cons, List.replicate_succ,
              run_cons, hretry]
            dsimp only
            rw [run_copy v rfl (Nat.sub_zero v.toList.length) (Nat.zero_le _)]
            exact ⟨rfl, rfl, fun _ => rfl⟩
          | false =>
            refine ⟨1 + 1 + 1, ?_⟩
            rw [List.replicate_succ, run_cons, List.replicate_succ, run_cons, List.replicate_one,
              run_cons, hretry]
            exact ⟨rfl, rfl, fun h => by cases h⟩

def cells (size : Nat) (rb : RingBuffer) (j : Nat) : List UInt8 :=
  (rb.block j).take size

def history (puts : List (List UInt8)) (i : Nat) : List UInt8 :=
  puts.getD i []

-- The screenshot of the writer is an index the reader has passed, from which on there is room for
-- what the ring holds.
def SeenBy (k : Nat) (screenshot : BitVec 64) (taken puts seen : Nat) : Prop :=
  screenshot = BitVec.ofNat 64 seen ∧ seen ≤ taken ∧ puts - seen ≤ 2 ^ k

def WriterInv (k size blockSize : Nat) (s : Spsc) : Prop :=
  match s.writer with
  | .idle => True
  | .refresh v => v.length = size ∧ size ≤ blockSize
  | .retry v unread =>
    v.length = size ∧ size ≤ blockSize ∧ unread ≤ s.puts.length
      ∧ SeenBy k s.ring.writer.screenshot s.taken s.puts.length (s.puts.length - unread)
  | .copy v i =>
    v.length = size ∧ size ≤ blockSize ∧ i ≤ size
      ∧ (∃ seen, SeenBy k s.ring.writer.screenshot s.taken s.puts.length seen
          ∧ s.puts.length - seen < 2 ^ k)
      ∧ s.ring.writer.bufInfo.iov = s.puts.length % 2 ^ k
      ∧ (s.ring.block (s.puts.length % 2 ^ k)).take i = v.take i

def ReaderInv (k size : Nat) (s : Spsc) : Prop :=
  match s.reader with
  | .idle => s.reads.length = s.taken
  | .loaded writeIdx =>
    s.reads.length = s.taken
      ∧ ∃ m, writeIdx = BitVec.ofNat 64 m ∧ s.taken ≤ m ∧ m ≤ s.puts.length
  | .read bytes =>
    s.reads.length = s.taken ∧ s.taken < s.puts.length
      ∧ s.ring.reader.bufInfo.iov = s.taken % 2 ^ k
      ∧ bytes.length ≤ size ∧ bytes = (history s.puts s.taken).take bytes.length
  | .commit => s.reads.length = s.taken + 1 ∧ s.taken < s.puts.length

structure Inv (k size blockSize : Nat) (s : Spsc) : Prop where
  shape : Shape k blockSize s.ring
  writerIdx : s.ring.writer.idx = BitVec.ofNat 64 s.puts.length
  readerIdx : s.ring.reader.idx = BitVec.ofNat 64 s.taken
  screenshot : ∃ seen, SeenBy k s.ring.writer.screenshot s.taken s.puts.length seen
  holds : Ring.Holds (2 ^ k) (cells size s.ring) (history s.puts) s.taken s.puts.length
  sizes : ∀ v ∈ s.puts, v.length = size
  order : s.reads <+: s.puts
  refused : ∀ n ∈ s.refused, n = 2 ^ k
  writer : WriterInv k size blockSize s
  reader : ReaderInv k size s

theorem history_append {puts : List (List UInt8)} (v : List UInt8) {i : Nat}
    (hi : i < puts.length)
    : history (puts ++ [v]) i = history puts i := by
  unfold history
  rw [List.getD_eq_getElem?_getD, List.getElem?_append_left hi, List.getD_eq_getElem?_getD]

theorem WriterInv.of_reader {s' : Spsc} (h : WriterInv k size blockSize s)
    (hpc : s'.writer = s.writer) (hside : s'.ring.writer = s.ring.writer)
    (hdata : s'.ring.data = s.ring.data) (hputs : s'.puts = s.puts) (htaken : s.taken ≤ s'.taken)
    : WriterInv k size blockSize s' := by
  unfold WriterInv block at h ⊢
  rw [hpc, hside, hdata, hputs]
  cases hw : s.writer with
  | idle => trivial
  | refresh v =>
    rw [hw] at h
    exact h
  | retry v unread =>
    rw [hw] at h
    obtain ⟨hv, hsize, hunread, hshot, hseen, hfits⟩ := h
    exact ⟨hv, hsize, hunread, hshot, Nat.le_trans hseen htaken, hfits⟩
  | copy v i =>
    rw [hw] at h
    obtain ⟨hv, hsize, hi, ⟨seen, ⟨hshot, hle, hfits⟩, hroom⟩, hrest⟩ := h
    exact ⟨hv, hsize, hi, ⟨seen, ⟨hshot, Nat.le_trans hle htaken, hfits⟩, hroom⟩, hrest⟩

theorem ReaderInv.of_writer {s' : Spsc} (h : ReaderInv k size s) (hpc : s'.reader = s.reader)
    (hside : s'.ring.reader = s.ring.reader) (hreads : s'.reads = s.reads)
    (htaken : s'.taken = s.taken) (hputs : s'.puts = s.puts ∨ ∃ v, s'.puts = s.puts ++ [v])
    : ReaderInv k size s' := by
  have hlen : s.puts.length ≤ s'.puts.length := by
    rcases hputs with heq | ⟨v, heq⟩
    . rw [heq]
    . simp [heq]
  have hhistory : s.taken < s.puts.length → history s'.puts s.taken = history s.puts s.taken := by
    intro hlt
    rcases hputs with heq | ⟨v, heq⟩
    . rw [heq]
    . rw [heq, history_append v hlt]
  unfold ReaderInv at h ⊢
  rw [hpc, hside, hreads, htaken]
  cases hr : s.reader with
  | idle =>
    rw [hr] at h
    exact h
  | loaded writeIdx =>
    rw [hr] at h
    obtain ⟨hread, m, hm, hle, hput⟩ := h
    exact ⟨hread, m, hm, hle, Nat.le_trans hput hlen⟩
  | read bytes =>
    rw [hr] at h
    obtain ⟨hread, hlt, hiov, hbytes, heq⟩ := h
    refine ⟨hread, by omega, hiov, hbytes, ?_⟩
    rw [hhistory hlt]
    exact heq
  | commit =>
    rw [hr] at h
    exact ⟨h.1, by omega⟩

-- A step of the writer that neither touches a block nor commits.
theorem Inv.of_writer {s' : Spsc} (h : Inv k size blockSize s) (hdata : s'.ring.data = s.ring.data)
    (hmask : s'.ring.mask = s.ring.mask) (hidx : s'.ring.writer.idx = s.ring.writer.idx)
    (hshot : ∃ seen, SeenBy k s'.ring.writer.screenshot s.taken s.puts.length seen)
    (hside : s'.ring.reader = s.ring.reader) (hpc : s'.reader = s.reader)
    (hputs : s'.puts = s.puts) (hreads : s'.reads = s.reads) (htaken : s'.taken = s.taken)
    (hrefused : ∀ n ∈ s'.refused, n = 2 ^ k) (hwriter : WriterInv k size blockSize s')
    : Inv k size blockSize s' := by
  have hcells : cells size s'.ring = cells size s.ring := by
    unfold cells block
    rw [hdata]
  refine ⟨h.shape.congr hdata hmask, ?_, ?_, ?_, ?_, ?_, ?_, hrefused, hwriter, ?_⟩
  . rw [hidx, hputs]
    exact h.writerIdx
  . rw [hside, htaken]
    exact h.readerIdx
  . rw [htaken, hputs]
    exact hshot
  . rw [hcells, hputs, htaken]
    exact h.holds
  . rw [hputs]
    exact h.sizes
  . rw [hreads, hputs]
    exact h.order
  . exact h.reader.of_writer hpc hside hreads htaken (.inl hputs)

-- The buffer that `internal_writer_get_buffer` finds is the block behind the values held.
theorem Inv.found {cnt : BitVec 32} {v : List UInt8} {seen : Nat} (h : Inv k size blockSize s)
    (hv : v.length = size) (hsize : size ≤ blockSize)
    (hseen : SeenBy k s.ring.writer.screenshot s.taken s.puts.length seen)
    (hroom : s.puts.length - seen < 2 ^ k)
    : Inv k size blockSize
        { s with
          ring := { s.ring with writer.bufInfo := ⟨s.puts.length % 2 ^ k, cnt⟩ }
          writer := .copy v 0 } := by
  refine h.of_writer rfl rfl rfl h.screenshot rfl rfl rfl rfl rfl h.refused ?_
  refine ⟨hv, hsize, Nat.zero_le _, ⟨seen, hseen, hroom⟩, rfl, ?_⟩
  rw [List.take_zero, List.take_zero]

theorem Inv.writerStep_idle {v : List UInt8} (h : Inv k size blockSize s) (hpc : s.writer = .idle)
    (hv : v.length = size)
    : Inv k size blockSize (s.writerStep v) := by
  unfold Spsc.writerStep
  rw [hpc, h.shape.blockSize]
  dsimp only
  split
  . exact h
  . next hsize =>
    obtain ⟨seen, hseen⟩ := h.screenshot
    have hheld := h.holds.le
    have hle : seen ≤ s.puts.length := Nat.le_trans hseen.2.1 hheld
    by_cases hroom : s.puts.length - seen < 2 ^ k
    . obtain ⟨cnt, heq⟩ := h.shape.writerGetBufferScreenshot h.writerIdx hseen.1 hle hroom
      rw [heq]
      exact h.found hv (by omega) hseen hroom
    . have hfits := hseen.2.2
      have heq : s.ring.writerGetBufferScreenshot 1 = (false, s.ring) := by
        unfold RingBuffer.writerGetBufferScreenshot
        rw [hseen.1, h.shape.internalWriterGetBuffer_full h.writerIdx hle (by omega)]
        rfl
      rw [heq]
      refine h.of_writer rfl rfl rfl h.screenshot rfl rfl rfl rfl rfl h.refused ?_
      exact ⟨hv, by omega⟩

theorem Inv.writerStep_refresh {v next : List UInt8} (h : Inv k size blockSize s)
    (hpc : s.writer = .refresh v)
    : Inv k size blockSize (s.writerStep next) := by
  have hw := h.writer
  unfold WriterInv at hw
  rw [hpc] at hw
  have hheld := h.holds.le
  have hfits := h.holds.fits
  unfold Spsc.writerStep
  rw [hpc]
  have hseen : SeenBy k s.ring.reader.idx s.taken s.puts.length s.taken :=
    ⟨h.readerIdx, Nat.le_refl _, hfits⟩
  refine h.of_writer rfl rfl rfl ⟨_, hseen⟩ rfl rfl rfl rfl rfl h.refused ?_
  refine ⟨hw.1, hw.2, Nat.sub_le _ _, ?_⟩
  unfold unread
  dsimp only
  rw [show s.puts.length - (s.puts.length - s.taken) = s.taken by omega]
  exact hseen

theorem Inv.writerStep_retry {v next : List UInt8} {unread : Nat} (h : Inv k size blockSize s)
    (hpc : s.writer = .retry v unread)
    : Inv k size blockSize (s.writerStep next) := by
  have hw := h.writer
  unfold WriterInv at hw
  rw [hpc] at hw
  obtain ⟨hv, hsize, hunread, hseen⟩ := hw
  have hheld := h.holds.le
  unfold Spsc.writerStep
  rw [hpc]
  dsimp only
  rw [hseen.1]
  by_cases hroom : s.puts.length - (s.puts.length - unread) < 2 ^ k
  . obtain ⟨cnt, _, heq⟩ := h.shape.internalWriterGetBuffer h.writerIdx (Nat.sub_le _ unread) hroom
    rw [heq]
    exact h.found hv hsize hseen hroom
  . have hfits := hseen.2.2
    rw [h.shape.internalWriterGetBuffer_full h.writerIdx (Nat.sub_le _ unread) (by omega)]
    refine h.of_writer rfl rfl rfl h.screenshot rfl rfl rfl rfl rfl ?_ trivial
    intro n hn
    rw [List.mem_append, List.mem_singleton] at hn
    rcases hn with hn | hn
    . exact h.refused n hn
    . omega

theorem take_succ_set {l v : List UInt8} {i : Nat} (hi : i < v.length) (hl : i < l.length)
    (heq : l.take i = v.take i)
    : (l.set i v[i]).take (i + 1) = v.take (i + 1) := by
  rw [List.take_add_one, List.take_add_one, List.take_set_of_le (Nat.le_refl i), heq]
  simp [hl, hi]

theorem Inv.writerStep_copy {v next : List UInt8} {i : Nat} (h : Inv k size blockSize s)
    (hpc : s.writer = .copy v i)
    : Inv k size blockSize (s.writerStep next) := by
  have hw := h.writer
  unfold WriterInv at hw
  rw [hpc] at hw
  obtain ⟨hv, hsize, hi, ⟨seen, hseen, hunseen⟩, hiov, hcopied⟩ := hw
  have hroom : s.puts.length - s.taken < 2 ^ k := by
    have := hseen.2.1
    omega
  have hslot : s.puts.length % 2 ^ k < 2 ^ k := Nat.mod_lt _ (Nat.two_pow_pos k)
  unfold Spsc.writerStep
  rw [hpc]
  dsimp only
  split
  . next hlt =>
    refine ⟨h.shape.writeByte i _, h.writerIdx, h.readerIdx, h.screenshot, ?_, h.sizes, h.order,
      h.refused, ?_, h.reader.of_writer rfl rfl rfl rfl (.inl rfl)⟩
    . apply h.holds.write hroom
      intro j hj
      unfold cells
      rw [block_writeByte, hiov, if_neg hj]
    . refine ⟨hv, hsize, by omega, ⟨seen, hseen, hunseen⟩, hiov, ?_⟩
      change ((s.ring.writeByte i v[i]).block (s.puts.length % 2 ^ k)).take (i + 1) = v.take (i + 1)
      rw [block_writeByte, hiov, if_pos rfl]
      apply take_succ_set hlt _ hcopied
      rw [h.shape.block_length hslot]
      omega
  . next hge =>
    have hdone : i = size := by omega
    rw [hdone, List.take_of_length_le (Nat.le_of_eq hv)] at hcopied
    refine ⟨h.shape.congr rfl rfl, ?_, h.readerIdx, ?_, ?_, ?_, ?_, h.refused, trivial,
      h.reader.of_writer rfl rfl rfl rfl (.inr ⟨v, rfl⟩)⟩
    . change s.ring.writer.idx + 1 = _
      rw [h.writerIdx, List.length_append]
      exact Ring.ofNat_succ s.puts.length
    . refine ⟨seen, hseen.1, hseen.2.1, ?_⟩
      rw [List.length_append, List.length_singleton]
      omega
    . dsimp only
      rw [List.length_append]
      apply h.holds.push hroom
      . intro j _ hj
        exact history_append v hj
      . change (s.ring.block (s.puts.length % 2 ^ k)).take size = _
        rw [hcopied]
        simp [history]
    . intro u hu
      rw [List.mem_append, List.mem_singleton] at hu
      rcases hu with hu | hu
      . exact h.sizes u hu
      . rw [hu]
        exact hv
    . exact h.order.trans (List.prefix_append _ _)

theorem Inv.writerStep {v : List UInt8} (h : Inv k size blockSize s) (hv : v.length = size)
    : Inv k size blockSize (s.writerStep v) := by
  cases hpc : s.writer with
  | idle => exact h.writerStep_idle hpc hv
  | refresh u => exact h.writerStep_refresh hpc
  | retry u unread => exact h.writerStep_retry hpc
  | copy u i => exact h.writerStep_copy hpc

-- A step of the reader that does not commit.
theorem Inv.of_reader {s' : Spsc} (h : Inv k size blockSize s) (hdata : s'.ring.data = s.ring.data)
    (hmask : s'.ring.mask = s.ring.mask) (hidx : s'.ring.reader.idx = s.ring.reader.idx)
    (hside : s'.ring.writer = s.ring.writer) (hpc : s'.writer = s.writer)
    (hputs : s'.puts = s.puts) (hreads : s'.reads <+: s.puts) (htaken : s'.taken = s.taken)
    (hrefused : s'.refused = s.refused) (hreader : ReaderInv k size s')
    : Inv k size blockSize s' := by
  have hcells : cells size s'.ring = cells size s.ring := by
    unfold cells block
    rw [hdata]
  refine ⟨h.shape.congr hdata hmask, ?_, ?_, ?_, ?_, ?_, ?_, ?_, ?_, hreader⟩
  . rw [hside, hputs]
    exact h.writerIdx
  . rw [hidx, htaken]
    exact h.readerIdx
  . rw [hside, htaken, hputs]
    exact h.screenshot
  . rw [hcells, hputs, htaken]
    exact h.holds
  . rw [hputs]
    exact h.sizes
  . rw [hputs]
    exact hreads
  . rw [hrefused]
    exact h.refused
  . exact h.writer.of_reader hpc hside hdata hputs (Nat.le_of_eq htaken.symm)

theorem Inv.readerStep_idle (h : Inv k size blockSize s) (hpc : s.reader = .idle)
    : Inv k size blockSize (s.readerStep size) := by
  have hr := h.reader
  unfold ReaderInv at hr
  rw [hpc] at hr
  unfold Spsc.readerStep
  rw [hpc]
  refine h.of_reader rfl rfl rfl rfl rfl rfl h.order rfl rfl ?_
  exact ⟨hr, _, h.writerIdx, h.holds.le, Nat.le_refl _⟩

theorem Inv.readerStep_loaded {writeIdx : BitVec 64} (h : Inv k size blockSize s)
    (hpc : s.reader = .loaded writeIdx) (hcommits : s.puts.length < 2 ^ 64)
    : Inv k size blockSize (s.readerStep size) := by
  have hr := h.reader
  unfold ReaderInv at hr
  rw [hpc] at hr
  obtain ⟨hread, m, hm, hle, hput⟩ := hr
  unfold Spsc.readerStep
  rw [hpc, hm, h.readerIdx]
  dsimp only
  by_cases hlt : s.taken < m
  . rw [h.shape.internalReaderGetBuffer hlt (by omega)]
    refine h.of_reader rfl rfl rfl rfl rfl rfl h.order rfl rfl ?_
    exact ⟨hread, Nat.lt_of_lt_of_le hlt hput, rfl, Nat.zero_le _, List.take_zero.symm⟩
  . have heq : m = s.taken := by omega
    rw [heq, internalReaderGetBuffer_empty]
    exact h.of_reader rfl rfl rfl rfl rfl rfl h.order rfl rfl hread

theorem prefix_concat {l puts : List (List UInt8)} (h : l <+: puts) (hlt : l.length < puts.length)
    : l ++ [history puts l.length] <+: puts := by
  have hget : history puts l.length = puts[l.length] := by
    unfold history
    rw [List.getD_eq_getElem?_getD, List.getElem?_eq_getElem hlt]
    rfl
  rw [List.prefix_iff_eq_take] at h ⊢
  rw [hget, List.length_append, List.length_singleton, List.take_add_one,
    List.getElem?_eq_getElem hlt, ← h]
  rfl

theorem Inv.readerStep_read {bytes : List UInt8} (h : Inv k size blockSize s)
    (hpc : s.reader = .read bytes)
    : Inv k size blockSize (s.readerStep size) := by
  have hr := h.reader
  unfold ReaderInv at hr
  rw [hpc] at hr
  obtain ⟨hread, hlt, hiov, hbytes, heq⟩ := hr
  have hcell := h.holds.cell s.taken (Nat.le_refl _) hlt
  have hlen : (history s.puts s.taken).length = size := by
    unfold history
    rw [List.getD_eq_getElem?_getD, List.getElem?_eq_getElem hlt]
    exact h.sizes _ (List.getElem_mem hlt)
  unfold Spsc.readerStep
  rw [hpc]
  dsimp only
  split
  . next hmore =>
    refine h.of_reader rfl rfl rfl rfl rfl rfl h.order rfl rfl ?_
    refine ⟨hread, hlt, hiov, ?_, ?_⟩
    . rw [List.length_append, List.length_singleton]
      omega
    . have hbyte : s.ring.readByte bytes.length = (history s.puts s.taken)[bytes.length] := by
        apply Option.some.inj
        rw [← List.getElem?_eq_getElem, ← hcell, readByte_eq, hiov]
        unfold cells
        rw [List.getElem?_take_of_lt hmore, List.getD_eq_getElem?_getD, List.getElem?_eq_getElem]
        . rfl
        . rw [← hcell, cells, List.length_take] at hlen
          omega
      dsimp only
      rw [hbyte, List.length_append, List.length_singleton, List.take_add_one,
        List.getElem?_eq_getElem (by omega), ← heq]
      rfl
  . next hdone =>
    refine h.of_reader rfl rfl rfl rfl rfl rfl ?_ rfl rfl ?_
    . have hvalue : bytes = history s.puts s.reads.length := by
        rw [hread, heq, List.take_of_length_le (by omega)]
      dsimp only
      rw [hvalue]
      exact prefix_concat h.order (by omega)
    . refine ⟨?_, hlt⟩
      simp [hread]

theorem Inv.readerStep_commit (h : Inv k size blockSize s) (hpc : s.reader = .commit)
    : Inv k size blockSize (s.readerStep size) := by
  have hr := h.reader
  unfold ReaderInv at hr
  rw [hpc] at hr
  unfold Spsc.readerStep
  rw [hpc]
  obtain ⟨seen, hshot, hle, hfits⟩ := h.screenshot
  refine ⟨h.shape.congr rfl rfl, h.writerIdx, ?_, ⟨seen, hshot, by dsimp only; omega, hfits⟩,
    h.holds.pop hr.2, h.sizes, h.order, h.refused,
    h.writer.of_reader rfl rfl rfl rfl (Nat.le_succ _), hr.1⟩
  change s.ring.reader.idx + 1 = _
  rw [h.readerIdx]
  exact Ring.ofNat_succ s.taken

theorem Inv.readerStep (h : Inv k size blockSize s) (hcommits : s.puts.length < 2 ^ 64)
    : Inv k size blockSize (s.readerStep size) := by
  cases hpc : s.reader with
  | idle => exact h.readerStep_idle hpc
  | loaded writeIdx => exact h.readerStep_loaded hpc hcommits
  | read bytes => exact h.readerStep_read hpc
  | commit => exact h.readerStep_commit hpc

theorem step_puts_length (turn : Turn size) : s.puts.length ≤ (s.step turn).puts.length := by
  cases turn with
  | writer v =>
    unfold step writerStep
    dsimp only
    repeat' split
    all_goals simp
  | reader =>
    unfold step readerStep
    dsimp only
    repeat' split
    all_goals simp

theorem run_puts_length (turns : List (Turn size)) : s.puts.length ≤ (s.run turns).puts.length := by
  induction turns generalizing s with
  | nil => exact Nat.le_refl _
  | cons turn turns ih => exact Nat.le_trans (step_puts_length turn) ih

theorem Inv.run {turns : List (Turn size)} (h : Inv k size blockSize s)
    (hcommits : (s.run turns).puts.length < 2 ^ 64)
    : Inv k size blockSize (s.run turns) := by
  induction turns generalizing s with
  | nil => exact h
  | cons turn turns ih =>
    have hle : (s.step turn).puts.length ≤ (s.run (turn :: turns)).puts.length :=
      run_puts_length turns
    apply ih
    . cases turn with
      | writer v => exact h.writerStep (by simp)
      | reader =>
        apply h.readerStep
        have hstep : s.puts.length ≤ (s.step (.reader : Turn size)).puts.length :=
          step_puts_length _
        omega
    . exact hcommits

theorem Inv.start {ring : RingBuffer} (h : Shape k blockSize ring) (hwriter : ring.writer = {})
    (hreader : ring.reader = {})
    : Inv k size blockSize { ring } := by
  refine ⟨h, ?_, ?_, ⟨0, ?_, Nat.le_refl _, Nat.zero_le _⟩, ⟨Nat.le_refl _, Nat.zero_le _, ?_⟩,
    ?_, List.prefix_refl _, ?_, trivial, rfl⟩
  . rw [hwriter]
    rfl
  . rw [hreader]
    rfl
  . rw [hwriter]
    rfl
  . intro i _ hi
    cases hi
  . intro v hv
    cases hv
  . intro n hn
    cases hn

theorem Inv.writing_free (h : Inv k size blockSize s) {j n : Nat} (hj : s.writing = some j)
    (hlo : s.taken ≤ n) (hhi : n < s.puts.length)
    : s.blockOf n ≠ j := by
  have hw := h.writer
  unfold WriterInv at hw
  unfold writing at hj
  cases hpc : s.writer with
  | copy v i =>
    rw [hpc] at hw hj
    obtain ⟨hv, hsize, hi, ⟨seen, hseen, hunseen⟩, hiov, hcopied⟩ := hw
    have := hseen.2.1
    cases hj
    unfold blockOf
    rw [h.shape.slot, hiov]
    exact Ring.mod_ne_of_lt hhi (by omega)
  | idle => simp [hpc] at hj
  | refresh v => simp [hpc] at hj
  | retry v unread => simp [hpc] at hj

theorem run_hands_over {blockCnt bufferSize : BitVec 32} {isZeroMem : Bool} {alignSize : BitVec 64}
    {alloc : Nat → Option (Nat → UInt8)} {ring : RingBuffer}
    (hpow : Util.isPowerOf2 blockCnt.toNat = true)
    (hinit : ({} : RingBuffer).init blockCnt bufferSize isZeroMem alignSize alloc = (0, ring))
    (turns : List (Turn size)) (hcommits : (run { ring } turns).puts.length < 2 ^ 64)
    : (run { ring } turns).reads <+: (run { ring } turns).puts
        ∧ (run { ring } turns).unread ≤ blockCnt.toNat
        ∧ (∀ j n, (run { ring } turns).writing = some j → (run { ring } turns).taken ≤ n
            → n < (run { ring } turns).puts.length → (run { ring } turns).blockOf n ≠ j)
        ∧ ∀ n ∈ (run { ring } turns).refused, n = blockCnt.toNat := by
  obtain ⟨k, hk, hshape, hwriter, hreader⟩ := init_shape hpow hinit
  have h := (Inv.start hshape hwriter hreader).run hcommits
  rw [hk]
  exact ⟨h.order, h.holds.fits, fun j n => h.writing_free, h.refused⟩

-- Three values and a refused one through a ring of two blocks. The threads take turns while the last value is written
-- and the second one is read.
def pingPong : List (Turn 1) :=
  List.replicate 3 (Turn.writer #v[7]) ++ List.replicate 3 (Turn.writer #v[8]) ++ List.replicate 3 (Turn.writer #v[9])
    ++ List.replicate 5 Turn.reader ++ (List.replicate 5 [Turn.writer #v[10], Turn.reader]).flatten
    ++ List.replicate 10 Turn.reader

def pingPongRing : RingBuffer :=
  (({} : RingBuffer).init 2 1 true 1024 (fun _ => some fun _ => 0)).2

theorem pingPong_hands_over
    : ({} : RingBuffer).init 2 1 true 1024 (fun _ => some fun _ => 0) = (0, pingPongRing)
        ∧ (run { ring := pingPongRing } pingPong).reads = [[7], [8], [10]]
        ∧ (run { ring := pingPongRing } pingPong).reads
            <+: (run { ring := pingPongRing } pingPong).puts
        ∧ (run { ring := pingPongRing } pingPong).unread ≤ 2
        ∧ (∀ n ∈ (run { ring := pingPongRing } pingPong).refused, n = 2)
        ∧ (run { ring := pingPongRing } pingPong).refused = [2] := by
  have hinit : ({} : RingBuffer).init 2 1 true 1024 (fun _ => some fun _ => 0)
      = (0, pingPongRing) := by decide +kernel
  have h := run_hands_over (by decide) hinit pingPong (by decide +kernel)
  exact ⟨hinit, by decide +kernel, h.1, h.2.1, h.2.2.2, by decide +kernel⟩

end Spsc

end DataStruct
end Ezio
