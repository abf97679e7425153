import Ezio.Event.FdIo.Scatter
import Ezio.Socket.TcpSocket

/-!
This module contains the loop of `on_read_tcp_msg` over the `iovec`s of a read, with the lengths in the integer types of
the code. The lengths of the blocks that it passes to `cb_data_` are those of `blocks`.
-/

namespace Ezio
namespace Socket
namespace ReadMsg

inductive Fault where
  -- an entry at the index `iov_cnt` or beyond is read
  | outOfRange
  -- the loop goes on after `fuel` rounds
  | unfinished
  deriving DecidableEq, Repr

-- `(uint32_t)len`
def toUint32 (len : Int) : Nat :=
  (len % 2 ^ 32).toNat

-- `len` as a `size_t`
def toSize (len : Int) : Nat :=
  (len % 2 ^ 64).toNat

-- `iov.iov_len` of the block that is passed to `cb_data_`
def blockLen (len : Int) (iovLen : Nat) : Nat :=
  if iovLen < toUint32 len then iovLen else toSize len

-- `len -= cur_iov->iov_len`
def remaining (len : Int) (iovLen : Nat) : Int :=
  toInt32 (((toSize len : Int) - iovLen) % 2 ^ 64).toNat

-- The loop at the entry `i`, the answer is what `cb_data_` gets.
def readLoop (iov : List Iovec) : (fuel i : Nat) → (len : Int) → Except Fault (List Iovec)
  | 0, _, len => if 0 < len then .error .unfinished else .ok []
  | fuel + 1, i, len =>
    if 0 < len then
      match iov[i]? with
      | none => .error .outOfRange
      | some curIov =>
        match readLoop iov fuel ((i + 1) % 2 ^ 32) (remaining len curIov.len) with
        | .ok rest => .ok (⟨curIov.base, blockLen len curIov.len⟩ :: rest)
        | .error e => .error e
    else
      .ok []

-- What `cb_data_` gets from `on_read_tcp_msg`.
def onReadTcpMsg (fuel : Nat) (ret : Int) (iov : List Iovec) : Except Fault (List Iovec) :=
  if 0 < ret then readLoop iov fuel 0 ret else .ok []

variable {iov : List Iovec} {len : Int} {fuel i iovLen : Nat}

theorem blockLen_eq (hpos : 0 < len) (hlen : len < 2 ^ 31)
    : blockLen len iovLen = min len.toNat iovLen := by
  unfold blockLen toUint32 toSize
  split <;> omega

-- The difference is in the range of `int32_t` even if the entry is longer than what is left.
theorem remaining_eq (hpos : 0 < len) (hlen : len < 2 ^ 31) (hiov : iovLen < 2 ^ 31)
    : remaining len iovLen = len - iovLen := by
  unfold remaining toSize toInt32
  rw [Int.bmod_def]
  split <;> omega

theorem readLoop_of_le (h : len ≤ 0)
    : readLoop iov fuel i len = .ok [] := by
  have hnot : ¬0 < len := by omega
  cases fuel <;> simp [readLoop, hnot]

theorem take_addrs_cons (v : Iovec) (iov : List Iovec) (n : Nat)
    : (FdIo.addrs (v :: iov)).take n
        = FdIo.addrs [⟨v.base, min n v.len⟩] ++ (FdIo.addrs iov).take (n - v.len) := by
  have hone : FdIo.addrs [⟨v.base, min n v.len⟩] = (List.range' v.base v.len).take n := by
    rw [FdIo.addrs_cons, FdIo.addrs, List.flatMap_nil, List.append_nil]
    by_cases hle : n ≤ v.len
    . rw [Nat.min_eq_left hle, List.take_range'_of_length_ge hle]
    . rw [Nat.min_eq_right (by omega), List.take_range'_of_length_le (by omega)]
  rw [FdIo.addrs_cons, List.take_append, List.length_range', hone]

-- `rest` are the entries from `i` on, they hold the bytes that are left.
theorem readLoop_spec (before rest : List Iovec) (hcnt : (before ++ rest).length < 2 ^ 32)
    (hiov : ∀ v ∈ rest, v.len < 2 ^ 31) (hlen : len < 2 ^ 31) (hsum : len ≤ (rest.map (·.len)).sum)
    : ∃ out, (∀ fuel, rest.length ≤ fuel → readLoop (before ++ rest) fuel before.length len = .ok out)
        ∧ FdIo.addrs out = (FdIo.addrs rest).take len.toNat
        ∧ out.map (·.len) = TcpSocket.blocks len (rest.map (·.len)) := by
  induction rest generalizing before len with
  | nil =>
    rw [List.map_nil, List.sum_nil] at hsum
    exact ⟨[], fun _ _ => readLoop_of_le hsum, by simp [FdIo.addrs], rfl⟩
  | cons v rest ih =>
    by_cases hpos : 0 < len
    . have hv := hiov v List.mem_cons_self
      have hsplit : before ++ v :: rest = (before ++ [v]) ++ rest := by simp
      have hget : (before ++ v :: rest)[before.length]? = some v := by simp
      have hnext : (before.length + 1) % 2 ^ 32 = (before ++ [v]).length := by
        rw [List.length_append, List.length_cons] at hcnt
        rw [List.length_append, List.length_singleton, Nat.mod_eq_of_lt (by omega)]
      rw [List.map_cons, List.sum_cons] at hsum
      rw [hsplit] at hcnt
      have hrest : len - v.len ≤ (rest.map (·.len)).sum := by omega
      obtain ⟨out, hloop, haddrs, hblocks⟩ := ih (before ++ [v]) hcnt (fun u hu => hiov u (List.mem_cons_of_mem v hu))
        (by omega) hrest
      refine ⟨⟨v.base, min len.toNat v.len⟩ :: out, ?_, ?_, ?_⟩
      . intro fuel hfuel
        cases fuel with
        | zero => simp at hfuel
        | succ fuel =>
          have hrest := hloop fuel (Nat.le_of_succ_le_succ hfuel)
          rw [← hsplit, ← hnext] at hrest
          unfold readLoop
          rw [if_pos hpos, hget]
          simp only [remaining_eq hpos hlen hv, hrest, blockLen_eq hpos hlen]
      . rw [take_addrs_cons, show len.toNat - v.len = (len - v.len).toNat by omega, ← haddrs, ← FdIo.addrs_append]
        rfl
      . rw [List.map_cons, List.map_cons, TcpSocket.blocks, if_pos hpos, hblocks]
    . refine ⟨[], fun _ _ => readLoop_of_le (by omega), ?_, ?_⟩
      . rw [show len.toNat = 0 by omega]
        rfl
      . rw [List.map_cons, TcpSocket.blocks, if_neg hpos]
        rfl

theorem onReadTcpMsg_delivers (iov : List Iovec) (ret : Int) (hcnt : iov.length < 2 ^ 32)
    (hiov : ∀ v ∈ iov, v.len < 2 ^ 31) (hret : ret < 2 ^ 31) (hpos : 0 < ret) (hle : ret ≤ (iov.map (·.len)).sum)
    : ∃ out, (∀ fuel, iov.length ≤ fuel → onReadTcpMsg fuel ret iov = .ok out)
        ∧ FdIo.addrs out = (FdIo.addrs iov).take ret.toNat
        ∧ out.map (·.len) = TcpSocket.blocks ret (iov.map (·.len)) := by
  obtain ⟨out, hloop, haddrs, hblocks⟩ := readLoop_spec [] iov hcnt hiov hret hle
  refine ⟨out, ?_, haddrs, hblocks⟩
  intro fuel hfuel
  unfold onReadTcpMsg
  rw [if_pos hpos]
  exact hloop fuel hfuel

-- The read has ended in the third entry, the second one is empty.
theorem onReadTcpMsg_delivers_ten
    : ∃ out, (∀ fuel, 4 ≤ fuel → onReadTcpMsg fuel 10 [⟨0, 8⟩, ⟨64, 0⟩, ⟨128, 8⟩, ⟨192, 8⟩] = .ok out)
        ∧ FdIo.addrs out = (FdIo.addrs [⟨0, 8⟩, ⟨64, 0⟩, ⟨128, 8⟩, ⟨192, 8⟩]).take 10
        ∧ out.map (·.len) = TcpSocket.blocks 10 [8, 0, 8, 8] :=
  onReadTcpMsg_delivers [⟨0, 8⟩, ⟨64, 0⟩, ⟨128, 8⟩, ⟨192, 8⟩] 10 (by decide) (by decide) (by decide) (by decide)
    (by decide)

end ReadMsg
end Socket
end Ezio
