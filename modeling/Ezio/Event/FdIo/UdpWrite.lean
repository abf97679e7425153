import Ezio.Event.FdIo.Scatter

/-!
This module contains the datagrams that `write_fd` of a UDP socket hands to a kernel that accepts every message.
-/

namespace Ezio

-- A datagram as the kernel receives it. If the message names no address, it goes to the one that the socket is
-- connected to.
structure Datagram where
  payload : List UInt8
  addr : Option Nat
  deriving DecidableEq, Repr

def Datagram.of (mem : Nat → UInt8) (peer : Option Nat) (iov : List Iovec) (name : Option Nat) : Datagram :=
  { payload := (FdIo.addrs iov).map mem, addr := name.or peer }

namespace FdIo
namespace Udp

variable {iov : List Iovec}

-- The buffers of the messages of one `sendmmsg`.
def batch (iov : List Iovec) (i : Nat) : List Iovec :=
  (iov.drop (i * RECV_CNT_ONCE)).take RECV_CNT_ONCE

-- The batches from the `i`-th one on.
def batches (iov : List Iovec) (i n : Nat) : List (List Iovec × Nat) :=
  (List.range' i n).map fun j => (batch iov j, (batch iov j).length)

-- If the count is a multiple of the size of a batch, the last batch is empty.
def batchCnt (iov : List Iovec) : Nat := iov.length / RECV_CNT_ONCE + 1

-- The answers of a kernel that accepts every message.
def acceptAll (iov : List Iovec) : List SysRet :=
  (batches iov 0 (batchCnt iov)).map fun b => .ok b.2 []

theorem batches_succ (iov : List Iovec) (i n : Nat)
    : batches iov i (n + 1) = (batch iov i, (batch iov i).length) :: batches iov (i + 1) n := by
  unfold batches
  rw [List.range'_succ, List.map_cons]

theorem writeFd_go_acceptAll {n i : Nat} (h : i + n = batchCnt iov) (result : Nat) (moved : List (List Iovec × Nat))
    (sys : List SysRet)
    : ∃ ret, writeFd.go iov (i * RECV_CNT_ONCE) result false moved
      ((batches iov i n).map (fun b => SysRet.ok b.2 []) ++ sys)
        = .done ⟨ret, false, iov, moved ++ batches iov i n⟩ sys := by
  unfold batchCnt RECV_CNT_ONCE at h
  induction n generalizing i result moved with
  | zero =>
    refine ⟨toInt32 result, ?_⟩
    unfold writeFd.go RECV_CNT_ONCE
    rw [if_pos (by omega)]
    simp [batches]
  | succ n ih =>
    rw [batches_succ, List.map_cons, List.cons_append]
    unfold writeFd.go
    rw [if_neg (by unfold RECV_CNT_ONCE; omega)]
    obtain ⟨ret, hret⟩ := ih (i := i + 1) (by omega) (result + (batch iov i).length)
      (moved ++ [(batch iov i, (batch iov i).length)])
    refine ⟨ret, ?_⟩
    rw [Nat.succ_mul, List.append_assoc] at hret
    exact hret

theorem writeFd_acceptAll (iov : List Iovec) (sys : List SysRet)
    : ∃ ret, writeFd iov (acceptAll iov ++ sys) = .done ⟨ret, false, iov, batches iov 0 (batchCnt iov)⟩ sys :=
  writeFd_go_acceptAll (i := 0) (Nat.zero_add _) 0 [] sys

theorem batches_flatMap (iov : List Iovec) (i n : Nat)
    : (batches iov i n).flatMap (fun b => b.1.take b.2) = (iov.drop (i * RECV_CNT_ONCE)).take (n * RECV_CNT_ONCE) := by
  induction n generalizing i with
  | zero => simp [batches]
  | succ n ih =>
    rw [batches_succ, List.flatMap_cons, ih, List.take_length, batch, Nat.succ_mul, Nat.succ_mul,
      Nat.add_comm (n * RECV_CNT_ONCE), List.take_add, List.drop_drop]

-- Every entry of the array is a message of its own.
theorem batches_messages (iov : List Iovec)
    : (batches iov 0 (batchCnt iov)).flatMap (fun b => b.1.take b.2) = iov := by
  rw [batches_flatMap, Nat.zero_mul, List.drop_zero, List.take_of_length_le]
  unfold batchCnt RECV_CNT_ONCE
  omega

end Udp
end FdIo
end Ezio
