import Ezio.Event.FdIo.Lemmas
import Ezio.Event.FdIo.TcpRead

/-!
This module contains what the operations on a UDP socket return for an error: `-ret`, where `ret` is the -1 of the
system call.
-/

namespace Ezio
namespace FdIo
namespace Udp

open Tcp (received)

-- An answer after which `read_fd` goes on, unless all headers are used.
def BeforeError (a : SysRet) : Prop := a = .fail .intr ∨ ∃ n lens, a = .ok n lens

-- An answer after which `write_fd` goes on although it has sent nothing.
def Unsent (a : SysRet) : Prop := a = .fail .intr ∨ a = .fail .again

variable {e : Errno} {used pre : List SysRet}

theorem readFd_go_error {cnt result : Nat} {buf : List Mmsghdr} (hused : ∀ a ∈ used, BeforeError a)
    (hroom : result + (received used).sum < cnt) (hagain : e ≠ .again) (hintr : e ≠ .intr) (left : List SysRet)
    : ∃ buf', readFd.go cnt buf result (used ++ .fail e :: left) = .done ⟨1, false, buf'⟩ left := by
  induction used generalizing buf result with
  | nil =>
    refine ⟨buf, ?_⟩
    have hlt : ¬cnt ≤ result := by
      rw [show received [] = [] from rfl, List.sum_nil] at hroom
      omega
    rw [List.nil_append, readFd.go.eq_def, if_neg hlt]
    dsimp only
    rw [if_neg hagain, if_neg hintr]
  | cons a used ih =>
    rw [List.forall_mem_cons] at hused
    obtain ⟨ha, hused⟩ := hused
    rcases ha with rfl | ⟨n, lens, rfl⟩
    . have hlt : ¬cnt ≤ result := by omega
      obtain ⟨buf', hgo⟩ := ih hused hroom
      refine ⟨buf', ?_⟩
      rw [List.cons_append, readFd.go.eq_def, if_neg hlt]
      exact hgo
    . have hsum : (received (.ok n lens :: used)).sum = n + (received used).sum := List.sum_cons
      have hlt : ¬cnt ≤ result := by omega
      have hmin : min n (cnt - result) = n := by omega
      rw [List.cons_append, readFd_go_ok hlt, hmin]
      exact ih hused (by omega)

theorem readFd_error {cnt : Nat} (buf : List Mmsghdr) (hused : ∀ a ∈ used, BeforeError a)
    (hroom : (received used).sum < cnt) (hagain : e ≠ .again) (hintr : e ≠ .intr) (left : List SysRet)
    : ∃ buf', readFd buf cnt (used ++ .fail e :: left) = .done ⟨1, false, buf'⟩ left :=
  readFd_go_error hused (by omega) hagain hintr left

theorem writeFd_go_error {iov : List Iovec} {curCnt result : Nat} {isFull : Bool} (hpre : ∀ a ∈ pre, Unsent a)
    (hreached : curCnt + pre.count (.fail .again) * RECV_CNT_ONCE ≤ iov.length) (hagain : e ≠ .again)
      (hintr : e ≠ .intr)
    (left : List SysRet)
    : ∃ r, writeFd.go iov curCnt result isFull [] (pre ++ .fail e :: left) = .done r left ∧ r.ret = 1 := by
  induction pre generalizing curCnt isFull with
  | nil =>
    have hle : ¬iov.length < curCnt := by
      rw [List.count_nil, Nat.zero_mul] at hreached
      omega
    refine ⟨⟨1, isFull, iov, []⟩, ?_, rfl⟩
    rw [List.nil_append, writeFd.go, if_neg hle, if_neg hagain, if_neg hintr]
  | cons a pre ih =>
    rw [List.forall_mem_cons] at hpre
    obtain ⟨ha, hpre⟩ := hpre
    have hle : ¬iov.length < curCnt := by omega
    rcases ha with rfl | rfl
    . rw [List.count_cons_of_ne (by decide)] at hreached
      rw [List.cons_append, writeFd.go, if_neg hle, if_neg (by decide), if_pos rfl]
      exact ih hpre hreached
    . rw [List.count_cons_self, Nat.succ_mul] at hreached
      rw [List.cons_append, writeFd.go, if_neg hle, if_pos rfl]
      exact ih hpre (by omega)

theorem writeFd_error {iov : List Iovec} (hpre : ∀ a ∈ pre, Unsent a)
    (hreached : pre.count (.fail .again) * RECV_CNT_ONCE ≤ iov.length) (hagain : e ≠ .again) (hintr : e ≠ .intr)
    (left : List SysRet)
    : ∃ r, writeFd iov (pre ++ .fail e :: left) = .done r left ∧ r.ret = 1 :=
  writeFd_go_error hpre (by omega) hagain hintr left

end Udp
end FdIo
end Ezio
