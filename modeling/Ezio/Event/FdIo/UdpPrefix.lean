import Ezio.Event.FdIo.UdpWrite

/-!
This module contains when the messages that `write_fd` of a UDP socket sends are the first ones of its array. Neither a
short count nor `EAGAIN` ends the loop over the batches.
-/

namespace Ezio
namespace FdIo
namespace Udp

variable {iov : List Iovec} {len i : Nat} {out : Option Nat} {outs : List (Nat × Option Nat)}

-- The number of messages in a batch of an array of the given length.
def batchLen (len i : Nat) : Nat := min RECV_CNT_ONCE (len - i * RECV_CNT_ONCE)

-- The answers to a batch: it is interrupted a number of times, then it sends messages or is refused.
def answersTo (out : Nat × Option Nat) : List SysRet :=
  List.replicate out.1 (SysRet.fail .intr) ++ match out.2 with
    | some n => [SysRet.ok n []]
    | none => [SysRet.fail .again]

-- Each batch sends no more messages than it has.
def Possible (len : Nat) : (i : Nat) → List (Nat × Option Nat) → Prop
  | _, [] => True
  | i, out :: outs => out.2.getD 0 ≤ batchLen len i ∧ Possible len (i + 1) outs

def total (outs : List (Nat × Option Nat)) : Nat := (outs.map fun out => out.2.getD 0).sum

-- The messages that are sent from the batch `i` on.
def sentFrom (iov : List Iovec) : (i : Nat) → List (Nat × Option Nat) → List Iovec
  | _, [] => []
  | i, out :: outs => (batch iov i).take (out.2.getD 0) ++ sentFrom iov (i + 1) outs

def sentMessages (r : FdRet) : List Iovec :=
  r.moved.flatMap fun m => m.1.take m.2

-- The messages that are sent are the first `n`, and all of them unless the socket is full.
def SendsFirst (iov : List Iovec) (r : FdRet) : Prop :=
  ∃ n : Nat, r.ret = n ∧ n ≤ iov.length ∧ sentMessages r = iov.take n ∧ (n = iov.length ∨ r.flag)

-- After the first batch that is not sent in full, nothing is sent any more.
def Steady (len : Nat) : (i : Nat) → List (Nat × Option Nat) → Prop
  | _, [] => True
  | i, out :: outs => out.2.getD 0 = batchLen len i ∧ Steady len (i + 1) outs ∨ total outs = 0

theorem length_batch (iov : List Iovec) (i : Nat) : (batch iov i).length = batchLen iov.length i := by
  simp [batch, batchLen]

theorem drop_eq_batch (iov : List Iovec) (i : Nat)
    : iov.drop (i * RECV_CNT_ONCE) = batch iov i ++ iov.drop ((i + 1) * RECV_CNT_ONCE) := by
  rw [batch, Nat.succ_mul, ← List.drop_drop, List.take_append_drop]

theorem writeFd_go_intr (n curCnt result : Nat) (isFull : Bool) (moved : List (List Iovec × Nat)) (sys : List SysRet)
    (h : curCnt ≤ iov.length)
    : writeFd.go iov curCnt result isFull moved (List.replicate n (SysRet.fail .intr) ++ sys)
        = writeFd.go iov curCnt result isFull moved sys := by
  induction n with
  | zero => rfl
  | succ n ih =>
    rw [List.replicate_succ, List.cons_append, writeFd.go, if_neg (by omega), if_neg (by decide), if_pos rfl]
    exact ih

theorem writeFd_go_outs (h : i + outs.length = batchCnt iov) (result : Nat) (isFull : Bool)
    (moved : List (List Iovec × Nat)) (sys : List SysRet)
    : ∃ r, writeFd.go iov (i * RECV_CNT_ONCE) result isFull moved (outs.flatMap answersTo ++ sys) = .done r sys
      ∧ r.ret = toInt32 (result + total outs)
      ∧ r.flag = (isFull || outs.any fun out => out.2.isNone)
      ∧ sentMessages r = (moved.flatMap fun m => m.1.take m.2) ++ sentFrom iov i outs := by
  unfold batchCnt RECV_CNT_ONCE at h
  induction outs generalizing i result isFull moved with
  | nil =>
    refine ⟨⟨toInt32 result, isFull, iov, moved⟩, ?_, by simp [total], by simp, by simp [sentMessages, sentFrom]⟩
    unfold writeFd.go RECV_CNT_ONCE
    simp only [List.length_nil] at h
    rw [if_pos (by omega)]
    rfl
  | cons out outs ih =>
    obtain ⟨k, out⟩ := out
    simp only [List.length_cons] at h
    have hle : i * RECV_CNT_ONCE ≤ iov.length := by
      unfold RECV_CNT_ONCE
      omega
    rw [List.flatMap_cons, answersTo, List.append_assoc, List.append_assoc, writeFd_go_intr _ _ _ _ _ _ hle]
    cases out with
    | some n =>
      obtain ⟨r, hgo, hret, hflag, hsent⟩ := ih (i := i + 1) (by omega) (result + n) isFull
        (moved ++ [(batch iov i, n)])
      rw [Nat.succ_mul] at hgo
      refine ⟨r, ?_, ?_, ?_, ?_⟩
      . rw [List.singleton_append, writeFd.go, if_neg (by omega)]
        exact hgo
      . rw [hret, total, total, List.map_cons, List.sum_cons, Option.getD_some, Nat.add_assoc]
      . simpa using hflag
      . simpa [sentFrom] using hsent
    | none =>
      obtain ⟨r, hgo, hret, hflag, hsent⟩ := ih (i := i + 1) (by omega) result true moved
      rw [Nat.succ_mul] at hgo
      refine ⟨r, ?_, ?_, ?_, ?_⟩
      . rw [List.singleton_append, writeFd.go, if_neg (by omega), if_pos rfl]
        exact hgo
      . rw [hret, total, total, List.map_cons, List.sum_cons, Option.getD_none, Nat.zero_add]
      . simpa using hflag
      . simpa [sentFrom] using hsent

theorem total_cons (out : Nat × Option Nat) (outs : List (Nat × Option Nat))
    : total (out :: outs) = out.2.getD 0 + total outs :=
  List.sum_cons

theorem length_sentFrom (h : Possible iov.length i outs) : (sentFrom iov i outs).length = total outs := by
  induction outs generalizing i with
  | nil => rfl
  | cons out outs ih =>
    rw [sentFrom, List.length_append, ih h.2, List.length_take, length_batch, Nat.min_eq_left h.1, total_cons]

theorem total_le (h : Possible len i outs) : total outs ≤ len - i * RECV_CNT_ONCE := by
  induction outs generalizing i with
  | nil => exact Nat.zero_le _
  | cons out outs ih =>
    have hfirst := h.1
    have hrest := ih h.2
    rw [Nat.succ_mul] at hrest
    unfold batchLen at hfirst
    rw [total_cons]
    omega

theorem sentFrom_subset (iov : List Iovec) (i : Nat) (outs : List (Nat × Option Nat))
    : sentFrom iov i outs ⊆ iov.drop (i * RECV_CNT_ONCE) := by
  induction outs generalizing i with
  | nil => exact List.nil_subset _
  | cons out outs ih =>
    rw [sentFrom, drop_eq_batch iov i]
    apply List.append_subset.mpr
    refine ⟨?_, ?_⟩
    . exact List.Subset.trans (List.take_subset _ _) (List.subset_append_left _ _)
    . exact List.Subset.trans (ih (i + 1)) (List.subset_append_right _ _)

theorem sentFrom_of_total_eq_zero (h : total outs = 0) : sentFrom iov i outs = [] := by
  induction outs generalizing i with
  | nil => rfl
  | cons out outs ih =>
    rw [total_cons] at h
    rw [sentFrom, ih (by omega), Nat.eq_zero_of_add_eq_zero_right h]
    rfl

theorem sentFrom_of_steady (h : Possible iov.length i outs) (hsteady : Steady iov.length i outs)
    : sentFrom iov i outs = (iov.drop (i * RECV_CNT_ONCE)).take (total outs) := by
  induction outs generalizing i with
  | nil => rfl
  | cons out outs ih =>
    rw [sentFrom, total_cons, drop_eq_batch iov i]
    rcases hsteady with ⟨hfull, hrest⟩ | hzero
    . rw [ih h.2 hrest, hfull, ← length_batch, List.take_length, List.take_length_add_append]
    . rw [sentFrom_of_total_eq_zero hzero, hzero, List.append_nil, Nat.add_zero, List.take_append_of_le_length]
      rw [length_batch]
      exact h.1

-- An array whose entries are all different.
def numbered (len : Nat) : List Iovec := (List.range len).map fun a => ⟨a, 1⟩

theorem length_numbered (len : Nat) : (numbered len).length = len := by simp [numbered]

theorem steady_of_sentFrom (h : Possible len i outs)
    (hsent : sentFrom (numbered len) i outs = ((numbered len).drop (i * RECV_CNT_ONCE)).take (total outs))
    : Steady len i outs := by
  induction outs generalizing i with
  | nil => trivial
  | cons out outs ih =>
    rw [sentFrom, total_cons] at hsent
    have hbatch : (batch (numbered len) i).length = batchLen len i := by rw [length_batch, length_numbered]
    by_cases hfull : out.2.getD 0 = batchLen len i
    . refine .inl ⟨hfull, ih h.2 ?_⟩
      rw [hfull, ← hbatch, List.take_length, drop_eq_batch, List.take_length_add_append] at hsent
      exact List.append_cancel_left hsent
    . right
      by_contra htotal
      -- The first message that is missing is not among those that are sent later on.
      have hlater : sentFrom (numbered len) (i + 1) outs
          = ((numbered len).drop (i * RECV_CNT_ONCE + out.2.getD 0)).take (total outs) := by
        have htake : (batch (numbered len) i).take (out.2.getD 0)
            = ((numbered len).drop (i * RECV_CNT_ONCE)).take (out.2.getD 0) := by
          rw [drop_eq_batch, List.take_append_of_le_length (by rw [hbatch]; exact h.1)]
        rw [htake, List.take_add, List.drop_drop] at hsent
        exact List.append_cancel_left hsent
      have hlt : i * RECV_CNT_ONCE + out.2.getD 0 < len := by
        have := h.1
        unfold batchLen at this hfull
        omega
      have hmem : (⟨i * RECV_CNT_ONCE + out.2.getD 0, 1⟩ : Iovec) ∈ sentFrom (numbered len) (i + 1) outs := by
        rw [hlater, List.mem_take_iff_getElem]
        refine ⟨0, ?_, ?_⟩
        . rw [List.length_drop, length_numbered]
          omega
        . simp [numbered]
      have hdrop := sentFrom_subset _ _ _ hmem
      rw [List.mem_drop_iff_getElem] at hdrop
      obtain ⟨j, hj, heq⟩ := hdrop
      have hle := h.1
      unfold batchLen at hle hfull
      simp only [numbered, List.getElem_map, List.getElem_range, Iovec.mk.injEq] at heq
      rw [Nat.succ_mul] at heq
      omega

end Udp
end FdIo
end Ezio
