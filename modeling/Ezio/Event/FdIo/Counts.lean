import Ezio.Event.FdIo.TcpRead

/-!
This module contains the counts that the operations on files and TCP sockets return: they are added up in 32 bits and
returned as a signed number.
-/

namespace Ezio

theorem toInt32_lt (n : Nat) : toInt32 n < 2 ^ 31 := by
  unfold toInt32
  exact Int.bmod_lt (by decide)

namespace FdIo

open Tcp (received)

inductive Transfer where
  | tcpRead
  | tcpWrite
  | fileRead
  | fileWrite
  deriving DecidableEq, Repr

namespace Transfer

def op : Transfer → StreamOp
  | .tcpRead => { isMsg := true, onZero := .closed, onAgain := true }
  | .tcpWrite => { isMsg := true, onZero := .count, onAgain := true }
  | .fileRead => { isMsg := false, onZero := .eof, onAgain := false }
  | .fileWrite => { isMsg := false, onZero := .count, onAgain := false }

def call : Transfer → List Iovec → List SysRet → Io FdRet
  | .tcpRead => Tcp.readFd
  | .tcpWrite => Tcp.writeFd
  | .fileRead => File.readFd
  | .fileWrite => File.writeFd

theorem call_eq (t : Transfer) : t.call = streamFd t.op := by
  cases t with
  | tcpRead => rfl
  | tcpWrite => rfl
  | fileRead => rfl
  | fileWrite => rfl

theorem onZero_closed_iff (t : Transfer) : t.op.onZero = .closed ↔ t = .tcpRead := by
  cases t with
  | tcpRead => exact ⟨fun _ => rfl, fun _ => rfl⟩
  | tcpWrite => exact ⟨nofun, nofun⟩
  | fileRead => exact ⟨nofun, nofun⟩
  | fileWrite => exact ⟨nofun, nofun⟩

end Transfer

-- An answer that is no error. A socket that is empty or full ends the call, a file is never either.
def ErrorFree (op : StreamOp) : SysRet → Prop
  | .ok _ _ => True
  | .fail e => e = .intr ∨ op.onAgain ∧ e = .again

-- The last answer says that the peer has closed.
def endsClosed (used : List SysRet) : Bool :=
  match used.getLast? with
  | some (.ok 0 _) => true
  | _ => false

def bytesMoved (r : FdRet) : Nat :=
  (r.moved.map (·.2)).sum

theorem endsClosed_cons (a b : SysRet) (used : List SysRet)
    : endsClosed (a :: b :: used) = endsClosed (b :: used) := by
  simp [endsClosed]

-- What a call returns, given the answers that it has used.
structure Returns (op : StreamOp) (result : Nat) (moved : List (List Iovec × Nat)) (used : List SysRet) (r : FdRet)
    : Prop where
  bytes : bytesMoved r = (moved.map (·.2)).sum + (received used).sum
  closed : op.onZero = .closed → endsClosed used → r.ret = 0
  counted : ¬(op.onZero = .closed ∧ endsClosed used) → r.ret = toInt32 (result + (received used).sum)

variable {op : StreamOp} {passed iov : List Iovec} {result : Nat} {moved : List (List Iovec × Nat)}
  {used sys left : List SysRet} {r : FdRet}

theorem received_cons_ok (n : Nat) (lens : List Nat) (used : List SysRet)
    : received (.ok n lens :: used) = n :: received used :=
  rfl

-- An answer that does not end the call is added to the ones behind it.
theorem Returns.cons_ok {n : Nat} {lens : List Nat} {offered : List Iovec} (hne : used ≠ [])
    (h : Returns op ((result + n) % 2 ^ 32) (moved ++ [(offered, n)]) used r)
    : Returns op result moved (.ok n lens :: used) r := by
  cases used with
  | nil => exact absurd rfl hne
  | cons b used =>
    have hbytes := h.bytes
    rw [List.map_append, List.sum_append, List.map_singleton, List.sum_singleton, Nat.add_assoc] at hbytes
    refine ⟨?_, ?_, ?_⟩
    . rw [hbytes, received_cons_ok, List.sum_cons]
    . rw [endsClosed_cons]
      exact h.closed
    . rw [endsClosed_cons]
      intro hopen
      rw [h.counted hopen, received_cons_ok, List.sum_cons, ← Nat.add_assoc, ← toInt32_mod, Nat.mod_add_mod,
        toInt32_mod]

theorem Returns.cons_intr (hne : used ≠ []) (h : Returns op result moved used r)
    : Returns op result moved (.fail .intr :: used) r := by
  cases used with
  | nil => exact absurd rfl hne
  | cons b used =>
    refine ⟨h.bytes, ?_, ?_⟩
    . rw [endsClosed_cons]
      exact h.closed
    . rw [endsClosed_cons]
      exact h.counted

-- The answer that ends the call has no others behind it.
theorem Returns.last_ok {n : Nat} {lens : List Nat} (hbytes : bytesMoved r = (moved.map (·.2)).sum + n)
    (hclosed : op.onZero = .closed → n = 0 → r.ret = 0)
    (hcounted : ¬(op.onZero = .closed ∧ n = 0) → r.ret = toInt32 (result + n))
    : Returns op result moved [.ok n lens] r := by
  have hsum : (received [.ok n lens]).sum = n := List.sum_singleton
  have hends : endsClosed [.ok n lens] = true ↔ n = 0 := by
    cases n with
    | zero => exact ⟨fun _ => rfl, fun _ => rfl⟩
    | succ n => exact ⟨nofun, nofun⟩
  refine ⟨?_, ?_, ?_⟩
  . rw [hsum]
    exact hbytes
  . rw [hends]
    exact hclosed
  . rw [hends, hsum]
    exact hcounted

theorem go_returns (h : streamFd.go op passed iov result moved sys = .done r left)
    : ∃ used, sys = used ++ left ∧ used ≠ [] ∧ ((∀ a ∈ used, ErrorFree op a) → Returns op result moved used r) := by
  induction sys generalizing passed iov result moved with
  | nil => cases h
  | cons a sys ih =>
    cases a with
    | ok n lens =>
      unfold streamFd.go at h
      dsimp only at h
      by_cases hclosed : n = 0 ∧ op.onZero = .closed
      . rw [if_pos hclosed, Io.done.injEq] at h
        obtain ⟨rfl, rfl⟩ := h
        refine ⟨[.ok n lens], rfl, List.cons_ne_nil _ _, fun _ => .last_ok ?_ (fun _ _ => rfl) ?_⟩
        . rw [hclosed.1]
          rfl
        . intro hopen
          exact absurd ⟨hclosed.2, hclosed.1⟩ hopen
      rw [if_neg hclosed] at h
      by_cases heof : n = 0 ∧ op.onZero = .eof
      . rw [if_pos heof, Io.done.injEq] at h
        obtain ⟨rfl, rfl⟩ := h
        refine ⟨[.ok n lens], rfl, List.cons_ne_nil _ _, fun _ => .last_ok ?_ ?_ ?_⟩
        . rw [heof.1]
          rfl
        . intro hop
          cases heof.2.symm.trans hop
        . intro _
          rw [heof.1, Nat.add_zero]
      rw [if_neg heof] at h
      rcases hmove : Util.moveIov iov (n % 2 ^ 32) with ⟨code, passed', iov'⟩
      rw [hmove] at h
      dsimp only at h
      by_cases hcode : code = 0
      . rw [if_pos hcode] at h
        obtain ⟨used, rfl, hne, hreturns⟩ := ih h
        refine ⟨.ok n lens :: used, rfl, List.cons_ne_nil _ _, ?_⟩
        intro hfree
        rw [List.forall_mem_cons] at hfree
        exact (hreturns hfree.2).cons_ok hne
      . rw [if_neg hcode, Io.done.injEq] at h
        obtain ⟨rfl, rfl⟩ := h
        refine ⟨[.ok n lens], rfl, List.cons_ne_nil _ _, fun _ => .last_ok ?_ ?_ ?_⟩
        . simp [bytesMoved]
        . intro hop hzero
          exact absurd ⟨hzero, hop⟩ hclosed
        . intro _
          dsimp only
          rw [toInt32_mod]
    | fail e =>
      unfold streamFd.go at h
      by_cases hagain : op.onAgain ∧ e = .again
      . rw [if_pos hagain, Io.done.injEq] at h
        obtain ⟨rfl, rfl⟩ := h
        have hsum : (received [.fail e]).sum = 0 := rfl
        refine ⟨[.fail e], rfl, List.cons_ne_nil _ _, fun _ => ⟨rfl, ?_, ?_⟩⟩
        . intro _ hends
          cases hends
        . intro _
          rw [hsum, Nat.add_zero]
      rw [if_neg hagain] at h
      by_cases hintr : e = .intr
      . rw [if_pos hintr] at h
        obtain ⟨used, rfl, hne, hreturns⟩ := ih h
        refine ⟨.fail e :: used, rfl, List.cons_ne_nil _ _, ?_⟩
        intro hfree
        rw [List.forall_mem_cons] at hfree
        rw [hintr]
        exact (hreturns hfree.2).cons_intr hne
      . rw [if_neg hintr, Io.done.injEq] at h
        obtain ⟨-, rfl⟩ := h
        refine ⟨[.fail e], rfl, List.cons_ne_nil _ _, ?_⟩
        intro hfree
        rcases hfree (.fail e) (List.mem_singleton_self _) with h | h
        . exact absurd h hintr
        . exact absurd h hagain

/--
A call that meets no error returns the count of the bytes that it has moved if and only if these are less than 2^31, and
a read of a TCP socket does not find the peer closed after it has received something.
-/
theorem transfer_count_iff (t : Transfer) {iov : List Iovec} {used left : List SysRet} {r : FdRet}
    (h : t.call iov (used ++ left) = .done r left) (hfree : ∀ a ∈ used, ErrorFree t.op a)
    : (0 ≤ r.ret ∧ r.ret = bytesMoved r)
      ↔ (received used).sum < 2 ^ 31 ∧ (t = .tcpRead → endsClosed used → (received used).sum = 0) := by
  rw [t.call_eq] at h
  obtain ⟨used', heq, -, hreturns⟩ := go_returns h
  rw [List.append_cancel_right_eq] at heq
  subst heq
  have hr := hreturns hfree
  have hbytes : bytesMoved r = (received used).sum := by
    rw [hr.bytes, List.map_nil, List.sum_nil, Nat.zero_add]
  rw [hbytes]
  by_cases hclosed : t.op.onZero = .closed ∧ endsClosed used
  . have hread := (t.onZero_closed_iff).mp hclosed.1
    have hret := hr.closed hclosed.1 hclosed.2
    rw [hret]
    constructor
    . rintro ⟨-, hzero⟩
      exact ⟨by omega, fun _ _ => by omega⟩
    . rintro ⟨-, hzero⟩
      rw [hzero hread hclosed.2]
      exact ⟨Int.le_refl 0, rfl⟩
  . have hret := hr.counted hclosed
    rw [Nat.zero_add] at hret
    rw [hret]
    constructor
    . rintro ⟨-, heq⟩
      have hlt := toInt32_lt (received used).sum
      refine ⟨by omega, ?_⟩
      intro hread hends
      exact absurd ⟨(t.onZero_closed_iff).mpr hread, hends⟩ hclosed
    . rintro ⟨hlt, -⟩
      rw [toInt32_of_lt hlt]
      exact ⟨Int.natCast_nonneg _, rfl⟩

theorem transfer_count_twoReads
    : ∃ r, Tcp.readFd [⟨0, 4⟩, ⟨4, 4⟩] [.ok 4 [], .fail .intr, .ok 2 [], .fail .again] = .done r []
      ∧ 0 ≤ r.ret ∧ r.ret = bytesMoved r := by
  have hdone : Transfer.tcpRead.call [⟨0, 4⟩, ⟨4, 4⟩] ([.ok 4 [], .fail .intr, .ok 2 [], .fail .again] ++ [])
      = .done ⟨6, true, [⟨0, 4⟩, ⟨6, 2⟩], [([⟨0, 4⟩, ⟨4, 4⟩], 4), ([⟨0, 4⟩, ⟨4, 4⟩], 2)]⟩ [] := by decide
  have hfree : ∀ a ∈ [SysRet.ok 4 [], .fail .intr, .ok 2 [], .fail .again], ErrorFree Transfer.tcpRead.op a := by
    simp [ErrorFree, Transfer.op]
  exact ⟨_, hdone, (transfer_count_iff .tcpRead hdone hfree).mpr ⟨by decide, fun _ => nofun⟩⟩

-- Two writes of 2^30 bytes are reported as an error.
theorem large_write_not_counted
    : ∃ r, File.writeFd [⟨0, 2 ^ 31⟩] [.ok (2 ^ 30) [], .ok (2 ^ 30) []] = .done r []
      ∧ r.ret = -2 ^ 31 ∧ bytesMoved r = 2 ^ 31 ∧ ¬(0 ≤ r.ret ∧ r.ret = bytesMoved r) := by
  exact ⟨⟨-2 ^ 31, false, [⟨2 ^ 30, 2 ^ 30⟩],
    [([⟨0, 2 ^ 31⟩], 2 ^ 30), ([⟨2 ^ 30, 2 ^ 30⟩], 2 ^ 30)]⟩, by decide, by decide,
    by decide, by decide⟩

end FdIo

end Ezio
