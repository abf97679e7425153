import Ezio.Event.FdIo.TcpRead

/-!
This module contains how a call of `read_fd` of a TCP socket ends, told from the answers of the kernel alone.
-/

namespace Ezio

namespace FdIo
namespace Tcp

-- A call of `recvmsg` never returns as much as 2^32.
def Fits : SysRet → Prop
  | .ok n _ => n < 2 ^ 32
  | .fail _ => True

-- The answers that one call of `read_fd` gets: it goes on after the used ones, and `x` is the one that ends it.
structure Attempt (iov : List Iovec) (used : List SysRet) (x : SysRet) : Prop where
  goesOn : ∀ a ∈ used, GoesOn a
  room : received used = [] ∨ (received used).sum < space iov
  intr : x ≠ .fail .intr
  full : ∀ n lens, x = .ok n lens → n = 0 ∨ n < 2 ^ 32 ∧ space iov ≤ (received used).sum + n

-- The count and the flag that `read_fd` returns if it has received `n` bytes before the answer that ends it.
def endOf (n : Nat) : SysRet → Int × Bool
  | .ok m _ => if m = 0 then (0, false) else (toInt32 (n + m), false)
  | .fail e => if e = .again then (toInt32 n, true) else (-1, false)

theorem received_nil : received [] = [] := rfl

theorem endOf_closed (n : Nat) (lens : List Nat) : endOf n (.ok 0 lens) = (0, false) := by
  simp only [endOf, if_true]

theorem endOf_full {m : Nat} (n : Nat) (lens : List Nat) (h : m ≠ 0)
    : endOf n (.ok m lens) = (toInt32 (n + m), false) := by
  simp only [endOf, h, if_false]

theorem endOf_again (n : Nat) : endOf n (.fail .again) = (toInt32 n, true) := by
  simp only [endOf, if_true]

theorem endOf_error {e : Errno} (n : Nat) (h : e ≠ .again) : endOf n (.fail e) = (-1, false) := by
  simp only [endOf, h, if_false]

theorem endOf_mod (a b : Nat) (x : SysRet) : endOf (a % 2 ^ 32 + b) x = endOf (a + b) x := by
  have hmod : ∀ c, toInt32 (a % 2 ^ 32 + b + c) = toInt32 (a + b + c) := by
    intro c
    rw [← toInt32_mod, Nat.add_assoc, Nat.mod_add_mod, toInt32_mod, Nat.add_assoc]
  cases x with
  | ok m lens =>
    by_cases hzero : m = 0
    . rw [hzero, endOf_closed, endOf_closed]
    . rw [endOf_full _ _ hzero, endOf_full _ _ hzero, hmod]
  | fail e =>
    by_cases hagain : e = .again
    . rw [hagain, endOf_again, endOf_again, ← Nat.add_zero (a % 2 ^ 32 + b), hmod, Nat.add_zero]
    . rw [endOf_error _ hagain, endOf_error _ hagain]

abbrev reading : StreamOp := { isMsg := true, onZero := .closed, onAgain := true }

theorem received_ok (n : Nat) (lens : List Nat) (sys : List SysRet)
    : received (.ok n lens :: sys) = n :: received sys :=
  rfl

-- A count that leaves room in the buffers moves the pointer, any other one ends the loop.
theorem moveIov_room {iov : List Iovec} {n : Nat} (h : n < space iov)
    : ∃ passed left, Util.moveIov iov n = (0, passed, left) ∧ space iov = n + space left := by
  rcases hmove : Util.moveIov iov n with ⟨ret, passed, left⟩
  obtain ⟨hzero, hend⟩ := moveIov_space hmove
  have hret : ret = 0 := by
    by_contra hne
    have := hend hne
    omega
  rw [hret]
  exact ⟨passed, left, rfl, hzero hret⟩

theorem moveIov_full {iov : List Iovec} {n : Nat} (h : space iov ≤ n) : (Util.moveIov iov n).1 ≠ 0 := by
  induction iov generalizing n with
  | nil => exact (by decide : (-1 : Int) ≠ 0)
  | cons v iov ih =>
    have hspace : space (v :: iov) = v.len + space iov := List.sum_cons
    rw [Util.moveIov, if_pos (by omega)]
    exact ih (by omega)

section Loop

variable {passed iov : List Iovec} {result : Nat} {moved : List (List Iovec × Nat)} {used sys left : List SysRet}
  {x : SysRet} {r : FdRet}

theorem Attempt.intro_intr (h : Attempt iov used x) : Attempt iov (.fail .intr :: used) x where
  goesOn := List.forall_mem_cons.mpr ⟨.inl rfl, h.goesOn⟩
  room := h.room
  intr := h.intr
  full := h.full

theorem Attempt.intro_ok {n : Nat} {lens : List Nat} {iov' : List Iovec} (h : Attempt iov' used x) (hpos : 0 < n)
    (hlt : n < 2 ^ 32) (hleft : 0 < space iov') (hspace : space iov = n + space iov')
    : Attempt iov (.ok n lens :: used) x where
  goesOn := List.forall_mem_cons.mpr ⟨.inr ⟨n, lens, rfl, hpos, hlt⟩, h.goesOn⟩
  room := by
    rw [received_ok, List.sum_cons]
    rcases h.room with hnil | hroom
    . rw [hnil, List.sum_nil]
      omega
    . omega
  intr := h.intr
  full := by
    intro m lens' hx
    rw [received_ok, List.sum_cons]
    rcases h.full m lens' hx with hzero | ⟨hlt, hfull⟩
    . exact .inl hzero
    . exact .inr ⟨hlt, by omega⟩

-- The rest of an attempt is an attempt to fill the rest of the buffers.
theorem Attempt.rest_intr (h : Attempt iov (.fail .intr :: used) x) : Attempt iov used x where
  goesOn := (List.forall_mem_cons.mp h.goesOn).2
  room := h.room
  intr := h.intr
  full := h.full

theorem Attempt.rest_ok {n : Nat} {lens : List Nat} {iov' : List Iovec} (h : Attempt iov (.ok n lens :: used) x)
    (hspace : space iov = n + space iov')
    : Attempt iov' used x where
  goesOn := (List.forall_mem_cons.mp h.goesOn).2
  room := by
    have hroom := h.room
    rw [received_ok, List.sum_cons] at hroom
    rcases hroom with hnil | hlt
    . cases hnil
    . exact .inr (by omega)
  intr := h.intr
  full := by
    intro m lens' hx
    rcases h.full m lens' hx with hzero | ⟨hlt, hfull⟩
    . exact .inl hzero
    . rw [received_ok, List.sum_cons] at hfull
      exact .inr ⟨hlt, by omega⟩

theorem Attempt.room_ok {n : Nat} {lens : List Nat} (h : Attempt iov (.ok n lens :: used) x)
    : 0 < n ∧ n < 2 ^ 32 ∧ n < space iov := by
  rcases (List.forall_mem_cons.mp h.goesOn).1 with hintr | ⟨m, lens', heq, hpos, hlt⟩
  . cases hintr
  . cases heq
    have hroom := h.room
    rw [received_ok, List.sum_cons] at hroom
    rcases hroom with hnil | hroom
    . cases hnil
    . exact ⟨hpos, hlt, by omega⟩

theorem readFd_go_last {x : SysRet} (left : List SysRet) (h : Attempt iov [] x)
    : ∃ r, streamFd.go reading passed iov result moved (x :: left) = .done r left
      ∧ (r.ret, r.flag) = endOf result x := by
  cases x with
  | ok n lens =>
    unfold streamFd.go
    by_cases hzero : n = 0
    . rw [if_pos ⟨hzero, rfl⟩, hzero, endOf_closed]
      exact ⟨_, rfl, rfl⟩
    . obtain ⟨hlt, hfull⟩ := (h.full n lens rfl).resolve_left hzero
      rw [received_nil, List.sum_nil, Nat.zero_add] at hfull
      have hend := endOf_full result lens hzero
      rw [← toInt32_mod (result + n)] at hend
      have hmove := moveIov_full hfull
      rw [if_neg (by simp [hzero]), if_neg (by simp [hzero]), Nat.mod_eq_of_lt hlt]
      rcases hiov : Util.moveIov iov n with ⟨code, passed', iov'⟩
      rw [hiov] at hmove
      dsimp only at hmove ⊢
      generalize toInt32 ((result + n) % 2 ^ 32) = ret at hend ⊢
      rw [if_neg hmove, hend]
      exact ⟨_, rfl, rfl⟩
  | fail e =>
    unfold streamFd.go
    by_cases hagain : e = .again
    . rw [if_pos ⟨rfl, hagain⟩, hagain, endOf_again]
      generalize toInt32 result = ret
      exact ⟨_, rfl, rfl⟩
    . have hintr : e ≠ .intr := by
        intro hintr
        exact h.intr (by rw [hintr])
      rw [if_neg (by simp [hagain]), if_neg hintr, endOf_error _ hagain]
      exact ⟨_, rfl, rfl⟩

theorem readFd_go_attempt (left : List SysRet) (h : Attempt iov used x)
    (passed : List Iovec) (result : Nat) (moved : List (List Iovec × Nat))
    : ∃ r, streamFd.go reading passed iov result moved (used ++ x :: left) = .done r left
      ∧ (r.ret, r.flag) = endOf (result + (received used).sum) x := by
  induction used generalizing passed iov result moved with
  | nil => exact readFd_go_last left h
  | cons a used ih =>
    cases a with
    | ok n lens =>
      obtain ⟨hpos, hlt, hroom⟩ := h.room_ok
      obtain ⟨passed', iov', hmove, hspace⟩ := moveIov_room hroom
      have hzero : n ≠ 0 := Nat.ne_of_gt hpos
      obtain ⟨r, hgo, hend⟩ := ih (h.rest_ok hspace) (passed ++ passed') ((result + n) % 2 ^ 32)
        (moved ++ [(passed ++ iov, n)])
      refine ⟨r, ?_, ?_⟩
      . rw [List.cons_append, streamFd.go, if_neg (by simp [hzero]), if_neg (by simp [hzero]), Nat.mod_eq_of_lt hlt,
          hmove]
        exact hgo
      . rw [hend, endOf_mod, received_ok, List.sum_cons, Nat.add_assoc]
    | fail e =>
      rcases (List.forall_mem_cons.mp h.goesOn).1 with hintr | ⟨_, _, heq, _⟩
      . cases hintr
        obtain ⟨r, hgo, hend⟩ := ih h.rest_intr passed result moved
        refine ⟨r, ?_, hend⟩
        rw [List.cons_append, streamFd.go, if_neg (by simp), if_pos rfl]
        exact hgo
      . cases heq

-- Whatever the kernel answers, the answers up to the one that ends the call are an attempt.
theorem exists_attempt_of_go (hfits : ∀ a ∈ sys, Fits a)
    (h : streamFd.go reading passed iov result moved sys = .done r left)
    : ∃ used x, sys = used ++ x :: left ∧ Attempt iov used x := by
  induction sys generalizing passed iov result moved with
  | nil => cases h
  | cons a sys ih =>
    obtain ⟨hfit, hrest⟩ := List.forall_mem_cons.mp hfits
    have hlast : ∀ x : SysRet, x ≠ .fail .intr → (∀ n lens, x = .ok n lens → n = 0 ∨ n < 2 ^ 32 ∧ space iov ≤ n)
        → Attempt iov [] x := by
      intro x hintr hfull
      refine ⟨List.forall_mem_nil _, .inl rfl, hintr, ?_⟩
      intro n lens hx
      rw [received_nil, List.sum_nil, Nat.zero_add]
      exact hfull n lens hx
    cases a with
    | ok n lens =>
      unfold streamFd.go at h
      by_cases hzero : n = 0
      . rw [if_pos ⟨hzero, rfl⟩] at h
        rw [Io.done.injEq] at h
        refine ⟨[], .ok n lens, by rw [h.2]; rfl, hlast _ (by simp) ?_⟩
        rintro m lens' heq
        cases heq
        exact .inl hzero
      . rw [if_neg (by simp [hzero]), if_neg (by simp [hzero]), Nat.mod_eq_of_lt hfit] at h
        by_cases hroom : n < space iov
        . obtain ⟨passed', iov', hmove, hspace⟩ := moveIov_room hroom
          rw [hmove] at h
          obtain ⟨used, x, rfl, hattempt⟩ := ih hrest h
          exact ⟨.ok n lens :: used, x, rfl,
            hattempt.intro_ok (Nat.pos_of_ne_zero hzero) hfit (by omega) hspace⟩
        . have hmove := moveIov_full (Nat.le_of_not_lt hroom)
          rcases hiov : Util.moveIov iov n with ⟨ret, passed', iov'⟩
          rw [hiov] at h hmove
          dsimp only at h hmove
          rw [if_neg hmove, Io.done.injEq] at h
          refine ⟨[], .ok n lens, by rw [h.2]; rfl, hlast _ (by simp) ?_⟩
          rintro m lens' heq
          cases heq
          exact .inr ⟨hfit, Nat.le_of_not_lt hroom⟩
    | fail e =>
      unfold streamFd.go at h
      by_cases hintr : e = .intr
      . rw [if_neg (by simp [hintr]), if_pos hintr] at h
        obtain ⟨used, x, rfl, hattempt⟩ := ih hrest h
        refine ⟨.fail e :: used, x, rfl, ?_⟩
        rw [hintr]
        exact hattempt.intro_intr
      . have hleft : sys = left := by
          split at h
          . exact (Io.done.inj h).2
          . exact (Io.done.inj h).2
        exact ⟨[], .fail e, by rw [hleft]; rfl, hlast _ (by simp [hintr]) (by simp)⟩

end Loop

theorem readFd_attempt {iov : List Iovec} {used : List SysRet} {x : SysRet} (left : List SysRet)
    (h : Attempt iov used x)
    : ∃ r, readFd iov (used ++ x :: left) = .done r left ∧ (r.ret, r.flag) = endOf (received used).sum x := by
  obtain ⟨r, hgo, hend⟩ := readFd_go_attempt left h [] 0 []
  rw [Nat.zero_add] at hend
  exact ⟨r, hgo, hend⟩

theorem exists_attempt {iov : List Iovec} {sys left : List SysRet} {r : FdRet} (hfits : ∀ a ∈ sys, Fits a)
    (h : readFd iov sys = .done r left)
    : ∃ used x, sys = used ++ x :: left ∧ Attempt iov used x :=
  exists_attempt_of_go hfits h

-- The answers tell where an attempt ends.
theorem Attempt.unique {iov : List Iovec} {used used' left left' : List SysRet} {x x' : SysRet}
    (h : Attempt iov used x) (h' : Attempt iov used' x') (heq : used ++ x :: left = used' ++ x' :: left')
    : used = used' ∧ x = x' ∧ left = left' := by
  obtain ⟨r, hread, -⟩ := readFd_attempt left h
  obtain ⟨r', hread', -⟩ := readFd_attempt left' h'
  rw [heq, hread', Io.done.injEq] at hread
  have hleft := hread.2
  rw [hleft, List.append_cons, List.append_cons used', List.append_cancel_right_eq] at heq
  obtain ⟨hused, hx⟩ := List.append_inj' heq rfl
  exact ⟨hused, List.singleton_inj.mp hx, hleft.symm⟩

end Tcp
end FdIo

end Ezio
