import Ezio.Event.FdIo

/-!
This module contains how the loop of `write_fd` of an `eventfd` ends.
-/

namespace Ezio
namespace FdIo
namespace EventFd

-- The answers after which the loop is meant to try again.
def waits : SysRet → Bool
  | .ok _ _ => false
  | .fail e => e = .again || e = .intr

-- What becomes of a call, given the answers of `writev`. There are none if the buffer is too small.
structure EndsOnErrors (iov : List Iovec) (sys : List SysRet) : Prop where
  error : 8 ≤ (iov.headD ⟨0, 0⟩).len → ∀ tries e left, sys = tries ++ .fail e :: left
    → (∀ a ∈ tries, waits a) → waits (.fail e) = false → ∃ r, writeFd iov sys = .done r left ∧ r.ret < 0
  written : 8 ≤ (iov.headD ⟨0, 0⟩).len → ∀ tries lens left, sys = tries ++ .ok 8 lens :: left
    → (∀ a ∈ tries, waits a) → ∃ r, writeFd iov sys = .done r left ∧ r.ret = 8
  waiting : writeFd iov sys = .cut → ∀ a ∈ sys, waits a
  looped : ∀ tries x left r, sys = tries ++ x :: left → writeFd iov sys = .done r left → ∀ a ∈ tries, waits a

variable {iov : List Iovec} {tries sys left : List SysRet}

theorem go_cons_of_ne {x : SysRet} (hx : ∀ lens, x ≠ .ok 8 lens)
    : writeFd.go iov (x :: sys) = writeFd.go iov sys := by
  cases x with
  | ok n lens =>
    have hne : n ≠ 8 := by
      intro heq
      exact hx lens (by rw [heq])
    rw [writeFd.go, if_neg hne]
  | fail e => rfl

theorem go_tries (h : ∀ a ∈ tries, waits a)
    : writeFd.go iov (tries ++ sys) = writeFd.go iov sys := by
  induction tries with
  | nil => rfl
  | cons a tries ih =>
    rw [List.forall_mem_cons] at h
    rw [List.cons_append, go_cons_of_ne, ih h.2]
    rintro lens rfl
    cases h.1

theorem go_written (lens : List Nat)
    : writeFd.go iov (.ok 8 lens :: left) = .done ⟨8, false, iov, [(iov, 8)]⟩ left := by
  rw [writeFd.go, if_pos rfl]

-- Nothing but a write of 8 bytes ends the loop.
theorem go_cases (iov : List Iovec) (sys : List SysRet)
    : writeFd.go iov sys = .cut
      ∨ ∃ tries lens left, sys = tries ++ .ok 8 lens :: left
        ∧ writeFd.go iov sys = .done ⟨8, false, iov, [(iov, 8)]⟩ left := by
  induction sys with
  | nil => exact .inl rfl
  | cons x sys ih =>
    by_cases hx : ∃ lens, x = .ok 8 lens
    . obtain ⟨lens, rfl⟩ := hx
      exact .inr ⟨[], lens, sys, rfl, go_written lens⟩
    . rw [go_cons_of_ne (by simpa using hx)]
      rcases ih with hcut | ⟨tries, lens, left, rfl, hdone⟩
      . exact .inl hcut
      . exact .inr ⟨x :: tries, lens, left, rfl, hdone⟩

theorem writeFd_of_le (h : 8 ≤ (iov.headD ⟨0, 0⟩).len)
    : writeFd iov sys = writeFd.go iov sys := by
  rw [writeFd, if_neg (Nat.not_lt.mpr h)]

theorem find_tries {x : SysRet} (left : List SysRet) (htries : ∀ a ∈ tries, waits a) (hx : waits x = false)
    : (tries ++ x :: left).find? (fun a => !waits a) = some x := by
  rw [List.find?_append, List.find?_eq_none.mpr (by simpa using htries), Option.none_or, List.find?_cons_of_pos]
  simp [hx]

theorem exists_tries {x : SysRet} (h : sys.find? (fun a => !waits a) = some x)
    : waits x = false ∧ ∃ tries left, sys = tries ++ x :: left ∧ ∀ a ∈ tries, waits a := by
  obtain ⟨hx, tries, left, heq, htries⟩ := List.find?_eq_some_iff_append.mp h
  refine ⟨by simpa using hx, tries, left, heq, ?_⟩
  intro a ha
  simpa using htries a ha

theorem EndsOnErrors.of_small (h : (iov.headD ⟨0, 0⟩).len < 8) : EndsOnErrors iov sys := by
  have hwrite : writeFd iov sys = .done ⟨-1, false, iov, []⟩ sys := by rw [writeFd, if_pos h]
  refine ⟨?_, ?_, ?_, ?_⟩
  . intro hle
    omega
  . intro hle
    omega
  . intro hcut
    cases hwrite.symm.trans hcut
  . intro tries x left r heq hdone
    have hleft : sys = left := (Io.done.inj (hwrite.symm.trans hdone)).2
    have hlen := congrArg List.length heq
    rw [hleft, List.length_append, List.length_cons] at hlen
    omega

theorem EndsOnErrors.of_waiting (hle : 8 ≤ (iov.headD ⟨0, 0⟩).len) (h : ∀ a ∈ sys, waits a)
    : EndsOnErrors iov sys := by
  have hwrite : writeFd iov sys = .cut := by
    rw [writeFd_of_le hle, ← List.append_nil sys, go_tries h]
    rfl
  have hmem : ∀ x tries left, sys = tries ++ x :: left → waits x := by
    rintro x tries left rfl
    exact h x (by simp)
  refine ⟨?_, ?_, fun _ => h, ?_⟩
  . intro _ tries e left heq _ hx
    rw [hmem _ _ _ heq] at hx
    cases hx
  . intro _ tries lens left heq _
    cases hmem _ _ _ heq
  . intro tries x left r _ hdone
    cases hwrite.symm.trans hdone

theorem EndsOnErrors.of_written {lens : List Nat} (hle : 8 ≤ (iov.headD ⟨0, 0⟩).len) (htries : ∀ a ∈ tries, waits a)
    : EndsOnErrors iov (tries ++ .ok 8 lens :: left) := by
  have hwrite : writeFd iov (tries ++ .ok 8 lens :: left) = .done ⟨8, false, iov, [(iov, 8)]⟩ left := by
    rw [writeFd_of_le hle, go_tries htries, go_written]
  have hfirst : ∀ x tries' left', tries ++ SysRet.ok 8 lens :: left = tries' ++ x :: left' → (∀ a ∈ tries', waits a)
      → waits x = false → SysRet.ok 8 lens = x := by
    intro x tries' left' heq htries' hx
    have hfind := find_tries left htries (rfl : waits (.ok 8 lens) = false)
    rw [heq, find_tries left' htries' hx] at hfind
    exact (Option.some.inj hfind).symm
  refine ⟨?_, ?_, ?_, ?_⟩
  . intro _ tries' e left' heq htries' hx
    cases hfirst _ _ _ heq htries' hx
  . intro _ tries' lens' left' heq htries'
    rw [heq, writeFd_of_le hle, go_tries htries', go_written]
    exact ⟨_, rfl, rfl⟩
  . intro hcut
    cases hwrite.symm.trans hcut
  . intro tries' x left' r heq hdone
    have hleft : left = left' := (Io.done.inj (hwrite.symm.trans hdone)).2
    rw [hleft] at heq
    have hsame : tries = tries' := (List.append_inj_left' heq rfl)
    rw [← hsame]
    exact htries

/--
The call ends as told if and only if the buffer is too small, or the first answer other than EAGAIN and EINTR, if there
is one, is a write of 8 bytes. After any other answer the loop goes on.
-/
theorem writeFd_endsOnErrors_iff (iov : List Iovec) (sys : List SysRet)
    : EndsOnErrors iov sys ↔ (iov.headD ⟨0, 0⟩).len < 8
      ∨ ∀ x, sys.find? (fun a => !waits a) = some x → ∃ lens, x = .ok 8 lens := by
  by_cases hsmall : (iov.headD ⟨0, 0⟩).len < 8
  . simp only [hsmall, true_or, iff_true]
    exact .of_small hsmall
  have hle : 8 ≤ (iov.headD ⟨0, 0⟩).len := Nat.le_of_not_lt hsmall
  simp only [hsmall, false_or]
  constructor
  . intro h x hfind
    obtain ⟨hx, tries, left, rfl, htries⟩ := exists_tries hfind
    by_contra hne
    have hwrite : writeFd iov (tries ++ x :: left) = writeFd.go iov left := by
      rw [writeFd_of_le hle, go_tries htries, go_cons_of_ne (by simpa using hne)]
    rcases go_cases iov left with hcut | ⟨tries', lens, left', rfl, hdone⟩
    . have := h.waiting (hwrite.trans hcut) x (by simp)
      rw [hx] at this
      cases this
    . have := h.looped (tries ++ x :: tries') (.ok 8 lens) left' _ (by simp) (hwrite.trans hdone) x (by simp)
      rw [hx] at this
      cases this
  . intro h
    cases hfind : sys.find? (fun a => !waits a) with
    | none => exact .of_waiting hle (by simpa using hfind)
    | some x =>
      obtain ⟨lens, rfl⟩ := h x hfind
      obtain ⟨-, tries, left, rfl, htries⟩ := exists_tries hfind
      exact .of_written hle htries

-- The file descriptor has been closed.
theorem writeFd_loops_after_error
    : writeFd [⟨0, 8⟩] [.fail .badf, .fail .badf] = .cut ∧ ¬EndsOnErrors [⟨0, 8⟩] [.fail .badf, .fail .badf] := by
  refine ⟨rfl, ?_⟩
  intro h
  obtain ⟨r, hdone, -⟩ := h.error (by decide) [] .badf [.fail .badf] rfl (List.forall_mem_nil _) rfl
  cases hdone

end EventFd
end FdIo

end Ezio
