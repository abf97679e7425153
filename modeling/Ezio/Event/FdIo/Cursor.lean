import Ezio.Event.FdIo.TcpRead

/-!
This module contains what `move_iov` leaves of the buffers that the pointer spans.
-/

namespace Ezio
namespace FdIo

open Tcp

variable {v : Iovec} {vs : List Iovec} {n : Nat}

theorem space_cons (v : Iovec) (vs : List Iovec) : space (v :: vs) = v.len + space vs :=
  List.sum_cons

theorem moveIov_cons_of_le (h : v.len ≤ n)
    : Util.moveIov (v :: vs) n =
        ((Util.moveIov vs (n - v.len)).1, v :: (Util.moveIov vs (n - v.len)).2.1,
          (Util.moveIov vs (n - v.len)).2.2) := by
  rw [Util.moveIov, if_pos h]

theorem moveIov_cons_of_lt (h : n < v.len)
    : Util.moveIov (v :: vs) n = (0, [], ⟨v.base + n, v.len - n⟩ :: vs) := by
  rw [Util.moveIov, if_neg (Nat.not_le.mpr h)]

theorem moveIov_ret (iov : List Iovec) (n : Nat)
    : (Util.moveIov iov n).1 = if n < space iov then 0 else -1 := by
  induction iov generalizing n with
  | nil => rfl
  | cons v vs ih =>
    rw [space_cons]
    by_cases hle : v.len ≤ n
    . rw [moveIov_cons_of_le hle, ih]
      have hiff : n - v.len < space vs ↔ n < v.len + space vs := by omega
      simp only [hiff]
    . rw [moveIov_cons_of_lt (by omega), if_pos (by omega)]

theorem moveIov_left_of_le {iov : List Iovec} (h : space iov ≤ n)
    : (Util.moveIov iov n).2.2 = [] := by
  induction iov generalizing n with
  | nil => rfl
  | cons v vs ih =>
    rw [space_cons] at h
    rw [moveIov_cons_of_le (by omega)]
    exact ih (by omega)

theorem addrs_moveIov (iov : List Iovec) (n : Nat)
    : addrs (Util.moveIov iov n).2.2 = (addrs iov).drop n := by
  induction iov generalizing n with
  | nil => simp [Util.moveIov, addrs]
  | cons v vs ih =>
    rw [addrs_cons]
    by_cases hle : v.len ≤ n
    . have hfirst : (List.range' v.base v.len).drop n = [] :=
        List.drop_eq_nil_of_le (by rw [List.length_range']; exact hle)
      rw [moveIov_cons_of_le hle]
      dsimp only
      rw [ih, List.drop_append, List.length_range', hfirst, List.nil_append]
    . rw [moveIov_cons_of_lt (by omega)]
      dsimp only
      rw [addrs_cons, List.drop_append_of_le_length (by rw [List.length_range']; omega), List.drop_range', Nat.mul_one]

theorem moveIov_add (iov : List Iovec) (a b : Nat)
    : (Util.moveIov (Util.moveIov iov a).2.2 b).2.2 = (Util.moveIov iov (a + b)).2.2 := by
  induction iov generalizing a with
  | nil => rfl
  | cons v vs ih =>
    by_cases ha : v.len ≤ a
    . rw [moveIov_cons_of_le ha, moveIov_cons_of_le (by omega : v.len ≤ a + b)]
      dsimp only
      rw [ih, Nat.sub_add_comm ha]
    . rw [moveIov_cons_of_lt (by omega)]
      dsimp only
      by_cases hb : v.len ≤ a + b
      . have hcut : (⟨v.base + a, v.len - a⟩ : Iovec).len ≤ b := Nat.sub_le_iff_le_add'.mpr hb
        have hrest : b - (v.len - a) = a + b - v.len := by omega
        rw [moveIov_cons_of_le hb, moveIov_cons_of_le hcut]
        dsimp only
        rw [hrest]
      . have hcut : b < (⟨v.base + a, v.len - a⟩ : Iovec).len := Nat.lt_sub_iff_add_lt'.mpr (by omega)
        rw [moveIov_cons_of_lt (by omega : a + b < v.len), moveIov_cons_of_lt hcut]
        dsimp only
        rw [Nat.add_assoc, Nat.sub_sub]

/--
`move_iov` takes the given number of bytes off the front of the buffers, and it returns 0 as long as something is left.
Two moves in a row are one move by the sum.
-/
theorem moveIov_drops (iov : List Iovec) (moveSize : Nat)
    : addrs (Util.moveIov iov moveSize).2.2 = (addrs iov).drop (min moveSize (space iov))
      ∧ ((Util.moveIov iov moveSize).1 = 0 ↔ moveSize < space iov)
      ∧ (space iov ≤ moveSize → (Util.moveIov iov moveSize).1 = -1 ∧ (Util.moveIov iov moveSize).2.2 = [])
      ∧ ∀ a b, a + b < space iov
        → (Util.moveIov iov a).1 = 0
          ∧ (Util.moveIov (Util.moveIov iov a).2.2 b).1 = 0
          ∧ (Util.moveIov (Util.moveIov iov a).2.2 b).2.2 = (Util.moveIov iov (a + b)).2.2 := by
  refine ⟨?_, ?_, ?_, ?_⟩
  . rw [addrs_moveIov, space_eq_length]
    exact List.drop_eq_drop_min
  . rw [moveIov_ret]
    split
    . simp [*]
    . simp [*]
  . intro hle
    rw [moveIov_ret, if_neg (Nat.not_lt.mpr hle)]
    exact ⟨rfl, moveIov_left_of_le hle⟩
  . intro a b hlt
    have hleft : space (Util.moveIov iov a).2.2 = space iov - a := by
      rw [space_eq_length, addrs_moveIov, List.length_drop, ← space_eq_length]
    rw [moveIov_ret, if_pos (by omega), moveIov_ret, if_pos (by omega)]
    exact ⟨rfl, rfl, moveIov_add iov a b⟩

end FdIo

end Ezio
