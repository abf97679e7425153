import Mathlib.Data.Nat.ModEq
import Mathlib.Tactic.Common

/-!
This module contains the arithmetic of a ring whose two ends are counters of fixed width that run
freely and are masked to get a slot.
-/

namespace Ezio
namespace Ring

theorem mod_ne_of_lt {size a b : Nat} (hlt : a < b) (hwindow : b - a < size)
    : a % size ≠ b % size := by
  intro heq
  have hdvd : size ∣ b - a := (Nat.modEq_iff_dvd' (Nat.le_of_lt hlt)).mp heq
  have := Nat.le_of_dvd (by omega) hdvd
  omega

theorem toNat_slot {w k : Nat} (hk : k ≤ w) (n : Nat)
    : (BitVec.ofNat w n &&& BitVec.ofNat w (2 ^ k - 1)).toNat = n % 2 ^ k := by
  have hpow : 2 ^ k ≤ 2 ^ w := Nat.pow_le_pow_right (by decide) hk
  have hpos : 0 < 2 ^ k := Nat.two_pow_pos k
  rw [BitVec.toNat_and, BitVec.toNat_ofNat, BitVec.toNat_ofNat,
    Nat.mod_eq_of_lt (show 2 ^ k - 1 < 2 ^ w by omega), Nat.and_two_pow_sub_one_eq_mod]
  exact Nat.mod_mod_of_dvd n (Nat.pow_dvd_pow 2 hk)

theorem ofNat_succ {w : Nat} (n : Nat) : BitVec.ofNat w n + 1 = BitVec.ofNat w (n + 1) := by
  exact (BitVec.ofNat_add n 1).symm

theorem toNat_sub {w a b : Nat} (hle : a ≤ b) (hlt : b - a < 2 ^ w)
    : (BitVec.ofNat w b - BitVec.ofNat w a).toNat = b - a := by
  have hofNat : BitVec.ofNat w b - BitVec.ofNat w a = BitVec.ofNat w (b - a) := by
    rw [BitVec.sub_eq_iff_eq_add, ← BitVec.ofNat_add, Nat.sub_add_cancel hle]
  rw [hofNat, BitVec.toNat_ofNat, Nat.mod_eq_of_lt hlt]

theorem ofNat_eq_iff {w a b : Nat} (hle : a ≤ b) (hlt : b - a < 2 ^ w)
    : BitVec.ofNat w a = BitVec.ofNat w b ↔ a = b := by
  constructor
  . intro heq
    have hsub := toNat_sub hle hlt
    rw [heq, BitVec.sub_self, BitVec.toNat_ofNat, Nat.zero_mod] at hsub
    omega
  . intro heq
    rw [heq]

-- The slot of the element `d` elements after `i`, there is at most one wrap.
theorem mod_add {size : Nat} (hpos : 0 < size) (i d : Nat) (hd : d ≤ size)
    : (i + d) % size = if i % size + d < size then i % size + d else i % size + d - size := by
  have hi := Nat.mod_lt i hpos
  rw [← Nat.mod_add_mod]
  split
  . next h => exact Nat.mod_eq_of_lt h
  . next h =>
    rw [Nat.mod_eq_sub_mod (by omega)]
    exact Nat.mod_eq_of_lt (by omega)

-- The slots from the one of `i` up to the one of `j`, or up to the end of the ring if that comes first.
def stretch (size i j : Nat) : Nat :=
  if i % size < j % size then j % size - i % size else size - i % size

theorem stretch_pos {size : Nat} (hpos : 0 < size) (i j : Nat) : 0 < stretch size i j := by
  have hi := Nat.mod_lt i hpos
  unfold stretch
  split <;> omega

theorem add_stretch_le {size : Nat} (hpos : 0 < size) (i j : Nat) : i % size + stretch size i j ≤ size := by
  have hi := Nat.mod_lt i hpos
  have hj := Nat.mod_lt j hpos
  unfold stretch
  split <;> omega

-- The slots between two positions are the elements between them if these are not too many.
theorem stretch_eq_min_iff {size i j : Nat} (hpos : 0 < size) (hlt : i < j)
    : stretch size i j = min (j - i) (size - i % size) ↔ j - i ≤ size ∨ j % size ≤ i % size := by
  have hi := Nat.mod_lt i hpos
  have hj := Nat.mod_lt j hpos
  unfold stretch
  by_cases hle : j - i ≤ size
  . have hmod := mod_add hpos i (j - i) hle
    rw [Nat.add_sub_cancel' (Nat.le_of_lt hlt)] at hmod
    simp only [hle, true_or, iff_true]
    split at hmod <;> split <;> omega
  . split <;> omega

-- The slots from the end of a window up to its start are outside of the window.
theorem not_mem_stretch {size lo i hi : Nat} (hlo : lo ≤ i) (hhi : i < hi) (hroom : hi - lo < size)
    : ¬(hi % size ≤ i % size ∧ i % size < hi % size + stretch size hi lo) := by
  have hpos : 0 < size := by omega
  have hmod := Nat.mod_lt lo hpos
  have hi' := mod_add hpos lo (i - lo) (by omega)
  have hhi' := mod_add hpos lo (hi - lo) (by omega)
  rw [Nat.add_sub_cancel' hlo] at hi'
  rw [Nat.add_sub_cancel' (by omega)] at hhi'
  unfold stretch
  split at hi' <;> split at hhi' <;> split <;> omega

-- The elements `lo ≤ i < hi` of the history are the ones the ring still holds, element `i` in slot
-- `i % size`.
structure Holds {α : Type} (size : Nat) (cells : Nat → α) (history : Nat → α) (lo hi : Nat)
    : Prop where
  le : lo ≤ hi
  fits : hi - lo ≤ size
  cell : ∀ i, lo ≤ i → i < hi → cells (i % size) = history i

variable {α : Type} {size lo hi : Nat} {cells history : Nat → α}

-- A slot outside the elements held may be written to.
theorem Holds.write {cells' : Nat → α} (h : Holds size cells history lo hi)
    (hroom : hi - lo < size) (hother : ∀ j, j ≠ hi % size → cells' j = cells j)
    : Holds size cells' history lo hi := by
  refine ⟨h.le, h.fits, ?_⟩
  intro i hlo hhi
  rw [hother _ (mod_ne_of_lt hhi (by omega))]
  exact h.cell i hlo hhi

theorem Holds.push {history' : Nat → α} (h : Holds size cells history lo hi)
    (hroom : hi - lo < size) (hsame : ∀ i, lo ≤ i → i < hi → history' i = history i)
    (hnew : cells (hi % size) = history' hi)
    : Holds size cells history' lo (hi + 1) := by
  have hle := h.le
  refine ⟨by omega, by omega, ?_⟩
  intro i hlo hhi
  by_cases heq : i = hi
  . rw [heq]
    exact hnew
  . have hlt : i < hi := by omega
    rw [hsame i hlo hlt]
    exact h.cell i hlo hlt

theorem Holds.pop (h : Holds size cells history lo hi) (hlt : lo < hi)
    : Holds size cells history (lo + 1) hi := by
  have hfits := h.fits
  refine ⟨hlt, by omega, ?_⟩
  intro i hlo hhi
  exact h.cell i (by omega) hhi

end Ring
end Ezio
