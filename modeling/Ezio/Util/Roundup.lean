import Mathlib.Data.Nat.Bitwise
import Ezio.Util

/-!
This module contains `roundup_power_of_two` on 64 bit words.
-/

namespace Ezio
namespace Util

namespace roundupPowerOfTwo

-- The bit that is looked for is below the one that is not set.
theorem lt_of_bit {val k : Nat} (hbit : 2 ^ (k + 1) &&& val = 0) (hlt : val < 2 ^ (k + 2)) : val < 2 ^ (k + 1) := by
  by_contra hge
  have htest := Nat.testBit_of_two_pow_le_and_two_pow_add_one_gt (Nat.le_of_not_lt hge) hlt
  rw [Nat.two_pow_and, htest] at hbit
  have := Nat.two_pow_pos (k + 1)
  simp at hbit

theorem le_of_bit {val k : Nat} (hbit : 2 ^ k &&& val ≠ 0) : 2 ^ k ≤ val := by
  by_contra hsmall
  rw [Nat.two_pow_and, Nat.testBit_lt_two_pow (Nat.lt_of_not_le hsmall)] at hbit
  exact hbit (by simp)

theorem go_eq {val k : Nat} (hpos : 0 < val) (hlt : val < 2 ^ (k + 1))
    : roundupPowerOfTwo.go val k = 2 ^ (val.log2 + 1) % 2 ^ 64 := by
  induction k with
  | zero =>
    have hone : val = 1 := by omega
    subst hone
    rfl
  | succ k ih =>
    unfold go
    split
    . next hbit => exact ih (lt_of_bit hbit hlt)
    . next hbit =>
      rw [(Nat.log2_eq_iff (by omega)).mpr ⟨le_of_bit hbit, hlt⟩, Nat.shiftLeft_eq, ← Nat.pow_succ]

end roundupPowerOfTwo

theorem and_pred_ne_zero {val : Nat} (hpos : 0 < val) (hpow : isPowerOf2 val = false) : val &&& (val - 1) ≠ 0 := by
  intro hand
  simp [isPowerOf2, hand, Nat.ne_of_gt hpos] at hpow

theorem roundupPowerOfTwo_eq {val : Nat} (hlt : val < 2 ^ 64) (hpos : 0 < val) (hpow : isPowerOf2 val = false)
    : roundupPowerOfTwo val = 2 ^ (val.log2 + 1) % 2 ^ 64 := by
  unfold roundupPowerOfTwo
  rw [if_neg (and_pred_ne_zero hpos hpow)]
  exact roundupPowerOfTwo.go_eq hpos hlt

theorem isPowerOf2_iff (n : Nat) : isPowerOf2 n = true ↔ n.isPowerOfTwo := by
  rw [← Nat.ne_zero_and_sub_one_eq_zero_iff_isPowerOfTwo]
  simp [isPowerOf2]

theorem roundupPowerOfTwo_of_isPowerOf2 {val : Nat} (h : isPowerOf2 val = true) : roundupPowerOfTwo val = val := by
  have hand : val &&& (val - 1) = 0 := by
    simp only [isPowerOf2, Bool.and_eq_true, beq_iff_eq] at h
    exact h.2
  rw [roundupPowerOfTwo, if_pos hand]

-- The least power of two that is not below the value.
structure LeastPower (val r : Nat) : Prop where
  isPowerOfTwo : r.isPowerOfTwo
  le : val ≤ r
  least : ∀ k, val ≤ 2 ^ k → r ≤ 2 ^ k

theorem roundupPowerOfTwo_least {val : Nat} (hpos : 0 < val) (hle : val ≤ 2 ^ 63)
    : LeastPower val (roundupPowerOfTwo val) := by
  cases hpow : isPowerOf2 val with
  | true =>
    rw [roundupPowerOfTwo_of_isPowerOf2 hpow]
    exact ⟨(isPowerOf2_iff val).mp hpow, Nat.le_refl _, fun _ h => h⟩
  | false =>
    -- the value lies strictly between two powers of two
    have hne : ∀ k, val ≠ 2 ^ k := by
      intro k heq
      rw [(isPowerOf2_iff val).mpr ⟨k, heq⟩] at hpow
      cases hpow
    have hlog : ∀ k, val ≤ 2 ^ k → val.log2 < k := by
      intro k hk
      exact (Nat.log2_lt (by omega)).mpr (Nat.lt_of_le_of_ne hk (hne k))
    have hsmall : 2 ^ (val.log2 + 1) < 2 ^ 64 := Nat.pow_lt_pow_right (by decide) (by have := hlog 63 hle; omega)
    rw [roundupPowerOfTwo_eq (Nat.lt_of_le_of_lt hle (by decide)) hpos hpow, Nat.mod_eq_of_lt hsmall]
    refine ⟨⟨_, rfl⟩, Nat.le_of_lt Nat.lt_log2_self, ?_⟩
    intro k hk
    exact Nat.pow_le_pow_right (by decide) (hlog k hk)

theorem roundupPowerOfTwo_overflow {val : Nat} (hlt : val < 2 ^ 64) (hgt : 2 ^ 63 < val)
    : roundupPowerOfTwo val = 0 := by
  have hlog : val.log2 = 63 := (Nat.log2_eq_iff (by omega)).mpr ⟨Nat.le_of_lt hgt, hlt⟩
  have hpow : isPowerOf2 val = false := by
    rw [Bool.eq_false_iff]
    intro hpow
    obtain ⟨k, rfl⟩ := (isPowerOf2_iff val).mp hpow
    have hlow := (Nat.pow_lt_pow_iff_right (by decide)).mp hgt
    have hhigh := (Nat.pow_lt_pow_iff_right (by decide)).mp hlt
    omega
  rw [roundupPowerOfTwo_eq hlt (by omega) hpow, hlog]
  exact Nat.mod_self (2 ^ 64)

-- The loop of `roundup_power_of_two`, as far as it gets in the given number of rounds.
def roundupLoop (val : BitVec 64) : (rounds : Nat) → (andv : BitVec 64) → Option (BitVec 64)
  | 0, _ => none
  | rounds + 1, andv => if andv &&& val = 0 then roundupLoop val rounds (andv >>> 1) else some (andv <<< 1)

def roundupWord (val : BitVec 64) (rounds : Nat) : Option (BitVec 64) :=
  if val &&& (val - 1) = 0 then
    some val
  else
    let maxulong := BitVec.allOnes 64
    roundupLoop val rounds (~~~(maxulong &&& (maxulong >>> 1)))

theorem toNat_two_pow_and (val : BitVec 64) {k : Nat} (hk : k < 64)
    : (BitVec.ofNat 64 (2 ^ k) &&& val).toNat = 2 ^ k &&& val.toNat := by
  rw [BitVec.toNat_and, BitVec.toNat_ofNat, Nat.mod_eq_of_lt (Nat.pow_lt_pow_right (by decide) hk)]

theorem two_pow_and_eq_zero (val : BitVec 64) {k : Nat} (hk : k < 64)
    : BitVec.ofNat 64 (2 ^ k) &&& val = 0 ↔ 2 ^ k &&& val.toNat = 0 := by
  rw [← BitVec.toNat_inj, toNat_two_pow_and val hk]
  rfl

theorem ofNat_two_pow_ushiftRight {k : Nat} (hk : k + 1 < 64)
    : BitVec.ofNat 64 (2 ^ (k + 1)) >>> 1 = BitVec.ofNat 64 (2 ^ k) := by
  apply BitVec.eq_of_toNat_eq
  rw [BitVec.toNat_ushiftRight, BitVec.toNat_ofNat, BitVec.toNat_ofNat,
    Nat.mod_eq_of_lt (Nat.pow_lt_pow_right (by decide) hk),
    Nat.mod_eq_of_lt (Nat.pow_lt_pow_right (by decide) (by omega)),
    Nat.shiftRight_eq_div_pow, Nat.pow_one, Nat.pow_succ, Nat.mul_div_cancel _ (by decide)]

theorem ofNat_two_pow_shiftLeft (k : Nat)
    : BitVec.ofNat 64 (2 ^ k) <<< 1 = BitVec.ofNat 64 ((2 ^ k <<< 1) % 2 ^ 64) := by
  apply BitVec.eq_of_toNat_eq
  rw [BitVec.toNat_shiftLeft, BitVec.toNat_ofNat, BitVec.toNat_ofNat, Nat.shiftLeft_eq, Nat.shiftLeft_eq,
    Nat.mod_mul_mod,
    Nat.mod_mod]

-- The loop ends at the highest bit of the value, at the latest after as many rounds as there are bits left.
theorem roundupLoop_eq {val : BitVec 64} {k rounds : Nat} (hpos : 0 < val.toNat) (hlt : val.toNat < 2 ^ (k + 1))
    (hk : k < 64) (hrounds : k < rounds)
    : roundupLoop val rounds (BitVec.ofNat 64 (2 ^ k)) = some (BitVec.ofNat 64 (roundupPowerOfTwo.go val.toNat k)) := by
  induction k generalizing rounds with
  | zero =>
    have hone : val = 1 := BitVec.eq_of_toNat_eq (by change val.toNat = 1; omega)
    subst hone
    cases rounds with
    | zero => omega
    | succ rounds => rfl
  | succ k ih =>
    cases rounds with
    | zero => omega
    | succ rounds =>
      unfold roundupLoop roundupPowerOfTwo.go
      rw [if_congr (two_pow_and_eq_zero val hk) rfl rfl]
      split
      . next hbit =>
        rw [ofNat_two_pow_ushiftRight hk]
        exact ih (roundupPowerOfTwo.lt_of_bit hbit hlt) (by omega) (by omega)
      . rw [ofNat_two_pow_shiftLeft]

theorem and_pred_eq_zero (val : BitVec 64)
    : val &&& (val - 1) = 0 ↔ val.toNat &&& (val.toNat - 1) = 0 := by
  by_cases hzero : val = 0
  . subst hzero
    decide
  . have hpos : 1 ≤ val.toNat := by
      have : val.toNat ≠ 0 := fun h => hzero (BitVec.eq_of_toNat_eq h)
      omega
    have hpred : (val - 1).toNat = val.toNat - 1 := BitVec.toNat_sub_of_le hpos
    rw [← BitVec.toNat_inj, BitVec.toNat_and, hpred]
    rfl

-- On words the function returns, and it returns what it does on numbers.
theorem roundupWord_eq (val : BitVec 64) {rounds : Nat} (h : 64 ≤ rounds)
    : roundupWord val rounds = some (BitVec.ofNat 64 (roundupPowerOfTwo val.toNat)) := by
  unfold roundupWord roundupPowerOfTwo
  rw [if_congr (and_pred_eq_zero val) rfl rfl]
  split
  . rw [BitVec.ofNat_toNat, BitVec.setWidth_eq]
  . next hne =>
    have hpos : 0 < val.toNat := Nat.pos_of_ne_zero fun hzero => hne (by rw [hzero]; rfl)
    have hstart : ~~~(BitVec.allOnes 64 &&& (BitVec.allOnes 64 >>> 1)) = BitVec.ofNat 64 (2 ^ 63) := by decide
    dsimp only
    rw [hstart]
    exact roundupLoop_eq hpos val.isLt (by decide) h

end Util

end Ezio
