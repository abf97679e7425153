import Ezio.Util.Roundup
import Ezio.DataStruct.RingBuffer

/-!
This module contains the sizes that `init` of a `ring_buffer` rejects: they are rounded up and then cut to 32 bits.
-/

namespace Ezio
namespace DataStruct
namespace RingBuffer

theorem init_of_zero {rb : RingBuffer} {blockCnt bufferSize : BitVec 32} {isZeroMem : Bool} {alignSize : BitVec 64}
    {alloc : Nat → Option (Nat → UInt8)}
    (h : BitVec.ofNat 32 (Util.roundupPowerOfTwo blockCnt.toNat) = 0
      ∨ BitVec.ofNat 32 (Util.roundupPowerOfTwo alignSize.toNat) = 0)
    : rb.init blockCnt bufferSize isZeroMem alignSize alloc = (-1, rb) := by
  have hblock : (if Util.isPowerOf2 blockCnt.toNat then blockCnt
      else BitVec.ofNat 32 (Util.roundupPowerOfTwo blockCnt.toNat))
      = BitVec.ofNat 32 (Util.roundupPowerOfTwo blockCnt.toNat) := by
    split
    . next hpow => rw [Util.roundupPowerOfTwo_of_isPowerOf2 hpow, BitVec.ofNat_toNat, BitVec.setWidth_eq]
    . rfl
  have halign : (if Util.isPowerOf2 alignSize.toNat then BitVec.ofNat 32 alignSize.toNat
      else BitVec.ofNat 32 (Util.roundupPowerOfTwo alignSize.toNat))
      = BitVec.ofNat 32 (Util.roundupPowerOfTwo alignSize.toNat) := by
    split
    . next hpow => rw [Util.roundupPowerOfTwo_of_isPowerOf2 hpow]
    . rfl
  unfold init
  rw [hblock, halign]
  exact if_pos h

theorem ofNat_least_eq_zero {val r : Nat} (h : Util.LeastPower val r) (hbig : 2 ^ 31 < r) : BitVec.ofNat 32 r = 0 := by
  obtain ⟨k, rfl⟩ := h.isPowerOfTwo
  have hk : 31 < k := (Nat.pow_lt_pow_iff_right (by decide)).mp hbig
  apply BitVec.eq_of_toNat_eq
  rw [BitVec.toNat_ofNat]
  exact Nat.mod_eq_zero_of_dvd (Nat.pow_dvd_pow 2 hk)

-- Everything that does not fit in 32 bits after rounding is cut to 0.
theorem ofNat_roundup_eq_zero {val : Nat} (hlt : val < 2 ^ 64) (hbig : 2 ^ 31 < val)
    : BitVec.ofNat 32 (Util.roundupPowerOfTwo val) = 0 := by
  by_cases hle : val ≤ 2 ^ 63
  . have hleast := Util.roundupPowerOfTwo_least (by omega) hle
    exact ofNat_least_eq_zero hleast (Nat.lt_of_lt_of_le hbig hleast.le)
  . rw [Util.roundupPowerOfTwo_overflow hlt (by omega)]
    rfl

/--
`roundup_power_of_two` returns the least power of two that is not below the value, and 0 if that does not fit in 64
bits. `init` fails for every count and every alignment whose rounded value does not fit in 32 bits.
-/
theorem roundup_guards_init
    : (∀ val : BitVec 64, ∃ r : BitVec 64,
        (∀ rounds, 64 ≤ rounds → Util.roundupWord val rounds = some r)
        ∧ (1 ≤ val.toNat → val.toNat ≤ 2 ^ 63 → Util.LeastPower val.toNat r.toNat)
        ∧ (val = 0 ∨ 2 ^ 63 < val.toNat → r = 0))
      ∧ ∀ (rb : RingBuffer) blockCnt bufferSize isZeroMem alignSize alloc,
        (2 ^ 31 < blockCnt.toNat ∨ 2 ^ 63 < alignSize.toNat
          ∨ ∃ r : BitVec 64, Util.roundupWord alignSize 64 = some r ∧ 2 ^ 32 ≤ r.toNat)
        → rb.init blockCnt bufferSize isZeroMem alignSize alloc = (-1, rb) := by
  constructor
  . intro val
    refine ⟨_, fun rounds h => Util.roundupWord_eq val h, ?_, ?_⟩
    . intro hpos hle
      have hleast := Util.roundupPowerOfTwo_least hpos hle
      have hr : Util.roundupPowerOfTwo val.toNat ≤ 2 ^ 63 := hleast.least 63 hle
      rw [BitVec.toNat_ofNat, Nat.mod_eq_of_lt (by omega)]
      exact hleast
    . rintro (rfl | hgt)
      . rfl
      . rw [Util.roundupPowerOfTwo_overflow val.isLt hgt]
        rfl
  . intro rb blockCnt bufferSize isZeroMem alignSize alloc h
    apply init_of_zero
    rcases h with hblock | halign | ⟨r, hround, hbig⟩
    . exact .inl (ofNat_roundup_eq_zero (Nat.lt_trans blockCnt.isLt (by decide)) hblock)
    . exact .inr (ofNat_roundup_eq_zero alignSize.isLt (Nat.lt_trans (by decide) halign))
    . right
      by_cases hsmall : alignSize.toNat ≤ 2 ^ 31
      . -- up to there the rounded value fits
        rw [Util.roundupWord_eq alignSize (Nat.le_refl 64)] at hround
        rw [← Option.some.inj hround, BitVec.toNat_ofNat] at hbig
        have hle : Util.roundupPowerOfTwo alignSize.toNat ≤ 2 ^ 31 := by
          rcases Nat.eq_zero_or_pos alignSize.toNat with hzero | hpos
          . rw [hzero]
            decide
          . exact (Util.roundupPowerOfTwo_least hpos (Nat.le_trans hsmall (by decide))).least 31 hsmall
        have := Nat.mod_le (Util.roundupPowerOfTwo alignSize.toNat) (2 ^ 64)
        omega
      . exact ofNat_roundup_eq_zero alignSize.isLt (by omega)

end RingBuffer

end DataStruct
end Ezio
