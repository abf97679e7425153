import Mathlib.Algebra.Ring.Int.Defs
import Mathlib.Algebra.Ring.Nat
import Mathlib.Data.List.Basic

/-!
This module contains the functions of `util.cpp` that the poll backends are built on.
-/

namespace Ezio

structure Iovec where
  base : Nat
  len : Nat
  deriving DecidableEq, Repr

-- The value of a 32 bit unsigned number when it is returned as an `int32_t`.
def toInt32 (n : Nat) : Int :=
  Int.bmod n (2 ^ 32)

theorem toInt32_le (n : Nat)
    : toInt32 n ≤ n := by
  unfold toInt32
  rw [Int.bmod_def]
  split
  . omega
  . omega

theorem toInt32_of_lt {n : Nat} (h : n < 2 ^ 31)
    : toInt32 n = n := by
  unfold toInt32
  rw [Int.bmod_eq_of_le]
  . omega
  . omega

theorem toInt32_neg {n : Nat} (h : 2 ^ 31 ≤ n) (hlt : n < 2 ^ 32)
    : toInt32 n < 0 := by
  unfold toInt32
  rw [Int.bmod_def]
  split
  . omega
  . omega

theorem toInt32_eq_zero (n : Nat)
    : toInt32 n = 0 ↔ n % 2 ^ 32 = 0 := by
  unfold toInt32
  rw [Int.bmod_def]
  split
  . omega
  . omega

theorem toInt32_mod (n : Nat)
    : toInt32 (n % 2 ^ 32) = toInt32 n := by
  have h : ((n % 2 ^ 32 : Nat) : Int) = (n : Int) % ((2 ^ 32 : Nat) : Int) := Int.natCast_emod n (2 ^ 32)
  unfold toInt32
  rw [h, Int.emod_bmod]

namespace Util

-- `move_iov`. The array the pointer moves over is split in three: the return code, the entries the
-- pointer has moved past and the entries it still spans. Only the first of the latter is written to.
def moveIov (iov : List Iovec) (moveSize : Nat) : Int × List Iovec × List Iovec :=
  match iov with
  | [] => (-1, [], [])
  | v :: vs =>
    if v.len ≤ moveSize then
      let (ret, passed, left) := moveIov vs (moveSize - v.len)
      (ret, v :: passed, left)
    else
      (0, [], { base := v.base + moveSize, len := v.len - moveSize } :: vs)

def isPowerOf2 (n : Nat) : Bool :=
  n != 0 && n &&& (n - 1) == 0

def roundupPowerOfTwo (val : Nat) : Nat :=
  if val &&& (val - 1) = 0 then
    val
  else
    go val 63
where
  -- `andv` is `2 ^ k`
  go (val : Nat) : Nat → Nat
    | 0 => 2
    | k + 1 => if 2 ^ (k + 1) &&& val = 0 then go val k else (2 ^ (k + 1) <<< 1) % 2 ^ 64

end Util

end Ezio
