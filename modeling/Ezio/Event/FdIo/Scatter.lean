import Ezio.Event.FdIo
import Mathlib.Data.List.Nodup
import Mathlib.Logic.Function.Basic

/-!
This module contains the buffers that the bytes of a stream are written to when they are received by several system
calls.
-/

namespace Ezio
namespace FdIo

-- The addresses of the bytes of a list of buffers.
def addrs (iov : List Iovec) : List Nat :=
  iov.flatMap fun v => List.range' v.base v.len

-- The address of each byte that has been received: a system call fills the buffers it is given from the first one on.
def places (moved : List (List Iovec × Nat)) : List Nat :=
  moved.flatMap fun m => (addrs m.1).take m.2

-- The memory after `bytes` have been written to the addresses one after the other.
def deliver (mem : Nat → UInt8) : List Nat → List UInt8 → Nat → UInt8
  | a :: as, b :: bs => deliver (Function.update mem a b) as bs
  | _, _ => mem

theorem addrs_append (iov iov' : List Iovec)
    : addrs (iov ++ iov') = addrs iov ++ addrs iov' :=
  List.flatMap_append

theorem addrs_cons (v : Iovec) (iov : List Iovec)
    : addrs (v :: iov) = List.range' v.base v.len ++ addrs iov :=
  rfl

theorem addrs_of_empty {iov : List Iovec} (h : ∀ v ∈ iov, v.len = 0)
    : addrs iov = [] := by
  rw [addrs, List.flatMap_eq_nil_iff]
  intro v hv
  rw [h v hv]
  rfl

theorem deliver_of_notMem {mem : Nat → UInt8} {as : List Nat} {bs : List UInt8} {a : Nat} (h : a ∉ as)
    : deliver mem as bs a = mem a := by
  induction as generalizing mem bs with
  | nil => rfl
  | cons x as ih =>
    rw [List.mem_cons, not_or] at h
    cases bs with
    | nil => rfl
    | cons b bs => rw [deliver, ih h.2, Function.update_of_ne h.1]

theorem map_deliver {mem : Nat → UInt8} {as : List Nat} {bs : List UInt8} (hnodup : as.Nodup)
    (hlen : bs.length = as.length)
    : as.map (deliver mem as bs) = bs := by
  induction as generalizing mem bs with
  | nil => exact (List.eq_nil_of_length_eq_zero hlen).symm
  | cons a as ih =>
    cases bs with
    | nil => cases hlen
    | cons b bs =>
      rw [List.nodup_cons] at hnodup
      rw [List.map_cons, deliver, deliver_of_notMem hnodup.1, Function.update_self, ih hnodup.2 (by simpa using hlen)]

-- A byte that is found at an address has been written there, if it has not been there before.
theorem exists_of_deliver {mem : Nat → UInt8} {as : List Nat} {bs : List UInt8} {a : Nat} {b : UInt8}
    (hmem : mem a ≠ b) (h : deliver mem as bs a = b)
    : ∃ i : Nat, as[i]? = some a ∧ bs[i]? = some b := by
  induction as generalizing mem bs with
  | nil => exact absurd h hmem
  | cons x as ih =>
    cases bs with
    | nil => exact absurd h hmem
    | cons y bs =>
      rw [deliver] at h
      by_cases hfirst : Function.update mem x y a = b
      . by_cases hax : a = x
        . rw [hax, Function.update_self] at hfirst
          exact ⟨0, by simp [hax], by simp [hfirst]⟩
        . rw [Function.update_of_ne hax] at hfirst
          exact absurd hfirst hmem
      . obtain ⟨i, hi, hb⟩ := ih hfirst h
        exact ⟨i + 1, hi, hb⟩

-- The bytes are found in order, whatever they are, only if each of them is written to its own address and to no other.
theorem forall_map_deliver_iff {as ps : List Nat}
    : (∀ mem bytes, bytes.length = ps.length → (as.take bytes.length).map (deliver mem ps bytes) = bytes)
      ↔ ps = as.take ps.length ∧ ps.Nodup := by
  constructor
  . intro h
    have hlen : ps.length ≤ as.length := by
      have := congrArg List.length (h (fun _ => 0) (List.replicate ps.length 0) (by simp))
      simp only [List.length_map, List.length_take, List.length_replicate] at this
      omega
    -- The bytes are zero, apart from the one at `i`.
    have hget : ∀ i j : Nat, i < ps.length → j < ps.length → ∀ a, as[j]? = some a
        → deliver (fun _ => 0) ps ((List.range ps.length).map fun k => if k = i then 1 else 0) a
          = if j = i then 1 else 0 := by
      intro i j hi hj a ha
      have hbytes := h (fun _ => 0) ((List.range ps.length).map fun k => if k = i then 1 else 0) (by simp)
      have hget := congrArg (·[j]?) hbytes
      simp only [List.length_map, List.length_range, List.getElem?_map, List.getElem?_range hj, Option.map_some] at hget
      rw [List.getElem?_take_of_lt hj, ha, Option.map_some] at hget
      exact Option.some.inj hget
    have heq : ∀ i : Nat, i < ps.length → ps[i]? = as[i]? := by
      intro i hi
      have ha := List.getElem?_eq_getElem (Nat.lt_of_lt_of_le hi hlen)
      obtain ⟨j, hj, hone⟩ := exists_of_deliver (by simp) ((hget i i hi hi _ ha).trans (if_pos rfl))
      have hjlt : j < ps.length := (List.getElem?_eq_some_iff.mp hj).1
      rw [List.getElem?_map, List.getElem?_range hjlt, Option.map_some, Option.some.injEq] at hone
      have hji : j = i := by
        by_contra hne
        rw [if_neg hne] at hone
        cases hone
      rw [ha, ← hj, hji]
    refine ⟨?_, ?_⟩
    . apply List.ext_getElem?
      intro i
      by_cases hi : i < ps.length
      . rw [List.getElem?_take_of_lt hi, heq i hi]
      . rw [List.getElem?_eq_none (Nat.le_of_not_lt hi), List.getElem?_eq_none]
        simp only [List.length_take]
        omega
    . rw [List.nodup_iff_getElem?_ne_getElem?]
      intro i j hij hj hsame
      have hi : i < ps.length := Nat.lt_trans hij hj
      have ha := List.getElem?_eq_getElem (Nat.lt_of_lt_of_le hi hlen)
      have hone := hget i i hi hi _ ha
      have hzero := hget i j hi hj _ (by rw [← heq j hj, ← hsame, heq i hi, ha])
      rw [hone, if_pos rfl, if_neg (Nat.ne_of_gt hij)] at hzero
      cases hzero
  . rintro ⟨heq, hnodup⟩ mem bytes hbytes
    have htake : as.take bytes.length = ps := by rw [hbytes]; exact heq.symm
    rw [htake]
    exact map_deliver hnodup hbytes

end FdIo

end Ezio
