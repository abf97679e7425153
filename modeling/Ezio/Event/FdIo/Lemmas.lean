import Ezio.Event.FdIo

/-!
This module contains what the operations on file descriptors return.
-/

namespace Ezio
namespace FdIo

namespace Udp

theorem readFd_go_ret {cnt : Nat} {buf : List Mmsghdr} {result : Nat}
    {sys sys' : List SysRet} {r : RecvRet} (hresult : result ≤ cnt)
    (h : readFd.go cnt buf result sys = .done r sys') (hret : r.ret = INT32_MAX)
    : r.isEmpty = true ∨ toInt32 cnt = INT32_MAX := by
  induction sys generalizing buf result with
  | nil =>
    unfold readFd.go at h
    split at h
    next hle =>
      have : result = cnt := by omega
      simp only [Io.done.injEq] at h
      rw [← h.1] at hret
      dsimp only at hret
      rw [← this]
      exact .inr hret
    . cases h
  | cons x sys ih =>
    unfold readFd.go at h
    split at h
    next hle =>
      have : result = cnt := by omega
      simp only [Io.done.injEq] at h
      rw [← h.1] at hret
      dsimp only at hret
      rw [← this]
      exact .inr hret
    . cases x with
      | ok n lens =>
        apply ih _ h
        omega
      | fail e =>
        dsimp only at h
        split at h
        . split at h
          all_goals
            simp only [Io.done.injEq] at h
            rw [← h.1]
            exact .inl rfl
        . split at h
          . exact ih hresult h
          . simp only [Io.done.injEq] at h
            rw [← h.1] at hret
            simp [INT32_MAX] at hret

theorem readFd_ret {cnt : Nat} {buf : List Mmsghdr} {sys sys' : List SysRet} {r : RecvRet}
    (h : readFd buf cnt sys = .done r sys') (hret : r.ret = INT32_MAX)
    (hcnt : toInt32 cnt ≠ INT32_MAX)
    : r.isEmpty = true := by
  cases readFd_go_ret (Nat.zero_le cnt) h hret with
  | inl h => exact h
  | inr h => exact absurd h hcnt

theorem fillLens_iov (buf : List Mmsghdr) (start : Nat) (lens : List Nat)
    : (fillLens buf start lens).map (·.iov) = buf.map (·.iov) := by
  unfold fillLens
  apply List.ext_getElem
  . simp
  . intro i hi hi'
    simp only [List.getElem_map, List.getElem_mapIdx]
    split
    . rfl
    . rfl

-- The headers keep their buffers, and no more datagrams are counted than there are buffers for.
theorem readFd_go_spec {cnt : Nat} {buf : List Mmsghdr} {result : Nat} {sys sys' : List SysRet}
    {r : RecvRet} (hresult : result ≤ cnt) (h : readFd.go cnt buf result sys = .done r sys')
    : r.buf.map (·.iov) = buf.map (·.iov) ∧ (r.ret = INT32_MAX ∨ r.ret ≤ cnt) := by
  have hle := toInt32_le result
  induction sys generalizing buf result with
  | nil =>
    unfold readFd.go at h
    split at h
    . rw [← (Io.done.inj h).1]
      refine ⟨rfl, .inr ?_⟩
      dsimp only
      omega
    . cases h
  | cons x sys ih =>
    unfold readFd.go at h
    split at h
    . rw [← (Io.done.inj h).1]
      refine ⟨rfl, .inr ?_⟩
      dsimp only
      omega
    . cases x with
      | ok n lens =>
        obtain ⟨hbuf, hret⟩ := ih (by omega) h (toInt32_le _)
        exact ⟨hbuf.trans (fillLens_iov _ _ _), hret⟩
      | fail e =>
        dsimp only at h
        split at h
        . split at h
          . rw [← (Io.done.inj h).1]
            refine ⟨rfl, .inr ?_⟩
            dsimp only
            omega
          . rw [← (Io.done.inj h).1]
            exact ⟨rfl, .inl rfl⟩
        . split at h
          . exact ih hresult h hle
          . rw [← (Io.done.inj h).1]
            refine ⟨rfl, .inr ?_⟩
            dsimp only
            omega

theorem readFd_go_of_le {cnt result : Nat} {buf : List Mmsghdr} {sys : List SysRet}
    (h : cnt ≤ result)
    : readFd.go cnt buf result sys = .done ⟨toInt32 result, false, buf⟩ sys := by
  unfold readFd.go
  rw [if_pos h]

theorem readFd_go_ok {cnt result n : Nat} {buf : List Mmsghdr} {lens : List Nat} {sys : List SysRet}
    (h : ¬cnt ≤ result)
    : readFd.go cnt buf result (.ok n lens :: sys) =
        readFd.go cnt (fillLens buf result (lens.take (min n (cnt - result))))
          (result + min n (cnt - result)) sys := by
  rw [readFd.go.eq_def, if_neg h]

-- As long as there are enough buffers for them, the datagrams of every call are added up.
theorem readFd_go_replicate (cnt n : Nat) (hn : 0 < n) (k : Nat) (buf : List Mmsghdr) (result : Nat)
    (sys : List SysRet) (hcnt : result + k * n ≤ cnt)
    : ∃ buf', readFd.go cnt buf result (List.replicate k (SysRet.ok n []) ++ sys) =
        readFd.go cnt buf' (result + k * n) sys := by
  induction k generalizing buf result with
  | zero => exact ⟨buf, by simp⟩
  | succ k ih =>
    have hmul : (k + 1) * n = k * n + n := Nat.succ_mul k n
    have hlt : ¬cnt ≤ result := by omega
    have hmin : min n (cnt - result) = n := by omega
    rw [List.replicate_succ, List.cons_append, readFd_go_ok hlt, hmin]
    obtain ⟨buf', h⟩ := ih (fillLens buf result ([].take n)) (result + n) (by omega)
    refine ⟨buf', ?_⟩
    rw [h, hmul, Nat.add_assoc, Nat.add_comm n]

end Udp

end FdIo
end Ezio
