import Ezio.Event.FdIo.Scatter

/-!
This module contains where `read_fd` of a TCP socket puts the bytes it receives. `move_iov` moves the pointer of the
loop, `msg_iov` stays at the first buffer.
-/

namespace Ezio
namespace FdIo

namespace Tcp

variable {iov passed rest : List Iovec} {v : Iovec} {ns : List Nat}

-- The counts of the system calls that have received something.
def received (sys : List SysRet) : List Nat :=
  sys.filterMap fun
    | .ok n _ => some n
    | .fail _ => none

def space (iov : List Iovec) : Nat :=
  (iov.map (·.len)).sum

theorem space_eq_length (iov : List Iovec)
    : space iov = (addrs iov).length := by
  induction iov with
  | nil => rfl
  | cons v iov ih =>
    rw [addrs_cons, List.length_append, List.length_range', ← ih]
    rfl

-- The first buffer that is not empty.
def firstLen (iov : List Iovec) : Nat :=
  match iov with
  | [] => 0
  | v :: iov => if v.len = 0 then firstLen iov else v.len

structure ReadsInOrder (iov : List Iovec) (r : FdRet) : Prop where
  ret : r.ret = (r.moved.map (·.2)).sum
  bytes : ∀ mem bytes, bytes.length = (places r.moved).length
    → ((addrs iov).take bytes.length).map (deliver mem (places r.moved) bytes) = bytes

-- The last call that receives something is made while the first buffer has space left.
def FillsFirst (iov : List Iovec) (counts : List Nat) : Prop :=
  counts.dropLast = [] ∨ counts.dropLast.sum < firstLen iov

-- The calls that the loop makes, one for each count.
def calls (passed iov : List Iovec) : List Nat → List (List Iovec × Nat)
  | [] => []
  | n :: ns =>
    (passed ++ iov, n) :: match Util.moveIov iov n with
      | (ret, passed', iov) => if ret = 0 then calls (passed ++ passed') iov ns else []

-- An answer that does not end the loop.
def GoesOn (a : SysRet) : Prop :=
  a = .fail .intr ∨ ∃ n lens, a = .ok n lens ∧ 0 < n ∧ n < 2 ^ 32

-- The pointer is moved by as many bytes as it is told to, unless it gets to the end.
theorem moveIov_space {n : Nat} {ret : Int} {passed left : List Iovec}
    (h : Util.moveIov iov n = (ret, passed, left))
    : (ret = 0 → space iov = n + space left) ∧ (ret ≠ 0 → space iov ≤ n) := by
  induction iov generalizing n passed with
  | nil =>
    cases h
    exact ⟨fun h => absurd h (by decide), fun _ => Nat.zero_le n⟩
  | cons v vs ih =>
    have hspace : space (v :: vs) = v.len + space vs := List.sum_cons
    rw [Util.moveIov] at h
    split at h
    next hle =>
      rcases hvs : Util.moveIov vs (n - v.len) with ⟨ret', passed', left'⟩
      rw [hvs] at h
      cases h
      obtain ⟨hzero, hend⟩ := ih hvs
      refine ⟨?_, ?_⟩
      . intro hret
        have := hzero hret
        omega
      . intro hret
        have := hend hret
        omega
    next hlt =>
      cases h
      refine ⟨?_, fun hret => absurd rfl hret⟩
      intro _
      have hleft : space (⟨v.base + n, v.len - n⟩ :: vs) = v.len - n + space vs := List.sum_cons
      omega

-- The reads and the writes of a TCP socket only differ in what they do if a call returns 0.
theorem go_eq {op : StreamOp} (hmsg : op.isMsg) (hagain : op.onAgain) {as : List SysRet} (has : ∀ a ∈ as, GoesOn a)
    (passed iov : List Iovec) (result : Nat) (moved : List (List Iovec × Nat))
    : ∃ used left r, as ++ [SysRet.fail .again] = used ++ left
      ∧ streamFd.go op passed iov result moved (as ++ [SysRet.fail .again]) = .done r left
      ∧ r.moved = moved ++ calls passed iov (received used)
      ∧ (calls passed iov (received used)).map (·.2) = received used
      ∧ r.ret = toInt32 (result + (received used).sum)
      ∧ (r.flag = true ∨ space iov ≤ (received used).sum) := by
  induction as generalizing passed iov result moved with
  | nil =>
    refine ⟨[SysRet.fail .again], [], ⟨toInt32 result, true, passed ++ iov, moved⟩, rfl, ?_, ?_, rfl, ?_, .inl rfl⟩
    . simp [streamFd.go, hagain]
    . simp [received, calls]
    . simp [received]
  | cons a as ih =>
    rw [List.forall_mem_cons] at has
    obtain ⟨ha, has⟩ := has
    rcases ha with rfl | ⟨n, lens, rfl, hpos, hlt⟩
    . obtain ⟨used, left, r, heq, hgo, hmoved, hcounts, hret, hend⟩ := ih has passed iov result moved
      refine ⟨SysRet.fail .intr :: used, left, r, by rw [List.cons_append, heq, List.cons_append], ?_, hmoved, hcounts,
        hret, hend⟩
      simpa [streamFd.go, hagain] using hgo
    . have hzero : n ≠ 0 := Nat.ne_of_gt hpos
      have hmod : n % 2 ^ 32 = n := Nat.mod_eq_of_lt hlt
      have hgo : streamFd.go op passed iov result moved (.ok n lens :: as ++ [SysRet.fail .again])
          = match Util.moveIov iov n with
            | (ret, passed', iov') =>
              if ret = 0 then
                streamFd.go op (passed ++ passed') iov' ((result + n) % 2 ^ 32) (moved ++ [(passed ++ iov, n)])
                  (as ++ [SysRet.fail .again])
              else
                .done ⟨toInt32 ((result + n) % 2 ^ 32), false, passed ++ passed' ++ iov', moved ++ [(passed ++ iov, n)]⟩
                  (as ++ [SysRet.fail .again]) := by
        rw [List.cons_append]
        conv => lhs; unfold streamFd.go
        simp only [hmsg, hzero, false_and, if_false, if_true, hmod]
      have hcalls : ∀ ms, calls passed iov (n :: ms)
          = (passed ++ iov, n) :: match Util.moveIov iov n with
            | (ret, passed', iov') => if ret = 0 then calls (passed ++ passed') iov' ms else [] := fun _ => rfl
      rcases hmove : Util.moveIov iov n with ⟨ret, passed', iov'⟩
      obtain ⟨hspace, hfull⟩ := moveIov_space hmove
      rw [hmove] at hgo
      simp only [hmove] at hcalls
      by_cases hret : ret = 0
      . obtain ⟨used, left, r, heq, hgo', hmoved, hcounts, hret', hend⟩ :=
          ih has (passed ++ passed') iov' ((result + n) % 2 ^ 32) (moved ++ [(passed ++ iov, n)])
        have hreceived : received (.ok n lens :: used) = n :: received used := rfl
        refine ⟨.ok n lens :: used, left, r, by rw [List.cons_append, heq, List.cons_append], ?_, ?_, ?_, ?_, ?_⟩
        . rw [hgo]
          simp only [hret, if_true]
          exact hgo'
        . rw [hmoved, hreceived, hcalls, if_pos hret, List.append_assoc]
          rfl
        . rw [hreceived, hcalls, if_pos hret, List.map_cons, hcounts]
        . rw [hret', hreceived, List.sum_cons, ← Nat.add_assoc, ← toInt32_mod, Nat.mod_add_mod, toInt32_mod]
        . rw [hreceived, List.sum_cons, hspace hret]
          exact hend.imp_right (Nat.add_le_add_left · n)
      . have hreceived : received [.ok n lens] = [n] := rfl
        refine ⟨[.ok n lens], as ++ [SysRet.fail .again],
          ⟨toInt32 ((result + n) % 2 ^ 32), false, passed ++ passed' ++ iov', moved ++ [(passed ++ iov, n)]⟩, rfl,
          ?_, ?_, ?_, ?_, ?_⟩
        . rw [hgo]
          simp only [hret, if_false]
        . rw [hreceived, hcalls, if_neg hret]
        . rw [hreceived, hcalls, if_neg hret]
          rfl
        . rw [hreceived, toInt32_mod, List.sum_singleton]
        . rw [hreceived, List.sum_singleton]
          exact .inr (hfull hret)

/-!
The calls are offered what is left of the first buffer and the buffers behind it, as long as the first buffer has not
been filled.
-/

theorem moveIov_of_lt {n : Nat} (h : n < firstLen iov)
    : ∃ passed' iov', Util.moveIov iov n = (0, passed', iov') ∧ (∀ v ∈ passed', v.len = 0)
      ∧ addrs iov' = (addrs iov).drop n ∧ firstLen iov' = firstLen iov - n := by
  induction iov with
  | nil => exact absurd h (Nat.not_lt_zero n)
  | cons v vs ih =>
    rw [firstLen] at h
    split at h
    next hzero =>
      obtain ⟨passed', iov', hmove, hpassed, haddrs, hfirst⟩ := ih h
      refine ⟨v :: passed', iov', ?_, ?_, ?_, ?_⟩
      . rw [Util.moveIov, if_pos (by omega), hzero, Nat.sub_zero, hmove]
      . rw [List.forall_mem_cons]
        exact ⟨hzero, hpassed⟩
      . rw [haddrs, addrs_cons, hzero]
        rfl
      . rw [hfirst, firstLen, if_pos hzero]
    next hzero =>
      refine ⟨[], ⟨v.base + n, v.len - n⟩ :: vs, ?_, ?_, ?_, ?_⟩
      . rw [Util.moveIov, if_neg (by omega)]
      . intro v hv
        cases hv
      . rw [addrs_cons, addrs_cons, List.drop_append_of_le_length (by simp; omega), List.drop_range']
        simp
      . rw [firstLen, firstLen, if_neg (by simp only; omega), if_neg hzero]

-- A buffer that is filled stays where it is.
theorem moveIov_head? {n : Nat} {ret : Int} {passed' iov' : List Iovec} (h : firstLen iov ≤ n)
    (hmove : Util.moveIov iov n = (ret, passed', iov'))
    : (addrs (passed' ++ iov')).head? = (addrs iov).head? := by
  induction iov generalizing n passed' with
  | nil =>
    cases hmove
    rfl
  | cons v vs ih =>
    have hle : v.len ≤ n := by
      rw [firstLen] at h
      split at h
      . omega
      . exact h
    rcases hvs : Util.moveIov vs (n - v.len) with ⟨ret', passed'', iov''⟩
    rw [Util.moveIov, if_pos hle, hvs] at hmove
    cases hmove
    rw [List.cons_append, addrs_cons, addrs_cons, List.head?_append, List.head?_append]
    by_cases hzero : v.len = 0
    . rw [firstLen, if_pos hzero] at h
      rw [ih (by omega) hvs]
    . cases hlen : v.len with
      | zero => exact absurd hlen hzero
      | succ k => rw [List.range'_succ, List.head?_cons, Option.some_or, Option.some_or]

theorem places_calls_of_fillsFirst (hpassed : ∀ v ∈ passed, v.len = 0) (h : FillsFirst iov ns)
    : places (calls passed iov ns) = (addrs iov).take ns.sum := by
  induction ns generalizing passed iov with
  | nil => rfl
  | cons n ns ih =>
    have hoffered : addrs (passed ++ iov) = addrs iov := by rw [addrs_append, addrs_of_empty hpassed, List.nil_append]
    cases ns with
    | nil =>
      have hcalls : calls passed iov [n] = [(passed ++ iov, n)] := by
        rw [calls]
        simp only [calls, ite_self]
      rw [hcalls, places, List.flatMap_singleton, hoffered]
      rfl
    | cons m ms =>
      have hlt : n + (m :: ms).dropLast.sum < firstLen iov := by
        rcases h with h | h
        . cases h
        . exact h
      obtain ⟨passed', iov', hmove, hpassed', haddrs, hfirst⟩ := moveIov_of_lt (n := n) (show n < firstLen iov by omega)
      have hempty : ∀ v ∈ passed ++ passed', v.len = 0 := by
        intro v hv
        rw [List.mem_append] at hv
        exact hv.elim (hpassed v) (hpassed' v)
      have hrest := ih hempty (show FillsFirst iov' (m :: ms) from .inr (by omega))
      have hcalls : calls passed iov (n :: m :: ms)
          = (passed ++ iov, n) :: calls (passed ++ passed') iov' (m :: ms) := by
        rw [calls, hmove]
        rfl
      rw [hcalls, places, List.flatMap_cons, ← places, hrest, hoffered, haddrs, List.sum_cons (a := n), List.take_add]

-- The first byte that is still free is written to by two calls.
theorem places_calls_not_nodup (hpassed : ∀ v ∈ passed, v.len = 0) (hpos : ∀ n ∈ ns, 0 < n)
    (hcounts : (calls passed iov ns).map (·.2) = ns) (hfit : ∀ m ∈ calls passed iov ns, m.2 ≤ space m.1)
    (h : ¬FillsFirst iov ns)
    : ¬(places (calls passed iov ns)).Nodup := by
  induction ns generalizing passed iov with
  | nil => exact absurd (.inl rfl) h
  | cons n ns ih =>
    have hoffered : addrs (passed ++ iov) = addrs iov := by rw [addrs_append, addrs_of_empty hpassed, List.nil_append]
    cases ns with
    | nil => exact absurd (.inl rfl) h
    | cons m ms =>
      have hge : firstLen iov ≤ n + (m :: ms).dropLast.sum := Nat.le_of_not_lt fun hlt => h (.inr hlt)
      rcases hmove : Util.moveIov iov n with ⟨ret, passed', iov'⟩
      have hret : ret = 0 := by
        by_contra hne
        rw [calls, hmove] at hcounts
        simp only [if_neg hne] at hcounts
        cases hcounts
      have hcalls : calls passed iov (n :: m :: ms)
          = (passed ++ iov, n) :: calls (passed ++ passed') iov' (m :: ms) := by
        rw [calls, hmove]
        simp only [if_pos hret]
      rw [hcalls] at hcounts hfit ⊢
      rw [List.map_cons, List.cons.injEq] at hcounts
      rw [List.forall_mem_cons] at hpos hfit
      rw [places, List.flatMap_cons, ← places, hoffered]
      by_cases hlt : n < firstLen iov
      . obtain ⟨passed'', iov'', hmove', hpassed', haddrs, hfirst⟩ := moveIov_of_lt hlt
        cases hmove.symm.trans hmove'
        intro hnodup
        refine ih ?_ hpos.2 hcounts.2 hfit.2 ?_ hnodup.of_append_right
        . intro v hv
          rw [List.mem_append] at hv
          exact hv.elim (hpassed v) (hpassed' v)
        . rintro (hnil | hsum)
          . rw [hnil, List.sum_nil] at hge
            omega
          . omega
      . have hhead := moveIov_head? (Nat.le_of_not_lt hlt) hmove
        cases haddrs : addrs iov with
        | nil =>
          have hspace := hfit.1
          rw [space_eq_length, hoffered, haddrs, List.length_nil] at hspace
          exact absurd hpos.1 (Nat.not_lt.mpr hspace)
        | cons a as =>
          have hsecond : a ∈ places (calls (passed ++ passed') iov' (m :: ms)) := by
            have hm : 0 < m := hpos.2 m (List.mem_cons_self ..)
            rw [calls, places, List.flatMap_cons, List.append_assoc, addrs_append, addrs_of_empty hpassed,
              List.nil_append]
            apply List.mem_append_left
            rw [haddrs, List.head?_cons, List.head?_eq_some_iff] at hhead
            obtain ⟨bs, hbs⟩ := hhead
            rw [hbs]
            simp only
            rw [List.take_cons hm]
            exact List.mem_cons_self ..
          rw [List.take_cons hpos.1, List.cons_append, List.nodup_cons]
          intro hnodup
          exact hnodup.1 (List.mem_append_right _ hsecond)

theorem length_places {moved : List (List Iovec × Nat)} (h : ∀ m ∈ moved, m.2 ≤ space m.1)
    : (places moved).length = (moved.map (·.2)).sum := by
  induction moved with
  | nil => rfl
  | cons m moved ih =>
    rw [List.forall_mem_cons, space_eq_length] at h
    rw [places, List.flatMap_cons, List.length_append, ← places, ih h.2, List.length_take, Nat.min_eq_left h.1]
    rfl

-- The answers up to the one that ends the loop have received something each.
theorem received_pos {as used left : List SysRet}
    (has : ∀ a ∈ as, a = SysRet.fail .intr ∨ ∃ n lens, a = .ok n lens ∧ 0 < n ∧ n ≤ space iov)
    (heq : as ++ [SysRet.fail .again] = used ++ left)
    : ∀ n ∈ received used, 0 < n := by
  intro n hn
  rw [received, List.mem_filterMap] at hn
  obtain ⟨a, ha, hsome⟩ := hn
  have hmem : a ∈ as ++ [SysRet.fail .again] := by
    rw [heq]
    exact List.mem_append_left _ ha
  rw [List.mem_append, List.mem_singleton] at hmem
  rcases hmem with hmem | rfl
  . rcases has a hmem with rfl | ⟨k, lens, rfl, hk, -⟩
    . cases hsome
    . cases hsome
      exact hk
  . cases hsome

/--
The bytes arrive in the buffers of the caller in the order they are received if and only if every call but the last one
that receives something leaves space in the first buffer, and the buffers that are filled do not overlap.
-/
theorem readFd_readsInOrder_iff {as : List SysRet} (hspace : space iov < 2 ^ 31)
    (has : ∀ a ∈ as, a = SysRet.fail .intr ∨ ∃ n lens, a = .ok n lens ∧ 0 < n ∧ n ≤ space iov)
    : ∃ used left r, as ++ [SysRet.fail .again] = used ++ left
      ∧ readFd iov (as ++ [SysRet.fail .again]) = .done r left
      ∧ ((∀ m ∈ r.moved, m.2 ≤ space m.1)
        → (ReadsInOrder iov r
          ↔ FillsFirst iov (received used) ∧ ((addrs iov).take (received used).sum).Nodup)) := by
  have hgoes : ∀ a ∈ as, GoesOn a := by
    intro a ha
    rcases has a ha with h | ⟨n, lens, h, hpos, hle⟩
    . exact .inl h
    . exact .inr ⟨n, lens, h, hpos, by omega⟩
  obtain ⟨used, left, r, heq, hgo, hmoved, hcounts, hret, -⟩ :=
    go_eq (show StreamOp.isMsg { isMsg := true, onZero := .closed, onAgain := true } from rfl) rfl hgoes [] iov 0 []
  refine ⟨used, left, r, heq, hgo, ?_⟩
  rw [List.nil_append] at hmoved
  rw [Nat.zero_add] at hret
  intro hfit
  rw [hmoved] at hfit
  have hpos : ∀ n ∈ received used, 0 < n := received_pos has heq
  have hnil : ∀ v ∈ ([] : List Iovec), v.len = 0 := List.forall_mem_nil _
  have hlen : (places r.moved).length = (received used).sum := by rw [hmoved, length_places hfit, hcounts]
  have hbytes : (∀ mem bytes, bytes.length = (places r.moved).length
      → ((addrs iov).take bytes.length).map (deliver mem (places r.moved) bytes) = bytes) ↔ _ := forall_map_deliver_iff
  constructor
  . intro h
    obtain ⟨hplaces, hnodup⟩ := hbytes.mp h.bytes
    refine ⟨?_, ?_⟩
    . by_contra hfills
      rw [hmoved] at hnodup
      exact places_calls_not_nodup hnil hpos hcounts hfit hfills hnodup
    . rw [← hlen, ← hplaces]
      exact hnodup
  . rintro ⟨hfills, hnodup⟩
    have hplaces : places r.moved = (addrs iov).take (received used).sum := by
      rw [hmoved]
      exact places_calls_of_fillsFirst hnil hfills
    refine ⟨?_, hbytes.mpr ⟨?_, ?_⟩⟩
    . rw [hret, hmoved, hcounts, toInt32_of_lt]
      have hle : (received used).sum ≤ space iov := by
        rw [space_eq_length, ← hlen, hplaces, List.length_take]
        exact Nat.min_le_right ..
      omega
    . rw [hlen, hplaces]
    . rw [hplaces]
      exact hnodup

theorem readFd_readsInOrder_twoReads
    : ∃ r, readFd [⟨0, 4⟩, ⟨4, 4⟩]
      ([SysRet.ok 2 [], SysRet.fail .intr, SysRet.ok 5 []] ++ [SysRet.fail .again]) = .done r []
      ∧ ReadsInOrder [⟨0, 4⟩, ⟨4, 4⟩] r := by
  have has : ∀ a ∈ [SysRet.ok 2 [], SysRet.fail .intr, SysRet.ok 5 []], a = SysRet.fail .intr
      ∨ ∃ n lens, a = SysRet.ok n lens ∧ 0 < n ∧ n ≤ space [⟨0, 4⟩, ⟨4, 4⟩] := by
    intro a ha
    simp only [List.mem_cons, List.not_mem_nil, or_false] at ha
    rcases ha with rfl | rfl | rfl
    . exact .inr ⟨2, [], rfl, by decide, by decide⟩
    . exact .inl rfl
    . exact .inr ⟨5, [], rfl, by decide, by decide⟩
  obtain ⟨used, left, r, hused, hread, hiff⟩ :=
    readFd_readsInOrder_iff (show space [⟨0, 4⟩, ⟨4, 4⟩] < 2 ^ 31 by decide) has
  have hdone : readFd [⟨0, 4⟩, ⟨4, 4⟩] ([SysRet.ok 2 [], SysRet.fail .intr, SysRet.ok 5 []] ++ [SysRet.fail .again])
      = .done ⟨7, true, [⟨2, 2⟩, ⟨7, 1⟩], [([⟨0, 4⟩, ⟨4, 4⟩], 2), ([⟨2, 2⟩, ⟨4, 4⟩], 5)]⟩ [] := by decide
  cases hread.symm.trans hdone
  rw [List.append_nil] at hused
  cases hused
  exact ⟨_, hdone, (hiff (by decide)).mpr ⟨.inr (by decide), by decide⟩⟩

-- Two reads of four bytes into two buffers of four bytes: both of them fill the first one.
theorem readFd_overwrites
    : ∃ r, readFd [⟨0, 4⟩, ⟨4, 4⟩] [.ok 4 [], .ok 4 [], .fail .again] = .done r [.fail .again]
      ∧ (∀ m ∈ r.moved, m.2 ≤ space m.1)
      ∧ r.ret = 8
      ∧ places r.moved = [0, 1, 2, 3, 0, 1, 2, 3]
      ∧ ¬ReadsInOrder [⟨0, 4⟩, ⟨4, 4⟩] r := by
  refine ⟨⟨8, false, [⟨0, 4⟩, ⟨4, 4⟩], [([⟨0, 4⟩, ⟨4, 4⟩], 4), ([⟨0, 4⟩, ⟨4, 4⟩], 4)]⟩, by decide, by decide, rfl,
    by decide, ?_⟩
  intro h
  have hbytes := h.bytes (fun _ => 0) [1, 2, 3, 4, 5, 6, 7, 8] (by decide)
  revert hbytes
  decide

end Tcp

end FdIo

end Ezio
