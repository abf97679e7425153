import Ezio.Event.FdIo.TcpRead

/-!
This module contains which bytes `write_fd` of a TCP socket hands to the kernel. A byte is named by its position in the
concatenation of the buffers of the caller, so that the buffers may overlap in memory.
-/

namespace Ezio
namespace FdIo

namespace Tcp

variable {iov : List Iovec} {ns : List Nat}

-- The buffers that are offered, moved to where the buffers they are what is left of stand in the concatenation.
def relocate : (start : Nat) → (iov offered : List Iovec) → List Iovec
  | start, v :: iov, o :: offered => ⟨start + (o.base - v.base), o.len⟩ :: relocate (start + v.len) iov offered
  | _, _, _ => []

-- The positions of the bytes that the kernel has accepted.
def sentPositions (iov : List Iovec) (moved : List (List Iovec × Nat)) : List Nat :=
  moved.flatMap fun m => (addrs (relocate 0 iov m.1)).take m.2

-- The kernel has accepted the first `n` bytes, which are found at the first `n` addresses, and each of them once.
def SendsPrefix (iov : List Iovec) (r : FdRet) : Prop :=
  ∃ n : Nat, r.ret = n ∧ n ≤ space iov ∧ sentPositions iov r.moved = List.range n
    ∧ places r.moved = (addrs iov).take n ∧ (n = space iov ∨ r.flag)

-- What is left of a buffer does not start before it.
def Advanced (iov offered : List Iovec) : Prop :=
  List.Forall₂ (fun v o => v.base ≤ o.base) iov offered

theorem relocate_append {start : Nat} {iov₁ iov₂ offered₁ offered₂ : List Iovec} (h : Advanced iov₁ offered₁)
    : relocate start (iov₁ ++ iov₂) (offered₁ ++ offered₂)
        = relocate start iov₁ offered₁ ++ relocate (start + space iov₁) iov₂ offered₂ := by
  induction h generalizing start with
  | nil => rfl
  | @cons v o iov offered _ _ ih =>
    have hspace : space (v :: iov) = v.len + space iov := List.sum_cons
    rw [List.cons_append, List.cons_append, relocate, ih, relocate, List.cons_append, hspace, Nat.add_assoc]

-- `move_iov` does not look at where the buffers are.
theorem moveIov_relocate {iov offered : List Iovec} (start n : Nat) (h : Advanced iov offered)
    : ∃ iov₁ iov₂ passed left, iov = iov₁ ++ iov₂ ∧ Advanced iov₁ passed ∧ Advanced iov₂ left
      ∧ Util.moveIov offered n = ((Util.moveIov offered n).1, passed, left)
      ∧ Util.moveIov (relocate start iov offered) n
        = ((Util.moveIov offered n).1, relocate start iov₁ passed, relocate (start + space iov₁) iov₂ left) := by
  induction h generalizing start n with
  | nil => exact ⟨[], [], [], [], rfl, .nil, .nil, rfl, rfl⟩
  | @cons v o iov offered hbase hrest ih =>
    rw [relocate, Util.moveIov, Util.moveIov]
    by_cases hle : o.len ≤ n
    . obtain ⟨iov₁, iov₂, passed, left, rfl, hpassed, hleft, hmove, hrelocate⟩ :=
        ih (start + v.len) (n - o.len)
      have hspace : space (v :: iov₁) = v.len + space iov₁ := List.sum_cons
      refine ⟨v :: iov₁, iov₂, o :: passed, left, rfl, .cons hbase hpassed, hleft, ?_, ?_⟩
      . rw [if_pos hle, hmove]
      . rw [if_pos hle, if_pos hle, hrelocate, hspace, ← Nat.add_assoc]
        rfl
    . refine ⟨[], v :: iov, [], ⟨o.base + n, o.len - n⟩ :: offered, rfl, .nil, .cons ?_ hrest, ?_, ?_⟩
      . exact Nat.le_trans hbase (Nat.le_add_right ..)
      . rw [if_neg hle]
      . rw [if_neg hle, if_neg hle, relocate]
        have : start + (o.base - v.base) + n = start + (o.base + n - v.base) := by omega
        rw [this]
        rfl

theorem Advanced.append {iov₁ iov₂ offered₁ offered₂ : List Iovec} (h₁ : Advanced iov₁ offered₁)
    (h₂ : Advanced iov₂ offered₂)
    : Advanced (iov₁ ++ iov₂) (offered₁ ++ offered₂) := by
  induction h₁ with
  | nil => exact h₂
  | cons hbase _ ih => exact .cons hbase ih

theorem Advanced.refl (iov : List Iovec) : Advanced iov iov :=
  List.forall₂_same.mpr fun _ _ => Nat.le_refl _

theorem calls_relocate {iov₁ iov₂ passed cur : List Iovec} (hpassed : Advanced iov₁ passed)
    (hcur : Advanced iov₂ cur)
    : calls (relocate 0 iov₁ passed) (relocate (space iov₁) iov₂ cur) ns
        = (calls passed cur ns).map fun m => (relocate 0 (iov₁ ++ iov₂) m.1, m.2) := by
  induction ns generalizing iov₁ iov₂ passed cur with
  | nil => rfl
  | cons n ns ih =>
    obtain ⟨iov₃, iov₄, passed', left, rfl, hpassed', hleft, hmove, hrelocate⟩ :=
      moveIov_relocate (space iov₁) n hcur
    have hmore : relocate 0 iov₁ passed ++ relocate (space iov₁) iov₃ passed'
        = relocate 0 (iov₁ ++ iov₃) (passed ++ passed') := by
      rw [relocate_append hpassed, Nat.zero_add]
    have hall : relocate 0 iov₁ passed ++ relocate (space iov₁) (iov₃ ++ iov₄) cur
        = relocate 0 (iov₁ ++ (iov₃ ++ iov₄)) (passed ++ cur) := by
      rw [relocate_append hpassed, Nat.zero_add]
    have hspace : space iov₁ + space iov₃ = space (iov₁ ++ iov₃) := by simp [space]
    generalize (Util.moveIov cur n).1 = ret at hmove hrelocate
    rw [calls, calls, hmove, hrelocate, List.map_cons, hall]
    dsimp only
    congr 1
    split
    . rw [hmore, hspace, ih (hpassed.append hpassed') hleft, List.append_assoc]
    . rfl

-- The buffers laid out one behind the other.
theorem sentPositions_calls (iov : List Iovec) (ns : List Nat)
    : sentPositions iov (calls [] iov ns) = places (calls [] (relocate 0 iov iov) ns) := by
  have hcalls : calls [] (relocate 0 iov iov) ns = (calls [] iov ns).map fun m => (relocate 0 iov m.1, m.2) :=
    calls_relocate (.nil : Advanced [] []) (Advanced.refl iov)
  rw [hcalls, places, List.flatMap_map]
  rfl

theorem addrs_relocate (start : Nat) (iov : List Iovec)
    : addrs (relocate start iov iov) = List.range' start (space iov) := by
  induction iov generalizing start with
  | nil => rfl
  | cons v iov ih =>
    have hspace : space (v :: iov) = v.len + space iov := List.sum_cons
    rw [relocate, addrs_cons, ih, hspace, Nat.sub_self, Nat.add_zero, List.range'_append_1]

theorem firstLen_relocate (start : Nat) (iov : List Iovec)
    : firstLen (relocate start iov iov) = firstLen iov := by
  induction iov generalizing start with
  | nil => rfl
  | cons v iov ih => rw [relocate, firstLen, firstLen, ih]

-- The buffers that are offered have as much space as the ones they are relocated to.
theorem space_relocate {start : Nat} {iov offered : List Iovec} (h : Advanced iov offered)
    : space (relocate start iov offered) = space offered := by
  induction h generalizing start with
  | nil => rfl
  | @cons v o iov offered _ _ ih =>
    have hspace : space (o :: offered) = o.len + space offered := List.sum_cons
    have hspace' : ∀ rest, space (⟨start + (o.base - v.base), o.len⟩ :: rest) = o.len + space rest :=
      fun _ => List.sum_cons
    rw [relocate, hspace', ih, hspace]

theorem calls_advanced {iov₁ iov₂ passed cur : List Iovec} (hpassed : Advanced iov₁ passed)
    (hcur : Advanced iov₂ cur)
    : ∀ m ∈ calls passed cur ns, Advanced (iov₁ ++ iov₂) m.1 := by
  induction ns generalizing iov₁ iov₂ passed cur with
  | nil => exact List.forall_mem_nil _
  | cons n ns ih =>
    obtain ⟨iov₃, iov₄, passed', left, rfl, hpassed', hleft, hmove, -⟩ :=
      moveIov_relocate 0 n hcur
    generalize (Util.moveIov cur n).1 = ret at hmove
    rw [calls, hmove, List.forall_mem_cons]
    refine ⟨hpassed.append hcur, ?_⟩
    dsimp only
    split
    . rw [← List.append_assoc]
      exact ih (hpassed.append hpassed') hleft
    . exact List.forall_mem_nil _

/--
The kernel accepts the first bytes of the buffers, and all of them unless it runs out of space, if and only if every
call but the last one that sends something leaves a rest of the first buffer. Otherwise the first buffer is sent again.
-/
theorem writeFd_sendsPrefix_iff {as : List SysRet} (hspace : space iov < 2 ^ 31)
    (has : ∀ a ∈ as, a = SysRet.fail .intr ∨ ∃ n lens, a = .ok n lens ∧ 0 < n ∧ n ≤ space iov)
    : ∃ used left r, as ++ [SysRet.fail .again] = used ++ left
      ∧ writeFd iov (as ++ [SysRet.fail .again]) = .done r left
      ∧ ((∀ m ∈ r.moved, m.2 ≤ space m.1) → (SendsPrefix iov r ↔ FillsFirst iov (received used))) := by
  have hgoes : ∀ a ∈ as, GoesOn a := by
    intro a ha
    rcases has a ha with h | ⟨n, lens, h, hpos, hle⟩
    . exact .inl h
    . exact .inr ⟨n, lens, h, hpos, by omega⟩
  obtain ⟨used, left, r, heq, hgo, hmoved, hcounts, hret, hend⟩ :=
    go_eq (show StreamOp.isMsg { isMsg := true, onZero := .count, onAgain := true } from rfl) rfl hgoes [] iov 0 []
  refine ⟨used, left, r, heq, hgo, ?_⟩
  rw [List.nil_append] at hmoved
  rw [Nat.zero_add] at hret
  intro hfit
  rw [hmoved] at hfit
  have hpos : ∀ n ∈ received used, 0 < n := received_pos has heq
  have hnil : ∀ v ∈ ([] : List Iovec), v.len = 0 := List.forall_mem_nil _
  have hpositions : sentPositions iov r.moved = places (calls [] (relocate 0 iov iov) (received used)) := by
    rw [hmoved, sentPositions_calls]
  have hlaid : calls [] (relocate 0 iov iov) (received used)
      = (calls [] iov (received used)).map fun m => (relocate 0 iov m.1, m.2) :=
    calls_relocate (.nil : Advanced [] []) (Advanced.refl iov)
  have hlaidCounts : (calls [] (relocate 0 iov iov) (received used)).map (·.2) = received used := by
    rw [hlaid, List.map_map]
    exact hcounts
  have hlaidFit : ∀ m ∈ calls [] (relocate 0 iov iov) (received used), m.2 ≤ space m.1 := by
    rw [hlaid, List.forall_mem_map]
    intro m hm
    have hadvanced : Advanced iov m.1 := calls_advanced (.nil : Advanced [] []) (Advanced.refl iov) m hm
    rw [space_relocate hadvanced]
    exact hfit m hm
  have hfirst : FillsFirst (relocate 0 iov iov) (received used) ↔ FillsFirst iov (received used) := by
    unfold FillsFirst
    rw [firstLen_relocate]
  constructor
  . rintro ⟨n, -, -, hsent, -, -⟩
    by_contra hfills
    have hnodup := places_calls_not_nodup hnil hpos hlaidCounts hlaidFit (mt hfirst.mp hfills)
    rw [← hpositions, hsent] at hnodup
    exact hnodup List.nodup_range
  . intro hfills
    have hplaces := places_calls_of_fillsFirst hnil (hfirst.mpr hfills)
    have hle : (received used).sum ≤ space iov := by
      have hlen := length_places hlaidFit
      rw [hplaces, hlaidCounts, addrs_relocate, List.length_take, List.length_range'] at hlen
      omega
    refine ⟨(received used).sum, ?_, hle, ?_, ?_, ?_⟩
    . rw [hret, toInt32_of_lt (by omega)]
    . rw [hpositions, hplaces, addrs_relocate, List.take_range'_of_length_ge hle, List.range_eq_range']
    . rw [hmoved]
      exact places_calls_of_fillsFirst hnil hfills
    . rcases hend with hflag | hge
      . exact .inr hflag
      . exact .inl (by omega)

theorem writeFd_sendsPrefix_twoWrites
    : ∃ r, writeFd [⟨0, 4⟩, ⟨4, 4⟩]
      ([SysRet.ok 2 [], SysRet.fail .intr, SysRet.ok 6 []] ++ [SysRet.fail .again]) = .done r [SysRet.fail .again]
      ∧ SendsPrefix [⟨0, 4⟩, ⟨4, 4⟩] r := by
  have has : ∀ a ∈ [SysRet.ok 2 [], SysRet.fail .intr, SysRet.ok 6 []], a = SysRet.fail .intr
      ∨ ∃ n lens, a = SysRet.ok n lens ∧ 0 < n ∧ n ≤ space [⟨0, 4⟩, ⟨4, 4⟩] := by
    intro a ha
    simp only [List.mem_cons, List.not_mem_nil, or_false] at ha
    rcases ha with rfl | rfl | rfl
    . exact .inr ⟨2, [], rfl, by decide, by decide⟩
    . exact .inl rfl
    . exact .inr ⟨6, [], rfl, by decide, by decide⟩
  obtain ⟨used, left, r, hused, hwrite, hiff⟩ :=
    writeFd_sendsPrefix_iff (show space [⟨0, 4⟩, ⟨4, 4⟩] < 2 ^ 31 by decide) has
  have hdone : writeFd [⟨0, 4⟩, ⟨4, 4⟩] ([SysRet.ok 2 [], SysRet.fail .intr, SysRet.ok 6 []] ++ [SysRet.fail .again])
      = .done ⟨8, false, [⟨2, 2⟩, ⟨4, 4⟩], [([⟨0, 4⟩, ⟨4, 4⟩], 2), ([⟨2, 2⟩, ⟨4, 4⟩], 6)]⟩
        [SysRet.fail .again] := by decide
  cases hwrite.symm.trans hdone
  rw [List.append_cancel_right_eq] at hused
  subst hused
  exact ⟨_, hdone, (hiff (by decide)).mpr (.inr (by decide))⟩

-- The first buffer is sent whole and then sent again in place of the second one.
theorem writeFd_repeats
    : ∃ r, writeFd [⟨0, 4⟩, ⟨4, 4⟩] [.ok 4 [], .ok 4 [], .fail .again] = .done r [.fail .again]
      ∧ (∀ m ∈ r.moved, m.2 ≤ space m.1)
      ∧ r.ret = 8
      ∧ places r.moved = [0, 1, 2, 3, 0, 1, 2, 3]
      ∧ ¬SendsPrefix [⟨0, 4⟩, ⟨4, 4⟩] r := by
  refine ⟨⟨8, false, [⟨0, 4⟩, ⟨4, 4⟩], [([⟨0, 4⟩, ⟨4, 4⟩], 4), ([⟨0, 4⟩, ⟨4, 4⟩], 4)]⟩, by decide, by decide, rfl,
    by decide, ?_⟩
  rintro ⟨n, hret, -, hsent, -⟩
  have hn : n = 8 := by
    have : (8 : Int) = n := hret
    omega
  subst hn
  revert hsent
  decide

end Tcp

end FdIo

end Ezio
