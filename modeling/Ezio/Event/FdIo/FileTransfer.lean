import Ezio.Event.FdIo.Cursor
import Ezio.Event.FdIo.Counts

/-!
This module contains which bytes of a file and of the buffers `read_fd` and `write_fd` of a file move.
-/

namespace Ezio
namespace FdIo

open Tcp (received space)

-- The answers of the kernel as long as `room` bytes of space are offered. A read may find the end of the file.
def Honest (mayEnd : Bool) : (room : Nat) → List SysRet → Prop
  | _, [] => True
  | room, .fail e :: sys => e = .intr ∧ Honest mayEnd room sys
  | room, .ok n _ :: sys => n ≤ room ∧ (0 < n ∨ mayEnd ∨ room = 0) ∧ Honest mayEnd (room - n) sys

-- The first answers of all that the kernel is ever going to give.
def firstAnswers (sys : Nat → SysRet) (cnt : Nat) : List SysRet :=
  (List.range cnt).map sys

structure Kernel (mayEnd : Bool) (room : Nat) (sys : Nat → SysRet) : Prop where
  answers : ∀ i, sys i = .fail .intr
    ∨ ∃ n lens, sys i = .ok n lens ∧ n ≤ room - (received (firstAnswers sys i)).sum
      ∧ (0 < n ∨ mayEnd ∨ room ≤ (received (firstAnswers sys i)).sum)
  -- a call is not interrupted for ever
  goesOn : ∀ i, ∃ j, i ≤ j ∧ sys j ≠ .fail .intr

-- The memory after calls of `readv` from the position `pos` of the file on.
def readInto (file : Nat → UInt8) : (pos : Nat) → (mem : Nat → UInt8) → List (List Iovec × Nat) → Nat → UInt8
  | _, mem, [] => mem
  | pos, mem, (offered, n) :: moved =>
    readInto file (pos + n) (deliver mem ((addrs offered).take n) ((List.range' pos n).map file)) moved

-- The file after calls of `writev` from the position `pos` on.
def writeFrom (mem : Nat → UInt8) : (pos : Nat) → (file : Nat → UInt8) → List (List Iovec × Nat) → Nat → UInt8
  | _, file, [] => file
  | pos, file, (offered, n) :: moved =>
    writeFrom mem (pos + n) (deliver file (List.range' pos n) (((addrs offered).take n).map mem)) moved

theorem deliver_append {mem : Nat → UInt8} {as as' : List Nat} {bs bs' : List UInt8} (h : as.length = bs.length)
    : deliver mem (as ++ as') (bs ++ bs') = deliver (deliver mem as bs) as' bs' := by
  induction as generalizing mem bs with
  | nil =>
    rw [List.eq_nil_of_length_eq_zero h.symm]
    rfl
  | cons a as ih =>
    cases bs with
    | nil => cases h
    | cons b bs => exact ih (by simpa using h)

theorem length_take_addrs {offered : List Iovec} {n : Nat} (h : n ≤ space offered)
    : ((addrs offered).take n).length = n := by
  rw [List.length_take, ← Tcp.space_eq_length, Nat.min_eq_left h]

theorem readInto_eq (file : Nat → UInt8) (pos : Nat) (mem : Nat → UInt8) {moved : List (List Iovec × Nat)}
    (h : ∀ m ∈ moved, m.2 ≤ space m.1)
    : readInto file pos mem moved
        = deliver mem (places moved) ((List.range' pos (moved.map (·.2)).sum).map file) := by
  induction moved generalizing pos mem with
  | nil => rfl
  | cons m moved ih =>
    rw [List.forall_mem_cons] at h
    obtain ⟨offered, n⟩ := m
    have hlen : ((addrs offered).take n).length = ((List.range' pos n).map file).length := by
      rw [length_take_addrs h.1, List.length_map, List.length_range']
    rw [readInto, ih _ _ h.2, ← deliver_append hlen, List.map_cons, List.sum_cons, ← List.map_append,
      List.range'_append_1]
    rfl

theorem writeFrom_eq (mem : Nat → UInt8) (pos : Nat) (file : Nat → UInt8) {moved : List (List Iovec × Nat)}
    (h : ∀ m ∈ moved, m.2 ≤ space m.1)
    : writeFrom mem pos file moved
        = deliver file (List.range' pos (moved.map (·.2)).sum) ((places moved).map mem) := by
  induction moved generalizing pos file with
  | nil => rfl
  | cons m moved ih =>
    rw [List.forall_mem_cons] at h
    obtain ⟨offered, n⟩ := m
    have hlen : (List.range' pos n).length = (((addrs offered).take n).map mem).length := by
      rw [List.length_map, length_take_addrs h.1, List.length_range']
    rw [writeFrom, ih _ _ h.2, ← deliver_append hlen, List.map_cons, List.sum_cons, ← List.map_append,
      List.range'_append_1]
    rfl

/-! ### The loop -/

-- The calls take the buffers byte by byte, as many as the answers count.
structure Moves (iov : List Iovec) (used : List SysRet) (calls : List (List Iovec × Nat)) : Prop where
  places : places calls = (addrs iov).take (received used).sum
  counts : (calls.map (·.2)).sum = (received used).sum
  fits : ∀ m ∈ calls, m.2 ≤ space m.1
  le : (received used).sum ≤ space iov

def endsEof (op : StreamOp) (used : List SysRet) : Prop :=
  op.onZero = .eof ∧ ∃ tries lens, used = tries ++ [.ok 0 lens]

structure Ends (op : StreamOp) (iov : List Iovec) (result : Nat) (moved : List (List Iovec × Nat))
    (used : List SysRet) (r : FdRet) : Prop where
  moves : ∃ calls, r.moved = moved ++ calls ∧ Moves iov used calls
  ret : r.ret = toInt32 (result + (received used).sum)
  all : (received used).sum = space iov ∨ endsEof op used

variable {op : StreamOp} {iov iov' passed : List Iovec} {used sys left : List SysRet} {result n : Nat}
  {lens : List Nat} {moved : List (List Iovec × Nat)} {mayEnd : Bool} {r : FdRet}

theorem Moves.nil (iov : List Iovec) (h : (received used).sum = 0) : Moves iov used [] where
  places := by
    rw [h]
    rfl
  counts := h.symm
  fits := List.forall_mem_nil _
  le := by
    rw [h]
    exact Nat.zero_le _

theorem Moves.cons {calls : List (List Iovec × Nat)} (hn : n ≤ space iov) (haddrs : addrs iov' = (addrs iov).drop n)
    (h : Moves iov' used calls)
    : Moves iov (.ok n lens :: used) ((iov, n) :: calls) where
  places := by
    rw [received_cons_ok, List.sum_cons, List.take_add, ← haddrs, ← h.places]
    rfl
  counts := by rw [received_cons_ok, List.sum_cons, List.map_cons, List.sum_cons, h.counts]
  fits := List.forall_mem_cons.mpr ⟨hn, h.fits⟩
  le := by
    have hle := h.le
    rw [Tcp.space_eq_length, haddrs, List.length_drop, ← Tcp.space_eq_length] at hle
    rw [received_cons_ok, List.sum_cons]
    omega

theorem Ends.cons_intr (h : Ends op iov result moved used r) : Ends op iov result moved (.fail .intr :: used) r where
  moves := by
    obtain ⟨calls, heq, hmoves⟩ := h.moves
    exact ⟨calls, heq, ⟨hmoves.places, hmoves.counts, hmoves.fits, hmoves.le⟩⟩
  ret := h.ret
  all := by
    rcases h.all with hall | ⟨hop, tries, lens, rfl⟩
    . exact .inl hall
    . exact .inr ⟨hop, .fail .intr :: tries, lens, rfl⟩

theorem Ends.cons_ok (hn : n ≤ space iov) (haddrs : addrs iov' = (addrs iov).drop n)
    (h : Ends op iov' ((result + n) % 2 ^ 32) (moved ++ [(iov, n)]) used r)
    : Ends op iov result moved (.ok n lens :: used) r where
  moves := by
    obtain ⟨calls, heq, hmoves⟩ := h.moves
    refine ⟨(iov, n) :: calls, ?_, hmoves.cons hn haddrs⟩
    rw [heq, List.append_assoc]
    rfl
  ret := by
    rw [h.ret, received_cons_ok, List.sum_cons, ← Nat.add_assoc, ← toInt32_mod, Nat.mod_add_mod, toInt32_mod]
  all := by
    rcases h.all with hall | ⟨hop, tries, lens', rfl⟩
    . left
      rw [Tcp.space_eq_length, haddrs, List.length_drop, ← Tcp.space_eq_length] at hall
      rw [received_cons_ok, List.sum_cons, hall]
      omega
    . exact .inr ⟨hop, .ok n lens :: tries, lens', rfl⟩

-- The last call of a transfer that fills the buffers.
theorem Ends.last (hn : n = space iov) (hmoved : r.moved = moved ++ [(iov, n)])
    (hret : r.ret = toInt32 (result + n))
    : Ends op iov result moved [.ok n lens] r := by
  have hsum : (received [.ok n lens]).sum = n := List.sum_singleton
  refine ⟨⟨[(iov, n)], hmoved, ?_⟩, ?_, ?_⟩
  . have haddrs : addrs [] = (addrs iov).drop n := by
      rw [hn, Tcp.space_eq_length, List.drop_length]
      rfl
    exact (Moves.nil [] rfl).cons (Nat.le_of_eq hn) haddrs
  . rw [hsum]
    exact hret
  . rw [hsum]
    exact .inl hn

-- The loop waits for a next answer only while there is space left, and every answer but EINTR has taken some of it.
-- Otherwise it has ended, with all that the answers count.
theorem go_ends (hmsg : op.isMsg = false) (hzero : op.onZero = if mayEnd then .eof else .count)
    (hagain : op.onAgain = false)
    (hspace : space iov < 2 ^ 32) (h : Honest mayEnd (space iov) sys) (passed : List Iovec) (result : Nat)
    (moved : List (List Iovec × Nat))
    : (streamFd.go op passed iov result moved sys = .cut
        ∧ (received sys).length ≤ (received sys).sum ∧ (received sys = [] ∨ (received sys).sum < space iov))
      ∨ ∃ used left r, sys = used ++ left ∧ streamFd.go op passed iov result moved sys = .done r left
        ∧ Ends op iov result moved used r := by
  induction sys generalizing iov passed result moved with
  | nil => exact .inl ⟨rfl, Nat.le_refl 0, .inl rfl⟩
  | cons a sys ih =>
    cases a with
    | fail e =>
      obtain ⟨rfl, hrest⟩ := h
      have hgo : streamFd.go op passed iov result moved (.fail .intr :: sys)
          = streamFd.go op passed iov result moved sys := by
        rw [streamFd.go, if_neg (by simp [hagain]), if_pos rfl]
      rw [hgo]
      rcases ih hspace hrest passed result moved with hcut | ⟨used, left, r, rfl, hdone, hends⟩
      . exact .inl hcut
      . exact .inr ⟨.fail .intr :: used, left, r, rfl, hdone, hends.cons_intr⟩
    | ok n lens =>
      obtain ⟨hn, hpos, hrest⟩ := h
      have hmod : n % 2 ^ 32 = n := Nat.mod_eq_of_lt (by omega)
      by_cases heof : n = 0 ∧ op.onZero = .eof
      . -- the end of the file
        right
        refine ⟨[.ok n lens], sys, ⟨toInt32 result, false, passed ++ iov, moved⟩, rfl, ?_, ?_⟩
        . rw [streamFd.go, if_neg (by simp [heof.2]), if_pos heof]
        . obtain ⟨rfl, hop⟩ := heof
          have hsum : (received [.ok 0 lens]).sum = 0 := rfl
          refine ⟨⟨[], (List.append_nil moved).symm, Moves.nil iov hsum⟩, ?_, .inr ⟨hop, [], lens, rfl⟩⟩
          rw [hsum, Nat.add_zero]
      have hgo : streamFd.go op passed iov result moved (.ok n lens :: sys)
          = if (Util.moveIov iov n).1 = 0 then
              streamFd.go op (passed ++ (Util.moveIov iov n).2.1) (Util.moveIov iov n).2.2 ((result + n) % 2 ^ 32)
                (moved ++ [(iov, n)]) sys
            else
              .done ⟨toInt32 ((result + n) % 2 ^ 32), false,
                passed ++ (Util.moveIov iov n).2.1 ++ (Util.moveIov iov n).2.2, moved ++ [(iov, n)]⟩ sys := by
        have hclosed : ¬(n = 0 ∧ op.onZero = .closed) := by
          rw [hzero]
          cases mayEnd with
          | false => simp
          | true => simp
        rw [streamFd.go, if_neg hclosed, if_neg heof, hmod]
        simp only [hmsg, Bool.false_eq_true, if_false]
      rw [hgo]
      by_cases hlt : n < space iov
      . have hret : (Util.moveIov iov n).1 = 0 := by rw [moveIov_ret, if_pos hlt]
        have haddrs := addrs_moveIov iov n
        have hleft : space (Util.moveIov iov n).2.2 = space iov - n := by
          rw [Tcp.space_eq_length, haddrs, List.length_drop, ← Tcp.space_eq_length]
        rw [if_pos hret]
        rw [← hleft] at hrest
        rcases ih (by omega) hrest (passed ++ (Util.moveIov iov n).2.1) ((result + n) % 2 ^ 32)
          (moved ++ [(iov, n)]) with
          ⟨hcut, hlen, hroom⟩ | ⟨used, left, r, rfl, hdone, hends⟩
        . refine .inl ⟨hcut, ?_, ?_⟩
          . -- a count of 0 is the end of the file, or there is no space
            have hone : 0 < n := by
              rcases hpos with hpos | hend | hnone
              . exact hpos
              . rw [hend, if_pos rfl] at hzero
                exact Nat.pos_of_ne_zero fun h => heof ⟨h, hzero⟩
              . omega
            rw [received_cons_ok, List.length_cons, List.sum_cons]
            omega
          . right
            rw [received_cons_ok, List.sum_cons]
            rcases hroom with hnil | hroom
            . rw [hnil, List.sum_nil]
              exact hlt
            . omega
        . exact .inr ⟨.ok n lens :: used, left, r, rfl, hdone, hends.cons_ok hn haddrs⟩
      . have hfull : n = space iov := by omega
        have hret : (Util.moveIov iov n).1 ≠ 0 := by
          rw [moveIov_ret, if_neg hlt]
          decide
        rw [if_neg hret]
        refine .inr ⟨[.ok n lens], sys, _, rfl, rfl, .last hfull rfl ?_⟩
        dsimp only
        rw [toInt32_mod]

/-! ### The answers of the kernel -/

theorem received_append (sys sys' : List SysRet) : received (sys ++ sys') = received sys ++ received sys' :=
  List.filterMap_append

theorem firstAnswers_succ (sys : Nat → SysRet) (cnt : Nat)
    : firstAnswers sys (cnt + 1) = firstAnswers sys cnt ++ [sys cnt] := by
  unfold firstAnswers
  rw [List.range_succ, List.map_append, List.map_singleton]

theorem Kernel.honest_from {room : Nat} {sys : Nat → SysRet} (h : Kernel mayEnd room sys) (start cnt : Nat)
    : Honest mayEnd (room - (received (firstAnswers sys start)).sum) ((List.range' start cnt).map sys) := by
  induction cnt generalizing start with
  | zero => exact trivial
  | succ cnt ih =>
    have hrest := ih (start + 1)
    rw [firstAnswers_succ, received_append, List.sum_append] at hrest
    rw [List.range'_succ, List.map_cons]
    rcases h.answers start with hintr | ⟨n, lens, hok, hn, hpos⟩
    . rw [hintr] at hrest ⊢
      exact ⟨rfl, hrest⟩
    . rw [hok, received_cons_ok, List.sum_cons, ← Nat.sub_sub] at hrest
      rw [hok]
      exact ⟨hn, hpos.imp_right (Or.imp_right Nat.sub_eq_zero_of_le), hrest⟩

theorem Kernel.honest {room : Nat} {sys : Nat → SysRet} (h : Kernel mayEnd room sys) (cnt : Nat)
    : Honest mayEnd room (firstAnswers sys cnt) := by
  have hfrom := h.honest_from 0 cnt
  rw [← List.range_eq_range'] at hfrom
  exact hfrom

theorem Kernel.exists_answers {room : Nat} {sys : Nat → SysRet} (h : Kernel mayEnd room sys) (cnt : Nat)
    : ∃ m, cnt ≤ (received (firstAnswers sys m)).length := by
  induction cnt with
  | zero => exact ⟨0, Nat.zero_le _⟩
  | succ cnt ih =>
    obtain ⟨m, hm⟩ := ih
    obtain ⟨j, hj, hne⟩ := h.goesOn m
    refine ⟨j + 1, ?_⟩
    have hprefix : ∃ rest, firstAnswers sys j = firstAnswers sys m ++ rest := by
      obtain ⟨d, rfl⟩ := Nat.exists_eq_add_of_le hj
      unfold firstAnswers
      rw [List.range_add, List.map_append]
      exact ⟨_, rfl⟩
    obtain ⟨rest, hrest⟩ := hprefix
    rcases h.answers j with hintr | ⟨n, lens, hok, -⟩
    . exact absurd hintr hne
    . rw [firstAnswers_succ, received_append, List.length_append, hrest, received_append, List.length_append, hok]
      have hone : (received [.ok n lens]).length = 1 := rfl
      omega

-- After as many answers as there are bytes, and at least one, the call has ended.
theorem Kernel.ends {sys : Nat → SysRet} (h : Kernel mayEnd (space iov) sys) (op : StreamOp) (hmsg : op.isMsg = false)
    (hzero : op.onZero = if mayEnd then .eof else .count) (hagain : op.onAgain = false) (hspace : space iov < 2 ^ 32)
    : ∃ cnt used left r, firstAnswers sys cnt = used ++ left
      ∧ streamFd op iov (used ++ left) = .done r left ∧ Ends op iov 0 [] used r := by
  obtain ⟨cnt, hcnt⟩ := h.exists_answers (space iov + 1)
  rcases go_ends hmsg hzero hagain hspace (h.honest cnt) [] 0 [] with
    ⟨-, hlen, hroom⟩ | ⟨used, left, r, heq, hdone, hends⟩
  . exfalso
    rcases hroom with hnil | hroom
    . rw [hnil, List.length_nil] at hcnt
      omega
    . omega
  . rw [heq] at hdone
    exact ⟨cnt, used, left, r, heq, hdone, hends⟩

/-! ### The bytes -/

-- A read has returned: which bytes of the file are where, if it has started at `start`.
structure ReadsFile (iov : List Iovec) (file : Nat → UInt8) (start : Nat) (mem : Nat → UInt8) (used : List SysRet)
    (r : FdRet) (n : Nat) : Prop where
  ret : r.ret = n
  count : bytesMoved r = n
  bytes : readInto file start mem r.moved = deliver mem ((addrs iov).take n) ((List.range' start n).map file)
  others : ∀ a, a ∉ (addrs iov).take n → readInto file start mem r.moved a = mem a
  -- unless the buffers overlap
  found : ((addrs iov).take n).Nodup
    → ((addrs iov).take n).map (readInto file start mem r.moved) = (List.range' start n).map file
  all : n = space iov ∨ ∃ tries lens, used = tries ++ [.ok 0 lens]

structure WritesFile (iov : List Iovec) (file : Nat → UInt8) (start : Nat) (mem : Nat → UInt8) (r : FdRet) (n : Nat)
    : Prop where
  ret : r.ret = n
  count : bytesMoved r = n
  found : (List.range' start n).map (writeFrom mem start file r.moved) = ((addrs iov).take n).map mem
  others : ∀ i, i ∉ List.range' start n → writeFrom mem start file r.moved i = file i
  all : n = space iov

theorem Ends.count (h : Ends op iov 0 [] used r) : bytesMoved r = (received used).sum := by
  obtain ⟨calls, hmoved, hmoves⟩ := h.moves
  rw [bytesMoved, hmoved, List.nil_append, hmoves.counts]

theorem Ends.count_le (h : Ends op iov 0 [] used r) : (received used).sum ≤ space iov := by
  obtain ⟨calls, hmoved, hmoves⟩ := h.moves
  exact hmoves.le

theorem Ends.ret_eq (h : Ends op iov 0 [] used r) (hspace : space iov < 2 ^ 31) : r.ret = (received used).sum := by
  rw [h.ret, Nat.zero_add, toInt32_of_lt (Nat.lt_of_le_of_lt h.count_le hspace)]

theorem Ends.readsFile (h : Ends op iov 0 [] used r) (hspace : space iov < 2 ^ 31) (file : Nat → UInt8) (start : Nat)
    (mem : Nat → UInt8)
    : ReadsFile iov file start mem used r (received used).sum := by
  obtain ⟨calls, hmoved, hmoves⟩ := h.moves
  rw [List.nil_append] at hmoved
  have hbytes := readInto_eq file start mem hmoves.fits
  rw [hmoves.places, hmoves.counts, ← hmoved] at hbytes
  refine ⟨h.ret_eq hspace, h.count, hbytes, ?_, ?_, ?_⟩
  . intro a ha
    rw [hbytes]
    exact deliver_of_notMem ha
  . intro hnodup
    rw [hbytes]
    apply map_deliver hnodup
    rw [length_take_addrs hmoves.le, List.length_map, List.length_range']
  . exact h.all.imp_right fun heof => heof.2

theorem Ends.writesFile (h : Ends op iov 0 [] used r) (hzero : op.onZero = .count) (hspace : space iov < 2 ^ 31)
    (file : Nat → UInt8) (start : Nat) (mem : Nat → UInt8)
    : WritesFile iov file start mem r (received used).sum := by
  obtain ⟨calls, hmoved, hmoves⟩ := h.moves
  rw [List.nil_append] at hmoved
  have hbytes := writeFrom_eq mem start file hmoves.fits
  rw [hmoves.places, hmoves.counts, ← hmoved] at hbytes
  refine ⟨h.ret_eq hspace, h.count, ?_, ?_, ?_⟩
  . rw [hbytes]
    apply map_deliver List.nodup_range'
    rw [List.length_map, length_take_addrs hmoves.le, List.length_range']
  . intro i hi
    rw [hbytes]
    exact deliver_of_notMem hi
  . rcases h.all with hall | heof
    . exact hall
    . cases hzero.symm.trans heof.1

/--
Whatever counts the kernel answers with, `read_fd` of a file returns, and the bytes that it counts have gone from the
file to the front of the buffers in order. `write_fd` returns when all bytes of the buffers are in the file.
-/
theorem file_transfers {iov : List Iovec} (hspace : space iov < 2 ^ 31)
    : (∀ sys, Kernel true (space iov) sys → ∃ cnt used left r, firstAnswers sys cnt = used ++ left
        ∧ File.readFd iov (used ++ left) = .done r left
        ∧ ∀ file start mem, ReadsFile iov file start mem used r (received used).sum)
      ∧ ∀ sys, Kernel false (space iov) sys → ∃ cnt used left r, firstAnswers sys cnt = used ++ left
        ∧ File.writeFd iov (used ++ left) = .done r left
        ∧ ∀ file start mem, WritesFile iov file start mem r (received used).sum := by
  constructor
  . intro sys hkernel
    obtain ⟨cnt, used, left, r, heq, hdone, hends⟩ := hkernel.ends Transfer.fileRead.op rfl rfl rfl (by omega)
    exact ⟨cnt, used, left, r, heq, hdone, hends.readsFile hspace⟩
  . intro sys hkernel
    obtain ⟨cnt, used, left, r, heq, hdone, hends⟩ := hkernel.ends Transfer.fileWrite.op rfl rfl rfl (by omega)
    exact ⟨cnt, used, left, r, heq, hdone, hends.writesFile rfl hspace⟩

-- Two bytes, an interruption and the end of the file.
def shortFile : Nat → SysRet
  | 0 => .ok 2 []
  | 1 => .fail .intr
  | _ => .ok 0 []

theorem shortFile_kernel (room : Nat) (hroom : 2 ≤ room)
    : Kernel true room shortFile := by
  constructor
  . intro i
    match i with
    | 0 => exact .inr ⟨2, [], rfl, hroom, .inl Nat.two_pos⟩
    | 1 => exact .inl rfl
    | i + 2 => exact .inr ⟨0, [], rfl, Nat.zero_le _, .inr (.inl rfl)⟩
  . intro i
    exact ⟨i + 2, Nat.le_add_right _ _, nofun⟩

-- Three bytes with an interruption between them, there is space for all of them.
def slowDisk : Nat → SysRet
  | 0 => .ok 1 []
  | 1 => .fail .intr
  | 2 => .ok 2 []
  | _ => .ok 0 []

theorem slowDisk_kernel
    : Kernel false 3 slowDisk := by
  constructor
  . intro i
    match i with
    | 0 => exact .inr ⟨1, [], rfl, by decide, by decide⟩
    | 1 => exact .inl rfl
    | 2 => exact .inr ⟨2, [], rfl, by decide, by decide⟩
    | i + 3 =>
      refine .inr ⟨0, [], rfl, Nat.zero_le _, .inr (.inr ?_)⟩
      have hsplit : firstAnswers slowDisk (i + 3)
          = firstAnswers slowDisk 3 ++ (List.range i).map fun j => slowDisk (3 + j) := by
        unfold firstAnswers
        rw [Nat.add_comm, List.range_add, List.map_append, List.map_map]
        rfl
      rw [hsplit, received_append, List.sum_append]
      exact Nat.le_add_right_of_le (by decide)
  . intro i
    exact ⟨i + 3, Nat.le_add_right _ _, nofun⟩

theorem shortFile_transfers
    : (∃ cnt used left r, firstAnswers shortFile cnt = used ++ left
        ∧ File.readFd [⟨0, 1⟩, ⟨8, 0⟩, ⟨1, 2⟩] (used ++ left) = .done r left
        ∧ ∀ file start mem, ReadsFile [⟨0, 1⟩, ⟨8, 0⟩, ⟨1, 2⟩] file start mem used r (received used).sum)
      ∧ ∃ cnt used left r, firstAnswers slowDisk cnt = used ++ left
        ∧ File.writeFd [⟨0, 1⟩, ⟨8, 0⟩, ⟨1, 2⟩] (used ++ left) = .done r left
        ∧ ∀ file start mem, WritesFile [⟨0, 1⟩, ⟨8, 0⟩, ⟨1, 2⟩] file start mem r (received used).sum := by
  obtain ⟨hreads, hwrites⟩ := @file_transfers [⟨0, 1⟩, ⟨8, 0⟩, ⟨1, 2⟩] (by decide)
  exact ⟨hreads shortFile (shortFile_kernel 3 (by decide)), hwrites slowDisk slowDisk_kernel⟩

end FdIo

end Ezio
