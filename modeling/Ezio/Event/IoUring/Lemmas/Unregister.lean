import Ezio.Lib.Run
import Ezio.Event.IoUring.Lemmas.BlockFrame
import Ezio.Event.IoUring.Lemmas.Blocks

/-!
This module contains `unregister_ring_buffer`. Its loop looks at the first block of the group in every round, so
that a group is released by it only if it has one block and no other group has come after it.
-/

namespace Ezio
namespace Event
namespace Uring

namespace IoUring

variable {s : IoUring}

-- The rounds of the loop with `has_freed`, `none` is the return of -1 from inside.
def freeBlocks (info : BufferRingInfo) : (rounds : Nat) → (hasFreed : Bool) → List BufferInfo
    → Option Bool × List BufferInfo
  | 0, hasFreed, buffers => (some hasFreed, buffers)
  | rounds + 1, hasFreed, buffers =>
    match buffers[info.startIndex]? with
    | none => (some hasFreed, buffers)
    | some buf =>
      if info.bufRing ≠ buf.bufRings then
        freeBlocks info rounds hasFreed buffers
      else if buf.base.isNone then
        (none, buffers)
      else
        freeBlocks info rounds true (buffers.set info.startIndex { buf with base := none })

theorem freeBlocks_other {info : BufferRingInfo} {buffers : List BufferInfo} {buf : BufferInfo}
    (hbuf : buffers[info.startIndex]? = some buf) (hring : info.bufRing ≠ buf.bufRings) (rounds : Nat)
    (hasFreed : Bool)
    : freeBlocks info rounds hasFreed buffers = (some hasFreed, buffers) := by
  induction rounds with
  | zero => rfl
  | succ rounds ih =>
    rw [freeBlocks, hbuf]
    dsimp only
    rw [if_pos hring, ih]

-- The round after the one that has freed the first block.
theorem freeBlocks_freed {info : BufferRingInfo} {buffers : List BufferInfo} {buf : BufferInfo}
    (hbuf : buffers[info.startIndex]? = some buf) (hring : info.bufRing = buf.bufRings) (hbase : buf.base.isNone)
    (rounds : Nat) (hasFreed : Bool)
    : freeBlocks info (rounds + 1) hasFreed buffers = (none, buffers) := by
  rw [freeBlocks, hbuf]
  dsimp only
  rw [if_neg (not_not.mpr hring), if_pos hbase]

-- `unregister_ring_buffer` with the loop of the source.
theorem unregisterRingBuffer_eq (s : IoUring) (bufGroupId : Nat) (freed : Bool)
    : s.unregisterRingBuffer bufGroupId freed
        =
      match s.grpIdToBufRings bufGroupId with
      | none => (-1, s)
      | some info =>
        if !freed then
          (-1, s)
        else
          match freeBlocks info (s.buffers.length - info.startIndex) false s.buffers with
          | (some true, buffers) =>
            (0, { s with
              buffers, grpIdToBufRings := Function.update s.grpIdToBufRings bufGroupId none })
          | (_, buffers) => (-1, { s with buffers }) := by
  unfold unregisterRingBuffer
  cases s.grpIdToBufRings bufGroupId with
  | none => rfl
  | some info =>
    dsimp only
    split
    . rfl
    . cases hbuf : s.buffers[info.startIndex]? with
      | none =>
        rw [Nat.sub_eq_zero_of_le (List.getElem?_eq_none_iff.mp hbuf)]
        rfl
      | some buf =>
        have hlt : info.startIndex < s.buffers.length := (List.getElem?_eq_some_iff.mp hbuf).1
        dsimp only
        by_cases hring : info.bufRing = buf.bufRings
        . by_cases hbase : buf.base.isNone
          . obtain ⟨rounds, hrounds⟩ := Nat.exists_eq_add_of_lt hlt
            rw [if_pos (.inr hbase), hrounds, show info.startIndex + rounds + 1 - info.startIndex = rounds + 1 by omega,
              freeBlocks_freed hbuf hring hbase]
          . obtain ⟨rounds, hrounds⟩ := Nat.exists_eq_add_of_lt hlt
            have hnot : ¬(buf.bufRings ≠ info.bufRing ∨ buf.base.isNone) :=
              not_or.mpr ⟨not_not.mpr hring.symm, hbase⟩
            rw [if_neg hnot, show s.buffers.length - info.startIndex = rounds + 1 by omega, freeBlocks, hbuf]
            dsimp only
            rw [if_neg (not_not.mpr hring), if_neg hbase]
            have hset : (s.buffers.set info.startIndex { buf with base := none })[info.startIndex]?
                = some { buf with base := none } := List.getElem?_set_self hlt
            cases rounds with
            | zero =>
              rw [if_neg (by omega), freeBlocks]
            | succ rounds =>
              rw [if_pos (by omega), freeBlocks_freed hset hring rfl]
        . rw [if_pos (.inl fun h => hring h.symm), freeBlocks_other hbuf hring]

end IoUring

inductive GroupCall where
  | register (r : Registration) (setup : Bool)
  | unregister (bufGroupId : Nat) (freed : Bool)
  deriving DecidableEq, Repr

namespace GroupCall

def op : GroupCall → Op
  | .register r setup => .registerRingBuffer r.blockSize r.blockCount setup r.addrs
  | .unregister bufGroupId freed => .unregisterRingBuffer bufGroupId freed

def step (s : IoUring) (c : GroupCall) : IoUring :=
  (s.exec c.op).2

-- The call of the kernel succeeds.
def isAccepted : GroupCall → Bool
  | .register _ setup => setup
  | .unregister _ freed => freed

end GroupCall

-- The arguments are valid and all blocks can be allocated.
def Registration.isComplete (r : Registration) : Bool :=
  0 < r.blockSize && 0 < r.blockCount && Util.isPowerOf2 r.blockCount && r.blockCount ≤ r.addrs.length

def BufferRingInfo.has (info : BufferRingInfo) (i : Nat) : Bool :=
  info.startIndex ≤ i && i < info.startIndex + info.entryCnt

-- Each block of the group is freed, which only one that has not been freed yet can be.
structure Releases (info : BufferRingInfo) (buffers buffers' : List BufferInfo) : Prop where
  held : ∀ i, info.has i → ∃ buf : BufferInfo, buffers[i]? = some buf ∧ buf.base.isSome
  freed : buffers' = buffers.mapIdx fun i buf => if info.has i then { buf with base := none } else buf

structure GroupCall.Meets (s : IoUring) (c : GroupCall) : Prop where
  refused : (s.run c.op).1 = -1 → (s.run c.op).2 = s
  released : ∀ bufGroupId : Nat, ∀ freed : Bool, ∀ info : BufferRingInfo, c = .unregister bufGroupId freed
    → s.grpIdToBufRings bufGroupId = some info
    → (s.exec c.op).1 = 0
      ∧ Releases info s.buffers (c.step s).buffers
      ∧ (c.step s).grpIdToBufRings = Function.update s.grpIdToBufRings bufGroupId none

-- What `register_ring_buffer` checks first.
def Registration.isValid (r : Registration) : Bool :=
  0 < r.blockSize && 0 < r.blockCount && Util.isPowerOf2 r.blockCount

-- The blocks of a group can all be allocated. A group that is unregistered has one block, which is the last of all.
def GroupCall.fits (s : IoUring) : GroupCall → Bool
  | .register r _ => !r.isValid || r.blockCount ≤ r.addrs.length
  | .unregister bufGroupId _ => (s.grpIdToBufRings bufGroupId).all fun info =>
    info.entryCnt = 1 && info.startIndex + 1 = s.buffers.length

namespace IoUring

variable {s : IoUring}

theorem exec_register_ret_iff (r : Registration) (setup : Bool)
    : (s.exec (GroupCall.register r setup).op).1 = -1 ↔ (setup && r.isComplete) = false := by
  unfold exec run GroupCall.op registerRingBuffer Registration.isComplete
  dsimp only
  split
  . next hvalid =>
    simp only [Bool.not_eq_true'] at hvalid
    rw [hvalid, Bool.false_and, Bool.and_false]
    exact ⟨fun _ => rfl, fun _ => rfl⟩
  . next hvalid =>
    simp only [Bool.not_eq_true', Bool.not_eq_false] at hvalid
    rw [hvalid, Bool.true_and]
    cases setup with
    | false => exact ⟨fun _ => rfl, fun _ => rfl⟩
    | true =>
      rw [if_neg (show ¬(!true) = true from Bool.false_ne_true), Bool.true_and]
      split
      . next hroom => exact ⟨fun _ => decide_eq_false (Nat.not_le_of_lt hroom), fun _ => rfl⟩
      . next hroom =>
        refine ⟨fun h => by omega, fun h => ?_⟩
        exact absurd (Nat.le_of_not_lt hroom) (of_decide_eq_false h)

theorem addBlocks_groups (br blockSize mask : Nat) (i : Nat) (addrs : List Nat)
    : (s.addBlocks br blockSize mask i addrs).grpIdToBufRings = s.grpIdToBufRings
        ∧ (s.addBlocks br blockSize mask i addrs).lastBufs = s.lastBufs := by
  induction addrs generalizing s i with
  | nil => exact ⟨rfl, rfl⟩
  | cons addr addrs ih =>
    unfold addBlocks
    exact ih _

theorem registerRingBuffer_cases (s : IoUring) (r : Registration) (setup : Bool)
    : let p := s.registerRingBuffer r.blockSize r.blockCount setup r.addrs
      p.1 = -1 ∧ p.2.blocks = s.blocks
        ∨ r.isComplete
          ∧ p.1 = ((s.bufferGroupId % 2 ^ 16 : Nat) : Int)
          ∧ p.2.blocks
            = { buffers := s.buffers ++ r.infos s.bufRings.length
                bufRings := s.bufRings ++ [r.ring s.buffers.length]
                lastBufs := s.lastBufs ++ [({} : LastBufferInfo)]
                groups :=
                  if (s.grpIdToBufRings (s.bufferGroupId % 2 ^ 16)).isSome then s.grpIdToBufRings
                  else Function.update s.grpIdToBufRings (s.bufferGroupId % 2 ^ 16)
                    (some ⟨s.bufRings.length, r.blockCount, s.buffers.length⟩) } := by
  intro p
  have hretIff := exec_register_ret_iff (s := s) r setup
  by_cases hret : p.1 = -1
  . left
    refine ⟨hret, ?_⟩
    unfold p registerRingBuffer at hret ⊢
    split
    . rfl
    . next hvalid =>
      dsimp only at hret ⊢
      split
      . rfl
      . next hsetup =>
        split
        . rfl
        . next hroom =>
          rw [if_neg hvalid, if_neg hsetup, if_neg hroom] at hret
          omega
  . right
    have hcomplete : (setup && r.isComplete) = true := by
      rw [← Bool.not_eq_false, ← hretIff]
      exact hret
    obtain ⟨hsetup, hcomplete⟩ := Bool.and_eq_true_iff.mp hcomplete
    subst hsetup
    obtain ⟨_, hbuffers, hrings⟩ := registerRingBuffer_spec hret
    refine ⟨hcomplete, ?_⟩
    suffices h : p.1 = ((s.bufferGroupId % 2 ^ 16 : Nat) : Int)
        ∧ p.2.lastBufs = s.lastBufs ++ [({} : LastBufferInfo)]
        ∧ p.2.grpIdToBufRings
          = if (s.grpIdToBufRings (s.bufferGroupId % 2 ^ 16)).isSome then s.grpIdToBufRings
            else Function.update s.grpIdToBufRings (s.bufferGroupId % 2 ^ 16)
              (some ⟨s.bufRings.length, r.blockCount, s.buffers.length⟩) by
      refine ⟨h.1, ?_⟩
      unfold blocks
      rw [hbuffers, hrings, h.2.1, h.2.2]
    unfold p registerRingBuffer at hret ⊢
    split
    . next hvalid =>
      rw [if_pos hvalid] at hret
      exact absurd rfl hret
    . next hvalid =>
      rw [if_neg hvalid] at hret
      have hsetup : ¬(!true) = true := Bool.false_ne_true
      dsimp only at hret ⊢
      rw [if_neg hsetup] at hret ⊢
      split
      . next hroom =>
        rw [if_pos hroom] at hret
        exact absurd rfl hret
      . refine ⟨rfl, ?_, ?_⟩
        . simp only [bufRingAdvance, addBlocks_groups]
        . simp only [bufRingAdvance, addBlocks_groups]

-- A registration that the kernel accepts leaves no trace when it fails, unless it is the allocator that fails.
theorem registerRingBuffer_refused_iff (s : IoUring) (r : Registration)
    : ((s.registerRingBuffer r.blockSize r.blockCount true r.addrs).1 = -1
        → (s.registerRingBuffer r.blockSize r.blockCount true r.addrs).2 = s)
      ↔ (!r.isValid || r.blockCount ≤ r.addrs.length) = true := by
  unfold registerRingBuffer Registration.isValid
  split
  . next hvalid =>
    rw [hvalid, Bool.true_or]
    exact ⟨fun _ => rfl, fun _ _ => rfl⟩
  . next hvalid =>
    have hsetup : ¬(!true) = true := Bool.false_ne_true
    dsimp only
    rw [Bool.eq_false_iff.mpr hvalid, Bool.false_or, decide_eq_true_iff, if_neg hsetup]
    split
    . next hroom =>
      refine ⟨fun h => ?_, fun hle => absurd hroom (Nat.not_lt_of_le hle)⟩
      have hgroups : s.givenUp ++ [s.bufferGroupId % 2 ^ 16] = s.givenUp := congrArg givenUp (h rfl)
      exact absurd (List.append_right_eq_self.mp hgroups) (List.cons_ne_nil _ _)
    . next hroom => exact ⟨fun _ => Nat.le_of_not_lt hroom, fun _ hret => by omega⟩

theorem Registration.count_pos {r : Registration} (h : r.isComplete) : 0 < r.blockCount := by
  unfold Registration.isComplete at h
  simp only [Bool.and_eq_true, decide_eq_true_eq] at h
  exact h.1.1.2

theorem Registration.count_le {r : Registration} (h : r.isComplete) : r.blockCount ≤ r.addrs.length := by
  unfold Registration.isComplete at h
  simp only [Bool.and_eq_true, decide_eq_true_eq] at h
  exact h.2

-- Each group has its blocks, none of them is freed, and no two groups share a ring.
structure Grouped (s : IoUring) : Prop where
  pos : ∀ bufGroupId info, s.grpIdToBufRings bufGroupId = some info → 0 < info.entryCnt
  ring : ∀ bufGroupId info, s.grpIdToBufRings bufGroupId = some info → info.bufRing < s.bufRings.length
  distinct : ∀ bufGroupId bufGroupId' info info', s.grpIdToBufRings bufGroupId = some info
    → s.grpIdToBufRings bufGroupId' = some info' → info.bufRing = info'.bufRing → bufGroupId = bufGroupId'
  block : ∀ bufGroupId info, s.grpIdToBufRings bufGroupId = some info → ∀ i, info.has i
    → ∃ buf : BufferInfo, s.buffers[i]? = some buf ∧ buf.bufRings = info.bufRing ∧ buf.base.isSome

theorem Grouped.congr {s' : IoUring} (h : Grouped s) (hsame : s'.blocks = s.blocks) : Grouped s' := by
  have hbuffers : s'.buffers = s.buffers := congrArg Blocks.buffers hsame
  have hrings : s'.bufRings = s.bufRings := congrArg Blocks.bufRings hsame
  have hgroups : s'.grpIdToBufRings = s.grpIdToBufRings := congrArg Blocks.groups hsame
  refine ⟨?_, ?_, ?_, ?_⟩
  . rw [hgroups]
    exact h.pos
  . rw [hgroups, hrings]
    exact h.ring
  . rw [hgroups]
    exact h.distinct
  . rw [hgroups, hbuffers]
    exact h.block

theorem Registration.infos_get {r : Registration} {i : Nat} (br : Nat)
    (hle : r.blockCount ≤ r.addrs.length) (hi : i < r.blockCount)
    : ∃ buf : BufferInfo, (r.infos br)[i]? = some buf ∧ buf.bufRings = br ∧ buf.base.isSome := by
  have hlt : i < (r.infos br).length := by
    simpa [Registration.infos] using ⟨hi, Nat.lt_of_lt_of_le hi hle⟩
  refine ⟨(r.infos br)[i], List.getElem?_eq_getElem hlt, ?_, ?_⟩
  . simp [Registration.infos]
  . simp [Registration.infos]

theorem Grouped.register (h : Grouped s) (r : Registration) (setup : Bool)
    : Grouped (GroupCall.step s (.register r setup)) := by
  rcases registerRingBuffer_cases s r setup with
    ⟨_, hsame⟩ | ⟨hcomplete, _, hblocks⟩
  . exact h.congr hsame
  . have hold : ∀ bufGroupId info, s.grpIdToBufRings bufGroupId = some info → ∀ i, info.has i
        → ∃ buf : BufferInfo, (s.buffers ++ r.infos s.bufRings.length)[i]? = some buf
          ∧ buf.bufRings = info.bufRing ∧ buf.base.isSome := by
      intro bufGroupId info hinfo i hi
      obtain ⟨buf, hbuf, hrest⟩ := h.block bufGroupId info hinfo i hi
      refine ⟨buf, ?_, hrest⟩
      rw [List.getElem?_append_left (List.getElem?_eq_some_iff.mp hbuf).1, hbuf]
    -- the entries of the table: those before, and the new group
    have hcases : ∀ bufGroupId info,
        (GroupCall.step s (.register r setup)).grpIdToBufRings bufGroupId = some info
        → s.grpIdToBufRings bufGroupId = some info
          ∨ bufGroupId = s.bufferGroupId % 2 ^ 16
            ∧ info = ⟨s.bufRings.length, r.blockCount, s.buffers.length⟩ := by
      intro bufGroupId info hinfo
      rw [show (GroupCall.step s (.register r setup)).grpIdToBufRings = _ from congrArg Blocks.groups hblocks] at hinfo
      dsimp only at hinfo
      split at hinfo
      . exact .inl hinfo
      . by_cases heq : bufGroupId = s.bufferGroupId % 2 ^ 16
        . rw [heq, Function.update_self, Option.some.injEq] at hinfo
          exact .inr ⟨heq, hinfo.symm⟩
        . rw [Function.update_of_ne heq] at hinfo
          exact .inl hinfo
    refine ⟨?_, ?_, ?_, ?_⟩
    . intro bufGroupId info hinfo
      rcases hcases bufGroupId info hinfo with hinfo | ⟨_, rfl⟩
      . exact h.pos bufGroupId info hinfo
      . exact Registration.count_pos hcomplete
    . intro bufGroupId info hinfo
      rw [show (GroupCall.step s (.register r setup)).bufRings = _ from congrArg Blocks.bufRings hblocks,
        List.length_append, List.length_singleton]
      rcases hcases bufGroupId info hinfo with hinfo | ⟨_, rfl⟩
      . have := h.ring bufGroupId info hinfo
        omega
      . exact Nat.lt_succ_self _
    . intro bufGroupId bufGroupId' info info' hinfo hinfo' heq
      rcases hcases bufGroupId info hinfo with hinfo | ⟨hid, rfl⟩
      . rcases hcases bufGroupId' info' hinfo' with hinfo' | ⟨_, rfl⟩
        . exact h.distinct bufGroupId bufGroupId' info info' hinfo hinfo' heq
        . exact absurd heq (Nat.ne_of_lt (h.ring bufGroupId info hinfo))
      . rcases hcases bufGroupId' info' hinfo' with hinfo' | ⟨hid', _⟩
        . exact absurd heq.symm (Nat.ne_of_lt (h.ring bufGroupId' info' hinfo'))
        . rw [hid, hid']
    . intro bufGroupId info hinfo i hi
      rw [show (GroupCall.step s (.register r setup)).buffers = _ from congrArg Blocks.buffers hblocks]
      rcases hcases bufGroupId info hinfo with hinfo | ⟨_, rfl⟩
      . exact hold bufGroupId info hinfo i hi
      . unfold BufferRingInfo.has at hi
        simp only [Bool.and_eq_true, decide_eq_true_eq] at hi
        rw [List.getElem?_append_right hi.1]
        exact Registration.infos_get _ (Registration.count_le hcomplete) (by omega)

-- The first block is freed. The group is gone if there are no other blocks behind it.
theorem unregister_of_held {bufGroupId : Nat} {info : BufferRingInfo} {buf : BufferInfo}
    (hinfo : s.grpIdToBufRings bufGroupId = some info) (hbuf : s.buffers[info.startIndex]? = some buf)
    (hring : buf.bufRings = info.bufRing) (hbase : buf.base.isSome)
    : s.unregisterRingBuffer bufGroupId true
        =
      if info.startIndex + 1 < s.buffers.length then
        (-1, { s with buffers := s.buffers.set info.startIndex { buf with base := none } })
      else
        (0, { s with
          buffers := s.buffers.set info.startIndex { buf with base := none }
          grpIdToBufRings := Function.update s.grpIdToBufRings bufGroupId none }) := by
  have hnot : ¬(buf.bufRings ≠ info.bufRing ∨ buf.base.isNone) := by
    rw [not_or, not_not, Bool.not_eq_true, Option.isNone_eq_false_iff]
    exact ⟨hring, hbase⟩
  unfold unregisterRingBuffer
  rw [hinfo]
  dsimp only
  rw [if_neg (by decide), hbuf]
  dsimp only
  rw [if_neg hnot]

theorem Grouped.first (h : Grouped s) {bufGroupId : Nat} {info : BufferRingInfo}
    (hinfo : s.grpIdToBufRings bufGroupId = some info)
    : ∃ buf : BufferInfo, s.buffers[info.startIndex]? = some buf ∧ buf.bufRings = info.bufRing ∧ buf.base.isSome := by
  apply h.block bufGroupId info hinfo
  have := h.pos bufGroupId info hinfo
  simp [BufferRingInfo.has, this]

theorem unregister_none {bufGroupId : Nat} (freed : Bool) (h : s.grpIdToBufRings bufGroupId = none)
    : s.unregisterRingBuffer bufGroupId freed = (-1, s) := by
  unfold unregisterRingBuffer
  rw [h]

-- The last block is the only one of its group.
theorem Grouped.has_iff (h : Grouped s) {bufGroupId : Nat} {info : BufferRingInfo}
    (hinfo : s.grpIdToBufRings bufGroupId = some info)
    : info.startIndex + 1 < s.buffers.length
        ∨ info.entryCnt = 1 ∧ info.startIndex + 1 = s.buffers.length ∧ ∀ i, info.has i ↔ i = info.startIndex := by
  have hpos := h.pos bufGroupId info hinfo
  have hlast : info.startIndex + info.entryCnt ≤ s.buffers.length := by
    obtain ⟨buf, hbuf, _⟩ := h.block bufGroupId info hinfo (info.startIndex + info.entryCnt - 1) (by
      simp only [BufferRingInfo.has, Bool.and_eq_true, decide_eq_true_eq]
      omega)
    have := (List.getElem?_eq_some_iff.mp hbuf).1
    omega
  by_cases hlt : info.startIndex + 1 < s.buffers.length
  . exact .inl hlt
  . refine .inr ⟨by omega, by omega, ?_⟩
    intro i
    simp only [BufferRingInfo.has, Bool.and_eq_true, decide_eq_true_eq]
    omega

theorem Grouped.releases (h : Grouped s) {bufGroupId : Nat} {info : BufferRingInfo} {buf : BufferInfo}
    (hinfo : s.grpIdToBufRings bufGroupId = some info) (hbuf : s.buffers[info.startIndex]? = some buf)
    (honly : ∀ i, info.has i ↔ i = info.startIndex)
    : Releases info s.buffers (s.buffers.set info.startIndex { buf with base := none }) := by
  refine ⟨?_, ?_⟩
  . intro i hi
    obtain ⟨buf, hbuf, _, hbase⟩ := h.block bufGroupId info hinfo i hi
    exact ⟨buf, hbuf, hbase⟩
  . apply List.ext_getElem?
    intro i
    rw [List.getElem?_mapIdx]
    by_cases hi : i = info.startIndex
    . subst hi
      rw [List.getElem?_set_self (List.getElem?_eq_some_iff.mp hbuf).1, hbuf, Option.map_some,
        if_pos ((honly _).mpr rfl)]
    . rw [List.getElem?_set_ne (Ne.symm hi)]
      have hnot : ¬info.has i := fun h => hi ((honly i).mp h)
      simp [hnot]

-- What a group loses with its last block was not part of the others.
theorem Grouped.unregister (h : Grouped s) {bufGroupId : Nat}
    (hfits : GroupCall.fits s (.unregister bufGroupId true))
    : Grouped (GroupCall.step s (.unregister bufGroupId true)) := by
  cases hinfo : s.grpIdToBufRings bufGroupId with
  | none =>
    exact h.congr (congrArg (·.2.blocks) (unregister_none true hinfo))
  | some info =>
    obtain ⟨buf, hbuf, hring, hbase⟩ := h.first hinfo
    have heq := unregister_of_held hinfo hbuf hring hbase
    have hlast : ¬info.startIndex + 1 < s.buffers.length := by
      rw [GroupCall.fits, hinfo] at hfits
      simp only [Option.all_some, Bool.and_eq_true, decide_eq_true_eq] at hfits
      omega
    rw [if_neg hlast] at heq
    have hgroups : (GroupCall.step s (.unregister bufGroupId true)).grpIdToBufRings
        = Function.update s.grpIdToBufRings bufGroupId none := congrArg (·.2.grpIdToBufRings) heq
    have hbuffers : (GroupCall.step s (.unregister bufGroupId true)).buffers
        = s.buffers.set info.startIndex { buf with base := none } := congrArg (·.2.buffers) heq
    have hrings : (GroupCall.step s (.unregister bufGroupId true)).bufRings = s.bufRings :=
      congrArg (·.2.bufRings) heq
    have hcases : ∀ bufGroupId' info',
        (GroupCall.step s (.unregister bufGroupId true)).grpIdToBufRings bufGroupId' = some info'
        → bufGroupId' ≠ bufGroupId ∧ s.grpIdToBufRings bufGroupId' = some info' := by
      intro bufGroupId' info' hinfo'
      rw [hgroups] at hinfo'
      by_cases hid : bufGroupId' = bufGroupId
      . rw [hid, Function.update_self] at hinfo'
        cases hinfo'
      . rw [Function.update_of_ne hid] at hinfo'
        exact ⟨hid, hinfo'⟩
    refine ⟨?_, ?_, ?_, ?_⟩
    . intro bufGroupId' info' hinfo'
      exact h.pos bufGroupId' info' (hcases bufGroupId' info' hinfo').2
    . intro bufGroupId' info' hinfo'
      rw [hrings]
      exact h.ring bufGroupId' info' (hcases bufGroupId' info' hinfo').2
    . intro id id' info₁ info₂ hinfo₁ hinfo₂
      exact h.distinct id id' info₁ info₂ (hcases id info₁ hinfo₁).2 (hcases id' info₂ hinfo₂).2
    . intro bufGroupId' info' hinfo' i hi
      obtain ⟨hne, hinfo'⟩ := hcases bufGroupId' info' hinfo'
      obtain ⟨buf', hbuf', hring', hbase'⟩ := h.block bufGroupId' info' hinfo' i hi
      refine ⟨buf', ?_, hring', hbase'⟩
      rw [hbuffers, List.getElem?_set_ne, hbuf']
      rintro rfl
      rw [hbuf, Option.some.injEq] at hbuf'
      apply hne
      apply h.distinct bufGroupId' bufGroupId info' info hinfo' hinfo
      rw [← hring', ← hring, hbuf']

theorem Grouped.step (h : Grouped s) {c : GroupCall} (hkernel : c.isAccepted) (hfits : c.fits s)
    : Grouped (c.step s) := by
  cases c with
  | register r setup => exact h.register r setup
  | unregister bufGroupId freed =>
    cases hkernel
    exact h.unregister hfits

theorem Grouped.meets_iff (h : Grouped s) {c : GroupCall} (hkernel : c.isAccepted)
    : c.Meets s ↔ c.fits s = true := by
  cases c with
  | register r setup =>
    cases hkernel
    have hrefused := registerRingBuffer_refused_iff s r
    refine ⟨fun hmeets => hrefused.mp hmeets.refused, fun hfits => ⟨hrefused.mpr hfits, ?_⟩⟩
    intro _ _ _ hcall
    cases hcall
  | unregister bufGroupId freed =>
    cases hkernel
    cases hinfo : s.grpIdToBufRings bufGroupId with
    | none =>
      have hsame := unregister_none true hinfo
      constructor
      . intro _
        rw [GroupCall.fits, hinfo]
        rfl
      . intro _
        refine ⟨fun _ => congrArg Prod.snd hsame, ?_⟩
        . intro _ _ info hcall hsome
          cases hcall
          rw [hinfo] at hsome
          cases hsome
    | some info =>
      obtain ⟨buf, hbuf, hring, hbase⟩ := h.first hinfo
      have heq := unregister_of_held hinfo hbuf hring hbase
      constructor
      . intro hmeets
        have hret := (hmeets.released bufGroupId true info rfl hinfo).1
        rw [GroupCall.fits, hinfo]
        rcases h.has_iff hinfo with hlt | ⟨hone, hlast, _⟩
        . rw [if_pos hlt] at heq
          rw [show (s.exec (GroupCall.unregister bufGroupId true).op).1 = -1 from congrArg Prod.fst heq] at hret
          cases hret
        . simp [hone, hlast]
      . intro hfits
        rw [GroupCall.fits, hinfo] at hfits
        simp only [Option.all_some, Bool.and_eq_true, decide_eq_true_eq] at hfits
        rw [if_neg (by omega)] at heq
        have hret : (s.exec (GroupCall.unregister bufGroupId true).op).1 = 0 := congrArg Prod.fst heq
        refine ⟨fun hfail => ?_, ?_⟩
        . rw [show (s.run (GroupCall.unregister bufGroupId true).op).1 = 0 from hret] at hfail
          cases hfail
        . intro _ _ info' hcall hinfo'
          cases hcall
          rw [hinfo, Option.some.injEq] at hinfo'
          subst hinfo'
          refine ⟨hret, ?_, congrArg (·.2.grpIdToBufRings) heq⟩
          rcases h.has_iff hinfo with hlt | ⟨_, _, honly⟩
          . omega
          . rw [show (GroupCall.step s (.unregister bufGroupId true)).buffers
              = s.buffers.set info.startIndex { buf with base := none } from congrArg (·.2.buffers) heq]
            exact h.releases hinfo hbuf honly

theorem Grouped.init (hasTimeoutMultishot : Bool) (ring : Wrapper)
    : Grouped (IoUring.init hasTimeoutMultishot ring) := by
  refine ⟨?_, ?_, ?_, ?_⟩
  . intro _ _ hinfo
    cases hinfo
  . intro _ _ hinfo
    cases hinfo
  . intro _ _ _ _ hinfo
    cases hinfo
  . intro _ _ hinfo
    cases hinfo

end IoUring

theorem unregister_meets_iff (hasTimeoutMultishot : Bool) (ring : Wrapper) (cs : List GroupCall)
    (hkernel : ∀ c ∈ cs, c.isAccepted)
    : Along GroupCall.step (fun s c => c.Meets s) (IoUring.init hasTimeoutMultishot ring) cs
        ↔ Along GroupCall.step (fun s c => c.fits s = true) (IoUring.init hasTimeoutMultishot ring) cs := by
  apply (Along.of_mem hkernel).iff_of_invariant (I := IoUring.Grouped)
  . exact fun s c h hkernel => h.meets_iff hkernel
  . exact fun s c h hkernel hfits => h.step hkernel hfits
  . exact IoUring.Grouped.init hasTimeoutMultishot ring

-- Two groups of one block are unregistered, the last one first.
def singleBlocks : List GroupCall :=
  [GroupCall.register (group 0 2) true, GroupCall.register (group 2 1) true, GroupCall.unregister 1 true]

theorem singleBlocks_meet
    : (∀ c ∈ singleBlocks, c.isAccepted)
        ∧ Along GroupCall.step (fun s c => c.Meets s) (IoUring.init true (Wrapper.init 2 2 0 0 [])) singleBlocks :=
  ⟨by decide, (unregister_meets_iff true (Wrapper.init 2 2 0 0 []) singleBlocks (by decide)).mpr (by decide +kernel)⟩

-- The only group there is has two blocks.
def twoBlocks : List GroupCall :=
  [GroupCall.register (group 0 2) true, GroupCall.unregister 0 true]

theorem twoBlocks_not_meet
    : (∀ c ∈ twoBlocks, c.isAccepted)
        ∧ ¬Along GroupCall.step (fun s c => c.Meets s) (IoUring.init true (Wrapper.init 2 2 0 0 [])) twoBlocks := by
  refine ⟨by decide, ?_⟩
  rintro ⟨_, hmeets, _⟩
  have hret := (hmeets.released 0 true ⟨0, 2, 0⟩ rfl (by decide +kernel)).1
  exact absurd hret (by decide +kernel)

end Uring
end Event
end Ezio
