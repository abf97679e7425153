import Ezio.Event.IoUring.Lemmas.Unregister

/-!
This module contains the check that `submit_async_read` makes of a buffer group. It takes the id of the group for
the index of a block, the two agree as long as every group has one block.
-/

namespace Ezio
namespace Event
namespace Uring

-- The backend with the ids that `register_ring_buffer` has returned and that have not been unregistered.
structure GroupIds where
  uring : IoUring
  live : List Nat

namespace GroupIds

def step (w : GroupIds) (c : GroupCall) : GroupIds :=
  let (ret, uring) := w.uring.exec c.op
  match c with
  | .register _ _ => { uring, live := if ret = -1 then w.live else w.live ++ [ret.toNat] }
  | .unregister bufGroupId _ => { uring, live := if ret = 0 then w.live.filter (· ≠ bufGroupId) else w.live }

def run (w : GroupIds) (cs : List GroupCall) : GroupIds :=
  cs.foldl step w

-- The check passes exactly for the ids of the groups.
def Agrees (w : GroupIds) : Prop :=
  ∀ id : Nat, w.uring.isBufferValid id ↔ id ∈ w.live

end GroupIds

-- A new group has one block, whose index is the id that the group gets. Of the groups only the last one is
-- unregistered.
def GroupIds.aligns (w : GroupIds) : GroupCall → Bool
  | .register r setup =>
    !(setup && r.isComplete) || r.blockCount = 1 && w.uring.bufferGroupId % 2 ^ 16 = w.uring.buffers.length
  | .unregister bufGroupId freed =>
    !freed || bufGroupId ∉ w.live || bufGroupId + 1 = w.uring.buffers.length

namespace IoUring

variable {s : IoUring}

theorem isBufferValid_of_same {s' : IoUring} (hbuffers : s'.buffers = s.buffers) (id : Nat)
    : s'.isBufferValid id = s.isBufferValid id := by
  unfold isBufferValid
  rw [hbuffers]

theorem lt_of_isBufferValid {id : Nat} (h : s.isBufferValid id) : id < s.buffers.length := by
  unfold isBufferValid at h
  split at h
  . cases h
  . next hbuf => exact (List.getElem?_eq_some_iff.mp hbuf).1

theorem isBufferValid_register {s' : IoUring} {r : Registration} {br : Nat} (hle : r.blockCount ≤ r.addrs.length)
    (hbuffers : s'.buffers = s.buffers ++ r.infos br) (id : Nat)
    : s'.isBufferValid id
        ↔ s.isBufferValid id ∨ s.buffers.length ≤ id ∧ id < s.buffers.length + r.blockCount := by
  unfold isBufferValid
  rw [hbuffers]
  by_cases hid : id < s.buffers.length
  . rw [List.getElem?_append_left hid]
    constructor
    . exact Or.inl
    . rintro (h | h)
      . exact h
      . omega
  . have hnone : s.buffers[id]? = none := List.getElem?_eq_none_iff.mpr (by omega)
    rw [List.getElem?_append_right (by omega), hnone]
    dsimp only
    by_cases hnew : id < s.buffers.length + r.blockCount
    . obtain ⟨buf, hbuf, _, hbase⟩ := Registration.infos_get br hle
        (show id - s.buffers.length < r.blockCount by omega)
      rw [hbuf]
      exact ⟨fun _ => .inr ⟨by omega, hnew⟩, fun _ => hbase⟩
    . have hlength : (r.infos br).length = r.blockCount := by
        simpa [Registration.infos] using hle
      rw [List.getElem?_eq_none_iff.mpr (by omega)]
      constructor
      . intro h
        cases h
      . rintro (h | h)
        . cases h
        . omega

theorem isBufferValid_free {s' : IoUring} {id : Nat} {buf : BufferInfo} (hid : id < s.buffers.length)
    (hbuffers : s'.buffers = s.buffers.set id { buf with base := none }) (id' : Nat)
    : s'.isBufferValid id' ↔ s.isBufferValid id' ∧ id' ≠ id := by
  unfold isBufferValid
  rw [hbuffers]
  by_cases heq : id' = id
  . rw [heq, List.getElem?_set_self hid]
    simp
  . rw [List.getElem?_set_ne (Ne.symm heq)]
    simp [heq]

end IoUring

namespace GroupIds

variable {w : GroupIds}

-- The groups there are have the block of their own id.
structure Aligned (w : GroupIds) : Prop where
  agrees : w.Agrees
  group : ∀ id ∈ w.live, ∃ br, w.uring.grpIdToBufRings id = some ⟨br, 1, id⟩
    ∧ ∃ buf : BufferInfo, w.uring.buffers[id]? = some buf ∧ buf.bufRings = br ∧ buf.base.isSome
  other : ∀ id, id ∉ w.live → w.uring.grpIdToBufRings id = none

theorem Aligned.lt (h : w.Aligned) {id : Nat} (hid : id ∈ w.live) : id < w.uring.buffers.length :=
  IoUring.lt_of_isBufferValid ((h.agrees id).mpr hid)

theorem Aligned.of_same (h : w.Aligned) {w' : GroupIds} (hsame : w'.uring.blocks = w.uring.blocks)
    (hlive : w'.live = w.live)
    : w'.Aligned := by
  have hbuffers : w'.uring.buffers = w.uring.buffers := congrArg Blocks.buffers hsame
  have hgroups : w'.uring.grpIdToBufRings = w.uring.grpIdToBufRings := congrArg Blocks.groups hsame
  refine ⟨?_, ?_, ?_⟩
  . intro id
    rw [IoUring.isBufferValid_of_same hbuffers, hlive]
    exact h.agrees id
  . rw [hlive, hgroups, hbuffers]
    exact h.group
  . rw [hlive, hgroups]
    exact h.other

theorem Aligned.register (h : w.Aligned) (r : Registration) (setup : Bool)
    : (w.aligns (.register r setup) → (w.step (.register r setup)).Aligned)
        ∧ (¬w.aligns (.register r setup) → ¬(w.step (.register r setup)).Agrees) := by
  have hretIff := IoUring.exec_register_ret_iff (s := w.uring) r setup
  have hlive : (w.step (.register r setup)).live
      = if (w.uring.exec (GroupCall.register r setup).op).1 = -1 then w.live
        else w.live ++ [(w.uring.exec (GroupCall.register r setup).op).1.toNat] := rfl
  rcases IoUring.registerRingBuffer_cases w.uring r setup with
    ⟨hret, hsame⟩ | ⟨hcomplete, hret, hblocks⟩
  . have hret' : (w.uring.exec (GroupCall.register r setup).op).1 = -1 := hret
    rw [if_pos hret'] at hlive
    have haligns : w.aligns (.register r setup) := by
      rw [aligns, hretIff.mp hret']
      rfl
    exact ⟨fun _ => h.of_same hsame hlive, fun hnot => absurd haligns hnot⟩
  . have hret' : (w.uring.exec (GroupCall.register r setup).op).1
        = ((w.uring.bufferGroupId % 2 ^ 16 : Nat) : Int) := hret
    have hbuffers' : (w.step (.register r setup)).uring.buffers
        = w.uring.buffers ++ r.infos w.uring.bufRings.length := congrArg Blocks.buffers hblocks
    have hgroups' : (w.step (.register r setup)).uring.grpIdToBufRings = _ := congrArg Blocks.groups hblocks
    dsimp only at hgroups'
    have hpos := IoUring.Registration.count_pos hcomplete
    have hle := IoUring.Registration.count_le hcomplete
    have hcomplete : (setup && r.isComplete) = true := by
      rw [← Bool.not_eq_false, ← hretIff, hret']
      omega
    rw [hret', if_neg (by omega), Int.toNat_natCast] at hlive
    have hnotLive : w.uring.buffers.length ∉ w.live := fun hid => absurd (h.lt hid) (Nat.lt_irrefl _)
    have hvalid := IoUring.isBufferValid_register hle hbuffers'
    have haligns : w.aligns (.register r setup)
        ↔ r.blockCount = 1 ∧ w.uring.bufferGroupId % 2 ^ 16 = w.uring.buffers.length := by
      rw [aligns, hcomplete]
      simp
    rw [haligns]
    generalize hid : w.uring.bufferGroupId % 2 ^ 16 = id at *
    constructor
    . rintro ⟨hone, rfl⟩
      have hnone : w.uring.grpIdToBufRings w.uring.buffers.length = none := h.other _ hnotLive
      rw [hnone, if_neg (by simp)] at hgroups'
      refine ⟨?_, ?_, ?_⟩
      . intro id
        rw [hvalid, hlive, List.mem_append, List.mem_singleton, h.agrees, hone]
        exact or_congr_right (by omega)
      . intro id hid
        rw [hgroups', hbuffers']
        rw [hlive, List.mem_append, List.mem_singleton] at hid
        rcases hid with hid | rfl
        . have hlt := h.lt hid
          obtain ⟨br, hinfo, buf, hbuf, hrest⟩ := h.group id hid
          refine ⟨br, ?_, buf, ?_, hrest⟩
          . rw [Function.update_of_ne (by omega), hinfo]
          . rw [List.getElem?_append_left hlt, hbuf]
        . obtain ⟨buf, hbuf, hrest⟩ := IoUring.Registration.infos_get w.uring.bufRings.length hle hpos
          refine ⟨w.uring.bufRings.length, ?_, buf, ?_, hrest⟩
          . rw [Function.update_self, hone]
          . rw [List.getElem?_append_right (Nat.le_refl _), Nat.sub_self, hbuf]
      . intro id hid
        rw [hlive, List.mem_append, List.mem_singleton, not_or] at hid
        rw [hgroups', Function.update_of_ne hid.2]
        exact h.other id hid.1
    . intro hnot hagrees
      -- the first of the new blocks and the one behind it
      have hfirst := (hagrees w.uring.buffers.length).mp ((hvalid _).mpr (.inr ⟨Nat.le_refl _, by omega⟩))
      rw [hlive, List.mem_append, List.mem_singleton] at hfirst
      have heq : w.uring.buffers.length = id := hfirst.resolve_left hnotLive
      have hmore : r.blockCount ≠ 1 := fun hone => hnot ⟨hone, heq.symm⟩
      have hsecond := (hagrees (w.uring.buffers.length + 1)).mp ((hvalid _).mpr (.inr ⟨by omega, by omega⟩))
      rw [hlive, List.mem_append, List.mem_singleton] at hsecond
      rcases hsecond with hsecond | hsecond
      . have := h.lt hsecond
        omega
      . omega

theorem Aligned.unregister (h : w.Aligned) (bufGroupId : Nat) (freed : Bool)
    : (w.aligns (.unregister bufGroupId freed) → (w.step (.unregister bufGroupId freed)).Aligned)
        ∧ (¬w.aligns (.unregister bufGroupId freed) → ¬(w.step (.unregister bufGroupId freed)).Agrees) := by
  have hlive : (w.step (.unregister bufGroupId freed)).live
      = if (w.uring.exec (GroupCall.unregister bufGroupId freed).op).1 = 0 then w.live.filter (· ≠ bufGroupId)
        else w.live := rfl
  -- a call that leaves everything as it is
  have hrefused (heq : w.uring.unregisterRingBuffer bufGroupId freed = (-1, w.uring))
      : (w.step (.unregister bufGroupId freed)).Aligned := by
    rw [show (w.uring.exec (GroupCall.unregister bufGroupId freed).op).1 = -1 from congrArg Prod.fst heq,
      if_neg (by decide)] at hlive
    exact h.of_same (congrArg (·.2.blocks) heq) hlive
  by_cases hid : bufGroupId ∈ w.live
  . obtain ⟨br, hinfo, buf, hbuf, hring, hbase⟩ := h.group bufGroupId hid
    cases freed with
    | false =>
      have heq : w.uring.unregisterRingBuffer bufGroupId false = (-1, w.uring) := by
        unfold IoUring.unregisterRingBuffer
        rw [hinfo]
        rfl
      refine ⟨fun _ => hrefused heq, fun hnot => ?_⟩
      exact absurd (show w.aligns (.unregister bufGroupId false) by rfl) hnot
    | true =>
      have hlt := h.lt hid
      have heq := IoUring.unregister_of_held hinfo hbuf hring hbase
      dsimp only at heq
      have haligns : w.aligns (.unregister bufGroupId true) ↔ bufGroupId + 1 = w.uring.buffers.length := by
        rw [aligns]
        simp [hid]
      rw [haligns]
      constructor
      . intro hlast
        rw [if_neg (by omega)] at heq
        rw [show (w.uring.exec (GroupCall.unregister bufGroupId true).op).1 = 0 from congrArg Prod.fst heq,
          if_pos rfl] at hlive
        have hbuffers : (w.step (.unregister bufGroupId true)).uring.buffers
            = w.uring.buffers.set bufGroupId { buf with base := none } := congrArg (·.2.buffers) heq
        have hgroups : (w.step (.unregister bufGroupId true)).uring.grpIdToBufRings
            = Function.update w.uring.grpIdToBufRings bufGroupId none := congrArg (·.2.grpIdToBufRings) heq
        refine ⟨?_, ?_, ?_⟩
        . intro id
          rw [IoUring.isBufferValid_free hlt hbuffers, hlive, List.mem_filter, h.agrees, decide_eq_true_eq]
        . intro id hmem
          rw [hlive, List.mem_filter, decide_eq_true_eq] at hmem
          rw [hbuffers, hgroups, Function.update_of_ne hmem.2, List.getElem?_set_ne (Ne.symm hmem.2)]
          exact h.group id hmem.1
        . intro id hmem
          rw [hlive, List.mem_filter, decide_eq_true_eq, not_and, not_not] at hmem
          rw [hgroups]
          by_cases hsame : id = bufGroupId
          . rw [hsame, Function.update_self]
          . rw [Function.update_of_ne hsame]
            exact h.other id fun hin => hsame (hmem hin)
      . intro hnot hagrees
        rw [if_pos (by omega)] at heq
        rw [show (w.uring.exec (GroupCall.unregister bufGroupId true).op).1 = -1 from congrArg Prod.fst heq,
          if_neg (by decide)] at hlive
        have hbuffers : (w.step (.unregister bufGroupId true)).uring.buffers
            = w.uring.buffers.set bufGroupId { buf with base := none } := congrArg (·.2.buffers) heq
        have hvalid := (hagrees bufGroupId).mpr (by rw [hlive]; exact hid)
        exact ((IoUring.isBufferValid_free hlt hbuffers bufGroupId).mp hvalid).2 rfl
  . refine ⟨fun _ => hrefused (IoUring.unregister_none freed (h.other _ hid)), fun hnot => absurd ?_ hnot⟩
    rw [aligns]
    simp [hid]

-- The backend after `init`.
def init (hasTimeoutMultishot : Bool) (ring : Wrapper) : GroupIds :=
  ⟨IoUring.init hasTimeoutMultishot ring, []⟩

theorem Aligned.init (hasTimeoutMultishot : Bool) (ring : Wrapper) : (init hasTimeoutMultishot ring).Aligned := by
  refine ⟨?_, ?_, fun _ _ => rfl⟩
  . intro id
    simp [GroupIds.init, IoUring.init, IoUring.isBufferValid]
  . intro id hid
    cases hid

theorem agrees_iff (hasTimeoutMultishot : Bool) (ring : Wrapper) (cs : List GroupCall)
    : (∀ bs, bs <+: cs → (bs.foldl step (init hasTimeoutMultishot ring)).Agrees)
        ↔ Along step (fun w c => w.aligns c = true) (init hasTimeoutMultishot ring) cs := by
  apply Along.forall_prefix_iff (I := Aligned)
  . exact fun w h => h.agrees
  . intro w c h _
    cases c with
    | register r setup => exact h.register r setup
    | unregister bufGroupId freed => exact h.unregister bufGroupId freed
  . exact Aligned.init hasTimeoutMultishot ring

-- The group 0 has the blocks 0 and 1, no group has the id 1.
theorem twoBlocks_not_agrees
    : ¬∀ bs, bs <+: [GroupCall.register (Uring.group 0 2) true]
        → (bs.foldl step (init true (Wrapper.init 2 2 0 0 []))).Agrees := by
  intro h
  have hlive := (h _ (List.prefix_refl _) 1).mp (by decide +kernel)
  exact absurd hlive (by decide +kernel)

end GroupIds

end Uring
end Event
end Ezio
