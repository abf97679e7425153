import Mathlib.Logic.Relation
import Ezio.Lib.Ring
import Ezio.Event.IoUring.Lemmas.Unregister

/-!
This module contains the way of a provided buffer: the kernel selects a block of a ring, `dispatch` hands it to the
callback of the completion and puts it back. The offset that is kept for the last block of a group is only 0 if the
next completion is of another block, and the reference to the block is only good as long as the callback does not let
`buffers_` grow.
-/

namespace Ezio
namespace Event
namespace Uring

namespace Blocks

-- The ring of the group that a block belongs to.
def groupOf (b : Blocks) (i : Nat) : Option Nat :=
  b.buffers[i]?.map (·.bufRings)

def lastBuf (b : Blocks) (br : Nat) : LastBufferInfo :=
  b.lastBufs.getD br {}

end Blocks

-- The pointer that `dispatch` makes for the buffer of a completion.
def IoUring.dataBuf (s : IoUring) (cqe : Cqe) : Nat :=
  match s.buffers[cqe.bufIndex]? with
  | none => 0
  | some buf => buf.base.getD 0 + ((s.blocks.lastBuf buf.bufRings).getOffset (BitVec.ofNat 32 cqe.bufIndex)).toNat

-- The entry that a counter of the ring stands for.
def IoUringBufRing.entry (ring : IoUringBufRing) (n : Nat) : IoUringBuf :=
  ring.bufs.getD (n % ring.bufs.length) ⟨0, 0, 0⟩

-- The backend, and of the kernel the entries that it has taken from each ring and the blocks that it has selected
-- and whose completion `dispatch` has not seen. Then what callbacks were given: the block and the pointer.
structure Provided where
  uring : IoUring
  heads : Nat → BitVec 16
  selected : List Nat
  delivered : List (Nat × Nat)
  fault : Option Fault := none

inductive ProvidedStep where
  | call (op : Op)
  | select (br : Nat)
  -- `dispatch` comes to a completion with a buffer, the callback makes these calls
  | complete (cqe : Cqe) (ops : List Op)
  deriving DecidableEq, Repr

namespace Provided

def select (p : Provided) (br : Nat) : Provided :=
  match p.uring.bufRings[br]? with
  | none => p
  | some ring =>
    if p.heads br = ring.tail then
      p
    else
      { p with
        heads := Function.update p.heads br (p.heads br + 1)
        selected := p.selected ++ [(ring.entry (p.heads br).toNat).bid.toNat] }

def complete (p : Provided) (cqe : Cqe) (ops : List Op) : Provided :=
  let p' := { p with selected := p.selected.erase cqe.bufIndex }
  match World.hasRoom p.uring cqe with
  | .ok true =>
    let after := (p.uring.execAll ops).2
    let p' := { p' with delivered := p.delivered ++ [(cqe.bufIndex, p.uring.dataBuf cqe)] }
    -- `buf_info` refers into `buffers_`
    if after.bufferCapacity ≠ p.uring.bufferCapacity then
      { p' with uring := after, fault := some .dangling }
    else
      { p' with uring := World.giveBack after cqe }
  | _ => p'

def step (p : Provided) (st : ProvidedStep) : Provided :=
  match p.fault with
  | some _ => p
  | none =>
    match st with
    | .call op => { p with uring := (p.uring.exec op).2 }
    | .select br => p.select br
    | .complete cqe ops => p.complete cqe ops

-- The backend after `init`.
def init (hasTimeoutMultishot : Bool) (ring : Wrapper) : Provided :=
  { uring := IoUring.init hasTimeoutMultishot ring, heads := fun _ => 0, selected := [], delivered := [] }

end Provided

-- The call does not unregister the group `g`.
def Op.spares (g : Nat) (s : IoUring) : Op → Bool
  | .unregisterRingBuffer bufGroupId _ => (s.grpIdToBufRings bufGroupId).all (·.bufRing ≠ g)
  | _ => true

-- What the kernel and the user may do while the group `g` is registered. A completion is of a block that the kernel
-- has selected and has data, `res` is an `int32_t`.
def ProvidedStep.Allowed (g : Nat) (p : Provided) : ProvidedStep → Prop
  | .call op => op.spares g p.uring ∧ (p.uring.exec op).2.buffers.length < 2 ^ 16
  | .select _ => True
  | .complete cqe ops =>
    cqe.bufIndex ∈ p.selected ∧ 0 < cqe.res ∧ cqe.res < 2 ^ 31
      ∧ Along (fun s op => (s.exec op).2) (fun s op => op.spares g s = true) p.uring ops
      ∧ (p.uring.execAll ops).2.buffers.length < 2 ^ 16

instance (g : Nat) (p : Provided) (st : ProvidedStep) : Decidable (st.Allowed g p) :=
  match st with
  | .call _ => inferInstanceAs (Decidable (_ ∧ _))
  | .select _ => .isTrue trivial
  | .complete _ _ => inferInstanceAs (Decidable (_ ∧ _))

def IoUringBufRing.put (ring : IoUringBufRing) (buf : IoUringBuf) : IoUringBufRing :=
  { bufs := ring.bufs.set (ring.tail.toNat % ring.bufs.length) buf, tail := ring.tail + 1 }

-- A completion of the group is delivered with the start of its block, which then goes back to the ring. All blocks are
-- in the ring or selected.
structure ProvidedStep.Meets (g : Nat) (p : Provided) (st : ProvidedStep) : Prop where
  sound : (p.step st).fault = none
  delivers : ∀ cqe : Cqe, ∀ ops : List Op, st = .complete cqe ops → p.uring.blocks.groupOf cqe.bufIndex = some g
    → ∃ buf : BufferInfo, ∃ base : Nat, ∃ ring : IoUringBufRing,
      p.uring.buffers[cqe.bufIndex]? = some buf ∧ buf.base = some base
        ∧ (p.step st).delivered = p.delivered ++ [(cqe.bufIndex, base)]
        ∧ p.uring.bufRings[g]? = some ring
        ∧ (p.step st).uring.bufRings[g]? = some (ring.put ⟨base, buf.len, BitVec.ofNat 16 cqe.bufIndex⟩)
  count : ∀ ring : IoUringBufRing, (p.step st).uring.bufRings[g]? = some ring
    → (ring.tail - (p.step st).heads g).toNat
        + (p.step st).selected.countP (fun i => (p.step st).uring.blocks.groupOf i = some g)
      = ring.bufs.length

-- The last completion of the group was of another block.
def ProvidedStep.alternates (g : Nat) (p : Provided) : ProvidedStep → Bool
  | .complete cqe _ =>
    p.uring.blocks.groupOf cqe.bufIndex ≠ some g || (p.uring.blocks.lastBuf g).bufIndex ≠ BitVec.ofNat 32 cqe.bufIndex
  | _ => true

-- The callback is called, and the groups that it registers need more room than `buffers_` has.
def ProvidedStep.reallocates (p : Provided) : ProvidedStep → Bool
  | .complete cqe ops =>
    match World.hasRoom p.uring cqe with
    | .ok true => (p.uring.execAll ops).2.bufferCapacity ≠ p.uring.bufferCapacity
    | _ => false
  | _ => false

def ProvidedStep.fits (g : Nat) (p : Provided) (st : ProvidedStep) : Bool :=
  st.alternates g p && !st.reallocates p

/-! ### Calls -/

-- What a call does to the blocks if it does not unregister the group `g`.
inductive Blocks.Call (g : Nat) (b : Blocks) : Blocks → Prop where
  | same : Call g b b
  | register (r : Registration) (groups : Nat → Option BufferRingInfo) (hr : r.isComplete)
      : Call g b
          { buffers := b.buffers ++ r.infos b.bufRings.length
            bufRings := b.bufRings ++ [r.ring b.buffers.length]
            lastBufs := b.lastBufs ++ [({} : LastBufferInfo)]
            groups }
  | free (i : Nat) (buf : BufferInfo) (groups : Nat → Option BufferRingInfo) (hbuf : b.buffers[i]? = some buf)
      (hring : buf.bufRings ≠ g)
      : Call g b { b with buffers := b.buffers.set i { buf with base := none }, groups }

theorem IoUring.exec_call {s : IoUring} {g : Nat} {op : Op} (h : op.spares g s)
    : Blocks.Call g s.blocks (s.exec op).2.blocks := by
  cases hgroup : op.isGroupCall with
  | false =>
    rw [exec_blocks hgroup]
    exact .same
  | true =>
    cases op with
    | registerRingBuffer blockSize blockCount setup addrs =>
      rcases registerRingBuffer_cases s ⟨blockSize, blockCount, addrs⟩ setup with ⟨_, hsame⟩ | ⟨hr, _, hblocks⟩
      . rw [show (s.exec (.registerRingBuffer blockSize blockCount setup addrs)).2.blocks = s.blocks from hsame]
        exact .same
      . rw [show (s.exec (.registerRingBuffer blockSize blockCount setup addrs)).2.blocks = _ from hblocks]
        exact .register _ _ hr
    | unregisterRingBuffer bufGroupId freed =>
      unfold exec run unregisterRingBuffer
      dsimp only
      cases hinfo : s.grpIdToBufRings bufGroupId with
      | none => exact .same
      | some info =>
        dsimp only
        split
        . exact .same
        . cases hbuf : s.buffers[info.startIndex]? with
          | none => exact .same
          | some buf =>
            dsimp only
            split
            . exact .same
            . next hheld =>
              rw [not_or, not_not] at hheld
              have hring : buf.bufRings ≠ g := by
                rw [Op.spares, hinfo] at h
                rw [hheld.1]
                simpa using h
              split
              . exact .free info.startIndex buf _ hbuf hring
              . exact .free info.startIndex buf _ hbuf hring
    | submitAsyncRead fd buffer cnt cb opt => cases hgroup
    | submitAsyncReadGroup fd group cb opt => cases hgroup
    | submitAsyncWrite fd buffer cnt cb opt => cases hgroup
    | submitAsyncAccept fd addrBuffer cb => cases hgroup
    | cancelAsyncRead fd cb => cases hgroup
    | cancelAsyncWrite fd cb => cases hgroup
    | cancelAsyncAccept fd cb => cases hgroup
    | createTimer intervalS intervalNs cb => cases hgroup
    | closeTimer timerId => cases hgroup
    | submit => cases hgroup

namespace Blocks

variable {g : Nat} {b b' : Blocks}

theorem groupOf_eq_some {i br : Nat}
    : b.groupOf i = some br ↔ ∃ buf : BufferInfo, b.buffers[i]? = some buf ∧ buf.bufRings = br := by
  unfold groupOf
  rw [Option.map_eq_some_iff]

theorem lt_of_groupOf {i br : Nat} (h : b.groupOf i = some br) : i < b.buffers.length := by
  obtain ⟨buf, hbuf, _⟩ := groupOf_eq_some.mp h
  exact (List.getElem?_eq_some_iff.mp hbuf).1

theorem Call.groupOf {i : Nat} (h : Call g b b') (hi : i < b.buffers.length) : b'.groupOf i = b.groupOf i := by
  cases h with
  | same => rfl
  | register r groups hr =>
    unfold Blocks.groupOf
    dsimp only
    rw [List.getElem?_append_left hi]
  | free j buf groups hbuf hring =>
    unfold Blocks.groupOf
    dsimp only
    by_cases heq : i = j
    . subst heq
      rw [List.getElem?_set_self hi, hbuf]
      rfl
    . rw [List.getElem?_set_ne (Ne.symm heq)]

theorem Call.length_le (h : Call g b b') : b.buffers.length ≤ b'.buffers.length := by
  cases h with
  | same => exact Nat.le_refl _
  | register r groups hr =>
    dsimp only
    rw [List.length_append]
    omega
  | free j buf groups hbuf hring =>
    dsimp only
    rw [List.length_set]

theorem Call.ring {br : Nat} {ring : IoUringBufRing} (h : Call g b b') (hring : b.bufRings[br]? = some ring)
    : b'.bufRings[br]? = some ring := by
  cases h with
  | same => exact hring
  | register r groups hr =>
    dsimp only
    rw [List.getElem?_append_left (List.getElem?_eq_some_iff.mp hring).1, hring]
  | free j buf groups hbuf hne => exact hring

theorem Call.block {i : Nat} {buf : BufferInfo} (h : Call g b b') (hbuf : b.buffers[i]? = some buf)
    (hring : buf.bufRings = g)
    : b'.buffers[i]? = some buf := by
  cases h with
  | same => exact hbuf
  | register r groups hr =>
    dsimp only
    rw [List.getElem?_append_left (List.getElem?_eq_some_iff.mp hbuf).1, hbuf]
  | free j buf' groups hbuf' hne =>
    dsimp only
    rw [List.getElem?_set_ne, hbuf]
    rintro rfl
    rw [hbuf, Option.some.injEq] at hbuf'
    rw [hbuf'] at hring
    exact hne hring

theorem Call.lastBuf (h : Call g b b') (br : Nat) : b'.lastBuf br = b.lastBuf br := by
  cases h with
  | same => rfl
  | register r groups hr =>
    unfold Blocks.lastBuf
    dsimp only
    rw [List.getD_eq_getElem?_getD, List.getD_eq_getElem?_getD]
    by_cases hlt : br < b.lastBufs.length
    . rw [List.getElem?_append_left hlt]
    . rw [List.getElem?_append_right (by omega), List.getElem?_eq_none_iff.mpr (show b.lastBufs.length ≤ br by omega)]
      cases br - b.lastBufs.length with
      | zero => rfl
      | succ n => rfl
  | free j buf groups hbuf hring => rfl

def Calls (g : Nat) : Blocks → Blocks → Prop :=
  Relation.ReflTransGen (Call g)

theorem Calls.length_le (h : Calls g b b') : b.buffers.length ≤ b'.buffers.length := by
  induction h with
  | refl => exact Nat.le_refl _
  | tail _ hcall ih => exact Nat.le_trans ih hcall.length_le

theorem Calls.groupOf {i : Nat} (h : Calls g b b') (hi : i < b.buffers.length) : b'.groupOf i = b.groupOf i := by
  induction h with
  | refl => rfl
  | tail hcalls hcall ih => rw [hcall.groupOf (Nat.lt_of_lt_of_le hi (Calls.length_le hcalls)), ih]

theorem Calls.ring {br : Nat} {ring : IoUringBufRing} (h : Calls g b b') (hring : b.bufRings[br]? = some ring)
    : b'.bufRings[br]? = some ring := by
  induction h with
  | refl => exact hring
  | tail _ hcall ih => exact hcall.ring ih

theorem Calls.block {i : Nat} {buf : BufferInfo} (h : Calls g b b') (hbuf : b.buffers[i]? = some buf)
    (hring : buf.bufRings = g)
    : b'.buffers[i]? = some buf := by
  induction h with
  | refl => exact hbuf
  | tail _ hcall ih => exact hcall.block ih hring

theorem Calls.lastBuf (h : Calls g b b') (br : Nat) : b'.lastBuf br = b.lastBuf br := by
  induction h with
  | refl => rfl
  | tail _ hcall ih => rw [hcall.lastBuf, ih]

end Blocks

theorem IoUring.execAll_calls {s : IoUring} {g : Nat} {ops : List Op}
    (h : Along (fun s op => (s.exec op).2) (fun s op => op.spares g s = true) s ops)
    : Blocks.Calls g s.blocks (s.execAll ops).2.blocks := by
  induction ops generalizing s with
  | nil => exact .refl
  | cons op ops ih =>
    rw [execAll_cons]
    exact .head (exec_call h.1) (ih h.2)

/-! ### The rings -/

namespace Blocks

variable {g : Nat} {b b' : Blocks} {heads : Nat → BitVec 16} {selected : List Nat}

-- The selected blocks of a group
def outside (b : Blocks) (selected : List Nat) (br : Nat) : Nat :=
  selected.countP fun i => b.groupOf i = some br

-- The entries between the counters `h` and `t` are blocks of the group, the ring has room for those outside.
structure RingOk (b : Blocks) (head : BitVec 16) (out br : Nat) (ring : IoUringBufRing) (m h t : Nat) : Prop where
  order : m < 16
  length : ring.bufs.length = 2 ^ m
  tail : ring.tail = BitVec.ofNat 16 t
  head : head = BitVec.ofNat 16 h
  le : h ≤ t
  fits : t + out ≤ h + 2 ^ m
  entry : ∀ n, h ≤ n → n < t → b.groupOf (ring.entry n).bid.toNat = some br

structure Good (g : Nat) (b : Blocks) (heads : Nat → BitVec 16) (selected : List Nat) : Prop where
  rings : ∀ br : Nat, ∀ ring : IoUringBufRing, b.bufRings[br]? = some ring → ∃ m h t,
    RingOk b (heads br) (b.outside selected br) br ring m h t ∧ (br = g → t + b.outside selected br = h + 2 ^ m)
  unused : ∀ br, b.bufRings.length ≤ br → heads br = 0
  block : ∀ i : Nat, ∀ buf : BufferInfo, b.buffers[i]? = some buf → 0 < buf.len
    ∧ ∃ ring : IoUringBufRing, b.bufRings[buf.bufRings]? = some ring ∧ buf.mask = ring.bufs.length - 1
  held : ∀ i : Nat, ∀ buf : BufferInfo, b.buffers[i]? = some buf → buf.bufRings = g → buf.base.isSome
  selected : ∀ i ∈ selected, i < b.buffers.length
  short : b.buffers.length < 2 ^ 16
  last : (b.lastBuf g).bufIndex = BitVec.allOnes 32 ∨ (b.lastBuf g).offset ≠ 0

theorem RingOk.mono {head : BitVec 16} {out br m h t : Nat} {ring : IoUringBufRing}
    (hok : RingOk b head out br ring m h t) (hgroup : ∀ i, b.groupOf i = some br → b'.groupOf i = some br)
    : RingOk b' head out br ring m h t :=
  ⟨hok.order, hok.length, hok.tail, hok.head, hok.le, hok.fits, fun n hlo hhi => hgroup _ (hok.entry n hlo hhi)⟩

theorem outside_congr (h : ∀ i ∈ selected, b'.groupOf i = b.groupOf i) (br : Nat)
    : b'.outside selected br = b.outside selected br := by
  unfold outside
  apply List.countP_congr
  intro i hi
  rw [h i hi]

theorem Good.group_lt (h : Good g b heads selected) {i br : Nat} (hgroup : b.groupOf i = some br)
    : br < b.bufRings.length := by
  obtain ⟨buf, hbuf, rfl⟩ := groupOf_eq_some.mp hgroup
  obtain ⟨_, ring, hring, _⟩ := h.block i buf hbuf
  exact (List.getElem?_eq_some_iff.mp hring).1

-- The ring of a new group has all of its blocks.
theorem RingOk.new {r : Registration} (hr : r.isComplete) (groups : Nat → Option BufferRingInfo)
    (hshort : (b.buffers ++ r.infos b.bufRings.length).length < 2 ^ 16)
    : ∃ m, RingOk
        { buffers := b.buffers ++ r.infos b.bufRings.length
          bufRings := b.bufRings ++ [r.ring b.buffers.length]
          lastBufs := b.lastBufs ++ [({} : LastBufferInfo)]
          groups }
        0 0 b.bufRings.length (r.ring b.buffers.length) m 0 (2 ^ m) := by
  have hle := IoUring.Registration.count_le hr
  obtain ⟨m, hm⟩ : r.blockCount.isPowerOfTwo := by
    rw [← Nat.ne_zero_and_sub_one_eq_zero_iff_isPowerOfTwo]
    unfold Registration.isComplete at hr
    simp only [Bool.and_eq_true, decide_eq_true_eq] at hr
    simpa [Util.isPowerOf2] using hr.1.2
  have hinfos : (r.infos b.bufRings.length).length = r.blockCount := by
    simpa [Registration.infos] using hle
  rw [List.length_append, hinfos] at hshort
  have horder : m < 16 := (Nat.pow_lt_pow_iff_right (show 1 < 2 by decide)).mp (by omega)
  have hlength : (r.ring b.buffers.length).bufs.length = 2 ^ m := by
    simpa [Registration.ring, ← hm] using hle
  refine ⟨m, horder, hlength, ?_, rfl, Nat.zero_le _, by omega, ?_⟩
  . unfold Registration.ring
    dsimp only
    rw [hm]
    exact BitVec.zero_add _
  . intro n _ hn
    have hslot : n % 2 ^ m = n := Nat.mod_eq_of_lt hn
    have hn' : n < ((r.addrs.take r.blockCount).mapIdx fun j addr =>
        (⟨addr, r.blockSize, BitVec.ofNat 16 (b.buffers.length + j)⟩ : IoUringBuf)).length := by
      rw [List.length_mapIdx, List.length_take]
      omega
    have hbid : ((r.ring b.buffers.length).entry n).bid = BitVec.ofNat 16 (b.buffers.length + n) := by
      unfold IoUringBufRing.entry
      rw [hlength, hslot]
      unfold Registration.ring
      dsimp only
      rw [List.getD_eq_getElem?_getD, List.getElem?_eq_getElem hn', Option.getD_some, List.getElem_mapIdx]
    rw [hbid, BitVec.toNat_ofNat, Nat.mod_eq_of_lt (by omega), groupOf_eq_some]
    obtain ⟨buf, hbuf, hring, _⟩ := IoUring.Registration.infos_get b.bufRings.length hle
      (show n < r.blockCount by omega)
    refine ⟨buf, ?_, hring⟩
    dsimp only
    rw [List.getElem?_append_right (by omega), Nat.add_sub_cancel_left, hbuf]

theorem Good.call (h : Good g b heads selected) (hcall : Call g b b') (hshort : b'.buffers.length < 2 ^ 16)
    : Good g b' heads selected := by
  have hgroup := fun i (hi : i ∈ selected) => hcall.groupOf (h.selected i hi)
  have hmono : ∀ br i, b.groupOf i = some br → b'.groupOf i = some br := by
    intro br i hsome
    rw [hcall.groupOf (lt_of_groupOf hsome), hsome]
  have hold : ∀ br ring, b.bufRings[br]? = some ring → ∃ m h t,
      RingOk b' (heads br) (b'.outside selected br) br ring m h t
        ∧ (br = g → t + b'.outside selected br = h + 2 ^ m) := by
    intro br ring hring
    obtain ⟨m, head, tail, hok, hall⟩ := h.rings br ring hring
    rw [outside_congr hgroup]
    exact ⟨m, head, tail, hok.mono (hmono br), hall⟩
  have hselected := fun i hi => Nat.lt_of_lt_of_le (h.selected i hi) hcall.length_le
  have hlast := hcall.lastBuf g
  cases hcall with
  | same => exact h
  | register r groups hr =>
    have hle := IoUring.Registration.count_le hr
    refine ⟨?_, ?_, ?_, ?_, hselected, hshort, ?_⟩
    . intro br ring hring
      by_cases hlt : br < b.bufRings.length
      . rw [List.getElem?_append_left hlt] at hring
        exact hold br ring hring
      . obtain rfl : br = b.bufRings.length := by
          have := (List.getElem?_eq_some_iff.mp hring).1
          rw [List.length_append, List.length_singleton] at this
          omega
        rw [List.getElem?_concat_length, Option.some.injEq] at hring
        subst hring
        obtain ⟨m, hok⟩ := RingOk.new hr groups hshort
        have hnone : outside
            { buffers := b.buffers ++ r.infos b.bufRings.length
              bufRings := b.bufRings ++ [r.ring b.buffers.length]
              lastBufs := b.lastBufs ++ [({} : LastBufferInfo)]
              groups } selected b.bufRings.length = 0 := by
          rw [outside_congr hgroup]
          unfold outside
          rw [List.countP_eq_zero]
          intro i _ hi
          exact absurd (h.group_lt (of_decide_eq_true hi)) (Nat.lt_irrefl _)
        rw [hnone, h.unused _ (Nat.le_refl _)]
        exact ⟨m, 0, 2 ^ m, hok, fun _ => by omega⟩
    . intro br hbr
      rw [List.length_append] at hbr
      exact h.unused br (by omega)
    . intro i buf hbuf
      dsimp only at hbuf ⊢
      by_cases hlt : i < b.buffers.length
      . rw [List.getElem?_append_left hlt] at hbuf
        obtain ⟨hlen, ring, hring, hmask⟩ := h.block i buf hbuf
        refine ⟨hlen, ring, ?_, hmask⟩
        rw [List.getElem?_append_left (List.getElem?_eq_some_iff.mp hring).1, hring]
      . rw [List.getElem?_append_right (by omega)] at hbuf
        unfold Registration.infos at hbuf
        rw [List.getElem?_map, Option.map_eq_some_iff] at hbuf
        obtain ⟨addr, _, rfl⟩ := hbuf
        refine ⟨?_, r.ring b.buffers.length, List.getElem?_concat_length .., ?_⟩
        . unfold Registration.isComplete at hr
          simp only [Bool.and_eq_true, decide_eq_true_eq] at hr
          exact hr.1.1.1
        . simp [Registration.ring, Nat.min_eq_left hle]
    . intro i buf hbuf hring
      dsimp only at hbuf
      by_cases hlt : i < b.buffers.length
      . rw [List.getElem?_append_left hlt] at hbuf
        exact h.held i buf hbuf hring
      . rw [List.getElem?_append_right (by omega)] at hbuf
        unfold Registration.infos at hbuf
        rw [List.getElem?_map, Option.map_eq_some_iff] at hbuf
        obtain ⟨addr, _, rfl⟩ := hbuf
        rfl
    . rw [hlast]
      exact h.last
  | free j buf groups hbuf hne =>
    refine ⟨hold, h.unused, ?_, ?_, hselected, hshort, h.last⟩
    . intro i buf' hbuf'
      dsimp only at hbuf' ⊢
      by_cases heq : i = j
      . subst heq
        rw [List.getElem?_set_self (List.getElem?_eq_some_iff.mp hbuf).1, Option.some.injEq] at hbuf'
        subst hbuf'
        exact h.block i buf hbuf
      . rw [List.getElem?_set_ne (Ne.symm heq)] at hbuf'
        exact h.block i buf' hbuf'
    . intro i buf' hbuf' hring
      dsimp only at hbuf'
      by_cases heq : i = j
      . subst heq
        rw [List.getElem?_set_self (List.getElem?_eq_some_iff.mp hbuf).1, Option.some.injEq] at hbuf'
        subst hbuf'
        exact absurd hring hne
      . rw [List.getElem?_set_ne (Ne.symm heq)] at hbuf'
        exact h.held i buf' hbuf' hring

theorem Good.calls (h : Good g b heads selected) (hcalls : Calls g b b') (hshort : b'.buffers.length < 2 ^ 16)
    : Good g b' heads selected := by
  induction hcalls with
  | refl => exact h
  | tail _ hcall ih => exact (ih (Nat.lt_of_le_of_lt hcall.length_le hshort)).call hcall hshort

theorem entry_ofNat {ring : IoUringBufRing} {m : Nat} (hlength : ring.bufs.length = 2 ^ m) (hm : m < 16) (n : Nat)
    : ring.entry (BitVec.ofNat 16 n).toNat = ring.entry n := by
  unfold IoUringBufRing.entry
  rw [hlength, BitVec.toNat_ofNat, Nat.mod_mod_of_dvd n (Nat.pow_dvd_pow 2 (Nat.le_of_lt hm))]

theorem Good.count (h : Good g b heads selected) {ring : IoUringBufRing} (hring : b.bufRings[g]? = some ring)
    : (ring.tail - heads g).toNat + b.outside selected g = ring.bufs.length := by
  obtain ⟨m, head, tail, hok, hall⟩ := h.rings g ring hring
  have hpow : 2 ^ m < 2 ^ 16 := Nat.pow_lt_pow_right (by decide) hok.order
  have hle := hok.le
  have hfits := hok.fits
  rw [hok.tail, hok.head, Ring.toNat_sub hle (by omega), hok.length]
  have := hall rfl
  omega

theorem Good.select (h : Good g b heads selected) {br : Nat} {ring : IoUringBufRing}
    (hring : b.bufRings[br]? = some ring) (hne : heads br ≠ ring.tail)
    : Good g b (Function.update heads br (heads br + 1))
        (selected ++ [(ring.entry (heads br).toNat).bid.toNat]) := by
  obtain ⟨m, head, tail, hok, hall⟩ := h.rings br ring hring
  have hlt : head < tail := by
    apply Nat.lt_of_le_of_ne hok.le
    rintro rfl
    exact hne (hok.head.trans hok.tail.symm)
  have hgroup : b.groupOf (ring.entry (heads br).toNat).bid.toNat = some br := by
    rw [hok.head, entry_ofNat hok.length hok.order]
    exact hok.entry head (Nat.le_refl _) hlt
  generalize hi : (ring.entry (heads br).toNat).bid.toNat = i at hgroup ⊢
  have hout : ∀ br', b.outside (selected ++ [i]) br' = b.outside selected br' + if br' = br then 1 else 0 := by
    intro br'
    unfold outside
    rw [List.countP_append, List.countP_singleton, hgroup]
    by_cases heq : br' = br
    . simp [heq]
    . simp [heq, Ne.symm heq]
  refine ⟨?_, ?_, h.block, h.held, ?_, h.short, h.last⟩
  . intro br' ring' hring'
    rw [hout]
    by_cases heq : br' = br
    . subst heq
      rw [hring, Option.some.injEq] at hring'
      subst hring'
      rw [if_pos rfl, Function.update_self]
      refine ⟨m, head + 1, tail, ⟨hok.order, hok.length, hok.tail, ?_, hlt, ?_, ?_⟩, ?_⟩
      . rw [hok.head, Ring.ofNat_succ]
      . have := hok.fits
        omega
      . intro n hlo hhi
        exact hok.entry n (by omega) hhi
      . intro hg
        have := hall hg
        omega
    . rw [if_neg heq, Function.update_of_ne heq]
      exact h.rings br' ring' hring'
  . intro br' hbr'
    have hlt' := (List.getElem?_eq_some_iff.mp hring).1
    rw [Function.update_of_ne (by omega)]
    exact h.unused br' hbr'
  . intro i' hi'
    rw [List.mem_append, List.mem_singleton] at hi'
    rcases hi' with hi' | rfl
    . exact h.selected i' hi'
    . exact lt_of_groupOf hgroup

theorem outside_erase {i : Nat} (hi : i ∈ selected) (br : Nat)
    : b.outside selected br = b.outside (selected.erase i) br + if b.groupOf i = some br then 1 else 0 := by
  unfold outside
  rw [(List.perm_cons_erase hi).countP_eq, List.countP_cons]
  simp

-- A block of another group that is not put back.
theorem Good.drop (h : Good g b heads selected) {i : Nat} (hi : i ∈ selected) (hne : b.groupOf i ≠ some g)
    : Good g b heads (selected.erase i) := by
  refine ⟨?_, h.unused, h.block, h.held, fun j hj => h.selected j (List.mem_of_mem_erase hj), h.short, h.last⟩
  intro br ring hring
  obtain ⟨m, head, tail, hok, hall⟩ := h.rings br ring hring
  have hout := outside_erase (b := b) hi br
  refine ⟨m, head, tail, ⟨hok.order, hok.length, hok.tail, hok.head, hok.le, ?_, hok.entry⟩, ?_⟩
  . have := hok.fits
    omega
  . rintro rfl
    rw [if_neg hne] at hout
    have := hall rfl
    omega

theorem entry_put {ring : IoUringBufRing} {m tail n : Nat} (buf : IoUringBuf) (hlength : ring.bufs.length = 2 ^ m)
    (hm : m < 16) (htail : ring.tail = BitVec.ofNat 16 tail) (hle : n ≤ tail) (hlt : tail < n + 2 ^ m)
    : (ring.put buf).entry n = if n = tail then buf else ring.entry n := by
  have hslot : ring.tail.toNat % ring.bufs.length = tail % 2 ^ m := by
    rw [htail, hlength, BitVec.toNat_ofNat, Nat.mod_mod_of_dvd tail (Nat.pow_dvd_pow 2 (Nat.le_of_lt hm))]
  unfold IoUringBufRing.entry IoUringBufRing.put
  dsimp only
  rw [hslot, List.length_set, hlength, List.getD_eq_getElem?_getD, List.getD_eq_getElem?_getD]
  by_cases heq : n = tail
  . have hbound : tail % 2 ^ m < ring.bufs.length := by
      rw [hlength]
      exact Nat.mod_lt _ (Nat.two_pow_pos m)
    rw [heq, List.getElem?_set_self hbound, if_pos rfl, Option.getD_some]
  . rw [List.getElem?_set_ne (Ring.mod_ne_of_lt (show n < tail by omega) (by omega)).symm, if_neg heq]

theorem Good.put (h : Good g b heads selected) {i : Nat} {buf : BufferInfo} (hbuf : b.buffers[i]? = some buf)
    (hi : i ∈ selected) (base : Nat) (lastBufs : List LastBufferInfo)
    (hlast : (lastBufs.getD g {}).bufIndex = BitVec.allOnes 32 ∨ (lastBufs.getD g {}).offset ≠ 0)
    : Good g
        { b with
          bufRings := b.bufRings.modify buf.bufRings (·.put ⟨base, buf.len, BitVec.ofNat 16 i⟩)
          lastBufs }
        heads (selected.erase i) := by
  have hshort := h.short
  have hgroup : b.groupOf i = some buf.bufRings := groupOf_eq_some.mpr ⟨buf, hbuf, rfl⟩
  have hout := outside_erase (b := b) hi
  have hlength : (b.bufRings.modify buf.bufRings (·.put ⟨base, buf.len, BitVec.ofNat 16 i⟩)).length
      = b.bufRings.length := List.length_modify ..
  refine ⟨?_, ?_, ?_, h.held, fun j hj => h.selected j (List.mem_of_mem_erase hj), h.short, hlast⟩
  . intro br ring' hring'
    dsimp only at hring'
    rw [List.getElem?_modify] at hring'
    obtain ⟨ring, hring, hring'⟩ := Option.map_eq_some_iff.mp hring'
    obtain ⟨m, head, tail, hok, hall⟩ := h.rings br ring hring
    have hfits := hok.fits
    have hoff := hout br
    by_cases heq : buf.bufRings = br
    . rw [if_pos (hgroup.trans (congrArg some heq))] at hoff
      rw [if_pos heq] at hring'
      subst hring'
      refine ⟨m, head, tail + 1, ⟨hok.order, ?_, ?_, hok.head, Nat.le_succ_of_le hok.le, ?_, ?_⟩, ?_⟩
      . unfold IoUringBufRing.put
        dsimp only
        rw [List.length_set]
        exact hok.length
      . unfold IoUringBufRing.put
        dsimp only
        rw [hok.tail, Ring.ofNat_succ]
      . change tail + 1 + b.outside (selected.erase i) br ≤ head + 2 ^ m
        omega
      . intro n hlo hhi
        rw [entry_put _ hok.length hok.order hok.tail (by omega) (by omega)]
        change b.groupOf _ = some br
        split
        . rw [BitVec.toNat_ofNat, Nat.mod_eq_of_lt (Nat.lt_trans (lt_of_groupOf hgroup) hshort), hgroup, heq]
        . exact hok.entry n hlo (by omega)
      . intro hg
        have := hall hg
        change tail + 1 + b.outside (selected.erase i) br = head + 2 ^ m
        omega
    . rw [if_neg fun hsome => heq (Option.some.inj (hgroup.symm.trans hsome))] at hoff
      rw [if_neg heq] at hring'
      subst hring'
      refine ⟨m, head, tail, ⟨hok.order, hok.length, hok.tail, hok.head, hok.le, ?_, hok.entry⟩, ?_⟩
      . change tail + b.outside (selected.erase i) br ≤ head + 2 ^ m
        omega
      . intro hg
        have := hall hg
        change tail + b.outside (selected.erase i) br = head + 2 ^ m
        omega
  . intro br hbr
    rw [hlength] at hbr
    exact h.unused br hbr
  . intro j buf' hbuf'
    obtain ⟨hlen, ring, hring, hmask⟩ := h.block j buf' hbuf'
    refine ⟨hlen, ?_⟩
    dsimp only
    rw [List.getElem?_modify, hring]
    split
    . refine ⟨_, rfl, ?_⟩
      unfold IoUringBufRing.put
      dsimp only
      rw [List.length_set]
      exact hmask
    . exact ⟨ring, rfl, hmask⟩

end Blocks

/-! ### Completions -/

namespace Provided

variable {g : Nat} {p : Provided}

def Good (g : Nat) (p : Provided) : Prop :=
  p.uring.blocks.Good g p.heads p.selected

theorem giveBack_blocks {s : IoUring} {cqe : Cqe} {buf : BufferInfo} {base m : Nat} {ring : IoUringBufRing}
    (hbuf : s.buffers[cqe.bufIndex]? = some buf) (hbase : buf.base = some base)
    (hring : s.bufRings[buf.bufRings]? = some ring) (hmask : buf.mask = ring.bufs.length - 1)
    (hlength : ring.bufs.length = 2 ^ m)
    : (World.giveBack s cqe).blocks
        =
      { s.blocks with
        bufRings := s.bufRings.modify buf.bufRings (·.put ⟨base, buf.len, BitVec.ofNat 16 cqe.bufIndex⟩)
        lastBufs := s.lastBufs.modify buf.bufRings fun last =>
          last.updateOffset (BitVec.ofNat 32 cqe.bufIndex) cqe.res } := by
  unfold World.giveBack
  rw [hbuf]
  dsimp only
  rw [hbase]
  unfold IoUring.blocks IoUring.bufRingAdvance IoUring.addBufRing
  dsimp only
  congr 1
  rw [List.modify_modify_eq]
  apply List.ext_getElem?
  intro j
  rw [List.getElem?_modify, List.getElem?_modify]
  split
  . next heq =>
    subst heq
    rw [hring]
    refine congrArg some ?_
    unfold IoUringBufRing.put
    dsimp only [Function.comp_apply]
    rw [Nat.add_zero, hmask, hlength, Nat.and_two_pow_sub_one_eq_mod]
    rfl
  . rfl

theorem giveBack_none {s : IoUring} {cqe : Cqe} {buf : BufferInfo} (hbuf : s.buffers[cqe.bufIndex]? = some buf)
    (hbase : buf.base = none)
    : World.giveBack s cqe = s := by
  unfold World.giveBack
  rw [hbuf]
  dsimp only
  rw [hbase]

theorem updateOffset_ne {last : LastBufferInfo} {i : BitVec 32} {res : Int} (hne : last.bufIndex ≠ i)
    (hpos : 0 < res) (hlt : res < 2 ^ 31)
    : (last.updateOffset i res).offset ≠ 0 := by
  unfold LastBufferInfo.updateOffset
  rw [if_neg hne, if_pos hpos]
  dsimp only
  intro hzero
  have htoNat := congrArg BitVec.toNat hzero
  rw [BitVec.toNat_ofInt] at htoNat
  change (res % ((2 ^ 32 : Nat) : Int)).toNat = 0 at htoNat
  omega

-- The block of a completion as long as its group is registered.
theorem Good.get (h : p.Good g) {i : Nat} (hgroup : p.uring.blocks.groupOf i = some g)
    : ∃ buf : BufferInfo, ∃ base : Nat, ∃ ring : IoUringBufRing, ∃ m : Nat,
        p.uring.buffers[i]? = some buf ∧ buf.bufRings = g ∧ buf.base = some base ∧ 0 < buf.len
          ∧ p.uring.bufRings[g]? = some ring ∧ buf.mask = ring.bufs.length - 1 ∧ ring.bufs.length = 2 ^ m := by
  obtain ⟨buf, hbuf, hg⟩ := Blocks.groupOf_eq_some.mp hgroup
  obtain ⟨base, hbase⟩ := Option.isSome_iff_exists.mp (h.held i buf hbuf hg)
  obtain ⟨hlen, ring, hring, hmask⟩ := h.block i buf hbuf
  rw [hg] at hring
  obtain ⟨m, _, _, hok, _⟩ := h.rings g ring hring
  exact ⟨buf, base, ring, m, hbuf, hg, hbase, hlen, hring, hmask, hok.length⟩

theorem hasRoom_eq {s : IoUring} {cqe : Cqe} {buf : BufferInfo} {base : Nat}
    (hbuf : s.buffers[cqe.bufIndex]? = some buf) (hbase : buf.base = some base)
    : World.hasRoom s cqe
        =
      .ok (((s.blocks.lastBuf buf.bufRings).getOffset (BitVec.ofNat 32 cqe.bufIndex)).toNat < buf.len : Bool) := by
  unfold World.hasRoom
  rw [hbuf]
  dsimp only
  rw [hbase]
  rfl

theorem dataBuf_eq {s : IoUring} {cqe : Cqe} {buf : BufferInfo} {base : Nat}
    (hbuf : s.buffers[cqe.bufIndex]? = some buf) (hbase : buf.base = some base)
    : s.dataBuf cqe
        =
      base + ((s.blocks.lastBuf buf.bufRings).getOffset (BitVec.ofNat 32 cqe.bufIndex)).toNat := by
  unfold IoUring.dataBuf
  rw [hbuf]
  dsimp only
  rw [hbase, Option.getD_some]

variable {cqe : Cqe} {ops : List Op}

theorem complete_called (hroom : World.hasRoom p.uring cqe = .ok true)
    (hkeeps : (ProvidedStep.complete cqe ops).reallocates p = false)
    : p.complete cqe ops
        =
      { p with
        uring := World.giveBack (p.uring.execAll ops).2 cqe
        selected := p.selected.erase cqe.bufIndex
        delivered := p.delivered ++ [(cqe.bufIndex, p.uring.dataBuf cqe)] } := by
  unfold ProvidedStep.reallocates at hkeeps
  unfold complete
  dsimp only at hkeeps ⊢
  rw [hroom] at hkeeps ⊢
  exact if_neg (of_decide_eq_false hkeeps)

theorem complete_delivered (hroom : World.hasRoom p.uring cqe = .ok true)
    : (p.complete cqe ops).delivered = p.delivered ++ [(cqe.bufIndex, p.uring.dataBuf cqe)] := by
  unfold complete
  dsimp only
  rw [hroom]
  dsimp only
  split
  . rfl
  . rfl

theorem complete_skipped (hroom : World.hasRoom p.uring cqe ≠ .ok true)
    : p.complete cqe ops = { p with selected := p.selected.erase cqe.bufIndex } := by
  unfold complete
  dsimp only
  split
  . next h => exact absurd h hroom
  . rfl

theorem updateLast {b : Blocks} (br : Nat) (f : LastBufferInfo → LastBufferInfo)
    : (b.lastBufs.modify br f).getD g {} = b.lastBuf g
        ∨ br = g ∧ (b.lastBufs.modify br f).getD g {} = f (b.lastBuf g) := by
  unfold Blocks.lastBuf
  rw [List.getD_eq_getElem?_getD, List.getD_eq_getElem?_getD, List.getElem?_modify]
  cases b.lastBufs[g]? with
  | none => exact .inl rfl
  | some last =>
    by_cases heq : br = g
    . exact .inr ⟨heq, if_pos heq⟩
    . exact .inl (if_neg heq)

-- The reference to the block dangles exactly after a callback that has made `buffers_` move.
theorem step_fault_iff (hfault : p.fault = none) (st : ProvidedStep)
    : (p.step st).fault = none ↔ st.reallocates p = false := by
  unfold Provided.step ProvidedStep.reallocates
  rw [hfault]
  cases st with
  | call op => exact ⟨fun _ => rfl, fun _ => rfl⟩
  | select br =>
    refine ⟨fun _ => rfl, fun _ => ?_⟩
    dsimp only
    unfold Provided.select
    split
    . exact hfault
    . split
      . exact hfault
      . exact hfault
  | complete cqe ops =>
    unfold Provided.complete
    dsimp only
    split
    . rw [decide_eq_false_iff_not]
      split
      . next hmoved =>
        refine ⟨fun h => ?_, fun h => absurd hmoved h⟩
        cases h
      . next hkept => exact ⟨fun _ => hkept, fun _ => hfault⟩
    . exact ⟨fun _ => rfl, fun _ => hfault⟩

-- The block of a completion that is called is put back if it is still there.
theorem Good.complete (h : p.Good g) (hallowed : (ProvidedStep.complete cqe ops).Allowed g p)
    (halternates : (ProvidedStep.complete cqe ops).alternates g p)
    (hkeeps : (ProvidedStep.complete cqe ops).reallocates p = false)
    : (p.complete cqe ops).Good g := by
  obtain ⟨hselected, hpos, hlt, hspares, hshort⟩ := hallowed
  have hcalls := IoUring.execAll_calls hspares
  have hafter : (p.uring.execAll ops).2.blocks.Good g p.heads p.selected := Blocks.Good.calls h hcalls hshort
  have hin := h.selected _ hselected
  simp only [ProvidedStep.alternates, ne_eq, Bool.or_eq_true, decide_eq_true_eq] at halternates
  by_cases hroom : World.hasRoom p.uring cqe = .ok true
  . rw [complete_called hroom hkeeps]
    have hin' := Nat.lt_of_lt_of_le hin hcalls.length_le
    obtain ⟨buf, hbuf⟩ : ∃ buf, (p.uring.execAll ops).2.buffers[cqe.bufIndex]? = some buf :=
      ⟨_, List.getElem?_eq_getElem hin'⟩
    have hgroup : p.uring.blocks.groupOf cqe.bufIndex = some buf.bufRings := by
      rw [← hcalls.groupOf hin]
      exact Blocks.groupOf_eq_some.mpr ⟨buf, hbuf, rfl⟩
    cases hbase : buf.base with
    | none =>
      rw [giveBack_none hbuf hbase]
      apply hafter.drop hselected
      intro hg
      obtain ⟨buf', hbuf', hring'⟩ := Blocks.groupOf_eq_some.mp hg
      obtain rfl : buf' = buf := Option.some.inj (hbuf'.symm.trans hbuf)
      have := hafter.held _ _ hbuf' hring'
      rw [hbase] at this
      cases this
    | some base =>
      obtain ⟨_, ring, hring, hmask⟩ := hafter.block _ buf hbuf
      obtain ⟨m, _, _, hok, _⟩ := hafter.rings _ ring hring
      unfold Good
      dsimp only
      rw [giveBack_blocks hbuf hbase hring hmask hok.length]
      apply hafter.put hbuf hselected
      rcases updateLast (g := g) (b := (p.uring.execAll ops).2.blocks) buf.bufRings
          (fun last => last.updateOffset (BitVec.ofNat 32 cqe.bufIndex) cqe.res) with hlast | ⟨hg, hlast⟩
      . rw [show ((p.uring.execAll ops).2.lastBufs.modify buf.bufRings _).getD g {} = _ from hlast]
        exact hafter.last
      . rw [show ((p.uring.execAll ops).2.lastBufs.modify buf.bufRings _).getD g {} = _ from hlast]
        right
        apply updateOffset_ne _ hpos hlt
        rw [hcalls.lastBuf]
        rw [hg] at hgroup
        exact halternates.resolve_left fun hnot => hnot hgroup
  . rw [complete_skipped hroom]
    apply Blocks.Good.drop h hselected
    intro hg
    obtain ⟨buf, base, _, _, hbuf, hring, hbase, hlen, _⟩ := h.get hg
    apply hroom
    rw [hasRoom_eq hbuf hbase, hring]
    unfold LastBufferInfo.getOffset
    rw [if_neg (halternates.resolve_left fun hnot => hnot hg)]
    exact congrArg _ (decide_eq_true hlen)

theorem Good.step (h : p.Good g) {st : ProvidedStep} (hallowed : st.Allowed g p) (hfits : st.fits g p)
    : (p.step st).Good g := by
  obtain ⟨halternates, hkeeps⟩ := Bool.and_eq_true_iff.mp hfits
  rw [Bool.not_eq_true'] at hkeeps
  unfold Provided.step
  split
  . exact h
  cases st with
  | call op => exact Blocks.Good.call h (IoUring.exec_call hallowed.1) hallowed.2
  | select br =>
    unfold Provided.select
    dsimp only
    split
    . exact h
    . next ring hring =>
      split
      . exact h
      . next hne => exact Blocks.Good.select h hring hne
  | complete cqe ops => exact h.complete hallowed halternates hkeeps

theorem fault_of_step {st : ProvidedStep} (h : (p.step st).fault = none) : p.fault = none := by
  cases hfault : p.fault with
  | none => rfl
  | some f =>
    unfold Provided.step at h
    rw [hfault] at h
    exact hfault.symm.trans h

-- A completion of a block that is not the last one of its group is handed over from the start of the block.
theorem Good.pointer (h : p.Good g) (hgroup : p.uring.blocks.groupOf cqe.bufIndex = some g)
    (halternates : (p.uring.blocks.lastBuf g).bufIndex ≠ BitVec.ofNat 32 cqe.bufIndex) {buf : BufferInfo} {base : Nat}
    (hbuf : p.uring.buffers[cqe.bufIndex]? = some buf) (hbase : buf.base = some base)
    : World.hasRoom p.uring cqe = .ok true ∧ p.uring.dataBuf cqe = base := by
  obtain ⟨buf', _, _, _, hbuf', hg, _, hlen, _⟩ := h.get hgroup
  obtain rfl : buf' = buf := Option.some.inj (hbuf'.symm.trans hbuf)
  have hoffset : (p.uring.blocks.lastBuf buf'.bufRings).getOffset (BitVec.ofNat 32 cqe.bufIndex) = 0 := by
    unfold LastBufferInfo.getOffset
    rw [hg, if_neg halternates]
  rw [hasRoom_eq hbuf hbase, dataBuf_eq hbuf hbase, hoffset]
  exact ⟨congrArg _ (decide_eq_true hlen), rfl⟩

-- The block then goes back to its ring.
theorem Good.delivers (h : p.Good g) (hallowed : (ProvidedStep.complete cqe ops).Allowed g p)
    (hgroup : p.uring.blocks.groupOf cqe.bufIndex = some g)
    (halternates : (p.uring.blocks.lastBuf g).bufIndex ≠ BitVec.ofNat 32 cqe.bufIndex)
    (hkeeps : (ProvidedStep.complete cqe ops).reallocates p = false)
    : ∃ buf : BufferInfo, ∃ base : Nat, ∃ ring : IoUringBufRing,
        p.uring.buffers[cqe.bufIndex]? = some buf ∧ buf.base = some base
          ∧ (p.complete cqe ops).delivered = p.delivered ++ [(cqe.bufIndex, base)]
          ∧ p.uring.bufRings[g]? = some ring
          ∧ (p.complete cqe ops).uring.bufRings[g]?
            = some (ring.put ⟨base, buf.len, BitVec.ofNat 16 cqe.bufIndex⟩) := by
  obtain ⟨_, _, _, hspares, _⟩ := hallowed
  obtain ⟨buf, base, ring, m, hbuf, hg, hbase, hlen, hring, hmask, hlength⟩ := h.get hgroup
  obtain ⟨hroom, hpointer⟩ := h.pointer hgroup halternates hbuf hbase
  have hcalls := IoUring.execAll_calls hspares
  have hring' : (p.uring.execAll ops).2.bufRings[buf.bufRings]? = some ring := by
    rw [hg]
    exact hcalls.ring hring
  have hblocks := giveBack_blocks (hcalls.block hbuf hg) hbase hring' hmask hlength
  refine ⟨buf, base, ring, hbuf, hbase, ?_, hring, ?_⟩
  . rw [complete_delivered hroom, hpointer]
  . rw [complete_called hroom hkeeps]
    rw [show (World.giveBack (p.uring.execAll ops).2 cqe).bufRings = _ from congrArg Blocks.bufRings hblocks]
    dsimp only
    rw [List.getElem?_modify, ← hg, hring']
    exact congrArg some (if_pos rfl)

-- A completion of the last block of its group, whose offset is not 0.
theorem Good.not_delivers (h : p.Good g) (hgroup : p.uring.blocks.groupOf cqe.bufIndex = some g)
    (hagain : (p.uring.blocks.lastBuf g).bufIndex = BitVec.ofNat 32 cqe.bufIndex) {buf : BufferInfo} {base : Nat}
    (hbuf : p.uring.buffers[cqe.bufIndex]? = some buf) (hbase : buf.base = some base)
    : (p.complete cqe ops).delivered ≠ p.delivered ++ [(cqe.bufIndex, base)] := by
  have hshort := h.short
  have hin := Blocks.lt_of_groupOf hgroup
  have hg : buf.bufRings = g := by
    obtain ⟨buf', hbuf', hg⟩ := Blocks.groupOf_eq_some.mp hgroup
    rw [← hg, Option.some.inj (hbuf'.symm.trans hbuf)]
  have hoffset : ((p.uring.blocks.lastBuf buf.bufRings).getOffset (BitVec.ofNat 32 cqe.bufIndex)).toNat ≠ 0 := by
    unfold LastBufferInfo.getOffset
    rw [hg, if_pos hagain]
    rcases h.last with hlast | hlast
    . have hindex := congrArg BitVec.toNat (hlast.symm.trans hagain)
      rw [BitVec.toNat_allOnes, BitVec.toNat_ofNat] at hindex
      omega
    . intro hzero
      exact hlast (BitVec.eq_of_toNat_eq hzero)
  by_cases hroom : World.hasRoom p.uring cqe = .ok true
  . rw [complete_delivered hroom]
    intro heq
    have hlast := List.append_cancel_left heq
    simp only [List.cons.injEq, Prod.mk.injEq, and_true, true_and] at hlast
    rw [dataBuf_eq hbuf hbase] at hlast
    omega
  . rw [complete_skipped hroom]
    intro heq
    have := congrArg List.length heq
    simp at this

theorem step_complete (hfault : p.fault = none) : p.step (.complete cqe ops) = p.complete cqe ops := by
  unfold Provided.step
  rw [hfault]

theorem Good.meets_iff (h : p.Good g) (hfault : p.fault = none) {st : ProvidedStep} (hallowed : st.Allowed g p)
    : st.Meets g p ↔ st.fits g p = true := by
  unfold ProvidedStep.fits
  rw [Bool.and_eq_true, Bool.not_eq_true', ← step_fault_iff hfault]
  constructor
  . intro hmeets
    refine ⟨?_, hmeets.sound⟩
    cases st with
    | call op => rfl
    | select br => rfl
    | complete cqe ops =>
      simp only [ProvidedStep.alternates, ne_eq, Bool.or_eq_true, decide_eq_true_eq]
      by_contra hnot
      rw [not_or, not_not, not_not] at hnot
      obtain ⟨buf, base, _, hbuf, hbase, hdelivered, _⟩ := hmeets.delivers cqe ops rfl hnot.1
      rw [step_complete hfault] at hdelivered
      exact h.not_delivers hnot.1 hnot.2 hbuf hbase hdelivered
  . rintro ⟨halternates, hsound⟩
    have hkeeps := (step_fault_iff hfault st).mp hsound
    have hfits : st.fits g p = true := by
      unfold ProvidedStep.fits
      rw [halternates, hkeeps]
      rfl
    refine ⟨hsound, ?_, fun ring hring => Blocks.Good.count (h.step hallowed hfits) hring⟩
    rintro cqe ops rfl hgroup
    simp only [ProvidedStep.alternates, ne_eq, Bool.or_eq_true, decide_eq_true_eq] at halternates
    rw [step_complete hfault]
    exact h.delivers hallowed hgroup (halternates.resolve_left fun hnot => hnot hgroup) hkeeps

theorem Good.init (g : Nat) (hasTimeoutMultishot : Bool) (ring : Wrapper)
    : (Provided.init hasTimeoutMultishot ring).Good g := by
  refine ⟨?_, fun _ _ => rfl, ?_, ?_, ?_, Nat.two_pow_pos 16, .inl rfl⟩
  . intro br ring hring
    cases hring
  . intro i buf hbuf
    cases hbuf
  . intro i buf hbuf
    cases hbuf
  . intro i hi
    cases hi

-- The completion of a read of 5 bytes into this block.
def fills (i : BitVec 32) : Cqe :=
  ⟨1, 5, (i <<< 16) ||| 3, ⟨0, none⟩⟩

-- Two reads into a group of two blocks, the blocks are selected in turn.
def twoReads : List ProvidedStep :=
  [ProvidedStep.call (group 0 2).op, ProvidedStep.select 0, ProvidedStep.complete (fills 0) [],
    ProvidedStep.select 0, ProvidedStep.complete (fills 1) []]

-- Two reads into a group of one block.
def sameBlock : List ProvidedStep :=
  [ProvidedStep.call (group 0 1).op, ProvidedStep.select 0, ProvidedStep.complete (fills 0) [],
    ProvidedStep.select 0, ProvidedStep.complete (fills 0) []]

end Provided

end Uring
end Event
end Ezio
