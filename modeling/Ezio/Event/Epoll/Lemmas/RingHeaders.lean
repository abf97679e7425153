import Ezio.Event.Epoll.Lemmas.RingSet

/-!
This module contains when the headers that a multishot read of a UDP socket hands to `recvmmsg` are those of the group
that the read names. They are built for the first read and deleted with it, and never built again.
-/

namespace Ezio
namespace Event

-- There is one header for each block, with a name if and only if the address is asked for.
def HdrPtr.Describes (hdrs : HdrPtr) (blocks : List Iovec) (needSockDetail : Bool) : Prop :=
  ∃ buf : List FdIo.Udp.Mmsghdr, hdrs = .live buf
    ∧ buf.map (fun m => (m.iov, m.hasName)) = blocks.map fun v => (v, needSockDetail)

-- What every multishot read of a UDP socket finds when it runs.
def Epoll.HeadersCurrent (s : Epoll) : Prop :=
  ∀ fd id t, s.fdToEventInfo fd = some id → (s.action id).fd.type = .udp → (s.action id).multishotReadTask = some t
    → ∃ ring : RingBufferInfo, s.bufferOf t.bufRing = some ring
      ∧ (s.action id).mmsghdrForUdpMultishot.Describes ring.blocks t.needSockDetail

def Rings.blocksOf (r : Rings) (group : Nat) : Option (List Iovec) := (r.bufferOf group).map (·.blocks)

-- A UDP socket is given its first multishot read, or one that names the same blocks and asks for the same as the one
-- that it has.
def Rings.repeats (r : Rings) (fd : Fd) (t : MultishotTask) : Prop :=
  (r.shotOf fd).hdrs = .null
    ∨ ∃ t' : MultishotTask, (r.shotOf fd).task = some t' ∧ r.blocksOf t'.bufRing = r.blocksOf t.bufRing
      ∧ t'.needSockDetail = t.needSockDetail

def RingCall.repeats (s : Epoll) : RingCall → Prop
  | .read fd group _ opt =>
    s.accepts fd group → (s.rings.shotOf fd).fd.type = .udp → s.rings.repeats fd (Epoll.groupTask group opt)
  | _ => True

theorem HdrPtr.Describes.unique {hdrs : HdrPtr} {blocks blocks' : List Iovec} {detail detail' : Bool}
    (h : hdrs.Describes blocks detail) (h' : hdrs.Describes blocks' detail') (hne : blocks ≠ [])
    : blocks = blocks' ∧ detail = detail' := by
  obtain ⟨buf, hbuf, hmap⟩ := h
  obtain ⟨buf', hbuf', hmap'⟩ := h'
  rw [hbuf, HdrPtr.live.injEq] at hbuf'
  rw [hbuf', hmap'] at hmap
  have hblocks := congrArg (List.map Prod.fst) hmap
  have hdetail := congrArg (List.map Prod.snd) hmap
  rw [List.map_map, List.map_map] at hblocks hdetail
  have hid : Prod.fst ∘ (fun v : Iovec => (v, detail)) = id := rfl
  have hid' : Prod.fst ∘ (fun v : Iovec => (v, detail')) = id := rfl
  rw [hid, hid', List.map_id, List.map_id] at hblocks
  subst hblocks
  obtain ⟨v, blocks, rfl⟩ := List.exists_cons_of_ne_nil hne
  exact ⟨rfl, (List.cons.inj hdetail).1.symm⟩

theorem HdrPtr.describes_hdrsOf (blocks : List Iovec) (needSockDetail : Bool)
    : (HdrPtr.live (EventAction.hdrsOf blocks needSockDetail)).Describes blocks needSockDetail := by
  refine ⟨_, rfl, ?_⟩
  unfold EventAction.hdrsOf
  rw [List.map_map]
  rfl

namespace Rings

variable {r : Rings}

theorem blocksOf_modifyBuffer {f : RingBufferInfo → RingBufferInfo} (hf : ∀ ring, (f ring).blocks = ring.blocks)
    (group group' : Nat)
    : (r.modifyBuffer group f).blocksOf group' = r.blocksOf group' := by
  unfold blocksOf
  rw [bufferOf_modifyBuffer]
  split
  next heq =>
    rw [heq, Option.map_map]
    congr 1
    funext ring
    exact hf ring
  . rfl

theorem blocksOf_clear (fd group : Nat) : (r.clear fd).blocksOf group = r.blocksOf group := by
  unfold clear
  split
  . rfl
  . split
    . rfl
    . exact blocksOf_modifyBuffer (f := fun ring => ring.unregisterFd fd) (fun _ => rfl) _ group

theorem shots_clear (fd fd' : Nat)
    : (r.clear fd).shots fd' = r.shots fd' ∨ fd' = fd ∧ ∃ p, r.shots fd = some p
      ∧ (r.clear fd).shots fd' = some p.clear := by
  unfold clear
  split
  . exact .inl rfl
  next p hp =>
    split
    . exact .inl rfl
    . rw [shots_modifyBuffer, shots_setShot]
      split
      next heq => exact .inr ⟨heq, p, hp, rfl⟩
      . exact .inl rfl

def Current (r : Rings) (p : Shot) : Prop :=
  ∀ t, p.fd.type = .udp → p.task = some t
    → ∃ blocks : List Iovec, r.blocksOf t.bufRing = some blocks ∧ p.hdrs.Describes blocks t.needSockDetail

-- The headers of the UDP sockets with a multishot read are current, those of the others are not there.
structure Described (r : Rings) : Prop where
  held : r.links.Held
  blocks : ∀ group blocks, r.blocksOf group = some blocks → blocks ≠ []
  current : ∀ fd p, r.shots fd = some p → r.Current p
  idle : ∀ fd p, r.shots fd = some p → p.task = none → ∀ buf, p.hdrs ≠ .live buf

theorem Current.of_blocks {r' : Rings} {p : Shot} (h : r.Current p)
    (hblocks : ∀ t, p.task = some t → r'.blocksOf t.bufRing = r.blocksOf t.bufRing)
    : r'.Current p := by
  intro t htype ht
  rw [hblocks t ht]
  exact h t htype ht

theorem clear_current (p : Shot) : r.Current p.clear := by
  intro t _ ht
  cases ht

theorem clear_idle (p : Shot) (buf : List FdIo.Udp.Mmsghdr) : p.clear.hdrs ≠ .live buf := by
  unfold Shot.clear
  dsimp only
  split
  . exact fun h => by cases h
  . exact fun h => by cases h

namespace Described

theorem clear (h : r.Described) (fd : Nat) : (r.clear fd).Described := by
  refine ⟨?_, ?_, ?_, ?_⟩
  . rw [links_clear]
    exact h.held.detach
  . intro group blocks hblocks
    rw [blocksOf_clear] at hblocks
    exact h.blocks group blocks hblocks
  . intro fd' p hp
    rcases r.shots_clear fd fd' with hsame | ⟨_, p₀, _, hcleared⟩
    . rw [hsame] at hp
      exact (h.current fd' p hp).of_blocks fun t _ => blocksOf_clear fd t.bufRing
    . rw [hp, Option.some.injEq] at hcleared
      rw [hcleared]
      exact clear_current p₀
  . intro fd' p hp htask
    rcases r.shots_clear fd fd' with hsame | ⟨_, p₀, _, hcleared⟩
    . rw [hsame] at hp
      exact h.idle fd' p hp htask
    . rw [hp, Option.some.injEq] at hcleared
      rw [hcleared]
      exact clear_idle p₀

theorem foldl_clear (h : r.Described) (fds : List Nat) : (fds.foldl Rings.clear r).Described := by
  induction fds generalizing r with
  | nil => exact h
  | cons fd fds ih => exact ih (h.clear fd)

theorem register (h : r.Described) {blocks : List Iovec} (hne : blocks ≠ []) : (r.register blocks).Described := by
  have hblocksOf : ∀ group, (r.register blocks).blocksOf group
      = if group = r.buffers.length then some blocks else r.blocksOf group := by
    intro group
    unfold blocksOf
    rw [bufferOf_register]
    split
    . rfl
    . rfl
  refine ⟨?_, ?_, ?_, h.idle⟩
  . rw [links_register]
    apply h.held.found
    show (r.bufferOf _).map _ = none
    rw [bufferOf_length]
    rfl
  . intro group blocks' hblocks
    rw [hblocksOf] at hblocks
    split at hblocks
    . cases hblocks
      exact hne
    . exact h.blocks group blocks' hblocks
  . intro fd p hp t htype ht
    obtain ⟨blocks', hblocks, hdescribes⟩ := h.current fd p hp t htype ht
    refine ⟨blocks', ?_, hdescribes⟩
    rw [hblocksOf, if_neg, hblocks]
    intro hlast
    rw [blocksOf, hlast, bufferOf_length] at hblocks
    cases hblocks

theorem unregister (h : r.Described) (group : Nat) : (r.unregister group).Described := by
  cases hring : r.bufferOf group with
  | none =>
    unfold Rings.unregister
    rw [hring]
    exact h
  | some ring =>
    have hmembers : r.links.members group = some {fd | fd ∈ ring.fdSet} := by
      show (r.bufferOf group).map _ = _
      rw [hring]
      rfl
    have hheld : (r.unregister group).links.Held := by
      rw [links_unregister hring]
      exact h.held.remove ring.fdSet hmembers
    have hcleared := h.foldl_clear ring.fdSet
    -- no multishot read uses the group any more
    have hgone : ∀ fd p t, (ring.fdSet.foldl Rings.clear r).shots fd = some p → p.task = some t
      → t.bufRing ≠ group := by
      rintro fd p t hp ht rfl
      have htask : (ring.fdSet.foldl Rings.clear r).task fd = some t := by
        rw [task, hp]
        exact ht
      rw [task_foldl_clear] at htask
      split at htask
      . cases htask
      next hnot =>
        obtain ⟨fds, hfds, hfd⟩ := h.held fd t.bufRing (by
          show (r.task fd).map _ = _
          rw [htask]
          rfl)
        rw [hmembers] at hfds
        cases hfds
        exact hnot hfd
    unfold Rings.unregister at hheld ⊢
    rw [hring] at hheld ⊢
    have hblocksOf : ∀ group', ({ ring.fdSet.foldl Rings.clear r with
        buffers := (ring.fdSet.foldl Rings.clear r).buffers.set group none } : Rings).blocksOf group'
          = if group' = group then none else (ring.fdSet.foldl Rings.clear r).blocksOf group' := by
      intro group'
      unfold blocksOf
      rw [bufferOf_set]
      split
      . rfl
      . rfl
    refine ⟨hheld, ?_, ?_, hcleared.idle⟩
    . intro group' blocks hblocks
      dsimp only at hblocks
      rw [hblocksOf] at hblocks
      split at hblocks
      . cases hblocks
      . exact hcleared.blocks group' blocks hblocks
    . intro fd p hp
      apply (hcleared.current fd p hp).of_blocks
      intro t ht
      dsimp only
      rw [hblocksOf, if_neg (hgone fd p t hp ht)]

end Described

theorem shots_read (fd : Fd) (t : MultishotTask) (blocks : List Iovec) (fd' : Nat)
    : (r.read fd t blocks).shots fd' = if fd' = fd.key then some ((r.shotOf fd).add t blocks) else r.shots fd' :=
  shots_setShot fd.key fd' _

theorem blocksOf_read (fd : Fd) (t : MultishotTask) (blocks : List Iovec) (group : Nat)
    : (r.read fd t blocks).blocksOf group = r.blocksOf group :=
  blocksOf_modifyBuffer (f := fun ring => ring.registerFd fd.key) (fun _ => rfl) _ group

-- A socket without an `event_action` is treated like one without a multishot read.
theorem Described.shotOf (h : r.Described) (fd : Fd)
    : r.Current (r.shotOf fd) ∧ ((r.shotOf fd).task = none → ∀ buf, (r.shotOf fd).hdrs ≠ .live buf) := by
  unfold Rings.shotOf
  cases hshot : r.shots fd.key with
  | none =>
    refine ⟨?_, ?_⟩
    . intro _ _ ht
      cases ht
    . intro _ _ hlive
      cases hlive
  | some p => exact ⟨h.current fd.key p hshot, h.idle fd.key p hshot⟩

-- The headers of the socket describe the new group if they are built now or if they did so before.
theorem Described.add_iff (h : r.Described) {fd : Fd} {t : MultishotTask} {blocks : List Iovec}
    (hblocks : r.blocksOf t.bufRing = some blocks) (htype : (r.shotOf fd).fd.type = .udp)
    : ((r.shotOf fd).add t blocks).hdrs.Describes blocks t.needSockDetail ↔ r.repeats fd t := by
  obtain ⟨hcurrent, hidle⟩ := h.shotOf fd
  unfold Shot.add repeats
  dsimp only
  by_cases hnull : (r.shotOf fd).hdrs = .null
  . rw [if_pos ⟨htype, hnull⟩]
    exact ⟨fun _ => .inl hnull, fun _ => HdrPtr.describes_hdrsOf blocks t.needSockDetail⟩
  . rw [if_neg fun h => hnull h.2]
    constructor
    . intro hdescribes
      have ⟨buf, hlive, _⟩ := hdescribes
      cases ht : (r.shotOf fd).task with
      | none => exact absurd hlive (hidle ht buf)
      | some t' =>
        obtain ⟨blocks', hblocks', hdescribes'⟩ := hcurrent t' htype ht
        obtain ⟨rfl, hdetail⟩ := hdescribes'.unique hdescribes (h.blocks t'.bufRing blocks' hblocks')
        exact .inr ⟨t', rfl, by rw [hblocks', hblocks], hdetail⟩
    . rintro (hnull' | ⟨t', ht, hsame, hdetail⟩)
      . exact absurd hnull' hnull
      . obtain ⟨blocks', hblocks', hdescribes'⟩ := hcurrent t' htype ht
        rw [hsame, hblocks, Option.some.injEq] at hblocks'
        rw [hblocks', ← hdetail]
        exact hdescribes'

theorem Described.read_iff (h : r.Described) {fd : Fd} {t : MultishotTask} {blocks : List Iovec}
    (hblocks : r.blocksOf t.bufRing = some blocks)
    : (∀ fd' p, (r.read fd t blocks).shots fd' = some p → (r.read fd t blocks).Current p)
        ↔ ((r.shotOf fd).fd.type = .udp → r.repeats fd t) := by
  constructor
  . intro hall htype
    have hnew : (r.read fd t blocks).shots fd.key = some ((r.shotOf fd).add t blocks) := by
      rw [shots_read, if_pos rfl]
    obtain ⟨blocks', hblocks', hdescribes⟩ := hall fd.key _ hnew t htype rfl
    rw [blocksOf_read, hblocks, Option.some.injEq] at hblocks'
    rw [← h.add_iff hblocks htype]
    rw [← hblocks'] at hdescribes
    exact hdescribes
  . intro hrepeats fd' p hp
    rw [shots_read] at hp
    split at hp
    . cases hp
      intro t' htype ht
      cases ht
      refine ⟨blocks, ?_, (h.add_iff hblocks htype).mpr (hrepeats htype)⟩
      rw [blocksOf_read, hblocks]
    . exact (h.current fd' p hp).of_blocks fun t' _ => blocksOf_read fd t blocks t'.bufRing

theorem Described.read (h : r.Described) {fd : Fd} {t : MultishotTask} {ring : RingBufferInfo}
    (hring : r.bufferOf t.bufRing = some ring) (hrepeats : (r.shotOf fd).fd.type = .udp → r.repeats fd t)
    : (r.read fd t ring.blocks).Described := by
  have hblocks : r.blocksOf t.bufRing = some ring.blocks := by
    rw [blocksOf, hring]
    rfl
  refine ⟨?_, ?_, (h.read_iff hblocks).mpr hrepeats, ?_⟩
  . rw [links_read]
    apply h.held.attach
    show (r.bufferOf t.bufRing).map _ = _
    rw [hring]
    rfl
  . intro group blocks hgroup
    rw [blocksOf_read] at hgroup
    exact h.blocks group blocks hgroup
  . intro fd' p hp htask
    rw [shots_read] at hp
    split at hp
    . cases hp
      cases htask
    . exact h.idle fd' p hp htask

end Rings

namespace Epoll

variable {s : Epoll}

theorem headersCurrent_iff : s.HeadersCurrent ↔ ∀ fd p, s.rings.shots fd = some p → s.rings.Current p := by
  constructor
  . intro h fd p hp t htype ht
    obtain ⟨id, hid, rfl⟩ := Option.map_eq_some_iff.mp hp
    obtain ⟨ring, hring, hdescribes⟩ := h fd id t hid htype ht
    refine ⟨ring.blocks, ?_, hdescribes⟩
    rw [Rings.blocksOf, rings_bufferOf, hring]
    rfl
  . intro h fd id t hid htype ht
    obtain ⟨blocks, hblocks, hdescribes⟩ := h fd _ (rings_shots hid) t htype ht
    obtain ⟨ring, hring, rfl⟩ := Option.map_eq_some_iff.mp hblocks
    exact ⟨ring, hring, hdescribes⟩

structure Headed (s : Epoll) : Prop where
  keyed : s.Keyed
  described : s.rings.Described

namespace Headed

theorem read_iff (h : s.Headed) {fd : Fd} {group : Nat} (cb : Option Callback) (opt : Option ReadOptions)
    : (RingCall.step s (.read fd group cb opt)).HeadersCurrent ↔ RingCall.repeats s (.read fd group cb opt) := by
  rw [headersCurrent_iff, RingCall.repeats]
  by_cases haccepts : s.accepts fd group
  . have hring := haccepts
    simp only [accepts, Bool.and_eq_true] at hring
    obtain ⟨ring, hring⟩ := Option.isSome_iff_exists.mp hring.2
    rw [(RingCall.step_read_accepted h.keyed cb opt haccepts hring).2, h.described.read_iff]
    . exact ⟨fun hrepeats _ => hrepeats, fun hrepeats => hrepeats haccepts⟩
    . show (s.bufferOf group).map _ = _
      rw [hring]
      rfl
  . rw [RingCall.step_read_rejected cb opt haccepts]
    exact ⟨fun _ haccepts' => absurd haccepts' haccepts, fun _ => h.described.current⟩

theorem step (h : s.Headed) {c : RingCall} (hrepeats : c.repeats s) : (c.step s).Headed := by
  cases c with
  | read fd group cb opt =>
    by_cases haccepts : s.accepts fd group
    . have hring := haccepts
      simp only [accepts, Bool.and_eq_true] at hring
      obtain ⟨ring, hring⟩ := Option.isSome_iff_exists.mp hring.2
      obtain ⟨hkeyed, hrings⟩ := RingCall.step_read_accepted h.keyed cb opt haccepts hring
      refine ⟨hkeyed, ?_⟩
      rw [hrings]
      exact h.described.read hring (hrepeats haccepts)
    . rw [RingCall.step_read_rejected cb opt haccepts]
      exact h
  | cancel fd cb =>
    obtain ⟨hkeyed, hchanges⟩ := RingCall.step_changes h.keyed (.cancel fd cb)
    refine ⟨hkeyed, ?_⟩
    generalize (RingCall.step s (.cancel fd cb)).rings = r at hchanges
    cases hchanges with
    | same => exact h.described
    | cancel => exact h.described.clear fd.key
  | register blockSize blockCount addrs =>
    obtain ⟨hkeyed, hchanges⟩ := RingCall.step_changes h.keyed (.register blockSize blockCount addrs)
    refine ⟨hkeyed, ?_⟩
    generalize (RingCall.step s (.register blockSize blockCount addrs)).rings = r at hchanges
    cases hchanges with
    | same => exact h.described
    | register hblocks => exact h.described.register hblocks
  | unregister group =>
    obtain ⟨hkeyed, hchanges⟩ := RingCall.step_changes h.keyed (.unregister group)
    refine ⟨hkeyed, ?_⟩
    generalize (RingCall.step s (.unregister group)).rings = r at hchanges
    cases hchanges with
    | same => exact h.described
    | unregister => exact h.described.unregister group

theorem current_iff (h : s.Headed) (c : RingCall) : (c.step s).HeadersCurrent ↔ c.repeats s := by
  cases c with
  | read fd group cb opt => exact h.read_iff cb opt
  | _ => exact ⟨fun _ => trivial, fun hrepeats => headersCurrent_iff.mpr (h.step hrepeats).described.current⟩

theorem init (isOpen : Nat → Bool) : (Epoll.init isOpen).Headed := by
  refine ⟨init_keyed isOpen, init_held isOpen, ?_, ?_, ?_⟩
  . intro group blocks hblocks
    cases hblocks
  . intro fd p hp
    cases hp
  . intro fd p hp
    cases hp

end Headed

end Epoll

theorem ringHeaders_current_iff (isOpen : Nat → Bool) (cs : List RingCall)
    : Along RingCall.step (fun s c => (c.step s).HeadersCurrent) (Epoll.init isOpen) cs
        ↔ Along RingCall.step (fun s c => c.repeats s) (Epoll.init isOpen) cs := by
  apply (Along.of_mem (P := fun _ => True) fun _ _ => trivial).iff_of_invariant (I := Epoll.Headed)
  . exact fun s c h _ => h.current_iff c
  . exact fun s c h _ hrepeats => h.step hrepeats
  . exact Epoll.Headed.init isOpen

-- A UDP socket is read from after its first multishot read has been cancelled.
def secondRead : List RingCall :=
  [.register 8 1 [0], .read ⟨3, .udp⟩ 0 (some 7) none, .cancel ⟨3, .udp⟩ (some 8), .read ⟨3, .udp⟩ 0 (some 7) none]

theorem secondRead_not_current
    : ¬Along RingCall.step (fun s c => (c.step s).HeadersCurrent) (Epoll.init fun _ => true) secondRead := by
  rintro ⟨_, _, _, hcurrent, _⟩
  obtain ⟨_, _, buf, hlive, _⟩ := hcurrent 3 0 ⟨0, false, true⟩ (by decide +kernel) (by decide +kernel)
    (by decide +kernel)
  have hfreed : HdrPtr.freed = .live buf := hlive
  cases hfreed

end Event
end Ezio
