import Ezio.Lib.Run
import Ezio.Event.Epoll.RingCall

/-!
This module contains when the file descriptors that are registered with a buffer group are the ones whose multishot
reads use it. `add_multishot_read_task` replaces a task without a word to the group that it has named.
-/

namespace Ezio
namespace Event

namespace Epoll

-- The multishot read of a file descriptor.
def multishotTask (s : Epoll) (fd : Nat) : Option MultishotTask :=
  (s.fdToEventInfo fd).bind fun id => (s.action id).multishotReadTask

-- A registered group holds the file descriptors whose multishot read names it.
def SetsAgree (s : Epoll) : Prop :=
  ∀ group ring, s.bufferOf group = some ring
    → ∀ fd, fd ∈ ring.fdSet ↔ ∃ t : MultishotTask, s.multishotTask fd = some t ∧ t.bufRing = group

end Epoll

structure RingCall.Meets (s : Epoll) (c : RingCall) : Prop where
  agree : (c.step s).SetsAgree
  -- a group that is unregistered takes along the multishot reads that use it
  cleared : ∀ group s', c = .unregister group → s.exec c.op = .ok (0, s')
    → ∀ fd, s'.multishotTask fd = (s.multishotTask fd).filter fun t => t.bufRing ≠ group

-- A file descriptor that has a multishot read is not given one of another group.
def RingCall.stays (s : Epoll) : RingCall → Bool
  | .read fd group _ _ => !s.accepts fd group || (s.multishotTask fd.key).all fun t => t.bufRing = group
  | _ => true

namespace Epoll

variable {s : Epoll}

theorem rings_task (s : Epoll) (fd : Nat) : s.rings.task fd = s.multishotTask fd := by
  unfold Rings.task multishotTask rings
  dsimp only
  cases s.fdToEventInfo fd with
  | none => rfl
  | some id => rfl

theorem links_group (s : Epoll) (fd : Nat) : s.rings.links.group fd = (s.multishotTask fd).map (·.bufRing) := by
  rw [← rings_task]
  rfl

theorem links_members (s : Epoll) (group : Nat)
    : s.rings.links.members group = (s.bufferOf group).map fun ring => {fd | fd ∈ ring.fdSet} := rfl

theorem setsAgree_iff : s.SetsAgree ↔ s.rings.links.Agree := by
  have hgroup : ∀ fd group, s.rings.links.group fd = some group
      ↔ ∃ t : MultishotTask, s.multishotTask fd = some t ∧ t.bufRing = group := by
    intro fd group
    rw [links_group, Option.map_eq_some_iff]
  constructor
  . intro h group fds hmembers fd
    rw [links_members, Option.map_eq_some_iff] at hmembers
    obtain ⟨ring, hring, rfl⟩ := hmembers
    rw [hgroup]
    exact h group ring hring fd
  . intro h group ring hring fd
    rw [← hgroup]
    apply h group {fd | fd ∈ ring.fdSet}
    rw [links_members, hring]
    rfl

-- The two sides agree, and a group that is named is registered.
structure Tied (s : Epoll) : Prop where
  keyed : s.Keyed
  held : s.rings.links.Held
  agree : s.rings.links.Agree

namespace Tied

theorem read_iff (h : s.Tied) {fd : Fd} {group : Nat} (cb : Option Callback) (opt : Option ReadOptions)
    : (RingCall.step s (.read fd group cb opt)).rings.links.Agree ↔ RingCall.stays s (.read fd group cb opt) := by
  rw [RingCall.stays]
  by_cases haccepts : s.accepts fd group
  . have hring := haccepts
    simp only [accepts, Bool.and_eq_true] at hring
    obtain ⟨ring, hring⟩ := Option.isSome_iff_exists.mp hring.2
    rw [(RingCall.step_read_accepted h.keyed cb opt haccepts hring).2, Rings.links_read,
      h.agree.attach_iff h.held, links_group, haccepts]
    cases s.multishotTask fd.key with
    | none => simp
    | some t => simp [groupTask, eq_comm]
  . rw [RingCall.step_read_rejected cb opt haccepts]
    simp [h.agree, haccepts]

theorem step (h : s.Tied) {c : RingCall} (hstays : c.stays s) : (c.step s).Tied := by
  obtain ⟨hkeyed, hchanges⟩ := RingCall.step_changes h.keyed c
  refine ⟨hkeyed, hchanges.held h.held, ?_⟩
  cases c with
  | read fd group cb opt => exact (h.read_iff cb opt).mpr hstays
  | cancel fd cb =>
    generalize (RingCall.step s (.cancel fd cb)).rings = r at hchanges
    cases hchanges with
    | same => exact h.agree
    | cancel =>
      rw [Rings.links_clear]
      exact h.agree.detach
  | register blockSize blockCount addrs =>
    generalize (RingCall.step s (.register blockSize blockCount addrs)).rings = r at hchanges
    cases hchanges with
    | same => exact h.agree
    | register _ =>
      rw [Rings.links_register]
      apply h.agree.found h.held
      show (s.rings.bufferOf _).map _ = none
      rw [Rings.bufferOf_length]
      rfl
  | unregister group =>
    generalize (RingCall.step s (.unregister group)).rings = r at hchanges
    cases hchanges with
    | same => exact h.agree
    | unregister =>
      cases hring : s.rings.bufferOf group with
      | none =>
        unfold Rings.unregister
        rw [hring]
        exact h.agree
      | some ring =>
        rw [Rings.links_unregister hring]
        exact (h.agree.foldl_detach ring.fdSet).dissolve

-- The tasks themselves are kept or removed.
theorem unregister (h : s.Tied) {group : Nat} {s' : Epoll} (hcall : s.unregisterRingBuffer group = .ok (0, s'))
    (fd : Nat)
    : s'.multishotTask fd = (s.multishotTask fd).filter fun t => t.bufRing ≠ group := by
  have hrings := (unregisterRingBuffer_rings h.keyed hcall).2
  unfold unregisterRingBuffer at hcall
  cases hring : s.bufferOf group with
  | none =>
    rw [hring] at hcall
    cases hcall
  | some ring =>
    have hmem : fd ∈ ring.fdSet ↔ ∃ t : MultishotTask, s.multishotTask fd = some t ∧ t.bufRing = group :=
      setsAgree_iff.mpr h.agree group ring hring fd
    unfold Rings.unregister at hrings
    rw [rings_bufferOf, hring] at hrings
    have htask : s'.rings.task fd = (ring.fdSet.foldl Rings.clear s.rings).task fd := by
      rw [hrings]
      rfl
    rw [← rings_task, htask, Rings.task_foldl_clear, rings_task]
    cases ht : s.multishotTask fd with
    | none => simp
    | some t =>
      rw [ht] at hmem
      by_cases hgroup : t.bufRing = group
      . rw [if_pos (hmem.mpr ⟨t, rfl, hgroup⟩)]
        simp [Option.filter, hgroup]
      . rw [if_neg]
        . simp [Option.filter, hgroup]
        . intro hin
          obtain ⟨_, heq, hsame⟩ := hmem.mp hin
          cases heq
          exact hgroup hsame

theorem meets_iff (h : s.Tied) (c : RingCall) : c.Meets s ↔ c.stays s = true := by
  cases c with
  | read fd group cb opt =>
    rw [← h.read_iff cb opt, ← setsAgree_iff]
    refine ⟨fun hmeets => hmeets.agree, fun hagree => ⟨hagree, ?_⟩⟩
    intro _ _ heq
    cases heq
  | cancel fd cb =>
    refine ⟨fun _ => rfl, fun hstays => ⟨setsAgree_iff.mpr (h.step hstays).agree, ?_⟩⟩
    intro _ _ heq
    cases heq
  | register blockSize blockCount addrs =>
    refine ⟨fun _ => rfl, fun hstays => ⟨setsAgree_iff.mpr (h.step hstays).agree, ?_⟩⟩
    intro _ _ heq
    cases heq
  | unregister group =>
    refine ⟨fun _ => rfl, fun hstays => ⟨setsAgree_iff.mpr (h.step hstays).agree, ?_⟩⟩
    intro _ s' heq hcall
    cases heq
    exact h.unregister hcall

theorem init (isOpen : Nat → Bool) : (Epoll.init isOpen).Tied := by
  refine ⟨init_keyed isOpen, init_held isOpen, ?_⟩
  intro group fds hmembers
  cases hmembers

end Tied

end Epoll

-- A TCP socket is moved from one group to another.
def movedRead : List RingCall :=
  [.register 8 1 [0], .register 8 1 [8], .read ⟨3, .tcp⟩ 0 (some 7) none, .read ⟨3, .tcp⟩ 1 (some 7) none]

end Event
end Ezio
