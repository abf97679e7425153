import Ezio.Lib.Links
import Ezio.Event.Epoll.Lemmas.Basic

/-!
This module contains the part of the epoll backend that the multishot reads and the buffer groups are kept in, and what
the calls that submit and cancel such reads and that register and unregister groups do to it.
-/

namespace Ezio
namespace Event

-- What an `event_action` keeps for its multishot read.
structure Shot where
  fd : Fd
  task : Option MultishotTask
  hdrs : HdrPtr
  deriving DecidableEq, Repr

namespace Shot

def new (fd : Fd) : Shot := ⟨fd, none, .null⟩

def add (p : Shot) (t : MultishotTask) (blocks : List Iovec) : Shot :=
  { p with
    task := some t
    hdrs :=
      if p.fd.type = .udp ∧ p.hdrs = .null then .live (EventAction.hdrsOf blocks t.needSockDetail) else p.hdrs }

-- The headers are deleted, but the pointer to them stays.
def clear (p : Shot) : Shot :=
  { p with task := none, hdrs := if p.hdrs = .null then .null else .freed }

end Shot

def EventAction.shot (a : EventAction) : Shot := ⟨a.fd, a.multishotReadTask, a.mmsghdrForUdpMultishot⟩

structure Rings where
  shots : Nat → Option Shot
  buffers : List (Option RingBufferInfo)

namespace Rings

def task (r : Rings) (fd : Nat) : Option MultishotTask := (r.shots fd).bind (·.task)

def bufferOf (r : Rings) (group : Nat) : Option RingBufferInfo := (r.buffers[group]?).join

def shotOf (r : Rings) (fd : Fd) : Shot := (r.shots fd.key).getD (Shot.new fd)

def modifyBuffer (r : Rings) (group : Nat) (f : RingBufferInfo → RingBufferInfo) : Rings :=
  { r with buffers := r.buffers.modify group (Option.map f) }

def setShot (r : Rings) (fd : Nat) (p : Shot) : Rings :=
  { r with shots := Function.update r.shots fd (some p) }

def read (r : Rings) (fd : Fd) (t : MultishotTask) (blocks : List Iovec) : Rings :=
  (r.setShot fd.key ((r.shotOf fd).add t blocks)).modifyBuffer t.bufRing fun ring => ring.registerFd fd.key

def clear (r : Rings) (fd : Nat) : Rings :=
  match r.shots fd with
  | none => r
  | some p =>
    match p.task with
    | none => r
    | some t => (r.setShot fd p.clear).modifyBuffer t.bufRing fun ring => ring.unregisterFd fd

def register (r : Rings) (blocks : List Iovec) : Rings :=
  { r with buffers := r.buffers ++ [some ⟨blocks, []⟩] }

def unregister (r : Rings) (group : Nat) : Rings :=
  match r.bufferOf group with
  | none => r
  | some ring =>
    let r := ring.fdSet.foldl clear r
    { r with buffers := r.buffers.set group none }

-- The file descriptors name the group of their multishot read, the groups hold the ones registered with them.
def links (r : Rings) : Links Nat Nat :=
  { group := fun fd => (r.task fd).map (·.bufRing)
    members := fun group => (r.bufferOf group).map fun ring => {fd | fd ∈ ring.fdSet} }

variable {r : Rings} {group : Nat}

@[simp]
theorem bufferOf_modifyBuffer (f : RingBufferInfo → RingBufferInfo) (group' : Nat)
    : (r.modifyBuffer group f).bufferOf group' =
        if group' = group then (r.bufferOf group).map f else r.bufferOf group' := by
  unfold bufferOf modifyBuffer
  dsimp only
  split
  next heq =>
    rw [heq, List.getElem?_modify_eq]
    cases r.buffers[group]? with
    | none => rfl
    | some buffer => rfl
  next hne => rw [List.getElem?_modify_ne _ _ (Ne.symm hne)]

@[simp]
theorem bufferOf_setShot (fd : Nat) (p : Shot) : (r.setShot fd p).bufferOf group = r.bufferOf group := rfl

@[simp]
theorem shots_setShot (fd fd' : Nat) (p : Shot)
    : (r.setShot fd p).shots fd' = if fd' = fd then some p else r.shots fd' :=
  Function.update_apply ..

@[simp]
theorem shots_modifyBuffer (f : RingBufferInfo → RingBufferInfo) : (r.modifyBuffer group f).shots = r.shots := rfl

theorem task_setShot (fd fd' : Nat) (p : Shot)
    : (r.setShot fd p).task fd' = if fd' = fd then p.task else r.task fd' := by
  unfold task
  rw [shots_setShot]
  split
  . rfl
  . rfl

theorem task_clear (fd fd' : Nat) : (r.clear fd).task fd' = if fd' = fd then none else r.task fd' := by
  have hkeep : r.task fd = none → r.task fd' = if fd' = fd then none else r.task fd' := by
    intro hnone
    split
    next heq => rw [heq, hnone]
    . rfl
  unfold clear
  split
  next hnone =>
    apply hkeep
    rw [task, hnone]
    rfl
  next p hp =>
    split
    next hnone =>
      apply hkeep
      rw [task, hp]
      exact hnone
    . exact task_setShot fd fd' p.clear

theorem task_foldl_clear (fds : List Nat) (r : Rings) (fd : Nat)
    : (fds.foldl clear r).task fd = if fd ∈ fds then none else r.task fd := by
  induction fds generalizing r with
  | nil => rfl
  | cons fd' fds ih =>
    rw [List.foldl_cons, ih, task_clear]
    by_cases hmem : fd ∈ fds
    . simp [hmem]
    . by_cases heq : fd = fd'
      . simp [heq]
      . simp [hmem, heq]

theorem bufferOf_set (group' : Nat)
    : ({ r with buffers := r.buffers.set group none } : Rings).bufferOf group' =
        if group' = group then none else r.bufferOf group' := by
  unfold bufferOf
  dsimp only
  rw [List.getElem?_set]
  by_cases heq : group = group'
  . rw [if_pos heq, if_pos heq.symm]
    split
    . rfl
    . rfl
  . rw [if_neg heq, if_neg (Ne.symm heq)]

theorem bufferOf_register (blocks : List Iovec) (group' : Nat)
    : (r.register blocks).bufferOf group' =
        if group' = r.buffers.length then some ⟨blocks, []⟩ else r.bufferOf group' := by
  unfold bufferOf register
  dsimp only
  split
  next heq =>
    rw [heq, List.getElem?_concat_length]
    rfl
  next hne =>
    by_cases hlt : group' < r.buffers.length
    . rw [List.getElem?_append_left hlt]
    . rw [List.getElem?_eq_none_iff.mpr (by simp; omega), List.getElem?_eq_none_iff.mpr (by omega)]

theorem bufferOf_length : r.bufferOf r.buffers.length = none := by
  unfold bufferOf
  rw [List.getElem?_eq_none_iff.mpr (Nat.le_refl _)]
  rfl

-- The rings as links: each operation is the one of the links.

theorem links_ext {l : Links Nat Nat} (hgroup : ∀ fd, (r.task fd).map (·.bufRing) = l.group fd)
    (hmembers : ∀ group, (r.bufferOf group).map (fun ring => {fd | fd ∈ ring.fdSet}) = l.members group)
    : r.links = l := by
  unfold links
  rw [funext hgroup, funext hmembers]

theorem links_read (fd : Fd) (t : MultishotTask) (blocks : List Iovec)
    : (r.read fd t blocks).links = r.links.attach fd.key t.bufRing := by
  apply links_ext
  . intro fd'
    rw [Links.attach_group]
    unfold read
    show Option.map _ ((r.setShot fd.key _).task fd') = _
    rw [task_setShot]
    split
    . rfl
    . rfl
  . intro group
    unfold read Links.attach Links.mapMembers
    dsimp only
    rw [bufferOf_modifyBuffer, Function.update_apply]
    split
    . unfold links
      rw [bufferOf_setShot, Option.map_map, Option.map_map]
      congr 1
      funext ring
      ext fd'
      simp only [Function.comp_apply, RingBufferInfo.registerFd, Set.mem_ofPred_eq, Set.mem_insert_iff]
      split
      next hmem =>
        constructor
        . exact Or.inr
        . rintro (rfl | h)
          . exact hmem
          . exact h
      . rw [List.mem_append, List.mem_singleton, or_comm]
    . rfl

theorem links_clear (fd : Nat) : (r.clear fd).links = r.links.detach fd := by
  have hgroup : r.links.group fd = ((r.shots fd).bind (·.task)).map (·.bufRing) := rfl
  unfold clear
  split
  next hnone =>
    rw [hnone] at hgroup
    rw [Links.detach, hgroup]
    rfl
  next p hp =>
    rw [hp] at hgroup
    split
    next hnone =>
      rw [Option.bind_some, hnone] at hgroup
      rw [Links.detach, hgroup]
      rfl
    next t ht =>
      rw [Option.bind_some, ht] at hgroup
      rw [Links.detach, hgroup]
      dsimp only [Option.map_some, Links.mapMembers]
      apply links_ext
      . intro fd'
        show Option.map _ ((r.setShot fd _).task fd') = _
        dsimp only
        rw [task_setShot, Function.update_apply]
        split
        . rfl
        . rfl
      . intro group
        dsimp only
        rw [bufferOf_modifyBuffer, Function.update_apply]
        split
        . unfold links
          rw [bufferOf_setShot, Option.map_map, Option.map_map]
          congr 1
          funext ring
          ext fd'
          simp [RingBufferInfo.unregisterFd]
        . rfl

theorem links_register (blocks : List Iovec) : (r.register blocks).links = r.links.found r.buffers.length := by
  apply links_ext
  . intro fd
    rfl
  . intro group
    rw [Links.found_members, bufferOf_register]
    split
    . simp
    . rfl

theorem links_foldl_clear (fds : List Nat) (r : Rings)
    : (fds.foldl clear r).links = fds.foldl Links.detach r.links := by
  induction fds generalizing r with
  | nil => rfl
  | cons fd fds ih => rw [List.foldl_cons, ih, links_clear, List.foldl_cons]

theorem links_unregister {ring : RingBufferInfo} (hring : r.bufferOf group = some ring)
    : (r.unregister group).links = (ring.fdSet.foldl Links.detach r.links).dissolve group := by
  unfold unregister
  rw [hring, ← links_foldl_clear]
  dsimp only
  apply links_ext
  . intro fd
    rfl
  . intro group'
    rw [Links.dissolve_members, bufferOf_set]
    split
    . rfl
    . rfl

end Rings

end Event
end Ezio
