import Mathlib.Data.Set.Insert
import Mathlib.Logic.Function.Basic

/-!
This module contains a relation that is stored on both of its sides: an element names the group that it belongs to, and
a group holds its members. The two sides may come to disagree if an element is attached while it still has a group.
-/

namespace Ezio

structure Links (α β : Type) where
  group : α → Option β
  -- `none` is a group that does not exist
  members : β → Option (Set α)

namespace Links

variable {α β : Type}

-- The members of a group are the elements that name it.
def Agree (l : Links α β) : Prop :=
  ∀ b as, l.members b = some as → ∀ a, a ∈ as ↔ l.group a = some b

-- A group that an element names exists and holds the element.
def Held (l : Links α β) : Prop :=
  ∀ a b, l.group a = some b → ∃ as, l.members b = some as ∧ a ∈ as

variable [DecidableEq β]

def mapMembers (l : Links α β) (b : β) (f : Set α → Set α) : Links α β :=
  { l with members := Function.update l.members b ((l.members b).map f) }

def found (l : Links α β) (b : β) : Links α β :=
  { l with members := Function.update l.members b (some ∅) }

def dissolve (l : Links α β) (b : β) : Links α β :=
  { l with members := Function.update l.members b none }

variable {l : Links α β} {a : α} {b : β} {as : Set α}

theorem mapMembers_eq_some {f : Set α → Set α} {b' : β} {as' : Set α}
    : (l.mapMembers b f).members b' = some as' ↔
        if b' = b then ∃ as, l.members b = some as ∧ f as = as' else l.members b' = some as' := by
  unfold mapMembers
  dsimp only
  rw [Function.update_apply]
  split
  . exact Option.map_eq_some_iff
  . exact Iff.rfl

theorem found_members (b' : β) : (l.found b).members b' = if b' = b then some ∅ else l.members b' :=
  Function.update_apply ..

theorem dissolve_members (b' : β) : (l.dissolve b).members b' = if b' = b then none else l.members b' :=
  Function.update_apply ..

theorem Held.found (h : l.Held) (hb : l.members b = none) : (l.found b).Held := by
  intro a b' hgroup
  obtain ⟨as, hmembers, ha⟩ := h a b' hgroup
  refine ⟨as, ?_, ha⟩
  have hne : b' ≠ b := by
    rintro rfl
    rw [hb] at hmembers
    cases hmembers
  rw [found_members, if_neg hne]
  exact hmembers

theorem Agree.found (hagree : l.Agree) (hheld : l.Held) (hb : l.members b = none) : (l.found b).Agree := by
  intro b' as' hmembers a
  rw [found_members] at hmembers
  split at hmembers
  next heq =>
    cases hmembers
    have hnone : l.group a ≠ some b := by
      intro hgroup
      obtain ⟨as, hmembers, _⟩ := hheld a b hgroup
      rw [hb] at hmembers
      cases hmembers
    simp [Links.found, heq, hnone]
  . exact hagree b' as' hmembers a

theorem Held.dissolve (h : l.Held) (hb : ∀ a, l.group a ≠ some b) : (l.dissolve b).Held := by
  intro a b' hgroup
  obtain ⟨as, hmembers, ha⟩ := h a b' hgroup
  refine ⟨as, ?_, ha⟩
  have hne : b' ≠ b := by
    rintro rfl
    exact hb a hgroup
  rw [dissolve_members, if_neg hne]
  exact hmembers

theorem Agree.dissolve (h : l.Agree) : (l.dissolve b).Agree := by
  intro b' as' hmembers a
  rw [dissolve_members] at hmembers
  split at hmembers
  . cases hmembers
  . exact h b' as' hmembers a

variable [DecidableEq α]

-- The element names the group and becomes a member of it, a group that it has been a member of is not told.
def attach (l : Links α β) (a : α) (b : β) : Links α β :=
  { l with group := Function.update l.group a (some b) }.mapMembers b (insert a)

def detach (l : Links α β) (a : α) : Links α β :=
  match l.group a with
  | none => l
  | some b => { l with group := Function.update l.group a none }.mapMembers b (· \ {a})

theorem attach_group (a' : α) : (l.attach a b).group a' = if a' = a then some b else l.group a' :=
  Function.update_apply ..

theorem detach_group (a' : α) : (l.detach a).group a' = if a' = a then none else l.group a' := by
  unfold detach
  split
  next hnone =>
    split
    next heq => rw [heq, hnone]
    . rfl
  . exact Function.update_apply ..

-- The group that the element leaves is the only one that changes.
theorem detach_members {b' : β} {as' : Set α}
    : (l.detach a).members b' = some as'
        ↔ ∃ as, l.members b' = some as ∧ as' = if l.group a = some b' then as \ {a} else as := by
  unfold detach
  split
  next hnone => simp [hnone, eq_comm]
  next b hgroup =>
    rw [mapMembers_eq_some]
    by_cases hb : b' = b
    . subst hb
      simp [hgroup, eq_comm]
    . have hne : ¬some b = some b' := fun heq => hb (Option.some.inj heq).symm
      simp [hgroup, hb, hne, eq_comm]

theorem Held.attach (h : l.Held) (hb : l.members b = some as) : (l.attach a b).Held := by
  intro a' b' hgroup
  rw [attach_group] at hgroup
  unfold Links.attach
  simp only [mapMembers_eq_some]
  split at hgroup
  next heq =>
    cases hgroup
    refine ⟨insert a as, ?_, .inl heq⟩
    rw [if_pos rfl]
    exact ⟨as, hb, rfl⟩
  . obtain ⟨as', hmembers, ha'⟩ := h a' b' hgroup
    by_cases hbb : b' = b
    . rw [hbb] at hmembers
      refine ⟨insert a as', ?_, .inr ha'⟩
      rw [if_pos hbb]
      exact ⟨as', hmembers, rfl⟩
    . refine ⟨as', ?_, ha'⟩
      rw [if_neg hbb]
      exact hmembers

theorem Held.detach (h : l.Held) : (l.detach a).Held := by
  intro a' b' hgroup
  rw [detach_group] at hgroup
  split at hgroup
  . cases hgroup
  next hne =>
    obtain ⟨as', hmembers, ha'⟩ := h a' b' hgroup
    refine ⟨_, detach_members.mpr ⟨as', hmembers, rfl⟩, ?_⟩
    split
    . exact ⟨ha', hne⟩
    . exact ha'

-- Attaching an element keeps the sides together unless it is taken from another group.
theorem Agree.attach_iff (hagree : l.Agree) (hheld : l.Held)
    : (l.attach a b).Agree ↔ ∀ b', l.group a = some b' → b' = b := by
  constructor
  . intro h b' hgroup
    by_contra hne
    obtain ⟨as', hmembers, ha⟩ := hheld a b' hgroup
    have hstill : (l.attach a b).members b' = some as' := by
      rw [Links.attach, mapMembers_eq_some, if_neg hne]
      exact hmembers
    have hleft := (h b' as' hstill a).mp ha
    rw [attach_group, if_pos rfl] at hleft
    exact hne (Option.some.inj hleft).symm
  . intro hsame b' as' hmembers a'
    rw [Links.attach, mapMembers_eq_some] at hmembers
    rw [attach_group]
    split at hmembers
    next hbb =>
      obtain ⟨as, hmembers, rfl⟩ := hmembers
      rw [hbb, Set.mem_insert_iff, hagree b as hmembers a']
      split
      next heq => simp [heq]
      next hne => simp [hne]
    next hbb =>
      rw [hagree b' as' hmembers a']
      split
      next heq =>
        rw [heq]
        constructor
        . intro hgroup
          exact absurd (hsame b' hgroup) hbb
        . intro hgroup
          exact absurd (Option.some.inj hgroup).symm hbb
      . exact Iff.rfl

theorem Agree.detach (hagree : l.Agree) : (l.detach a).Agree := by
  intro b' as' hdetached a'
  obtain ⟨as, hmembers, rfl⟩ := detach_members.mp hdetached
  rw [detach_group]
  by_cases heq : a' = a
  . subst heq
    rw [if_pos rfl]
    split
    . simp
    next hne => simp [hagree b' as hmembers a', hne]
  . rw [if_neg heq, ← hagree b' as hmembers a']
    split
    . simp [heq]
    . exact Iff.rfl

theorem foldl_detach_group (as : List α) (l : Links α β) (a : α)
    : (as.foldl Links.detach l).group a = if a ∈ as then none else l.group a := by
  induction as generalizing l with
  | nil => rfl
  | cons a' as ih =>
    rw [List.foldl_cons, ih, detach_group]
    by_cases hmem : a ∈ as
    . simp [hmem]
    . by_cases heq : a = a'
      . simp [heq]
      . simp [hmem, heq]

theorem Held.foldl_detach (as : List α) (h : l.Held) : (as.foldl Links.detach l).Held := by
  induction as generalizing l with
  | nil => exact h
  | cons a as ih => exact ih h.detach

theorem Agree.foldl_detach (as : List α) (hagree : l.Agree)
    : (as.foldl Links.detach l).Agree := by
  induction as generalizing l with
  | nil => exact hagree
  | cons a as ih => exact ih hagree.detach

-- All members of a group are detached before it is dissolved.
theorem Held.remove (h : l.Held) (as : List α) (hb : l.members b = some {a | a ∈ as})
    : ((as.foldl Links.detach l).dissolve b).Held := by
  refine (h.foldl_detach as).dissolve ?_
  intro a hgroup
  rw [foldl_detach_group] at hgroup
  split at hgroup
  . cases hgroup
  next hnot =>
    obtain ⟨as', hmembers, ha⟩ := h a b hgroup
    rw [hb] at hmembers
    cases hmembers
    exact hnot ha

end Links

end Ezio
