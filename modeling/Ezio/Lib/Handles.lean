import Mathlib.Data.List.Nodup
import Mathlib.Logic.Function.Basic

/-!
This module contains handles that are numbered in the order they are created in, each of them has an owner until it
is closed.
-/

namespace Ezio

-- `next` handles have been created, the owner `k` has to close `held k`.
structure Handles (κ : Type) where
  held : κ → Option Nat
  next : Nat
  closed : List Nat

namespace Handles

variable {κ : Type} {h h' : Handles κ} {k : κ}

def acquire [DecidableEq κ] (h : Handles κ) (k : κ) : Handles κ :=
  { h with held := Function.update h.held k (some h.next), next := h.next + 1 }

def release [DecidableEq κ] (h : Handles κ) (k : κ) : Handles κ :=
  { h with held := Function.update h.held k none, closed := h.closed ++ (h.held k).toList }

-- A handle is created that nobody owns.
def lose (h : Handles κ) : Handles κ :=
  { h with next := h.next + 1 }

-- No handle has two owners, and one that is closed has none.
structure Exclusive (h : Handles κ) : Prop where
  closed : ∀ x ∈ h.closed, x < h.next
  nodup : h.closed.Nodup
  held : ∀ k x, h.held k = some x → x < h.next ∧ x ∉ h.closed
  single : ∀ k k' x, h.held k = some x → h.held k' = some x → k = k'

-- Every handle is closed or owned.
def Complete (h : Handles κ) : Prop :=
  ∀ x < h.next, x ∈ h.closed ∨ ∃ k, h.held k = some x

-- `h'` is reached without losing a handle.
inductive Moves [DecidableEq κ] (h : Handles κ) : Handles κ → Prop
  | refl : Moves h h
  | acquire {h' : Handles κ} {k : κ} : Moves h h' → h'.held k = none → Moves h (h'.acquire k)
  | release {h' : Handles κ} {k : κ} : Moves h h' → Moves h (h'.release k)

theorem Exclusive.lose (hx : h.Exclusive)
    : h.lose.Exclusive := by
  refine ⟨fun x hmem => Nat.lt_succ_of_lt (hx.closed x hmem), hx.nodup, ?_, hx.single⟩
  intro k x hheld
  exact ⟨Nat.lt_succ_of_lt (hx.held k x hheld).1, (hx.held k x hheld).2⟩

theorem Exclusive.not_complete_lose (hx : h.Exclusive)
    : ¬h.lose.Complete := by
  intro hall
  rcases hall h.next (Nat.lt_succ_self _) with hmem | ⟨k, hheld⟩
  . exact Nat.lt_irrefl _ (hx.closed _ hmem)
  . exact Nat.lt_irrefl _ (hx.held k _ hheld).1

-- All handles have been closed once when none has been lost and none is owned any more.
theorem Exclusive.count_closed_iff (hx : h.Exclusive)
    : (∀ x < h.next, h.closed.count x = 1) ↔ h.Complete ∧ ∀ k, h.held k = none := by
  constructor
  . intro hcount
    have hmem : ∀ x < h.next, x ∈ h.closed := by
      intro x hlt
      exact List.count_pos_iff.mp (by rw [hcount x hlt]; exact Nat.one_pos)
    refine ⟨fun x hlt => .inl (hmem x hlt), ?_⟩
    intro k
    cases hheld : h.held k with
    | none => rfl
    | some x => exact absurd (hmem x (hx.held k x hheld).1) (hx.held k x hheld).2
  . rintro ⟨hall, hnone⟩ x hlt
    rcases hall x hlt with hmem | ⟨k, hheld⟩
    . rw [hx.nodup.count, if_pos hmem]
    . rw [hnone k] at hheld
      cases hheld

variable [DecidableEq κ]

theorem Moves.trans {h'' : Handles κ} (hm : Moves h h') (hm' : Moves h' h'')
    : Moves h h'' := by
  induction hm' with
  | refl => exact hm
  | acquire _ hnone ih => exact ih.acquire hnone
  | release _ ih => exact ih.release

@[simp]
theorem acquire_held_self (h : Handles κ) (k : κ) : (h.acquire k).held k = some h.next :=
  Function.update_self ..

@[simp]
theorem acquire_held_of_ne {k' : κ} (hk : k' ≠ k) : (h.acquire k).held k' = h.held k' :=
  Function.update_of_ne hk ..

@[simp]
theorem release_held_self (h : Handles κ) (k : κ) : (h.release k).held k = none :=
  Function.update_self ..

@[simp]
theorem release_held_of_ne {k' : κ} (hk : k' ≠ k) : (h.release k).held k' = h.held k' :=
  Function.update_of_ne hk ..

theorem mem_release_closed {x : Nat}
    : x ∈ (h.release k).closed ↔ x ∈ h.closed ∨ h.held k = some x :=
  List.mem_append.trans (or_congr_right Option.mem_toList)

theorem held_acquire {k' : κ} {x : Nat} (hx : (h.acquire k).held k' = some x)
    : k' = k ∧ x = h.next ∨ k' ≠ k ∧ h.held k' = some x := by
  by_cases hk : k' = k
  . rw [hk, acquire_held_self] at hx
    exact .inl ⟨hk, (Option.some.inj hx).symm⟩
  . rw [acquire_held_of_ne hk] at hx
    exact .inr ⟨hk, hx⟩

theorem held_release {k' : κ} {x : Nat} (hx : (h.release k).held k' = some x)
    : k' ≠ k ∧ h.held k' = some x := by
  by_cases hk : k' = k
  . rw [hk, release_held_self] at hx
    cases hx
  . rw [release_held_of_ne hk] at hx
    exact ⟨hk, hx⟩

theorem Exclusive.acquire (hx : h.Exclusive) (k : κ)
    : (h.acquire k).Exclusive := by
  constructor
  . exact fun x hmem => Nat.lt_succ_of_lt (hx.closed x hmem)
  . exact hx.nodup
  . intro k' x hheld
    rcases held_acquire hheld with ⟨-, rfl⟩ | ⟨-, hheld⟩
    . exact ⟨Nat.lt_succ_self _, fun hmem => Nat.lt_irrefl _ (hx.closed _ hmem)⟩
    . obtain ⟨hlt, hnot⟩ := hx.held k' x hheld
      exact ⟨Nat.lt_succ_of_lt hlt, hnot⟩
  . intro k₁ k₂ x h₁ h₂
    have hnext : ∀ k', h.held k' ≠ some h.next := fun k' hheld => Nat.lt_irrefl _ (hx.held k' _ hheld).1
    rcases held_acquire h₁ with ⟨hk₁, rfl⟩ | ⟨-, h₁'⟩
    . rcases held_acquire h₂ with ⟨hk₂, -⟩ | ⟨-, h₂'⟩
      . rw [hk₁, hk₂]
      . exact absurd h₂' (hnext k₂)
    . rcases held_acquire h₂ with ⟨-, rfl⟩ | ⟨-, h₂'⟩
      . exact absurd h₁' (hnext k₁)
      . exact hx.single k₁ k₂ x h₁' h₂'

theorem Exclusive.release (hx : h.Exclusive) (k : κ)
    : (h.release k).Exclusive := by
  constructor
  . intro x hclosed
    rcases mem_release_closed.mp hclosed with hclosed | hheld
    . exact hx.closed x hclosed
    . exact (hx.held k x hheld).1
  . rw [Handles.release, List.nodup_append]
    refine ⟨hx.nodup, ?_, ?_⟩
    . cases h.held k <;> simp
    . rintro x hclosed y hy rfl
      exact (hx.held k x (Option.mem_toList.mp hy)).2 hclosed
  . intro k' x hheld
    obtain ⟨hk, hheld⟩ := held_release hheld
    obtain ⟨hlt, hnot⟩ := hx.held k' x hheld
    refine ⟨hlt, ?_⟩
    rw [mem_release_closed, not_or]
    exact ⟨hnot, fun hheld' => hk (hx.single k' k x hheld hheld')⟩
  . intro k₁ k₂ x h₁ h₂
    exact hx.single k₁ k₂ x (held_release h₁).2 (held_release h₂).2

theorem Exclusive.moves (hx : h.Exclusive) (hm : Moves h h')
    : h'.Exclusive := by
  induction hm with
  | refl => exact hx
  | acquire _ _ ih => exact ih.acquire _
  | release _ ih => exact ih.release _

theorem complete_acquire (hnone : h.held k = none)
    : (h.acquire k).Complete ↔ h.Complete := by
  constructor
  . intro hall x hlt
    rcases hall x (Nat.lt_succ_of_lt hlt) with hmem | ⟨k', hheld⟩
    . exact .inl hmem
    . rcases held_acquire hheld with ⟨-, rfl⟩ | ⟨-, hheld⟩
      . exact absurd hlt (Nat.lt_irrefl _)
      . exact .inr ⟨k', hheld⟩
  . intro hall x hlt
    rcases Nat.lt_succ_iff_lt_or_eq.mp hlt with hlt | rfl
    . rcases hall x hlt with hmem | ⟨k', hheld⟩
      . exact .inl hmem
      . refine .inr ⟨k', ?_⟩
        have hk : k' ≠ k := by
          rintro rfl
          rw [hnone] at hheld
          cases hheld
        rw [acquire_held_of_ne hk]
        exact hheld
    . exact .inr ⟨k, acquire_held_self h k⟩

theorem complete_release
    : (h.release k).Complete ↔ h.Complete := by
  have hiff : ∀ x, (x ∈ (h.release k).closed ∨ ∃ k', (h.release k).held k' = some x)
      ↔ x ∈ h.closed ∨ ∃ k', h.held k' = some x := by
    intro x
    rw [mem_release_closed]
    constructor
    . rintro ((hmem | hheld) | ⟨k', hheld⟩)
      . exact .inl hmem
      . exact .inr ⟨k, hheld⟩
      . exact .inr ⟨k', (held_release hheld).2⟩
    . rintro (hmem | ⟨k', hheld⟩)
      . exact .inl (.inl hmem)
      . by_cases hk : k' = k
        . exact .inl (.inr (hk ▸ hheld))
        . refine .inr ⟨k', ?_⟩
          rw [release_held_of_ne hk]
          exact hheld
  exact forall_congr' fun x => imp_congr_right fun _ => hiff x

theorem Moves.complete_iff (hm : Moves h h')
    : h'.Complete ↔ h.Complete := by
  induction hm with
  | refl => exact Iff.rfl
  | acquire _ hnone ih => exact (complete_acquire hnone).trans ih
  | release _ ih => exact complete_release.trans ih

theorem Moves.next_le (hm : Moves h h')
    : h.next ≤ h'.next := by
  induction hm with
  | refl => exact Nat.le_refl _
  | acquire _ _ ih => exact Nat.le_succ_of_le ih
  | release _ ih => exact ih

theorem Moves.closed_extends (hm : Moves h h')
    : h.closed <+: h'.closed := by
  induction hm with
  | refl => exact List.prefix_refl _
  | acquire _ _ ih => exact ih
  | release _ ih => exact ih.trans (List.prefix_append _ _)

-- Nobody owns anything if nobody has and nothing is created.
theorem Moves.held_none (hm : Moves h h') (hnext : h'.next = h.next) (hnone : ∀ k, h.held k = none)
    : ∀ k, h'.held k = none := by
  induction hm with
  | refl => exact hnone
  | acquire hm _ _ =>
    have hle := hm.next_le
    simp only [Handles.acquire] at hnext
    omega
  | @release h' k _ ih =>
    intro k'
    by_cases hk : k' = k
    . rw [hk, release_held_self]
    . rw [release_held_of_ne hk]
      exact ih hnext k'

end Handles

end Ezio
