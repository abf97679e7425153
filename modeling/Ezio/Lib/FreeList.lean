import Mathlib.Logic.Function.Basic
import Mathlib.Tactic.Common

/-!
This module contains singly linked lists whose links are kept in an array, the form in which a pool keeps
the list of its free blocks.
-/

namespace Ezio

variable {α : Type} {next : α → Option α} {head : Option α} {i : α} {l : List α}

def Linked (next : α → Option α) : Option α → List α → Prop
  | head, [] => head = none
  | head, i :: l => head = some i ∧ Linked next (next i) l

-- The number of links from `head` to the end, `none` if the end is not reached within `fuel` links.
def linkCount (next : α → Option α) : Nat → Option α → Option Nat
  | _, none => some 0
  | 0, some _ => none
  | fuel + 1, some i => (linkCount next fuel (next i)).map (· + 1)

theorem Linked.linkCount_eq {fuel : Nat} (h : Linked next head l) (hfuel : l.length ≤ fuel)
    : linkCount next fuel head = some l.length := by
  induction l generalizing head fuel with
  | nil =>
    simp only [Linked] at h
    rw [h, List.length_nil]
    cases fuel <;> rfl
  | cons i l ih =>
    obtain ⟨hhead, hlinked⟩ := h
    simp only [List.length_cons] at hfuel
    obtain ⟨n, rfl⟩ : ∃ n, fuel = n + 1 := ⟨fuel - 1, by omega⟩
    rw [hhead, linkCount, ih hlinked (by omega)]
    simp

theorem Linked.eq_cons (h : Linked next (some i) l)
    : ∃ l', l = i :: l' ∧ Linked next (next i) l' := by
  cases l with
  | nil => simp [Linked] at h
  | cons j l =>
    obtain ⟨hhead, hlinked⟩ := h
    simp only [Option.some.injEq] at hhead
    subst hhead
    exact ⟨l, rfl, hlinked⟩

theorem Linked.update [DecidableEq α] {v : Option α} (h : Linked next head l) (hi : i ∉ l)
    : Linked (Function.update next i v) head l := by
  induction l generalizing head with
  | nil => exact h
  | cons j l ih =>
    obtain ⟨hhead, hlinked⟩ := h
    simp only [List.mem_cons, not_or] at hi
    refine ⟨hhead, ?_⟩
    rw [Function.update_of_ne (Ne.symm hi.1)]
    exact ih hlinked hi.2

theorem Linked.push [DecidableEq α] (h : Linked next head l) (hi : i ∉ l)
    : Linked (Function.update next i head) (some i) (i :: l) := by
  refine ⟨rfl, ?_⟩
  rw [Function.update_self]
  exact h.update hi

end Ezio
