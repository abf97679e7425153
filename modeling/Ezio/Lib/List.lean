import Mathlib.Algebra.Order.BigOperators.Group.List
import Mathlib.Algebra.Order.Group.Nat
import Mathlib.Algebra.Ring.Nat
import Mathlib.Data.List.Infix
import Mathlib.Tactic.Common

/-!
This module contains facts about lists that belong to no model.
-/

namespace Ezio

theorem getD_mem_or_eq {α : Type} (l : List α) (i : Nat) (d : α)
    : l.getD i d ∈ l ∨ l.getD i d = d := by
  rw [List.getD_eq_getElem?_getD]
  cases hget : l[i]? with
  | none => exact .inr rfl
  | some a => exact .inl (List.mem_of_getElem? hget)

theorem modify_concat {α : Type} (l : List α) (a : α) (f : α → α)
    : (l ++ [a]).modify l.length f = l ++ [f a] := by
  induction l with
  | nil => rfl
  | cons b l ih => simp [ih]

theorem take_set_succ {α : Type} {l : List α} {i : Nat} (h : i < l.length) (a : α)
    : (l.set i a).take (i + 1) = l.take i ++ [a] := by
  rw [List.take_succ_eq_append_getElem (by simpa using h), List.getElem_set_self, List.take_set_of_le]
  omega

-- The place that an element has among those that are kept.
theorem getElem?_filter_length {α : Type} {p : α → Bool} {l : List α} {n : Nat} {x : α}
    (hget : l[n]? = some x) (hx : p x)
    : (l.filter p)[((l.take n).filter p).length]? = some x := by
  obtain ⟨hlt, hx'⟩ := List.getElem?_eq_some_iff.mp hget
  have hsplit : l = l.take n ++ x :: l.drop (n + 1) := by
    rw [← hx', ← List.drop_eq_getElem_cons hlt, List.take_append_drop]
  have hfilter := congrArg (List.filter p) hsplit
  rw [List.filter_append, List.filter_cons, if_pos hx] at hfilter
  rw [hfilter, List.getElem?_append_right (Nat.le_refl _), Nat.sub_self]
  rfl

-- Nothing positive can be left out of a list without lowering its sum.
theorem eq_of_sublist_of_sum_eq {l l' : List Nat} (hsub : l.Sublist l') (hpos : ∀ n ∈ l', 0 < n)
    (hsum : l.sum = l'.sum)
    : l = l' := by
  induction hsub with
  | slnil => rfl
  | @cons l l' n hsub ih =>
    have hn := hpos n List.mem_cons_self
    have hle := hsub.sum_le_sum fun _ _ => Nat.zero_le _
    rw [List.sum_cons] at hsum
    omega
  | cons_cons n hsub ih =>
    rw [List.sum_cons, List.sum_cons, Nat.add_left_cancel_iff] at hsum
    rw [ih (fun m hm => hpos m (List.mem_cons_of_mem _ hm)) hsum]

theorem append_singleton_ne {α : Type} (l : List α) (a : α) : l ≠ l ++ [a] := by
  intro heq
  have := congrArg List.length heq
  rw [List.length_append, List.length_singleton] at this
  omega

theorem append_singleton_eq_iff {α : Type} {l before during : List α} {a d : α}
    : l ++ [a] = before ++ d :: during
      ↔ (during = [] ∧ a = d ∧ l = before) ∨ ∃ rest, during = rest ++ [a] ∧ l = before ++ d :: rest := by
  rcases List.eq_nil_or_concat during with rfl | ⟨rest, b, rfl⟩
  . constructor
    . intro h
      obtain ⟨h₁, h₂⟩ := List.append_inj' h rfl
      cases h₂
      exact .inl ⟨rfl, rfl, h₁⟩
    . rintro (⟨-, rfl, rfl⟩ | ⟨rest, h, -⟩)
      . rfl
      . simp at h
  . rw [List.concat_eq_append, ← List.cons_append, ← List.append_assoc]
    constructor
    . intro h
      obtain ⟨h₁, h₂⟩ := List.append_inj' h rfl
      cases h₂
      exact .inr ⟨rest, rfl, h₁⟩
    . rintro (⟨h, -⟩ | ⟨rest', h, h'⟩)
      . simp at h
      . obtain ⟨rfl, h₂⟩ := List.append_inj' h rfl
        cases h₂
        rw [h']

theorem pairwise_eraseIdx {α : Type} {R : α → α → Prop} {l : List α} {i : Nat} {r : α}
    (h : l.Pairwise R) (hr : l[i]? = some r)
    : ∀ r' ∈ l.eraseIdx i, R r r' ∨ R r' r := by
  obtain ⟨hi, rfl⟩ := List.getElem?_eq_some_iff.mp hr
  rw [List.eraseIdx_eq_take_drop_succ]
  have hsplit : l = l.take i ++ l[i] :: l.drop (i + 1) := by simp
  rw [hsplit, List.pairwise_append] at h
  obtain ⟨-, hdrop, htake⟩ := h
  intro r' hr'
  rcases List.mem_append.mp hr' with hr' | hr'
  . exact .inr (htake r' hr' l[i] List.mem_cons_self)
  . exact .inl ((List.pairwise_cons.mp hdrop).1 r' hr')

theorem mem_eraseIdx_of_ne {α : Type} {l : List α} {i : Nat} {r r' : α} (hr : l[i]? = some r) (hr' : r' ∈ l)
    (hne : r' ≠ r)
    : r' ∈ l.eraseIdx i := by
  obtain ⟨j, hj⟩ := List.mem_iff_getElem?.mp hr'
  rw [List.mem_eraseIdx_iff_getElem?]
  refine ⟨j, ?_, hj⟩
  rintro rfl
  rw [hr, Option.some.injEq] at hj
  exact hne hj.symm

end Ezio
