import Ezio.Event.EventLoop
import Ezio.Lib.List

/-!
This module contains the accounting of the jobs of an event loop by its log: which jobs have been posted to a
queue, which of them have been run, and which still have to be run before `loop_once` returns.
-/

namespace Ezio
namespace Event
namespace EventLoop

namespace Entry

def posted? (q : Queue) : Entry → Option Nat
  | posts q' id => if q' = q then some id else none
  | _ => none

def ran? (q : Queue) : Entry → Option Nat
  | runs q' id => if q' = q then some id else none
  | _ => none

def isRun (id : Nat) : Entry → Bool
  | runs _ id' => id' = id
  | _ => false

end Entry

def posted (l : List Entry) (q : Queue) : List Nat :=
  l.filterMap (Entry.posted? q)

def ran (l : List Entry) (q : Queue) : List Nat :=
  l.filterMap (Entry.ran? q)

-- The jobs of a queue are run in the order in which they have been posted, none of them more than once. What is
-- queued when `loop_once` comes to the place where it runs the jobs of the queue is run before it returns.
structure JobsExecuted (l : List Entry) : Prop where
  inOrder : ∀ q, ran l q <+: posted l q
  once : ∀ id, l.countP (Entry.isRun id) ≤ 1
  drained : ∀ before q ids during after, l = before ++ Entry.drains q ids :: during ++ Entry.returns :: after
    → Entry.returns ∉ during → ∀ id ∈ ids, Entry.runs q id ∈ during

variable {l : List Entry} {next id : Nat} {wait due wait' due' : Queue → List Nat} {q : Queue} {e : Entry}

-- `due` holds what is left of the jobs that the current `loop_once` has to run.
def Pending (l : List Entry) (q : Queue) (due : List Nat) : Prop :=
  ∀ before ids during, l = before ++ Entry.drains q ids :: during → Entry.returns ∉ during
    → ∀ id ∈ ids, Entry.runs q id ∈ during ∨ id ∈ due

-- `wait` are the jobs of a queue that have not been run, `next` is the number of the next job that is posted.
structure Ledger (l : List Entry) (next : Nat) (wait due : Queue → List Nat) : Prop where
  order : ∀ q, posted l q = ran l q ++ wait q
  fresh : ∀ q, ∀ id ∈ posted l q, id < next
  nodup : ∀ q, (posted l q).Nodup
  apart : ∀ id, id ∈ posted l .sameThread → id ∉ posted l .otherThread
  pending : ∀ q, Pending l q (due q)
  drained : ∀ before q ids during after, l = before ++ Entry.drains q ids :: during ++ Entry.returns :: after
    → Entry.returns ∉ during → ∀ id ∈ ids, Entry.runs q id ∈ during

theorem Pending.append (h : Pending l q (due q)) (hdrains : ∀ ids, e ≠ .drains q ids)
    (hsub : ∀ id ∈ due q, e = .runs q id ∨ id ∈ due' q)
    : Pending (l ++ [e]) q (due' q) := by
  intro before ids during hl hreturns id hid
  rcases append_singleton_eq_iff.mp hl with ⟨-, he, -⟩ | ⟨rest, rfl, hl'⟩
  . exact absurd he (hdrains ids)
  . rcases h before ids rest hl' (fun hmem => hreturns (List.mem_append_left _ hmem)) id hid with hrun | hdue
    . exact .inl (List.mem_append_left _ hrun)
    . rcases hsub id hdue with rfl | hdue'
      . exact .inl (by simp)
      . exact .inr hdue'

theorem Pending.drains (h : Pending l q []) (ids : List Nat)
    : Pending (l ++ [Entry.drains q ids]) q ids := by
  intro before ids' during hl hreturns id hid
  rcases append_singleton_eq_iff.mp hl with ⟨-, he, -⟩ | ⟨rest, rfl, hl'⟩
  . cases he
    exact .inr hid
  . rcases h before ids' rest hl' (fun hmem => hreturns (List.mem_append_left _ hmem)) id hid with hrun | hdue
    . exact .inl (List.mem_append_left _ hrun)
    . cases hdue

theorem Pending.returns (l : List Entry) (q : Queue) (due : List Nat)
    : Pending (l ++ [Entry.returns]) q due := by
  intro before ids during hl hreturns
  rcases append_singleton_eq_iff.mp hl with ⟨-, he, -⟩ | ⟨rest, rfl, -⟩
  . cases he
  . simp at hreturns

-- What has been drained stays so.
theorem Ledger.drained_append (h : Ledger l next wait due) (hreturns : e ≠ .returns)
    (before : List Entry) (q : Queue) (ids : List Nat) (during after : List Entry)
    (hl : l ++ [e] = before ++ .drains q ids :: during ++ .returns :: after) (hnot : .returns ∉ during)
    : ∀ id ∈ ids, .runs q id ∈ during := by
  rcases append_singleton_eq_iff.mp hl with ⟨-, he, -⟩ | ⟨rest, -, hl'⟩
  . exact absurd he hreturns
  . exact h.drained before q ids during rest hl' hnot

theorem posted_append (l l' : List Entry) (q : Queue)
    : posted (l ++ l') q = posted l q ++ posted l' q :=
  List.filterMap_append

theorem ran_append (l l' : List Entry) (q : Queue)
    : ran (l ++ l') q = ran l q ++ ran l' q :=
  List.filterMap_append

-- An entry that is about no job.
theorem Ledger.skip (h : Ledger l next wait due) (hposted : ∀ q, e.posted? q = none) (hran : ∀ q, e.ran? q = none)
    (hpending : ∀ q, Pending (l ++ [e]) q (due' q))
    (hdrained : ∀ before q ids during after, l ++ [e] = before ++ Entry.drains q ids :: during ++ Entry.returns :: after
      → Entry.returns ∉ during → ∀ id ∈ ids, Entry.runs q id ∈ during)
    : Ledger (l ++ [e]) next wait due' := by
  have hp : ∀ q, posted (l ++ [e]) q = posted l q := by
    intro q
    rw [posted_append, posted, posted, List.filterMap_cons_none (hposted q), List.filterMap_nil, List.append_nil]
  have hr : ∀ q, ran (l ++ [e]) q = ran l q := by
    intro q
    rw [ran_append, ran, ran, List.filterMap_cons_none (hran q), List.filterMap_nil, List.append_nil]
  refine ⟨?_, ?_, ?_, ?_, hpending, hdrained⟩
  . intro q
    rw [hp, hr]
    exact h.order q
  . intro q
    rw [hp]
    exact h.fresh q
  . intro q
    rw [hp]
    exact h.nodup q
  . rw [hp, hp]
    exact h.apart

theorem Ledger.dispatches (h : Ledger l next wait due) (timeoutMs : Int)
    : Ledger (l ++ [Entry.dispatches timeoutMs]) next wait due := by
  apply h.skip (fun _ => rfl) (fun _ => rfl)
  . exact fun q => (h.pending q).append (by simp) (fun id hid => .inr hid)
  . exact h.drained_append (by simp)

theorem Ledger.drains (h : Ledger l next wait due) (ids : List Nat) (hq : due q = []) (hq' : due' q = ids)
    (hother : ∀ q', q' ≠ q → due' q' = due q')
    : Ledger (l ++ [Entry.drains q ids]) next wait due' := by
  apply h.skip (fun _ => rfl) (fun _ => rfl)
  . intro q'
    by_cases heq : q' = q
    . subst heq
      rw [hq']
      exact Pending.drains (hq ▸ h.pending q') ids
    . refine (h.pending q').append ?_ ?_
      . intro ids' he
        cases he
        exact heq rfl
      . intro id hid
        rw [hother q' heq]
        exact .inr hid
  . exact h.drained_append (by simp)

theorem Ledger.returns (h : Ledger l next wait due) (hdue : ∀ q, due q = [])
    : Ledger (l ++ [Entry.returns]) next wait due := by
  apply h.skip (fun _ => rfl) (fun _ => rfl)
  . exact fun q => Pending.returns l q _
  . intro before q ids during after hl hnot
    rcases append_singleton_eq_iff.mp hl with ⟨-, -, hl'⟩ | ⟨rest, -, hl'⟩
    . intro id hid
      rcases h.pending q before ids during hl' hnot id hid with hrun | hmem
      . exact hrun
      . rw [hdue] at hmem
        cases hmem
    . exact h.drained before q ids during rest hl' hnot

theorem Ledger.runs (h : Ledger l next wait due) (hwait : wait q = id :: wait' q)
    (hdue : due q = id :: due' q) (hother : ∀ q', q' ≠ q → wait' q' = wait q' ∧ due' q' = due q')
    : Ledger (l ++ [Entry.runs q id]) next wait' due' := by
  have hp : ∀ q', posted (l ++ [Entry.runs q id]) q' = posted l q' := by
    intro q'
    rw [posted_append]
    simp [posted, Entry.posted?]
  refine ⟨?_, ?_, ?_, ?_, ?_, h.drained_append (by simp)⟩
  . intro q'
    rw [hp, h.order, ran_append]
    by_cases heq : q' = q
    . subst heq
      simp [ran, Entry.ran?, hwait]
    . rw [(hother q' heq).1]
      simp [ran, Entry.ran?, Ne.symm heq]
  . intro q'
    rw [hp]
    exact h.fresh q'
  . intro q'
    rw [hp]
    exact h.nodup q'
  . rw [hp, hp]
    exact h.apart
  . intro q'
    refine (h.pending q').append (by simp) ?_
    intro id' hid'
    by_cases heq : q' = q
    . subst heq
      rw [hdue] at hid'
      rcases List.mem_cons.mp hid' with rfl | hid'
      . exact .inl rfl
      . exact .inr hid'
    . rw [(hother q' heq).2]
      exact .inr hid'

theorem Ledger.posts (h : Ledger l next wait due) (hwait : wait' q = wait q ++ [next])
    (hother : ∀ q', q' ≠ q → wait' q' = wait q') (hdue : ∀ q', ∀ id ∈ due q', id ∈ due' q')
    : Ledger (l ++ [Entry.posts q next]) (next + 1) wait' due' := by
  have hp : ∀ q', posted (l ++ [Entry.posts q next]) q' = posted l q' ++ if q' = q then [next] else [] := by
    intro q'
    rw [posted_append]
    by_cases heq : q' = q
    . subst heq
      simp [posted, Entry.posted?]
    . simp [posted, Entry.posted?, heq, Ne.symm heq]
  have hr : ∀ q', ran (l ++ [Entry.posts q next]) q' = ran l q' := by
    intro q'
    rw [ran_append]
    simp [ran, Entry.ran?]
  have hnot : ∀ q', next ∉ posted l q' := by
    intro q' hmem
    have := h.fresh q' next hmem
    omega
  refine ⟨?_, ?_, ?_, ?_, ?_, h.drained_append (by simp)⟩
  . intro q'
    rw [hp, hr, h.order]
    by_cases heq : q' = q
    . subst heq
      rw [if_pos rfl, hwait, List.append_assoc]
    . rw [if_neg heq, hother q' heq, List.append_nil]
  . intro q' id hid
    rw [hp] at hid
    rcases List.mem_append.mp hid with hid | hid
    . have := h.fresh q' id hid
      omega
    . split at hid
      . have := List.mem_singleton.mp hid
        omega
      . cases hid
  . intro q'
    rw [hp]
    split
    . exact List.nodup_append.mpr ⟨h.nodup q', by simp, by
        intro a ha b hb
        rw [List.mem_singleton.mp hb]
        rintro rfl
        exact hnot q' ha⟩
    . rw [List.append_nil]
      exact h.nodup q'
  . intro id
    rw [hp, hp]
    have := h.apart id
    have hs := hnot .sameThread
    have ho := hnot .otherThread
    cases q
    . simp only [if_true, reduceCtorEq, if_false, List.append_nil, List.mem_append, List.mem_singleton]
      rintro (hid | rfl)
      . exact this hid
      . exact ho
    . simp only [if_true, reduceCtorEq, if_false, List.append_nil, List.mem_append, List.mem_singleton]
      rintro hid (hid' | rfl)
      . exact this hid hid'
      . exact hs hid
  . exact fun q' => (h.pending q').append (by simp) (fun id hid => .inr (hdue q' id hid))

theorem Ledger.nil
    : Ledger [] 0 (fun _ => []) (fun _ => []) := by
  constructor <;> simp [posted, ran, Pending]

-- A job is run from one queue only.
theorem Ledger.countP_runs (h : Ledger l next wait due) (id : Nat)
    : l.countP (Entry.isRun id) ≤ 1 := by
  have hcount : ∀ l' : List Entry, l'.countP (Entry.isRun id)
      = (ran l' .sameThread).count id + (ran l' .otherThread).count id := by
    intro l'
    induction l' with
    | nil => rfl
    | cons e l' ih =>
      rw [List.countP_cons, ih]
      cases e with
      | runs q id' =>
        cases q <;> by_cases heq : id' = id <;> simp [ran, Entry.ran?, Entry.isRun, heq] <;> omega
      | _ => simp [ran, Entry.ran?, Entry.isRun, List.filterMap_cons]
  have hle : ∀ q, (ran l q).count id ≤ (posted l q).count id := by
    intro q
    rw [h.order]
    simp
  have h₁ := List.nodup_iff_count.mp (h.nodup .sameThread) id
  have h₂ := List.nodup_iff_count.mp (h.nodup .otherThread) id
  have hs := hle .sameThread
  have ho := hle .otherThread
  rw [hcount]
  by_cases hmem : id ∈ posted l .sameThread
  . have := List.count_eq_zero.mpr (h.apart id hmem)
    omega
  . have := List.count_eq_zero.mpr hmem
    omega

theorem Ledger.jobsExecuted (h : Ledger l next wait due)
    : JobsExecuted l := by
  refine ⟨?_, h.countP_runs, h.drained⟩
  intro q
  rw [h.order]
  exact List.prefix_append _ _

end EventLoop

end Event
end Ezio
