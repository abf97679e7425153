import Mathlib.Tactic.Common

/-!
This module contains runs of a machine as folds of its step function, with a condition that every step
of a run meets in the state it is taken in.
-/

namespace Ezio

variable {σ α : Type} {step : σ → α → σ}

def Along (step : σ → α → σ) (P : σ → α → Prop) : σ → List α → Prop
  | _, [] => True
  | s, a :: as => P s a ∧ Along step P (step s a) as

instance Along.decidable (step : σ → α → σ) (P : σ → α → Prop) [∀ s a, Decidable (P s a)]
    : (s : σ) → (as : List α) → Decidable (Along step P s as)
  | _, [] => .isTrue trivial
  | s, a :: as => @instDecidableAnd _ _ _ (Along.decidable step P (step s a) as)

theorem Along.invariant {P : σ → α → Prop} {I : σ → Prop} {s : σ} {as : List α}
    (hstep : ∀ s a, I s → P s a → I (step s a)) (hinit : I s) (h : Along step P s as)
    : I (as.foldl step s) := by
  induction as generalizing s with
  | nil => exact hinit
  | cons a as ih => exact ih (hstep s a hinit h.1) h.2

theorem Along.and_of_mem {P : σ → α → Prop} {Q : α → Prop} {s : σ} {as : List α} (h : Along step P s as)
    (hQ : ∀ a ∈ as, Q a)
    : Along step (fun s a => Q a ∧ P s a) s as := by
  induction as generalizing s with
  | nil => trivial
  | cons a as ih =>
    refine ⟨⟨hQ a List.mem_cons_self, h.1⟩, ih h.2 ?_⟩
    exact fun b hb => hQ b (List.mem_cons_of_mem a hb)

theorem Along.append_iff {P : σ → α → Prop} {s : σ} {as bs : List α}
    : Along step P s (as ++ bs) ↔ Along step P s as ∧ Along step P (as.foldl step s) bs := by
  induction as generalizing s with
  | nil => exact ⟨fun h => ⟨trivial, h⟩, fun h => h.2⟩
  | cons a as ih =>
    rw [List.cons_append, Along, Along, ih, List.foldl_cons, and_assoc]

-- A property that a run loses for good with the first step that does not meet the condition.
theorem Along.foldl_iff {P : σ → α → Prop} {I Q : σ → Prop} {s : σ} (as : List α)
    (hiff : ∀ s, ∀ a ∈ as, I s → (Q (step s a) ↔ Q s ∧ P s a))
    (hstep : ∀ s, ∀ a ∈ as, I s → P s a → I (step s a))
    (hmono : ∀ s a, Q (step s a) → Q s) (hinit : I s) (hs : Q s)
    : Q (as.foldl step s) ↔ Along step P s as := by
  induction as generalizing s with
  | nil => exact ⟨fun _ => trivial, fun _ => hs⟩
  | cons a as ih =>
    rw [List.foldl_cons, Along]
    have hiff' := hiff s a List.mem_cons_self hinit
    by_cases ha : P s a
    . rw [ih (fun s b hb => hiff s b (List.mem_cons_of_mem a hb)) (fun s b hb => hstep s b (List.mem_cons_of_mem a hb))
        (hstep s a List.mem_cons_self hinit ha) (hiff'.mpr ⟨hs, ha⟩)]
      exact ⟨fun h => ⟨ha, h⟩, fun h => h.2⟩
    . refine ⟨fun h => absurd ?_ ha, fun h => absurd h.1 ha⟩
      have hback : ∀ (as : List α) (s : σ), Q (as.foldl step s) → Q s := by
        intro as
        induction as with
        | nil => exact fun _ h => h
        | cons b as ih => exact fun s h => hmono s b (ih _ h)
      exact (hiff'.mp (hback as _ h)).2

-- The same with an invariant that no step breaks.
theorem Along.foldl_iff_and {P : σ → α → Prop} {I Q : σ → Prop} {s : σ} (as : List α)
    (hiff : ∀ s a, I s → (Q (step s a) ↔ Q s ∧ P s a)) (hstep : ∀ s a, I s → I (step s a)) (hinit : I s)
    : Q (as.foldl step s) ↔ Q s ∧ Along step P s as := by
  induction as generalizing s with
  | nil => exact (and_iff_left trivial).symm
  | cons a as ih => rw [List.foldl_cons, ih (hstep s a hinit), hiff s a hinit, Along, and_assoc]

-- The invariant implies the property, and a step that does not meet the condition loses it.
theorem Along.forall_prefix_iff {P : σ → α → Prop} {I Q : σ → Prop} {s : σ} {as : List α} (hprop : ∀ s, I s → Q s)
    (hstep : ∀ s, ∀ a, I s → a ∈ as → (P s a → I (step s a)) ∧ (¬P s a → ¬Q (step s a))) (hinit : I s)
    : (∀ bs, bs <+: as → Q (bs.foldl step s)) ↔ Along step P s as := by
  induction as generalizing s with
  | nil =>
    refine ⟨fun _ => trivial, fun _ bs hbs => ?_⟩
    rw [List.prefix_nil.mp hbs]
    exact hprop s hinit
  | cons a as ih =>
    have ha := hstep s a hinit List.mem_cons_self
    have ih' := fun hinit' => ih (s := step s a) (fun s b h hb => hstep s b h (List.mem_cons_of_mem a hb)) hinit'
    constructor
    . intro h
      have hP : P s a := by
        by_contra hnot
        exact ha.2 hnot (h [a] (List.cons_prefix_cons.mpr ⟨rfl, List.nil_prefix⟩))
      exact ⟨hP, (ih' (ha.1 hP)).mp fun bs hbs => h (a :: bs) (List.cons_prefix_cons.mpr ⟨rfl, hbs⟩)⟩
    . rintro ⟨hP, hrest⟩ bs hbs
      cases bs with
      | nil => exact hprop s hinit
      | cons b bs =>
        obtain ⟨rfl, hrestPrefix⟩ := List.cons_prefix_cons.mp hbs
        exact (ih' (ha.1 hP)).mpr hrest bs hrestPrefix

theorem Along.of_mem {P : α → Prop} {s : σ} {as : List α} (h : ∀ a ∈ as, P a) : Along step (fun _ a => P a) s as := by
  induction as generalizing s with
  | nil => trivial
  | cons a as ih => exact ⟨h a List.mem_cons_self, ih fun b hb => h b (List.mem_cons_of_mem a hb)⟩

-- A condition that holds in the states that another one keeps the run in.
theorem Along.of_invariant {A P : σ → α → Prop} {I : σ → Prop} {s : σ} {as : List α} (h : Along step A s as)
    (hprop : ∀ s a, I s → A s a → P s a) (hstep : ∀ s a, I s → A s a → I (step s a)) (hinit : I s)
    : Along step P s as := by
  induction as generalizing s with
  | nil => trivial
  | cons a as ih => exact ⟨hprop s a hinit h.1, ih h.2 (hstep s a hinit h.1)⟩

-- Two conditions that are the same in the states that one of them keeps the run in.
theorem Along.iff_of_invariant {A P Q : σ → α → Prop} {I : σ → Prop} {s : σ} {as : List α} (h : Along step A s as)
    (hiff : ∀ s a, I s → A s a → (P s a ↔ Q s a)) (hstep : ∀ s a, I s → A s a → Q s a → I (step s a)) (hinit : I s)
    : Along step P s as ↔ Along step Q s as := by
  induction as generalizing s with
  | nil => exact Iff.rfl
  | cons a as ih =>
    rw [Along, Along, hiff s a hinit h.1]
    exact and_congr_right fun ha => ih h.2 (hstep s a hinit h.1 ha)

-- What the steps of a run put out, `f` says what a step puts out in the state it is taken in.
def outputs {β : Type} (step : σ → α → σ) (f : σ → α → List β) : σ → List α → List β
  | _, [] => []
  | s, a :: as => f s a ++ outputs step f (step s a) as

theorem map_outputs {β γ : Type} (f : σ → α → List β) (g : β → γ) (s : σ) (as : List α)
    : (outputs step f s as).map g = outputs step (fun s a => (f s a).map g) s as := by
  induction as generalizing s with
  | nil => rfl
  | cons a as ih => rw [outputs, outputs, List.map_append, ih]

theorem filterMap_outputs {β γ : Type} (f : σ → α → List β) (g : β → Option γ) (s : σ) (as : List α)
    : (outputs step f s as).filterMap g = outputs step (fun s a => (f s a).filterMap g) s as := by
  induction as generalizing s with
  | nil => rfl
  | cons a as ih => rw [outputs, outputs, List.filterMap_append, ih]

theorem outputs_length_le {β : Type} {f g : σ → α → List β} (hle : ∀ s a, (f s a).length ≤ (g s a).length) (s : σ)
    (as : List α)
    : (outputs step f s as).length ≤ (outputs step g s as).length := by
  induction as generalizing s with
  | nil => exact Nat.le_refl 0
  | cons a as ih =>
    rw [outputs, outputs, List.length_append, List.length_append]
    exact Nat.add_le_add (hle s a) (ih _)

-- No step makes up for what another one has not put out.
theorem outputs_eq_iff {β : Type} {f g : σ → α → List β} (hle : ∀ s a, (f s a).length ≤ (g s a).length) (s : σ)
    (as : List α)
    : outputs step f s as = outputs step g s as ↔ Along step (fun s a => f s a = g s a) s as := by
  induction as generalizing s with
  | nil => exact ⟨fun _ => trivial, fun _ => rfl⟩
  | cons a as ih =>
    rw [outputs, outputs, Along, ← ih]
    constructor
    . intro heq
      have hrest : (outputs step f (step s a) as).length ≤ (outputs step g (step s a) as).length :=
        outputs_length_le hle (step s a) as
      have hlength := congrArg List.length heq
      rw [List.length_append, List.length_append] at hlength
      exact List.append_inj heq (Nat.le_antisymm (hle s a) (by omega))
    . rintro ⟨hfirst, hrest⟩
      rw [hfirst, hrest]

-- The same without a state.
theorem flatMap_eq_iff {β : Type} {f g : α → List β} (hle : ∀ a, (f a).length ≤ (g a).length) (as : List α)
    : as.flatMap f = as.flatMap g ↔ ∀ a ∈ as, f a = g a := by
  have halong : Along (fun s _ => s) (fun _ a => f a = g a) () as ↔ ∀ a ∈ as, f a = g a := by
    induction as with
    | nil => exact ⟨fun _ => List.forall_mem_nil _, fun _ => trivial⟩
    | cons a as ih => rw [Along, ih, List.forall_mem_cons]
  have houtputs : ∀ f : α → List β, outputs (fun s _ => s) (fun _ => f) () as = as.flatMap f := by
    intro f
    clear halong
    induction as with
    | nil => rfl
    | cons a as ih => rw [outputs, ih, List.flatMap_cons]
  rw [← houtputs f, ← houtputs g, ← halong]
  exact outputs_eq_iff (fun _ => hle) () as

theorem foldl_invariant {I : σ → Prop} {s : σ} (as : List α)
    (hstep : ∀ s, ∀ a ∈ as, I s → I (step s a)) (hinit : I s)
    : I (as.foldl step s) := by
  induction as generalizing s with
  | nil => exact hinit
  | cons a as ih =>
    apply ih
    . exact fun s b hb => hstep s b (List.mem_cons_of_mem a hb)
    . exact hstep s a List.mem_cons_self hinit

end Ezio
