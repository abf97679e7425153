import Mathlib.Data.List.Basic

/-!
This module contains the rules to reason about programs in `EStateM`. A run of such a program stops
either normally or with an error, in both cases it leaves a state behind. `Triple` gives a
postcondition for each of the two, `Preserves` is the special case of an invariant.
-/

theorem Except.bind_eq_ok {ε α β : Type} {x : Except ε α} {f : α → Except ε β} {b : β}
    (h : x >>= f = .ok b)
    : ∃ a, x = .ok a ∧ f a = .ok b := by
  cases x with
  | error e => cases h
  | ok a => exact ⟨a, rfl, h⟩

theorem Except.bind_eq_error {ε α β : Type} {x : Except ε α} {f : α → Except ε β} {e : ε}
    (h : x >>= f = .error e)
    : x = .error e ∨ ∃ a, x = .ok a ∧ f a = .error e := by
  cases x with
  | error e' =>
    left
    cases h
    rfl
  | ok a => exact .inr ⟨a, rfl, h⟩

theorem Except.exists_eq_ok_of_map {ε α β : Type} {x : Except ε (α × β)} {a : α}
    (h : x.toOption.map (·.1) = some a)
    : ∃ b, x = .ok (a, b) := by
  cases x with
  | error e => cases h
  | ok p =>
    cases h
    exact ⟨p.2, rfl⟩

-- An invariant of the rounds that do not fail.
theorem Except.foldlM_invariant {ε σ α : Type} {I : σ → Prop} {f : σ → α → Except ε σ} {as : List α} {s s' : σ}
    (hstep : ∀ s, ∀ a ∈ as, ∀ s', I s → f s a = .ok s' → I s') (hinit : I s) (h : as.foldlM f s = .ok s')
    : I s' := by
  induction as generalizing s with
  | nil =>
    cases h
    exact hinit
  | cons a as ih =>
    rw [List.foldlM_cons] at h
    obtain ⟨s₁, ha, has⟩ := Except.bind_eq_ok h
    have hrest : ∀ s, ∀ b ∈ as, ∀ s', I s → f s b = .ok s' → I s' :=
      fun s b hb => hstep s b (List.mem_cons_of_mem a hb)
    exact ih hrest (hstep s a List.mem_cons_self s₁ hinit ha) has

namespace EStateM

variable {ε σ α β : Type}

-- The state a run has stopped in.
def Result.state : Result ε σ α → σ
  | .ok _ s => s
  | .error _ s => s

@[simp]
theorem Result.state_ok (a : α) (s : σ) : (Result.ok a s : Result ε σ α).state = s := rfl

@[simp]
theorem Result.state_error (e : ε) (s : σ) : (Result.error e s : Result ε σ α).state = s := rfl

def Result.isOk : Result ε σ α → Bool
  | .ok .. => true
  | .error .. => false

theorem Result.eq_ok_of_isOk {r : Result ε σ Unit} (h : r.isOk) : r = .ok () r.state := by
  cases r with
  | ok a s => rfl
  | error e s => cases h

def Result.error? : Result ε σ α → Option ε
  | .ok .. => none
  | .error e _ => some e

theorem Result.eq_error_of_error? {r : Result ε σ α} {e : ε} (h : r.error? = some e)
    : ∃ s, r = .error e s := by
  cases r with
  | ok a s => cases h
  | error e' s =>
    cases h
    exact ⟨s, rfl⟩

theorem bind_apply (m : EStateM ε σ α) (f : α → EStateM ε σ β) (s : σ)
    : (m >>= f) s = match m s with
        | .ok a t => f a t
        | .error e t => .error e t := rfl

theorem bind_pure_state (m : EStateM ε σ α) (f : α → β) (s : σ)
    : ((m >>= fun a => pure (f a)) s).state = (m s).state := by
  rw [bind_apply]
  cases m s with
  | ok a t => rfl
  | error e t => rfl

theorem bind_eq_ok_iff {m : EStateM ε σ α} {f : α → EStateM ε σ β} {s t : σ} {b : β}
    : (m >>= f) s = .ok b t ↔ ∃ a u, m s = .ok a u ∧ f a u = .ok b t := by
  rw [bind_apply]
  cases m s with
  | ok a u => simp
  | error e u => simp

theorem forM_append_eq_ok {f : α → EStateM ε σ PUnit} {xs ys : List α} {s t : σ}
    (h : (xs ++ ys).forM f s = .ok .unit t)
    : ∃ u, xs.forM f s = .ok .unit u ∧ ys.forM f u = .ok .unit t := by
  induction xs generalizing s with
  | nil => exact ⟨s, rfl, h⟩
  | cons x xs ih =>
    obtain ⟨_, v, hx, hrest⟩ := bind_eq_ok_iff.mp h
    obtain ⟨u, hxs, hys⟩ := ih hrest
    exact ⟨u, bind_eq_ok_iff.mpr ⟨_, v, hx, hxs⟩, hys⟩

@[simp]
theorem pure_apply (a : α) (s : σ) : (pure a : EStateM ε σ α) s = .ok a s := rfl

@[simp]
theorem throw_apply (e : ε) (s : σ) : (throw e : EStateM ε σ α) s = .error e s := rfl

@[simp]
theorem modify_apply (f : σ → σ) (s : σ)
    : (modify f : EStateM ε σ PUnit) s = .ok .unit (f s) := rfl

theorem get_bind_apply (f : σ → EStateM ε σ β) (s : σ)
    : ((get : EStateM ε σ σ) >>= f) s = f s s := rfl

theorem modify_bind_apply (g : σ → σ) (f : PUnit → EStateM ε σ β) (s : σ)
    : ((modify g : EStateM ε σ PUnit) >>= f) s = f .unit (g s) := rfl

-- Every run of `m` from a state with `P` stops normally with `Q` or with an error and `E`.
def Triple (P : σ → Prop) (m : EStateM ε σ α) (Q : α → σ → Prop) (E : ε → σ → Prop) : Prop :=
  ∀ s, P s → match m s with
    | .ok a t => Q a t
    | .error e t => E e t

def Preserves (P : σ → Prop) (m : EStateM ε σ α) : Prop :=
  Triple P m (fun _ => P) (fun _ => P)

namespace Triple

variable {P P' : σ → Prop} {E E' : ε → σ → Prop} {Q Q' : α → σ → Prop} {R : β → σ → Prop}

theorem of_ok {m : EStateM ε σ α} (h : Triple P m Q E) {s t : σ} {a : α} (hs : P s)
    (hok : m s = .ok a t)
    : Q a t := by
  have := h s hs
  rwa [hok] at this

theorem of_error {m : EStateM ε σ α} (h : Triple P m Q E) {s t : σ} {e : ε} (hs : P s)
    (herr : m s = .error e t)
    : E e t := by
  have := h s hs
  rwa [herr] at this

theorem total {m : EStateM ε σ α} (h : Triple P m Q (fun _ _ => False)) {s : σ} (hs : P s)
    : ∃ a t, m s = .ok a t ∧ Q a t := by
  have h := h s hs
  cases hms : m s with
  | ok a t =>
    rw [hms] at h
    exact ⟨a, t, rfl, h⟩
  | error e t =>
    rw [hms] at h
    exact h.elim

theorem pure {a : α} (h : ∀ s, P s → Q a s) : Triple P (pure a : EStateM ε σ α) Q E := h

theorem throw {e : ε} (h : ∀ s, P s → E e s) : Triple P (throw e : EStateM ε σ α) Q E := h

theorem modify_bind {T : σ → Prop} {g : σ → σ} {f : PUnit → EStateM ε σ β}
    (hg : ∀ s, P s → T (g s)) (hf : Triple T (f .unit) R E)
    : Triple P ((modify g : EStateM ε σ PUnit) >>= f) R E := by
  intro s hs
  exact hf (g s) (hg s hs)

theorem modify {f : σ → σ} {Q : PUnit → σ → Prop} (h : ∀ s, P s → Q .unit (f s))
    : Triple P (modify f : EStateM ε σ PUnit) Q E := h

-- Nothing is asked of the states the run stops in.
theorem trivial {m : EStateM ε σ α} : Triple P m (fun _ _ => True) (fun _ _ => True) := by
  intro s _
  cases m s <;> exact True.intro

theorem bind {m : EStateM ε σ α} {f : α → EStateM ε σ β} (hm : Triple P m Q E)
    (hf : ∀ a, Triple (Q a) (f a) R E)
    : Triple P (m >>= f) R E := by
  intro s hs
  have h := hm s hs
  rw [bind_apply]
  cases hms : m s with
  | ok a t =>
    rw [hms] at h
    exact hf a t h
  | error e t =>
    rw [hms] at h
    exact h

theorem get_bind {f : σ → EStateM ε σ β} (hf : ∀ s, P s → Triple (· = s) (f s) R E)
    : Triple P ((get : EStateM ε σ σ) >>= f) R E := by
  intro s hs
  exact hf s hs s rfl

theorem conseq {m : EStateM ε σ α} (h : Triple P m Q E) (hP : ∀ s, P' s → P s)
    (hQ : ∀ a s, Q a s → Q' a s) (hE : ∀ e s, E e s → E' e s)
    : Triple P' m Q' E' := by
  intro s hs
  have h := h s (hP s hs)
  cases hms : m s with
  | ok a t =>
    rw [hms] at h
    exact hQ a t h
  | error e t =>
    rw [hms] at h
    exact hE e t h

theorem pre {m : EStateM ε σ α} (h : Triple P m Q E) (hP : ∀ s, P' s → P s) : Triple P' m Q E :=
  h.conseq hP (fun _ _ h => h) (fun _ _ h => h)

-- A run from a single state.
theorem at_state {m : EStateM ε σ α} {s : σ} (h : Triple P m Q E) (hs : P s)
    : Triple (· = s) m Q E := by
  apply h.pre
  rintro _ rfl
  exact hs

theorem of_states {m : EStateM ε σ α} (h : ∀ s, P s → Triple (· = s) m Q E) : Triple P m Q E := by
  intro s hs
  exact h s hs s rfl

theorem ignore_error {m : EStateM ε σ α} (h : Triple P m Q E)
    : Triple P m Q (fun _ _ => True) :=
  h.conseq (fun _ h => h) (fun _ _ h => h) (fun _ _ _ => True.intro)

theorem and {m : EStateM ε σ α} (h : Triple P m Q E) (h' : Triple P' m Q' E')
    : Triple (fun s => P s ∧ P' s) m (fun a s => Q a s ∧ Q' a s) (fun e s => E e s ∧ E' e s) := by
  intro s hs
  have h := h s hs.1
  have h' := h' s hs.2
  cases hms : m s with
  | ok a t =>
    rw [hms] at h h'
    exact ⟨h, h'⟩
  | error e t =>
    rw [hms] at h h'
    exact ⟨h, h'⟩

theorem or {m : EStateM ε σ α} (h : Triple P m Q E) (h' : Triple P' m Q E)
    : Triple (fun s => P s ∨ P' s) m Q E := by
  rintro s (hs | hs)
  . exact h s hs
  . exact h' s hs

theorem forM {f : α → EStateM ε σ PUnit} {xs : List α}
    (hf : ∀ x ∈ xs, Triple P (f x) (fun _ => P) E)
    : Triple P (xs.forM f) (fun _ => P) E := by
  induction xs with
  | nil => exact Triple.pure (fun _ hs => hs)
  | cons x xs ih =>
    show Triple P (f x >>= fun _ => xs.forM f) (fun _ => P) E
    apply Triple.bind
    . exact hf x (by simp)
    . intro _
      exact ih (fun y hy => hf y (by simp [hy]))

-- One of the elements establishes what all of the others preserve.
theorem forM_of_mem {f : α → EStateM ε σ PUnit} {xs : List α} {x : α} (hx : x ∈ xs)
    (hbefore : ∀ y ∈ xs, Triple P (f y) (fun _ => P) E) (hest : Triple P (f x) (fun _ => P') E)
    (hafter : ∀ y ∈ xs, Triple P' (f y) (fun _ => P') E)
    : Triple P (xs.forM f) (fun _ => P') E := by
  induction xs with
  | nil => cases hx
  | cons y xs ih =>
    show Triple P (f y >>= fun _ => xs.forM f) (fun _ => P') E
    have hbefore' : ∀ z ∈ xs, Triple P (f z) (fun _ => P) E := fun z hz => hbefore z (by simp [hz])
    have hafter' : ∀ z ∈ xs, Triple P' (f z) (fun _ => P') E := fun z hz => hafter z (by simp [hz])
    rcases List.mem_cons.mp hx with heq | hmem
    . rw [heq] at hest
      apply Triple.bind hest
      intro _
      exact Triple.forM hafter'
    . apply Triple.bind (hbefore y (by simp))
      intro _
      exact ih hmem hbefore' hafter'

end Triple

namespace Preserves

variable {P : σ → Prop}

theorem state {m : EStateM ε σ α} (h : Preserves P m) {s : σ} (hs : P s) : P (m s).state := by
  have h := h s hs
  cases hms : m s with
  | ok a t => rwa [hms] at h
  | error e t => rwa [hms] at h

theorem pure (a : α) : Preserves P (pure a : EStateM ε σ α) := Triple.pure (fun _ hs => hs)

theorem throw (e : ε) : Preserves P (throw e : EStateM ε σ α) := Triple.throw (fun _ hs => hs)

theorem modify_bind {g : σ → σ} {f : PUnit → EStateM ε σ β} (hg : ∀ s, P s → P (g s))
    (hf : Preserves P (f .unit))
    : Preserves P ((modify g : EStateM ε σ PUnit) >>= f) := Triple.modify_bind hg hf

theorem modify {f : σ → σ} (hf : ∀ s, P s → P (f s))
    : Preserves P (modify f : EStateM ε σ PUnit) := Triple.modify hf

theorem bind {m : EStateM ε σ α} {f : α → EStateM ε σ β} (hm : Preserves P m)
    (hf : ∀ a, Preserves P (f a))
    : Preserves P (m >>= f) := Triple.bind hm hf

-- The continuation may use what the state was that it has read.
theorem get_bind {f : σ → EStateM ε σ β} (hf : ∀ s, P s → Preserves P (f s))
    : Preserves P ((get : EStateM ε σ σ) >>= f) := by
  intro s hs
  exact hf s hs s hs

theorem forM {f : α → EStateM ε σ PUnit} {xs : List α} (hf : ∀ x ∈ xs, Preserves P (f x))
    : Preserves P (xs.forM f) := Triple.forM hf

end Preserves

end EStateM
