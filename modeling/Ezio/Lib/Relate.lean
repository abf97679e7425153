import Ezio.Lib.Exec

/-!
This module contains the rules to compare two runs in `Except` and in `EStateM`. `G` and `H` are what the two runs are
known to have done once they have stopped, they may fail in a state although they hold before it.
-/

namespace Except

variable {ε α β γ δ ι : Type}

-- Both calls have ended in the same way, `R` relates what they have returned.
def Matches (R : α → β → Prop) : Except ε α → Except ε β → Prop
  | .ok a, .ok b => R a b
  | .error e, .error f => e = f
  | _, _ => False

theorem Matches.bind {R : α → β → Prop} {S : γ → δ → Prop} {x : Except ε α} {y : Except ε β} {f : α → Except ε γ}
    {g : β → Except ε δ} (h : Matches R x y) (hf : ∀ a b, R a b → Matches S (f a) (g b))
    : Matches S (x >>= f) (y >>= g) := by
  cases x with
  | ok a =>
    cases y with
    | ok b => exact hf a b h
    | error e => exact h.elim
  | error e =>
    cases y with
    | ok b => exact h.elim
    | error e' => exact h

theorem Matches.map {R : α → β → Prop} {S : γ → δ → Prop} {x : Except ε α} {y : Except ε β} {f : α → γ} {g : β → δ}
    (h : Matches R x y) (hfg : ∀ a b, R a b → S (f a) (g b))
    : Matches S (x.map f) (y.map g) := by
  cases x with
  | ok a =>
    cases y with
    | ok b => exact hfg a b h
    | error e => exact h.elim
  | error e =>
    cases y with
    | ok b => exact h.elim
    | error e' => exact h

theorem Matches.foldlM {R : α → β → Prop} {f : α → ι → Except ε α} {g : β → ι → Except ε β}
    (hstep : ∀ a b i, R a b → Matches R (f a i) (g b i)) (is : List ι) {a : α} {b : β} (h : R a b)
    : Matches R (is.foldlM f a) (is.foldlM g b) := by
  induction is generalizing a b with
  | nil => exact h
  | cons i is ih => exact Matches.bind (hstep a b i h) fun _ _ h => ih h

end Except

namespace EStateM

variable {ε σ τ α β : Type}

-- Both runs have stopped in the same way, `Q` relates the states they have stopped in.
def Result.Matches (Q : σ → τ → Prop) : Result ε σ α → Result ε τ α → Prop
  | .ok a s, .ok b t => a = b ∧ Q s t
  | .error e s, .error f t => e = f ∧ Q s t
  | _, _ => False

theorem Result.Matches.state {Q : σ → τ → Prop} {r : Result ε σ α} {r' : Result ε τ α} (h : r.Matches Q r')
    : r.error? = r'.error? ∧ Q r.state r'.state := by
  cases r with
  | ok a s =>
    cases r' with
    | ok b t => exact ⟨rfl, h.2⟩
    | error f t => exact h.elim
  | error e s =>
    cases r' with
    | ok b t => exact h.elim
    | error f t => exact ⟨congrArg some h.1, h.2⟩

theorem Result.Matches.bind {Q R : σ → τ → Prop} {m : EStateM ε σ α} {m' : EStateM ε τ α} {f : α → EStateM ε σ β}
    {f' : α → EStateM ε τ β} {s : σ} {t : τ} (h : (m s).Matches Q (m' t)) (hQ : ∀ s t, Q s t → R s t)
    (hf : ∀ a s' t', m s = .ok a s' → m' t = .ok a t' → Q s' t' → (f a s').Matches R (f' a t'))
    : ((m >>= f) s).Matches R ((m' >>= f') t) := by
  rw [bind_apply, bind_apply]
  cases hms : m s with
  | ok a s' =>
    rw [hms] at h
    cases hmt : m' t with
    | ok b t' =>
      rw [hmt] at h
      obtain ⟨rfl, hrel⟩ := h
      exact hf a s' t' hms hmt hrel
    | error e t' =>
      rw [hmt] at h
      exact h.elim
  | error e s' =>
    rw [hms] at h
    cases hmt : m' t with
    | ok b t' =>
      rw [hmt] at h
      exact h.elim
    | error e' t' =>
      rw [hmt] at h
      exact ⟨h.1, hQ s' t' h.2⟩

theorem state_of_bind {G : σ → Prop} {m : EStateM ε σ α} {f : α → EStateM ε σ β} {s : σ}
    (hG : ∀ a s, G (f a s).state → G s) (h : G ((m >>= f) s).state)
    : G (m s).state := by
  rw [bind_apply] at h
  cases hms : m s with
  | ok a s' =>
    rw [hms] at h
    exact hG a s' h
  | error e s' =>
    rw [hms] at h
    exact h

def Relates (G : σ → Prop) (H : τ → Prop) (P : σ → τ → Prop) (m : EStateM ε σ α) (m' : EStateM ε τ α)
    (Q : σ → τ → Prop)
    : Prop :=
  ∀ s t, P s t → G (m s).state → H (m' t).state → (m s).Matches Q (m' t)

namespace Relates

variable {G : σ → Prop} {H : τ → Prop} {P Q R : σ → τ → Prop}

theorem pure (a : α) : Relates G H P (pure a : EStateM ε σ α) (pure a) P := by
  intro s t hst _ _
  exact ⟨rfl, hst⟩

theorem throw (e : ε) : Relates G H P (throw e : EStateM ε σ α) (throw e) P := by
  intro s t hst _ _
  exact ⟨rfl, hst⟩

theorem modify_bind {g : σ → σ} {g' : τ → τ} {f : PUnit → EStateM ε σ β} {f' : PUnit → EStateM ε τ β}
    (h : ∀ s t, P s t → Q (g s) (g' t)) (hf : Relates G H Q (f .unit) (f' .unit) R)
    : Relates G H P ((modify g : EStateM ε σ PUnit) >>= f) ((modify g' : EStateM ε τ PUnit) >>= f') R := by
  intro s t hst
  exact hf (g s) (g' t) (h s t hst)

theorem modify {g : σ → σ} {g' : τ → τ} (h : ∀ s t, P s t → Q (g s) (g' t))
    : Relates G H P (modify g : EStateM ε σ PUnit) (modify g') Q := by
  intro s t hst _ _
  exact ⟨rfl, h s t hst⟩

theorem get_bind {f : σ → EStateM ε σ β} {f' : τ → EStateM ε τ β}
    (hf : ∀ s t, P s t → Relates G H P (f s) (f' t) Q)
    : Relates G H P ((get : EStateM ε σ σ) >>= f) ((get : EStateM ε τ τ) >>= f') Q := by
  intro s t hst
  exact hf s t hst s t hst

-- What is known of the whole runs must be known of their beginnings, too.
theorem bind {m : EStateM ε σ α} {m' : EStateM ε τ α} {f : α → EStateM ε σ β} {f' : α → EStateM ε τ β}
    (hm : Relates G H P m m' Q) (hG : ∀ a s, G (f a s).state → G s) (hH : ∀ a t, H (f' a t).state → H t)
    (hf : ∀ a, Relates G H Q (f a) (f' a) R) (hQ : ∀ s t, Q s t → R s t)
    : Relates G H P (m >>= f) (m' >>= f') R := by
  intro s t hst hs ht
  apply (hm s t hst (state_of_bind hG hs) (state_of_bind hH ht)).bind hQ
  intro a s' t' hms hmt hrel
  rw [bind_apply, hms] at hs
  rw [bind_apply, hmt] at ht
  exact hf a s' t' hrel hs ht

-- Nothing has to be known of the first part.
theorem bind_of_true {m : EStateM ε σ α} {m' : EStateM ε τ α} {f : α → EStateM ε σ β} {f' : α → EStateM ε τ β}
    (hm : Relates (fun _ => True) (fun _ => True) P m m' Q) (hf : ∀ a, Relates G H Q (f a) (f' a) R)
    (hQ : ∀ s t, Q s t → R s t)
    : Relates G H P (m >>= f) (m' >>= f') R := by
  intro s t hst hs ht
  apply (hm s t hst True.intro True.intro).bind hQ
  intro a s' t' hms hmt hrel
  rw [bind_apply, hms] at hs
  rw [bind_apply, hmt] at ht
  exact hf a s' t' hrel hs ht

end Relates

end EStateM
