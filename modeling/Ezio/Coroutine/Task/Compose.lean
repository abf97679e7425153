import Ezio.Coroutine.Task

/-!
This module contains the evaluation of a tree of tasks: the coroutines end as if every `co_await` of a task
were a call that returns or throws.
-/

namespace Ezio
namespace Coroutine
namespace Task

variable {L V E : Type}

namespace Body

-- All tasks are created where they are awaited.
def Lazy : Body L V E → Prop
  | coReturn _ | throw _ => True
  | awaitLeaf _ k => ∀ v, (k v).Lazy
  | awaitNew child k => child.Lazy ∧ ∀ r, (k r).Lazy
  | awaitTask _ _ => False

-- Direct evaluation, the awaitables that are no tasks return the given values one after the other. There is no
-- result if an awaitable has none left to return.
def eval : Body L V E → List V → Option (Result V E) × List V
  | coReturn v, vs => (some (.value v), vs)
  | throw e, vs => (some (.exception e), vs)
  | awaitLeaf _ _, [] => (none, [])
  | awaitLeaf _ k, v :: vs => (k v).eval vs
  | awaitNew child k, vs =>
    match child.eval vs with
    | (some r, vs) => (k r).eval vs
    | (none, vs) => (none, vs)
  | awaitTask _ _, vs => (none, vs)

-- The end of a body with the given result.
def ofResult : Result V E → Body L V E
  | .value v => coReturn v
  | .exception e => throw e

end Body

namespace Entry

def task? : Entry L V E → Option Nat
  | awaits _ c | finishes c _ | resumes _ c _ => some c
  | _ => none

def Sound : Entry L V E → Prop
  | useAfterFree _ | badResume _ => False
  | _ => True

end Entry

-- What happens to the task `c`.
def history (l : List (Entry L V E)) (c : Nat) : List (Entry L V E) :=
  l.filter (·.task? = some c)

theorem history_append (l l' : List (Entry L V E)) (c : Nat)
    : history (l ++ l') c = history l c ++ history l' c :=
  List.filter_append ..

namespace World

variable {w w' : World L V E} {h c : Nat} {p : Promise V E} {b : Body L V E} {s : List Nat}

-- The final awaiter of `x` is all that is left of it on the stack.
def Returned (w : World L V E) (x : Nat) : Prop :=
  x < w.next ∧ ∀ f, w.frames x = some f → f.done

-- The coroutine `h` is about to run `b`, its awaitables are all behind it.
structure Runs (w : World L V E) (h : Nat) (p : Promise V E) (b : Body L V E) : Prop where
  stack : ∃ s, w.stack = h :: s ∧ ∀ x ∈ s, w.Returned x
  frame : w.frames h = some ⟨p, .running b⟩
  exception : p.exception = none
  fresh : ∀ x, w.next ≤ x → w.frames x = none
  leafs : w.leafs = []

theorem Runs.lt (hr : w.Runs h p b)
    : h < w.next := by
  by_contra hle
  have := hr.fresh h (by omega)
  rw [hr.frame] at this
  cases this

-- The stack of a coroutine that runs does not hold it a second time.
theorem Runs.notMem (hr : w.Runs h p b) (hs : ∀ x ∈ s, w.Returned x)
    : h ∉ s := by
  intro hmem
  have := (hs h hmem).2 _ hr.frame
  simp [Frame.done] at this

-- The tasks that are awaited between `lo` and `hi`, every one has ended unless `partly`.
structure Tells (lo hi : Nat) (partly : Prop) (new : List (Entry L V E)) : Prop where
  sound : ∀ e ∈ new, e.Sound
  outside : ∀ c, c < lo ∨ hi ≤ c → history new c = []
  inside : ∀ c, lo ≤ c → c < hi → ∃ x, partly ∧ history new c = [.awaits x c]
    ∨ ∃ r, history new c = [.awaits x c, .finishes c r, .resumes x c r]

theorem Tells.nil (lo : Nat) (partly : Prop)
    : Tells lo lo partly ([] : List (Entry L V E)) := by
  constructor
  . simp
  . simp [history]
  . intro c h₁ h₂
    omega

theorem Tells.append {lo mid hi : Nat} {partly : Prop} {new new' : List (Entry L V E)}
    (h₁ : Tells lo mid False new) (h₂ : Tells mid hi partly new') (hlo : lo ≤ mid) (hhi : mid ≤ hi)
    : Tells lo hi partly (new ++ new') := by
  constructor
  . intro e he
    rcases List.mem_append.mp he with he | he
    . exact h₁.sound e he
    . exact h₂.sound e he
  . intro c hc
    rw [history_append, h₁.outside c (by omega), h₂.outside c (by omega)]
    rfl
  . intro c hc hc'
    rw [history_append]
    by_cases hmid : c < mid
    . rw [h₂.outside c (.inl hmid), List.append_nil]
      obtain ⟨x, ⟨hfalse, -⟩ | hr⟩ := h₁.inside c hc hmid
      . exact absurd hfalse id
      . exact ⟨x, .inr hr⟩
    . rw [h₁.outside c (.inr (by omega)), List.nil_append]
      exact h₂.inside c (by omega) hc'

theorem Tells.leaf (lo : Nat) (partly : Prop) (l : L) (v : V)
    : Tells lo lo partly ([.completes h v, .continues h l v] : List (Entry L V E)) := by
  constructor
  . simp [Entry.Sound]
  . simp [history, Entry.task?]
  . intro c h₁ h₂
    omega

-- The task `c` is awaited, and all that it awaits is in between.
theorem Tells.awaits {hi : Nat} {partly : Prop} {new : List (Entry L V E)} (h₁ : Tells (c + 1) hi partly new)
    (hhi : c < hi)
    : Tells c hi True (.awaits h c :: new) := by
  constructor
  . intro e he
    rcases List.mem_cons.mp he with rfl | he
    . exact trivial
    . exact h₁.sound e he
  . intro c' hc'
    rw [history, List.filter_cons_of_neg (by simp [Entry.task?]; omega)]
    exact h₁.outside c' (by omega)
  . intro c' hc hc'
    by_cases heq : c' = c
    . subst heq
      refine ⟨h, .inl ⟨trivial, ?_⟩⟩
      rw [history, List.filter_cons_of_pos (by simp [Entry.task?])]
      exact congrArg _ (h₁.outside c' (by omega))
    . rw [history, List.filter_cons_of_neg (by simp [Entry.task?]; omega)]
      obtain ⟨x, ⟨-, hx⟩ | hx⟩ := h₁.inside c' (by omega) hc'
      . exact ⟨x, .inl ⟨trivial, hx⟩⟩
      . exact ⟨x, .inr hx⟩

theorem Tells.call {hi : Nat} {r : Result V E} {new : List (Entry L V E)} (h₁ : Tells (c + 1) hi False new)
    (hhi : c < hi)
    : Tells c hi False (.awaits h c :: new ++ [Entry.finishes c r, Entry.resumes h c r]) := by
  have hlast : ∀ c', history ([Entry.finishes c r, Entry.resumes h c r] : List (Entry L V E)) c'
      = if c = c' then [Entry.finishes c r, Entry.resumes h c r] else [] := by
    intro c'
    split <;> simp [history, Entry.task?, *]
  constructor
  . intro e he
    simp only [List.cons_append, List.mem_cons, List.mem_append, List.not_mem_nil, or_false] at he
    rcases he with rfl | he | rfl | rfl
    . exact trivial
    . exact h₁.sound e he
    . exact trivial
    . exact trivial
  . intro c' hc'
    rw [history_append, hlast, if_neg (by omega), List.append_nil]
    exact (h₁.awaits hhi).outside c' (by omega)
  . intro c' hc hc'
    rw [history_append, hlast]
    by_cases heq : c = c'
    . subst heq
      refine ⟨h, .inr ⟨r, ?_⟩⟩
      rw [if_pos rfl, history, List.filter_cons_of_pos (by simp [Entry.task?])]
      have hnil : history new c = [] := h₁.outside c (by omega)
      rw [history] at hnil
      rw [hnil]
      rfl
    . rw [if_neg heq, List.append_nil, history, List.filter_cons_of_neg (by simpa [Entry.task?] using heq)]
      exact h₁.inside c' (by omega) hc'

-- `w'` is where the coroutine `h` is about to end with `r`, all tasks that it has awaited are gone.
structure Ends (w w' : World L V E) (h : Nat) (p : Promise V E) (r : Result V E) (vs : List V) : Prop where
  runs : w'.Runs h p (.ofResult r)
  responses : w'.responses.map Response.value = vs
  next : w.next ≤ w'.next
  other : ∀ x < w.next, x ≠ h → w'.frames x = w.frames x
  gone : ∀ x, w.next ≤ x → w'.frames x = none
  log : ∃ new, w'.log = w.log ++ new ∧ Tells w.next w'.next False new

-- In `w'` an awaitable below the coroutine `h` will not be completed.
structure Blocks (w w' : World L V E) (h : Nat) : Prop where
  stack : w'.stack = []
  responses : w'.responses = []
  next : w.next ≤ w'.next
  other : ∀ x < w.next, x ≠ h → w'.frames x = w.frames x
  frame : ∃ f, w'.frames h = some f ∧ f.done = false
  log : ∃ new, w'.log = w.log ++ new ∧ Tells w.next w'.next True new

-- The frames of a coroutine that goes on.
theorem Runs.goOn {b' : Body L V E} {rs : List (Response V)} {l : List (Entry L V E)} {s' : List Nat}
    (hr : w.Runs h p b) (hs : ∀ x ∈ s', w.Returned x)
    : Runs { w with
        frames := Function.update w.frames h (some ⟨p, .running b'⟩)
        leafs := []
        responses := rs
        stack := h :: s'
        log := l } h p b' := by
  have hnot := hr.notMem hs
  refine ⟨⟨s', rfl, ?_⟩, Function.update_self .., hr.exception, ?_, rfl⟩
  . intro x hx
    have hne : x ≠ h := by
      rintro rfl
      exact hnot hx
    refine ⟨(hs x hx).1, ?_⟩
    simp only [Function.update_of_ne hne]
    exact (hs x hx).2
  . intro x hx
    have hne : x ≠ h := by
      have := hr.lt
      simp only at hx
      omega
    simp only [Function.update_of_ne hne]
    exact hr.fresh x hx

-- The history of an awaited task that the log tells about.
theorem Tells.history_of_awaits {lo hi : Nat} {partly : Prop} {new : List (Entry L V E)} {x : Nat}
    (h₁ : Tells lo hi partly new) (hmem : .awaits x c ∈ new)
    : lo ≤ c ∧ (partly ∧ history new c = [.awaits x c]
        ∨ ∃ r, history new c = [.awaits x c, .finishes c r, .resumes x c r]) := by
  have hhistory : .awaits x c ∈ history new c := by
    rw [history, List.mem_filter]
    exact ⟨hmem, by simp [Entry.task?]⟩
  have hin : lo ≤ c ∧ c < hi := by
    by_contra hout
    rw [h₁.outside c (by omega)] at hhistory
    cases hhistory
  refine ⟨hin.1, ?_⟩
  obtain ⟨x', ⟨hpartly, hx'⟩ | ⟨r, hx'⟩⟩ := h₁.inside c hin.1 hin.2
  . rw [hx'] at hhistory ⊢
    cases List.mem_singleton.mp hhistory
    exact .inl ⟨hpartly, rfl⟩
  . rw [hx'] at hhistory ⊢
    simp only [List.mem_cons, Entry.awaits.injEq, and_true, reduceCtorEq, List.not_mem_nil, or_self,
      or_false] at hhistory
    rw [hhistory]
    exact .inr ⟨r, rfl⟩

variable [Inhabited V]

theorem exec_add (m n : Nat) (w : World L V E)
    : exec (m + n) w = exec n (exec m w) := by
  induction m generalizing w with
  | zero => simp [exec]
  | succ m ih =>
    rw [Nat.succ_add]
    exact ih w.step

def Reaches (w w' : World L V E) : Prop :=
  ∃ n, exec n w = w'

theorem Reaches.refl (w : World L V E)
    : Reaches w w :=
  ⟨0, rfl⟩

theorem Reaches.trans {w'' : World L V E} (h₁ : Reaches w w') (h₂ : Reaches w' w'')
    : Reaches w w'' := by
  obtain ⟨m, rfl⟩ := h₁
  obtain ⟨n, rfl⟩ := h₂
  exact ⟨m + n, exec_add m n w⟩

theorem Reaches.step (h : Reaches w.step w')
    : Reaches w w' := by
  obtain ⟨n, rfl⟩ := h
  exact ⟨n + 1, rfl⟩

theorem reaches_pop (hstack : w.stack = s) (hs : ∀ x ∈ s, w.Returned x)
    : Reaches w { w with stack := [] } := by
  induction s generalizing w with
  | nil =>
    rw [← hstack]
    exact .refl w
  | cons x s ih =>
    apply Reaches.step
    have hx := hs x List.mem_cons_self
    have hstep : w.step = { w with stack := s } := by
      unfold step
      rw [hstack]
      simp only
      split
      . rename_i promise b hframe
        have := hx.2 _ hframe
        simp [Frame.done] at this
      . rfl
    rw [hstep]
    exact ih rfl fun y hy => hs y (List.mem_cons_of_mem x hy)

theorem Runs.step_eq (hr : w.Runs h p b)
    : w.step = w.runBody h ⟨p, .running b⟩ b := by
  obtain ⟨s, hstack, -⟩ := hr.stack
  unfold step
  rw [hstack]
  simp only [hr.frame]

-- A task is created and control is transferred to it.
theorem Runs.step_awaitNew {child : Body L V E} {k : Result V E → Body L V E}
    (hr : w.Runs h p (.awaitNew child k)) (hstack : w.stack = h :: s)
    : w.step = { w with
        frames := Function.update (Function.update w.frames h (some ⟨p, .task w.next true k⟩)) w.next
          (some ⟨{ continuation := some h, value := default }, .running child⟩)
        next := w.next + 1
        stack := w.next :: s
        log := w.log ++ [.awaits h w.next] } := by
  have hne : w.next ≠ h := Ne.symm (Nat.ne_of_lt hr.lt)
  rw [hr.step_eq]
  simp only [runBody, awaitSuspend, resume, setFrame, addLog, hstack, List.tail_cons,
    Function.update_of_ne hne, Function.update_self]
  rw [Function.update_comm hne, Function.update_idem]

-- The task ends, its continuation goes on and destroys it.
theorem Runs.step_ofResult {p' : Promise V E} {k : Result V E → Body L V E} {r : Result V E}
    (hr : w.Runs c p (.ofResult r)) (hcont : p.continuation = some h) (hne : h ≠ c)
    (hframe : w.frames h = some ⟨p', .task c true k⟩)
    : w.step = { w with
        frames := Function.update (Function.update w.frames c none) h (some ⟨p', .running (k r)⟩)
        stack := h :: w.stack
        log := w.log ++ [.finishes c r, .resumes h c r] } := by
  have hexception := hr.exception
  rw [hr.step_eq]
  cases r <;> simp [Body.ofResult, runBody, finalSuspend, hcont, resume, setFrame, addLog, hframe,
    Function.update_of_ne hne, Promise.awaitResume, hexception, Function.update_idem]

-- The root ends.
theorem Runs.step_root {r : Result V E} (hr : w.Runs c p (.ofResult r)) (hcont : p.continuation = none)
    : ∃ p', p'.awaitResume = r ∧ w.step = { w with
        frames := Function.update w.frames c (some ⟨p', .final⟩)
        stack := w.stack.tail
        log := w.log ++ [.finishes c r] } := by
  have hexception := hr.exception
  rw [hr.step_eq]
  cases r with
  | value v =>
    refine ⟨{ p with value := v }, by simp [Promise.awaitResume, hexception], ?_⟩
    simp [Body.ofResult, runBody, finalSuspend, hcont, setFrame, addLog, Promise.awaitResume, hexception]
  | exception e =>
    refine ⟨{ p with exception := some e }, by simp [Promise.awaitResume], ?_⟩
    simp [Body.ofResult, runBody, finalSuspend, hcont, setFrame, addLog, Promise.awaitResume]

-- The coroutine `h` suspends on an awaitable and control goes back to the event loop.
theorem Runs.reaches_leaf {l : L} {k : V → Body L V E} (hr : w.Runs h p (.awaitLeaf l k))
    (hresponses : ∀ v rs, w.responses ≠ .ready v :: rs)
    : Reaches w { w with
        frames := Function.update w.frames h (some ⟨p, .leaf l default k⟩)
        leafs := [h]
        stack := [] } := by
  obtain ⟨s, hstack, hs⟩ := hr.stack
  have hnot := hr.notMem hs
  apply Reaches.step
  have hstep : w.step = { w with
      frames := Function.update w.frames h (some ⟨p, .leaf l default k⟩)
      leafs := [h]
      stack := s } := by
    rw [hr.step_eq]
    simp only [runBody]
    simp [setFrame, hr.leafs, hstack]
  rw [hstep]
  refine (reaches_pop (s := s) rfl ?_).trans (.refl _)
  intro x hx
  refine ⟨(hs x hx).1, ?_⟩
  have hne : x ≠ h := by
    rintro rfl
    exact hnot hx
  simp only [Function.update_of_ne hne]
  exact (hs x hx).2

-- The completion of the awaitable resumes the coroutine.
theorem step_later {l : L} {v₀ v : V} {k : V → Body L V E} {rs : List (Response V)}
    (hstack : w.stack = []) (hleafs : w.leafs = [h]) (hresponses : w.responses = .later v :: rs)
    (hframe : w.frames h = some ⟨p, .leaf l v₀ k⟩)
    : w.step = { w with
        frames := Function.update w.frames h (some ⟨p, .running (k v)⟩)
        leafs := []
        responses := rs
        stack := [h]
        log := w.log ++ [.completes h v, .continues h l v] } := by
  unfold step
  rw [hstack]
  simp only [hleafs, hresponses]
  simp [completeLeaf, hframe, setFrame, addLog, resume, Function.update_idem]

def Evaluates (b : Body L V E) : Prop :=
  ∀ (w : World L V E) h p, w.Runs h p b
    → (∀ r vs, b.eval (w.responses.map Response.value) = (some r, vs)
        → ∃ w', Reaches w w' ∧ Ends w w' h p r vs)
      ∧ ∀ vs, b.eval (w.responses.map Response.value) = (none, vs) → ∃ w', Reaches w w' ∧ Blocks w w' h

theorem evaluates_ofResult (r : Result V E)
    : Evaluates (.ofResult r : Body L V E) := by
  have heval : ∀ vs, (.ofResult r : Body L V E).eval vs = (some r, vs) := by
    intro vs
    cases r <;> rfl
  intro w h p hr
  constructor
  . intro r' vs hvs
    rw [heval] at hvs
    cases hvs
    exact ⟨w, .refl w, hr, rfl, Nat.le_refl _, fun _ _ _ => rfl, hr.fresh, [], by simp, .nil _ _⟩
  . intro vs hvs
    rw [heval] at hvs
    cases hvs

-- The coroutine has gone on with the rest `b'` of `b` to the state `w₁`.
theorem evaluates_of_reaches {b' : Body L V E} {w₁ : World L V E} (hb : Evaluates b') (hr₁ : w₁.Runs h p b')
    (hreach : Reaches w w₁) (hnext : w.next ≤ w₁.next)
    (hother : ∀ x < w.next, x ≠ h → w₁.frames x = w.frames x)
    (hgone : ∀ x, w.next ≤ x → w₁.frames x = none)
    (hlog : ∃ new, w₁.log = w.log ++ new ∧ Tells w.next w₁.next False new)
    (hlt : h < w.next)
    : (∀ r vs, b'.eval (w₁.responses.map Response.value) = (some r, vs)
        → ∃ w', Reaches w w' ∧ Ends w w' h p r vs)
      ∧ ∀ vs, b'.eval (w₁.responses.map Response.value) = (none, vs)
        → ∃ w', Reaches w w' ∧ Blocks w w' h := by
  obtain ⟨hsome, hnone⟩ := hb w₁ h p hr₁
  obtain ⟨new, hnew, htells⟩ := hlog
  constructor
  . intro r vs hvs
    obtain ⟨w', hreach', hends⟩ := hsome r vs hvs
    obtain ⟨new', hnew', htells'⟩ := hends.log
    refine ⟨w', hreach.trans hreach', hends.runs, hends.responses, Nat.le_trans hnext hends.next, ?_, ?_, ?_⟩
    . intro x hx hne
      rw [hends.other x (by omega) hne]
      exact hother x hx hne
    . intro x hx
      by_cases hlt' : x < w₁.next
      . rw [hends.other x hlt' (by omega)]
        exact hgone x hx
      . exact hends.gone x (by omega)
    . exact ⟨new ++ new', by rw [hnew', hnew, List.append_assoc], htells.append htells' hnext hends.next⟩
  . intro vs hvs
    obtain ⟨w', hreach', hblocks⟩ := hnone vs hvs
    obtain ⟨new', hnew', htells'⟩ := hblocks.log
    refine ⟨w', hreach.trans hreach', hblocks.stack, hblocks.responses, Nat.le_trans hnext hblocks.next, ?_,
      hblocks.frame, ?_⟩
    . intro x hx hne
      rw [hblocks.other x (by omega) hne]
      exact hother x hx hne
    . exact ⟨new ++ new', by rw [hnew', hnew, List.append_assoc], htells.append htells' hnext hblocks.next⟩

theorem evaluates_awaitLeaf {l : L} {k : V → Body L V E} (hk : ∀ v, Evaluates (k v))
    : Evaluates (.awaitLeaf l k) := by
  intro w h p hr
  obtain ⟨s, hstack, hs⟩ := hr.stack
  have hupdate : ∀ (f : Option (Frame L V E)) x, x ≠ h → Function.update w.frames h f x = w.frames x :=
    fun f x hne => Function.update_of_ne hne _ _
  have hlt := hr.lt
  cases hrs : w.responses with
  | nil =>
    constructor
    . intro r vs hvs
      simp [Body.eval] at hvs
    . intro vs _
      refine ⟨_, hr.reaches_leaf (by simp [hrs]), rfl, hrs, Nat.le_refl _, fun x _ hne => hupdate _ x hne,
        ⟨_, Function.update_self .., rfl⟩, [], by simp, .nil _ _⟩
  | cons response rs =>
    cases response with
    | ready v =>
      have hstep : w.step = { w with
          frames := Function.update w.frames h (some ⟨p, .running (k v)⟩)
          leafs := []
          responses := rs
          stack := h :: s } := by
        rw [hr.step_eq]
        simp [runBody, hrs, setFrame, hr.leafs, hstack]
      have hr₁ : Runs { w with
          frames := Function.update w.frames h (some ⟨p, .running (k v)⟩)
          leafs := []
          responses := rs
          stack := h :: s } h p (k v) := hr.goOn hs
      refine evaluates_of_reaches (hk v) hr₁ (.step (hstep ▸ .refl _)) (Nat.le_refl _) ?_ ?_ ?_ hlt
      . exact fun x _ hne => hupdate _ x hne
      . exact fun x hx => (hupdate _ x (by omega)).trans (hr.fresh x hx)
      . exact ⟨[], by simp, .nil _ _⟩
    | later v =>
      have hreach := hr.reaches_leaf (by simp [hrs])
      have hstep := step_later (w := { w with
        frames := Function.update w.frames h (some ⟨p, .leaf l default k⟩)
        leafs := [h]
        stack := [] }) (v := v) (h := h) rfl rfl hrs (Function.update_self ..)
      simp only [Function.update_idem] at hstep
      have hr₁ : Runs { w with
          frames := Function.update w.frames h (some ⟨p, .running (k v)⟩)
          leafs := []
          responses := rs
          stack := [h]
          log := w.log ++ [.completes h v, .continues h l v] } h p (k v) := hr.goOn (by simp)
      refine evaluates_of_reaches (hk v) hr₁ (hreach.trans (.step (hstep ▸ .refl _))) (Nat.le_refl _) ?_ ?_ ?_ hlt
      . exact fun x _ hne => hupdate _ x hne
      . exact fun x hx => (hupdate _ x (by omega)).trans (hr.fresh x hx)
      . exact ⟨_, rfl, .leaf _ _ l v⟩

theorem evaluates_awaitNew {child : Body L V E} {k : Result V E → Body L V E} (hchild : Evaluates child)
    (hk : ∀ r, Evaluates (k r))
    : Evaluates (.awaitNew child k) := by
  intro w h p hr
  obtain ⟨s, hstack, hs⟩ := hr.stack
  have hnot := hr.notMem hs
  have hlt := hr.lt
  have hstep := hr.step_awaitNew hstack
  -- the task runs in the new frame
  have hr₁ : Runs w.step w.next { continuation := some h, value := default } child := by
    rw [hstep]
    refine ⟨⟨s, rfl, ?_⟩, Function.update_self .., rfl, ?_, hr.leafs⟩
    . intro x hx
      have hx' := hs x hx
      have hne : x ≠ h := by
        rintro rfl
        exact hnot hx
      refine ⟨Nat.lt_succ_of_lt hx'.1, ?_⟩
      simp only [Function.update_of_ne (Nat.ne_of_lt hx'.1), Function.update_of_ne hne]
      exact hx'.2
    . intro x hx
      simp only at hx
      simp only [Function.update_of_ne (show x ≠ w.next by omega), Function.update_of_ne (show x ≠ h by omega)]
      exact hr.fresh x (by omega)
  have hnext₁ : w.step.next = w.next + 1 := by rw [hstep]
  have hlog₁ : w.step.log = w.log ++ [.awaits h w.next] := by rw [hstep]
  have hresponses₁ : w.step.responses = w.responses := by rw [hstep]
  have hframe₁ : w.step.frames h = some ⟨p, .task w.next true k⟩ := by
    rw [hstep]
    simp only [Function.update_of_ne (Nat.ne_of_lt hlt), Function.update_self]
  have hother₁ : ∀ x < w.next, x ≠ h → w.step.frames x = w.frames x := by
    intro x hx hne
    rw [hstep]
    simp only [Function.update_of_ne (Nat.ne_of_lt hx), Function.update_of_ne hne]
  have hreach₁ : Reaches w w.step := .step (.refl _)
  generalize w.step = w₁ at *
  obtain ⟨hsome, hnone⟩ := hchild w₁ w.next _ hr₁
  rw [hresponses₁] at hsome hnone
  cases heval : child.eval (w.responses.map Response.value) with
  | mk result vs =>
    cases result with
    | none =>
      obtain ⟨w₂, hreach₂, hblocks⟩ := hnone vs heval
      obtain ⟨new, hnew, htells⟩ := hblocks.log
      rw [hnext₁] at htells
      have hnext₂ := hblocks.next
      constructor
      . intro r vs' hvs
        simp [Body.eval, heval] at hvs
      . intro vs' _
        refine ⟨w₂, hreach₁.trans hreach₂, hblocks.stack, hblocks.responses, by omega, ?_, ?_, ?_⟩
        . intro x hx hne
          rw [hblocks.other x (by omega) (by omega)]
          exact hother₁ x hx hne
        . refine ⟨_, (hblocks.other h (by omega) (by omega)).trans hframe₁, rfl⟩
        . refine ⟨.awaits h w.next :: new, ?_, htells.awaits (by omega)⟩
          rw [hnew, hlog₁, List.append_assoc]
          rfl
    | some r =>
      obtain ⟨w₂, hreach₂, hends⟩ := hsome r vs heval
      obtain ⟨new, hnew, htells⟩ := hends.log
      rw [hnext₁] at htells
      have hnext₂ := hends.next
      have hframe₂ : w₂.frames h = some ⟨p, .task w.next true k⟩ :=
        (hends.other h (by omega) (by omega)).trans hframe₁
      have hstep₂ := hends.runs.step_ofResult rfl (Nat.ne_of_lt hlt) hframe₂
      obtain ⟨s₂, hstack₂, hs₂⟩ := hends.runs.stack
      have hr₂ : Runs w₂.step h p (k r) := by
        rw [hstep₂]
        refine ⟨⟨w₂.stack, rfl, ?_⟩, Function.update_self .., hr.exception, ?_, hends.runs.leafs⟩
        . intro x hx
          rw [hstack₂] at hx
          rcases List.mem_cons.mp hx with rfl | hx
          . refine ⟨by simp only; omega, ?_⟩
            simp only [Function.update_of_ne (Ne.symm (Nat.ne_of_lt hlt)), Function.update_self]
            simp
          . obtain ⟨hlt', hreturned⟩ := hs₂ x hx
            refine ⟨hlt', ?_⟩
            have hne : x ≠ h := by
              rintro rfl
              have := hreturned _ hframe₂
              simp [Frame.done] at this
            have hne' : x ≠ w.next := by
              rintro rfl
              exact hends.runs.notMem hs₂ hx
            simp only [Function.update_of_ne hne, Function.update_of_ne hne']
            exact hreturned
        . intro x hx
          simp only at hx
          simp only [Function.update_of_ne (show x ≠ h by omega), Function.update_of_ne (show x ≠ w.next by omega)]
          exact hends.runs.fresh x hx
      have heval' : (Body.awaitNew child k).eval (w.responses.map Response.value)
          = (k r).eval (w₂.step.responses.map Response.value) := by
        rw [hstep₂]
        simp only [Body.eval, heval]
        rw [hends.responses]
      rw [heval']
      refine evaluates_of_reaches (hk r) hr₂ (hreach₁.trans (hreach₂.trans (.step (.refl _)))) ?_ ?_ ?_ ?_ hlt
      . rw [hstep₂]
        simp only
        omega
      . intro x hx hne
        rw [hstep₂]
        simp only [Function.update_of_ne hne, Function.update_of_ne (show x ≠ w.next by omega)]
        rw [hends.other x (by omega) (by omega)]
        exact hother₁ x hx hne
      . intro x hx
        rw [hstep₂]
        simp only [Function.update_of_ne (show x ≠ h by omega)]
        by_cases heq : x = w.next
        . rw [heq, Function.update_self]
        . rw [Function.update_of_ne heq]
          exact hends.gone x (by omega)
      . rw [hstep₂]
        refine ⟨.awaits h w.next :: new ++ [Entry.finishes w.next r, Entry.resumes h w.next r], ?_, ?_⟩
        . simp only [hnew, hlog₁, List.append_assoc]
          rfl
        . exact htells.call (by omega)

theorem evaluates (b : Body L V E) (hlazy : b.Lazy)
    : Evaluates b := by
  induction b with
  | coReturn v => exact evaluates_ofResult (.value v)
  | throw e => exact evaluates_ofResult (.exception e)
  | awaitLeaf l k ih => exact evaluates_awaitLeaf fun v => ih v (hlazy v)
  | awaitNew child k ihc ihk => exact evaluates_awaitNew (ihc hlazy.1) fun r => ihk r (hlazy.2 r)
  | awaitTask h k => exact absurd hlazy id

theorem start_runs (b : Body L V E) (responses : List (Response V))
    : Runs (start b responses) 0 { value := default } b := by
  have heq : start b responses = {
      frames := Function.update (fun _ => none) 0 (some ⟨{ value := default }, .running b⟩)
      next := 1
      stack := [0]
      responses } := by
    simp [start, resume, setFrame, Function.update_idem]
  rw [heq]
  refine ⟨⟨[], rfl, by simp⟩, by simp, rfl, ?_, rfl⟩
  intro x hx
  simp only at hx
  simp only [Function.update_of_ne (show x ≠ 0 by omega)]

-- Nothing happens any more.
theorem exec_of_reaches (h : Reaches w w') (hstop : w'.step = w')
    : ∃ N, ∀ n ≥ N, exec n w = w' := by
  obtain ⟨N, hN⟩ := h
  refine ⟨N, ?_⟩
  intro n hn
  obtain ⟨m, rfl⟩ := Nat.exists_eq_add_of_le hn
  rw [exec_add, hN]
  clear hn
  induction m with
  | zero => rfl
  | succ m ih =>
    rw [exec, hstop]
    exact ih

-- A task awaits one that throws after its `co_await`, and catches what it throws.
def caughtTask : Body Unit Nat String :=
  .awaitNew (.awaitLeaf () fun _ => .throw "closed") fun
    | .value v => .coReturn v
    | .exception _ => .coReturn 7

theorem caughtTask_lazy
    : caughtTask.Lazy :=
  ⟨fun _ => trivial, fun r => by cases r <;> trivial⟩

end World

end Task
end Coroutine
end Ezio
