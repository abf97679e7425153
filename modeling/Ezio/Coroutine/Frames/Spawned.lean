import Ezio.Coroutine.Frames.Step

/-!
This module contains the bookkeeping of the tasks that `spawn` takes over. An element of `spawned_list_` has a handle
until its coroutine has finished and is an entry of `pending_cleanup_` then.
-/

namespace Ezio
namespace Coroutine
namespace Frames

variable {w w' : Frames} {s f : Nat} {svc : Service} {fr : Frame} {erased : List (Nat × Nat)}

def posted (w : Frames) (s : Nat) : Bool :=
  ((w.services s).map (·.cleanupPosted)).getD false

-- The elements of a `spawned_list_` that the step erases.
def erases (w : Frames) : Step → List (Nat × Nat)
  | .runJob =>
    match w.jobs with
    | [] => []
    | s :: _ => (w.pending s).map (s, ·)
  | .clearSpawned s | .destruct s => (w.tasks s).map fun t => (s, t.iter)
  | _ => []

def erasedBy (w : Frames) : List Step → List (Nat × Nat)
  | [] => []
  | st :: steps => w.erases st ++ (w.step st).erasedBy steps

-- The tasks of a service are not dropped by a coroutine that it has spawned.
def Outside (w : Frames) : Step → Prop
  | .clearSpawned s | .destruct s =>
    ∀ f < w.nextFrame, ∀ fr ∈ w.frames f, fr.onFinalResume = some s → fr.status ≠ .running
  | _ => True

instance (w : Frames) (st : Step) : Decidable (w.Outside st) :=
  match st with
  | .clearSpawned s | .destruct s =>
    inferInstanceAs (Decidable (∀ f < w.nextFrame, ∀ fr ∈ w.frames f, fr.onFinalResume = some s → fr.status ≠ .running))
  | .construct _ _ _ | .setCurrent _ | .clearCurrent | .create _ _ | .destroy _ | .resume _ | .suspend _ | .finish _
  | .spawn _ _ | .runJob => .isTrue trivial

-- The element is in the list, and no running coroutine is destroyed with it.
def ErasesSafely (w : Frames) (st : Step) : Prop :=
  ∀ e ∈ w.erases st, (∃ t ∈ w.tasks e.1, t.iter = e.2) ∧ ∀ fr ∈ w.frames e.2, fr.status ≠ .running

/-! ### What the steps do -/

theorem posted_eq (h : w.services s = some svc)
    : w.posted s = svc.cleanupPosted := by
  simp [posted, h]

theorem setService_posted (w : Frames) (s : Nat) (o : Option Service)
    : (w.setService s o).posted = Function.update w.posted s ((o.map (·.cleanupPosted)).getD false) := by
  funext t
  simp only [posted, setService, Function.update_apply]
  split <;> rfl

theorem setFrame_self (w : Frames) (f : Nat) (o : Option Frame) : (w.setFrame f o).frames f = o :=
  Function.update_self ..

theorem setFrame_of_ne {g : Nat} (w : Frames) (o : Option Frame) (h : g ≠ f)
    : (w.setFrame f o).frames g = w.frames g :=
  Function.update_of_ne h ..

-- What the bookkeeping is about, frames aside.
structure Idle (w w' : Frames) : Prop where
  tasks : w'.tasks = w.tasks
  pending : w'.pending = w.pending
  posted : w'.posted = w.posted
  jobs : w'.jobs = w.jobs
  nextService : w'.nextService = w.nextService
  nextFrame : w'.nextFrame = w.nextFrame
  services : ∀ s, w.services s = none → w'.services s = none

theorem Idle.refl (w : Frames) : Idle w w :=
  ⟨rfl, rfl, rfl, rfl, rfl, rfl, fun _ => id⟩

theorem Idle.trans {w'' : Frames} (h : Idle w w') (h' : Idle w' w'') : Idle w w'' :=
  ⟨h'.tasks.trans h.tasks, h'.pending.trans h.pending, h'.posted.trans h.posted, h'.jobs.trans h.jobs,
    h'.nextService.trans h.nextService, h'.nextFrame.trans h.nextFrame, fun s hs => h'.services s (h.services s hs)⟩

theorem setPool_idle {p : FramePool} (h : w.services s = some svc)
    : Idle w (w.setService s (some { svc with framePool := p })) := by
  refine ⟨setPool_tasks h, setPool_pending h, ?_, rfl, rfl, rfl, ?_⟩
  . rw [setService_posted]
    exact Function.update_eq_self_iff.mpr (posted_eq h).symm
  . intro s' hs'
    simp only [setService, Function.update_apply]
    split
    . rename_i heq
      rw [heq, h] at hs'
      cases hs'
    . exact hs'

theorem destroyFrame_idle (w : Frames) (f : Nat) : Idle w (w.destroyFrame f) := by
  cases h : w.frames f with
  | none =>
    simp only [destroyFrame, h]
    exact .refl w
  | some fr =>
    rcases destroyFrame_cases h with ⟨s, svc, -, hsvc, -, -, heq⟩ | ⟨-, heq⟩
    . rw [heq]
      have hidle := setPool_idle (p := svc.framePool.free fr.ptr) hsvc
      exact ⟨hidle.tasks, hidle.pending, hidle.posted, rfl, rfl, rfl, hidle.services⟩
    . rw [heq]
      exact ⟨rfl, rfl, rfl, rfl, rfl, rfl, fun _ => id⟩

theorem foldl_destroyFrame_idle (l : List Nat) (w : Frames) : Idle w (l.foldl destroyFrame w) := by
  induction l generalizing w with
  | nil => exact .refl w
  | cons f l ih => exact (destroyFrame_idle w f).trans (ih (w.destroyFrame f))

theorem setService_setService (w : Frames) (s : Nat) (o o' : Option Service)
    : (w.setService s o).setService s o' = w.setService s o' := by
  simp [setService]

-- The positions of `l` are erased from the list, none of the tasks has a handle any more.
theorem foldl_eraseTask_eq (l : List Nat) (hs : w.services s = some svc)
    (hnone : ∀ t ∈ svc.spawnedList, t.iter ∈ l → t.handle = none)
    : l.foldl (eraseTask s) w
        = w.setService s (some { svc with spawnedList := svc.spawnedList.filter (·.iter ∉ l) }) := by
  induction l generalizing w svc with
  | nil =>
    have hself : w.setService s (some svc) = w := by
      unfold setService
      rw [← hs, Function.update_eq_self]
    simp [hself]
  | cons f l ih =>
    rw [List.foldl_cons, eraseTask_of_handle hs fun t ht hiter => hnone t ht (by simp [hiter])]
    have hs' : (w.setService s (some { svc with spawnedList := svc.spawnedList.filter (·.iter ≠ f) })).services s
        = some { svc with spawnedList := svc.spawnedList.filter (·.iter ≠ f) } := Function.update_self ..
    rw [ih hs']
    . rw [setService_setService]
      congr 3
      rw [List.filter_filter]
      apply List.filter_congr
      intro t _
      simp [Bool.and_comm]
    . intro t ht hiter
      exact hnone t (List.mem_filter.mp ht).1 (List.mem_cons_of_mem f hiter)

theorem runJob_eq {jobs : List Nat} (hjobs : w.jobs = s :: jobs) (hs : w.services s = some svc)
    (hnone : ∀ t ∈ svc.spawnedList, t.iter ∈ svc.pendingCleanup → t.handle = none)
    : w.runJob = { w.setService s (some { svc with
        spawnedList := svc.spawnedList.filter (·.iter ∉ svc.pendingCleanup)
        pendingCleanup := [], cleanupPosted := false }) with jobs } := by
  have herase := foldl_eraseTask_eq (w := { w with jobs }) svc.pendingCleanup hs hnone
  simp only [runJob, hjobs, sweepCompleted, hs, herase, setService, Function.update_self, Function.update_idem]

theorem onFinalResume_eq (hs : w.services s = some svc)
    : ∃ jobs, (∀ s' ∈ w.jobs, s' ∈ jobs) ∧ (svc.cleanupPosted = false → s ∈ jobs)
        ∧ w.onFinalResume s f = { w.setService s (some { svc with
            spawnedList := svc.spawnedList.map fun t => if t.iter = f then { t with handle := none } else t
            pendingCleanup := svc.pendingCleanup ++ [f], cleanupPosted := true }) with jobs } := by
  by_cases hposted : svc.cleanupPosted = true
  . refine ⟨w.jobs, fun _ => id, ?_, ?_⟩
    . simp [hposted]
    . simp only [onFinalResume, hs, hposted, if_true]
      rfl
  . refine ⟨w.jobs ++ [s], fun s' hs' => List.mem_append_left _ hs', fun _ => by simp, ?_⟩
    simp only [onFinalResume, hs, if_neg hposted]

theorem runJob_none {jobs : List Nat} (hjobs : w.jobs = s :: jobs) (hs : w.services s = none)
    : w.runJob = { w with jobs } := by
  simp only [runJob, hjobs, sweepCompleted, hs]

/-! ### The invariant -/

-- `f` has been spawned by `s`.
def IsSpawned (w : Frames) (erased : List (Nat × Nat)) (s f : Nat) : Prop :=
  (∃ t ∈ w.tasks s, t.iter = f) ∨ (s, f) ∈ erased

-- A task keeps its handle until the coroutine has finished and waits for the cleanup then.
structure Booked (w : Frames) (erased : List (Nat × Nat)) : Prop where
  service : ∀ s, w.nextService ≤ s → w.services s = none
  frame : ∀ f fr, w.frames f = some fr → f < w.nextFrame
  spawned : ∀ s f, w.IsSpawned erased s f → f < w.nextFrame ∧ ∀ fr, w.frames f = some fr → fr.onFinalResume = some s
  nodup : ∀ s, ((w.tasks s).map (·.iter)).Nodup
  task : ∀ s, ∀ t ∈ w.tasks s, t.handle = some t.iter ∧ (∃ fr, w.frames t.iter = some fr ∧ fr.status ≠ .done)
    ∨ t.handle = none ∧ t.iter ∈ w.pending s
  pending : ∀ s, ∀ f ∈ w.pending s, ⟨f, none⟩ ∈ w.tasks s ∧ ∃ fr, w.frames f = some fr ∧ fr.status = .done
  pendingNodup : ∀ s, (w.pending s).Nodup
  registered : ∀ s f fr, w.frames f = some fr → fr.onFinalResume = some s
    → if fr.status = .done then f ∈ w.pending s ∨ (s, f) ∈ erased else ⟨f, some f⟩ ∈ w.tasks s
  erasedNodup : erased.Nodup
  erasedNot : ∀ s, ∀ t ∈ w.tasks s, (s, t.iter) ∉ erased
  posted : ∀ s, w.pending s ≠ [] → w.posted s = true
  queued : ∀ s, w.posted s = true → s ∈ w.jobs

theorem init_booked : Booked {} [] := by
  constructor <;> simp [tasks, Frames.pending, posted, IsSpawned]

theorem Booked.same (h : Booked w erased) (hservice : ∀ s, w'.nextService ≤ s → w'.services s = none)
    (htasks : w'.tasks = w.tasks) (hpending : w'.pending = w.pending) (hposted : w'.posted = w.posted)
    (hjobs : w'.jobs = w.jobs) (hframes : w'.frames = w.frames) (hnextFrame : w'.nextFrame = w.nextFrame)
    : Booked w' erased := by
  constructor
  . exact hservice
  . rw [hframes, hnextFrame]
    exact h.frame
  . unfold IsSpawned
    rw [htasks, hframes, hnextFrame]
    exact h.spawned
  . rw [htasks]
    exact h.nodup
  . rw [htasks, hpending, hframes]
    exact h.task
  . rw [htasks, hpending, hframes]
    exact h.pending
  . rw [hpending]
    exact h.pendingNodup
  . rw [htasks, hpending, hframes]
    exact h.registered
  . exact h.erasedNodup
  . rw [htasks]
    exact h.erasedNot
  . rw [hpending, hposted]
    exact h.posted
  . rw [hposted, hjobs]
    exact h.queued

theorem Booked.idle (h : Booked w erased) (hidle : Idle w w') (hframes : w'.frames = w.frames)
    : Booked w' erased := by
  refine h.same ?_ hidle.tasks hidle.pending hidle.posted hidle.jobs hframes hidle.nextFrame
  intro s hs
  rw [hidle.nextService] at hs
  exact hidle.services s (h.service s hs)

theorem Booked.none_spawned (h : Booked w erased) (hf : w.frames f = some fr) (hnone : fr.onFinalResume = none)
    : ¬w.IsSpawned erased s f := by
  intro hspawned
  have hsome := (h.spawned s f hspawned).2 fr hf
  rw [hnone] at hsome
  cases hsome

theorem Booked.setService_services (h : Booked w erased) (hs : w.services s = some svc) (o : Option Service) {s' : Nat}
    (hs' : w.nextService ≤ s')
    : (w.setService s o).services s' = none := by
  have hnone := h.service s' hs'
  simp only [setService]
  rw [Function.update_of_ne]
  . exact hnone
  . rintro rfl
    rw [hs] at hnone
    cases hnone

-- Nothing is known of the frame that changes.
theorem Booked.unspawned (h : Booked w erased) {o : Option Frame} (hnot : ∀ s, ¬w.IsSpawned erased s f)
    (hnone : ∀ fr, o = some fr → fr.onFinalResume = none ∧ f < w.nextFrame)
    : Booked (w.setFrame f o) erased := by
  have hne : ∀ s, ∀ g, w.IsSpawned erased s g → g ≠ f := by
    rintro s g hg rfl
    exact hnot s hg
  refine ⟨h.service, ?_, ?_, h.nodup, ?_, ?_, h.pendingNodup, ?_, h.erasedNodup, h.erasedNot, h.posted, h.queued⟩
  . intro g fr hg
    by_cases heq : g = f
    . subst heq
      rw [setFrame_self] at hg
      exact (hnone fr hg).2
    . rw [setFrame_of_ne _ _ heq] at hg
      exact h.frame g fr hg
  . intro s g hg
    rw [setFrame_of_ne _ _ (hne s g hg)]
    exact h.spawned s g hg
  . intro s t ht
    rw [setFrame_of_ne _ _ (hne s t.iter (.inl ⟨t, ht, rfl⟩))]
    exact h.task s t ht
  . intro s g hg
    have hpending := h.pending s g hg
    rw [setFrame_of_ne _ _ (hne s g (.inl ⟨_, hpending.1, rfl⟩))]
    exact hpending
  . intro s g fr hg hresume
    by_cases heq : g = f
    . subst heq
      rw [setFrame_self] at hg
      rw [(hnone fr hg).1] at hresume
      cases hresume
    . rw [setFrame_of_ne _ _ heq] at hg
      exact h.registered s g fr hg hresume

theorem Booked.setStatus (h : Booked w erased) {status : Status} (hf : w.frames f = some fr)
    (hfr : fr.status ≠ .done) (hstatus : status ≠ .done)
    : Booked (w.setFrame f (some { fr with status })) erased := by
  refine ⟨h.service, ?_, ?_, h.nodup, ?_, ?_, h.pendingNodup, ?_, h.erasedNodup, h.erasedNot, h.posted, h.queued⟩
  . intro g fr' hg
    by_cases heq : g = f
    . rw [heq]
      exact h.frame f fr hf
    . rw [setFrame_of_ne _ _ heq] at hg
      exact h.frame g fr' hg
  . intro s g hg
    obtain ⟨hlt, hresume⟩ := h.spawned s g hg
    refine ⟨hlt, ?_⟩
    by_cases heq : g = f
    . subst heq
      rw [setFrame_self]
      rintro _ ⟨⟩
      exact hresume fr hf
    . rw [setFrame_of_ne _ _ heq]
      exact hresume
  . intro s t ht
    rcases h.task s t ht with ⟨hhandle, hlive⟩ | hdone
    . refine .inl ⟨hhandle, ?_⟩
      by_cases heq : t.iter = f
      . rw [heq]
        exact ⟨_, setFrame_self .., hstatus⟩
      . rw [setFrame_of_ne _ _ heq]
        exact hlive
    . exact .inr hdone
  . intro s g hg
    obtain ⟨htask, fr', hfr', hdone⟩ := h.pending s g hg
    refine ⟨htask, fr', ?_, hdone⟩
    rw [setFrame_of_ne]
    . exact hfr'
    . rintro rfl
      rw [hf] at hfr'
      cases hfr'
      exact hfr hdone
  . intro s g fr' hg hresume
    by_cases heq : g = f
    . subst heq
      rw [setFrame_self] at hg
      cases hg
      have hregistered := h.registered s g fr hf hresume
      rw [if_neg hfr] at hregistered
      rw [if_neg hstatus]
      exact hregistered
    . rw [setFrame_of_ne _ _ heq] at hg
      exact h.registered s g fr' hg hresume

-- A task is added at the front of the list.
theorem Booked.push (h : Booked w erased) (hs : w.services s = some svc) (hf : w.frames f = some fr)
    (hnone : fr.onFinalResume = none) (hstatus : fr.status ≠ .done)
    : Booked ((w.setService s (some { svc with spawnedList := ⟨f, some f⟩ :: svc.spawnedList })).setFrame f
        (some { fr with onFinalResume := some s })) erased := by
  have hnot : ∀ s', ¬w.IsSpawned erased s' f := fun s' => h.none_spawned hf hnone
  have htasks : ∀ s', (w.setService s (some { svc with spawnedList := ⟨f, some f⟩ :: svc.spawnedList })).tasks s'
      = if s' = s then ⟨f, some f⟩ :: w.tasks s else w.tasks s' := by
    intro s'
    rw [setService_tasks, Function.update_apply, tasks_eq hs]
    rfl
  have hpending : (w.setService s (some { svc with spawnedList := ⟨f, some f⟩ :: svc.spawnedList })).pending
      = w.pending := by
    rw [setService_pending]
    exact Function.update_eq_self_iff.mpr (pending_eq hs).symm
  have hposted : (w.setService s (some { svc with spawnedList := ⟨f, some f⟩ :: svc.spawnedList })).posted
      = w.posted := by
    rw [setService_posted]
    exact Function.update_eq_self_iff.mpr (posted_eq hs).symm
  have hmem : ∀ s', ∀ t, t ∈ (w.setService s (some { svc with spawnedList := ⟨f, some f⟩ :: svc.spawnedList })).tasks s'
      ↔ s' = s ∧ t = ⟨f, some f⟩ ∨ t ∈ w.tasks s' := by
    intro s' t
    rw [htasks]
    split
    . rename_i heq
      simp [heq]
    . rename_i hne
      simp [hne]
  generalize hw' : w.setService s (some { svc with spawnedList := ⟨f, some f⟩ :: svc.spawnedList }) = w' at *
  have hframes : w'.frames = w.frames := by rw [← hw']; rfl
  have hjobs : w'.jobs = w.jobs := by rw [← hw']; rfl
  have hnextFrame : w'.nextFrame = w.nextFrame := by rw [← hw']; rfl
  have hold : ∀ g, (∃ s', w.IsSpawned erased s' g) → (w'.setFrame f (some { fr with onFinalResume := some s })).frames g
      = w.frames g := by
    rintro g ⟨s', hg⟩
    rw [setFrame_of_ne, hframes]
    rintro rfl
    exact hnot s' hg
  constructor
  . intro s' hs'
    change w'.services s' = none
    rw [← hw'] at hs' ⊢
    exact h.setService_services hs _ hs'
  . intro g fr' hg
    change g < w'.nextFrame
    rw [hnextFrame]
    by_cases heq : g = f
    . rw [heq]
      exact h.frame f fr hf
    . rw [setFrame_of_ne _ _ heq, hframes] at hg
      exact h.frame g fr' hg
  . rintro s' g hg
    have hcases : s' = s ∧ g = f ∨ w.IsSpawned erased s' g := by
      rcases hg with ⟨t, ht, rfl⟩ | hg
      . rcases (hmem s' t).mp ht with ⟨rfl, rfl⟩ | ht
        . exact .inl ⟨rfl, rfl⟩
        . exact .inr (.inl ⟨t, ht, rfl⟩)
      . exact .inr (.inr hg)
    change g < w'.nextFrame ∧ _
    rw [hnextFrame]
    rcases hcases with ⟨rfl, rfl⟩ | hg
    . refine ⟨h.frame g fr hf, ?_⟩
      rw [setFrame_self]
      rintro _ ⟨⟩
      rfl
    . rw [hold g ⟨s', hg⟩]
      exact h.spawned s' g hg
  . intro s'
    change ((w'.tasks s').map _).Nodup
    rw [htasks]
    split
    . rw [List.map_cons, List.nodup_cons]
      refine ⟨?_, h.nodup s⟩
      intro hin
      obtain ⟨t, ht, hiter⟩ := List.mem_map.mp hin
      exact hnot s (.inl ⟨t, ht, hiter⟩)
    . exact h.nodup s'
  . intro s' t ht
    change _ ∨ _ ∧ t.iter ∈ w'.pending s'
    rw [hpending]
    rcases (hmem s' t).mp ht with ⟨rfl, rfl⟩ | ht
    . exact .inl ⟨rfl, _, setFrame_self .., hstatus⟩
    . rw [hold t.iter ⟨s', .inl ⟨t, ht, rfl⟩⟩]
      exact h.task s' t ht
  . intro s' g hg
    change g ∈ w'.pending s' at hg
    rw [hpending] at hg
    have htask := h.pending s' g hg
    rw [hold g ⟨s', .inl ⟨_, htask.1, rfl⟩⟩]
    exact ⟨(hmem s' _).mpr (.inr htask.1), htask.2⟩
  . change ∀ s, (w'.pending s).Nodup
    rw [hpending]
    exact h.pendingNodup
  . intro s' g fr' hg hresume
    change if fr'.status = .done then g ∈ w'.pending s' ∨ _ else ⟨g, some g⟩ ∈ w'.tasks s'
    rw [hpending, hmem]
    by_cases heq : g = f
    . subst heq
      rw [setFrame_self] at hg
      cases hg
      cases hresume
      rw [if_neg hstatus]
      exact .inl ⟨rfl, rfl⟩
    . rw [setFrame_of_ne _ _ heq, hframes] at hg
      have hregistered := h.registered s' g fr' hg hresume
      split
      . rename_i hdone
        rw [if_pos hdone] at hregistered
        exact hregistered
      . rename_i hdone
        rw [if_neg hdone] at hregistered
        exact .inr hregistered
  . exact h.erasedNodup
  . intro s' t ht
    rcases (hmem s' t).mp ht with ⟨rfl, rfl⟩ | ht
    . exact fun hin => hnot s' (.inr hin)
    . exact h.erasedNot s' t ht
  . change ∀ s, w'.pending s ≠ [] → w'.posted s = true
    rw [hpending, hposted]
    exact h.posted
  . change ∀ s, w'.posted s = true → s ∈ w'.jobs
    rw [hposted, hjobs]
    exact h.queued

theorem Booked.construct {blockSize capacity mem : Nat} (h : Booked w erased)
    : Booked (w.construct blockSize capacity mem) erased := by
  unfold Frames.construct
  dsimp only
  split
  . have hnone := h.service w.nextService (Nat.le_refl _)
    refine h.same ?_ ?_ ?_ ?_ rfl rfl rfl
    . intro s' hs'
      change w.nextService + 1 ≤ s' at hs'
      change Function.update w.services w.nextService _ s' = none
      rw [Function.update_of_ne (show s' ≠ w.nextService by omega)]
      exact h.service s' (by omega)
    . refine (setService_tasks w w.nextService _).trans (Function.update_eq_self_iff.mpr ?_)
      simp [tasks, hnone]
    . refine (setService_pending w w.nextService _).trans (Function.update_eq_self_iff.mpr ?_)
      simp [Frames.pending, hnone]
    . refine (setService_posted w w.nextService _).trans (Function.update_eq_self_iff.mpr ?_)
      simp [Frames.posted, hnone]
  . exact h

-- A frame that has not been there is not one of a task.
theorem Booked.newFrame (h : Booked w erased) (fr : Frame) (hnone : fr.onFinalResume = none)
    : Booked { w.setFrame w.nextFrame (some fr) with nextFrame := w.nextFrame + 1 } erased := by
  have hnot : ∀ s, ¬w.IsSpawned erased s w.nextFrame := by
    intro s hspawned
    exact absurd (h.spawned s _ hspawned).1 (Nat.lt_irrefl _)
  have hnext : Booked { w with nextFrame := w.nextFrame + 1 } erased :=
    ⟨h.service, fun g fr hg => Nat.lt_succ_of_lt (h.frame g fr hg),
      fun s g hg => ⟨Nat.lt_succ_of_lt (h.spawned s g hg).1, (h.spawned s g hg).2⟩, h.nodup, h.task, h.pending,
      h.pendingNodup, h.registered, h.erasedNodup, h.erasedNot, h.posted, h.queued⟩
  refine hnext.unspawned (f := w.nextFrame) (o := some fr) hnot ?_
  rintro _ ⟨⟩
  exact ⟨hnone, Nat.lt_succ_self _⟩

theorem Booked.destroy (h : Booked w erased) (hf : w.frames f = some fr) (hnone : fr.onFinalResume = none)
    : Booked (w.destroyFrame f) erased := by
  have hset := h.unspawned (o := none) (fun s => h.none_spawned (s := s) hf hnone) (by simp)
  have hidle := destroyFrame_idle w f
  exact hset.idle ⟨hidle.tasks, hidle.pending, hidle.posted, hidle.jobs, hidle.nextService, hidle.nextFrame,
    hidle.services⟩ (destroyFrame_frames w f)

end Frames

end Coroutine
end Ezio
