import Ezio.Coroutine.Frames.Spawned
import Mathlib.Data.List.Nodup

/-!
This module contains the steps that take tasks out of a `spawned_list_` and runs of all steps: a task that has finished
is erased once, by a cleanup job or when all tasks are cleared.
-/

namespace Ezio
namespace Coroutine
namespace Frames

variable {w w' : Frames} {s f : Nat} {svc : Service} {fr : Frame} {erased : List (Nat × Nat)}

-- The coroutine of a task comes to its final suspend point.
theorem Booked.complete (h : Booked w erased) (hs : w.services s = some svc) (hf : w.frames f = some fr)
    (hresume : fr.onFinalResume = some s) (hstatus : fr.status ≠ .done)
    : Booked ((w.setFrame f (some { fr with status := .done })).onFinalResume s f) erased := by
  have htask : ⟨f, some f⟩ ∈ w.tasks s := by
    have hregistered := h.registered s f fr hf hresume
    rw [if_neg hstatus] at hregistered
    exact hregistered
  have howner : ∀ s', w.IsSpawned erased s' f → s' = s := by
    intro s' hspawned
    have hsome := (h.spawned s' f hspawned).2 fr hf
    rw [hresume] at hsome
    exact (Option.some.inj hsome).symm
  have hnew : f ∉ w.pending s := by
    intro hin
    obtain ⟨_, fr', hfr', hdone⟩ := h.pending s f hin
    rw [hf] at hfr'
    cases hfr'
    exact hstatus hdone
  obtain ⟨jobs, hjobs, hposted, heq⟩ := onFinalResume_eq (w := w.setFrame f (some { fr with status := .done }))
    (f := f) hs
  rw [heq]
  generalize hw' : w.setFrame f (some { fr with status := .done }) = w'
  have hother : ∀ g, g ≠ f → w'.frames g = w.frames g := by
    intro g hg
    rw [← hw']
    exact setFrame_of_ne _ _ hg
  have hself : w'.frames f = some { fr with status := .done } := by
    rw [← hw']
    exact setFrame_self ..
  have htasks' : w'.tasks = w.tasks := by rw [← hw']; rfl
  have hpending' : w'.pending = w.pending := by rw [← hw']; rfl
  have hposted' : w'.posted = w.posted := by rw [← hw']; rfl
  have hnextFrame' : w'.nextFrame = w.nextFrame := by rw [← hw']; rfl
  clear heq
  generalize hw'' : w'.setService s (some { svc with
      spawnedList := svc.spawnedList.map fun t => if t.iter = f then { t with handle := none } else t
      pendingCleanup := svc.pendingCleanup ++ [f], cleanupPosted := true }) = w''
  have htasks : ∀ s', w''.tasks s' = if s' = s then
      (w.tasks s).map fun t => if t.iter = f then { t with handle := none } else t else w.tasks s' := by
    intro s'
    rw [← hw'', setService_tasks, Function.update_apply, htasks', tasks_eq hs]
    rfl
  have hpending : ∀ s', w''.pending s' = if s' = s then w.pending s ++ [f] else w.pending s' := by
    intro s'
    rw [← hw'', setService_pending, Function.update_apply, hpending', pending_eq hs]
    rfl
  have hpostedEq : ∀ s', w''.posted s' = if s' = s then true else w.posted s' := by
    intro s'
    rw [← hw'', setService_posted, Function.update_apply, hposted']
    rfl
  have hframes : w''.frames = w'.frames := by rw [← hw'']; rfl
  -- an element keeps its place, the one of the coroutine loses its handle
  have hiters : ∀ s', (w''.tasks s').map (·.iter) = (w.tasks s').map (·.iter) := by
    intro s'
    rw [htasks]
    split
    . rename_i heq
      rw [heq, List.map_map]
      apply List.map_congr_left
      intro t _
      dsimp only [Function.comp_apply]
      split <;> rfl
    . rfl
  have hmem : ∀ s', ∀ t, t ∈ w''.tasks s' ↔ t.iter ≠ f ∧ t ∈ w.tasks s' ∨ s' = s ∧ t = ⟨f, none⟩ := by
    intro s' t
    rw [htasks]
    split
    . rename_i heq
      rw [List.mem_map]
      constructor
      . rintro ⟨t', ht', rfl⟩
        split
        . rename_i hiter
          exact .inr ⟨heq, by rw [← hiter]⟩
        . rename_i hiter
          rw [heq]
          exact .inl ⟨hiter, ht'⟩
      . rintro (⟨hiter, ht⟩ | ⟨-, rfl⟩)
        . rw [heq] at ht
          exact ⟨t, ht, if_neg hiter⟩
        . exact ⟨⟨f, some f⟩, htask, if_pos rfl⟩
    . rename_i hne
      constructor
      . intro ht
        refine .inl ⟨?_, ht⟩
        intro hiter
        exact hne (howner s' (.inl ⟨t, ht, hiter⟩))
      . rintro (⟨_, ht⟩ | ⟨heq, _⟩)
        . exact ht
        . exact absurd heq hne
  have hspawned : ∀ s' g, w''.IsSpawned erased s' g ↔ w.IsSpawned erased s' g := by
    intro s' g
    have hiff := congrArg (g ∈ ·) (hiters s')
    simp only [List.mem_map, eq_iff_iff] at hiff
    unfold IsSpawned
    rw [hiff]
  have hpendingMem : ∀ s' g, g ∈ w''.pending s' ↔ g ∈ w.pending s' ∨ s' = s ∧ g = f := by
    intro s' g
    rw [hpending]
    split
    . rename_i heq
      simp [heq]
    . rename_i hne
      simp [hne]
  constructor
  . intro s' hs'
    change w''.services s' = none
    change w''.nextService ≤ s' at hs'
    rw [← hw'', ← hw'] at hs' ⊢
    exact h.setService_services hs _ hs'
  . intro g fr' hg
    change w''.frames g = some fr' at hg
    change g < w''.nextFrame
    rw [hframes] at hg
    rw [← hw'']
    change g < w'.nextFrame
    rw [hnextFrame']
    by_cases heq : g = f
    . rw [heq]
      exact h.frame f fr hf
    . rw [hother g heq] at hg
      exact h.frame g fr' hg
  . intro s' g hg
    obtain ⟨hlt, hresume'⟩ := h.spawned s' g ((hspawned s' g).mp hg)
    change g < w''.nextFrame ∧ ∀ fr, w''.frames g = some fr → _
    rw [hframes]
    refine ⟨?_, ?_⟩
    . rw [← hw'']
      change g < w'.nextFrame
      rw [hnextFrame']
      exact hlt
    . by_cases heq : g = f
      . subst heq
        rw [hself]
        rintro _ ⟨⟩
        exact hresume' fr hf
      . rw [hother g heq]
        exact hresume'
  . intro s'
    change ((w''.tasks s').map _).Nodup
    rw [hiters]
    exact h.nodup s'
  . intro s' t ht
    change _ ∧ (∃ fr, w''.frames _ = some fr ∧ _) ∨ _ ∧ t.iter ∈ w''.pending s'
    rw [hframes, hpendingMem]
    rcases (hmem s' t).mp ht with ⟨hiter, ht⟩ | ⟨heq, rfl⟩
    . rw [hother _ hiter]
      rcases h.task s' t ht with hlive | ⟨hhandle, hin⟩
      . exact .inl hlive
      . exact .inr ⟨hhandle, .inl hin⟩
    . exact .inr ⟨rfl, .inr ⟨heq, rfl⟩⟩
  . intro s' g hg
    change _ ∈ w''.tasks s' ∧ ∃ fr, w''.frames g = some fr ∧ _
    rw [hframes, hmem]
    rcases (hpendingMem s' g).mp hg with hg | ⟨heq, rfl⟩
    . obtain ⟨htask', fr', hfr', hdone⟩ := h.pending s' g hg
      have hne : g ≠ f := by
        rintro rfl
        rw [hf] at hfr'
        cases hfr'
        exact hstatus hdone
      rw [hother g hne]
      exact ⟨.inl ⟨hne, htask'⟩, fr', hfr', hdone⟩
    . exact ⟨.inr ⟨heq, rfl⟩, _, hself, rfl⟩
  . intro s'
    change (w''.pending s').Nodup
    rw [hpending]
    split
    . rw [List.nodup_append]
      refine ⟨h.pendingNodup s, by simp, ?_⟩
      rintro g hg g' hg' rfl
      rw [List.mem_singleton] at hg'
      exact hnew (hg' ▸ hg)
    . exact h.pendingNodup s'
  . intro s' g fr' hg hresume'
    change w''.frames g = some fr' at hg
    change if _ then g ∈ w''.pending s' ∨ _ else _ ∈ w''.tasks s'
    rw [hframes] at hg
    rw [hpendingMem, hmem]
    by_cases heq : g = f
    . subst heq
      rw [hself] at hg
      cases hg
      rw [hresume] at hresume'
      cases hresume'
      rw [if_pos rfl]
      exact .inl (.inr ⟨rfl, rfl⟩)
    . rw [hother g heq] at hg
      have hregistered := h.registered s' g fr' hg hresume'
      split
      . rename_i hdone
        rw [if_pos hdone] at hregistered
        exact hregistered.imp_left .inl
      . rename_i hdone
        rw [if_neg hdone] at hregistered
        exact .inl ⟨heq, hregistered⟩
  . exact h.erasedNodup
  . intro s' t ht
    rcases (hmem s' t).mp ht with ⟨_, ht⟩ | ⟨rfl, rfl⟩
    . exact h.erasedNot s' t ht
    . exact h.erasedNot s' ⟨f, some f⟩ htask
  . intro s' hne
    change w''.posted s' = true
    change w''.pending s' ≠ [] at hne
    rw [hpending] at hne
    rw [hpostedEq]
    split
    . rfl
    . rename_i heq
      rw [if_neg heq] at hne
      exact h.posted s' hne
  . intro s' hin
    change w''.posted s' = true at hin
    change s' ∈ jobs
    rw [hpostedEq] at hin
    have hold : w.posted s' = true → s' ∈ jobs := by
      intro hp
      apply hjobs
      rw [hw', ← hw']
      exact h.queued s' hp
    split at hin
    . rename_i heq
      rw [heq]
      cases hp : svc.cleanupPosted with
      | false => exact hposted hp
      | true =>
        rw [← heq]
        apply hold
        rw [heq, posted_eq hs]
        exact hp
    . exact hold hin

-- Nothing waits at the service any more, and it has no job of its own.
theorem Booked.emptied (h : Booked w erased) (hpending : ∀ s', w'.pending s' = if s' = s then [] else w.pending s')
    (hposted : ∀ s', w'.posted s' = if s' = s then false else w.posted s')
    : (∀ s', (w'.pending s').Nodup) ∧ (∀ s', w'.pending s' ≠ [] → w'.posted s' = true)
        ∧ ∀ s', w'.posted s' = true → s' ≠ s ∧ s' ∈ w.jobs := by
  refine ⟨?_, ?_, ?_⟩
  . intro s'
    rw [hpending]
    split
    . exact List.nodup_nil
    . exact h.pendingNodup s'
  . intro s' hne
    rw [hpending] at hne
    rw [hposted]
    split
    . rename_i heq
      rw [if_pos heq] at hne
      exact absurd rfl hne
    . rename_i heq
      rw [if_neg heq] at hne
      exact h.posted s' hne
  . intro s' hin
    rw [hposted] at hin
    split at hin
    . cases hin
    . rename_i hne
      exact ⟨hne, h.queued s' hin⟩

-- All tasks of a service are dropped.
theorem Booked.clear (h : Booked w erased) (hs : w.services s = some svc)
    : Booked (w.clearSpawned s) (erased ++ (w.tasks s).map fun t => (s, t.iter)) := by
  have hidle := foldl_destroyFrame_idle ((w.tasks s).filterMap (·.handle))
    (w.setService s (some { svc with spawnedList := [], pendingCleanup := [], cleanupPosted := false }))
  have hget := foldl_destroyFrame_frames ((w.tasks s).filterMap (·.handle))
    (w.setService s (some { svc with spawnedList := [], pendingCleanup := [], cleanupPosted := false }))
  rw [← clearSpawned_eq hs] at hidle hget
  generalize w.clearSpawned s = w' at hidle hget
  have htasks : ∀ s', w'.tasks s' = if s' = s then [] else w.tasks s' := by
    intro s'
    rw [hidle.tasks, setService_tasks, Function.update_apply]
    rfl
  have hpending : ∀ s', w'.pending s' = if s' = s then [] else w.pending s' := by
    intro s'
    rw [hidle.pending, setService_pending, Function.update_apply]
    rfl
  have hposted : ∀ s', w'.posted s' = if s' = s then false else w.posted s' := by
    intro s'
    rw [hidle.posted, setService_posted, Function.update_apply]
    rfl
  have hframe : ∀ g fr, w'.frames g = some fr → w.frames g = some fr := by
    intro g fr hg
    rw [hget] at hg
    split at hg
    . cases hg
    . exact hg
  have hmem : ∀ s' t, t ∈ w'.tasks s' ↔ s' ≠ s ∧ t ∈ w.tasks s' := by
    intro s' t
    rw [htasks]
    split
    . rename_i heq
      simp [heq]
    . rename_i hne
      simp [hne]
  have hdropped : ∀ s' g, (s', g) ∈ (w.tasks s).map (fun t => (s, t.iter)) ↔ s' = s ∧ ∃ t ∈ w.tasks s, t.iter = g := by
    intro s' g
    simp only [List.mem_map, Prod.mk.injEq]
    constructor
    . rintro ⟨t, ht, rfl, rfl⟩
      exact ⟨rfl, t, ht, rfl⟩
    . rintro ⟨rfl, t, ht, rfl⟩
      exact ⟨t, ht, rfl, rfl⟩
  have hspawned : ∀ s' g, w'.IsSpawned (erased ++ (w.tasks s).map fun t => (s, t.iter)) s' g
      → w.IsSpawned erased s' g := by
    rintro s' g (⟨t, ht, rfl⟩ | hin)
    . exact .inl ⟨t, ((hmem s' t).mp ht).2, rfl⟩
    . rcases List.mem_append.mp hin with hin | hin
      . exact .inr hin
      . obtain ⟨rfl, ht⟩ := (hdropped s' g).mp hin
        exact .inl ht
  -- the coroutines of the other services are left alone
  have hother : ∀ s' g, s' ≠ s → w.IsSpawned erased s' g → w'.frames g = w.frames g := by
    intro s' g hne hg
    rw [hget, if_neg]
    . rfl
    . intro hin
      obtain ⟨t, ht, hhandle⟩ := List.mem_filterMap.mp hin
      rcases h.task s t ht with ⟨hsome, fr, hfr, -⟩ | ⟨hnone, -⟩
      . rw [hsome] at hhandle
        cases hhandle
        have hleft := (h.spawned s t.iter (.inl ⟨t, ht, rfl⟩)).2 fr hfr
        rw [(h.spawned s' t.iter hg).2 fr hfr] at hleft
        exact hne (Option.some.inj hleft)
      . rw [hnone] at hhandle
        cases hhandle
  obtain ⟨hnodup, hwaits, hqueued⟩ := h.emptied hpending hposted
  constructor
  . intro s' hs'
    rw [hidle.nextService] at hs'
    exact hidle.services s' (h.setService_services hs _ hs')
  . intro g fr hg
    rw [hidle.nextFrame]
    exact h.frame g fr (hframe g fr hg)
  . intro s' g hg
    obtain ⟨hlt, hresume⟩ := h.spawned s' g (hspawned s' g hg)
    rw [hidle.nextFrame]
    exact ⟨hlt, fun fr hfr => hresume fr (hframe g fr hfr)⟩
  . intro s'
    rw [htasks]
    split
    . exact List.nodup_nil
    . exact h.nodup s'
  . intro s' t ht
    obtain ⟨hne, ht⟩ := (hmem s' t).mp ht
    rw [hother s' t.iter hne (.inl ⟨t, ht, rfl⟩), hpending, if_neg hne]
    exact h.task s' t ht
  . intro s' g hg
    rw [hpending] at hg
    split at hg
    . cases hg
    . rename_i hne
      obtain ⟨htask, hdone⟩ := h.pending s' g hg
      rw [hother s' g hne (.inl ⟨_, htask, rfl⟩), hmem]
      exact ⟨⟨hne, htask⟩, hdone⟩
  . exact hnodup
  . intro s' g fr hg hresume
    have hregistered := h.registered s' g fr (hframe g fr hg) hresume
    rw [hpending, hmem, List.mem_append, hdropped]
    by_cases heq : s' = s
    . subst heq
      split
      . rename_i hdone
        rw [if_pos hdone] at hregistered
        right
        rcases hregistered with hin | hin
        . exact .inr ⟨rfl, ⟨g, none⟩, (h.pending s' g hin).1, rfl⟩
        . exact .inl hin
      . rename_i hdone
        rw [if_neg hdone] at hregistered
        have hin : g ∈ (w.tasks s').filterMap (·.handle) := List.mem_filterMap.mpr ⟨_, hregistered, rfl⟩
        rw [hget, if_pos hin] at hg
        cases hg
    . rw [if_neg heq]
      split
      . rename_i hdone
        rw [if_pos hdone] at hregistered
        exact hregistered.imp_right .inl
      . rename_i hdone
        rw [if_neg hdone] at hregistered
        exact ⟨heq, hregistered⟩
  . rw [List.nodup_append]
    refine ⟨h.erasedNodup, ?_, ?_⟩
    . have hnodup := List.Nodup.map (f := fun g => (s, g)) (fun a b heq => (Prod.mk.inj heq).2) (h.nodup s)
      rw [List.map_map] at hnodup
      exact hnodup
    . rintro ⟨s', g⟩ hleft _ hright rfl
      obtain ⟨rfl, t, ht, rfl⟩ := (hdropped s' g).mp hright
      exact h.erasedNot s' t ht hleft
  . intro s' t ht hin
    obtain ⟨hne, ht⟩ := (hmem s' t).mp ht
    rcases List.mem_append.mp hin with hin | hin
    . exact h.erasedNot s' t ht hin
    . exact hne ((hdropped s' t.iter).mp hin).1
  . exact hwaits
  . rw [hidle.jobs]
    exact fun s' hin => (hqueued s' hin).2

-- The cleanup job runs.
theorem Booked.sweep (h : Booked w erased) {jobs : List Nat} (hjobs : w.jobs = s :: jobs)
    : Booked w.runJob (erased ++ (w.pending s).map (s, ·)) ∧ w.runJob.pending s = [] := by
  cases hs : w.services s with
  | none =>
    have hpending : w.pending s = [] := by simp [Frames.pending, hs]
    have hposted : ∀ s', w.posted s' = true → s' ∈ jobs := by
      intro s' hin
      have hqueued := h.queued s' hin
      rw [hjobs, List.mem_cons] at hqueued
      rcases hqueued with rfl | hqueued
      . simp [Frames.posted, hs] at hin
      . exact hqueued
    rw [runJob_none hjobs hs, hpending, List.map_nil, List.append_nil]
    exact ⟨⟨h.service, h.frame, h.spawned, h.nodup, h.task, h.pending, h.pendingNodup, h.registered, h.erasedNodup,
      h.erasedNot, h.posted, hposted⟩, hpending⟩
  | some svc =>
    have hnone : ∀ t ∈ svc.spawnedList, t.iter ∈ svc.pendingCleanup → t.handle = none := by
      intro t ht hin
      rw [← tasks_eq hs] at ht
      rw [← pending_eq hs] at hin
      rcases h.task s t ht with ⟨_, fr, hfr, hlive⟩ | ⟨hnone, _⟩
      . obtain ⟨_, fr', hfr', hdone⟩ := h.pending s t.iter hin
        rw [hfr] at hfr'
        cases hfr'
        exact absurd hdone hlive
      . exact hnone
    rw [runJob_eq hjobs hs hnone]
    generalize hw' : w.setService s (some { svc with
        spawnedList := svc.spawnedList.filter (·.iter ∉ svc.pendingCleanup)
        pendingCleanup := [], cleanupPosted := false }) = w'
    have htasks : ∀ s' t, t ∈ w'.tasks s' ↔ t ∈ w.tasks s' ∧ (s' = s → t.iter ∉ w.pending s) := by
      intro s' t
      rw [← hw', setService_tasks, Function.update_apply, pending_eq hs]
      split
      . rename_i heq
        rw [heq, tasks_eq hs]
        simp
      . rename_i hne
        simp [hne]
    have hpending : ∀ s', w'.pending s' = if s' = s then [] else w.pending s' := by
      intro s'
      rw [← hw', setService_pending, Function.update_apply]
      rfl
    have hposted : ∀ s', w'.posted s' = if s' = s then false else w.posted s' := by
      intro s'
      rw [← hw', setService_posted, Function.update_apply]
      rfl
    have hframes : w'.frames = w.frames := by rw [← hw']; rfl
    have hswept : ∀ s' g, (s', g) ∈ (w.pending s).map (s, ·) ↔ s' = s ∧ g ∈ w.pending s := by
      intro s' g
      simp [eq_comm, and_comm]
    have hspawned : ∀ s' g, w'.IsSpawned (erased ++ (w.pending s).map (s, ·)) s' g → w.IsSpawned erased s' g := by
      rintro s' g (⟨t, ht, rfl⟩ | hin)
      . exact .inl ⟨t, ((htasks s' t).mp ht).1, rfl⟩
      . rcases List.mem_append.mp hin with hin | hin
        . exact .inr hin
        . obtain ⟨rfl, hin⟩ := (hswept s' g).mp hin
          exact .inl ⟨_, (h.pending s' g hin).1, rfl⟩
    have hempty : w'.pending s = [] := (hpending s).trans (if_pos rfl)
    obtain ⟨hnodup, hwaits, hqueued⟩ := h.emptied hpending hposted
    refine ⟨?_, hempty⟩
    constructor
    . intro s' hs'
      change w'.services s' = none
      change w'.nextService ≤ s' at hs'
      rw [← hw'] at hs' ⊢
      exact h.setService_services hs _ hs'
    . intro g fr hg
      change w'.frames g = some fr at hg
      change g < w'.nextFrame
      rw [hframes] at hg
      rw [← hw']
      exact h.frame g fr hg
    . intro s' g hg
      change g < w'.nextFrame ∧ ∀ fr, w'.frames g = some fr → _
      rw [hframes, ← hw']
      exact h.spawned s' g (hspawned s' g hg)
    . intro s'
      change ((w'.tasks s').map _).Nodup
      rw [← hw', setService_tasks, Function.update_apply]
      split
      . have hnodup := h.nodup s
        rw [tasks_eq hs] at hnodup
        exact hnodup.sublist (List.filter_sublist.map _)
      . exact h.nodup s'
    . intro s' t ht
      change _ ∧ (∃ fr, w'.frames _ = some fr ∧ _) ∨ _ ∧ t.iter ∈ w'.pending s'
      rw [hframes, hpending]
      obtain ⟨ht, hkept⟩ := (htasks s' t).mp ht
      rcases h.task s' t ht with hlive | ⟨hhandle, hin⟩
      . exact .inl hlive
      . split
        . rename_i heq
          rw [heq] at hin
          exact absurd hin (hkept heq)
        . exact .inr ⟨hhandle, hin⟩
    . intro s' g hg
      change g ∈ w'.pending s' at hg
      change _ ∈ w'.tasks s' ∧ ∃ fr, w'.frames g = some fr ∧ _
      rw [hframes, htasks]
      rw [hpending] at hg
      split at hg
      . cases hg
      . rename_i hne
        obtain ⟨htask, hdone⟩ := h.pending s' g hg
        exact ⟨⟨htask, fun heq => absurd heq hne⟩, hdone⟩
    . exact hnodup
    . intro s' g fr hg hresume
      change w'.frames g = some fr at hg
      change if _ then g ∈ w'.pending s' ∨ _ else _ ∈ w'.tasks s'
      rw [hframes] at hg
      have hregistered := h.registered s' g fr hg hresume
      rw [hpending, htasks, List.mem_append, hswept]
      split
      . rename_i hdone
        rw [if_pos hdone] at hregistered
        rcases hregistered with hin | hin
        . by_cases heq : s' = s
          . rw [heq] at hin
            exact .inr (.inr ⟨heq, hin⟩)
          . rw [if_neg heq]
            exact .inl hin
        . exact .inr (.inl hin)
      . rename_i hdone
        rw [if_neg hdone] at hregistered
        refine ⟨hregistered, ?_⟩
        rintro rfl hin
        obtain ⟨_, fr', hfr', hdone'⟩ := h.pending s' g hin
        rw [hg] at hfr'
        cases hfr'
        exact hdone hdone'
    . rw [List.nodup_append]
      refine ⟨h.erasedNodup, List.Nodup.map (fun a b heq => (Prod.mk.inj heq).2) (h.pendingNodup s), ?_⟩
      rintro ⟨s', g⟩ hleft _ hright rfl
      obtain ⟨rfl, hin⟩ := (hswept s' g).mp hright
      exact h.erasedNot s' _ (h.pending s' g hin).1 hleft
    . intro s' t ht hin
      obtain ⟨ht, hkept⟩ := (htasks s' t).mp ht
      rcases List.mem_append.mp hin with hin | hin
      . exact h.erasedNot s' t ht hin
      . obtain ⟨heq, hin⟩ := (hswept s' t.iter).mp hin
        exact hkept heq hin
    . exact hwaits
    . intro s' hin
      obtain ⟨hne, hold⟩ := hqueued s' hin
      rw [hjobs, List.mem_cons] at hold
      exact hold.resolve_left hne

theorem Booked.destruct (h : Booked w erased)
    : Booked (w.destruct s) (erased ++ (w.tasks s).map fun t => (s, t.iter)) := by
  unfold Frames.destruct
  cases hs : w.services s with
  | none =>
    have htasks : w.tasks s = [] := by simp [tasks, hs]
    rw [htasks, List.map_nil, List.append_nil]
    exact h
  | some svc =>
    have hclear := h.clear hs
    have htasks : (w.clearSpawned s).tasks s = [] := by
      rw [clearSpawned_eq hs, (foldl_destroyFrame_idle _ _).tasks, setService_tasks, Function.update_self]
      rfl
    have hpending : (w.clearSpawned s).pending s = [] := by
      rw [clearSpawned_eq hs, (foldl_destroyFrame_idle _ _).pending, setService_pending, Function.update_self]
      rfl
    have hposted : (w.clearSpawned s).posted s = false := by
      rw [clearSpawned_eq hs, (foldl_destroyFrame_idle _ _).posted, setService_posted, Function.update_self]
      rfl
    generalize w.clearSpawned s = w' at hclear htasks hpending hposted
    refine hclear.idle ⟨?_, ?_, ?_, rfl, rfl, rfl, ?_⟩ rfl
    . change (w'.setService s none).tasks = _
      rw [setService_tasks]
      exact Function.update_eq_self_iff.mpr htasks.symm
    . change (w'.setService s none).pending = _
      rw [setService_pending]
      exact Function.update_eq_self_iff.mpr hpending.symm
    . change (w'.setService s none).posted = _
      rw [setService_posted]
      exact Function.update_eq_self_iff.mpr hposted.symm
    . intro s' hs'
      simp only [setService, Function.update_apply]
      split
      . rfl
      . exact hs'

theorem Booked.step (h : Booked w erased) (st : Step)
    : Booked (w.step st) (erased ++ w.erases st) := by
  have hnil : ∀ w', Booked w' erased → w.erases st = [] → Booked w' (erased ++ w.erases st) := by
    intro w' hw' heq
    rw [heq, List.append_nil]
    exact hw'
  cases st with
  | construct blockSize capacity mem => exact hnil _ h.construct rfl
  | destruct s => exact h.destruct
  | setCurrent s =>
    refine hnil _ ?_ rfl
    simp only [Frames.step, setCurrent]
    split
    . exact h
    . exact h.idle ⟨rfl, rfl, rfl, rfl, rfl, rfl, fun _ => id⟩ rfl
  | clearCurrent => exact hnil _ (h.idle ⟨rfl, rfl, rfl, rfl, rfl, rfl, fun _ => id⟩ rfl) rfl
  | create sz addr =>
    refine hnil _ ?_ rfl
    rcases createFrame_cases w sz addr with heq | ⟨s, svc, ptr, p, -, hs, -, -, -, heq⟩ | ⟨-, -, heq⟩
      <;> simp only [Frames.step, heq]
    . exact h
    . have hpool := h.idle (setPool_idle (p := p) hs) rfl
      exact hpool.newFrame _ rfl
    . exact h.newFrame _ rfl
  | destroy f =>
    refine hnil _ ?_ rfl
    rcases destroyTask_cases w f with ⟨heq, -⟩ | ⟨fr, hf, hnone, -, heq, -⟩ <;> simp only [Frames.step, heq]
    . exact h
    . exact h.destroy hf hnone
  | resume f =>
    refine hnil _ ?_ rfl
    simp only [Frames.step, resume]
    split
    . rename_i fr hf
      split
      . rename_i hstatus
        exact h.setStatus hf (by simp [hstatus]) (by simp)
      . exact h
    . exact h
  | suspend f =>
    refine hnil _ ?_ rfl
    simp only [Frames.step, suspend]
    split
    . rename_i fr hf
      split
      . rename_i hstatus
        exact h.setStatus hf (by simp [hstatus]) (by simp)
      . exact h
    . exact h
  | finish f =>
    refine hnil _ ?_ rfl
    simp only [Frames.step, finish]
    split
    . exact h
    . rename_i fr hf
      split
      . rename_i hstatus
        split
        . rename_i hnone
          refine h.unspawned (fun s => h.none_spawned (s := s) hf hnone) ?_
          rintro _ ⟨⟩
          exact ⟨hnone, h.frame f fr hf⟩
        . rename_i s hresume
          -- the service is there as long as the coroutine has not finished
          have hregistered := h.registered s f fr hf hresume
          rw [if_neg (by simp [hstatus])] at hregistered
          cases hs : w.services s with
          | none => simp [tasks, hs] at hregistered
          | some svc => exact h.complete hs hf hresume (by simp [hstatus])
      . exact h
  | spawn s f =>
    refine hnil _ ?_ rfl
    rcases spawn_cases w s f with ⟨heq, -⟩ | ⟨fr, hf, hnone, -, heq, -⟩ | ⟨svc, fr, hs, hf, hnone, hstatus, -, heq⟩
      <;> simp only [Frames.step, heq]
    . exact h
    . exact h.destroy hf hnone
    . exact h.push hs hf hnone (by simp [hstatus])
  | clearSpawned s =>
    cases hs : w.services s with
    | none =>
      refine hnil _ ?_ (by simp [erases, tasks, hs])
      simp only [Frames.step, clearSpawned, hs]
      exact h
    | some svc => exact h.clear hs
  | runJob =>
    cases hjobs : w.jobs with
    | nil =>
      refine hnil _ ?_ (by simp [erases, hjobs])
      simp only [Frames.step, runJob, hjobs]
      exact h
    | cons s jobs =>
      have hsweep := (h.sweep hjobs).1
      simp only [erases, hjobs]
      exact hsweep

theorem Booked.run (h : Booked w erased) (steps : List Step)
    : Booked (w.run steps) (erased ++ w.erasedBy steps) := by
  induction steps generalizing w erased with
  | nil =>
    rw [erasedBy, List.append_nil]
    exact h
  | cons st steps ih =>
    rw [erasedBy, ← List.append_assoc]
    exact ih (h.step st)

theorem Booked.erasesSafely (h : Booked w erased) {st : Step} (hst : w.Outside st)
    : w.ErasesSafely st := by
  have hdrop : ∀ s, (∀ f < w.nextFrame, ∀ fr ∈ w.frames f, fr.onFinalResume = some s → fr.status ≠ .running)
      → ∀ e ∈ (w.tasks s).map (fun t => (s, t.iter)),
        (∃ t ∈ w.tasks e.1, t.iter = e.2) ∧ ∀ fr ∈ w.frames e.2, fr.status ≠ .running := by
    intro s houtside e he
    obtain ⟨t, ht, rfl⟩ := List.mem_map.mp he
    obtain ⟨hlt, hresume⟩ := h.spawned s t.iter (.inl ⟨t, ht, rfl⟩)
    exact ⟨⟨t, ht, rfl⟩, fun fr hfr => houtside _ hlt fr hfr (hresume fr hfr)⟩
  cases st with
  | destruct s => exact hdrop s hst
  | clearSpawned s => exact hdrop s hst
  | runJob =>
    intro e he
    simp only [erases] at he
    split at he
    . cases he
    . rename_i s jobs hjobs
      obtain ⟨f, hf, rfl⟩ := List.mem_map.mp he
      obtain ⟨htask, fr, hfr, hdone⟩ := h.pending s f hf
      refine ⟨⟨_, htask, rfl⟩, ?_⟩
      intro fr' hfr' hrunning
      rw [hfr] at hfr'
      cases hfr'
      rw [hdone] at hrunning
      cases hrunning
  | _ =>
    intro e he
    cases he

-- `erased` are the elements that have been erased from the lists so far.
structure Swept (w : Frames) (erased : List (Nat × Nat)) : Prop where
  pending : ∀ s, (w.pending s).Nodup ∧ ∀ f ∈ w.pending s, ∃ t ∈ w.tasks s, t.iter = f
  once : ∀ s f fr, w.frames f = some fr → fr.onFinalResume = some s → fr.status = .done
    → erased.count (s, f) + (w.pending s).count f = 1
  atMostOnce : ∀ e, erased.count e ≤ 1
  queued : ∀ s, w.pending s ≠ [] → s ∈ w.jobs
  -- nothing waits after the job
  job : ∀ s jobs, w.jobs = s :: jobs → (w.step .runJob).pending s = []

theorem Booked.swept (h : Booked w erased) : Swept w erased := by
  constructor
  . exact fun s => ⟨h.pendingNodup s, fun f hf => ⟨_, (h.pending s f hf).1, rfl⟩⟩
  . intro s f fr hf hresume hdone
    have hregistered := h.registered s f fr hf hresume
    rw [if_pos hdone] at hregistered
    rcases hregistered with hin | hin
    . have hnot : (s, f) ∉ erased := h.erasedNot s _ (h.pending s f hin).1
      rw [List.count_eq_zero_of_not_mem hnot, List.count_eq_one_of_mem (h.pendingNodup s) hin]
    . have hnot : f ∉ w.pending s := fun hpending => h.erasedNot s _ (h.pending s f hpending).1 hin
      rw [List.count_eq_zero_of_not_mem hnot, List.count_eq_one_of_mem h.erasedNodup hin]
  . exact fun e => List.nodup_iff_count_le_one.mp h.erasedNodup e
  . exact fun s hne => h.queued s (h.posted s hne)
  . exact fun s jobs hjobs => (h.sweep hjobs).2

theorem Booked.along (h : Booked w erased) {steps : List Step} (hsteps : Along Frames.step Outside w steps)
    : Along Frames.step ErasesSafely w steps := by
  apply hsteps.of_invariant (I := fun w => ∃ erased, Booked w erased)
  . rintro w st ⟨erased, h⟩ hst
    exact h.erasesSafely hst
  . rintro w st ⟨erased, h⟩ _
    exact ⟨_, h.step st⟩
  . exact ⟨erased, h⟩

theorem run_swept (steps : List Step) (hsteps : Along step Outside {} steps)
    : Swept (run {} steps) (erasedBy {} steps) ∧ Along step ErasesSafely {} steps := by
  have hrun := init_booked.run steps
  rw [List.nil_append] at hrun
  exact ⟨hrun.swept, init_booked.along hsteps⟩

-- A coroutine spawns another one and both finish, the tasks are cleared before the job for them runs.
def clearedBeforeJob : List Step :=
  [.construct 64 4 4096, .create 32 100000, .spawn 0 0, .resume 0, .create 32 200000, .spawn 0 1, .resume 1, .finish 1,
    .finish 0, .clearSpawned 0, .create 32 300000, .spawn 0 2, .resume 2, .finish 2, .runJob, .runJob]

theorem clearedBeforeJob_swept
    : Swept (run {} clearedBeforeJob) (erasedBy {} clearedBeforeJob) ∧ Along step ErasesSafely {} clearedBeforeJob :=
  run_swept clearedBeforeJob (by decide +kernel)

end Frames

end Coroutine
end Ezio
