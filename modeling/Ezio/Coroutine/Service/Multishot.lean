import Ezio.Coroutine.Service.Await

/-!
This module contains the arrivals of a multishot accept or read, whose callback stays in its slot after the
`co_await` that it was made for.
-/

namespace Ezio
namespace Coroutine

-- The entry is of a completion from one of the sources `S`.
def Entry.From (S : Source → Prop) : Entry → Prop
  | completed src _ _ _ | useAfterFree src _ => S src
  | _ => True

-- An arrival goes to the coroutine that is suspended on the awaiter that the callback was made for.
def Entry.Obtained : Entry → Prop
  | completed (.request _ true) a o r => ∃ c, r = some ⟨c, a, some o⟩
  | useAfterFree (.request _ true) _ => False
  | _ => True

theorem Entry.From.obtained {S : Source → Prop} {e : Entry} (h : e.From S) (hS : ∀ own, ¬S (.request own true))
    : e.Obtained := by
  cases e with
  | completed src a o r =>
    cases src with
    | inline => exact trivial
    | request own multishot =>
      cases multishot with
      | true => exact absurd h (hS own)
      | false => exact trivial
  | useAfterFree src a =>
    cases src with
    | inline => exact trivial
    | request own multishot =>
      cases multishot with
      | true => exact absurd h (hS own)
      | false => exact trivial
  | returned c a o => exact trivial
  | suspended c a => exact trivial
  | badResume c => exact trivial

namespace World

variable {w w' : World} {a c : Nat} {b : StateBlock} {S : Source → Prop} {T : Nat → Prop}

def Logs (S : Source → Prop) (w w' : World) : Prop :=
  ∃ es, w'.log = w.log ++ es ∧ ∀ e ∈ es, e.From S

theorem Logs.of_eq (h : w'.log = w.log)
    : Logs S w w' :=
  ⟨[], by simp [h], by simp⟩

theorem complete_logs {src : Source} {x : Completion} (hsrc : S src)
    : Logs S w (w.complete src a x) := by
  cases hb : w.blocks a with
  | none =>
    rw [complete_none hb]
    exact ⟨[.useAfterFree src a], rfl, by simpa [Entry.From] using hsrc⟩
  | some b =>
    rcases complete_cases hb with ⟨-, heq⟩ | ⟨c, coro, on, -, -, -, heq⟩ | ⟨c, -, -, heq⟩
    . rw [heq]
      exact ⟨_, rfl, by simpa [Entry.From] using hsrc⟩
    . rw [heq]
      exact ⟨_, rfl, by simpa [Entry.From] using hsrc⟩
    . rw [heq]
      refine ⟨[_, .badResume c], List.append_assoc _ _ _, ?_⟩
      simpa [Entry.From] using hsrc

theorem drop_log (w : World) (c a : Nat)
    : (w.drop c a).log = w.log := by
  unfold drop
  split
  . split <;> rfl
  . rfl

theorem Prim.logs (hprim : Prim S T w w')
    : Logs S w w' := by
  cases hprim with
  | keep _ _ _ _ _ _ _ hlog => exact .of_eq hlog
  | @submit slot cb multishot sub _ _ _ => cases sub <;> exact .of_eq rfl
  | disable => exact .of_eq rfl
  | erase => exact .of_eq rfl
  | newBlock _ => exact .of_eq rfl
  | complete hsrc => exact complete_logs hsrc
  | @await c a =>
    rcases await_cases w c a with heq | ⟨coro, b, -, -, -, -, -, ⟨-, heq⟩ | ⟨-, heq⟩⟩
    . rw [heq]
      exact .of_eq rfl
    . rw [heq]
      exact ⟨_, rfl, by simp [Entry.From]⟩
    . rw [heq]
      exact ⟨_, rfl, by simp [Entry.From]⟩
  | @drop c a => exact .of_eq (drop_log w c a)
  | @finish c =>
    unfold World.finish
    split <;> exact .of_eq rfl
  | clearSpawned =>
    unfold World.clearSpawned
    split <;> exact .of_eq rfl
  | start => exact .of_eq rfl

theorem Prims.logs (h : Prims S T w w')
    : Logs S w w' := by
  apply h.invariant (I := Logs S w)
  . rintro w₁ w₂ hprim ⟨es, hes, hfrom⟩
    obtain ⟨es', hes', hfrom'⟩ := hprim.logs
    refine ⟨es ++ es', by rw [hes', hes, List.append_assoc], ?_⟩
    intro e he
    rcases List.mem_append.mp he with he | he
    . exact hfrom e he
    . exact hfrom' e he
  . exact .of_eq rfl

-- Every request has a callback in its slot.
structure Routed (w : World) : Prop where
  slot : ∀ r ∈ w.requests, ∃ cb, w.slots r.slot = some cb
  fits : ∀ slot cb, w.slots slot = some cb → Callback.Fits slot cb
  multishot : ∀ r ∈ w.requests, r.multishot → ∃ fd, r.slot = .read fd

theorem Routed.congr (h : w.Routed) (hslots : w'.slots = w.slots)
    (hrequests : ∀ r ∈ w'.requests, r ∈ w.requests)
    : w'.Routed := by
  constructor
  . intro r hr
    rw [hslots]
    exact h.slot r (hrequests r hr)
  . rw [hslots]
    exact h.fits
  . exact fun r hr => h.multishot r (hrequests r hr)

theorem Routed.setSlot {slot : Slot} {cb : Callback} (h : w.Routed) (hfits : Callback.Fits slot cb)
    : (w.setSlot slot (some cb)).Routed := by
  constructor
  . intro r hr
    simp only [World.setSlot, Function.update_apply]
    split
    . exact ⟨cb, rfl⟩
    . exact h.slot r hr
  . intro slot' cb' hcb'
    simp only [World.setSlot, Function.update_apply] at hcb'
    split at hcb'
    . rename_i heq
      cases hcb'
      rw [heq]
      exact hfits
    . exact h.fits slot' cb' hcb'
  . exact h.multishot

theorem Routed.submit {slot : Slot} {cb : Callback} {multishot : Bool} {sub : Submit} (h : w.Routed)
    (hfits : Callback.Fits slot cb) (hmultishot : multishot → ∃ fd, slot = .read fd)
    : (w.submit slot cb multishot sub).Routed := by
  have hset := h.setSlot hfits
  have hadd : Routed { w.setSlot slot (some cb) with
      requests := w.requests ++ [{ slot, awaiter := cb.target, multishot }] } := by
    constructor
    . intro r hr
      rcases List.mem_append.mp hr with hr | hr
      . exact hset.slot r hr
      . rw [List.mem_singleton.mp hr]
        exact ⟨cb, Function.update_self ..⟩
    . exact hset.fits
    . intro r hr hm
      rcases List.mem_append.mp hr with hr | hr
      . exact h.multishot r hr hm
      . rw [List.mem_singleton.mp hr] at hm ⊢
        exact hmultishot hm
  cases sub with
  | accepted => exact hadd
  | left => exact hadd
  | stored => exact hset
  | refused => exact h

theorem Routed.disable {slot : Slot} (h : w.Routed)
    : (w.disable slot).Routed := by
  constructor
  . intro r hr
    simp only [World.disable, List.mem_filter, decide_eq_true_eq] at hr
    simp only [World.disable, World.setSlot, Function.update_of_ne hr.2]
    exact h.slot r hr.1
  . intro slot' cb' hcb'
    simp only [World.disable, World.setSlot, Function.update_apply] at hcb'
    split at hcb'
    . cases hcb'
    . exact h.fits slot' cb' hcb'
  . intro r hr
    simp only [World.disable, List.mem_filter] at hr
    exact h.multishot r hr.1

theorem complete_slots (w : World) (src : Source) (a : Nat) (x : Completion)
    : (w.complete src a x).slots = w.slots ∧ (w.complete src a x).requests = w.requests := by
  cases hb : w.blocks a with
  | none =>
    rw [complete_none hb]
    exact ⟨rfl, rfl⟩
  | some b =>
    rcases complete_cases hb with ⟨-, heq⟩ | ⟨c, coro, on, -, -, -, heq⟩ | ⟨c, -, -, heq⟩ <;> rw [heq]
      <;> exact ⟨rfl, rfl⟩

theorem Prim.routed (hprim : Prim S T w w') (h : w.Routed)
    : w'.Routed := by
  have hsame : ∀ w' : World, w'.slots = w.slots → w'.requests = w.requests → w'.Routed := by
    intro w' hslots hrequests
    apply h.congr hslots
    rw [hrequests]
    exact fun _ hr => hr
  cases hprim with
  | keep _ _ _ _ _ hslots hrequests _ => exact hsame _ hslots hrequests
  | submit hfits hmultishot _ => exact h.submit hfits hmultishot
  | disable => exact h.disable
  | erase => exact h.congr rfl fun r hr => List.mem_of_mem_eraseIdx hr
  | newBlock _ => exact hsame _ rfl rfl
  | @complete src a x _ => exact hsame _ (complete_slots w src a x).1 (complete_slots w src a x).2
  | @await c a =>
    rcases await_cases w c a with heq | ⟨coro, b, -, -, -, -, -, ⟨-, heq⟩ | ⟨-, heq⟩⟩ <;> rw [heq]
      <;> exact hsame _ rfl rfl
  | drop =>
    unfold World.drop
    split
    . split <;> exact hsame _ rfl rfl
    . exact h
  | finish =>
    unfold World.finish
    split <;> exact hsame _ rfl rfl
  | clearSpawned =>
    unfold World.clearSpawned
    split <;> exact hsame _ rfl rfl
  | start => exact hsame _ rfl rfl

-- The completion of a multishot request finds a coroutine suspended on the awaiter of the callback in its
-- slot.
def Awaited (w : World) : Step → Prop
  | .complete i _ _ => ∀ r, w.requests[i]? = some r → r.multishot → w.cancels = []
    → ∃ cb, w.slots r.slot = some cb
      ∧ ∃ c coro, w.coros c = some coro ∧ coro.status = .suspended cb.target
  | _ => True

def ArrivalsObtained (w : World) : Prop :=
  ∀ e ∈ w.log, e.Obtained

theorem Logs.arrivalsObtained (h : Logs S w w') (hS : ∀ own, ¬S (.request own true))
    : w'.ArrivalsObtained ↔ w.ArrivalsObtained := by
  obtain ⟨es, hes, hfrom⟩ := h
  simp only [ArrivalsObtained, hes, List.mem_append]
  constructor
  . exact fun hall e he => hall e (.inl he)
  . rintro hall e (he | he)
    . exact hall e he
    . exact Entry.From.obtained (hfrom e he) hS

-- What an arrival for the awaiter `a` leaves in the log.
theorem complete_arrival_iff {own : Nat} {x : Completion} (hwf : w.Wf)
    : (w.complete (.request own true) a x).ArrivalsObtained
        ↔ w.ArrivalsObtained ∧ ∃ c coro, w.coros c = some coro ∧ coro.status = .suspended a := by
  have hadd : ∀ (w : World) e, (w.addLog e).ArrivalsObtained ↔ w.ArrivalsObtained ∧ e.Obtained := by
    intro w e
    simp only [ArrivalsObtained, addLog, List.mem_append, List.mem_singleton]
    constructor
    . exact fun hall => ⟨fun e' he' => hall e' (.inl he'), hall e (.inr rfl)⟩
    . rintro ⟨hall, he⟩ e' (he' | rfl)
      . exact hall e' he'
      . exact he
  cases hb : w.blocks a with
  | none =>
    rw [complete_none hb, hadd]
    simp only [Entry.Obtained, and_false, false_iff, not_and, not_exists]
    intro _ c coro hc hstatus
    obtain ⟨b, hb', -, -⟩ := hwf.suspended c coro a hc hstatus
    rw [hb] at hb'
    cases hb'
  | some b =>
    -- only the owner of the awaiter can be suspended on it
    have howner : ∀ c coro, w.coros c = some coro → coro.status = .suspended a → b.handle = some c := by
      intro c coro hc hstatus
      obtain ⟨b', hb', -, hhandle⟩ := hwf.suspended c coro a hc hstatus
      rw [hb, Option.some.injEq] at hb'
      rw [hb']
      exact hhandle
    rcases complete_cases hb with ⟨hnone, heq⟩ | ⟨c, coro, on, hhandle, hcoro, hstatus, heq⟩
      | ⟨c, hhandle, hnot, heq⟩
    . rw [heq, hadd]
      apply and_congr_right
      intro _
      simp only [Entry.Obtained, reduceCtorEq, exists_false, false_iff, not_exists, not_and]
      intro c coro hc hstatus
      rw [howner c coro hc hstatus] at hnone
      cases hnone
    . rw [heq, hadd]
      change w.ArrivalsObtained ∧ _ ↔ _
      apply and_congr_right
      intro _
      simp only [Entry.Obtained, Option.some.injEq, Resumption.mk.injEq]
      constructor
      . rintro ⟨c', rfl, rfl, -⟩
        exact ⟨c, coro, hcoro, hstatus⟩
      . rintro ⟨c', coro', hc', hstatus'⟩
        have heq' := howner c' coro' hc' hstatus'
        rw [hhandle, Option.some.injEq] at heq'
        subst heq'
        rw [hcoro, Option.some.injEq] at hc'
        subst hc'
        rw [hstatus, CoroStatus.suspended.injEq] at hstatus'
        subst hstatus'
        exact ⟨c, rfl, rfl, by simp [setBlock, StateBlock.complete]⟩
    . rw [heq, hadd, hadd]
      change (w.ArrivalsObtained ∧ _) ∧ _ ↔ _
      rw [and_assoc]
      apply and_congr_right
      intro _
      simp only [Entry.Obtained, reduceCtorEq, exists_false, and_true, false_iff, not_exists, not_and]
      intro c' coro' hc' hstatus'
      have heq' := howner c' coro' hc' hstatus'
      rw [hhandle, Option.some.injEq] at heq'
      subst heq'
      exact hnot coro' a hc' hstatus'

theorem step_arrivals_iff (hwf : w.Wf) (hrouted : w.Routed) (st : Step)
    : (w.step st).ArrivalsObtained ↔ w.ArrivalsObtained ∧ w.Awaited st := by
  have hother : (∀ own, ¬w.sources st (.request own true)) → w.Awaited st
      → ((w.step st).ArrivalsObtained ↔ w.ArrivalsObtained ∧ w.Awaited st) := by
    intro hS hawaited
    rw [(step_prims w st).logs.arrivalsObtained hS]
    exact ⟨fun h => ⟨h, hawaited⟩, fun h => h.1⟩
  cases st with
  | complete i x more =>
    cases hr : w.requests[i]? with
    | none =>
      apply hother
      . simp [sources, hr]
      . intro r hr'
        rw [hr] at hr'
        cases hr'
    | some r =>
      by_cases hgo : r.multishot ∧ w.cancels = []
      . obtain ⟨hm, hcancels⟩ := hgo
        have hmem := List.mem_of_getElem? hr
        obtain ⟨cb, hcb⟩ := hrouted.slot r hmem
        obtain ⟨fd, hslot⟩ := hrouted.multishot r hmem hm
        have hfits := hrouted.fits r.slot cb hcb
        have hawaited : w.Awaited (.complete i x more)
            ↔ ∃ c coro, w.coros c = some coro ∧ coro.status = .suspended cb.target := by
          constructor
          . intro h
            obtain ⟨cb', hcb', hc⟩ := h r hr hm hcancels
            rw [hcb, Option.some.injEq] at hcb'
            rw [hcb']
            exact hc
          . intro h r' hr' _ _
            rw [hr, Option.some.injEq] at hr'
            rw [← hr']
            exact ⟨cb, hcb, h⟩
        rw [hawaited]
        -- the request may go, which the awaiters do not see
        have herase : ∃ w₁ : World, w.completeRequest i x more = w₁.invoke (.request r.awaiter true) cb x
            ∧ w₁.coros = w.coros ∧ w₁.log = w.log ∧ w₁.Wf := by
          rw [completeRequest_eq hr hcancels hcb, hm]
          exact ⟨_, rfl, rfl, rfl, hwf.congr rfl rfl rfl rfl⟩
        obtain ⟨w₁, hinvoke, hcoros, hlog, hwf₁⟩ := herase
        have hobtained : w₁.ArrivalsObtained ↔ w.ArrivalsObtained := by
          simp only [ArrivalsObtained, hlog]
        simp only [step, hinvoke]
        cases cb with
        | read fd' a =>
          have hreset := (resetRead_prims (S := fun _ => False) (T := fun _ => False) (w := w₁) fd')
          have hcoros' : (w₁.resetRead fd').coros = w₁.coros := by
            unfold resetRead
            split <;> rfl
          simp only [invoke]
          rw [complete_arrival_iff (hreset.invariant (fun _ _ hp => hp.wf) hwf₁),
            hreset.logs.arrivalsObtained (fun _ h => h), hobtained, hcoros', hcoros]
          rfl
        | awaiter a =>
          simp only [invoke]
          rw [complete_arrival_iff hwf₁, hobtained, hcoros]
          rfl
        | cancelRead fd' a =>
          rw [hslot] at hfits
          cases hfits
      . have hawaited : w.Awaited (.complete i x more) := by
          intro r' hr' hm hcancels
          rw [hr, Option.some.injEq] at hr'
          rw [← hr'] at hm
          exact absurd ⟨hm, hcancels⟩ hgo
        by_cases hcancels : w.cancels = []
        . apply hother _ hawaited
          rintro own ⟨r', hr', heq⟩
          rw [hr, Option.some.injEq] at hr'
          rw [← hr'] at heq
          simp only [Source.request.injEq] at heq
          exact hgo ⟨heq.2.symm, hcancels⟩
        . have hnot : w.step (.complete i x more) = w := by
            simp only [step, completeRequest, hr, if_neg hcancels]
          rw [hnot]
          exact ⟨fun h => ⟨h, hawaited⟩, fun h => h.1⟩
  | _ => exact hother (by simp [sources]) trivial

theorem arrivals_obtained_iff (backend : Backend) (steps : List Step)
    : (run { backend } steps).ArrivalsObtained ↔ Along step Awaited { backend } steps := by
  apply Along.foldl_iff (I := fun w => w.Wf ∧ w.Routed)
  . exact fun w st _ h => step_arrivals_iff h.1 h.2 st
  . intro w st _ h _
    exact ⟨step_wf h.1 st, (step_prims w st).invariant (fun _ _ hp => hp.routed) h.2⟩
  . intro w st h e he
    obtain ⟨es, hes, -⟩ := (step_prims w st).logs
    apply h e
    rw [hes]
    exact List.mem_append_left es he
  . refine ⟨init_wf backend, ?_⟩
    constructor <;> intros <;> simp_all
  . intro e he
    cases he

-- A coroutine accepts a connection and is writing to it when the next connection arrives.
def secondArrival : List Step :=
  [.start true, .call 0 (.accept 3) .accepted, .await 0 0, .complete 0 { ret := 7, info := some 70 } true,
    .call 0 (.write 7) .accepted, .await 0 1, .complete 0 { ret := 8, info := some 80 } true]

theorem secondArrival_not_obtained
    : ¬(run { backend := .epoll } secondArrival).ArrivalsObtained
      ∧ (run { backend := .epoll } secondArrival).log.getLast?
        = some (.completed (.request 0 true) 0 (.accept 8 (some 80)) (some ⟨0, 1, some (.result 0)⟩)) := by
  refine ⟨?_, by decide +kernel⟩
  intro h
  have hmem : .completed (.request 0 true) 0 (.accept 8 (some 80)) (some ⟨0, 1, some (.result 0)⟩)
      ∈ (run { backend := .epoll } secondArrival).log := by
    decide +kernel
  obtain ⟨c, hc⟩ := h _ hmem
  simp at hc

end World

end Coroutine
end Ezio
