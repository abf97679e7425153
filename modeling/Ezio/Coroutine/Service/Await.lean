import Ezio.Coroutine.Service.Lemmas

/-!
This module contains what a coroutine obtains from `co_await`, depending on whether the completion of the
awaitable comes before or after it.
-/

namespace Ezio
namespace Coroutine

def Entry.outcomeOf (a : Nat) : Entry → Option Outcome
  | completed _ a' o _ => if a' = a then some o else none
  | _ => none

namespace World

variable {w w' : World} {a c : Nat} {b : StateBlock} {S : Source → Prop} {T : Nat → Prop}

-- The results that the awaiter `a` was completed with.
def completions (w : World) (a : Nat) : List Outcome :=
  w.log.filterMap (Entry.outcomeOf a)

theorem completions_addLog (w : World) (e : Entry) (a : Nat)
    : (w.addLog e).completions a = w.completions a ++ (e.outcomeOf a).toList := by
  simp only [completions, addLog, List.filterMap_append]
  cases h : e.outcomeOf a <;> simp [h]

-- A state block holds what its awaiter was completed with last.
structure Recorded (w : World) : Prop where
  result : ∀ a b, w.blocks a = some b → b.result = (w.completions a).getLast?.getD b.kind.initial
  ready : ∀ a b, w.blocks a = some b → b.kind = .result → (b.ready = true ↔ w.completions a ≠ [])
  fresh : ∀ a, w.nextBlock ≤ a → w.completions a = []

theorem Recorded.congr (h : w.Recorded)
    (hblocks : ∀ a b, w'.blocks a = some b → ∃ b₀, w.blocks a = some b₀ ∧ b.kind = b₀.kind
      ∧ b.ready = b₀.ready ∧ b.result = b₀.result)
    (hnext : w'.nextBlock = w.nextBlock) (hlog : ∀ a, w'.completions a = w.completions a)
    : w'.Recorded := by
  constructor
  . intro a b hb
    obtain ⟨b₀, hb₀, hkind, -, hresult⟩ := hblocks a b hb
    rw [hresult, hkind, hlog]
    exact h.result a b₀ hb₀
  . intro a b hb hk
    obtain ⟨b₀, hb₀, hkind, hready, -⟩ := hblocks a b hb
    rw [hready, hlog]
    exact h.ready a b₀ hb₀ (hkind ▸ hk)
  . intro a ha
    rw [hlog]
    exact h.fresh a (by omega)

theorem Recorded.newBlock {kind : Kind} (h : w.Recorded)
    : (w.newBlock c kind).Recorded := by
  have hlog : ∀ a, (w.newBlock c kind).completions a = w.completions a := fun _ => rfl
  constructor
  . intro a b hb
    rw [hlog]
    simp only [World.newBlock, setBlock, Function.update_apply] at hb
    split at hb
    . rename_i heq
      cases hb
      rw [heq, h.fresh w.nextBlock (Nat.le_refl _)]
      rfl
    . exact h.result a b hb
  . intro a b hb hk
    rw [hlog]
    simp only [World.newBlock, setBlock, Function.update_apply] at hb
    split at hb
    . rename_i heq
      cases hb
      rw [heq, h.fresh w.nextBlock (Nat.le_refl _)]
      simp
    . exact h.ready a b hb hk
  . intro a ha
    rw [hlog]
    simp only [World.newBlock] at ha
    exact h.fresh a (by omega)

-- The block `a` is completed and the log tells it.
theorem Recorded.completed {x : Completion} (h : w.Recorded) (hlt : a < w.nextBlock)
    (hblocks : w'.blocks = Function.update w.blocks a (some (b.complete x)))
    (hnext : w'.nextBlock = w.nextBlock)
    (hlog : ∀ a', w'.completions a'
      = w.completions a' ++ if a = a' then [b.kind.outcome x] else [])
    : w'.Recorded := by
  constructor
  . intro a' b' hb'
    rw [hblocks, Function.update_apply] at hb'
    split at hb'
    . rename_i heq
      cases hb'
      simp [hlog, heq, StateBlock.complete]
    . rename_i hne
      rw [hlog, if_neg (Ne.symm hne), List.append_nil]
      exact h.result a' b' hb'
  . intro a' b' hb' hk
    rw [hblocks, Function.update_apply] at hb'
    split at hb'
    . rename_i heq
      cases hb'
      have hkind : b.kind = .result := hk
      simp [hlog, heq, StateBlock.complete, hkind]
    . rename_i hne
      rw [hlog, if_neg (Ne.symm hne), List.append_nil]
      exact h.ready a' b' hb' hk
  . intro a' ha'
    rw [hlog, if_neg (by omega), List.append_nil]
    exact h.fresh a' (by omega)

theorem Prim.recorded (hprim : Prim S T w w') (hwf : w.Wf) (h : w.Recorded)
    : w'.Recorded := by
  cases hprim with
  | @submit slot cb multishot sub _ _ _ =>
    cases sub <;> exact h.congr (fun a b hb => ⟨b, hb, rfl, rfl, rfl⟩) rfl fun _ => rfl
  | disable => exact h.congr (fun a b hb => ⟨b, hb, rfl, rfl, rfl⟩) rfl fun _ => rfl
  | erase => exact h.congr (fun a b hb => ⟨b, hb, rfl, rfl, rfl⟩) rfl fun _ => rfl
  | keep _ _ hblocks _ hblock _ _ hlog =>
    apply h.congr ?_ hblock
    . intro a
      simp only [completions, hlog]
    . rw [hblocks]
      exact fun a b hb => ⟨b, hb, rfl, rfl, rfl⟩
  | newBlock _ => exact h.newBlock
  | @complete src a x _ =>
    cases hb : w.blocks a with
    | none =>
      rw [complete_none hb]
      refine h.congr (fun a b hb => ⟨b, hb, rfl, rfl, rfl⟩) rfl ?_
      intro a'
      simp [completions_addLog, Entry.outcomeOf]
    | some b =>
      have hlt := hwf.blockLt a b hb
      rcases complete_cases hb with ⟨-, heq⟩ | ⟨c, coro, on, -, -, -, heq⟩ | ⟨c, -, -, heq⟩
      . rw [heq]
        refine h.completed hlt rfl rfl ?_
        intro a'
        rw [completions_addLog, Entry.outcomeOf]
        split <;> rfl
      . rw [heq]
        refine h.completed hlt rfl rfl ?_
        intro a'
        rw [completions_addLog, Entry.outcomeOf]
        split <;> rfl
      . rw [heq]
        refine h.completed hlt rfl rfl ?_
        intro a'
        simp only [completions_addLog, Entry.outcomeOf, Option.toList_none, List.append_nil]
        split <;> rfl
  | @await c a =>
    rcases await_cases w c a with heq | ⟨coro, b, -, -, hb, -, -, ⟨-, heq⟩ | ⟨-, heq⟩⟩
    . rw [heq]
      exact h
    . rw [heq]
      refine h.congr (fun a b hb => ⟨b, hb, rfl, rfl, rfl⟩) rfl ?_
      intro a'
      simp [completions_addLog, Entry.outcomeOf]
    . rw [heq]
      refine h.congr ?_ rfl ?_
      . intro a' b' hb'
        simp only [addLog, setCoro, setBlock, Function.update_apply] at hb'
        split at hb'
        . rename_i heq'
          cases hb'
          rw [heq']
          exact ⟨b, hb, rfl, rfl, rfl⟩
        . exact ⟨b', hb', rfl, rfl, rfl⟩
      . intro a'
        rw [completions_addLog]
        simp only [Entry.outcomeOf, Option.toList_none, List.append_nil]
        rfl
  | @drop c a =>
    have hsub : ∀ a' b', (w.drop c a).blocks a' = some b' → w.blocks a' = some b' := by
      intro a' b' hb'
      unfold World.drop at hb'
      split at hb'
      . split at hb'
        . simp only [setBlock, Function.update_apply] at hb'
          split at hb'
          . cases hb'
          . exact hb'
        . exact hb'
      . exact hb'
    have hrest : (w.drop c a).nextBlock = w.nextBlock ∧ (w.drop c a).log = w.log := by
      unfold World.drop
      split
      . split <;> exact ⟨rfl, rfl⟩
      . exact ⟨rfl, rfl⟩
    apply h.congr ?_ hrest.1
    . intro a'
      simp only [completions, hrest.2]
    . exact fun a' b' hb' => ⟨b', hsub a' b' hb', rfl, rfl, rfl⟩
  | @finish c =>
    unfold World.finish
    split
    . refine h.congr ?_ rfl fun _ => rfl
      intro a' b' hb'
      simp only [setCoro, dropOwned, Option.filter_eq_some_iff] at hb'
      exact ⟨b', hb'.1, rfl, rfl, rfl⟩
    . exact h
  | clearSpawned =>
    unfold World.clearSpawned
    split
    . refine h.congr ?_ rfl fun _ => rfl
      intro a' b' hb'
      simp only [dropOwned, Option.filter_eq_some_iff] at hb'
      exact ⟨b', hb'.1, rfl, rfl, rfl⟩
    . exact h
  | start => exact h.congr (fun a b hb => ⟨b, hb, rfl, rfl, rfl⟩) rfl fun _ => rfl

theorem step_recorded (hwf : w.Wf) (h : w.Recorded) (st : Step)
    : (w.step st).Recorded := by
  have hboth : (w.step st).Wf ∧ (w.step st).Recorded := by
    apply (step_prims w st).invariant (I := fun w => w.Wf ∧ w.Recorded)
    . exact fun w w' hp hw => ⟨hp.wf hw.1, hp.recorded hw.1 hw.2⟩
    . exact ⟨hwf, h⟩
  exact hboth.2

theorem init_recorded (backend : Backend)
    : Recorded { backend } := by
  constructor <;> intros <;> simp_all [completions]

theorem run_recorded (backend : Backend) (steps : List Step)
    : (run { backend } steps).Recorded := by
  apply run_invariant backend steps
  . exact fun S T w w' hp hwf h => hp.recorded hwf h
  . exact init_recorded backend

-- A completion that comes while the coroutine is suspended.
theorem complete_suspended {coro : Coro} {src : Source} {x : Completion} (h : w.Wf)
    (hc : w.coros c = some coro) (hstatus : coro.status = .suspended a)
    : ∃ b, w.blocks a = some b ∧ (w.complete src a x).isRunning c
        ∧ (w.complete src a x).log = w.log
          ++ [Entry.completed src a (b.kind.outcome x) (some ⟨c, a, some (b.kind.outcome x)⟩)] := by
  obtain ⟨b, hb, -, hhandle⟩ := h.suspended c coro a hc hstatus
  refine ⟨b, hb, ?_⟩
  rcases complete_cases hb with ⟨hnone, -⟩ | ⟨c', coro', on, hc', hcoro', hstatus', heq⟩ | ⟨c', hc', hnot, -⟩
  . rw [hhandle] at hnone
    cases hnone
  . rw [hhandle, Option.some.injEq] at hc'
    subst hc'
    rw [hc, Option.some.injEq] at hcoro'
    subst hcoro'
    rw [hstatus, CoroStatus.suspended.injEq] at hstatus'
    subst hstatus'
    rw [heq]
    simp [isRunning, addLog, setCoro, setBlock, StateBlock.complete]
  . rw [hhandle, Option.some.injEq] at hc'
    subst hc'
    exact absurd hstatus (hnot coro a hc)

theorem await_of_running (hc : w.isRunning c) (hb : w.blocks a = some b) (howner : b.owner = c)
    (hhandle : b.handle = none)
    : (b.awaitReady = true ∧ w.await c a = w.addLog (.returned c a b.result))
        ∨ (b.awaitReady = false ∧ ∃ coro, (w.await c a).coros c = some coro
          ∧ coro.status = .suspended a ∧ (w.await c a).log = w.log ++ [Entry.suspended c a]) := by
  obtain ⟨coro, hcoro, hrunning⟩ := isRunning_iff.mp hc
  obtain ⟨status, spawned⟩ := coro
  simp only at hrunning
  subst hrunning
  unfold await
  simp only [hcoro, hb, howner, hhandle, and_self, if_true]
  cases b.awaitReady <;> simp [addLog, setCoro, setBlock]

theorem await_obtains_iff (backend : Backend) (steps : List Step)
    : let w := run { backend } steps
      -- the completion comes after the `co_await`
      (∀ c coro a src x, w.coros c = some coro → coro.status = .suspended a
        → ∃ b, w.blocks a = some b ∧ (w.complete src a x).isRunning c
          ∧ (w.complete src a x).log = w.log
            ++ [Entry.completed src a (b.kind.outcome x) (some ⟨c, a, some (b.kind.outcome x)⟩)])
      -- the completion came before
      ∧ ∀ c a b, w.isRunning c → w.blocks a = some b → b.owner = c → b.handle = none
        → w.completions a ≠ []
        → (((w.await c a).isRunning c ∧ ∃ o, (w.completions a).getLast? = some o
            ∧ (w.await c a).log = w.log ++ [Entry.returned c a o])
          ↔ b.kind = .result) := by
  intro w
  have hwf : w.Wf := run_wf steps (init_wf backend)
  have hrecorded : w.Recorded := run_recorded backend steps
  refine ⟨fun c coro a src x hc hstatus => complete_suspended hwf hc hstatus, ?_⟩
  intro c a b hc hb howner hhandle hne
  rcases await_of_running hc hb howner hhandle with ⟨hready, heq⟩ | ⟨hready, coro, hcoro, hstatus, hlog⟩
  . have hkind : b.kind = .result := by
      cases hk : b.kind <;> simp [StateBlock.awaitReady, hk] at hready ⊢
    refine ⟨fun _ => hkind, fun _ => ?_⟩
    rw [heq]
    refine ⟨hc, b.result, ?_, rfl⟩
    have hresult := hrecorded.result a b hb
    cases hlast : (w.completions a).getLast? with
    | none => exact absurd (List.getLast?_eq_none_iff.mp hlast) hne
    | some o =>
      rw [hlast] at hresult
      rw [hresult]
      rfl
  . constructor
    . rintro ⟨-, o, -, hlog'⟩
      rw [hlog] at hlog'
      simp at hlog'
    . intro hkind
      have := (hrecorded.ready a b hb hkind).mpr hne
      simp [StateBlock.awaitReady, hkind, this] at hready

-- A second read on a file descriptor is completed with `-EALREADY` before it is awaited.
def overlappingReads : List Step :=
  [.start true, .call 0 (.read 3 (some 100) 1) .accepted, .call 0 (.read 3 (some 200) 1) .accepted,
    .await 0 1]

theorem overlappingReads_hangs
    : let w := run { backend := .epoll } overlappingReads
      w.completions 1 = [.read (-EALREADY) (some 200) 1 none]
        ∧ w.coros 0 = some { status := .suspended 1, spawned := true }
        ∧ ∀ r ∈ w.requests, (w.slots r.slot).map Callback.target ≠ some 1 := by
  decide +kernel

-- A write that fails is completed before it is awaited, too.
theorem failedWrite_obtains
    : let w := run { backend := .epoll } [.start true, .call 0 (.write 3) .refused]
      (w.await 0 0).isRunning 0 ∧ ∃ o, (w.completions 0).getLast? = some o
        ∧ (w.await 0 0).log = w.log ++ [Entry.returned 0 0 o] :=
  ((await_obtains_iff .epoll [.start true, .call 0 (.write 3) .refused]).2 0 0
    { kind := .result, owner := 0, ready := true, result := .result (-1) } (by decide +kernel)
    (by decide +kernel) rfl rfl (by decide +kernel)).mpr rfl

end World

end Coroutine
end Ezio
