import Ezio.Coroutine.Service.Multishot
import Ezio.Lib.List

/-!
This module contains when every `co_await` that suspends is followed by exactly one resumption, as long as
completions only reach awaiters whose coroutine is not yet suspended or is suspended on them.
-/

namespace Ezio
namespace Coroutine

def Entry.resumptionOf (a : Nat) : Entry → Option Resumption
  | completed _ a' _ r => if a' = a then r else none
  | _ => none

-- The entry is no undefined behaviour and resumes a coroutine only from the awaiter that is completed.
def Entry.Proper : Entry → Prop
  | completed _ a o (some r) => r.on = a ∧ r.obtained = some o
  | useAfterFree _ _ | badResume _ => False
  | _ => True

namespace World

variable {w w' : World} {a c : Nat} {b : StateBlock}

-- The resumptions by completions of the awaiter `a`.
def resumptions (w : World) (a : Nat) : List Resumption :=
  w.log.filterMap (Entry.resumptionOf a)

def SuspendedOn (w : World) (c a : Nat) : Prop :=
  ∃ coro, w.coros c = some coro ∧ coro.status = .suspended a

theorem resumptions_addLog (w : World) (e : Entry) (a : Nat)
    : (w.addLog e).resumptions a = w.resumptions a ++ (e.resumptionOf a).toList := by
  simp only [resumptions, addLog, List.filterMap_append]
  cases h : e.resumptionOf a <;> simp [h]

theorem mem_addLog {e e' : Entry}
    : e' ∈ (w.addLog e).log ↔ e' ∈ w.log ∨ e' = e := by
  simp [addLog]

theorem finish_blocks (h : (w.finish c).blocks a = some b)
    : w.blocks a = some b := by
  unfold finish at h
  split at h
  . simp only [setCoro, dropOwned, Option.filter_eq_some_iff] at h
    exact h.1
  . exact h

theorem finish_suspendedOn (w : World) (c c' a : Nat)
    : (w.finish c).SuspendedOn c' a ↔ w.SuspendedOn c' a := by
  unfold World.finish
  split
  . rename_i spawned hcoro
    simp only [SuspendedOn, setCoro, dropOwned, Function.update_apply]
    by_cases hc' : c' = c
    . simp [hc', hcoro]
    . simp [hc']
  . exact Iff.rfl

theorem start_suspendedOn (hwf : w.Wf) (spawned : Bool) (c a : Nat)
    : (w.start spawned).SuspendedOn c a ↔ w.SuspendedOn c a := by
  simp only [SuspendedOn, World.start, setCoro, Function.update_apply]
  by_cases hc : c = w.nextCoro
  . have hnone : w.coros c = none := by
      cases hcoro : w.coros c with
      | none => rfl
      | some coro =>
        have := hwf.coroLt c coro hcoro
        omega
    simp [← hc, hnone]
  . simp [hc]

-- The coroutine `c` becomes suspended on `a`.
theorem suspend_suspendedOn {coro : Coro} {o : Option StateBlock} {e : Entry}
    (hcoro : w.coros c = some coro) (hrunning : coro.status = .running) (c' a' : Nat)
    : SuspendedOn (addLog ((w.setBlock a o).setCoro c (some { coro with status := .suspended a })) e) c' a'
        ↔ c' = c ∧ a' = a ∨ w.SuspendedOn c' a' := by
  simp only [SuspendedOn, addLog, setCoro, setBlock, Function.update_apply]
  by_cases hc' : c' = c
  . simp [hc', hcoro, hrunning, eq_comm]
  . simp [hc']

theorem complete_blocks {src : Source} {x : Completion} (hb : w.blocks a = some b)
    : (w.complete src a x).blocks = Function.update w.blocks a (some (b.complete x)) := by
  rcases complete_cases hb with ⟨-, heq⟩ | ⟨c, coro, on, -, -, -, heq⟩ | ⟨c, -, -, heq⟩ <;> rw [heq] <;> rfl

theorem complete_rest (w : World) (src : Source) (a : Nat) (x : Completion)
    : (w.complete src a x).backend = w.backend ∧ (w.complete src a x).nextBlock = w.nextBlock
        ∧ (w.complete src a x).fdInfoMap = w.fdInfoMap ∧ (w.complete src a x).cancels = w.cancels
        ∧ (w.complete src a x).doneFlag = w.doneFlag := by
  cases hb : w.blocks a with
  | none =>
    rw [complete_none hb]
    exact ⟨rfl, rfl, rfl, rfl, rfl⟩
  | some b =>
    rcases complete_cases hb with ⟨-, heq⟩ | ⟨c, coro, on, -, -, -, heq⟩ | ⟨c, -, -, heq⟩ <;> rw [heq]
      <;> exact ⟨rfl, rfl, rfl, rfl, rfl⟩

structure Resumes (w : World) : Prop where
  proper : ∀ e ∈ w.log, e.Proper
  exactly : ∀ c a, .suspended c a ∈ w.log
    → w.SuspendedOn c a ∧ w.resumptions a = [] ∨ ¬w.SuspendedOn c a ∧ (w.resumptions a).length = 1
  logged : ∀ c a, w.SuspendedOn c a → .suspended c a ∈ w.log
  fresh : ∀ a, (∀ b, w.blocks a = some b → b.handle = none) → (w.blocks a = none → w.nextBlock ≤ a)
    → w.resumptions a = [] ∧ ∀ c, .suspended c a ∉ w.log

theorem Resumes.congr (h : w.Resumes) (hlog : w'.log = w.log)
    (hcoros : ∀ c a, w'.SuspendedOn c a ↔ w.SuspendedOn c a)
    (hfresh : ∀ a, (∀ b, w'.blocks a = some b → b.handle = none)
      → (w'.blocks a = none → w'.nextBlock ≤ a)
      → (∀ b, w.blocks a = some b → b.handle = none) ∧ (w.blocks a = none → w.nextBlock ≤ a))
    : w'.Resumes := by
  have hresumptions : ∀ a, w'.resumptions a = w.resumptions a := by
    intro a
    simp only [resumptions, hlog]
  constructor
  . rw [hlog]
    exact h.proper
  . intro c a hmem
    rw [hlog] at hmem
    rw [hcoros, hresumptions]
    exact h.exactly c a hmem
  . intro c a hs
    rw [hlog]
    exact h.logged c a ((hcoros c a).mp hs)
  . intro a hb hn
    obtain ⟨hb', hn'⟩ := hfresh a hb hn
    rw [hresumptions, hlog]
    exact h.fresh a hb' hn'

theorem Resumes.same (h : w.Resumes) (hlog : w'.log = w.log) (hcoros : w'.coros = w.coros)
    (hblocks : w'.blocks = w.blocks) (hblock : w'.nextBlock = w.nextBlock)
    : w'.Resumes := by
  apply h.congr hlog
  . simp only [SuspendedOn, hcoros, implies_true]
  . rw [hblocks, hblock]
    exact fun a hb hn => ⟨hb, hn⟩

theorem Resumes.newBlock {kind : Kind} (h : w.Resumes) (hwf : w.Wf)
    : (w.newBlock c kind).Resumes := by
  refine h.congr rfl (fun _ _ => Iff.rfl) ?_
  . intro a hb hn
    simp only [World.newBlock, setBlock, Function.update_apply] at hb hn
    by_cases ha : a = w.nextBlock
    . have hnone : w.blocks a = none := by
        cases hb' : w.blocks a with
        | none => rfl
        | some b' =>
          have := hwf.blockLt a b' hb'
          omega
      refine ⟨?_, by omega⟩
      rw [hnone]
      simp
    . rw [if_neg ha] at hb hn
      exact ⟨hb, fun hnone => by have := hn hnone; omega⟩

-- The awaiter `a` is completed before its coroutine is suspended or while it is suspended on it.
def Receptive (w : World) (a : Nat) : Prop :=
  ∃ b, w.blocks a = some b ∧ (b.handle = none ∨ ∃ c, w.SuspendedOn c a)

-- The coroutine that is suspended on the awaiter, if there is one, runs again.
theorem complete_suspendedOn {src : Source} {x : Completion} (hwf : w.Wf) (ha : w.Receptive a) (c' a' : Nat)
    : (w.complete src a x).SuspendedOn c' a' ↔ a' ≠ a ∧ w.SuspendedOn c' a' := by
  obtain ⟨b, hb, ha⟩ := ha
  -- a coroutine suspended on `a` is the one of the handle
  have howner : ∀ c, w.SuspendedOn c a → b.handle = some c := by
    rintro c ⟨coro, hc, hstatus⟩
    obtain ⟨b', hb', -, hhandle⟩ := hwf.suspended c coro a hc hstatus
    rw [hb, Option.some.injEq] at hb'
    rw [hb']
    exact hhandle
  rcases complete_cases hb with ⟨hnone, heq⟩ | ⟨c, coro, on, hhandle, hcoro, hstatus, heq⟩
    | ⟨c, hhandle, hnot, heq⟩
  . rw [heq]
    change w.SuspendedOn c' a' ↔ _
    refine ⟨fun hs => ⟨?_, hs⟩, fun hs => hs.2⟩
    rintro rfl
    rw [howner c' hs] at hnone
    cases hnone
  . have hon : on = a := by
      rcases ha with hnone | ⟨c'', hs⟩
      . rw [hhandle] at hnone
        cases hnone
      . have heq' := howner c'' hs
        rw [hhandle, Option.some.injEq] at heq'
        subst heq'
        obtain ⟨coro', hc', hstatus'⟩ := hs
        rw [hcoro, Option.some.injEq] at hc'
        subst hc'
        rw [hstatus, CoroStatus.suspended.injEq] at hstatus'
        exact hstatus'
    subst hon
    rw [heq]
    have hset : SuspendedOn (addLog ((w.setBlock on (some (b.complete x))).setCoro c
        (some { coro with status := .running })) (.completed src on (b.kind.outcome x)
          (some ⟨c, on, ((w.setBlock on (some (b.complete x))).blocks on).map (·.result)⟩))) c' a'
        ↔ c' ≠ c ∧ w.SuspendedOn c' a' := by
      simp only [SuspendedOn, addLog, setCoro, setBlock, Function.update_apply]
      by_cases hc' : c' = c
      . simp [hc']
      . simp [hc']
    rw [hset]
    constructor
    . rintro ⟨hne, hs⟩
      refine ⟨?_, hs⟩
      rintro rfl
      have heq' := howner c' hs
      rw [hhandle, Option.some.injEq] at heq'
      exact hne heq'.symm
    . rintro ⟨hne, hs⟩
      refine ⟨?_, hs⟩
      rintro rfl
      obtain ⟨coro', hc', hstatus'⟩ := hs
      rw [hcoro, Option.some.injEq] at hc'
      subst hc'
      rw [hstatus, CoroStatus.suspended.injEq] at hstatus'
      exact hne hstatus'.symm
  . rcases ha with hnone | ⟨c'', hs⟩
    . rw [hhandle] at hnone
      cases hnone
    . have heq' := howner c'' hs
      rw [hhandle, Option.some.injEq] at heq'
      subst heq'
      obtain ⟨coro', hc', hstatus'⟩ := hs
      exact absurd hstatus' (hnot coro' a hc')

theorem Resumes.complete {src : Source} {x : Completion} (h : w.Resumes) (hwf : w.Wf)
    (ha : w.Receptive a)
    : (w.complete src a x).Resumes := by
  obtain ⟨b, hb, ha⟩ := ha
  rcases complete_cases hb with ⟨hnone, heq⟩ | ⟨c, coro, on, hhandle, hcoro, hstatus, heq⟩
    | ⟨c, hhandle, hnot, heq⟩
  . rw [heq]
    have hres : ∀ a', ((w.setBlock a (some (b.complete x))).addLog
        (.completed src a (b.kind.outcome x) none)).resumptions a' = w.resumptions a' := by
      intro a'
      rw [resumptions_addLog, Entry.resumptionOf, ite_self, Option.toList_none, List.append_nil]
      rfl
    constructor
    . intro e he
      rcases mem_addLog.mp he with he | rfl
      . exact h.proper e he
      . exact trivial
    . intro c' a' hmem
      rw [mem_addLog] at hmem
      rw [hres]
      exact h.exactly c' a' (hmem.resolve_right (by simp))
    . intro c' a' hs
      exact mem_addLog.mpr (.inl (h.logged c' a' hs))
    . intro a' hb' hn'
      rw [hres]
      simp only [addLog, setBlock, Function.update_apply] at hb' hn'
      have hold := h.fresh a' (by
        intro b' hb''
        by_cases ha' : a' = a
        . rw [ha', hb, Option.some.injEq] at hb''
          rw [← hb'']
          exact hnone
        . rw [if_neg ha'] at hb'
          exact hb' b' hb'') (by
        intro hnone'
        by_cases ha' : a' = a
        . rw [ha', hb] at hnone'
          cases hnone'
        . rw [if_neg ha'] at hn'
          exact hn' hnone')
      refine ⟨hold.1, ?_⟩
      intro c' hmem
      rw [mem_addLog] at hmem
      exact hold.2 c' (hmem.resolve_right (by simp))
  . -- the coroutine is suspended on the awaiter itself
    have hsuspended : w.SuspendedOn c a := by
      rcases ha with hnone | ⟨c', coro', hc', hstatus'⟩
      . rw [hhandle] at hnone
        cases hnone
      . obtain ⟨b', hb', -, hhandle'⟩ := hwf.suspended c' coro' a hc' hstatus'
        rw [hb, Option.some.injEq] at hb'
        rw [← hb', hhandle, Option.some.injEq] at hhandle'
        subst hhandle'
        exact ⟨coro', hc', hstatus'⟩
    have hon : on = a := by
      obtain ⟨coro', hc', hstatus'⟩ := hsuspended
      rw [hcoro, Option.some.injEq] at hc'
      subst hc'
      rw [hstatus, CoroStatus.suspended.injEq] at hstatus'
      exact hstatus'
    subst hon
    have hnil : w.resumptions on = [] := by
      rcases h.exactly c on (h.logged c on hsuspended) with ⟨-, hnil⟩ | ⟨hnot, -⟩
      . exact hnil
      . exact absurd hsuspended hnot
    rw [heq]
    have hres : ∀ a', (addLog ((w.setBlock on (some (b.complete x))).setCoro c
        (some { coro with status := .running })) (.completed src on (b.kind.outcome x)
          (some ⟨c, on, ((w.setBlock on (some (b.complete x))).blocks on).map (·.result)⟩))).resumptions a'
        = w.resumptions a' ++ if on = a' then
            [⟨c, on, ((w.setBlock on (some (b.complete x))).blocks on).map (·.result)⟩] else [] := by
      intro a'
      rw [resumptions_addLog, Entry.resumptionOf]
      split <;> rfl
    have hother : ∀ c' a', SuspendedOn (addLog ((w.setBlock on (some (b.complete x))).setCoro c
        (some { coro with status := .running })) (.completed src on (b.kind.outcome x)
          (some ⟨c, on, ((w.setBlock on (some (b.complete x))).blocks on).map (·.result)⟩))) c' a'
        ↔ a' ≠ on ∧ w.SuspendedOn c' a' := by
      intro c' a'
      rw [← heq]
      exact complete_suspendedOn hwf ⟨b, hb, ha⟩ c' a'
    constructor
    . intro e he
      rcases mem_addLog.mp he with he | rfl
      . exact h.proper e he
      . simp [Entry.Proper, setBlock, StateBlock.complete]
    . intro c' a' hmem
      rw [mem_addLog] at hmem
      have hmem := hmem.resolve_right (by simp)
      rw [hother, hres]
      by_cases ha' : on = a'
      . subst ha'
        right
        rw [if_pos rfl, hnil]
        exact ⟨fun hs => hs.1 rfl, rfl⟩
      . rw [if_neg ha', List.append_nil]
        rcases h.exactly c' a' hmem with ⟨hs, hnil'⟩ | ⟨hs, hone⟩
        . exact .inl ⟨⟨Ne.symm ha', hs⟩, hnil'⟩
        . exact .inr ⟨fun hs' => hs hs'.2, hone⟩
    . intro c' a' hs
      exact mem_addLog.mpr (.inl (h.logged c' a' ((hother c' a').mp hs).2))
    . intro a' hb' hn'
      simp only [addLog, setCoro, setBlock, Function.update_apply] at hb' hn'
      have ha' : a' ≠ on := by
        rintro rfl
        rw [if_pos rfl] at hb'
        have hhandle' := hb' _ rfl
        simp only [StateBlock.complete, hhandle] at hhandle'
        cases hhandle'
      rw [if_neg ha'] at hb' hn'
      have hold := h.fresh a' hb' hn'
      rw [hres, if_neg (Ne.symm ha'), List.append_nil]
      refine ⟨hold.1, ?_⟩
      intro c' hmem
      rw [mem_addLog] at hmem
      exact hold.2 c' (hmem.resolve_right (by simp))
  . rcases ha with hnone | ⟨c', coro', hc', hstatus'⟩
    . rw [hhandle] at hnone
      cases hnone
    . obtain ⟨b', hb', -, hhandle'⟩ := hwf.suspended c' coro' a hc' hstatus'
      rw [hb, Option.some.injEq] at hb'
      rw [← hb', hhandle, Option.some.injEq] at hhandle'
      subst hhandle'
      exact absurd hstatus' (hnot coro' a hc')

theorem Resumes.await (h : w.Resumes)
    : (w.await c a).Resumes := by
  rcases await_cases w c a with heq | ⟨coro, b, hcoro, hrunning, hb, howner, hhandle, ⟨-, heq⟩ | ⟨-, heq⟩⟩
  . rw [heq]
    exact h
  . rw [heq]
    have hres : ∀ a', (w.addLog (.returned c a b.result)).resumptions a' = w.resumptions a' := by
      intro a'
      simp [resumptions_addLog, Entry.resumptionOf]
    constructor
    . intro e he
      rcases mem_addLog.mp he with he | rfl
      . exact h.proper e he
      . exact trivial
    . intro c' a' hmem
      rw [mem_addLog] at hmem
      rw [hres]
      exact h.exactly c' a' (hmem.resolve_right (by simp))
    . intro c' a' hs
      exact mem_addLog.mpr (.inl (h.logged c' a' hs))
    . intro a' hb' hn'
      rw [hres]
      have hold := h.fresh a' hb' hn'
      refine ⟨hold.1, ?_⟩
      intro c' hmem
      rw [mem_addLog] at hmem
      exact hold.2 c' (hmem.resolve_right (by simp))
  . rw [heq]
    have hfresh := h.fresh a (by
      intro b' hb'
      rw [hb, Option.some.injEq] at hb'
      rw [← hb']
      exact hhandle) (by
      intro hnone
      rw [hb] at hnone
      cases hnone)
    have hres : ∀ a', (addLog ((w.setBlock a (some { b with handle := some c })).setCoro c
        (some { coro with status := .suspended a })) (.suspended c a)).resumptions a'
        = w.resumptions a' := by
      intro a'
      rw [resumptions_addLog]
      simp only [Entry.resumptionOf, Option.toList_none, List.append_nil]
      rfl
    have hother := fun c' a' => suspend_suspendedOn (a := a) (o := some { b with handle := some c })
      (e := .suspended c a) hcoro hrunning c' a'
    constructor
    . intro e he
      rcases mem_addLog.mp he with he | rfl
      . exact h.proper e he
      . exact trivial
    . intro c' a' hmem
      rw [hother, hres]
      rcases mem_addLog.mp hmem with hmem | heq'
      . have hne : a' ≠ a := by
          rintro rfl
          exact hfresh.2 c' hmem
        rcases h.exactly c' a' hmem with ⟨hs, hnil⟩ | ⟨hs, hone⟩
        . exact .inl ⟨.inr hs, hnil⟩
        . refine .inr ⟨?_, hone⟩
          rintro (⟨-, heq'⟩ | hs')
          . exact hne heq'
          . exact hs hs'
      . cases heq'
        exact .inl ⟨.inl ⟨rfl, rfl⟩, hfresh.1⟩
    . intro c' a' hs
      rcases (hother c' a').mp hs with ⟨rfl, rfl⟩ | hs
      . exact mem_addLog.mpr (.inr rfl)
      . exact mem_addLog.mpr (.inl (h.logged c' a' hs))
    . intro a' hb' hn'
      simp only [addLog, setCoro, setBlock, Function.update_apply] at hb' hn'
      have hne : a' ≠ a := by
        rintro rfl
        rw [if_pos rfl] at hb'
        cases hb' _ rfl
      rw [if_neg hne] at hb' hn'
      have hold := h.fresh a' hb' hn'
      rw [hres]
      refine ⟨hold.1, ?_⟩
      intro c' hmem
      rcases mem_addLog.mp hmem with hmem | heq'
      . exact hold.2 c' hmem
      . cases heq'
        exact hne rfl

-- Blocks go away, the coroutines that are suspended stay suspended.
theorem Resumes.remove (h : w.Resumes) (hwf : w.Wf) (hlog : w'.log = w.log)
    (hcoros : ∀ c a, w'.SuspendedOn c a ↔ w.SuspendedOn c a)
    (hblocks : ∀ a b, w'.blocks a = some b → w.blocks a = some b) (hblock : w'.nextBlock = w.nextBlock)
    : w'.Resumes := by
  apply h.congr hlog hcoros
  intro a hb hn
  cases hb' : w'.blocks a with
  | some b' =>
    have hold := hblocks a b' hb'
    rw [hold]
    refine ⟨?_, by simp⟩
    intro b'' heq
    rw [Option.some.injEq] at heq
    rw [← heq]
    exact hb b' hb'
  | none =>
    have hle := hn hb'
    rw [hblock] at hle
    refine ⟨?_, fun _ => hle⟩
    intro b' hold
    have := hwf.blockLt a b' hold
    omega

theorem Resumes.drop (h : w.Resumes) (hwf : w.Wf)
    : (w.drop c a).Resumes := by
  unfold World.drop
  split
  . split
    . refine h.remove hwf rfl (fun _ _ => Iff.rfl) ?_ rfl
      intro a' b' hb'
      simp only [setBlock, Function.update_apply] at hb'
      split at hb'
      . cases hb'
      . exact hb'
    . exact h
  . exact h

theorem Resumes.finish (h : w.Resumes) (hwf : w.Wf)
    : (w.finish c).Resumes := by
  have hrest : (w.finish c).log = w.log ∧ (w.finish c).nextBlock = w.nextBlock := by
    unfold World.finish
    split <;> exact ⟨rfl, rfl⟩
  exact h.remove hwf hrest.1 (finish_suspendedOn w c) (fun _ _ => finish_blocks) hrest.2

theorem Resumes.start {spawned : Bool} (h : w.Resumes) (hwf : w.Wf)
    : (w.start spawned).Resumes :=
  h.congr rfl (start_suspendedOn hwf spawned) fun _ hb hn => ⟨hb, hn⟩

theorem init_resumes (backend : Backend)
    : Resumes { backend } := by
  constructor <;> intros <;> simp_all [resumptions, SuspendedOn]

end World

end Coroutine
end Ezio
