import Ezio.Coroutine.Service
import Mathlib.Logic.Relation

/-!
This module contains the invariant between coroutines and the state blocks of their awaitables.
-/

namespace Ezio
namespace Coroutine
namespace World

variable {w : World} {a c : Nat} {b : StateBlock} {src : Source} {x : Completion}

structure Wf (w : World) : Prop where
  coroLt : ∀ c coro, w.coros c = some coro → c < w.nextCoro
  blockLt : ∀ a b, w.blocks a = some b → a < w.nextBlock
  handle : ∀ a b c, w.blocks a = some b → b.handle = some c → c = b.owner
  owner : ∀ a b, w.blocks a = some b → ∃ coro, w.coros b.owner = some coro
  -- a suspended coroutine holds the awaitable that it is suspended on
  suspended : ∀ c coro a, w.coros c = some coro → coro.status = .suspended a
    → ∃ b, w.blocks a = some b ∧ b.owner = c ∧ b.handle = some c

-- What `complete` does to a state block that is there.
theorem complete_cases (h : w.blocks a = some b)
    : (b.handle = none ∧ w.complete src a x
          = (w.setBlock a (some (b.complete x))).addLog (.completed src a (b.kind.outcome x) none))
        ∨ (∃ c coro on, b.handle = some c ∧ w.coros c = some coro ∧ coro.status = .suspended on
          ∧ w.complete src a x
            = ((w.setBlock a (some (b.complete x))).setCoro c (some { coro with status := .running })).addLog
              (.completed src a (b.kind.outcome x)
                (some ⟨c, on, ((w.setBlock a (some (b.complete x))).blocks on).map (·.result)⟩)))
        ∨ ∃ c, b.handle = some c
          ∧ (∀ coro on, w.coros c = some coro → coro.status ≠ .suspended on)
          ∧ w.complete src a x
            = ((w.setBlock a (some (b.complete x))).addLog
                (.completed src a (b.kind.outcome x) none)).addLog (.badResume c) := by
  unfold complete
  simp only [h]
  cases hhandle : b.handle with
  | none => simp
  | some c =>
    simp only [setBlock, reduceCtorEq, false_and, Option.some.injEq, false_or]
    cases hcoro : w.coros c with
    | none =>
      right
      exact ⟨c, rfl, by simp [hcoro], rfl⟩
    | some coro =>
      obtain ⟨status, spawned⟩ := coro
      cases status with
      | running =>
        right
        refine ⟨c, rfl, ?_, rfl⟩
        intro coro on heq hstatus
        rw [hcoro] at heq
        cases heq
        cases hstatus
      | suspended on =>
        left
        exact ⟨c, _, on, rfl, hcoro, rfl, rfl⟩

theorem complete_none (h : w.blocks a = none)
    : w.complete src a x = w.addLog (.useAfterFree src a) := by
  simp [complete, h]

theorem Wf.congr {w' : World} (h : w.Wf) (hcoros : w'.coros = w.coros) (hblocks : w'.blocks = w.blocks)
    (hcoro : w'.nextCoro = w.nextCoro) (hblock : w'.nextBlock = w.nextBlock)
    : w'.Wf := by
  constructor
  . rw [hcoros, hcoro]
    exact h.coroLt
  . rw [hblocks, hblock]
    exact h.blockLt
  . rw [hblocks]
    exact h.handle
  . rw [hblocks, hcoros]
    exact h.owner
  . rw [hblocks, hcoros]
    exact h.suspended

-- The block `a` is replaced by one with the same owner and handle.
theorem Wf.setBlock {b' : StateBlock} (h : w.Wf) (hb : w.blocks a = some b) (howner : b'.owner = b.owner)
    (hhandle : b'.handle = b.handle)
    : (w.setBlock a (some b')).Wf := by
  have hget : ∀ a' b'', (w.setBlock a (some b')).blocks a' = some b''
      → ∃ b₀, w.blocks a' = some b₀ ∧ b''.owner = b₀.owner ∧ b''.handle = b₀.handle := by
    intro a' b'' hb''
    simp only [World.setBlock, Function.update_apply] at hb''
    split at hb''
    . rename_i heq
      cases hb''
      exact ⟨b, by rw [heq]; exact hb, howner, hhandle⟩
    . exact ⟨b'', hb'', rfl, rfl⟩
  constructor
  . exact h.coroLt
  . intro a' b'' hb''
    obtain ⟨b₀, hb₀, -, -⟩ := hget a' b'' hb''
    exact h.blockLt a' b₀ hb₀
  . intro a' b'' c hb'' hc
    obtain ⟨b₀, hb₀, howner₀, hhandle₀⟩ := hget a' b'' hb''
    rw [howner₀]
    rw [hhandle₀] at hc
    exact h.handle a' b₀ c hb₀ hc
  . intro a' b'' hb''
    obtain ⟨b₀, hb₀, howner₀, -⟩ := hget a' b'' hb''
    rw [howner₀]
    exact h.owner a' b₀ hb₀
  . intro c coro a' hcoro hstatus
    obtain ⟨b₀, hb₀, howner₀, hhandle₀⟩ := h.suspended c coro a' hcoro hstatus
    simp only [World.setBlock, Function.update_apply]
    split
    . rename_i heq
      rw [heq, hb] at hb₀
      cases hb₀
      exact ⟨b', rfl, howner.trans howner₀, hhandle.trans hhandle₀⟩
    . exact ⟨b₀, hb₀, howner₀, hhandle₀⟩

theorem Wf.resume {coro : Coro} (h : w.Wf) (hc : w.coros c = some coro)
    : (w.setCoro c (some { coro with status := .running })).Wf := by
  constructor
  . intro c' coro' hcoro'
    simp only [setCoro, Function.update_apply] at hcoro'
    split at hcoro'
    . rename_i heq
      rw [heq]
      exact h.coroLt c coro hc
    . exact h.coroLt c' coro' hcoro'
  . exact h.blockLt
  . exact h.handle
  . intro a b hb
    obtain ⟨coro', hcoro'⟩ := h.owner a b hb
    simp only [setCoro, Function.update_apply]
    split
    . exact ⟨_, rfl⟩
    . exact ⟨coro', hcoro'⟩
  . intro c' coro' a hcoro' hstatus
    simp only [setCoro, Function.update_apply] at hcoro'
    split at hcoro'
    . cases hcoro'
      cases hstatus
    . exact h.suspended c' coro' a hcoro' hstatus

theorem Wf.complete (h : w.Wf)
    : (w.complete src a x).Wf := by
  cases hb : w.blocks a with
  | none =>
    rw [complete_none hb]
    exact h.congr rfl rfl rfl rfl
  | some b =>
    have hset : (w.setBlock a (some (b.complete x))).Wf := h.setBlock hb rfl rfl
    rcases complete_cases hb with ⟨-, heq⟩ | ⟨c, coro, on, -, hcoro, -, heq⟩ | ⟨c, -, -, heq⟩
    . rw [heq]
      exact hset.congr rfl rfl rfl rfl
    . rw [heq]
      exact (hset.resume hcoro).congr rfl rfl rfl rfl
    . rw [heq]
      exact hset.congr rfl rfl rfl rfl

theorem Wf.newBlock {kind : Kind} {coro : Coro} (h : w.Wf) (hc : w.coros c = some coro)
    : (w.newBlock c kind).Wf := by
  have hne : ∀ a b, w.blocks a = some b → a ≠ w.nextBlock := by
    intro a b hb heq
    have := h.blockLt a b hb
    omega
  constructor
  . exact h.coroLt
  . intro a b hb
    simp only [World.newBlock, World.setBlock, Function.update_apply] at hb ⊢
    split at hb
    . omega
    . have := h.blockLt a b hb
      omega
  . intro a b c' hb hc'
    simp only [World.newBlock, World.setBlock, Function.update_apply] at hb
    split at hb
    . cases hb
      cases hc'
    . exact h.handle a b c' hb hc'
  . intro a b hb
    simp only [World.newBlock, World.setBlock, Function.update_apply] at hb
    split at hb
    . cases hb
      exact ⟨coro, hc⟩
    . exact h.owner a b hb
  . intro c' coro' a hcoro' hstatus
    obtain ⟨b, hb, howner, hhandle⟩ := h.suspended c' coro' a hcoro' hstatus
    refine ⟨b, ?_, howner, hhandle⟩
    simp only [World.newBlock, World.setBlock, Function.update_apply]
    rw [if_neg (hne a b hb)]
    exact hb

theorem isRunning_iff
    : w.isRunning c ↔ ∃ coro, w.coros c = some coro ∧ coro.status = .running := by
  unfold isRunning
  cases w.coros c <;> simp

-- What `co_await` does.
theorem await_cases (w : World) (c a : Nat)
    : w.await c a = w
        ∨ (∃ coro b, w.coros c = some coro ∧ coro.status = .running ∧ w.blocks a = some b ∧ b.owner = c
          ∧ b.handle = none
          ∧ (b.awaitReady = true ∧ w.await c a = w.addLog (.returned c a b.result)
            ∨ b.awaitReady = false ∧ w.await c a
              = ((w.setBlock a (some { b with handle := some c })).setCoro c
                  (some { coro with status := .suspended a })).addLog (.suspended c a))) := by
  unfold await
  cases hcoro : w.coros c with
  | none => simp
  | some coro =>
    obtain ⟨status, spawned⟩ := coro
    cases status with
    | suspended on => simp
    | running =>
      cases hb : w.blocks a with
      | none => simp
      | some b =>
        simp only
        by_cases hguard : b.owner = c ∧ b.handle = none
        . right
          refine ⟨_, b, rfl, rfl, rfl, hguard.1, hguard.2, ?_⟩
          rw [if_pos hguard]
          cases b.awaitReady <;> simp
        . left
          rw [if_neg hguard]

theorem Wf.await (h : w.Wf)
    : (w.await c a).Wf := by
  rcases await_cases w c a with heq | ⟨coro, b, hcoro, hrunning, hb, howner, hhandle, ⟨-, heq⟩ | ⟨-, heq⟩⟩
  . rw [heq]
    exact h
  . rw [heq]
    exact h.congr rfl rfl rfl rfl
  . rw [heq]
    have hget : ∀ a' b', ((w.setBlock a (some { b with handle := some c })).blocks a' = some b')
        → a' = a ∧ b' = { b with handle := some c } ∨ w.blocks a' = some b' := by
      intro a' b' hb'
      simp only [World.setBlock, Function.update_apply] at hb'
      split at hb'
      . rename_i heq
        cases hb'
        exact .inl ⟨heq, rfl⟩
      . exact .inr hb'
    refine Wf.congr (w := (w.setBlock a (some { b with handle := some c })).setCoro c
      (some { coro with status := .suspended a })) ?_ rfl rfl rfl rfl
    constructor
    . intro c' coro' hcoro'
      simp only [setCoro, Function.update_apply] at hcoro'
      split at hcoro'
      . rename_i heq
        rw [heq]
        exact h.coroLt c coro hcoro
      . exact h.coroLt c' coro' hcoro'
    . intro a' b' hb'
      rcases hget a' b' hb' with ⟨heq, -⟩ | hold
      . rw [heq]
        exact h.blockLt a b hb
      . exact h.blockLt a' b' hold
    . intro a' b' c' hb' hc'
      rcases hget a' b' hb' with ⟨-, heq⟩ | hold
      . rw [heq] at hc' ⊢
        cases hc'
        exact howner.symm
      . exact h.handle a' b' c' hold hc'
    . intro a' b' hb'
      have hold : ∃ coro, w.coros b'.owner = some coro := by
        rcases hget a' b' hb' with ⟨-, heq⟩ | hold
        . rw [heq]
          exact h.owner a b hb
        . exact h.owner a' b' hold
      obtain ⟨coro', hcoro'⟩ := hold
      simp only [setCoro, Function.update_apply]
      split
      . exact ⟨_, rfl⟩
      . exact ⟨coro', hcoro'⟩
    . intro c' coro' a' hcoro' hstatus
      simp only [setCoro, Function.update_apply] at hcoro'
      split at hcoro'
      . rename_i heq
        cases hcoro'
        cases hstatus
        refine ⟨{ b with handle := some c }, ?_, howner.trans heq.symm, by rw [heq]⟩
        simp [World.setCoro, World.setBlock]
      . rename_i hne
        obtain ⟨b', hb', howner', hhandle'⟩ := h.suspended c' coro' a' hcoro' hstatus
        refine ⟨b', ?_, howner', hhandle'⟩
        simp only [World.setCoro, World.setBlock, Function.update_apply]
        rw [if_neg]
        . exact hb'
        . intro heq
          rw [heq, hb] at hb'
          cases hb'
          exact hne (howner'.symm.trans howner)

-- Blocks are taken away from coroutines that are not suspended on them.
theorem Wf.remove {w' : World} (h : w.Wf) (hcoro : w'.nextCoro = w.nextCoro)
    (hblock : w'.nextBlock = w.nextBlock)
    (hcoros : ∀ c coro, w'.coros c = some coro → w.coros c = some coro)
    (hblocks : ∀ a b, w'.blocks a = some b → w.blocks a = some b ∧ w'.coros b.owner = w.coros b.owner)
    (hkeep : ∀ c coro a b, w'.coros c = some coro → coro.status = .suspended a → w.blocks a = some b
      → b.owner = c → w'.blocks a = some b)
    : w'.Wf := by
  constructor
  . intro c coro hc
    rw [hcoro]
    exact h.coroLt c coro (hcoros c coro hc)
  . intro a b hb
    rw [hblock]
    exact h.blockLt a b (hblocks a b hb).1
  . exact fun a b c hb hc => h.handle a b c (hblocks a b hb).1 hc
  . intro a b hb
    rw [(hblocks a b hb).2]
    exact h.owner a b (hblocks a b hb).1
  . intro c coro a hc hstatus
    obtain ⟨b, hb, howner, hhandle⟩ := h.suspended c coro a (hcoros c coro hc) hstatus
    exact ⟨b, hkeep c coro a b hc hstatus hb howner, howner, hhandle⟩

theorem Wf.drop (h : w.Wf)
    : (w.drop c a).Wf := by
  unfold World.drop
  split
  . rename_i spawned b hcoro hb
    split
    . rename_i howner
      refine h.remove rfl rfl ?_ ?_ ?_
      . exact fun _ _ hc => hc
      . intro a' b' hb'
        simp only [World.setBlock, Function.update_apply] at hb'
        split at hb'
        . cases hb'
        . exact ⟨hb', rfl⟩
      . intro c' coro' a' b' hc' hstatus hb' howner'
        simp only [World.setBlock, Function.update_apply]
        rw [if_neg]
        . exact hb'
        . intro heq
          rw [heq, hb] at hb'
          cases hb'
          change w.coros c' = some coro' at hc'
          rw [← howner', howner, hcoro] at hc'
          cases hc'
          cases hstatus
    . exact h
  . exact h

theorem Wf.finish (h : w.Wf)
    : (w.finish c).Wf := by
  unfold World.finish
  split
  . rename_i spawned hcoro
    refine h.remove rfl rfl ?_ ?_ ?_
    . intro c' coro' hc'
      simp only [setCoro, Function.update_apply] at hc'
      split at hc'
      . cases hc'
      . exact hc'
    . intro a b hb
      simp only [setCoro, dropOwned, Option.filter_eq_some_iff, Bool.not_eq_true',
        decide_eq_false_iff_not] at hb
      refine ⟨hb.1, ?_⟩
      simp only [setCoro, dropOwned, Function.update_apply]
      rw [if_neg hb.2]
    . intro c' coro' a b hc' hstatus hb howner
      simp only [setCoro, Function.update_apply] at hc'
      split at hc'
      . cases hc'
      . rename_i hne
        simp [setCoro, dropOwned, hb, howner, hne]
  . exact h

theorem Wf.clearSpawned (h : w.Wf)
    : w.clearSpawned.Wf := by
  unfold World.clearSpawned
  split
  . refine h.remove rfl rfl ?_ ?_ ?_
    . intro c coro hc
      simp only [Option.filter_eq_some_iff] at hc
      exact hc.1
    . intro a b hb
      simp only [dropOwned, Option.filter_eq_some_iff, Bool.not_eq_true'] at hb
      refine ⟨hb.1, ?_⟩
      obtain ⟨coro, hcoro⟩ := h.owner a b hb.1
      simp only [isSpawned, hcoro, Option.any_some] at hb
      simp [hcoro, hb.2]
    . intro c coro a b hc hstatus hb howner
      simp only [Option.filter_eq_some_iff, Bool.not_eq_true'] at hc
      simp [dropOwned, hb, howner, isSpawned, hc.1, hc.2]
  . exact h

theorem Wf.start {spawned : Bool} (h : w.Wf)
    : (w.start spawned).Wf := by
  have hne : ∀ c coro, w.coros c = some coro → c ≠ w.nextCoro := by
    intro c coro hc heq
    have := h.coroLt c coro hc
    omega
  constructor
  . intro c coro hc
    simp only [World.start, setCoro, Function.update_apply] at hc ⊢
    split at hc
    . omega
    . have := h.coroLt c coro hc
      omega
  . exact h.blockLt
  . exact h.handle
  . intro a b hb
    obtain ⟨coro, hcoro⟩ := h.owner a b hb
    refine ⟨coro, ?_⟩
    simp only [World.start, setCoro, Function.update_apply]
    rw [if_neg (hne _ _ hcoro)]
    exact hcoro
  . intro c coro a hc hstatus
    simp only [World.start, setCoro, Function.update_apply] at hc
    split at hc
    . cases hc
      cases hstatus
    . exact h.suspended c coro a hc hstatus

-- The callbacks that the service passes to a slot.
def Callback.Fits (slot : Slot) : Callback → Prop
  | .read fd _ => slot = .read fd
  | .awaiter _ => True
  | .cancelRead fd _ => slot = .cancelRead fd

-- The steps are made of these. `S` are the sources of the completions among them, `T` the awaiters that a
-- callback is stored for.
inductive Prim (S : Source → Prop) (T : Nat → Prop) : World → World → Prop where
  | keep {w w' : World} (hbackend : w'.backend = w.backend) (hcoros : w'.coros = w.coros)
    (hblocks : w'.blocks = w.blocks) (hcoro : w'.nextCoro = w.nextCoro)
    (hblock : w'.nextBlock = w.nextBlock) (hslots : w'.slots = w.slots)
    (hrequests : w'.requests = w.requests) (hlog : w'.log = w.log) : Prim S T w w'
  | submit {w : World} {slot : Slot} {cb : Callback} {multishot : Bool} {sub : Submit}
    (hfits : Callback.Fits slot cb) (hmultishot : multishot → ∃ fd, slot = .read fd)
    (htarget : T cb.target) : Prim S T w (w.submit slot cb multishot sub)
  | disable {w : World} {slot : Slot} : Prim S T w (w.disable slot)
  | erase {w : World} {i : Nat} : Prim S T w { w with requests := w.requests.eraseIdx i }
  | newBlock {w : World} {c : Nat} {kind : Kind} (hc : w.isRunning c) : Prim S T w (w.newBlock c kind)
  | complete {w : World} {src : Source} {a : Nat} {x : Completion} (hsrc : S src)
    : Prim S T w (w.complete src a x)
  | await {w : World} {c a : Nat} : Prim S T w (w.await c a)
  | drop {w : World} {c a : Nat} : Prim S T w (w.drop c a)
  | finish {w : World} {c : Nat} : Prim S T w (w.finish c)
  | clearSpawned {w : World} : Prim S T w w.clearSpawned
  | start {w : World} {spawned : Bool} : Prim S T w (w.start spawned)

def Prims (S : Source → Prop) (T : Nat → Prop) : World → World → Prop :=
  Relation.ReflTransGen (Prim S T)

variable {S : Source → Prop} {T : Nat → Prop} {w' w'' : World}

theorem Prims.refl (w : World)
    : Prims S T w w :=
  Relation.ReflTransGen.refl

theorem Prims.trans (h : Prims S T w w') (h' : Prims S T w' w'')
    : Prims S T w w'' :=
  Relation.ReflTransGen.trans h h'

theorem Prim.prims (h : Prim S T w w')
    : Prims S T w w' :=
  Relation.ReflTransGen.single h

theorem Prims.keep (hbackend : w'.backend = w.backend) (hcoros : w'.coros = w.coros)
    (hblocks : w'.blocks = w.blocks) (hcoro : w'.nextCoro = w.nextCoro)
    (hblock : w'.nextBlock = w.nextBlock) (hslots : w'.slots = w.slots)
    (hrequests : w'.requests = w.requests) (hlog : w'.log = w.log)
    : Prims S T w w' :=
  (Prim.keep hbackend hcoros hblocks hcoro hblock hslots hrequests hlog).prims

theorem Prims.submit {slot : Slot} {cb : Callback} {multishot : Bool} {sub : Submit}
    (hfits : Callback.Fits slot cb) (hmultishot : multishot → ∃ fd, slot = .read fd) (htarget : T cb.target)
    : Prims S T w (w.submit slot cb multishot sub) :=
  (Prim.submit hfits hmultishot htarget).prims

theorem Prims.invariant {I : World → Prop} (h : Prims S T w w')
    (hI : ∀ w w', Prim S T w w' → I w → I w') (hw : I w)
    : I w' := by
  induction h with
  | refl => exact hw
  | tail _ hprim ih => exact hI _ _ hprim ih

theorem Prims.complete (h : Prims S T w w') (hsrc : S src)
    : Prims S T w (w'.complete src a x) :=
  h.trans (Prim.complete hsrc).prims

theorem setFdInfo_prims (fd : Nat) (info : FdInfo)
    : Prims S T w (w.setFdInfo fd info) :=
  .keep rfl rfl rfl rfl rfl rfl rfl rfl

theorem resetRead_prims (fd : Nat)
    : Prims S T w (w.resetRead fd) := by
  unfold resetRead
  split
  . exact .refl w
  . exact setFdInfo_prims fd {}

theorem setReadState_prims (fd : Nat) (state : FdReadState)
    : Prims S T w (w.setReadState fd state) := by
  unfold setReadState
  split
  . exact .refl w
  . exact setFdInfo_prims fd _

theorem clearPending_prims (fd : Nat)
    : Prims S T w (w.clearPending fd) := by
  unfold clearPending
  split
  . exact .refl w
  . exact setFdInfo_prims fd _

theorem invoke_prims (cb : Callback) (hsrc : S src)
    : Prims S T w (w.invoke src cb x) := by
  cases cb with
  | read fd a => exact (resetRead_prims fd).complete hsrc
  | awaiter a => exact (Prims.refl w).complete hsrc
  | cancelRead fd a =>
    simp only [invoke]
    split
    . exact .refl w
    . refine (Prims.trans ?_ (setReadState_prims fd .none)).complete hsrc
      exact .keep rfl rfl rfl rfl rfl rfl rfl rfl

theorem readWith_prims (fd : Nat) (multishot : Bool) (buffer : Option Nat) (cnt : Nat) (sub : Submit)
    (hc : w.isRunning c) (hS : S .inline) (hT : T w.nextBlock)
    : Prims S T w (w.readWith c fd multishot buffer cnt sub) := by
  have hnew : Prims S T w (w.newBlock c .read) := (Prim.newBlock hc).prims
  have hsubmit : ∀ w', Prims S T w' (w'.submit (.read fd) (.read fd w.nextBlock) multishot sub) :=
    fun _ => .submit rfl (fun _ => ⟨fd, rfl⟩) hT
  unfold readWith
  simp only
  split
  . exact (hnew.trans (setFdInfo_prims fd _)).complete hS
  . split
    . refine Prims.trans (Prims.trans hnew ?_) (hsubmit _)
      exact (setFdInfo_prims fd _).trans (setFdInfo_prims fd _)
    . refine Prims.complete (Prims.trans ?_ (setFdInfo_prims fd {})) hS
      refine Prims.trans (Prims.trans hnew ?_) (hsubmit _)
      exact (setFdInfo_prims fd _).trans (setFdInfo_prims fd _)

theorem submitWith_prims (kind : Kind) (slot : Slot) (multishot : Bool) (sub : Submit)
    (hmultishot : multishot → ∃ fd, slot = .read fd) (hc : w.isRunning c) (hS : S .inline)
    (hT : T w.nextBlock)
    : Prims S T w (w.submitWith c kind slot multishot sub) := by
  have hnew : Prims S T w (w.newBlock c kind) := (Prim.newBlock hc).prims
  have hsubmit : Prims S T w ((w.newBlock c kind).submit slot (.awaiter w.nextBlock) multishot sub) :=
    hnew.trans (.submit trivial hmultishot hT)
  unfold submitWith
  simp only
  split
  . exact hsubmit
  . exact hsubmit.complete hS

theorem cancelWith_prims (slot cancelSlot : Slot) (sub : Submit) (hc : w.isRunning c) (hS : S .inline)
    (hT : T w.nextBlock)
    : Prims S T w (w.cancelWith c slot cancelSlot sub) := by
  unfold cancelWith
  split
  . refine Prims.trans ?_ (invoke_prims _ hS)
    exact (Prim.newBlock hc).prims.trans Prim.disable.prims
  . exact submitWith_prims .result cancelSlot false _ (by simp) hc hS hT

theorem cancelRead_prims (fd : Nat) (hc : w.isRunning c) (hS : S .inline)
    : Prims S T w (w.cancelRead c fd) := by
  have hnew : Prims S T w (w.newBlock c .result) := (Prim.newBlock hc).prims
  unfold cancelRead
  simp only
  split
  . rename_i pending hpending
    have hset := hnew.trans (setReadState_prims fd .cancelling)
    cases pending with
    | none => exact hset.trans (.keep rfl rfl rfl rfl rfl rfl rfl rfl)
    | some p => exact (hset.complete hS).trans (.keep rfl rfl rfl rfl rfl rfl rfl rfl)
  . exact hnew.complete hS

theorem cancelReadRest_prims (sub : Submit) (hS : S .inline) (hT : ∀ e ∈ w.cancels, T e.awaiter)
    : Prims S T w (w.cancelReadRest sub) := by
  unfold cancelReadRest
  split
  . exact .refl w
  . rename_i caller fd a cancels hcancels
    have ha : T a := hT ⟨caller, fd, a⟩ (by simp [hcancels])
    have hpop : Prims S T w { w with cancels } := .keep rfl rfl rfl rfl rfl rfl rfl rfl
    have hclear := hpop.trans (clearPending_prims fd)
    have hsubmit : ∀ sub, Prims S T w ((clearPending { w with cancels } fd).submit (.cancelRead fd)
        (.cancelRead fd a) false sub) := by
      intro sub
      exact hclear.trans (.submit rfl (by simp) ha)
    simp only
    split
    . have hinvoke : Prims S T w (((clearPending { w with cancels } fd).disable (.read fd)).invoke .inline
          (.cancelRead fd a) { ret := 0 }) :=
        (hclear.trans Prim.disable.prims).trans (invoke_prims _ hS)
      refine Prims.complete ?_ hS
      exact hinvoke.trans (.keep rfl rfl rfl rfl rfl rfl rfl rfl)
    . refine Prims.complete ?_ hS
      exact (hsubmit .accepted).trans (.keep rfl rfl rfl rfl rfl rfl rfl rfl)
    . exact ((hsubmit _).trans (setReadState_prims fd .none)).complete hS

theorem call_prims (op : Call) (sub : Submit) (hc : w.isRunning c) (hS : S .inline)
    (hT : T w.nextBlock)
    : Prims S T w (w.call c op sub) := by
  have hif : ∀ (p : Bool) (w' : World), Prims S T w w' → Prims S T w (if p then w' else w) := by
    intro p w' h
    split
    . exact h
    . exact .refl w
  cases op with
  | read fd buffer cnt => exact hif _ _ (readWith_prims fd false buffer cnt sub hc hS hT)
  | readGroup fd => exact hif _ _ (readWith_prims fd true none 0 sub hc hS hT)
  | write fd => exact hif _ _ (submitWith_prims .result (.write fd) false sub (by simp) hc hS hT)
  | accept fd =>
    exact hif _ _ (submitWith_prims .accept (.read fd) true sub (fun _ => ⟨fd, rfl⟩) hc hS hT)
  | sleep =>
    exact hif _ _ (submitWith_prims .timer (.timer w.nextBlock) false sub (by simp) hc hS hT)
  | cancelRead fd => exact cancelRead_prims fd hc hS
  | cancelWrite fd => exact hif _ _ (cancelWith_prims (.write fd) (.cancelWrite fd) sub hc hS hT)
  | cancelAccept fd => exact hif _ _ (cancelWith_prims (.read fd) (.cancelRead fd) sub hc hS hT)

-- A completion calls the callback that is in the slot of the request.
theorem completeRequest_eq {i : Nat} {more : Bool} {r : Request} {cb : Callback}
    (hr : w.requests[i]? = some r) (hcancels : w.cancels = []) (hcb : w.slots r.slot = some cb)
    : w.completeRequest i x more
        = invoke { w with
            requests := if r.multishot && more then w.requests else w.requests.eraseIdx i }
          (.request r.awaiter r.multishot) cb x := by
  simp only [completeRequest, hr, if_pos hcancels]
  by_cases hmore : (r.multishot && more) = true
  . simp only [if_pos hmore, hcb]
  . simp only [if_neg hmore, hcb]

theorem completeRequest_prims (i : Nat) (more : Bool)
    (hS : ∀ r, w.requests[i]? = some r → S (.request r.awaiter r.multishot))
    : Prims S T w (w.completeRequest i x more) := by
  unfold completeRequest
  split
  . exact .refl w
  . rename_i r hr
    split
    . have hset : Prims S T w
          (if r.multishot && more then w else { w with requests := w.requests.eraseIdx i }) := by
        split
        . exact .refl w
        . exact Prim.erase.prims
      simp only
      split
      . exact hset
      . exact hset.trans (invoke_prims _ (hS r hr))
    . exact .refl w

-- The sources of the completions of a step.
def sources (w : World) : Step → Source → Prop
  | .complete i _ _, src => ∃ r, w.requests[i]? = some r ∧ src = .request r.awaiter r.multishot
  | _, src => src = .inline

-- The awaiters that a step may store a callback for.
def targets (w : World) (a : Nat) : Prop :=
  w.nextBlock ≤ a ∨ ∃ e ∈ w.cancels, e.awaiter = a

theorem step_prims (w : World) (st : Step)
    : Prims (w.sources st) w.targets w (w.step st) := by
  have hif : ∀ (p : Bool) (w' : World), (p = true → Prims (w.sources st) w.targets w w')
      → Prims (w.sources st) w.targets w (if p then w' else w) := by
    intro p w' h
    split
    . rename_i hp
      exact h hp
    . exact .refl w
  cases st with
  | start spawned => exact Prim.start.prims
  | call c op sub =>
    apply hif
    intro hact
    simp only [canAct, Bool.and_eq_true] at hact
    exact call_prims op sub hact.1 rfl (.inl (Nat.le_refl _))
  | cancelReadRest sub =>
    exact hif _ _ fun _ => cancelReadRest_prims sub rfl fun e he => .inr ⟨e, he, rfl⟩
  | await c a => exact hif _ _ fun _ => Prim.await.prims
  | drop c a => exact hif _ _ fun _ => Prim.drop.prims
  | finish c => exact hif _ _ fun _ => Prim.finish.prims
  | complete i x more => exact completeRequest_prims i more fun r hr => ⟨r, hr, rfl⟩
  | clearSpawned => exact Prim.clearSpawned.prims

theorem Prim.wf (hprim : Prim S T w w') (h : w.Wf)
    : w'.Wf := by
  cases hprim with
  | keep _ hcoros hblocks hcoro hblock _ _ _ => exact h.congr hcoros hblocks hcoro hblock
  | @submit slot cb multishot sub _ _ _ => cases sub <;> exact h.congr rfl rfl rfl rfl
  | disable => exact h.congr rfl rfl rfl rfl
  | erase => exact h.congr rfl rfl rfl rfl
  | newBlock hc =>
    obtain ⟨coro, hcoro, -⟩ := isRunning_iff.mp hc
    exact h.newBlock hcoro
  | complete _ => exact h.complete
  | await => exact h.await
  | drop => exact h.drop
  | finish => exact h.finish
  | clearSpawned => exact h.clearSpawned
  | start => exact h.start

theorem init_wf (backend : Backend)
    : Wf { backend } := by
  constructor <;> intros <;> simp_all

theorem step_wf (h : w.Wf) (st : Step)
    : (w.step st).Wf :=
  (step_prims w st).invariant (fun _ _ hp hw => hp.wf hw) h

theorem run_wf (steps : List Step) (h : w.Wf)
    : (w.run steps).Wf :=
  foldl_invariant steps (fun _ st _ hwf => step_wf hwf st) h

-- An invariant that every part of a step keeps.
theorem run_invariant {I : World → Prop} (backend : Backend) (steps : List Step)
    (hprim : ∀ S T w w', Prim S T w w' → w.Wf → I w → I w') (hinit : I { backend })
    : I (run { backend } steps) := by
  have hstep : ∀ w, ∀ st ∈ steps, Wf w ∧ I w → Wf (step w st) ∧ I (step w st) := by
    intro w st _ h
    apply (step_prims w st).invariant (I := fun w => w.Wf ∧ I w)
    . exact fun w w' hp hw => ⟨hp.wf hw.1, hprim _ _ w w' hp hw.1 hw.2⟩
    . exact h
  exact (foldl_invariant steps hstep ⟨init_wf backend, hinit⟩).2

end World

end Coroutine
end Ezio
