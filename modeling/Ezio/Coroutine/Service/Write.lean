import Ezio.Coroutine.Service.Resume

/-!
This module contains overlapping calls of `write`. The backend keeps one write callback for a file
descriptor, so that the results go to their own coroutines if the writes of a file descriptor come one after
the other.
-/

namespace Ezio
namespace Coroutine

namespace World

variable {w w' : World} {a c fd : Nat} {b : StateBlock}

-- The steps of coroutines that only write.
def WriteStep : Step → Prop
  | .start _ | .await _ _ | .drop _ _ | .finish _ | .complete _ _ _ | .call _ (.write _) _ => True
  | _ => False

instance : (st : Step) → Decidable (WriteStep st)
  | .start _ | .await _ _ | .drop _ _ | .finish _ | .complete _ _ _ | .call _ (.write _) _ => .isTrue trivial
  | .call _ (.read _ _ _) _ | .call _ (.readGroup _) _ | .call _ (.accept _) _ | .call _ .sleep _
  | .call _ (.cancelRead _) _ | .call _ (.cancelWrite _) _ | .call _ (.cancelAccept _) _
  | .cancelReadRest _ | .clearSpawned => .isFalse id

-- A write is submitted when no other write of the file descriptor is outstanding, and it does not fail with
-- its request left in the ring. The awaitable of a write lives until the write has completed.
def WritesInTurn (w : World) : Step → Prop
  | .call _ (.write fd) sub => sub ≠ .left ∧ (sub = .accepted → ∀ r ∈ w.requests, r.slot ≠ .write fd)
  | .drop _ a => ∀ b ∈ w.blocks a, b.ready
  | .finish c => ∀ a < w.nextBlock, ∀ b ∈ w.blocks a, b.owner = c → b.ready
  | _ => True

instance (w : World) : (st : Step) → Decidable (w.WritesInTurn st)
  | .call _ (.write fd) sub =>
    inferInstanceAs (Decidable (sub ≠ .left ∧ (sub = .accepted → ∀ r ∈ w.requests, r.slot ≠ .write fd)))
  | .drop _ a => inferInstanceAs (Decidable (∀ b ∈ w.blocks a, b.ready))
  | .finish c =>
    inferInstanceAs (Decidable (∀ a < w.nextBlock, ∀ b ∈ w.blocks a, b.owner = c → b.ready))
  | .start _ | .await _ _ | .complete _ _ _ | .call _ (.read _ _ _) _ | .call _ (.readGroup _) _
  | .call _ (.accept _) _ | .call _ .sleep _ | .call _ (.cancelRead _) _ | .call _ (.cancelWrite _) _
  | .call _ (.cancelAccept _) _ | .cancelReadRest _ | .clearSpawned => .isTrue trivial

-- Every request is the write of the awaiter whose callback is in its slot.
structure Writing (w : World) : Prop where
  cancels : w.cancels = []
  kind : ∀ a b, w.blocks a = some b → b.kind = .result
  request : ∀ r ∈ w.requests, r.multishot = false ∧ (∃ fd, r.slot = .write fd)
    ∧ w.slots r.slot = some (.awaiter r.awaiter)
    ∧ ∃ b, w.blocks r.awaiter = some b ∧ b.ready = false
  distinct : w.requests.Pairwise fun r r' => r.slot ≠ r'.slot ∧ r.awaiter ≠ r'.awaiter
  waiting : ∀ a b, w.blocks a = some b → b.ready = false
    → (∃ r ∈ w.requests, r.awaiter = a) ∧ (b.handle = none ∨ ∃ c, w.SuspendedOn c a)
  suspended : ∀ c a, w.SuspendedOn c a → ∃ b, w.blocks a = some b ∧ b.ready = false

theorem Writing.write_accepted (h : w.Writing) (hwf : w.Wf) (hturn : ∀ r ∈ w.requests, r.slot ≠ .write fd)
    : (w.write c fd .accepted).Writing := by
  have hne : ∀ a b, w.blocks a = some b → a ≠ w.nextBlock := by
    intro a b hb heq
    have := hwf.blockLt a b hb
    omega
  have hget : ∀ a b, (w.write c fd .accepted).blocks a = some b
      → (a = w.nextBlock ∧ b = { kind := .result, owner := c, result := .result 0 })
        ∨ w.blocks a = some b := by
    intro a b hb
    change Function.update w.blocks w.nextBlock _ a = some b at hb
    rw [Function.update_apply] at hb
    split at hb
    . rename_i heq
      cases hb
      exact .inl ⟨heq, rfl⟩
    . exact .inr hb
  have hkeep : ∀ a b, w.blocks a = some b → (w.write c fd .accepted).blocks a = some b := by
    intro a b hb
    change Function.update w.blocks w.nextBlock _ a = some b
    rw [Function.update_of_ne (hne a b hb)]
    exact hb
  have hnew : (w.write c fd .accepted).blocks w.nextBlock
      = some { kind := .result, owner := c, result := .result 0 } :=
    Function.update_self ..
  have hrequests : (w.write c fd .accepted).requests
      = w.requests ++ [{ slot := .write fd, awaiter := w.nextBlock, multishot := false }] := rfl
  have hslots : ∀ r ∈ w.requests, (w.write c fd .accepted).slots r.slot = w.slots r.slot := by
    intro r hr
    exact Function.update_of_ne (hturn r hr) _ _
  constructor
  . exact h.cancels
  . intro a b hb
    rcases hget a b hb with ⟨-, heq⟩ | hold
    . rw [heq]
    . exact h.kind a b hold
  . intro r hr
    rw [hrequests, List.mem_append, List.mem_singleton] at hr
    rcases hr with hr | rfl
    . obtain ⟨hm, hfd, hslot, b, hb, hready⟩ := h.request r hr
      refine ⟨hm, hfd, ?_, b, hkeep _ b hb, hready⟩
      rw [hslots r hr]
      exact hslot
    . exact ⟨rfl, ⟨fd, rfl⟩, Function.update_self .., _, hnew, rfl⟩
  . rw [hrequests, List.pairwise_append]
    refine ⟨h.distinct, List.pairwise_singleton .., ?_⟩
    intro r hr r' hr'
    rw [List.mem_singleton] at hr'
    subst hr'
    obtain ⟨-, -, -, b, hb, -⟩ := h.request r hr
    exact ⟨hturn r hr, hne _ b hb⟩
  . intro a b hb hready
    rw [hrequests]
    rcases hget a b hb with ⟨rfl, rfl⟩ | hold
    . exact ⟨⟨_, List.mem_append_right _ (List.mem_singleton.mpr rfl), rfl⟩, .inl rfl⟩
    . obtain ⟨⟨r, hr, heq⟩, hhandle⟩ := h.waiting a b hold hready
      exact ⟨⟨r, List.mem_append_left _ hr, heq⟩, hhandle⟩
  . intro c' a hs
    obtain ⟨b, hb, hready⟩ := h.suspended c' a hs
    exact ⟨b, hkeep a b hb, hready⟩

theorem write_refused_eq (w : World) (c fd : Nat)
    : w.write c fd .refused
        = addLog { w with
            blocks := Function.update w.blocks w.nextBlock
              (some { kind := .result, owner := c, ready := true, result := .result (-1) }),
            nextBlock := w.nextBlock + 1 } (.completed .inline w.nextBlock (.result (-1)) none) := by
  simp [write, submitWith, submit, newBlock, setBlock, complete, StateBlock.complete, Kind.outcome]

theorem Writing.write_refused (h : w.Writing) (hwf : w.Wf)
    : (w.write c fd .refused).Writing := by
  rw [write_refused_eq]
  have hne : ∀ a b, w.blocks a = some b → a ≠ w.nextBlock := by
    intro a b hb heq
    have := hwf.blockLt a b hb
    omega
  constructor
  . exact h.cancels
  . intro a b hb
    simp only [addLog, Function.update_apply] at hb
    split at hb
    . cases hb
      rfl
    . exact h.kind a b hb
  . intro r hr
    obtain ⟨hm, hfd, hslot, b, hb, hready⟩ := h.request r hr
    refine ⟨hm, hfd, hslot, b, ?_, hready⟩
    simp only [addLog, Function.update_of_ne (hne _ b hb)]
    exact hb
  . exact h.distinct
  . intro a b hb hready
    simp only [addLog, Function.update_apply] at hb
    split at hb
    . cases hb
      cases hready
    . exact h.waiting a b hb hready
  . intro c' a hs
    obtain ⟨b, hb, hready⟩ := h.suspended c' a hs
    refine ⟨b, ?_, hready⟩
    simp only [addLog, Function.update_of_ne (hne a b hb)]
    exact hb

theorem Writing.await (h : w.Writing)
    : (w.await c a).Writing := by
  rcases await_cases w c a with heq | ⟨coro, b, hcoro, hrunning, hb, howner, hhandle, ⟨-, heq⟩ | ⟨hready, heq⟩⟩
  . rw [heq]
    exact h
  . rw [heq]
    exact ⟨h.cancels, h.kind, h.request, h.distinct, h.waiting, h.suspended⟩
  . rw [heq]
    have hready' : b.ready = false := by
      simpa [StateBlock.awaitReady, h.kind a b hb] using hready
    have hsuspended := fun c' a' => suspend_suspendedOn (a := a) (o := some { b with handle := some c })
      (e := .suspended c a) hcoro hrunning c' a'
    have hget : ∀ a' b', Function.update w.blocks a (some { b with handle := some c }) a' = some b'
        → a' = a ∧ b' = { b with handle := some c } ∨ a' ≠ a ∧ w.blocks a' = some b' := by
      intro a' b' hb'
      rw [Function.update_apply] at hb'
      split at hb'
      . rename_i heq
        cases hb'
        exact .inl ⟨heq, rfl⟩
      . rename_i hne
        exact .inr ⟨hne, hb'⟩
    have hkeep : ∀ a' b', w.blocks a' = some b' → b'.ready = false
        → ∃ b'', Function.update w.blocks a (some { b with handle := some c }) a' = some b''
          ∧ b''.ready = false := by
      intro a' b' hb' hr
      rw [Function.update_apply]
      split
      . exact ⟨_, rfl, hready'⟩
      . exact ⟨b', hb', hr⟩
    constructor
    . exact h.cancels
    . intro a' b' hb'
      rcases hget a' b' hb' with ⟨-, heq⟩ | ⟨-, hold⟩
      . rw [heq]
        exact h.kind a b hb
      . exact h.kind a' b' hold
    . intro r hr
      obtain ⟨hm, hfd, hslot, b', hb', hr'⟩ := h.request r hr
      exact ⟨hm, hfd, hslot, hkeep _ b' hb' hr'⟩
    . exact h.distinct
    . intro a' b' hb' hr'
      rcases hget a' b' hb' with ⟨rfl, rfl⟩ | ⟨-, hold⟩
      . exact ⟨(h.waiting a' b hb hready').1, .inr ⟨c, (hsuspended c a').mpr (.inl ⟨rfl, rfl⟩)⟩⟩
      . obtain ⟨hrequest, hnone | ⟨c', hs⟩⟩ := h.waiting a' b' hold hr'
        . exact ⟨hrequest, .inl hnone⟩
        . exact ⟨hrequest, .inr ⟨c', (hsuspended c' a').mpr (.inr hs)⟩⟩
    . intro c' a' hs
      rcases (hsuspended c' a').mp hs with ⟨rfl, rfl⟩ | hs
      . exact hkeep a' b hb hready'
      . obtain ⟨b', hb', hr'⟩ := h.suspended c' a' hs
        exact hkeep a' b' hb' hr'

-- Awaitables of writes that have completed go away.
theorem Writing.remove (h : w.Writing) (hcancels : w'.cancels = w.cancels)
    (hrequests : w'.requests = w.requests) (hslots : w'.slots = w.slots)
    (hcoros : ∀ c a, w'.SuspendedOn c a ↔ w.SuspendedOn c a)
    (hblocks : ∀ a b, w'.blocks a = some b → w.blocks a = some b)
    (hkeep : ∀ a b, w.blocks a = some b → b.ready = false → w'.blocks a = some b)
    : w'.Writing := by
  constructor
  . rw [hcancels]
    exact h.cancels
  . exact fun a b hb => h.kind a b (hblocks a b hb)
  . intro r hr
    rw [hrequests] at hr
    obtain ⟨hm, hfd, hslot, b, hb, hready⟩ := h.request r hr
    rw [hslots]
    exact ⟨hm, hfd, hslot, b, hkeep _ b hb hready, hready⟩
  . rw [hrequests]
    exact h.distinct
  . intro a b hb hready
    rw [hrequests]
    simp only [hcoros]
    exact h.waiting a b (hblocks a b hb) hready
  . intro c a hs
    obtain ⟨b, hb, hready⟩ := h.suspended c a ((hcoros c a).mp hs)
    exact ⟨b, hkeep a b hb hready, hready⟩

theorem Writing.drop (h : w.Writing) (hready : ∀ b ∈ w.blocks a, b.ready)
    : (w.drop c a).Writing := by
  unfold World.drop
  split
  . split
    . refine h.remove rfl rfl rfl (fun _ _ => Iff.rfl) ?_ ?_
      . intro a' b' hb'
        simp only [setBlock, Function.update_apply] at hb'
        split at hb'
        . cases hb'
        . exact hb'
      . intro a' b' hb' hr'
        simp only [setBlock]
        rw [Function.update_of_ne]
        . exact hb'
        . rintro rfl
          rw [hready b' hb'] at hr'
          cases hr'
    . exact h
  . exact h

theorem Writing.finish (h : w.Writing) (hwf : w.Wf)
    (hready : ∀ a < w.nextBlock, ∀ b ∈ w.blocks a, b.owner = c → b.ready)
    : (w.finish c).Writing := by
  have hrest : (w.finish c).cancels = w.cancels ∧ (w.finish c).requests = w.requests
      ∧ (w.finish c).slots = w.slots := by
    unfold World.finish
    split <;> exact ⟨rfl, rfl, rfl⟩
  apply h.remove hrest.1 hrest.2.1 hrest.2.2 (finish_suspendedOn w c) (fun _ _ => finish_blocks)
  intro a' b' hb' hr'
  have hne : b'.owner ≠ c := by
    intro heq
    rw [hready a' (hwf.blockLt a' b' hb') b' hb' heq] at hr'
    cases hr'
  unfold World.finish
  split
  . simp [setCoro, dropOwned, hb', hne]
  . exact hb'

theorem Writing.start {spawned : Bool} (h : w.Writing) (hwf : w.Wf)
    : (w.start spawned).Writing :=
  h.remove rfl rfl rfl (start_suspendedOn hwf spawned) (fun _ _ hb => hb) fun _ _ hb _ => hb

theorem Writing.receptive {r : Request} (h : w.Writing) (hr : r ∈ w.requests)
    : w.Receptive r.awaiter := by
  obtain ⟨-, -, -, b, hb, hready⟩ := h.request r hr
  exact ⟨b, hb, (h.waiting r.awaiter b hb hready).2⟩

-- A completion in a run of writes goes to the awaiter of its own write.
theorem Writing.completeRequest_eq {i : Nat} {r : Request} {x : Completion} {more : Bool} (h : w.Writing)
    (hr : w.requests[i]? = some r)
    : w.completeRequest i x more
        = complete { w with requests := w.requests.eraseIdx i } (.request r.awaiter false) r.awaiter x := by
  obtain ⟨hm, -, hslot, -⟩ := h.request r (List.mem_of_getElem? hr)
  rw [World.completeRequest_eq hr h.cancels hslot, hm]
  rfl

theorem Writing.completeRequest {i : Nat} {r : Request} {x : Completion} {more : Bool} (h : w.Writing)
    (hwf : w.Wf) (hr : w.requests[i]? = some r)
    : (w.completeRequest i x more).Writing := by
  have hmem := List.mem_of_getElem? hr
  obtain ⟨-, -, -, b, hb, hready⟩ := h.request r hmem
  have hother := pairwise_eraseIdx h.distinct hr
  have hne : ∀ r' ∈ w.requests.eraseIdx i, r'.awaiter ≠ r.awaiter := by
    intro r' hr'
    rcases hother r' hr' with hne | hne
    . exact Ne.symm hne.2
    . exact hne.2
  have hwf₁ : Wf { w with requests := w.requests.eraseIdx i } := hwf.congr rfl rfl rfl rfl
  have hreceptive : Receptive { w with requests := w.requests.eraseIdx i } r.awaiter := h.receptive hmem
  have hslots := complete_slots { w with requests := w.requests.eraseIdx i } (.request r.awaiter false)
    r.awaiter x
  have hcancels := (complete_rest { w with requests := w.requests.eraseIdx i } (.request r.awaiter false)
    r.awaiter x).2.2.2.1
  have hblocks : (w.completeRequest i x more).blocks
      = Function.update w.blocks r.awaiter (some (b.complete x)) := by
    rw [h.completeRequest_eq hr]
    exact complete_blocks hb
  have hsuspended : ∀ c' a', (w.completeRequest i x more).SuspendedOn c' a'
      ↔ a' ≠ r.awaiter ∧ w.SuspendedOn c' a' := by
    rw [h.completeRequest_eq hr]
    exact complete_suspendedOn hwf₁ hreceptive
  rw [← h.completeRequest_eq hr] at hslots hcancels
  have hcomplete : (b.complete x).ready = true := by
    simp [StateBlock.complete, h.kind r.awaiter b hb]
  have hget : ∀ a' b', (w.completeRequest i x more).blocks a' = some b'
      → a' = r.awaiter ∧ b' = b.complete x ∨ a' ≠ r.awaiter ∧ w.blocks a' = some b' := by
    intro a' b' hb'
    rw [hblocks, Function.update_apply] at hb'
    split at hb'
    . rename_i heq
      cases hb'
      exact .inl ⟨heq, rfl⟩
    . rename_i hne'
      exact .inr ⟨hne', hb'⟩
  constructor
  . rw [hcancels]
    exact h.cancels
  . intro a' b' hb'
    rcases hget a' b' hb' with ⟨-, heq⟩ | ⟨-, hold⟩
    . rw [heq]
      exact h.kind r.awaiter b hb
    . exact h.kind a' b' hold
  . intro r' hr'
    rw [hslots.2] at hr'
    obtain ⟨hm, hfd, hslot, b', hb', hready'⟩ := h.request r' (List.mem_of_mem_eraseIdx hr')
    rw [hslots.1, hblocks, Function.update_of_ne (hne r' hr')]
    exact ⟨hm, hfd, hslot, b', hb', hready'⟩
  . rw [hslots.2]
    exact h.distinct.sublist (List.eraseIdx_sublist ..)
  . intro a' b' hb' hready'
    rcases hget a' b' hb' with ⟨-, heq⟩ | ⟨hne', hold⟩
    . rw [heq, hcomplete] at hready'
      cases hready'
    . obtain ⟨⟨r', hr', heq⟩, hhandle⟩ := h.waiting a' b' hold hready'
      rw [hslots.2]
      refine ⟨⟨r', mem_eraseIdx_of_ne hr hr' ?_, heq⟩, ?_⟩
      . rintro rfl
        exact hne' heq.symm
      . rcases hhandle with hnone | ⟨c', hs⟩
        . exact .inl hnone
        . exact .inr ⟨c', (hsuspended c' a').mpr ⟨hne', hs⟩⟩
  . intro c' a' hs
    obtain ⟨hne', hs⟩ := (hsuspended c' a').mp hs
    obtain ⟨b', hb', hready'⟩ := h.suspended c' a' hs
    refine ⟨b', ?_, hready'⟩
    rw [hblocks, Function.update_of_ne hne']
    exact hb'

-- Every completion of an awaiter is the one of its own write, and there is at most one.
structure OwnWrites (w : World) : Prop where
  own : ∀ src a o r, .completed src a o r ∈ w.log → src = .inline ∨ src = .request a false
  once : ∀ a, (w.completions a).length ≤ 1
  returned : ∀ c a o, .returned c a o ∈ w.log → w.completions a = [o]

theorem OwnWrites.same (h : w.OwnWrites) (hlog : w'.log = w.log)
    : w'.OwnWrites := by
  constructor
  . rw [hlog]
    exact h.own
  . simp only [completions, hlog]
    exact h.once
  . simp only [completions, hlog]
    exact h.returned

-- What `complete` logs for an awaiter that it may complete.
theorem complete_log {src : Source} {x : Completion} (hwf : w.Wf) (ha : w.Receptive a)
    (hb : w.blocks a = some b)
    : ∃ r, (w.complete src a x).log = w.log ++ [Entry.completed src a (b.kind.outcome x) r] := by
  obtain ⟨b', hb', ha⟩ := ha
  rw [hb, Option.some.injEq] at hb'
  subst hb'
  rcases complete_cases hb with ⟨-, heq⟩ | ⟨c, coro, on, -, -, -, heq⟩ | ⟨c, hhandle, hnot, -⟩
  . exact ⟨_, by rw [heq]; rfl⟩
  . exact ⟨_, by rw [heq]; rfl⟩
  . rcases ha with hnone | ⟨c', coro', hc', hstatus'⟩
    . rw [hhandle] at hnone
      cases hnone
    . obtain ⟨b', hb', -, hhandle'⟩ := hwf.suspended c' coro' a hc' hstatus'
      rw [hb, Option.some.injEq] at hb'
      rw [← hb', hhandle, Option.some.injEq] at hhandle'
      subst hhandle'
      exact absurd hstatus' (hnot coro' a hc')

theorem OwnWrites.completed {src : Source} {o : Outcome} {r : Option Resumption} (h : w.OwnWrites)
    (hlog : w'.log = w.log ++ [Entry.completed src a o r]) (hsrc : src = .inline ∨ src = .request a false)
    (hnil : w.completions a = [])
    : w'.OwnWrites := by
  have hcompletions : ∀ a', w'.completions a' = w.completions a' ++ if a = a' then [o] else [] := by
    intro a'
    have heq : w'.completions a' = (w.addLog (Entry.completed src a o r)).completions a' := by
      simp only [completions, hlog, addLog]
    rw [heq, completions_addLog, Entry.outcomeOf]
    split <;> rfl
  constructor
  . intro src' a' o' r' hmem
    rw [hlog, List.mem_append, List.mem_singleton] at hmem
    rcases hmem with hmem | heq
    . exact h.own src' a' o' r' hmem
    . cases heq
      exact hsrc
  . intro a'
    rw [hcompletions]
    by_cases ha : a = a'
    . subst ha
      rw [hnil, if_pos rfl]
      exact Nat.le_refl 1
    . rw [if_neg ha, List.append_nil]
      exact h.once a'
  . intro c a' o' hmem
    rw [hlog, List.mem_append, List.mem_singleton] at hmem
    have hold := h.returned c a' o' (hmem.resolve_right (by simp))
    rw [hcompletions, if_neg, List.append_nil]
    . exact hold
    . rintro rfl
      rw [hnil] at hold
      cases hold

theorem OwnWrites.await (h : w.OwnWrites) (hwrite : w.Writing) (hrecorded : w.Recorded)
    : (w.await c a).OwnWrites := by
  have hother : ∀ e, (∀ a, e.outcomeOf a = none) → ∀ a, (w.addLog e).completions a = w.completions a := by
    intro e he a
    rw [completions_addLog, he, Option.toList_none, List.append_nil]
  rcases await_cases w c a with heq | ⟨coro, b, -, -, hb, -, -, ⟨hready, heq⟩ | ⟨-, heq⟩⟩
  . rw [heq]
    exact h
  . rw [heq]
    have hcompletions := hother (.returned c a b.result) fun _ => rfl
    constructor
    . intro src a' o r hmem
      exact h.own src a' o r ((mem_addLog.mp hmem).resolve_right (by simp))
    . intro a'
      rw [hcompletions]
      exact h.once a'
    . intro c' a' o hmem
      rw [hcompletions]
      rcases mem_addLog.mp hmem with hmem | heq'
      . exact h.returned c' a' o hmem
      . cases heq'
        -- the write has completed, with what its state block holds
        have hkind := hwrite.kind a b hb
        have hne := (hrecorded.ready a b hb hkind).mp (by simpa [StateBlock.awaitReady, hkind] using hready)
        obtain ⟨o, ho⟩ : ∃ o, w.completions a = [o] := by
          apply List.length_eq_one_iff.mp
          have := h.once a
          have := List.length_pos_iff.mpr hne
          omega
        rw [hrecorded.result a b hb, ho]
        rfl
  . rw [heq]
    have hsame : OwnWrites (w.addLog (.suspended c a)) := by
      have hcompletions := hother (.suspended c a) fun _ => rfl
      constructor
      . intro src a' o r hmem
        exact h.own src a' o r ((mem_addLog.mp hmem).resolve_right (by simp))
      . intro a'
        rw [hcompletions]
        exact h.once a'
      . intro c' a' o hmem
        rw [hcompletions]
        exact h.returned c' a' o ((mem_addLog.mp hmem).resolve_right (by simp))
    exact hsame.same rfl

structure WritesOwned (w : World) : Prop where
  wf : w.Wf
  recorded : w.Recorded
  writing : w.Writing
  resumes : w.Resumes
  own : w.OwnWrites

theorem WritesOwned.write {sub : Submit} (h : w.WritesOwned) (hc : w.isRunning c) (hleft : sub ≠ .left)
    (hsub : Submit.possible w.backend false sub)
    (hturn : sub = .accepted → ∀ r ∈ w.requests, r.slot ≠ .write fd)
    : (w.write c fd sub).Writing ∧ (w.write c fd sub).Resumes ∧ (w.write c fd sub).OwnWrites := by
  have hnew : (w.newBlock c .result).Resumes := h.resumes.newBlock h.wf
  cases sub with
  | accepted =>
    refine ⟨h.writing.write_accepted h.wf (hturn rfl), ?_, ?_⟩
    . exact hnew.same rfl rfl rfl rfl
    . exact h.own.same rfl
  | refused =>
    refine ⟨h.writing.write_refused h.wf, ?_, ?_⟩
    . obtain ⟨coro, hcoro, -⟩ := isRunning_iff.mp hc
      refine hnew.complete (h.wf.newBlock hcoro) ⟨_, Function.update_self .., .inl rfl⟩
    . rw [write_refused_eq]
      exact h.own.completed rfl (.inl rfl) (h.recorded.fresh _ (Nat.le_refl _))
  | stored => simp [Submit.possible] at hsub
  | left => exact absurd rfl hleft

theorem WritesOwned.completeRequest {i : Nat} {x : Completion} {more : Bool} (h : w.WritesOwned)
    : (w.completeRequest i x more).Writing ∧ (w.completeRequest i x more).Resumes
        ∧ (w.completeRequest i x more).OwnWrites := by
  cases hr : w.requests[i]? with
  | none =>
    have heq : w.completeRequest i x more = w := by simp [World.completeRequest, hr]
    rw [heq]
    exact ⟨h.writing, h.resumes, h.own⟩
  | some r =>
    refine ⟨h.writing.completeRequest h.wf hr, ?_⟩
    have hmem := List.mem_of_getElem? hr
    obtain ⟨-, -, -, b, hb, hready⟩ := h.writing.request r hmem
    have hwf₁ : Wf { w with requests := w.requests.eraseIdx i } := h.wf.congr rfl rfl rfl rfl
    have hreceptive : Receptive { w with requests := w.requests.eraseIdx i } r.awaiter :=
      h.writing.receptive hmem
    rw [h.writing.completeRequest_eq hr]
    refine ⟨Resumes.complete (h.resumes.same rfl rfl rfl rfl) hwf₁ hreceptive, ?_⟩
    have hnil : w.completions r.awaiter = [] := by
      by_contra hne
      have hready' := (h.recorded.ready r.awaiter b hb (h.writing.kind _ b hb)).mpr hne
      rw [hready] at hready'
      cases hready'
    obtain ⟨res, hlog⟩ := complete_log hwf₁ hreceptive hb
    exact h.own.completed hlog (.inr rfl) hnil

theorem step_writesOwned (h : w.WritesOwned) (st : Step) (hst : WriteStep st) (hturn : w.WritesInTurn st)
    : (w.step st).WritesOwned := by
  have hparts : (w.step st).Writing ∧ (w.step st).Resumes ∧ (w.step st).OwnWrites := by
    have hself : w.Writing ∧ w.Resumes ∧ w.OwnWrites := ⟨h.writing, h.resumes, h.own⟩
    cases st with
    | start spawned => exact ⟨h.writing.start h.wf, h.resumes.start h.wf, h.own.same rfl⟩
    | call c op sub =>
      simp only [step]
      split
      . rename_i hact
        simp only [canAct, Bool.and_eq_true] at hact
        cases op with
        | write fd =>
          simp only [call]
          split
          . rename_i hsub
            exact h.write hact.1 hturn.1 hsub hturn.2
          . exact hself
        | _ => exact absurd hst id
      . exact hself
    | await c a =>
      simp only [step]
      split
      . exact ⟨h.writing.await, h.resumes.await, h.own.await h.writing h.recorded⟩
      . exact hself
    | drop c a =>
      simp only [step]
      split
      . exact ⟨h.writing.drop hturn, h.resumes.drop h.wf, h.own.same (drop_log w c a)⟩
      . exact hself
    | finish c =>
      simp only [step]
      split
      . refine ⟨h.writing.finish h.wf hturn, h.resumes.finish h.wf, h.own.same ?_⟩
        unfold World.finish
        split <;> rfl
      . exact hself
    | complete i x more => exact h.completeRequest
    | cancelReadRest sub => exact absurd hst id
    | clearSpawned => exact absurd hst id
  exact ⟨step_wf h.wf st, step_recorded h.wf h.recorded st, hparts.1, hparts.2.1, hparts.2.2⟩

theorem init_writesOwned (backend : Backend)
    : WritesOwned { backend } := by
  refine ⟨init_wf backend, init_recorded backend, ?_, init_resumes backend, ?_⟩
  . constructor <;> intros <;> simp_all [SuspendedOn]
  . constructor <;> intros <;> simp_all [completions]

theorem writes_resumed_once (backend : Backend) (steps : List Step) (hwrite : ∀ st ∈ steps, WriteStep st)
    (hturn : Along step WritesInTurn { backend } steps)
    : let w := run { backend } steps
      (∀ e ∈ w.log, e.Proper)
      ∧ (∀ c a, .suspended c a ∈ w.log
        → (w.SuspendedOn c a ∧ w.resumptions a = []
            ∧ ∃ r ∈ w.requests, r.awaiter = a ∧ w.slots r.slot = some (.awaiter a))
          ∨ (¬w.SuspendedOn c a ∧ (w.resumptions a).length = 1))
      ∧ w.OwnWrites := by
  intro w
  have h : w.WritesOwned := by
    apply Along.invariant (P := fun w st => WriteStep st ∧ w.WritesInTurn st)
    . exact fun w st h hst => step_writesOwned h st hst.1 hst.2
    . exact init_writesOwned backend
    . exact hturn.and_of_mem hwrite
  refine ⟨h.resumes.proper, ?_, h.own⟩
  intro c a hmem
  rcases h.resumes.exactly c a hmem with ⟨hs, hnil⟩ | hone
  . left
    refine ⟨hs, hnil, ?_⟩
    obtain ⟨b, hb, hready⟩ := h.writing.suspended c a hs
    obtain ⟨⟨r, hr, rfl⟩, -⟩ := h.writing.waiting a b hb hready
    exact ⟨r, hr, rfl, (h.writing.request r hr).2.2.1⟩
  . exact .inr hone

-- Two writes on one file descriptor in turn and one on another at the same time.
def writesInTurn : List Step :=
  [.start true, .start true, .call 0 (.write 3) .accepted, .await 0 0, .call 1 (.write 4) .accepted,
    .complete 0 { ret := 10 } false, .call 0 (.write 3) .accepted, .await 1 1, .await 0 2]

theorem writesInTurn_resumed_once
    : (∀ st ∈ writesInTurn, WriteStep st) ∧ Along step WritesInTurn { backend := .epoll } writesInTurn
        ∧ let w := run { backend := .epoll } writesInTurn
          (∀ e ∈ w.log, e.Proper)
          ∧ (∀ c a, .suspended c a ∈ w.log
            → (w.SuspendedOn c a ∧ w.resumptions a = []
                ∧ ∃ r ∈ w.requests, r.awaiter = a ∧ w.slots r.slot = some (.awaiter a))
              ∨ (¬w.SuspendedOn c a ∧ (w.resumptions a).length = 1))
          ∧ w.OwnWrites :=
  ⟨by decide +kernel, by decide +kernel,
    writes_resumed_once .epoll writesInTurn (by decide +kernel) (by decide +kernel)⟩

-- The second write replaces the callback of the first one while that is outstanding.
def overlappingWrites : List Step :=
  [.start true, .start true, .call 0 (.write 3) .accepted, .await 0 0, .call 1 (.write 3) .accepted,
    .await 1 1, .complete 0 { ret := 10 } false, .complete 0 { ret := 20 } false]

theorem overlappingWrites_lost
    : let w := run { backend := .epoll } overlappingWrites
      w.log = [.suspended 0 0, .suspended 1 1,
        .completed (.request 0 false) 1 (.result 10) (some ⟨1, 1, some (.result 10)⟩),
        .completed (.request 1 false) 1 (.result 20) none, .badResume 1]
      ∧ w.coros 0 = some { status := .suspended 0, spawned := true } ∧ w.requests = [] := by
  decide +kernel

end World

end Coroutine
end Ezio
