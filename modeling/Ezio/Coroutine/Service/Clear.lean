import Ezio.Coroutine.Service.ReadState

/-!
This module contains what `clear_spawned` leaves behind of the coroutines that it destroys. It takes back no
callback from the backend and no pending read from the map of file descriptors.
-/

namespace Ezio
namespace Coroutine

-- The coroutine that is resumed.
def Entry.resumes : Entry → Option Nat
  | completed _ _ _ (some r) => some r.coro
  | badResume c => some c
  | _ => none

namespace World

variable {w w' : World} {a c fd : Nat} {D : Nat → Prop} {l : List Entry}

-- A callback that does nothing.
def Guarded (w : World) : Callback → Prop
  | .cancelRead _ a => w.doneFlag a = true
  | .read _ _ | .awaiter _ => False

-- Neither an outstanding request nor the service knows one of the awaiters `D`.
structure Unregistered (D : Nat → Prop) (w : World) : Prop where
  slots : ∀ r ∈ w.requests, ∀ cb, w.slots r.slot = some cb → D cb.target → w.Guarded cb
  pending : ∀ fd info p, w.fdInfoMap fd = some info → info.pendingReadAwaiter = some p → D p
    → info.state = .none
  cancels : ∀ e ∈ w.cancels, ¬D e.awaiter

structure Spared (D : Nat → Prop) (l : List Entry) (w : World) : Prop extends Unregistered D w where
  dead : ∀ a, D a → w.blocks a = none ∧ a < w.nextBlock
  log : ∃ es, w.log = l ++ es ∧ ∀ src a, .useAfterFree src a ∈ es → ¬D a

theorem Guarded.mono {cb : Callback} (h : w.Guarded cb) (hdone : ∀ a, w.doneFlag a → w'.doneFlag a)
    : w'.Guarded cb := by
  cases cb with
  | cancelRead fd a => exact hdone a h
  | read fd a => exact h
  | awaiter a => exact h

-- No callback and no awaiter becomes known to the backend or the service.
theorem Spared.frame (h : Spared D l w)
    (hblocks : ∀ a, w.blocks a = none → a < w.nextBlock → w'.blocks a = none)
    (hblock : w.nextBlock ≤ w'.nextBlock) (hrequests : ∀ r ∈ w'.requests, r ∈ w.requests)
    (hslots : ∀ slot cb, w'.slots slot = some cb → w.slots slot = some cb)
    (hinfo : w'.fdInfoMap = w.fdInfoMap) (hcancels : ∀ e ∈ w'.cancels, e ∈ w.cancels)
    (hdone : ∀ a, w.doneFlag a → w'.doneFlag a)
    (hlog : ∃ es, w'.log = w.log ++ es ∧ ∀ src a, .useAfterFree src a ∈ es → ¬D a)
    : Spared D l w' := by
  refine ⟨⟨?_, ?_, ?_⟩, ?_, ?_⟩
  . intro r hr cb hcb htarget
    exact (h.slots r (hrequests r hr) cb (hslots _ cb hcb) htarget).mono hdone
  . rw [hinfo]
    exact h.pending
  . exact fun e he => h.cancels e (hcancels e he)
  . intro a ha
    obtain ⟨hnone, hlt⟩ := h.dead a ha
    exact ⟨hblocks a hnone hlt, by omega⟩
  . obtain ⟨es, hes, hspare⟩ := h.log
    obtain ⟨es', hes', hspare'⟩ := hlog
    refine ⟨es ++ es', by rw [hes', hes, List.append_assoc], ?_⟩
    intro src a hmem
    rcases List.mem_append.mp hmem with hmem | hmem
    . exact hspare src a hmem
    . exact hspare' src a hmem

theorem Spared.keep (h : Spared D l w) (hblocks : ∀ a, w.blocks a = none → w'.blocks a = none)
    (hblock : w'.nextBlock = w.nextBlock) (hrequests : w'.requests = w.requests)
    (hslots : w'.slots = w.slots) (hinfo : w'.fdInfoMap = w.fdInfoMap) (hcancels : w'.cancels = w.cancels)
    (hdone : w'.doneFlag = w.doneFlag) (hlog : w'.log = w.log)
    : Spared D l w' := by
  apply h.frame (fun a ha _ => hblocks a ha) (Nat.le_of_eq hblock.symm)
  . simp [hrequests]
  . simp [hslots]
  . exact hinfo
  . simp [hcancels]
  . simp [hdone]
  . exact ⟨[], by simp [hlog], by simp⟩

theorem Spared.newBlock {kind : Kind} (h : Spared D l w)
    : Spared D l (w.newBlock c kind) := by
  refine h.frame ?_ (Nat.le_succ _) (fun _ hr => hr) (fun _ _ hcb => hcb) rfl (fun _ he => he) (fun _ ha => ha)
    ⟨[], by simp [World.newBlock, setBlock], by simp⟩
  intro a ha hlt
  simp only [World.newBlock, setBlock]
  rw [Function.update_of_ne (by omega)]
  exact ha

theorem complete_blocks_none {src : Source} {x : Completion} {a' : Nat} (ha' : w.blocks a' = none)
    : (w.complete src a x).blocks a' = none := by
  cases hb : w.blocks a with
  | none =>
    rw [complete_none hb]
    exact ha'
  | some b =>
    rw [complete_blocks hb, Function.update_of_ne]
    . exact ha'
    . rintro rfl
      rw [hb] at ha'
      cases ha'

theorem complete_log_none {src : Source} {x : Completion} (hb : w.blocks a = none)
    : (w.complete src a x).log = w.log ++ [Entry.useAfterFree src a] := by
  rw [complete_none hb]
  rfl

theorem Spared.complete {src : Source} {x : Completion} (h : Spared D l w) (ha : ¬D a)
    : Spared D l (w.complete src a x) := by
  have hrest := complete_rest w src a x
  have hslots := complete_slots w src a x
  have hlog : ∃ es, (w.complete src a x).log = w.log ++ es
      ∧ ∀ src' a', .useAfterFree src' a' ∈ es → ¬D a' := by
    cases hb : w.blocks a with
    | none =>
      refine ⟨[.useAfterFree src a], complete_log_none hb, ?_⟩
      intro src' a' hmem
      cases List.mem_singleton.mp hmem
      exact ha
    | some b =>
      rcases complete_cases hb with ⟨-, heq⟩ | ⟨c, coro, on, -, -, -, heq⟩ | ⟨c, -, -, heq⟩
      . exact ⟨[_], by rw [heq]; rfl, by simp⟩
      . exact ⟨[_], by rw [heq]; rfl, by simp⟩
      . exact ⟨[_, .badResume c], by rw [heq]; exact List.append_assoc _ _ _, by simp⟩
  apply h.frame (fun _ ha' _ => complete_blocks_none ha') (Nat.le_of_eq hrest.2.1.symm)
  . simp [hslots.2]
  . simp [hslots.1]
  . exact hrest.2.2.1
  . simp [hrest.2.2.2.1]
  . simp [hrest.2.2.2.2]
  . exact hlog

theorem Spared.submit {slot : Slot} {cb : Callback} {multishot : Bool} {sub : Submit} (h : Spared D l w)
    (hcb : ¬D cb.target)
    : Spared D l (w.submit slot cb multishot sub) := by
  have hset : ∀ r cb', Function.update w.slots slot (some cb) r = some cb' → D cb'.target
      → r ≠ slot ∧ w.slots r = some cb' := by
    intro r cb' hcb' htarget
    rw [Function.update_apply] at hcb'
    split at hcb'
    . cases hcb'
      exact absurd htarget hcb
    . rename_i hne
      exact ⟨hne, hcb'⟩
  have hadd : Spared D l { w.setSlot slot (some cb) with
      requests := w.requests ++ [{ slot, awaiter := cb.target, multishot }] } := by
    refine ⟨⟨?_, h.pending, h.cancels⟩, h.dead, h.log⟩
    intro r hr cb' hcb' htarget
    obtain ⟨hne, hold⟩ := hset r.slot cb' hcb' htarget
    rcases List.mem_append.mp hr with hr | hr
    . exact h.slots r hr cb' hold htarget
    . rw [List.mem_singleton.mp hr] at hne
      exact absurd rfl hne
  cases sub with
  | accepted => exact hadd
  | left => exact hadd
  | refused => exact h
  | stored =>
    refine ⟨⟨?_, h.pending, h.cancels⟩, h.dead, h.log⟩
    intro r hr cb' hcb' htarget
    exact h.slots r hr cb' (hset r.slot cb' hcb' htarget).2 htarget

theorem Spared.disable {slot : Slot} (h : Spared D l w)
    : Spared D l (w.disable slot) := by
  refine h.frame (fun _ ha _ => ha) (Nat.le_refl _) ?_ ?_ rfl (fun _ he => he) (fun _ ha => ha)
    ⟨[], by simp [World.disable, setSlot], by simp⟩
  . intro r hr
    exact (List.mem_filter.mp hr).1
  . intro slot' cb hcb
    simp only [World.disable, setSlot, Function.update_apply] at hcb
    split at hcb
    . cases hcb
    . exact hcb

theorem Spared.setFdInfo {info : FdInfo} (h : Spared D l w)
    (hinfo : ∀ p, info.pendingReadAwaiter = some p → D p → info.state = .none)
    : Spared D l (w.setFdInfo fd info) := by
  refine ⟨⟨h.slots, ?_, h.cancels⟩, h.dead, h.log⟩
  intro fd' info' p hinfo' hp hD
  simp only [World.setFdInfo, Function.update_apply] at hinfo'
  split at hinfo'
  . cases hinfo'
    exact hinfo p hp hD
  . exact h.pending fd' info' p hinfo' hp hD

theorem Spared.setReadState {state : FdReadState} (h : Spared D l w)
    (hstate : ∀ info p, w.fdInfoMap fd = some info → info.pendingReadAwaiter = some p → D p → state = .none)
    : Spared D l (w.setReadState fd state) := by
  unfold World.setReadState
  split
  . exact h
  . rename_i info hinfo
    exact h.setFdInfo fun p hp hD => hstate info p hinfo hp hD

theorem Spared.clearPending (h : Spared D l w)
    : Spared D l (w.clearPending fd) := by
  unfold World.clearPending
  split
  . exact h
  . exact h.setFdInfo (by simp)

theorem Spared.resetRead (h : Spared D l w)
    : Spared D l (w.resetRead fd) := by
  unfold World.resetRead
  split
  . exact h
  . exact h.setFdInfo (by simp)

theorem Spared.setDone (h : Spared D l w)
    : Spared D l { w with doneFlag := Function.update w.doneFlag a true } := by
  refine h.frame (fun _ ha _ => ha) (Nat.le_refl _) (fun _ hr => hr) (fun _ _ hcb => hcb) rfl (fun _ he => he) ?_
    ⟨[], by simp, by simp⟩
  intro a' ha'
  simp only [Function.update_apply]
  split
  . rfl
  . exact ha'

theorem Spared.invoke {src : Source} {cb : Callback} {x : Completion} (h : Spared D l w)
    (hcb : D cb.target → w.Guarded cb)
    : Spared D l (w.invoke src cb x) := by
  cases cb with
  | read fd a => exact h.resetRead.complete hcb
  | awaiter a => exact h.complete hcb
  | cancelRead fd a =>
    simp only [World.invoke]
    split
    . exact h
    . rename_i hdone
      exact (h.setDone.setReadState fun _ _ _ _ _ => rfl).complete fun hD => hdone (hcb hD)

theorem Spared.nextBlock (h : Spared D l w)
    : ¬D w.nextBlock := by
  intro hD
  have := (h.dead _ hD).2
  omega

theorem Spared.readWith {multishot : Bool} {buffer : Option Nat} {cnt : Nat} {sub : Submit}
    (h : Spared D l w)
    : Spared D l (w.readWith c fd multishot buffer cnt sub) := by
  have hnew : Spared D l (w.newBlock c .read) := h.newBlock
  have hinfo : Spared D l ((w.newBlock c .read).setFdInfo fd ((w.fdInfoMap fd).getD {})) := by
    apply hnew.setFdInfo
    intro p hp hD
    cases hfd : w.fdInfoMap fd with
    | none => rfl
    | some info =>
      rw [hfd] at hp
      exact h.pending fd info p hfd hp hD
  have hsubmit : Spared D l ((((w.newBlock c .read).setFdInfo fd ((w.fdInfoMap fd).getD {})).setFdInfo fd
      ⟨.pending, some w.nextBlock⟩).submit (.read fd) (.read fd w.nextBlock) multishot sub) := by
    refine (hinfo.setFdInfo ?_).submit h.nextBlock
    intro p hp hD
    cases hp
    exact absurd hD h.nextBlock
  simp only [World.readWith]
  split
  . exact hinfo.complete h.nextBlock
  . split
    . exact hsubmit
    . exact (hsubmit.setFdInfo (by simp)).complete h.nextBlock

theorem Spared.submitWith {kind : Kind} {slot : Slot} {multishot : Bool} {sub : Submit} (h : Spared D l w)
    : Spared D l (w.submitWith c kind slot multishot sub) := by
  have hsubmit : Spared D l ((w.newBlock c kind).submit slot (.awaiter w.nextBlock) multishot sub) :=
    h.newBlock.submit h.nextBlock
  simp only [World.submitWith]
  split
  . exact hsubmit
  . exact hsubmit.complete h.nextBlock

theorem Spared.cancelWith {slot cancelSlot : Slot} {sub : Submit} (h : Spared D l w)
    : Spared D l (w.cancelWith c slot cancelSlot sub) := by
  unfold World.cancelWith
  split
  . exact h.newBlock.disable.complete h.nextBlock
  . exact h.submitWith

theorem Spared.pushCancel {e : CancelCall} (h : Spared D l w) (he : ¬D e.awaiter)
    : Spared D l { w with cancels := e :: w.cancels } := by
  refine ⟨⟨h.slots, h.pending, ?_⟩, h.dead, h.log⟩
  intro e' he'
  rcases List.mem_cons.mp he' with rfl | he'
  . exact he
  . exact h.cancels e' he'

theorem Spared.cancelRead (h : Spared D l w)
    : Spared D l (w.cancelRead c fd) := by
  have hnew : Spared D l (w.newBlock c .result) := h.newBlock
  unfold World.cancelRead
  simp only
  split
  . rename_i pending hinfo
    -- the read that is cancelled is pending, so its awaiter is none of `D`
    have hpending : ∀ p, pending = some p → ¬D p := by
      intro p hp hD
      exact absurd (h.pending fd _ p hinfo hp hD) (by simp)
    have hset : Spared D l ((w.newBlock c .result).setReadState fd .cancelling) := by
      apply hnew.setReadState
      intro info p hinfo' hp hD
      rw [hinfo, Option.some.injEq] at hinfo'
      subst hinfo'
      exact absurd hD (hpending p hp)
    apply Spared.pushCancel ?_ h.nextBlock
    cases pending with
    | none => exact hset
    | some p => exact hset.complete (hpending p rfl)
  . exact hnew.complete h.nextBlock

theorem Spared.cancelReadRest {sub : Submit} (h : Spared D l w)
    : Spared D l (w.cancelReadRest sub) := by
  unfold World.cancelReadRest
  split
  . exact h
  . rename_i caller fd a cancels hcancels
    have ha : ¬D a := h.cancels ⟨caller, fd, a⟩ (by simp [hcancels])
    have hpop : Spared D l { w with cancels } := by
      refine ⟨⟨h.slots, h.pending, ?_⟩, h.dead, h.log⟩
      intro e he
      exact h.cancels e (by rw [hcancels]; exact List.mem_cons_of_mem _ he)
    have hsubmit : ∀ sub, Spared D l ((World.clearPending { w with cancels } fd).submit (.cancelRead fd)
        (.cancelRead fd a) false sub) := fun _ => hpop.clearPending.submit ha
    simp only
    split
    . refine Spared.complete (Spared.setDone ?_) ha
      exact hpop.clearPending.disable.invoke fun hD => absurd hD ha
    . exact (hsubmit .accepted).setDone.complete ha
    . exact ((hsubmit _).setReadState fun _ _ _ _ _ => rfl).complete ha

theorem Spared.completeRequest {i : Nat} {x : Completion} {more : Bool} (h : Spared D l w)
    : Spared D l (w.completeRequest i x more) := by
  unfold World.completeRequest
  split
  . exact h
  . rename_i r hr
    split
    . have herase : Spared D l { w with requests := w.requests.eraseIdx i } :=
        h.frame (fun _ ha _ => ha) (Nat.le_refl _) (fun _ => List.mem_of_mem_eraseIdx) (fun _ _ hcb => hcb) rfl
          (fun _ he => he) (fun _ ha => ha) ⟨[], by simp, by simp⟩
      have hinvoke : ∀ w' cb, Spared D l w' → w'.slots = w.slots → w'.doneFlag = w.doneFlag
          → w'.slots r.slot = some cb → Spared D l (w'.invoke (.request r.awaiter r.multishot) cb x) := by
        intro w' cb h' hslots hdone hcb
        apply h'.invoke
        intro hD
        rw [hslots] at hcb
        refine (h.slots r (List.mem_of_getElem? hr) cb hcb hD).mono ?_
        simp [hdone]
      split
      . dsimp only
        split
        . exact h
        . rename_i cb hcb
          exact hinvoke w cb h rfl rfl hcb
      . dsimp only
        split
        . exact herase
        . rename_i cb hcb
          exact hinvoke _ cb herase rfl rfl hcb
    . exact h

theorem Spared.await (h : Spared D l w)
    : Spared D l (w.await c a) := by
  rcases await_cases w c a with heq | ⟨coro, b, -, -, hb, -, -, ⟨-, heq⟩ | ⟨-, heq⟩⟩
  . rw [heq]
    exact h
  . rw [heq]
    exact h.frame (fun _ ha _ => ha) (Nat.le_refl _) (fun _ hr => hr) (fun _ _ hcb => hcb) rfl (fun _ he => he)
      (fun _ ha => ha) ⟨[_], rfl, by simp⟩
  . rw [heq]
    refine h.frame ?_ (Nat.le_refl _) (fun _ hr => hr) (fun _ _ hcb => hcb) rfl (fun _ he => he) (fun _ ha => ha)
      ⟨[_], rfl, by simp⟩
    intro a' ha' _
    simp only [addLog, setCoro, setBlock]
    rw [Function.update_of_ne]
    . exact ha'
    . rintro rfl
      rw [hb] at ha'
      cases ha'

theorem Spared.drop (h : Spared D l w)
    : Spared D l (w.drop c a) := by
  unfold World.drop
  split
  . split
    . refine h.keep ?_ rfl rfl rfl rfl rfl rfl rfl
      intro a' ha'
      simp only [setBlock, Function.update_apply]
      split
      . rfl
      . exact ha'
    . exact h
  . exact h

theorem dropOwned_none {p : Nat → Bool} (h : w.blocks a = none)
    : (w.dropOwned p).blocks a = none := by
  simp [dropOwned, h]

theorem Spared.finish (h : Spared D l w)
    : Spared D l (w.finish c) := by
  unfold World.finish
  split
  . refine h.keep ?_ rfl rfl rfl rfl rfl rfl rfl
    intro a ha
    change (w.dropOwned fun c' => decide (c' = c)).blocks a = none
    exact dropOwned_none ha
  . exact h

theorem Spared.clearSpawned (h : Spared D l w)
    : Spared D l w.clearSpawned := by
  unfold World.clearSpawned
  split
  . exact h.keep (fun _ => dropOwned_none) rfl rfl rfl rfl rfl rfl rfl
  . exact h

theorem step_spared (h : Spared D l w) (st : Step)
    : Spared D l (w.step st) := by
  have hif : ∀ (p : Bool) (w' : World), Spared D l w' → Spared D l (if p then w' else w) := by
    intro p w' h'
    split
    . exact h'
    . exact h
  cases st with
  | start spawned => exact h.keep (fun _ ha => ha) rfl rfl rfl rfl rfl rfl rfl
  | call c op sub =>
    apply hif
    cases op with
    | read fd buffer cnt => exact hif _ _ h.readWith
    | readGroup fd => exact hif _ _ h.readWith
    | write fd => exact hif _ _ h.submitWith
    | accept fd => exact hif _ _ h.submitWith
    | sleep => exact hif _ _ h.submitWith
    | cancelRead fd => exact h.cancelRead
    | cancelWrite fd => exact hif _ _ h.cancelWith
    | cancelAccept fd => exact hif _ _ h.cancelWith
  | cancelReadRest sub => exact hif _ _ h.cancelReadRest
  | await c a => exact hif _ _ h.await
  | drop c a => exact hif _ _ h.drop
  | finish c => exact hif _ _ h.finish
  | complete i x more => exact h.completeRequest
  | clearSpawned => exact h.clearSpawned

theorem run_spared (steps : List Step) (h : Spared D l w)
    : Spared D l (w.run steps) :=
  foldl_invariant steps (fun _ st _ h => step_spared h st) h

-- The coroutines `K` are destroyed.
structure Gone (K : Nat → Prop) (l : List Entry) (w : World) : Prop where
  coros : ∀ c, K c → w.coros c = none ∧ c < w.nextCoro
  log : ∃ es, w.log = l ++ es ∧ ∀ e ∈ es, ∀ c, e.resumes = some c → ¬K c

theorem Gone.frame {K : Nat → Prop} (h : Gone K l w)
    (hcoros : ∀ c, w.coros c = none → c < w.nextCoro → w'.coros c = none)
    (hcoro : w.nextCoro ≤ w'.nextCoro)
    (hlog : ∃ es, w'.log = w.log ++ es ∧ ∀ e ∈ es, ∀ c, e.resumes = some c → ¬K c)
    : Gone K l w' := by
  constructor
  . intro c hc
    obtain ⟨hnone, hlt⟩ := h.coros c hc
    exact ⟨hcoros c hnone hlt, by omega⟩
  . obtain ⟨es, hes, hgone⟩ := h.log
    obtain ⟨es', hes', hgone'⟩ := hlog
    refine ⟨es ++ es', by rw [hes', hes, List.append_assoc], ?_⟩
    intro e he
    rcases List.mem_append.mp he with he | he
    . exact hgone e he
    . exact hgone' e he

theorem Gone.complete {K : Nat → Prop} {src : Source} {x : Completion} (h : Gone K l w) (hwf : w.Wf)
    : Gone K l (w.complete src a x) := by
  have hK : ∀ c coro, w.coros c = some coro → ¬K c := by
    intro c coro hc hKc
    rw [(h.coros c hKc).1] at hc
    cases hc
  cases hb : w.blocks a with
  | none =>
    rw [complete_none hb]
    exact h.frame (fun _ hc _ => hc) (Nat.le_refl _) ⟨[_], rfl, by simp [Entry.resumes]⟩
  | some b =>
    rcases complete_cases hb with ⟨-, heq⟩ | ⟨c, coro, on, -, hcoro, -, heq⟩ | ⟨c, hhandle, -, heq⟩
    . rw [heq]
      exact h.frame (fun _ hc _ => hc) (Nat.le_refl _) ⟨[_], rfl, by simp [Entry.resumes]⟩
    . rw [heq]
      refine h.frame ?_ (Nat.le_refl _) ⟨[_], rfl, ?_⟩
      . intro c' hc' _
        simp only [addLog, setCoro, setBlock]
        rw [Function.update_of_ne]
        . exact hc'
        . rintro rfl
          rw [hcoro] at hc'
          cases hc'
      . simpa [Entry.resumes] using hK c coro hcoro
    . rw [heq]
      refine h.frame (fun _ hc _ => hc) (Nat.le_refl _) ⟨[_, .badResume c], List.append_assoc _ _ _, ?_⟩
      -- the handle of a state block is its owner, who is still there
      obtain ⟨coro, hcoro⟩ := hwf.owner a b hb
      rw [← hwf.handle a b c hb hhandle] at hcoro
      simpa [Entry.resumes] using hK c coro hcoro

theorem Prim.gone {K : Nat → Prop} {S : Source → Prop} {T : Nat → Prop} (hprim : Prim S T w w') (hwf : w.Wf)
    (h : Gone K l w)
    : Gone K l w' := by
  cases hprim with
  | keep _ hcoros _ hcoro _ _ _ hlog =>
    exact h.frame (fun c hc _ => by rw [hcoros]; exact hc) (Nat.le_of_eq hcoro.symm) ⟨[], by simp [hlog], by simp⟩
  | @submit slot cb multishot sub _ _ _ =>
    cases sub <;> exact h.frame (fun _ hc _ => hc) (Nat.le_refl _) ⟨[], by simp [World.submit, setSlot], by simp⟩
  | disable =>
    exact h.frame (fun _ hc _ => hc) (Nat.le_refl _) ⟨[], by simp [World.disable, setSlot], by simp⟩
  | erase => exact h.frame (fun _ hc _ => hc) (Nat.le_refl _) ⟨[], by simp, by simp⟩
  | newBlock _ =>
    exact h.frame (fun _ hc _ => hc) (Nat.le_refl _) ⟨[], by simp [World.newBlock, setBlock], by simp⟩
  | complete _ => exact h.complete hwf
  | @await c a =>
    rcases await_cases w c a with heq | ⟨coro, b, hcoro, -, -, -, -, ⟨-, heq⟩ | ⟨-, heq⟩⟩
    . rw [heq]
      exact h
    . rw [heq]
      exact h.frame (fun _ hc _ => hc) (Nat.le_refl _) ⟨[_], rfl, by simp [Entry.resumes]⟩
    . rw [heq]
      refine h.frame ?_ (Nat.le_refl _) ⟨[_], rfl, by simp [Entry.resumes]⟩
      intro c' hc' _
      simp only [addLog, setCoro, setBlock]
      rw [Function.update_of_ne]
      . exact hc'
      . rintro rfl
        rw [hcoro] at hc'
        cases hc'
  | @drop c a =>
    refine h.frame ?_ ?_ ⟨[], by simp [drop_log], by simp⟩
    . intro c' hc' _
      unfold World.drop
      split
      . split <;> exact hc'
      . exact hc'
    . unfold World.drop
      split
      . split <;> exact Nat.le_refl _
      . exact Nat.le_refl _
  | @finish c =>
    unfold World.finish
    split
    . refine h.frame ?_ (Nat.le_refl _) ⟨[], by simp [setCoro, dropOwned], by simp⟩
      intro c' hc' _
      simp only [setCoro, dropOwned, Function.update_apply]
      split
      . rfl
      . exact hc'
    . exact h
  | clearSpawned =>
    unfold World.clearSpawned
    split
    . refine h.frame ?_ (Nat.le_refl _) ⟨[], by simp [dropOwned], by simp⟩
      intro c' hc' _
      simp [hc']
    . exact h
  | @start spawned =>
    refine h.frame ?_ (Nat.le_succ _) ⟨[], by simp [World.start, setCoro], by simp⟩
    intro c' hc' hlt
    simp only [World.start, setCoro]
    rw [Function.update_of_ne (by omega)]
    exact hc'

theorem run_gone {K : Nat → Prop} (steps : List Step) (hwf : w.Wf) (h : Gone K l w)
    : Gone K l (w.run steps) := by
  have hstep : ∀ w, ∀ st ∈ steps, w.Wf ∧ Gone K l w → (step w st).Wf ∧ Gone K l (step w st) := by
    intro w st _ hw
    apply (step_prims w st).invariant (I := fun w => w.Wf ∧ Gone K l w)
    . exact fun w w' hp hw => ⟨hp.wf hw.1, hp.gone hw.1 hw.2⟩
    . exact hw
  exact (foldl_invariant steps hstep ⟨hwf, h⟩).2

-- The awaiters that `clear_spawned` destroys.
def Destroyed (w : World) (a : Nat) : Prop :=
  ∃ b, w.blocks a = some b ∧ w.isSpawned b.owner = true

def pendingRead (w : World) (fd : Nat) : Option Nat :=
  (w.fdInfoMap fd).bind (·.pendingReadAwaiter)

-- `cancel_read` fails in the backend.
theorem step_refused {e : CancelCall} {es : List CancelCall} (hcancels : w.cancels = e :: es)
    : let w' := w.step (.cancelReadRest .refused)
      w'.cancels = es ∧ w'.requests = w.requests ∧ w'.slots = w.slots ∧ w'.doneFlag = w.doneFlag
        ∧ (∀ a, w.blocks a = none → w'.blocks a = none)
        ∧ ∃ new, w'.log = w.log ++ new ∧ (w.blocks e.awaiter = none → .useAfterFree .inline e.awaiter ∈ new) := by
  obtain ⟨caller, fd, a⟩ := e
  obtain ⟨m, hm⟩ := clearPending_eq { w with cancels := es } fd
  obtain ⟨m', hm'⟩ := setReadState_eq { w with cancels := es, fdInfoMap := m } fd .none
  have heq : w.step (.cancelReadRest .refused)
      = complete { w with cancels := es, fdInfoMap := m' } .inline a { ret := -1 } := by
    simp only [step, Submit.possible, if_true]
    rw [cancelReadRest_failed hcancels (by simp), hm]
    simp only [submit, hm']
  have hrest := complete_rest { w with cancels := es, fdInfoMap := m' } .inline a { ret := -1 }
  have hslots := complete_slots { w with cancels := es, fdInfoMap := m' } .inline a { ret := -1 }
  simp only [heq]
  refine ⟨hrest.2.2.2.1, hslots.2, hslots.1, hrest.2.2.2.2, fun _ ha => complete_blocks_none ha, ?_⟩
  cases hb : w.blocks a with
  | none =>
    exact ⟨[.useAfterFree .inline a], complete_log_none hb, fun _ => List.mem_singleton.mpr rfl⟩
  | some b =>
    obtain ⟨new, hnew, -⟩ := complete_logs (w := { w with cancels := es, fdInfoMap := m' }) (a := a)
      (x := { ret := -1 }) (S := (· = .inline)) rfl
    exact ⟨new, hnew, by simp⟩

-- All calls of `cancel_read` return.
theorem run_refused (es : List CancelCall) (w : World) (hcancels : w.cancels = es)
    : let w' := w.run (List.replicate es.length (.cancelReadRest .refused))
      w'.cancels = [] ∧ w'.requests = w.requests ∧ w'.slots = w.slots ∧ w'.doneFlag = w.doneFlag
        ∧ (∀ a, w.blocks a = none → w'.blocks a = none)
        ∧ ∃ new, w'.log = w.log ++ new
          ∧ ∀ e ∈ es, w.blocks e.awaiter = none → .useAfterFree .inline e.awaiter ∈ new := by
  induction es generalizing w with
  | nil => exact ⟨hcancels, rfl, rfl, rfl, fun _ h => h, [], by simp [run], by simp⟩
  | cons e es ih =>
    obtain ⟨hcancels', hrequests, hslots, hdone, hblocks, new, hnew, huaf⟩ := step_refused hcancels
    obtain ⟨hcancels₂, hrequests₂, hslots₂, hdone₂, hblocks₂, new₂, hnew₂, huaf₂⟩ :=
      ih (w.step (.cancelReadRest .refused)) hcancels'
    simp only [List.length_cons, List.replicate_succ, run, List.foldl_cons]
    refine ⟨hcancels₂, hrequests₂.trans hrequests, hslots₂.trans hslots, hdone₂.trans hdone,
      fun a ha => hblocks₂ a (hblocks a ha), new ++ new₂, ?_, ?_⟩
    . change (run _ _).log = _
      rw [hnew₂, hnew, List.append_assoc]
    . intro e' he' hnone
      rcases List.mem_cons.mp he' with rfl | he'
      . exact List.mem_append_left _ (huaf hnone)
      . exact List.mem_append_right _ (huaf₂ e' he' (hblocks _ hnone))

-- A completion calls a callback of an awaiter that is not there.
theorem completeRequest_dead {i : Nat} {r : Request} {cb : Callback} (hr : w.requests[i]? = some r)
    (hcancels : w.cancels = []) (hcb : w.slots r.slot = some cb) (hguarded : ¬w.Guarded cb)
    (hdead : w.blocks cb.target = none)
    : (w.step (.complete i { ret := 0 } false)).log
        = w.log ++ [Entry.useAfterFree (.request r.awaiter r.multishot) cb.target] := by
  simp only [step]
  rw [completeRequest_eq hr hcancels hcb]
  simp only [Bool.and_false, Bool.false_eq_true, if_false]
  cases cb with
  | read fd a =>
    obtain ⟨m, hm⟩ := resetRead_eq { w with requests := w.requests.eraseIdx i } fd
    simp only [invoke, hm]
    exact complete_log_none hdead
  | awaiter a => exact complete_log_none hdead
  | cancelRead fd a =>
    obtain ⟨m, hm⟩ := setReadState_eq { w with
      requests := w.requests.eraseIdx i, doneFlag := Function.update w.doneFlag a true } fd .none
    have hdone : ¬w.doneFlag a = true := hguarded
    simp only [invoke]
    rw [if_neg hdone, hm]
    exact complete_log_none hdead

theorem clearSpawned_eq (hidle : ∀ c, w.isSpawned c → ¬w.isRunning c)
    : w.clearSpawned
        = { w.dropOwned w.isSpawned with coros := fun c => (w.coros c).filter fun coro => !coro.spawned } := by
  unfold clearSpawned
  rw [if_pos]
  intro c _ hc
  simpa using hidle c hc

theorem clearSpawned_rest (hidle : ∀ c, w.isSpawned c → ¬w.isRunning c)
    : w.clearSpawned.requests = w.requests ∧ w.clearSpawned.slots = w.slots
        ∧ w.clearSpawned.doneFlag = w.doneFlag ∧ w.clearSpawned.cancels = w.cancels
        ∧ w.clearSpawned.fdInfoMap = w.fdInfoMap ∧ w.clearSpawned.log = w.log := by
  rw [clearSpawned_eq hidle]
  exact ⟨rfl, rfl, rfl, rfl, rfl, rfl⟩

theorem Destroyed.dead (ha : w.Destroyed a) (hwf : w.Wf) (hidle : ∀ c, w.isSpawned c → ¬w.isRunning c)
    : w.clearSpawned.blocks a = none ∧ a < w.clearSpawned.nextBlock := by
  obtain ⟨b, hb, hspawned⟩ := ha
  rw [clearSpawned_eq hidle]
  refine ⟨?_, hwf.blockLt a b hb⟩
  simp [dropOwned, hb, hspawned]

-- What is left behind is used by later steps.
theorem Unregistered.of_later (hwf : w.Wf) (hidle : ∀ c, w.isSpawned c → ¬w.isRunning c)
    (hlater : ∀ later new src a, (w.clearSpawned.run later).log = w.log ++ new → .useAfterFree src a ∈ new
      → ¬w.Destroyed a)
    (hstate : ∀ fd a, w.pendingRead fd = some a → w.Destroyed a → w.clearSpawned.readState fd = .none)
    : Unregistered w.Destroyed w := by
  obtain ⟨hrequests, hslots, hdone, hcancels, hinfos, hlog⟩ := clearSpawned_rest hidle
  have hrefused := run_refused w.cancels w.clearSpawned hcancels
  generalize hw' : run w.clearSpawned (List.replicate w.cancels.length (Step.cancelReadRest .refused)) = w'
    at hrefused
  obtain ⟨hnil, hrequests', hslots', hdone', hblocks, new, hnew, huaf⟩ := hrefused
  rw [hlog] at hnew
  constructor
  . intro r hr cb hcb hD
    by_contra hguarded
    obtain ⟨i, hi⟩ := List.mem_iff_getElem?.mp hr
    rw [← hrequests, ← hrequests'] at hi
    rw [← hslots, ← hslots'] at hcb
    have hguarded' : ¬w'.Guarded cb := fun h => hguarded (h.mono (by simp [hdone', hdone]))
    have huse := completeRequest_dead hi hnil hcb hguarded' (hblocks _ (hD.dead hwf hidle).1)
    rw [hnew, List.append_assoc] at huse
    have hrun : w.clearSpawned.run (List.replicate w.cancels.length (Step.cancelReadRest .refused)
        ++ [Step.complete i { ret := 0 } false]) = w'.step (Step.complete i { ret := 0 } false) := by
      rw [← hw', run, List.foldl_append]
      rfl
    exact hlater _ _ (.request r.awaiter r.multishot) cb.target (by rw [hrun]; exact huse) (by simp) hD
  . intro fd info p hinfo hp hD
    have hnone := hstate fd p (by simp [pendingRead, hinfo, hp]) hD
    rw [readState_congr hinfos, readState_of_some hinfo] at hnone
    exact hnone
  . intro e he hD
    exact hlater _ new .inline e.awaiter (by rw [hw']; exact hnew) (huaf e he (hD.dead hwf hidle).1) hD

theorem clearSpawned_spared (hwf : w.Wf) (hidle : ∀ c, w.isSpawned c → ¬w.isRunning c)
    (h : Unregistered w.Destroyed w)
    : Spared w.Destroyed w.log w.clearSpawned := by
  obtain ⟨hrequests, hslots, hdone, hcancels, hinfos, hlog⟩ := clearSpawned_rest hidle
  refine ⟨⟨?_, ?_, ?_⟩, fun a ha => ha.dead hwf hidle, [], by simp [hlog], by simp⟩
  . rw [hrequests, hslots]
    exact fun r hr cb hcb hD => (h.slots r hr cb hcb hD).mono (by simp [hdone])
  . rw [hinfos]
    exact h.pending
  . rw [hcancels]
    exact h.cancels

theorem clearSpawned_gone (hwf : w.Wf) (hidle : ∀ c, w.isSpawned c → ¬w.isRunning c)
    : Gone (fun c => w.isSpawned c) w.log w.clearSpawned := by
  rw [clearSpawned_eq hidle]
  refine ⟨?_, [], by simp [dropOwned], by simp⟩
  intro c hc
  simp only [isSpawned] at hc
  cases hcoro : w.coros c with
  | none => simp [hcoro] at hc
  | some coro =>
    refine ⟨?_, hwf.coroLt c coro hcoro⟩
    simpa [hcoro] using hc

-- The spawned coroutine is suspended on a timer that could not be created, another one accepts.
def failedSleeper : List Step :=
  [.start true, .start false, .call 0 .sleep .refused, .await 0 0, .call 1 (.accept 5) .accepted, .await 1 1]

theorem failedSleeper_idle (c : Nat)
    : (run { backend := .epoll } failedSleeper).isSpawned c
        → ¬(run { backend := .epoll } failedSleeper).isRunning c := by
  have hwf : (run { backend := .epoll } failedSleeper).Wf := run_wf _ (init_wf _)
  intro hc
  have hlt : c < 2 := by
    simp only [isSpawned] at hc
    cases hcoro : (run { backend := .epoll } failedSleeper).coros c with
    | none => simp [hcoro] at hc
    | some coro => exact hwf.coroLt c coro hcoro
  revert hc
  obtain rfl | rfl : c = 0 ∨ c = 1 := by omega
  . decide +kernel
  . decide +kernel

theorem failedSleeper_unregistered
    : Unregistered (run { backend := .epoll } failedSleeper).Destroyed
        (run { backend := .epoll } failedSleeper) := by
  constructor
  . have hcallbacks : ∀ r ∈ (run { backend := .epoll } failedSleeper).requests,
        (run { backend := .epoll } failedSleeper).slots r.slot = some (.awaiter 1) := by decide +kernel
    have howner : (run { backend := .epoll } failedSleeper).blocks 1
        = some { kind := .accept, owner := 1, handle := some 1, result := .accept (-1) none } := by
      decide +kernel
    rintro r hr cb hcb ⟨b, hb, hspawned⟩
    rw [hcallbacks r hr, Option.some.injEq] at hcb
    subst hcb
    rw [Callback.target, howner, Option.some.injEq] at hb
    subst hb
    exact absurd hspawned (by decide +kernel)
  . intro fd info p hinfo
    have hnone : (run { backend := .epoll } failedSleeper).fdInfoMap fd = none := rfl
    rw [hnone] at hinfo
    cases hinfo
  . have hnil : (run { backend := .epoll } failedSleeper).cancels = [] := by decide +kernel
    rw [hnil]
    simp

-- One coroutine sleeps and one reads, the timer expires after they are destroyed.
def clearedSleeper : List Step :=
  [.start true, .start true, .call 0 .sleep .accepted, .await 0 0, .call 1 (.read 3 none 1) .accepted, .await 1 1]

end World

end Coroutine
end Ezio
