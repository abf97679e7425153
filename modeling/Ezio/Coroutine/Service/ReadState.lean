import Ezio.Coroutine.Service.Resume

/-!
This module contains the state of the reads of a file descriptor, which `read` and `cancel_read` consult,
against the reads that are outstanding in the backend.
-/

namespace Ezio
namespace Coroutine
namespace World

variable {w w' : World} {a c fd : Nat}

def readState (w : World) (fd : Nat) : FdReadState :=
  ((w.fdInfoMap fd).getD {}).state

-- The steps of coroutines that only read and cancel reads.
def ReadStep : Step → Prop
  | .start _ | .await _ _ | .drop _ _ | .finish _ | .complete _ _ _ | .call _ (.read _ _ _) _
  | .call _ (.cancelRead _) _ | .cancelReadRest _ => True
  | _ => False

instance : (st : Step) → Decidable (ReadStep st)
  | .start _ | .await _ _ | .drop _ _ | .finish _ | .complete _ _ _ | .call _ (.read _ _ _) _
  | .call _ (.cancelRead _) _ | .cancelReadRest _ => .isTrue trivial
  | .call _ (.readGroup _) _ | .call _ (.accept _) _ | .call _ .sleep _ | .call _ (.write _) _
  | .call _ (.cancelWrite _) _ | .call _ (.cancelAccept _) _ | .clearSpawned => .isFalse id

-- The backend does not fail to cancel a read, and leaves no read in the ring that it failed to submit.
def CancelsAccepted (w : World) : Step → Prop
  | .call _ (.read fd _ _) sub => w.readState fd = .none → sub ≠ .left
  | .cancelReadRest sub => w.cancels ≠ [] → sub = .accepted
  | _ => True

instance (w : World) : (st : Step) → Decidable (w.CancelsAccepted st)
  | .call _ (.read fd _ _) sub => inferInstanceAs (Decidable (w.readState fd = .none → sub ≠ .left))
  | .cancelReadRest sub => inferInstanceAs (Decidable (w.cancels ≠ [] → sub = .accepted))
  | .start _ | .await _ _ | .drop _ _ | .finish _ | .complete _ _ _ | .call _ (.readGroup _) _
  | .call _ (.accept _) _ | .call _ .sleep _ | .call _ (.write _) _ | .call _ (.cancelRead _) _
  | .call _ (.cancelWrite _) _ | .call _ (.cancelAccept _) _ | .clearSpawned => .isTrue trivial

structure ReadGuarded (w : World) : Prop where
  none_iff : ∀ fd, w.readState fd = .none ↔ ∀ r ∈ w.requests, r.slot ≠ .read fd
  unique : w.requests.Pairwise fun r r' => ∀ fd, r.slot = .read fd → r'.slot ≠ .read fd
  -- the completion of a read resets the state
  slot : ∀ r ∈ w.requests, ∀ fd, r.slot = .read fd
    → r.multishot = false ∧ ∃ a, w.slots (.read fd) = some (.read fd a)
  -- the completion of a cancel does nothing
  cancelSlot : ∀ r ∈ w.requests, (∃ fd, r.slot = .read fd)
    ∨ ∃ fd a, r.slot = .cancelRead fd ∧ w.slots (.cancelRead fd) = some (.cancelRead fd a) ∧ w.doneFlag a
  cancels : ∀ e ∈ w.cancels, w.readState e.fd = .cancelling ∧ w.doneFlag e.awaiter = false
    ∧ e.awaiter < w.nextBlock
  distinct : w.cancels.Pairwise fun e e' => e.fd ≠ e'.fd ∧ e.awaiter ≠ e'.awaiter
  fresh : ∀ a, w.nextBlock ≤ a → w.doneFlag a = false

theorem ReadGuarded.congr (h : w.ReadGuarded) (hstate : ∀ fd, w'.readState fd = w.readState fd)
    (hslots : w'.slots = w.slots) (hrequests : w'.requests = w.requests)
    (hcancels : w'.cancels = w.cancels) (hdone : w'.doneFlag = w.doneFlag)
    (hblock : w.nextBlock ≤ w'.nextBlock)
    : w'.ReadGuarded := by
  constructor
  . simp only [hstate, hrequests]
    exact h.none_iff
  . rw [hrequests]
    exact h.unique
  . rw [hrequests, hslots]
    exact h.slot
  . rw [hrequests, hslots, hdone]
    exact h.cancelSlot
  . intro e he
    rw [hcancels] at he
    obtain ⟨hs, hd, hlt⟩ := h.cancels e he
    rw [hstate, hdone]
    exact ⟨hs, hd, by omega⟩
  . rw [hcancels]
    exact h.distinct
  . intro a ha
    rw [hdone]
    exact h.fresh a (by omega)

theorem readState_congr (h : w'.fdInfoMap = w.fdInfoMap) (fd : Nat)
    : w'.readState fd = w.readState fd := by
  simp only [readState, h]

theorem ReadGuarded.same (h : w.ReadGuarded) (hinfo : w'.fdInfoMap = w.fdInfoMap)
    (hslots : w'.slots = w.slots) (hrequests : w'.requests = w.requests)
    (hcancels : w'.cancels = w.cancels) (hdone : w'.doneFlag = w.doneFlag)
    (hblock : w.nextBlock ≤ w'.nextBlock)
    : w'.ReadGuarded :=
  h.congr (readState_congr hinfo) hslots hrequests hcancels hdone hblock

theorem ReadGuarded.complete {src : Source} {x : Completion} (h : w.ReadGuarded)
    : (w.complete src a x).ReadGuarded := by
  obtain ⟨-, hblock, hinfo, hcancels, hdone⟩ := complete_rest w src a x
  obtain ⟨hslots, hrequests⟩ := complete_slots w src a x
  exact h.same hinfo hslots hrequests hcancels hdone (by omega)

theorem ReadGuarded.await (h : w.ReadGuarded)
    : (w.await c a).ReadGuarded := by
  rcases await_cases w c a with heq | ⟨coro, b, -, -, -, -, -, ⟨-, heq⟩ | ⟨-, heq⟩⟩ <;> rw [heq]
  . exact h
  . exact h.same rfl rfl rfl rfl rfl (Nat.le_refl _)
  . exact h.same rfl rfl rfl rfl rfl (Nat.le_refl _)

theorem ReadGuarded.drop (h : w.ReadGuarded)
    : (w.drop c a).ReadGuarded := by
  unfold World.drop
  split
  . split
    . exact h.same rfl rfl rfl rfl rfl (Nat.le_refl _)
    . exact h
  . exact h

theorem ReadGuarded.finish (h : w.ReadGuarded)
    : (w.finish c).ReadGuarded := by
  unfold World.finish
  split
  . exact h.same rfl rfl rfl rfl rfl (Nat.le_refl _)
  . exact h

theorem readState_setFdInfo (w : World) (fd fd' : Nat) (info : FdInfo)
    : (w.setFdInfo fd info).readState fd' = if fd' = fd then info.state else w.readState fd' := by
  simp only [readState, setFdInfo, Function.update_apply]
  split <;> rfl

theorem readState_of_some {info : FdInfo} (h : w.fdInfoMap fd = some info)
    : w.readState fd = info.state := by
  simp [readState, h]

theorem ReadGuarded.newBlock {kind : Kind} (h : w.ReadGuarded)
    : (w.newBlock c kind).ReadGuarded :=
  h.same rfl rfl rfl rfl rfl (Nat.le_succ _)

-- An entry of the map that does not change the state.
theorem ReadGuarded.setFdInfo {info : FdInfo} (h : w.ReadGuarded) (hinfo : info.state = w.readState fd)
    : (w.setFdInfo fd info).ReadGuarded := by
  refine h.congr ?_ rfl rfl rfl rfl (Nat.le_refl _)
  intro fd'
  rw [readState_setFdInfo]
  split
  . rename_i heq
    rw [heq]
    exact hinfo
  . rfl

-- A read is submitted on a file descriptor without outstanding reads.
theorem ReadGuarded.submit_read (h : w.ReadGuarded) (hnone : w.readState fd = .none)
    : ((w.setFdInfo fd ⟨.pending, some a⟩).submit (.read fd) (.read fd a) false .accepted).ReadGuarded := by
  have hfree := (h.none_iff fd).mp hnone
  have hstate : ∀ fd', ((w.setFdInfo fd ⟨.pending, some a⟩).submit (.read fd) (.read fd a) false
      .accepted).readState fd' = if fd' = fd then .pending else w.readState fd' :=
    fun fd' => readState_setFdInfo w fd fd' _
  have hrequests : ((w.setFdInfo fd ⟨.pending, some a⟩).submit (.read fd) (.read fd a) false
      .accepted).requests = w.requests ++ [{ slot := .read fd, awaiter := a, multishot := false }] := rfl
  constructor
  . intro fd'
    rw [hstate, hrequests]
    by_cases heq : fd' = fd
    . simp [heq]
    . rw [if_neg heq, h.none_iff]
      simp [or_imp, forall_and, Ne.symm heq]
  . rw [hrequests, List.pairwise_append]
    refine ⟨h.unique, List.pairwise_singleton .., ?_⟩
    intro r hr r' hr' fd' hslot
    rw [List.mem_singleton] at hr'
    subst hr'
    rintro ⟨⟩
    exact hfree r hr hslot
  . intro r hr fd' hslot
    rw [hrequests, List.mem_append, List.mem_singleton] at hr
    rcases hr with hr | rfl
    . have hne : fd' ≠ fd := by
        rintro rfl
        exact hfree r hr hslot
      obtain ⟨hm, a', ha'⟩ := h.slot r hr fd' hslot
      refine ⟨hm, a', ?_⟩
      simp only [submit, setSlot]
      rw [Function.update_of_ne (by simpa using hne)]
      exact ha'
    . cases hslot
      exact ⟨rfl, a, Function.update_self ..⟩
  . intro r hr
    rw [hrequests, List.mem_append, List.mem_singleton] at hr
    rcases hr with hr | rfl
    . rcases h.cancelSlot r hr with hread | ⟨fd', a', hslot, hcb, hdone⟩
      . exact .inl hread
      . refine .inr ⟨fd', a', hslot, ?_, hdone⟩
        simp only [submit, setSlot]
        rw [Function.update_of_ne (by simp)]
        exact hcb
    . exact .inl ⟨fd, rfl⟩
  . intro e he
    obtain ⟨hs, hd, hlt⟩ := h.cancels e he
    rw [hstate, if_neg]
    . exact ⟨hs, hd, hlt⟩
    . intro heq
      rw [heq, hnone] at hs
      cases hs
  . exact h.distinct
  . exact h.fresh

theorem ReadGuarded.read {buffer : Option Nat} {cnt : Nat} {sub : Submit} (h : w.ReadGuarded)
    (hsub : Submit.possible w.backend false sub) (hleft : w.readState fd = .none → sub ≠ .left)
    : (w.read c fd buffer cnt sub).ReadGuarded := by
  have hnew : ((w.newBlock c .read).setFdInfo fd ((w.fdInfoMap fd).getD {})).ReadGuarded :=
    h.newBlock.setFdInfo rfl
  simp only [World.read, readWith]
  split
  . exact hnew.complete
  . rename_i hstate
    have hnone : w.readState fd = .none := not_not.mp hstate
    have hnone' : ((w.newBlock c .read).setFdInfo fd ((w.fdInfoMap fd).getD {})).readState fd = .none := by
      rw [readState_setFdInfo, if_pos rfl]
      exact hnone
    cases sub with
    | accepted =>
      rw [if_pos rfl]
      exact hnew.submit_read hnone'
    | refused =>
      rw [if_neg (by simp)]
      refine ReadGuarded.complete (hnew.congr ?_ rfl rfl rfl rfl (Nat.le_refl _))
      intro fd'
      simp only [submit, readState_setFdInfo]
      split
      . exact hnone.symm
      . rfl
    | stored => simp [Submit.possible] at hsub
    | left => exact absurd rfl (hleft hnone)

theorem readState_setReadState {info : FdInfo} {state : FdReadState} (h : w.fdInfoMap fd = some info)
    (fd' : Nat)
    : (w.setReadState fd state).readState fd' = if fd' = fd then state else w.readState fd' := by
  simp only [setReadState, h]
  exact readState_setFdInfo w fd fd' _

theorem setReadState_eq (w : World) (fd : Nat) (state : FdReadState)
    : ∃ m, w.setReadState fd state = { w with fdInfoMap := m } := by
  unfold setReadState
  split
  . exact ⟨w.fdInfoMap, rfl⟩
  . exact ⟨_, rfl⟩

theorem clearPending_eq (w : World) (fd : Nat)
    : ∃ m, w.clearPending fd = { w with fdInfoMap := m } := by
  unfold clearPending
  split
  . exact ⟨w.fdInfoMap, rfl⟩
  . exact ⟨_, rfl⟩

theorem resetRead_eq (w : World) (fd : Nat)
    : ∃ m, w.resetRead fd = { w with fdInfoMap := m } := by
  unfold resetRead
  split
  . exact ⟨w.fdInfoMap, rfl⟩
  . exact ⟨_, rfl⟩

theorem cancelReadRest_failed {caller : Nat} {es : List CancelCall} {sub : Submit}
    (hcancels : w.cancels = ⟨caller, fd, a⟩ :: es) (hsub : sub ≠ .accepted)
    : w.cancelReadRest sub
        = (((clearPending { w with cancels := es } fd).submit (.cancelRead fd) (.cancelRead fd a) false
            sub).setReadState fd .none).complete .inline a { ret := -1 } := by
  simp only [cancelReadRest, hcancels]
  split
  . exact absurd rfl hsub
  . exact absurd rfl hsub
  . rfl

-- A read that is pending begins to be cancelled.
theorem ReadGuarded.cancelling {info : FdInfo} (h : w.ReadGuarded) (hinfo : w.fdInfoMap fd = some info)
    (hpending : info.state = .pending) (ha : w.doneFlag a = false) (hlt : a < w.nextBlock)
    (hne : ∀ e ∈ w.cancels, e.awaiter ≠ a)
    : ReadGuarded { w.setReadState fd .cancelling with cancels := ⟨c, fd, a⟩ :: w.cancels } := by
  have hold : w.readState fd = .pending := by
    rw [readState_of_some hinfo]
    exact hpending
  have hstate : ∀ fd', readState { w.setReadState fd .cancelling with cancels := ⟨c, fd, a⟩ :: w.cancels } fd'
      = if fd' = fd then .cancelling else w.readState fd' :=
    readState_setReadState hinfo
  have hrest : (w.setReadState fd .cancelling).requests = w.requests
      ∧ (w.setReadState fd .cancelling).slots = w.slots
      ∧ (w.setReadState fd .cancelling).doneFlag = w.doneFlag
      ∧ (w.setReadState fd .cancelling).nextBlock = w.nextBlock := by
    obtain ⟨m, hm⟩ := setReadState_eq w fd .cancelling
    rw [hm]
    exact ⟨rfl, rfl, rfl, rfl⟩
  have hfd : ∀ e ∈ w.cancels, e.fd ≠ fd := by
    rintro e he rfl
    rw [(h.cancels e he).1] at hold
    cases hold
  constructor
  . intro fd'
    rw [hstate]
    simp only [hrest.1]
    split
    . rename_i heq
      subst heq
      rw [← h.none_iff, hold]
      simp
    . exact h.none_iff fd'
  . simp only [hrest.1]
    exact h.unique
  . simp only [hrest.1, hrest.2.1]
    exact h.slot
  . simp only [hrest.1, hrest.2.1, hrest.2.2.1]
    exact h.cancelSlot
  . intro e he
    rw [hstate]
    simp only [hrest.2.2.1, hrest.2.2.2]
    rcases List.mem_cons.mp he with rfl | he
    . exact ⟨if_pos rfl, ha, hlt⟩
    . rw [if_neg (hfd e he)]
      exact h.cancels e he
  . exact List.pairwise_cons.mpr
      ⟨fun e he => ⟨Ne.symm (hfd e he), Ne.symm (hne e he)⟩, h.distinct⟩
  . simp only [hrest.2.2.1, hrest.2.2.2]
    exact h.fresh

theorem ReadGuarded.cancelRead (h : w.ReadGuarded)
    : (w.cancelRead c fd).ReadGuarded := by
  unfold World.cancelRead
  simp only
  split
  . rename_i pending hinfo
    have hnew : ReadGuarded { (w.newBlock c .result).setReadState fd .cancelling with
        cancels := ⟨c, fd, w.nextBlock⟩ :: w.cancels } := by
      refine h.newBlock.cancelling hinfo rfl (h.fresh _ (Nat.le_refl _)) (Nat.lt_succ_self _) ?_
      intro e he
      have := (h.cancels e he).2.2
      omega
    obtain ⟨m, hm⟩ := setReadState_eq (w.newBlock c .result) fd .cancelling
    cases pending with
    | none =>
      refine hnew.same rfl rfl rfl ?_ rfl (Nat.le_refl _)
      rw [hm]
      rfl
    | some p =>
      obtain ⟨-, hblock, hinfo, hcancels, hdone⟩ := complete_rest
        ((w.newBlock c .result).setReadState fd .cancelling) .inline p { ret := -ECANCELED }
      obtain ⟨hslots, hrequests⟩ := complete_slots
        ((w.newBlock c .result).setReadState fd .cancelling) .inline p { ret := -ECANCELED }
      refine hnew.same hinfo hslots hrequests ?_ hdone (Nat.le_of_eq hblock.symm)
      simp only [hcancels]
      rw [hm]
      rfl
  . exact h.newBlock.complete

theorem ReadGuarded.setDone (h : w.ReadGuarded) (hlt : a < w.nextBlock)
    (hne : ∀ e ∈ w.cancels, e.awaiter ≠ a)
    : ReadGuarded { w with doneFlag := Function.update w.doneFlag a true } := by
  constructor
  . exact h.none_iff
  . exact h.unique
  . exact h.slot
  . intro r hr
    rcases h.cancelSlot r hr with hread | ⟨fd, a', hslot, hcb, hdone⟩
    . exact .inl hread
    . refine .inr ⟨fd, a', hslot, hcb, ?_⟩
      simp only [Function.update_apply]
      split
      . rfl
      . exact hdone
  . intro e he
    obtain ⟨hs, hd, hlt'⟩ := h.cancels e he
    refine ⟨hs, ?_, hlt'⟩
    simp only [Function.update_of_ne (hne e he)]
    exact hd
  . exact h.distinct
  . intro a' ha'
    simp only at ha'
    simp only [Function.update_of_ne (show a' ≠ a by omega)]
    exact h.fresh a' ha'

-- epoll takes the read away
theorem ReadGuarded.disable_read {info : FdInfo} (h : w.ReadGuarded) (hinfo : info.state = .none)
    (hne : ∀ e ∈ w.cancels, e.fd ≠ fd)
    : ((w.disable (.read fd)).setFdInfo fd info).ReadGuarded := by
  have hmem : ∀ r, r ∈ (w.disable (.read fd)).requests ↔ r ∈ w.requests ∧ r.slot ≠ .read fd := by
    intro r
    simp [disable]
  have hstate : ∀ fd', ((w.disable (.read fd)).setFdInfo fd info).readState fd'
      = if fd' = fd then .none else w.readState fd' := by
    intro fd'
    rw [readState_setFdInfo, hinfo]
    rfl
  constructor
  . intro fd'
    rw [hstate]
    change _ ↔ ∀ r ∈ (w.disable (.read fd)).requests, _
    simp only [hmem]
    by_cases heq : fd' = fd
    . subst heq
      simp
    . rw [if_neg heq, h.none_iff]
      refine ⟨fun hnot r hr => hnot r hr.1, fun hnot r hr => ?_⟩
      by_cases hslot : r.slot = .read fd
      . rw [hslot]
        simpa using Ne.symm heq
      . exact hnot r ⟨hr, hslot⟩
  . exact h.unique.sublist List.filter_sublist
  . intro r hr fd' hslot
    obtain ⟨hr, hne'⟩ := (hmem r).mp hr
    obtain ⟨hm, a', ha'⟩ := h.slot r hr fd' hslot
    refine ⟨hm, a', ?_⟩
    simp only [World.setFdInfo, disable, setSlot]
    rw [Function.update_of_ne (by rw [← hslot]; exact hne')]
    exact ha'
  . intro r hr
    obtain ⟨hr, -⟩ := (hmem r).mp hr
    rcases h.cancelSlot r hr with hread | ⟨fd', a', hslot, hcb, hdone⟩
    . exact .inl hread
    . refine .inr ⟨fd', a', hslot, ?_, hdone⟩
      simp only [World.setFdInfo, disable, setSlot]
      rw [Function.update_of_ne (by simp)]
      exact hcb
  . intro e he
    rw [hstate, if_neg (hne e he)]
    exact h.cancels e he
  . exact h.distinct
  . exact h.fresh

theorem ReadGuarded.submit_cancel (h : w.ReadGuarded) (hdone : w.doneFlag a = true)
    : (w.submit (.cancelRead fd) (.cancelRead fd a) false .accepted).ReadGuarded := by
  have hrequests : (w.submit (.cancelRead fd) (.cancelRead fd a) false .accepted).requests
      = w.requests ++ [{ slot := .cancelRead fd, awaiter := a, multishot := false }] := rfl
  have hread : ∀ fd', (w.submit (.cancelRead fd) (.cancelRead fd a) false .accepted).slots (.read fd')
      = w.slots (.read fd') := by
    intro fd'
    simp [submit, setSlot]
  constructor
  . intro fd'
    rw [hrequests]
    simp only [List.mem_append, List.mem_singleton, or_imp, forall_and, forall_eq]
    change w.readState fd' = .none ↔ _
    simpa using h.none_iff fd'
  . rw [hrequests, List.pairwise_append]
    refine ⟨h.unique, List.pairwise_singleton .., ?_⟩
    intro r hr r' hr' fd' hslot
    rw [List.mem_singleton] at hr'
    subst hr'
    simp
  . intro r hr fd' hslot
    rw [hrequests, List.mem_append, List.mem_singleton] at hr
    rw [hread]
    rcases hr with hr | rfl
    . exact h.slot r hr fd' hslot
    . cases hslot
  . intro r hr
    rw [hrequests, List.mem_append, List.mem_singleton] at hr
    rcases hr with hr | rfl
    . rcases h.cancelSlot r hr with hread | ⟨fd', a', hslot, hcb, hdone'⟩
      . exact .inl hread
      . right
        by_cases heq : fd' = fd
        . subst heq
          exact ⟨fd', a, hslot, Function.update_self .., hdone⟩
        . refine ⟨fd', a', hslot, ?_, hdone'⟩
          simp only [submit, setSlot]
          rw [Function.update_of_ne (by simpa using heq)]
          exact hcb
    . exact .inr ⟨fd, a, rfl, Function.update_self .., hdone⟩
  . exact h.cancels
  . exact h.distinct
  . exact h.fresh

theorem ReadGuarded.cancelReadRest (h : w.ReadGuarded)
    : (w.cancelReadRest .accepted).ReadGuarded := by
  unfold World.cancelReadRest
  split
  . exact h
  . rename_i caller fd a cancels hcancels
    obtain ⟨hcancelling, hdone, hlt⟩ := h.cancels ⟨caller, fd, a⟩ (by simp [hcancels])
    have hdistinct := h.distinct
    rw [hcancels, List.pairwise_cons] at hdistinct
    obtain ⟨info, hinfo⟩ : ∃ info, w.fdInfoMap fd = some info := by
      cases hinfo : w.fdInfoMap fd with
      | none => simp [readState, hinfo] at hcancelling
      | some info => exact ⟨info, rfl⟩
    have hpop : ReadGuarded { w with cancels } := by
      refine ⟨h.none_iff, h.unique, h.slot, h.cancelSlot, ?_, hdistinct.2, h.fresh⟩
      intro e he
      exact h.cancels e (by rw [hcancels]; exact List.mem_cons_of_mem _ he)
    have hclear : clearPending { w with cancels } fd
        = World.setFdInfo { w with cancels } fd { info with pendingReadAwaiter := none } := by
      simp [clearPending, hinfo]
    have hguard : (clearPending { w with cancels } fd).ReadGuarded := by
      rw [hclear]
      exact hpop.setFdInfo (readState_of_some hinfo).symm
    have hne : ∀ e ∈ (clearPending { w with cancels } fd).cancels, e.fd ≠ fd ∧ e.awaiter ≠ a := by
      rw [hclear]
      intro e he
      exact ⟨Ne.symm (hdistinct.1 e he).1, Ne.symm (hdistinct.1 e he).2⟩
    have hdone' : (clearPending { w with cancels } fd).doneFlag a = false := by
      rw [hclear]
      exact hdone
    have hlt' : a < (clearPending { w with cancels } fd).nextBlock := by
      rw [hclear]
      exact hlt
    have hinfo' : (clearPending { w with cancels } fd).fdInfoMap fd
        = some { info with pendingReadAwaiter := none } := by
      rw [hclear]
      exact Function.update_self ..
    generalize clearPending { w with cancels } fd = w₁ at *
    have hset : ReadGuarded { w₁ with doneFlag := Function.update w₁.doneFlag a true } :=
      hguard.setDone hlt' fun e he => (hne e he).2
    simp only
    split
    . have heq : (w₁.disable (.read fd)).invoke .inline (.cancelRead fd a) { ret := 0 }
          = World.complete (World.setFdInfo (disable { w₁ with doneFlag := Function.update w₁.doneFlag a true }
              (.read fd)) fd ⟨.none, none⟩) .inline a { ret := 0 } := by
        simp only [invoke]
        rw [if_neg (by simpa [disable, setSlot] using hdone')]
        simp only [setReadState]
        rw [show (w₁.disable (.read fd)).fdInfoMap fd = _ from hinfo']
        rfl
      have hnone : ReadGuarded (World.setFdInfo (disable { w₁ with
          doneFlag := Function.update w₁.doneFlag a true } (.read fd)) fd ⟨.none, none⟩) :=
        hset.disable_read rfl fun e he => (hne e he).1
      obtain ⟨-, hblock, -, hcancels', -⟩ := complete_rest (World.setFdInfo (disable { w₁ with
        doneFlag := Function.update w₁.doneFlag a true } (.read fd)) fd ⟨.none, none⟩) .inline a { ret := 0 }
      apply ReadGuarded.complete
      rw [heq]
      apply hnone.complete.setDone
      . rw [hblock]
        exact hlt'
      . rw [hcancels']
        exact fun e he => (hne e he).2
    . exact ReadGuarded.complete (hset.submit_cancel (Function.update_self ..))
    . rename_i hnot _
      exact (hnot rfl).elim

theorem ReadGuarded.erase_cancel {i : Nat} {r : Request} (h : w.ReadGuarded)
    (hr : w.requests[i]? = some r) (hslot : r.slot = .cancelRead fd)
    : ReadGuarded { w with requests := w.requests.eraseIdx i } := by
  have hmem : ∀ r' ∈ w.requests.eraseIdx i, r' ∈ w.requests := fun _ => List.mem_of_mem_eraseIdx
  constructor
  . intro fd'
    refine (h.none_iff fd').trans ⟨fun hnot r' hr' => hnot r' (hmem r' hr'), fun hnot r' hr' heq => ?_⟩
    refine hnot r' (mem_eraseIdx_of_ne hr hr' ?_) heq
    rintro rfl
    rw [hslot] at heq
    cases heq
  . exact h.unique.sublist (List.eraseIdx_sublist ..)
  . exact fun r' hr' => h.slot r' (hmem r' hr')
  . exact fun r' hr' => h.cancelSlot r' (hmem r' hr')
  . exact h.cancels
  . exact h.distinct
  . exact h.fresh

theorem ReadGuarded.erase_read {i : Nat} {r : Request} {info : FdInfo} (h : w.ReadGuarded)
    (hcancels : w.cancels = []) (hr : w.requests[i]? = some r) (hslot : r.slot = .read fd)
    (hinfo : info.state = .none)
    : ReadGuarded (World.setFdInfo { w with requests := w.requests.eraseIdx i } fd info) := by
  have hmem : ∀ r' ∈ w.requests.eraseIdx i, r' ∈ w.requests := fun _ => List.mem_of_mem_eraseIdx
  have hlast : ∀ r' ∈ w.requests.eraseIdx i, r'.slot ≠ .read fd := by
    intro r' hr'
    rcases pairwise_eraseIdx h.unique hr r' hr' with hne | hne
    . exact hne fd hslot
    . exact fun heq => hne fd heq hslot
  constructor
  . intro fd'
    rw [readState_setFdInfo]
    split
    . rename_i heq
      subst heq
      exact ⟨fun _ => hlast, fun _ => hinfo⟩
    . rename_i hne
      refine (h.none_iff fd').trans ⟨fun hnot r' hr' => hnot r' (hmem r' hr'), fun hnot r' hr' heq => ?_⟩
      refine hnot r' (mem_eraseIdx_of_ne hr hr' ?_) heq
      rintro rfl
      rw [hslot, Slot.read.injEq] at heq
      exact hne heq.symm
  . exact h.unique.sublist (List.eraseIdx_sublist ..)
  . exact fun r' hr' => h.slot r' (hmem r' hr')
  . exact fun r' hr' => h.cancelSlot r' (hmem r' hr')
  . intro e he
    change e ∈ w.cancels at he
    rw [hcancels] at he
    cases he
  . exact h.distinct
  . exact h.fresh

theorem ReadGuarded.completeRequest {i : Nat} {x : Completion} {more : Bool} (h : w.ReadGuarded)
    : (w.completeRequest i x more).ReadGuarded := by
  cases hr : w.requests[i]? with
  | none =>
    have heq : w.completeRequest i x more = w := by simp [World.completeRequest, hr]
    rw [heq]
    exact h
  | some r =>
    by_cases hcancels : w.cancels = []
    . have hmem := List.mem_of_getElem? hr
      rcases h.cancelSlot r hmem with ⟨fd, hslot⟩ | ⟨fd, a, hslot, hcb, hdone⟩
      . obtain ⟨hm, a, hcb⟩ := h.slot r hmem fd hslot
        rw [World.completeRequest_eq hr hcancels (hslot ▸ hcb), hm]
        apply ReadGuarded.complete
        -- the state is that of an outstanding read, so the file descriptor is in the map
        obtain ⟨info, hinfo⟩ : ∃ info, w.fdInfoMap fd = some info := by
          cases hinfo : w.fdInfoMap fd with
          | none => exact absurd hslot ((h.none_iff fd).mp (by simp [readState, hinfo]) r hmem)
          | some info => exact ⟨info, rfl⟩
        simp only [resetRead, hinfo]
        exact h.erase_read hcancels hr hslot rfl
      . rw [World.completeRequest_eq hr hcancels (hslot ▸ hcb)]
        simp only [invoke, hdone, if_true]
        split
        . exact h
        . exact h.erase_cancel hr hslot
    . have heq : w.completeRequest i x more = w := by simp [World.completeRequest, hr, hcancels]
      rw [heq]
      exact h

theorem step_readGuarded (h : w.ReadGuarded) (st : Step) (hst : ReadStep st) (hcond : w.CancelsAccepted st)
    : (w.step st).ReadGuarded := by
  have hif : ∀ (p : Bool) (w' : World), (p = true → w'.ReadGuarded)
      → (if p then w' else w).ReadGuarded := by
    intro p w' h'
    split
    . rename_i hp
      exact h' hp
    . exact h
  cases st with
  | start spawned => exact h.same rfl rfl rfl rfl rfl (Nat.le_refl _)
  | call c op sub =>
    cases op with
    | read fd buffer cnt => exact hif _ _ fun _ => hif _ _ fun hsub => h.read hsub hcond
    | cancelRead fd => exact hif _ _ fun _ => h.cancelRead
    | _ => exact absurd hst id
  | cancelReadRest sub =>
    apply hif
    intro _
    by_cases hcancels : w.cancels = []
    . have heq : w.cancelReadRest sub = w := by simp [World.cancelReadRest, hcancels]
      rw [heq]
      exact h
    . rw [hcond hcancels]
      exact h.cancelReadRest
  | await c a => exact hif _ _ fun _ => h.await
  | drop c a => exact hif _ _ fun _ => h.drop
  | finish c => exact hif _ _ fun _ => h.finish
  | complete i x more => exact h.completeRequest
  | clearSpawned => exact absurd hst id

theorem init_readGuarded (backend : Backend)
    : ReadGuarded { backend } := by
  constructor <;> intros <;> simp_all [readState]

-- A read is cancelled on io_uring and completes, then the next one is submitted.
def cancelledRead : List Step :=
  [.start true, .start true, .call 0 (.read 3 none 1) .accepted, .await 0 0, .call 1 (.cancelRead 3) .accepted,
    .cancelReadRest .accepted, .complete 0 { ret := -ECANCELED } false, .call 0 (.read 3 none 1) .accepted]

-- No entry of the ring is left for the cancel, the read stays outstanding and the coroutine reads again.
def failedCancel : List Step :=
  [.start true, .start true, .call 0 (.read 3 none 1) .accepted, .await 0 0, .call 1 (.cancelRead 3) .accepted,
    .cancelReadRest .stored]

end World

end Coroutine
end Ezio
