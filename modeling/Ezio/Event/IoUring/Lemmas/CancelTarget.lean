import Ezio.Event.IoUring.Lemmas.InFlight
import Ezio.Lib.List

/-!
This module contains which requests a cancel hits. `cancel_async_read` names the file descriptor and hits
its writes too, `cancel_async_write` names a `complete_action` that no request carries, unless it has been made where
one that a request carries was released.
-/

namespace Ezio
namespace Event
namespace Uring

open IoUring

-- The requests of `submit_async_read` and `submit_async_write`, the ones without a buffer poll.
def Sqe.isRead (q : Sqe) : Bool :=
  match q.opcode with
  | .readv | .recv | .recvmsg => true
  | .pollAdd => q.rwFlags = POLLIN
  | _ => false

def Sqe.isWrite (q : Sqe) : Bool :=
  match q.opcode with
  | .writev | .sendmsg => true
  | .pollAdd => q.rwFlags = POLLOUT
  | _ => false

-- Whether the kernel cancels the request `q` when it executes `sqe`. The `complete_action`s are at the addresses
-- `addr`.
def Sqe.cancels (addr : Nat → Nat) (sqe q : Sqe) : Bool :=
  sqe.opcode = .asyncCancel
    && if sqe.rwFlags = 0 then
        match sqe.addr with
        | .userData a => addr a = addr q.userData
        | _ => false
      else sqe.rwFlags = IORING_ASYNC_CANCEL_FD_ANY && q.fd = sqe.fd

-- Of the requests `inFlight` on the file descriptor, `sqe` cancels the ones that it is to cancel and
-- spares the ones that it is to spare.
def Sqe.Targets (addr : Nat → Nat) (sqe : Sqe) (inFlight : List Sqe) (fd : Fd) (hit spare : Sqe → Bool) : Prop :=
  ∀ q ∈ inFlight, q.fd = fd.num → (hit q → sqe.cancels addr q) ∧ (spare q → sqe.cancels addr q = false)

instance (addr : Nat → Nat) (sqe : Sqe) (inFlight : List Sqe) (fd : Fd) (hit spare : Sqe → Bool)
    : Decidable (sqe.Targets addr inFlight fd hit spare) :=
  inferInstanceAs (Decidable (∀ q ∈ inFlight, q.fd = fd.num
    → (hit q → sqe.cancels addr q) ∧ (spare q → sqe.cancels addr q = false)))

-- `a` is a `complete_action` that has not been released.
def IoUring.Live (s : IoUring) (a : Nat) : Prop := a ≠ 0 ∧ (s.actions a).isSome

-- Where the `complete_action`s may be: the live ones apart from each other, but a released one may be where another one
-- has been made since.
structure IoUring.Places (s : IoUring) (addr : Nat → Nat) : Prop where
  null : addr 0 = 0
  ne_null : ∀ a, s.Live a → addr a ≠ 0
  apart : ∀ a b, s.Live a → s.Live b → addr a = addr b → a = b

namespace IoUring

-- `a` is not the `complete_action` of a `cancel_async_write` and does not become one.
def Unaimed (s : IoUring) (a : Nat) : Prop :=
  a < s.nextAction ∧ ∀ key, ¬s.Owns key .cancelWrite a

variable {own : Option (Option Nat)} {I : Nat → Kind → Option ActionCallback → Prop} {s s' : IoUring}

theorem Unaimed.extend {a : Nat} (h : Unaimed s a) (hextends : Extends s s') : Unaimed s' a := by
  have hle := hextends.nextAction
  obtain ⟨hlt, hfree⟩ := h
  refine ⟨by omega, ?_⟩
  intro key hown
  rcases hextends.fresh key .cancelWrite a hown with hold | hnew
  . exact hfree key hold
  . omega

theorem Serves.unaimed {a : Nat} (h : Serves s a) (hheap : Heap I s) : Unaimed s a := by
  obtain ⟨key, kind, hkind, hown⟩ := h
  refine ⟨(hheap.alive key kind a hown).1, ?_⟩
  intro key' hown'
  obtain ⟨_, rfl⟩ := hheap.inj key kind key' .cancelWrite a hown hown'
  rcases hkind with hkind | hkind
  . cases hkind
  . cases hkind

-- What a call does to the actions and to the entry that it prepares.
structure Aims (s : IoUring) (own : Option (Option Nat)) (s' : IoUring) : Prop where
  grown : Extends s s'
  effect : ∃ ret, Effect (Labels s own s'.Unaimed) s.ring ret s'.ring

theorem Aims.refl (s : IoUring) : Aims s own s :=
  ⟨(Keeps.refl s).toExtends, -1, Effect.same (-1)⟩

theorem createTimer_aims (hheap : Heap I s) (intervalS intervalNs : Nat) (cb : Option Callback)
    : Aims s none (s.createTimer intervalS intervalNs cb).2 := by
  cases cb with
  | none => exact Aims.refl s
  | some cb =>
    by_cases hsome : intervalS = 0 ∧ intervalNs = 0
    . unfold createTimer
      dsimp only
      rw [if_pos hsome]
      exact Aims.refl s
    . obtain ⟨hnew, hfree⟩ := hheap.newAction { callback := some (.timer cb intervalS intervalNs) }
      have hextends := (Keeps.newAction s { callback := some (.timer cb intervalS intervalNs) }).toExtends
      have hsame := submitTimeout_same (s.newAction { callback := some (.timer cb intervalS intervalNs) }).2
        intervalS intervalNs s.nextAction
      have heffect : Effect _ s.ring _ _ := submitTimeout_effect
        (s.newAction { callback := some (.timer cb intervalS intervalNs) }).2 intervalS intervalNs
        s.nextAction
      have hlt : s.nextAction
          < (s.newAction { callback := some (.timer cb intervalS intervalNs) }).2.nextAction :=
        Nat.lt_succ_self s.nextAction
      have hunaimed : (s.newAction { callback := some (.timer cb intervalS intervalNs) }).2.Unaimed
          s.nextAction :=
        ⟨hlt, fun key => hfree key .cancelWrite⟩
      rw [createTimer_of_valid cb hsome]
      dsimp only
      generalize (s.newAction { callback := some (.timer cb intervalS intervalNs) }).2.submitTimeout
        intervalS intervalNs s.nextAction = r at hsame heffect ⊢
      have hunaimed' := hunaimed.extend hsame.settled.toKeeps.toExtends
      have hlabels : ∀ s' : IoUring, s'.Unaimed s.nextAction
          → Effect (Labels s none s'.Unaimed) s.ring r.1 r.2.ring := by
        intro s' h
        exact heffect.mono fun f hf => .inr ⟨s.nextAction, hf.2, fun _ => h⟩
      by_cases hzero : r.1 = 0
      . rw [if_pos hzero]
        have hstore : Extends r.2 (r.2.storeTimer s.nextAction) := .of_infos (Nat.le_refl _) rfl
        exact ⟨(hextends.trans hsame.settled.toKeeps.toExtends).trans hstore, r.1,
          hlabels _ (hunaimed'.extend hstore)⟩
      . rw [if_neg hzero]
        have hfreed : Extends r.2 { r.2 with
            actions := Function.update r.2.actions s.nextAction none } := .of_infos (Nat.le_refl _) rfl
        exact ⟨(hextends.trans hsame.settled.toKeeps.toExtends).trans hfreed, r.1,
          hlabels _ (hunaimed'.extend hfreed)⟩

theorem closeTimer_aims (timerId : Nat) : Aims s ((Op.closeTimer timerId).own s) (s.closeTimer timerId).2 := by
  cases htimer : s.idToTimer timerId with
  | none =>
    unfold closeTimer
    rw [htimer]
    exact Aims.refl s
  | some a =>
    have herase : ∀ s' : IoUring, Extends s' (s'.eraseTimer timerId a) :=
      fun _ => .of_infos (Nat.le_refl _) rfl
    rw [closeTimer_of_timer htimer]
    cases hshot : s.hasTimeoutMultishot with
    | false =>
      rw [if_neg Bool.false_ne_true]
      have hclear : Settled s (s.clearAction a) := Settled.modifyAction s a _
      exact ⟨hclear.toKeeps.toExtends.trans (herase _), -1, Effect.same (-1)⟩
    | true =>
      have hown : (Op.closeTimer timerId).own s = some none := by
        simp [Op.own, hshot, htimer]
      have hlabels := s.cancelTimer_labels a
      have hextends := (s.cancelTimer_keeps a).toExtends
      rw [hown, if_pos rfl]
      dsimp only
      generalize s.cancelTimer a = r at hlabels hextends ⊢
      by_cases hzero : r.1 = 0
      . rw [if_pos hzero]
        exact ⟨hextends.trans (herase _), r.1, hlabels _⟩
      . rw [if_neg hzero]
        exact ⟨hextends, r.1, hlabels _⟩

theorem run_aims {op : Op} (hheap : Heap (fun _ _ _ => True) s) : Aims s (op.own s) (s.run op).2 := by
  cases htimer : op.isTimer with
  | false =>
    have hgrows : Grows (fun _ _ _ => True) s (s.run op).2 :=
      run_grows hheap (fun _ _ => trivial) fun _ _ _ _ => trivial
    obtain ⟨hkeeps, ret, heffect⟩ := run_uses (s := s) htimer
    refine ⟨hkeeps.toExtends, ret, heffect.mono ?_⟩
    exact fun _ hf => hf.mono fun _ _ ha => ha.unaimed hgrows.heap
  | true =>
    cases op with
    | createTimer intervalS intervalNs cb => exact createTimer_aims hheap intervalS intervalNs cb
    | closeTimer timerId => exact closeTimer_aims timerId
    | _ => cases htimer

end IoUring

-- What is known of the `user_data` of all slots.
def SubmissionQueue.Slots (sq : SubmissionQueue) (P : Nat → Prop) : Prop :=
  ∀ q ∈ sq.sqes, P q.userData

theorem SubmissionQueue.Slots.modify {sq : SubmissionQueue} {P : Nat → Prop} {g : Sqe → Sqe} (h : sq.Slots P)
    (slot : Nat) (hg : ∀ q, P q.userData → P (g q).userData)
    : (sq.modify slot g).Slots P := by
  intro q hq
  unfold SubmissionQueue.modify at hq
  obtain ⟨i, hi, hget⟩ := List.mem_iff_getElem.mp hq
  dsimp only at hi hget
  rw [List.length_modify] at hi
  rw [List.getElem_modify] at hget
  have hold := h _ (List.getElem_mem hi)
  rw [← hget]
  split
  . exact hg _ hold
  . exact hold

theorem Wrapper.submit_sqes (w : Wrapper) (msghdrs : Nat → Msghdr)
    : (w.submit msghdrs).2.sq.sqes = w.sq.sqes := by
  unfold submit
  dsimp only
  split
  . obtain ⟨n, _, hstate, _⟩ := enter_spec { w with sq.ktail := w.sq.sqeTail } msghdrs
      (w.sq.sqeTail - w.sq.ktail).toNat
    rw [hstate]
    rfl
  . rfl

theorem SubmissionQueue.Slots.getSqe {sq : SubmissionQueue} {P : Nat → Prop} (h : sq.Slots P)
    : sq.getSqe.2.Slots P := by
  unfold SubmissionQueue.getSqe
  dsimp only
  split
  . have htail : SubmissionQueue.Slots { sq with sqeTail := sq.sqeTail + 1 } P := h
    exact htail.modify _ fun _ hq => hq
  . exact h

variable {k : Nat} {w w' : World}

theorem Effect.slots {F : (Sqe → Sqe) → Prop} {P : Nat → Prop} {ring ring' : Wrapper} {ret : Int}
    {hist : List Sqe} (h : Effect F ring ret ring') (ht : Tracks k ring hist) (hslots : ring.sq.Slots P)
    (hF : ∀ f, F f → ring.sq.getSqe.1 ≠ none → ∀ q, P q.userData → P (f q).userData)
    : ring'.sq.Slots P := by
  obtain ⟨head, queue, lag, hqueue, _, _⟩ := ht
  have hsubmit : ∀ (ring : Wrapper) msghdrs, ring.sq.Slots P → (ring.submit msghdrs).2.sq.Slots P := by
    intro ring msghdrs h
    unfold SubmissionQueue.Slots
    rw [ring.submit_sqes msghdrs]
    exact h
  have hfill : ∀ {msghdrs slot ring₁ f}, ring.getIoUringSqe msghdrs = (some slot, ring₁) → F f
      → (ring₁.modifySqe slot f).sq.Slots P := by
    intro msghdrs slot ring₁ f hget hfills
    obtain ⟨hroom, _, _⟩ := hqueue.of_getIoUringSqe hget
    obtain ⟨slot', sq, hsq, _⟩ := hqueue.getSqe hroom
    have hgot := hslots.getSqe
    unfold Wrapper.getIoUringSqe Wrapper.getSqe at hget
    rw [hsq] at hget hgot
    cases hget
    exact hgot.modify slot (hF f hfills (hqueue.getSqe_ne_none hroom))
  cases h with
  | same => exact hslots
  | @full msghdrs ring' hget =>
    have hfits := hqueue.fits
    have hfull : queue.length = 2 ^ k := by
      by_contra hne
      obtain ⟨slot, sq, heq, _⟩ := hqueue.getIoUringSqe msghdrs (by omega)
      rw [hget] at heq
      cases heq
    rw [hqueue.getIoUringSqe_full msghdrs hfull] at hget
    cases hget
    exact hsubmit ring msghdrs hslots
  | prepared hget hfills => exact hfill hget hfills
  | submitted hget hfills => exact hsubmit _ _ (hfill hget hfills)
  | flushed msghdrs => exact hsubmit ring msghdrs hslots

-- What a step does to the actions and to the ring.
structure Steers (w : World) (st : Step) (w' : World) : Prop where
  grown : Extends w.uring w'.uring
  ring : (∃ ret, Effect (Labels w.uring (st.own w) w'.uring.Unaimed) w.uring.ring ret w'.uring.ring)
      ∨ ∃ cq, w'.uring.ring = { w.uring.ring with cq }

theorem Steers.of_ring {st : Step} (hsettled : Settled w.uring w'.uring)
    (hring : w'.uring.ring = w.uring.ring)
    : Steers w st w' :=
  ⟨hsettled.toKeeps.toExtends, .inr ⟨w.uring.ring.cq, hring⟩⟩

theorem Steers.refl (w : World) (st : Step) : Steers w st w := .of_ring (Settled.refl _) rfl

namespace World

theorem next_steers {i ret : Nat} (h : w.next i ret = .ok w')
    (hunaimed : w.uring.Unaimed (w.uring.ring.getCqe i).userData)
    : Steers w .next w' := by
  have hsettled := next_keeps h
  rcases (next_takes h).completes with ⟨_, hquiet⟩ | ⟨_, w₀, w₁, hcompletes, huring, _, huring', _⟩
  . exact .of_ring hsettled hquiet.ring
  . have heffect := hcompletes.effect
    rw [huring, ← huring'] at heffect
    rcases heffect with hquiet | ⟨_, submitted, heffect⟩
    . exact .of_ring hsettled hquiet.ring
    . refine ⟨hsettled.toKeeps.toExtends, .inl ⟨submitted, heffect.mono ?_⟩⟩
      intro f hf
      exact .inr ⟨_, hf.2, fun _ => hunaimed.extend hsettled.toKeeps.toExtends⟩

theorem finish_steers {i ret : Nat} {cqe : Cqe} {called : Bool}
    (hphase : w.phase = .callback i ret cqe called) (h : w.finish i ret cqe called = .ok w')
    : Steers w .finish w' := by
  have hsettled := (finish_same h).settled
  rcases (finish_finishes h).effect with hquiet | ⟨_, hown, submitted, heffect⟩
  . exact .of_ring hsettled hquiet.ring
  . have hstep : Step.own w .finish = w.uring.resubmitOwn cqe := by
      unfold Step.own
      rw [hphase]
    obtain ⟨own, hown⟩ := Option.isSome_iff_exists.mp hown
    rw [hown] at hstep heffect
    refine ⟨hsettled.toKeeps.toExtends, .inl ⟨submitted, ?_⟩⟩
    rw [hstep]
    exact heffect.mono fun _ hfills => Labels.of_fills hfills

theorem step_steers (st : Step) (hheap : Heap (fun _ _ _ => True) w.uring)
    (hcqes : ∀ i, w.uring.Unaimed (w.uring.ring.getCqe i).userData)
    : Steers w st (w.step st) := by
  unfold World.step
  split
  . exact .refl w st
  . split
    . next w' htry =>
      cases tryStep_tries htry with
      | idle => exact .refl _ _
      | called op =>
        have haims : Aims w.uring (op.own w.uring) (w.uring.run op).2 := run_aims hheap
        obtain ⟨hgrown, ret, heffect⟩ := haims
        exact ⟨⟨hgrown.nextAction, hgrown.fresh⟩, .inl ⟨ret, heffect⟩⟩
      | posted => exact ⟨.of_infos (Nat.le_refl _) rfl, .inr (Wrapper.post_eq w.uring.ring _)⟩
      | waited => exact .of_ring (Settled.refl _) rfl
      | taken _ _ hnext => exact next_steers hnext (hcqes _)
      | finished hphase hfinish => exact finish_steers hphase hfinish
      | consumed => exact ⟨.of_infos (Nat.le_refl _) rfl, .inr ⟨_, rfl⟩⟩
    . exact .of_ring (Settled.refl _) rfl

end World

-- No `complete_action` of a `cancel_async_write` has come into the rings.
structure Untargeted (k : Nat) (w : World) : Prop where
  heap : Heap (fun _ _ _ => True) w.uring
  tracks : ∃ hist, Tracks k w.uring.ring hist
  zero : w.uring.Unaimed 0
  slots : w.uring.ring.sq.Slots w.uring.Unaimed
  prepared : ∀ q ∈ w.prepared, w.uring.Unaimed q.userData
  cqes : ∀ cqe ∈ w.uring.ring.cq.cqes, w.uring.Unaimed cqe.userData

theorem Untargeted.getCqe (h : Untargeted k w) (i : Nat)
    : w.uring.Unaimed (w.uring.ring.getCqe i).userData := by
  unfold Wrapper.getCqe
  rcases getD_mem_or_eq w.uring.ring.cq.cqes _ {} with hmem | heq
  . exact h.cqes _ hmem
  . rw [heq]
    exact h.zero

theorem Untargeted.nextSqe (h : Untargeted k w) : w.uring.Unaimed w.uring.ring.nextSqe.userData := by
  unfold Wrapper.nextSqe SubmissionQueue.get
  rcases getD_mem_or_eq w.uring.ring.sq.sqes _ {} with hmem | heq
  . exact h.slots _ hmem
  . rw [heq]
    exact h.zero

theorem IoUring.Labels.data {own : Option (Option Nat)} {s : IoUring} {K : Nat → Prop} {g : Sqe → Sqe} {q : Sqe}
    (h : Labels s own K g) (hroom : s.ring.sq.getSqe.1 ≠ none) (hq : K q.userData)
    : K (g q).userData := by
  rcases h with ⟨_, hdata⟩ | ⟨a, hdata, ha⟩
  . rw [hdata]
    exact hq
  . rw [hdata]
    exact ha hroom

theorem Untargeted.step (st : Step) (h : Untargeted k w) : Untargeted k (w.step st) := by
  obtain ⟨hgrown, hring⟩ := World.step_steers st h.heap h.getCqe
  obtain ⟨hist, ht⟩ := h.tracks
  have hslots : w.uring.ring.sq.Slots (w.step st).uring.Unaimed :=
    fun q hq => (h.slots q hq).extend hgrown
  have hprepared : ∀ q ∈ hist, (w.step st).uring.Unaimed q.userData := by
    intro q hq
    rw [← ht.prepared] at hq
    exact (h.prepared q hq).extend hgrown
  have hexecuted : ∀ e ∈ w.uring.ring.executed, w.uring.Unaimed e.sqe.userData :=
    fun e he => h.prepared _ (List.mem_append_left _ (List.mem_map_of_mem he))
  refine ⟨?_, World.step_tracks st h.tracks, h.zero.extend hgrown, ?_, ?_, ?_⟩
  . exact (World.step_grows h.heap (fun _ _ => trivial) fun _ _ _ _ _ _ => trivial).heap
  . rcases hring with ⟨ret, heffect⟩ | ⟨cq, hcq⟩
    . exact heffect.slots ht hslots fun g hg hroom q hq => hg.data hroom hq
    . rw [hcq]
      exact hslots
  . rcases hring with ⟨ret, heffect⟩ | ⟨cq, hcq⟩
    . rcases heffect.tracks ht with ht' | ⟨q, hadds, ht'⟩
      . rw [ht'.prepared]
        exact hprepared
      . rw [ht'.prepared]
        intro q' hq'
        rw [List.mem_append, List.mem_singleton] at hq'
        rcases hq' with hq' | hq'
        . exact hprepared q' hq'
        . obtain ⟨g, hg, hq⟩ := hadds.fills
          rw [hq', hq]
          exact hg.data (q := initializeSqe w.uring.ring.nextSqe) hadds.room (h.nextSqe.extend hgrown)
    . rw [prepared_of_cq hcq, ht.prepared]
      exact hprepared
  . intro cqe hcqe
    exact (World.step_cqes (S := fun _ data => w.uring.Unaimed data) st hexecuted h.cqes cqe hcqe).extend
      hgrown

theorem Untargeted.init {k : Nat} (c sqStart cqStart : Nat) (enters : List EnterRet) (hk : k < 32)
    (hasTimeoutMultishot : Bool)
    : Untargeted k { uring := .init hasTimeoutMultishot (Wrapper.init k c sqStart cqStart enters) } := by
  have hzero : (IoUring.init hasTimeoutMultishot (Wrapper.init k c sqStart cqStart enters)).Unaimed 0 := by
    refine ⟨Nat.one_pos, ?_⟩
    intro key hown
    obtain ⟨info, hinfo, _⟩ := hown
    cases hinfo
  have ht := Tracks.init c sqStart cqStart enters hk
  refine ⟨Heap.init _ _, ⟨[], ht⟩, hzero, ?_, ?_, ?_⟩
  . intro q hq
    rw [List.eq_of_mem_replicate hq]
    exact hzero
  . rw [Tracks.prepared (w := { uring := .init hasTimeoutMultishot (Wrapper.init k c sqStart cqStart enters) }) ht]
    intro q hq
    cases hq
  . intro cqe hcqe
    rw [List.eq_of_mem_replicate hcqe]
    exact hzero

theorem Tracks.unique {ring : Wrapper} {hist hist' : List Sqe} (h : Tracks k ring hist)
    (h' : Tracks k ring hist')
    : hist = hist' :=
  h.pending.trans h'.pending.symm

-- The entry of a cancel is filled in with the `complete_action` of its kind.
theorem IoUring.cancelAsync_adds {s : IoUring} {fd : Fd} {kind : Kind} {cb : ActionCallback}
    {f : Sqe → Origin → Nat → Sqe} {hist : List Sqe} {q : Sqe} (ht : Tracks k s.ring hist)
    (hheap : Heap (fun _ _ _ => True) s)
    (h : Tracks k (s.cancelAsync fd kind cb f).2.ring (hist ++ [q]))
    : ∃ a, (s.cancelAsync fd kind cb f).2.Owns fd.key kind a ∧ ∃ q₀, q = f q₀ ⟨s.calls, some a⟩ a := by
  unfold cancelAsync at h ⊢
  split at h
  . exact absurd (ht.unique h) (append_singleton_ne hist q)
  . next hvalid =>
    rw [if_neg hvalid]
    cases hinfo : s.fdToEventInfo fd.key with
    | none =>
      rw [hinfo] at h
      exact absurd (ht.unique h) (append_singleton_ne hist q)
    | some info =>
      rw [hinfo] at h
      dsimp only at h ⊢
      have howns : ∀ kind a, info.get kind = some a ↔ s.Owns fd.key kind a := by
        intro kind a
        simp [Owns, hinfo]
      obtain ⟨_, hown⟩ := hheap.getCompleteAction fd kind howns fun _ _ => trivial
      have hrest := (Rest.getCompleteAction (s := s) fd info kind).trans
        (Rest.setCallback (s.getCompleteAction fd info kind).1 cb)
      have hset : ((s.getCompleteAction fd info kind).2.setCallback
          (s.getCompleteAction fd info kind).1 cb).Owns fd.key kind (s.getCompleteAction fd info kind).1 :=
        hown
      generalize (s.getCompleteAction fd info kind).2.setCallback (s.getCompleteAction fd info kind).1 cb
        = s₁ at h hrest hset ⊢
      generalize (s.getCompleteAction fd info kind).1 = a at h hset ⊢
      have hfills : FillsBy (fun s g => ∀ q, g q = f q ⟨s.calls, some a⟩ a) fun s slot =>
          s.prepare slot (some a) fun sqe origin => f sqe origin a :=
        fun s slot => ⟨rfl, rfl, rfl, _, rfl, fun _ => rfl⟩
      have heffect := withSqe_effect (s := s₁) true hfills fun _ _ _ h => h
      have hsame : SameHeap s₁ (s₁.withSqe true fun s slot =>
          s.prepare slot (some a) fun sqe origin => f sqe origin a).2 :=
        SameHeap.withSqe true fun _ _ => ⟨rfl, rfl, rfl, rfl⟩
      rw [hrest.ring, hrest.calls] at heffect
      refine ⟨a, (hsame.owns _ _ _).mpr hset, ?_⟩
      rcases heffect.tracks ht with ht' | ⟨q', hadds, ht'⟩
      . exact absurd (ht'.unique h) (append_singleton_ne hist q)
      . have heq := ht'.unique h
        rw [List.append_cancel_left_eq, List.cons.injEq] at heq
        obtain ⟨g, hg, hq'⟩ := hadds.fills
        exact ⟨initializeSqe s.ring.nextSqe, by rw [← heq.1, hq', hg]⟩

-- A call that has prepared an entry has gone through.
theorem World.step_of_prepared {op : Op} {q : Sqe} (h : (w.step (.op op)).prepared = w.prepared ++ [q])
    : (w.step (.op op)).uring = (w.uring.exec op).2 := by
  unfold World.step at h ⊢
  cases hfault : w.fault with
  | none => rfl
  | some fault =>
    rw [hfault] at h
    exact absurd h (append_singleton_ne _ q)

theorem Untargeted.adds {op : Op} {q : Sqe} (h : Untargeted k w)
    (hadds : (w.step (.op op)).prepared = w.prepared ++ [q])
    : ∃ hist, Tracks k w.uring.ring hist ∧ Tracks k (w.uring.run op).2.ring (hist ++ [q]) := by
  obtain ⟨hist, ht⟩ := h.tracks
  obtain ⟨hist', ht'⟩ := (h.step (.op op)).tracks
  have heq := ht'.prepared
  rw [hadds, ht.prepared] at heq
  rw [World.step_of_prepared hadds, ← heq] at ht'
  exact ⟨hist, ht, ht'⟩

def NoWrite (inFlight : List Sqe) (fd : Fd) : Prop :=
  ∀ q ∈ inFlight, q.fd = fd.num → q.isWrite = false

-- The reads among the requests carry nothing that has been released.
def IoUring.NoneReleased (s : IoUring) (inFlight : List Sqe) (fd : Fd) : Prop :=
  ∀ q ∈ inFlight, q.fd = fd.num → q.isRead → q.userData = 0 ∨ s.Live q.userData

theorem prepareCancelByFd_targets_iff (addr : Nat → Nat) (q₀ : Sqe) (origin : Origin) (a : Nat) (fd : Fd)
    (inFlight : List Sqe)
    : (prepareCancelByFd q₀ origin a fd.num).Targets addr inFlight fd Sqe.isRead Sqe.isWrite
        ↔ NoWrite inFlight fd := by
  have hcancels : ∀ q : Sqe, q.fd = fd.num → (prepareCancelByFd q₀ origin a fd.num).cancels addr q := by
    intro q hfd
    simp [Sqe.cancels, prepareCancelByFd, prepareSqe, IORING_ASYNC_CANCEL_FD_ANY, hfd]
  constructor
  . intro h q hq hfd
    by_contra hwrite
    rw [Bool.not_eq_false] at hwrite
    have hspared := (h q hq hfd).2 hwrite
    rw [hcancels q hfd] at hspared
    cases hspared
  . intro h q hq hfd
    refine ⟨fun _ => hcancels q hfd, ?_⟩
    rw [h q hq hfd]
    intro hwrite
    cases hwrite

theorem prepareCancel_cancels (addr : Nat → Nat) (q₀ : Sqe) (origin : Origin) (a : Nat) (q : Sqe)
    : (prepareCancel q₀ origin a 0).cancels addr q = decide (addr a = addr q.userData) := by
  simp [Sqe.cancels, prepareCancel, prepareSqe]

-- The `complete_action` of a cancel may be where a released one has been.
theorem IoUring.Places.reuse {s : IoUring} {a b : Nat} (hne : a ≠ 0) (hb : b ≠ 0) (hreleased : ¬s.Live b)
    : s.Places fun x => if x = b then a else x := by
  refine ⟨if_neg hb.symm, ?_, ?_⟩
  . intro x hx
    split
    . exact hne
    . exact hx.1
  . intro x y hx hy
    have hlive : ∀ z, s.Live z → z ≠ b := by
      rintro z hz rfl
      exact hreleased hz
    rw [if_neg (hlive x hx), if_neg (hlive y hy)]
    exact id

theorem IoUring.Places.id {s : IoUring} : s.Places fun x => x := ⟨rfl, fun _ h => h.1, fun _ _ _ _ h => h⟩

theorem prepareCancel_targets_iff {s : IoUring} {a : Nat} {inFlight : List Sqe} (q₀ : Sqe) (origin : Origin) (fd : Fd)
    (ha : s.Live a) (hne : ∀ q ∈ inFlight, q.userData ≠ a)
    : (∀ addr, s.Places addr → (prepareCancel q₀ origin a 0).Targets addr inFlight fd Sqe.isWrite Sqe.isRead)
        ↔ NoWrite inFlight fd ∧ s.NoneReleased inFlight fd := by
  constructor
  . intro h
    constructor
    . intro q hq hfd
      by_contra hwrite
      rw [Bool.not_eq_false] at hwrite
      have hhit := (h _ .id q hq hfd).1 hwrite
      rw [prepareCancel_cancels, decide_eq_true_eq] at hhit
      exact hne q hq hhit.symm
    . intro q hq hfd hread
      by_contra hreleased
      rw [not_or] at hreleased
      have hspared := (h _ (.reuse ha.1 hreleased.1 hreleased.2) q hq hfd).2 hread
      rw [prepareCancel_cancels, decide_eq_false_iff_not] at hspared
      apply hspared
      rw [if_neg (hne q hq).symm, if_pos rfl]
  . rintro ⟨hwrites, hreads⟩ addr hplaces q hq hfd
    constructor
    . rw [hwrites q hq hfd]
      intro hwrite
      cases hwrite
    . intro hread
      rw [prepareCancel_cancels, decide_eq_false_iff_not]
      intro heq
      rcases hreads q hq hfd hread with hnull | hlive
      . rw [hnull, hplaces.null] at heq
        exact hplaces.ne_null a ha heq
      . exact hne q hq (hplaces.apart a q.userData ha hlive heq).symm

-- A cancel makes a `complete_action` at most, and releases none.
theorem IoUring.cancelAsync_live {s : IoUring} {fd : Fd} {kind : Kind} {cb : ActionCallback}
    {f : Sqe → Origin → Nat → Sqe} {b : Nat} (hb : b < s.nextAction)
    : (s.cancelAsync fd kind cb f).2.Live b ↔ s.Live b := by
  have hset : ∀ (s : IoUring) (a : Nat), ((s.setCallback a cb).actions b).isSome = (s.actions b).isSome := by
    intro s a
    unfold setCallback modifyAction
    dsimp only
    rw [Function.update_apply]
    split
    next heq => rw [Option.isSome_map, heq]
    . rfl
  have hget : ∀ info, ((s.getCompleteAction fd info kind).2.actions b).isSome = (s.actions b).isSome := by
    intro info
    unfold getCompleteAction newAction
    split
    . rfl
    . dsimp only
      rw [Function.update_of_ne (Nat.ne_of_lt hb)]
  unfold Live
  apply and_congr_right
  intro _
  unfold cancelAsync
  split
  . exact Iff.rfl
  . split
    . exact Iff.rfl
    next info hinfo =>
      have hsame : SameHeap ((s.getCompleteAction fd info kind).2.setCallback (s.getCompleteAction fd info kind).1 cb)
          (((s.getCompleteAction fd info kind).2.setCallback (s.getCompleteAction fd info kind).1 cb).withSqe true
            fun s' slot => s'.prepare slot (s.getCompleteAction fd info kind).1
              fun sqe origin => f sqe origin (s.getCompleteAction fd info kind).1).2 :=
        SameHeap.withSqe true fun _ _ => ⟨rfl, rfl, rfl, rfl⟩
      dsimp only
      rw [hsame.actions, hset, hget]

theorem IoUring.cancelAsyncWrite_live {s : IoUring} (fd : Fd) (cb : Option Callback) {b : Nat} (hb : b < s.nextAction)
    : (s.exec (.cancelAsyncWrite fd cb)).2.Live b ↔ s.Live b := by
  show (s.cancelAsync fd .cancelWrite (.result cb) fun sqe origin action =>
    prepareCancel sqe origin action 0).2.Live b ↔ s.Live b
  exact cancelAsync_live hb

theorem IoUring.noneReleased_congr {s s' : IoUring} {inFlight : List Sqe}
    (h : ∀ q ∈ inFlight, s'.Live q.userData ↔ s.Live q.userData) (fd : Fd)
    : s'.NoneReleased inFlight fd ↔ s.NoneReleased inFlight fd := by
  apply forall₂_congr
  intro q hq
  rw [h q hq]

/--
For every set of requests on the file descriptor: `cancel_async_read` hits its reads and none of its writes if and only
if there are no writes. Wherever the `complete_action`s have been placed, `cancel_async_write` hits its writes and none
of its reads if and only if there are no writes, and no read carries a `complete_action` that has been released.
-/
theorem run_cancels_iff (k c sqStart cqStart : Nat) (enters : List EnterRet) (hk : k < 32)
    (hasTimeoutMultishot : Bool) (steps : List Step) (fd : Fd) (cb : Option Callback) (inFlight : List Sqe)
    : let w := World.run
        { uring := .init hasTimeoutMultishot (Wrapper.init k c sqStart cqStart enters) } steps
      (∀ q ∈ inFlight, q ∈ w.prepared)
        → (∀ sqe : Sqe, (w.step (.op (.cancelAsyncRead fd cb))).prepared = w.prepared ++ [sqe]
            → ∀ addr, sqe.Targets addr inFlight fd Sqe.isRead Sqe.isWrite ↔ NoWrite inFlight fd)
          ∧ ∀ sqe : Sqe, (w.step (.op (.cancelAsyncWrite fd cb))).prepared = w.prepared ++ [sqe]
            → ((∀ addr, (w.step (.op (.cancelAsyncWrite fd cb))).uring.Places addr
                  → sqe.Targets addr inFlight fd Sqe.isWrite Sqe.isRead)
                ↔ NoWrite inFlight fd ∧ w.uring.NoneReleased inFlight fd) := by
  intro w hinFlight
  have hinv : Untargeted k w :=
    foldl_invariant steps (fun _ st _ h => h.step st)
      (Untargeted.init c sqStart cqStart enters hk hasTimeoutMultishot)
  refine ⟨?_, ?_⟩
  . intro sqe hadds addr
    obtain ⟨hist, ht, ht'⟩ := hinv.adds hadds
    unfold IoUring.run cancelAsyncRead at ht'
    obtain ⟨a, _, q₀, hsqe⟩ := cancelAsync_adds ht hinv.heap ht'
    rw [hsqe]
    exact prepareCancelByFd_targets_iff addr q₀ _ a fd inFlight
  . intro sqe hadds
    have hinv' := hinv.step (.op (.cancelAsyncWrite fd cb))
    have hzero := hinv'.zero
    obtain ⟨hist, ht, ht'⟩ := hinv.adds hadds
    unfold IoUring.run cancelAsyncWrite at ht'
    obtain ⟨a, hown, q₀, hsqe⟩ := cancelAsync_adds ht hinv.heap ht'
    have hheap := hinv'.heap
    rw [World.step_of_prepared hadds] at hheap hzero
    obtain ⟨_, act, hact, _⟩ := hheap.alive fd.key .cancelWrite a hown
    have hlive : (w.uring.exec (.cancelAsyncWrite fd cb)).2.Live a := by
      refine ⟨?_, by rw [hact]; rfl⟩
      rintro rfl
      exact hzero.2 fd.key hown
    have hreleased := noneReleased_congr
      (fun q hq => cancelAsyncWrite_live fd cb (hinv.prepared q (hinFlight q hq)).1) fd
    have hne : ∀ q ∈ inFlight, q.userData ≠ a := by
      intro q hq heq
      have hunaimed := hinv'.prepared q (by
        rw [hadds]
        exact List.mem_append_left _ (hinFlight q hq))
      rw [World.step_of_prepared hadds, heq] at hunaimed
      exact hunaimed.2 fd.key hown
    rw [World.step_of_prepared hadds, hsqe, ← hreleased]
    exact prepareCancel_targets_iff q₀ _ fd hlive hne

-- A read and a write are in flight on a file descriptor.
def readAndWrite : World :=
  World.run { uring := .init true (Wrapper.init 2 3 0 0 []) }
    [.op (.submitAsyncRead ⟨3, .tcp⟩ (some ⟨100, [⟨4096, 5⟩]⟩) 1 (some 6) none),
      .op (.submitAsyncWrite ⟨3, .tcp⟩ (some ⟨200, [⟨8192, 5⟩]⟩) 1 (some 7) none)]

-- The write is cancelled together with the read, and its own cancel does not hit it.
theorem readAndWrite_not_targets
    : (∃ sqe : Sqe, (readAndWrite.step (.op (.cancelAsyncRead ⟨3, .tcp⟩ (some 8)))).prepared
            = readAndWrite.prepared ++ [sqe]
          ∧ ∀ addr, ¬sqe.Targets addr readAndWrite.prepared ⟨3, .tcp⟩ Sqe.isRead Sqe.isWrite)
      ∧ ∃ sqe : Sqe, (readAndWrite.step (.op (.cancelAsyncWrite ⟨3, .tcp⟩ (some 8)))).prepared
            = readAndWrite.prepared ++ [sqe]
          ∧ ¬sqe.Targets (fun a => a) readAndWrite.prepared ⟨3, .tcp⟩ Sqe.isWrite Sqe.isRead := by
  refine ⟨⟨prepareCancelByFd {} ⟨2, some 3⟩ 3 3, by decide +kernel, ?_⟩, prepareCancel {} ⟨2, some 3⟩ 3 0,
    by decide +kernel, by decide +kernel⟩
  intro addr h
  have hnone : NoWrite readAndWrite.prepared ⟨3, .tcp⟩ :=
    (prepareCancelByFd_targets_iff addr {} ⟨2, some 3⟩ 3 ⟨3, .tcp⟩ readAndWrite.prepared).mp h
  exact absurd hnone (by unfold NoWrite; decide +kernel)

-- A read on the file descriptor and a write on another one.
def readBesideWrite : World :=
  World.run { uring := .init true (Wrapper.init 2 3 0 0 []) }
    [.op (.submitAsyncRead ⟨3, .tcp⟩ (some ⟨100, [⟨4096, 5⟩]⟩) 1 (some 6) none),
      .op (.submitAsyncWrite ⟨4, .tcp⟩ (some ⟨200, [⟨8192, 5⟩]⟩) 1 (some 7) none)]

theorem readBesideWrite_targets
    : (∀ sqe : Sqe, (readBesideWrite.step (.op (.cancelAsyncRead ⟨3, .tcp⟩ (some 8)))).prepared
            = readBesideWrite.prepared ++ [sqe]
          → sqe.Targets (fun a => a) readBesideWrite.prepared ⟨3, .tcp⟩ Sqe.isRead Sqe.isWrite)
      ∧ ∀ sqe : Sqe, (readBesideWrite.step (.op (.cancelAsyncWrite ⟨3, .tcp⟩ (some 8)))).prepared
            = readBesideWrite.prepared ++ [sqe]
          → ∀ addr, (readBesideWrite.step (.op (.cancelAsyncWrite ⟨3, .tcp⟩ (some 8)))).uring.Places addr
            → sqe.Targets addr readBesideWrite.prepared ⟨3, .tcp⟩ Sqe.isWrite Sqe.isRead := by
  have hiff := run_cancels_iff 2 3 0 0 [] (by decide) true
    [.op (.submitAsyncRead ⟨3, .tcp⟩ (some ⟨100, [⟨4096, 5⟩]⟩) 1 (some 6) none),
      .op (.submitAsyncWrite ⟨4, .tcp⟩ (some ⟨200, [⟨8192, 5⟩]⟩) 1 (some 7) none)]
    ⟨3, .tcp⟩ (some 8) readBesideWrite.prepared fun q hq => hq
  have hnone : NoWrite readBesideWrite.prepared ⟨3, .tcp⟩ := by
    unfold NoWrite
    decide +kernel
  have hreleased : readBesideWrite.uring.NoneReleased readBesideWrite.prepared ⟨3, .tcp⟩ := by
    unfold IoUring.NoneReleased IoUring.Live
    decide +kernel
  exact ⟨fun sqe hadds => (hiff.1 sqe hadds _).mpr hnone, fun sqe hadds => (hiff.2 sqe hadds).mpr ⟨hnone, hreleased⟩⟩

end Uring
end Event
end Ezio
