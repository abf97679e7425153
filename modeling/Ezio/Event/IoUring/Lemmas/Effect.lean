import Ezio.Event.IoUring.Dispatch

/-!
This module contains what an operation of the io_uring backend can do to the rings: nothing, flush a
full ring in vain, or prepare one entry and submit it or not.
-/

namespace Ezio
namespace Event
namespace Uring

-- How an operation fills in the entry that it prepares. It sets `user_data` to its own
-- `complete_action`, or it keeps what the slot holds and `own` is the `complete_action` it has.
inductive Fills (call : Nat) : Option (Option Nat) → (Sqe → Sqe) → Prop where
  | sets (action : Nat) (f : Sqe → Sqe) (horigin : ∀ q, (f q).origin = ⟨call, some action⟩)
      (hdata : ∀ q, (f q).userData = action) : Fills call none f
  | keeps (own : Option Nat) (f : Sqe → Sqe) (horigin : ∀ q, (f q).origin = ⟨call, own⟩)
      (hdata : ∀ q, (f q).userData = q.userData) : Fills call (some own) f

-- `F` is what is known about how the entry is filled in.
inductive Effect (F : (Sqe → Sqe) → Prop) (w : Wrapper) : Int → Wrapper → Prop where
  | same (ret : Int) : Effect F w ret w
  | full {msghdrs : Nat → Msghdr} {w' : Wrapper} (h : w.getIoUringSqe msghdrs = (none, w'))
      : Effect F w (-1) w'
  | prepared {msghdrs : Nat → Msghdr} {slot : Nat} {w' : Wrapper} {f : Sqe → Sqe}
      (h : w.getIoUringSqe msghdrs = (some slot, w')) (hfills : F f)
      : Effect F w 0 (w'.modifySqe slot f)
  | submitted {msghdrs msghdrs' : Nat → Msghdr} {slot : Nat} {w' : Wrapper} {f : Sqe → Sqe}
      {ret : Int} (h : w.getIoUringSqe msghdrs = (some slot, w')) (hfills : F f)
      (hret : ret = -1 → ((w'.modifySqe slot f).submit msghdrs').1 ≤ 0)
      : Effect F w ret ((w'.modifySqe slot f).submit msghdrs').2
  | flushed (msghdrs : Nat → Msghdr) (ret : Int) : Effect F w ret (w.submit msghdrs).2

theorem Effect.mono {F G : (Sqe → Sqe) → Prop} {w w' : Wrapper} {ret : Int} (h : Effect F w ret w')
    (himp : ∀ f, F f → G f)
    : Effect G w ret w' := by
  cases h with
  | same ret => exact .same ret
  | full h => exact .full h
  | prepared h hfills => exact .prepared h (himp _ hfills)
  | submitted h hfills hret => exact .submitted h (himp _ hfills) hret
  | flushed msghdrs ret => exact .flushed msghdrs ret

theorem Wrapper.modifySqe_modifySqe (w : Wrapper) (slot : Nat) (f g : Sqe → Sqe)
    : (w.modifySqe slot f).modifySqe slot g = w.modifySqe slot (g ∘ f) := by
  unfold modifySqe SubmissionQueue.modify
  dsimp only
  rw [List.modify_modify_eq]

namespace IoUring

variable {s : IoUring}

theorem getIoUringSqe_eq (s : IoUring)
    : s.getIoUringSqe
        =
      ((s.ring.getIoUringSqe s.msghdrs).1, { s with ring := (s.ring.getIoUringSqe s.msghdrs).2 }) :=
  rfl

-- The rings and the count of the calls stay as they are.
structure Quiet (s s' : IoUring) : Prop where
  ring : s'.ring = s.ring
  calls : s'.calls = s.calls

theorem Quiet.refl (s : IoUring) : Quiet s s := ⟨rfl, rfl⟩

-- Neither is anything changed that the checks of an operation look at.
structure Rest (s s' : IoUring) : Prop extends Quiet s s' where
  isInited : s'.isInited = s.isInited
  buffers : s'.buffers = s.buffers

theorem Rest.refl (s : IoUring) : Rest s s := ⟨Quiet.refl s, rfl, rfl⟩

theorem Rest.trans {s s' s'' : IoUring} (h : Rest s s') (h' : Rest s' s'') : Rest s s'' :=
  ⟨⟨h'.ring.trans h.ring, h'.calls.trans h.calls⟩, h'.isInited.trans h.isInited,
    h'.buffers.trans h.buffers⟩

theorem Rest.modifyAction (action : Nat) (f : CompleteAction → CompleteAction)
    : Rest s (s.modifyAction action f) := ⟨⟨rfl, rfl⟩, rfl, rfl⟩

theorem Rest.setCallback (action : Nat) (cb : ActionCallback) : Rest s (s.setCallback action cb) :=
  ⟨⟨rfl, rfl⟩, rfl, rfl⟩

theorem Rest.setMsghdr (p : Nat) (buffer : IovPtr) (cnt : Nat) : Rest s (s.setMsghdr p buffer cnt) :=
  ⟨⟨rfl, rfl⟩, rfl, rfl⟩

theorem Rest.getReadMsghdr (action : Nat) : Rest s (s.getReadMsghdr action).2 := by
  unfold IoUring.getReadMsghdr
  split
  . exact Rest.refl s
  . exact ⟨⟨rfl, rfl⟩, rfl, rfl⟩

theorem Rest.getWriteMsghdr (action : Nat) : Rest s (s.getWriteMsghdr action).2 := by
  unfold IoUring.getWriteMsghdr
  split
  . exact Rest.refl s
  . exact ⟨⟨rfl, rfl⟩, rfl, rfl⟩

theorem Rest.storeCallback (action : Nat) (cb : Option ActionCallback)
    : Rest s (s.storeCallback action cb) := by
  cases cb with
  | none => exact Rest.refl s
  | some cb => exact Rest.setCallback action cb

theorem Rest.storeReadCallback (action : Nat) (fd : Fd) (buffer : Option IovPtr) (cnt : Nat)
    (cb : Option Callback)
    : Rest s (s.storeReadCallback action fd buffer cnt cb) := by
  cases cb with
  | none => exact Rest.refl s
  | some cb =>
    unfold IoUring.storeReadCallback
    cases isStream fd with
    | false => exact Rest.setCallback action _
    | true => exact (Rest.getReadMsghdr action).trans (Rest.setCallback action _)

theorem Rest.storeGroupCallback (action : Nat) (cb : Option Callback) (needSocketDetail : Bool)
    : Rest s (s.storeGroupCallback action cb needSocketDetail).2 := by
  cases cb with
  | none => exact Rest.refl s
  | some cb => exact (Rest.getReadMsghdr action).trans (Rest.setCallback action _)

theorem Rest.getCompleteAction (fd : Fd) (info : IouringEventInfo) (kind : Kind)
    : Rest s (s.getCompleteAction fd info kind).2 := by
  unfold IoUring.getCompleteAction
  split
  . exact Rest.refl s
  . exact ⟨⟨rfl, rfl⟩, rfl, rfl⟩

theorem Rest.findOrInsert (fd : Fd) (kind : Kind) : Rest s (s.findOrInsert fd kind).2 := by
  unfold IoUring.findOrInsert
  split
  . exact Rest.getCompleteAction fd _ kind
  . exact Rest.getCompleteAction fd _ kind

theorem Rest.offsetFor (action : Nat) (opt : Option Nat) : Rest s (s.offsetFor action opt).2 := by
  unfold IoUring.offsetFor
  split
  . exact Rest.refl s
  . exact ⟨⟨rfl, rfl⟩, rfl, rfl⟩

-- What is done with a slot between taking it and submitting it.
def FillsBy (F : IoUring → (Sqe → Sqe) → Prop) (fill : IoUring → Nat → IoUring) : Prop :=
  ∀ (s : IoUring) (slot : Nat),
    (fill s slot).calls = s.calls ∧ (fill s slot).isInited = s.isInited
      ∧ (fill s slot).buffers = s.buffers
      ∧ ∃ f, (fill s slot).ring = s.ring.modifySqe slot f ∧ F s f

def FillsSlot (own : Option (Option Nat)) : (IoUring → Nat → IoUring) → Prop :=
  FillsBy fun s => Fills s.calls own

theorem withSqe_effect {F : IoUring → (Sqe → Sqe) → Prop} {fill : IoUring → Nat → IoUring}
    (isSubmit : Bool) (hfill : FillsBy F fill) (hring : ∀ s ring f, F { s with ring } f → F s f)
    : Effect (F s) s.ring (s.withSqe isSubmit fill).1 (s.withSqe isSubmit fill).2.ring := by
  unfold withSqe
  rw [getIoUringSqe_eq]
  cases hget : s.ring.getIoUringSqe s.msghdrs with
  | mk slot w =>
    cases slot with
    | none => exact Effect.full hget
    | some slot =>
      obtain ⟨hcalls, _, _, f, hfilled, hfills⟩ := hfill { s with ring := w } slot
      replace hfills := hring s w f hfills
      dsimp only
      cases isSubmit with
      | false =>
        change Effect (F s) s.ring 0 (fill { s with ring := w } slot).ring
        rw [hfilled]
        exact Effect.prepared hget hfills
      | true =>
        rw [if_pos rfl]
        unfold submitRing
        dsimp only
        rw [hfilled]
        refine Effect.submitted hget hfills ?_
        intro hret
        split at hret
        . cases hret
        . omega

theorem FillsBy.mono {F G : IoUring → (Sqe → Sqe) → Prop} {fill : IoUring → Nat → IoUring}
    (h : FillsBy F fill) (himp : ∀ s f, F s f → G s f)
    : FillsBy G fill := by
  intro s slot
  obtain ⟨hcalls, hinited, hbuffers, f, hring, hfills⟩ := h s slot
  exact ⟨hcalls, hinited, hbuffers, f, hring, himp s f hfills⟩

-- An operation that uses the `complete_action` `A s`.
def SetsTo (A : IoUring → Nat) (s : IoUring) (f : Sqe → Sqe) : Prop :=
  (∀ q, (f q).origin = ⟨s.calls, some (A s)⟩) ∧ ∀ q, (f q).userData = A s

theorem prepare_setUserData_ring (s : IoUring) (slot : Nat) (action : Option Nat)
    (f : Sqe → Origin → Sqe) (userData : Nat)
    : ((s.prepare slot action f).setUserData slot userData).ring
        =
      s.ring.modifySqe slot fun q => { f q ⟨s.calls, action⟩ with userData } := by
  unfold setUserData prepare Wrapper.setUserData
  dsimp only
  rw [Wrapper.modifySqe_modifySqe]
  rfl

theorem FillsBy.sets {A : IoUring → Nat} {fill : IoUring → Nat → IoUring}
    (h : ∀ s slot, ∃ s' f,
      Rest s s' ∧ (∀ q origin, (f q origin).origin = origin)
        ∧ Rest ((s'.prepare slot (some (A s)) f).setUserData slot (A s)) (fill s slot))
    : FillsBy (SetsTo A) fill := by
  intro s slot
  obtain ⟨s', f, hrest, horigin, hfill⟩ := h s slot
  refine ⟨hfill.calls.trans hrest.calls, hfill.isInited.trans hrest.isInited,
    hfill.buffers.trans hrest.buffers, fun q => { f q ⟨s.calls, some (A s)⟩ with userData := A s },
    ?_, ?_, ?_⟩
  . rw [hfill.ring, prepare_setUserData_ring, hrest.ring, hrest.calls]
  . intro q
    exact horigin q _
  . intro q
    rfl

theorem FillsBy.fillsSlot {A : IoUring → Nat} {fill : IoUring → Nat → IoUring}
    (h : FillsBy (SetsTo A) fill)
    : FillsSlot none fill :=
  h.mono fun s _ hsets => Fills.sets (A s) _ hsets.1 hsets.2

theorem fillWrite_fills (fd : Fd) (buffer : Option IovPtr) (cnt : Nat) (cb : Option Callback)
    (opt : Option WriteOptions)
    : FillsBy (SetsTo fun s => (s.findOrInsert fd .write).1) (fillWrite fd buffer cnt cb opt) := by
  apply FillsBy.sets
  intro s slot
  have hrest := ((Rest.findOrInsert (s := s) fd .write).trans
    (Rest.storeCallback (s.findOrInsert fd .write).1 (cb.map fun cb => .result (some cb)))).trans
    (Rest.offsetFor (s.findOrInsert fd .write).1 (opt.bind (·.offset)))
  cases buffer with
  | none => exact ⟨_, _, hrest, fun _ _ => rfl, Rest.refl _⟩
  | some buf =>
    unfold fillWrite
    cases isStream fd with
    | false => exact ⟨_, _, hrest, fun _ _ => rfl, Rest.refl _⟩
    | true =>
      exact ⟨_, _, (hrest.trans (Rest.getWriteMsghdr _)).trans (Rest.setMsghdr _ _ _),
        fun _ _ => rfl, Rest.refl _⟩

theorem fillRead_fills (fd : Fd) (buffer : Option IovPtr) (cnt : Nat) (cb : Option Callback)
    (opt : Option ReadOptions)
    : FillsBy (SetsTo fun s => (s.findOrInsert fd .read).1) (fillRead fd buffer cnt cb opt) := by
  apply FillsBy.sets
  intro s slot
  have hrest := ((Rest.findOrInsert (s := s) fd .read).trans
    (Rest.storeReadCallback (s.findOrInsert fd .read).1 fd buffer cnt cb)).trans
    (Rest.offsetFor (s.findOrInsert fd .read).1 (opt.bind (·.offset)))
  cases buffer with
  | none => exact ⟨_, _, hrest, fun _ _ => rfl, Rest.refl _⟩
  | some buf =>
    unfold fillRead
    cases isStream fd with
    | false => exact ⟨_, _, hrest, fun _ _ => rfl, Rest.refl _⟩
    | true =>
      exact ⟨_, _, (hrest.trans (Rest.getReadMsghdr _)).trans (Rest.setMsghdr _ _ _),
        fun _ _ => rfl, Rest.refl _⟩

theorem prepareShot_origin (r : Resubmit) (q : Sqe) (origin : Origin)
    : (if r.needSocketDetail then
          prepareRecvmsgMultishot q origin r.fd r.msghdr 0 r.bufferGroupId
        else
          prepareRecvMultishot q origin r.fd r.msghdr 0 r.bufferGroupId).origin
        =
      origin := by
  cases r.needSocketDetail with
  | false => rfl
  | true => rfl

theorem fillReadGroup_fills (fd : Fd) (group : Nat) (cb : Option Callback) (needSocketDetail : Bool)
    : FillsBy (SetsTo fun s => (s.findOrInsert fd .read).1)
        (fillReadGroup fd group cb needSocketDetail) := by
  apply FillsBy.sets
  intro s slot
  have hrest := (Rest.findOrInsert (s := s) fd .read).trans
    (Rest.storeGroupCallback (s.findOrInsert fd .read).1 cb needSocketDetail)
  exact ⟨_, _, hrest.trans (Rest.modifyAction _ _), prepareShot_origin _, Rest.refl _⟩

theorem fillAccept_fills (fd : Fd) (addr : Nat) (cb : Option Callback)
    : FillsBy (SetsTo fun s => (s.findOrInsert fd .read).1) (fillAccept fd addr cb) := by
  apply FillsBy.sets
  intro s slot
  exact ⟨_, _, (Rest.findOrInsert fd .read).trans (Rest.modifyAction _ _), fun _ _ => rfl,
    Rest.storeCallback _ _⟩

theorem FillsSlot.keeps (own : Option Nat) (f : Sqe → Origin → Sqe)
    (horigin : ∀ q origin, (f q origin).origin = origin)
    (hdata : ∀ q origin, (f q origin).userData = q.userData)
    : FillsSlot (some own) (fun s slot => s.prepare slot own f) := by
  intro s slot
  exact ⟨rfl, rfl, rfl, _, rfl, Fills.keeps own _ (fun q => horigin q _) (fun q => hdata q _)⟩

theorem withSqe_calls {own : Option (Option Nat)} {fill : IoUring → Nat → IoUring}
    (isSubmit : Bool) (hfill : FillsSlot own fill)
    : (s.withSqe isSubmit fill).2.calls = s.calls := by
  unfold withSqe
  rw [getIoUringSqe_eq]
  cases s.ring.getIoUringSqe s.msghdrs with
  | mk slot w =>
    cases slot with
    | none => rfl
    | some slot =>
      have hcalls := (hfill { s with ring := w } slot).1
      cases isSubmit with
      | false => exact hcalls
      | true => exact hcalls

theorem submitRing_ret (s : IoUring) : s.submitRing.1 = 0 ∨ s.submitRing.1 = -1 := by
  unfold submitRing
  dsimp only
  split
  . exact .inl rfl
  . exact .inr rfl

theorem withSqe_ret (s : IoUring) (isSubmit : Bool) (fill : IoUring → Nat → IoUring)
    : (s.withSqe isSubmit fill).1 = 0 ∨ (s.withSqe isSubmit fill).1 = -1 := by
  unfold withSqe
  split
  . exact .inr rfl
  . cases isSubmit with
    | false => exact .inl rfl
    | true => exact submitRing_ret _

end IoUring

-- A cancel that gets as far as taking an entry keeps the `user_data` of the slot. The
-- `complete_action` that it has is made if there is none yet.
def IoUring.cancelOwn (s : IoUring) (fd : Fd) (kind : IoUring.Kind) : Option (Option Nat) :=
  if !s.isInited || fd.num < 0 then none
  else (s.fdToEventInfo fd.key).map fun info => some ((info.get kind).getD s.nextAction)

-- The `complete_action` of a call that takes an entry without setting `user_data`, `close_timer` has
-- none.
def Op.own (s : IoUring) : Op → Option (Option Nat)
  | .cancelAsyncRead fd _ => s.cancelOwn fd .cancelRead
  | .cancelAsyncAccept fd _ => s.cancelOwn fd .cancelRead
  | .cancelAsyncWrite fd _ => s.cancelOwn fd .cancelWrite
  | .closeTimer timerId => if (s.idToTimer timerId).isSome && s.hasTimeoutMultishot then some none
    else none
  | _ => none

-- `create_timer` returns -1 as the id of a timer.
def Op.idWraps (s : IoUring) : Op → Bool
  | .createTimer _ _ _ => toInt32 s.timerId = -1
  | _ => false

namespace IoUring

variable {s : IoUring} {own : Option (Option Nat)} {idWraps : Bool}

-- What a call does to the rings, `ret` is -1 if its submission has failed.
structure Performs (s : IoUring) (own : Option (Option Nat)) (idWraps : Bool) (ret : Int)
    (s' : IoUring) : Prop where
  effect : ∃ submitted, Effect (Fills s.calls own) s.ring submitted s'.ring
      ∧ (ret = -1 → idWraps = false → submitted = -1)
  calls : s'.calls = s.calls

theorem Performs.same {s' : IoUring} (ret : Int) (h : Quiet s s') : Performs s own idWraps ret s' := by
  refine ⟨⟨-1, ?_, fun _ _ => rfl⟩, h.calls⟩
  rw [h.ring]
  exact Effect.same (-1)

theorem Performs.withSqe {s₁ : IoUring} {fill : IoUring → Nat → IoUring} (isSubmit : Bool)
    (h : Quiet s s₁) (hfill : FillsSlot own fill)
    : Performs s own idWraps (s₁.withSqe isSubmit fill).1 (s₁.withSqe isSubmit fill).2 := by
  refine ⟨⟨(s₁.withSqe isSubmit fill).1, ?_, fun hret _ => hret⟩, ?_⟩
  . rw [← h.calls, ← h.ring]
    exact withSqe_effect isSubmit hfill fun _ _ _ h => h
  . rw [withSqe_calls isSubmit hfill]
    exact h.calls

theorem submit_performs : Performs s own idWraps s.submit.1 s.submit.2 := by
  unfold submit
  split
  . exact ⟨⟨-1, Effect.flushed s.msghdrs (-1), fun _ _ => rfl⟩, rfl⟩
  . exact Performs.same _ (Quiet.refl s)

theorem cancelAsync_performs (fd : Fd) (kind : Kind) (cb : ActionCallback)
    (f : Sqe → Origin → Nat → Sqe) (horigin : ∀ q origin a, (f q origin a).origin = origin)
    (hdata : ∀ q origin a, (f q origin a).userData = q.userData)
    : Performs s (s.cancelOwn fd kind) idWraps (s.cancelAsync fd kind cb f).1
        (s.cancelAsync fd kind cb f).2 := by
  unfold cancelAsync cancelOwn
  split
  . exact Performs.same _ (Quiet.refl s)
  . cases hinfo : s.fdToEventInfo fd.key with
    | none => exact Performs.same _ (Quiet.refl s)
    | some info =>
      have hown : (info.get kind).getD s.nextAction = (s.getCompleteAction fd info kind).1 := by
        unfold getCompleteAction
        cases info.get kind with
        | none => rfl
        | some action => rfl
      rw [Option.map_some, hown]
      have hrest := (Rest.getCompleteAction (s := s) fd info kind).trans
        (Rest.setCallback (s.getCompleteAction fd info kind).1 cb)
      exact Performs.withSqe true hrest.toQuiet
        (FillsSlot.keeps _ _ (fun q origin => horigin q origin _) (fun q origin => hdata q origin _))

theorem Performs.of_ret {ret ret' : Int} {s' s'' : IoUring} (h : Performs s own idWraps ret s')
    (hret : ret' = -1 → idWraps = false → ret = -1) (hrest : Quiet s' s'')
    : Performs s own idWraps ret' s'' := by
  obtain ⟨submitted, heffect, hsub⟩ := h.effect
  refine ⟨⟨submitted, ?_, fun hret' hwraps => hsub (hret hret' hwraps) hwraps⟩,
    hrest.calls.trans h.calls⟩
  rw [hrest.ring]
  exact heffect

theorem submitTimeout_fills (intervalS intervalNs action : Nat)
    : FillsBy (SetsTo fun _ => action) fun s slot =>
        let flags := if s.hasTimeoutMultishot then IORING_TIMEOUT_MULTISHOT else 0
        let s := s.prepare slot action fun sqe origin =>
          prepareTimeout sqe origin intervalS intervalNs 1 flags
        s.setUserData slot action := by
  apply FillsBy.sets
  intro s slot
  exact ⟨_, _, Rest.refl s, fun _ _ => rfl, Rest.refl _⟩

theorem submitTimeout_performs {s₁ : IoUring} (h : Quiet s s₁) (intervalS intervalNs action : Nat)
    : Performs s none idWraps (s₁.submitTimeout intervalS intervalNs action).1
        (s₁.submitTimeout intervalS intervalNs action).2 := by
  exact Performs.withSqe true h (submitTimeout_fills intervalS intervalNs action).fillsSlot

theorem submitTimeout_effect (s : IoUring) (intervalS intervalNs action : Nat)
    : Effect (SetsTo (fun _ => action) s) s.ring (s.submitTimeout intervalS intervalNs action).1
        (s.submitTimeout intervalS intervalNs action).2.ring :=
  withSqe_effect true (submitTimeout_fills intervalS intervalNs action) fun _ _ _ h => h

theorem newAction_timerId (s : IoUring) (a : CompleteAction)
    : (s.newAction a).2.timerId = s.timerId := rfl

theorem submitTimeout_timerId (s : IoUring) (intervalS intervalNs action : Nat)
    : (s.submitTimeout intervalS intervalNs action).2.timerId = s.timerId := by
  unfold submitTimeout withSqe
  rw [getIoUringSqe_eq]
  cases s.ring.getIoUringSqe s.msghdrs with
  | mk slot w =>
    cases slot with
    | none => rfl
    | some slot => rfl

theorem submitTimeout_ret (s : IoUring) (intervalS intervalNs action : Nat)
    : (s.submitTimeout intervalS intervalNs action).1 = 0
        ∨ (s.submitTimeout intervalS intervalNs action).1 = -1 :=
  withSqe_ret s true _

theorem createTimer_performs (intervalS intervalNs : Nat) (cb : Option Callback)
    : Performs s none (Op.idWraps s (.createTimer intervalS intervalNs cb))
        (s.createTimer intervalS intervalNs cb).1 (s.createTimer intervalS intervalNs cb).2 := by
  unfold createTimer
  cases cb with
  | none => exact Performs.same _ (Quiet.refl s)
  | some cb =>
    dsimp only
    split
    . exact Performs.same _ (Quiet.refl s)
    . have hnew : Quiet s (s.newAction { callback := some (.timer cb intervalS intervalNs) }).2 :=
        ⟨rfl, rfl⟩
      have hperforms : Performs s none (Op.idWraps s (.createTimer intervalS intervalNs cb)) _ _ :=
        submitTimeout_performs hnew intervalS intervalNs s.nextAction
      split
      . refine hperforms.of_ret ?_ ⟨rfl, rfl⟩
        intro hret hwraps
        rw [submitTimeout_timerId, newAction_timerId] at hret
        dsimp only at hret
        unfold Op.idWraps at hwraps
        rw [hret] at hwraps
        cases hwraps
      . next hret =>
        refine hperforms.of_ret ?_ ⟨rfl, rfl⟩
        intro _ _
        exact (submitTimeout_ret _ intervalS intervalNs s.nextAction).resolve_left hret

theorem closeTimer_performs (timerId : Nat)
    : Performs s (Op.own s (.closeTimer timerId)) idWraps (s.closeTimer timerId).1
        (s.closeTimer timerId).2 := by
  have hmodify : ∀ action f, (s.modifyAction action f).hasTimeoutMultishot = s.hasTimeoutMultishot :=
    fun _ _ => rfl
  unfold closeTimer
  cases htimer : s.idToTimer timerId with
  | none => exact Performs.same _ (Quiet.refl s)
  | some action =>
    dsimp only
    rw [hmodify]
    cases hshot : s.hasTimeoutMultishot with
    | false => exact Performs.same _ ⟨rfl, rfl⟩
    | true =>
      have hown : Op.own s (.closeTimer timerId) = some none := by simp [Op.own, htimer, hshot]
      rw [hown, if_pos rfl]
      have hperforms : Performs s (some none) idWraps _ _ :=
        Performs.withSqe true (Rest.modifyAction action fun a => { a with callback := none }).toQuiet
          (FillsSlot.keeps none (fun q origin => prepareCancel q origin action 0)
            (fun _ _ => rfl) (fun _ _ => rfl))
      split
      . refine hperforms.of_ret ?_ ⟨rfl, rfl⟩
        intro hret
        cases hret
      . next hret =>
        refine hperforms.of_ret ?_ (Quiet.refl _)
        intro _ _
        exact (withSqe_ret _ true _).resolve_left hret

theorem addBlocks_quiet (br blockSize mask : Nat) (i : Nat) (addrs : List Nat)
    : Quiet s (s.addBlocks br blockSize mask i addrs) := by
  induction addrs generalizing s i with
  | nil => exact Quiet.refl s
  | cons addr addrs ih =>
    unfold addBlocks
    exact ⟨(ih _).ring, (ih _).calls⟩

theorem registerRingBuffer_quiet (blockSize blockCount : Nat) (setup : Bool) (addrs : List Nat)
    : Quiet s (s.registerRingBuffer blockSize blockCount setup addrs).2 := by
  unfold registerRingBuffer
  split
  . exact Quiet.refl s
  . dsimp only
    split
    . exact ⟨rfl, rfl⟩
    . split
      . exact ⟨rfl, rfl⟩
      . exact ⟨(addBlocks_quiet _ _ _ _ _).ring, (addBlocks_quiet _ _ _ _ _).calls⟩

theorem unregisterRingBuffer_quiet (group : Nat) (freed : Bool)
    : Quiet s (s.unregisterRingBuffer group freed).2 := by
  unfold unregisterRingBuffer
  repeat' split
  all_goals exact ⟨rfl, rfl⟩

theorem submitAsyncRead_performs (fd : Fd) (buffer : Option IovPtr) (cnt : Nat)
    (cb : Option Callback) (opt : Option ReadOptions)
    : Performs s none idWraps (s.submitAsyncRead fd buffer cnt cb opt).1
        (s.submitAsyncRead fd buffer cnt cb opt).2 := by
  unfold submitAsyncRead
  split
  . exact Performs.same _ (Quiet.refl s)
  . exact Performs.withSqe _ (Quiet.refl s) (fillRead_fills fd buffer cnt cb opt).fillsSlot

theorem submitAsyncReadGroup_performs (fd : Fd) (group : Nat) (cb : Option Callback)
    (opt : Option ReadOptions)
    : Performs s none idWraps (s.submitAsyncReadGroup fd group cb opt).1
        (s.submitAsyncReadGroup fd group cb opt).2 := by
  unfold submitAsyncReadGroup
  split
  . exact Performs.same _ (Quiet.refl s)
  . exact Performs.withSqe _ (Quiet.refl s) (fillReadGroup_fills fd group cb _).fillsSlot

theorem submitAsyncWrite_performs (fd : Fd) (buffer : Option IovPtr) (cnt : Nat)
    (cb : Option Callback) (opt : Option WriteOptions)
    : Performs s none idWraps (s.submitAsyncWrite fd buffer cnt cb opt).1
        (s.submitAsyncWrite fd buffer cnt cb opt).2 := by
  unfold submitAsyncWrite
  split
  . exact Performs.same _ (Quiet.refl s)
  . exact Performs.withSqe _ (Quiet.refl s) (fillWrite_fills fd buffer cnt cb opt).fillsSlot

theorem submitAsyncAccept_performs (fd : Fd) (addr : Option Nat) (cb : Option Callback)
    : Performs s none idWraps (s.submitAsyncAccept fd addr cb).1
        (s.submitAsyncAccept fd addr cb).2 := by
  unfold submitAsyncAccept
  cases addr with
  | none => exact Performs.same _ (Quiet.refl s)
  | some addr =>
    dsimp only
    split
    . exact Performs.same _ (Quiet.refl s)
    . exact Performs.withSqe true (Quiet.refl s) (fillAccept_fills fd addr cb).fillsSlot

theorem cancelAsyncRead_performs (fd : Fd) (cb : Option Callback)
    : Performs s (s.cancelOwn fd .cancelRead) idWraps (s.cancelAsyncRead fd cb).1
        (s.cancelAsyncRead fd cb).2 := by
  unfold cancelAsyncRead
  apply cancelAsync_performs
  . intros
    rfl
  . intros
    rfl

theorem cancelAsyncAccept_performs (fd : Fd) (cb : Option Callback)
    : Performs s (s.cancelOwn fd .cancelRead) idWraps (s.cancelAsyncAccept fd cb).1
        (s.cancelAsyncAccept fd cb).2 := by
  unfold cancelAsyncAccept
  apply cancelAsync_performs
  . intros
    rfl
  . intros
    rfl

theorem cancelAsyncWrite_performs (fd : Fd) (cb : Option Callback)
    : Performs s (s.cancelOwn fd .cancelWrite) idWraps (s.cancelAsyncWrite fd cb).1
        (s.cancelAsyncWrite fd cb).2 := by
  unfold cancelAsyncWrite
  apply cancelAsync_performs
  . intros
    rfl
  . intros
    rfl

theorem run_performs (op : Op)
    : Performs s (op.own s) (op.idWraps s) (s.run op).1 (s.run op).2 := by
  cases op with
  | submitAsyncRead fd buffer cnt cb opt => exact submitAsyncRead_performs fd buffer cnt cb opt
  | submitAsyncReadGroup fd group cb opt => exact submitAsyncReadGroup_performs fd group cb opt
  | submitAsyncWrite fd buffer cnt cb opt => exact submitAsyncWrite_performs fd buffer cnt cb opt
  | submitAsyncAccept fd addr cb => exact submitAsyncAccept_performs fd addr cb
  | cancelAsyncRead fd cb => exact cancelAsyncRead_performs fd cb
  | cancelAsyncWrite fd cb => exact cancelAsyncWrite_performs fd cb
  | cancelAsyncAccept fd cb => exact cancelAsyncAccept_performs fd cb
  | createTimer intervalS intervalNs cb => exact createTimer_performs intervalS intervalNs cb
  | closeTimer timerId => exact closeTimer_performs timerId
  | submit => exact submit_performs
  | registerRingBuffer blockSize blockCount setup addrs =>
    exact Performs.same _ (registerRingBuffer_quiet blockSize blockCount setup addrs)
  | unregisterRingBuffer group freed => exact Performs.same _ (unregisterRingBuffer_quiet group freed)

end IoUring

end Uring
end Event
end Ezio
