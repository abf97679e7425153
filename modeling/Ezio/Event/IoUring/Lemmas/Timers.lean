import Ezio.Event.IoUring.Lemmas.Deferred
import Ezio.Event.IoUring.Lemmas.ReadBuffer

/-!
This module contains the `complete_action`s of the timers. They belong to `id_to_timer_` until
`close_timer` erases them or `create_timer` uses their id again.
-/

namespace Ezio
namespace Event
namespace Uring

-- Whether the next `io_uring_enter` takes any of the entries that it is asked to take.
def Wrapper.takes (w : Wrapper) : Bool :=
  match w.enters.head? with
  | some (.fail _) => false
  | some (.took n) => 0 < n
  | _ => true

-- Whether an operation that is not deferred gets a slot and goes through.
def Wrapper.accepts (w : Wrapper) : Bool :=
  w.sq.getSqe.1.isSome && w.takes

theorem Queue.submit_pos_iff {k head lag : Nat} {queue : List Sqe} {w : Wrapper}
    (h : Queue k w.sq head queue lag) (msghdrs : Nat → Msghdr) (hsome : lag < queue.length)
    : 0 < (w.submit msghdrs).1 ↔ w.takes := by
  have htoSubmit := h.toSubmit
  unfold Wrapper.submit Wrapper.takes
  generalize (w.sq.sqeTail - w.sq.ktail).toNat = toSubmit at htoSubmit ⊢
  have hpos : 0 < toSubmit := by omega
  dsimp only
  rw [if_pos hpos]
  unfold Wrapper.enter
  dsimp only
  split
  . next errno enters heq =>
    rw [heq]
    simp
  . next n enters heq =>
    rw [heq]
    simp
    omega
  . next enters heq =>
    rw [heq]
    simpa using hpos
  . next heq =>
    rw [heq]
    simpa using hpos

-- The `complete_action` that a call lets go of.
def Op.frees (s : IoUring) : Op → Option Nat
  | .closeTimer timerId => if s.hasTimeoutMultishot && !s.ring.accepts then none else s.idToTimer timerId
  | .createTimer intervalS intervalNs cb =>
    if cb.isSome && !(intervalS = 0 ∧ intervalNs = 0 : Bool) && s.ring.accepts then s.idToTimer s.timerId
    else none
  | _ => none

-- `create_timer` lets go of its new `complete_action` as `submit` has failed, but the entry is in the
-- ring.
def Op.strands (s : IoUring) : Op → Bool
  | .createTimer intervalS intervalNs cb =>
    cb.isSome && !(intervalS = 0 ∧ intervalNs = 0 : Bool) && s.ring.sq.getSqe.1.isSome && !s.ring.accepts
  | _ => false

namespace IoUring

variable {k : Nat} {hist : List Sqe} {s s' s'' : IoUring}

theorem withSqe_ret_iff {fill : IoUring → Nat → IoUring} {F : IoUring → (Sqe → Sqe) → Prop}
    (h : Tracks k s.ring hist) (hfill : FillsBy F fill)
    : (s.withSqe true fill).1 = 0 ↔ s.ring.accepts := by
  obtain ⟨head, queue, lag, hqueue, _, _⟩ := h
  have hfits := hqueue.fits
  unfold Wrapper.accepts
  by_cases hroom : queue.length < 2 ^ k
  . obtain ⟨slot, sq, heq, _, hlast⟩ := hqueue.getIoUringSqe s.msghdrs hroom
    obtain ⟨_, _, _, f, hring, _⟩ := hfill { s with ring := { s.ring with sq } } slot
    have hlag := hlast.lag_le
    have hqueue' : Queue k ({ s.ring with sq }.modifySqe slot f).sq head _ lag :=
      (hlast.modify f).toQueue
    have hget : s.ring.sq.getSqe.1.isSome := Option.isSome_iff_ne_none.mpr (hqueue.getSqe_ne_none hroom)
    have hpos := hqueue'.submit_pos_iff (fill { s with ring := { s.ring with sq } } slot).msghdrs
      (by rw [List.length_append, List.length_singleton]; omega)
    have htakes : ({ s.ring with sq }.modifySqe slot f).takes = s.ring.takes := rfl
    unfold withSqe submitRing
    rw [getIoUringSqe_eq, heq]
    dsimp only
    rw [if_pos rfl, hring, hget, Bool.true_and, ← htakes, ← hpos]
    split
    . next hret => simp [hret]
    . next hret => simp [hret]
  . rw [withSqe_full hqueue hroom, hqueue.getSqe_full (by omega)]
    simp

-- The `complete_action`s that have come to be owned are new ones.
structure Extends (s s' : IoUring) : Prop where
  nextAction : s.nextAction ≤ s'.nextAction
  fresh : ∀ key kind a, s'.Owns key kind a → s.Owns key kind a ∨ s.nextAction ≤ a

-- Nothing is released and `id_to_timer_` stays as it is.
structure Keeps (s s' : IoUring) : Prop extends Extends s s' where
  idToTimer : s'.idToTimer = s.idToTimer
  alive : ∀ a, (s.actions a).isSome → (s'.actions a).isSome

-- Neither is a `complete_action` made.
structure Settled (s s' : IoUring) : Prop where
  idToTimer : s'.idToTimer = s.idToTimer
  alive : ∀ a, (s.actions a).isSome → (s'.actions a).isSome
  nextAction : s'.nextAction = s.nextAction
  fdToEventInfo : s'.fdToEventInfo = s.fdToEventInfo

theorem Extends.of_infos (hnext : s.nextAction ≤ s'.nextAction) (hinfos : s'.fdToEventInfo = s.fdToEventInfo)
    : Extends s s' := by
  refine ⟨hnext, ?_⟩
  intro key kind a hown
  unfold Owns at hown ⊢
  rw [hinfos] at hown
  exact .inl hown

theorem Extends.trans (h : Extends s s') (h' : Extends s' s'') : Extends s s'' := by
  have hle := h.nextAction
  refine ⟨Nat.le_trans hle h'.nextAction, ?_⟩
  intro key kind a hown
  rcases h'.fresh key kind a hown with hold | hnew
  . exact h.fresh key kind a hold
  . exact .inr (Nat.le_trans hle hnew)

theorem Keeps.trans (h : Keeps s s') (h' : Keeps s' s'') : Keeps s s'' :=
  ⟨h.toExtends.trans h'.toExtends, h'.idToTimer.trans h.idToTimer, fun a ha => h'.alive a (h.alive a ha)⟩

theorem Settled.toKeeps (h : Settled s s') : Keeps s s' :=
  ⟨.of_infos (Nat.le_of_eq h.nextAction.symm) h.fdToEventInfo, h.idToTimer, h.alive⟩

theorem Settled.refl (s : IoUring) : Settled s s := ⟨rfl, fun _ h => h, rfl, rfl⟩

theorem Keeps.refl (s : IoUring) : Keeps s s := (Settled.refl s).toKeeps

theorem SameHeap.settled (h : SameHeap s s') : Settled s s' := by
  refine ⟨h.idToTimer, ?_, h.nextAction, h.fdToEventInfo⟩
  intro a ha
  rw [h.actions]
  exact ha

theorem Settled.trans (h : Settled s s') (h' : Settled s' s'') : Settled s s'' :=
  ⟨h'.idToTimer.trans h.idToTimer, fun a ha => h'.alive a (h.alive a ha), h'.nextAction.trans h.nextAction,
    h'.fdToEventInfo.trans h.fdToEventInfo⟩

theorem Settled.modifyAction (s : IoUring) (action : Nat) (f : CompleteAction → CompleteAction)
    : Settled s (s.modifyAction action f) := by
  refine ⟨rfl, ?_, rfl, rfl⟩
  intro a ha
  unfold IoUring.modifyAction
  dsimp only
  by_cases heq : a = action
  . rw [heq, Function.update_self, Option.isSome_map, ← heq]
    exact ha
  . rw [Function.update_of_ne heq]
    exact ha

theorem Settled.prepare (s : IoUring) (slot : Nat) (action : Option Nat) (f : Sqe → Origin → Sqe)
    : Settled s (s.prepare slot action f) :=
  ⟨rfl, fun _ h => h, rfl, rfl⟩

-- Of all the `complete_action`s only `action` is changed.
structure Edits (action : Nat) (s s' : IoUring) : Prop extends Settled s s' where
  others : ∀ b, b ≠ action → s'.actions b = s.actions b

variable {action : Nat}

theorem Edits.refl (s : IoUring) : Edits action s s := ⟨Settled.refl s, fun _ _ => rfl⟩

theorem Edits.trans (h : Edits action s s') (h' : Edits action s' s'') : Edits action s s'' :=
  ⟨h.toSettled.trans h'.toSettled, fun b hb => (h'.others b hb).trans (h.others b hb)⟩

theorem Edits.same (h : Edits action s s') (hsame : SameHeap s' s'') : Edits action s s'' :=
  ⟨h.toSettled.trans hsame.settled, fun b hb => (congrFun hsame.actions b).trans (h.others b hb)⟩

theorem Edits.prepared (h : Edits action s s') (slot : Nat) (origin : Option Nat)
    (f : Sqe → Origin → Sqe) (userData : Nat)
    : Edits action s ((s'.prepare slot origin f).setUserData slot userData) :=
  h.same ⟨rfl, rfl, rfl, rfl⟩

theorem Edits.setMsghdr (h : Edits action s s') (p : Nat) (buf : IovPtr) (cnt : Nat)
    : Edits action s (s'.setMsghdr p buf cnt) :=
  h.same ⟨rfl, rfl, rfl, rfl⟩

theorem Edits.modifyAction (s : IoUring) (action : Nat) (f : CompleteAction → CompleteAction)
    : Edits action s (s.modifyAction action f) :=
  ⟨Settled.modifyAction s action f, fun _ hb => Function.update_of_ne hb ..⟩

theorem Edits.storeCallback (s : IoUring) (action : Nat) (cb : Option ActionCallback)
    : Edits action s (s.storeCallback action cb) := by
  cases cb with
  | none => exact Edits.refl s
  | some cb => exact Edits.modifyAction s action _

theorem Edits.newMsghdr (s : IoUring) : Edits action s s.newMsghdr.2 :=
  (Edits.refl s).same ⟨rfl, rfl, rfl, rfl⟩

theorem Edits.getReadMsghdr (s : IoUring) (action : Nat) : Edits action s (s.getReadMsghdr action).2 := by
  unfold IoUring.getReadMsghdr
  split
  . exact Edits.refl s
  . exact (Edits.newMsghdr s).trans (Edits.modifyAction _ action _)

theorem Edits.getWriteMsghdr (s : IoUring) (action : Nat) : Edits action s (s.getWriteMsghdr action).2 := by
  unfold IoUring.getWriteMsghdr
  split
  . exact Edits.refl s
  . exact (Edits.newMsghdr s).trans (Edits.modifyAction _ action _)

theorem Edits.offsetFor (s : IoUring) (action : Nat) (opt : Option Nat)
    : Edits action s (s.offsetFor action opt).2 := by
  unfold IoUring.offsetFor
  split
  . exact Edits.refl s
  . exact Edits.modifyAction s action _

theorem Edits.storeReadCallback (s : IoUring) (action : Nat) (fd : Fd) (buffer : Option IovPtr)
    (cnt : Nat) (cb : Option Callback)
    : Edits action s (s.storeReadCallback action fd buffer cnt cb) := by
  unfold IoUring.storeReadCallback
  cases cb with
  | none => exact Edits.refl s
  | some cb =>
    cases isStream fd with
    | false => exact Edits.modifyAction s action _
    | true => exact (Edits.getReadMsghdr s action).trans (Edits.modifyAction _ action _)

theorem Edits.storeGroupCallback (s : IoUring) (action : Nat) (cb : Option Callback) (detail : Bool)
    : Edits action s (s.storeGroupCallback action cb detail).2 := by
  cases cb with
  | none => exact Edits.refl s
  | some cb => exact (Edits.getReadMsghdr s action).trans (Edits.modifyAction _ action _)

theorem Keeps.newAction (s : IoUring) (a : CompleteAction) : Keeps s (s.newAction a).2 := by
  refine ⟨.of_infos (Nat.le_succ s.nextAction) rfl, rfl, ?_⟩
  intro b hb
  unfold IoUring.newAction
  dsimp only
  by_cases heq : b = s.nextAction
  . rw [heq, Function.update_self]
    rfl
  . rw [Function.update_of_ne heq]
    exact hb

theorem Keeps.getCompleteAction {fd : Fd} {info : IouringEventInfo} (kind : Kind)
    (hinfo : ∀ kind a, info.get kind = some a → s.Owns fd.key kind a)
    : Keeps s (s.getCompleteAction fd info kind).2 := by
  unfold IoUring.getCompleteAction
  split
  . exact Keeps.refl s
  . have hnew := Keeps.newAction s (makeAction kind fd)
    refine ⟨⟨hnew.nextAction, ?_⟩, hnew.idToTimer, hnew.alive⟩
    intro key kind' a hown
    obtain ⟨info', hinfo', ha⟩ := hown
    dsimp only at hinfo'
    by_cases hkey : key = fd.key
    . rw [hkey, Function.update_self, Option.some.injEq] at hinfo'
      rw [← hinfo', IouringEventInfo.get_set] at ha
      split at ha
      . exact .inr (Nat.le_of_eq (Option.some.inj ha))
      . rw [hkey]
        exact .inl (hinfo kind' a ha)
    . rw [Function.update_of_ne hkey] at hinfo'
      exact .inl ⟨info', hinfo', ha⟩

theorem Keeps.findOrInsert (s : IoUring) (fd : Fd) (kind : Kind) : Keeps s (s.findOrInsert fd kind).2 := by
  unfold IoUring.findOrInsert
  cases hinfo : s.fdToEventInfo fd.key with
  | some info => exact Keeps.getCompleteAction kind fun _ _ ha => ⟨info, hinfo, ha⟩
  | none =>
    apply Keeps.getCompleteAction kind
    intro kind' a ha
    cases kind' <;> cases ha

-- What is done with a slot leaves the timers alone, and from then on the file descriptor owns the
-- `complete_action` that is used.
def FillsOwned (fd : Fd) (kind : Kind) (fill : IoUring → Nat → IoUring) : Prop :=
  ∀ s slot, Keeps s (fill s slot) ∧ (fill s slot).Owns fd.key kind (s.findOrInsert fd kind).1

-- What is done with a slot changes the `complete_action` of the operation only.
def FillsOnly (fd : Fd) (kind : Kind) (fill : IoUring → Nat → IoUring) : Prop :=
  ∀ s slot, Edits (s.findOrInsert fd kind).1 (s.findOrInsert fd kind).2 (fill s slot)

theorem FillsOnly.owned {fd : Fd} {kind : Kind} {fill : IoUring → Nat → IoUring}
    (h : FillsOnly fd kind fill)
    : FillsOwned fd kind fill := by
  intro s slot
  refine ⟨(Keeps.findOrInsert s fd kind).trans (h s slot).toKeeps, ?_⟩
  have howns := findOrInsert_owns s fd kind
  unfold Owns at howns ⊢
  rw [(h s slot).fdToEventInfo]
  exact howns

theorem fillWrite_only (fd : Fd) (buffer : Option IovPtr) (cnt : Nat) (cb : Option Callback)
    (opt : Option WriteOptions)
    : FillsOnly fd .write (fillWrite fd buffer cnt cb opt) := by
  intro s slot
  have hbase := (Edits.storeCallback (s.findOrInsert fd .write).2 (s.findOrInsert fd .write).1
    (cb.map fun cb => .result (some cb))).trans
    (Edits.offsetFor _ (s.findOrInsert fd .write).1 (opt.bind (·.offset)))
  cases buffer with
  | none => exact hbase.prepared slot _ _ _
  | some buf =>
    unfold fillWrite
    cases isStream fd with
    | false => exact hbase.prepared slot _ _ _
    | true =>
      have hmsg := hbase.trans (Edits.getWriteMsghdr _ (s.findOrInsert fd .write).1)
      exact (hmsg.setMsghdr _ buf cnt).prepared slot _ _ _

theorem fillRead_only (fd : Fd) (buffer : Option IovPtr) (cnt : Nat) (cb : Option Callback)
    (opt : Option ReadOptions)
    : FillsOnly fd .read (fillRead fd buffer cnt cb opt) := by
  intro s slot
  have hbase := (Edits.storeReadCallback (s.findOrInsert fd .read).2 (s.findOrInsert fd .read).1 fd
    buffer cnt cb).trans (Edits.offsetFor _ (s.findOrInsert fd .read).1 (opt.bind (·.offset)))
  cases buffer with
  | none => exact hbase.prepared slot _ _ _
  | some buf =>
    unfold fillRead
    cases isStream fd with
    | false => exact hbase.prepared slot _ _ _
    | true =>
      have hmsg := hbase.trans (Edits.getReadMsghdr _ (s.findOrInsert fd .read).1)
      exact (hmsg.setMsghdr _ buf cnt).prepared slot _ _ _

theorem fillReadGroup_only (fd : Fd) (group : Nat) (cb : Option Callback) (detail : Bool)
    : FillsOnly fd .read (fillReadGroup fd group cb detail) := by
  intro s slot
  have hstore := Edits.storeGroupCallback (s.findOrInsert fd .read).2 (s.findOrInsert fd .read).1 cb
    detail
  exact (hstore.trans (Edits.modifyAction _ (s.findOrInsert fd .read).1 _)).prepared slot _ _ _

theorem fillAccept_only (fd : Fd) (addr : Nat) (cb : Option Callback)
    : FillsOnly fd .read (fillAccept fd addr cb) := by
  intro s slot
  have hmodify := Edits.modifyAction (s.findOrInsert fd .read).2 (s.findOrInsert fd .read).1
    fun a => { a with addrBuffer := some addr }
  exact (hmodify.prepared slot _ _ _).trans (Edits.storeCallback _ _ _)

theorem Keeps.withSqe {fill : IoUring → Nat → IoUring} (isSubmit : Bool)
    (hfill : ∀ s slot, Keeps s (fill s slot))
    : Keeps s (s.withSqe isSubmit fill).2 := by
  unfold IoUring.withSqe
  rw [getIoUringSqe_eq]
  cases s.ring.getIoUringSqe s.msghdrs with
  | mk slot w =>
    have hring : SameHeap s { s with ring := w } := ⟨rfl, rfl, rfl, rfl⟩
    cases slot with
    | none => exact hring.settled.toKeeps
    | some slot =>
      obtain ⟨⟨hnext, hfresh⟩, htimers, halive⟩ := hfill { s with ring := w } slot
      cases isSubmit with
      | false => exact ⟨⟨hnext, hfresh⟩, htimers, halive⟩
      | true => exact ⟨⟨hnext, hfresh⟩, htimers, halive⟩

-- An operation that gets a slot uses a `complete_action` that the file descriptor owns afterwards.
theorem withSqe_owns {fd : Fd} {kind : Kind} {fill : IoUring → Nat → IoUring} (isSubmit : Bool)
    (hfill : FillsOwned fd kind fill) (hroom : s.ring.sq.getSqe.1 ≠ none)
    : (s.withSqe isSubmit fill).2.Owns fd.key kind (s.findOrInsert fd kind).1 := by
  unfold withSqe getIoUringSqe Wrapper.getIoUringSqe Wrapper.getSqe
  cases hget : s.ring.sq.getSqe with
  | mk slot sq =>
    cases slot with
    | none =>
      rw [hget] at hroom
      exact absurd rfl hroom
    | some slot =>
      have howns := (hfill { s with ring := { s.ring with sq } } slot).2
      rw [findOrInsert_ring] at howns
      cases isSubmit with
      | false => exact howns
      | true => exact howns

-- A `user_data` that `dispatch` can follow: it is 0 or a `complete_action` that has an owner.
def Known (s : IoUring) (a : Nat) : Prop :=
  a = 0 ∨ (∃ key kind, s.Owns key kind a) ∨ ∃ timerId, s.idToTimer timerId = some a

structure Timers (s : IoUring) : Prop where
  alive : ∀ t a, s.idToTimer t = some a → (s.actions a).isSome
  inj : ∀ t t' a, s.idToTimer t = some a → s.idToTimer t' = some a → t = t'

theorem Known.alive {I : Nat → Kind → Option ActionCallback → Prop} {a : Nat} (h : Known s a)
    (hheap : Heap I s) (htimers : Timers s) (hne : a ≠ 0)
    : (s.actions a).isSome := by
  rcases h with hzero | ⟨key, kind, hown⟩ | ⟨timerId, htimer⟩
  . exact absurd hzero hne
  . obtain ⟨_, act, hact, _⟩ := hheap.alive key kind a hown
    rw [hact]
    rfl
  . exact htimers.alive timerId a htimer

theorem Timers.keep (h : Timers s) (hkeeps : Keeps s s') : Timers s' := by
  refine ⟨?_, ?_⟩
  . intro t a htimer
    rw [hkeeps.idToTimer] at htimer
    exact hkeeps.alive a (h.alive t a htimer)
  . rw [hkeeps.idToTimer]
    exact h.inj

theorem Known.same {a : Nat} (h : Known s a) (hsame : SameHeap s s') : Known s' a := by
  rcases h with hzero | ⟨key, kind, hown⟩ | ⟨timerId, htimer⟩
  . exact .inl hzero
  . exact .inr (.inl ⟨key, kind, (hsame.owns key kind a).mpr hown⟩)
  . refine .inr (.inr ⟨timerId, ?_⟩)
    rw [hsame.idToTimer]
    exact htimer

-- How an entry is filled in: with the `user_data` that the slot holds, or with one that `K` holds of.
def Labels (s : IoUring) (own : Option (Option Nat)) (K : Nat → Prop) (f : Sqe → Sqe) : Prop :=
  (own.isSome ∧ ∀ q, (f q).userData = q.userData)
    ∨ ∃ a, (∀ q, (f q).userData = a) ∧ (s.ring.sq.getSqe.1 ≠ none → K a)

theorem Labels.mono {own : Option (Option Nat)} {K K' : Nat → Prop} {f : Sqe → Sqe} (h : Labels s own K f)
    (himp : s.ring.sq.getSqe.1 ≠ none → ∀ a, K a → K' a)
    : Labels s own K' f := by
  rcases h with hkeeps | ⟨a, hdata, hK⟩
  . exact .inl hkeeps
  . exact .inr ⟨a, hdata, fun hroom => himp hroom a (hK hroom)⟩

-- What a part of a run leaves behind that has let go of `freed`.
structure Kept (s : IoUring) (own : Option (Option Nat)) (freed : Option Nat) (s' : IoUring) : Prop where
  timers : Timers s'
  known : ∀ a, s.Known a → freed ≠ some a → s'.Known a
  effect : ∃ ret, Effect (Labels s own s'.Known) s.ring ret s'.ring

theorem Known.grow {I : Nat → Kind → Option ActionCallback → Prop} {a : Nat} (h : Known s a)
    (hgrows : Grows I s s') (htimers : ∀ t, s.idToTimer t = some a → s'.idToTimer t = some a)
    : Known s' a := by
  rcases h with hzero | ⟨key, kind, hown⟩ | ⟨timerId, htimer⟩
  . exact .inl hzero
  . exact .inr (.inl ⟨key, kind, hgrows.owns key kind a hown⟩)
  . exact .inr (.inr ⟨timerId, htimers timerId htimer⟩)

variable {own : Option (Option Nat)} {freed : Option Nat} {I : Nat → Kind → Option ActionCallback → Prop}

theorem Kept.of_keeps {ret : Int} (htimers : Timers s) (hgrows : Grows I s s') (hkeeps : Keeps s s')
    (heffect : Effect (Labels s own s'.Known) s.ring ret s'.ring)
    : Kept s own freed s' := by
  refine ⟨htimers.keep hkeeps, ?_, ret, heffect⟩
  intro a ha _
  apply ha.grow hgrows
  intro t htimer
  rw [hkeeps.idToTimer]
  exact htimer

theorem Kept.refl (hheap : Heap I s) (htimers : Timers s) : Kept s own freed s :=
  Kept.of_keeps htimers (Grows.refl hheap) (Keeps.refl s) (Effect.same (-1))

-- `a` is a `complete_action` that the reads or the writes of a file descriptor carry.
def Serves (s : IoUring) (a : Nat) : Prop :=
  ∃ key kind, (kind = .read ∨ kind = .write) ∧ s.Owns key kind a

theorem Serves.known {a : Nat} (h : Serves s a) : Known s a := by
  obtain ⟨key, kind, _, hown⟩ := h
  exact .inr (.inl ⟨key, kind, hown⟩)

-- What an operation that is not about a timer does.
structure Uses (s : IoUring) (own : Option (Option Nat)) (s' : IoUring) : Prop where
  keeps : Keeps s s'
  effect : ∃ ret, Effect (Labels s own s'.Serves) s.ring ret s'.ring

theorem Uses.refl (s : IoUring) : Uses s own s := ⟨Keeps.refl s, -1, Effect.same (-1)⟩

theorem Uses.same (hsame : SameHeap s s') (hring : s'.ring = s.ring) : Uses s own s' := by
  refine ⟨hsame.settled.toKeeps, -1, ?_⟩
  rw [hring]
  exact Effect.same (-1)

-- The operations on a file descriptor that set `user_data`.
theorem withSqe_labels {fd : Fd} {kind : Kind} {fill : IoUring → Nat → IoUring} (isSubmit : Bool)
    (howned : FillsOwned fd kind fill)
    (hfills : FillsBy (SetsTo fun s => (s.findOrInsert fd kind).1) fill)
    : Effect (Labels s own ((s.withSqe isSubmit fill).2.Owns fd.key kind)) s.ring
        (s.withSqe isSubmit fill).1 (s.withSqe isSubmit fill).2.ring := by
  have hsets : Effect (SetsTo (fun s => (s.findOrInsert fd kind).1) s) s.ring
      (s.withSqe isSubmit fill).1 (s.withSqe isSubmit fill).2.ring := by
    apply withSqe_effect isSubmit hfills
    rintro s' ring f ⟨horigin, hdata⟩
    dsimp only at horigin hdata
    rw [findOrInsert_ring] at horigin hdata
    exact ⟨horigin, hdata⟩
  exact hsets.mono fun f hf => .inr ⟨_, hf.2, withSqe_owns isSubmit howned⟩

theorem withSqe_uses {fd : Fd} {kind : Kind} {fill : IoUring → Nat → IoUring} (isSubmit : Bool)
    (hkind : kind = .read ∨ kind = .write) (howned : FillsOwned fd kind fill)
    (hfills : FillsBy (SetsTo fun s => (s.findOrInsert fd kind).1) fill)
    : Uses s own (s.withSqe isSubmit fill).2 := by
  have hlabels : Effect (Labels s own _) s.ring _ _ := withSqe_labels isSubmit howned hfills
  refine ⟨Keeps.withSqe isSubmit fun s slot => (howned s slot).1, _, hlabels.mono ?_⟩
  exact fun f hf => hf.mono fun _ a ha => ⟨fd.key, kind, hkind, ha⟩

theorem cancelAsync_of_own_none {fd : Fd} {kind : Kind} (cb : ActionCallback)
    (f : Sqe → Origin → Nat → Sqe) (h : s.cancelOwn fd kind = none)
    : s.cancelAsync fd kind cb f = (-1, s) := by
  unfold cancelAsync
  unfold cancelOwn at h
  split
  . rfl
  . next hvalid =>
    rw [if_neg hvalid, Option.map_eq_none_iff] at h
    rw [h]

theorem cancelAsync_keeps (fd : Fd) (kind : Kind) (cb : ActionCallback)
    (f : Sqe → Origin → Nat → Sqe)
    : Keeps s (s.cancelAsync fd kind cb f).2 := by
  unfold cancelAsync
  split
  . exact Keeps.refl s
  . split
    . exact Keeps.refl s
    . next info hinfo =>
      have hget := Keeps.getCompleteAction (s := s) kind fun _ _ ha => ⟨info, hinfo, ha⟩
      have hset := hget.trans
        (Settled.modifyAction _ (s.getCompleteAction fd info kind).1 fun a => { a with callback := some cb }).toKeeps
      exact hset.trans (Keeps.withSqe true fun s slot => (Settled.prepare s slot _ _).toKeeps)

theorem Labels.of_fills {call : Nat} {o : Option Nat} {K : Nat → Prop} {f : Sqe → Sqe}
    (h : Fills call (some o) f)
    : Labels s (some o) K f := by
  cases h with
  | keeps _ _ horigin hdata => exact .inl ⟨rfl, hdata⟩

theorem cancelAsync_uses {fd : Fd} {kind : Kind} {cb : ActionCallback} (f : Sqe → Origin → Nat → Sqe)
    (horigin : ∀ q origin a, (f q origin a).origin = origin)
    (hdata : ∀ q origin a, (f q origin a).userData = q.userData)
    : Uses s (s.cancelOwn fd kind) (s.cancelAsync fd kind cb f).2 := by
  cases hown : s.cancelOwn fd kind with
  | none =>
    rw [cancelAsync_of_own_none cb f hown]
    exact Uses.refl s
  | some o =>
    have hperforms : Performs s _ false _ _ := cancelAsync_performs fd kind cb f horigin hdata
    obtain ⟨ret, heffect, _⟩ := hperforms.effect
    rw [hown] at heffect
    exact ⟨cancelAsync_keeps fd kind cb f, ret, heffect.mono fun _ hfills => Labels.of_fills hfills⟩

theorem submit_uses : Uses s own s.submit.2 := by
  refine ⟨(submit_same s).settled.toKeeps, -1, ?_⟩
  unfold submit
  split
  . exact Effect.flushed s.msghdrs (-1)
  . exact Effect.same (-1)

end IoUring

def Op.isTimer : Op → Bool
  | .createTimer _ _ _ => true
  | .closeTimer _ => true
  | _ => false

namespace IoUring

variable {own : Option (Option Nat)} {freed : Option Nat} {I : Nat → Kind → Option ActionCallback → Prop}
  {k : Nat} {s s' : IoUring}

theorem run_uses {op : Op} (h : op.isTimer = false) : Uses s (op.own s) (s.run op).2 := by
  cases op with
  | submitAsyncRead fd buffer cnt cb opt =>
    unfold run submitAsyncRead
    dsimp only
    split
    . exact Uses.refl s
    . exact withSqe_uses _ (.inl rfl) (fillRead_only fd buffer cnt cb opt).owned (fillRead_fills fd buffer cnt cb opt)
  | submitAsyncReadGroup fd group cb opt =>
    unfold run submitAsyncReadGroup
    dsimp only
    split
    . exact Uses.refl s
    . exact withSqe_uses _ (.inl rfl) (fillReadGroup_only fd group cb _).owned (fillReadGroup_fills fd group cb _)
  | submitAsyncWrite fd buffer cnt cb opt =>
    unfold run submitAsyncWrite
    dsimp only
    split
    . exact Uses.refl s
    . exact withSqe_uses _ (.inr rfl) (fillWrite_only fd buffer cnt cb opt).owned
        (fillWrite_fills fd buffer cnt cb opt)
  | submitAsyncAccept fd addr cb =>
    unfold run submitAsyncAccept
    cases addr with
    | none => exact Uses.refl s
    | some addr =>
      dsimp only
      split
      . exact Uses.refl s
      . exact withSqe_uses true (.inl rfl) (fillAccept_only fd addr cb).owned (fillAccept_fills fd addr cb)
  | cancelAsyncRead fd cb =>
    unfold run cancelAsyncRead
    exact cancelAsync_uses _ (fun _ _ _ => rfl) (fun _ _ _ => rfl)
  | cancelAsyncWrite fd cb =>
    unfold run cancelAsyncWrite
    exact cancelAsync_uses _ (fun _ _ _ => rfl) (fun _ _ _ => rfl)
  | cancelAsyncAccept fd cb =>
    unfold run cancelAsyncAccept
    exact cancelAsync_uses _ (fun _ _ _ => rfl) (fun _ _ _ => rfl)
  | createTimer intervalS intervalNs cb => cases h
  | closeTimer timerId => cases h
  | submit => exact submit_uses
  | registerRingBuffer blockSize blockCount setup addrs =>
    exact Uses.same (registerRingBuffer_same s blockSize blockCount setup addrs)
      (registerRingBuffer_quiet blockSize blockCount setup addrs).ring
  | unregisterRingBuffer group freed =>
    exact Uses.same (unregisterRingBuffer_same s group freed) (unregisterRingBuffer_quiet group freed).ring

theorem storeTimer_idToTimer (a t : Nat)
    : (s.storeTimer a).idToTimer t = if t = s.timerId then some a else s.idToTimer t := by
  unfold storeTimer
  exact Function.update_apply ..

theorem storeTimer_actions (a b : Nat)
    : (s.storeTimer a).actions b = if s.idToTimer s.timerId = some b then none else s.actions b := by
  unfold storeTimer
  cases hold : s.idToTimer s.timerId with
  | none => simp
  | some replaced =>
    simp [Function.update_apply, eq_comm]

-- The timer of a `complete_action` that nothing has been known of.
theorem Timers.store {a : Nat} (h : Timers s) (halive : (s.actions a).isSome)
    (hfresh : ∀ t, s.idToTimer t ≠ some a)
    : Timers (s.storeTimer a) := by
  refine ⟨?_, ?_⟩
  . intro t b htimer
    rw [storeTimer_idToTimer] at htimer
    rw [storeTimer_actions]
    split at htimer
    . cases htimer
      rw [if_neg (hfresh s.timerId)]
      exact halive
    . next hne =>
      rw [if_neg]
      . exact h.alive t b htimer
      . intro hold
        exact hne (h.inj t s.timerId b htimer hold)
  . intro t t' b htimer htimer'
    rw [storeTimer_idToTimer] at htimer htimer'
    split at htimer
    . next heq =>
      split at htimer'
      . next heq' => exact heq.trans heq'.symm
      . cases htimer
        exact absurd htimer' (hfresh t')
    . split at htimer'
      . cases htimer'
        exact absurd htimer (hfresh t)
      . exact h.inj t t' b htimer htimer'

theorem Timers.free {a : Nat} (h : Timers s) (hfresh : ∀ t, s.idToTimer t ≠ some a)
    : Timers { s with actions := Function.update s.actions a none } := by
  refine ⟨?_, h.inj⟩
  intro t b htimer
  have hne : b ≠ a := by
    intro heq
    rw [heq] at htimer
    exact hfresh t htimer
  dsimp only
  rw [Function.update_of_ne hne]
  exact h.alive t b htimer

theorem Heap.timer_ne {t a : Nat} (h : Heap I s) (htimer : s.idToTimer t = some a)
    : a ≠ s.nextAction :=
  Nat.ne_of_lt (h.timers t a htimer).1

theorem createTimer_kept {intervalS intervalNs : Nat} {cb : Option Callback} {hist : List Sqe}
    (hheap : Heap I s) (htimers : Timers s) (ht : Tracks k s.ring hist)
    (hstrands : (Op.createTimer intervalS intervalNs cb).strands s = false)
    : Kept s none ((Op.createTimer intervalS intervalNs cb).frees s)
        (s.createTimer intervalS intervalNs cb).2 := by
  cases cb with
  | none => exact Kept.refl hheap htimers
  | some cb =>
    by_cases hsome : intervalS = 0 ∧ intervalNs = 0
    . unfold createTimer
      dsimp only
      rw [if_pos hsome]
      exact Kept.refl hheap htimers
    . have hgrows := createTimer_grows hheap intervalS intervalNs (some cb)
      have hnew := Keeps.newAction s { callback := some (.timer cb intervalS intervalNs) }
      have hact : ((s.newAction { callback := some (.timer cb intervalS intervalNs) }).2.actions
          s.nextAction).isSome := by
        simp [newAction]
      have hsame := submitTimeout_same (s.newAction { callback := some (.timer cb intervalS intervalNs) }).2
        intervalS intervalNs s.nextAction
      have heffect : Effect _ s.ring _ _ := submitTimeout_effect
        (s.newAction { callback := some (.timer cb intervalS intervalNs) }).2 intervalS intervalNs
        s.nextAction
      have hret : ((s.newAction { callback := some (.timer cb intervalS intervalNs) }).2.submitTimeout
          intervalS intervalNs s.nextAction).1 = 0 ↔ s.ring.accepts :=
        withSqe_ret_iff (F := SetsTo fun _ => s.nextAction) ht
          (submitTimeout_fills intervalS intervalNs s.nextAction)
      have hid := (submitTimeout_timerId
        (s.newAction { callback := some (.timer cb intervalS intervalNs) }).2 intervalS intervalNs
        s.nextAction).trans (newAction_timerId s _)
      rw [createTimer_of_valid cb hsome] at hgrows ⊢
      dsimp only at hgrows ⊢
      generalize (s.newAction { callback := some (.timer cb intervalS intervalNs) }).2.submitTimeout
        intervalS intervalNs s.nextAction = r at hgrows hsame heffect hret hid ⊢
      have hkeeps := hnew.trans hsame.settled.toKeeps
      have hfresh : ∀ t, r.2.idToTimer t ≠ some s.nextAction := by
        intro t htimer
        rw [hkeeps.idToTimer] at htimer
        exact hheap.timer_ne htimer rfl
      by_cases hzero : r.1 = 0
      . rw [if_pos hzero] at hgrows ⊢
        have hfrees : (Op.createTimer intervalS intervalNs (some cb)).frees s = s.idToTimer s.timerId := by
          simp [Op.frees, hsome, hret.mp hzero]
        rw [hfrees]
        refine ⟨(htimers.keep hkeeps).store (hsame.settled.alive _ hact) hfresh, ?_, r.1, heffect.mono ?_⟩
        . intro a ha hfreed
          apply ha.grow hgrows
          intro t htimer
          have hne : t ≠ s.timerId := by
            intro heq
            rw [heq] at htimer
            exact hfreed htimer
          rw [storeTimer_idToTimer, hid, if_neg hne, hkeeps.idToTimer]
          exact htimer
        . intro f hf
          refine .inr ⟨s.nextAction, hf.2, fun _ => .inr (.inr ⟨s.timerId, ?_⟩)⟩
          rw [storeTimer_idToTimer, hid, if_pos rfl]
      . rw [if_neg hzero] at hgrows ⊢
        have hfull : s.ring.sq.getSqe.1 = none := by
          have hrefused : s.ring.accepts = false := by
            rw [← Bool.not_eq_true, ← hret]
            exact hzero
          simpa [Op.strands, hsome, hrefused] using hstrands
        refine ⟨(htimers.keep hkeeps).free hfresh, ?_, r.1, heffect.mono ?_⟩
        . intro a ha _
          exact ha.grow hgrows fun t htimer => (congrFun hkeeps.idToTimer t).trans htimer
        . intro f hf
          exact .inr ⟨s.nextAction, hf.2, fun hroom => absurd hfull hroom⟩

theorem Timers.erase {t a : Nat} (h : Timers s) (htimer : s.idToTimer t = some a)
    : Timers (s.eraseTimer t a) := by
  have hold : ∀ t' b, (s.eraseTimer t a).idToTimer t' = some b → t' ≠ t ∧ s.idToTimer t' = some b := by
    intro t' b htimer'
    unfold eraseTimer at htimer'
    dsimp only at htimer'
    by_cases heq : t' = t
    . rw [heq, Function.update_self] at htimer'
      cases htimer'
    . rw [Function.update_of_ne heq] at htimer'
      exact ⟨heq, htimer'⟩
  refine ⟨?_, ?_⟩
  . intro t' b htimer'
    obtain ⟨hne, hb⟩ := hold t' b htimer'
    have hother : b ≠ a := by
      intro heq
      rw [heq] at hb
      exact hne (h.inj t' t a hb htimer)
    unfold eraseTimer
    dsimp only
    rw [Function.update_of_ne hother]
    exact h.alive t' b hb
  . intro t₁ t₂ b h₁ h₂
    exact h.inj t₁ t₂ b (hold t₁ b h₁).2 (hold t₂ b h₂).2

theorem Known.erase {t a b : Nat} (h : Known s b) (htimer : s.idToTimer t = some a) (hne : b ≠ a)
    : Known (s.eraseTimer t a) b := by
  rcases h with hzero | hown | ⟨t', htimer'⟩
  . exact .inl hzero
  . exact .inr (.inl hown)
  . refine .inr (.inr ⟨t', ?_⟩)
    unfold eraseTimer
    dsimp only
    rw [Function.update_of_ne]
    . exact htimer'
    . intro heq
      rw [heq, htimer, Option.some.injEq] at htimer'
      exact hne htimer'.symm

-- `cleanup` of the `complete_action` of a timer.
def clearAction (s : IoUring) (a : Nat) : IoUring :=
  s.modifyAction a fun act => { act with callback := none }

-- The cancel that `close_timer` prepares for a timer that is armed for good.
def cancelTimer (s : IoUring) (a : Nat) : Int × IoUring :=
  (s.clearAction a).withSqe true fun s slot => s.prepare slot none fun sqe origin => prepareCancel sqe origin a 0

theorem cancelTimer_fills (a : Nat)
    : FillsSlot (some none) fun s slot => s.prepare slot none fun sqe origin => prepareCancel sqe origin a 0 :=
  FillsSlot.keeps none _ (fun _ _ => rfl) (fun _ _ => rfl)

theorem cancelTimer_sameHeap (s : IoUring) (a : Nat) : SameHeap (s.clearAction a) (s.cancelTimer a).2 :=
  SameHeap.withSqe true fun _ _ => ⟨rfl, rfl, rfl, rfl⟩

theorem cancelTimer_keeps (s : IoUring) (a : Nat) : Keeps s (s.cancelTimer a).2 :=
  (Settled.modifyAction s a _).toKeeps.trans (cancelTimer_sameHeap s a).settled.toKeeps

theorem cancelTimer_labels (s : IoUring) (a : Nat) (K : Nat → Prop)
    : Effect (Labels s (some none) K) s.ring (s.cancelTimer a).1 (s.cancelTimer a).2.ring := by
  have heffect : Effect (Fills s.calls (some none)) s.ring _ _ :=
    withSqe_effect (s := s.clearAction a) true (cancelTimer_fills a) fun _ _ _ h => h
  exact heffect.mono fun _ hfills => Labels.of_fills hfills

theorem closeTimer_of_timer {timerId a : Nat} (htimer : s.idToTimer timerId = some a)
    : s.closeTimer timerId
        =
      if s.hasTimeoutMultishot then
        let r := s.cancelTimer a
        if r.1 = 0 then (0, r.2.eraseTimer timerId a) else (-1, r.2)
      else
        (0, (s.clearAction a).eraseTimer timerId a) := by
  unfold closeTimer
  rw [htimer]
  rfl

theorem closeTimer_kept {timerId : Nat} {hist : List Sqe} (hheap : Heap I s) (htimers : Timers s)
    (ht : Tracks k s.ring hist)
    : Kept s ((Op.closeTimer timerId).own s) ((Op.closeTimer timerId).frees s)
        (s.closeTimer timerId).2 := by
  cases htimer : s.idToTimer timerId with
  | none =>
    unfold closeTimer
    rw [htimer]
    exact Kept.refl hheap htimers
  | some a =>
    have hgrows := closeTimer_grows hheap timerId
    have hclear : Settled s (s.clearAction a) := Settled.modifyAction s a _
    rw [closeTimer_of_timer htimer] at hgrows ⊢
    cases hshot : s.hasTimeoutMultishot with
    | false =>
      have hfrees : (Op.closeTimer timerId).frees s = some a := by
        simp [Op.frees, hshot, htimer]
      rw [hfrees, if_neg Bool.false_ne_true]
      refine ⟨(htimers.keep hclear.toKeeps).erase htimer, ?_, -1, Effect.same (-1)⟩
      intro b hb hne
      have hb' : (s.clearAction a).Known b := hb
      exact hb'.erase htimer fun heq => hne (congrArg some heq.symm)
    | true =>
      have hown : (Op.closeTimer timerId).own s = some none := by
        simp [Op.own, hshot, htimer]
      have hlabels := s.cancelTimer_labels a
      have hret : (s.cancelTimer a).1 = 0 ↔ s.ring.accepts :=
        withSqe_ret_iff (s := s.clearAction a) ht (cancelTimer_fills a)
      have hsame := s.cancelTimer_sameHeap a
      have hkeeps := s.cancelTimer_keeps a
      rw [hshot, if_pos rfl] at hgrows
      rw [hown, if_pos rfl]
      dsimp only at hgrows ⊢
      generalize s.cancelTimer a = r at hgrows hlabels hret hsame hkeeps ⊢
      by_cases hzero : r.1 = 0
      . rw [if_pos hzero]
        have haccepts : s.ring.accepts := hret.mp hzero
        have hfrees : (Op.closeTimer timerId).frees s = some a := by
          simp [Op.frees, hshot, htimer, haccepts]
        have htimer' : r.2.idToTimer timerId = some a := by
          rw [hkeeps.idToTimer]
          exact htimer
        rw [hfrees]
        refine ⟨(htimers.keep hkeeps).erase htimer', ?_, r.1, hlabels _⟩
        intro b hb hne
        have hb' : (s.clearAction a).Known b := hb
        exact (hb'.same hsame).erase htimer' fun heq => hne (congrArg some heq.symm)
      . rw [if_neg hzero] at hgrows ⊢
        exact Kept.of_keeps htimers hgrows hkeeps (hlabels _)

theorem run_kept {op : Op} {hist : List Sqe} (hheap : Heap (fun _ _ _ => True) s) (htimers : Timers s)
    (ht : Tracks k s.ring hist) (hstrands : op.strands s = false)
    : Kept s (op.own s) (op.frees s) (s.run op).2 := by
  cases htimer : op.isTimer with
  | false =>
    have hgrows : Grows (fun _ _ _ => True) s (s.run op).2 :=
      run_grows hheap (fun _ _ => trivial) fun _ _ _ _ => trivial
    obtain ⟨hkeeps, ret, heffect⟩ := run_uses (s := s) htimer
    refine Kept.of_keeps htimers hgrows hkeeps (heffect.mono ?_)
    exact fun _ hf => hf.mono fun _ _ ha => ha.known
  | true =>
    cases op with
    | createTimer intervalS intervalNs cb => exact createTimer_kept hheap htimers ht hstrands
    | closeTimer timerId => exact closeTimer_kept hheap htimers ht
    | _ => cases htimer

end IoUring

end Uring
end Event
end Ezio
