import Ezio.Event.IoUring.Lemmas.Step

/-!
This module contains the ownership of the `complete_action`s: one that belongs to a file descriptor is
never freed, and no two of them are the same.
-/

namespace Ezio
namespace Event
namespace Uring

namespace IoUring

-- `a` is the `complete_action` of this kind of the file descriptor with this key.
def Owns (s : IoUring) (key : Nat) (kind : Kind) (a : Nat) : Prop :=
  ∃ info, s.fdToEventInfo key = some info ∧ info.get kind = some a

-- `I` is what is known about the callbacks that are stored.
structure Heap (I : Nat → Kind → Option ActionCallback → Prop) (s : IoUring) : Prop where
  alive : ∀ key kind a, s.Owns key kind a
      → a < s.nextAction ∧ ∃ act, s.actions a = some act ∧ I key kind act.callback
  inj : ∀ key kind key' kind' a, s.Owns key kind a → s.Owns key' kind' a
      → key = key' ∧ kind = kind'
  timers : ∀ t a, s.idToTimer t = some a → a < s.nextAction ∧ ∀ key kind, ¬s.Owns key kind a

-- What is owned stays so.
structure Grows (I : Nat → Kind → Option ActionCallback → Prop) (s s' : IoUring) : Prop where
  heap : Heap I s'
  owns : ∀ key kind a, s.Owns key kind a → s'.Owns key kind a

variable {I : Nat → Kind → Option ActionCallback → Prop} {s s' s'' : IoUring}

theorem Grows.refl (h : Heap I s) : Grows I s s := ⟨h, fun _ _ _ h => h⟩

theorem Grows.trans (h : Grows I s s') (h' : Grows I s' s'') : Grows I s s'' :=
  ⟨h'.heap, fun key kind a hown => h'.owns key kind a (h.owns key kind a hown)⟩

structure SameHeap (s s' : IoUring) : Prop where
  actions : s'.actions = s.actions
  nextAction : s'.nextAction = s.nextAction
  fdToEventInfo : s'.fdToEventInfo = s.fdToEventInfo
  idToTimer : s'.idToTimer = s.idToTimer

theorem SameHeap.owns (h : SameHeap s s') (key : Nat) (kind : Kind) (a : Nat)
    : s'.Owns key kind a ↔ s.Owns key kind a := by
  unfold Owns
  rw [h.fdToEventInfo]

theorem Heap.same (h : Heap I s) (hsame : SameHeap s s') : Heap I s' := by
  have howns := hsame.owns
  refine ⟨?_, ?_, ?_⟩
  . intro key kind a hown
    rw [hsame.nextAction, hsame.actions]
    exact h.alive key kind a ((howns key kind a).mp hown)
  . intro key kind key' kind' a hown hown'
    exact h.inj key kind key' kind' a ((howns key kind a).mp hown) ((howns key' kind' a).mp hown')
  . intro t a htimer
    rw [hsame.idToTimer] at htimer
    rw [hsame.nextAction]
    obtain ⟨hlt, hfree⟩ := h.timers t a htimer
    exact ⟨hlt, fun key kind hown => hfree key kind ((howns key kind a).mp hown)⟩

theorem Grows.same (h : Grows I s s') (hsame : SameHeap s' s'') : Grows I s s'' := by
  refine ⟨h.heap.same hsame, ?_⟩
  intro key kind a hown
  exact (hsame.owns key kind a).mpr (h.owns key kind a hown)

theorem Grows.prepare (h : Grows I s s') (slot : Nat) (action : Option Nat)
    (f : Sqe → Origin → Sqe)
    : Grows I s (s'.prepare slot action f) := h.same ⟨rfl, rfl, rfl, rfl⟩

theorem Grows.setUserData (h : Grows I s s') (slot action : Nat)
    : Grows I s (s'.setUserData slot action) := h.same ⟨rfl, rfl, rfl, rfl⟩

theorem Grows.setMsghdr (h : Grows I s s') (p : Nat) (buf : IovPtr) (cnt : Nat)
    : Grows I s (s'.setMsghdr p buf cnt) := h.same ⟨rfl, rfl, rfl, rfl⟩

theorem IouringEventInfo.get_set (info : IouringEventInfo) (kind kind' : Kind) (a : Nat)
    : (info.set kind a).get kind' = if kind' = kind then some a else info.get kind' := by
  cases kind <;> cases kind' <;> rfl

-- An update that leaves the callbacks of all that is owned as they may be.
theorem Heap.modify (h : Heap I s) (a : Nat) (f : CompleteAction → CompleteAction)
    (hf : ∀ key kind act, s.Owns key kind a → I key kind act.callback → I key kind (f act).callback)
    : Grows I s (s.modifyAction a f) := by
  refine ⟨⟨?_, h.inj, h.timers⟩, fun _ _ _ hown => hown⟩
  intro key kind b hown
  obtain ⟨hlt, act, hact, hI⟩ := h.alive key kind b hown
  refine ⟨hlt, ?_⟩
  unfold modifyAction
  dsimp only
  by_cases heq : b = a
  . subst heq
    rw [Function.update_self, hact]
    exact ⟨f act, rfl, hf key kind act hown hI⟩
  . rw [Function.update_of_ne heq]
    exact ⟨act, hact, hI⟩

theorem Heap.keep (h : Heap I s) (a : Nat) {f : CompleteAction → CompleteAction}
    (hf : ∀ act, (f act).callback = act.callback)
    : Grows I s (s.modifyAction a f) := by
  apply h.modify
  intro key kind act _ hI
  rw [hf]
  exact hI

theorem Heap.setCallback {key a : Nat} {kind : Kind} {cb : ActionCallback} (h : Heap I s)
    (hown : s.Owns key kind a) (hI : I key kind (some cb))
    : Grows I s (s.setCallback a cb) := by
  apply h.modify
  intro key' kind' act hown' _
  obtain ⟨hkey, hkind⟩ := h.inj key kind key' kind' a hown hown'
  rw [← hkey, ← hkind]
  exact hI

theorem Heap.storeCallback {key a : Nat} {kind : Kind} (cb : Option ActionCallback) (h : Heap I s)
    (hown : s.Owns key kind a) (hI : ∀ cb', cb = some cb' → I key kind (some cb'))
    : Grows I s (s.storeCallback a cb) := by
  cases cb with
  | none => exact Grows.refl h
  | some cb => exact h.setCallback hown (hI cb rfl)

theorem Heap.getReadMsghdr (h : Heap I s) (a : Nat) : Grows I s (s.getReadMsghdr a).2 := by
  unfold IoUring.getReadMsghdr
  split
  . exact Grows.refl h
  . have hnew : Grows I s s.newMsghdr.2 := (Grows.refl h).same ⟨rfl, rfl, rfl, rfl⟩
    exact hnew.trans (hnew.heap.keep a fun _ => rfl)

theorem Heap.getWriteMsghdr (h : Heap I s) (a : Nat) : Grows I s (s.getWriteMsghdr a).2 := by
  unfold IoUring.getWriteMsghdr
  split
  . exact Grows.refl h
  . have hnew : Grows I s s.newMsghdr.2 := (Grows.refl h).same ⟨rfl, rfl, rfl, rfl⟩
    exact hnew.trans (hnew.heap.keep a fun _ => rfl)

theorem Heap.offsetFor (h : Heap I s) (a : Nat) (opt : Option Nat)
    : Grows I s (s.offsetFor a opt).2 := by
  unfold IoUring.offsetFor
  split
  . exact Grows.refl h
  . exact h.keep a fun _ => rfl

-- A new action, which nothing owns yet.
theorem Heap.newAction (h : Heap I s) (act : CompleteAction)
    : Grows I s (s.newAction act).2
        ∧ ∀ key kind, ¬(s.newAction act).2.Owns key kind (s.newAction act).1 := by
  have hfresh : ∀ key kind, ¬s.Owns key kind s.nextAction := by
    intro key kind hown
    exact absurd (h.alive key kind _ hown).1 (Nat.lt_irrefl _)
  refine ⟨⟨⟨?_, h.inj, ?_⟩, fun _ _ _ hown => hown⟩, hfresh⟩
  . intro key kind a hown
    obtain ⟨hlt, act', hact, hI⟩ := h.alive key kind a hown
    have hne : a ≠ s.nextAction := by omega
    refine ⟨Nat.lt_succ_of_lt hlt, act', ?_, hI⟩
    unfold IoUring.newAction
    dsimp only
    rw [Function.update_of_ne hne]
    exact hact
  . intro t a htimer
    obtain ⟨hlt, hfree⟩ := h.timers t a htimer
    exact ⟨Nat.lt_succ_of_lt hlt, hfree⟩

-- The event information of a file descriptor is given an action that nothing owns.
theorem Heap.link {key a : Nat} {info : IouringEventInfo} {kind : Kind} {act : CompleteAction}
    (h : Heap I s) (hinfo : ∀ kind a, info.get kind = some a ↔ s.Owns key kind a)
    (hget : info.get kind = none) (hlt : a < s.nextAction) (hact : s.actions a = some act)
    (hI : I key kind act.callback) (hfree : ∀ key kind, ¬s.Owns key kind a)
    (htimers : ∀ t, s.idToTimer t ≠ some a)
    : Grows I s { s with
        fdToEventInfo := Function.update s.fdToEventInfo key (some (info.set kind a)) } := by
  have howns : ∀ key' kind' b,
      IoUring.Owns { s with
        fdToEventInfo := Function.update s.fdToEventInfo key (some (info.set kind a)) } key' kind' b
        ↔ (key' = key ∧ kind' = kind ∧ b = a) ∨ s.Owns key' kind' b := by
    intro key' kind' b
    unfold IoUring.Owns at hinfo ⊢
    by_cases hkey : key' = key
    . subst hkey
      rw [← hinfo]
      simp only [Function.update_self, Option.some.injEq, exists_eq_left',
        IouringEventInfo.get_set]
      by_cases hkind : kind' = kind
      . subst hkind
        simp [hget, eq_comm]
      . simp [hkind]
    . simp [hkey]
  refine ⟨⟨?_, ?_, ?_⟩, ?_⟩
  . intro key' kind' b hown
    rcases (howns key' kind' b).mp hown with ⟨hkey, hkind, hb⟩ | hown
    . subst hkey hkind hb
      exact ⟨hlt, act, hact, hI⟩
    . exact h.alive key' kind' b hown
  . intro key₁ kind₁ key₂ kind₂ b hown₁ hown₂
    rcases (howns key₁ kind₁ b).mp hown₁ with ⟨hkey₁, hkind₁, hb⟩ | hold₁
    . rcases (howns key₂ kind₂ b).mp hown₂ with ⟨hkey₂, hkind₂, _⟩ | hold₂
      . exact ⟨hkey₁.trans hkey₂.symm, hkind₁.trans hkind₂.symm⟩
      . rw [hb] at hold₂
        exact absurd hold₂ (hfree key₂ kind₂)
    . rcases (howns key₂ kind₂ b).mp hown₂ with ⟨hkey₂, hkind₂, hb⟩ | hold₂
      . rw [hb] at hold₁
        exact absurd hold₁ (hfree key₁ kind₁)
      . exact h.inj key₁ kind₁ key₂ kind₂ b hold₁ hold₂
  . intro t b htimer
    refine ⟨(h.timers t b htimer).1, ?_⟩
    intro key' kind' hown
    rcases (howns key' kind' b).mp hown with ⟨_, _, hb⟩ | hown
    . subst hb
      exact htimers t htimer
    . exact (h.timers t b htimer).2 key' kind' hown
  . intro key' kind' b hown
    exact (howns key' kind' b).mpr (.inr hown)

theorem Heap.getCompleteAction {info : IouringEventInfo} (fd : Fd) (kind : Kind) (h : Heap I s)
    (hinfo : ∀ kind a, info.get kind = some a ↔ s.Owns fd.key kind a)
    (hnone : ∀ key kind, I key kind none)
    : Grows I s (s.getCompleteAction fd info kind).2
        ∧ (s.getCompleteAction fd info kind).2.Owns fd.key kind
          (s.getCompleteAction fd info kind).1 := by
  unfold IoUring.getCompleteAction
  cases hget : info.get kind with
  | some a => exact ⟨Grows.refl h, (hinfo kind a).mp hget⟩
  | none =>
    obtain ⟨hnew, hfree⟩ := h.newAction (makeAction kind fd)
    have hcallback : (makeAction kind fd).callback = none := by
      unfold makeAction
      split
      . split
        . rfl
        . rfl
      . rfl
    have hact : (s.newAction (makeAction kind fd)).2.actions (s.newAction (makeAction kind fd)).1
        = some (makeAction kind fd) := Function.update_self ..
    have htimers : ∀ t, s.idToTimer t ≠ some s.nextAction := by
      intro t htimer
      exact absurd (h.timers t _ htimer).1 (Nat.lt_irrefl _)
    have hlink := hnew.heap.link hinfo hget (Nat.lt_succ_self _) hact
      (by rw [hcallback]; exact hnone _ _) hfree htimers
    refine ⟨hnew.trans hlink, _, Function.update_self .., ?_⟩
    rw [IouringEventInfo.get_set, if_pos rfl]

theorem Heap.findOrInsert (fd : Fd) (kind : Kind) (h : Heap I s) (hnone : ∀ key kind, I key kind none)
    : Grows I s (s.findOrInsert fd kind).2
        ∧ (s.findOrInsert fd kind).2.Owns fd.key kind (s.findOrInsert fd kind).1 := by
  unfold IoUring.findOrInsert
  cases hinfo : s.fdToEventInfo fd.key with
  | some info =>
    apply h.getCompleteAction fd kind _ hnone
    intro kind a
    simp [Owns, hinfo]
  | none =>
    apply h.getCompleteAction fd kind _ hnone
    intro kind a
    have hempty : IouringEventInfo.get {} kind = none := by
      cases kind <;> rfl
    simp [Owns, hinfo, hempty]

end IoUring

-- The callbacks that a call may store, and where.
def Op.Stores : Op → Nat → IoUring.Kind → ActionCallback → Prop
  | .submitAsyncRead fd buffer cnt cb' _, key, kind, cb =>
    key = fd.key ∧ kind = .read ∧ ∃ user msghdr, cb' = some user ∧ cb = .read user buffer cnt msghdr
  | .submitAsyncReadGroup fd _ _ _, key, kind, cb =>
    key = fd.key ∧ kind = .read ∧ ∃ user msghdr detail, cb = .readGroup user msghdr detail
  | .submitAsyncWrite fd _ _ _ _, key, kind, cb =>
    key = fd.key ∧ kind = .write ∧ ∃ user, cb = .result user
  | .submitAsyncAccept fd _ _, key, kind, cb =>
    key = fd.key ∧ kind = .read ∧ ∃ user addr, cb = .accept user addr
  | .cancelAsyncRead fd _, key, kind, cb =>
    key = fd.key ∧ kind = .cancelRead ∧ ∃ user, cb = .cancelRead user
  | .cancelAsyncAccept fd _, key, kind, cb =>
    key = fd.key ∧ kind = .cancelRead ∧ ∃ user, cb = .result user
  | .cancelAsyncWrite fd _, key, kind, cb =>
    key = fd.key ∧ kind = .cancelWrite ∧ ∃ user, cb = .result user
  | _, _, _, _ => False

namespace IoUring

variable {I : Nat → Kind → Option ActionCallback → Prop} {s s' : IoUring}

theorem Grows.withSqe {fill : IoUring → Nat → IoUring} (isSubmit : Bool) (h : Heap I s)
    (hfill : ∀ s' slot, Heap I s' → Grows I s' (fill s' slot))
    : Grows I s (s.withSqe isSubmit fill).2 := by
  unfold IoUring.withSqe
  rw [getIoUringSqe_eq]
  cases s.ring.getIoUringSqe s.msghdrs with
  | mk slot w =>
    have hring : Grows I s { s with ring := w } := (Grows.refl h).same ⟨rfl, rfl, rfl, rfl⟩
    cases slot with
    | none => exact hring
    | some slot =>
      have hfilled := hring.trans (hfill _ slot hring.heap)
      cases isSubmit with
      | false => exact hfilled
      | true => exact hfilled.same ⟨rfl, rfl, rfl, rfl⟩

theorem fillWrite_grows {fd : Fd} {buffer : Option IovPtr} {cnt : Nat} {cb : Option Callback}
    {opt : Option WriteOptions} (slot : Nat) (h : Heap I s) (hnone : ∀ key kind, I key kind none)
    (hI : ∀ user, I fd.key .write (some (.result user)))
    : Grows I s (fillWrite fd buffer cnt cb opt s slot) := by
  obtain ⟨hfind, hown⟩ := h.findOrInsert fd .write hnone
  have hstore := hfind.heap.storeCallback (cb.map fun cb => .result (some cb)) hown (by
    intro cb' hcb
    cases cb with
    | none => cases hcb
    | some cb =>
      cases hcb
      exact hI _)
  have hoffset := hstore.heap.offsetFor (s.findOrInsert fd .write).1 (opt.bind (·.offset))
  have hbase := (hfind.trans hstore).trans hoffset
  cases buffer with
  | none => exact (hbase.prepare slot _ _).setUserData slot _
  | some buf =>
    unfold fillWrite
    cases isStream fd with
    | false => exact (hbase.prepare slot _ _).setUserData slot _
    | true =>
      have hmsg := hbase.trans (hbase.heap.getWriteMsghdr (s.findOrInsert fd .write).1)
      exact ((hmsg.setMsghdr _ buf cnt).prepare slot _ _).setUserData slot _

theorem Heap.storeReadCallback {fd : Fd} {a : Nat} {buffer : Option IovPtr} {cnt : Nat}
    (cb : Option Callback) (h : Heap I s) (hown : s.Owns fd.key .read a)
    (hI : ∀ user msghdr, cb = some user → I fd.key .read (some (.read user buffer cnt msghdr)))
    : Grows I s (s.storeReadCallback a fd buffer cnt cb) := by
  unfold IoUring.storeReadCallback
  cases cb with
  | none => exact Grows.refl h
  | some cb =>
    cases isStream fd with
    | false => exact h.setCallback hown (hI cb none rfl)
    | true =>
      have hmsg := h.getReadMsghdr a
      exact hmsg.trans (hmsg.heap.setCallback (hmsg.owns _ _ _ hown) (hI cb _ rfl))

theorem fillRead_grows {fd : Fd} {buffer : Option IovPtr} {cnt : Nat} {cb : Option Callback}
    {opt : Option ReadOptions} (slot : Nat) (h : Heap I s) (hnone : ∀ key kind, I key kind none)
    (hI : ∀ user msghdr, cb = some user → I fd.key .read (some (.read user buffer cnt msghdr)))
    : Grows I s (fillRead fd buffer cnt cb opt s slot) := by
  obtain ⟨hfind, hown⟩ := h.findOrInsert fd .read hnone
  have hstore := hfind.heap.storeReadCallback cb hown hI
  have hoffset := hstore.heap.offsetFor (s.findOrInsert fd .read).1 (opt.bind (·.offset))
  have hbase := (hfind.trans hstore).trans hoffset
  cases buffer with
  | none => exact (hbase.prepare slot _ _).setUserData slot _
  | some buf =>
    unfold fillRead
    cases isStream fd with
    | false => exact (hbase.prepare slot _ _).setUserData slot _
    | true =>
      have hmsg := hbase.trans (hbase.heap.getReadMsghdr (s.findOrInsert fd .read).1)
      exact ((hmsg.setMsghdr _ buf cnt).prepare slot _ _).setUserData slot _

theorem fillReadGroup_grows {fd : Fd} {group : Nat} {cb : Option Callback} {detail : Bool}
    (slot : Nat) (h : Heap I s) (hnone : ∀ key kind, I key kind none)
    (hI : ∀ user msghdr detail, I fd.key .read (some (.readGroup user msghdr detail)))
    : Grows I s (fillReadGroup fd group cb detail s slot) := by
  obtain ⟨hfind, hown⟩ := h.findOrInsert fd .read hnone
  have hstore : Grows I s
      ((s.findOrInsert fd .read).2.storeGroupCallback (s.findOrInsert fd .read).1 cb detail).2 := by
    cases cb with
    | none => exact hfind
    | some cb =>
      have hmsg := hfind.heap.getReadMsghdr (s.findOrInsert fd .read).1
      exact (hfind.trans hmsg).trans
        (hmsg.heap.setCallback (hmsg.owns _ _ _ hown) (hI cb _ detail))
  have hkeep := hstore.trans (hstore.heap.keep (s.findOrInsert fd .read).1
    (f := fun act => { act with resubmitMultishotFunc := some ⟨fd.num, group,
      ((s.findOrInsert fd .read).2.storeGroupCallback (s.findOrInsert fd .read).1 cb detail).1,
      detail⟩ })
    fun _ => rfl)
  exact (hkeep.prepare slot _ _).setUserData slot _

theorem fillAccept_grows {fd : Fd} {addr : Nat} {cb : Option Callback} (slot : Nat) (h : Heap I s)
    (hnone : ∀ key kind, I key kind none)
    (hI : ∀ user addr, I fd.key .read (some (.accept user addr)))
    : Grows I s (fillAccept fd addr cb s slot) := by
  obtain ⟨hfind, hown⟩ := h.findOrInsert fd .read hnone
  have hkeep := hfind.heap.keep (s.findOrInsert fd .read).1
    (f := fun act => { act with addrBuffer := some addr }) fun _ => rfl
  have hprepared := (hkeep.prepare slot (some (s.findOrInsert fd .read).1) fun sqe origin =>
    prepareAcceptMultishot sqe origin fd.num addr 0).setUserData slot (s.findOrInsert fd .read).1
  refine (hfind.trans hprepared).trans
    (hprepared.heap.storeCallback _ (hprepared.owns _ _ _ hown) ?_)
  intro cb' hcb
  cases cb with
  | none => cases hcb
  | some cb =>
    cases hcb
    exact hI cb addr

theorem cancelAsync_grows {fd : Fd} {kind : Kind} {cb : ActionCallback}
    (f : Sqe → Origin → Nat → Sqe) (h : Heap I s) (hnone : ∀ key kind, I key kind none)
    (hI : I fd.key kind (some cb))
    : Grows I s (s.cancelAsync fd kind cb f).2 := by
  unfold cancelAsync
  split
  . exact Grows.refl h
  . cases hinfo : s.fdToEventInfo fd.key with
    | none => exact Grows.refl h
    | some info =>
      have howns : ∀ kind a, info.get kind = some a ↔ s.Owns fd.key kind a := by
        intro kind a
        simp [Owns, hinfo]
      obtain ⟨hget, hown⟩ := h.getCompleteAction fd kind howns hnone
      have hset := hget.trans (hget.heap.setCallback hown hI)
      exact hset.trans (Grows.withSqe true hset.heap fun s' slot h' =>
        (Grows.refl h').prepare slot _ _)

theorem SameHeap.withSqe {fill : IoUring → Nat → IoUring} (isSubmit : Bool)
    (hfill : ∀ s slot, SameHeap s (fill s slot))
    : SameHeap s (s.withSqe isSubmit fill).2 := by
  unfold IoUring.withSqe
  rw [getIoUringSqe_eq]
  cases s.ring.getIoUringSqe s.msghdrs with
  | mk slot w =>
    cases slot with
    | none => exact ⟨rfl, rfl, rfl, rfl⟩
    | some slot =>
      obtain ⟨hactions, hnext, hinfo, htimer⟩ := hfill { s with ring := w } slot
      cases isSubmit with
      | false => exact ⟨hactions, hnext, hinfo, htimer⟩
      | true => exact ⟨hactions, hnext, hinfo, htimer⟩

theorem submitTimeout_same (s : IoUring) (intervalS intervalNs action : Nat)
    : SameHeap s (s.submitTimeout intervalS intervalNs action).2 :=
  SameHeap.withSqe true fun _ _ => ⟨rfl, rfl, rfl, rfl⟩

theorem Heap.free {a : Nat} (h : Heap I s) (hfree : ∀ key kind, ¬s.Owns key kind a)
    : Heap I { s with actions := Function.update s.actions a none } := by
  refine ⟨?_, h.inj, h.timers⟩
  intro key kind b hown
  have hne : b ≠ a := by
    intro heq
    rw [heq] at hown
    exact hfree key kind hown
  dsimp only
  rw [Function.update_of_ne hne]
  exact h.alive key kind b hown

theorem Heap.addTimer {t a : Nat} (h : Heap I s) (hlt : a < s.nextAction)
    (hfree : ∀ key kind, ¬s.Owns key kind a)
    : Heap I { s with idToTimer := Function.update s.idToTimer t (some a) } := by
  refine ⟨h.alive, h.inj, ?_⟩
  intro t' b htimer
  dsimp only at htimer
  by_cases heq : t' = t
  . rw [heq, Function.update_self, Option.some.injEq] at htimer
    rw [← htimer]
    exact ⟨hlt, hfree⟩
  . rw [Function.update_of_ne heq] at htimer
    exact h.timers t' b htimer

theorem Heap.storeTimer {a : Nat} (h : Heap I s) (hlt : a < s.nextAction)
    (hfree : ∀ key kind, ¬s.Owns key kind a)
    : Grows I s (s.storeTimer a) := by
  refine ⟨?_, fun _ _ _ hown => hown⟩
  unfold IoUring.storeTimer
  cases hold : s.idToTimer s.timerId with
  | none => exact (h.addTimer hlt hfree).same ⟨rfl, rfl, rfl, rfl⟩
  | some replaced =>
    have hfreed := h.free (h.timers _ _ hold).2
    exact (hfreed.addTimer (t := s.timerId) hlt hfree).same ⟨rfl, rfl, rfl, rfl⟩

theorem createTimer_of_valid {intervalS intervalNs : Nat} (cb : Callback)
    (hsome : ¬(intervalS = 0 ∧ intervalNs = 0))
    : s.createTimer intervalS intervalNs (some cb)
        =
      let r := (s.newAction { callback := some (.timer cb intervalS intervalNs) }).2.submitTimeout
        intervalS intervalNs s.nextAction
      if r.1 = 0 then
        (toInt32 r.2.timerId, r.2.storeTimer s.nextAction)
      else
        (-1, { r.2 with actions := Function.update r.2.actions s.nextAction none }) := by
  unfold createTimer
  dsimp only
  rw [if_neg hsome]
  rfl

theorem createTimer_grows (h : Heap I s) (intervalS intervalNs : Nat) (cb : Option Callback)
    : Grows I s (s.createTimer intervalS intervalNs cb).2 := by
  cases cb with
  | none => exact Grows.refl h
  | some cb =>
    by_cases hsome : intervalS = 0 ∧ intervalNs = 0
    . unfold createTimer
      dsimp only
      rw [if_pos hsome]
      exact Grows.refl h
    . obtain ⟨hnew, hfree⟩ := h.newAction { callback := some (.timer cb intervalS intervalNs) }
      have hsame := submitTimeout_same
        (s.newAction { callback := some (.timer cb intervalS intervalNs) }).2 intervalS intervalNs
        s.nextAction
      have hlt : s.nextAction
          < (s.newAction { callback := some (.timer cb intervalS intervalNs) }).2.nextAction :=
        Nat.lt_succ_self s.nextAction
      have hgrows := hnew.same hsame
      have hfree' := fun key kind hown => hfree key kind ((hsame.owns key kind _).mp hown)
      rw [← hsame.nextAction] at hlt
      rw [createTimer_of_valid cb hsome]
      dsimp only
      generalize (s.newAction { callback := some (.timer cb intervalS intervalNs) }).2.submitTimeout
        intervalS intervalNs s.nextAction = r at hgrows hfree' hlt ⊢
      by_cases hzero : r.1 = 0
      . rw [if_pos hzero]
        exact hgrows.trans (hgrows.heap.storeTimer hlt hfree')
      . rw [if_neg hzero]
        exact ⟨hgrows.heap.free hfree', hgrows.owns⟩

theorem Heap.eraseTimer {t a : Nat} (h : Heap I s) (hfree : ∀ key kind, ¬s.Owns key kind a)
    : Grows I s (s.eraseTimer t a) := by
  have hfreed := h.free hfree
  refine ⟨⟨hfreed.alive, hfreed.inj, ?_⟩, fun _ _ _ hown => hown⟩
  intro t' b htimer
  unfold IoUring.eraseTimer at htimer
  dsimp only at htimer
  by_cases heq : t' = t
  . rw [heq, Function.update_self] at htimer
    cases htimer
  . rw [Function.update_of_ne heq] at htimer
    exact h.timers t' b htimer

theorem closeTimer_grows (h : Heap I s) (timerId : Nat) : Grows I s (s.closeTimer timerId).2 := by
  unfold closeTimer
  cases htimer : s.idToTimer timerId with
  | none => exact Grows.refl h
  | some a =>
    have hfree := (h.timers timerId a htimer).2
    have hclear := h.modify a (fun act => { act with callback := none }) (by
      intro key kind act hown
      exact absurd hown (hfree key kind))
    dsimp only
    split
    . have hsame : SameHeap _ ((s.modifyAction a fun act => { act with callback := none }).withSqe
          true fun s slot => s.prepare slot none fun sqe origin => prepareCancel sqe origin a 0).2 :=
        SameHeap.withSqe true fun _ _ => ⟨rfl, rfl, rfl, rfl⟩
      have hsqe := hclear.same hsame
      split
      . exact hsqe.trans (hsqe.heap.eraseTimer fun key kind hown =>
          hfree key kind ((hsame.owns key kind a).mp hown))
      . exact hsqe
    . exact hclear.trans (hclear.heap.eraseTimer hfree)

theorem addBlocks_same (s : IoUring) (br blockSize mask : Nat) (i : Nat) (addrs : List Nat)
    : SameHeap s (s.addBlocks br blockSize mask i addrs) := by
  induction addrs generalizing s i with
  | nil => exact ⟨rfl, rfl, rfl, rfl⟩
  | cons addr addrs ih =>
    unfold addBlocks
    exact ⟨(ih _ _).actions, (ih _ _).nextAction, (ih _ _).fdToEventInfo, (ih _ _).idToTimer⟩

theorem registerRingBuffer_same (s : IoUring) (blockSize blockCount : Nat) (setup : Bool)
    (addrs : List Nat)
    : SameHeap s (s.registerRingBuffer blockSize blockCount setup addrs).2 := by
  unfold registerRingBuffer
  split
  . exact ⟨rfl, rfl, rfl, rfl⟩
  . dsimp only
    split
    . exact ⟨rfl, rfl, rfl, rfl⟩
    . split
      . exact ⟨rfl, rfl, rfl, rfl⟩
      . exact ⟨(addBlocks_same _ _ _ _ _ _).actions, (addBlocks_same _ _ _ _ _ _).nextAction,
          (addBlocks_same _ _ _ _ _ _).fdToEventInfo, (addBlocks_same _ _ _ _ _ _).idToTimer⟩

theorem unregisterRingBuffer_same (s : IoUring) (group : Nat) (freed : Bool)
    : SameHeap s (s.unregisterRingBuffer group freed).2 := by
  unfold unregisterRingBuffer
  repeat' split
  all_goals exact ⟨rfl, rfl, rfl, rfl⟩

theorem submit_same (s : IoUring) : SameHeap s s.submit.2 := by
  unfold submit
  split
  . exact ⟨rfl, rfl, rfl, rfl⟩
  . exact ⟨rfl, rfl, rfl, rfl⟩

theorem run_grows {op : Op} (h : Heap I s) (hnone : ∀ key kind, I key kind none)
    (hI : ∀ key kind cb, op.Stores key kind cb → I key kind (some cb))
    : Grows I s (s.run op).2 := by
  cases op with
  | submitAsyncRead fd buffer cnt cb opt =>
    unfold run submitAsyncRead
    dsimp only
    split
    . exact Grows.refl h
    . exact Grows.withSqe _ h fun s' slot h' => fillRead_grows slot h' hnone
        fun user msghdr hcb => hI _ _ _ ⟨rfl, rfl, user, msghdr, hcb, rfl⟩
  | submitAsyncReadGroup fd group cb opt =>
    unfold run submitAsyncReadGroup
    dsimp only
    split
    . exact Grows.refl h
    . exact Grows.withSqe _ h fun s' slot h' => fillReadGroup_grows slot h' hnone
        fun user msghdr detail => hI _ _ _ ⟨rfl, rfl, user, msghdr, detail, rfl⟩
  | submitAsyncWrite fd buffer cnt cb opt =>
    unfold run submitAsyncWrite
    dsimp only
    split
    . exact Grows.refl h
    . exact Grows.withSqe _ h fun s' slot h' => fillWrite_grows slot h' hnone fun user =>
        hI _ _ _ ⟨rfl, rfl, user, rfl⟩
  | submitAsyncAccept fd addr cb =>
    unfold run submitAsyncAccept
    dsimp only
    split
    . exact Grows.refl h
    . split
      . exact Grows.refl h
      . exact Grows.withSqe _ h fun s' slot h' => fillAccept_grows slot h' hnone fun user addr =>
          hI _ _ _ ⟨rfl, rfl, user, addr, rfl⟩
  | cancelAsyncRead fd cb =>
    unfold run cancelAsyncRead
    exact cancelAsync_grows _ h hnone (hI _ _ _ ⟨rfl, rfl, cb, rfl⟩)
  | cancelAsyncWrite fd cb =>
    unfold run cancelAsyncWrite
    exact cancelAsync_grows _ h hnone (hI _ _ _ ⟨rfl, rfl, cb, rfl⟩)
  | cancelAsyncAccept fd cb =>
    unfold run cancelAsyncAccept
    exact cancelAsync_grows _ h hnone (hI _ _ _ ⟨rfl, rfl, cb, rfl⟩)
  | createTimer intervalS intervalNs cb => exact createTimer_grows h intervalS intervalNs cb
  | closeTimer timerId => exact closeTimer_grows h timerId
  | submit => exact (Grows.refl h).same (submit_same s)
  | registerRingBuffer blockSize blockCount setup addrs =>
    exact (Grows.refl h).same (registerRingBuffer_same s blockSize blockCount setup addrs)
  | unregisterRingBuffer group freed =>
    exact (Grows.refl h).same (unregisterRingBuffer_same s group freed)

end IoUring

namespace World

open IoUring

variable {I : Nat → Kind → Option ActionCallback → Prop} {w w' : World}

theorem rearm_same {s s' : IoUring} {action : Nat} {cb : ActionCallback}
    (h : rearm s action cb = .ok s')
    : SameHeap s s' := by
  unfold rearm at h
  split at h
  . next intervalS intervalNs =>
    split at h
    . cases h
      exact ⟨rfl, rfl, rfl, rfl⟩
    . have hsame := submitTimeout_same s intervalS intervalNs action
      dsimp only at h
      split at h
      . cases h
        exact ⟨hsame.actions, hsame.nextAction, hsame.fdToEventInfo, hsame.idToTimer⟩
      . cases h
  . cases h
    exact ⟨rfl, rfl, rfl, rfl⟩

theorem completeCallback_grows {cqe : Cqe} {a : CompleteAction} (hheap : Heap I w.uring)
    (h : w.completeCallback cqe a = .ok w')
    : Grows I w.uring w'.uring := by
  unfold completeCallback at h
  split at h
  . cases h
    exact Grows.refl hheap
  . obtain ⟨s', hrearm, h⟩ := Except.bind_eq_ok h
    have hmodify := hheap.keep cqe.userData
      (f := fun act => if 0 < cqe.res ∧ act.isOffsetEnabled
        then { act with offset := act.offset + cqe.res.toNat } else act) (by
      intro act
      split
      . rfl
      . rfl)
    have hgrows := hmodify.same (rearm_same hrearm)
    split at h
    . cases h
      exact hgrows
    . split at h
      . cases h
        exact hgrows
      . cases h

theorem next_grows {i ret : Nat} (hheap : Heap I w.uring) (h : w.next i ret = .ok w')
    : Grows I w.uring w'.uring := by
  unfold next at h
  dsimp only at h
  split at h
  . cases h
    exact Grows.refl hheap
  . split at h
    . cases h
    . obtain ⟨called, _, h⟩ := Except.bind_eq_ok h
      cases called with
      | false =>
        cases h
        exact Grows.refl hheap
      | true =>
        obtain ⟨w₁, hcall, h⟩ := Except.bind_eq_ok h
        cases h
        have hgrows := completeCallback_grows
          (w := { w with processed := w.processed ++ [w.uring.ring.getCqe i] }) hheap hcall
        exact hgrows

theorem giveBack_same (s : IoUring) (cqe : Cqe) : SameHeap s (giveBack s cqe) := by
  unfold giveBack
  split
  . exact ⟨rfl, rfl, rfl, rfl⟩
  . split
    . exact ⟨rfl, rfl, rfl, rfl⟩
    . exact ⟨rfl, rfl, rfl, rfl⟩

theorem resubmitMultishot_same {s s' : IoUring} {action : Nat}
    (h : s.resubmitMultishot action = .ok s')
    : SameHeap s s' := by
  unfold resubmitMultishot at h
  split at h
  . cases h
  . split at h
    . cases h
      exact ⟨rfl, rfl, rfl, rfl⟩
    . next r _ =>
      split at h
      . cases h
      . cases h
        have hsame : SameHeap s
            (s.withSqe true fun s slot => s.prepareShot slot (some action) r).2 :=
          SameHeap.withSqe true fun _ _ => ⟨rfl, rfl, rfl, rfl⟩
        exact ⟨hsame.actions, hsame.nextAction, hsame.fdToEventInfo, hsame.idToTimer⟩

theorem finish_grows {i ret : Nat} {cqe : Cqe} {called : Bool} (hheap : Heap I w.uring)
    (h : w.finish i ret cqe called = .ok w')
    : Grows I w.uring w'.uring := by
  unfold finish at h
  dsimp only at h
  have hgive : Grows I w.uring (if called then giveBack w.uring cqe else w.uring) := by
    split
    . exact (Grows.refl hheap).same (giveBack_same w.uring cqe)
    . exact Grows.refl hheap
  split at h
  . split at h
    . cases h
    split at h
    . cases h
      exact hgive
    . obtain ⟨s', hresubmit, h⟩ := Except.bind_eq_ok h
      cases h
      exact hgive.same (resubmitMultishot_same hresubmit)
  . cases h
    exact Grows.refl hheap

theorem step_grows {st : Step} (hheap : Heap I w.uring) (hnone : ∀ key kind, I key kind none)
    (hI : ∀ op, st = .op op → ∀ key kind cb, op.Stores key kind cb → I key kind (some cb))
    : Grows I w.uring (w.step st).uring := by
  have hrefl := Grows.refl hheap
  unfold step
  split
  . exact hrefl
  . split
    . next w' htry =>
      cases tryStep_tries htry with
      | idle => exact hrefl
      | called op => exact (run_grows hheap hnone (hI op rfl)).same ⟨rfl, rfl, rfl, rfl⟩
      | posted => exact hrefl.same ⟨rfl, rfl, rfl, rfl⟩
      | waited => exact hrefl
      | taken _ _ hnext => exact next_grows hheap hnext
      | finished _ hfinish => exact finish_grows hheap hfinish
      | consumed => exact hrefl.same ⟨rfl, rfl, rfl, rfl⟩
    . exact hrefl

end World

theorem IoUring.Heap.init {I : Nat → Kind → Option ActionCallback → Prop}
    (hasTimeoutMultishot : Bool) (ring : Wrapper)
    : Heap I (IoUring.init hasTimeoutMultishot ring) := by
  have hfree : ∀ key kind a, ¬(IoUring.init hasTimeoutMultishot ring).Owns key kind a := by
    intro key kind a hown
    obtain ⟨info, hinfo, _⟩ := hown
    cases hinfo
  refine ⟨?_, ?_, ?_⟩
  . intro key kind a hown
    exact absurd hown (hfree key kind a)
  . intro key kind key' kind' a hown
    exact absurd hown (hfree key kind a)
  . intro t a htimer
    cases htimer

end Uring
end Event
end Ezio
