import Ezio.Event.IoUring.Lemmas.ReadAction

/-!
This module contains the offsets at which a file is read. A read takes the one that its `complete_action`
holds when the entry is filled in, and a completion moves that on when it is handed to the callback.
-/

namespace Ezio
namespace Event
namespace Uring

open IoUring

-- The bytes that an entry asks for, a poll asks for none.
def Sqe.requested (q : Sqe) : Nat :=
  match q.addr with
  | .iov p => ((p.iov.take q.len).map (·.len)).sum
  | _ => 0

-- A `complete_action` with which a file has been read up to `offset`.
structure CompleteAction.ReadTo (a : CompleteAction) (offset : Nat) : Prop where
  enabled : a.isOffsetEnabled = true
  cursor : a.offset = offset
  callback : a.callback = none ∨ ∃ user buffer cnt, a.callback = some (.read user buffer cnt none)

namespace IoUring

-- The offset that the next read of the file descriptor takes.
def readOffset (s : IoUring) (key : Nat) : Nat :=
  match s.readAction key with
  | none => 0
  | some a => (s.action a).offset

variable {k : Nat} {hist : List Sqe} {s : IoUring} {fd : Fd}

-- An operation that gets a slot fills it in, the entry becomes the last one.
theorem withSqe_entered {F : IoUring → (Sqe → Sqe) → Prop} {fill : IoUring → Nat → IoUring}
    (isSubmit : Bool) (hfill : FillsBy F fill) (hring : ∀ s ring f, F { s with ring } f → F s f)
    (ht : Tracks k s.ring hist) (hroom : s.ring.sq.getSqe.1 ≠ none)
    : ∃ ring slot f, SameHeap (fill { s with ring } slot) (s.withSqe isSubmit fill).2 ∧ F s f
        ∧ Tracks k (s.withSqe isSubmit fill).2.ring (hist ++ [f (initializeSqe s.ring.nextSqe)]) := by
  obtain ⟨slot, hslot⟩ := Option.ne_none_iff_exists'.mp hroom
  have hget : s.ring.getIoUringSqe s.msghdrs = (some slot, { s.ring with sq := s.ring.sq.getSqe.2 }) := by
    unfold Wrapper.getIoUringSqe Wrapper.getSqe
    dsimp only
    rw [hslot]
  obtain ⟨_, _, _, f, hfilled, hF⟩ := hfill { s with ring := { s.ring with sq := s.ring.sq.getSqe.2 } } slot
  obtain ⟨_, ht'⟩ := ht.fill hget f
  rw [← hfilled] at ht'
  refine ⟨{ s.ring with sq := s.ring.sq.getSqe.2 }, slot, f, ?_, hring s _ f hF, ?_⟩
  . unfold withSqe
    rw [getIoUringSqe_eq, hget]
    cases isSubmit with
    | false => exact ⟨rfl, rfl, rfl, rfl⟩
    | true => exact ⟨rfl, rfl, rfl, rfl⟩
  . unfold withSqe
    rw [getIoUringSqe_eq, hget]
    cases isSubmit with
    | false => exact ht'
    | true => exact ht'.submit _

theorem makeAction_read (hfile : fd.type = .file) : makeAction .read fd = {} := by
  unfold makeAction
  rw [hfile]
  rfl

-- The `complete_action` of the reads, it is made if there is none yet.
theorem findOrInsert_read (hfile : fd.type = .file)
    : (s.findOrInsert fd .read).1 = (s.readAction fd.key).getD s.nextAction
        ∧ ((s.findOrInsert fd .read).2.actions (s.findOrInsert fd .read).1)
          = match s.readAction fd.key with
            | none => some {}
            | some a => s.actions a := by
  unfold findOrInsert getCompleteAction readAction
  cases hinfo : s.fdToEventInfo fd.key with
  | none =>
    dsimp only [IouringEventInfo.get]
    refine ⟨rfl, ?_⟩
    unfold newAction
    dsimp only [Option.bind_none]
    rw [Function.update_self, makeAction_read hfile]
  | some info =>
    rw [Option.bind_some]
    dsimp only [IouringEventInfo.get]
    cases hread : info.readCompleteAction with
    | none =>
      refine ⟨rfl, ?_⟩
      unfold newAction
      dsimp only
      rw [Function.update_self, makeAction_read hfile]
    | some a => exact ⟨rfl, rfl⟩

theorem findOrInsert_read_offset (hfile : fd.type = .file)
    : ((s.findOrInsert fd .read).2.action (s.findOrInsert fd .read).1).offset = s.readOffset fd.key := by
  unfold action readOffset
  rw [(findOrInsert_read hfile).2]
  cases s.readAction fd.key with
  | none => rfl
  | some a => rfl

-- A read without an offset of its own takes the one that its `complete_action` holds.
def TakesOffset (fd : Fd) (s : IoUring) (f : Sqe → Sqe) : Prop :=
  ∀ q, (f q).userData = (s.readAction fd.key).getD s.nextAction
    ∧ ((f q).requested = 0 ∨ (f q).off = s.readOffset fd.key)

theorem isStream_file (hfile : fd.type = .file) : isStream fd = false := by
  unfold isStream
  rw [hfile]
  rfl

variable {opt : Option ReadOptions}

theorem storeReadCallback_file (hfile : fd.type = .file) (s : IoUring) (a : Nat) (buffer : Option IovPtr)
    (cnt : Nat) (cb : Option Callback)
    : (s.storeReadCallback a fd buffer cnt cb)
        =
      match cb with
      | none => s
      | some cb => s.setCallback a (.read cb buffer cnt none) := by
  unfold storeReadCallback
  rw [isStream_file hfile]
  rfl

theorem storeReadCallback_offset (hfile : fd.type = .file) (s : IoUring) (a : Nat)
    (buffer : Option IovPtr) (cnt : Nat) (cb : Option Callback)
    : ((s.storeReadCallback a fd buffer cnt cb).action a).offset = (s.action a).offset := by
  rw [storeReadCallback_file hfile]
  cases cb with
  | none => rfl
  | some cb =>
    unfold action setCallback modifyAction
    dsimp only
    rw [Function.update_self]
    cases s.actions a with
    | none => rfl
    | some act => rfl

theorem fillRead_file (hfile : fd.type = .file) (hopt : opt.bind (·.offset) = none)
    (buffer : Option IovPtr) (cnt : Nat) (cb : Option Callback) (s : IoUring) (slot : Nat)
    : ∃ f : Sqe → Origin → Sqe, fillRead fd buffer cnt cb opt s slot
        =
      (((s.findOrInsert fd .read).2.storeReadCallback (s.findOrInsert fd .read).1 fd buffer cnt
          cb).prepare slot (some (s.findOrInsert fd .read).1) f).setUserData slot
        (s.findOrInsert fd .read).1
      ∧ ∀ q origin, (f q origin).requested = 0 ∨ (f q origin).off = s.readOffset fd.key := by
  have hoffset := (storeReadCallback_offset hfile (s.findOrInsert fd .read).2
    (s.findOrInsert fd .read).1 buffer cnt cb).trans (findOrInsert_read_offset hfile)
  unfold fillRead offsetFor
  rw [hopt]
  cases buffer with
  | none => exact ⟨_, rfl, fun _ _ => .inl rfl⟩
  | some buf =>
    rw [isStream_file hfile]
    exact ⟨_, rfl, fun _ _ => .inr hoffset⟩

theorem fillRead_takesOffset (hfile : fd.type = .file) (hopt : opt.bind (·.offset) = none)
    (buffer : Option IovPtr) (cnt : Nat) (cb : Option Callback)
    : FillsBy (TakesOffset fd) (fillRead fd buffer cnt cb opt) := by
  intro s slot
  obtain ⟨hcalls, hinited, hbuffers, _⟩ := fillRead_fills fd buffer cnt cb opt s slot
  refine ⟨hcalls, hinited, hbuffers, ?_⟩
  have hrest := (Rest.findOrInsert (s := s) fd .read).trans
    (Rest.storeReadCallback (s.findOrInsert fd .read).1 fd buffer cnt cb)
  obtain ⟨f, heq, hoff⟩ := fillRead_file hfile hopt buffer cnt cb s slot
  rw [heq, prepare_setUserData_ring, hrest.ring]
  exact ⟨_, rfl, fun q => ⟨(findOrInsert_read hfile).1, hoff q _⟩⟩

-- The `complete_action` stays where it is, it may hold another callback.
theorem fillRead_readTo {offset : Nat} (hfile : fd.type = .file) (hopt : opt.bind (·.offset) = none)
    (buffer : Option IovPtr) (cnt : Nat) (cb : Option Callback) (s : IoUring) (slot : Nat)
    (hcursor : ∀ a, s.readAction fd.key = some a
      → ∃ act, s.actions a = some act ∧ act.ReadTo offset)
    (hnew : s.readAction fd.key = none → offset = 0)
    : ∃ act, (fillRead fd buffer cnt cb opt s slot).actions ((s.readAction fd.key).getD s.nextAction)
        = some act ∧ act.ReadTo offset := by
  obtain ⟨f, heq, _⟩ := fillRead_file hfile hopt buffer cnt cb s slot
  obtain ⟨haction, hact⟩ := findOrInsert_read (s := s) hfile
  have hfound : ∃ act, (s.findOrInsert fd .read).2.actions (s.findOrInsert fd .read).1 = some act
      ∧ act.ReadTo offset := by
    rw [hact]
    cases hread : s.readAction fd.key with
    | none => exact ⟨{}, rfl, rfl, (hnew hread).symm, .inl rfl⟩
    | some a => exact hcursor a hread
  obtain ⟨act, hact', hreadTo⟩ := hfound
  rw [heq, ← haction]
  unfold setUserData prepare
  dsimp only
  rw [storeReadCallback_file hfile]
  cases cb with
  | none => exact ⟨act, hact', hreadTo⟩
  | some cb =>
    refine ⟨{ act with callback := some (.read cb buffer cnt none) }, ?_, hreadTo.enabled,
      hreadTo.cursor, .inr ⟨cb, buffer, cnt, rfl⟩⟩
    unfold setCallback modifyAction
    dsimp only
    rw [Function.update_self, hact']
    rfl

-- A read that gets an entry leaves the cursor where it is.
theorem submitAsyncRead_entered {offset : Nat} {buffer : Option IovPtr} {cnt : Nat}
    (cb : Option Callback) (hfile : fd.type = .file) (hopt : opt.bind (·.offset) = none)
    (hvalid : s.isReadValid fd buffer cnt) (ht : Tracks k s.ring hist)
    (hroom : s.ring.sq.getSqe.1 ≠ none)
    (hcursor : ∀ a, s.readAction fd.key = some a → ∃ act, s.actions a = some act ∧ act.ReadTo offset)
    (hnew : s.readAction fd.key = none → offset = 0)
    : ∃ (q : Sqe) (a : Nat) (act : CompleteAction),
      Tracks k (s.submitAsyncRead fd buffer cnt cb opt).2.ring (hist ++ [q])
        ∧ a = (s.readAction fd.key).getD s.nextAction ∧ q.userData = a
        ∧ (q.requested = 0 ∨ q.off = offset)
        ∧ (s.submitAsyncRead fd buffer cnt cb opt).2.readAction fd.key = some a
        ∧ (s.submitAsyncRead fd buffer cnt cb opt).2.actions a = some act ∧ act.ReadTo offset := by
  have howns : (s.submitAsyncRead fd buffer cnt cb opt).2.Owns fd.key .read _ :=
    submitAsyncRead_owns hroom hvalid
  have hoffset : s.readOffset fd.key = offset := by
    unfold readOffset
    cases hread : s.readAction fd.key with
    | none => exact (hnew hread).symm
    | some a =>
      obtain ⟨act, hact, hreadTo⟩ := hcursor a hread
      unfold action
      dsimp only
      rw [hact]
      exact hreadTo.cursor
  rw [submitAsyncRead_of_valid hvalid] at howns ⊢
  obtain ⟨ring, slot, f, hsame, hf, ht'⟩ := withSqe_entered (opt.all (·.isSubmit))
    (fillRead_takesOffset hfile hopt buffer cnt cb) (fun _ _ _ h => h) ht hroom
  obtain ⟨act, hact, hreadTo⟩ := fillRead_readTo hfile hopt buffer cnt cb { s with ring } slot hcursor hnew
  obtain ⟨hdata, hoff⟩ := hf (initializeSqe s.ring.nextSqe)
  refine ⟨_, _, act, ht', rfl, hdata, ?_, ?_, ?_, hreadTo⟩
  . rw [← hoffset]
    exact hoff
  . rw [readAction_eq_some_iff, ← (findOrInsert_read hfile).1]
    exact howns
  . rw [hsame.actions]
    exact hact

-- A read that gets no entry has no effect on the `complete_action`s.
theorem submitAsyncRead_refused {buffer : Option IovPtr} {cnt : Nat} (cb : Option Callback)
    (opt : Option ReadOptions) (h : s.isReadValid fd buffer cnt → s.ring.sq.getSqe.1 = none)
    (ht : Tracks k s.ring hist)
    : SameHeap s (s.submitAsyncRead fd buffer cnt cb opt).2
        ∧ Tracks k (s.submitAsyncRead fd buffer cnt cb opt).2.ring hist := by
  by_cases hvalid : s.isReadValid fd buffer cnt
  . obtain ⟨head, queue, lag, hqueue, hbehind, hhist⟩ := ht
    have hfull : ¬queue.length < 2 ^ k := fun hroom => hqueue.getSqe_ne_none hroom (h hvalid)
    rw [submitAsyncRead_of_valid hvalid, withSqe_full hqueue hfull]
    exact ⟨⟨rfl, rfl, rfl, rfl⟩, Tracks.submit ⟨head, queue, lag, hqueue, hbehind, hhist⟩ _⟩
  . unfold isReadValid at hvalid
    rw [Bool.not_eq_true', Bool.not_eq_false] at hvalid
    unfold submitAsyncRead
    rw [if_pos hvalid]
    exact ⟨⟨rfl, rfl, rfl, rfl⟩, ht⟩

end IoUring

end Uring
end Event
end Ezio
