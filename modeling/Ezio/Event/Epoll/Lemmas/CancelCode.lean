import Ezio.Event.Epoll.Lemmas.Basic

/-!
This module contains what the return code of a cancel says about the state of the epoll backend that it leaves.
-/

namespace Ezio
namespace Event

inductive CancelKind where
  | read
  | write
  | accept
  deriving DecidableEq, Repr

namespace EventAction

-- Nothing of the reading side is left.
def ReadDisabled (a : EventAction) : Prop :=
  a.events.read = false ∧ a.readBufIdxCallback = none ∧ a.pendingReadTask = [] ∧ a.nonSubmitReadTask = []
    ∧ a.hasAcceptTask = false ∧ a.multishotReadTask = none

instance (a : EventAction) : Decidable a.ReadDisabled :=
  inferInstanceAs (Decidable (_ ∧ _))

def WriteDisabled (a : EventAction) : Prop :=
  a.events.write = false ∧ a.writeCallback = none ∧ a.pendingWriteTask = [] ∧ a.nonSubmitWriteTask = []

instance (a : EventAction) : Decidable a.WriteDisabled :=
  inferInstanceAs (Decidable (_ ∧ _))

variable {a a' : EventAction}

theorem disableWrite_disabled (a : EventAction) : a.disableWrite.WriteDisabled :=
  ⟨rfl, rfl, rfl, rfl⟩

theorem WriteDisabled.disableWrite (h : a.WriteDisabled) : a.disableWrite = a := by
  obtain ⟨_, ⟨_, _, _⟩⟩ := a
  obtain ⟨rfl, rfl, rfl, rfl⟩ := h
  rfl

theorem ReadDisabled.disableRead (h : a.ReadDisabled) : a.disableRead = .ok a := by
  obtain ⟨_, ⟨_, _, _⟩⟩ := a
  obtain ⟨rfl, rfl, rfl, rfl, rfl, rfl⟩ := h
  rfl

end EventAction

-- `disable_read` or `disable_write` has nothing left to do.
def CancelKind.Disabled (kind : CancelKind) (a : EventAction) : Prop :=
  match kind with
  | .write => a.WriteDisabled
  | .read | .accept => a.ReadDisabled

namespace Epoll

-- The end of each cancel, with the calls of the callback.
def finishCancel (cb : Option Callback) (s : Epoll) : Int × List (Callback × Int) × Epoll :=
  match cb with
  | none => (-1, [], s)
  | some cb => (0, [(cb, 0)], s)

-- The cancels with the calls of the callback that they make.
def cancelAsyncReadCalls (s : Epoll) (fd : Fd) (cb : Option Callback)
    : Except Fault (Int × List (Callback × Int) × Epoll) :=
  if !s.isInited || fd.num ≤ 0 then
    .ok (-1, [], s)
  else
    match s.fdToEventInfo fd.key with
    | none => .ok (-1, [], s)
    | some id =>
      if !(s.action id).isReading then
        .ok (-1, [], s)
      else do
        let s ← s.disableRead id
        return finishCancel cb (if (s.action id).isNoneEvt then s.pushToChangeList id else s)

def cancelAsyncWriteCalls (s : Epoll) (fd : Fd) (cb : Option Callback)
    : Except Fault (Int × List (Callback × Int) × Epoll) :=
  if !s.isInited || fd.num ≤ 0 then
    .ok (-1, [], s)
  else
    match s.fdToEventInfo fd.key with
    | none => .ok (-1, [], s)
    | some id => .ok (finishCancel cb (s.modifyAction id fun a => a.disableWrite))

def cancelAsyncAcceptCalls (s : Epoll) (listenFd : Fd) (cb : Option Callback)
    : Except Fault (Int × List (Callback × Int) × Epoll) :=
  if !s.isInited || listenFd.num < 0 then
    .ok (-1, [], s)
  else
    match s.fdToEventInfo listenFd.key with
    | none => .ok (-1, [], s)
    | some id => do
      let s ← s.disableRead id
      return finishCancel cb s

def cancelCalls (s : Epoll) (kind : CancelKind) (fd : Fd) (cb : Option Callback)
    : Except Fault (Int × List (Callback × Int) × Epoll) :=
  match kind with
  | .read => s.cancelAsyncReadCalls fd cb
  | .write => s.cancelAsyncWriteCalls fd cb
  | .accept => s.cancelAsyncAcceptCalls fd cb

-- The operation that makes the cancel.
def cancelOp (kind : CancelKind) (fd : Fd) (cb : Option Callback) : Op :=
  match kind with
  | .read => .cancelAsyncRead fd cb
  | .write => .cancelAsyncWrite fd cb
  | .accept => .cancelAsyncAccept fd cb

variable {s : Epoll} {kind : CancelKind} {fd : Fd} {cb : Option Callback}

theorem finishCancel_eq (cb : Option Callback) (s : Epoll)
    : finishCancel cb s = (if cb.isSome then 0 else -1, cb.toList.map (·, 0), s) := by
  cases cb <;> rfl

theorem cancelCalls_exec (s : Epoll) (kind : CancelKind) (fd : Fd) (cb : Option Callback)
    : (s.cancelCalls kind fd cb).map (fun r => (r.1, r.2.2)) = s.exec (cancelOp kind fd cb) := by
  cases kind with
  | read =>
    unfold cancelCalls cancelAsyncReadCalls cancelOp exec cancelAsyncRead
    dsimp only
    split
    . rfl
    . cases s.fdToEventInfo fd.key with
      | none => rfl
      | some id =>
        dsimp only
        split
        . rfl
        . cases s.disableRead id with
          | error f => rfl
          | ok s' => simp [finishCancel_eq, Except.map, bind, Except.bind, pure, Except.pure]
  | write =>
    unfold cancelCalls cancelAsyncWriteCalls cancelOp exec cancelAsyncWrite
    dsimp only
    split
    . rfl
    . cases s.fdToEventInfo fd.key with
      | none => rfl
      | some id => simp [finishCancel_eq, Except.map]
  | accept =>
    unfold cancelCalls cancelAsyncAcceptCalls cancelOp exec cancelAsyncAccept
    dsimp only
    split
    . rfl
    . cases s.fdToEventInfo fd.key with
      | none => rfl
      | some id =>
        dsimp only
        cases s.disableRead id with
        | error f => rfl
        | ok s' => simp [finishCancel_eq, Except.map, bind, Except.bind, pure, Except.pure]

-- The cancel does not pass the checks that are made before anything is changed.
def Refuses (s : Epoll) (kind : CancelKind) (fd : Fd) : Prop :=
  s.isInited = false ∨ (if kind = .accept then fd.num < 0 else fd.num ≤ 0)
    ∨ ∀ id ∈ s.fdToEventInfo fd.key, kind = .read ∧ (s.action id).isReading = false

variable {id : Nat} {s' : Epoll} {r : Int × List (Callback × Int) × Epoll}

theorem disableRead_disabled (h : s.disableRead id = .ok s')
    : s'.fdToEventInfo = s.fdToEventInfo ∧ (s'.action id).ReadDisabled := by
  obtain ⟨_, _, _, _, _, _, _, rfl⟩ := disableRead_eq_ok h
  refine ⟨rfl, ?_⟩
  simp only [action_def, setAction_def, modifyInfo_infos, if_true]
  exact ⟨rfl, rfl, rfl, rfl, rfl, rfl⟩

theorem disableRead_of_disabled (h : (s.action id).ReadDisabled) : s.disableRead id = .ok s := by
  have hclear : s.clearMultishotTask id = .ok s := by
    unfold clearMultishotTask
    rw [h.2.2.2.2.2]
  have hset : s.setAction id (s.action id) = s := by simp [modifyInfo]
  unfold disableRead
  rw [hclear]
  change (s.action id).disableRead >>= _ = _
  rw [h.disableRead]
  exact congrArg Except.ok hset

-- The cancel has passed its checks and leaves `s'`.
structure Disables (kind : CancelKind) (id : Nat) (s s' : Epoll) : Prop where
  fdToEventInfo : s'.fdToEventInfo = s.fdToEventInfo
  disabled : kind.Disabled (s'.action id)
  unchanged : kind.Disabled (s.action id) → s' = s

theorem cancelCalls_of_refuses (h : s.Refuses kind fd) (cb : Option Callback)
    : s.cancelCalls kind fd cb = .ok (-1, [], s) := by
  unfold Refuses at h
  cases hid : s.fdToEventInfo fd.key with
  | none =>
    cases kind with
    | read => simp [cancelCalls, cancelAsyncReadCalls, hid]
    | write => simp [cancelCalls, cancelAsyncWriteCalls, hid]
    | accept => simp [cancelCalls, cancelAsyncAcceptCalls, hid]
  | some id =>
    rcases h with hinited | hnum | hknown
    . cases kind with
      | read => simp [cancelCalls, cancelAsyncReadCalls, hinited]
      | write => simp [cancelCalls, cancelAsyncWriteCalls, hinited]
      | accept => simp [cancelCalls, cancelAsyncAcceptCalls, hinited]
    . cases kind with
      | read => simp [cancelCalls, cancelAsyncReadCalls, show fd.num ≤ 0 from hnum]
      | write => simp [cancelCalls, cancelAsyncWriteCalls, show fd.num ≤ 0 from hnum]
      | accept => simp [cancelCalls, cancelAsyncAcceptCalls, show fd.num < 0 from hnum]
    . obtain ⟨rfl, hreading⟩ := hknown id hid
      rw [action_def] at hreading
      simp [cancelCalls, cancelAsyncReadCalls, hid, hreading]

theorem cancelCalls_cases (h : s.cancelCalls kind fd cb = .ok r) (haccepts : ¬s.Refuses kind fd)
    : ∃ id s', s.fdToEventInfo fd.key = some id ∧ Disables kind id s s' ∧ r = finishCancel cb s' := by
  unfold Refuses at haccepts
  simp only [not_or, Bool.not_eq_false] at haccepts
  obtain ⟨hinited, hnum, hknown⟩ := haccepts
  cases hid : s.fdToEventInfo fd.key with
  | none => exact absurd (by simp [hid]) hknown
  | some id =>
    cases kind with
    | read =>
      have hreading : (s.action id).isReading := by
        by_contra hreading
        exact hknown fun j hj => ⟨rfl, by cases hid.symm.trans hj; simpa using hreading⟩
      have hnum' : ¬fd.num ≤ 0 := hnum
      simp only [cancelCalls, cancelAsyncReadCalls, hinited, hnum', hid, hreading, Bool.not_true, Bool.or_self,
        decide_false, if_neg Bool.false_ne_true] at h
      obtain ⟨s₁, hdisable, h⟩ := Except.bind_eq_ok h
      cases h
      obtain ⟨hfds, hdisabled⟩ := disableRead_disabled hdisable
      refine ⟨id, _, rfl, ⟨?_, ?_, ?_⟩, rfl⟩
      . split
        . rw [← hfds]
          unfold pushToChangeList
          split <;> rfl
        . exact hfds
      . split
        . unfold pushToChangeList
          split
          . exact hdisabled
          . simpa [CancelKind.Disabled, EventAction.ReadDisabled] using hdisabled
        . exact hdisabled
      . intro hnone
        exact absurd hnone.1 (by simpa [EventAction.isReading] using hreading)
    | write =>
      have hnum' : ¬fd.num ≤ 0 := hnum
      simp only [cancelCalls, cancelAsyncWriteCalls, hinited, hnum', hid, Bool.not_true, Bool.or_self, decide_false,
        if_neg Bool.false_ne_true] at h
      cases h
      refine ⟨id, s.modifyAction id fun a => a.disableWrite, rfl, ⟨rfl, ?_, ?_⟩, rfl⟩
      . simpa [CancelKind.Disabled] using EventAction.disableWrite_disabled (s.infos id).action
      . intro hnone
        have hsame : (s.infos id).action.disableWrite = (s.infos id).action := hnone.disableWrite
        simp [modifyInfo, hsame]
    | accept =>
      have hnum' : ¬fd.num < 0 := hnum
      simp only [cancelCalls, cancelAsyncAcceptCalls, hinited, hnum', hid, Bool.not_true, Bool.or_self, decide_false,
        if_neg Bool.false_ne_true] at h
      obtain ⟨s₁, hdisable, h⟩ := Except.bind_eq_ok h
      cases h
      obtain ⟨hfds, hdisabled⟩ := disableRead_disabled hdisable
      refine ⟨id, s₁, rfl, ⟨hfds, hdisabled, ?_⟩, rfl⟩
      intro hnone
      cases hdisable.symm.trans (disableRead_of_disabled hnone)
      rfl

-- A code other than 0 means that nothing has happened, 0 that the cancel has been carried out.
def AllOrNothing (s : Epoll) (kind : CancelKind) (fd : Fd) (cb : Option Callback)
    (r : Int × List (Callback × Int) × Epoll)
    : Prop :=
  (r.1 ≠ 0 → r.2.1 = [] ∧ r.2.2 = s)
    ∧ (r.1 = 0 → (∃ id ∈ r.2.2.fdToEventInfo fd.key, kind.Disabled (r.2.2.action id))
      ∧ r.2.1 = cb.toList.map (·, 0))

/--
A cancel that returns is carried out or changes nothing, according to its code, if and only if it is given a
callback, does not pass its checks or has nothing to disable.
-/
theorem cancel_allOrNothing_iff (h : s.cancelCalls kind fd cb = .ok r)
    : s.AllOrNothing kind fd cb r
        ↔ cb.isSome ∨ s.Refuses kind fd ∨ ∃ id ∈ s.fdToEventInfo fd.key, kind.Disabled (s.action id) := by
  by_cases hrefuses : s.Refuses kind fd
  . cases (cancelCalls_of_refuses hrefuses cb).symm.trans h
    exact ⟨fun _ => .inr (.inl hrefuses), fun _ => ⟨fun _ => ⟨rfl, rfl⟩, fun hret => by cases hret⟩⟩
  . obtain ⟨id, s', hid, hdisables, rfl⟩ := cancelCalls_cases h hrefuses
    have hid' : s'.fdToEventInfo fd.key = some id := (congrFun hdisables.fdToEventInfo fd.key).trans hid
    cases cb with
    | some cb =>
      exact ⟨fun _ => .inl rfl, fun _ => ⟨fun hret => absurd rfl hret, fun _ => ⟨⟨id, hid', hdisables.disabled⟩, rfl⟩⟩⟩
    | none =>
      constructor
      . intro hall
        have hsame : s' = s := (hall.1 (show (-1 : Int) ≠ 0 by decide)).2
        exact .inr (.inr ⟨id, hid, hsame ▸ hdisables.disabled⟩)
      . rintro (hcb | hrefuses' | ⟨j, hj, hnone⟩)
        . cases hcb
        . exact absurd hrefuses' hrefuses
        . cases hid.symm.trans hj
          exact ⟨fun _ => ⟨rfl, hdisables.unchanged hnone⟩, fun hret => by cases hret⟩

end Epoll

-- A write of eight bytes to a socket is pending.
def pendingWrite : World :=
  (run [.op (.submitAsyncWrite ⟨3, .tcp⟩ ⟨false, [⟨0, 8⟩]⟩ (some 7) none)] (World.init fun _ => true)).state

theorem cancel_allOrNothing_pendingWrite
    : ∃ r, pendingWrite.poll.cancelCalls .write ⟨3, .tcp⟩ (some 8) = .ok r ∧ r.1 = 0
        ∧ pendingWrite.poll.AllOrNothing .write ⟨3, .tcp⟩ (some 8) r := by
  refine ⟨_, rfl, rfl, ?_⟩
  rw [Epoll.cancel_allOrNothing_iff rfl]
  exact .inl rfl

-- The write is lost although the cancel reports a failure.
theorem nullCancel_not_allOrNothing
    : ∃ r, pendingWrite.poll.cancelCalls .write ⟨3, .tcp⟩ none = .ok r ∧ r.1 = -1
        ∧ (pendingWrite.poll.action 0).pendingWriteTask.length = 1 ∧ (r.2.2.action 0).pendingWriteTask = []
        ∧ ¬pendingWrite.poll.AllOrNothing .write ⟨3, .tcp⟩ none r := by
  refine ⟨_, rfl, rfl, rfl, rfl, ?_⟩
  intro hall
  have hsame := (hall.1 (show (-1 : Int) ≠ 0 by decide)).2
  have htask := congrArg (fun s : Epoll => (s.action 0).pendingWriteTask.length) hsame
  revert htask
  decide

end Event
end Ezio
