import Ezio.Event.Epoll.Lemmas.Basic

/-!
This module takes the functions of the interface apart. A call that succeeds is a sequence of `Update`s,
so that an invariant that every `Update` preserves is preserved by every call.
-/

namespace Ezio
namespace Event

open Relation

-- Only fields that neither carry tasks nor readiness change.
structure EventAction.Quiet (a a' : EventAction) : Prop where
  fd : a'.fd = a.fd
  pendingReadTask : a'.pendingReadTask = a.pendingReadTask
  nonSubmitReadTask : a'.nonSubmitReadTask = a.nonSubmitReadTask
  pendingWriteTask : a'.pendingWriteTask = a.pendingWriteTask
  nonSubmitWriteTask : a'.nonSubmitWriteTask = a.nonSubmitWriteTask
  isReadable : a'.isReadable = a.isReadable
  isWritable : a'.isWritable = a.isWritable
  multishotReadTask : a'.multishotReadTask = a.multishotReadTask
  hasAcceptTask : a'.hasAcceptTask = a.hasAcceptTask
  fdOps : a'.fdOps = a.fdOps
  readBufIdxCallback : a.readBufIdxCallback.isSome → a'.readBufIdxCallback.isSome
  mmsghdrForUdpSock : a'.mmsghdrForUdpSock = a.mmsghdrForUdpSock

-- What is left of the tasks when reading, writing or both are given up.
structure EventAction.Cleared (a a' : EventAction) : Prop where
  fd : a'.fd = a.fd
  pendingReadTask : a'.pendingReadTask ⊆ a.pendingReadTask
  nonSubmitReadTask : a'.nonSubmitReadTask ⊆ a.nonSubmitReadTask
  pendingWriteTask : a'.pendingWriteTask ⊆ a.pendingWriteTask
  nonSubmitWriteTask : a'.nonSubmitWriteTask ⊆ a.nonSubmitWriteTask
  multishotReadTask : a.multishotReadTask = none → a'.multishotReadTask = none
  isReadable : a.multishotReadTask = none → a'.isReadable = a.isReadable
  hasAcceptTask : a'.hasAcceptTask = true → a.hasAcceptTask = true
  fdOps : a'.fdOps = a.fdOps ∨ a'.fdOps = EventAction.opsOf a.fd.type
  mmsghdrForUdpSock : a'.mmsghdrForUdpSock = a.mmsghdrForUdpSock

def Op.isUnregister : Op → Bool
  | .unregisterRingBuffer .. => true
  | _ => false

-- Only a buffer group that is unregistered takes a read away.
structure EventAction.KeepsReads (op : Op) (a a' : EventAction) : Prop where
  readBufIdxCallback : a'.readBufIdxCallback = a.readBufIdxCallback
  pendingReadTask : a'.pendingReadTask = a.pendingReadTask
  nonSubmitReadTask : a'.nonSubmitReadTask = a.nonSubmitReadTask
  multishotReadTask : op.isUnregister = false → a'.multishotReadTask = a.multishotReadTask

-- The call gives up all reads of the action.
def Op.cancelsReads (op : Op) (s : Epoll) (id : Nat) : Bool :=
  match op with
  | .cancelAsyncRead fd _ =>
    s.isInited && 0 < fd.num && s.fdToEventInfo fd.key = some id && (s.action id).isReading
  | .cancelAsyncAccept fd _ => s.isInited && 0 ≤ fd.num && s.fdToEventInfo fd.key = some id
  | _ => false

-- The calls that give up what has been submitted.
def Op.isCancel : Op → Bool
  | .cancelAsyncRead .. | .cancelAsyncWrite .. | .cancelAsyncAccept .. | .unregisterRingBuffer .. => true
  | _ => false

namespace Epoll

-- The type of the `event_action` that a call for `fd` works on.
def typeOf (s : Epoll) (fd : Fd) : FdType :=
  match s.fdToEventInfo fd.key with
  | some id => (s.action id).fd.type
  | none => fd.type

-- A single update that the call `op` in the state `s₀` makes on its way.
inductive Update (op : Op) (s₀ : Epoll) : Epoll → Epoll → Prop where
  | insert (s : Epoll) (fd : Fd) (info : EventInfo) (hmap : s.fdToEventInfo fd.key = none)
      (hinfo : EventInfo.new fd = .ok info)
      : Update op s₀ s (s.insert fd info)
  | watch (s : Epoll) (fd : Fd) (id : Nat) (events : Mask) (hid : s.fdToEventInfo fd.key = some id)
      : Update op s₀ s (s.modifyInfo id fun info => { info with events := events })
  | enlist (s : Epoll) (fd : Fd) (id : Nat) (hid : s.fdToEventInfo fd.key = some id)
      (hflag : (s.infos id).isInChangeList = false)
      : Update op s₀ s
          ({ s with evtChangeLst := s.evtChangeLst ++ [id] }.modifyInfo id
            fun info => { info with isInChangeList := true })
  | quiet (s : Epoll) (fd : Fd) (id : Nat) (a : EventAction)
      (hid : s.fdToEventInfo fd.key = some id) (ha : EventAction.Quiet (s.infos id).action a)
      : Update op s₀ s (s.setAction id a)
  | accept (s : Epoll) (fd : Fd) (hasAddrBuffer : Bool) (cb : Option Callback) (id : Nat)
      (hop : op = .submitAsyncAccept fd hasAddrBuffer cb) (hid : s.fdToEventInfo fd.key = some id)
      : Update op s₀ s (s.setAction id (s.infos id).action.addAcceptTask)
  | group (s : Epoll) (fd : Fd) (group : Nat) (cb : Option Callback) (opt : Option ReadOptions)
      (id : Nat) (t : MultishotTask) (blocks : List Iovec)
      (hop : op = .submitAsyncReadGroup fd group cb opt) (hid : s.fdToEventInfo fd.key = some id)
      : Update op s₀ s (s.setAction id ((s.infos id).action.addMultishotReadTask t blocks))
  | buffers (s : Epoll) (buffers : List (Option RingBufferInfo))
      : Update op s₀ s { s with buffers := buffers }
  | queueRead (s : Epoll) (fd : Fd) (buf : UserBuf) (cb : Option Callback)
      (opt : Option ReadOptions) (id : Nat) (t : Task) (isSubmit : Bool)
      (hop : op = .submitAsyncRead fd buf cb opt) (hid : s.fdToEventInfo fd.key = some id)
      (htype : (s.infos id).action.fd.type = s₀.typeOf fd) (ht : t.id = s.nextTask)
      (hbuf : t.buffer = buf.iov)
      : Update op s₀ s (s.queueRead id t isSubmit)
  | queueWrite (s : Epoll) (fd : Fd) (buf : UserBuf) (cb : Option Callback)
      (opt : Option WriteOptions) (id : Nat) (t : Task) (isSubmit : Bool)
      (hop : op = .submitAsyncWrite fd buf cb opt) (hid : s.fdToEventInfo fd.key = some id)
      (ht : t.id = s.nextTask) (hbuf : t.buffer = buf.iov)
      : Update op s₀ s (s.queueWrite id t isSubmit)
  | pushReady (s : Epoll) (fd : Fd) (id : Nat) (hid : s.fdToEventInfo fd.key = some id)
      : Update op s₀ s (s.pushReady id)
  | insertNonSubmit (s : Epoll) (fd : Fd) (id : Nat) (hid : s.fdToEventInfo fd.key = some id)
      : Update op s₀ s (s.insertNonSubmit id)
  | submittedOne (s : Epoll) (id : Nat) (hop : op = .submit) (hid : id ∈ s.nonSubmitEvents)
      : Update op s₀ s (s.submittedOne id)
  | submitted (s : Epoll) (hop : op = .submit)
      : Update op s₀ s { s with nonSubmitEvents := [] }
  | close (s : Epoll) (fd : Nat) (hop : op = .close fd)
      : Update op s₀ s { s with kernel := s.kernel.close fd }
  | open (s : Epoll) (fd : Nat) (hop : op = .open fd)
      : Update op s₀ s { s with kernel := s.kernel.open fd }
  | clear (s : Epoll) (k id : Nat) (a : EventAction) (hop : op.isCancel)
      (hid : s.fdToEventInfo k = some id) (ha : EventAction.Cleared (s.infos id).action a)
      (hreads : op.cancelsReads s₀ id = true ∨ EventAction.KeepsReads op (s.infos id).action a)
      : Update op s₀ s (s.setAction id a)

abbrev Updates (op : Op) (s₀ : Epoll) : Epoll → Epoll → Prop := ReflTransGen (Update op s₀)

namespace Updates

variable {op : Op} {s₀ s s' : Epoll} {fd : Fd} {id : Nat}

theorem findOrInsert (h : s.findOrInsert fd = .ok (id, s')) : Updates op s₀ s s' := by
  rcases findOrInsert_cases h with ⟨_, rfl⟩ | ⟨hmap, rfl, info, hinfo, rfl⟩
  . exact .refl
  . exact .single (.insert s fd info hmap hinfo)

theorem setReadCb (cb : Option ReadCallback) (hid : s.fdToEventInfo fd.key = some id)
    : Updates op s₀ s (s.setReadCb id cb) := by
  unfold Epoll.setReadCb
  split
  . exact .single (.quiet s fd id _ hid (by constructor <;> simp [EventAction.setReadCallback]))
  . exact .refl

theorem setWriteCb (cb : Option Callback) (hid : s.fdToEventInfo fd.key = some id)
    : Updates op s₀ s (s.setWriteCb id cb) := by
  unfold Epoll.setWriteCb
  split
  . exact .single (.quiet s fd id _ hid (by constructor <;> simp [EventAction.setWriteCallback]))
  . exact .refl

theorem pushToChangeList (hid : s.fdToEventInfo fd.key = some id)
    : Updates op s₀ s (s.pushToChangeList id) := by
  unfold Epoll.pushToChangeList
  split
  . exact .refl
  next hflag => exact .single (.enlist s fd id hid (by simpa using hflag))

theorem watchRead (hid : s.fdToEventInfo fd.key = some id)
    : Updates op s₀ s (s.watchRead id) := by
  unfold Epoll.watchRead
  split
  . exact .refl
  . exact .head (.watch s fd id _ hid) (pushToChangeList hid)

theorem watchWrite (hid : s.fdToEventInfo fd.key = some id)
    : Updates op s₀ s (s.watchWrite id) := by
  unfold Epoll.watchWrite
  split
  . exact .refl
  . exact .head (.watch s fd id _ hid) (pushToChangeList hid)

theorem modifyAction {g : EventAction → EventAction} (hid : s.fdToEventInfo fd.key = some id)
    (hg : EventAction.Quiet (s.infos id).action (g (s.infos id).action))
    : Updates op s₀ s (s.modifyAction id g) :=
  .single (.quiet s fd id _ hid hg)

theorem setReadOffset (offset : Option Nat) (hid : s.fdToEventInfo fd.key = some id)
    : Updates op s₀ s (s.setReadOffset id offset) := by
  unfold Epoll.setReadOffset
  split
  . exact modifyAction hid (by constructor <;> simp)
  . exact .refl

theorem setWriteOffset (offset : Option Nat) (hid : s.fdToEventInfo fd.key = some id)
    : Updates op s₀ s (s.setWriteOffset id offset) := by
  unfold Epoll.setWriteOffset
  split
  . exact modifyAction hid (by constructor <;> simp)
  . exact .refl

theorem prepareRead (fd' : Fd) (cb : Option Callback) (opt : Option ReadOptions)
    (hid : s.fdToEventInfo fd.key = some id)
    : Updates op s₀ s (s.prepareRead fd' id cb opt) := by
  unfold Epoll.prepareRead
  dsimp only
  apply ReflTransGen.trans (setReadCb (cb.map .read) hid)
  split
  . exact setReadOffset _ (by simpa using hid)
  . apply ReflTransGen.trans (watchRead (by simpa using hid))
    exact setReadOffset _ (by simpa using hid)

theorem prepareWrite (fd' : Fd) (cb : Option Callback) (opt : Option WriteOptions)
    (hid : s.fdToEventInfo fd.key = some id)
    : Updates op s₀ s (s.prepareWrite fd' id cb opt) := by
  unfold Epoll.prepareWrite
  dsimp only
  apply ReflTransGen.trans (setWriteCb cb hid)
  split
  . exact setWriteOffset _ (by simpa using hid)
  . apply ReflTransGen.trans (watchWrite (by simpa using hid))
    exact setWriteOffset _ (by simpa using hid)

theorem prepareAccept (hasAddrBuffer : Bool) (cb : Option Callback)
    (hop : op = .submitAsyncAccept fd hasAddrBuffer cb) (hid : s.fdToEventInfo fd.key = some id)
    : Updates op s₀ s (s.prepareAccept id hasAddrBuffer cb) := by
  unfold Epoll.prepareAccept
  dsimp only
  have haddr : Updates op s₀ s (s.modifyAction id fun a =>
      { a with hasAddrBuffer := a.hasAddrBuffer || hasAddrBuffer }) :=
    modifyAction hid (by constructor <;> simp)
  apply ReflTransGen.trans haddr
  apply ReflTransGen.trans (setReadCb (cb.map .accept) (by simpa using hid))
  apply ReflTransGen.trans (watchRead (by simpa using hid))
  exact .single (.accept _ fd hasAddrBuffer cb id hop (by simpa using hid))

theorem prepareReadGroup (group : Nat) (cb : Option Callback) (opt : Option ReadOptions)
    (t : MultishotTask) (blocks : List Iovec) (hop : op = .submitAsyncReadGroup fd group cb opt)
    (hid : s.fdToEventInfo fd.key = some id)
    : Updates op s₀ s (s.prepareReadGroup id group cb t blocks) := by
  unfold Epoll.prepareReadGroup
  dsimp only
  apply ReflTransGen.trans (setReadCb (cb.map .read) hid)
  apply ReflTransGen.trans (watchRead (by simpa using hid))
  refine ReflTransGen.tail (.single ?_) (.buffers _ _)
  exact .group _ fd group cb opt id t blocks hop (by simpa using hid)

theorem pushIfReadable (hid : s.fdToEventInfo fd.key = some id)
    : Updates op s₀ s (s.pushIfReadable id) := by
  unfold Epoll.pushIfReadable
  split
  . exact .single (.pushReady s fd id hid)
  . exact .refl

end Updates

theorem findOrInsert_typeOf {s s' : Epoll} {fd : Fd} {id : Nat}
    (h : s.findOrInsert fd = .ok (id, s'))
    : (s'.infos id).action.fd.type = s.typeOf fd := by
  rcases findOrInsert_cases h with ⟨hmap, rfl⟩ | ⟨hmap, rfl, info, hinfo, rfl⟩
  . simp [typeOf, hmap]
  . simp [typeOf, hmap, EventInfo.new_eq_ok hinfo, EventAction.blank]

section Exec

variable {s s' : Epoll} {r : Int}

theorem submitAsyncRead_updates {fd : Fd} {buf : UserBuf} {cb : Option Callback}
    {opt : Option ReadOptions} (h : s.submitAsyncRead fd buf cb opt = .ok (r, s'))
    : Updates (.submitAsyncRead fd buf cb opt) s s s' := by
  unfold submitAsyncRead at h
  split at h
  . cases h
    exact .refl
  . obtain ⟨⟨id, s₁⟩, hfind, h⟩ := Except.bind_eq_ok h
    have hid := findOrInsert_map hfind
    have htype := findOrInsert_typeOf hfind
    cases h
    apply ReflTransGen.trans (Updates.findOrInsert hfind)
    apply ReflTransGen.trans (Updates.prepareRead fd cb opt hid)
    exact .single (.queueRead _ fd buf cb opt id _ _ rfl (by simpa using hid) (by simpa using htype)
      rfl rfl)

theorem submitAsyncWrite_updates {fd : Fd} {buf : UserBuf} {cb : Option Callback}
    {opt : Option WriteOptions} (h : s.submitAsyncWrite fd buf cb opt = .ok (r, s'))
    : Updates (.submitAsyncWrite fd buf cb opt) s s s' := by
  unfold submitAsyncWrite at h
  split at h
  . cases h
    exact .refl
  . obtain ⟨⟨id, s₁⟩, hfind, h⟩ := Except.bind_eq_ok h
    have hid := findOrInsert_map hfind
    cases h
    apply ReflTransGen.trans (Updates.findOrInsert hfind)
    apply ReflTransGen.trans (Updates.prepareWrite fd cb opt hid)
    exact .single (.queueWrite _ fd buf cb opt id _ _ rfl (by simpa using hid) rfl rfl)

theorem submitAsyncAccept_updates {fd : Fd} {hasAddrBuffer : Bool} {cb : Option Callback}
    (h : s.submitAsyncAccept fd hasAddrBuffer cb = .ok (r, s'))
    : Updates (.submitAsyncAccept fd hasAddrBuffer cb) s s s' := by
  unfold submitAsyncAccept at h
  split at h
  . cases h
    exact .refl
  . obtain ⟨⟨id, s₁⟩, hfind, h⟩ := Except.bind_eq_ok h
    have hid := findOrInsert_map hfind
    cases h
    apply ReflTransGen.trans (Updates.findOrInsert hfind)
    apply ReflTransGen.trans (Updates.prepareAccept hasAddrBuffer cb rfl hid)
    exact Updates.pushIfReadable (by simpa using hid)

theorem submitAsyncReadGroup_updates {fd : Fd} {group : Nat} {cb : Option Callback}
    {opt : Option ReadOptions} (h : s.submitAsyncReadGroup fd group cb opt = .ok (r, s'))
    : Updates (.submitAsyncReadGroup fd group cb opt) s s s' := by
  unfold submitAsyncReadGroup at h
  split at h
  . cases h
    exact .refl
  next ring hring =>
    split at h
    . cases h
      exact .refl
    . obtain ⟨⟨id, s₁⟩, hfind, h⟩ := Except.bind_eq_ok h
      have hid := findOrInsert_map hfind
      cases h
      apply ReflTransGen.trans (Updates.findOrInsert hfind)
      apply ReflTransGen.trans (Updates.prepareReadGroup group cb opt _ ring.blocks rfl hid)
      split
      . exact Updates.pushIfReadable (by simpa using hid)
      . exact .single (.insertNonSubmit _ fd id (by simpa using hid))

theorem submit_updates (h : s.submit = .ok (r, s')) : Updates .submit s s s' := by
  replace h := (submit_eq_ok h).2
  unfold submitted at h
  split at h
  . cases h
    exact .refl
  . cases h
    have hfold : ∀ (ids : List Nat) (t : Epoll), ids ⊆ t.nonSubmitEvents
        → Updates .submit s t (ids.foldl submittedOne t) := by
      intro ids
      induction ids with
      | nil =>
        intro t _
        exact .refl
      | cons id ids ih =>
        intro t ht
        rw [List.cons_subset] at ht
        apply ReflTransGen.head (.submittedOne t id rfl ht.1)
        apply ih
        simpa using ht.2
    exact .tail (hfold _ s (List.Subset.refl _)) (.submitted _ rfl)

theorem clearMultishotTask_updates {op : Op} {s₀ : Epoll} {k id : Nat} (hop : op.isUnregister)
    (hid : s.fdToEventInfo k = some id) (h : s.clearMultishotTask id = .ok s')
    : Updates op s₀ s s' ∧ s'.fdToEventInfo = s.fdToEventInfo := by
  obtain ⟨buffers, a, ha, rfl⟩ := clearMultishotTask_eq_ok h
  obtain ⟨_, _, _, _, hr, hops, rfl⟩ := EventAction.clearMultishotTask_eq_ok ha
  refine ⟨.head (.buffers s buffers) (.single (.clear _ k id _ ?_ hid ?_ ?_)), rfl⟩
  . cases op with
    | unregisterRingBuffer group => rfl
    | _ => cases hop
  . constructor
    case isReadable => exact hr
    case fdOps => exact hops
    all_goals simp
  . exact .inr ⟨rfl, rfl, rfl, by simp [hop]⟩

theorem disableRead_updates {op : Op} {s₀ : Epoll} {k id : Nat} (hop : op.isCancel)
    (hreads : op.cancelsReads s₀ id = true) (hid : s.fdToEventInfo k = some id) (h : s.disableRead id = .ok s')
    : Updates op s₀ s s' ∧ s'.fdToEventInfo = s.fdToEventInfo := by
  obtain ⟨buffers, _, _, _, _, hr, hops, rfl⟩ := disableRead_eq_ok h
  refine ⟨.head (.buffers s buffers) (.single (.clear _ k id _ hop hid ?_ (.inl hreads))), rfl⟩
  constructor
  case isReadable => exact hr
  case fdOps => exact hops
  all_goals simp

theorem cancelAsyncRead_updates {fd : Fd} {cb : Option Callback}
    (h : s.cancelAsyncRead fd cb = .ok (r, s'))
    : Updates (.cancelAsyncRead fd cb) s s s' := by
  unfold cancelAsyncRead at h
  split at h
  . cases h
    exact .refl
  next hinit =>
    split at h
    . cases h
      exact .refl
    next id hid =>
      split at h
      . cases h
        exact .refl
      next hreading =>
        obtain ⟨s₁, hdis, h⟩ := Except.bind_eq_ok h
        have hreads : Op.cancelsReads (.cancelAsyncRead fd cb) s id = true := by
          simp_all [Op.cancelsReads]
        have hs₁ : Updates (.cancelAsyncRead fd cb) s s s₁ ∧ _ :=
          disableRead_updates rfl hreads hid hdis
        cases h
        apply ReflTransGen.trans hs₁.1
        split
        . apply Updates.pushToChangeList
          rw [hs₁.2]
          exact hid
        . exact .refl

theorem cancelAsyncWrite_updates {fd : Fd} {cb : Option Callback}
    (h : s.cancelAsyncWrite fd cb = .ok (r, s'))
    : Updates (.cancelAsyncWrite fd cb) s s s' := by
  unfold cancelAsyncWrite at h
  split at h
  . cases h
    exact .refl
  . split at h
    . cases h
      exact .refl
    next id hid =>
      cases h
      refine .single (.clear s fd.key id _ rfl hid ?_ (.inr ⟨rfl, rfl, rfl, fun _ => rfl⟩))
      constructor <;> simp [EventAction.disableWrite]

theorem cancelAsyncAccept_updates {fd : Fd} {cb : Option Callback}
    (h : s.cancelAsyncAccept fd cb = .ok (r, s'))
    : Updates (.cancelAsyncAccept fd cb) s s s' := by
  unfold cancelAsyncAccept at h
  split at h
  . cases h
    exact .refl
  next hinit =>
    split at h
    . cases h
      exact .refl
    next id hid =>
      obtain ⟨s₁, hdis, h⟩ := Except.bind_eq_ok h
      have hreads : Op.cancelsReads (.cancelAsyncAccept fd cb) s id = true := by
        simp_all [Op.cancelsReads]
      cases h
      exact (disableRead_updates rfl hreads hid hdis).1

theorem removeMultishotTask_updates {op : Op} {s₀ : Epoll} {fdSet : List Nat} (hop : op.isUnregister)
    (h : s.removeMultishotTask fdSet = .ok s')
    : Updates op s₀ s s' := by
  unfold removeMultishotTask at h
  induction fdSet generalizing s with
  | nil =>
    cases h
    exact .refl
  | cons fd fdSet ih =>
    rw [List.foldlM_cons] at h
    obtain ⟨s₁, hclear, h⟩ := Except.bind_eq_ok h
    split at hclear
    . cases hclear
      exact ih h
    next id hmap =>
      exact (clearMultishotTask_updates hop hmap hclear).1.trans (ih h)

theorem unregisterRingBuffer_updates {group : Nat} (h : s.unregisterRingBuffer group = .ok (r, s'))
    : Updates (.unregisterRingBuffer group) s s s' := by
  unfold unregisterRingBuffer at h
  split at h
  . cases h
    exact .refl
  next ring hring =>
    obtain ⟨s₁, hrem, h⟩ := Except.bind_eq_ok h
    cases h
    exact .tail (removeMultishotTask_updates rfl hrem) (.buffers _ _)

theorem exec_updates {op : Op} (h : s.exec op = .ok (r, s')) : Updates op s s s' := by
  cases op with
  | submitAsyncRead fd buf cb opt => exact submitAsyncRead_updates h
  | submitAsyncReadGroup fd group cb opt => exact submitAsyncReadGroup_updates h
  | submitAsyncWrite fd buf cb opt => exact submitAsyncWrite_updates h
  | submitAsyncAccept fd hasAddrBuffer cb => exact submitAsyncAccept_updates h
  | cancelAsyncRead fd cb => exact cancelAsyncRead_updates h
  | cancelAsyncWrite fd cb => exact cancelAsyncWrite_updates h
  | cancelAsyncAccept fd cb => exact cancelAsyncAccept_updates h
  | submit => exact submit_updates h
  | registerRingBuffer blockSize blockCount addrs =>
    have h : s.registerRingBuffer blockSize blockCount addrs = (r, s') := Except.ok.inj h
    unfold registerRingBuffer at h
    dsimp only at h
    generalize hc : (_ || _ : Bool) = c at h
    cases c with
    | true =>
      cases h
      exact .refl
    | false =>
      cases h
      exact .single (.buffers s _)
  | unregisterRingBuffer group => exact unregisterRingBuffer_updates h
  | close fd =>
    cases h
    exact .single (.close s fd rfl)
  | «open» fd =>
    cases h
    exact .single (.open s fd rfl)

end Exec

end Epoll
end Event
end Ezio
