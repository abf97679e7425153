import Ezio.Lib.Relate
import Ezio.Event.Epoll.Lemmas.Wf

/-!
This module contains when tasks that are deferred until `submit` is called end up where they would have been if each had
been submitted at once: the loops of `submit` must be able to count them.
-/

namespace Ezio
namespace Event

open EStateM (Preserves Triple)

-- A read or a write of `iovec`s, whatever its options say about when it is submitted.
inductive IovTask where
  | read (fd : Fd) (buf : UserBuf) (cb : Option Callback) (opt : Option ReadOptions)
  | write (fd : Fd) (buf : UserBuf) (cb : Option Callback) (opt : Option WriteOptions)
  deriving DecidableEq, Repr

namespace IovTask

def fd : IovTask → Fd
  | .read fd .. => fd
  | .write fd .. => fd

def buf : IovTask → UserBuf
  | .read _ buf .. => buf
  | .write _ buf .. => buf

def isRead : IovTask → Bool
  | .read .. => true
  | .write .. => false

-- With `set_submit(false)`, which takes options to call it on.
def deferred : IovTask → Op
  | .read fd buf cb opt =>
    let opt := opt.getD { offset := none, isSubmit := true, needSocketDetail := false }
    .submitAsyncRead fd buf cb (some { opt with isSubmit := false })
  | .write fd buf cb opt =>
    let opt := opt.getD { offset := none, isSubmit := true, sockaddr := none }
    .submitAsyncWrite fd buf cb (some { opt with isSubmit := false })

def immediate : IovTask → Op
  | .read fd buf cb opt => .submitAsyncRead fd buf cb (opt.map fun opt => { opt with isSubmit := true })
  | .write fd buf cb opt => .submitAsyncWrite fd buf cb (opt.map fun opt => { opt with isSubmit := true })

-- The task is not rejected.
def accepted (s : Epoll) (t : IovTask) : Bool :=
  s.isInited && 0 ≤ t.fd.num && !(t.buf.iov ≠ [] && t.buf.isNull)

end IovTask

namespace Epoll

def submitAll (op : IovTask → Op) (tasks : List IovTask) (s : Epoll) : Except Fault Epoll :=
  tasks.foldlM (fun s t => (s.exec (op t)).map (·.2)) s

def NoneDeferred (s : Epoll) : Prop :=
  ∀ id, (s.action id).nonSubmitReadTask = [] ∧ (s.action id).nonSubmitWriteTask = []

-- What the tasks of every file descriptor are queued in and carried out with.
structure SameQueues (s s' : Epoll) : Prop where
  map : s'.fdToEventInfo = s.fdToEventInfo
  change : s'.evtChangeLst = s.evtChangeLst
  pendingReadTask : ∀ id, (s'.action id).pendingReadTask = (s.action id).pendingReadTask
  pendingWriteTask : ∀ id, (s'.action id).pendingWriteTask = (s.action id).pendingWriteTask
  readBufIdxCallback : ∀ id, (s'.action id).readBufIdxCallback = (s.action id).readBufIdxCallback
  writeCallback : ∀ id, (s'.action id).writeCallback = (s.action id).writeCallback
  readOffset : ∀ id, (s'.action id).readOffset = (s.action id).readOffset
  writeOffset : ∀ id, (s'.action id).writeOffset = (s.action id).writeOffset

-- The `event_action` of a file descriptor is put up for the next `do_ready_tasks` if the file is known to be ready.
def Awaits (s : Epoll) (fd : Fd) : Prop :=
  ∃ id, s.fdToEventInfo fd.key = some id
    ∧ ((s.action id).isReadable ∨ (s.action id).isWritable → id ∈ s.readyEvents)

-- The tasks are deferred and submitted in the state `s`, and submitted one by one in the state `s'`.
def SubmitsAlike (s s' : Epoll) (tasks : List IovTask) : Prop :=
  Except.Matches
    (fun d i => ∃ r d', d.submit = .ok (r, d') ∧ SameQueues d' i ∧ d'.NoneDeferred
      ∧ ∀ t ∈ tasks, t.accepted s → d'.Awaits t.fd)
    (submitAll IovTask.deferred tasks s) (submitAll IovTask.immediate tasks s')

-- A file without an `event_info` is first used with a type that `set_fd_ops` does not know.
def Asserts (s : Epoll) (tasks : List IovTask) : Prop :=
  ∃ t, tasks.find? (fun u => u.accepted s && u.fd.key == t.fd.key) = some t
    ∧ s.fdToEventInfo t.fd.key = none ∧ t.fd.type = .unknown

-- The number of tasks of a file that are deferred already.
def deferredCount (s : Epoll) (isRead : Bool) (k : Nat) : Nat :=
  match s.fdToEventInfo k with
  | some id => ((s.action id).deferredTask isRead).length
  | none => 0

-- For every file, fewer than `2^32` reads and fewer than `2^32` writes wait for `submit`.
def Fits (s : Epoll) (tasks : List IovTask) : Prop :=
  s.Countable ∧ ∀ isRead k,
    s.deferredCount isRead k + tasks.countP (fun t => t.accepted s && t.isRead == isRead && t.fd.key == k) < 2 ^ 32

end Epoll

-- The tasks that are deferred in `a` are pending in `b`.
structure EventAction.Delays (a b : EventAction) : Prop where
  events : b.events = a.events
  readBufIdxCallback : b.readBufIdxCallback = a.readBufIdxCallback
  writeCallback : b.writeCallback = a.writeCallback
  readOffset : b.readOffset = a.readOffset
  writeOffset : b.writeOffset = a.writeOffset
  pendingReadTask : b.pendingReadTask = a.pendingReadTask ++ a.nonSubmitReadTask
  pendingWriteTask : b.pendingWriteTask = a.pendingWriteTask ++ a.nonSubmitWriteTask

structure EventInfo.Delays (x y : EventInfo) : Prop where
  events : y.events = x.events
  isInChangeList : y.isInChangeList = x.isInChangeList
  action : x.action.Delays y.action

namespace Epoll

structure Delays (d i : Epoll) : Prop where
  isInited : i.isInited = d.isInited
  map : i.fdToEventInfo = d.fdToEventInfo
  next : i.next = d.next
  change : i.evtChangeLst = d.evtChangeLst
  nextTask : i.nextTask = d.nextTask
  infos : ∀ id, (d.infos id).Delays (i.infos id)

-- Whatever is deferred waits for `submit`.
def AllWait (s : Epoll) : Prop :=
  ∀ id, id ∉ s.nonSubmitEvents → (s.action id).nonSubmitReadTask = [] ∧ (s.action id).nonSubmitWriteTask = []

end Epoll

theorem IovTask.deferred_ne_submit (t : IovTask) : t.deferred ≠ .submit := by
  cases t with
  | read fd buf cb opt => exact fun h => by cases h
  | write fd buf cb opt => exact fun h => by cases h

theorem IovTask.accepted_eq_false {s : Epoll} {t : IovTask}
    : t.accepted s = false
      ↔ (!s.isInited || decide (t.fd.num < 0) || (decide (t.buf.iov ≠ []) && t.buf.isNull)) = true := by
  unfold IovTask.accepted
  rw [← Bool.not_eq_true']
  simp [Bool.not_and]

theorem IovTask.accepted_eq_true {s : Epoll} {t : IovTask}
    : t.accepted s = true
        ↔ ¬(!s.isInited || decide (t.fd.num < 0) || (decide (t.buf.iov ≠ []) && t.buf.isNull)) = true := by
  rw [← accepted_eq_false, Bool.not_eq_false]

theorem EventAction.submitted_submitted (a : EventAction) : a.submitted.submitted = a.submitted := by
  unfold EventAction.submitted
  dsimp only
  rw [List.append_nil, List.append_nil, Option.map_map]
  rfl

theorem EventAction.Delays.refl {a : EventAction} (hreads : a.nonSubmitReadTask = [])
    (hwrites : a.nonSubmitWriteTask = [])
    : a.Delays a := by
  constructor
  all_goals try rfl
  . rw [hreads, List.append_nil]
  . rw [hwrites, List.append_nil]

theorem EventAction.Delays.submitted (a : EventAction) : a.Delays a.submitted := by
  constructor <;> rfl

namespace Epoll

variable {s s' d i : Epoll} {id : Nat} {fd : Fd}

theorem foldl_submittedOne_action (ids : List Nat) (s : Epoll) (id : Nat)
    : ((ids.foldl submittedOne s).infos id).action
        = if id ∈ ids then (s.infos id).action.submitted else (s.infos id).action := by
  induction ids generalizing s with
  | nil => rfl
  | cons j ids ih =>
    rw [List.foldl_cons, ih, submittedOne_infos]
    by_cases hid : id = j
    . subst hid
      rw [if_pos rfl, if_pos List.mem_cons_self]
      split
      . exact EventAction.submitted_submitted _
      . rfl
    . simp [hid]

theorem foldl_submittedOne_info (ids : List Nat) (s : Epoll) (id : Nat)
    : ((ids.foldl submittedOne s).infos id).events = (s.infos id).events
        ∧ ((ids.foldl submittedOne s).infos id).isInChangeList = (s.infos id).isInChangeList := by
  induction ids generalizing s with
  | nil => exact ⟨rfl, rfl⟩
  | cons j ids ih =>
    rw [List.foldl_cons, (ih _).1, (ih _).2, submittedOne_infos]
    split
    next heq => exact ⟨by rw [heq], by rw [heq]⟩
    . exact ⟨rfl, rfl⟩

theorem submitted_lists (s : Epoll) : SameLists s s.submitted.2 := by
  unfold submitted
  split
  . exact ⟨rfl, rfl, rfl, rfl, rfl⟩
  . exact { foldl_submittedOne_lists s.nonSubmitEvents s with }

theorem submitted_action (s : Epoll) (id : Nat)
    : (s.submitted.2.infos id).action
        = if id ∈ s.nonSubmitEvents then (s.infos id).action.submitted else (s.infos id).action := by
  unfold submitted
  split
  next hnone => simp [hnone]
  . exact foldl_submittedOne_action s.nonSubmitEvents s id

theorem submitted_info (s : Epoll) (id : Nat)
    : (s.submitted.2.infos id).events = (s.infos id).events
        ∧ (s.submitted.2.infos id).isInChangeList = (s.infos id).isInChangeList := by
  unfold submitted
  split
  . exact ⟨rfl, rfl⟩
  . exact foldl_submittedOne_info s.nonSubmitEvents s id

theorem AllWait.delays_submitted (h : s.AllWait) : s.Delays s.submitted.2 := by
  have hlists := submitted_lists s
  refine ⟨hlists.isInited, hlists.map, hlists.next, hlists.change, hlists.nextTask, fun id => ?_⟩
  refine ⟨(submitted_info s id).1, (submitted_info s id).2, ?_⟩
  rw [submitted_action]
  split
  . exact .submitted _
  next hnot => exact .refl (h id hnot).1 (h id hnot).2

theorem NoneDeferred.delays (h : s.NoneDeferred) : s.Delays s := by
  refine ⟨rfl, rfl, rfl, rfl, rfl, fun id => ⟨rfl, rfl, .refl (h id).1 (h id).2⟩⟩

namespace Delays

theorem modifyInfo (h : d.Delays i) (id : Nat) {f g : EventInfo → EventInfo}
    (hfg : ∀ x y, x.Delays y → (f x).Delays (g y))
    : (d.modifyInfo id f).Delays (i.modifyInfo id g) := by
  refine { h with infos := ?_ }
  intro j
  rw [modifyInfo_infos, modifyInfo_infos]
  split
  . exact hfg _ _ (h.infos id)
  . exact h.infos j

theorem modifyAction (h : d.Delays i) (id : Nat) {f g : EventAction → EventAction}
    (hfg : ∀ a b, a.Delays b → (f a).Delays (g b))
    : (d.modifyAction id f).Delays (i.modifyAction id g) := by
  apply h.modifyInfo
  intro x y hxy
  exact ⟨hxy.events, hxy.isInChangeList, hfg _ _ hxy.action⟩

theorem setReadCb (h : d.Delays i) (id : Nat) (cb : Option ReadCallback)
    : (d.setReadCb id cb).Delays (i.setReadCb id cb) := by
  unfold Epoll.setReadCb
  split
  . apply h.modifyAction
    intro a b hab
    refine { hab with events := ?_, readBufIdxCallback := rfl }
    simp only [EventAction.setReadCallback, hab.events]
  . exact h

theorem setWriteCb (h : d.Delays i) (id : Nat) (cb : Option Callback)
    : (d.setWriteCb id cb).Delays (i.setWriteCb id cb) := by
  unfold Epoll.setWriteCb
  split
  . apply h.modifyAction
    intro a b hab
    refine { hab with events := ?_, writeCallback := rfl }
    simp only [EventAction.setWriteCallback, hab.events]
  . exact h

theorem pushToChangeList (h : d.Delays i) (id : Nat) : (d.pushToChangeList id).Delays (i.pushToChangeList id) := by
  unfold Epoll.pushToChangeList
  rw [(h.infos id).isInChangeList]
  split
  . exact h
  . have hlisted : Delays { d with evtChangeLst := d.evtChangeLst ++ [id] }
      { i with evtChangeLst := i.evtChangeLst ++ [id] } :=
      { h with change := by rw [h.change] }
    apply hlisted.modifyInfo
    intro x y hxy
    exact ⟨hxy.events, rfl, hxy.action⟩

theorem watchRead (h : d.Delays i) (id : Nat) : (d.watchRead id).Delays (i.watchRead id) := by
  unfold Epoll.watchRead
  rw [(h.infos id).events]
  split
  . exact h
  . apply Delays.pushToChangeList
    apply h.modifyInfo
    intro x y hxy
    exact ⟨by rw [hxy.events], hxy.isInChangeList, hxy.action⟩

theorem watchWrite (h : d.Delays i) (id : Nat) : (d.watchWrite id).Delays (i.watchWrite id) := by
  unfold Epoll.watchWrite
  rw [(h.infos id).events]
  split
  . exact h
  . apply Delays.pushToChangeList
    apply h.modifyInfo
    intro x y hxy
    exact ⟨by rw [hxy.events], hxy.isInChangeList, hxy.action⟩

theorem setReadOffset (h : d.Delays i) (id : Nat) (offset : Option Nat)
    : (d.setReadOffset id offset).Delays (i.setReadOffset id offset) := by
  unfold Epoll.setReadOffset
  split
  . apply h.modifyAction
    intro a b hab
    exact { hab with readOffset := rfl }
  . exact h

theorem setWriteOffset (h : d.Delays i) (id : Nat) (offset : Option Nat)
    : (d.setWriteOffset id offset).Delays (i.setWriteOffset id offset) := by
  unfold Epoll.setWriteOffset
  split
  . apply h.modifyAction
    intro a b hab
    exact { hab with writeOffset := rfl }
  . exact h

theorem takeTask (h : d.Delays i) : d.takeTask.Delays i.takeTask := by
  refine { h with nextTask := ?_ }
  show i.nextTask + 1 = d.nextTask + 1
  rw [h.nextTask]

-- Only the lists that the actions wait in differ.
theorem push (h : d.Delays i) (nonSubmit ready : List Nat)
    : Delays { d with nonSubmitEvents := nonSubmit } { i with readyEvents := ready } := { h with }

theorem prepareRead (h : d.Delays i) (fd : Fd) (id : Nat) (cb : Option Callback) {opt opt' : Option ReadOptions}
    (hopt : opt'.bind (·.offset) = opt.bind (·.offset))
    : (d.prepareRead fd id cb opt).Delays (i.prepareRead fd id cb opt') := by
  unfold Epoll.prepareRead
  rw [hopt]
  apply setReadOffset
  split
  . exact h.setReadCb id _
  . exact (h.setReadCb id _).watchRead id

theorem prepareWrite (h : d.Delays i) (fd : Fd) (id : Nat) (cb : Option Callback) {opt opt' : Option WriteOptions}
    (hopt : opt'.bind (·.offset) = opt.bind (·.offset))
    : (d.prepareWrite fd id cb opt).Delays (i.prepareWrite fd id cb opt') := by
  unfold Epoll.prepareWrite
  rw [hopt]
  apply setWriteOffset
  split
  . exact h.setWriteCb id _
  . exact (h.setWriteCb id _).watchWrite id

theorem queueRead (h : d.Delays i) (id : Nat) (t : Task) : (d.queueRead id t false).Delays (i.queueRead id t true) := by
  have hadded : (d.takeTask.modifyAction id fun a => a.addNonSubmitReadTask t).Delays
      (i.takeTask.modifyAction id fun a => a.addReadTask t) := by
    apply h.takeTask.modifyAction
    intro a b hab
    refine { hab with pendingReadTask := ?_ }
    show b.pendingReadTask ++ [t] = a.pendingReadTask ++ (a.nonSubmitReadTask ++ [t])
    rw [hab.pendingReadTask, List.append_assoc]
  unfold Epoll.queueRead Epoll.insertNonSubmit Epoll.pushIfReadable
  rw [if_neg (by decide), if_pos rfl]
  split
  . split
    . exact hadded.push _ _
    . exact hadded
  . split
    . exact hadded.push _ _
    . exact hadded.push _ _

theorem queueWrite (h : d.Delays i) (id : Nat) (t : Task)
    : (d.queueWrite id t false).Delays (i.queueWrite id t true) := by
  have hadded : (d.takeTask.modifyAction id fun a => a.addNonSubmitWriteTask t).Delays
      (i.takeTask.modifyAction id fun a => a.addWriteTask t) := by
    apply h.takeTask.modifyAction
    intro a b hab
    refine { hab with pendingWriteTask := ?_ }
    show b.pendingWriteTask ++ [t] = a.pendingWriteTask ++ (a.nonSubmitWriteTask ++ [t])
    rw [hab.pendingWriteTask, List.append_assoc]
  unfold Epoll.queueWrite Epoll.insertNonSubmit Epoll.pushIfWritable
  rw [if_neg (by decide), if_pos rfl]
  split
  . split
    . exact hadded.push _ _
    . exact hadded
  . split
    . exact hadded.push _ _
    . exact hadded.push _ _

theorem findOrInsert (h : d.Delays i) (fd : Fd)
    : Except.Matches (fun r r' => r'.1 = r.1 ∧ r.2.Delays r'.2) (d.findOrInsert fd) (i.findOrInsert fd) := by
  unfold Epoll.findOrInsert
  rw [h.map]
  split
  . exact ⟨rfl, h⟩
  . cases hinfo : EventInfo.new fd with
    | error f => rfl
    | ok info =>
      have hfresh : info.Delays info := by
        refine ⟨rfl, rfl, .refl ?_ ?_⟩
        . rw [EventInfo.new_eq_ok hinfo, EventAction.setFdOps_nonSubmitReadTask]
          rfl
        . rw [EventInfo.new_eq_ok hinfo, EventAction.setFdOps_nonSubmitWriteTask]
          rfl
      refine ⟨h.next, h.isInited, ?_, ?_, h.change, h.nextTask, ?_⟩
      . dsimp only
        rw [h.next]
      . dsimp only
        rw [h.next]
      . intro id
        dsimp only
        rw [Function.update_apply, Function.update_apply, h.next]
        split
        . exact hfresh
        . exact h.infos id

theorem submitAsyncRead (h : d.Delays i) (fd : Fd) (buf : UserBuf) (cb : Option Callback)
    {opt opt' : Option ReadOptions}
    (hsubmit : (opt.map (·.isSubmit)).getD true = false) (hsubmit' : (opt'.map (·.isSubmit)).getD true = true)
    (hoffset : opt'.bind (·.offset) = opt.bind (·.offset))
    (hdetail : (opt'.map (·.needSocketDetail)).getD false = (opt.map (·.needSocketDetail)).getD false)
    : Except.Matches (fun r r' => r'.1 = r.1 ∧ r.2.Delays r'.2) (d.submitAsyncRead fd buf cb opt)
        (i.submitAsyncRead fd buf cb opt') := by
  unfold Epoll.submitAsyncRead
  rw [h.isInited, hsubmit, hsubmit', hdetail]
  split
  . exact ⟨rfl, h⟩
  . apply (h.findOrInsert fd).bind
    rintro ⟨id, s₁⟩ ⟨id', s₁'⟩ ⟨rfl, h₁⟩
    have hprepared := h₁.prepareRead fd id' cb hoffset
    refine ⟨rfl, ?_⟩
    dsimp only
    rw [hprepared.nextTask]
    exact hprepared.queueRead id' _

theorem submitAsyncWrite (h : d.Delays i) (fd : Fd) (buf : UserBuf) (cb : Option Callback)
    {opt opt' : Option WriteOptions} (hsubmit : (opt.map (·.isSubmit)).getD true = false)
    (hsubmit' : (opt'.map (·.isSubmit)).getD true = true) (hoffset : opt'.bind (·.offset) = opt.bind (·.offset))
    (haddr : opt'.bind (·.sockaddr) = opt.bind (·.sockaddr))
    : Except.Matches (fun r r' => r'.1 = r.1 ∧ r.2.Delays r'.2) (d.submitAsyncWrite fd buf cb opt)
        (i.submitAsyncWrite fd buf cb opt') := by
  unfold Epoll.submitAsyncWrite
  rw [h.isInited, hsubmit, hsubmit', haddr]
  split
  . exact ⟨rfl, h⟩
  . apply (h.findOrInsert fd).bind
    rintro ⟨id, s₁⟩ ⟨id', s₁'⟩ ⟨rfl, h₁⟩
    have hprepared := h₁.prepareWrite fd id' cb hoffset
    refine ⟨rfl, ?_⟩
    dsimp only
    rw [hprepared.nextTask]
    exact hprepared.queueWrite id' _

theorem call (h : d.Delays i) (t : IovTask)
    : Except.Matches (fun r r' => r'.1 = r.1 ∧ r.2.Delays r'.2) (d.exec t.deferred) (i.exec t.immediate) := by
  cases t with
  | read fd buf cb opt =>
    apply h.submitAsyncRead fd buf cb
    . rfl
    . cases opt with
      | none => rfl
      | some opt => rfl
    . cases opt with
      | none => rfl
      | some opt => rfl
    . cases opt with
      | none => rfl
      | some opt => rfl
  | write fd buf cb opt =>
    apply h.submitAsyncWrite fd buf cb
    . rfl
    . cases opt with
      | none => rfl
      | some opt => rfl
    . cases opt with
      | none => rfl
      | some opt => rfl
    . cases opt with
      | none => rfl
      | some opt => rfl

end Delays

namespace AllWait

theorem mono (h : s.AllWait) (s' : Epoll) (hevents : s.nonSubmitEvents ⊆ s'.nonSubmitEvents)
    (htasks : ∀ id, id ∉ s'.nonSubmitEvents
      → (s'.infos id).action.nonSubmitReadTask ⊆ (s.infos id).action.nonSubmitReadTask
        ∧ (s'.infos id).action.nonSubmitWriteTask ⊆ (s.infos id).action.nonSubmitWriteTask)
    : s'.AllWait := by
  intro id hid
  obtain ⟨hreads, hwrites⟩ := h id fun hmem => hid (hevents hmem)
  obtain ⟨hreads', hwrites'⟩ := htasks id hid
  rw [action_def] at hreads hwrites
  rw [hreads] at hreads'
  rw [hwrites] at hwrites'
  exact ⟨List.subset_nil.mp hreads', List.subset_nil.mp hwrites'⟩

theorem modifyInfo (h : s.AllWait) {f : EventInfo → EventInfo}
    (hreads : (f (s.infos id)).action.nonSubmitReadTask ⊆ (s.infos id).action.nonSubmitReadTask)
    (hwrites : (f (s.infos id)).action.nonSubmitWriteTask ⊆ (s.infos id).action.nonSubmitWriteTask)
    : (s.modifyInfo id f).AllWait := by
  apply h.mono (s.modifyInfo id f) (List.Subset.refl s.nonSubmitEvents)
  intro j _
  rw [modifyInfo_infos]
  split
  next heq =>
    rw [heq]
    exact ⟨hreads, hwrites⟩
  . exact ⟨List.Subset.refl _, List.Subset.refl _⟩

theorem insert (h : s.AllWait) {info : EventInfo} (hinfo : EventInfo.new fd = .ok info)
    : (s.insert fd info).AllWait := by
  apply h.mono (s.insert fd info) (List.Subset.refl s.nonSubmitEvents)
  intro j _
  rw [insert_infos]
  split
  . rw [EventInfo.new_eq_ok hinfo, EventAction.setFdOps_nonSubmitReadTask, EventAction.setFdOps_nonSubmitWriteTask]
    exact ⟨List.nil_subset _, List.nil_subset _⟩
  . exact ⟨List.Subset.refl _, List.Subset.refl _⟩

theorem noneDeferred (h : s.AllWait) (hnone : s.nonSubmitEvents = []) : s.NoneDeferred := by
  intro id
  apply h id
  rw [hnone]
  exact List.not_mem_nil

theorem insertNonSubmit (h : s.AllWait) (id : Nat) : (s.insertNonSubmit id).AllWait := by
  apply h.mono _ (insertNonSubmit_waits s id).2
  intro j _
  rw [insertNonSubmit_infos]
  exact ⟨List.Subset.refl _, List.Subset.refl _⟩

-- An action that is put on the list may have deferred tasks.
theorem modifyAction_insertNonSubmit (h : s.AllWait) (f : EventAction → EventAction)
    : ((s.modifyAction id f).insertNonSubmit id).AllWait := by
  obtain ⟨hmem, hsubset⟩ := insertNonSubmit_waits (s.modifyAction id f) id
  apply h.mono _ hsubset
  intro j hj
  have hne : j ≠ id := by
    rintro rfl
    exact hj hmem
  rw [insertNonSubmit_infos, modifyAction_def, modifyInfo_infos, if_neg hne]
  exact ⟨List.Subset.refl _, List.Subset.refl _⟩

theorem update {op : Op} {s₀ : Epoll} (hop : op ≠ .submit) (h : s.AllWait) (hs : Update op s₀ s s') : s'.AllWait := by
  cases hs with
  | insert fd info hmap hinfo => exact h.insert hinfo
  | watch fd id events hid => exact h.modifyInfo (List.Subset.refl _) (List.Subset.refl _)
  | enlist fd id hid hflag =>
    have hlisted : AllWait { s with evtChangeLst := s.evtChangeLst ++ [id] } := h
    exact hlisted.modifyInfo (List.Subset.refl _) (List.Subset.refl _)
  | quiet fd id a hid ha =>
    apply h.modifyInfo
    . rw [ha.nonSubmitReadTask]
      exact List.Subset.refl _
    . rw [ha.nonSubmitWriteTask]
      exact List.Subset.refl _
  | accept fd hasAddrBuffer cb id hop hid => exact h.modifyInfo (List.Subset.refl _) (List.Subset.refl _)
  | group fd group cb opt id t blocks hop hid =>
    have ⟨_, _, heq⟩ := EventAction.addMultishotReadTask_eq (s.infos id).action t blocks
    rw [heq]
    exact h.modifyInfo (List.Subset.refl _) (List.Subset.refl _)
  | buffers buffers => exact h
  | queueRead fd buf cb opt id t isSubmit hop hid htype ht hbuf =>
    have htaken : s.takeTask.AllWait := h
    have hadded : (s.takeTask.modifyAction id fun a => a.addReadTask t).AllWait :=
      htaken.modifyInfo (List.Subset.refl _) (List.Subset.refl _)
    unfold Epoll.queueRead Epoll.pushIfReadable
    split
    . split
      . exact hadded
      . exact hadded
    . exact htaken.modifyAction_insertNonSubmit _
  | queueWrite fd buf cb opt id t isSubmit hop hid ht hbuf =>
    have htaken : s.takeTask.AllWait := h
    have hadded : (s.takeTask.modifyAction id fun a => a.addWriteTask t).AllWait :=
      htaken.modifyInfo (List.Subset.refl _) (List.Subset.refl _)
    unfold Epoll.queueWrite Epoll.pushIfWritable
    split
    . split
      . exact hadded
      . exact hadded
    . exact htaken.modifyAction_insertNonSubmit _
  | pushReady fd id hid => exact h
  | insertNonSubmit fd id hid => exact h.insertNonSubmit id
  | submittedOne id heq hid => exact absurd heq hop
  | submitted heq => exact absurd heq hop
  | close fd heq => exact h
  | «open» fd heq => exact h
  | clear k id a heq hid ha hreads => exact h.modifyInfo ha.nonSubmitReadTask ha.nonSubmitWriteTask

theorem submitted (h : s.AllWait) : s.submitted.2.NoneDeferred := by
  intro id
  rw [action_def, submitted_action]
  split
  . exact ⟨rfl, rfl⟩
  next hnot => exact h id hnot

theorem exec (h : s.AllWait) {op : Op} {r : Int} (hexec : s.exec op = .ok (r, s')) : s'.AllWait := by
  by_cases hop : op = .submit
  . rw [hop] at hexec
    have hsubmit : s.submitted = (r, s') := (submit_eq_ok hexec).2
    rw [show s' = s.submitted.2 by rw [hsubmit]]
    exact fun id _ => h.submitted id
  . have hupdates := exec_updates hexec
    clear hexec
    induction hupdates with
    | refl => exact h
    | tail _ hs ih => exact ih.update hop hs

end AllWait

-- An `event_action` that is looked up and one that waits for `submit` stay until then.
structure Extends (s s' : Epoll) : Prop where
  isInited : s'.isInited = s.isInited
  map : ∀ k id, s.fdToEventInfo k = some id → s'.fdToEventInfo k = some id
  nonSubmit : s.nonSubmitEvents ⊆ s'.nonSubmitEvents

namespace Extends

theorem refl (s : Epoll) : s.Extends s := ⟨rfl, fun _ _ h => h, List.Subset.refl _⟩

theorem trans {s'' : Epoll} (h : s.Extends s') (h' : s'.Extends s'') : s.Extends s'' := by
  refine ⟨h'.isInited.trans h.isInited, fun k id hid => h'.map k id (h.map k id hid), ?_⟩
  exact List.Subset.trans h.nonSubmit h'.nonSubmit

theorem insertNonSubmit (s : Epoll) (id : Nat) : s.Extends (s.insertNonSubmit id) := by
  refine ⟨?_, ?_, (insertNonSubmit_waits s id).2⟩
  . unfold Epoll.insertNonSubmit
    split
    . rfl
    . rfl
  . intro k j hj
    unfold Epoll.insertNonSubmit
    split
    . exact hj
    . exact hj

theorem update {op : Op} {s₀ : Epoll} (hop : op ≠ .submit) (hs : Update op s₀ s s') : s.Extends s' := by
  cases hs with
  | insert fd info hmap hinfo =>
    refine ⟨rfl, ?_, List.Subset.refl _⟩
    intro k id hid
    rw [insert_fdToEventInfo, if_neg, hid]
    rintro rfl
    rw [hmap] at hid
    cases hid
  | queueRead fd buf cb opt id t isSubmit hop hid htype ht hbuf =>
    unfold Epoll.queueRead Epoll.pushIfReadable
    split
    . split
      . exact ⟨rfl, fun _ _ h => h, List.Subset.refl _⟩
      . exact ⟨rfl, fun _ _ h => h, List.Subset.refl _⟩
    . have hadded : s.Extends (s.takeTask.modifyAction id fun a => a.addNonSubmitReadTask t) :=
        ⟨rfl, fun _ _ h => h, List.Subset.refl _⟩
      exact hadded.trans (insertNonSubmit _ id)
  | queueWrite fd buf cb opt id t isSubmit hop hid ht hbuf =>
    unfold Epoll.queueWrite Epoll.pushIfWritable
    split
    . split
      . exact ⟨rfl, fun _ _ h => h, List.Subset.refl _⟩
      . exact ⟨rfl, fun _ _ h => h, List.Subset.refl _⟩
    . have hadded : s.Extends (s.takeTask.modifyAction id fun a => a.addNonSubmitWriteTask t) :=
        ⟨rfl, fun _ _ h => h, List.Subset.refl _⟩
      exact hadded.trans (insertNonSubmit _ id)
  | insertNonSubmit fd id hid => exact insertNonSubmit s id
  | submittedOne id heq hid => exact absurd heq hop
  | submitted heq => exact absurd heq hop
  | _ => exact ⟨rfl, fun _ _ h => h, List.Subset.refl _⟩

theorem exec {op : Op} {r : Int} (hop : op ≠ .submit) (hexec : s.exec op = .ok (r, s')) : s.Extends s' := by
  have hupdates := exec_updates hexec
  clear hexec
  induction hupdates with
  | refl => exact refl s
  | tail _ hs ih => exact ih.trans (update hop hs)

end Extends

-- An accepted task gets the `event_info` of its file, and is added to the deferred ones of its side.
theorem exec_deferred_cases {t : IovTask} {r : Int} (hexec : s.exec t.deferred = .ok (r, s'))
    : (t.accepted s = false ∧ s' = s)
      ∨ t.accepted s = true ∧ ∃ id s₁, s.findOrInsert t.fd = .ok (id, s₁) ∧ s'.fdToEventInfo = s₁.fdToEventInfo
          ∧ id ∈ s'.nonSubmitEvents
          ∧ ∀ j isRead, ((s'.action j).deferredTask isRead).length
              = ((s₁.action j).deferredTask isRead).length + if j = id ∧ isRead = t.isRead then 1 else 0 := by
  cases t with
  | read fd buf cb opt =>
    change s.submitAsyncRead fd buf cb _ = .ok (r, s') at hexec
    unfold submitAsyncRead at hexec
    split at hexec
    next hreject =>
      cases hexec
      exact .inl ⟨IovTask.accepted_eq_false.mpr hreject, rfl⟩
    next haccept =>
      obtain ⟨⟨id, s₁⟩, hfind, hexec⟩ := Except.bind_eq_ok hexec
      cases hexec
      refine .inr ⟨IovTask.accepted_eq_true.mpr haccept, id, s₁, hfind, ?_, (insertNonSubmit_waits _ id).1, ?_⟩
      . rw [queueRead_fdToEventInfo, prepareRead_fdToEventInfo]
      . intro j isRead
        rw [queueRead_deferredTask, prepareRead_deferredTask, List.length_append]
        congr 1
        split
        next h => exact (if_pos ⟨h.1, h.2.2⟩).symm
        next h => exact (if_neg fun h' => h ⟨h'.1, rfl, h'.2⟩).symm
  | write fd buf cb opt =>
    change s.submitAsyncWrite fd buf cb _ = .ok (r, s') at hexec
    unfold submitAsyncWrite at hexec
    split at hexec
    next hreject =>
      cases hexec
      exact .inl ⟨IovTask.accepted_eq_false.mpr hreject, rfl⟩
    next haccept =>
      obtain ⟨⟨id, s₁⟩, hfind, hexec⟩ := Except.bind_eq_ok hexec
      cases hexec
      refine .inr ⟨IovTask.accepted_eq_true.mpr haccept, id, s₁, hfind, ?_, (insertNonSubmit_waits _ id).1, ?_⟩
      . rw [queueWrite_fdToEventInfo, prepareWrite_fdToEventInfo]
      . intro j isRead
        rw [queueWrite_deferredTask, prepareWrite_deferredTask, List.length_append]
        congr 1
        split
        next h => exact (if_pos ⟨h.1, h.2.2⟩).symm
        next h => exact (if_neg fun h' => h ⟨h'.1, rfl, h'.2⟩).symm

theorem exec_deferred_waits {t : IovTask} {r : Int} (hexec : s.exec t.deferred = .ok (r, s')) (haccepted : t.accepted s)
    : ∃ id, s'.fdToEventInfo t.fd.key = some id ∧ id ∈ s'.nonSubmitEvents := by
  rcases exec_deferred_cases hexec with ⟨hreject, _⟩ | ⟨_, id, s₁, hfind, hmap, hmem, _⟩
  . rw [haccepted] at hreject
    cases hreject
  . exact ⟨id, by rw [hmap]; exact findOrInsert_map hfind, hmem⟩

-- The deferred tasks of the list wait for `submit`.
theorem submitAll_waits {tasks : List IovTask} (hall : s.submitAll IovTask.deferred tasks = .ok s')
    : s.Extends s' ∧ (s.AllWait → s'.AllWait)
        ∧ ∀ t ∈ tasks, t.accepted s → ∃ id, s'.fdToEventInfo t.fd.key = some id ∧ id ∈ s'.nonSubmitEvents := by
  induction tasks generalizing s with
  | nil =>
    cases hall
    exact ⟨.refl _, fun h => h, List.forall_mem_nil _⟩
  | cons t tasks ih =>
    obtain ⟨s₁, hcall, hrest⟩ := Except.bind_eq_ok hall
    dsimp only at hcall
    cases hexec : s.exec t.deferred with
    | error f =>
      rw [hexec] at hcall
      cases hcall
    | ok p =>
      obtain ⟨r, s₁'⟩ := p
      rw [hexec] at hcall
      cases hcall
      have hextends := Extends.exec t.deferred_ne_submit hexec
      obtain ⟨hextends', hwaiting, hwaits⟩ := ih hrest
      refine ⟨hextends.trans hextends', fun h => hwaiting (h.exec hexec), ?_⟩
      rw [List.forall_mem_cons]
      constructor
      . intro haccepted
        obtain ⟨id, hid, hmem⟩ := exec_deferred_waits hexec haccepted
        exact ⟨id, hextends'.map _ _ hid, hextends'.nonSubmit hmem⟩
      . intro t' ht' haccepted
        apply hwaits t' ht'
        unfold IovTask.accepted at haccepted ⊢
        rw [hextends.isInited]
        exact haccepted

theorem submittedOne_ready (s : Epoll) (id : Nat)
    : s.readyEvents ⊆ (s.submittedOne id).readyEvents
        ∧ ((s.infos id).action.isReadable ∨ (s.infos id).action.isWritable → id ∈ (s.submittedOne id).readyEvents) := by
  rw [submittedOne_readyEvents]
  split
  . exact ⟨List.subset_append_left _ _, fun _ => by simp⟩
  next hnot => exact ⟨List.Subset.refl _, fun h => absurd h hnot⟩

theorem foldl_submittedOne_ready (ids : List Nat) (s : Epoll)
    : s.readyEvents ⊆ (ids.foldl submittedOne s).readyEvents
        ∧ ∀ id ∈ ids, (s.infos id).action.isReadable ∨ (s.infos id).action.isWritable
          → id ∈ (ids.foldl submittedOne s).readyEvents := by
  induction ids generalizing s with
  | nil => exact ⟨List.Subset.refl _, List.forall_mem_nil _⟩
  | cons j ids ih =>
    obtain ⟨hsubset, hready⟩ := ih (s.submittedOne j)
    obtain ⟨hone, hready'⟩ := submittedOne_ready s j
    refine ⟨List.Subset.trans hone hsubset, ?_⟩
    rw [List.forall_mem_cons]
    refine ⟨fun h => hsubset (hready' h), ?_⟩
    intro id hid hflag
    apply hready id hid
    rw [submittedOne_infos]
    split
    next heq =>
      rw [heq] at hflag
      exact hflag
    . exact hflag

theorem submitted_awaits (hid : s.fdToEventInfo fd.key = some id) (hmem : id ∈ s.nonSubmitEvents)
    : s.submitted.2.Awaits fd := by
  refine ⟨id, by rw [(submitted_lists s).map, hid], ?_⟩
  intro hflag
  rw [action_def, submitted_action, if_pos hmem] at hflag
  unfold submitted
  rw [if_neg (List.ne_nil_of_mem hmem)]
  exact (foldl_submittedOne_ready s.nonSubmitEvents s).2 id hmem hflag

theorem Delays.sameQueues (h : d.Delays i) (hwaiting : d.AllWait) : SameQueues d.submitted.2 i := by
  have hlists := submitted_lists d
  have hdelays : ∀ id, EventAction.Delays (d.submitted.2.infos id).action (i.infos id).action := by
    intro id
    have hid := (h.infos id).action
    rw [submitted_action]
    split
    . refine { hid with pendingReadTask := ?_, pendingWriteTask := ?_ }
      . rw [hid.pendingReadTask]
        exact (List.append_nil _).symm
      . rw [hid.pendingWriteTask]
        exact (List.append_nil _).symm
    . exact hid
  have hnone : ∀ id, (d.submitted.2.infos id).action.nonSubmitReadTask = []
      ∧ (d.submitted.2.infos id).action.nonSubmitWriteTask = [] := hwaiting.submitted
  constructor
  . rw [h.map, hlists.map]
  . rw [h.change, hlists.change]
  . intro id
    rw [action_def, action_def, (hdelays id).pendingReadTask, (hnone id).1, List.append_nil]
  . intro id
    rw [action_def, action_def, (hdelays id).pendingWriteTask, (hnone id).2, List.append_nil]
  . exact fun id => (hdelays id).readBufIdxCallback
  . exact fun id => (hdelays id).writeCallback
  . exact fun id => (hdelays id).readOffset
  . exact fun id => (hdelays id).writeOffset

theorem exec_deferred_error_iff {t : IovTask}
    : (∃ f, s.exec t.deferred = .error f)
        ↔ t.accepted s = true ∧ s.fdToEventInfo t.fd.key = none ∧ t.fd.type = .unknown := by
  have hfind : (∃ f, s.findOrInsert t.fd = .error f) ↔ s.fdToEventInfo t.fd.key = none ∧ t.fd.type = .unknown := by
    unfold Epoll.findOrInsert EventInfo.new EventAction.new
    cases s.fdToEventInfo t.fd.key with
    | some id => exact ⟨nofun, nofun⟩
    | none =>
      by_cases htype : t.fd.type = .unknown
      . rw [if_pos htype]
        exact ⟨fun _ => ⟨rfl, htype⟩, fun _ => ⟨_, rfl⟩⟩
      . rw [if_neg htype]
        exact ⟨nofun, fun h => absurd h.2 htype⟩
  have hcall : (∃ f, s.exec t.deferred = .error f) ↔ t.accepted s = true ∧ ∃ f, s.findOrInsert t.fd = .error f := by
    cases t with
    | read fd buf cb opt =>
      change (∃ f, s.submitAsyncRead fd buf cb _ = .error f) ↔ _
      unfold submitAsyncRead
      rw [IovTask.accepted_eq_true]
      split
      next hreject => exact ⟨nofun, fun h => absurd hreject h.1⟩
      next haccept =>
        refine Iff.trans ?_ (and_iff_right haccept).symm
        show _ ↔ ∃ f, s.findOrInsert fd = .error f
        cases s.findOrInsert fd with
        | error f => exact iff_of_true ⟨f, rfl⟩ ⟨f, rfl⟩
        | ok p => exact ⟨nofun, nofun⟩
    | write fd buf cb opt =>
      change (∃ f, s.submitAsyncWrite fd buf cb _ = .error f) ↔ _
      unfold submitAsyncWrite
      rw [IovTask.accepted_eq_true]
      split
      next hreject => exact ⟨nofun, fun h => absurd hreject h.1⟩
      next haccept =>
        refine Iff.trans ?_ (and_iff_right haccept).symm
        show _ ↔ ∃ f, s.findOrInsert fd = .error f
        cases s.findOrInsert fd with
        | error f => exact iff_of_true ⟨f, rfl⟩ ⟨f, rfl⟩
        | ok p => exact ⟨nofun, nofun⟩
  rw [hcall, hfind]

theorem submitAll_cons (op : IovTask → Op) (t : IovTask) (tasks : List IovTask) (s : Epoll)
    : s.submitAll op (t :: tasks) = s.exec (op t) >>= fun p => p.2.submitAll op tasks := by
  unfold submitAll
  rw [List.foldlM_cons]
  cases s.exec (op t) with
  | error f => rfl
  | ok p => rfl

-- What the call for an accepted task does to the table of files.
theorem exec_deferred_map {t : IovTask} {r : Int} (hexec : s.exec t.deferred = .ok (r, s')) (k : Nat)
    : s'.fdToEventInfo k = none ↔ s.fdToEventInfo k = none ∧ ¬(t.accepted s = true ∧ t.fd.key = k) := by
  rcases exec_deferred_cases hexec with ⟨hreject, rfl⟩ | ⟨haccept, id, s₁, hfind, hmap, _, _⟩
  . simp [hreject]
  . rw [hmap]
    rcases findOrInsert_cases hfind with ⟨hold, rfl⟩ | ⟨hnone, rfl, info, hinfo, rfl⟩
    . constructor
      . intro hk
        refine ⟨hk, ?_⟩
        rintro ⟨_, rfl⟩
        rw [hold] at hk
        cases hk
      . exact fun h => h.1
    . rw [insert_fdToEventInfo]
      by_cases hk : k = t.fd.key
      . rw [if_pos hk]
        exact ⟨nofun, fun h => absurd ⟨haccept, hk.symm⟩ h.2⟩
      . rw [if_neg hk]
        exact ⟨fun h => ⟨h, fun h' => hk h'.2.symm⟩, fun h => h.1⟩

theorem submitAll_error_iff (s : Epoll) (tasks : List IovTask)
    : (∃ f, s.submitAll IovTask.deferred tasks = .error f) ↔ s.Asserts tasks := by
  induction tasks generalizing s with
  | nil =>
    constructor
    . rintro ⟨f, hf⟩
      cases hf
    . rintro ⟨t, hfind, -⟩
      cases hfind
  | cons t tasks ih =>
    rw [submitAll_cons]
    cases hexec : s.exec t.deferred with
    | error f =>
      obtain ⟨haccept, hnone, htype⟩ := exec_deferred_error_iff.mp ⟨f, hexec⟩
      refine iff_of_true ⟨f, rfl⟩ ⟨t, ?_, hnone, htype⟩
      rw [List.find?_cons_of_pos]
      rw [haccept, Bool.true_and]
      exact beq_self_eq_true _
    | ok p =>
      obtain ⟨r, s'⟩ := p
      have hinited : s'.isInited = s.isInited := (Extends.exec t.deferred_ne_submit hexec).isInited
      have haccepted : ∀ u : IovTask, u.accepted s' = u.accepted s := by
        intro u
        unfold IovTask.accepted
        rw [hinited]
      refine (ih s').trans ?_
      unfold Asserts
      constructor
      . rintro ⟨u, hfind, hnone, htype⟩
        obtain ⟨hnone, hother⟩ := (exec_deferred_map hexec _).mp hnone
        refine ⟨u, ?_, hnone, htype⟩
        rw [List.find?_cons_of_neg]
        . simpa only [haccepted] using hfind
        . simpa using hother
      . rintro ⟨u, hfind, hnone, htype⟩
        by_cases hfirst : t.accepted s = true ∧ t.fd.key = u.fd.key
        . rw [List.find?_cons_of_pos (by simpa using hfirst)] at hfind
          cases hfind
          obtain ⟨f, herror⟩ := exec_deferred_error_iff.mpr ⟨hfirst.1, hnone, htype⟩
          rw [hexec] at herror
          cases herror
        . rw [List.find?_cons_of_neg (by simpa using hfirst)] at hfind
          exact ⟨u, by simpa only [haccepted] using hfind, (exec_deferred_map hexec _).mpr ⟨hnone, hfirst⟩, htype⟩

-- How many tasks wait for `submit` after the tasks `done` have been deferred in the state `s`.
structure Deferring (s : Epoll) (done : List IovTask) (d : Epoll) : Prop where
  extension : s.Extends d
  wf : d.Wf
  waits : d.AllWait
  mapped : ∀ t ∈ done, t.accepted s = true → d.fdToEventInfo t.fd.key ≠ none
  fresh : ∀ k id, d.fdToEventInfo k = some id → s.fdToEventInfo k = some id
    ∨ s.fdToEventInfo k = none ∧ ∀ isRead, (s.action id).deferredTask isRead = []
  length : ∀ id isRead, ((d.action id).deferredTask isRead).length = ((s.action id).deferredTask isRead).length
    + done.countP (fun t => t.accepted s && t.isRead == isRead && d.fdToEventInfo t.fd.key == some id)

theorem AllWait.deferredTask (h : s.AllWait) (hid : id ∉ s.nonSubmitEvents) (isRead : Bool)
    : (s.action id).deferredTask isRead = [] := by
  cases isRead with
  | true => exact (h id hid).1
  | false => exact (h id hid).2

theorem AllWait.countable_iff (h : s.AllWait) : s.Countable ↔ ∀ id, (s.action id).Countable := by
  refine ⟨fun hcount id => ?_, fun hcount id _ => hcount id⟩
  by_cases hid : id ∈ s.nonSubmitEvents
  . exact hcount id hid
  . rw [EventAction.countable_iff]
    intro isRead
    rw [h.deferredTask hid]
    exact Nat.two_pow_pos 32

namespace Deferring

variable {done : List IovTask} {t : IovTask}

theorem refl (hwf : s.Wf) (hwaits : s.AllWait) : s.Deferring [] s :=
  ⟨.refl s, hwf, hwaits, List.forall_mem_nil _, fun _ _ h => .inl h, fun _ _ => rfl⟩

theorem exec {r : Int} (h : s.Deferring done d) (hexec : d.exec t.deferred = .ok (r, s'))
    : s.Deferring (done ++ [t]) s' := by
  have hextends := Extends.exec t.deferred_ne_submit hexec
  have haccepted : t.accepted d = t.accepted s := by
    unfold IovTask.accepted
    rw [h.extension.isInited]
  have hmapped : ∀ u ∈ done, u.accepted s = true → s'.fdToEventInfo u.fd.key = d.fdToEventInfo u.fd.key := by
    intro u hu hacc
    obtain ⟨id, hid⟩ := Option.ne_none_iff_exists'.mp (h.mapped u hu hacc)
    rw [hid, hextends.map _ _ hid]
  have hold : ∀ id isRead,
      done.countP (fun u => u.accepted s && u.isRead == isRead && s'.fdToEventInfo u.fd.key == some id)
        = done.countP (fun u => u.accepted s && u.isRead == isRead && d.fdToEventInfo u.fd.key == some id) := by
    intro id isRead
    apply List.countP_congr
    intro u hu
    cases hacc : u.accepted s with
    | false => simp
    | true => rw [hmapped u hu hacc]
  refine ⟨h.extension.trans hextends, h.wf.updates (exec_updates hexec), h.waits.exec hexec, ?_, ?_, ?_⟩
  . intro u hu hacc
    rw [List.mem_append, List.mem_singleton] at hu
    rcases hu with hu | rfl
    . rw [hmapped u hu hacc]
      exact h.mapped u hu hacc
    . intro hnone
      exact ((exec_deferred_map hexec _).mp hnone).2 ⟨haccepted.trans hacc, rfl⟩
  all_goals
    rcases exec_deferred_cases hexec with ⟨hreject, heq⟩ | ⟨haccept, id, s₁, hfind, hmap, _, hlength⟩
  . rw [heq]
    exact h.fresh
  . intro k j hj
    rw [hmap] at hj
    rcases findOrInsert_cases hfind with ⟨_, heq⟩ | ⟨hnone, _, info, _, heq⟩
    . rw [heq] at hj
      exact h.fresh k j hj
    . rw [heq, insert_fdToEventInfo] at hj
      split at hj
      next hk =>
        cases hj
        right
        constructor
        . by_contra hsome
          obtain ⟨i, hi⟩ := Option.ne_none_iff_exists'.mp hsome
          have hi := h.extension.map _ _ hi
          rw [hk, hnone] at hi
          cases hi
        . intro isRead
          have hnew := h.waits.deferredTask (fun hmem => Nat.lt_irrefl _ (h.wf.nonSubmit _ hmem)) isRead
          have hlength := h.length d.next isRead
          rw [hnew, List.length_nil] at hlength
          exact List.eq_nil_of_length_eq_zero (by omega)
      . exact h.fresh k j hj
  . intro j isRead
    rw [List.countP_append, hold, ← Nat.add_assoc, ← h.length, heq, List.countP_singleton, ← haccepted, hreject]
    rfl
  . intro j isRead
    have hfound : ((s₁.action j).deferredTask isRead).length = ((d.action j).deferredTask isRead).length := by
      rw [findOrInsert_deferredTask hfind]
      split
      next hnew =>
        rw [hnew.2, h.waits.deferredTask (fun hmem => Nat.lt_irrefl _ (h.wf.nonSubmit _ hmem))]
      . rfl
    have hkey : s'.fdToEventInfo t.fd.key = some id := by
      rw [hmap]
      exact findOrInsert_map hfind
    rw [hlength, hfound, List.countP_append, hold, ← Nat.add_assoc, ← h.length, List.countP_singleton, ← haccepted,
      haccept, hkey]
    congr 1
    apply if_congr _ rfl rfl
    rw [Bool.true_and, Bool.and_eq_true, beq_iff_eq, beq_iff_eq, Option.some.injEq]
    exact ⟨fun h => ⟨h.2.symm, h.1.symm⟩, fun h => ⟨h.2.symm, h.1.symm⟩⟩

theorem submitAll {tasks : List IovTask} (h : s.Deferring done d)
    (hall : d.submitAll IovTask.deferred tasks = .ok s')
    : s.Deferring (done ++ tasks) s' := by
  induction tasks generalizing d done with
  | nil =>
    cases hall
    rw [List.append_nil]
    exact h
  | cons t tasks ih =>
    rw [submitAll_cons] at hall
    obtain ⟨⟨r, d'⟩, hexec, hall⟩ := Except.bind_eq_ok hall
    have hrest := ih (h.exec hexec) hall
    rw [List.append_assoc] at hrest
    exact hrest

-- The tasks of one `event_action` are those of one file.
theorem length_of_map (h : s.Deferring done d) {k : Nat} (hid : d.fdToEventInfo k = some id) (isRead : Bool)
    : ((d.action id).deferredTask isRead).length
        = s.deferredCount isRead k
          + done.countP (fun t => t.accepted s && t.isRead == isRead && t.fd.key == k) := by
  have hcount : s.deferredCount isRead k = ((s.action id).deferredTask isRead).length := by
    unfold deferredCount
    rcases h.fresh k id hid with hmap | ⟨hnone, hnil⟩
    . rw [hmap]
    . rw [hnone, hnil]
      rfl
  rw [h.length, hcount]
  congr 1
  apply List.countP_congr
  intro t _
  simp only [Bool.and_eq_true, beq_iff_eq]
  apply and_congr_right
  intro _
  constructor
  . intro hkey
    exact (h.wf.map _ _ hkey).2.symm.trans (h.wf.map _ _ hid).2
  . rintro rfl
    exact hid

theorem countable_iff (h : s.Deferring done d) (hwaits : s.AllWait) : d.Countable ↔ s.Fits done := by
  constructor
  . intro hcount
    refine ⟨?_, ?_⟩
    . intro id hid
      have hlarger := hcount id (h.extension.nonSubmit hid)
      rw [EventAction.countable_iff] at hlarger ⊢
      intro isRead
      have hlength := h.length id isRead
      have := hlarger isRead
      omega
    . intro isRead k
      cases hid : d.fdToEventInfo k with
      | some id =>
        rw [← h.length_of_map hid]
        exact (EventAction.countable_iff _).mp (h.waits.countable_iff.mp hcount id) isRead
      | none =>
        have hnone : s.fdToEventInfo k = none := by
          by_contra hsome
          obtain ⟨i, hi⟩ := Option.ne_none_iff_exists'.mp hsome
          rw [h.extension.map _ _ hi] at hid
          cases hid
        have hzero : done.countP (fun t => t.accepted s && t.isRead == isRead && t.fd.key == k) = 0 := by
          rw [List.countP_eq_zero]
          intro t ht hp
          simp only [Bool.and_eq_true, beq_iff_eq] at hp
          apply h.mapped t ht hp.1.1
          rw [hp.2]
          exact hid
        unfold deferredCount
        rw [hzero, hnone]
        exact Nat.two_pow_pos 32
  . rintro ⟨hcount, hfits⟩ id _
    rw [EventAction.countable_iff]
    intro isRead
    by_cases hsome : ∃ t ∈ done, d.fdToEventInfo t.fd.key = some id
    . obtain ⟨t, _, hid⟩ := hsome
      rw [h.length_of_map hid]
      exact hfits isRead _
    . have hzero
          : done.countP (fun t => t.accepted s && t.isRead == isRead && d.fdToEventInfo t.fd.key == some id) = 0 := by
        rw [List.countP_eq_zero]
        intro t ht hp
        simp only [Bool.and_eq_true, beq_iff_eq] at hp
        exact hsome ⟨t, ht, hp.2⟩
      rw [h.length, hzero]
      exact (EventAction.countable_iff _).mp (hwaits.countable_iff.mp hcount id) isRead

end Deferring

theorem NoneDeferred.fits {tasks : List IovTask} (h : s.NoneDeferred) (hlength : tasks.length < 2 ^ 32)
    : s.Fits tasks := by
  have hnil : ∀ id isRead, (s.action id).deferredTask isRead = [] := by
    intro id isRead
    cases isRead with
    | true => exact (h id).1
    | false => exact (h id).2
  constructor
  . intro id _
    rw [EventAction.countable_iff]
    intro isRead
    rw [hnil]
    exact Nat.two_pow_pos 32
  . intro isRead k
    have hzero : s.deferredCount isRead k = 0 := by
      unfold deferredCount
      split
      . rw [hnil]
        rfl
      . rfl
    rw [hzero, Nat.zero_add]
    exact Nat.lt_of_le_of_lt List.countP_le_length hlength

-- The fault of an assertion is the same either way, otherwise everything depends on the counters of `submit`.
theorem Delays.submitsAlike_iff (h : s.Delays i) (hwf : s.Wf) (hwaits : s.AllWait) (tasks : List IovTask)
    : s.SubmitsAlike i tasks ↔ s.Asserts tasks ∨ s.Fits tasks := by
  have hall : Except.Matches Delays (s.submitAll IovTask.deferred tasks) (i.submitAll IovTask.immediate tasks) := by
    apply Except.Matches.foldlM _ tasks h
    intro d i t hdi
    exact (hdi.call t).map fun _ _ hr => hr.2
  unfold SubmitsAlike
  cases hd : s.submitAll IovTask.deferred tasks with
  | error f =>
    rw [hd] at hall
    refine iff_of_true ?_ (.inl ((submitAll_error_iff s tasks).mp ⟨f, hd⟩))
    cases hi : i.submitAll IovTask.immediate tasks with
    | error f' =>
      rw [hi] at hall
      exact hall
    | ok i' =>
      rw [hi] at hall
      exact hall.elim
  | ok d =>
    rw [hd] at hall
    have hasserts : ¬s.Asserts tasks := by
      rw [← submitAll_error_iff, hd]
      nofun
    have hdone : s.Deferring tasks d := (Deferring.refl hwf hwaits).submitAll hd
    rw [or_iff_right hasserts, ← hdone.countable_iff hwaits]
    cases hi : i.submitAll IovTask.immediate tasks with
    | error f' =>
      rw [hi] at hall
      exact hall.elim
    | ok i' =>
      rw [hi] at hall
      obtain ⟨_, hkeeps, hmem⟩ := submitAll_waits hd
      constructor
      . rintro ⟨r, d', hsubmit, _⟩
        exact (submit_eq_ok hsubmit).1
      . intro hcount
        refine ⟨_, _, submit_of_countable hcount, Delays.sameQueues hall (hkeeps hwaits), (hkeeps hwaits).submitted, ?_⟩
        intro t ht haccepted
        obtain ⟨id, hid, hmem⟩ := hmem t ht haccepted
        exact submitted_awaits hid hmem

end Epoll

theorem Epoll.AllWait.runFrame : RunFrame (fun _ => True) (fun _ => True) (fun w => w.poll.AllWait) := by
  constructor
  . apply EventFrame.of_handled
    . intro op _
      apply exec_triple
      . intro w r s hw hexec
        exact hw.exec hexec
      . intro w f hw _
        exact hw
    . intro w sys user log hw
      exact hw
    . rintro w id _ ⟨_, _, _, _, _, _, _, _, rfl⟩ hw
      exact hw.modifyInfo (List.Subset.refl _) (List.Subset.refl _)
    . intro w group f hw
      exact hw
    . intro w ready _ hw
      exact hw
  . intro w hw
    have hsame := applyChanges_sameTasks w.poll
    intro id hid
    rw [hsame.nonSubmitEvents] at hid
    rw [action_def, hsame.action]
    exact hw id hid
  . intro w hw
    exact hw
  . intro w errs _ hw
    exact hw

theorem Epoll.init_waiting (isOpen : Nat → Bool) : (Epoll.init isOpen).AllWait := fun _ _ => ⟨rfl, rfl⟩

theorem run_waiting (isOpen : Nat → Bool) (sts : List Step) : (run sts (World.init isOpen)).state.poll.AllWait :=
  (Epoll.AllWait.runFrame.run (fun st _ => st.calls_true) fun _ _ => trivial).state (Epoll.init_waiting isOpen)

theorem run_submitsAlike_iff (isOpen : Nat → Bool) (sts : List Step) (tasks : List IovTask) {s i : Epoll}
    (hs : (run sts (World.init isOpen)).state.poll = s) (h : s.Delays i)
    : s.SubmitsAlike i tasks ↔ s.Asserts tasks ∨ s.Fits tasks := by
  subst hs
  have hwf : (run sts (World.init isOpen)).state.poll.Wf :=
    (Epoll.Wf.runFrame.run (fun st _ => st.calls_true) fun _ _ => trivial).state (.init isOpen)
  exact h.submitsAlike_iff hwf (run_waiting isOpen sts) tasks

/--
In every state that a run stops in (with a fault as well, so that the calls of a callback are covered), a list of tasks
is deferred and submitted. If nothing is deferred yet, the outcome is that of submitting the same list at once; in
general, it is that of submitting first what is already deferred, and then the list. Either way this holds if and only
if `submit` can count the tasks of every file, or an assertion ends the calls.
-/
theorem deferred_submitsAlike_iff (isOpen : Nat → Bool) (sts : List Step) (tasks : List IovTask)
    : let s := (run sts (World.init isOpen)).state.poll
      (s.NoneDeferred → (s.SubmitsAlike s tasks ↔ s.Asserts tasks ∨ s.Fits tasks))
        ∧ ∀ r s', s.submit = .ok (r, s') → (s.SubmitsAlike s' tasks ↔ s.Asserts tasks ∨ s.Fits tasks) := by
  refine ⟨fun hnone => run_submitsAlike_iff isOpen sts tasks rfl hnone.delays, ?_⟩
  intro r s' hsubmit
  have hdelays := (run_waiting isOpen sts).delays_submitted
  rw [(Epoll.submit_eq_ok hsubmit).2] at hdelays
  exact run_submitsAlike_iff isOpen sts tasks rfl hdelays

-- As many writes to one socket as a `uint32_t` cannot count.
def uncountedWrites : List IovTask := List.replicate (2 ^ 32) (.write ⟨3, .tcp⟩ ⟨false, [⟨0, 1⟩]⟩ (some 7) none)

theorem uncountedWrites_not_fits {s : Epoll} (hinited : s.isInited = true)
    : ¬(s.Asserts uncountedWrites ∨ s.Fits uncountedWrites) := by
  rintro (⟨t, hfind, _, hunknown⟩ | ⟨_, hfits⟩)
  . rw [List.eq_of_mem_replicate (List.mem_of_find?_eq_some hfind)] at hunknown
    cases hunknown
  . apply Nat.lt_irrefl (2 ^ 32)
    have hfits := hfits false 3
    unfold uncountedWrites at hfits
    rw [List.countP_replicate, if_pos] at hfits
    . exact Nat.lt_of_le_of_lt (Nat.le_add_left _ _) hfits
    . unfold IovTask.accepted
      rw [hinited]
      rfl

theorem uncountedWrites_not_submitsAlike
    : let s := (run [] (World.init fun _ => true)).state.poll
      s.NoneDeferred ∧ ¬s.SubmitsAlike s uncountedWrites := by
  intro s
  have hnone : s.NoneDeferred := fun _ => ⟨rfl, rfl⟩
  refine ⟨hnone, ?_⟩
  rw [run_submitsAlike_iff (fun _ => true) [] uncountedWrites rfl hnone.delays]
  exact uncountedWrites_not_fits rfl

-- A socket is written to and is known to be writable since then.
def writableSocket : List Step :=
  [.op (.submitAsyncWrite ⟨3, .tcp⟩ ⟨false, [⟨0, 8⟩]⟩ (some 7) none),
    .dispatch (some [(3, ⟨false, true, false⟩)]) [.ok 8 []] [] []]

-- It is written to and read from, and so is another one.
def twoSockets : List IovTask :=
  [.write ⟨3, .tcp⟩ ⟨false, [⟨8, 8⟩]⟩ none none, .read ⟨4, .tcp⟩ ⟨false, [⟨16, 8⟩]⟩ (some 9) none,
    .read ⟨3, .tcp⟩ ⟨false, [⟨24, 8⟩]⟩ (some 9) none]

theorem twoSockets_submitsAlike
    : let s := (run writableSocket (World.init fun _ => true)).state.poll
      (s.action 0).isWritable ∧ s.NoneDeferred ∧ s.SubmitsAlike s twoSockets := by
  have hnone : (run writableSocket (World.init fun _ => true)).state.poll.NoneDeferred :=
    (run_waiting _ writableSocket).noneDeferred (by decide +kernel)
  have hlength : twoSockets.length < 2 ^ 32 := by simp [twoSockets]
  refine ⟨by decide +kernel, hnone, ?_⟩
  exact ((deferred_submitsAlike_iff (fun _ => true) writableSocket twoSockets).1 hnone).mpr (.inr (hnone.fits hlength))

end Event
end Ezio
