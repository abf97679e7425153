import Ezio.Event.Epoll.Rings

/-!
This module contains the calls of the epoll backend that multishot reads and buffer groups are managed with, and that
each of them does to the rings what the operation of the same name does.
-/

namespace Ezio
namespace Event

inductive RingCall where
  | read (fd : Fd) (group : Nat) (cb : Option Callback) (opt : Option ReadOptions)
  | cancel (fd : Fd) (cb : Option Callback)
  | register (blockSize blockCount : Nat) (addrs : List Nat)
  | unregister (group : Nat)
  deriving DecidableEq, Repr

namespace RingCall

def op : RingCall → Op
  | .read fd group cb opt => .submitAsyncReadGroup fd group cb opt
  | .cancel fd cb => .cancelAsyncRead fd cb
  | .register blockSize blockCount addrs => .registerRingBuffer blockSize blockCount addrs
  | .unregister group => .unregisterRingBuffer group

-- A call that runs into freed memory leaves no state behind, what comes after it is not looked at.
def step (s : Epoll) (c : RingCall) : Epoll :=
  match s.exec c.op with
  | .ok (_, s') => s'
  | .error _ => s

end RingCall

namespace Epoll

def rings (s : Epoll) : Rings :=
  { shots := fun fd => (s.fdToEventInfo fd).map fun id => (s.action id).shot
    buffers := s.buffers }

-- The read of a buffer group is not rejected.
def accepts (s : Epoll) (fd : Fd) (group : Nat) : Bool :=
  s.isInited && 0 < fd.num && (fd.type = .tcp || fd.type = .udp) && (s.bufferOf group).isSome

def groupTask (group : Nat) (opt : Option ReadOptions) : MultishotTask :=
  { bufRing := group, needSockDetail := (opt.map (·.needSocketDetail)).getD false,
    isSubmit := (opt.map (·.isSubmit)).getD true }

-- Every file descriptor has an `event_action` of its own.
structure Keyed (s : Epoll) : Prop where
  map : ∀ fd id, s.fdToEventInfo fd = some id → id < s.next ∧ (s.infos id).action.fd.key = fd

-- The parts that the rings are seen in are the same.
structure SameRings (s s' : Epoll) : Prop where
  map : s'.fdToEventInfo = s.fdToEventInfo
  next : s'.next = s.next
  buffers : s'.buffers = s.buffers
  shot : ∀ id, (s'.infos id).action.shot = (s.infos id).action.shot

namespace SameRings

variable {s s' s'' : Epoll}

theorem refl (s : Epoll) : s.SameRings s := ⟨rfl, rfl, rfl, fun _ => rfl⟩

theorem trans (h : s.SameRings s') (h' : s'.SameRings s'') : s.SameRings s'' := by
  constructor
  . rw [h'.map, h.map]
  . rw [h'.next, h.next]
  . rw [h'.buffers, h.buffers]
  . intro id
    rw [h'.shot, h.shot]

theorem rings_eq (h : s.SameRings s') : s'.rings = s.rings := by
  unfold rings
  rw [h.map, h.buffers]
  simp only [action_def, h.shot]

theorem keyed (h : s.SameRings s') (hkeyed : s.Keyed) : s'.Keyed := by
  constructor
  intro fd id hid
  rw [h.map] at hid
  rw [h.next, show (s'.infos id).action.fd = (s.infos id).action.fd from congrArg Shot.fd (h.shot id)]
  exact hkeyed.map fd id hid

end SameRings

theorem modifyInfo_sameRings (s : Epoll) (id : Nat) {f : EventInfo → EventInfo}
    (hf : ∀ info, (f info).action.shot = info.action.shot)
    : s.SameRings (s.modifyInfo id f) := by
  refine ⟨rfl, rfl, rfl, ?_⟩
  intro j
  rw [modifyInfo_infos]
  split
  next heq => rw [hf, heq]
  . rfl

theorem setReadCb_sameRings (s : Epoll) (id : Nat) (cb : Option ReadCallback) : s.SameRings (s.setReadCb id cb) := by
  unfold setReadCb
  split
  . apply modifyInfo_sameRings
    intro info
    rfl
  . exact .refl s

theorem setAction_sameRings (s : Epoll) (id : Nat) {a : EventAction} (ha : a.shot = (s.infos id).action.shot)
    : s.SameRings (s.setAction id a) := by
  refine ⟨rfl, rfl, rfl, ?_⟩
  intro j
  rw [setAction_def, modifyInfo_infos]
  split
  next heq => rw [heq, ha]
  . rfl

theorem pushToChangeList_sameRings (s : Epoll) (id : Nat) : s.SameRings (s.pushToChangeList id) := by
  unfold pushToChangeList
  split
  . exact .refl s
  . have hlisted : s.SameRings { s with evtChangeLst := s.evtChangeLst ++ [id] } := ⟨rfl, rfl, rfl, fun _ => rfl⟩
    apply hlisted.trans
    apply modifyInfo_sameRings
    intro info
    rfl

theorem watchRead_sameRings (s : Epoll) (id : Nat) : s.SameRings (s.watchRead id) := by
  unfold watchRead
  split
  . exact .refl s
  . apply SameRings.trans _ (pushToChangeList_sameRings _ id)
    apply modifyInfo_sameRings
    intro info
    rfl

theorem pushIfReadable_sameRings (s : Epoll) (id : Nat) : s.SameRings (s.pushIfReadable id) := by
  unfold pushIfReadable
  split
  . exact ⟨rfl, rfl, rfl, fun _ => rfl⟩
  . exact .refl s

theorem insertNonSubmit_sameRings (s : Epoll) (id : Nat) : s.SameRings (s.insertNonSubmit id) := by
  unfold insertNonSubmit
  split
  . exact .refl s
  . exact ⟨rfl, rfl, rfl, fun _ => rfl⟩

variable {s s' : Epoll} {id group : Nat} {fd : Fd}

theorem rings_bufferOf (s : Epoll) (group : Nat) : s.rings.bufferOf group = s.bufferOf group := rfl

theorem rings_modifyBuffer (s : Epoll) (group : Nat) (f : RingBufferInfo → RingBufferInfo)
    : (s.modifyBuffer group f).rings = s.rings.modifyBuffer group f := rfl

theorem rings_shots {k : Nat} (hid : s.fdToEventInfo k = some id)
    : s.rings.shots k = some (s.infos id).action.shot := by
  show (s.fdToEventInfo k).map _ = _
  rw [hid]
  rfl

namespace Keyed

theorem eq (h : s.Keyed) {k k' : Nat} (hid : s.fdToEventInfo k = some id) (hid' : s.fdToEventInfo k' = some id)
    : k = k' :=
  (h.map k id hid).2.symm.trans (h.map k' id hid').2

theorem setAction (h : s.Keyed) {a : EventAction} (hfd : a.fd = (s.infos id).action.fd) : (s.setAction id a).Keyed := by
  constructor
  intro k j hj
  have hkey := h.map k j hj
  rw [setAction_def, modifyInfo_infos]
  split
  next heq =>
    rw [heq] at hkey
    rw [heq, hfd]
    exact hkey
  . exact hkey

theorem rings_setAction (h : s.Keyed) {k : Nat} (hid : s.fdToEventInfo k = some id) (a : EventAction)
    : (s.setAction id a).rings = s.rings.setShot k a.shot := by
  have hshots : (s.setAction id a).rings.shots = (s.rings.setShot k a.shot).shots := by
    funext k'
    rw [Rings.shots_setShot]
    show (s.fdToEventInfo k').map _ = _
    by_cases hk : k' = k
    . rw [hk, hid, if_pos rfl]
      simp
    . rw [if_neg hk]
      show _ = (s.fdToEventInfo k').map _
      apply Option.map_congr
      intro j hj
      have hne : j ≠ id := by
        rintro rfl
        exact hk (h.eq hj hid)
      simp [hne]
  show Rings.mk (s.setAction id a).rings.shots s.buffers = _
  rw [hshots]
  rfl

theorem insert (h : s.Keyed) {info : EventInfo} (hinfo : EventInfo.new fd = .ok info) : (s.insert fd info).Keyed := by
  have hnext : (s.insert fd info).next = s.next + 1 := rfl
  constructor
  intro k j hj
  rw [insert_fdToEventInfo] at hj
  rw [hnext, insert_infos]
  split at hj
  next heq =>
    cases hj
    rw [if_pos rfl, EventInfo.new_eq_ok hinfo]
    simp [EventAction.blank, heq]
  . have := h.map k j hj
    rw [if_neg (by omega)]
    exact ⟨by omega, this.2⟩

theorem rings_insert (h : s.Keyed) {info : EventInfo} (hinfo : EventInfo.new fd = .ok info)
    : (s.insert fd info).rings = s.rings.setShot fd.key (Shot.new fd) := by
  have hshots : (s.insert fd info).rings.shots = (s.rings.setShot fd.key (Shot.new fd)).shots := by
    funext k
    rw [Rings.shots_setShot]
    show ((s.insert fd info).fdToEventInfo k).map _ = _
    rw [insert_fdToEventInfo]
    split
    . have ⟨_, _, _, hops⟩ := EventAction.setFdOps_eq (EventAction.blank fd) fd.type
      rw [Option.map_some, action_def, insert_infos, if_pos rfl, EventInfo.new_eq_ok hinfo]
      dsimp only
      rw [hops]
      rfl
    . show _ = (s.fdToEventInfo k).map _
      apply Option.map_congr
      intro j hj
      have hne : j ≠ s.next := by
        have := (h.map k j hj).1
        omega
      simp [hne]
  show Rings.mk (s.insert fd info).rings.shots s.buffers = _
  rw [hshots]
  rfl

end Keyed

-- The `event_action` that a call works on is there afterwards, a new one has no multishot read.
theorem findOrInsert_rings (h : s.Keyed) (hfind : s.findOrInsert fd = .ok (id, s'))
    : s'.Keyed ∧ s'.fdToEventInfo fd.key = some id ∧ (s'.infos id).action.shot = s.rings.shotOf fd
        ∧ s'.rings = s.rings.setShot fd.key (s.rings.shotOf fd) := by
  rcases findOrInsert_cases hfind with ⟨hid, rfl⟩ | ⟨hnone, rfl, info, hinfo, rfl⟩
  . have hshot : s'.rings.shotOf fd = (s'.infos id).action.shot := by
      rw [Rings.shotOf, rings_shots hid]
      rfl
    refine ⟨h, hid, hshot.symm, ?_⟩
    rw [hshot, ← h.rings_setAction hid]
    simp [modifyInfo]
  . have hshot : s.rings.shotOf fd = Shot.new fd := by
      unfold Rings.shotOf rings
      dsimp only
      rw [hnone]
      rfl
    have hid : (s.insert fd info).fdToEventInfo fd.key = some s.next := by simp
    rw [hshot]
    refine ⟨h.insert hinfo, hid, ?_, h.rings_insert hinfo⟩
    apply Option.some.inj
    rw [← rings_shots hid, h.rings_insert hinfo, Rings.shots_setShot, if_pos rfl]

theorem shot_addMultishotReadTask (a : EventAction) (t : MultishotTask) (blocks : List Iovec)
    : (a.addMultishotReadTask t blocks).shot = a.shot.add t blocks := by
  unfold EventAction.addMultishotReadTask Shot.add EventAction.shot
  split
  next htcp => simp [htcp, EventAction.setReadOp]
  next hudp =>
    split
    next hnull => simp [hudp, hnull, EventAction.setReadOp]
    next hnot =>
      rw [if_neg fun h => hnot h.2]
      rfl
  next hother =>
    rw [if_neg fun h => hother h.1]

theorem shot_clearMultishotTask {a a' : EventAction} {t : MultishotTask} (h : a.clearMultishotTask = .ok a')
    (ht : a.multishotReadTask = some t)
    : a'.shot = a.shot.clear := by
  unfold EventAction.clearMultishotTask at h
  rw [ht] at h
  dsimp only at h
  split at h
  next hnull =>
    cases h
    have ⟨_, _, _, hops⟩ := EventAction.setFdOps_eq { a with multishotReadTask := none } a.fd.type
    rw [hops]
    simp [EventAction.shot, Shot.clear, hnull]
  next hlive =>
    cases h
    have ⟨_, _, _, hops⟩ := EventAction.setFdOps_eq
      { a with multishotReadTask := none, mmsghdrForUdpMultishot := .freed } a.fd.type
    rw [hops]
    simp [EventAction.shot, Shot.clear, hlive]
  . cases h

theorem shot_disableRead {a a' : EventAction} (h : a.disableRead = .ok a') (hnone : a.multishotReadTask = none)
    : a'.shot = a.shot := by
  unfold EventAction.disableRead EventAction.clearMultishotTask at h
  rw [hnone] at h
  cases h
  unfold EventAction.shot
  rw [hnone]

theorem addMultishotReadTask_rings (h : s.Keyed) (hid : s.fdToEventInfo fd.key = some id) (t : MultishotTask)
    (blocks : List Iovec)
    : let s' := s.modifyAction id fun a => a.addMultishotReadTask t blocks
      let s' := s'.modifyBuffer t.bufRing fun ring => ring.registerFd (s'.action id).fd.key
      s'.Keyed ∧ s'.rings =
        (s.rings.setShot fd.key ((s.infos id).action.shot.add t blocks)).modifyBuffer t.bufRing
          fun ring => ring.registerFd fd.key := by
  have hset : s.modifyAction id (fun a => a.addMultishotReadTask t blocks)
      = s.setAction id ((s.infos id).action.addMultishotReadTask t blocks) := rfl
  have hfd : ((s.infos id).action.addMultishotReadTask t blocks).fd = (s.infos id).action.fd := by
    have ⟨_, _, heq⟩ := EventAction.addMultishotReadTask_eq (s.infos id).action t blocks
    rw [heq]
  dsimp only
  rw [hset]
  have hkeyed := h.setAction hfd
  have hkey := (hkeyed.map fd.key id hid).2
  refine ⟨⟨hkeyed.map⟩, ?_⟩
  rw [action_def, hkey, rings_modifyBuffer, h.rings_setAction hid, shot_addMultishotReadTask]

theorem prepareReadGroup_rings (h : s.Keyed) (hid : s.fdToEventInfo fd.key = some id) (cb : Option Callback)
    (t : MultishotTask) (blocks : List Iovec)
    : (s.prepareReadGroup id t.bufRing cb t blocks).Keyed
        ∧ (s.prepareReadGroup id t.bufRing cb t blocks).rings =
            (s.rings.setShot fd.key ((s.infos id).action.shot.add t blocks)).modifyBuffer t.bufRing
              fun ring => ring.registerFd fd.key := by
  have hsame := (setReadCb_sameRings s id (cb.map .read)).trans (watchRead_sameRings _ id)
  have hid' : ((s.setReadCb id (cb.map .read)).watchRead id).fdToEventInfo fd.key = some id := by
    rw [hsame.map, hid]
  have hadded := addMultishotReadTask_rings (hsame.keyed h) hid' t blocks
  rw [hsame.rings_eq, hsame.shot] at hadded
  exact hadded

theorem accepts_new (h : s.accepts fd group) : ∃ id s', s.findOrInsert fd = .ok (id, s') := by
  simp only [accepts, Bool.and_eq_true, decide_eq_true_eq] at h
  have hknown : fd.type ≠ .unknown := by
    intro heq
    rw [heq] at h
    cases h.1.2
  unfold findOrInsert EventInfo.new EventAction.new
  rw [if_neg hknown]
  split
  . exact ⟨_, _, rfl⟩
  . exact ⟨_, _, rfl⟩

theorem submitAsyncReadGroup_accepted (h : s.Keyed) (cb : Option Callback) (opt : Option ReadOptions)
    {ring : RingBufferInfo} (haccepts : s.accepts fd group) (hring : s.bufferOf group = some ring)
    : ∃ s', s.submitAsyncReadGroup fd group cb opt = .ok (0, s') ∧ s'.Keyed
        ∧ s'.rings = s.rings.read fd (groupTask group opt) ring.blocks := by
  obtain ⟨id, s₁, hfind⟩ := accepts_new haccepts
  simp only [accepts, Bool.and_eq_true, Bool.or_eq_true, decide_eq_true_eq] at haccepts
  obtain ⟨⟨⟨hinited, hpos⟩, htype⟩, -⟩ := haccepts
  obtain ⟨hkeyed, hid, hshot, hrings⟩ := findOrInsert_rings h hfind
  have hprepared := prepareReadGroup_rings hkeyed hid cb (groupTask group opt) ring.blocks
  have hread : (s₁.rings.setShot fd.key ((s₁.infos id).action.shot.add (groupTask group opt) ring.blocks)).modifyBuffer
      group (fun ring => ring.registerFd fd.key) = s.rings.read fd (groupTask group opt) ring.blocks := by
    rw [hshot, hrings]
    unfold Rings.read Rings.setShot
    dsimp only
    rw [Function.update_idem]
    rfl
  have hlast : ∀ s₂ : Epoll, s₂.SameRings
      (if (opt.map (·.isSubmit)).getD true = true then s₂.pushIfReadable id else s₂.insertNonSubmit id) := by
    intro s₂
    split
    . exact pushIfReadable_sameRings s₂ id
    . exact insertNonSubmit_sameRings s₂ id
  unfold submitAsyncReadGroup
  rw [hring]
  dsimp only
  rw [if_neg (by rcases htype with htype | htype <;> simp [htype, hinited, hpos]), hfind]
  refine ⟨_, rfl, (hlast _).keyed hprepared.1, ?_⟩
  rw [(hlast _).rings_eq, ← hread]
  exact hprepared.2

theorem submitAsyncReadGroup_rejected (cb : Option Callback) (opt : Option ReadOptions) (h : ¬s.accepts fd group)
    : s.submitAsyncReadGroup fd group cb opt = .ok (-1, s) := by
  unfold submitAsyncReadGroup
  split
  . rfl
  next ring hring =>
    rw [if_pos]
    by_contra hnot
    apply h
    simp only [Bool.or_eq_true, Bool.not_eq_true', decide_eq_true_eq, not_or, Bool.not_eq_false] at hnot
    obtain ⟨⟨hinited, hpos⟩, htype⟩ := hnot
    simp only [accepts, hinited, hring, Option.isSome_some, Bool.and_eq_true, decide_eq_true_eq]
    exact ⟨⟨⟨trivial, by omega⟩, by simpa using htype⟩, trivial⟩

-- Clearing the multishot read of a file descriptor.
theorem clearMultishotTask_rings {fd : Nat} (h : s.Keyed) (hid : s.fdToEventInfo fd = some id)
    (hclear : s.clearMultishotTask id = .ok s')
    : s'.Keyed ∧ s'.rings = s.rings.clear fd ∧ s'.fdToEventInfo = s.fdToEventInfo := by
  have hshot := rings_shots hid
  unfold clearMultishotTask at hclear
  rw [action_def] at hclear
  unfold Rings.clear
  rw [hshot]
  dsimp only
  cases htask : (s.infos id).action.multishotReadTask with
  | none =>
    rw [htask] at hclear
    cases hclear
    have hnone : (s.infos id).action.shot.task = none := htask
    rw [hnone]
    exact ⟨h, rfl, rfl⟩
  | some t =>
    rw [htask] at hclear
    dsimp only at hclear
    have hsome : (s.infos id).action.shot.task = some t := htask
    rw [hsome]
    split at hclear
    . cases hclear
    . obtain ⟨a, ha, hclear⟩ := Except.bind_eq_ok hclear
      cases hclear
      have hcleared := shot_clearMultishotTask ha htask
      have hkeyed : (s.modifyBuffer t.bufRing fun ring => ring.unregisterFd (s.infos id).action.fd.key).Keyed := ⟨h.map⟩
      refine ⟨hkeyed.setAction (congrArg Shot.fd hcleared), ?_, rfl⟩
      rw [hkeyed.rings_setAction hid, hcleared, rings_modifyBuffer, (h.map fd id hid).2]
      rfl

theorem removeMultishotTask_rings {fds : List Nat} (h : s.Keyed) (hremove : s.removeMultishotTask fds = .ok s')
    : s'.Keyed ∧ s'.rings = fds.foldl Rings.clear s.rings := by
  induction fds generalizing s with
  | nil =>
    cases hremove
    exact ⟨h, rfl⟩
  | cons fd fds ih =>
    obtain ⟨s₁, hclear, hrest⟩ := Except.bind_eq_ok hremove
    have hfirst : s₁.Keyed ∧ s₁.rings = s.rings.clear fd := by
      dsimp only at hclear
      split at hclear
      next hnone =>
        cases hclear
        refine ⟨h, ?_⟩
        have hshot : s.rings.shots fd = none := by
          show (s.fdToEventInfo fd).map _ = none
          rw [hnone]
          rfl
        unfold Rings.clear
        rw [hshot]
      next id hid =>
        obtain ⟨hkeyed, hrings, _⟩ := clearMultishotTask_rings h hid hclear
        exact ⟨hkeyed, hrings⟩
    rw [List.foldl_cons, ← hfirst.2]
    exact ih hfirst.1 hrest

theorem unregisterRingBuffer_rings {r : Int} (h : s.Keyed) (hcall : s.unregisterRingBuffer group = .ok (r, s'))
    : s'.Keyed ∧ s'.rings = s.rings.unregister group := by
  unfold unregisterRingBuffer at hcall
  unfold Rings.unregister
  rw [rings_bufferOf]
  cases hring : s.bufferOf group with
  | none =>
    rw [hring] at hcall
    cases hcall
    exact ⟨h, rfl⟩
  | some ring =>
    rw [hring] at hcall
    obtain ⟨s₁, hremove, hcall⟩ := Except.bind_eq_ok hcall
    cases hcall
    obtain ⟨hkeyed, hrings⟩ := removeMultishotTask_rings h hremove
    dsimp only
    rw [← hrings]
    exact ⟨⟨hkeyed.map⟩, rfl⟩

theorem registerRingBuffer_rings (h : s.Keyed) (blockSize blockCount : Nat) (addrs : List Nat)
    : (s.registerRingBuffer blockSize blockCount addrs).2.Keyed
        ∧ ((s.registerRingBuffer blockSize blockCount addrs).2.rings = s.rings
          ∨ ∃ blocks, blocks ≠ [] ∧ (s.registerRingBuffer blockSize blockCount addrs).2.rings
            = s.rings.register blocks) := by
  have hzero : blockCount = 0
      → (if Util.isPowerOf2 blockCount then blockCount else Util.roundupPowerOfTwo blockCount % 2 ^ 32) = 0 := by
    rintro rfl
    decide
  unfold registerRingBuffer
  generalize (if Util.isPowerOf2 blockCount then blockCount else Util.roundupPowerOfTwo blockCount % 2 ^ 32) = cnt at *
  dsimp only
  split
  . exact ⟨h, .inl rfl⟩
  next hnot =>
    refine ⟨⟨h.map⟩, .inr ⟨_, ?_, rfl⟩⟩
    simp only [Bool.or_eq_true, decide_eq_true_eq, not_or] at hnot
    have hcount : blockCount ≠ 0 := fun h => hnot.1 (hzero h)
    have haddrs : addrs ≠ [] := by
      rintro rfl
      simp at hnot
      omega
    simp [hcount, haddrs]

-- A cancel is rejected, or it clears the multishot read of the file descriptor.
theorem cancelAsyncRead_rings {cb : Option Callback} {r : Int} (h : s.Keyed)
    (hcall : s.cancelAsyncRead fd cb = .ok (r, s'))
    : s'.Keyed ∧ (s'.rings = s.rings ∨ s'.rings = s.rings.clear fd.key) := by
  unfold cancelAsyncRead at hcall
  split at hcall
  . cases hcall
    exact ⟨h, .inl rfl⟩
  . split at hcall
    . cases hcall
      exact ⟨h, .inl rfl⟩
    next id hid =>
      split at hcall
      . cases hcall
        exact ⟨h, .inl rfl⟩
      . obtain ⟨s₁, hdisable, hcall⟩ := Except.bind_eq_ok hcall
        cases hcall
        unfold disableRead at hdisable
        obtain ⟨s₂, hclear, hdisable⟩ := Except.bind_eq_ok hdisable
        obtain ⟨a, ha, hdisable⟩ := Except.bind_eq_ok hdisable
        cases hdisable
        obtain ⟨hkeyed, hrings, hmap⟩ := clearMultishotTask_rings h hid hclear
        have hnone : (s₂.infos id).action.multishotReadTask = none := by
          have hshot := rings_shots (hmap.symm ▸ hid : s₂.fdToEventInfo fd.key = some id)
          have htask := Rings.task_clear (r := s.rings) fd.key fd.key
          rw [← hrings, Rings.task, hshot, if_pos rfl] at htask
          exact htask
        have hsame := setAction_sameRings s₂ id (shot_disableRead ha hnone)
        have hlast : s₂.SameRings
            (if ((s₂.setAction id a).action id).isNoneEvt then (s₂.setAction id a).pushToChangeList id
              else s₂.setAction id a) := by
          split
          . exact hsame.trans (pushToChangeList_sameRings _ id)
          . exact hsame
        refine ⟨hlast.keyed hkeyed, .inr ?_⟩
        rw [hlast.rings_eq, hrings]

theorem init_keyed (isOpen : Nat → Bool) : (Epoll.init isOpen).Keyed := by
  constructor
  intro fd id hid
  cases hid

end Epoll

namespace RingCall

-- What a call does to the rings.
inductive Changes (r : Rings) : RingCall → Rings → Prop where
  | same {c : RingCall} : Changes r c r
  | read {fd : Fd} {group : Nat} {cb : Option Callback} {opt : Option ReadOptions} {ring : RingBufferInfo}
      (hring : r.bufferOf group = some ring)
    : Changes r (.read fd group cb opt) (r.read fd (Epoll.groupTask group opt) ring.blocks)
  | cancel {fd : Fd} {cb : Option Callback} : Changes r (.cancel fd cb) (r.clear fd.key)
  | register {blockSize blockCount : Nat} {addrs : List Nat} {blocks : List Iovec} (hblocks : blocks ≠ [])
    : Changes r (.register blockSize blockCount addrs) (r.register blocks)
  | unregister {group : Nat} : Changes r (.unregister group) (r.unregister group)

variable {s : Epoll}

theorem step_read_accepted (h : s.Keyed) {fd : Fd} {group : Nat} {ring : RingBufferInfo} (cb : Option Callback)
    (opt : Option ReadOptions) (haccepts : s.accepts fd group) (hring : s.bufferOf group = some ring)
    : (step s (.read fd group cb opt)).Keyed
        ∧ (step s (.read fd group cb opt)).rings = s.rings.read fd (Epoll.groupTask group opt) ring.blocks := by
  obtain ⟨s', hcall, hkeyed, hrings⟩ := Epoll.submitAsyncReadGroup_accepted h cb opt haccepts hring
  have hstep : step s (.read fd group cb opt) = s' := by
    unfold step op Epoll.exec
    dsimp only
    rw [hcall]
  rw [hstep]
  exact ⟨hkeyed, hrings⟩

theorem step_read_rejected {fd : Fd} {group : Nat} (cb : Option Callback) (opt : Option ReadOptions)
    (h : ¬s.accepts fd group)
    : step s (.read fd group cb opt) = s := by
  unfold step op Epoll.exec
  dsimp only
  rw [Epoll.submitAsyncReadGroup_rejected cb opt h]

theorem step_changes (h : s.Keyed) (c : RingCall) : (c.step s).Keyed ∧ c.Changes s.rings (c.step s).rings := by
  cases c with
  | read fd group cb opt =>
    by_cases haccepts : s.accepts fd group
    . have hring := haccepts
      simp only [Epoll.accepts, Bool.and_eq_true] at hring
      obtain ⟨ring, hring⟩ := Option.isSome_iff_exists.mp hring.2
      obtain ⟨hkeyed, hrings⟩ := step_read_accepted h cb opt haccepts hring
      rw [hrings]
      exact ⟨hkeyed, .read hring⟩
    . rw [step_read_rejected cb opt haccepts]
      exact ⟨h, .same⟩
  | cancel fd cb =>
    unfold step op Epoll.exec
    dsimp only
    cases hcall : s.cancelAsyncRead fd cb with
    | error f => exact ⟨h, .same⟩
    | ok r =>
      obtain ⟨ret, s'⟩ := r
      obtain ⟨hkeyed, hrings | hrings⟩ := Epoll.cancelAsyncRead_rings h hcall
      . rw [hrings]
        exact ⟨hkeyed, .same⟩
      . rw [hrings]
        exact ⟨hkeyed, .cancel⟩
  | register blockSize blockCount addrs =>
    obtain ⟨hkeyed, hrings | ⟨blocks, hblocks, hrings⟩⟩ := Epoll.registerRingBuffer_rings h blockSize blockCount addrs
    . refine ⟨hkeyed, ?_⟩
      show Changes _ _ (s.registerRingBuffer blockSize blockCount addrs).2.rings
      rw [hrings]
      exact .same
    . refine ⟨hkeyed, ?_⟩
      show Changes _ _ (s.registerRingBuffer blockSize blockCount addrs).2.rings
      rw [hrings]
      exact .register hblocks
  | unregister group =>
    unfold step op Epoll.exec
    dsimp only
    cases hcall : s.unregisterRingBuffer group with
    | error f => exact ⟨h, .same⟩
    | ok r =>
      obtain ⟨ret, s'⟩ := r
      obtain ⟨hkeyed, hrings⟩ := Epoll.unregisterRingBuffer_rings h hcall
      rw [hrings]
      exact ⟨hkeyed, .unregister⟩

-- The group of a multishot read is registered and knows of it, also after the file descriptor has changed its group.
theorem Changes.held {c : RingCall} {r r' : Rings} (h : Changes r c r') (hheld : r.links.Held) : r'.links.Held := by
  cases h with
  | same => exact hheld
  | read hring =>
    rw [Rings.links_read]
    apply hheld.attach
    show (r.bufferOf _).map _ = _
    rw [Epoll.groupTask, hring]
    rfl
  | cancel =>
    rw [Rings.links_clear]
    exact hheld.detach
  | register _ =>
    rw [Rings.links_register]
    apply hheld.found
    show (r.bufferOf _).map _ = none
    rw [Rings.bufferOf_length]
    rfl
  | @unregister group =>
    cases hring : r.bufferOf group with
    | none =>
      unfold Rings.unregister
      rw [hring]
      exact hheld
    | some ring =>
      rw [Rings.links_unregister hring]
      apply hheld.remove
      show (r.bufferOf group).map _ = _
      rw [hring]
      rfl

end RingCall

theorem Epoll.init_held (isOpen : Nat → Bool) : (Epoll.init isOpen).rings.links.Held := by
  intro fd group hgroup
  cases hgroup

end Event
end Ezio
