import Ezio.Event.IoUring.Lemmas.Heap
import Ezio.Event.IoUring.Lemmas.Deferred

/-!
This module contains the data that a batch of deferred operations on one socket transfers: all of its
entries point at the `msghdr` of the `complete_action`, which the last operation has set.
-/

namespace Ezio
namespace Event
namespace Uring

def CompleteAction.msghdr (a : CompleteAction) : IoUring.Kind → Option Nat
  | .read => a.readMsghdr
  | .write => a.writeMsghdr
  | _ => none

namespace IoUring

variable {fd : Fd} {kind : Kind} {s s' : IoUring} {a p : Nat} {o : Option Nat}

-- The `msghdr` that the next operation of this kind is going to use.
def msg (s : IoUring) (fd : Fd) (kind : Kind) : Nat :=
  ((((s.fdToEventInfo fd.key).bind (·.get kind)).bind s.actions).bind (·.msghdr kind)).getD
    s.nextMsghdr

-- The action that is owned has the `msghdr` `o`, and `p` is the one it has or is going to get.
structure Points (s : IoUring) (fd : Fd) (kind : Kind) (a p : Nat) (o : Option Nat) : Prop where
  owns : s.Owns fd.key kind a
  act : ∃ act, s.actions a = some act ∧ act.msghdr kind = o
  eq : o.getD s.nextMsghdr = p

theorem Points.msg_eq (h : Points s fd kind a p o) : s.msg fd kind = p := by
  obtain ⟨info, hinfo, hget⟩ := h.owns
  obtain ⟨act, hact, hmsghdr⟩ := h.act
  unfold msg
  rw [hinfo, Option.bind_some, hget, Option.bind_some, hact, Option.bind_some, hmsghdr]
  exact h.eq

theorem Points.of_owns {I : Nat → Kind → Option ActionCallback → Prop} (h : Heap I s)
    (hown : s.Owns fd.key kind a)
    : ∃ o, Points s fd kind a (s.msg fd kind) o := by
  obtain ⟨_, act, hact, _⟩ := h.alive _ _ _ hown
  have hpoints : Points s fd kind a _ (act.msghdr kind) := ⟨hown, ⟨act, hact, rfl⟩, rfl⟩
  rw [← hpoints.msg_eq] at hpoints
  exact ⟨_, hpoints⟩

-- The action has a `msghdr`.
def Linked (s : IoUring) (fd : Fd) (kind : Kind) (p : Nat) : Prop :=
  ∃ a, Points s fd kind a p (some p)

theorem Linked.same (h : Linked s fd kind p) (hactions : s'.actions = s.actions)
    (hinfo : s'.fdToEventInfo = s.fdToEventInfo)
    : Linked s' fd kind p := by
  obtain ⟨a, howns, hact, _⟩ := h
  unfold Owns at howns
  rw [← hinfo] at howns
  rw [← hactions] at hact
  exact ⟨a, howns, hact, rfl⟩

theorem Points.modify (h : Points s fd kind a p o) {f : CompleteAction → CompleteAction}
    (hf : ∀ act, (f act).msghdr kind = act.msghdr kind)
    : Points (s.modifyAction a f) fd kind a p o := by
  obtain ⟨act, hact, hmsghdr⟩ := h.act
  refine ⟨h.owns, ⟨f act, ?_, ?_⟩, h.eq⟩
  . unfold modifyAction
    dsimp only
    rw [Function.update_self, hact]
    rfl
  . rw [hf]
    exact hmsghdr

theorem Points.setCallback (h : Points s fd kind a p o) (cb : ActionCallback)
    : Points (s.setCallback a cb) fd kind a p o := by
  apply h.modify
  intro act
  cases kind <;> rfl

theorem Points.offsetFor (h : Points s fd kind a p o) (opt : Option Nat)
    : Points (s.offsetFor a opt).2 fd kind a p o := by
  unfold IoUring.offsetFor
  split
  . exact h
  . apply h.modify
    intro act
    cases kind <;> rfl

theorem findOrInsert_msghdrs (s : IoUring) (fd : Fd) (kind : Kind)
    : (s.findOrInsert fd kind).2.msghdrs = s.msghdrs
        ∧ (s.findOrInsert fd kind).2.nextMsghdr = s.nextMsghdr := by
  unfold findOrInsert getCompleteAction
  split
  . split
    . exact ⟨rfl, rfl⟩
    . exact ⟨rfl, rfl⟩
  . split
    . exact ⟨rfl, rfl⟩
    . exact ⟨rfl, rfl⟩

theorem makeAction_msghdr (kind : Kind) (fd : Fd) (kind' : Kind)
    : (makeAction kind fd).msghdr kind' = none := by
  unfold makeAction
  split
  . split
    . cases kind' <;> rfl
    . cases kind' <;> rfl
  . cases kind' <;> rfl

-- A file descriptor that does not own an action of the kind yet gets one without a `msghdr`.
theorem getCompleteAction_points {info : IouringEventInfo} (s : IoUring) (fd : Fd)
    (hget : info.get kind = none)
    : Points (s.getCompleteAction fd info kind).2 fd kind (s.getCompleteAction fd info kind).1
        s.nextMsghdr none := by
  unfold getCompleteAction
  rw [hget]
  refine ⟨⟨_, Function.update_self .., ?_⟩, ⟨_, Function.update_self .., ?_⟩, rfl⟩
  . rw [IouringEventInfo.get_set, if_pos rfl]
  . exact makeAction_msghdr kind fd kind

theorem findOrInsert_points {I : Nat → Kind → Option ActionCallback → Prop} (fd : Fd) (kind : Kind)
    (h : Heap I s)
    : ∃ o, Points (s.findOrInsert fd kind).2 fd kind (s.findOrInsert fd kind).1 (s.msg fd kind) o
        ∧ ∀ p, Linked s fd kind p → o = some p := by
  have hnew : ∀ info : IouringEventInfo, info.get kind = none
      → (s.fdToEventInfo fd.key).bind (·.get kind) = none
      → ∃ o, Points (s.getCompleteAction fd info kind).2 fd kind
            (s.getCompleteAction fd info kind).1 (s.msg fd kind) o
          ∧ ∀ p, Linked s fd kind p → o = some p := by
    intro info hget hfree
    have hpoints := getCompleteAction_points s fd hget
    have hmsg : s.msg fd kind = s.nextMsghdr := by
      unfold msg
      rw [hfree]
      rfl
    rw [← hmsg] at hpoints
    refine ⟨none, hpoints, ?_⟩
    intro p hlinked
    obtain ⟨a, ⟨⟨info', hinfo', hget'⟩, _, _⟩⟩ := hlinked
    rw [hinfo', Option.bind_some, hget'] at hfree
    cases hfree
  unfold findOrInsert
  cases hinfo : s.fdToEventInfo fd.key with
  | none =>
    apply hnew
    . cases kind <;> rfl
    . rw [hinfo]
      rfl
  | some info =>
    dsimp only
    cases hget : info.get kind with
    | none =>
      apply hnew info hget
      rw [hinfo]
      exact hget
    | some a =>
      obtain ⟨o, hpoints⟩ := Points.of_owns h ⟨info, hinfo, hget⟩
      unfold getCompleteAction
      rw [hget]
      refine ⟨o, hpoints, ?_⟩
      intro p hlinked
      obtain ⟨a', ⟨⟨info', hinfo', hget'⟩, ⟨act', hact', hmsghdr'⟩, _⟩⟩ := hlinked
      obtain ⟨act, hact, hmsghdr⟩ := hpoints.act
      rw [hinfo, Option.some.injEq] at hinfo'
      rw [← hinfo', hget, Option.some.injEq] at hget'
      rw [← hget', hact, Option.some.injEq] at hact'
      rw [← hmsghdr, hact', hmsghdr']

theorem Points.action (h : Points s fd kind a p o) : (s.action a).msghdr kind = o := by
  obtain ⟨act, hact, hmsghdr⟩ := h.act
  unfold IoUring.action
  rw [hact]
  exact hmsghdr

-- A `msghdr` is made on first use.
theorem Points.link (h : Points s fd kind a p none) {f : CompleteAction → CompleteAction}
    (hf : ∀ act, (f act).msghdr kind = some s.nextMsghdr)
    : s.nextMsghdr = p ∧ Points (s.newMsghdr.2.modifyAction a f) fd kind a p (some p) := by
  obtain ⟨act, hact, _⟩ := h.act
  have heq : s.nextMsghdr = p := h.eq
  refine ⟨heq, h.owns, ⟨f act, ?_, ?_⟩, rfl⟩
  . unfold modifyAction newMsghdr
    dsimp only
    rw [Function.update_self, hact]
    rfl
  . rw [hf, heq]

theorem Points.getReadMsghdr (h : Points s fd .read a p o)
    : (s.getReadMsghdr a).1 = p ∧ Points (s.getReadMsghdr a).2 fd .read a p (some p)
        ∧ (o = some p → (s.getReadMsghdr a).2.msghdrs = s.msghdrs) := by
  have haction : (s.action a).readMsghdr = o := h.action
  unfold IoUring.getReadMsghdr
  rw [haction]
  cases o with
  | some p' =>
    have heq : p' = p := h.eq
    subst heq
    exact ⟨rfl, h, fun _ => rfl⟩
  | none =>
    obtain ⟨heq, hlink⟩ := h.link
      (f := fun act => { act with readMsghdr := some s.nextMsghdr }) fun _ => rfl
    exact ⟨heq, hlink, fun h => by cases h⟩

theorem Points.getWriteMsghdr (h : Points s fd .write a p o)
    : (s.getWriteMsghdr a).1 = p ∧ Points (s.getWriteMsghdr a).2 fd .write a p (some p)
        ∧ (o = some p → (s.getWriteMsghdr a).2.msghdrs = s.msghdrs) := by
  have haction : (s.action a).writeMsghdr = o := h.action
  unfold IoUring.getWriteMsghdr
  rw [haction]
  cases o with
  | some p' =>
    have heq : p' = p := h.eq
    subst heq
    exact ⟨rfl, h, fun _ => rfl⟩
  | none =>
    obtain ⟨heq, hlink⟩ := h.link
      (f := fun act => { act with writeMsghdr := some s.nextMsghdr }) fun _ => rfl
    exact ⟨heq, hlink, fun h => by cases h⟩

theorem Points.storeCallback (h : Points s fd kind a p o) (cb : Option ActionCallback)
    : Points (s.storeCallback a cb) fd kind a p o := by
  cases cb with
  | none => exact h
  | some cb => exact h.setCallback cb

theorem offsetFor_msghdrs (s : IoUring) (a : Nat) (opt : Option Nat)
    : (s.offsetFor a opt).2.msghdrs = s.msghdrs := by
  unfold IoUring.offsetFor
  split
  . rfl
  . rfl

-- The operation that transfers the data of a `msghdr`.
def Kind.opcode : Kind → Opcode
  | .write => .sendmsg
  | _ => .recvmsg

-- What filling in an entry does to the data: it points at the `msghdr` of the action, which is set.
-- An operation without a buffer polls.
structure Carries (fd : Fd) (kind : Kind) (s : IoUring) (slot : Nat) (message : Option Msghdr)
    (s' : IoUring) : Prop where
  ring : ∃ f, s'.ring = s.ring.modifySqe slot f
      ∧ ∀ q, (f q).addr = (if message.isSome then .msghdr (s.msg fd kind) else .null)
        ∧ (f q).opcode = if message.isSome then kind.opcode else .pollAdd
  msg : s'.msg fd kind = s.msg fd kind
  sets : ∀ m, message = some m
      → Linked s' fd kind (s.msg fd kind) ∧ s'.msghdrs (s.msg fd kind) = m
  keeps : message = none → ∀ p, Linked s fd kind p → Linked s' fd kind p ∧ s'.msghdrs p = s.msghdrs p

theorem Carries.poll {slot : Nat} {f : Sqe → Origin → Sqe} (h : Points s' fd kind a (s.msg fd kind) o)
    (hlinked : ∀ p, Linked s fd kind p → o = some p ∧ s'.msghdrs p = s.msghdrs p)
    (hring : s'.ring = s.ring)
    (hf : ∀ q origin, (f q origin).addr = .null ∧ (f q origin).opcode = .pollAdd)
    : Carries fd kind s slot none ((s'.prepare slot (some a) f).setUserData slot a) := by
  have hpoints : Points ((s'.prepare slot (some a) f).setUserData slot a) fd kind a
      (s.msg fd kind) o := ⟨h.owns, h.act, h.eq⟩
  refine ⟨⟨_, prepare_setUserData_ring s' slot (some a) f a |>.trans (by rw [hring]), ?_⟩,
    hpoints.msg_eq, ?_, ?_⟩
  . intro q
    exact hf q _
  . intro m hm
    cases hm
  . intro _ p hp
    obtain ⟨ho, hmsghdrs⟩ := hlinked p hp
    refine ⟨⟨a, hpoints.owns, ?_, rfl⟩, hmsghdrs⟩
    rw [← ho]
    exact hpoints.act

theorem Carries.message {f : Sqe → Origin → Sqe} (slot : Nat) (buf : IovPtr) (cnt : Nat)
    (h : Points s' fd kind a p (some p)) (hp : p = s.msg fd kind) (hring : s'.ring = s.ring)
    (hf : ∀ q origin, (f q origin).addr = .msghdr p ∧ (f q origin).opcode = kind.opcode)
    : Carries fd kind s slot (some ⟨some buf, cnt⟩)
        (((s'.setMsghdr p buf cnt).prepare slot (some a) f).setUserData slot a) := by
  have hpoints : Points (((s'.setMsghdr p buf cnt).prepare slot (some a) f).setUserData slot a)
      fd kind a p (some p) := ⟨h.owns, h.act, h.eq⟩
  subst hp
  refine ⟨⟨_, prepare_setUserData_ring _ slot (some a) f a |>.trans (by rw [← hring]; rfl), ?_⟩,
    hpoints.msg_eq, ?_, ?_⟩
  . intro q
    exact hf q _
  . intro m hm
    rw [← Option.some.inj hm]
    exact ⟨⟨a, hpoints⟩, Function.update_self ..⟩
  . intro hm
    cases hm

theorem fillWrite_carries {I : Nat → Kind → Option ActionCallback → Prop} {buffer : Option IovPtr}
    {cnt : Nat} {cb : Option Callback} {opt : Option WriteOptions} (slot : Nat) (hheap : Heap I s)
    (hstream : isStream fd)
    : Carries fd .write s slot (buffer.map fun buf => ⟨some buf, cnt⟩)
        (fillWrite fd buffer cnt cb opt s slot) := by
  obtain ⟨o, hpoints, hlinked⟩ := findOrInsert_points fd .write hheap
  have hrest := ((Rest.findOrInsert (s := s) fd .write).trans
    (Rest.storeCallback (s.findOrInsert fd .write).1 (cb.map fun cb => .result (some cb)))).trans
    (Rest.offsetFor (s.findOrInsert fd .write).1 (opt.bind (·.offset)))
  have hbase := (hpoints.storeCallback (cb.map fun cb => .result (some cb))).offsetFor
    (opt.bind (·.offset))
  cases buffer with
  | none =>
    have hmsghdrs : (((s.findOrInsert fd .write).2.storeCallback (s.findOrInsert fd .write).1
        (cb.map fun cb => .result (some cb))).offsetFor (s.findOrInsert fd .write).1
        (opt.bind (·.offset))).2.msghdrs = s.msghdrs := by
      rw [offsetFor_msghdrs, ← (findOrInsert_msghdrs s fd .write).1]
      cases cb with
      | none => rfl
      | some cb => rfl
    exact Carries.poll hbase (fun p hp => ⟨hlinked p hp, congrFun hmsghdrs p⟩) hrest.ring
      fun _ _ => ⟨rfl, rfl⟩
  | some buf =>
    obtain ⟨hmsg, hpoints', _⟩ := hbase.getWriteMsghdr
    rw [← hmsg] at hpoints'
    have hring := (hrest.trans (Rest.getWriteMsghdr (s.findOrInsert fd .write).1)).ring
    have hcarries := Carries.message slot buf cnt hpoints' hmsg hring
      (f := fun sqe origin => prepareSendmsg sqe origin fd.num _ MSG_DONTWAIT) fun _ _ => ⟨rfl, rfl⟩
    unfold fillWrite
    rw [hstream]
    exact hcarries

-- A callback that is stored brings its `msghdr` with it.
theorem Points.storeReadCallback (h : Points s fd .read a p o) (buffer : Option IovPtr) (cnt : Nat)
    (cb : Option Callback)
    : ∃ o', Points (s.storeReadCallback a fd buffer cnt cb) fd .read a p o'
        ∧ (o = some p
          → o' = some p ∧ (s.storeReadCallback a fd buffer cnt cb).msghdrs = s.msghdrs) := by
  unfold IoUring.storeReadCallback
  cases cb with
  | none => exact ⟨o, h, fun ho => ⟨ho, rfl⟩⟩
  | some cb =>
    cases isStream fd with
    | false => exact ⟨o, h.setCallback _, fun ho => ⟨ho, rfl⟩⟩
    | true =>
      obtain ⟨_, hpoints, hsame⟩ := h.getReadMsghdr
      exact ⟨some p, hpoints.setCallback _, fun ho => ⟨rfl, hsame ho⟩⟩

theorem fillRead_carries {I : Nat → Kind → Option ActionCallback → Prop} {buffer : Option IovPtr}
    {cnt : Nat} {cb : Option Callback} {opt : Option ReadOptions} (slot : Nat) (hheap : Heap I s)
    (hstream : isStream fd)
    : Carries fd .read s slot (buffer.map fun buf => ⟨some buf, cnt⟩)
        (fillRead fd buffer cnt cb opt s slot) := by
  obtain ⟨o, hpoints, hlinked⟩ := findOrInsert_points fd .read hheap
  have hrest := ((Rest.findOrInsert (s := s) fd .read).trans
    (Rest.storeReadCallback (s.findOrInsert fd .read).1 fd buffer cnt cb)).trans
    (Rest.offsetFor (s.findOrInsert fd .read).1 (opt.bind (·.offset)))
  obtain ⟨o', hpoints', hsame⟩ := hpoints.storeReadCallback buffer cnt cb
  have hbase := hpoints'.offsetFor (opt.bind (·.offset))
  cases buffer with
  | none =>
    refine Carries.poll hbase ?_ hrest.ring fun _ _ => ⟨rfl, rfl⟩
    intro p hp
    have ho := hlinked p hp
    have hmsg : p = s.msg fd .read := by
      have heq := hpoints.eq
      rw [ho] at heq
      exact heq
    rw [hmsg] at ho ⊢
    obtain ⟨ho', hmsghdrs⟩ := hsame ho
    refine ⟨ho', congrFun ((offsetFor_msghdrs _ _ _).trans (hmsghdrs.trans ?_)) _⟩
    exact (findOrInsert_msghdrs s fd .read).1
  | some buf =>
    obtain ⟨hmsg, hlink, _⟩ := hbase.getReadMsghdr
    rw [← hmsg] at hlink
    have hring := (hrest.trans (Rest.getReadMsghdr (s.findOrInsert fd .read).1)).ring
    have hcarries := Carries.message slot buf cnt hlink hmsg hring
      (f := fun sqe origin => prepareRecvmsg sqe origin fd.num _ 0) fun _ _ => ⟨rfl, rfl⟩
    unfold fillRead
    rw [hstream]
    exact hcarries

end IoUring

-- The `msghdr` of a call, a call without a buffer has none.
def Op.message : Op → Option Msghdr
  | .submitAsyncRead _ buffer cnt _ _ => buffer.map fun buf => ⟨some buf, cnt⟩
  | .submitAsyncWrite _ buffer cnt _ _ => buffer.map fun buf => ⟨some buf, cnt⟩
  | _ => none

def Op.iovecs (op : Op) : List Iovec :=
  match op.message with
  | none => []
  | some m => m.iovecs

def Op.transfers (fd : Fd) : IoUring.Kind → Op → Bool
  | .read, .submitAsyncRead fd' _ _ _ _ => fd' = fd
  | .write, .submitAsyncWrite fd' _ _ _ _ => fd' = fd
  | _, _ => false

namespace IoUring

variable {k head lag : Nat} {fd : Fd} {kind : Kind} {queue hist : List Sqe} {s s₀ : IoUring}

theorem run_transfers {op : Op} (htransfers : op.transfers fd kind) (hdeferred : op.isDeferred s)
    (hstream : isStream fd)
    : ∃ fill, s.run op = s.withSqe false fill ∧ FillsSlot none fill
        ∧ ∀ s slot, Heap (fun _ _ _ => True) s
          → Carries fd kind s slot op.message (fill s slot)
            ∧ Heap (fun _ _ _ => True) (fill s slot) := by
  cases op with
  | submitAsyncRead fd' buffer cnt cb opt =>
    cases kind with
    | read =>
      have hfd : fd' = fd := by simpa [Op.transfers] using htransfers
      subst hfd
      refine ⟨_, submitAsyncRead_deferred hdeferred,
        (fillRead_fills fd' buffer cnt cb opt).fillsSlot, ?_⟩
      intro s slot h
      exact ⟨fillRead_carries slot h hstream, (fillRead_grows slot h (fun _ _ => trivial)
        fun _ _ _ => trivial).heap⟩
    | _ => cases htransfers
  | submitAsyncWrite fd' buffer cnt cb opt =>
    cases kind with
    | write =>
      have hfd : fd' = fd := by simpa [Op.transfers] using htransfers
      subst hfd
      refine ⟨_, submitAsyncWrite_deferred hdeferred,
        (fillWrite_fills fd' buffer cnt cb opt).fillsSlot, ?_⟩
      intro s slot h
      exact ⟨fillWrite_carries slot h hstream, (fillWrite_grows slot h (fun _ _ => trivial)
        fun _ => trivial).heap⟩
    | _ => cases htransfers
  | _ => cases kind <;> cases htransfers

-- The state after the operations `done` of the batch, which have found room.
structure Batch (k head lag : Nat) (fd : Fd) (kind : Kind) (queue : List Sqe) (s₀ : IoUring)
    (done : List Op) (s : IoUring) : Prop where
  heap : Heap (fun _ _ _ => True) s
  msg : s.msg fd kind = s₀.msg fd kind
  prepared : ∃ qs, Queue k s.ring.sq head (queue ++ qs) lag
      ∧ qs.map (·.addr) = done.map fun op =>
        if op.message.isSome then .msghdr (s₀.msg fd kind) else .null
  executed : s.ring.executed = s₀.ring.executed
  asked : s.ring.asked = s₀.ring.asked
  content : ∀ m, (done.filterMap Op.message).getLast? = some m
      → Linked s fd kind (s₀.msg fd kind) ∧ s.msghdrs (s₀.msg fd kind) = m
  isInited : s.isInited = s₀.isInited
  buffers : s.buffers = s₀.buffers

theorem Batch.exec {done : List Op} {op : Op} (h : Batch k head lag fd kind queue s₀ done s)
    (hroom : queue.length + done.length < 2 ^ k) (htransfers : op.transfers fd kind)
    (hdeferred : op.isDeferred s₀) (hstream : isStream fd)
    : Batch k head lag fd kind queue s₀ (done ++ [op]) (s.exec op).2 := by
  rw [← isDeferred_congr h.isInited h.buffers] at hdeferred
  obtain ⟨fill, hrun, hfills, hspec⟩ := run_transfers htransfers hdeferred hstream
  obtain ⟨qs, hqueue, haddrs⟩ := h.prepared
  have hlength : qs.length = done.length := by
    simpa using congrArg List.length haddrs
  obtain ⟨slot, sq, hlast, heq⟩ := withSqe_room hqueue (by simp; omega) false fill
  rw [if_neg (by decide)] at heq
  obtain ⟨hcarries, hheap⟩ := hspec { s with ring := { s.ring with sq } } slot
    (h.heap.same ⟨rfl, rfl, rfl, rfl⟩)
  obtain ⟨_, hinited, hbuffers, _⟩ := hfills { s with ring := { s.ring with sq } } slot
  obtain ⟨f, hring, haddr⟩ := hcarries.ring
  have hmsg : IoUring.msg { s with ring := { s.ring with sq } } fd kind = s₀.msg fd kind := h.msg
  rw [hmsg] at haddr
  unfold IoUring.exec
  rw [hrun, heq]
  refine ⟨hheap.same ⟨rfl, rfl, rfl, rfl⟩, hcarries.msg.trans hmsg,
    ⟨qs ++ [f (initializeSqe s.ring.nextSqe)], ?_, ?_⟩, ?_, ?_, ?_, hinited.trans h.isInited,
    hbuffers.trans h.buffers⟩
  . dsimp only
    rw [hring, ← List.append_assoc]
    exact (hlast.modify f).toQueue
  . rw [List.map_append, List.map_append, haddrs, List.map_singleton, List.map_singleton, (haddr _).1]
  . dsimp only
    rw [hring]
    exact h.executed
  . dsimp only
    rw [hring]
    exact h.asked
  . intro m hm
    rw [List.filterMap_append, List.filterMap_cons, List.filterMap_nil] at hm
    cases hmessage : op.message with
    | none =>
      rw [hmessage, List.append_nil] at hm
      obtain ⟨hlinked, hcontent⟩ := h.content m hm
      obtain ⟨hlinked', hkept⟩ := hcarries.keeps hmessage _ (hlinked.same rfl rfl)
      exact ⟨hlinked'.same rfl rfl, hkept.trans hcontent⟩
    | some m' =>
      rw [hmessage, List.getLast?_concat, Option.some.injEq] at hm
      obtain ⟨hlinked, hset⟩ := hcarries.sets m' hmessage
      rw [hmsg] at hlinked hset
      rw [← hm]
      exact ⟨hlinked.same rfl rfl, hset⟩

theorem Batch.execAll {done ops : List Op} (h : Batch k head lag fd kind queue s₀ done s)
    (hroom : queue.length + done.length + ops.length ≤ 2 ^ k)
    (hops : ∀ op ∈ ops, op.transfers fd kind ∧ op.isDeferred s₀) (hstream : isStream fd)
    : Batch k head lag fd kind queue s₀ (done ++ ops) (s.execAll ops).2 := by
  induction ops generalizing done s with
  | nil =>
    rw [List.append_nil]
    exact h
  | cons op ops ih =>
    rw [List.length_cons] at hroom
    obtain ⟨htransfers, hdeferred⟩ := hops op List.mem_cons_self
    have hexec := h.exec (by omega) htransfers hdeferred hstream
    rw [execAll_cons, List.append_cons]
    refine ih hexec ?_ ?_
    . rw [List.length_append, List.length_singleton]
      omega
    . intro op hop
      exact hops op (List.mem_cons_of_mem _ hop)

theorem Batch.start (fd : Fd) (kind : Kind) (hheap : Heap (fun _ _ _ => True) s)
    (hqueue : Queue k s.ring.sq head queue lag)
    : Batch k head lag fd kind queue s [] s := by
  refine ⟨hheap, rfl, ⟨[], ?_, rfl⟩, rfl, rfl, ?_, rfl, rfl⟩
  . rw [List.append_nil]
    exact hqueue
  . intro m hm
    cases hm

-- A kernel that takes all that it is asked to leaves the ring empty.
theorem submit_all (hqueue : Queue k s.ring.sq head queue 0) (hinited : s.isInited)
    (hall : ∀ p ∈ s.submit.2.ring.asked, p.2 = p.1)
    : s.submit.2.ring.executed = s.ring.executed ++ queue.map (Wrapper.execute s.msghdrs)
        ∧ s.submit.2.isInited ∧ ∃ head', Queue k s.submit.2.ring.sq head' [] 0 := by
  obtain ⟨n, hsub⟩ := hqueue.submit s.msghdrs
  have hle := hsub.le
  have hempty := hsub.toQueue
  unfold IoUring.submit at hall ⊢
  rw [if_pos hinited] at hall ⊢
  have hall' : ∀ p ∈ (s.ring.submit s.msghdrs).2.asked, p.2 = p.1 := hall
  have hn : n = queue.length := by
    rw [hsub.asked] at hall'
    by_cases hsome : 0 < queue.length - 0
    . rw [if_pos hsome] at hall'
      have := hall' _ (List.mem_append_right _ (List.mem_singleton.mpr rfl))
      dsimp only at this
      omega
    . omega
  rw [hn, List.drop_length, Nat.sub_self] at hempty
  refine ⟨hsub.executed.trans ?_, hinited, _, hempty⟩
  rw [hn, List.take_length]

theorem execute_iovecs (msghdrs : Nat → Msghdr) (p : Nat) {q : Sqe} {message : Option Msghdr}
    (h : q.addr = if message.isSome then .msghdr p else .null)
    : (Wrapper.execute msghdrs q).msg.iovecs
        = if message.isSome then (msghdrs p).iovecs else [] := by
  unfold Wrapper.execute
  rw [h]
  cases message with
  | none => rfl
  | some m => rfl

-- The data that is sent for an operation is that of the last operation with a buffer.
theorem Batch.sent {ops : List Op} (h : Batch k head 0 fd kind queue s₀ ops s)
    (hinited : s₀.isInited) (hall : ∀ p ∈ s.submit.2.ring.asked, p.2 = p.1)
    : (s.submit.2.ring.executed.drop (s₀.ring.executed.length + queue.length)).map (·.msg.iovecs)
        =
      ops.map fun op => if op.message.isSome then (s.msghdrs (s₀.msg fd kind)).iovecs else [] := by
  obtain ⟨qs, hqueue, haddrs⟩ := h.prepared
  have hlength : qs.length = ops.length := by
    simpa using congrArg List.length haddrs
  rw [(submit_all hqueue (h.isInited.trans hinited) hall).1, h.executed, List.map_append,
    ← List.append_assoc, List.drop_left' (by simp)]
  apply List.ext_getElem
  . simpa using hlength
  . intro i hi hi'
    simp only [List.length_map] at hi hi'
    have haddr : qs[i].addr = if ops[i].message.isSome then .msghdr (s₀.msg fd kind) else .null := by
      have := congrArg (·[i]?) haddrs
      simpa [hi, hi'] using this
    simp only [List.getElem_map]
    exact execute_iovecs s.msghdrs _ haddr

theorem sent_eq_iff {ops : List Op} {m : Msghdr}
    (hlast : ∀ m', (ops.filterMap Op.message).getLast? = some m' → m = m')
    : ((ops.map fun op => if op.message.isSome then m.iovecs else []) = ops.map Op.iovecs)
        ↔ ∀ op ∈ ops, ∀ op' ∈ ops, op.message.isSome → op'.message.isSome
          → op.iovecs = op'.iovecs := by
  rw [List.map_inj_left]
  constructor
  . intro hsent op hop op' hop' hsome hsome'
    have hop := hsent op hop
    have hop' := hsent op' hop'
    rw [if_pos hsome] at hop
    rw [if_pos hsome'] at hop'
    exact hop.symm.trans hop'
  . intro hsame op hop
    cases hmessage : op.message with
    | none => simp [Op.iovecs, hmessage]
    | some m' =>
      have hne : ops.filterMap Op.message ≠ [] :=
        List.ne_nil_of_mem (List.mem_filterMap.mpr ⟨op, hop, hmessage⟩)
      obtain ⟨op', hop', hmessage'⟩ := List.mem_filterMap.mp (List.getLast_mem hne)
      have hm := hlast _ (List.getLast?_eq_some_getLast hne)
      have hiovecs : op'.iovecs = m.iovecs := by
        unfold Op.iovecs
        rw [hmessage', hm]
      rw [if_pos (by rfl), ← hiovecs]
      exact hsame op' hop' op hop (by rw [hmessage']; rfl) (by rw [hmessage]; rfl)

-- A deferred operation prepares an entry, or finds the ring full and fails.
theorem exec_deferred_tracks {op : Op} (ht : Tracks k s.ring hist) (hdeferred : op.isDeferred s)
    : ∃ hist', Tracks k (s.exec op).2.ring hist' ∧ (s.exec op).2.isInited = s.isInited
        ∧ (s.exec op).2.buffers = s.buffers
        ∧ ((s.exec op).1 = -1 ∧ hist'.length = hist.length
          ∨ (s.exec op).1 ≠ -1 ∧ hist'.length = hist.length + 1) := by
  obtain ⟨head, queue, lag, hqueue, hbehind, hhist⟩ := ht
  obtain ⟨fill, hfills, hrun⟩ := run_deferred hdeferred
  unfold exec
  rw [hrun]
  by_cases hroom : queue.length < 2 ^ k
  . obtain ⟨slot, sq, hlast, heq⟩ := withSqe_room hqueue hroom false fill
    rw [if_neg (by decide)] at heq
    obtain ⟨_, hinited, hbuffers, f, hring, _⟩ := hfills { s with ring := { s.ring with sq } } slot
    rw [heq]
    refine ⟨hist ++ [f (initializeSqe s.ring.nextSqe)],
      ⟨head, queue ++ [f (initializeSqe s.ring.nextSqe)], lag, ?_, ?_, ?_⟩, hinited, hbuffers,
      .inr ⟨(by decide : (0 : Int) ≠ -1), by simp⟩⟩
    . dsimp only
      rw [hring]
      exact (hlast.modify f).toQueue
    . dsimp only
      rw [hring]
      exact hbehind
    . dsimp only
      rw [hring, hhist, List.append_assoc]
      rfl
  . rw [withSqe_full hqueue hroom]
    obtain ⟨n, hsub⟩ := hqueue.submit s.msghdrs
    refine ⟨hist, ?_, rfl, rfl, .inl ⟨rfl, rfl⟩⟩
    rw [hhist]
    exact hsub.tracks hqueue.lag_le hbehind

theorem execAll_tracks {ops : List Op} (ht : Tracks k s.ring hist)
    (hdeferred : ∀ op ∈ ops, op.isDeferred s)
    : ∃ hist', Tracks k (s.execAll ops).2.ring hist'
        ∧ hist'.length + (s.execAll ops).1.count (-1) = hist.length + ops.length := by
  induction ops generalizing s hist with
  | nil => exact ⟨hist, ht, rfl⟩
  | cons op ops ih =>
    obtain ⟨hist', ht', hinited, hbuffers, hret⟩ :=
      exec_deferred_tracks ht (hdeferred op List.mem_cons_self)
    have hrest : ∀ op' ∈ ops, op'.isDeferred (s.exec op).2 := by
      intro op' hop'
      rw [isDeferred_congr hinited hbuffers]
      exact hdeferred op' (List.mem_cons_of_mem _ hop')
    obtain ⟨hist'', ht'', hlength⟩ := ih ht' hrest
    refine ⟨hist'', ht'', ?_⟩
    rw [execAll_cons, List.count_cons, List.length_cons]
    rcases hret with ⟨hret, hhist⟩ | ⟨hret, hhist⟩
    . simp [hret]
      omega
    . simp [hret]
      omega

theorem submit_tracks (ht : Tracks k s.ring hist) : Tracks k s.submit.2.ring hist := by
  unfold submit
  split
  . obtain ⟨head, queue, lag, hqueue, hbehind, hhist⟩ := ht
    obtain ⟨n, hsub⟩ := hqueue.submit s.msghdrs
    rw [hhist]
    exact hsub.tracks hqueue.lag_le hbehind
  . exact ht

theorem submit_asked (s : IoUring) : s.ring.asked <+: s.submit.2.ring.asked := by
  unfold submit
  split
  . exact s.ring.submit_asked s.msghdrs
  . exact List.prefix_refl _

-- A batch that finds room, submitted to a kernel that takes all it is asked to.
theorem batch_sent {ops : List Op} (hheap : Heap (fun _ _ _ => True) s)
    (hqueue : Queue k s.ring.sq head queue lag) (hbehind : Behind s.ring.asked lag)
    (hops : ∀ op ∈ ops, op.transfers fd kind ∧ op.isDeferred s) (hstream : isStream fd)
    (hne : ops ≠ []) (hroom : queue.length + ops.length ≤ 2 ^ k)
    (hall : ∀ p ∈ (s.execAll ops).2.submit.2.ring.asked, p.2 = p.1)
    : ((s.execAll ops).2.submit.2.ring.executed.drop
          (s.ring.executed.length + queue.length)).map (·.msg.iovecs) = ops.map Op.iovecs
        ↔ ∀ op ∈ ops, ∀ op' ∈ ops, op.message.isSome → op'.message.isSome
          → op.iovecs = op'.iovecs := by
  have hbatch := (Batch.start fd kind hheap hqueue).execAll (by simpa using hroom) hops hstream
  rw [List.nil_append] at hbatch
  have hlag : lag = 0 := by
    rw [hbehind.zero_iff, ← hbatch.asked]
    intro p hp
    exact hall p ((submit_asked _).subset hp)
  subst hlag
  have hinited : s.isInited := by
    obtain ⟨op, hop⟩ := List.exists_mem_of_ne_nil ops hne
    exact Op.isInited_of_isDeferred (hops op hop).2
  rw [hbatch.sent hinited hall, sent_eq_iff fun m hm => (hbatch.content m hm).2]

-- A batch that does not find room: one of the calls has prepared no entry.
theorem batch_not_sent {ops : List Op} (ht : Tracks k s.ring hist)
    (hqueue : Queue k s.ring.sq head queue lag) (hdeferred : ∀ op ∈ ops, op.isDeferred s)
    (hroom : ¬queue.length + ops.length ≤ 2 ^ k)
    : (s.execAll ops).2.submit.2.ring.executed.length < hist.length + ops.length := by
  obtain ⟨hist', ht', hcount⟩ := execAll_tracks ht hdeferred
  have hfailed : ¬∀ ret ∈ (s.execAll ops).1, ret ≠ -1 := by
    rw [execAll_deferred_iff hqueue hdeferred]
    exact hroom
  have hpos : 0 < (s.execAll ops).1.count (-1) := by
    rw [List.count_pos_iff]
    by_contra hmem
    apply hfailed
    intro ret hret heq
    rw [heq] at hret
    exact hmem hret
  have hle := (submit_tracks ht').executed_length
  omega

theorem batch_iff {ops : List Op} (hheap : Heap (fun _ _ _ => True) s) (ht : Tracks k s.ring hist)
    (hops : ∀ op ∈ ops, op.transfers fd kind ∧ op.isDeferred s) (hstream : isStream fd)
    (hall : ∀ p ∈ (s.execAll ops).2.submit.2.ring.asked, p.2 = p.1)
    : ((s.execAll ops).2.submit.2.ring.executed.drop (s.ring.executed.length
          + (s.ring.sq.sqeTail - s.ring.sq.khead).toNat)).map (·.msg.iovecs) = ops.map Op.iovecs
        ↔ (s.ring.sq.sqeTail - s.ring.sq.khead).toNat + ops.length ≤ 2 ^ k
          ∧ ∀ op ∈ ops, ∀ op' ∈ ops, op.message.isSome → op'.message.isSome
            → op.iovecs = op'.iovecs := by
  obtain ⟨head, queue, lag, hqueue, hbehind, hhist⟩ := id ht
  have hlength : s.ring.executed.length + queue.length = hist.length := by
    rw [hhist]
    simp
  rw [hqueue.count]
  by_cases hroom : queue.length + ops.length ≤ 2 ^ k
  . rw [and_iff_right hroom]
    by_cases hne : ops = []
    . have hle := (submit_tracks ht).executed_length
      subst hne
      rw [List.drop_of_length_le (by rw [hlength]; exact hle)]
      simp
    . exact batch_sent hheap hqueue hbehind hops hstream hne hroom hall
  . have hlt := batch_not_sent ht hqueue (fun op hop => (hops op hop).2) hroom
    have hfits := hqueue.fits
    constructor
    . intro heq
      have := congrArg List.length heq
      rw [List.length_map, List.length_map, List.length_drop] at this
      omega
    . intro h
      exact absurd h.1 hroom

end IoUring

open IoUring in
theorem World.run_heap (hasTimeoutMultishot : Bool) (ring : Wrapper) (steps : List Step)
    : Heap (fun _ _ _ => True)
        (World.run { uring := .init hasTimeoutMultishot ring } steps).uring :=
  foldl_invariant (I := fun w : World => Heap (fun _ _ _ => True) w.uring) steps
    (fun _ _ _ h => (World.step_grows h (fun _ _ => trivial) fun _ _ _ _ _ _ => trivial).heap)
    (Heap.init hasTimeoutMultishot ring)

open IoUring in
theorem batch_sends_iff (k c sqStart cqStart : Nat) (enters : List EnterRet) (hk : k < 32)
    (hasTimeoutMultishot : Bool) (steps : List Step) (fd : Fd) (hstream : isStream fd) (kind : Kind)
    (ops : List Op)
    : let s := (World.run
          { uring := .init hasTimeoutMultishot (Wrapper.init k c sqStart cqStart enters) }
          steps).uring
      let s' := (s.execAll ops).2.submit.2
      let pending := (s.ring.sq.sqeTail - s.ring.sq.khead).toNat
      (∀ op ∈ ops, op.transfers fd kind ∧ op.isDeferred s)
        → (∀ p ∈ s'.ring.asked, p.2 = p.1)
        → ((s'.ring.executed.drop (s.ring.executed.length + pending)).map (·.msg.iovecs)
              = ops.map Op.iovecs
            ↔ pending + ops.length ≤ 2 ^ k
              ∧ ∀ op ∈ ops, ∀ op' ∈ ops, op.message.isSome → op'.message.isSome
                → op.iovecs = op'.iovecs) := by
  intro s s' pending hops hall
  obtain ⟨hist, ht⟩ := World.run_tracks c sqStart cqStart enters hk hasTimeoutMultishot steps
  exact batch_iff (World.run_heap _ _ steps) ht hops hstream hall

-- A write of this buffer that is deferred.
def deferredWrite (addr base len : Nat) : Op :=
  .submitAsyncWrite ⟨3, .tcp⟩ (some ⟨addr, [⟨base, len⟩]⟩) 1 (some 7) (some ⟨none, false, none⟩)

theorem deferredWrite_sends_other
    : let s := IoUring.init true (Wrapper.init 2 1 0 0 [])
      ((s.execAll [deferredWrite 100 4096 5, deferredWrite 200 8192 6]).2.submit.2.ring.executed.map
          (·.msg.iovecs))
        = [[⟨8192, 6⟩], [⟨8192, 6⟩]] := by
  decide +kernel

theorem deferredWrite_sends_own
    : let s := IoUring.init true (Wrapper.init 2 1 0 0 [])
      let ops := [deferredWrite 100 4096 5, deferredWrite 100 4096 5]
      ((s.execAll ops).2.submit.2.ring.executed.drop 0).map (·.msg.iovecs) = ops.map Op.iovecs :=
  (batch_sends_iff 2 1 0 0 [] (by decide) true [] ⟨3, .tcp⟩ rfl .write
    [deferredWrite 100 4096 5, deferredWrite 100 4096 5] (by decide +kernel) (by decide +kernel)).mpr
    (by decide +kernel)

end Uring
end Event
end Ezio
