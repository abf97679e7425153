import Ezio.Event.IoUring.Lemmas.Heap
import Ezio.Event.IoUring.Lemmas.Routing

/-!
This module contains the buffer that the callback of a read is called with. It is the one that the
callback was stored with, also for a later read that passes a buffer of its own but no callback.
-/

namespace Ezio
namespace Event
namespace Uring

open IoUring

namespace IoUring

theorem getReadMsghdr_infos (s : IoUring) (a : Nat)
    : (s.getReadMsghdr a).2.fdToEventInfo = s.fdToEventInfo := by
  unfold getReadMsghdr
  split
  . rfl
  . rfl

theorem storeReadCallback_infos (s : IoUring) (a : Nat) (fd : Fd) (buffer : Option IovPtr) (cnt : Nat)
    (cb : Option Callback)
    : (s.storeReadCallback a fd buffer cnt cb).fdToEventInfo = s.fdToEventInfo := by
  unfold storeReadCallback
  cases cb with
  | none => rfl
  | some cb =>
    cases isStream fd with
    | false => rfl
    | true => exact getReadMsghdr_infos s a

theorem offsetFor_infos (s : IoUring) (a : Nat) (opt : Option Nat)
    : (s.offsetFor a opt).2.fdToEventInfo = s.fdToEventInfo := by
  unfold offsetFor
  split
  . rfl
  . rfl

theorem fillRead_infos (fd : Fd) (buffer : Option IovPtr) (cnt : Nat) (cb : Option Callback)
    (opt : Option ReadOptions) (s : IoUring) (slot : Nat)
    : (fillRead fd buffer cnt cb opt s slot).fdToEventInfo
        = (s.findOrInsert fd .read).2.fdToEventInfo := by
  have hbase := (offsetFor_infos ((s.findOrInsert fd .read).2.storeReadCallback
    (s.findOrInsert fd .read).1 fd buffer cnt cb) (s.findOrInsert fd .read).1
    (opt.bind (·.offset))).trans (storeReadCallback_infos ..)
  cases buffer with
  | none => exact hbase
  | some buf =>
    unfold fillRead
    cases isStream fd with
    | false => exact hbase
    | true => exact (getReadMsghdr_infos ..).trans hbase

-- The `complete_action` that a read uses is the one that its file descriptor owns from then on.
theorem findOrInsert_owns (s : IoUring) (fd : Fd) (kind : Kind)
    : (s.findOrInsert fd kind).2.Owns fd.key kind (s.findOrInsert fd kind).1 := by
  have hget : ∀ info : IouringEventInfo, (∀ a, info.get kind = some a → s.Owns fd.key kind a)
      → (s.getCompleteAction fd info kind).2.Owns fd.key kind
        (s.getCompleteAction fd info kind).1 := by
    intro info hinfo
    unfold getCompleteAction
    cases hget : info.get kind with
    | some a => exact hinfo a hget
    | none =>
      refine ⟨_, Function.update_self .., ?_⟩
      rw [IouringEventInfo.get_set, if_pos rfl]
  unfold findOrInsert
  cases hinfo : s.fdToEventInfo fd.key with
  | some info => exact hget info fun a ha => ⟨info, hinfo, ha⟩
  | none =>
    apply hget
    intro a ha
    cases kind <;> cases ha

theorem fillRead_owns (fd : Fd) (buffer : Option IovPtr) (cnt : Nat) (cb : Option Callback)
    (opt : Option ReadOptions) (s : IoUring) (slot : Nat)
    : (fillRead fd buffer cnt cb opt s slot).Owns fd.key .read (s.findOrInsert fd .read).1 := by
  have howns := findOrInsert_owns s fd .read
  unfold Owns at howns ⊢
  rw [fillRead_infos]
  exact howns

theorem findOrInsert_ring (s : IoUring) (ring : Wrapper) (fd : Fd) (kind : Kind)
    : (findOrInsert { s with ring } fd kind).1 = (s.findOrInsert fd kind).1 := by
  unfold findOrInsert getCompleteAction
  dsimp only
  split
  . split
    . rfl
    . rfl
  . split
    . rfl
    . rfl

-- The checks of `submit_async_read`.
def isReadValid (s : IoUring) (fd : Fd) (buffer : Option IovPtr) (cnt : Nat) : Bool :=
  !(!s.isInited || fd.num < 0 || (0 < cnt && buffer.isNone))

variable {s : IoUring} {fd : Fd} {buffer : Option IovPtr} {cnt : Nat} {cb : Option Callback}
  {opt : Option ReadOptions}

theorem submitAsyncRead_of_valid (hvalid : s.isReadValid fd buffer cnt)
    : s.submitAsyncRead fd buffer cnt cb opt
        = s.withSqe (opt.all (·.isSubmit)) (fillRead fd buffer cnt cb opt) := by
  unfold isReadValid at hvalid
  rw [Bool.not_eq_true'] at hvalid
  unfold submitAsyncRead
  rw [hvalid]
  rfl

theorem submitAsyncRead_effect (s : IoUring) (fd : Fd) (buffer : Option IovPtr) (cnt : Nat)
    (cb : Option Callback) (opt : Option ReadOptions)
    : Effect (fun f => SetsTo (fun s => (s.findOrInsert fd .read).1) s f
          ∧ s.isReadValid fd buffer cnt)
        s.ring (s.submitAsyncRead fd buffer cnt cb opt).1
        (s.submitAsyncRead fd buffer cnt cb opt).2.ring := by
  by_cases hvalid : s.isReadValid fd buffer cnt
  . rw [submitAsyncRead_of_valid hvalid]
    have hfills := (fillRead_fills fd buffer cnt cb opt).mono (G := fun s' f =>
      SetsTo (fun s => (s.findOrInsert fd .read).1) s' f ∧ s.isReadValid fd buffer cnt)
      fun _ _ h => ⟨h, hvalid⟩
    apply withSqe_effect _ hfills
    rintro s' ring f ⟨⟨horigin, hdata⟩, _⟩
    dsimp only at horigin hdata
    rw [findOrInsert_ring] at horigin hdata
    exact ⟨⟨horigin, hdata⟩, hvalid⟩
  . unfold isReadValid at hvalid
    rw [Bool.not_eq_true', Bool.not_eq_false] at hvalid
    unfold submitAsyncRead
    rw [if_pos hvalid]
    exact Effect.same _

-- A read that gets a slot uses the `complete_action` that its file descriptor owns from then on.
theorem submitAsyncRead_owns (hroom : s.ring.sq.getSqe.1 ≠ none)
    (hvalid : s.isReadValid fd buffer cnt)
    : (s.submitAsyncRead fd buffer cnt cb opt).2.Owns fd.key .read (s.findOrInsert fd .read).1 := by
  rw [submitAsyncRead_of_valid hvalid]
  unfold withSqe getIoUringSqe Wrapper.getIoUringSqe Wrapper.getSqe
  cases hget : s.ring.sq.getSqe with
  | mk slot sq =>
    cases slot with
    | none =>
      rw [hget] at hroom
      exact absurd rfl hroom
    | some slot =>
      have howns := fillRead_owns fd buffer cnt cb opt { s with ring := { s.ring with sq } } slot
      rw [findOrInsert_ring] at howns
      cases opt.all (·.isSubmit) with
      | false => exact howns
      | true => exact howns

end IoUring

-- The reads on the file descriptors with this key that pass a callback use the same buffer.
def Op.RegistersInto (key : Nat) (buffer : Option IovPtr) (cnt : Nat) : Op → Prop
  | .submitAsyncRead fd buffer' cnt' cb _ => fd.key = key → cb ≠ none → buffer' = buffer ∧ cnt' = cnt
  | .submitAsyncReadGroup fd _ _ _ => fd.key ≠ key
  | .submitAsyncAccept fd _ _ => fd.key ≠ key
  | _ => True

-- The callbacks that are stored for these reads.
def StoresBuffer (key : Nat) (buffer : Option IovPtr) (cnt : Nat) (key' : Nat) (kind : Kind)
    (cb : Option ActionCallback) : Prop :=
  key' = key → kind = .read → ∀ a, cb = some a → ∃ user msghdr, a = .read user buffer cnt msghdr

theorem Op.RegistersInto.stores {key key' cnt : Nat} {buffer : Option IovPtr} {kind : Kind}
    {cb : ActionCallback} {op : Op} (h : op.RegistersInto key buffer cnt) (hstores : op.Stores key' kind cb)
    : StoresBuffer key buffer cnt key' kind (some cb) := by
  intro hkey hkind a ha
  cases ha
  cases op with
  | submitAsyncRead fd buffer' cnt' cb' opt =>
    obtain ⟨hfd, _, user, msghdr, hpassed, hcb⟩ := hstores
    obtain ⟨hbuffer, hcnt⟩ := h (hfd.symm.trans hkey) (hpassed ▸ Option.some_ne_none user)
    rw [hbuffer, hcnt] at hcb
    exact ⟨user, msghdr, hcb⟩
  | submitAsyncReadGroup fd group cb' opt => exact absurd (hstores.1.symm.trans hkey) h
  | submitAsyncAccept fd addr cb' => exact absurd (hstores.1.symm.trans hkey) h
  | submitAsyncWrite fd buffer' cnt' cb' opt =>
    rw [hkind] at hstores
    cases hstores.2.1
  | cancelAsyncRead fd cb' =>
    rw [hkind] at hstores
    cases hstores.2.1
  | cancelAsyncWrite fd cb' =>
    rw [hkind] at hstores
    cases hstores.2.1
  | cancelAsyncAccept fd cb' =>
    rw [hkind] at hstores
    cases hstores.2.1
  | createTimer intervalS intervalNs cb' => exact hstores.elim
  | closeTimer timerId => exact hstores.elim
  | submit => exact hstores.elim
  | registerRingBuffer blockSize blockCount setup addrs => exact hstores.elim
  | unregisterRingBuffer group freed => exact hstores.elim

-- The entry was prepared by a call that was made, and if that is a read on a file descriptor with this
-- key, it is routed to the `complete_action` of its reads.
structure Owed (key : Nat) (w : World) (origin : Origin) (data : Nat) : Prop where
  made : origin.call < w.uring.calls
  owns : ∀ fd buffer cnt cb opt ret,
      (origin.call, Op.submitAsyncRead fd buffer cnt cb opt, ret) ∈ w.returned → fd.key = key
      → w.uring.Owns key .read data

structure Later (w w' : World) : Prop where
  calls : w.uring.calls ≤ w'.uring.calls
  returned : ∀ p ∈ w'.returned, p ∈ w.returned ∨ p.1 = w.uring.calls
  owns : ∀ key kind a, w.uring.Owns key kind a → w'.uring.Owns key kind a

theorem Owed.later {key data : Nat} {w w' : World} {origin : Origin} (h : Owed key w origin data)
    (hlater : Later w w')
    : Owed key w' origin data := by
  refine ⟨Nat.lt_of_lt_of_le h.made hlater.calls, ?_⟩
  intro fd buffer cnt cb opt ret hmem hkey
  apply hlater.owns
  rcases hlater.returned _ hmem with hold | hnew
  . exact h.owns fd buffer cnt cb opt ret hold hkey
  . exact absurd hnew (Nat.ne_of_lt h.made)

theorem Moves.later {I : Nat → Kind → Option ActionCallback → Prop} {w w' : World} {st : Step}
    (h : Moves w st w') (hgrows : Grows I w.uring w'.uring)
    : Later w w' := by
  cases h with
  | quiet hrest hreturned =>
    refine ⟨Nat.le_of_eq hrest.calls.symm, ?_, hgrows.owns⟩
    rw [hreturned]
    exact fun _ hp => .inl hp
  | called op hst heffect hcalls hreturned hret =>
    refine ⟨by omega, ?_, hgrows.owns⟩
    rw [hreturned]
    intro p hp
    rw [List.mem_append, List.mem_singleton] at hp
    rcases hp with hp | hp
    . exact .inl hp
    . rw [hp]
      exact .inr rfl
  | performed heffect hcalls hreturned =>
    refine ⟨by omega, ?_, hgrows.owns⟩
    rw [hreturned]
    exact fun _ hp => .inl hp
  | turned cq hring hcalls hreturned =>
    refine ⟨Nat.le_of_eq hcalls.symm, ?_, hgrows.owns⟩
    rw [hreturned]
    exact fun _ hp => .inl hp

-- The reads on the file descriptors with this key are called back with the buffer.
structure Serves (key : Nat) (buffer : Option IovPtr) (cnt k : Nat) (w : World) : Prop where
  heap : Heap (StoresBuffer key buffer cnt) w.uring
  returned : ∀ p ∈ w.returned, p.1 < w.uring.calls
  tracks : ∃ hist, Tracks k w.uring.ring hist ∧ ∀ q ∈ hist, Owed key w q.origin q.userData
  cqes : ∀ cqe ∈ w.uring.ring.cq.cqes, cqe.userData = 0 ∨ Owed key w cqe.origin cqe.userData
  callbacks : ∀ c ∈ w.callbacks, c.origin.call < w.uring.calls
      ∧ ∀ fd buffer' cnt' cb opt ret,
        (c.origin.call, Op.submitAsyncRead fd buffer' cnt' cb opt, ret) ∈ w.returned → fd.key = key
        → c.buffer = buffer ∧ c.bufferIovCnt = cnt

namespace Serves

variable {key cnt k : Nat} {buffer : Option IovPtr} {w w' : World} {st : Step}

theorem executed (h : Serves key buffer cnt k w)
    : ∀ e ∈ w.uring.ring.executed, Owed key w e.sqe.origin e.sqe.userData := by
  intro e he
  obtain ⟨hist, ⟨head, queue, lag, hqueue, hbehind, hhist⟩, howed⟩ := h.tracks
  apply howed
  rw [hhist]
  exact List.mem_append_left _ (List.mem_map_of_mem he)

-- The entry that a step prepares.
theorem effect {F : (Sqe → Sqe) → Prop} {submitted : Int} (h : Serves key buffer cnt k w)
    (heffect : Effect F w.uring.ring submitted w'.uring.ring) (hlater : Later w w')
    (hnew : ∀ q f, F f → w.uring.ring.sq.getSqe.1 ≠ none → Owed key w' (f q).origin (f q).userData)
    : ∃ hist, Tracks k w'.uring.ring hist ∧ ∀ q ∈ hist, Owed key w' q.origin q.userData := by
  obtain ⟨hist, htracks, howed⟩ := h.tracks
  rcases heffect.tracks htracks with htracks' | ⟨q, ⟨⟨f, hfills, hq⟩, hroom, _⟩, htracks'⟩
  . exact ⟨hist, htracks', fun q hq => (howed q hq).later hlater⟩
  . refine ⟨hist ++ [q], htracks', ?_⟩
    intro q' hq'
    rw [List.mem_append, List.mem_singleton] at hq'
    rcases hq' with hq' | hq'
    . exact (howed q' hq').later hlater
    . rw [hq', hq]
      exact hnew _ f hfills hroom

theorem origin_call {call : Nat} {own : Option (Option Nat)} {f : Sqe → Sqe} (q : Sqe)
    (h : Fills call own f)
    : (f q).origin.call = call := by
  cases h with
  | sets action f horigin hdata => rw [horigin]
  | keeps o f horigin hdata => rw [horigin]

-- An entry that is not prepared by a read on the file descriptor.
theorem owed_other {own : Option (Option Nat)} {f : Sqe → Sqe} (h : Serves key buffer cnt k w)
    (hcalls : w'.uring.calls = w.uring.calls + 1)
    (hreturned : ∀ fd buffer' cnt' cb opt ret,
      (w.uring.calls, Op.submitAsyncRead fd buffer' cnt' cb opt, ret) ∈ w'.returned
      → (w.uring.calls, Op.submitAsyncRead fd buffer' cnt' cb opt, ret) ∈ w.returned)
    (q : Sqe) (hfills : Fills w.uring.calls own f)
    : Owed key w' (f q).origin (f q).userData := by
  have hcall := origin_call q hfills
  refine ⟨by omega, ?_⟩
  rw [hcall]
  intro fd buffer' cnt' cb opt ret hmem _
  have hlt := h.returned _ (hreturned fd buffer' cnt' cb opt ret hmem)
  exact absurd hlt (Nat.lt_irrefl _)

theorem hist_read {fd : Fd} {buffer' : Option IovPtr} {cnt' : Nat} {cb : Option Callback}
    {opt : Option ReadOptions} (h : Serves key buffer cnt k w)
    (huring : w'.uring = (w.uring.exec (.submitAsyncRead fd buffer' cnt' cb opt)).2)
    (hcalls : w'.uring.calls = w.uring.calls + 1)
    (hreturned : w'.returned = w.returned
      ++ [(w.uring.calls, Op.submitAsyncRead fd buffer' cnt' cb opt,
        (w.uring.exec (.submitAsyncRead fd buffer' cnt' cb opt)).1)])
    (hlater : Later w w')
    : ∃ hist, Tracks k w'.uring.ring hist ∧ ∀ q ∈ hist, Owed key w' q.origin q.userData := by
  have heffect := submitAsyncRead_effect w.uring fd buffer' cnt' cb opt
  have hring : w'.uring.ring = (w.uring.submitAsyncRead fd buffer' cnt' cb opt).2.ring := by
    rw [huring]
    rfl
  rw [← hring] at heffect
  refine h.effect heffect hlater ?_
  rintro q f ⟨⟨horigin, hdata⟩, hvalid⟩ hroom
  have howns : w'.uring.Owns fd.key .read (w.uring.findOrInsert fd .read).1 := by
    rw [huring]
    exact submitAsyncRead_owns hroom hvalid
  rw [horigin, hdata]
  refine ⟨by rw [hcalls]; exact Nat.lt_succ_self _, ?_⟩
  dsimp only
  rw [hreturned]
  intro fd₁ buffer₁ cnt₁ cb₁ opt₁ ret₁ hmem hkey
  rw [List.mem_append, List.mem_singleton] at hmem
  rcases hmem with hold | hnew
  . exact absurd (h.returned _ hold) (Nat.lt_irrefl _)
  . simp only [Prod.mk.injEq, Op.submitAsyncRead.injEq] at hnew
    rw [← hkey, hnew.2.1.1]
    exact howns

theorem hist_step (h : Serves key buffer cnt k w) (hlater : Later w (w.step st))
    : ∃ hist, Tracks k (w.step st).uring.ring hist
        ∧ ∀ q ∈ hist, Owed key (w.step st) q.origin q.userData := by
  by_cases hread : ∃ fd buffer' cnt' cb opt, st = .op (.submitAsyncRead fd buffer' cnt' cb opt)
  . obtain ⟨fd, buffer', cnt', cb, opt, hst⟩ := hread
    subst hst
    unfold World.step at hlater ⊢
    cases hfault : w.fault with
    | some f => exact h.tracks
    | none =>
      rw [hfault] at hlater
      have hcalls := (run_performs (s := w.uring) (.submitAsyncRead fd buffer' cnt' cb opt)).calls
      exact h.hist_read rfl (congrArg (· + 1) hcalls) rfl hlater
  . cases w.step_moves st with
    | quiet hrest hreturned =>
      obtain ⟨hist, htracks, howed⟩ := h.tracks
      rw [← hrest.ring] at htracks
      exact ⟨hist, htracks, fun q hq => (howed q hq).later hlater⟩
    | @called submitted ret op hst heffect hcalls hreturned hret =>
      refine h.effect heffect hlater fun q f hfills _ => h.owed_other hcalls ?_ q hfills
      rw [hreturned]
      intro fd buffer' cnt' cb opt ret' hmem
      rw [List.mem_append, List.mem_singleton] at hmem
      rcases hmem with hold | hnew
      . exact hold
      . cases hnew
        exact absurd ⟨fd, buffer', cnt', cb, opt, hst⟩ hread
    | performed heffect hcalls hreturned =>
      refine h.effect heffect hlater fun q f hfills _ => h.owed_other hcalls ?_ q hfills
      rw [hreturned]
      exact fun _ _ _ _ _ _ hmem => hmem
    | turned cq hring hcalls hreturned =>
      obtain ⟨hist, htracks, howed⟩ := h.tracks
      refine ⟨hist, ?_, fun q hq => (howed q hq).later hlater⟩
      rw [hring]
      exact htracks

-- A completion that is routed to the `complete_action` of the reads finds the callback of one of them.
theorem hands {i : Nat} {c : Called} (h : Serves key buffer cnt k w)
    (hdata : (w.uring.ring.getCqe i).userData ≠ 0) (hhands : Hands w (w.uring.ring.getCqe i) c)
    : c.origin.call < w.uring.calls
        ∧ ∀ fd buffer' cnt' cb opt ret,
          (c.origin.call, Op.submitAsyncRead fd buffer' cnt' cb opt, ret) ∈ w.returned → fd.key = key
          → c.buffer = buffer ∧ c.bufferIovCnt = cnt := by
  obtain ⟨horigin, _, a, cb, ha, hcb, _, hargs⟩ := hhands
  have howed : Owed key w (w.uring.ring.getCqe i).origin (w.uring.ring.getCqe i).userData := by
    rcases getD_mem_or_eq w.uring.ring.cq.cqes
      ((w.uring.ring.cq.khead + BitVec.ofNat 32 i) &&& w.uring.ring.cq.kringMask).toNat {}
      with hmem | heq
    . exact (h.cqes _ hmem).resolve_left hdata
    . exact absurd (congrArg Cqe.userData heq) hdata
  rw [horigin]
  refine ⟨howed.made, ?_⟩
  intro fd buffer' cnt' cb' opt ret hmem hkey
  obtain ⟨_, act, hact, hstores⟩ := h.heap.alive _ _ _ (howed.owns fd buffer' cnt' cb' opt ret hmem hkey)
  rw [ha, Option.some.injEq] at hact
  rw [← hact] at hstores
  obtain ⟨user, msghdr, hread⟩ := hstores rfl rfl cb hcb
  rw [hread] at hargs
  unfold World.calledWith at hargs
  simp only [Option.some.injEq, Prod.mk.injEq] at hargs
  exact ⟨hargs.2.1.symm, hargs.2.2.symm⟩

theorem callbacks_step (h : Serves key buffer cnt k w) (hlater : Later w (w.step st))
    : ∀ c ∈ (w.step st).callbacks, c.origin.call < (w.step st).uring.calls
        ∧ ∀ fd buffer' cnt' cb opt ret,
          (c.origin.call, Op.submitAsyncRead fd buffer' cnt' cb opt, ret) ∈ (w.step st).returned
          → fd.key = key → c.buffer = buffer ∧ c.bufferIovCnt = cnt := by
  have hcalled : ∀ c ∈ (w.step st).callbacks, c.origin.call < w.uring.calls
      ∧ ∀ fd buffer' cnt' cb opt ret,
        (c.origin.call, Op.submitAsyncRead fd buffer' cnt' cb opt, ret) ∈ w.returned → fd.key = key
        → c.buffer = buffer ∧ c.bufferIovCnt = cnt := by
    rcases w.step_callbacks st with hsame | ⟨i, c, hdata, hhands, hadds⟩
    . rw [hsame]
      exact h.callbacks
    . rw [hadds]
      intro c' hc'
      rw [List.mem_append, List.mem_singleton] at hc'
      rcases hc' with hc' | hc'
      . exact h.callbacks c' hc'
      . rw [hc']
        exact h.hands hdata hhands
  intro c hc
  obtain ⟨hlt, hbuffer⟩ := hcalled c hc
  refine ⟨Nat.lt_of_lt_of_le hlt hlater.calls, ?_⟩
  intro fd buffer' cnt' cb opt ret hmem
  rcases hlater.returned _ hmem with hold | hnew
  . exact hbuffer fd buffer' cnt' cb opt ret hold
  . exact absurd hnew (Nat.ne_of_lt hlt)

theorem returned_step (h : Serves key buffer cnt k w)
    : ∀ p ∈ (w.step st).returned, p.1 < (w.step st).uring.calls := by
  cases w.step_moves st with
  | quiet hrest hreturned =>
    rw [hreturned, hrest.calls]
    exact h.returned
  | called op hop heffect hcalls hreturned hret =>
    rw [hreturned, hcalls]
    intro p hp
    rw [List.mem_append, List.mem_singleton] at hp
    rcases hp with hp | hp
    . exact Nat.lt_succ_of_lt (h.returned p hp)
    . rw [hp]
      exact Nat.lt_succ_self _
  | performed heffect hcalls hreturned =>
    rw [hreturned, hcalls]
    exact fun p hp => Nat.lt_succ_of_lt (h.returned p hp)
  | turned cq hring hcalls hreturned =>
    rw [hreturned, hcalls]
    exact h.returned

theorem step (h : Serves key buffer cnt k w)
    (hst : ∀ op, st = .op op → op.RegistersInto key buffer cnt)
    : Serves key buffer cnt k (w.step st) := by
  have hgrows := World.step_grows h.heap (fun _ _ _ _ _ ha => by cases ha)
    fun op hop _ _ _ hstores => (hst op hop).stores hstores
  have hlater := (w.step_moves st).later hgrows
  have hcqes := World.step_cqes (S := fun origin data => data = 0 ∨ Owed key w origin data) st
    (fun e he => .inr (h.executed e he)) h.cqes
  exact ⟨hgrows.heap, h.returned_step, h.hist_step hlater,
    fun cqe hcqe => (hcqes cqe hcqe).imp_right (·.later hlater), h.callbacks_step hlater⟩

theorem init (k c sqStart cqStart : Nat) (enters : List EnterRet) (hk : k < 32)
    (hasTimeoutMultishot : Bool)
    : Serves key buffer cnt k
        { uring := .init hasTimeoutMultishot (Wrapper.init k c sqStart cqStart enters) } := by
  refine ⟨Heap.init _ _, ?_, ⟨[], Tracks.init c sqStart cqStart enters hk, ?_⟩, ?_, ?_⟩
  . intro p hp
    cases hp
  . intro q hq
    cases hq
  . intro cqe hcqe
    rw [List.eq_of_mem_replicate hcqe]
    exact .inl rfl
  . intro c hc
    cases hc

end Serves

-- A read is called back with the buffer that the callback of its file descriptor was stored with.
theorem run_serves (k c sqStart cqStart : Nat) (enters : List EnterRet) (hk : k < 32)
    (hasTimeoutMultishot : Bool) (key : Nat) (buffer : Option IovPtr) (cnt : Nat) (steps : List Step)
    (hsteps : ∀ op, .op op ∈ steps → op.RegistersInto key buffer cnt)
    : Serves key buffer cnt k (World.run
        { uring := .init hasTimeoutMultishot (Wrapper.init k c sqStart cqStart enters) } steps) := by
  apply foldl_invariant steps
  . intro w st hst hw
    apply hw.step
    intro op hop
    rw [hop] at hst
    exact hsteps op hst
  . exact Serves.init k c sqStart cqStart enters hk hasTimeoutMultishot

end Uring
end Event
end Ezio
