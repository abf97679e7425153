import Ezio.Event.Epoll.Lemmas.Listen

/-!
This module contains the proof that no connection is left behind as long as every callback that is given
a connection asks for the next one.
-/

namespace Ezio
namespace Event

open EStateM (Preserves Triple)
open Ezio.Event.Frame (Inv)

-- A callback of the listening action that is given a connection asks for the next one.
def Entry.resubmits (id k : Nat) : Entry → Bool
  | .readReturn i .accept ret before ops _ =>
    i ≠ id || ret ≤ 0 || (before.fdToEventInfo k = some id && ops.any (·.acceptsOn k))
  | _ => true

def Entry.isAcceptError (id : Nat) : Entry → Bool
  | .readCallback i _ .accept ret _ => i = id && ret < 0
  | _ => false

-- An error has been reported since the log had `m` entries.
def World.failedAccept (m id : Nat) (w : World) : Prop := ∃ e ∈ w.log.drop m, e.isAcceptError id = true

-- The calls that leave the listening action without a multishot read.
def Op.Spares (k : Nat) (op : Op) : Prop := op.readsGroup k = false

instance (k : Nat) : DecidablePred (Op.Spares k) := fun op =>
  inferInstanceAs (Decidable (op.readsGroup k = false))

-- `R` holds unless an error has been reported.
structure World.Unless (m id : Nat) (R : Epoll → Prop) (w : World) : Prop where
  log : m ≤ w.log.length
  holds : w.failedAccept m id ∨ R w.poll

def World.Accepts (m id k : Nat) (R : Epoll → Prop) (w : World) : Prop :=
  w.All (Entry.resubmits id k ·) → w.Unless m id R

theorem World.failedAccept.append {m id : Nat} {w : World} (h : w.failedAccept m id)
    (hm : m ≤ w.log.length) (log : List Entry)
    : { w with log := w.log ++ log }.failedAccept m id := by
  obtain ⟨e, he, herr⟩ := h
  refine ⟨e, ?_, herr⟩
  rw [List.drop_append_of_le_length hm]
  exact List.mem_append_left _ he

namespace World.Accepts

variable {m id k i : Nat} {R R' : Epoll → Prop} {w w' : World}

theorem of_append (h : w.Accepts m id k R) {log : List Entry} (hlog : w'.log = w.log ++ log)
    (hR : R w.poll → R' w'.poll)
    : w'.Accepts m id k R' := by
  intro hall
  have h := h (hall.of_prefix (by rw [hlog]; exact List.prefix_append _ _))
  constructor
  . have := h.log
    rw [hlog, List.length_append]
    omega
  . cases h.holds with
    | inl hfail =>
      left
      have := hfail.append h.log log
      unfold failedAccept at this ⊢
      rw [hlog]
      exact this
    | inr hr => exact .inr (hR hr)

theorem of_poll (h : w.Accepts m id k R) (hlog : w'.log = w.log) (hR : R w.poll → R' w'.poll)
    : w'.Accepts m id k R' := h.of_append (hlog.trans (List.append_nil _).symm) hR

theorem ioFrame {K : Entry → Prop}
    (hexec : ∀ op s r s', op.readsGroup k = false → R s → s.exec op = .ok (r, s') → R s')
    (htouch : ∀ s a, (s.infos i).action.Touch a → R s → R (s.setAction i a))
    : IoFrame i K (Op.Spares k) (World.Accepts m id k R) := by
  constructor
  . intro op hop
    apply exec_triple
    . intro w r s hw h
      exact hw.of_append rfl (fun hr => hexec op _ r s hop hr h)
    . intro w f hw _
      exact hw.of_append rfl (fun hr => hr)
  . intro w sys user log _ hw
    exact hw.of_append rfl (fun hr => hr)
  . intro w a ha _ hw
    exact hw.of_poll rfl (fun hr => htouch _ a ha hr)

theorem listens_ioFrame {n : Nat} {K : Entry → Prop}
    : IoFrame i K (Op.Spares k) (World.Accepts m id k (Epoll.Listens n id k)) := by
  apply ioFrame
  . intro op s r s' hop h hs
    exact (h.exec hop hs).1
  . rintro s _ ⟨_, _, _, _, _, _, rfl⟩ h
    exact h.setAction rfl

theorem accepting_ioFrame {n : Nat} {K : Entry → Prop}
    : IoFrame i K (Op.Spares k) (World.Accepts m id k (Epoll.Accepting n id k)) := by
  apply ioFrame
  . intro op s r s' hop h hs
    exact h.exec hop hs
  . rintro s _ ⟨_, _, _, _, _, hr, rfl⟩ h
    exact h.setAction rfl (fun _ => ⟨rfl, hr⟩)

theorem listens_readFrame {n : Nat}
    : ReadFrame i (Op.Spares k) (World.Accepts m id k (Epoll.Listens n id k)) := by
  refine ⟨⟨listens_ioFrame, ?_⟩, ?_⟩
  . intro w group f hw
    exact hw.of_poll rfl (fun h => { h with wf := { h.wf with } })
  . rintro w _ ⟨_, rfl⟩ hw
    exact hw.of_poll rfl (fun h => h.setAction rfl)

theorem listens_writeFrame {n : Nat}
    : WriteFrame i (Op.Spares k) (World.Accepts m id k (Epoll.Listens n id k)) := by
  refine ⟨⟨listens_ioFrame, ?_⟩, ?_⟩
  . intro w offset hw
    exact hw.of_poll rfl (fun h => h.setAction rfl)
  . rintro w _ ⟨_, _, rfl⟩ hw
    exact hw.of_poll rfl (fun h => h.setAction rfl)

theorem accepting_readFrame {n : Nat}
    : ReadFrame i (Op.Spares k) (World.Accepts m id k (Epoll.Accepting n id k)) := by
  refine ⟨⟨accepting_ioFrame, ?_⟩, ?_⟩
  . intro w group f hw
    exact hw.of_poll rfl (fun h => { h with wf := { h.wf with } })
  . rintro w _ ⟨_, rfl⟩ hw
    exact hw.of_poll rfl (fun h => h.setAction rfl (fun _ => ⟨rfl, fun hr => hr⟩))

theorem accepting_writeFrame {n : Nat}
    : WriteFrame i (Op.Spares k) (World.Accepts m id k (Epoll.Accepting n id k)) := by
  refine ⟨⟨accepting_ioFrame, ?_⟩, ?_⟩
  . intro w offset hw
    exact hw.of_poll rfl (fun h => h.setAction rfl (fun _ => ⟨rfl, fun hr => hr⟩))
  . rintro w _ ⟨_, _, rfl⟩ hw
    exact hw.of_poll rfl (fun h => h.setAction rfl (fun _ => ⟨rfl, fun hr => hr⟩))

end World.Accepts

section Handle

variable {m n id k : Nat}

-- The callbacks of a connection, one of which asks for the next one.
theorem script_accepting {ops : List Op} (hops : ∀ op ∈ ops, Op.Spares k op)
    (hany : ops.any (·.acceptsOn k) = true)
    : Triple (Inv (Op.Spares k) (World.Accepts m id k
          fun s => s.Listens n id k ∧ s.fdToEventInfo k = some id))
        (ops.forM exec)
        (fun _ => Inv (Op.Spares k) (World.Accepts m id k (Epoll.Accepting n id k)))
        (fun _ _ => True) := by
  rw [List.any_eq_true] at hany
  obtain ⟨op, hmem, haccepts⟩ := hany
  apply Triple.forM_of_mem hmem
  . intro op hop
    apply Triple.ignore_error (E := fun _ => World.Calls (Op.Spares k))
    apply exec_triple
    . intro w r s hw h
      refine ⟨hw.1, hw.2.of_append rfl ?_⟩
      intro hr
      have := hr.1.exec (hops op hop) h
      exact ⟨this.1, this.2 hr.2⟩
    . intro w f hw _
      exact hw.1
  . apply exec_triple
    . intro w r s hw h
      refine ⟨hw.1, hw.2.of_append rfl ?_⟩
      intro hr
      exact hr.1.exec_accepting hr.2 haccepts h
    . intro _ _ _ _
      trivial
  . intro op hop
    have hframe : ReadFrame 0 (Op.Spares k) (World.Accepts m id k (Epoll.Accepting n id k)) :=
      World.Accepts.accepting_readFrame
    exact ((Frame.exec_calls op).and (hframe.exec op (hops op hop))).ignore_error

theorem readCallback_accepting {ret : Int} (hret : 0 < ret)
    : Triple (Inv (Op.Spares k) (World.Accepts m id k (Epoll.Listens n id k)))
        (readCallback id .accept ret [])
        (fun _ => Inv (Op.Spares k) (World.Accepts m id k (Epoll.Accepting n id k)))
        (fun _ _ => True) := by
  apply Triple.get_bind
  intro w hw
  split
  . exact Triple.throw (fun _ _ => trivial)
  next cb hcb =>
    have hops := Frame.head_calls hw.1
    cases hany : (w.poll.fdToEventInfo k = some id && (w.user.headD []).any (·.acceptsOn k) : Bool) with
    | true =>
      simp only [Bool.and_eq_true, decide_eq_true_eq] at hany
      apply Triple.modify_bind (T := Inv (Op.Spares k) (World.Accepts m id k
        fun s => s.Listens n id k ∧ s.fdToEventInfo k = some id))
      . rintro _ rfl
        refine ⟨Frame.tail_calls hw.1, hw.2.of_append rfl ?_⟩
        intro h
        exact ⟨h, hany.1⟩
      . apply Triple.bind (script_accepting hops hany.2)
        intro _
        apply Triple.modify
        intro w' hw'
        exact ⟨hw'.1, hw'.2.of_append rfl (fun h => h)⟩
    | false =>
      have hframe : ReadFrame id (Op.Spares k) (World.Accepts m id k (Epoll.Listens n id k)) :=
        World.Accepts.listens_readFrame
      apply Triple.modify_bind (T := Inv (Op.Spares k) (World.Accepts m id k (Epoll.Listens n id k)))
      . rintro _ rfl
        exact ⟨Frame.tail_calls hw.1, hw.2.of_append rfl (fun h => h)⟩
      . apply Triple.bind (hframe.script hops).ignore_error
        intro _
        apply Triple.modify
        intro w' hw'
        refine ⟨hw'.1, ?_⟩
        intro hall
        have := hall (.readReturn id .accept ret w.poll (w.user.headD []) w'.poll)
          (by simp [World.addLog])
        simp only [Entry.resubmits, hany] at this
        simp at this
        omega

-- An error is reported, whatever the callback does.
theorem readCallback_failed
    : Triple (Inv (Op.Spares k) (World.Accepts m id k (Epoll.Listens n id k)))
        (readCallback id .accept (-1) [])
        (fun _ => Inv (Op.Spares k) (World.Accepts m id k (Epoll.Accepting n id k)))
        (fun _ _ => True) := by
  have hframe : ReadFrame id (Op.Spares k) (World.Accepts m id k (Epoll.Accepting n id k)) :=
    World.Accepts.accepting_readFrame
  apply Triple.get_bind
  intro w hw
  split
  . exact Triple.throw (fun _ _ => trivial)
  next cb hcb =>
    have hops := Frame.head_calls hw.1
    apply Triple.modify_bind (T := Inv (Op.Spares k) (World.Accepts m id k (Epoll.Accepting n id k)))
    . rintro _ rfl
      refine ⟨Frame.tail_calls hw.1, ?_⟩
      intro hall
      have hm := (hw.2 (hall.of_prefix (List.prefix_append _ _))).log
      constructor
      . simp only [World.addLog, List.length_append]
        omega
      . left
        refine ⟨.readCallback id cb .accept (-1) [], ?_, by simp [Entry.isAcceptError]⟩
        simp only [World.addLog]
        rw [List.drop_append_of_le_length hm]
        simp
    . apply Triple.bind (hframe.script hops).ignore_error
      intro _
      apply Triple.modify
      intro w' hw'
      exact ⟨hw'.1, hw'.2.of_append rfl (fun h => h)⟩

theorem acceptLoop_conn {sys sys' : List SysRet} {fd : Nat}
    (h : acceptLoop sys = .done (.conn fd) sys')
    : 0 < fd := by
  fun_induction acceptLoop sys with
  | case1 => cases h
  | case2 lens sys ih => exact ih h
  | case3 n lens sys hn =>
    cases h
    omega
  | case4 => cases h
  | case5 sys _ ih => exact ih h
  | case6 => cases h

theorem doAcceptTask_accepting
    : Triple (Inv (Op.Spares k) (World.Accepts m id k (Epoll.Listens n id k))) (doAcceptTask id)
        (fun _ => Inv (Op.Spares k) (World.Accepts m id k (Epoll.Accepting n id k)))
        (fun _ _ => True) := by
  have hframe : ReadFrame id (Op.Spares k) (World.Accepts m id k (Epoll.Listens n id k)) :=
    World.Accepts.listens_readFrame
  apply Triple.get_bind
  intro w hw
  apply Triple.bind (Q := fun r w' =>
    Inv (Op.Spares k) (World.Accepts m id k (Epoll.Listens n id k)) w'
      ∧ ∀ fd, r = .conn fd → 0 < fd)
  . intro w' heq
    rw [heq]
    have hio := hframe.liftIo acceptLoop w hw
    unfold liftIo at hio ⊢
    cases hloop : acceptLoop w.sys with
    | done r sys =>
      rw [hloop] at hio
      refine ⟨hio, ?_⟩
      intro fd hfd
      rw [hfd] at hloop
      exact acceptLoop_conn hloop
    | cut => trivial
    | null => trivial
  intro r
  apply Triple.of_states
  intro w₁ hw₁
  split
  . apply Triple.modify
    intro w' heq
    rw [heq, World.modifyAction_eq]
    refine ⟨hw₁.1.1, hw₁.1.2.of_poll rfl ?_⟩
    intro h
    apply Epoll.Listens.of_not_readable
    . exact h.setAction rfl
    . simp
  . exact readCallback_failed.at_state hw₁.1
  next fd =>
    split
    . apply (readCallback_accepting _).at_state hw₁.1
      have := hw₁.2 fd rfl
      omega
    . exact Triple.throw (fun _ _ => trivial)

theorem acceptPass_accepting
    : Triple (Inv (Op.Spares k) (World.Accepts m id k (Epoll.Listens n id k))) (acceptPass id)
        (fun _ => Inv (Op.Spares k) (World.Accepts m id k (Epoll.Accepting n id k)))
        (fun _ _ => True) := by
  apply Triple.get_bind
  intro w hw
  split
  . exact doAcceptTask_accepting.at_state hw
  next hnot =>
    apply Triple.pure
    rintro _ rfl
    refine ⟨hw.1, hw.2.of_poll rfl ?_⟩
    intro h
    exact { h with accept := fun ha => absurd ha hnot }

theorem handleRead_accepting (isEventTriggered : Bool)
    : Triple (Inv (Op.Spares k) (World.Accepts m id k (Epoll.Listens n id k)))
        (handleRead id isEventTriggered)
        (fun _ => Inv (Op.Spares k) (World.Accepts m id k (Epoll.Accepting n id k)))
        (fun _ _ => True) := by
  have hframe : ReadFrame id (Op.Spares k) (World.Accepts m id k (Epoll.Listens n id k)) :=
    World.Accepts.listens_readFrame
  apply Triple.get_bind
  intro w hw
  split
  . split
    . apply Triple.bind ((hframe.doMultishotReadTask _).ignore_error.at_state hw)
      intro _
      exact acceptPass_accepting
    . apply Triple.bind ((hframe.readPass _).ignore_error.at_state hw)
      intro _
      exact acceptPass_accepting
  next hnot =>
    apply Triple.pure
    rintro _ rfl
    refine ⟨hw.1, hw.2.of_poll rfl ?_⟩
    intro h
    exact h.of_not_readable (by simpa using hnot)

-- Whatever was left before, handling its events settles the action.
theorem handleEvents_accepting (isEventTriggered : Bool)
    : Triple (Inv (Op.Spares k) (World.Accepts m id k (Epoll.Listens n id k)))
        (handleEvents id isEventTriggered)
        (fun _ => Inv (Op.Spares k) (World.Accepts m id k (Epoll.Accepting n id k)))
        (fun _ _ => True) := by
  have hframe : WriteFrame id (Op.Spares k) (World.Accepts m id k (Epoll.Accepting n id k)) :=
    World.Accepts.accepting_writeFrame
  apply Triple.get_bind
  intro w hw
  split
  next hheld =>
    apply Triple.pure
    rintro _ rfl
    refine ⟨hw.1, hw.2.of_poll rfl ?_⟩
    intro h
    simp [EventAction.isHeld, h.multishot] at hheld
  . apply Triple.bind ((handleRead_accepting isEventTriggered).at_state hw)
    intro _
    exact hframe.handleWrite.ignore_error

theorem handleEvents_accepting_of_ne {i : Nat} (isEventTriggered : Bool)
    : Triple (Inv (Op.Spares k) (World.Accepts m id k (Epoll.Accepting n id k)))
        (handleEvents i isEventTriggered)
        (fun _ => Inv (Op.Spares k) (World.Accepts m id k (Epoll.Accepting n id k)))
        (fun _ _ => True) :=
  (Frame.handleEvents World.Accepts.accepting_readFrame World.Accepts.accepting_writeFrame
    isEventTriggered).ignore_error

theorem setReadyEvents_accepting (events : Mask)
    : Triple (Inv (Op.Spares k) (World.Accepts m id k (Epoll.Listens n id k)))
        (setReadyEvents id events)
        (fun _ => Inv (Op.Spares k) (World.Accepts m id k (Epoll.Accepting n id k)))
        (fun _ _ => True) := by
  refine Triple.modify_bind ?_ (handleEvents_accepting true)
  intro w hw
  exact ⟨hw.1, hw.2.of_poll rfl (fun h => h.setAction rfl)⟩

theorem setReadyEvents_listens (i : Nat) (events : Mask)
    : Triple (Inv (Op.Spares k) (World.Accepts m id k (Epoll.Listens n id k)))
        (setReadyEvents i events)
        (fun _ => Inv (Op.Spares k) (World.Accepts m id k (Epoll.Listens n id k)))
        (fun _ _ => True) := by
  refine Triple.modify_bind ?_ (Frame.handleEvents World.Accepts.listens_readFrame
    World.Accepts.listens_writeFrame true).ignore_error
  intro w hw
  exact ⟨hw.1, hw.2.of_poll rfl (fun h => h.setAction rfl)⟩

theorem setReadyEvents_keeps_accepting (i : Nat) (events : Mask)
    : Triple (Inv (Op.Spares k) (World.Accepts m id k (Epoll.Accepting n id k)))
        (setReadyEvents i events)
        (fun _ => Inv (Op.Spares k) (World.Accepts m id k (Epoll.Accepting n id k)))
        (fun _ _ => True) := by
  by_cases heq : i = id
  . rw [heq]
    apply (setReadyEvents_accepting events).pre
    intro w hw
    exact ⟨hw.1, hw.2.of_poll rfl (fun h => h.toListens)⟩
  . refine Triple.modify_bind ?_ (handleEvents_accepting_of_ne true)
    intro w hw
    exact ⟨hw.1, hw.2.of_poll rfl (fun h => h.setAction rfl (fun h => absurd h heq))⟩

theorem readyLoop_accepting (l : Nat)
    : Triple (Inv (Op.Spares k) (World.Accepts m id k (Epoll.Accepting 0 id k))) (readyLoop l)
        (fun _ => Inv (Op.Spares k) (World.Accepts m id k (Epoll.Accepting 0 id k)))
        (fun _ _ => True) := by
  induction l with
  | zero => exact Triple.pure (fun _ h => h)
  | succ l ih =>
    apply Triple.get_bind
    intro w hw
    split
    . exact Triple.throw (fun _ _ => trivial)
    next i ids hids =>
      apply Triple.bind
        (Q := fun _ => Inv (Op.Spares k) (World.Accepts m id k (Epoll.Accepting 1 id k)))
      . by_cases heq : i = id
        . rw [heq]
          apply (handleEvents_accepting false).at_state
          refine ⟨hw.1, hw.2.of_poll rfl ?_⟩
          intro h
          exact { h with lead := by simp [hids] }
        . apply (handleEvents_accepting_of_ne false).at_state
          exact ⟨hw.1, hw.2.of_poll rfl (fun h => h.head hids heq)⟩
      . intro _
        refine Triple.modify_bind ?_ ih
        intro w' hw'
        exact ⟨hw'.1, hw'.2.of_poll rfl (fun h => h.tail)⟩

end Handle

namespace Epoll

-- No `event_action` of the number has a multishot read.
structure Spared (k : Nat) (s : Epoll) : Prop where
  wf : s.Wf
  isInited : s.isInited = true
  none : ∀ id, id < s.next → (s.infos id).fd.key = k → (s.infos id).action.multishotReadTask = none

namespace Spared

variable {op : Op} {s₀ s s' : Epoll} {id k : Nat}

theorem listens (h : s.Spared k) (hid : id < s.next) (hkey : (s.infos id).fd.key = k)
    : s.Listens 0 id k :=
  ⟨h.wf, h.isInited, hid, hkey, h.none id hid hkey, Nat.zero_le _⟩

theorem update (h : s.Spared k) (hop : op.readsGroup k = false) (hs : Update op s₀ s s')
    : s'.Spared k := by
  have hwf := h.wf.update hs
  have hsame := hs.next_cases
  refine ⟨hwf, hsame.1.trans h.isInited, ?_⟩
  intro id hid hkey
  by_cases hlt : id < s.next
  . have hfd : (s'.infos id).fd = (s.infos id).fd := hsame.2.1 id hlt
    rw [hfd] at hkey
    exact ((h.listens hlt hkey).keeps hop hs).multishot
  . exact hsame.2.2 id (by omega) hid

theorem updates (h : s.Spared k) (hop : op.readsGroup k = false) (hs : Updates op s₀ s s')
    : s'.Spared k := by
  induction hs with
  | refl => exact h
  | tail _ hs ih => exact ih.update hop hs

theorem of_fields (h : s.Spared k) (hwf : s'.Wf) (hinit : s'.isInited = s.isInited)
    (hnext : s'.next = s.next) (hfd : ∀ j, (s'.infos j).fd = (s.infos j).fd)
    (hm : ∀ j, (s'.infos j).action.multishotReadTask = (s.infos j).action.multishotReadTask)
    : s'.Spared k := by
  refine ⟨hwf, hinit.trans h.isInited, ?_⟩
  rw [hnext]
  intro id hid hkey
  rw [hfd] at hkey
  rw [hm]
  exact h.none id hid hkey

theorem applyChanges (h : s.Spared k) : s.applyChanges.Spared k := by
  have hsame := applyChanges_sameTasks s
  apply h.of_fields h.wf.applyChanges hsame.isInited hsame.next hsame.fd
  intro j
  rw [hsame.action]

theorem runFrame (k : Nat)
    : RunFrame (Op.Spares k) (fun _ => True) (fun w => w.poll.Spared k) := by
  constructor
  . apply EventFrame.of_handled
    . intro op hop
      apply exec_triple
      . intro w r s hw h
        exact hw.updates hop (exec_updates h)
      . intro w f hw _
        exact hw
    . intro w sys user log hw
      exact hw
    . intro w id a ha hw
      obtain ⟨_, _, _, _, _, _, _, _, rfl⟩ := ha
      rw [World.modifyAction_poll]
      apply hw.of_fields hw.wf.modifyAction rfl rfl
      . intro j
        exact setAction_fd _ _ _ _
      . intro j
        rw [modifyAction_def, modifyInfo_infos]
        split
        next heq =>
          rw [heq]
          rfl
        . rfl
    . intro w group f hw
      exact hw.of_fields { hw.wf with } rfl rfl (fun _ => rfl) (fun _ => rfl)
    . intro w ready hready hw
      exact hw.of_fields { hw.wf with ready := fun j hj => hw.wf.ready j (hready hj) } rfl rfl
        (fun _ => rfl) (fun _ => rfl)
  . intro w hw
    exact hw.applyChanges
  . intro w hw
    exact hw.of_fields { hw.wf with } rfl rfl (fun _ => rfl) (fun _ => rfl)
  . intro w errs _ hw
    exact hw.of_fields { hw.wf with } rfl rfl (fun _ => rfl) (fun _ => rfl)

theorem init (isOpen : Nat → Bool) : (Epoll.init isOpen).Spared k := by
  refine ⟨Wf.init isOpen, rfl, ?_⟩
  intro id hid
  exact absurd hid (Nat.not_lt_zero id)

end Spared

end Epoll

-- The edge of the action is among the events that `epoll_wait` reports.
theorem dispatch_accepting {m id k : Nat} {events : Mask} {w : World} {ready : List (Nat × Mask)}
    (hcalls : w.Calls (Op.Spares k)) (hlisten : w.poll.applyChanges.Listens 0 id k)
    (hm : m ≤ w.log.length) (hedge : (id, events) ∈ epollWait w.poll.applyChanges.kernel ready)
    : Triple (· = w) (dispatch (some ready))
        (fun _ => World.Accepts m id k (Epoll.Accepting 0 id k)) (fun _ _ => True) := by
  apply Triple.modify_bind (T := (· = { w with poll := w.poll.applyChanges }))
  . rintro _ rfl
    rfl
  apply Triple.get_bind
  rintro _ rfl
  apply Triple.bind
    (Q := fun _ => Inv (Op.Spares k) (World.Accepts m id k (Epoll.Accepting 0 id k)))
  . refine Triple.at_state (P := Inv (Op.Spares k) (World.Accepts m id k (Epoll.Listens 0 id k))) ?_
      ⟨hcalls, fun _ => ⟨hm, .inr hlisten⟩⟩
    apply Triple.forM_of_mem hedge
    . intro e _
      exact setReadyEvents_listens e.1 e.2
    . exact setReadyEvents_accepting events
    . intro e _
      exact setReadyEvents_keeps_accepting e.1 e.2
  . intro _
    apply Triple.bind
      (Q := fun _ => Inv (Op.Spares k) (World.Accepts m id k (Epoll.Accepting 0 id k)))
    . apply Triple.get_bind
      intro w' hw'
      exact (readyLoop_accepting _).at_state hw'
    . intro _
      apply Triple.modify
      intro w' hw'
      exact hw'.2.of_poll rfl (fun h => { h with wf := { h.wf with } })

theorem run_accept_drained {isOpen : Nat → Bool} {sts : List Step} {ready : List (Nat × Mask)}
    {sys : List SysRet} {user : List (List Op)} {ctlErrs : List (Option Errno)} {w w' : World}
    {id k : Nat} {events : Mask}
    (hcalls : ∀ st ∈ sts ++ [Step.dispatch (some ready) sys user ctlErrs], st.Calls (Op.Spares k))
    (hrun : run sts (World.init isOpen) = .ok () w)
    (hdispatch : run [Step.dispatch (some ready) sys user ctlErrs] w = .ok () w')
    (hkey : (w.poll.infos id).fd.key = k)
    (hedge : (id, events) ∈ epollWait (w.load sys user ctlErrs).poll.applyChanges.kernel ready)
    (hresubmits : w'.All (Entry.resubmits id k ·)) (haccept : (w'.action id).hasAcceptTask = true)
    : (w'.action id).isReadable = false
        ∨ (∃ e ∈ w'.log.drop w.log.length, e.isAcceptError id = true)
        ∨ id ∈ w'.poll.readyEvents := by
  have hspared : w.poll.Spared k :=
    ((Epoll.Spared.runFrame k).run (fun st hst => hcalls st (by simp [hst])) (fun _ _ => trivial)).of_ok
      (Epoll.Spared.init isOpen) hrun
  have hloaded : (w.load sys user ctlErrs).poll.applyChanges.Spared k := by
    apply Epoll.Spared.applyChanges
    exact hspared.of_fields { hspared.wf with } rfl rfl (fun _ => rfl) (fun _ => rfl)
  have hsame := Epoll.applyChanges_sameTasks (w.load sys user ctlErrs).poll
  have hlt : id < (w.load sys user ctlErrs).poll.applyChanges.next := by
    have he := List.mem_of_mem_take hedge
    rw [List.mem_filterMap] at he
    obtain ⟨⟨fd, events⟩, _, he⟩ := he
    rw [Option.map_eq_some_iff] at he
    obtain ⟨⟨mask, ptr⟩, hint, heq⟩ := he
    cases heq
    exact hloaded.wf.interest fd mask id hint
  have hlisten := hloaded.listens hlt ((congrArg Fd.key (hsame.fd id)).trans hkey)
  have huser : (w.load sys user ctlErrs).Calls (Op.Spares k) :=
    hcalls (Step.dispatch (some ready) sys user ctlErrs) (by simp)
  obtain ⟨_, u, hstep, hnil⟩ := EStateM.bind_eq_ok_iff.mp hdispatch
  cases hnil
  rw [step, EStateM.modify_bind_apply] at hstep
  have hdone := (dispatch_accepting huser hlisten (Nat.le_refl _) hedge).of_ok rfl hstep
  cases (hdone hresubmits).holds with
  | inl hfail => exact .inr (.inl hfail)
  | inr h =>
    cases hr : (w'.action id).isReadable with
    | false => exact .inl rfl
    | true => exact .inr (.inr (h.accept haccept hr))

def acceptClient : Op := .submitAsyncAccept ⟨5, .accept⟩ true (some 0)

-- Two connections are waiting when the edge comes.
def burst (user : List (List Op)) : Step :=
  .dispatch (some [(5, ⟨true, false, false⟩)]) [.ok 7 [], .ok 8 [], .fail .again] user []

theorem burst_accept_drained
    : ∃ w w', run [.op acceptClient] (World.init fun _ => true) = .ok () w
        ∧ run [burst [[acceptClient], [acceptClient]]] w = .ok () w'
        ∧ ((w'.action 0).isReadable = false
          ∨ (∃ e ∈ w'.log.drop w.log.length, e.isAcceptError 0 = true) ∨ 0 ∈ w'.poll.readyEvents) := by
  have hrun := EStateM.Result.eq_ok_of_isOk
    (show (run [.op acceptClient] (World.init fun _ => true)).isOk by decide +kernel)
  have hkey : ((run [.op acceptClient] (World.init fun _ => true)).state.poll.infos 0).fd.key = 5 := by
    decide +kernel
  have hedge : (0, ⟨true, false, false⟩) ∈ epollWait ((run [.op acceptClient]
      (World.init fun _ => true)).state.load [.ok 7 [], .ok 8 [], .fail .again]
      [[acceptClient], [acceptClient]] []).poll.applyChanges.kernel [(5, ⟨true, false, false⟩)] := by
    decide +kernel
  have hdispatch := EStateM.Result.eq_ok_of_isOk
    (show (run [burst [[acceptClient], [acceptClient]]] (run [.op acceptClient]
      (World.init fun _ => true)).state).isOk by decide +kernel)
  have hresubmits : (run [burst [[acceptClient], [acceptClient]]] (run [.op acceptClient]
      (World.init fun _ => true)).state).state.All (Entry.resubmits 0 5 ·) := by decide +kernel
  have haccept : ((run [burst [[acceptClient], [acceptClient]]] (run [.op acceptClient]
      (World.init fun _ => true)).state).state.action 0).hasAcceptTask = true := by decide +kernel
  generalize (run [.op acceptClient] (World.init fun _ => true)).state = w at *
  generalize (run [burst [[acceptClient], [acceptClient]]] w).state = w' at *
  exact ⟨w, w', hrun, hdispatch,
    run_accept_drained (by decide +kernel) hrun hdispatch hkey hedge hresubmits haccept⟩

-- The callback does not ask for the next connection: the second one stays where it is.
theorem burst_not_drained
    : ∃ w w', run [.op acceptClient] (World.init fun _ => true) = .ok () w
        ∧ run [burst [[]]] w = .ok () w' ∧ (w'.action 0).hasAcceptTask = true
        ∧ w'.sys = [.ok 8 [], .fail .again] ∧ (w'.action 0).isReadable = true
        ∧ (∀ e ∈ w'.log.drop w.log.length, e.isAcceptError 0 = false)
        ∧ 0 ∉ w'.poll.readyEvents := by
  have hrun := EStateM.Result.eq_ok_of_isOk
    (show (run [.op acceptClient] (World.init fun _ => true)).isOk by decide +kernel)
  have hdispatch := EStateM.Result.eq_ok_of_isOk
    (show (run [burst [[]]] (run [.op acceptClient] (World.init fun _ => true)).state).isOk by
      decide +kernel)
  exact ⟨_, _, hrun, hdispatch, by decide +kernel, by decide +kernel, by decide +kernel,
    by decide +kernel, by decide +kernel⟩

end Event
end Ezio
