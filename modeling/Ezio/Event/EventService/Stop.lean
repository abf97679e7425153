import Ezio.Event.EventService.Lemmas

/-!
This module contains the life of a notifier: it is opened, started by the loop, closed and removed, and the stop handler
is called when `process_remove_instruction` takes the result of the cancel for a success.
-/

namespace Ezio
namespace Event
namespace EventService

open EventLoop (ElInstruction)

variable {w w' : EventService} {id i : Nat} {ret : Int} {ok : Prop}

-- The entries that the life of an object is about.
def Entry.isOf (id : Nat) : Entry → Bool
  | .closes i _ | .cancels i | .stops i => i = id
  | .reads _ => false

-- What a state says of one object.
structure View where
  kind : Kind
  evtState : EventState
  stopHandler : Bool
  fdsEvts : List FdEvt
  pending : List EventInfo
  started : Bool
  log : List Entry

def view (w : EventService) (id : Nat) : View :=
  { kind := (w.objs id).kind
    evtState := (w.objs id).evtState
    stopHandler := (w.objs id).stopHandler
    fdsEvts := (w.objs id).fdsEvts
    pending := (w.newEventVec ++ w.evtHandlersCache).filter fun info => info.id = id
    started := w.evtHandlers.contains id
    log := w.log.filter (Entry.isOf id) }

theorem view_addLog_of_not {e : Entry} (h : e.isOf id = false)
    : (w.addLog e).view id = w.view id := by
  simp [view, addLog, h]

theorem view_addLog_of {e : Entry} (h : e.isOf id)
    : (w.addLog e).view id = { w.view id with log := (w.view id).log ++ [e] } := by
  simp [view, addLog, h]

theorem view_setObj_self (o : EventBase)
    : (w.setObj id o).view id
        = { w.view id with
            kind := o.kind, evtState := o.evtState, stopHandler := o.stopHandler, fdsEvts := o.fdsEvts } := by
  simp [view, setObj]

theorem view_setObj_ne (o : EventBase) (h : i ≠ id)
    : (w.setObj i o).view id = w.view id := by
  simp [view, setObj, Function.update_of_ne h.symm]

-- Whether the loop takes instructions.
def accepting (w : EventService) : Bool :=
  w.eeState = .esInit ∨ w.eeState = .esStart

theorem view_addInstruction_self (instruction : ElInstruction)
    : (w.addInstruction id instruction).view id
        = { w.view id with
            pending := (w.view id).pending
              ++ if w.accepting then [⟨id, instruction, (w.view id).fdsEvts⟩] else [] } := by
  unfold addInstruction accepting
  split
  . next h => simp [view, h]
  . next h => simp [view, h]

theorem view_addInstruction_ne (instruction : ElInstruction) (h : i ≠ id)
    : (w.addInstruction i instruction).view id = w.view id := by
  unfold addInstruction
  split
  . simp [view, h]
  . rfl

/-! ### What leaves the life of an object alone -/

theorem view_assertZero {p : Poller} (h : w.assertZero (ret, p) = .ok w')
    : w'.view id = w.view id := by
  unfold assertZero at h
  split at h
  . cases h
    rfl
  . cases h

theorem view_addOne {e : FdEvt} (h : addOne i w e = .ok w')
    : w'.view id = w.view id := by
  obtain ⟨w₁, hread, hwrite⟩ := Except.bind_eq_ok h
  have h₁ : w₁.view id = w.view id := by
    unfold addRead at hread
    split at hread
    . obtain ⟨r, _, hread⟩ := Except.bind_eq_ok hread
      exact view_assertZero hread
    . cases hread
      rfl
  unfold addWrite at hwrite
  split at hwrite
  . obtain ⟨r, _, hwrite⟩ := Except.bind_eq_ok hwrite
    exact (view_assertZero hwrite).trans h₁
  . cases hwrite
    exact h₁

theorem view_addAll {i : Nat} {es : List FdEvt} (h : es.foldlM (addOne i) w = .ok w')
    : w'.view id = w.view id :=
  Except.foldlM_invariant (I := fun w' : EventService => w'.view id = w.view id)
    (fun _ _ _ _ h hadd => (view_addOne hadd).trans h) rfl h

theorem view_cancelRead_ne {e : FdEvt} (hne : i ≠ id) (h : w.cancelRead i e = .ok (ret, w'))
    : w'.view id = w.view id := by
  unfold cancelRead at h
  split at h
  . obtain ⟨⟨ret, p⟩, _, h⟩ := Except.bind_eq_ok h
    cases h
    split
    . exact view_addLog_of_not (by simp [Entry.isOf, hne])
    . rfl
  . cases h
    rfl

theorem view_cancelWrite {e : FdEvt} (h : w.cancelWrite i e = .ok (ret, w'))
    : w'.view id = w.view id := by
  unfold cancelWrite at h
  split at h
  . obtain ⟨⟨ret, p⟩, _, h⟩ := Except.bind_eq_ok h
    cases h
    rfl
  . cases h
    rfl

theorem view_cancelOne_ne {r r' : Bool × EventService} {e : FdEvt} (hne : i ≠ id) (h : cancelOne i r e = .ok r')
    : r'.2.view id = r.2.view id := by
  obtain ⟨⟨ret, w₁⟩, hread, h⟩ := Except.bind_eq_ok h
  have h₁ := view_cancelRead_ne hne hread
  dsimp only at h
  split at h
  . cases h
    exact h₁
  . obtain ⟨⟨ret, w₂⟩, hwrite, h⟩ := Except.bind_eq_ok h
    cases h
    exact (view_cancelWrite hwrite).trans h₁

theorem view_onStopped_ne (hne : i ≠ id) (isSuccess : Bool)
    : (w.onStopped i isSuccess).view id = w.view id := by
  unfold onStopped
  split
  . refine (view_setObj_ne _ hne).trans ?_
    split
    . exact view_addLog_of_not (by simp [Entry.isOf, hne])
    . rfl
  . rfl

theorem view_submitReadRequest {cb : Option Callback} (h : w.submitReadRequest i cb = .ok w')
    : w'.view id = w.view id := by
  unfold submitReadRequest at h
  dsimp only at h
  split at h
  . obtain ⟨w₁, hzero, h⟩ := Except.bind_eq_ok h
    obtain ⟨r, _, hzero⟩ := Except.bind_eq_ok hzero
    cases h
    exact (view_addLog_of_not rfl).trans (view_assertZero hzero)
  . cases h

theorem view_stepPoll {st : Poller.Step} (h : w.stepPoll st = .ok w')
    : w'.view id = w.view id := by
  unfold stepPoll at h
  cases hres : w.poll.step st with
  | ok p =>
    rw [hres] at h
    cases h
    rfl
  | error f =>
    rw [hres] at h
    cases h

theorem view_openObj_ne (hne : i ≠ id) (args : OpenArgs)
    : (w.openObj i args).1.view id = w.view id := by
  have hset : ∀ o, (w.setObj i o).view id = w.view id := fun o => view_setObj_ne o hne
  have hregister : ∀ o, (w.register i o).view id = w.view id :=
    fun o => (view_addInstruction_ne .eiAdd hne).trans (hset _)
  unfold openObj
  split
  . unfold notifierOpen
    dsimp only
    repeat' split
    . rfl
    . exact hset _
    . exact (view_setObj_ne _ hne).trans (hregister _)
  . unfold inotifyOpen
    dsimp only
    repeat' split
    . rfl
    . exact hset _
    . exact (view_setObj_ne _ hne).trans (hregister _)
  . unfold signalEventOpen
    dsimp only
    repeat' split
    . rfl
    . exact hset _
    . exact hset _
    . exact hregister _

theorem view_closeObj_ne (hne : i ≠ id)
    : (w.closeObj i).1.view id = w.view id := by
  have hbase : (w.closeBase i).view id = w.view id := by
    unfold closeBase
    refine (view_setObj_ne _ hne).trans ?_
    split
    . exact view_addInstruction_ne .eiRemove hne
    . rfl
  unfold closeObj
  split
  . unfold notifierClose
    split
    . exact (view_setObj_ne _ hne).trans hbase
    . rfl
  . unfold inotifyClose
    split
    . exact (view_setObj_ne _ hne).trans hbase
    . rfl
  . exact (view_setObj_ne _ hne).trans hbase

theorem view_close_ne (hne : i ≠ id)
    : (w.close i).view id = w.view id := by
  unfold close
  dsimp only
  split
  . exact (view_addLog_of_not (by simp [Entry.isOf, hne])).trans (view_closeObj_ne hne)
  . exact view_closeObj_ne hne

/-! ### What changes it -/

-- An instruction is queued if the loop takes instructions.
def View.queue (v : View) (accepting : Bool) (info : EventInfo) : View :=
  { v with pending := v.pending ++ if accepting then [info] else [] }

theorem view_setState {f : EventBase → EventBase} (s : EventState)
    (hf : ∀ o, (f o).kind = o.kind ∧ (f o).evtState = s ∧ (f o).stopHandler = o.stopHandler ∧ (f o).fdsEvts = o.fdsEvts)
    : (w.modifyObj id f).view id = { w.view id with evtState := s } := by
  obtain ⟨hkind, hstate, hstop, hfds⟩ := hf (w.objs id)
  refine (view_setObj_self _).trans ?_
  rw [hkind, hstate, hstop, hfds]
  rfl

theorem view_opened
    : (w.modifyObj id fun o => { o with evtState := .opened }).view id = { w.view id with evtState := .opened } :=
  view_setState .opened fun _ => ⟨rfl, rfl, rfl, rfl⟩

theorem view_register_self (o : EventBase)
    : (w.register id o).view id
        = View.queue
            { w.view id with
              kind := o.kind, evtState := o.evtState, stopHandler := o.stopHandler,
              fdsEvts := o.fdsEvts ++ [⟨o.fd, EV_READ⟩] }
            w.accepting ⟨id, .eiAdd, o.fdsEvts ++ [⟨o.fd, EV_READ⟩]⟩ := by
  unfold register addEvent
  rw [view_addInstruction_self, view_setObj_self]
  rfl

theorem view_openObj_self (hkind : (w.view id).kind = .notifier) (args : OpenArgs)
    : (w.openObj id args).1.view id = w.view id
      ∨ (w.view id).evtState = .default
        ∧ (w.openObj id args).1.view id
          = View.queue
              { w.view id with
                evtState := .opened, stopHandler := args.hasStop,
                fdsEvts := (w.view id).fdsEvts ++ [⟨⟨args.fdNum, .event⟩, EV_READ⟩] }
              w.accepting ⟨id, .eiAdd, (w.view id).fdsEvts ++ [⟨⟨args.fdNum, .event⟩, EV_READ⟩]⟩ := by
  have hkind' : (w.objs id).kind = .notifier := hkind
  unfold openObj
  rw [hkind']
  dsimp only
  unfold notifierOpen
  dsimp only
  split
  . exact .inl rfl
  . next hcheck =>
    split
    . left
      exact view_setObj_self _
    . right
      refine ⟨?_, ?_⟩
      . by_contra hne
        exact hcheck (.inr (.inr hne))
      . rw [view_opened, view_register_self]
        rfl

theorem addInstruction_objs (w : EventService) (id : Nat) (instruction : ElInstruction)
    : (w.addInstruction id instruction).objs = w.objs := by
  unfold addInstruction
  split
  . rfl
  . rfl

theorem view_closeBase_self
    : (w.closeBase id).view id
        = View.queue { w.view id with fdsEvts := [] } ((w.objs id).evtServicePtr && w.accepting)
            ⟨id, .eiRemove, (w.view id).fdsEvts⟩ := by
  unfold closeBase
  refine (view_setObj_self _).trans ?_
  dsimp only
  split
  . next hservice =>
    unfold removeEvent
    rw [view_addInstruction_self, addInstruction_objs, hservice]
    rfl
  . next hservice =>
    rw [Bool.eq_false_iff.mpr hservice]
    simp [view, View.queue]

theorem view_close_self (hkind : (w.view id).kind = .notifier)
    : (w.close id).view id = w.view id
      ∨ (w.view id).evtState = .opened
        ∧ ∃ accepting, (w.close id).view id
          = View.queue
              { w.view id with
                evtState := .closed, fdsEvts := [], log := (w.view id).log ++ [.closes id (w.view id).started] }
              accepting ⟨id, .eiRemove, (w.view id).fdsEvts⟩ := by
  have hkind' : (w.objs id).kind = .notifier := hkind
  unfold close closeObj
  rw [hkind']
  dsimp only
  unfold notifierClose
  split
  . next hstate =>
    right
    refine ⟨hstate, (w.objs id).evtServicePtr && w.accepting, ?_⟩
    dsimp only
    have hclosed : ((w.closeBase id).modifyObj id fun o => { closeFd o with evtState := .closed }).view id
        = { (w.closeBase id).view id with evtState := .closed } :=
      view_setState .closed fun _ => ⟨rfl, rfl, rfl, rfl⟩
    rw [if_pos (show EventLoop.RET_SUC = 0 from rfl), view_addLog_of (by simp [Entry.isOf]), hclosed,
      view_closeBase_self]
    rfl
  . left
    rfl

theorem processNewInstruction_cases (h : w.processNewInstruction = .ok w')
    : w.newEventVec = [] ∧ w' = w ∨ ∃ info rest, w.newEventVec = info :: rest
        ∧ (info.instruction = .eiRemove ∧ processRemoveInstruction { w with newEventVec := rest } info = .ok w'
          ∨ info.instruction = .eiAdd ∧ processAddInstruction { w with newEventVec := rest } info = .ok w') := by
  unfold processNewInstruction at h
  split at h
  . next hvec =>
    cases h
    exact .inl ⟨hvec, rfl⟩
  . next info rest hvec =>
    refine .inr ⟨info, rest, hvec, ?_⟩
    cases hinstruction : info.instruction with
    | eiRemove =>
      rw [hinstruction] at h
      exact .inl ⟨rfl, h⟩
    | eiAdd =>
      rw [hinstruction] at h
      exact .inr ⟨rfl, h⟩

theorem view_tail_ne {info : EventInfo} {rest : List EventInfo} (hvec : w.newEventVec = info :: rest)
    (hne : info.id ≠ id)
    : view { w with newEventVec := rest } id = w.view id := by
  simp [view, hvec, hne]

theorem view_tail_self {info : EventInfo} {rest : List EventInfo} (hvec : w.newEventVec = info :: rest)
    (hid : info.id = id)
    : (w.view id).pending = info :: (view { w with newEventVec := rest } id).pending := by
  simp [view, hvec, hid]

theorem view_processAdd_ne {info : EventInfo} (hne : info.id ≠ id) (h : w.processAddInstruction info = .ok w')
    : w'.view id = w.view id := by
  unfold processAddInstruction at h
  split at h
  . cases h
    rfl
  . obtain ⟨w₁, hadd, h⟩ := Except.bind_eq_ok h
    cases h
    refine (view_setObj_ne _ hne).trans ((view_addAll hadd).trans ?_)
    simp [view, hne.symm]

theorem view_processAdd_self {info : EventInfo} (hid : info.id = id) (hstarted : (w.view id).started = false)
    (h : w.processAddInstruction info = .ok w')
    : w'.view id = { w.view id with started := true, evtState := .opened } := by
  have hnot : info.id ∉ w.evtHandlers := by
    intro hmem
    rw [hid] at hmem
    exact absurd (List.contains_iff_mem.mpr hmem) (Bool.eq_false_iff.mp hstarted)
  unfold processAddInstruction at h
  rw [if_neg hnot, hid] at h
  obtain ⟨w₁, hadd, h⟩ := Except.bind_eq_ok h
  cases h
  unfold onStarted
  rw [view_opened, view_addAll hadd]
  simp [view]

theorem processAdd_of_started {info : EventInfo} (hid : info.id = id) (hstarted : (w.view id).started)
    (h : w.processAddInstruction info = .ok w')
    : w' = w := by
  have hmem : info.id ∈ w.evtHandlers := by
    rw [hid]
    exact List.contains_iff_mem.mp hstarted
  unfold processAddInstruction at h
  rw [if_pos hmem] at h
  cases h
  rfl

theorem view_processRemove_ne {info : EventInfo} (hne : info.id ≠ id) (h : w.processRemoveInstruction info = .ok w')
    : w'.view id = w.view id := by
  unfold processRemoveInstruction at h
  split at h
  . obtain ⟨⟨isSuc, w₁⟩, hcancel, h⟩ := Except.bind_eq_ok h
    cases h
    have hcancelled : w₁.view id = view { w with evtHandlers := w.evtHandlers.filter (· ≠ info.id) } id :=
      Except.foldlM_invariant
        (I := fun r : Bool × EventService =>
          r.2.view id = view { w with evtHandlers := w.evtHandlers.filter (· ≠ info.id) } id)
        (fun _ _ _ _ h hcancel => (view_cancelOne_ne hne hcancel).trans h) rfl hcancel
    refine (view_onStopped_ne hne isSuc).trans (hcancelled.trans ?_)
    simp [view, hne.symm]
  . cases h
    exact view_onStopped_ne hne true

-- The entries of a removal: whether the cancel has taken effect, and whether the stop handler is called.
def removalLog (id : Nat) (cancelled stopped : Bool) : List Entry :=
  (if cancelled then [.cancels id] else []) ++ if stopped then [.stops id] else []

theorem cancels_mem_removalLog (cancelled stopped : Bool)
    : .cancels id ∈ removalLog id cancelled stopped ↔ cancelled := by
  cases cancelled with
  | false => cases stopped with
    | false => simp [removalLog]
    | true => simp [removalLog]
  | true => simp [removalLog]

theorem count_removalLog (cancelled stopped : Bool)
    : (removalLog id cancelled stopped).count (.stops id) = if stopped then 1 else 0 := by
  cases cancelled with
  | false => cases stopped with
    | false => simp [removalLog]
    | true => simp [removalLog]
  | true => cases stopped with
    | false => simp [removalLog]
    | true => simp [removalLog]

theorem view_cancelOne_self {fd : Fd} {r : Bool × EventService} (h : cancelOne id (true, w) ⟨fd, EV_READ⟩ = .ok r)
    : ∃ ret p, w.poll.cancelAsyncRead fd (w.objs id).cancelReadCb = .ok (ret, p) ∧ r.1 = (ret = 0 : Bool)
        ∧ r.2.view id
          = { w.view id with log := (w.view id).log ++ removalLog id (w.poll.readCancelled fd p) false } := by
  obtain ⟨⟨ret, w₁⟩, hread, h⟩ := Except.bind_eq_ok h
  unfold cancelRead at hread
  rw [if_pos (show EV_READ.read = true from rfl)] at hread
  obtain ⟨⟨ret', p⟩, hcancel, hread⟩ := Except.bind_eq_ok hread
  cases hread
  have hview : (if w.poll.readCancelled fd p then addLog { w with poll := p } (.cancels id)
      else { w with poll := p }).view id
      = { w.view id with log := (w.view id).log ++ removalLog id (w.poll.readCancelled fd p) false } := by
    cases w.poll.readCancelled fd p with
    | false => simp [removalLog, view]
    | true => exact view_addLog_of (by simp [Entry.isOf])
  refine ⟨ret, p, hcancel, ?_⟩
  dsimp only at h
  split at h
  . next hret =>
    cases h
    exact ⟨by simp [hret], hview⟩
  . next hret =>
    obtain ⟨⟨ret₂, w₂⟩, hwrite, h⟩ := Except.bind_eq_ok h
    cases h
    have hret : ret = 0 := by
      by_contra hne
      exact hret hne
    cases hwrite
    exact ⟨by simp [hret], hview⟩

theorem view_onStopped_self (hkind : (w.view id).kind = .notifier) (isSuccess : Bool)
    : (w.onStopped id isSuccess).view id
        = { w.view id with
            evtState := if isSuccess then .closed else (w.view id).evtState,
            log := (w.view id).log ++ removalLog id false (isSuccess && (w.view id).stopHandler) } := by
  have hkind' : (w.objs id).kind = .notifier := hkind
  have hclosed : ∀ w : EventService, (w.modifyObj id fun o => { o with evtState := .closed }).view id
      = { w.view id with evtState := .closed } :=
    fun w => view_setState .closed fun _ => ⟨rfl, rfl, rfl, rfl⟩
  unfold onStopped
  cases isSuccess with
  | false => simp [removalLog]
  | true =>
    rw [if_pos rfl]
    dsimp only
    rw [hclosed]
    cases hstop : (w.objs id).stopHandler with
    | false =>
      have hstop' : (w.view id).stopHandler = false := hstop
      simp [removalLog, hstop']
    | true =>
      have hstop' : (w.view id).stopHandler = true := hstop
      rw [if_pos ⟨hkind', rfl⟩, view_addLog_of (by simp [Entry.isOf])]
      simp [removalLog, hstop']

theorem view_processRemove_self {info : EventInfo} {fd : Fd} (hid : info.id = id)
    (hfds : info.fdsEvts = [⟨fd, EV_READ⟩])
    (hkind : (w.view id).kind = .notifier) (hstarted : (w.view id).started)
    (h : w.processRemoveInstruction info = .ok w')
    : ∃ ret p, w.poll.cancelAsyncRead fd (w.objs id).cancelReadCb = .ok (ret, p)
        ∧ w'.view id
          = { w.view id with
              started := false, evtState := if ret = 0 then .closed else (w.view id).evtState,
              log := (w.view id).log
                ++ removalLog id (w.poll.readCancelled fd p) (ret = 0 ∧ (w.view id).stopHandler) } := by
  have hmem : info.id ∈ w.evtHandlers := by
    rw [hid]
    exact List.contains_iff_mem.mp hstarted
  unfold processRemoveInstruction at h
  rw [if_pos hmem, hid, hfds] at h
  obtain ⟨⟨isSuc, w₁⟩, hcancel, h⟩ := Except.bind_eq_ok h
  cases h
  rw [List.foldlM_cons] at hcancel
  obtain ⟨r, hcancel, hnil⟩ := Except.bind_eq_ok hcancel
  cases hnil
  obtain ⟨ret, p, hread, hsuc, hview⟩ := view_cancelOne_self hcancel
  refine ⟨ret, p, hread, ?_⟩
  dsimp only at hsuc hview
  have hkind₁ : (w₁.view id).kind = .notifier := by
    rw [hview]
    exact hkind
  have hview' : view { w with evtHandlers := w.evtHandlers.filter (· ≠ id) } id
      = { w.view id with started := false } := by
    simp [view]
  rw [view_onStopped_self hkind₁, hview, hsuc, hview']
  simp [removalLog]

-- What a removal that is not looked at any closer leaves behind.
structure Removes (w w' : EventService) : Prop where
  log : w.log <+: w'.log
  kind : ∀ i, (w'.objs i).kind = (w.objs i).kind

theorem Removes.cancelOne {r r' : Bool × EventService} {e : FdEvt} (h : Removes w r.2)
    (hcancel : cancelOne i r e = .ok r')
    : Removes w r'.2 := by
  obtain ⟨⟨ret, w₁⟩, hread, hcancel⟩ := Except.bind_eq_ok hcancel
  have h₁ : Removes w w₁ := by
    unfold cancelRead at hread
    split at hread
    . obtain ⟨⟨ret, p⟩, _, hread⟩ := Except.bind_eq_ok hread
      cases hread
      split
      . exact ⟨h.log.trans (List.prefix_append _ _), h.kind⟩
      . exact ⟨h.log, h.kind⟩
    . cases hread
      exact h
  dsimp only at hcancel
  split at hcancel
  . cases hcancel
    exact h₁
  . obtain ⟨⟨ret, w₂⟩, hwrite, hcancel⟩ := Except.bind_eq_ok hcancel
    cases hcancel
    unfold cancelWrite at hwrite
    split at hwrite
    . obtain ⟨⟨ret, p⟩, _, hwrite⟩ := Except.bind_eq_ok hwrite
      cases hwrite
      exact ⟨h₁.log, h₁.kind⟩
    . cases hwrite
      exact h₁

theorem Removes.onStopped (h : Removes w w') (i : Nat) (isSuccess : Bool)
    : Removes w (w'.onStopped i isSuccess) := by
  unfold EventService.onStopped
  split
  . refine ⟨?_, fun j => ?_⟩
    . dsimp only
      split
      . exact h.log.trans (List.prefix_append _ _)
      . exact h.log
    . rw [← h.kind j]
      dsimp only
      unfold modifyObj
      by_cases hj : j = i
      . rw [hj, setObj_objs_self]
        split
        . rfl
        . rfl
      . rw [setObj_objs_ne _ _ hj]
        split
        . rfl
        . rfl
  . exact h

theorem processRemove_removes {info : EventInfo} (h : w.processRemoveInstruction info = .ok w')
    : Removes w w' := by
  have hrefl : Removes w w := ⟨List.prefix_refl _, fun _ => rfl⟩
  unfold processRemoveInstruction at h
  split at h
  . obtain ⟨⟨isSuc, w₁⟩, hfold, h⟩ := Except.bind_eq_ok h
    cases h
    have hcancelled : Removes w w₁ :=
      Except.foldlM_invariant (I := fun r : Bool × EventService => Removes w r.2)
        (fun _ _ _ _ h hcancel => h.cancelOne hcancel) ⟨List.prefix_refl _, fun _ => rfl⟩ hfold
    exact hcancelled.onStopped info.id isSuc
  . cases h
    exact hrefl.onStopped info.id true

/-! ### The life of a notifier -/

-- Neither a cancel nor the stop handler is in the log.
structure Silent (id : Nat) (v : View) : Prop where
  cancels : .cancels id ∉ v.log
  stops : .stops id ∉ v.log

-- `ok` is the condition on the steps so far.
inductive Life (id : Nat) (ok : Prop) (v : View) : Prop where
  | unopened (hok : ok) (hsilent : Silent id v) (hstate : v.evtState = .default) (hfds : v.fdsEvts = [])
      (hpending : v.pending = []) (hstarted : v.started = false)
  | opened (fd : Fd) (hok : ok) (hsilent : Silent id v) (hstate : v.evtState = .opened)
      (hfds : v.fdsEvts = [⟨fd, EV_READ⟩]) (hpending : v.pending = [] ∨ v.pending = [⟨id, .eiAdd, [⟨fd, EV_READ⟩]⟩])
      (hstarted : v.started = false)
  | started (fd : Fd) (hok : ok) (hsilent : Silent id v) (hstate : v.evtState = .opened)
      (hfds : v.fdsEvts = [⟨fd, EV_READ⟩]) (hpending : v.pending = []) (hstarted : v.started)
  | closed (fd : Fd) (hok : ok) (hsilent : Silent id v) (hstate : v.evtState = .closed)
      (hpending : v.pending = [] ∨ v.pending = [⟨id, .eiRemove, [⟨fd, EV_READ⟩]⟩]) (hstarted : v.started)
  | removed (hstate : v.evtState = .closed) (hpending : v.pending = []) (hstarted : v.started = false)
      (hiff : .cancels id ∈ v.log → v.stopHandler → (v.log.count (.stops id) = 1 ↔ ok))

-- The life of the notifier, unless it is closed before it is started.
structure Traced (id : Nat) (ok : Prop) (w : EventService) : Prop where
  kind : (w.view id).kind = .notifier
  life : .closes id false ∉ (w.view id).log → Life id ok (w.view id)

theorem Traced.of_view (h : Traced id ok w) (hview : w'.view id = w.view id)
    : Traced id ok w' := by
  refine ⟨?_, ?_⟩
  . rw [hview]
    exact h.kind
  . rw [hview]
    exact h.life

theorem Silent.of_log {v v' : View} (h : Silent id v) (hlog : v'.log = v.log)
    : Silent id v' := by
  refine ⟨?_, ?_⟩
  . rw [hlog]
    exact h.cancels
  . rw [hlog]
    exact h.stops

theorem Traced.openObj (h : Traced id ok w) (i : Nat) (args : OpenArgs)
    : Traced id ok (w.openObj i args).1 := by
  by_cases hne : i ≠ id
  . exact h.of_view (view_openObj_ne hne args)
  rw [not_not] at hne
  rw [hne]
  rcases view_openObj_self h.kind args with hview | ⟨hdefault, hview⟩
  . exact h.of_view hview
  . refine ⟨by rw [hview]; exact h.kind, fun hearly => ?_⟩
    rw [hview] at hearly ⊢
    cases h.life hearly with
    | unopened hok hsilent hstate hfds hpending hstarted =>
      refine .opened ⟨args.fdNum, .event⟩ hok (hsilent.of_log rfl) rfl ?_ ?_ hstarted
      . simp [View.queue, hfds]
      . cases w.accepting with
        | false => simp [View.queue, hpending]
        | true => simp [View.queue, hfds, hpending]
    | opened fd hok hsilent hstate => simp [hstate] at hdefault
    | started fd hok hsilent hstate => simp [hstate] at hdefault
    | closed fd hok hsilent hstate => simp [hstate] at hdefault
    | removed hstate => simp [hstate] at hdefault

theorem Traced.close (h : Traced id ok w) (i : Nat)
    : Traced id ok (w.close i) := by
  by_cases hne : i ≠ id
  . exact h.of_view (view_close_ne hne)
  rw [not_not] at hne
  rw [hne]
  rcases view_close_self h.kind with hview | ⟨hopened, accepting, hview⟩
  . exact h.of_view hview
  . refine ⟨by rw [hview]; exact h.kind, fun hearly => ?_⟩
    rw [hview] at hearly ⊢
    have hbefore : .closes id false ∉ (w.view id).log := fun hmem => hearly (List.mem_append_left _ hmem)
    cases h.life hbefore with
    | unopened hok hsilent hstate => simp [hstate] at hopened
    | opened fd hok hsilent hstate hfds hpending hstarted =>
      refine absurd ?_ hearly
      simp [View.queue, hstarted]
    | started fd hok hsilent hstate hfds hpending hstarted =>
      refine .closed fd hok ⟨?_, ?_⟩ rfl ?_ hstarted
      . simp [View.queue, hsilent.cancels]
      . simp [View.queue, hsilent.stops]
      . cases accepting with
        | false => simp [View.queue, hpending]
        | true => simp [View.queue, hfds, hpending]
    | closed fd hok hsilent hstate => simp [hstate] at hopened
    | removed hstate => simp [hstate] at hopened

theorem Traced.runCall {c : Call} (h : Traced id ok w) (hcall : w.runCall c = .ok w')
    : Traced id ok w' := by
  cases c with
  | openObj i args =>
    cases hcall
    exact h.openObj i args
  | close i =>
    cases hcall
    exact h.close i
  | setCancelReadCallback i cb =>
    cases hcall
    by_cases hne : i ≠ id
    . exact h.of_view (view_setObj_ne _ hne)
    . rw [not_not] at hne
      rw [hne]
      exact h.of_view (view_setObj_self _)
  | addWatch i watchFd =>
    cases hcall
    unfold addWatch
    split
    . by_cases hne : i ≠ id
      . exact h.of_view (view_setObj_ne _ hne)
      . rw [not_not] at hne
        rw [hne]
        exact h.of_view (view_setObj_self _)
    . exact h
  | setEeState eeState =>
    cases hcall
    exact h.of_view rfl
  | epollOp op => exact h.of_view (view_stepPoll hcall)
  | ioUringOp op => exact h.of_view (view_stepPoll hcall)

theorem Traced.runCalls {cs : List Call} (h : Traced id ok w) (hcalls : w.runCalls cs = .ok w')
    : Traced id ok w' :=
  Except.foldlM_invariant (I := Traced id ok) (fun _ _ _ _ h hcall => h.runCall hcall) h hcalls

theorem Traced.callWatches {i : Nat} {wds : List UInt32} {user : List (List Call)} (h : Traced id ok w)
    (hcall : w.callWatches i wds user = .ok w')
    : Traced id ok w' := by
  induction wds generalizing w user with
  | nil =>
    cases hcall
    exact h
  | cons wd wds ih =>
    unfold EventService.callWatches at hcall
    split at hcall
    . obtain ⟨w₁, hcalls, hrest⟩ := Except.bind_eq_ok hcall
      exact ih (h.runCalls hcalls) hrest
    . exact ih h hcall

theorem Traced.handle {r : Read} (h : Traced id ok w) (hhandle : w.handle i r = .ok w')
    : Traced id ok w' := by
  unfold EventService.handle at hhandle
  split at hhandle
  . cases hhandle
    exact h
  . obtain ⟨w₁, hcall, hsubmit⟩ := Except.bind_eq_ok hhandle
    have h₁ : Traced id ok w₁ := by
      unfold callUser at hcall
      split at hcall
      . exact h.callWatches hcall
      . exact h.runCalls hcall
    exact h₁.of_view (view_submitReadRequest hsubmit)

-- The loop processes the instruction to remove the object.
def removes (w : EventService) (id : Nat) : Action → Bool
  | .process => w.faulted.isNone && w.newEventVec.head?.any fun info => info.id = id && info.instruction = .eiRemove
  | _ => false

-- When the loop removes the notifier, it runs on io_uring or the notifier has a callback for the cancel.
def Notifies (id : Nat) (w : EventService) (a : Action) : Prop :=
  w.removes id a → w.poll.isIoUring ∨ (w.objs id).cancelReadCb.isSome

instance (id : Nat) (w : EventService) (a : Action) : Decidable (Notifies id w a) :=
  inferInstanceAs (Decidable (_ → _))

theorem Traced.also (h : Traced id ok w') {a : Action} (hnot : w.removes id a = false)
    : Traced id (ok ∧ Notifies id w a) w' := by
  have hnotifies : Notifies id w a := by
    intro hremoves
    rw [hnot] at hremoves
    cases hremoves
  rw [show (ok ∧ Notifies id w a) = ok from propext (and_iff_left hnotifies)]
  exact h

theorem Traced.process (hvalid : w.Valid) (hfault : w.faulted = none) (h : Traced id ok w)
    (hprocess : w.processNewInstruction = .ok w')
    : Traced id (ok ∧ Notifies id w .process) w' := by
  rcases processNewInstruction_cases hprocess with ⟨hvec, rfl⟩ | ⟨info, rest, hvec, hcases⟩
  . exact h.also (by simp [removes, hvec])
  by_cases hne : info.id ≠ id
  . have hview : w'.view id = w.view id := by
      rcases hcases with ⟨_, hremove⟩ | ⟨_, hadd⟩
      . exact (view_processRemove_ne hne hremove).trans (view_tail_ne hvec hne)
      . exact (view_processAdd_ne hne hadd).trans (view_tail_ne hvec hne)
    exact (h.of_view hview).also (by simp [removes, hvec, hne])
  rw [not_not] at hne
  have hpending := view_tail_self hvec hne
  rcases hcases with ⟨hinstruction, hremove⟩ | ⟨hinstruction, hadd⟩
  . have hnotifies : Notifies id w .process ↔ w.poll.isIoUring ∨ (w.objs id).cancelReadCb.isSome := by
      simp [Notifies, removes, hfault, hvec, hne, hinstruction]
    have hremoves := processRemove_removes hremove
    refine ⟨(hremoves.kind id).trans h.kind, fun hearly => ?_⟩
    have hbefore : .closes id false ∉ (w.view id).log :=
      fun hmem => hearly ((hremoves.log.filter (Entry.isOf id)).subset hmem)
    cases h.life hbefore with
    | unopened hok hsilent hstate hfds hnone => simp [hpending] at hnone
    | opened fd hok hsilent hstate hfds hinstr =>
      simp only [hpending, List.cons.injEq, reduceCtorEq, false_or] at hinstr
      rw [hinstr.1] at hinstruction
      cases hinstruction
    | started fd hok hsilent hstate hfds hnone => simp [hpending] at hnone
    | removed hstate hnone => simp [hpending] at hnone
    | closed fd hok hsilent hstate hinstr hstarted =>
      simp only [hpending, List.cons.injEq, reduceCtorEq, false_or] at hinstr
      obtain ⟨ret, p, hcancel, hview⟩ :=
        view_processRemove_self hne (by rw [hinstr.1]) (by exact h.kind) (by exact hstarted) hremove
      have hret := fun heffect => (Poller.cancelAsyncRead_ret hvalid.poll hcancel heffect).trans hnotifies.symm
      rw [hview]
      refine .removed ?_ hinstr.2 rfl ?_
      . dsimp only
        split
        . rfl
        . exact hstate
      . intro hcancels hstop
        have hlog : (view { w with newEventVec := rest } id).log = (w.view id).log := rfl
        have heffect : w.poll.readCancelled fd p := by
          refine (cancels_mem_removalLog _ _).mp ((List.mem_append.mp hcancels).resolve_left ?_)
          rw [hlog]
          exact hsilent.cancels
        rw [List.count_append, hlog, List.count_eq_zero_of_not_mem hsilent.stops, count_removalLog, Nat.zero_add]
        have hstop' : (view { w with newEventVec := rest } id).stopHandler = true := hstop
        rw [hstop', ← hret heffect]
        simp [hok]
  . have hnot : w.removes id .process = false := by
      simp [removes, hvec, hinstruction]
    refine Traced.also ?_ hnot
    -- the object is the only one whose `open` has queued the instruction
    have hlife : ∀ {v}, Life id ok v → v.pending = info :: (view { w with newEventVec := rest } id).pending
        → ∃ fd, ok ∧ Silent id v ∧ v.fdsEvts = [⟨fd, EV_READ⟩] ∧ v.started = false
          ∧ (view { w with newEventVec := rest } id).pending = [] := by
      intro v hlife hpending
      cases hlife with
      | unopened hok hsilent hstate hfds hnone => simp [hpending] at hnone
      | opened fd hok hsilent hstate hfds hinstr hstarted =>
        simp only [hpending, List.cons.injEq, reduceCtorEq, false_or] at hinstr
        exact ⟨fd, hok, hsilent, hfds, hstarted, hinstr.2⟩
      | started fd hok hsilent hstate hfds hnone => simp [hpending] at hnone
      | closed fd hok hsilent hstate hinstr =>
        simp only [hpending, List.cons.injEq, reduceCtorEq, false_or] at hinstr
        rw [hinstr.1] at hinstruction
        cases hinstruction
      | removed hstate hnone => simp [hpending] at hnone
    cases hstarted : (w.view id).started with
    | true =>
      rw [processAdd_of_started hne (by exact hstarted) hadd]
      refine ⟨h.kind, fun hearly => ?_⟩
      obtain ⟨fd, _, _, _, hnot, _⟩ := hlife (h.life hearly) hpending
      rw [hstarted] at hnot
      cases hnot
    | false =>
      have hview := view_processAdd_self hne (by exact hstarted) hadd
      refine ⟨by rw [hview]; exact h.kind, fun hearly => ?_⟩
      rw [hview] at hearly ⊢
      obtain ⟨fd, hok, hsilent, hfds, _, hnone⟩ := hlife (h.life hearly) hpending
      exact .started fd hok (hsilent.of_log rfl) rfl hfds hnone rfl

theorem Traced.tryStep {a : Action} (hvalid : w.Valid) (hfault : w.faulted = none) (h : Traced id ok w)
    (hstep : w.tryStep a = .ok w')
    : Traced id (ok ∧ Notifies id w a) w' := by
  cases a with
  | call c => exact (h.runCall hstep).also rfl
  | swap =>
    cases hstep
    split
    . next hvec => exact (h.of_view (by simp [view, hvec])).also rfl
    . exact h.also rfl
  | process => exact h.process hvalid hfault hstep
  | ready i ret =>
    unfold EventService.tryStep onEventReady at hstep
    dsimp only at hstep
    split at hstep
    . cases hstep
      exact h.also rfl
    . exact (h.of_view (view_submitReadRequest hstep)).also rfl
  | handle i r => exact (h.handle hstep).also rfl
  | poll st => exact (h.of_view (view_stepPoll hstep)).also rfl

-- The process may also have ended, in a call that is not a cancel that has taken effect.
def Runs (id : Nat) (ok : Prop) (w : EventService) : Prop :=
  Traced id ok w ∨ w.faulted.isSome ∧ (.closes id false ∉ (w.view id).log → .cancels id ∉ (w.view id).log)

theorem Runs.step (hvalid : w.Valid) (h : Runs id ok w) (a : Action)
    : Runs id (ok ∧ Notifies id w a) (w.step a) := by
  unfold EventService.step
  cases hfault : w.faulted with
  | some f =>
    have hnot : w.removes id a = false := by
      cases a with
      | process => simp [removes, hfault]
      | _ => rfl
    exact h.imp_left fun h => h.also hnot
  | none =>
    replace h := h.resolve_right (by simp [hfault])
    cases hstep : w.tryStep a with
    | ok w' => exact .inl (h.tryStep hvalid hfault hstep)
    | error f =>
      cases hremoves : w.removes id a with
      | false =>
        have hfaulted : Traced id ok { w with faulted := some f } := h.of_view rfl
        exact .inl (hfaulted.also hremoves)
      | true =>
        right
        refine ⟨rfl, fun hearly => ?_⟩
        have hpending : (w.view id).pending ≠ [] := by
          cases a with
          | process =>
            unfold removes at hremoves
            rw [Bool.and_eq_true, Option.any_eq_true] at hremoves
            obtain ⟨_, info, hhead, hid⟩ := hremoves
            rw [Bool.and_eq_true, decide_eq_true_eq] at hid
            obtain ⟨rest, hvec⟩ := List.head?_eq_some_iff.mp hhead
            rw [view_tail_self hvec hid.1]
            exact List.cons_ne_nil _ _
          | _ => cases hremoves
        cases h.life hearly with
        | unopened hok hsilent => exact hsilent.cancels
        | opened fd hok hsilent => exact hsilent.cancels
        | started fd hok hsilent => exact hsilent.cancels
        | closed fd hok hsilent => exact hsilent.cancels
        | removed hstate hnone => exact absurd hnone hpending

theorem Runs.run (hvalid : w.Valid) (h : Runs id ok w) (as : List Action)
    : Runs id (ok ∧ Along EventService.step (Notifies id) w as) (w.run as) := by
  induction as generalizing w ok with
  | nil =>
    rw [Along, and_true]
    exact h
  | cons a as ih =>
    rw [Along, ← and_assoc]
    exact ih (hvalid.step a) (h.step hvalid a)

theorem stopHandler_once_iff (p : Poller) (hp : p.Fresh) (kinds : Nat → Kind) (as : List Action) (id : Nat)
    (hkind : kinds id = .notifier) (hstarted : .closes id false ∉ ((init p kinds).run as).log)
    (hstop : (((init p kinds).run as).objs id).stopHandler) (hcancels : .cancels id ∈ ((init p kinds).run as).log)
    : ((init p kinds).run as).log.count (.stops id) = 1 ↔ Along step (Notifies id) (init p kinds) as := by
  have hinit : Runs id True (init p kinds) :=
    .inl ⟨hkind, fun _ => .unopened trivial ⟨by simp [view, init], by simp [view, init]⟩ rfl rfl rfl rfl⟩
  have hruns := hinit.run (init_valid hp kinds) as
  rw [true_and] at hruns
  generalize (init p kinds).run as = w at hstarted hstop hcancels hruns ⊢
  have hearly : .closes id false ∉ (w.view id).log := fun hmem => hstarted (List.mem_filter.mp hmem).1
  have hcancels' : .cancels id ∈ (w.view id).log := List.mem_filter.mpr ⟨hcancels, by simp [Entry.isOf]⟩
  rcases hruns with htraced | ⟨_, hnone⟩
  . cases htraced.life hearly with
    | unopened hok hsilent => exact absurd hcancels' hsilent.cancels
    | opened fd hok hsilent => exact absurd hcancels' hsilent.cancels
    | started fd hok hsilent => exact absurd hcancels' hsilent.cancels
    | closed fd hok hsilent => exact absurd hcancels' hsilent.cancels
    | removed hstate hpending hnot hiff =>
      have hcount : (w.view id).log.count (.stops id) = w.log.count (.stops id) :=
        List.count_filter (by simp [Entry.isOf])
      rw [← hcount]
      exact hiff hcancels' hstop
  . exact absurd hcancels' (hnone hearly)

-- A notifier that is opened with a stop handler, started, closed and removed.
def lifeCycle : List Action :=
  [.call (.openObj 0 { fdNum := 5, hasStop := true }), .swap, .process, .call (.close 0), .swap, .process]

def onEpoll : EventService :=
  init (.epoll (World.init fun _ => true)) fun _ => .notifier

def onIoUring : EventService :=
  init (.ioUring { uring := .init true (Uring.Wrapper.init 3 4 0 0 []) }) fun _ => .notifier

theorem onEpoll_no_stop
    : .closes 0 true ∈ (onEpoll.run lifeCycle).log ∧ .closes 0 false ∉ (onEpoll.run lifeCycle).log
      ∧ ((onEpoll.run lifeCycle).objs 0).stopHandler ∧ .cancels 0 ∈ (onEpoll.run lifeCycle).log
      ∧ (onEpoll.run lifeCycle).log.count (.stops 0) ≠ 1 := by
  decide +kernel

theorem onIoUring_stops
    : (onIoUring.run lifeCycle).log.count (.stops 0) = 1 := by
  have hp : (Poller.ioUring { uring := .init true (Uring.Wrapper.init 3 4 0 0 []) }).Fresh :=
    .ioUring 4 0 0 [] (by decide) true
  refine (stopHandler_once_iff _ hp (fun _ => .notifier) lifeCycle 0 rfl ?_ ?_ ?_).mpr ?_
  . decide +kernel
  . decide +kernel
  . decide +kernel
  . decide +kernel

end EventService

end Event
end Ezio
