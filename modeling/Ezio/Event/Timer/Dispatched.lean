import Ezio.Event.Timer.Calls

/-!
This module contains the invariant of the timers over the steps of `dispatch`.
-/

namespace Ezio
namespace Event
namespace Timers

variable {w w' : Timers} {s s' : Epoll} {m n t u id j : Nat}

/-! ### `apply_changes` -/

theorem OfTimer.of_same (h : OfTimer (s.infos id) n) (hs : Epoll.SameTasks s s')
    : OfTimer (s'.infos id) n := by
  refine ⟨?_, ?_, ?_, ?_, ?_⟩
  . exact (hs.fd id).trans h.fd
  all_goals rw [hs.action]
  . exact h.actionFd
  . exact h.ops
  . exact h.multishot
  . exact h.writing

theorem Armed.of_same {bufs : List (List Iovec)} (h : Armed (s.infos id) t bufs) (hs : Epoll.SameTasks s s')
    : Armed (s'.infos id) t bufs := by
  refine ⟨?_, ?_, ?_, ?_⟩
  . rw [hs.events]
    exact h.watched
  all_goals rw [hs.action]
  . exact h.reading
  . exact h.callback
  . exact h.pending

theorem Armed.isNoneEvt {info : EventInfo} {bufs : List (List Iovec)} (h : Armed info t bufs)
    : info.action.isNoneEvt = false := by
  simp [EventAction.isNoneEvt, EventAction.isReading, h.reading]

theorem Wired.applyChanges (h : Wired s n t id [iov] false) (hs : Backend s)
    : Wired s.applyChanges n t id [iov] false
      ∧ ∃ mask, s.applyChanges.kernel.interest n = some (mask, id) ∧ mask.read := by
  have hsame := Epoll.applyChanges_sameTasks s
  have huse := h.armed.isNoneEvt
  have hregistered : ∃ mask, s.applyChanges.kernel.interest n = some (mask, id) ∧ mask.read = true := by
    by_cases hlst : id ∈ s.evtChangeLst
    . exact ⟨_, hs.listed.foldl_applyOneChange_registers h.known hlst h.isOpen hs.ctlErrs huse, h.armed.reading⟩
    . obtain ⟨mask, hmask, hread⟩ := h.registered.resolve_right fun hright => hlst hright.2
      refine ⟨mask, ?_, hread⟩
      exact (hs.listed.foldl_applyOneChange_interest h.known hlst).trans hmask
  refine ⟨⟨?_, ?_, h.ofTimer.of_same hsame, h.armed.of_same hsame, ?_, .inl hregistered⟩, hregistered⟩
  . rw [Epoll.applyChanges_isOpen]
    exact h.isOpen
  . exact foldl_applyOneChange_known hs.listed h.known h.isOpen hs.ctlErrs huse
  . rw [hsame.action]
    exact h.isReadable

theorem Backend.applyChanges (h : Backend s)
    : Backend s.applyChanges := by
  have hsame := Epoll.applyChanges_sameTasks s
  refine ⟨h.listed.applyChanges, ?_, (foldl_applyOneChange_kernel h.ctlErrs).2, ?_⟩
  . rw [hsame.isInited]
    exact h.isInited
  . rw [hsame.readyEvents]
    exact h.readyEvents

theorem Unused.idle (h : w.Unused n)
    : Idle w.poll w.poll.evtChangeLst n := by
  refine ⟨h.interest, ?_, h.listed⟩
  intro id hid
  simp [EventAction.isNoneEvt, EventAction.isReading, EventAction.isWriting, (h.vacant id hid).reading,
    (h.ofTimer id hid).writing]

-- The kernel queues an event for a timer that has expired before its file is registered.
theorem Tracked.applyChanges (h : Tracked (w.timers t) (id ∈ w.poll.evtChangeLst) (id ∈ w.pc.due) (stage t w.log))
    (hpc : w.pc = .outside) (hfd : (w.timers t).fd = some n) (hof : OfTimer (w.poll.infos id) n)
    (hregistered : (w.poll.applyChanges.kernel.interest n).isSome)
    : Tracked (w.applyChanges.timers t) (id ∈ w.applyChanges.poll.evtChangeLst) (id ∈ w.applyChanges.pc.due)
        (stage t w.applyChanges.log) := by
  rw [hpc] at h
  have hcounter : (w.applyChanges.timers t).counter = (w.timers t).counter := rfl
  refine ⟨nofun, ?_, h.unread, h.late.imp_right nofun⟩
  rw [hcounter]
  intro hpos
  left
  change ((w.timers t).edge || w.polled w.poll.applyChanges t) = true
  rcases h.wakes hpos with hedge | hlst | hdue
  . simp [hedge]
  . have hany : (w.poll.evtChangeLst.any fun id => (w.poll.infos id).fd.key = n) = true := by
      rw [List.any_eq_true]
      refine ⟨id, hlst, ?_⟩
      rw [hof.fd]
      exact decide_eq_true (timerFd_key n)
    simp [polled, hfd, hpos, hregistered, hany]
  . cases hdue

theorem Served.applyChanges (h : w.Served) (hpc : w.pc = .outside)
    : w.applyChanges.Served := by
  have hlst : w.applyChanges.poll.evtChangeLst = [] := rfl
  refine ⟨h.backend.applyChanges, h.objects.of_fields rfl rfl rfl (fun _ => rfl) ?_, ?_, ?_, List.nodup_nil, nofun,
    ⟨h.logged.silent, h.logged.counted, h.logged.prompt⟩, .waiting hlst⟩
  . intro t ht
    change { w.timers t with edge := (w.timers t).edge || w.polled w.poll.applyChanges t } = _
    simp [polled, ht]
  . intro n t hfile
    obtain ⟨id, hserves⟩ := h.opened n t hfile
    have hwired := hserves.wired
    rw [hpc] at hwired
    obtain ⟨hwired', mask, hmask, -⟩ := hwired.applyChanges h.backend
    refine ⟨id, hserves.pos, { hserves.alive with }, hwired', ?_⟩
    exact hserves.tracked.applyChanges hpc ((h.objects.owner n t).mp hfile) hwired.ofTimer (by rw [hmask]; rfl)
  . intro n hfile
    have hidle := (h.unused n hfile).idle.foldl_applyOneChange h.backend.listed h.backend.ctlErrs
    have hgone : ∀ id, w.applyChanges.poll.fdToEventInfo n ≠ some id := fun id hid =>
      List.not_mem_nil (hidle.listed id hid)
    exact ⟨hidle.interest, fun id hid => absurd hid (hgone id), fun id hid => absurd hid (hgone id),
      fun id hid => absurd hid (hgone id)⟩

/-! ### `epoll_wait` -/

theorem harvest_fst (w : Timers) (ts : List Nat)
    : (w.harvest ts).1 =
        { w with timers := fun t => if t ∈ ts then { w.timers t with edge := false } else w.timers t } := by
  induction ts generalizing w with
  | nil => simp [harvest]
  | cons t ts ih =>
    rw [harvest]
    simp only [ih, modifyTimer]
    congr 1
    funext u
    by_cases hu : u = t
    . simp [hu]
    . simp [hu]

theorem report_modifyTimer (w : Timers) (t u : Nat)
    : (w.modifyTimer t fun r => { r with edge := false }).report u = if u = t then none else w.report u := by
  unfold report
  by_cases hu : u = t
  . rw [hu, if_pos rfl, modifyTimer_timers, if_pos rfl]
    split
    . split
      . simp
      . rfl
    . rfl
  . rw [if_neg hu, modifyTimer_timers, if_neg hu]
    rfl

theorem mem_harvest (w : Timers) (ts : List Nat)
    : id ∈ (w.harvest ts).2 ↔ ∃ t ∈ ts, w.report t = some id := by
  induction ts generalizing w with
  | nil => simp [harvest]
  | cons t ts ih =>
    rw [harvest]
    simp only [List.mem_append, Option.mem_toList, ih, report_modifyTimer, List.mem_cons]
    constructor
    . rintro (ht | ⟨u, hu, hreport⟩)
      . exact ⟨t, .inl rfl, ht⟩
      . split at hreport
        . cases hreport
        . exact ⟨u, .inr hu, hreport⟩
    . rintro ⟨u, hu, hreport⟩
      by_cases heq : u = t
      . exact .inl (heq ▸ hreport)
      . exact .inr ⟨u, hu.resolve_left heq, by rw [if_neg heq]; exact hreport⟩

-- A timer is reported once.
theorem nodup_harvest (w : Timers) (ts : List Nat)
    (hinj : ∀ t u id, w.report t = some id → w.report u = some id → t = u)
    : (w.harvest ts).2.Nodup := by
  induction ts generalizing w with
  | nil => exact List.nodup_nil
  | cons t ts ih =>
    rw [harvest]
    dsimp only
    rw [List.nodup_append]
    refine ⟨?_, ?_, ?_⟩
    . cases w.report t <;> simp
    . apply ih
      intro u v id hu hv
      rw [report_modifyTimer] at hu hv
      split at hu
      . cases hu
      . split at hv
        . cases hv
        . exact hinj u v id hu hv
    . rintro id ht j hj rfl
      rw [Option.mem_toList] at ht
      obtain ⟨u, -, hu⟩ := (mem_harvest _ ts).mp hj
      rw [report_modifyTimer] at hu
      split at hu
      . cases hu
      . next hne => exact hne (hinj u t id hu ht)

theorem Served.report (h : w.Served) (hreport : w.report t = some id)
    : ∃ n, w.Serves n t id ∧ w.files n = some t ∧ 0 < (w.timers t).counter := by
  unfold Timers.report at hreport
  split at hreport
  . next n hfd =>
    have hfile := (h.objects.owner n t).mpr hfd
    obtain ⟨j, hserves⟩ := h.opened n t hfile
    split at hreport
    . next mask i hinterest =>
      split at hreport
      . next hreports =>
        cases hreport
        rcases hserves.wired.registered with ⟨mask', hmask, -⟩ | ⟨hnone, -⟩
        . rw [hinterest] at hmask
          cases hmask
          exact ⟨n, hserves, hfile, hreports.2.1⟩
        . rw [hinterest] at hnone
          cases hnone
      . cases hreport
    . cases hreport
  . cases hreport

theorem Served.report_injective (h : w.Served) (ht : w.report t = some id) (hu : w.report u = some id)
    : t = u := by
  obtain ⟨n, hserves, hfile, -⟩ := h.report ht
  obtain ⟨m, hserves', hfile', -⟩ := h.report hu
  have heq : n = m :=
    (h.backend.listed.map n id hserves.wired.known).2.symm.trans (h.backend.listed.map m id hserves'.wired.known).2
  rw [heq, hfile'] at hfile
  exact (Option.some.inj hfile).symm

-- What is queued for a timer that has expired is reported.
theorem Serves.report (h : w.Serves n t id) (hfd : (w.timers t).fd = some n) (hlst : w.poll.evtChangeLst = [])
    (hdue : w.pc.due = []) (hcounter : 0 < (w.timers t).counter)
    : w.report t = some id := by
  have hedge : (w.timers t).edge = true := by
    rcases h.tracked.wakes hcounter with hedge | hmem | hmem
    . exact hedge
    . rw [hlst] at hmem
      cases hmem
    . rw [hdue] at hmem
      cases hmem
  rcases h.wired.registered with ⟨mask, hmask, hread⟩ | ⟨-, hmem⟩
  . simp [Timers.report, hfd, hmask, hedge, hcounter, hread]
  . rw [hlst] at hmem
    cases hmem

theorem Served.stage_le (h : w.Served) (hdue : w.pc.due = []) (t : Nat)
    : stage t w.log ≤ 1 := by
  cases hfd : (w.timers t).fd with
  | none =>
    rw [h.logged.silent t hfd]
    exact Nat.zero_le 1
  | some n =>
    obtain ⟨id, hserves⟩ := h.opened n t ((h.objects.owner n t).mpr hfd)
    refine hserves.tracked.late.resolve_right ?_
    rw [hdue]
    exact List.not_mem_nil

-- `dispatch` returns.
theorem Served.leave (h : w.Served) (hdue : w.pc.due = [])
    (hpc : ∀ id, w.pc.buffersOf id = [iov] ∧ w.pc.isReading id = false) (removed : List Nat)
    : Served { w.addLog .returns with poll := { w.poll with removedEventInfo := removed }, pc := .outside } := by
  refine ⟨⟨?_, h.backend.isInited, h.backend.ctlErrs, h.backend.readyEvents⟩, { h.objects with }, ?_, ?_,
    List.nodup_nil, nofun, ?_, .outside⟩
  . exact h.backend.listed.of_fields rfl rfl (fun _ => rfl) (fun _ => rfl)
  . intro n t hfile
    obtain ⟨id, hserves⟩ := h.opened n t hfile
    have hwired := hserves.wired
    rw [(hpc id).1, (hpc id).2] at hwired
    have htracked := hserves.tracked
    rw [hdue] at htracked
    refine ⟨id, hserves.pos, hserves.alive, { hwired with }, ?_⟩
    change Tracked _ _ _ (stage t (w.log ++ [.returns]))
    rw [stage_append]
    exact htracked
  . intro n hfile
    exact { h.unused n hfile with }
  . refine ⟨?_, ?_, h.logged.prompt.append fun _ => h.stage_le hdue⟩
    . intro t hfd
      exact (stage_append ..).trans (h.logged.silent t hfd)
    . intro t
      change expirations t (w.log ++ [.returns]) = handed t (w.log ++ [.returns]) + _
      rw [expirations_append, handed_append]
      simpa [handed] using h.logged.counted t

theorem Served.epollWait (h : w.Served) (hpc : w.pc = .waiting) (turn : Turn)
    : (w.epollWait turn).Served := by
  have hdue : w.pc.due = [] := by rw [hpc]; rfl
  have hbufs : ∀ id, w.pc.buffersOf id = [iov] ∧ w.pc.isReading id = false := by
    intro id
    rw [hpc]
    exact ⟨rfl, rfl⟩
  have hlst : w.poll.evtChangeLst = [] := by
    have hphase := h.phase
    rw [hpc] at hphase
    cases hphase with
    | waiting hlst => exact hlst
  unfold Timers.epollWait
  split
  . exact h.leave hdue hbufs w.poll.removedEventInfo
  . generalize turn.harvest.take EVENT_CNT = ts
    have hmem : ∀ id, id ∈ (w.harvest ts).2 ↔ ∃ t ∈ ts, w.report t = some id := fun _ => mem_harvest w ts
    have hnodup := nodup_harvest w ts fun t u id => h.report_injective
    have hfst := harvest_fst w ts
    generalize w.harvest ts = harvested at *
    obtain ⟨w₁, ids⟩ := harvested
    dsimp only at hfst hmem hnodup ⊢
    have htimer : ∀ t, (w₁.timers t).counter = (w.timers t).counter ∧ (w₁.timers t).fd = (w.timers t).fd
        ∧ (Alive (w.timers t) → Alive (w₁.timers t)) ∧ (t ∉ ts → w₁.timers t = w.timers t) := by
      intro t
      rw [hfst]
      dsimp only
      split
      . next ht => exact ⟨rfl, rfl, fun h => { h with }, fun hnot => absurd ht hnot⟩
      . exact ⟨rfl, rfl, id, fun _ => rfl⟩
    have hsame : w₁.poll = w.poll ∧ w₁.files = w.files ∧ w₁.next = w.next ∧ w₁.idToTimer = w.idToTimer
        ∧ w₁.log = w.log := by
      rw [hfst]
      exact ⟨rfl, rfl, rfl, rfl, rfl⟩
    have hfresh : ∀ t, w.timers t = {} → w₁.timers t = {} := by
      intro t ht
      rw [hfst]
      dsimp only
      rw [ht]
      split <;> rfl
    have hstage : ∀ t, stage t (w.log ++ [.harvests ts]) = if stage t w.log = 1 ∧ t ∈ ts then 2 else stage t w.log :=
      fun t => stage_append ..
    refine ⟨?_, ?_, ?_, ?_, hnodup, ?_, ⟨?_, ?_, ?_⟩, .reported ids⟩
    . exact hsame.1 ▸ h.backend
    . exact h.objects.of_fields hsame.2.1 hsame.2.2.1 hsame.2.2.2.1 (fun t => (htimer t).2.1) hfresh
    . intro n t hfile
      have hfile : w₁.files n = some t := hfile
      rw [hsame.2.1] at hfile
      obtain ⟨id, hserves⟩ := h.opened n t hfile
      have hfd := (h.objects.owner n t).mp hfile
      have hwired := hserves.wired
      rw [(hbufs id).1, (hbufs id).2] at hwired
      refine ⟨id, hserves.pos, (htimer t).2.2.1 hserves.alive, ?_, ?_⟩
      . change Wired w₁.poll n t id [iov] false
        rw [hsame.1]
        exact hwired
      . have hle := h.stage_le hdue t
        have hreport := hserves.report hfd hlst hdue
        have hunread := hserves.tracked.unread
        change Tracked (w₁.timers t) (id ∈ w₁.poll.evtChangeLst) (id ∈ ids) (stage t (w₁.log ++ [.harvests ts]))
        rw [hsame.1, hsame.2.2.2.2, hstage]
        refine ⟨?_, ?_, ?_, ?_⟩
        . intro hid
          rw [(htimer t).1]
          obtain ⟨u, -, hu⟩ := (hmem _).mp hid
          obtain ⟨m, hserves', hfile', hpos⟩ := h.report hu
          have hm : m = n := (h.backend.listed.map m id hserves'.wired.known).2.symm.trans
            (h.backend.listed.map n id hserves.wired.known).2
          rw [hm, hfile] at hfile'
          cases hfile'
          exact hpos
        . rw [(htimer t).1]
          intro hpos
          by_cases ht : t ∈ ts
          . exact .inr (.inr ((hmem _).mpr ⟨t, ht, hreport hpos⟩))
          . rw [(htimer t).2.2.2 ht]
            exact (hserves.tracked.wakes hpos).imp_right (Or.imp_right fun hmem => by rw [hdue] at hmem; cases hmem)
        . rw [(htimer t).1, ← hunread]
          split <;> omega
        . split
          . next hlate =>
            refine .inr ((hmem _).mpr ⟨t, hlate.2, hreport (hunread.mp ?_)⟩)
            exact Nat.le_of_eq hlate.1.symm
          . exact .inl hle
    . intro n hfile
      have hfile : w₁.files n = none := hfile
      rw [hsame.2.1] at hfile
      have hunused := h.unused n hfile
      refine ⟨?_, ?_, ?_, ?_⟩
      all_goals
        dsimp only [addLog_poll]
        rw [hsame.1]
      . exact hunused.interest
      . exact hunused.ofTimer
      . exact hunused.vacant
      . exact hunused.listed
    . intro id hid
      obtain ⟨t, -, ht⟩ := (hmem _).mp hid
      obtain ⟨n, hserves, -, -⟩ := h.report ht
      refine ⟨n, ?_⟩
      change w₁.poll.fdToEventInfo n = some id
      rw [hsame.1]
      exact hserves.wired.known
    . intro t hfd
      have hfd : (w₁.timers t).fd = none := hfd
      rw [(htimer t).2.1] at hfd
      change stage t (w₁.log ++ [.harvests ts]) = 0
      rw [hsame.2.2.2.2, hstage, h.logged.silent t hfd]
      rfl
    . intro t
      change expirations t (w₁.log ++ [.harvests ts]) = handed t (w₁.log ++ [.harvests ts]) + (w₁.timers t).counter
      rw [(htimer t).1, hsame.2.2.2.2, expirations_append, handed_append]
      simpa [handed] using h.logged.counted t
    . change Prompt (w₁.log ++ [.harvests ts])
      rw [hsame.2.2.2.2]
      exact h.logged.prompt.append_of_ne (by simp)

/-! ### `handle_events` -/

theorem Served.goto (h : w.Served) {pc : Pc} (hdue : pc.due = w.pc.due)
    (hbufs : ∀ id, pc.buffersOf id = w.pc.buffersOf id ∧ pc.isReading id = w.pc.isReading id) (hphase : Phase w pc)
    : Served { w with pc } := by
  refine ⟨h.backend, { h.objects with }, ?_, ?_, ?_, ?_, { h.logged with }, hphase.of_same rfl rfl rfl⟩
  . intro n t hfile
    obtain ⟨id, hserves⟩ := h.opened n t hfile
    refine ⟨id, hserves.pos, hserves.alive, ?_, ?_⟩
    . change Wired w.poll n t id (pc.buffersOf id) (pc.isReading id)
      rw [(hbufs id).1, (hbufs id).2]
      exact hserves.wired
    . change Tracked _ _ (id ∈ pc.due) _
      rw [hdue]
      exact hserves.tracked
  . intro n hfile
    exact { h.unused n hfile with }
  . change pc.due.Nodup
    rw [hdue]
    exact h.nodup
  . change ∀ j ∈ pc.due, _
    rw [hdue]
    exact h.reported

-- Only an action changes, and not the events that it is about.
structure Acts (s s' : Epoll) (id : Nat) (a : EventAction) : Prop where
  infos : s'.infos = Function.update s.infos id { s.infos id with action := a }
  map : s'.fdToEventInfo = s.fdToEventInfo
  kernel : s'.kernel = s.kernel
  changes : s'.evtChangeLst = s.evtChangeLst
  readyEvents : s'.readyEvents = s.readyEvents
  isInited : s'.isInited = s.isInited
  next : s'.next = s.next

theorem Acts.modifyAction (s : Epoll) (id : Nat) (g : EventAction → EventAction)
    : Acts s (s.modifyAction id g) id (g (s.infos id).action) :=
  ⟨rfl, rfl, rfl, rfl, rfl, rfl, rfl⟩

theorem Acts.others {a : EventAction} (h : Acts s s' id a) (hj : j ≠ id)
    : s'.infos j = s.infos j := by
  rw [h.infos, Function.update_of_ne hj]

theorem Acts.own {a : EventAction} (h : Acts s s' id a)
    : s'.infos id = { s.infos id with action := a } := by
  rw [h.infos, Function.update_self]

theorem Acts.backend {a : EventAction} (h : Acts s s' id a) (hs : Backend s)
    : Backend s' := by
  refine ⟨?_, ?_, ?_, ?_⟩
  . rw [h.changes]
    have hsame : ∀ j, (s'.infos j).fd = (s.infos j).fd ∧ (s'.infos j).isInChangeList = (s.infos j).isInChangeList := by
      intro j
      by_cases hj : j = id
      . rw [hj, h.own]
        exact ⟨rfl, rfl⟩
      . rw [h.others hj]
        exact ⟨rfl, rfl⟩
    exact hs.listed.of_fields h.next h.map (fun j => (hsame j).1) (fun j => (hsame j).2)
  . exact h.isInited.trans hs.isInited
  . rw [h.kernel]
    exact hs.ctlErrs
  . exact h.readyEvents.trans hs.readyEvents

theorem Wired.acts {a : EventAction} {bufs bufs' : List (List Iovec)} {readable readable' : Bool}
    (h : Wired s n t id bufs readable) (ha : Acts s s' id a)
    (hof : OfTimer { s.infos id with action := a } n) (harmed : Armed { s.infos id with action := a } t bufs')
    (hreadable : a.isReadable = readable')
    : Wired s' n t id bufs' readable' := by
  refine ⟨?_, ?_, ?_, ?_, ?_, ?_⟩
  . rw [ha.kernel]
    exact h.isOpen
  . rw [ha.map]
    exact h.known
  . rw [ha.own]
    exact hof
  . rw [ha.own]
    exact harmed
  . rw [ha.own]
    exact hreadable
  . rw [ha.kernel, ha.changes]
    exact h.registered

-- A step of the loop over the tasks of an action.
theorem Served.act {a : EventAction} {poll : Epoll} {timers : Nat → Timer} {pc : Pc} {log : List Entry} (h : w.Served)
    (hfile : w.files n = some t) (hid : w.poll.fdToEventInfo n = some id) (ha : Acts w.poll poll id a)
    (htimers : ∀ u, u ≠ t → timers u = w.timers u) (hfd : (timers t).fd = (w.timers t).fd)
    (hbufs : ∀ j, j ≠ id → pc.buffersOf j = w.pc.buffersOf j ∧ pc.isReading j = w.pc.isReading j)
    (hdue : ∀ j, j ≠ id → (j ∈ pc.due ↔ j ∈ w.pc.due)) (hstage : ∀ u, u ≠ t → stage u log = stage u w.log)
    (halive : Alive (timers t)) (hwired : Wired poll n t id (pc.buffersOf id) (pc.isReading id))
    (htracked : Tracked (timers t) (id ∈ poll.evtChangeLst) (id ∈ pc.due) (stage t log))
    (hsub : pc.due.Sublist w.pc.due)
    (hlogged : Logged { w with poll, timers, pc, log }) (hphase : Phase w pc)
    : Served { w with poll, timers, pc, log } := by
  have hothers := h.others hfile hid
  have hserves := h.serves hfile hid
  refine h.touch (?_ : Apart w _ n t id) hothers.1 hothers.2 (fun _ _ => rfl) ?_ ?_ (ha.backend h.backend) ?_
    (hsub.nodup h.nodup) ?_ hlogged (hphase.of_same rfl ha.map ha.changes)
  . refine ⟨fun m _ => congrFun ha.map m, fun j => ha.others, ?_, ?_, ?_, htimers, fun j hj => (hbufs j hj).1,
      fun j hj => (hbufs j hj).2, hdue, hstage⟩
    . exact fun m _ => congrArg (fun k : Kernel => k.interest m) ha.kernel
    . exact fun m _ => congrArg (fun k : Kernel => k.isOpen m) ha.kernel
    . intro j hj
      exact ha.changes ▸ hj
  . intro u hu
    cases hfile.symm.trans hu
    exact ⟨id, hserves.pos, halive, hwired, htracked⟩
  . intro hnone
    cases hfile.symm.trans hnone
  . refine h.objects.of_fields rfl rfl rfl ?_ ?_
    . intro u
      by_cases hu : u = t
      . rw [hu]
        exact hfd
      . exact congrArg Timer.fd (htimers u hu)
    . intro u hu
      refine (htimers u ?_).trans hu
      rintro rfl
      have hfd := (h.objects.owner n u).mp hfile
      rw [hu] at hfd
      cases hfd
  . intro j hj
    obtain ⟨m, hm⟩ := h.reported j (hsub.subset hj)
    exact ⟨m, (congrFun ha.map m).trans hm⟩

-- The action of a timer that has been reported is marked, and the loop over its tasks begins.
theorem Served.setReadable_open (h : w.Served) {rest : List Nat} (hpc : w.pc = .reported (id :: rest))
    (hid : w.poll.fdToEventInfo n = some id) (hfile : w.files n = some t)
    : Served { w with
        poll := w.poll.modifyAction id fun a => { a with isReadable := true }
        pc := .readTask ⟨id, 1, .dispatch rest⟩ } := by
  have hserves := h.serves hfile hid
  have hwired := hserves.wired
  have htracked := hserves.tracked
  rw [hpc] at hwired htracked
  have ha := Acts.modifyAction w.poll id fun a => { a with isReadable := true }
  refine h.act hfile hid ha (fun _ _ => rfl) rfl ?_ ?_ (fun _ _ => rfl) hserves.alive ?_ htracked ?_ { h.logged with }
    (.readTask id n t rest hfile hid)
  . rw [hpc]
    exact fun j hj => ⟨rfl, decide_eq_false hj.symm⟩
  . rw [hpc]
    exact fun _ _ => Iff.rfl
  . refine hwired.acts ha { hwired.ofTimer with } { hwired.armed with } ?_
    exact (decide_eq_true rfl).symm
  . rw [hpc]
    exact List.Sublist.refl _

-- The timer has been closed since.
theorem Served.setReadable_unused (h : w.Served) {rest : List Nat} (hpc : w.pc = .reported (id :: rest))
    (hid : w.poll.fdToEventInfo n = some id) (hfile : w.files n = none)
    : Served { w with
        poll := w.poll.modifyAction id fun a => { a with isReadable := true }
        pc := .reported rest } := by
  have hunused := h.unused n hfile
  have hnodup := h.nodup
  have hreported := h.reported
  rw [hpc] at hnodup hreported
  have ha := Acts.modifyAction w.poll id fun a => { a with isReadable := true }
  refine h.touch (?_ : Apart w _ n w.next id) ?_ ?_ (fun _ _ => rfl) ?_ ?_ (ha.backend h.backend) { h.objects with }
    (List.nodup_cons.mp hnodup).2 ?_ { h.logged with } (.reported rest)
  . refine ⟨fun _ _ => rfl, fun j => ha.others, fun _ _ => rfl, fun _ _ => rfl, fun _ h => h, fun _ _ => rfl, ?_, ?_,
      ?_, fun _ _ => rfl⟩
    . rw [hpc]
      exact fun _ _ => rfl
    . rw [hpc]
      exact fun _ _ => rfl
    . rw [hpc]
      exact fun j hj => (List.mem_cons.trans (or_iff_right hj)).symm
  . exact fun m hm hj => h.backend.id_ne hid hj hm rfl
  . exact fun m _ => h.objects.files_ne_next m
  . intro u hu
    cases hfile.symm.trans hu
  . intro _
    have hknown : ∀ j, w.poll.fdToEventInfo n = some j → j = id := fun j hj => Option.some.inj (hj.symm.trans hid)
    refine ⟨hunused.interest, ?_, ?_, hunused.listed⟩
    . intro j hj
      rw [hknown j hj, ha.own]
      exact { hunused.ofTimer id hid with }
    . intro j hj
      rw [hknown j hj, ha.own]
      exact { hunused.vacant id hid with }
  . exact fun j hj => hreported j (List.mem_cons_of_mem id hj)

theorem Served.setReadyEvents_cons (h : w.Served) {rest : List Nat} (hpc : w.pc = .reported (id :: rest))
    : (∃ n t, w.poll.fdToEventInfo n = some id ∧ w.files n = some t
        ∧ w.setReadyEvents (id :: rest) = { w with
            poll := w.poll.modifyAction id fun a => { a with isReadable := true }
            pc := .readTask ⟨id, 1, .dispatch rest⟩ })
      ∨ ∃ n, w.poll.fdToEventInfo n = some id ∧ w.files n = none
        ∧ w.setReadyEvents (id :: rest) = { w with
            poll := w.poll.modifyAction id fun a => { a with isReadable := true }
            pc := .reported rest } := by
  obtain ⟨n, hid⟩ := h.reported id (by rw [hpc]; exact List.mem_cons_self)
  cases hfile : w.files n with
  | none =>
    have hpending := ((h.unused n hfile).vacant id hid).pending
    refine .inr ⟨n, hid, hfile, ?_⟩
    simp [Timers.setReadyEvents, handleEvents, hpending, endPass, modifyAction]
  | some t =>
    have hpending := (h.serves hfile hid).wired.armed.pending
    rw [hpc] at hpending
    obtain ⟨task, hpending, -⟩ := List.map_eq_singleton_iff.mp hpending
    refine .inl ⟨n, t, hid, hfile, ?_⟩
    simp [Timers.setReadyEvents, handleEvents, hpending, modifyAction]

theorem Served.setReadyEvents (h : w.Served) {ids : List Nat} (hpc : w.pc = .reported ids)
    : (w.setReadyEvents ids).Served := by
  cases ids with
  | nil =>
    simp only [Timers.setReadyEvents, h.backend.readyEvents, List.length_nil]
    refine h.goto ?_ ?_ .readyTasks
    . rw [hpc]
      rfl
    . rw [hpc]
      exact fun _ => ⟨rfl, rfl⟩
  | cons id rest =>
    rcases h.setReadyEvents_cons hpc with ⟨n, t, hid, hfile, heq⟩ | ⟨n, hid, hfile, heq⟩
    . rw [heq]
      exact h.setReadable_open hpc hid hfile
    . rw [heq]
      exact h.setReadable_unused hpc hid hfile

-- `readv` gives the number of the expirations, whatever interrupts it before.
theorem readFd_answers (hfile : w.files n = some t) (hcounter : 0 < (w.timers t).counter) (intrs : Nat)
    : FdIo.EventFd.readFd iov (w.readAnswers n intrs) = .done ⟨8, true, iov, [(iov, 8)]⟩ [] := by
  have hgo : FdIo.readRecord.go 8 iov (w.readAnswers n intrs) = .done ⟨8, true, iov, [(iov, 8)]⟩ [] := by
    unfold readAnswers
    rw [hfile]
    dsimp only
    rw [if_pos hcounter]
    induction intrs with
    | zero => simp [FdIo.readRecord.go]
    | succ intrs ih => simpa [List.replicate_succ, FdIo.readRecord.go] using ih
  exact hgo

theorem Served.doReadTask_eq (h : w.Served) {rest : List Nat} (hpc : w.pc = .readTask ⟨id, 1, .dispatch rest⟩)
    (hid : w.poll.fdToEventInfo n = some id) (hfile : w.files n = some t) (intrs : Nat)
    : w.doReadTask ⟨id, 1, .dispatch rest⟩ intrs = { w with
        poll := w.poll.modifyAction id fun a => { a with isReadable := a.isReadable && !true }
        timers := Function.update w.timers t { w.timers t with counter := 0 }
        pc := .handler t ⟨id, 1, .dispatch rest⟩
        log := w.log ++ [.handles t (w.timers t).counter] } := by
  have hserves := h.serves hfile hid
  have hcounter := hserves.tracked.due (by rw [hpc]; exact List.mem_cons_self)
  have hpending := hserves.wired.armed.pending
  rw [hpc] at hpending
  obtain ⟨task, hpending, hbuffer⟩ := List.map_eq_singleton_iff.mp hpending
  have hof := hserves.wired.ofTimer
  have hkey : (w.poll.infos id).action.fd.key = n := by
    rw [hof.actionFd]
    rfl
  have hread : readIov (w.poll.infos id).action.readOp false iov (w.readAnswers n intrs)
      = .done ⟨8, true, iov, [(iov, 8)]⟩ [] := by
    simp only [EventAction.readOp, hof.ops, Option.map_some, readIov]
    exact readFd_answers hfile hcounter intrs
  have hcallback := hserves.wired.armed.callback
  have halive := hserves.alive
  unfold Timers.doReadTask
  simp only [Epoll.action, hpending, hbuffer, hkey, hread]
  rw [if_neg (by decide)]
  simp [readCounter, hfile, handleTimeout, hcallback, halive.isActive, halive.hasHandler, modifyAction, modifyTimer,
    addLog, Caller.isEventTriggered]

-- The handler of the timer is told of all expirations that nobody has read.
theorem Served.doReadTask (h : w.Served) {p : Pass} (hpc : w.pc = .readTask p) (intrs : Nat)
    : (w.doReadTask p intrs).Served := by
  have hphase := h.phase
  rw [hpc] at hphase
  cases hphase with
  | readTask id n t rest hfile hid =>
    have hserves := h.serves hfile hid
    have hwired := hserves.wired
    have hnodup := h.nodup
    rw [hpc] at hwired hnodup
    have ha := Acts.modifyAction w.poll id fun a => { a with isReadable := a.isReadable && !true }
    have hstage : ∀ u, stage u (w.log ++ [.handles t (w.timers t).counter]) = if u = t then 0 else stage u w.log := by
      intro u
      simp [stageStep, eq_comm]
    rw [h.doReadTask_eq hpc hid hfile]
    refine h.act hfile hid ha ?_ ?_ ?_ ?_ ?_ ?_ ?_ ?_ ?_ ⟨?_, ?_, h.logged.prompt.append_of_ne (by simp)⟩ ?_
    . exact fun u hu => Function.update_of_ne hu ..
    . rw [Function.update_self]
    . rw [hpc]
      exact fun j hj => ⟨rfl, (decide_eq_false hj.symm).symm⟩
    . rw [hpc]
      exact fun j hj => (List.mem_cons.trans (or_iff_right hj)).symm
    . exact fun u hu => (hstage u).trans (if_neg hu)
    . rw [Function.update_self]
      exact { hserves.alive with }
    . exact hwired.acts ha { hwired.ofTimer with } { hwired.armed with } (Bool.and_false _)
    . rw [Function.update_self, hstage, if_pos rfl]
      exact ⟨fun hmem => absurd hmem (List.nodup_cons.mp hnodup).1, fun hpos => absurd hpos (Nat.lt_irrefl 0), by simp,
        .inl (Nat.zero_le 1)⟩
    . rw [hpc]
      exact List.sublist_cons_self id rest
    . intro u hu
      refine (hstage u).trans ?_
      split
      . rfl
      . next hne =>
        dsimp only at hu
        rw [Function.update_of_ne hne] at hu
        exact h.logged.silent u hu
    . intro u
      have hcounted := h.logged.counted u
      dsimp only
      rw [expirations_append, handed_append, Function.update_apply]
      by_cases hu : u = t
      . simpa [handed, hu] using hcounted
      . simpa [handed, hu, Ne.symm hu] using hcounted
    . exact .handler id n t rest hfile hid

theorem Served.handlerReturns_eq (h : w.Served) {rest : List Nat} (hpc : w.pc = .handler t ⟨id, 1, .dispatch rest⟩)
    (hid : w.poll.fdToEventInfo n = some id) (hfile : w.files n = some t)
    : w.handlerReturns t ⟨id, 1, .dispatch rest⟩ = { w with
        poll := w.poll.takeTask.modifyAction id fun a => a.addReadTask ⟨w.poll.nextTask, iov, none, false⟩
        pc := .popTask ⟨id, 1, .dispatch rest⟩ } := by
  have hserves := h.serves hfile hid
  have hwired := hserves.wired
  rw [hpc] at hwired
  have hfd := (h.objects.owner n t).mp hfile
  have hsubmit := submitAsyncRead_again h.backend.isInited hid hwired.armed.watched hwired.isReadable
  simp [Timers.handlerReturns, hserves.alive.destroyed, hserves.alive.isActive, submitReadRequest, hfd, hsubmit]

-- The read that follows the handler is queued behind the one that called it.
theorem Served.handlerReturns (h : w.Served) {p : Pass} (hpc : w.pc = .handler t p)
    : (w.handlerReturns t p).Served := by
  have hphase := h.phase
  rw [hpc] at hphase
  cases hphase with
  | handler id n _ rest hfile hid =>
    have hserves := h.serves hfile hid
    have hwired := hserves.wired
    have htracked := hserves.tracked
    rw [hpc] at hwired htracked
    have ha : Acts w.poll
        (w.poll.takeTask.modifyAction id fun a => a.addReadTask ⟨w.poll.nextTask, iov, none, false⟩) id
        ((w.poll.infos id).action.addReadTask ⟨w.poll.nextTask, iov, none, false⟩) :=
      ⟨rfl, rfl, rfl, rfl, rfl, rfl, rfl⟩
    rw [h.handlerReturns_eq hpc hid hfile]
    refine h.act hfile hid ha (fun _ _ => rfl) rfl ?_ ?_ (fun _ _ => rfl) hserves.alive ?_ htracked ?_ { h.logged with }
      (.popTask id n t rest hfile hid)
    . rw [hpc]
      exact fun j hj => ⟨if_neg hj.symm, rfl⟩
    . rw [hpc]
      exact fun _ _ => Iff.rfl
    . have harmed : Armed { w.poll.infos id with
          action := (w.poll.infos id).action.addReadTask ⟨w.poll.nextTask, iov, none, false⟩ } t [iov, iov] := by
        refine { hwired.armed with pending := ?_ }
        simp [EventAction.addReadTask, hwired.armed.pending, Pc.buffersOf]
      have hbufs : (Pc.popTask ⟨id, 1, .dispatch rest⟩).buffersOf id = [iov, iov] := if_pos rfl
      rw [hbufs]
      exact hwired.acts ha { hwired.ofTimer with } harmed hwired.isReadable
    . rw [hpc]
      exact List.Sublist.refl _

theorem Served.popReadTask_eq (h : w.Served) {rest : List Nat} (hpc : w.pc = .popTask ⟨id, 1, .dispatch rest⟩)
    (hid : w.poll.fdToEventInfo n = some id) (hfile : w.files n = some t)
    : ∃ tasks : List Task, tasks.map (·.buffer) = [iov]
      ∧ w.popReadTask ⟨id, 1, .dispatch rest⟩ = { w with
          poll := w.poll.modifyAction id fun a => { a with pendingReadTask := tasks }
          pc := .reported rest } := by
  have hpending := (h.serves hfile hid).wired.armed.pending
  rw [hpc] at hpending
  obtain ⟨task, tasks, hpending, -, htasks⟩ := List.map_eq_cons_iff.mp (hpending.trans (if_pos rfl))
  refine ⟨tasks, htasks, ?_⟩
  simp [Timers.popReadTask, hpending, endPass, modifyAction]

theorem Served.popReadTask (h : w.Served) {p : Pass} (hpc : w.pc = .popTask p)
    : (w.popReadTask p).Served := by
  have hphase := h.phase
  rw [hpc] at hphase
  cases hphase with
  | popTask id n t rest hfile hid =>
    have hserves := h.serves hfile hid
    have hwired := hserves.wired
    have htracked := hserves.tracked
    rw [hpc] at hwired htracked
    obtain ⟨tasks, htasks, heq⟩ := h.popReadTask_eq hpc hid hfile
    have ha := Acts.modifyAction w.poll id fun a => { a with pendingReadTask := tasks }
    rw [heq]
    refine h.act hfile hid ha (fun _ _ => rfl) rfl ?_ ?_ (fun _ _ => rfl) hserves.alive ?_ htracked ?_ { h.logged with }
      (.reported rest)
    . rw [hpc]
      exact fun j hj => ⟨(if_neg hj.symm).symm, rfl⟩
    . rw [hpc]
      exact fun _ _ => Iff.rfl
    . exact hwired.acts ha { hwired.ofTimer with } { hwired.armed with pending := htasks } hwired.isReadable
    . rw [hpc]
      exact List.Sublist.refl _

theorem Served.doReadyTasks (h : w.Served) {left : Nat} (hpc : w.pc = .readyTasks left)
    : (w.doReadyTasks left).Served := by
  have hphase := h.phase
  rw [hpc] at hphase
  cases hphase with
  | readyTasks =>
    refine h.leave ?_ ?_ []
    . rw [hpc]
      rfl
    . rw [hpc]
      exact fun _ => ⟨rfl, rfl⟩

/-! ### Runs -/

theorem Served.tick (h : w.Served) (turn : Turn)
    : (w.tick turn).Served := by
  unfold Timers.tick
  split
  . next hpc => exact h.applyChanges hpc
  . next hpc => exact h.epollWait hpc turn
  . next hpc => exact h.setReadyEvents hpc
  . next hpc => exact h.doReadTask hpc turn.intrs
  . next hpc => exact h.handlerReturns hpc
  . next hpc => exact h.popReadTask hpc
  . next hpc => exact h.doReadyTasks hpc
  . exact h

theorem Served.step (h : w.Served) {a : Action} (hok : ¬w.misuses a = true)
    : (w.step a).Served := by
  have hok := Bool.eq_false_iff.mpr hok
  cases a with
  | expire t => exact h.expire t
  | createTimer intervalS intervalNs cb answers =>
    unfold Timers.step
    dsimp only
    split
    . next hcall => exact h.createTimer hcall.1 hcall.2 hok
    . exact h
  | closeTimer timerId =>
    unfold Timers.step
    dsimp only
    split
    . next hcall => exact h.closeTimer hcall hok
    . exact h
  | tick turn => exact h.tick turn

theorem run_served {as : List Action} (h : Along step (fun w a => ¬w.misuses a) {} as)
    : (run {} as).Served :=
  h.invariant (fun _ _ hs ha => hs.step ha) init_served

end Timers

end Event
end Ezio
