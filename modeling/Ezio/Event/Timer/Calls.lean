import Ezio.Event.Timer.Served

/-!
This module contains the invariant of the timers over what happens between two steps of `dispatch`: a timer expires, the
user creates one or closes one.
-/

namespace Ezio
namespace Event
namespace Timers

variable {w w' : Timers} {m n t u id j : Nat}

/-! ### The kernel -/

theorem Served.expire (h : w.Served) (t : Nat)
    : (w.expire t).Served := by
  unfold Timers.expire
  split
  . next n hfd =>
    have hfile := (h.objects.owner n t).mpr hfd
    obtain ⟨id, hserves⟩ := h.opened n t hfile
    have hothers := h.others hfile hserves.wired.known
    have hstage : ∀ u, u ≠ t → stage u (w.log ++ [.expires t]) = stage u w.log := by
      intro u hu
      rw [stage_append]
      exact if_neg fun heq => hu heq.symm
    have hfds : ∀ u, (((w.addLog (.expires t)).modifyTimer t fun r =>
        { r with counter := r.counter + 1, edge := r.edge || w.isRegistered n }).timers u).fd = (w.timers u).fd := by
      intro u
      rw [modifyTimer_timers]
      split
      . next hu => rw [hu, addLog_timers]
      . rfl
    refine h.touch (?_ : Apart w _ n t id) hothers.1 hothers.2 (fun _ _ => rfl) ?_ ?_ h.backend ?_ h.nodup h.reported
      ?_ ?_
    . refine ⟨fun _ _ => rfl, fun _ _ => rfl, fun _ _ => rfl, fun _ _ => rfl, fun _ h => h, ?_, fun _ _ => rfl,
        fun _ _ => rfl, fun _ _ => Iff.rfl, hstage⟩
      intro u hu
      simp [hu]
    . intro u hu
      rw [show u = t from Option.some.inj (hu.symm.trans hfile)]
      refine ⟨id, hserves.pos, ?_, hserves.wired, ?_⟩
      . rw [modifyTimer_timers, if_pos rfl]
        exact { hserves.alive with }
      . rw [modifyTimer_timers, if_pos rfl, modifyTimer_log, addLog_log, stage_append]
        simp only [stageStep, if_true]
        refine ⟨fun _ => Nat.succ_pos _, ?_, ?_, ?_⟩
        . intro _
          rcases hserves.wired.registered with ⟨mask, hmask, -⟩ | ⟨-, hlst⟩
          . simp [isRegistered, hmask]
          . exact .inr (.inl hlst)
        . exact iff_of_true (Nat.le_max_right _ _) (Nat.succ_pos _)
        . exact hserves.tracked.late.imp_left fun hle => Nat.max_le.mpr ⟨hle, Nat.le_refl 1⟩
    . intro hnone
      rw [show w.files n = none from hnone] at hfile
      cases hfile
    . refine h.objects.of_fields rfl rfl rfl hfds ?_
      intro u hu
      rw [modifyTimer_timers, if_neg]
      . exact hu
      . rintro rfl
        rw [hu] at hfd
        cases hfd
    . refine ⟨?_, ?_, h.logged.prompt.append_of_ne (by simp)⟩
      . intro u hu
        rw [hfds] at hu
        refine (hstage u ?_).trans (h.logged.silent u hu)
        rintro rfl
        rw [hfd] at hu
        cases hu
      . intro u
        have hcounted := h.logged.counted u
        simp only [modifyTimer_log, addLog_log, expirations_append, handed_append, modifyTimer_timers, handed]
        by_cases hu : u = t
        . simp [hu] at hcounted ⊢
          omega
        . simp [hu, Ne.symm hu, hcounted]
    . exact h.phase.of_same rfl rfl rfl
  . exact h

/-! ### The user -/

theorem mayCall_pc (hcall : w.mayCall = true)
    : (∀ p, w.pc ≠ .readTask p ∧ w.pc ≠ .popTask p) ∧ w.pc ≠ .waiting := by
  unfold mayCall at hcall
  split at hcall
  all_goals simp_all

theorem mayCall_buffersOf (hcall : w.mayCall = true) (id : Nat)
    : w.pc.buffersOf id = [iov] ∧ w.pc.isReading id = false := by
  have hpc := mayCall_pc hcall
  constructor
  . unfold Pc.buffersOf
    split
    . next p heq => exact absurd heq (hpc.1 p).2
    . rfl
  . unfold Pc.isReading
    split
    . next p heq => exact absurd heq (hpc.1 p).1
    . rfl

-- Objects that have no file do not matter.
theorem Served.of_objects (h : w.Served) (hpoll : w'.poll = w.poll) (hfiles : w'.files = w.files) (hpc : w'.pc = w.pc)
    (hlog : w'.log = w.log) (htimers : ∀ n t, w.files n = some t → w'.timers t = w.timers t)
    (hcounters : ∀ t, (w'.timers t).counter = (w.timers t).counter) (hobjects : Objects w')
    : w'.Served := by
  constructor
  . exact hpoll ▸ h.backend
  . exact hobjects
  . intro n t hfile
    rw [hfiles] at hfile
    obtain ⟨id, hserves⟩ := h.opened n t hfile
    refine ⟨id, hserves.pos, ?_, ?_, ?_⟩
    . rw [htimers n t hfile]
      exact hserves.alive
    . rw [hpoll, hpc]
      exact hserves.wired
    . rw [htimers n t hfile, hpoll, hpc, hlog]
      exact hserves.tracked
  . intro n hfile
    rw [hfiles] at hfile
    have hunused := h.unused n hfile
    refine ⟨?_, ?_, ?_, ?_⟩
    all_goals rw [hpoll]
    . exact hunused.interest
    . exact hunused.ofTimer
    . exact hunused.vacant
    . exact hunused.listed
  . exact hpc ▸ h.nodup
  . rw [hpc, hpoll]
    exact h.reported
  . refine ⟨?_, ?_, hlog ▸ h.logged.prompt⟩
    . intro t hfd
      rw [hlog]
      apply h.logged.silent
      by_contra hsome
      obtain ⟨n, hn⟩ := Option.ne_none_iff_exists'.mp hsome
      rw [htimers n t ((h.objects.owner n t).mpr hn), hn] at hfd
      cases hfd
    . intro t
      rw [hlog, hcounters]
      exact h.logged.counted t
  . rw [hpc]
    exact h.phase.of_same hfiles (by rw [hpoll]) (by rw [hpoll])

theorem Objects.files_ne_next (h : Objects w) (m : Nat)
    : w.files m ≠ some w.next := by
  intro hm
  have hfd := (h.owner m _).mp hm
  rw [h.fresh w.next (Nat.le_refl _)] at hfd
  cases hfd

-- The object of a timer that could not be opened is made and destroyed.
theorem Served.release_next (h : w.Served) (fd : Option Nat)
    : ({ w with next := w.next + 1 }.release w.next fd).Served := by
  have hfresh := h.objects.fresh w.next (Nat.le_refl _)
  have hrelease : ({ w with next := w.next + 1 }.release w.next fd) = { w with next := w.next + 1 }
      ∨ ({ w with next := w.next + 1 }.release w.next fd)
        = ({ w with next := w.next + 1 } : Timers).modifyTimer w.next fun r => { r with destroyed := true } := by
    unfold release
    dsimp only
    split
    . exact .inl rfl
    . right
      rw [if_neg (by rw [hfresh]; decide)]
  have hnot : ∀ n t, w.files n = some t → t ≠ w.next := by
    rintro n t hfile rfl
    exact h.objects.files_ne_next n hfile
  rcases hrelease with heq | heq
  . rw [heq]
    refine h.of_objects rfl rfl rfl rfl (fun _ _ _ => rfl) (fun _ => rfl) ⟨h.objects.owner, ?_, h.objects.ids,
      h.objects.injective⟩
    intro t ht
    exact h.objects.fresh t (Nat.le_of_succ_le ht)
  . rw [heq]
    refine h.of_objects rfl rfl rfl rfl ?_ ?_ ⟨?_, ?_, ?_, h.objects.injective⟩
    . intro n t hfile
      rw [modifyTimer_timers, if_neg (hnot n t hfile)]
    . intro t
      rw [modifyTimer_timers]
      split
      . next ht => rw [ht]
      . rfl
    . intro n t
      rw [modifyTimer_timers]
      split
      . next ht =>
        rw [ht]
        exact h.objects.owner n w.next
      . exact h.objects.owner n t
    . intro t ht
      rw [modifyTimer_timers, if_neg (Nat.ne_of_gt ht)]
      exact h.objects.fresh t (Nat.le_of_succ_le ht)
    . intro i t hi
      rw [modifyTimer_timers]
      split
      . next ht =>
        rw [ht] at hi
        exact h.objects.ids i _ hi
      . exact h.objects.ids i t hi

theorem Unused.spare (h : w.Unused n) (hstale : w.isStale n = false)
    : Spare { w.poll with kernel := w.poll.kernel.open n } n := by
  refine ⟨h.ofTimer, fun id hid => (h.vacant id hid).pending, ?_, h.listed⟩
  intro id hid
  have hid : w.poll.fdToEventInfo n = some id := hid
  simp only [isStale, hid, Option.any_some, Bool.or_eq_false_iff] at hstale
  exact hstale.1

-- The state after a timer has been opened.
def created (w : Timers) (poll : Epoll) (n : Nat) : Timers :=
  { w with
    poll
    timers := Function.update w.timers w.next { hasPoll := true, fd := some n, hasHandler := true }
    next := w.next + 1
    timerId := w.timerId + 1
    idToTimer := Function.update w.idToTimer w.timerId (some w.next)
    files := Function.update w.files n (some w.next) }

theorem Served.createTimer_cases (h : w.Served) {intervalS intervalNs : UInt64} {cb : Bool} {answers : OpenAnswers}
    (hpossible : answers.possible w = true) (hok : w.misuses (.createTimer intervalS intervalNs cb answers) = false)
    : (w.createTimer intervalS intervalNs cb answers).1 = w
      ∨ (∃ fd, (w.createTimer intervalS intervalNs cb answers).1 = { w with next := w.next + 1 }.release w.next fd)
      ∨ ∃ n poll id, 0 < n ∧ w.files n = none ∧ w.isStale n = false
        ∧ Backend poll ∧ Binds { w.poll with kernel := w.poll.kernel.open n } poll n w.next id
        ∧ (w.createTimer intervalS intervalNs cb answers).1 = w.created poll n := by
  have hfresh := h.objects.fresh w.next (Nat.le_refl _)
  unfold Timers.createTimer openTimer
  split
  . exact .inl rfl
  . right
    by_cases hzero : intervalS + intervalNs / NANOS_OF_ONE_SECONDS = 0 ∧ intervalNs % NANOS_OF_ONE_SECONDS = 0
    . left
      refine ⟨answers.fd, ?_⟩
      simp [hzero]
    . cases hfd : answers.fd with
      | none =>
        left
        refine ⟨none, ?_⟩
        simp [hzero]
      | some n =>
        right
        simp only [misuses, hfd, Option.any_some, Bool.or_eq_false_iff, decide_eq_false_iff_not,
          Bool.not_eq_false'] at hok
        obtain ⟨⟨⟨hpos, hnonblocking⟩, hsettime⟩, hstale⟩ := hok
        simp only [OpenAnswers.possible, hfd, Option.all_some, Option.isNone_iff_eq_none] at hpossible
        have hspare := (h.unused n hpossible).spare hstale
        obtain ⟨poll, id, hsubmit, hbinds⟩ := hspare.submitAsyncRead h.backend.isInited w.next
        have hlisted : ({ w.poll with kernel := w.poll.kernel.open n } : Epoll).Listed w.poll.evtChangeLst :=
          h.backend.listed.of_fields rfl rfl (fun _ => rfl) (fun _ => rfl)
        refine ⟨n, poll, id, Nat.pos_of_ne_zero hpos, hpossible, hstale, ?_, hbinds, ?_⟩
        . refine ⟨hlisted.updates (Epoll.submitAsyncRead_updates hsubmit), ?_, ?_, ?_⟩
          . exact hbinds.isInited.trans h.backend.isInited
          . rw [hbinds.kernel]
            exact h.backend.ctlErrs
          . exact hbinds.readyEvents.trans h.backend.readyEvents
        . simp [hzero, hnonblocking, hsettime, modifyTimer, hsubmit, hfresh, created]

theorem created_timers (w : Timers) (poll : Epoll) (n u : Nat)
    : (w.created poll n).timers u =
        if u = w.next then { hasPoll := true, fd := some n, hasHandler := true } else w.timers u :=
  Function.update_apply ..

theorem Objects.created (h : Objects w) (poll : Epoll) (hfile : w.files n = none)
    : Objects (w.created poll n) := by
  have hfresh := h.fresh w.next (Nat.le_refl _)
  have hfd : ∀ u, ((w.created poll n).timers u).fd = if u = w.next then some n else (w.timers u).fd := by
    intro u
    rw [created_timers]
    split <;> rfl
  refine ⟨?_, ?_, ?_, ?_⟩
  . intro m u
    rw [hfd]
    change Function.update w.files n (some w.next) m = some u ↔ _
    rw [Function.update_apply]
    split
    . next hm =>
      rw [hm]
      split
      . next hu => simp [hu]
      . next hu =>
        refine iff_of_false (fun heq => hu (Option.some.inj heq).symm) ?_
        rw [← h.owner, hfile]
        nofun
    . next hm =>
      split
      . next hu =>
        refine iff_of_false ?_ (fun heq => hm (Option.some.inj heq).symm)
        rw [hu]
        exact h.files_ne_next m
      . exact h.owner m u
  . intro u hu
    have hu : w.next + 1 ≤ u := hu
    rw [created_timers, if_neg (Nat.ne_of_gt hu)]
    exact h.fresh u (Nat.le_of_succ_le hu)
  . intro i u hi
    have hi : Function.update w.idToTimer w.timerId (some w.next) i = some u := hi
    rw [hfd]
    split
    . nofun
    . next hu =>
      rw [Function.update_apply] at hi
      split at hi
      . exact absurd (Option.some.inj hi).symm hu
      . exact h.ids i u hi
  . intro i k u hi hk
    have hnew : ∀ i, Function.update w.idToTimer w.timerId (some w.next) i = some u
        → i = w.timerId ∧ u = w.next ∨ w.idToTimer i = some u ∧ u ≠ w.next := by
      intro i hi
      rw [Function.update_apply] at hi
      split at hi
      . next heq => exact .inl ⟨heq, (Option.some.inj hi).symm⟩
      . refine .inr ⟨hi, ?_⟩
        rintro rfl
        exact h.ids i _ hi (by rw [hfresh])
    rcases hnew i hi with ⟨hi, hu⟩ | ⟨hi, hu⟩
    . rcases hnew k hk with ⟨hk, -⟩ | ⟨-, hne⟩
      . rw [hi, hk]
      . exact absurd hu hne
    . rcases hnew k hk with ⟨-, heq⟩ | ⟨hk, -⟩
      . exact absurd heq hu
      . exact h.injective i k u hi hk

theorem Served.created (h : w.Served) {poll : Epoll} (hcall : w.mayCall = true) (hpos : 0 < n)
    (hfile : w.files n = none) (hstale : w.isStale n = false) (hbackend : Backend poll)
    (hbinds : Binds { w.poll with kernel := w.poll.kernel.open n } poll n w.next id)
    : (w.created poll n).Served := by
  have hfresh := h.objects.fresh w.next (Nat.le_refl _)
  have hpc := mayCall_buffersOf hcall id
  have hmap : poll.fdToEventInfo = Function.update w.poll.fdToEventInfo n (some id) := hbinds.map
  have hkernel : poll.kernel = w.poll.kernel.open n := hbinds.kernel
  have hid : ∀ m, m ≠ n → w.poll.fdToEventInfo m ≠ some id := by
    intro m hm hid
    rcases hbinds.known with hknown | ⟨-, heq⟩
    . exact h.backend.id_ne hknown hid hm rfl
    . exact Nat.lt_irrefl _ (heq ▸ (h.backend.listed.map m id hid).1)
  have hdue : id ∉ w.pc.due := by
    intro hmem
    rcases hbinds.known with hknown | ⟨hnone, heq⟩
    . have hknown : w.poll.fdToEventInfo n = some id := hknown
      simp only [isStale, hknown, Option.any_some, Bool.or_eq_false_iff] at hstale
      exact absurd (List.contains_iff_mem.mpr hmem) (by rw [hstale.2]; decide)
    . obtain ⟨m, hm⟩ := h.reported id hmem
      exact Nat.lt_irrefl _ (heq ▸ (h.backend.listed.map m id hm).1)
  refine h.touch (?_ : Apart w _ n w.next id) hid (fun m _ => h.objects.files_ne_next m) ?_ ?_ ?_ hbackend ?_ h.nodup
    ?_ ?_ ?_
  . constructor
    case timers =>
      intro u hu
      rw [created_timers, if_neg hu]
    case infos => exact hbinds.others
    case changes => exact hbinds.changes
    case map =>
      intro m hm
      exact (congrFun hmap m).trans (Function.update_of_ne hm ..)
    case interest =>
      intro m _
      change poll.kernel.interest m = _
      rw [hkernel]
      rfl
    case isOpen =>
      intro m hm
      change poll.kernel.isOpen m = _
      rw [hkernel]
      exact Function.update_of_ne hm ..
    all_goals
      intros
      rfl
  . intro m hm
    exact Function.update_of_ne hm ..
  . intro u hu
    have hu : Function.update w.files n (some w.next) n = some u := hu
    rw [Function.update_self] at hu
    cases hu
    refine ⟨id, hpos, ?_, ?_, ?_⟩
    . rw [created_timers, if_pos rfl]
      exact ⟨rfl, rfl, rfl, rfl⟩
    . change Wired poll n w.next id (w.pc.buffersOf id) (w.pc.isReading id)
      rw [hpc.1, hpc.2]
      refine ⟨?_, ?_, hbinds.ofTimer, hbinds.armed, hbinds.isReadable, .inr ⟨?_, hbinds.listed⟩⟩
      . rw [hkernel]
        exact Function.update_self ..
      . rw [hmap, Function.update_self]
      . rw [hkernel]
        exact (h.unused n hfile).interest
    . have hstage : stage w.next w.log = 0 := h.logged.silent w.next (by rw [hfresh])
      rw [created_timers, if_pos rfl]
      change Tracked _ _ (id ∈ w.pc.due) (stage w.next w.log)
      rw [hstage]
      exact ⟨fun hmem => absurd hmem hdue, fun hpos => absurd hpos (Nat.lt_irrefl 0), by simp, .inl (Nat.zero_le _)⟩
  . intro hnone
    have hnone : Function.update w.files n (some w.next) n = none := hnone
    rw [Function.update_self] at hnone
    cases hnone
  . exact h.objects.created poll hfile
  . intro j hj
    obtain ⟨m, hm⟩ := h.reported j hj
    by_cases heq : m = n
    . refine ⟨n, ?_⟩
      change poll.fdToEventInfo n = some j
      rw [heq] at hm
      rw [hmap, Function.update_self]
      rcases hbinds.known with hknown | ⟨hnone, -⟩
      . exact hknown.symm.trans hm
      . cases hnone.symm.trans hm
    . refine ⟨m, ?_⟩
      change poll.fdToEventInfo m = some j
      rw [hmap, Function.update_of_ne heq]
      exact hm
  . refine ⟨?_, ?_, h.logged.prompt⟩
    . intro u hu
      rw [created_timers] at hu
      split at hu
      . cases hu
      . exact h.logged.silent u hu
    . intro u
      have hcounted := h.logged.counted u
      rw [created_timers]
      split
      . next heq =>
        rw [heq, hfresh] at hcounted
        rw [heq]
        exact hcounted
      . exact hcounted
  . refine h.phase.call (mayCall_pc hcall).1 (mayCall_pc hcall).2 ?_
    intro m u p _ hm hp
    have hne : m ≠ n := by
      rintro rfl
      rw [hfile] at hm
      cases hm
    constructor
    . exact (Function.update_of_ne hne ..).trans hm
    . change poll.fdToEventInfo m = some p.id
      rw [hmap, Function.update_of_ne hne]
      exact hp

theorem Served.createTimer (h : w.Served) (hcall : w.mayCall = true) {intervalS intervalNs : UInt64} {cb : Bool}
    {answers : OpenAnswers} (hpossible : answers.possible w = true)
    (hok : w.misuses (.createTimer intervalS intervalNs cb answers) = false)
    : (w.createTimer intervalS intervalNs cb answers).1.Served := by
  rcases h.createTimer_cases hpossible hok with
    heq | ⟨fd, heq⟩ | ⟨n, poll, id, hpos, hfile, hstale, hbackend, hbinds, heq⟩
  . rw [heq]
    exact h
  . rw [heq]
    exact h.release_next fd
  . rw [heq]
    exact h.created hcall hpos hfile hstale hbackend hbinds

-- The state after a timer has been closed outside of its handler.
def closed (w : Timers) (poll : Epoll) (n t : Nat) (timerId : UInt32) : Timers :=
  { w with
    poll
    timers := Function.update w.timers t
      { w.timers t with isActive := false, hasHandler := false, fd := none, destroyed := true }
    idToTimer := Function.update w.idToTimer timerId none
    files := Function.update w.files n none
    log := w.log ++ [.closes t] }

theorem closed_timers (w : Timers) (poll : Epoll) (n t : Nat) (timerId : UInt32) (u : Nat)
    : (w.closed poll n t timerId).timers u =
        if u = t then { w.timers t with isActive := false, hasHandler := false, fd := none, destroyed := true }
        else w.timers u :=
  Function.update_apply ..

theorem Served.closeTimer_cases (h : w.Served) (timerId : UInt32)
    : (w.closeTimer timerId).1 = w
      ∨ ∃ n t id poll, w.files n = some t ∧ w.idToTimer timerId = some t ∧ w.Serves n t id
        ∧ Backend poll ∧ Unbinds { w.poll with kernel := w.poll.kernel.close n } poll n id
        ∧ (w.closeTimer timerId).1 = w.closed poll n t timerId := by
  unfold Timers.closeTimer
  split
  . exact .inl rfl
  . next t ht =>
    right
    obtain ⟨n, hfd⟩ := Option.ne_none_iff_exists'.mp (h.objects.ids timerId t ht)
    have hfile := (h.objects.owner n t).mpr hfd
    obtain ⟨id, hserves⟩ := h.opened n t hfile
    have hlisted : ({ w.poll with kernel := w.poll.kernel.close n } : Epoll).Listed w.poll.evtChangeLst :=
      h.backend.listed.of_fields rfl rfl (fun _ => rfl) (fun _ => rfl)
    have hknown := hserves.wired.known
    obtain ⟨poll, hcancel, hunbinds⟩ := cancelAsyncRead_unbinds (s := { w.poll with kernel := w.poll.kernel.close n })
      h.backend.isInited hserves.pos hknown hserves.wired.ofTimer hserves.wired.armed.reading
      (h.backend.listed.flag n id hknown).mp
    refine ⟨n, t, id, poll, hfile, ht, hserves, ?_, hunbinds, ?_⟩
    . refine ⟨hlisted.updates (Epoll.cancelAsyncRead_updates hcancel), ?_, ?_, ?_⟩
      . exact hunbinds.isInited.trans h.backend.isInited
      . rw [hunbinds.kernel]
        exact h.backend.ctlErrs
      . exact hunbinds.readyEvents.trans h.backend.readyEvents
    . have hmap : poll.fdToEventInfo n = some id := by
        rw [hunbinds.map]
        exact hknown
      have hcallback : (poll.infos id).action.readBufIdxCallback = none := hunbinds.callback
      have hclose : w.close t = { w with
          poll
          timers := Function.update w.timers t { w.timers t with isActive := false, hasHandler := false, fd := none }
          files := Function.update w.files n none
          log := w.log ++ [.closes t] } := by
        simp [close, hfd, hserves.alive.hasPoll, hcancel, modifyTimer, addLog]
      simp [hclose, hfd, release, hmap, hcallback, modifyTimer, closed]

theorem Objects.closed (h : Objects w) (poll : Epoll) {timerId : UInt32} (hfile : w.files n = some t)
    (ht : w.idToTimer timerId = some t)
    : Objects (w.closed poll n t timerId) := by
  have hid : ∀ i u, Function.update w.idToTimer timerId none i = some u → w.idToTimer i = some u ∧ u ≠ t := by
    intro i u hi
    rw [Function.update_apply] at hi
    split at hi
    . cases hi
    . next hne =>
      refine ⟨hi, ?_⟩
      rintro rfl
      exact hne (h.injective i timerId u hi ht)
  refine ⟨?_, ?_, ?_, ?_⟩
  . intro m u
    rw [closed_timers]
    change Function.update w.files n none m = some u ↔ _
    rw [Function.update_apply]
    split
    . next hm =>
      split
      . simp
      . next hu =>
        refine iff_of_false nofun ?_
        rw [← h.owner, hm, hfile]
        exact fun heq => hu (Option.some.inj heq).symm
    . next hm =>
      split
      . next hu =>
        refine iff_of_false ?_ nofun
        rw [hu]
        exact fun hmt => h.timer_ne hfile hmt hm rfl
      . exact h.owner m u
  . intro u hu
    rw [closed_timers, if_neg]
    . exact h.fresh u hu
    . rintro rfl
      have hfd := (h.owner n u).mp hfile
      rw [h.fresh u hu] at hfd
      cases hfd
  . intro i u hi
    obtain ⟨hi, hu⟩ := hid i u hi
    rw [closed_timers, if_neg hu]
    exact h.ids i u hi
  . intro i k u hi hk
    exact h.injective i k u (hid i u hi).1 (hid k u hk).1

theorem Served.closed (h : w.Served) {poll : Epoll} {timerId : UInt32} (hcall : w.mayCall = true)
    (hnot : ∀ p, w.pc ≠ .handler t p) (hfile : w.files n = some t) (ht : w.idToTimer timerId = some t)
    (hserves : w.Serves n t id) (hbackend : Backend poll)
    (hunbinds : Unbinds { w.poll with kernel := w.poll.kernel.close n } poll n id)
    : (w.closed poll n t timerId).Served := by
  have hothers := h.others hfile hserves.wired.known
  have hmap : poll.fdToEventInfo = w.poll.fdToEventInfo := hunbinds.map
  have hkernel : poll.kernel = w.poll.kernel.close n := hunbinds.kernel
  have hstage : ∀ u, stage u (w.log ++ [.closes t]) = if u = t then 0 else stage u w.log := by
    intro u
    simp [stageStep, eq_comm]
  refine h.touch (?_ : Apart w _ n t id) hothers.1 hothers.2 ?_ ?_ ?_ hbackend (h.objects.closed poll hfile ht) h.nodup
    ?_ ?_ ?_
  . constructor
    case timers =>
      intro u hu
      rw [closed_timers, if_neg hu]
    case infos => exact hunbinds.others
    case changes => exact hunbinds.changes
    case map => exact fun m _ => congrFun hmap m
    case interest =>
      intro m hm
      change poll.kernel.interest m = _
      rw [hkernel]
      exact Function.update_of_ne hm ..
    case isOpen =>
      intro m hm
      change poll.kernel.isOpen m = _
      rw [hkernel]
      exact Function.update_of_ne hm ..
    case stage =>
      intro u hu
      exact (hstage u).trans (if_neg hu)
    all_goals
      intros
      rfl
  . intro m hm
    exact Function.update_of_ne hm ..
  . intro u hu
    have hu : Function.update w.files n none n = some u := hu
    rw [Function.update_self] at hu
    cases hu
  . intro _
    have hid : ∀ j, poll.fdToEventInfo n = some j → j = id := by
      intro j hj
      rw [hmap, hserves.wired.known] at hj
      exact (Option.some.inj hj).symm
    refine ⟨?_, ?_, ?_, ?_⟩
    . change poll.kernel.interest n = none
      rw [hkernel]
      exact Function.update_self ..
    . rintro j hj
      rw [hid j hj]
      exact hunbinds.ofTimer hserves.wired.ofTimer
    . rintro j hj
      rw [hid j hj]
      exact hunbinds.vacant
    . rintro j hj
      rw [hid j hj]
      exact hunbinds.listed
  . change ∀ j ∈ w.pc.due, ∃ m, poll.fdToEventInfo m = some j
    rw [hmap]
    exact h.reported
  . refine ⟨?_, ?_, h.logged.prompt.append_of_ne (by simp)⟩
    . intro u hu
      refine (hstage u).trans ?_
      split
      . rfl
      . next hne =>
        rw [closed_timers, if_neg hne] at hu
        exact h.logged.silent u hu
    . intro u
      have hcounter : ((w.closed poll n t timerId).timers u).counter = (w.timers u).counter := by
        rw [closed_timers]
        split
        . next hu => rw [hu]
        . rfl
      change expirations u (w.log ++ [.closes t]) = handed u (w.log ++ [.closes t]) + _
      rw [hcounter, expirations_append, handed_append]
      simpa [handed] using h.logged.counted u
  . refine h.phase.call (mayCall_pc hcall).1 (mayCall_pc hcall).2 ?_
    intro m u p hpc hm hp
    have hne : m ≠ n := by
      rintro rfl
      rw [hfile] at hm
      cases hm
      exact hnot p hpc
    constructor
    . exact (Function.update_of_ne hne ..).trans hm
    . change poll.fdToEventInfo m = some p.id
      rw [hmap]
      exact hp

theorem Served.closeTimer (h : w.Served) (hcall : w.mayCall = true) {timerId : UInt32}
    (hok : w.misuses (.closeTimer timerId) = false)
    : (w.closeTimer timerId).1.Served := by
  rcases h.closeTimer_cases timerId with heq | ⟨n, t, id, poll, hfile, ht, hserves, hbackend, hunbinds, heq⟩
  . rw [heq]
    exact h
  . rw [heq]
    refine h.closed hcall ?_ hfile ht hserves hbackend hunbinds
    intro p hpc
    simp [misuses, hpc, ht] at hok

end Timers

end Event
end Ezio
