import Ezio.Event.Timer.Backend

/-!
This module contains the invariant of the timers: a read is pending for every open timer, and its event is queued or
under way whenever it has expired and nobody has read how often.
-/

namespace Ezio
namespace Event
namespace Timers

variable {w w' : Timers} {m n t u id j : Nat}

section Fields

variable (w : Timers) (e : Entry) (t u : Nat) (f : Timer → Timer) (g : EventAction → EventAction)

@[simp] theorem addLog_poll : (w.addLog e).poll = w.poll := rfl
@[simp] theorem addLog_timers : (w.addLog e).timers = w.timers := rfl
@[simp] theorem addLog_files : (w.addLog e).files = w.files := rfl
@[simp] theorem addLog_next : (w.addLog e).next = w.next := rfl
@[simp] theorem addLog_idToTimer : (w.addLog e).idToTimer = w.idToTimer := rfl
@[simp] theorem addLog_pc : (w.addLog e).pc = w.pc := rfl
@[simp] theorem addLog_log : (w.addLog e).log = w.log ++ [e] := rfl

@[simp] theorem modifyTimer_poll : (w.modifyTimer t f).poll = w.poll := rfl
@[simp] theorem modifyTimer_files : (w.modifyTimer t f).files = w.files := rfl
@[simp] theorem modifyTimer_next : (w.modifyTimer t f).next = w.next := rfl
@[simp] theorem modifyTimer_idToTimer : (w.modifyTimer t f).idToTimer = w.idToTimer := rfl
@[simp] theorem modifyTimer_pc : (w.modifyTimer t f).pc = w.pc := rfl
@[simp] theorem modifyTimer_log : (w.modifyTimer t f).log = w.log := rfl

@[simp]
theorem modifyTimer_timers : (w.modifyTimer t f).timers u = if u = t then f (w.timers t) else w.timers u :=
  Function.update_apply ..

@[simp] theorem modifyAction_poll : (w.modifyAction id g).poll = w.poll.modifyAction id g := rfl
@[simp] theorem modifyAction_timers : (w.modifyAction id g).timers = w.timers := rfl
@[simp] theorem modifyAction_files : (w.modifyAction id g).files = w.files := rfl
@[simp] theorem modifyAction_next : (w.modifyAction id g).next = w.next := rfl
@[simp] theorem modifyAction_idToTimer : (w.modifyAction id g).idToTimer = w.idToTimer := rfl
@[simp] theorem modifyAction_pc : (w.modifyAction id g).pc = w.pc := rfl
@[simp] theorem modifyAction_log : (w.modifyAction id g).log = w.log := rfl

end Fields

/-! ### What the log says -/

-- `1` is a timer that has expired and whose handler has not been called since, `2` one that `epoll_wait` has looked at.
def stageStep (t n : Nat) : Entry → Nat
  | .expires u => if u = t then max n 1 else n
  | .harvests ts => if n = 1 ∧ t ∈ ts then 2 else n
  | .handles u _ | .closes u => if u = t then 0 else n
  | .returns => n

def stage (t : Nat) (l : List Entry) : Nat :=
  l.foldl (stageStep t) 0

@[simp]
theorem stage_append (t : Nat) (l : List Entry) (e : Entry)
    : stage t (l ++ [e]) = stageStep t (stage t l) e := by
  simp [stage]

-- How often the timer has expired.
def expirations (t : Nat) (l : List Entry) : Nat :=
  (l.filter (· = .expires t)).length

@[simp]
theorem expirations_append (t : Nat) (l : List Entry) (e : Entry)
    : expirations t (l ++ [e]) = expirations t l + if e = .expires t then 1 else 0 := by
  unfold expirations
  by_cases h : e = .expires t <;> simp [h]

-- How many expirations its handler has been told of.
def handed (t : Nat) : List Entry → Nat
  | [] => 0
  | .handles u count :: l => (if u = t then count else 0) + handed t l
  | _ :: l => handed t l

theorem handed_append (t : Nat) (l l' : List Entry)
    : handed t (l ++ l') = handed t l + handed t l' := by
  fun_induction handed t l with
  | case1 => simp
  | case2 u count l ih => simp [handed, ih, Nat.add_assoc]
  | case3 e l hne ih => simp [handed, ih]

-- No timer that `epoll_wait` has looked at is forgotten when `dispatch` returns.
def Prompt (l : List Entry) : Prop :=
  ∀ t l₁ l₂, l = l₁ ++ Entry.returns :: l₂ → stage t l₁ ≤ 1

theorem Prompt.append {l : List Entry} (h : Prompt l) {e : Entry} (hreturns : e = .returns → ∀ t, stage t l ≤ 1)
    : Prompt (l ++ [e]) := by
  intro t l₁ l₂ heq
  rcases List.eq_nil_or_concat l₂ with rfl | ⟨l₃, e', rfl⟩
  . obtain ⟨rfl, he⟩ := List.append_inj' heq rfl
    exact hreturns (List.cons.inj he).1 t
  . rw [List.concat_eq_append, ← List.cons_append, ← List.append_assoc] at heq
    obtain ⟨heq', -⟩ := List.append_inj' heq rfl
    exact h t l₁ l₃ heq'

theorem Prompt.append_of_ne {l : List Entry} (h : Prompt l) {e : Entry} (hne : e ≠ .returns)
    : Prompt (l ++ [e]) := h.append fun heq => absurd heq hne

/-! ### The invariant -/

def Caller.rest : Caller → List Nat
  | dispatch rest => rest
  | doReadyTasks _ => []

-- The actions that have been reported and whose files have not been read since.
def Pc.due : Pc → List Nat
  | reported ids => ids
  | readTask p => p.id :: p.caller.rest
  | handler _ p | popTask p => p.caller.rest
  | outside | waiting | readyTasks _ | faulted _ => []

def Pc.isReading (id : Nat) : Pc → Bool
  | readTask p => p.id = id
  | _ => false

-- A task that has been done is still in front of the queue while the next one is added.
def Pc.buffersOf (id : Nat) : Pc → List (List Iovec)
  | popTask p => if p.id = id then [iov, iov] else [iov]
  | _ => [iov]

-- The `event_info` of the timer that had the number is still in use, and it is marked readable from an earlier report
-- or has been reported in this `dispatch`.
def isStale (w : Timers) (n : Nat) : Bool :=
  (w.poll.fdToEventInfo n).any fun id => (w.poll.action id).isReadable || w.pc.due.contains id

-- The calls after which the code crashes or a timer stands still: a `timer` whose `open` fails with a file, the number
-- that `cancel_async_read` refuses, a number that comes back too early, and a timer that is closed by its own handler.
def misuses (w : Timers) : Action → Bool
  | .createTimer intervalS intervalNs _ answers =>
    answers.fd.any fun n => n = 0 || !answers.nonblocking || !settime intervalS intervalNs || w.isStale n
  | .closeTimer timerId =>
    match w.pc with
    | .handler t _ => w.idToTimer timerId = some t
    | _ => false
  | .expire _ | .tick _ => false

-- The object of an open timer.
structure Alive (r : Timer) : Prop where
  isActive : r.isActive = true
  hasPoll : r.hasPoll = true
  hasHandler : r.hasHandler = true
  destroyed : r.destroyed = false

-- The `event_info` at `id` reads the file `n` for the timer `t`.
structure Wired (s : Epoll) (n t id : Nat) (bufs : List (List Iovec)) (readable : Bool) : Prop where
  isOpen : s.kernel.isOpen n = true
  known : s.fdToEventInfo n = some id
  ofTimer : OfTimer (s.infos id) n
  armed : Armed (s.infos id) t bufs
  isReadable : (s.infos id).action.isReadable = readable
  registered : (∃ mask, s.kernel.interest n = some (mask, id) ∧ mask.read = true)
    ∨ s.kernel.interest n = none ∧ id ∈ s.evtChangeLst

-- A timer that has expired will be reported, or it has been reported and its file is about to be read.
structure Tracked (r : Timer) (isListed isDue : Prop) (stage : Nat) : Prop where
  due : isDue → 0 < r.counter
  wakes : 0 < r.counter → r.edge = true ∨ isListed ∨ isDue
  unread : 1 ≤ stage ↔ 0 < r.counter
  late : stage ≤ 1 ∨ isDue

-- The number `n` and the `event_info` at `id` belong to the open timer `t`.
structure Serves (w : Timers) (n t id : Nat) : Prop where
  pos : 0 < n
  alive : Alive (w.timers t)
  wired : Wired w.poll n t id (w.pc.buffersOf id) (w.pc.isReading id)
  tracked : Tracked (w.timers t) (id ∈ w.poll.evtChangeLst) (id ∈ w.pc.due) (stage t w.log)

-- No open timer has the number.
structure Unused (w : Timers) (n : Nat) : Prop where
  interest : w.poll.kernel.interest n = none
  ofTimer : ∀ id, w.poll.fdToEventInfo n = some id → OfTimer (w.poll.infos id) n
  vacant : ∀ id, w.poll.fdToEventInfo n = some id → Vacant (w.poll.infos id)
  listed : ∀ id, w.poll.fdToEventInfo n = some id → id ∈ w.poll.evtChangeLst

-- Where the thread of the loop may be.
inductive Phase (w : Timers) : Pc → Prop where
  | outside : Phase w .outside
  | waiting (hlst : w.poll.evtChangeLst = []) : Phase w .waiting
  | reported (ids : List Nat) : Phase w (.reported ids)
  | readTask (id n t : Nat) (rest : List Nat) (hfile : w.files n = some t) (hid : w.poll.fdToEventInfo n = some id)
    : Phase w (.readTask ⟨id, 1, .dispatch rest⟩)
  | handler (id n t : Nat) (rest : List Nat) (hfile : w.files n = some t) (hid : w.poll.fdToEventInfo n = some id)
    : Phase w (.handler t ⟨id, 1, .dispatch rest⟩)
  | popTask (id n t : Nat) (rest : List Nat) (hfile : w.files n = some t) (hid : w.poll.fdToEventInfo n = some id)
    : Phase w (.popTask ⟨id, 1, .dispatch rest⟩)
  | readyTasks : Phase w (.readyTasks 0)

-- The backend without what is about one number.
structure Backend (s : Epoll) : Prop where
  listed : s.Listed s.evtChangeLst
  isInited : s.isInited = true
  ctlErrs : s.kernel.ctlErrs = []
  readyEvents : s.readyEvents = []

structure Objects (w : Timers) : Prop where
  owner : ∀ n t, w.files n = some t ↔ (w.timers t).fd = some n
  fresh : ∀ t, w.next ≤ t → w.timers t = {}
  ids : ∀ i t, w.idToTimer i = some t → (w.timers t).fd ≠ none
  injective : ∀ i k t, w.idToTimer i = some t → w.idToTimer k = some t → i = k

structure Logged (w : Timers) : Prop where
  silent : ∀ t, (w.timers t).fd = none → stage t w.log = 0
  counted : ∀ t, expirations t w.log = handed t w.log + (w.timers t).counter
  prompt : Prompt w.log

structure Served (w : Timers) : Prop where
  backend : Backend w.poll
  objects : Objects w
  opened : ∀ n t, w.files n = some t → ∃ id, w.Serves n t id
  unused : ∀ n, w.files n = none → w.Unused n
  nodup : w.pc.due.Nodup
  reported : ∀ id ∈ w.pc.due, ∃ n, w.poll.fdToEventInfo n = some id
  logged : Logged w
  phase : Phase w w.pc

theorem init_served : Served {} := by
  refine ⟨⟨Epoll.Listed.init _, rfl, rfl, rfl⟩, ⟨?_, fun _ _ => rfl, ?_, ?_⟩, ?_, ?_, List.nodup_nil, ?_,
    ⟨fun _ _ => rfl, fun _ => rfl, ?_⟩, .outside⟩
  . intro n t
    exact ⟨nofun, nofun⟩
  . exact nofun
  . exact nofun
  . exact nofun
  . intro n _
    exact ⟨rfl, nofun, nofun, nofun⟩
  . exact nofun
  . intro t l₁ l₂ heq
    cases l₁ <;> cases heq

theorem Phase.of_same {pc : Pc} (h : Phase w pc) (hfiles : w'.files = w.files)
    (hmap : w'.poll.fdToEventInfo = w.poll.fdToEventInfo) (hlst : w'.poll.evtChangeLst = w.poll.evtChangeLst)
    : Phase w' pc := by
  cases h with
  | outside => exact .outside
  | waiting hempty => exact .waiting (hlst.trans hempty)
  | reported ids => exact .reported ids
  | readTask id n t rest hfile hid => exact .readTask id n t rest (hfiles ▸ hfile) (hmap ▸ hid)
  | handler id n t rest hfile hid => exact .handler id n t rest (hfiles ▸ hfile) (hmap ▸ hid)
  | popTask id n t rest hfile hid => exact .popTask id n t rest (hfiles ▸ hfile) (hmap ▸ hid)
  | readyTasks => exact .readyTasks

-- Where the code of the user runs, only the timer whose handler it is matters.
theorem Phase.call {pc : Pc} (h : Phase w pc) (hcall : ∀ p, pc ≠ .readTask p ∧ pc ≠ .popTask p) (hwait : pc ≠ .waiting)
    (hkept : ∀ n t p, pc = .handler t p → w.files n = some t → w.poll.fdToEventInfo n = some p.id
      → w'.files n = some t ∧ w'.poll.fdToEventInfo n = some p.id)
    : Phase w' pc := by
  cases h with
  | outside => exact .outside
  | waiting hempty => exact absurd rfl hwait
  | reported ids => exact .reported ids
  | readTask id n t rest hfile hid => exact absurd rfl (hcall _).1
  | handler id n t rest hfile hid =>
    have hkept := hkept n t _ rfl hfile hid
    exact .handler id n t rest hkept.1 hkept.2
  | popTask id n t rest hfile hid => exact absurd rfl (hcall _).2
  | readyTasks => exact .readyTasks

-- Two numbers do not share an `event_info`.
theorem Backend.id_ne {s : Epoll} (h : Backend s) (hi : s.fdToEventInfo n = some id) (hj : s.fdToEventInfo m = some j)
    (hne : m ≠ n)
    : j ≠ id := by
  rintro rfl
  exact hne ((h.listed.map m j hj).2.symm.trans (h.listed.map n j hi).2)

-- An open timer has one number.
theorem Objects.timer_ne (h : Objects w) (hn : w.files n = some t) (hm : w.files m = some u) (hne : m ≠ n)
    : u ≠ t := by
  rintro rfl
  exact hne (Option.some.inj (((h.owner m u).mp hm).symm.trans ((h.owner n u).mp hn)))

theorem Served.serves (h : w.Served) (hfile : w.files n = some t) (hid : w.poll.fdToEventInfo n = some id)
    : w.Serves n t id := by
  obtain ⟨j, hserves⟩ := h.opened n t hfile
  rw [hserves.wired.known] at hid
  cases hid
  exact hserves

theorem Objects.of_fields (h : Objects w) (hfiles : w'.files = w.files) (hnext : w'.next = w.next)
    (hids : w'.idToTimer = w.idToTimer) (hfds : ∀ t, (w'.timers t).fd = (w.timers t).fd)
    (hfresh : ∀ t, w.timers t = {} → w'.timers t = {})
    : Objects w' := by
  constructor
  . intro n t
    rw [hfiles, hfds]
    exact h.owner n t
  . rw [hnext]
    exact fun t ht => hfresh t (h.fresh t ht)
  . intro i t hi
    rw [hids] at hi
    rw [hfds]
    exact h.ids i t hi
  . rw [hids]
    exact h.injective

/-! ### What a step leaves alone -/

-- A step that is about the timer `t`, its number and its `event_info`.
structure Apart (w w' : Timers) (n t id : Nat) : Prop where
  map : ∀ m, m ≠ n → w'.poll.fdToEventInfo m = w.poll.fdToEventInfo m
  infos : ∀ j, j ≠ id → w'.poll.infos j = w.poll.infos j
  interest : ∀ m, m ≠ n → w'.poll.kernel.interest m = w.poll.kernel.interest m
  isOpen : ∀ m, m ≠ n → w'.poll.kernel.isOpen m = w.poll.kernel.isOpen m
  changes : ∀ j, j ∈ w.poll.evtChangeLst → j ∈ w'.poll.evtChangeLst
  timers : ∀ u, u ≠ t → w'.timers u = w.timers u
  buffers : ∀ j, j ≠ id → w'.pc.buffersOf j = w.pc.buffersOf j
  reading : ∀ j, j ≠ id → w'.pc.isReading j = w.pc.isReading j
  due : ∀ j, j ≠ id → (j ∈ w'.pc.due ↔ j ∈ w.pc.due)
  stage : ∀ u, u ≠ t → Timers.stage u w'.log = Timers.stage u w.log

theorem Wired.apart {s s' : Epoll} {bufs : List (List Iovec)} {readable : Bool} (h : Wired s m u j bufs readable)
    (hmap : s'.fdToEventInfo m = s.fdToEventInfo m) (hinfos : s'.infos j = s.infos j)
    (hinterest : s'.kernel.interest m = s.kernel.interest m) (hopen : s'.kernel.isOpen m = s.kernel.isOpen m)
    (hchanges : j ∈ s.evtChangeLst → j ∈ s'.evtChangeLst)
    : Wired s' m u j bufs readable := by
  refine ⟨hopen ▸ h.isOpen, hmap ▸ h.known, hinfos ▸ h.ofTimer, hinfos ▸ h.armed, hinfos ▸ h.isReadable, ?_⟩
  rw [hinterest]
  exact h.registered.imp_right fun hlst => ⟨hlst.1, hchanges hlst.2⟩

theorem Serves.apart (h : w.Serves m u j) (hw : Apart w w' n t id) (hm : m ≠ n) (hu : u ≠ t) (hj : j ≠ id)
    : w'.Serves m u j := by
  constructor
  . exact h.pos
  . rw [hw.timers u hu]
    exact h.alive
  . rw [hw.buffers j hj, hw.reading j hj]
    exact h.wired.apart (hw.map m hm) (hw.infos j hj) (hw.interest m hm) (hw.isOpen m hm) (hw.changes j)
  . rw [hw.timers u hu, hw.stage u hu, hw.due j hj]
    have htracked := h.tracked
    refine ⟨htracked.due, ?_, htracked.unread, htracked.late⟩
    exact fun hcounter => (htracked.wakes hcounter).imp_right (Or.imp_left (hw.changes j))

theorem Unused.apart (h : w.Unused m) (hw : Apart w w' n t id) (hm : m ≠ n)
    (hne : ∀ j, w.poll.fdToEventInfo m = some j → j ≠ id)
    : w'.Unused m := by
  constructor
  . rw [hw.interest m hm]
    exact h.interest
  all_goals
    intro j hj
    rw [hw.map m hm] at hj
  . rw [hw.infos j (hne j hj)]
    exact h.ofTimer j hj
  . rw [hw.infos j (hne j hj)]
    exact h.vacant j hj
  . exact hw.changes j (h.listed j hj)

-- What belongs to the other numbers is as it was.
theorem Served.touch (h : w.Served) (hw : Apart w w' n t id)
    (hid : ∀ m, m ≠ n → w.poll.fdToEventInfo m ≠ some id) (ht : ∀ m, m ≠ n → w.files m ≠ some t)
    (hfiles : ∀ m, m ≠ n → w'.files m = w.files m) (hopened : ∀ u, w'.files n = some u → ∃ j, w'.Serves n u j)
    (hunused : w'.files n = none → w'.Unused n) (hbackend : Backend w'.poll) (hobjects : Objects w')
    (hnodup : w'.pc.due.Nodup) (hreported : ∀ j ∈ w'.pc.due, ∃ m, w'.poll.fdToEventInfo m = some j)
    (hlogged : Logged w') (hphase : Phase w' w'.pc)
    : w'.Served := by
  refine ⟨hbackend, hobjects, ?_, ?_, hnodup, hreported, hlogged, hphase⟩
  . intro m u hfile
    by_cases hm : m = n
    . rw [hm] at hfile ⊢
      exact hopened u hfile
    . rw [hfiles m hm] at hfile
      obtain ⟨j, hserves⟩ := h.opened m u hfile
      refine ⟨j, hserves.apart hw hm ?_ ?_⟩
      . rintro rfl
        exact ht m hm hfile
      . rintro rfl
        exact hid m hm hserves.wired.known
  . intro m hfile
    by_cases hm : m = n
    . rw [hm] at hfile ⊢
      exact hunused hfile
    . rw [hfiles m hm] at hfile
      refine (h.unused m hfile).apart hw hm ?_
      rintro j hj rfl
      exact hid m hm hj

theorem Served.others (h : w.Served) (hfile : w.files n = some t) (hid : w.poll.fdToEventInfo n = some id)
    : (∀ m, m ≠ n → w.poll.fdToEventInfo m ≠ some id) ∧ (∀ m, m ≠ n → w.files m ≠ some t) := by
  constructor
  . intro m hm hj
    exact h.backend.id_ne hid hj hm rfl
  . intro m hm hu
    exact h.objects.timer_ne hfile hu hm rfl

end Timers

end Event
end Ezio
