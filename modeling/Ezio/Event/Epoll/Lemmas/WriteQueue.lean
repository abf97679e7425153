import Ezio.Event.Epoll.Lemmas.Listed

/-!
This module contains the invariant of the queue of write tasks of a file: while nothing is refused, it
holds the tasks that have not been called back yet in the order they were submitted.
-/

namespace Ezio
namespace Event

open EStateM (Preserves Triple)

-- A write of a buffer with a callback, to be carried out at once.
def Op.writesTo (fd : Fd) : Op → Bool
  | .submitAsyncWrite fd' buf cb opt =>
    fd' = fd && cb.isSome && buf.iov ≠ [] && !buf.isNull && (opt.map (·.isSubmit)).getD true
  | _ => false

-- The task that the entry moves bytes of or calls back.
def Entry.writes : Entry → Option Nat
  | .sent _ task _ _ _ => some task
  | .writeCallback _ _ task _ _ => some task
  | _ => none

def Entry.completes : Entry → Option Nat
  | .writeCallback _ _ task _ _ => some task
  | _ => none

-- Nothing is done for a task before all the tasks submitted earlier have been called back.
def InOrder (log : List Entry) : Prop :=
  ∀ i e t, log[i]? = some e → e.writes = some t → ∀ t' < t, ∃ e' ∈ log.take i, e'.completes = some t'

namespace InOrder

variable {log : List Entry}

theorem nil : InOrder [] := by
  intro i e t he
  simp at he

theorem append_singleton (h : InOrder log) {e : Entry}
    (he : ∀ t, e.writes = some t → ∀ t' < t, ∃ e' ∈ log, e'.completes = some t')
    : InOrder (log ++ [e]) := by
  intro i e' t hi hw t' ht'
  rw [List.getElem?_append] at hi
  split at hi
  next hlt =>
    rw [List.take_append_of_le_length (by omega)]
    exact h i e' t hi hw t' ht'
  next hlt =>
    rw [List.getElem?_singleton] at hi
    split at hi
    next heq =>
      cases hi
      rw [List.take_append_of_le_length (by omega), List.take_of_length_le (by omega)]
      exact he t hw t' ht'
    . cases hi

theorem append (h : InOrder log) {t : Nat} (ht : ∀ t' < t, ∃ e ∈ log, e.completes = some t')
    {es : List Entry} (hes : ∀ e ∈ es, e.writes = none ∨ e.writes = some t)
    : InOrder (log ++ es) := by
  induction es generalizing log with
  | nil =>
    rw [List.append_nil]
    exact h
  | cons e es ih =>
    rw [List.append_cons]
    apply ih
    . apply h.append_singleton
      intro t' hw
      rcases hes e (by simp) with hnone | hsome
      . rw [hnone] at hw
        cases hw
      . rw [hsome] at hw
        cases hw
        exact ht
    . intro t' ht'
      obtain ⟨e', he', hc⟩ := ht t' ht'
      exact ⟨e', List.mem_append_left _ he', hc⟩
    . intro e' he'
      exact hes e' (by simp [he'])

end InOrder

-- What has happened since the pass over the write queue has started, and whether it has been in order
-- up to now: nothing is refused after a callback has submitted another write, and nothing is done for
-- another task after one has been refused. The counter of the pass, a `uint32_t`, reaches the number of tasks.
structure Pass where
  submitted : Bool
  refused : Bool
  ok : Bool
  deriving DecidableEq

def Pass.next (p : Pass) : Entry → Pass
  | .writePass id s .. =>
    { submitted := false, refused := false, ok := p.ok && decide ((s.action id).pendingWriteTask.length < 2 ^ 32) }
  | .call .. => { p with submitted := true }
  | .sent .. | .writeCallback .. => { p with ok := p.ok && !p.refused }
  | .refused .. => { p with refused := true, ok := p.ok && !p.submitted }
  | _ => p

def World.pass (w : World) : Pass := w.log.foldl Pass.next ⟨false, false, true⟩

theorem Pass.ok_of_next {p : Pass} {e : Entry} (h : (p.next e).ok = true) : p.ok = true := by
  unfold Pass.next at h
  split at h <;> simp_all

theorem Pass.ok_of_foldl {p : Pass} {es : List Entry} (h : (es.foldl Pass.next p).ok = true)
    : p.ok = true := by
  induction es generalizing p with
  | nil => exact h
  | cons e es ih => exact Pass.ok_of_next (ih h)

-- The tasks `c`, `c + 1`, … are pending, the first `j` of them have been moved behind the others.
structure Line (c j m : Nat) (w : World) : Prop where
  ids : (w.action 0).pendingWriteTask.map (·.id) = List.range' (c + j) m ++ List.range' c j
  total : c + j + m = w.poll.nextTask
  called : ∀ t < c, ∃ e ∈ w.log, e.completes = some t

-- What else is known about a backend that only writes to `fd`.
structure Writer (fd : Fd) (w : World) : Prop where
  wf : w.poll.Wf
  isInited : w.poll.isInited = true
  one : w.poll.next ≤ 1
  found : (w.poll.next = 0 ∧ (w.action 0).pendingWriteTask = [])
    ∨ (w.poll.fdToEventInfo fd.key = some 0 ∧ (w.action 0).isWriting = true)
  order : InOrder w.log

namespace Epoll

theorem watchWrite_keeps (s : Epoll) (id : Nat)
    : (s.watchWrite id).nextTask = s.nextTask ∧ (s.watchWrite id).next = s.next
        ∧ (s.watchWrite id).isInited = s.isInited := by
  unfold watchWrite pushToChangeList
  split
  . exact ⟨rfl, rfl, rfl⟩
  . split <;> exact ⟨rfl, rfl, rfl⟩

theorem prepareWrite_keeps (s : Epoll) (fd : Fd) (id : Nat) (cb : Callback)
    (opt : Option WriteOptions)
    : (s.prepareWrite fd id (some cb) opt).nextTask = s.nextTask
        ∧ (s.prepareWrite fd id (some cb) opt).next = s.next
        ∧ (s.prepareWrite fd id (some cb) opt).isInited = s.isInited := by
  unfold prepareWrite setWriteOffset
  dsimp only
  split
  . split <;> simp [setWriteCb, watchWrite_keeps]
  . split <;> simp [setWriteCb, watchWrite_keeps]

theorem prepareWrite_writes (s : Epoll) (fd : Fd) (id : Nat) (cb : Callback)
    (opt : Option WriteOptions)
    : ((s.prepareWrite fd id (some cb) opt).infos id).action.pendingWriteTask
          = (s.infos id).action.pendingWriteTask
        ∧ ((s.prepareWrite fd id (some cb) opt).infos id).action.isWriting = true := by
  unfold prepareWrite setWriteOffset
  dsimp only
  split
  . split <;> simp [setWriteCb, EventAction.setWriteCallback, EventAction.isWriting]
  . split <;> simp [setWriteCb, EventAction.setWriteCallback, EventAction.isWriting]

theorem findOrInsert_isInited {s s' : Epoll} {fd : Fd} {id : Nat}
    (hfind : s.findOrInsert fd = .ok (id, s'))
    : s'.isInited = s.isInited := by
  rcases findOrInsert_cases hfind with ⟨_, rfl⟩ | ⟨_, _, _, _, rfl⟩ <;> rfl

end Epoll

namespace Writer

variable {fd : Fd} {w : World} {c m : Nat}

-- The action that the next write goes to.
theorem findOrInsert {id : Nat} {s : Epoll} (h : Writer fd w)
    (hfind : w.poll.findOrInsert fd = .ok (id, s))
    : id = 0 ∧ s.next ≤ 1 ∧ s.nextTask = w.poll.nextTask
        ∧ (s.infos 0).action.pendingWriteTask = (w.action 0).pendingWriteTask := by
  rcases Epoll.findOrInsert_cases hfind with ⟨hmap, rfl⟩ | ⟨hmap, rfl, info, hinfo, rfl⟩
  . refine ⟨?_, h.one, rfl, rfl⟩
    have := (h.wf.map _ _ hmap).1
    have := h.one
    omega
  . rcases h.found with ⟨hnext, hnone⟩ | ⟨hsome, _⟩
    . refine ⟨hnext, ?_, rfl, ?_⟩
      . show w.poll.next + 1 ≤ 1
        omega
      . rw [Epoll.insert_infos, if_pos hnext.symm, EventInfo.new_eq_ok hinfo, hnone]
        simp [EventAction.blank]
    . rw [hmap] at hsome
      cases hsome

theorem exec (h : Writer fd w) (hline : Line c 0 m w) (hfd : 0 ≤ fd.num) {op : Op}
    (hop : op.writesTo fd = true) {r : Int} {s : Epoll} (hs : w.poll.exec op = .ok (r, s))
    : Writer fd { w.addLog [Entry.call op w.poll] with poll := s }
        ∧ Line c 0 (m + 1) { w.addLog [Entry.call op w.poll] with poll := s } := by
  have hwf := h.wf.updates (Epoll.exec_updates hs)
  have horder : InOrder (w.log ++ [Entry.call op w.poll]) :=
    h.order.append_singleton (fun t ht => by cases ht)
  cases op with
  | submitAsyncWrite fd' buf cb opt =>
    simp only [Op.writesTo, Bool.and_eq_true, decide_eq_true_eq] at hop
    obtain ⟨⟨⟨⟨rfl, hcb⟩, hiov⟩, hnull⟩, hsub⟩ := hop
    obtain ⟨cb, rfl⟩ := Option.isSome_iff_exists.mp hcb
    replace hs : w.poll.submitAsyncWrite fd' buf (some cb) opt = .ok (r, s) := hs
    unfold Epoll.submitAsyncWrite at hs
    split at hs
    next hrej =>
      simp only [Bool.not_eq_true'] at hnull
      simp only [h.isInited, hnull, Bool.not_true, Bool.and_false, Bool.or_false, Bool.false_or,
        decide_eq_true_eq] at hrej
      omega
    . obtain ⟨⟨i, s₁⟩, hfind, hs⟩ := Except.bind_eq_ok hs
      obtain ⟨rfl, hnext, htask, hpending⟩ := h.findOrInsert hfind
      have hmap := Epoll.findOrInsert_map hfind
      obtain ⟨hwrites, hwriting⟩ := Epoll.prepareWrite_writes s₁ fd' 0 cb opt
      obtain ⟨hkeeptask, hkeepnext, hkeepinit⟩ := Epoll.prepareWrite_keeps s₁ fd' 0 cb opt
      have hinit : s₁.isInited = w.poll.isInited := Epoll.findOrInsert_isInited hfind
      rw [hsub] at hs
      cases hs
      have hsame := Epoll.SameReg.queueWrite (s₁.prepareWrite fd' 0 (some cb) opt) 0
        { id := (s₁.prepareWrite fd' 0 (some cb) opt).nextTask, buffer := buf.iov,
          sockaddr := if fd'.type = .udp then opt.bind (·.sockaddr) else none,
          needSockDetail := false } true
      refine ⟨⟨hwf, ?_, ?_, .inr ⟨?_, ?_⟩, horder⟩, ?_, ?_, ?_⟩
      . exact hsame.isInited.trans (hkeepinit.trans (hinit.trans h.isInited))
      . show (Epoll.queueWrite _ _ _ _).next ≤ 1
        rw [hsame.next, hkeepnext]
        exact hnext
      . show (Epoll.queueWrite _ _ _ _).fdToEventInfo _ = _
        rw [hsame.map, Epoll.prepareWrite_fdToEventInfo]
        exact hmap
      . show EventAction.isWriting (Epoll.infos (Epoll.queueWrite _ _ _ _) 0).action = _
        rw [EventAction.isWriting, hsame.events]
        exact hwriting
      . show (Epoll.infos (Epoll.queueWrite _ _ _ _) 0).action.pendingWriteTask.map _ = _
        rw [Epoll.queueWrite_infos]
        simp only [if_true, EventAction.addWriteTask, List.map_append, hwrites, hpending, hline.ids,
          hkeeptask, htask, ← hline.total]
        simp [List.range'_1_concat]
      . show _ = (Epoll.queueWrite _ _ _ _).nextTask
        rw [Epoll.queueWrite_nextTask, hkeeptask, htask, ← hline.total]
        omega
      . intro t ht
        obtain ⟨e, he, hc⟩ := hline.called t ht
        exact ⟨e, List.mem_append_left _ he, hc⟩
  | _ => cases hop

end Writer

end Event
end Ezio
