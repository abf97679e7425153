import Ezio.Event.Timer.Dispatched

/-!
This module contains the theorems about the timers in a run: what has expired is handed to the handler, and nothing is
handed to the handler of a timer that has been closed.
-/

namespace Ezio
namespace Event
namespace Timers

variable {w w' : Timers} {t : Nat}

/-! ### What a step adds to the log -/

-- A call of `epoll_wait` does not make a timer active.
theorem harvest_same (w : Timers) (ts : List Nat)
    : (w.harvest ts).1.log = w.log ∧ ∀ t, ((w.harvest ts).1.timers t).isActive = (w.timers t).isActive := by
  rw [harvest_fst]
  refine ⟨rfl, ?_⟩
  intro t
  dsimp only
  split <;> rfl

-- The thread of the loop only calls handlers of active timers.
structure Ticks (w w' : Timers) (l : List Entry) : Prop where
  log : w'.log = w.log ++ l
  closes : ∀ t, .closes t ∉ l
  handles : ∀ t k, .handles t k ∈ l → (w.timers t).isActive = true
  isActive : ∀ t, (w'.timers t).isActive = (w.timers t).isActive

theorem Ticks.of_same (hlog : w'.log = w.log) (hactive : ∀ t, (w'.timers t).isActive = (w.timers t).isActive)
    : Ticks w w' [] :=
  ⟨by rw [hlog, List.append_nil], fun _ => List.not_mem_nil, fun _ _ h => absurd h List.not_mem_nil, hactive⟩

theorem Ticks.of_before {w₁ : Timers} {l : List Entry} (h : Ticks w₁ w' l) (hlog : w₁.log = w.log)
    (hactive : ∀ t, (w₁.timers t).isActive = (w.timers t).isActive)
    : Ticks w w' l :=
  ⟨h.log.trans (congrArg (· ++ l) hlog), h.closes, fun t k hmem => (hactive t).symm.trans (h.handles t k hmem),
    fun t => (h.isActive t).trans (hactive t)⟩

theorem fault_ticks (w : Timers) (f : Fault)
    : Ticks w (w.fault f) [] := .of_same rfl fun _ => rfl

theorem submitReadRequest_ticks (w : Timers) (t : Nat)
    : Ticks w (w.submitReadRequest t) [] := by
  unfold submitReadRequest
  split
  . split
    . split
      . exact .of_same rfl fun _ => rfl
      . exact fault_ticks ..
    . exact fault_ticks ..
  . exact fault_ticks ..

theorem endPass_ticks (w : Timers) (caller : Caller)
    : Ticks w (w.endPass caller) [] := by
  cases caller <;> exact .of_same rfl fun _ => rfl

theorem handleEvents_ticks (w : Timers) (id : Nat) (caller : Caller)
    : Ticks w (w.handleEvents id caller) [] := by
  unfold handleEvents
  dsimp only
  split
  . exact .of_same rfl fun _ => rfl
  . exact endPass_ticks ..

theorem handleTimeout_ticks (w : Timers) (p : Pass) (ret : Int) (count : Nat)
    : ∃ l, Ticks w (w.handleTimeout p ret count) l := by
  unfold handleTimeout
  split
  . next t _ =>
    split
    . exact ⟨[], .of_same rfl fun _ => rfl⟩
    . next hactive =>
      split
      . refine ⟨[.handles t count], rfl, by simp, ?_, fun _ => rfl⟩
        intro u k hmem
        cases List.mem_singleton.mp hmem
        simpa using (not_or.mp hactive).2
      . exact ⟨[], (submitReadRequest_ticks { w with pc := .popTask p } t).of_before rfl fun _ => rfl⟩
  . exact ⟨[], fault_ticks ..⟩

theorem doReadTask_ticks (w : Timers) (p : Pass) (intrs : Nat)
    : ∃ l, Ticks w (w.doReadTask p intrs) l := by
  unfold doReadTask
  split
  . exact ⟨[], fault_ticks ..⟩
  . split
    . exact handleTimeout_ticks ..
    . dsimp only
      split
      . next r _ _ =>
        -- reading the file does not concern what is logged
        have hread : (if r.moved = [] then (w, 0) else w.readCounter (w.poll.action p.id).fd.key).1.log = w.log
            ∧ ∀ t, ((if r.moved = [] then (w, 0) else w.readCounter (w.poll.action p.id).fd.key).1.timers t).isActive
              = (w.timers t).isActive := by
          split
          . exact ⟨rfl, fun _ => rfl⟩
          . unfold readCounter
            split
            . refine ⟨rfl, ?_⟩
              intro t
              rw [modifyTimer_timers]
              split
              . next ht => rw [ht]
              . rfl
            . exact ⟨rfl, fun _ => rfl⟩
        generalize (if r.moved = [] then (w, 0) else w.readCounter (w.poll.action p.id).fd.key) = read at hread ⊢
        obtain ⟨w₁, count⟩ := read
        dsimp only at hread ⊢
        split
        . exact ⟨[], .of_same hread.1 hread.2⟩
        . obtain ⟨l, hticks⟩ := handleTimeout_ticks
            (w₁.modifyAction p.id fun a => { a with isReadable := a.isReadable && !r.flag }) p r.ret count
          exact ⟨l, hticks.of_before hread.1 hread.2⟩
      . exact ⟨[], fault_ticks ..⟩
      . exact ⟨[], fault_ticks ..⟩

theorem tick_ticks (w : Timers) (turn : Turn)
    : ∃ l, Ticks w (w.tick turn) l := by
  unfold Timers.tick
  split
  . exact ⟨[], .of_same rfl fun _ => rfl⟩
  . unfold Timers.epollWait
    split
    . exact ⟨[.returns], rfl, by simp, by simp, fun _ => rfl⟩
    . have hsame := harvest_same w (turn.harvest.take EVENT_CNT)
      generalize w.harvest (turn.harvest.take EVENT_CNT) = harvested at *
      obtain ⟨w₁, ids⟩ := harvested
      exact ⟨[.harvests _], congrArg (· ++ _) hsame.1, by simp, by simp, hsame.2⟩
  . next ids _ =>
    cases ids with
    | nil => exact ⟨[], .of_same rfl fun _ => rfl⟩
    | cons id rest =>
      have hticks := handleEvents_ticks (w.modifyAction id fun a => { a with isReadable := true }) id (.dispatch rest)
      exact ⟨[], hticks.of_before rfl fun _ => rfl⟩
  . exact doReadTask_ticks ..
  . unfold Timers.handlerReturns
    split
    . exact ⟨[], fault_ticks ..⟩
    . dsimp only
      split
      . next t p _ _ _ =>
        exact ⟨[], (submitReadRequest_ticks { w with pc := .popTask p } t).of_before rfl fun _ => rfl⟩
      . exact ⟨[], .of_same rfl fun _ => rfl⟩
  . next p _ =>
    unfold Timers.popReadTask
    split
    . exact ⟨[], fault_ticks ..⟩
    . next ts _ =>
      dsimp only
      split
      . have hticks := endPass_ticks (w.modifyAction p.id fun a => { a with pendingReadTask := ts }) p.caller
        exact ⟨[], hticks.of_before rfl fun _ => rfl⟩
      . exact ⟨[], .of_same rfl fun _ => rfl⟩
  . next left _ =>
    cases left with
    | zero => exact ⟨[.returns], rfl, by simp, by simp, fun _ => rfl⟩
    | succ left =>
      simp only [Timers.doReadyTasks]
      split
      . exact ⟨[], handleEvents_ticks ..⟩
      . exact ⟨[], fault_ticks ..⟩
  . exact ⟨[], .of_same rfl fun _ => rfl⟩

-- The calls of the user only close timers.
structure Closes (w w' : Timers) (l : List Entry) : Prop where
  log : w'.log = w.log ++ l
  closes : ∀ e ∈ l, ∃ t, e = .closes t ∧ (w'.timers t).isActive = false
  isActive : ∀ t, (w.timers t).isActive = false → (w'.timers t).isActive = false

theorem Closes.of_same (hlog : w'.log = w.log) (hactive : ∀ t, (w'.timers t).isActive = (w.timers t).isActive)
    : Closes w w' [] :=
  ⟨by rw [hlog, List.append_nil], nofun, fun t h => (hactive t).trans h⟩

theorem Closes.trans {w₁ w₂ : Timers} {l₁ l₂ : List Entry} (h : Closes w w₁ l₁) (h' : Closes w₁ w₂ l₂)
    : Closes w w₂ (l₁ ++ l₂) := by
  refine ⟨by rw [h'.log, h.log, List.append_assoc], ?_, fun t ht => h'.isActive t (h.isActive t ht)⟩
  intro e he
  rcases List.mem_append.mp he with he | he
  . obtain ⟨t, rfl, ht⟩ := h.closes e he
    exact ⟨t, rfl, h'.isActive t ht⟩
  . exact h'.closes e he

theorem modifyTimer_isActive (w : Timers) (t : Nat) {f : Timer → Timer} (hf : ∀ r, (f r).isActive = r.isActive)
    (u : Nat)
    : ((w.modifyTimer t f).timers u).isActive = (w.timers u).isActive := by
  rw [modifyTimer_timers]
  split
  . next hu => rw [hf, hu]
  . rfl

theorem modifyTimer_closes (w : Timers) (t : Nat) {f : Timer → Timer} (hf : ∀ r, (f r).isActive = r.isActive)
    : Closes w (w.modifyTimer t f) [] :=
  .of_same rfl (modifyTimer_isActive w t hf)

theorem close_closes (w : Timers) (t : Nat)
    : Closes w (w.close t) [.closes t] := by
  have hclose : Closes w
      ((w.addLog (.closes t)).modifyTimer t fun r => { r with isActive := false, hasHandler := false })
      [.closes t] := by
    refine ⟨rfl, ?_, ?_⟩
    . intro e he
      refine ⟨t, List.mem_singleton.mp he, ?_⟩
      rw [modifyTimer_timers, if_pos rfl]
    . intro u hu
      rw [modifyTimer_timers]
      split
      . rfl
      . exact hu
  unfold Timers.close
  dsimp only
  generalize (w.addLog (.closes t)).modifyTimer t _ = w₁ at hclose ⊢
  split
  . exact hclose
  . next n _ =>
    have hfd : Closes w₁ ({ w₁ with
        poll := { w₁.poll with kernel := w₁.poll.kernel.close n }
        files := Function.update w₁.files n none }.modifyTimer t fun r => { r with fd := none }) [] := by
      refine .of_same rfl ?_
      apply modifyTimer_isActive
      exact fun _ => rfl
    split
    . split
      . exact hclose.trans (hfd.trans (.of_same rfl fun _ => rfl))
      . exact hclose.trans (hfd.trans (.of_same rfl fun _ => rfl))
    . exact hclose.trans (hfd.trans (.of_same rfl fun _ => rfl))

theorem release_closes (w : Timers) (t : Nat) (fd : Option Nat)
    : ∃ l, Closes w (w.release t fd) l := by
  unfold Timers.release
  dsimp only
  split
  . exact ⟨[], .of_same rfl fun _ => rfl⟩
  . split
    . exact ⟨_, (close_closes w t).trans (modifyTimer_closes _ t fun _ => rfl)⟩
    . exact ⟨_, modifyTimer_closes _ t fun _ => rfl⟩

theorem openTimer_closes (w : Timers) (t : Nat) (intervalS intervalNs : UInt64) (answers : OpenAnswers)
    : Closes w (w.openTimer t intervalS intervalNs answers).1 [] := by
  unfold openTimer
  split
  . exact .of_same rfl fun _ => rfl
  . split
    . exact .of_same rfl fun _ => rfl
    . next n _ =>
      have hopen : Closes w ({ w with
          poll := { w.poll with kernel := w.poll.kernel.open n }
          files := Function.update w.files n (some t) }.modifyTimer t fun r => { r with fd := some n }) [] := by
        refine .of_same rfl ?_
        apply modifyTimer_isActive
        exact fun _ => rfl
      dsimp only
      generalize ({ w with
        poll := { w.poll with kernel := w.poll.kernel.open n }
        files := Function.update w.files n (some t) } : Timers).modifyTimer t _ = w₁ at hopen ⊢
      split
      . exact hopen
      . have hpoll := hopen.trans (modifyTimer_closes w₁ t (f := fun r => { r with hasPoll := true }) fun _ => rfl)
        split
        . exact hpoll.trans (.of_same rfl fun _ => rfl)
        . exact hpoll.trans (.of_same rfl fun _ => rfl)

theorem createTimer_closes (w : Timers) (intervalS intervalNs : UInt64) (cb : Bool) (answers : OpenAnswers)
    : ∃ l, Closes w (w.createTimer intervalS intervalNs cb answers).1 l := by
  unfold Timers.createTimer
  split
  . exact ⟨[], .of_same rfl fun _ => rfl⟩
  . have hopen := openTimer_closes { w with next := w.next + 1 } w.next intervalS intervalNs answers
    dsimp only
    generalize openTimer { w with next := w.next + 1 } w.next intervalS intervalNs answers = opened at hopen ⊢
    obtain ⟨w₁, opens⟩ := opened
    have hnext : Closes w w₁ [] := ⟨hopen.log, hopen.closes, hopen.isActive⟩
    cases opens with
    | false =>
      obtain ⟨l, hrelease⟩ := release_closes w₁ w.next answers.fd
      exact ⟨l, hnext.trans hrelease⟩
    | true =>
      have hhandler := modifyTimer_closes w₁ w.next (f := fun r => { r with hasHandler := true }) fun _ => rfl
      exact ⟨[], hnext.trans (hhandler.trans (.of_same rfl fun _ => rfl))⟩

theorem closeTimer_closes (w : Timers) (timerId : UInt32)
    : ∃ l, Closes w (w.closeTimer timerId).1 l := by
  unfold Timers.closeTimer
  split
  . exact ⟨[], .of_same rfl fun _ => rfl⟩
  . next t _ =>
    have hclose : Closes w { w.close t with idToTimer := Function.update w.idToTimer timerId none } [.closes t] :=
      { close_closes w t with }
    obtain ⟨l, hrelease⟩ := release_closes
      { w.close t with idToTimer := Function.update w.idToTimer timerId none } t (w.timers t).fd
    exact ⟨_, hclose.trans hrelease⟩

/-! ### A timer that has expired -/

theorem stage_le_append {b : List Entry} (hhandles : ∀ k, .handles t k ∉ b) (hcloses : .closes t ∉ b) (l : List Entry)
    : stage t l ≤ stage t (l ++ b) := by
  induction b generalizing l with
  | nil => rw [List.append_nil]
  | cons e b ih =>
    rw [List.append_cons]
    refine Nat.le_trans ?_ (ih (fun k hmem => hhandles k (List.mem_cons_of_mem e hmem))
      (fun hmem => hcloses (List.mem_cons_of_mem e hmem)) _)
    rw [stage_append]
    cases e with
    | expires u =>
      simp only [stageStep]
      split
      . exact Nat.le_max_left _ _
      . exact Nat.le_refl _
    | harvests ts =>
      simp only [stageStep]
      split <;> omega
    | handles u k =>
      refine Nat.le_of_eq (if_neg ?_).symm
      rintro rfl
      exact hhandles k List.mem_cons_self
    | closes u =>
      refine Nat.le_of_eq (if_neg ?_).symm
      rintro rfl
      exact hcloses List.mem_cons_self
    | returns => exact Nat.le_refl _

-- The timer expires and then `epoll_wait` looks at it, nobody calls its handler or closes it.
theorem two_le_stage {a b c : List Entry} {ts : List Nat} (ht : t ∈ ts) (hhandles : ∀ k, .handles t k ∉ b ++ c)
    (hcloses : .closes t ∉ b ++ c)
    : 2 ≤ stage t (a ++ [Entry.expires t] ++ b ++ [Entry.harvests ts] ++ c) := by
  simp only [List.mem_append, not_or] at hhandles hcloses
  have hexpire : 1 ≤ stage t (a ++ [Entry.expires t]) := by
    rw [stage_append]
    exact Nat.le_trans (Nat.le_max_right _ 1) (Nat.le_of_eq (if_pos rfl).symm)
  have hbefore := stage_le_append (fun k => (hhandles k).1) hcloses.1 (a ++ [Entry.expires t])
  have hafter := stage_le_append (fun k => (hhandles k).2) hcloses.2
    (a ++ [Entry.expires t] ++ b ++ [Entry.harvests ts])
  have hharvest : 2 ≤ stage t (a ++ [Entry.expires t] ++ b ++ [Entry.harvests ts]) := by
    rw [stage_append]
    simp only [stageStep, ht, and_true]
    split <;> omega
  exact Nat.le_trans hharvest hafter

theorem Prompt.handles_mem {l a b c d : List Entry} {ts : List Nat} (h : Prompt l) (ht : t ∈ ts)
    (heq : l = a ++ [Entry.expires t] ++ b ++ [Entry.harvests ts] ++ c ++ .returns :: d)
    : (∃ k, .handles t k ∈ b ++ c) ∨ .closes t ∈ b ++ c := by
  by_contra hnot
  rw [not_or, not_exists] at hnot
  have hle := h t _ _ heq
  have htwo := two_le_stage (a := a) ht hnot.1 hnot.2
  omega

def ticks (n : Nat) : List Action :=
  List.replicate n (.tick {})

-- The steps that are left of a `dispatch` in which nothing is reported any more.
def rank : Pc → Nat
  | .outside | .faulted _ => 0
  | .readyTasks left => left + 1
  | .waiting => 3
  | .reported ids => 4 * ids.length + 2
  | .readTask p => 4 * p.caller.rest.length + 5
  | .handler _ p => 4 * p.caller.rest.length + 4
  | .popTask p => 4 * p.caller.rest.length + 3

theorem Served.tick_rank (h : w.Served) (hpc : w.pc ≠ .outside)
    : rank (w.tick {}).pc < rank w.pc := by
  have hphase := h.phase
  unfold Timers.tick
  generalize hp : w.pc = pc at hphase hpc ⊢
  cases hphase with
  | outside => exact absurd rfl hpc
  | waiting hlst => exact Nat.lt_succ_self 2
  | reported ids =>
    dsimp only
    cases ids with
    | nil =>
      simp only [Timers.setReadyEvents, h.backend.readyEvents]
      exact Nat.lt_succ_self 1
    | cons id rest =>
      rcases h.setReadyEvents_cons hp with ⟨n, t, -, -, heq⟩ | ⟨n, -, -, heq⟩
      . rw [heq]
        simp [rank, Caller.rest]
        omega
      . rw [heq]
        simp [rank]
  | readTask id n t rest hfile hid =>
    dsimp only
    rw [h.doReadTask_eq hp hid hfile]
    exact Nat.lt_succ_self _
  | handler id n t rest hfile hid =>
    dsimp only
    rw [h.handlerReturns_eq hp hid hfile]
    exact Nat.lt_succ_self _
  | popTask id n t rest hfile hid =>
    dsimp only
    obtain ⟨tasks, -, heq⟩ := h.popReadTask_eq hp hid hfile
    rw [heq]
    exact Nat.lt_succ_self _
  | readyTasks => exact Nat.zero_lt_one

-- `dispatch` returns.
theorem Served.exists_outside (h : w.Served)
    : ∃ n, (run w (ticks n)).pc = .outside ∧ (run w (ticks n)).Served := by
  induction hn : rank w.pc using Nat.strongRecOn generalizing w with
  | ind n ih =>
    by_cases hpc : w.pc = .outside
    . exact ⟨0, hpc, h⟩
    . obtain ⟨m, hm⟩ := ih _ (hn ▸ h.tick_rank hpc) (h.tick {}) rfl
      exact ⟨m + 1, hm⟩

theorem run_ticks_log (w : Timers) (n : Nat)
    : ∃ l, (run w (ticks n)).log = w.log ++ l ∧ ∀ t, .closes t ∉ l := by
  induction n generalizing w with
  | zero => exact ⟨[], (List.append_nil _).symm, fun _ => List.not_mem_nil⟩
  | succ n ih =>
    obtain ⟨l₁, hticks⟩ := tick_ticks w {}
    obtain ⟨l₂, hlog, hcloses⟩ := ih (w.tick {})
    refine ⟨l₁ ++ l₂, ?_, ?_⟩
    . rw [← List.append_assoc, ← hticks.log]
      exact hlog
    . exact fun t hmem => (List.mem_append.mp hmem).elim (hticks.closes t) (hcloses t)

-- A `dispatch` that begins looks at the timer.
theorem tick_harvest (hpc : w.pc = .outside) (t : Nat)
    : ((w.tick {}).tick { harvest := [t] }).log = w.log ++ [Entry.harvests [t]] := by
  have hwait : (w.tick {}).pc = .waiting := by simp [Timers.tick, hpc, Timers.applyChanges]
  have hlog : (w.tick {}).log = w.log := by simp [Timers.tick, hpc, Timers.applyChanges]
  rw [← hlog]
  generalize w.tick {} = w₁ at *
  simp only [Timers.tick, hwait]
  rfl

-- An open timer that expires is handled, whatever the loop is doing then.
theorem Served.exists_handles (h : w.Served) (hopen : (w.timers t).fd.isSome)
    : ∃ (turns : List Turn) (l : List Entry) (k : Nat),
      (run w (.expire t :: turns.map .tick)).log = w.log ++ Entry.expires t :: l ∧ .handles t k ∈ l := by
  obtain ⟨n, hfd⟩ := Option.isSome_iff_exists.mp hopen
  have hexpire : (w.expire t).log = w.log ++ [Entry.expires t] := by
    unfold Timers.expire
    rw [hfd]
    rfl
  obtain ⟨n₁, hpc₂, h₂⟩ := (h.expire t).exists_outside
  obtain ⟨l₁, hlog₁, hcloses₁⟩ := run_ticks_log (w.expire t) n₁
  have hharvest := tick_harvest hpc₂ t
  have h₃ := (h₂.tick {}).tick { harvest := [t] }
  obtain ⟨n₂, hpc₄, h₄⟩ := h₃.exists_outside
  obtain ⟨l₂, hlog₂, hcloses₂⟩ := run_ticks_log (((run (w.expire t) (ticks n₁)).tick {}).tick { harvest := [t] }) n₂
  have hlog := hlog₂
  rw [hharvest, hlog₁, hexpire] at hlog
  have hle := h₄.stage_le (by rw [hpc₄]; rfl) t
  have hhandles : ∃ k, .handles t k ∈ l₁ ++ l₂ := by
    by_contra hnot
    rw [not_exists] at hnot
    have hcloses : .closes t ∉ l₁ ++ l₂ := fun hmem =>
      (List.mem_append.mp hmem).elim (hcloses₁ t) (hcloses₂ t)
    have htwo := two_le_stage (a := w.log) (List.mem_singleton_self t) hnot hcloses
    rw [← hlog] at htwo
    omega
  obtain ⟨k, hk⟩ := hhandles
  refine ⟨List.replicate n₁ ({} : Turn) ++ ({} : Turn) :: { harvest := [t] } :: List.replicate n₂ ({} : Turn),
    l₁ ++ [Entry.harvests [t]] ++ l₂, k, ?_, ?_⟩
  . rw [List.map_append, List.map_cons, List.map_cons, List.map_replicate, List.map_replicate]
    change (List.foldl Timers.step (w.expire t) _).log = _
    rw [List.foldl_append]
    refine hlog.trans ?_
    simp
  . simp only [List.mem_append] at hk ⊢
    exact hk.imp_left .inl

/--
A timer is not lost as long as the calls are not misused: the loop does not crash, every expiration is handed to the
handler once or still waits to be read, a `dispatch` that looks at a timer that has expired calls its handler before it
returns unless the timer is closed, and an open timer that expires gets there.
-/
theorem run_timers (as : List Action) (h : Along step (fun w a => ¬w.misuses a) {} as)
    : let w := run {} as
      (∀ f, w.pc ≠ .faulted f)
        ∧ (∀ t, expirations t w.log = handed t w.log + (w.timers t).counter)
        ∧ (∀ t ts a b c d, t ∈ ts
          → w.log = a ++ [Entry.expires t] ++ b ++ [Entry.harvests ts] ++ c ++ Entry.returns :: d
          → (∃ k, Entry.handles t k ∈ b ++ c) ∨ Entry.closes t ∈ b ++ c)
        ∧ (∀ t, (w.timers t).fd.isSome → ∃ (turns : List Turn) (l : List Entry) (k : Nat),
          (run w (.expire t :: turns.map .tick)).log = w.log ++ Entry.expires t :: l ∧ .handles t k ∈ l) := by
  have hserved := run_served h
  generalize run {} as = w at *
  refine ⟨?_, hserved.logged.counted, ?_, fun t hopen => hserved.exists_handles hopen⟩
  . intro f hpc
    have hphase := hserved.phase
    rw [hpc] at hphase
    cases hphase
  . exact fun t ts a b c d ht heq => hserved.logged.prompt.handles_mem ht heq

-- Two timers expire and are reported, one of them is closed before its file is read.
def twoTimers : List Action :=
  [.createTimer 1 0 true { fd := some 5 }, .createTimer 2 0 true { fd := some 6 }, .tick {}, .expire 0, .expire 1,
    .tick { harvest := [0, 1] }, .tick {}, .tick { intrs := 1 }, .closeTimer 1, .tick {}, .tick {}, .tick {}, .tick {},
    .tick {}]

theorem twoTimers_handled
    : expirations 0 (run {} twoTimers).log = handed 0 (run {} twoTimers).log + ((run {} twoTimers).timers 0).counter
      ∧ ((∃ k, Entry.handles 0 k ∈ [Entry.expires 1] ++ [Entry.handles 0 1, Entry.closes 1])
        ∨ Entry.closes 0 ∈ [Entry.expires 1] ++ [Entry.handles 0 1, Entry.closes 1]) := by
  have h := run_timers twoTimers (by decide)
  exact ⟨h.2.1 0, h.2.2.1 0 [0, 1] [] [.expires 1] [.handles 0 1, .closes 1] [] (by decide) (by decide)⟩

-- A timer that is closed by its own handler is destroyed while the handler runs.
example : (run {} [.createTimer 1 0 true { fd := some 5 }, .tick {}, .expire 0, .tick { harvest := [0] }, .tick {},
    .tick {}, .closeTimer 0, .tick {}]).pc = .faulted .useAfterFree := by decide

/-! ### A timer that has been closed -/

structure Quiet (w : Timers) : Prop where
  isActive : ∀ t, .closes t ∈ w.log → (w.timers t).isActive = false
  silent : ∀ t k l₁ l₂, w.log = l₁ ++ Entry.closes t :: l₂ → Entry.handles t k ∉ l₂

theorem Quiet.ticks {l : List Entry} (h : w.Quiet) (hw : Ticks w w' l)
    : w'.Quiet := by
  constructor
  . intro t hmem
    rw [hw.log, List.mem_append] at hmem
    rw [hw.isActive]
    exact h.isActive t (hmem.resolve_right (hw.closes t))
  . intro t k l₁ l₂ heq hmem
    rw [hw.log, List.append_eq_append_iff] at heq
    rcases heq with ⟨l₃, rfl, hl⟩ | ⟨l₃, hlog, hl⟩
    . exact hw.closes t (hl ▸ List.mem_append_right _ List.mem_cons_self)
    . cases l₃ with
      | nil => exact hw.closes t ((show _ = l from hl) ▸ List.mem_cons_self)
      | cons e l₃ =>
        obtain ⟨rfl, rfl⟩ := List.cons.inj hl
        rcases List.mem_append.mp hmem with hmem | hmem
        . exact h.silent t k l₁ l₃ hlog hmem
        . have hclosed := h.isActive t (hlog ▸ List.mem_append_right _ List.mem_cons_self)
          rw [hw.handles t k hmem] at hclosed
          cases hclosed

theorem Quiet.closes {l : List Entry} (h : w.Quiet) (hw : Closes w w' l)
    : w'.Quiet := by
  have hnot : ∀ t k, .handles t k ∉ l := by
    intro t k hmem
    obtain ⟨u, heq, -⟩ := hw.closes _ hmem
    cases heq
  constructor
  . intro t hmem
    rw [hw.log, List.mem_append] at hmem
    rcases hmem with hmem | hmem
    . exact hw.isActive t (h.isActive t hmem)
    . obtain ⟨u, heq, hu⟩ := hw.closes _ hmem
      cases heq
      exact hu
  . intro t k l₁ l₂ heq hmem
    rw [hw.log, List.append_eq_append_iff] at heq
    rcases heq with ⟨l₃, rfl, hl⟩ | ⟨l₃, hlog, hl⟩
    . exact hnot t k (hl ▸ List.mem_append_right _ (List.mem_cons_of_mem _ hmem))
    . cases l₃ with
      | nil => exact hnot t k ((show _ = l from hl) ▸ List.mem_cons_of_mem _ hmem)
      | cons e l₃ =>
        obtain ⟨rfl, rfl⟩ := List.cons.inj hl
        rcases List.mem_append.mp hmem with hmem | hmem
        . exact h.silent t k l₁ l₃ hlog hmem
        . exact hnot t k hmem

theorem Quiet.step (h : w.Quiet) (a : Action)
    : (w.step a).Quiet := by
  cases a with
  | expire t =>
    change (w.expire t).Quiet
    unfold Timers.expire
    split
    . have hticks : Ticks w (w.addLog (.expires t)) [.expires t] := ⟨rfl, by simp, by simp, fun _ => rfl⟩
      refine (h.ticks hticks).closes (.of_same rfl ?_)
      apply modifyTimer_isActive
      exact fun _ => rfl
    . exact h
  | createTimer intervalS intervalNs cb answers =>
    unfold Timers.step
    dsimp only
    split
    . obtain ⟨l, hw⟩ := createTimer_closes w intervalS intervalNs cb answers
      exact h.closes hw
    . exact h
  | closeTimer timerId =>
    unfold Timers.step
    dsimp only
    split
    . obtain ⟨l, hw⟩ := closeTimer_closes w timerId
      exact h.closes hw
    . exact h
  | tick turn =>
    obtain ⟨l, hw⟩ := tick_ticks w turn
    exact h.ticks hw

/--
Once a timer has been closed its handler is not called any more, whatever has been reported for it and however the loop
goes on.
-/
theorem run_silent (as : List Action) (t k : Nat) (l₁ l₂ : List Entry)
    (heq : (run {} as).log = l₁ ++ Entry.closes t :: l₂)
    : Entry.handles t k ∉ l₂ := by
  have hinit : Quiet {} := ⟨fun t hmem => absurd hmem List.not_mem_nil, fun t k l₁ l₂ heq => by cases l₁ <;> cases heq⟩
  have hquiet : (run {} as).Quiet := foldl_invariant as (fun _ a _ h => h.step a) hinit
  exact hquiet.silent t k l₁ l₂ heq

theorem twoTimers_silent
    : Entry.closes 1 ∈ (run {} twoTimers).log ∧ Entry.handles 1 1 ∉ [Entry.returns] := by
  refine ⟨by decide, run_silent twoTimers 1 1 [.expires 0, .expires 1, .harvests [0, 1], .handles 0 1] [.returns] ?_⟩
  decide

end Timers

end Event
end Ezio
