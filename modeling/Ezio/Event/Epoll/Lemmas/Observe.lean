import Ezio.Event.Epoll.Lemmas.Frame

/-!
This module contains the rules for what a run leaves in the log. An observation takes from each entry what it is about,
the calls that a callback makes are not observed.
-/

namespace Ezio
namespace Event

open EStateM (Preserves Triple get_bind_apply modify_bind_apply bind_apply)

-- Neither calls nor the return of a callback are observed.
structure Observation {β : Type} (obs : Entry → List β) : Prop where
  call : ∀ op s, obs (.call op s) = []
  readReturn : ∀ id src ret before ops after, obs (.readReturn id src ret before ops after) = []

def Observes {β : Type} (obs : Entry → List β) (xs : List β) (w : World) : Prop :=
  w.log.flatMap obs = xs

-- What has been added between two states of a run.
def World.since {β : Type} (obs : Entry → List β) (w w' : World) : List β :=
  (w'.log.flatMap obs).drop (w.log.flatMap obs).length

section

variable {β : Type} {obs : Entry → List β} {xs : List β} {w w' : World} {id : Nat}

theorem Observes.since (h : Observes obs (w.log.flatMap obs ++ xs) w') : w.since obs w' = xs := by
  unfold World.since
  rw [show w'.log.flatMap obs = _ from h, List.drop_left]

theorem Observes.append (h : Observes obs xs w) {log : List Entry} (hlog : w'.log = w.log ++ log)
    : Observes obs (xs ++ log.flatMap obs) w' := by
  unfold Observes at h ⊢
  rw [hlog, List.flatMap_append, h]

theorem Observes.addLog (h : Observes obs xs w) (log : List Entry)
    : Observes obs (xs ++ log.flatMap obs) (w.addLog log) :=
  h.append rfl

theorem Observes.silent (h : Observes obs xs w) {log : List Entry} (hlog : w'.log = w.log ++ log)
    (hnone : log.flatMap obs = [])
    : Observes obs xs w' := by
  have happend := h.append hlog
  rwa [hnone, List.append_nil] at happend

theorem Observes.of_log (h : Observes obs xs w) (hlog : w'.log = w.log) : Observes obs xs w' := by
  unfold Observes at h ⊢
  rw [hlog]
  exact h

theorem exec_observes (hobs : Observation obs) (op : Op) : Preserves (Observes obs xs) (exec op) := by
  apply exec_triple
  . intro w r s hw _
    exact hw.silent rfl (by simp [hobs.call])
  . intro w f hw _
    exact hw.silent rfl (by simp [hobs.call])

theorem script_observes (hobs : Observation obs) (ops : List Op)
    : Preserves (Observes obs xs) (ops.forM exec) :=
  Preserves.forM fun op _ => exec_observes hobs op

theorem readCallback_none {src : ReadSource} {ret : Int} {iov : List Iovec}
    (hcb : (w.action id).readBufIdxCallback = none)
    : readCallback id src ret iov w = .error .emptyReadCallback w := by
  unfold readCallback
  rw [get_bind_apply, hcb]
  rfl

theorem readCallback_observes (hobs : Observation obs) {src : ReadSource} {ret : Int} {iov : List Iovec}
    {cb : ReadCallback} (hcb : (w.action id).readBufIdxCallback = some cb) (h : Observes obs xs w)
    : Observes obs (xs ++ obs (.readCallback id cb src ret iov)) (readCallback id src ret iov w).state := by
  have hcalled := h.addLog [.readCallback id cb src ret iov]
  rw [List.flatMap_singleton] at hcalled
  unfold readCallback
  rw [get_bind_apply, hcb]
  dsimp only
  rw [modify_bind_apply]
  refine Preserves.state (Preserves.bind (script_observes hobs _) fun _ => ?_) (hcalled.of_log rfl)
  exact Preserves.modify fun w hw => hw.silent rfl (by simp [hobs.readReturn])

-- The call succeeds and keeps the invariant.
def Op.Retains (I : Epoll → Prop) (op : Op) : Prop :=
  ∀ s, I s → ∃ r s', s.exec op = .ok (r, s') ∧ I s'

-- The callbacks make the calls `A`. An invariant, what has been observed and the answers that are left.
structure Retained (A : Op → Prop) (I : Epoll → Prop) (obs : Entry → List β) (xs : List β) (sys : List SysRet)
    (w : World)
    : Prop where
  inv : I w.poll
  calls : w.Calls A
  observes : Observes obs xs w
  sys : w.sys = sys

section

variable {A : Op → Prop} {I : Epoll → Prop} {sys : List SysRet}

theorem Retained.exec (hobs : Observation obs) {op : Op} (hop : op.Retains I)
    : Triple (Retained A I obs xs sys) (Event.exec op) (fun _ => Retained A I obs xs sys) (fun _ _ => False) := by
  intro w hw
  obtain ⟨r, s', hexec, hinv⟩ := hop w.poll hw.inv
  unfold Event.exec
  rw [hexec]
  exact ⟨hinv, hw.calls, hw.observes.silent rfl (by simp [hobs.call]), hw.sys⟩

theorem Retained.readCallback (hobs : Observation obs) (hA : ∀ op, A op → op.Retains I) {cb : ReadCallback}
    (hcb : (w.action id).readBufIdxCallback = some cb) (h : Retained A I obs xs sys w) (src : ReadSource) (ret : Int)
    (iov : List Iovec)
    : ∃ w', Event.readCallback id src ret iov w = .ok () w'
        ∧ Retained A I obs (xs ++ obs (.readCallback id cb src ret iov)) sys w' := by
  have hcalled := h.observes.addLog [.readCallback id cb src ret iov]
  rw [List.flatMap_singleton] at hcalled
  have hretained : Retained A I obs (xs ++ obs (.readCallback id cb src ret iov)) sys
      { w.addLog [.readCallback id cb src ret iov] with user := w.user.tail } :=
    ⟨h.inv, Frame.tail_calls h.calls, hcalled, h.sys⟩
  have hscript : Triple (Retained A I obs (xs ++ obs (.readCallback id cb src ret iov)) sys)
      ((w.user.headD []).forM Event.exec)
      (fun _ => Retained A I obs (xs ++ obs (.readCallback id cb src ret iov)) sys) (fun _ _ => False) :=
    Triple.forM fun op hop => Retained.exec hobs (hA op (Frame.head_calls h.calls op hop))
  obtain ⟨_, w', hrun, hw'⟩ := hscript.total hretained
  refine ⟨w'.addLog [.readReturn id src ret w.poll (w.user.headD []) w'.poll], ?_, ?_⟩
  . unfold Event.readCallback
    rw [get_bind_apply, hcb]
    dsimp only
    rw [modify_bind_apply, bind_apply, hrun]
    rfl
  . exact ⟨hw'.inv, hw'.calls, hw'.observes.silent rfl (by simp [hobs.readReturn]), hw'.sys⟩

end

theorem writeCallback_none {task : Nat} {ret : Int} (hcb : (w.action id).writeCallback = none)
    : writeCallback id task ret w = .error .emptyWriteCallback w := by
  unfold writeCallback
  rw [get_bind_apply, hcb]
  rfl

theorem writeCallback_observes (hobs : Observation obs) {task : Nat} {ret : Int} {cb : Callback}
    (hcb : (w.action id).writeCallback = some cb) (h : Observes obs xs w)
    : Observes obs (xs ++ obs (.writeCallback id cb task ret (w.user.headD [])))
      (writeCallback id task ret w).state := by
  have hcalled := h.addLog [.writeCallback id cb task ret (w.user.headD [])]
  rw [List.flatMap_singleton] at hcalled
  unfold writeCallback
  rw [get_bind_apply, hcb]
  dsimp only
  rw [modify_bind_apply]
  exact Preserves.state (script_observes hobs _) (hcalled.of_log rfl)

end

end Event
end Ezio
