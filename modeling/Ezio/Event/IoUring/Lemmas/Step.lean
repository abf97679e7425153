import Ezio.Lib.Exec
import Ezio.Lib.Run
import Ezio.Event.IoUring.Lemmas.History
import Ezio.Event.IoUring.Lemmas.TryStep

/-!
This module contains what a step of the io_uring backend can do: it leaves the rings alone, has the
effect of one operation on them, or moves the completion queue.
-/

namespace Ezio
namespace Event
namespace Uring

open IoUring

-- The `complete_action` of a multishot read that `dispatch` is about to submit again.
def IoUring.resubmitOwn (s : IoUring) (cqe : Cqe) : Option (Option Nat) :=
  if cqe.hasBuffer && !cqe.hasMore
      && ((s.actions cqe.userData).bind (·.resubmitMultishotFunc)).isSome then
    some (some cqe.userData)
  else
    none

-- The `complete_action` of what takes an entry in this step without setting `user_data`.
def Step.own (w : World) : Step → Option (Option Nat)
  | .op call => call.own w.uring
  | .finish =>
    match w.phase with
    | .callback _ _ cqe _ => w.uring.resubmitOwn cqe
    | _ => none
  | _ => none

inductive Moves (w : World) (st : Step) (w' : World) : Prop where
  | quiet (hrest : Quiet w.uring w'.uring) (hreturned : w'.returned = w.returned)
  | called {submitted ret : Int} (op : Op) (hst : st = .op op)
      (heffect : Effect (Fills w.uring.calls (st.own w)) w.uring.ring submitted w'.uring.ring)
      (hcalls : w'.uring.calls = w.uring.calls + 1)
      (hreturned : w'.returned = w.returned ++ [(w.uring.calls, op, ret)])
      (hret : ret = -1 → op.idWraps w.uring = false → submitted = -1)
  | performed {submitted : Int}
      (heffect : Effect (Fills w.uring.calls (st.own w)) w.uring.ring submitted w'.uring.ring)
      (hcalls : w'.uring.calls = w.uring.calls + 1) (hreturned : w'.returned = w.returned)
  | turned (cq : CompletionQueue) (hring : w'.uring.ring = { w.uring.ring with cq })
      (hcalls : w'.uring.calls = w.uring.calls) (hreturned : w'.returned = w.returned)

theorem Wrapper.post_eq (w : Wrapper) (cqe : Cqe) : ∃ cq, w.post cqe = { w with cq } := by
  unfold Wrapper.post
  split
  . exact ⟨_, rfl⟩
  . exact ⟨w.cq, rfl⟩

namespace World

variable {w w' : World}

theorem giveBack_quiet (s : IoUring) (cqe : Cqe) : Quiet s (giveBack s cqe) := by
  unfold giveBack
  split
  . exact Quiet.refl s
  . split
    . exact Quiet.refl s
    . exact ⟨rfl, rfl⟩

theorem giveBack_actions (s : IoUring) (cqe : Cqe) : (giveBack s cqe).actions = s.actions := by
  unfold giveBack
  split
  . rfl
  . split
    . rfl
    . rfl

-- A timer is submitted again or not.
theorem rearm_effect {s s' : IoUring} {action : Nat} {cb : ActionCallback}
    (h : rearm s action cb = .ok s')
    : s' = s ∨ (s'.calls = s.calls + 1
        ∧ ∃ submitted, Effect (SetsTo (fun _ => action) s) s.ring submitted s'.ring) := by
  unfold rearm at h
  split at h
  . next intervalS intervalNs =>
    split at h
    . cases h
      exact .inl rfl
    . dsimp only at h
      split at h
      . cases h
        have hperforms : Performs s none false _ _ :=
          submitTimeout_performs (Quiet.refl s) intervalS intervalNs action
        exact .inr ⟨congrArg (· + 1) hperforms.calls, _, submitTimeout_effect s _ _ action⟩
      . cases h
  . cases h
    exact .inl rfl

-- What a completion is handed over with: the callback is called for its origin, or nothing is called.
structure Completes (w : World) (cqe : Cqe) (w' : World) : Prop where
  fault : w'.fault = w.fault
  returned : w'.returned = w.returned
  processed : w'.processed = w.processed
  produced : w'.produced = w.produced
  callbacks : w'.callbacks = w.callbacks ∨ ∃ (c : Called) (a : CompleteAction), w'.callbacks = w.callbacks ++ [c]
      ∧ c.origin = cqe.origin ∧ c.action = cqe.userData ∧ w.uring.actions cqe.userData = some a
      ∧ ∃ cb, a.callback = some cb ∧ c.res = resOf cb cqe.res
        ∧ calledWith cb = some (c.cb, c.buffer, c.bufferIovCnt)
  effect : Quiet w.uring w'.uring ∨ (w'.uring.calls = w.uring.calls + 1
      ∧ ∃ submitted, Effect (SetsTo (fun _ => cqe.userData) w.uring) w.uring.ring submitted w'.uring.ring)

theorem Completes.fills {cqe : Cqe} (h : Completes w cqe w')
    : Quiet w.uring w'.uring ∨ (w'.uring.calls = w.uring.calls + 1
        ∧ ∃ submitted, Effect (Fills w.uring.calls none) w.uring.ring submitted w'.uring.ring) := by
  rcases h.effect with hquiet | ⟨hcalls, submitted, heffect⟩
  . exact .inl hquiet
  . refine .inr ⟨hcalls, submitted, heffect.mono ?_⟩
    exact fun _ hsets => Fills.sets _ _ hsets.1 hsets.2

theorem completeCallback_completes {cqe : Cqe} {a : CompleteAction}
    (haction : w.uring.actions cqe.userData = some a) (h : w.completeCallback cqe a = .ok w')
    : Completes w cqe w' := by
  unfold completeCallback at h
  cases hcb : a.callback with
  | none =>
    rw [hcb] at h
    cases h
    exact ⟨rfl, rfl, rfl, rfl, .inl rfl, .inl (Quiet.refl _)⟩
  | some cb =>
    rw [hcb] at h
    dsimp only at h
    obtain ⟨s', hrearm, h⟩ := Except.bind_eq_ok h
    have heffect : Quiet w.uring s' ∨ (s'.calls = w.uring.calls + 1
        ∧ ∃ submitted, Effect (SetsTo (fun _ => cqe.userData) w.uring) w.uring.ring submitted
            s'.ring) := by
      rcases rearm_effect hrearm with heq | heffect
      . rw [heq]
        exact .inl ⟨rfl, rfl⟩
      . exact .inr heffect
    cases hargs : calledWith cb with
    | some args =>
      rw [hargs] at h
      cases h
      exact ⟨rfl, rfl, rfl, rfl, .inr ⟨_, a, rfl, rfl, rfl, haction, cb, hcb, rfl, hargs⟩, heffect⟩
    | none =>
      rw [hargs] at h
      dsimp only at h
      split at h
      . cases h
        exact ⟨rfl, rfl, rfl, rfl, .inl rfl, heffect⟩
      . cases h

-- A round of the loop takes the next completion.
structure Takes (w : World) (i ret : Nat) (w' : World) : Prop where
  fault : w'.fault = w.fault
  returned : w'.returned = w.returned
  processed : w'.processed = w.processed ++ [w.uring.ring.getCqe i]
  produced : w'.produced = w.produced
  phase : w'.phase = .loop (i + 1) ret
      ∨ (w.uring.ring.getCqe i).userData ≠ 0
        ∧ ∃ called, w'.phase = .callback i ret (w.uring.ring.getCqe i) called
  completes : w'.callbacks = w.callbacks ∧ Quiet w.uring w'.uring
      ∨ (w.uring.ring.getCqe i).userData ≠ 0
        ∧ ∃ w₀ w₁, Completes w₀ (w.uring.ring.getCqe i) w₁ ∧ w₀.uring = w.uring
          ∧ w₀.callbacks = w.callbacks ∧ w'.uring = w₁.uring ∧ w'.callbacks = w₁.callbacks

theorem next_takes {i ret : Nat} (h : w.next i ret = .ok w') : Takes w i ret w' := by
  unfold next at h
  dsimp only at h
  split at h
  . cases h
    exact ⟨rfl, rfl, rfl, rfl, .inl rfl, .inl ⟨rfl, Quiet.refl _⟩⟩
  . next hdata =>
    split at h
    . cases h
    . next a haction =>
      obtain ⟨called, _, h⟩ := Except.bind_eq_ok h
      cases called with
      | false =>
        cases h
        exact ⟨rfl, rfl, rfl, rfl, .inr ⟨hdata, _, rfl⟩, .inl ⟨rfl, Quiet.refl _⟩⟩
      | true =>
        obtain ⟨w₁, hcall, h⟩ := Except.bind_eq_ok h
        cases h
        have hcompletes := completeCallback_completes
          (w := { w with processed := w.processed ++ [w.uring.ring.getCqe i] }) haction hcall
        exact ⟨hcompletes.fault, hcompletes.returned, hcompletes.processed, hcompletes.produced,
          .inr ⟨hdata, _, rfl⟩, .inr ⟨hdata, _, w₁, hcompletes, rfl, rfl, rfl, rfl⟩⟩

-- The rest of a round gives the block back and may submit the multishot read again.
structure Finishes (w : World) (i ret : Nat) (cqe : Cqe) (w' : World) : Prop where
  fault : w'.fault = w.fault
  returned : w'.returned = w.returned
  processed : w'.processed = w.processed
  produced : w'.produced = w.produced
  callbacks : w'.callbacks = w.callbacks
  phase : w'.phase = .loop (i + 1) ret
  effect : Quiet w.uring w'.uring ∨ (w'.uring.calls = w.uring.calls + 1
      ∧ (w.uring.resubmitOwn cqe).isSome
      ∧ ∃ submitted, Effect (Fills w.uring.calls (w.uring.resubmitOwn cqe)) w.uring.ring submitted
          w'.uring.ring)

theorem resubmitMultishot_effect {s s' : IoUring} {action : Nat}
    (h : s.resubmitMultishot action = .ok s')
    : s' = s ∨ (s'.calls = s.calls + 1
        ∧ ((s.actions action).bind (·.resubmitMultishotFunc)).isSome
        ∧ ∃ submitted, Effect (Fills s.calls (some (some action))) s.ring submitted s'.ring) := by
  unfold resubmitMultishot at h
  split at h
  . cases h
  . next a haction =>
    split at h
    . cases h
      exact .inl rfl
    . next r hr =>
      split at h
      . cases h
      . cases h
        have hfills : FillsSlot (some (some action))
            (fun s slot => s.prepareShot slot (some action) r) := by
          apply FillsSlot.keeps
          . exact prepareShot_origin r
          . intro q origin
            cases r.needSocketDetail with
            | false => rfl
            | true => rfl
        refine .inr ⟨congrArg (· + 1) (withSqe_calls true hfills), ?_, _, withSqe_effect true hfills fun _ _ _ h => h⟩
        rw [haction, Option.bind_some, hr]
        rfl

theorem finish_finishes {i ret : Nat} {cqe : Cqe} {called : Bool}
    (h : w.finish i ret cqe called = .ok w')
    : Finishes w i ret cqe w' := by
  unfold finish at h
  dsimp only at h
  have hgive : Quiet w.uring (if called then giveBack w.uring cqe else w.uring) := by
    split
    . exact giveBack_quiet w.uring cqe
    . exact Quiet.refl _
  have hactions : (if called then giveBack w.uring cqe else w.uring).actions = w.uring.actions := by
    split
    . exact giveBack_actions w.uring cqe
    . rfl
  split at h
  . next hbuffer =>
    split at h
    . cases h
    split at h
    . cases h
      exact ⟨rfl, rfl, rfl, rfl, rfl, rfl, .inl hgive⟩
    . next hmore =>
      obtain ⟨s', hresubmit, h⟩ := Except.bind_eq_ok h
      cases h
      refine ⟨rfl, rfl, rfl, rfl, rfl, rfl, ?_⟩
      rcases resubmitMultishot_effect hresubmit with heq | ⟨hcalls, hfunc, submitted, heffect⟩
      . rw [heq]
        exact .inl hgive
      . rw [hactions] at hfunc
        rw [hgive.calls, hgive.ring] at heffect
        rw [hgive.calls] at hcalls
        have hown : w.uring.resubmitOwn cqe = some (some cqe.userData) := by
          unfold IoUring.resubmitOwn
          rw [hbuffer, Bool.eq_false_iff.mpr hmore, hfunc]
          rfl
        rw [hown]
        exact .inr ⟨hcalls, rfl, submitted, heffect⟩
  . cases h
    exact ⟨rfl, rfl, rfl, rfl, rfl, rfl, .inl (Quiet.refl _)⟩

theorem tryStep_moves {st : Step} (h : w.tryStep st = .ok w') : Moves w st w' := by
  cases tryStep_tries h with
  | idle => exact .quiet (Quiet.refl _) rfl
  | called op =>
    have hperforms := run_performs (s := w.uring) op
    obtain ⟨submitted, heffect, hret⟩ := hperforms.effect
    exact .called op rfl heffect (congrArg (· + 1) hperforms.calls) rfl hret
  | posted =>
    obtain ⟨cq, hpost⟩ := Wrapper.post_eq w.uring.ring _
    exact .turned cq hpost rfl rfl
  | waited => exact .quiet ⟨rfl, rfl⟩ rfl
  | taken _ _ hnext =>
    have htakes := next_takes hnext
    rcases htakes.completes with ⟨_, hrest⟩ | ⟨_, w₀, w₁, hcompletes, huring, _, huring', _⟩
    . exact .quiet hrest htakes.returned
    . have heffect := hcompletes.fills
      rw [huring, ← huring'] at heffect
      rcases heffect with hrest | ⟨hcalls, submitted, heffect⟩
      . exact .quiet hrest htakes.returned
      . exact .performed heffect hcalls htakes.returned
  | @finished _ i ret cqe called hphase hfinish =>
    have hfinishes := finish_finishes hfinish
    rcases hfinishes.effect with hrest | ⟨hcalls, _, submitted, heffect⟩
    . exact .quiet hrest hfinishes.returned
    . have hown : Step.own w .finish = w.uring.resubmitOwn cqe := by
        unfold Step.own
        rw [hphase]
      rw [← hown] at heffect
      exact .performed heffect hcalls hfinishes.returned
  | consumed => exact .turned _ rfl rfl rfl

theorem tryStep_fault {st : Step} (h : w.tryStep st = .ok w') : w'.fault = w.fault := by
  cases tryStep_tries h with
  | taken _ _ hnext => exact (next_takes hnext).fault
  | finished _ hfinish => exact (finish_finishes hfinish).fault
  | _ => rfl

theorem step_moves (w : World) (st : Step) : Moves w st (w.step st) := by
  unfold step
  split
  . exact .quiet (Quiet.refl _) rfl
  . split
    . next w' h => exact tryStep_moves h
    . exact .quiet (Quiet.refl _) rfl

theorem step_tracks {k : Nat} {w : World} (st : Step) (h : ∃ hist, Tracks k w.uring.ring hist)
    : ∃ hist, Tracks k (w.step st).uring.ring hist := by
  obtain ⟨hist, h⟩ := h
  have heffect : ∀ {F ret w'}, Effect F w.uring.ring ret w'
      → ∃ hist, Tracks k w' hist := by
    intro F ret w' heffect
    rcases heffect.tracks h with h' | ⟨q, _, h'⟩
    . exact ⟨_, h'⟩
    . exact ⟨_, h'⟩
  cases w.step_moves st with
  | quiet hrest hreturned =>
    rw [hrest.ring]
    exact ⟨hist, h⟩
  | called op hst he hcalls hreturned hret => exact heffect he
  | performed he hcalls hreturned => exact heffect he
  | turned cq hring hcalls hreturned =>
    rw [hring]
    exact ⟨hist, h⟩

theorem run_tracks {k : Nat} (c sqStart cqStart : Nat) (enters : List EnterRet) (hk : k < 32)
    (hasTimeoutMultishot : Bool) (steps : List Step)
    : ∃ hist, Tracks k (World.run
        { uring := .init hasTimeoutMultishot (Wrapper.init k c sqStart cqStart enters) }
        steps).uring.ring hist :=
  foldl_invariant (I := fun w : World => ∃ hist, Tracks k w.uring.ring hist) steps
    (fun _ st _ h => step_tracks st h) ⟨[], Tracks.init c sqStart cqStart enters hk⟩

end World

end Uring
end Event
end Ezio
