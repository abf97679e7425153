import Ezio.Event.IoUring.Lemmas.Completion
import Ezio.Event.IoUring.Lemmas.Timers

/-!
This module contains the requests that may still produce a completion. They carry a `complete_action` that
has an owner as long as none of them is released before their last completion is processed.
-/

namespace Ezio
namespace Event
namespace Uring

open IoUring

-- `dispatch` comes back to the `complete_action` of a multishot read that has ended.
def Phase.held : Phase → List Cqe
  | .callback _ _ cqe _ => if cqe.hasBuffer && !cqe.hasMore then [cqe] else []
  | _ => []

namespace World

-- The entries that the kernel has executed and those that are in the ring.
def prepared (w : World) : List Sqe :=
  w.uring.ring.executed.map (·.sqe)
    ++ w.uring.ring.sq.pending (w.uring.ring.sq.sqeTail - w.uring.ring.sq.khead).toNat

-- The completions in the ring that the loop has not come to.
def unprocessed (w : World) : List Cqe :=
  let ready := (w.uring.ring.cq.ktail - w.uring.ring.cq.khead).toNat
  (List.range' w.phase.done (ready - w.phase.done)).map w.uring.ring.getCqe

def unfinished (w : World) : List Cqe :=
  w.phase.held ++ w.unprocessed

end World

def Step.frees (w : World) : Step → Option Nat
  | .op call => call.frees w.uring
  | _ => none

def Step.strands (w : World) : Step → Bool
  | .op call => call.strands w.uring
  | _ => false

-- The backend, and the numbers of the executed SQEs that have had their last completion.
structure Flight where
  world : World
  ended : List Nat := []

namespace Flight

def step (f : Flight) (st : Step) : Flight :=
  match st with
  | .complete n _ flags =>
    if n ∈ f.ended then
      f
    else
      let world := f.world.step st
      if f.world.produced.length < world.produced.length && !Cqe.hasMore { flags } then
        { world, ended := n :: f.ended }
      else
        { f with world }
  | _ => { f with world := f.world.step st }

-- The requests that may still produce a completion.
def requests (f : Flight) : List Sqe :=
  (f.world.prepared.zipIdx.filter fun p => p.2 ∉ f.ended).map (·.1)

def carried (f : Flight) : List Nat :=
  f.requests.map (·.userData) ++ f.world.unfinished.map (·.userData)

structure Owned (f : Flight) : Prop where
  carried : ∀ a ∈ f.carried, f.world.uring.Known a
  fault : f.world.fault ≠ some .useAfterFree

-- The `complete_action` that a step lets go of is not carried any more, and an entry that keeps the
-- `user_data` of its slot does not find a released one there.
structure Safe (f : Flight) (st : Step) : Prop where
  freed : ∀ a, st.frees f.world = some a → a ∉ f.carried
  stranded : st.strands f.world = false
  slot : ∀ own, st.own f.world = some own
      → f.world.uring.ring.sq.getSqe.1 = none
        ∨ (f.world.uring.Known f.world.uring.ring.nextSqe.userData
          ∧ st.frees f.world ≠ some f.world.uring.ring.nextSqe.userData)

end Flight

variable {k c start head : Nat} {w w' : World} {f : Flight}

theorem Posted.unprocessed (h : Posted c start w.uring.ring.cq w.produced head)
    : w.unprocessed = w.produced.drop (head + w.phase.done) := by
  unfold World.unprocessed
  dsimp only
  rw [h.ready]
  apply List.ext_getElem
  . rw [List.length_map, List.length_range', List.length_drop]
    omega
  . intro i hi hi'
    rw [List.length_drop] at hi'
    rw [List.getElem_map, List.getElem_range', List.getElem_drop, Nat.one_mul]
    rw [h.getCqe (show head + (w.phase.done + i) < w.produced.length by omega)]
    congr 1
    omega

-- The loop of `dispatch` goes through completions that are in the ring.
structure Looping (c start : Nat) (w : World) (head : Nat) : Prop where
  posted : Posted c start w.uring.ring.cq w.produced head
  done_le : w.phase.done ≤ w.phase.rounds
  rounds_le : head + w.phase.rounds ≤ w.produced.length
  held : ∀ cqe ∈ w.phase.held, cqe.userData ≠ 0

theorem Posted.consume_some {ring : Wrapper} {produced : List Cqe} {ret : Nat}
    (h : Posted c start ring.cq produced head) (hret : head + ret ≤ produced.length)
    : ∃ head', head + ret ≤ head'
        ∧ Posted c start (ring.cqConsume (BitVec.ofNat 32 ret)).cq produced head' := by
  by_cases hfits : ring.cq.khead + BitVec.ofNat 32 ret ≤ ring.cq.ktail
      ∨ BitVec.ofNat 32 ret = ring.cq.ktail - ring.cq.khead
  . exact ⟨head + ret, Nat.le_refl _, h.consume hret hfits⟩
  . refine ⟨produced.length, hret, h.width, h.mask, h.entries, h.length, ?_, h.ktail, Nat.le_refl _, ?_, ?_⟩
    . unfold Wrapper.cqConsume
      dsimp only
      rw [if_pos (BitVec.not_le.mp fun hle => hfits (.inl hle)), ← h.ktail]
      bv_omega
    . have := Nat.two_pow_pos c
      omega
    . intro i hlo hhi
      omega

-- What a step leaves unfinished was so before, or the kernel has just posted it. The completions are
-- taken in the order in which they are posted, some may be left out.
theorem Looping.step (st : Step) (h : Looping c start w head)
    : ∃ head', Looping c start (w.step st) head'
        ∧ (∀ cqe ∈ (w.step st).unfinished, cqe ∈ w.unfinished
          ∨ ∃ n res flags e, st = .complete n res flags ∧ w.uring.ring.executed[n]? = some e
            ∧ cqe.userData = e.sqe.userData)
        ∧ (w.processed.Sublist (w.produced.take (head + w.phase.done))
          → (w.step st).processed.Sublist
            ((w.step st).produced.take (head' + (w.step st).phase.done))) := by
  have hdone := h.done_le
  have hrounds := h.rounds_le
  have hold := h.posted.unprocessed
  unfold World.unfinished
  cases w.step_turns st with
  | stays hcq hstays =>
    have hposted : Posted c start (w.step st).uring.ring.cq (w.step st).produced head := by
      rw [hcq, hstays.produced]
      exact h.posted
    refine ⟨head, ⟨hposted, ?_, ?_, ?_⟩, ?_, ?_⟩
    . rw [hstays.phase]
      exact hdone
    . rw [hstays.phase, hstays.produced]
      exact hrounds
    . rw [hstays.phase]
      exact h.held
    . intro cqe hcqe
      rw [hposted.unprocessed, hstays.phase, hstays.produced, ← hold] at hcqe
      exact .inl hcqe
    . rw [hstays.processed, hstays.produced, hstays.phase]
      exact id
  | @posted n e new he hdata horigin hroom hcq hphase hproduced hprocessed hcallbacks hst =>
    have hposted : Posted c start (w.step st).uring.ring.cq (w.step st).produced head := by
      rw [hcq, hproduced]
      exact h.posted.post new hroom
    refine ⟨head, ⟨hposted, ?_, ?_, ?_⟩, ?_, ?_⟩
    . rw [hphase]
      exact hdone
    . rw [hphase, hproduced, List.length_append]
      omega
    . rw [hphase]
      exact h.held
    . intro cqe hcqe
      rw [hposted.unprocessed, hphase, hproduced, List.drop_append_of_le_length (by omega), ← hold,
        ← List.append_assoc, List.mem_append, List.mem_singleton] at hcqe
      rcases hcqe with hcqe | hcqe
      . exact .inl hcqe
      . obtain ⟨res, flags, hst⟩ := hst
        rw [hcqe]
        exact .inr ⟨n, res, flags, e, hst, he, hdata⟩
    . rw [hprocessed, hproduced, hphase, List.take_append_of_le_length (by omega)]
      exact id
  | waited errno hst hidle hsome heq =>
    have hle := w.uring.ring.waitCqeTimeout_le errno hsome
    have hposted := h.posted.holds.le
    rw [h.posted.ready] at hle
    have hsame : (w.step st).unprocessed = w.unprocessed := by
      rw [heq]
      unfold World.unprocessed
      rw [hidle]
      rfl
    refine ⟨head, ?_, ?_, ?_⟩
    . rw [heq]
      refine ⟨h.posted, Nat.zero_le _, ?_, fun cqe hcqe => by cases hcqe⟩
      dsimp only [Phase.rounds]
      omega
    . intro cqe hcqe
      rw [hsame, heq] at hcqe
      exact .inl (List.mem_append_right _ hcqe)
    . rw [heq, hidle]
      exact id
  | @taken i ret hloop hlt hcq hproduced hprocessed hphase hcallbacks =>
    have hposted : Posted c start (w.step st).uring.ring.cq (w.step st).produced head := by
      rw [hcq, hproduced]
      exact h.posted
    rw [hloop] at hdone hrounds hold
    dsimp only [Phase.done, Phase.rounds] at hdone hrounds hold
    have hphase' : (w.step st).phase.done = i + 1 ∧ (w.step st).phase.rounds = ret
        ∧ ∀ cqe ∈ (w.step st).phase.held, cqe = w.uring.ring.getCqe i ∧ cqe.userData ≠ 0 := by
      rcases hphase with hphase | ⟨hdata, called, hphase⟩
      . rw [hphase]
        exact ⟨rfl, rfl, fun cqe hcqe => by cases hcqe⟩
      . rw [hphase]
        refine ⟨rfl, rfl, ?_⟩
        intro cqe hcqe
        unfold Phase.held at hcqe
        dsimp only at hcqe
        split at hcqe
        . rw [List.mem_singleton.mp hcqe]
          exact ⟨rfl, hdata⟩
        . cases hcqe
    have hhead : w.unprocessed = w.uring.ring.getCqe i :: w.produced.drop (head + (i + 1)) := by
      rw [hold, List.drop_eq_getElem_cons (by omega),
        h.posted.getCqe (show head + i < w.produced.length by omega), Nat.add_assoc]
    refine ⟨head, ⟨hposted, ?_, ?_, fun cqe hcqe => (hphase'.2.2 cqe hcqe).2⟩, ?_, ?_⟩
    . rw [hphase'.1, hphase'.2.1]
      exact hlt
    . rw [hphase'.2.1, hproduced]
      exact hrounds
    . intro cqe hcqe
      rw [hposted.unprocessed, hphase'.1, hproduced, List.mem_append] at hcqe
      rw [hhead, List.mem_append, List.mem_cons]
      rcases hcqe with hcqe | hcqe
      . exact .inl (.inr (.inl (hphase'.2.2 cqe hcqe).1))
      . exact .inl (.inr (.inr hcqe))
    . rw [hprocessed, hproduced, hphase'.1, hloop, h.posted.getCqe (show head + i < _ by omega),
        ← Nat.add_assoc, List.take_add_one, List.getElem?_eq_getElem (show head + i < _ by omega)]
      exact fun hsub => hsub.append (List.Sublist.refl _)
  | @finished i ret cqe' called hphase hcq hproduced hprocessed hcallbacks hphase' =>
    have hposted : Posted c start (w.step st).uring.ring.cq (w.step st).produced head := by
      rw [hcq, hproduced]
      exact h.posted
    rw [hphase] at hdone hrounds hold
    refine ⟨head, ⟨hposted, ?_, ?_, ?_⟩, ?_, ?_⟩
    . rw [hphase']
      exact hdone
    . rw [hphase', hproduced]
      exact hrounds
    . rw [hphase']
      intro cqe hcqe
      cases hcqe
    . intro cqe hcqe
      rw [hposted.unprocessed, hphase', hproduced] at hcqe
      have hcqe' : cqe ∈ w.unprocessed := by
        rw [hold]
        exact hcqe
      exact .inl (List.mem_append_right _ hcqe')
    . rw [hprocessed, hproduced, hphase, hphase']
      exact id
  | @consumed i ret hst hloop hlt heq =>
    rw [hloop] at hdone hrounds hold
    dsimp only [Phase.done, Phase.rounds] at hdone hrounds hold
    obtain ⟨head', hle, hposted⟩ := h.posted.consume_some hrounds
    have hposted' : Posted c start (w.step st).uring.ring.cq (w.step st).produced head' := by
      rw [heq]
      exact hposted
    have hphase : (w.step st).phase = .idle := by
      rw [heq]
    have hproduced : (w.step st).produced = w.produced := by
      rw [heq]
    refine ⟨head', ⟨hposted', ?_, ?_, ?_⟩, ?_, ?_⟩
    . rw [hphase]
      exact Nat.le_refl _
    . have hposted := hposted.holds.le
      rw [hphase, hproduced]
      dsimp only [Phase.rounds]
      omega
    . rw [hphase]
      intro cqe hcqe
      cases hcqe
    . intro cqe hcqe
      rw [hposted'.unprocessed, hphase, hproduced] at hcqe
      have hcqe' : cqe ∈ w.unprocessed := by
        rw [hold]
        exact (List.drop_sublist_drop_left w.produced (by dsimp only [Phase.done]; omega)).subset hcqe
      exact .inl (List.mem_append_right _ hcqe')
    . have hprocessed : (w.step st).processed = w.processed := by
        rw [heq]
      rw [hprocessed, hphase, hproduced, hloop]
      intro hsub
      exact hsub.trans (List.take_sublist_take_left (by dsimp only [Phase.done]; omega))

namespace World

theorem giveBack_keeps (s : IoUring) (cqe : Cqe) (called : Bool)
    : SameHeap s (if called then giveBack s cqe else s) := by
  split
  . exact giveBack_same s cqe
  . exact ⟨rfl, rfl, rfl, rfl⟩

theorem finish_same {i ret : Nat} {cqe : Cqe} {called : Bool} (h : w.finish i ret cqe called = .ok w')
    : SameHeap w.uring w'.uring := by
  unfold finish at h
  dsimp only at h
  have hgive := giveBack_keeps w.uring cqe called
  split at h
  . split at h
    . cases h
    split at h
    . cases h
      exact hgive
    . obtain ⟨s', hresubmit, h⟩ := Except.bind_eq_ok h
      cases h
      have hsame := resubmitMultishot_same hresubmit
      exact ⟨hsame.actions.trans hgive.actions, hsame.nextAction.trans hgive.nextAction,
        hsame.fdToEventInfo.trans hgive.fdToEventInfo, hsame.idToTimer.trans hgive.idToTimer⟩
  . cases h
    exact ⟨rfl, rfl, rfl, rfl⟩

theorem completeCallback_edits {cqe : Cqe} {a : CompleteAction} (h : w.completeCallback cqe a = .ok w')
    : Edits cqe.userData w.uring w'.uring := by
  unfold completeCallback at h
  split at h
  . cases h
    exact Edits.refl _
  . obtain ⟨s', hrearm, h⟩ := Except.bind_eq_ok h
    have hedits := (Edits.modifyAction w.uring cqe.userData _).same (rearm_same hrearm)
    split at h
    . cases h
      exact hedits
    . split at h
      . cases h
        exact hedits
      . cases h

theorem next_edits {i ret : Nat} (h : w.next i ret = .ok w')
    : Edits (w.uring.ring.getCqe i).userData w.uring w'.uring := by
  unfold next at h
  dsimp only at h
  split at h
  . cases h
    exact Edits.refl _
  . split at h
    . cases h
    . obtain ⟨called, _, h⟩ := Except.bind_eq_ok h
      cases called with
      | false =>
        cases h
        exact Edits.refl _
      | true =>
        obtain ⟨w₁, hcall, h⟩ := Except.bind_eq_ok h
        cases h
        have hedits := completeCallback_edits
          (w := { w with processed := w.processed ++ [w.uring.ring.getCqe i] }) hcall
        exact hedits

theorem next_keeps {i ret : Nat} (h : w.next i ret = .ok w') : Settled w.uring w'.uring :=
  (next_edits h).toSettled

theorem rearm_error {s : IoUring} {action : Nat} {cb : ActionCallback} {fault : Fault}
    (h : rearm s action cb = .error fault)
    : fault = .assert := by
  unfold rearm at h
  split at h
  . split at h
    . cases h
    . dsimp only at h
      split at h
      . cases h
      . cases h
        rfl
  . cases h

theorem completeCallback_error {cqe : Cqe} {a : CompleteAction} {fault : Fault}
    (h : w.completeCallback cqe a = .error fault)
    : fault ≠ .useAfterFree := by
  unfold completeCallback at h
  split at h
  . cases h
  . rcases Except.bind_eq_error h with hrearm | ⟨s', hrearm, h⟩
    . rw [rearm_error hrearm]
      exact Fault.noConfusion
    . split at h
      . cases h
      . split at h
        . cases h
        . cases h
          exact Fault.noConfusion

theorem isCalled_error {s : IoUring} {cqe : Cqe} {fault : Fault} (h : isCalled s cqe = .error fault)
    : fault = .outOfBounds := by
  unfold isCalled hasRoom at h
  split at h
  . split at h
    . cases h
      rfl
    . split at h
      . cases h
      . cases h
  . cases h

-- A round follows the `user_data` of its completion.
theorem next_error {i ret : Nat} {fault : Fault} (h : w.next i ret = .error fault)
    (halive : (w.uring.ring.getCqe i).userData ≠ 0
      → (w.uring.actions (w.uring.ring.getCqe i).userData).isSome)
    : fault ≠ .useAfterFree := by
  unfold next at h
  dsimp only at h
  split at h
  . cases h
  . next hdata =>
    split at h
    . next hnone =>
      have := halive hdata
      rw [hnone] at this
      cases this
    . rcases Except.bind_eq_error h with hcalled | ⟨called, _, h⟩
      . rw [isCalled_error hcalled]
        exact Fault.noConfusion
      . cases called with
        | false => cases h
        | true =>
          rcases Except.bind_eq_error h with hcall | ⟨w₁, _, h⟩
          . exact completeCallback_error hcall
          . cases h

theorem finish_error {i ret : Nat} {cqe : Cqe} {called : Bool} {fault : Fault}
    (h : w.finish i ret cqe called = .error fault)
    (halive : cqe.hasBuffer && !cqe.hasMore → (w.uring.actions cqe.userData).isSome)
    : fault ≠ .useAfterFree := by
  have hgive := giveBack_keeps w.uring cqe called
  unfold finish at h
  dsimp only at h
  split at h
  . next hbuffer =>
    split at h
    . cases h
      exact Fault.noConfusion
    split at h
    . cases h
    . next hmore =>
      rcases Except.bind_eq_error h with hresubmit | ⟨s', _, h⟩
      . unfold resubmitMultishot at hresubmit
        rw [hgive.actions] at hresubmit
        split at hresubmit
        . next hnone =>
          have := halive (by rw [hbuffer, Bool.eq_false_iff.mpr hmore]; rfl)
          rw [hnone] at this
          cases this
        . split at hresubmit
          . cases hresubmit
          . split at hresubmit
            . cases hresubmit
              exact Fault.noConfusion
            . cases hresubmit
      . cases h
  . cases h

end World

-- What a step does to what is known. An entry that it prepares carries a `user_data` that is known from
-- then on, or the one that its slot holds.
structure Advances (w : World) (st : Step) (w' : World) : Prop where
  timers : Timers w'.uring
  known : ∀ a, w.uring.Known a → st.frees w ≠ some a → w'.uring.Known a
  prepared : w'.prepared = w.prepared ∨ ∃ q : Sqe, w'.prepared = w.prepared ++ [q]
      ∧ (w'.uring.Known q.userData
        ∨ ∃ own, st.own w = some own ∧ w.uring.ring.sq.getSqe.1 ≠ none
          ∧ q.userData = w.uring.ring.nextSqe.userData)

theorem Tracks.prepared {hist : List Sqe} (h : Tracks k w.uring.ring hist) : w.prepared = hist :=
  h.pending.symm

theorem Advances.of_effect {st : Step} {ret : Int} {hist : List Sqe} {s' : IoUring}
    (ht : Tracks k w.uring.ring hist) (htimers : Timers w'.uring)
    (hknown : ∀ a, w.uring.Known a → st.frees w ≠ some a → w'.uring.Known a)
    (heffect : Effect (Labels w.uring (st.own w) s'.Known) w.uring.ring ret w'.uring.ring)
    (hsame : SameHeap s' w'.uring)
    : Advances w st w' := by
  refine ⟨htimers, hknown, ?_⟩
  rw [ht.prepared]
  rcases heffect.tracks ht with ht' | ⟨q, hadds, ht'⟩
  . exact .inl ht'.prepared
  . refine .inr ⟨q, ht'.prepared, ?_⟩
    obtain ⟨f, hf, hq⟩ := hadds.fills
    rcases hf with ⟨hown, hdata⟩ | ⟨a, hdata, hknown'⟩
    . obtain ⟨own, hown⟩ := Option.isSome_iff_exists.mp hown
      refine .inr ⟨own, hown, hadds.room, ?_⟩
      rw [hq, hdata]
      rfl
    . left
      rw [hq, hdata]
      exact (hknown' hadds.room).same hsame

theorem Advances.of_ring {st : Step} (htimers : Timers w.uring) (hsettled : Settled w.uring w'.uring)
    (hgrows : Grows (fun _ _ _ => True) w.uring w'.uring) (hprepared : w'.prepared = w.prepared)
    : Advances w st w' := by
  refine ⟨htimers.keep hsettled.toKeeps, ?_, .inl hprepared⟩
  intro a ha _
  exact ha.grow hgrows fun t htimer => (congrFun hsettled.idToTimer t).trans htimer

theorem Advances.same {st : Step} (hheap : Heap (fun _ _ _ => True) w.uring) (htimers : Timers w.uring)
    (hsame : SameHeap w.uring w'.uring) (hprepared : w'.prepared = w.prepared)
    : Advances w st w' :=
  Advances.of_ring htimers hsame.settled ((Grows.refl hheap).same hsame) hprepared

theorem prepared_of_ring (h : w'.uring.ring = w.uring.ring) : w'.prepared = w.prepared := by
  unfold World.prepared
  rw [h]

theorem prepared_of_cq {cq : CompletionQueue} (h : w'.uring.ring = { w.uring.ring with cq })
    : w'.prepared = w.prepared := by
  unfold World.prepared
  rw [h]

namespace World

variable {hist : List Sqe}

theorem next_advances {i ret : Nat} (hheap : Heap (fun _ _ _ => True) w.uring)
    (htimers : Timers w.uring) (ht : Tracks k w.uring.ring hist) (h : w.next i ret = .ok w')
    (hknown : w.uring.Known (w.uring.ring.getCqe i).userData)
    : Advances w .next w' := by
  have htakes := next_takes h
  have hsettled := next_keeps h
  have hgrows := next_grows hheap h
  rcases htakes.completes with ⟨_, hquiet⟩ | ⟨_, w₀, w₁, hcompletes, huring, _, huring', _⟩
  . exact .of_ring htimers hsettled hgrows (prepared_of_ring hquiet.ring)
  . have heffect := hcompletes.effect
    rw [huring, ← huring'] at heffect
    rcases heffect with hquiet | ⟨_, submitted, heffect⟩
    . exact .of_ring htimers hsettled hgrows (prepared_of_ring hquiet.ring)
    . have hkeep : ∀ a, w.uring.Known a → w'.uring.Known a := by
        intro a ha
        exact ha.grow hgrows fun t htimer => (congrFun hsettled.idToTimer t).trans htimer
      have hlabels : Effect (Labels w.uring (Step.own w .next) w'.uring.Known) w.uring.ring submitted
          w'.uring.ring :=
        heffect.mono fun f hf => .inr ⟨_, hf.2, fun _ => hkeep _ hknown⟩
      exact .of_effect ht (htimers.keep hsettled.toKeeps) (fun a ha _ => hkeep a ha) hlabels
        ⟨rfl, rfl, rfl, rfl⟩

theorem finish_advances {i ret : Nat} {cqe : Cqe} {called : Bool}
    (hheap : Heap (fun _ _ _ => True) w.uring) (htimers : Timers w.uring)
    (ht : Tracks k w.uring.ring hist) (hphase : w.phase = .callback i ret cqe called)
    (h : w.finish i ret cqe called = .ok w')
    : Advances w .finish w' := by
  have hsame := finish_same h
  have hgrows := finish_grows hheap h
  rcases (finish_finishes h).effect with hquiet | ⟨_, hown, submitted, heffect⟩
  . exact .of_ring htimers hsame.settled hgrows (prepared_of_ring hquiet.ring)
  . have hstep : Step.own w .finish = w.uring.resubmitOwn cqe := by
      unfold Step.own
      rw [hphase]
    obtain ⟨own, hown⟩ := Option.isSome_iff_exists.mp hown
    rw [hown] at hstep heffect
    have hlabels : Effect (Labels w.uring (Step.own w .finish) w'.uring.Known) w.uring.ring submitted
        w'.uring.ring := by
      rw [hstep]
      exact heffect.mono fun _ hfills => Labels.of_fills hfills
    exact .of_effect ht (htimers.keep hsame.settled.toKeeps) (fun a ha _ => ha.same hsame) hlabels
      ⟨rfl, rfl, rfl, rfl⟩

theorem tryStep_advances {st : Step} (hheap : Heap (fun _ _ _ => True) w.uring)
    (htimers : Timers w.uring) (ht : Tracks k w.uring.ring hist) (hstrands : st.strands w = false)
    (hcqes : ∀ i ret, w.phase = .loop i ret → i < ret → w.uring.Known (w.uring.ring.getCqe i).userData)
    (h : w.tryStep st = .ok w')
    : Advances w st w' := by
  have hsame : ∀ w₁ : World, SameHeap w.uring w₁.uring → w₁.prepared = w.prepared → Advances w st w₁ :=
    fun _ hsame hprepared => .same hheap htimers hsame hprepared
  cases tryStep_tries h with
  | idle => exact hsame w ⟨rfl, rfl, rfl, rfl⟩ rfl
  | called op =>
    obtain ⟨htimers', hknown, ret, heffect⟩ := run_kept hheap htimers ht hstrands
    have hcalls : SameHeap (w.uring.run op).2 (w.uring.exec op).2 := ⟨rfl, rfl, rfl, rfl⟩
    exact .of_effect ht (htimers'.keep hcalls.settled.toKeeps)
      (fun a ha hfreed => (hknown a ha hfreed).same hcalls) heffect hcalls
  | posted =>
    obtain ⟨cq, hpost⟩ := Wrapper.post_eq w.uring.ring _
    exact hsame _ ⟨rfl, rfl, rfl, rfl⟩ (prepared_of_cq hpost)
  | waited => exact hsame _ ⟨rfl, rfl, rfl, rfl⟩ rfl
  | @taken _ i ret hloop hlt hnext => exact next_advances hheap htimers ht hnext (hcqes i ret hloop hlt)
  | finished hphase hfinish => exact finish_advances hheap htimers ht hphase hfinish
  | consumed => exact hsame _ ⟨rfl, rfl, rfl, rfl⟩ (prepared_of_cq rfl)

theorem tryStep_error {st : Step} {fault : Fault}
    (hcqes : ∀ i ret, w.phase = .loop i ret → i < ret → (w.uring.ring.getCqe i).userData ≠ 0
      → (w.uring.actions (w.uring.ring.getCqe i).userData).isSome)
    (hheld : ∀ cqe ∈ w.phase.held, (w.uring.actions cqe.userData).isSome)
    (h : w.tryStep st = .error fault)
    : fault ≠ .useAfterFree := by
  cases st with
  | op op => cases h
  | complete n res flags => cases h
  | wait errno =>
    unfold tryStep at h
    dsimp only at h
    split at h
    . cases h
    . cases h
  | next =>
    unfold tryStep at h
    dsimp only at h
    split at h
    . next i ret hloop =>
      split at h
      . next hlt => exact next_error h (hcqes i ret hloop hlt)
      . cases h
    . cases h
  | finish =>
    unfold tryStep at h
    dsimp only at h
    split at h
    . next i ret cqe called hphase =>
      apply finish_error h
      intro hends
      apply hheld
      rw [hphase]
      unfold Phase.held
      dsimp only
      rw [if_pos hends]
      exact List.mem_singleton_self cqe
    . cases h
  | consume =>
    unfold tryStep at h
    dsimp only at h
    split at h
    . cases h
    . cases h

end World

theorem Looping.ready {i ret : Nat} (h : Looping c start w head) (hloop : w.phase = .loop i ret) (hlt : i < ret)
    : w.uring.ring.getCqe i ∈ w.unfinished := by
  have hrounds := h.rounds_le
  have hold := h.posted.unprocessed
  rw [hloop] at hrounds hold
  dsimp only [Phase.done, Phase.rounds] at hrounds hold
  unfold World.unfinished
  rw [hold, h.posted.getCqe (show head + i < w.produced.length by omega),
    List.drop_eq_getElem_cons (show head + i < w.produced.length by omega)]
  exact List.mem_append_right _ List.mem_cons_self

namespace Flight

theorem mem_requests (q : Sqe) : q ∈ f.requests ↔ ∃ i, f.world.prepared[i]? = some q ∧ i ∉ f.ended := by
  simp only [requests, List.mem_map, List.mem_filter, List.mem_zipIdx_iff_getElem?, decide_eq_true_eq,
    Prod.exists]
  constructor
  . rintro ⟨q', i, ⟨hget, hi⟩, rfl⟩
    exact ⟨i, hget, hi⟩
  . rintro ⟨i, hget, hi⟩
    exact ⟨q, i, ⟨hget, hi⟩, rfl⟩

theorem step_cases (f : Flight) (st : Step)
    : f.step st = f ∨ (f.step st).world = f.world.step st ∧ f.ended ⊆ (f.step st).ended
        ∧ ∀ n res flags, st = .complete n res flags → n ∉ f.ended := by
  cases st with
  | complete n res flags =>
    by_cases hended : n ∈ f.ended
    . left
      unfold step
      dsimp only
      rw [if_pos hended]
    . right
      unfold step
      dsimp only
      rw [if_neg hended]
      refine ⟨?_, ?_, ?_⟩
      . split
        . rfl
        . rfl
      . split
        . exact List.subset_cons_self n f.ended
        . exact List.Subset.refl _
      . intro n' res' flags' heq
        cases heq
        exact hended
  | op op => exact .inr ⟨rfl, List.Subset.refl _, fun _ _ _ heq => by cases heq⟩
  | wait errno => exact .inr ⟨rfl, List.Subset.refl _, fun _ _ _ heq => by cases heq⟩
  | next => exact .inr ⟨rfl, List.Subset.refl _, fun _ _ _ heq => by cases heq⟩
  | finish => exact .inr ⟨rfl, List.Subset.refl _, fun _ _ _ heq => by cases heq⟩
  | consume => exact .inr ⟨rfl, List.Subset.refl _, fun _ _ _ heq => by cases heq⟩

structure Sound (k c start : Nat) (f : Flight) : Prop extends Owned f where
  heap : Heap (fun _ _ _ => True) f.world.uring
  timers : Timers f.world.uring
  tracks : ∃ hist, Tracks k f.world.uring.ring hist
  looping : ∃ head, Looping c start f.world head

theorem Owned.request (h : Owned f) {q : Sqe} (hq : q ∈ f.requests)
    : q.userData ∈ f.carried ∧ f.world.uring.Known q.userData := by
  have hmem : q.userData ∈ f.carried := List.mem_append_left _ (List.mem_map_of_mem hq)
  exact ⟨hmem, h.carried _ hmem⟩

theorem Owned.completion (h : Owned f) {cqe : Cqe} (hcqe : cqe ∈ f.world.unfinished)
    : cqe.userData ∈ f.carried ∧ f.world.uring.Known cqe.userData := by
  have hmem : cqe.userData ∈ f.carried := List.mem_append_right _ (List.mem_map_of_mem hcqe)
  exact ⟨hmem, h.carried _ hmem⟩

theorem Sound.advances {st : Step} (h : Sound k c start f) (hstrands : st.strands f.world = false)
    : Advances f.world st (f.world.step st) := by
  obtain ⟨hist, ht⟩ := h.tracks
  obtain ⟨head, hlooping⟩ := h.looping
  unfold World.step
  split
  . exact .same h.heap h.timers ⟨rfl, rfl, rfl, rfl⟩ rfl
  . split
    . next w' htry =>
      refine World.tryStep_advances h.heap h.timers ht hstrands ?_ htry
      intro i ret hloop hlt
      exact (h.completion (hlooping.ready hloop hlt)).2
    . exact .same h.heap h.timers ⟨rfl, rfl, rfl, rfl⟩ rfl

theorem Sound.fault_step {st : Step} (h : Sound k c start f)
    : (f.world.step st).fault ≠ some .useAfterFree := by
  obtain ⟨head, hlooping⟩ := h.looping
  unfold World.step
  split
  . exact h.fault
  . split
    . next w' htry =>
      rw [World.tryStep_fault htry]
      exact h.fault
    . next fault htry =>
      intro heq
      rw [Option.some.injEq] at heq
      refine World.tryStep_error ?_ ?_ htry heq
      . intro i ret hloop hlt hdata
        exact (h.completion (hlooping.ready hloop hlt)).2.alive h.heap h.timers hdata
      . intro cqe hcqe
        exact (h.completion (List.mem_append_left _ hcqe)).2.alive h.heap h.timers (hlooping.held cqe hcqe)

-- What was carried before and is not let go of is known afterwards.
theorem Sound.keeps {st : Step} {a : Nat} (h : Sound k c start f) (hsafe : f.Safe st) (ha : a ∈ f.carried)
    : (f.world.step st).uring.Known a := by
  apply (h.advances hsafe.stranded).known a (h.carried a ha)
  intro hfreed
  exact hsafe.freed a hfreed ha

theorem Sound.carried_step {st : Step} (h : Sound k c start f) (hsafe : f.Safe st)
    (hworld : (f.step st).world = f.world.step st) (hended : f.ended ⊆ (f.step st).ended)
    (hfresh : ∀ n res flags, st = .complete n res flags → n ∉ f.ended)
    : ∀ a ∈ (f.step st).carried, (f.step st).world.uring.Known a := by
  have hadvances := h.advances hsafe.stranded
  obtain ⟨head, hlooping⟩ := h.looping
  obtain ⟨head', _, hunfinished, _⟩ := hlooping.step st
  rw [hworld]
  intro a ha
  unfold carried at ha
  rw [List.mem_append, List.mem_map, List.mem_map] at ha
  rcases ha with ⟨q, hq, rfl⟩ | ⟨cqe, hcqe, rfl⟩
  . obtain ⟨i, hget, hi⟩ := (mem_requests q).mp hq
    have hi' : i ∉ f.ended := fun hmem => hi (hended hmem)
    rw [hworld] at hget
    have hold : f.world.prepared[i]? = some q → (f.world.step st).uring.Known q.userData := by
      intro hget
      exact h.keeps hsafe (h.request ((mem_requests q).mpr ⟨i, hget, hi'⟩)).1
    rcases hadvances.prepared with hsame | ⟨new, hadds, hnew⟩
    . rw [hsame] at hget
      exact hold hget
    . rw [hadds, List.getElem?_append] at hget
      split at hget
      . exact hold hget
      . have hlast : q = new := by
          have hmem := List.mem_of_getElem? hget
          rw [List.mem_singleton] at hmem
          exact hmem
        rw [hlast]
        rcases hnew with hknown | ⟨own, hown, hroom, hdata⟩
        . exact hknown
        . obtain ⟨hknown, hfreed⟩ := (hsafe.slot own hown).resolve_left hroom
          rw [hdata]
          exact hadvances.known _ hknown hfreed
  . rw [hworld] at hcqe
    rcases hunfinished cqe hcqe with hold | ⟨n, res, flags, e, hst, he, hdata⟩
    . exact h.keeps hsafe (h.completion hold).1
    . rw [hdata]
      refine h.keeps hsafe (h.request ((mem_requests e.sqe).mpr ⟨n, ?_, hfresh n res flags hst⟩)).1
      unfold World.prepared
      have hlt := (List.getElem?_eq_some_iff.mp he).1
      rw [List.getElem?_append_left (by rw [List.length_map]; exact hlt), List.getElem?_map, he]
      rfl

theorem Sound.step {st : Step} (h : Sound k c start f) (hsafe : f.Safe st) : Sound k c start (f.step st) := by
  rcases f.step_cases st with heq | ⟨hworld, hended, hfresh⟩
  . rw [heq]
    exact h
  . obtain ⟨head, hlooping⟩ := h.looping
    obtain ⟨head', hlooping', _, _⟩ := hlooping.step st
    have hcarried := h.carried_step hsafe hworld hended hfresh
    refine ⟨⟨hcarried, ?_⟩, ?_, ?_, ?_, head', ?_⟩
    . rw [hworld]
      exact h.fault_step
    . rw [hworld]
      exact (World.step_grows h.heap (fun _ _ => trivial) fun _ _ _ _ _ _ => trivial).heap
    . rw [hworld]
      exact (h.advances hsafe.stranded).timers
    . rw [hworld]
      exact World.step_tracks st h.tracks
    . rw [hworld]
      exact hlooping'

-- The backend after `init`.
def init (hasTimeoutMultishot : Bool) (ring : Wrapper) : Flight :=
  { world := { uring := .init hasTimeoutMultishot ring } }

theorem Sound.init (k c sqStart cqStart : Nat) (enters : List EnterRet) (hk : k < 32) (hc : c < 32)
    (hasTimeoutMultishot : Bool)
    : Sound k c cqStart (Flight.init hasTimeoutMultishot (Wrapper.init k c sqStart cqStart enters)) := by
  have ht := Tracks.init c sqStart cqStart enters hk
  have hinOrder := InOrder.init k sqStart cqStart enters hc hasTimeoutMultishot
  refine ⟨⟨?_, ?_⟩, Heap.init _ _, ⟨?_, ?_⟩, ⟨[], ht⟩, 0, hinOrder.posted, Nat.le_refl _, Nat.le_refl _, ?_⟩
  . have hprepared : (Flight.init hasTimeoutMultishot
        (Wrapper.init k c sqStart cqStart enters)).world.prepared = [] := ht.prepared
    have hunprocessed : (Flight.init hasTimeoutMultishot
        (Wrapper.init k c sqStart cqStart enters)).world.unprocessed = [] := hinOrder.posted.unprocessed
    unfold carried requests World.unfinished
    rw [hprepared, hunprocessed]
    intro a ha
    cases ha
  . intro hfault
    cases hfault
  . intro t a htimer
    cases htimer
  . intro t t' a htimer
    cases htimer
  . intro cqe hcqe
    cases hcqe

end Flight

theorem run_owned (k c sqStart cqStart : Nat) (enters : List EnterRet) (hk : k < 32) (hc : c < 32)
    (hasTimeoutMultishot : Bool) (steps : List Step)
    (hsafe : Along Flight.step Flight.Safe
      (.init hasTimeoutMultishot (Wrapper.init k c sqStart cqStart enters)) steps)
    : (steps.foldl Flight.step
        (.init hasTimeoutMultishot (Wrapper.init k c sqStart cqStart enters))).Owned := by
  have hsound : Flight.Sound k c cqStart (steps.foldl Flight.step
      (.init hasTimeoutMultishot (Wrapper.init k c sqStart cqStart enters))) :=
    hsafe.invariant (fun _ _ h hst => h.step hst)
      (Flight.Sound.init k c sqStart cqStart enters hk hc hasTimeoutMultishot)
  exact hsound.toOwned

-- A timer is closed in its own callback, as `sleep` does it. Its request ends with another completion.
def closedInCallback : List Step :=
  [.op (.createTimer 1 0 (some 7)), .complete 0 (-62) 2, .wait none, .next, .op (.closeTimer 0), .finish,
    .consume, .complete 0 (-125) 0, .wait none, .next]

theorem closedInCallback_not_owned
    : let start := Flight.init true (Wrapper.init 2 3 0 0 [])
      ¬(closedInCallback.foldl Flight.step start).Owned
        ∧ (closedInCallback.foldl Flight.step start).world.fault = some .useAfterFree
        ∧ ((closedInCallback.take 7).foldl Flight.step start).carried = [1, 0]
        ∧ ((closedInCallback.take 7).foldl Flight.step start).world.uring.actions 1 = none := by
  have hfault : (closedInCallback.foldl Flight.step
      (Flight.init true (Wrapper.init 2 3 0 0 []))).world.fault = some .useAfterFree := by
    decide +kernel
  exact ⟨fun h => h.fault hfault, hfault, by decide +kernel, by decide +kernel⟩

theorem Flight.Safe.of_zero {st : Step} (hfreed : ∀ a ∈ st.frees f.world, a ∉ f.carried)
    (hstranded : st.strands f.world = false)
    (hslot : st.own f.world = none
      ∨ f.world.uring.ring.nextSqe.userData = 0 ∧ st.frees f.world ≠ some 0)
    : f.Safe st := by
  refine ⟨hfreed, hstranded, ?_⟩
  intro own hown
  rcases hslot with hnone | ⟨hzero, hne⟩
  . rw [hown] at hnone
    cases hnone
  . rw [hzero]
    exact .inr ⟨.inl rfl, hne⟩

-- The timer is closed when its request has ended.
def closedAfterEnd : List Step :=
  [.op (.createTimer 1 0 (some 7)), .complete 0 (-62) 0, .wait none, .next, .finish, .consume,
    .op (.closeTimer 0)]

theorem closedAfterEnd_owned
    : (closedAfterEnd.foldl Flight.step (Flight.init true (Wrapper.init 2 3 0 0 []))).Owned := by
  refine run_owned 2 3 0 0 [] (by decide) (by decide) true closedAfterEnd ?_
  unfold closedAfterEnd Along
  refine ⟨?_, ?_, ?_, ?_, ?_, ?_, ?_, trivial⟩
  all_goals exact .of_zero (by decide +kernel) (by decide +kernel) (by decide +kernel)

end Uring
end Event
end Ezio
