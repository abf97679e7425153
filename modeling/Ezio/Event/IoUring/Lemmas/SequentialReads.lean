import Ezio.Event.IoUring.Lemmas.ReadOffset
import Ezio.Lib.List

/-!
This module contains the byte ranges that the reads of a file cover when no offset is given. They follow
each other if each read is submitted after the callbacks of all the reads before it.
-/

namespace Ezio
namespace Event
namespace Uring

open IoUring

namespace World

-- Whether the `complete_action` with this address is the one of the reads of the file descriptor.
def isRead (w : World) (fd : Fd) (userData : Nat) : Bool :=
  w.uring.readAction fd.key = some userData

-- The reads that have got an entry, those that have completed and those whose callback has been called.
def reads (w : World) (fd : Fd) : List Sqe :=
  w.prepared.filter fun q => w.isRead fd q.userData

def completed (w : World) (fd : Fd) : List Cqe :=
  w.produced.filter fun cqe => w.isRead fd cqe.userData

def handed (w : World) (fd : Fd) : List Called :=
  w.callbacks.filter fun c => w.isRead fd c.action

-- The bytes that are read, the completions come in the order of the reads.
def ranges (w : World) (fd : Fd) : List (Nat × Nat) :=
  List.zipWith (fun q cqe => (q.off, q.off + cqe.res.toNat)) (w.reads fd) (w.completed fd)

-- How far the callbacks have been told that the file has been read.
def total (w : World) (fd : Fd) : Nat :=
  ((w.handed fd).map (·.res.toNat)).sum

-- A read of the file descriptor that gets an entry.
def entersRead (w : World) (fd : Fd) : Step → Bool
  | .op (.submitAsyncRead fd' buffer cnt _ _) =>
    w.fault.isNone && fd'.key = fd.key && w.uring.isReadValid fd' buffer cnt
      && w.uring.ring.sq.getSqe.1.isSome
  | _ => false

-- The last completion of the request has been posted.
def hasEnded (w : World) (q : Sqe) : Bool :=
  w.produced.any fun cqe => cqe.origin = q.origin && !cqe.hasMore

-- What is carried by the requests that may still complete and by the completions that `dispatch` has not come to.
def carried (w : World) : List Nat :=
  (w.prepared.filter fun q => !w.hasEnded q).map (·.userData) ++ w.unfinished.map (·.userData)

end World

-- A `complete_action` is released while it is carried, so that another one may be made in its place.
def Step.releasesCarried (w : World) (st : Step) : Bool :=
  (st.frees w).any (fun a => a ∈ w.carried) || st.strands w

-- The file descriptor is read from without an offset. There may be any other calls on other ones.
def Op.isSequential (fd : Fd) : Op → Bool
  | .submitAsyncRead fd' _ _ _ opt => fd'.key ≠ fd.key || fd' = fd && (opt.bind (·.offset)).isNone
  | op => !op.usesReads fd.key

-- The reads complete in the order of their submission, with a positive count of at most what they ask
-- for. The entries that keep the `user_data` of their slot are left out, and what is carried is not released.
def Step.inSequence (fd : Fd) (w : World) (st : Step) : Bool :=
  (st.own w).isNone && !st.releasesCarried w && match st with
    | .op call => call.isSequential fd
    | .complete n res flags =>
      match w.uring.ring.executed[n]? with
      | none => true
      | some e =>
        !w.isRead fd e.sqe.userData
          || ((w.prepared.take n).filter fun q => w.isRead fd q.userData).length = (w.completed fd).length
            && 0 < res && res ≤ e.sqe.requested && !Cqe.hasBuffer { flags }
    | _ => true

-- A read is submitted when the callbacks of all the reads before it have been called.
def Step.caughtUp (fd : Fd) (w : World) (st : Step) : Bool :=
  !w.entersRead fd st || (w.handed fd).length = (w.reads fd).length

-- Each range starts where the one before it ends, and no two of them have a byte in common.
def Consecutive (ranges : List (Nat × Nat)) : Prop :=
  ranges.IsChain (fun r r' => r.2 = r'.1) ∧ ranges.Pairwise fun r r' => r.2 ≤ r'.1

variable {fd : Fd} {k c start head : Nat} {hist : List Sqe} {w w' : World} {st : Step}

theorem World.isRead_iff (w : World) (fd : Fd) (userData : Nat)
    : w.isRead fd userData ↔ w.uring.readAction fd.key = some userData :=
  decide_eq_true_iff

-- The `complete_action` of the reads is at the end of what the callbacks have been told.
def World.Cursor (w : World) (fd : Fd) : Prop :=
  ∀ a, w.uring.readAction fd.key = some a
    → 0 < a ∧ ∃ act, w.uring.actions a = some act ∧ act.ReadTo (w.total fd)

-- A step prepares a read that starts at the cursor, or at most an entry that is none of the reads.
inductive Prepares (fd : Fd) (w : World) (st : Step) (w' : World) : Prop where
  | entered (q : Sqe) (henters : w.entersRead fd st) (hprepared : w'.prepared = w.prepared ++ [q])
      (hread : w'.isRead fd q.userData) (hoffset : q.requested = 0 ∨ q.off = w.total fd)
      (hsame : ∀ d, d < w.uring.nextAction → w'.isRead fd d = w.isRead fd d)
  | other (henters : w.entersRead fd st = false)
      (hprepared : w'.prepared = w.prepared
        ∨ ∃ q : Sqe, w'.prepared = w.prepared ++ [q] ∧ w'.isRead fd q.userData = false)
      (hsame : w'.uring.readAction fd.key = w.uring.readAction fd.key)

theorem Prepares.isRead (h : Prepares fd w st w') {d : Nat} (hd : d < w.uring.nextAction)
    : w'.isRead fd d = w.isRead fd d := by
  cases h with
  | entered q henters hprepared hread hoffset hsame => exact hsame d hd
  | other henters hprepared hsame =>
    unfold World.isRead
    rw [hsame]

theorem Prepares.of_ring (henters : w.entersRead fd st = false) (hspares : Spares fd.key w.uring w'.uring)
    (hprepared : w'.prepared = w.prepared)
    : Prepares fd w st w' :=
  .other henters (.inl hprepared) hspares.readAction

theorem Prepares.of_spares (ht : Tracks k w.uring.ring hist) (henters : w.entersRead fd st = false)
    (hspares : SparesRing fd.key w.uring w'.uring)
    : Prepares fd w st w' := by
  obtain ⟨ret, heffect⟩ := hspares.effect
  refine .other henters ?_ hspares.readAction
  rw [ht.prepared]
  rcases heffect.tracks ht with ht' | ⟨q, ⟨⟨f, hf, hq⟩, hroom, _⟩, ht'⟩
  . exact .inl ht'.prepared
  . refine .inr ⟨q, ht'.prepared, ?_⟩
    rcases hf with ⟨hown, _⟩ | ⟨a, hdata, hne⟩
    . cases hown
    . unfold World.isRead
      rw [hq, hdata, decide_eq_false_iff_not]
      exact hne hroom

theorem World.Cursor.of_spares (h : w.Cursor fd) (hspares : Spares fd.key w.uring w'.uring)
    (hcallbacks : w'.callbacks = w.callbacks)
    : w'.Cursor fd := by
  have htotal : w'.total fd = w.total fd := by
    unfold World.total World.handed World.isRead
    rw [hcallbacks, hspares.readAction]
  intro a ha
  rw [hspares.readAction] at ha
  rw [htotal, hspares.actions a ha]
  exact h a ha

namespace World

-- The calls, the ones that are no read of the file descriptor or that get no entry first.
theorem entersRead_of_not_usesReads {op : Op} (h : op.usesReads fd.key = false)
    : w.entersRead fd (.op op) = false := by
  cases op with
  | submitAsyncRead fd' buffer cnt cb opt =>
    have hkey : fd'.key ≠ fd.key := of_decide_eq_false h
    simp [entersRead, hkey]
  | _ => rfl

theorem exec_spares {op : Op} (h : SparesRing fd.key w.uring (w.uring.run op).2)
    : SparesRing fd.key w.uring (w.uring.exec op).2 := by
  obtain ⟨⟨haction, hactions⟩, heffect⟩ := h
  exact ⟨⟨haction, hactions⟩, heffect⟩

theorem isSequential_cases {op : Op} (h : op.isSequential fd)
    : op.usesReads fd.key = false
        ∨ ∃ buffer cnt cb opt, op = .submitAsyncRead fd buffer cnt cb opt
          ∧ opt.bind (·.offset) = none := by
  cases op with
  | submitAsyncRead fd' buffer cnt cb opt =>
    simp only [Op.isSequential, Bool.or_eq_true, Bool.and_eq_true, decide_eq_true_eq, Option.isNone_iff_eq_none]
      at h
    rcases h with hkey | ⟨rfl, hopt⟩
    . exact .inl (decide_eq_false hkey)
    . exact .inr ⟨buffer, cnt, cb, opt, rfl, hopt⟩
  | _ => exact .inl (by simpa [Op.isSequential] using h)

-- Nothing has been called back for a `complete_action` that is still to be made.
theorem total_of_none (h : w.uring.readAction fd.key = none) : w.total fd = 0 := by
  unfold total handed isRead
  rw [h]
  simp

theorem read_prepares {buffer : Option IovPtr} {cnt : Nat} {cb : Option Callback}
    {opt : Option ReadOptions} (hfile : fd.type = .file) (hopt : opt.bind (·.offset) = none)
    (hnext : 0 < w.uring.nextAction) (ht : Tracks k w.uring.ring hist) (hcursor : w.Cursor fd)
    (hbound : ∀ cl ∈ w.callbacks, cl.action < w.uring.nextAction) (hfault : w.fault = none)
    (huring : w'.uring = (w.uring.exec (.submitAsyncRead fd buffer cnt cb opt)).2)
    (hcallbacks : w'.callbacks = w.callbacks)
    : Prepares fd w (.op (.submitAsyncRead fd buffer cnt cb opt)) w' ∧ w'.Cursor fd := by
  have hexec : SameHeap (w.uring.submitAsyncRead fd buffer cnt cb opt).2 w'.uring := by
    rw [huring]
    exact ⟨rfl, rfl, rfl, rfl⟩
  have hring : w'.uring.ring = (w.uring.submitAsyncRead fd buffer cnt cb opt).2.ring := by
    rw [huring]
    rfl
  cases henters : w.entersRead fd (.op (.submitAsyncRead fd buffer cnt cb opt)) with
  | false =>
    have hrefused : w.uring.isReadValid fd buffer cnt → w.uring.ring.sq.getSqe.1 = none := by
      intro hvalid
      simpa [entersRead, hfault, hvalid] using henters
    obtain ⟨hsame, ht'⟩ := submitAsyncRead_refused cb opt hrefused ht
    rw [← hring] at ht'
    have hspares : Spares fd.key w.uring w'.uring := hsame.spares.trans hexec.spares
    exact ⟨.of_ring henters hspares (ht'.prepared.trans ht.prepared.symm),
      hcursor.of_spares hspares hcallbacks⟩
  | true =>
    have hvalid : w.uring.isReadValid fd buffer cnt ∧ w.uring.ring.sq.getSqe.1 ≠ none := by
      simpa [entersRead, hfault, Option.isSome_iff_ne_none] using henters
    obtain ⟨q, a, act, ht', ha, hdata, hoffset, hread, hact, hreadTo⟩ :=
      submitAsyncRead_entered cb hfile hopt hvalid.1 ht hvalid.2 (fun a ha => (hcursor a ha).2)
        total_of_none
    have hread' : w'.uring.readAction fd.key = some a := by
      rw [← hread]
      exact hexec.spares.readAction
    have hsame : ∀ d, d < w.uring.nextAction → w'.isRead fd d = w.isRead fd d := by
      intro d hd
      unfold isRead
      rw [hread', ha]
      cases w.uring.readAction fd.key with
      | none => simp; omega
      | some b => rfl
    have htotal : w'.total fd = w.total fd := by
      unfold total handed
      rw [hcallbacks, List.filter_congr fun cl hcl => hsame cl.action (hbound cl hcl)]
    refine ⟨.entered q henters ?_ ?_ hoffset hsame, ?_⟩
    . rw [← hring] at ht'
      exact ht'.prepared.trans (by rw [ht.prepared])
    . rw [isRead_iff, hread', hdata]
    . intro b hb
      rw [hread', Option.some.injEq] at hb
      rw [← hb, htotal]
      refine ⟨?_, act, (congrFun hexec.actions a).trans hact, hreadTo⟩
      rw [ha]
      cases hold : w.uring.readAction fd.key with
      | none => exact hnext
      | some b => exact (hcursor b hold).1

theorem op_prepares {op : Op} (hfile : fd.type = .file) (hheap : Heap (fun _ _ _ => True) w.uring)
    (hnext : 0 < w.uring.nextAction) (ht : Tracks k w.uring.ring hist) (hcursor : w.Cursor fd)
    (hbound : ∀ cl ∈ w.callbacks, cl.action < w.uring.nextAction) (hfault : w.fault = none)
    (hown : op.own w.uring = none) (hop : op.isSequential fd)
    (huring : w'.uring = (w.uring.exec op).2) (hcallbacks : w'.callbacks = w.callbacks)
    : Prepares fd w (.op op) w' ∧ w'.Cursor fd := by
  rcases isSequential_cases hop with hother | ⟨buffer, cnt, cb, opt, rfl, hopt⟩
  . have hspares := exec_spares (run_spares hheap hown hother)
    rw [← huring] at hspares
    exact ⟨.of_spares ht (entersRead_of_not_usesReads hother) hspares,
      hcursor.of_spares hspares.toSpares hcallbacks⟩
  . exact read_prepares hfile hopt hnext ht hcursor hbound hfault huring hcallbacks

-- A round of the loop for another `complete_action`.
theorem next_spares {i ret : Nat} (h : w.next i ret = .ok w')
    (hother : w.isRead fd (w.uring.ring.getCqe i).userData = false)
    : SparesRing fd.key w.uring w'.uring := by
  have hne : w.uring.readAction fd.key ≠ some (w.uring.ring.getCqe i).userData :=
    of_decide_eq_false hother
  have hspares : Spares fd.key w.uring w'.uring := (next_edits h).spares hne
  rcases (next_takes h).completes with ⟨_, hquiet⟩ | ⟨_, w₀, w₁, hcompletes, huring, _, huring', _⟩
  . exact .of_quiet hspares hquiet.ring
  . have heffect := hcompletes.effect
    rw [huring, ← huring'] at heffect
    rcases heffect with hquiet | ⟨_, submitted, heffect⟩
    . exact .of_quiet hspares hquiet.ring
    . refine ⟨hspares, submitted, heffect.mono fun f hf => .inr ⟨_, hf.2, fun _ => ?_⟩⟩
      rw [hspares.readAction]
      exact hne

-- A timer that has expired passes on no count either.
theorem toNat_resOf (cb : ActionCallback) (res : Int)
    : (resOf cb res).toNat = res.toNat := by
  unfold resOf
  split
  . split
    . next hres =>
      rw [hres]
      rfl
    . rfl
  . rfl

theorem next_callbacks {i ret : Nat} (h : w.next i ret = .ok w')
    : w'.callbacks = w.callbacks ∨ ∃ cl, w'.callbacks = w.callbacks ++ [cl]
        ∧ cl.action = (w.uring.ring.getCqe i).userData ∧ cl.res.toNat = (w.uring.ring.getCqe i).res.toNat := by
  rcases (next_takes h).completes with ⟨hcallbacks, _⟩ | ⟨_, w₀, w₁, hcompletes, _, hcall, _, hcall'⟩
  . exact .inl hcallbacks
  . rw [hcall', ← hcall]
    rcases hcompletes.callbacks with hnone | ⟨cl, _, hsome, _, haction, _, cb, _, hres, _⟩
    . exact .inl hnone
    . exact .inr ⟨cl, hsome, haction, by rw [hres, toNat_resOf]⟩

-- A round of the loop for a read of the file moves the cursor on if there is a callback.
theorem next_read {i ret a offset : Nat} {act : CompleteAction} (h : w.next i ret = .ok w')
    (hdata : (w.uring.ring.getCqe i).userData = a) (ha : 0 < a) (hact : w.uring.actions a = some act)
    (hreadTo : act.ReadTo offset) (hres : 0 < (w.uring.ring.getCqe i).res)
    (hbuffer : (w.uring.ring.getCqe i).hasBuffer = false)
    : w'.uring = w.uring ∧ w'.callbacks = w.callbacks
      ∨ ∃ f cl, w'.uring = w.uring.modifyAction a f ∧ w'.callbacks = w.callbacks ++ [cl]
        ∧ cl.action = a ∧ cl.res = (w.uring.ring.getCqe i).res
        ∧ (f act).ReadTo (offset + cl.res.toNat) := by
  obtain ⟨henabled, hcursor, hcallback⟩ := hreadTo
  unfold next isCalled at h
  dsimp only at h
  rw [if_neg (by omega), hdata, hact, if_neg (Bool.eq_false_iff.mp hbuffer)] at h
  dsimp only at h
  obtain ⟨called, hcalled, h⟩ := Except.bind_eq_ok h
  cases hcalled
  dsimp only at h
  obtain ⟨w₁, hcomplete, h⟩ := Except.bind_eq_ok h
  cases h
  unfold completeCallback at hcomplete
  rcases hcallback with hnone | ⟨user, buffer, cnt, hread⟩
  . rw [hnone] at hcomplete
    cases hcomplete
    exact .inl ⟨rfl, rfl⟩
  . rw [hread] at hcomplete
    cases hcomplete
    rw [hdata]
    refine .inr ⟨_, _, rfl, rfl, rfl, rfl, ?_⟩
    dsimp only
    rw [if_pos ⟨hres, henabled⟩]
    exact ⟨henabled, by rw [hcursor, toNat_resOf], .inr ⟨user, buffer, cnt, hread⟩⟩

theorem total_append {cl : Called} (hcallbacks : w'.callbacks = w.callbacks ++ [cl])
    (haction : w'.uring.readAction fd.key = w.uring.readAction fd.key)
    : w'.total fd = w.total fd + if w.isRead fd cl.action then cl.res.toNat else 0 := by
  unfold total handed isRead
  rw [hcallbacks, haction, List.filter_append, List.map_append, List.sum_append]
  by_cases hread : w.uring.readAction fd.key = some cl.action
  . simp [hread]
  . simp [hread]

theorem next_prepares {i ret : Nat} (ht : Tracks k w.uring.ring hist) (hcursor : w.Cursor fd)
    (h : w.next i ret = .ok w')
    (hcqe : w.isRead fd (w.uring.ring.getCqe i).userData
      → 0 < (w.uring.ring.getCqe i).res ∧ (w.uring.ring.getCqe i).hasBuffer = false)
    : Prepares fd w .next w' ∧ w'.Cursor fd := by
  cases hread : w.isRead fd (w.uring.ring.getCqe i).userData with
  | false =>
    have hspares := next_spares h hread
    refine ⟨.of_spares ht rfl hspares, ?_⟩
    rcases next_callbacks h with hcallbacks | ⟨cl, hcallbacks, haction, _⟩
    . exact hcursor.of_spares hspares.toSpares hcallbacks
    . have htotal : w'.total fd = _ := total_append hcallbacks hspares.readAction
      rw [haction, hread, if_neg Bool.false_ne_true] at htotal
      intro a ha
      rw [hspares.readAction] at ha
      rw [htotal, hspares.actions a ha]
      exact hcursor a ha
  | true =>
    obtain ⟨hres, hbuffer⟩ := hcqe hread
    have hown := (isRead_iff w fd _).mp hread
    obtain ⟨hpos, act, hact, hreadTo⟩ := hcursor _ hown
    rcases next_read h rfl hpos hact hreadTo hres hbuffer with
      ⟨huring, hcallbacks⟩ | ⟨f, cl, huring, hcallbacks, haction, _, hreadTo'⟩
    . have hspares : Spares fd.key w.uring w'.uring := by
        rw [huring]
        exact .refl _
      exact ⟨.of_ring rfl hspares (prepared_of_ring (congrArg _ huring)),
        hcursor.of_spares hspares hcallbacks⟩
    . have hsame : w'.uring.readAction fd.key = w.uring.readAction fd.key := by
        rw [huring]
        rfl
      refine ⟨.other rfl (.inl (prepared_of_ring ?_)) hsame, ?_⟩
      . rw [huring]
        rfl
      . have htotal : w'.total fd = _ := total_append hcallbacks hsame
        rw [haction, if_pos hread] at htotal
        intro a ha
        rw [hsame, hown, Option.some.injEq] at ha
        rw [← ha, htotal]
        refine ⟨hpos, f act, ?_, hreadTo'⟩
        rw [huring]
        unfold IoUring.modifyAction
        dsimp only
        rw [Function.update_self, hact]
        rfl

theorem finish_prepares {i ret : Nat} {cqe : Cqe} {called : Bool} (hcursor : w.Cursor fd)
    (hphase : w.phase = .callback i ret cqe called) (hown : Step.own w .finish = none)
    (h : w.finish i ret cqe called = .ok w')
    : Prepares fd w .finish w' ∧ w'.Cursor fd := by
  have hspares : Spares fd.key w.uring w'.uring := (finish_same h).spares
  refine ⟨.of_ring rfl hspares (prepared_of_ring ?_),
    hcursor.of_spares hspares (finish_finishes h).callbacks⟩
  rcases (finish_finishes h).effect with hquiet | ⟨_, hsome, _⟩
  . exact hquiet.ring
  . unfold Step.own at hown
    rw [hphase] at hown
    dsimp only at hown
    rw [hown] at hsome
    cases hsome

end World

-- A file is read without an offset.
structure Reading (fd : Fd) (k c start : Nat) (w : World) (head : Nat) : Prop where
  untargeted : Untargeted k w
  looping : Looping c start w head
  cursor : w.Cursor fd
  produced : ∀ cqe ∈ w.produced, cqe.userData < w.uring.nextAction
  callbacks : ∀ cl ∈ w.callbacks, cl.action < w.uring.nextAction
  positive : ∀ cqe ∈ w.completed fd, 0 < cqe.res ∧ cqe.hasBuffer = false
  processed : w.processed.Sublist (w.produced.take (head + w.phase.done))
  handed : ((w.handed fd).map (·.res.toNat)).Sublist
      ((w.processed.filter fun cqe => w.isRead fd cqe.userData).map (·.res.toNat))
  first : ∀ q : Sqe, (w.reads fd)[0]? = some q → q.requested = 0 ∨ q.off = 0
  answered : (w.completed fd).length ≤ (w.reads fd).length
  requested : ∀ q ∈ (w.reads fd).take (w.completed fd).length, 0 < q.requested

namespace Reading

theorem getCqe (h : Reading fd k c start w head) {i ret : Nat} (hloop : w.phase = .loop i ret)
    (hlt : i < ret)
    : w.uring.ring.getCqe i ∈ w.produced := by
  have hrounds := h.looping.rounds_le
  rw [hloop] at hrounds
  dsimp only [Phase.rounds] at hrounds
  rw [h.looping.posted.getCqe (show head + i < w.produced.length by omega)]
  exact List.getElem_mem _

theorem step_prepares (h : Reading fd k c start w head) (hfile : fd.type = .file)
    (hst : st.inSequence fd w)
    : Prepares fd w st (w.step st) ∧ (w.step st).Cursor fd := by
  obtain ⟨hist, ht⟩ := h.untargeted.tracks
  obtain ⟨hkeeps, hcall⟩ := (Bool.and_eq_true _ _).mp hst
  obtain ⟨hown, _⟩ := (Bool.and_eq_true _ _).mp hkeeps
  rw [Option.isNone_iff_eq_none] at hown
  -- what leaves the `complete_action`s and the submission queue as they are
  have hkept : ∀ w' : World, w.entersRead fd st = false → SameHeap w.uring w'.uring
      → w'.prepared = w.prepared → w'.callbacks = w.callbacks → Prepares fd w st w' ∧ w'.Cursor fd := by
    intro w' henters hsame hprepared hcallbacks
    exact ⟨.of_ring henters hsame.spares hprepared, h.cursor.of_spares hsame.spares hcallbacks⟩
  unfold World.step
  split
  . next f hfault =>
    refine hkept w ?_ ⟨rfl, rfl, rfl, rfl⟩ rfl rfl
    unfold World.entersRead
    split
    . rw [hfault]
      rfl
    . rfl
  . next hfault =>
    split
    . next w' htry =>
      cases World.tryStep_tries htry with
      | idle _ hop =>
        refine hkept w ?_ ⟨rfl, rfl, rfl, rfl⟩ rfl rfl
        cases st with
        | op op => exact absurd rfl (hop op)
        | _ => rfl
      | called op =>
        exact World.op_prepares hfile h.untargeted.heap h.untargeted.zero.1 ht h.cursor h.callbacks hfault
          hown hcall rfl rfl
      | posted =>
        obtain ⟨cq, hpost⟩ := Wrapper.post_eq w.uring.ring _
        exact hkept _ rfl ⟨rfl, rfl, rfl, rfl⟩ (prepared_of_cq hpost) rfl
      | waited => exact hkept _ rfl ⟨rfl, rfl, rfl, rfl⟩ rfl rfl
      | taken hloop hlt hnext =>
        refine World.next_prepares ht h.cursor hnext fun hread => ?_
        exact h.positive _ (List.mem_filter.mpr ⟨h.getCqe hloop hlt, hread⟩)
      | finished hphase hfinish => exact World.finish_prepares h.cursor hphase hown hfinish
      | consumed => exact hkept _ rfl ⟨rfl, rfl, rfl, rfl⟩ (prepared_of_cq rfl) rfl
    . next f htry =>
      refine hkept _ ?_ ⟨rfl, rfl, rfl, rfl⟩ rfl rfl
      cases st with
      | op op => cases htry
      | _ => rfl

theorem prepared_lt (h : Reading fd k c start w head) : ∀ q ∈ w.prepared, q.userData < w.uring.nextAction :=
  fun q hq => (h.untargeted.prepared q hq).1

-- The reads after a step.
theorem reads_step (h : Reading fd k c start w head) (hprepares : Prepares fd w st w')
    : w'.reads fd = w.reads fd ∧ w.entersRead fd st = false
        ∨ w.entersRead fd st ∧ ∃ q : Sqe, w'.reads fd = w.reads fd ++ [q]
          ∧ (q.requested = 0 ∨ q.off = w.total fd) := by
  have hold : w.prepared.filter (fun q => w'.isRead fd q.userData) = w.reads fd :=
    List.filter_congr fun q hq => hprepares.isRead (h.prepared_lt q hq)
  cases hprepares with
  | entered q henters hprepared hread hoffset hsame =>
    refine .inr ⟨henters, q, ?_, hoffset⟩
    unfold World.reads at hold ⊢
    rw [hprepared, List.filter_append, hold]
    simp [hread]
  | other henters hprepared hsame =>
    refine .inl ⟨?_, henters⟩
    unfold World.reads at hold ⊢
    rcases hprepared with hprepared | ⟨q, hprepared, hread⟩
    . rw [hprepared]
      exact hold
    . rw [hprepared, List.filter_append, hold]
      simp [hread]

theorem executed_prepared {w : World} {n : Nat} {e : Executed} (he : w.uring.ring.executed[n]? = some e)
    : w.prepared[n]? = some e.sqe := by
  obtain ⟨hlt, hget⟩ := List.getElem?_eq_some_iff.mp he
  unfold World.prepared
  rw [List.getElem?_append_left (by rw [List.length_map]; exact hlt), List.getElem?_map, he]
  rfl

-- The kernel posts the completion of the next read, or of another entry.
theorem produced_step (w : World) (st : Step)
    : (w.step st).produced = w.produced ∨ ∃ n res flags e, st = .complete n res flags
        ∧ w.uring.ring.executed[n]? = some e
        ∧ (w.step st).produced = w.produced ++ [⟨e.sqe.userData, res, flags, e.sqe.origin⟩] := by
  cases st with
  | complete n res flags =>
    unfold World.step
    split
    . exact .inl rfl
    . unfold World.tryStep World.complete
      dsimp only
      cases he : w.uring.ring.executed[n]? with
      | none => exact .inl rfl
      | some e =>
        dsimp only
        split
        . exact .inl rfl
        . exact .inr ⟨n, res, flags, e, rfl, he, rfl⟩
  | _ =>
    left
    cases w.step_turns _ with
    | stays hcq hstays => exact hstays.produced
    | posted cqe he hdata horigin hroom hcq hphase hproduced hprocessed hcallbacks hst =>
      obtain ⟨res, flags, hst⟩ := hst
      cases hst
    | waited errno hst hidle hsome heq => rw [heq]
    | taken hloop hlt hcq hproduced => exact hproduced
    | finished hphase hcq hproduced => exact hproduced
    | consumed hst hloop hdone heq => rw [heq]

theorem completed_step (h : Reading fd k c start w head) (hprepares : Prepares fd w st (w.step st))
    (hst : st.inSequence fd w)
    : (w.step st).completed fd = w.completed fd
        ∨ ∃ (cqe : Cqe) (q : Sqe), (w.step st).completed fd = w.completed fd ++ [cqe] ∧ 0 < cqe.res
          ∧ cqe.hasBuffer = false ∧ (w.reads fd)[(w.completed fd).length]? = some q ∧ 0 < q.requested := by
  have hold : w.produced.filter (fun cqe => (w.step st).isRead fd cqe.userData) = w.completed fd :=
    List.filter_congr fun cqe hcqe => hprepares.isRead (h.produced cqe hcqe)
  unfold World.completed at hold ⊢
  rcases produced_step w st with hproduced | ⟨n, res, flags, e, rfl, he, hproduced⟩
  . rw [hproduced]
    exact .inl hold
  . have hget := executed_prepared he
    have hlt := h.prepared_lt e.sqe (List.mem_of_getElem? hget)
    rw [hproduced, List.filter_append, hold]
    unfold Step.inSequence at hst
    dsimp only at hst
    rw [he] at hst
    dsimp only at hst
    cases hread : w.isRead fd e.sqe.userData with
    | false =>
      left
      rw [← hprepares.isRead hlt] at hread
      simp [hread]
    | true =>
      right
      rw [hread] at hst
      simp only [Bool.not_true, Bool.false_or, Bool.and_eq_true, decide_eq_true_eq, Bool.not_eq_true'] at hst
      obtain ⟨_, ⟨⟨hcount, hpos⟩, hle⟩, hbuffer⟩ := hst
      refine ⟨⟨e.sqe.userData, res, flags, e.sqe.origin⟩, e.sqe, ?_, hpos, hbuffer, ?_, by omega⟩
      . rw [← hprepares.isRead hlt] at hread
        simp [hread]
      . have hplace := getElem?_filter_length (p := fun q : Sqe => w.isRead fd q.userData) hget hread
        rw [hcount] at hplace
        exact hplace

-- The callbacks that have been called for the reads are those of completions that were processed.
theorem handed_step (h : Reading fd k c start w head) (hprepares : Prepares fd w st (w.step st))
    : (((w.step st).handed fd).map (·.res.toNat)).Sublist
        (((w.step st).processed.filter fun cqe => (w.step st).isRead fd cqe.userData).map (·.res.toNat)) := by
  have hcalls : w.callbacks.filter (fun cl => (w.step st).isRead fd cl.action) = w.handed fd :=
    List.filter_congr fun cl hcl => hprepares.isRead (h.callbacks cl hcl)
  have hprocessed : w.processed.filter (fun cqe => (w.step st).isRead fd cqe.userData)
      = w.processed.filter fun cqe => w.isRead fd cqe.userData := by
    refine List.filter_congr fun cqe hcqe => hprepares.isRead (h.produced cqe ?_)
    exact List.mem_of_mem_take (h.processed.subset hcqe)
  have hsame : (w.step st).callbacks = w.callbacks → (w.step st).processed = w.processed
      → (((w.step st).handed fd).map (·.res.toNat)).Sublist
        (((w.step st).processed.filter fun cqe => (w.step st).isRead fd cqe.userData).map (·.res.toNat)) := by
    intro hcallbacks hprocessed'
    unfold World.handed
    rw [hcallbacks, hprocessed', hcalls, hprocessed]
    exact h.handed
  cases w.step_turns st with
  | stays hcq hstays => exact hsame hstays.callbacks hstays.processed
  | posted cqe he hdata horigin hroom hcq hphase hproduced hprocessed' hcallbacks =>
    exact hsame hcallbacks hprocessed'
  | waited errno hst hidle hsome heq => exact hsame (by rw [heq]) (by rw [heq])
  | @taken i ret hloop hlt hcq hproduced hprocessed' hphase hcallbacks =>
    unfold World.handed
    rw [hprocessed', List.filter_append, List.map_append, hprocessed]
    rcases hcallbacks with hnone | ⟨_, cl, ⟨_, haction, _, cb, _, _, hres, _⟩, hadds⟩
    . rw [hnone, hcalls]
      exact h.handed.trans (List.sublist_append_left _ _)
    . rw [hadds, List.filter_append, List.map_append, hcalls]
      refine h.handed.append ?_
      cases hread : (w.step st).isRead fd cl.action with
      | false => simp [hread]
      | true =>
        rw [haction] at hread
        simp [haction, hread, hres, World.toNat_resOf]
  | finished hphase hcq hproduced hprocessed' hcallbacks => exact hsame hcallbacks hprocessed'
  | consumed hst hloop hdone heq => exact hsame (by rw [heq]) (by rw [heq])

theorem produced_lt (h : Reading fd k c start w head) (hle : w.uring.nextAction ≤ (w.step st).uring.nextAction)
    : ∀ cqe ∈ (w.step st).produced, cqe.userData < (w.step st).uring.nextAction := by
  intro cqe hcqe
  rcases produced_step w st with hproduced | ⟨n, res, flags, e, _, he, hproduced⟩
  . rw [hproduced] at hcqe
    exact Nat.lt_of_lt_of_le (h.produced cqe hcqe) hle
  . rw [hproduced, List.mem_append, List.mem_singleton] at hcqe
    rcases hcqe with hcqe | hcqe
    . exact Nat.lt_of_lt_of_le (h.produced cqe hcqe) hle
    . rw [hcqe]
      exact Nat.lt_of_lt_of_le (h.prepared_lt e.sqe (List.mem_of_getElem? (executed_prepared he))) hle

theorem callbacks_lt (h : Reading fd k c start w head) (hle : w.uring.nextAction ≤ (w.step st).uring.nextAction)
    : ∀ cl ∈ (w.step st).callbacks, cl.action < (w.step st).uring.nextAction := by
  intro cl hcl
  rcases w.step_callbacks st with hsame | ⟨i, new, _, ⟨_, haction, _⟩, hadds⟩
  . rw [hsame] at hcl
    exact Nat.lt_of_lt_of_le (h.callbacks cl hcl) hle
  . rw [hadds, List.mem_append, List.mem_singleton] at hcl
    rcases hcl with hcl | hcl
    . exact Nat.lt_of_lt_of_le (h.callbacks cl hcl) hle
    . rw [hcl, haction]
      exact Nat.lt_of_lt_of_le (h.untargeted.getCqe i).1 hle

theorem reads_prefix (h : Reading fd k c start w head) (hprepares : Prepares fd w st w')
    : w.reads fd <+: w'.reads fd := by
  rcases h.reads_step hprepares with ⟨hsame, _⟩ | ⟨_, q, hadds, _⟩
  . rw [hsame]
  . rw [hadds]
    exact List.prefix_append _ _

theorem completed_prefix (h : Reading fd k c start w head) (hprepares : Prepares fd w st (w.step st))
    (hst : st.inSequence fd w)
    : w.completed fd <+: (w.step st).completed fd := by
  rcases h.completed_step hprepares hst with hsame | ⟨cqe, q, hadds, _⟩
  . rw [hsame]
  . rw [hadds]
    exact List.prefix_append _ _

theorem handed_sublist (h : Reading fd k c start w head)
    : ((w.handed fd).map (·.res.toNat)).Sublist ((w.completed fd).map (·.res.toNat)) :=
  h.handed.trans (((h.processed.trans (List.take_sublist _ _)).filter _).map _)

theorem first_step (h : Reading fd k c start w head) (hprepares : Prepares fd w st w')
    : ∀ q : Sqe, (w'.reads fd)[0]? = some q → q.requested = 0 ∨ q.off = 0 := by
  intro q hq
  rcases h.reads_step hprepares with ⟨hsame, _⟩ | ⟨_, new, hadds, hoffset⟩
  . rw [hsame] at hq
    exact h.first q hq
  . rw [hadds] at hq
    cases hreads : w.reads fd with
    | nil =>
      rw [hreads] at hq
      cases hq
      have hcompleted := h.answered
      have hhanded := h.handed_sublist.length_le
      rw [List.length_map, List.length_map] at hhanded
      rw [hreads, List.length_nil] at hcompleted
      have htotal : w.total fd = 0 := by
        unfold World.total
        rw [List.length_eq_zero_iff.mp (show (w.handed fd).length = 0 by omega)]
        rfl
      rw [htotal] at hoffset
      exact hoffset
    | cons first rest =>
      rw [hreads] at hq
      apply h.first q
      rw [hreads]
      exact hq

theorem step (h : Reading fd k c start w head) (hfile : fd.type = .file) (hst : st.inSequence fd w)
    : ∃ head', Reading fd k c start (w.step st) head' := by
  obtain ⟨hprepares, hcursor⟩ := h.step_prepares hfile hst
  obtain ⟨head', hlooping, _, hprocessed⟩ := h.looping.step st
  have hgrown := (World.step_steers st h.untargeted.heap h.untargeted.getCqe).grown.nextAction
  obtain ⟨new, hreads⟩ := h.reads_prefix hprepares
  have hle := congrArg List.length hreads
  have hanswered := h.answered
  rw [List.length_append] at hle
  refine ⟨head', h.untargeted.step st, hlooping, hcursor, h.produced_lt hgrown, h.callbacks_lt hgrown, ?_,
    hprocessed h.processed, h.handed_step hprepares, h.first_step hprepares, ?_, ?_⟩
  . intro cqe hcqe
    rcases h.completed_step hprepares hst with hsame | ⟨cqe', q, hadds, hpos, hbuffer, _⟩
    . rw [hsame] at hcqe
      exact h.positive cqe hcqe
    . rw [hadds, List.mem_append, List.mem_singleton] at hcqe
      rcases hcqe with hcqe | hcqe
      . exact h.positive cqe hcqe
      . rw [hcqe]
        exact ⟨hpos, hbuffer⟩
  . rcases h.completed_step hprepares hst with hsame | ⟨cqe, q, hadds, _, _, hget, _⟩
    . rw [hsame]
      omega
    . have hlt := (List.getElem?_eq_some_iff.mp hget).1
      rw [hadds, List.length_append, List.length_singleton]
      omega
  . intro q hq
    rw [← hreads] at hq
    rcases h.completed_step hprepares hst with hsame | ⟨cqe, next, hadds, _, _, hget, hrequested⟩
    . rw [hsame, List.take_append_of_le_length hanswered] at hq
      exact h.requested q hq
    . have hlt := (List.getElem?_eq_some_iff.mp hget).1
      rw [hadds, List.length_append, List.length_singleton, List.take_append_of_le_length (by omega),
        List.take_add_one, hget, Option.toList_some, List.mem_append, List.mem_singleton] at hq
      rcases hq with hq | hq
      . exact h.requested q hq
      . rw [hq]
        exact hrequested

theorem init (k c sqStart cqStart : Nat) (enters : List EnterRet) (hk : k < 32) (hc : c < 32)
    (hasTimeoutMultishot : Bool)
    : Reading fd k c cqStart
        { uring := .init hasTimeoutMultishot (Wrapper.init k c sqStart cqStart enters) } 0 := by
  have hinOrder := InOrder.init k sqStart cqStart enters hc hasTimeoutMultishot
  refine ⟨Untargeted.init c sqStart cqStart enters hk hasTimeoutMultishot,
    ⟨hinOrder.posted, Nat.le_refl _, Nat.le_refl _, fun cqe hcqe => by cases hcqe⟩, ?_, ?_, ?_, ?_,
    List.Sublist.refl _, List.Sublist.refl _, ?_, Nat.zero_le _, ?_⟩
  . intro a ha
    cases ha
  . intro cqe hcqe
    cases hcqe
  . intro cl hcl
    cases hcl
  . intro cqe hcqe
    cases hcqe
  . have hreads : World.reads
        { uring := .init hasTimeoutMultishot (Wrapper.init k c sqStart cqStart enters) } fd = [] := by
      unfold World.reads World.isRead
      simp [IoUring.init, IoUring.readAction]
    rw [hreads]
    intro q hq
    cases hq
  . intro q hq
    have hcompleted : World.completed
        { uring := .init hasTimeoutMultishot (Wrapper.init k c sqStart cqStart enters) } fd = [] := rfl
    rw [hcompleted] at hq
    cases hq

theorem run (h : Reading fd k c start w head) (hfile : fd.type = .file) {steps : List Step}
    (hsteps : Along World.step (fun w st => Step.inSequence fd w st) w steps)
    : (∃ head', Reading fd k c start (w.run steps) head') ∧ w.reads fd <+: (w.run steps).reads fd
        ∧ w.completed fd <+: (w.run steps).completed fd := by
  induction steps generalizing w head with
  | nil => exact ⟨⟨head, h⟩, List.prefix_refl _, List.prefix_refl _⟩
  | cons st steps ih =>
    obtain ⟨hst, hsteps⟩ := hsteps
    have hprepares := (h.step_prepares hfile hst).1
    obtain ⟨head', h'⟩ := h.step hfile hst
    obtain ⟨hrun, hreads, hcompleted⟩ := ih h' hsteps
    exact ⟨hrun, (h.reads_prefix hprepares).trans hreads,
      (h.completed_prefix hprepares hst).trans hcompleted⟩

-- Each read starts where the counts of those before it end.
def Contiguous (reads : List Sqe) (completed : List Cqe) : Prop :=
  ∀ i q, reads[i]? = some q
    → q.requested = 0 ∨ i ≤ completed.length ∧ q.off = ((completed.take i).map (·.res.toNat)).sum

theorem contiguous_step (h : Reading fd k c start w head) (hfile : fd.type = .file)
    (hst : st.inSequence fd w) (hcaught : st.caughtUp fd w)
    (hcontiguous : Contiguous (w.reads fd) (w.completed fd))
    : Contiguous ((w.step st).reads fd) ((w.step st).completed fd) := by
  have hprepares := (h.step_prepares hfile hst).1
  obtain ⟨new, hcompleted⟩ := h.completed_prefix hprepares hst
  have hold : ∀ i q, (w.reads fd)[i]? = some q → q.requested = 0 ∨ i ≤ (w.completed fd ++ new).length
      ∧ q.off = (((w.completed fd ++ new).take i).map (·.res.toNat)).sum := by
    intro i q hq
    refine (hcontiguous i q hq).imp_right ?_
    rintro ⟨hi, hoff⟩
    rw [List.length_append, List.take_append_of_le_length hi]
    exact ⟨by omega, hoff⟩
  rw [← hcompleted]
  rcases h.reads_step hprepares with ⟨hsame, _⟩ | ⟨henters, q, hadds, hoffset⟩
  . rw [hsame]
    exact hold
  . -- all the callbacks have been called, so that the cursor is behind all the counts
    unfold Step.caughtUp at hcaught
    rw [henters, Bool.not_true, Bool.false_or, decide_eq_true_eq] at hcaught
    have hlength := h.handed_sublist.length_le
    have hanswered := h.answered
    rw [List.length_map, List.length_map] at hlength
    have hequal : (w.handed fd).map (·.res.toNat) = (w.completed fd).map (·.res.toNat) :=
      h.handed_sublist.eq_of_length (by rw [List.length_map, List.length_map]; omega)
    have htotal : w.total fd = ((w.completed fd).map (·.res.toNat)).sum := congrArg List.sum hequal
    rw [hadds]
    intro i q' hq'
    rw [List.getElem?_append] at hq'
    split at hq'
    . exact hold i q' hq'
    . have hi : i = (w.reads fd).length := by
        have := (List.getElem?_eq_some_iff.mp hq').1
        rw [List.length_singleton] at this
        omega
      rw [hi, Nat.sub_self] at hq'
      cases hq'
      refine hoffset.imp_right fun hoff => ?_
      rw [hi, List.length_append, List.take_append_of_le_length (by omega), List.take_of_length_le (by omega)]
      exact ⟨by omega, hoff.trans htotal⟩

theorem ranges_getElem? (h : Reading fd k c start w head) {i : Nat} {r : Nat × Nat}
    (hr : (w.ranges fd)[i]? = some r)
    : ∃ q cqe, (w.reads fd)[i]? = some q ∧ (w.completed fd)[i]? = some cqe ∧ 0 < q.requested
        ∧ r = (q.off, q.off + cqe.res.toNat) := by
  unfold World.ranges at hr
  rw [List.getElem?_zipWith_eq_some] at hr
  obtain ⟨q, cqe, hq, hcqe, hr⟩ := hr
  refine ⟨q, cqe, hq, hcqe, ?_, hr.symm⟩
  have hlt := (List.getElem?_eq_some_iff.mp hcqe).1
  apply h.requested
  apply List.mem_of_getElem? (i := i)
  rw [List.getElem?_take_of_lt hlt]
  exact hq

theorem consecutive_of_contiguous (h : Reading fd k c start w head)
    (hcontiguous : Contiguous (w.reads fd) (w.completed fd))
    : Consecutive (w.ranges fd) := by
  have hranges : ∀ i r, (w.ranges fd)[i]? = some r
      → r = ((((w.completed fd).take i).map (·.res.toNat)).sum,
        (((w.completed fd).take (i + 1)).map (·.res.toNat)).sum) := by
    intro i r hr
    obtain ⟨q, cqe, hq, hcqe, hrequested, rfl⟩ := h.ranges_getElem? hr
    have hoff := ((hcontiguous i q hq).resolve_left (by omega)).2
    rw [List.take_add_one, hcqe, Option.toList_some, List.map_append, List.sum_append, ← hoff]
    rfl
  refine ⟨List.isChain_iff_getElem.mpr ?_, List.pairwise_iff_getElem.mpr ?_⟩
  . intro i hi
    rw [hranges i _ (List.getElem?_eq_getElem (by omega)), hranges (i + 1) _ (List.getElem?_eq_getElem hi)]
  . intro i j hi hj hlt
    rw [hranges i _ (List.getElem?_eq_getElem hi), hranges j _ (List.getElem?_eq_getElem hj)]
    have hsub := List.take_sublist_take_left (l := w.completed fd) (show i + 1 ≤ j by omega)
    exact (hsub.map _).sum_le_sum fun _ _ => Nat.zero_le _

-- Conversely the reads start at the sums of the counts if the ranges follow each other.
theorem off_of_consecutive (h : Reading fd k c start w head) (hconsecutive : Consecutive (w.ranges fd))
    {i : Nat} {q : Sqe} (hi : i < (w.completed fd).length) (hq : (w.reads fd)[i]? = some q)
    : q.off = (((w.completed fd).take i).map (·.res.toNat)).sum := by
  have hlength : (w.ranges fd).length = (w.completed fd).length := by
    have := h.answered
    unfold World.ranges
    rw [List.length_zipWith]
    omega
  induction i generalizing q with
  | zero =>
    have hrequested := h.requested q (List.mem_of_getElem? (i := 0) (by
      rw [List.getElem?_take_of_lt hi]
      exact hq))
    rw [(h.first q hq).resolve_left (by omega)]
    rfl
  | succ i ih =>
    have hstart : ∀ j (hj : j < (w.completed fd).length), ∃ q, (w.reads fd)[j]? = some q
        ∧ (w.ranges fd)[j] = (q.off, q.off + (w.completed fd)[j].res.toNat) := by
      intro j hj
      obtain ⟨q, cqe, hq, hcqe, _, hr⟩ :=
        h.ranges_getElem? (List.getElem?_eq_getElem (show j < (w.ranges fd).length by omega))
      rw [List.getElem?_eq_getElem hj, Option.some.injEq] at hcqe
      rw [hcqe]
      exact ⟨q, hq, hr⟩
    obtain ⟨p, hp, hrange⟩ := hstart i (by omega)
    obtain ⟨q', hq', hnext⟩ := hstart (i + 1) hi
    have hchain := List.isChain_iff_getElem.mp hconsecutive.1 i (by omega)
    rw [hrange, hnext] at hchain
    rw [hq, Option.some.injEq] at hq'
    rw [List.take_add_one, List.getElem?_eq_getElem (by omega), Option.toList_some, List.map_append,
      List.sum_append, ← ih (by omega) hp, hq']
    exact hchain.symm

theorem run_contiguous (h : Reading fd k c start w head) (hfile : fd.type = .file) {steps : List Step}
    (hsteps : Along World.step (fun w st => Step.inSequence fd w st) w steps)
    (hcaught : Along World.step (fun w st => Step.caughtUp fd w st) w steps)
    (hcontiguous : Contiguous (w.reads fd) (w.completed fd))
    : Contiguous ((w.run steps).reads fd) ((w.run steps).completed fd) := by
  induction steps generalizing w head with
  | nil => exact hcontiguous
  | cons st steps ih =>
    obtain ⟨hst, hsteps⟩ := hsteps
    obtain ⟨head', h'⟩ := h.step hfile hst
    exact ih h' hsteps hcaught.2 (h.contiguous_step hfile hst hcaught.1 hcontiguous)

-- A read that starts where the completed ones end is submitted when their callbacks have been called:
-- the counts are positive, so that none of them may be missing from the cursor.
theorem caughtUp_of_consecutive (h : Reading fd k c start w head) (hfile : fd.type = .file) {steps : List Step}
    (hsteps : Along World.step (fun w st => Step.inSequence fd w st) w steps)
    (hall : ((w.run steps).completed fd).length = ((w.run steps).reads fd).length)
    (hconsecutive : Consecutive ((w.run steps).ranges fd))
    : Along World.step (fun w st => Step.caughtUp fd w st) w steps := by
  induction steps generalizing w head with
  | nil => trivial
  | cons st steps ih =>
    have hst := hsteps.1
    have hprepares := (h.step_prepares hfile hst).1
    obtain ⟨head', h'⟩ := h.step hfile hst
    obtain ⟨⟨headₙ, hrun⟩, hreads, hcompleted⟩ := h'.run hfile hsteps.2
    refine ⟨?_, ih h' hsteps.2 hall hconsecutive⟩
    unfold Step.caughtUp
    rcases h.reads_step hprepares with ⟨_, hnone⟩ | ⟨henters, q, hadds, hoffset⟩
    . rw [hnone]
      rfl
    . rw [henters, Bool.not_true, Bool.false_or, decide_eq_true_eq]
      have hanswered := h.answered
      have hlength := h.handed_sublist.length_le
      rw [List.length_map, List.length_map] at hlength
      have hq : (((w.step st).run steps).reads fd)[(w.reads fd).length]? = some q := by
        obtain ⟨rest, hrest⟩ := hreads
        rw [← hrest, hadds, List.append_assoc, List.getElem?_append_right (Nat.le_refl _), Nat.sub_self]
        rfl
      have hi : (w.reads fd).length < (((w.step st).run steps).completed fd).length := by
        have := (List.getElem?_eq_some_iff.mp hq).1
        exact Nat.lt_of_lt_of_le this (Nat.le_of_eq hall.symm)
      have hrequested := hrun.requested q (List.mem_of_getElem? (i := (w.reads fd).length) (by
        rw [List.getElem?_take_of_lt hi]
        exact hq))
      have hoff := hrun.off_of_consecutive hconsecutive hi hq
      rw [hoffset.resolve_left (by omega)] at hoff
      -- the counts that the cursor knows of are among those of the reads before
      have hsub : ((w.handed fd).map (·.res.toNat)).Sublist
          (((((w.step st).run steps).completed fd).take (w.reads fd).length).map (·.res.toNat)) := by
        have hextended := (h.completed_prefix hprepares hst).trans hcompleted
        have htake := List.prefix_take_iff.mpr ⟨hextended, hanswered⟩
        exact h.handed_sublist.trans (htake.sublist.map _)
      have hpositive : ∀ n ∈ ((((w.step st).run steps).completed fd).take (w.reads fd).length).map
          (·.res.toNat), 0 < n := by
        intro n hn
        obtain ⟨cqe, hcqe, rfl⟩ := List.mem_map.mp hn
        have := (hrun.positive cqe (List.mem_of_mem_take hcqe)).1
        omega
      have hequal := congrArg List.length (eq_of_sublist_of_sum_eq hsub hpositive hoff)
      rw [List.length_map, List.length_map, List.length_take] at hequal
      omega

end Reading

theorem run_consecutive_iff (k c sqStart cqStart : Nat) (enters : List EnterRet) (hk : k < 32) (hc : c < 32)
    (hasTimeoutMultishot : Bool) (fd : Fd) (hfile : fd.type = .file) (steps : List Step)
    : let start : World := { uring := .init hasTimeoutMultishot (Wrapper.init k c sqStart cqStart enters) }
      let w := start.run steps
      Along World.step (fun w st => Step.inSequence fd w st) start steps
        → (Along World.step (fun w st => Step.caughtUp fd w st) start steps → Consecutive (w.ranges fd))
          ∧ ((w.completed fd).length = (w.reads fd).length
            → (Consecutive (w.ranges fd) ↔ Along World.step (fun w st => Step.caughtUp fd w st) start steps)) := by
  intro start w hsteps
  have hinit : Reading fd k c cqStart start 0 :=
    Reading.init k c sqStart cqStart enters hk hc hasTimeoutMultishot
  obtain ⟨⟨head, hrun⟩, _⟩ := hinit.run hfile hsteps
  have hcaught : Along World.step (fun w st => Step.caughtUp fd w st) start steps
      → Consecutive (w.ranges fd) := by
    intro hcaught
    apply hrun.consecutive_of_contiguous
    apply hinit.run_contiguous hfile hsteps hcaught
    intro i q hq
    have hlt := (List.getElem?_eq_some_iff.mp hq).1
    unfold World.reads World.isRead at hlt
    simp [start, IoUring.init, IoUring.readAction] at hlt
  refine ⟨hcaught, fun hall => ⟨?_, hcaught⟩⟩
  exact hinit.caughtUp_of_consecutive hfile hsteps hall

def sampleRead (cb : Callback) : Step :=
  .op (.submitAsyncRead ⟨3, .file⟩ (some ⟨100, [⟨4096, 8⟩]⟩) 1 (some cb) none)

-- Two reads are in flight at once.
def twoReads : List Step :=
  [sampleRead 6, sampleRead 7, .complete 0 8 0, .complete 1 8 0, .wait none, .next, .finish, .next, .finish,
    .consume]

theorem twoReads_overlap
    : let start : World := { uring := .init true (Wrapper.init 2 3 0 0 []) }
      Along World.step (fun w st => Step.inSequence ⟨3, .file⟩ w st) start twoReads
        ∧ (start.run twoReads).ranges ⟨3, .file⟩ = [(0, 8), (0, 8)]
        ∧ ¬Consecutive ((start.run twoReads).ranges ⟨3, .file⟩) := by
  intro start
  have hranges : (start.run twoReads).ranges ⟨3, .file⟩ = [(0, 8), (0, 8)] := by decide +kernel
  refine ⟨by decide +kernel, hranges, ?_⟩
  rw [hranges]
  rintro ⟨_, hdisjoint⟩
  simp at hdisjoint

-- The second read is submitted in the callback of the first one.
def chainedReads : List Step :=
  [sampleRead 6, .complete 0 5 0, .wait none, .next, sampleRead 7, .finish, .consume, .complete 1 8 0]

theorem chainedReads_consecutive
    : let start : World := { uring := .init true (Wrapper.init 2 3 0 0 []) }
      (start.run chainedReads).ranges ⟨3, .file⟩ = [(0, 5), (5, 13)]
        ∧ Consecutive ((start.run chainedReads).ranges ⟨3, .file⟩) := by
  intro start
  refine ⟨by decide +kernel, ?_⟩
  exact (run_consecutive_iff 2 3 0 0 [] (by decide) (by decide) true ⟨3, .file⟩ rfl chainedReads
    (by decide +kernel)).1 (by decide +kernel)

end Uring
end Event
end Ezio
