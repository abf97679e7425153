import Ezio.Coroutine.Service.ReadState
import Mathlib.Data.List.Pairwise

/-!
This module contains how often a coroutine is resumed that reads while other coroutines cancel its reads.
`cancel_read` resumes the reader itself. epoll then forgets the read, on io_uring its completion still comes.
-/

namespace Ezio
namespace Coroutine
namespace World

variable {w w' : World} {a c fd : Nat} {b : StateBlock}

def Slot.isRead : Slot → Bool
  | .read _ => true
  | _ => false

-- The read of the awaiter is outstanding, and epoll is not about to forget it.
def StillRead (w : World) (a : Nat) : Prop :=
  ∃ r ∈ w.requests, Slot.isRead r.slot ∧ r.awaiter = a
    ∧ (w.backend = .epoll → ∀ e ∈ w.cancels, r.slot ≠ .read e.fd)

instance (w : World) (a : Nat) : Decidable (w.StillRead a) :=
  inferInstanceAs (Decidable (∃ r ∈ w.requests, Slot.isRead r.slot ∧ r.awaiter = a
    ∧ (w.backend = .epoll → ∀ e ∈ w.cancels, r.slot ≠ .read e.fd)))

def NotRead (w : World) (a : Nat) (b : StateBlock) : Prop :=
  b.handle = none → ∀ r ∈ w.requests, Slot.isRead r.slot → r.awaiter ≠ a

instance (w : World) (a : Nat) (b : StateBlock) : Decidable (w.NotRead a b) :=
  inferInstanceAs (Decidable (b.handle = none → ∀ r ∈ w.requests, Slot.isRead r.slot → r.awaiter ≠ a))

-- A read is awaited while it is outstanding, its awaitable lives until then, and on io_uring it is cancelled
-- only before it is awaited.
def ReadsInTurn (w : World) : Step → Prop
  | .call _ (.cancelRead fd) _ => w.backend = .ioUring → w.readState fd = .pending
    → ∀ p ∈ (w.fdInfoMap fd).bind (·.pendingReadAwaiter), ∀ b ∈ w.blocks p, b.handle = none
  | .await _ a => ∀ b ∈ w.blocks a, b.kind = .read → w.StillRead a
  | .drop _ a => ∀ b ∈ w.blocks a, w.NotRead a b
  | .finish c => ∀ a < w.nextBlock, ∀ b ∈ w.blocks a, b.owner = c → w.NotRead a b
  | _ => True

instance (w : World) : (st : Step) → Decidable (w.ReadsInTurn st)
  | .call _ (.cancelRead fd) _ =>
    inferInstanceAs (Decidable (w.backend = .ioUring → w.readState fd = .pending
      → ∀ p ∈ (w.fdInfoMap fd).bind (·.pendingReadAwaiter), ∀ b ∈ w.blocks p, b.handle = none))
  | .await _ a => inferInstanceAs (Decidable (∀ b ∈ w.blocks a, b.kind = .read → w.StillRead a))
  | .drop _ a => inferInstanceAs (Decidable (∀ b ∈ w.blocks a, w.NotRead a b))
  | .finish c =>
    inferInstanceAs (Decidable (∀ a < w.nextBlock, ∀ b ∈ w.blocks a, b.owner = c → w.NotRead a b))
  | .start _ | .complete _ _ _ | .call _ (.read _ _ _) _ | .call _ (.readGroup _) _
  | .call _ (.accept _) _ | .call _ .sleep _ | .call _ (.write _) _ | .call _ (.cancelWrite _) _
  | .call _ (.cancelAccept _) _ | .cancelReadRest _ | .clearSpawned => .isTrue trivial

structure ReadsOnce (w : World) : Prop where
  own : ∀ r ∈ w.requests, ∀ fd, r.slot = .read fd
    → w.slots (.read fd) = some (.read fd r.awaiter) ∧ r.awaiter < w.nextBlock
  awaiters : w.requests.Pairwise fun r r' =>
    ∀ fd fd', r.slot = .read fd → r'.slot = .read fd' → r.awaiter ≠ r'.awaiter
  -- only on epoll a reader has been resumed before its request is gone
  receptive : ∀ r ∈ w.requests, ∀ fd, r.slot = .read fd
    → w.Receptive r.awaiter ∨ w.backend = .epoll ∧ ∃ e ∈ w.cancels, e.fd = fd
  stillRead : ∀ c a, w.SuspendedOn c a → w.StillRead a
  pending : ∀ fd q, w.fdInfoMap fd = some ⟨.pending, q⟩
    → ∃ p, q = some p ∧ w.slots (.read fd) = some (.read fd p)
  cancels : ∀ e ∈ w.cancels, w.isRunning e.caller
    ∧ ∃ b, w.blocks e.awaiter = some b ∧ b.kind = .result ∧ b.owner = e.caller ∧ b.handle = none
  ready : ∀ a b, w.blocks a = some b → b.kind = .read
    ∨ b.kind = .result ∧ (b.ready = true ∨ ∃ e ∈ w.cancels, e.awaiter = a)

-- Nothing but state blocks changes, and none is taken away.
theorem ReadsOnce.frame (h : w.ReadsOnce) (hbackend : w'.backend = w.backend) (hslots : w'.slots = w.slots)
    (hrequests : w'.requests = w.requests) (hcancels : w'.cancels = w.cancels)
    (hpending : ∀ fd q, w'.fdInfoMap fd = some ⟨.pending, q⟩ → w.fdInfoMap fd = some ⟨.pending, q⟩)
    (hsuspended : ∀ c a, w'.SuspendedOn c a ↔ w.SuspendedOn c a)
    (hrunning : ∀ c, w.isRunning c → w'.isRunning c) (hblock : w.nextBlock ≤ w'.nextBlock)
    (hkeep : ∀ a b, w.blocks a = some b
      → ∃ b', w'.blocks a = some b' ∧ b'.kind = b.kind ∧ b'.owner = b.owner ∧ b'.handle = b.handle)
    (hback : ∀ a b', w'.blocks a = some b'
      → (∃ b, w.blocks a = some b ∧ b'.kind = b.kind ∧ (b.ready = true → b'.ready = true))
        ∨ b'.kind = .read ∨ b'.kind = .result ∧ b'.ready = true)
    : w'.ReadsOnce := by
  constructor
  . intro r hr fd hslot
    rw [hrequests] at hr
    obtain ⟨hcb, hlt⟩ := h.own r hr fd hslot
    rw [hslots]
    exact ⟨hcb, by omega⟩
  . rw [hrequests]
    exact h.awaiters
  . intro r hr fd hslot
    rw [hrequests] at hr
    rw [hbackend, hcancels]
    rcases h.receptive r hr fd hslot with ⟨b, hb, hs⟩ | hepoll
    . left
      obtain ⟨b', hb', -, -, hhandle⟩ := hkeep _ b hb
      refine ⟨b', hb', ?_⟩
      rcases hs with hnone | ⟨c, hs⟩
      . exact .inl (hhandle.trans hnone)
      . exact .inr ⟨c, (hsuspended c _).mpr hs⟩
    . exact .inr hepoll
  . intro c a hs
    have hstill := h.stillRead c a ((hsuspended c a).mp hs)
    simpa only [StillRead, hrequests, hbackend, hcancels] using hstill
  . intro fd q hinfo
    rw [hslots]
    exact h.pending fd q (hpending fd q hinfo)
  . intro e he
    rw [hcancels] at he
    obtain ⟨hrun, b, hb, hkind, howner, hnone⟩ := h.cancels e he
    obtain ⟨b', hb', hkind', howner', hhandle'⟩ := hkeep _ b hb
    exact ⟨hrunning _ hrun, b', hb', hkind'.trans hkind, howner'.trans howner, hhandle'.trans hnone⟩
  . intro a b' hb'
    rw [hcancels]
    rcases hback a b' hb' with ⟨b, hb, hkind, hready⟩ | hread | hresult
    . rw [hkind]
      rcases h.ready a b hb with hread | ⟨hresult, hr | he⟩
      . exact .inl hread
      . exact .inr ⟨hresult, .inl (hready hr)⟩
      . exact .inr ⟨hresult, .inr he⟩
    . exact .inl hread
    . exact .inr ⟨hresult.1, .inl hresult.2⟩

theorem complete_idle {src : Source} {x : Completion} (hb : w.blocks a = some b) (hnone : b.handle = none)
    : w.complete src a x
        = (w.setBlock a (some (b.complete x))).addLog (.completed src a (b.kind.outcome x) none) := by
  rcases complete_cases hb with ⟨-, heq⟩ | ⟨c, coro, on, hc, -, -, -⟩ | ⟨c, hc, -, -⟩
  . exact heq
  . rw [hnone] at hc
    cases hc
  . rw [hnone] at hc
    cases hc

theorem ReadsOnce.complete_idle {src : Source} {x : Completion} (h : w.ReadsOnce) (hb : w.blocks a = some b)
    (hnone : b.handle = none)
    : (w.complete src a x).ReadsOnce := by
  rw [World.complete_idle hb hnone]
  refine h.frame rfl rfl rfl rfl (fun _ _ hinfo => hinfo) (fun _ _ => Iff.rfl) (fun _ hc => hc) (Nat.le_refl _)
    ?_ ?_
  . intro a' b' hb'
    simp only [addLog, setBlock, Function.update_apply]
    split
    . rename_i heq
      rw [heq, hb, Option.some.injEq] at hb'
      subst hb'
      exact ⟨_, rfl, rfl, rfl, rfl⟩
    . exact ⟨b', hb', rfl, rfl, rfl⟩
  . intro a' b' hb'
    simp only [addLog, setBlock, Function.update_apply] at hb'
    split at hb'
    . rename_i heq
      cases hb'
      rw [heq]
      refine .inl ⟨b, hb, rfl, fun hready => ?_⟩
      simp [StateBlock.complete, hready]
    . exact .inl ⟨b', hb', rfl, id⟩

-- A state block is added that no callback is stored for.
theorem ReadsOnce.addBlock {nb : StateBlock} {m : Nat → Option FdInfo} {e : Entry} (h : w.ReadsOnce)
    (hwf : w.Wf) (hnb : nb.kind = .read ∨ nb.kind = .result ∧ nb.ready = true)
    (hm : ∀ fd q, m fd = some ⟨.pending, q⟩ → w.fdInfoMap fd = some ⟨.pending, q⟩)
    : ReadsOnce (addLog { w with
        blocks := Function.update w.blocks w.nextBlock (some nb),
        nextBlock := w.nextBlock + 1,
        fdInfoMap := m } e) := by
  refine h.frame rfl rfl rfl rfl hm (fun _ _ => Iff.rfl) (fun _ hc => hc) (Nat.le_succ _) ?_ ?_
  . intro a b hb
    have hne : a ≠ w.nextBlock := Nat.ne_of_lt (hwf.blockLt a b hb)
    refine ⟨b, ?_, rfl, rfl, rfl⟩
    simp only [addLog, Function.update_of_ne hne]
    exact hb
  . intro a b' hb'
    simp only [addLog, Function.update_apply] at hb'
    split at hb'
    . cases hb'
      exact .inr hnb
    . exact .inl ⟨b', hb', rfl, id⟩

-- A new awaiter is completed before it is returned.
theorem complete_newBlock (w : World) (c : Nat) (kind : Kind) (m : Nat → Option FdInfo) (x : Completion)
    : complete { w.newBlock c kind with fdInfoMap := m } .inline w.nextBlock x = addLog { w with
          blocks := Function.update w.blocks w.nextBlock
            (some { kind, owner := c, ready := kind = .result, result := kind.outcome x }),
          nextBlock := w.nextBlock + 1,
          fdInfoMap := m } (.completed .inline w.nextBlock (kind.outcome x) none) := by
  simp [complete, newBlock, setBlock, StateBlock.complete]

theorem read_failed_eq {buffer : Option Nat} {cnt : Nat} {sub : Submit}
    (h : w.readState fd ≠ .none ∨ sub = .refused)
    : ∃ m x, w.read c fd buffer cnt sub
          = complete { w.newBlock c .read with fdInfoMap := m } .inline w.nextBlock x
        ∧ ∀ fd q, m fd = some ⟨.pending, q⟩ → w.fdInfoMap fd = some ⟨.pending, q⟩ := by
  have hread : w.readState fd = (((w.newBlock c .read).fdInfoMap fd).getD {}).state := rfl
  by_cases hstate : w.readState fd = .none
  . have hsub : sub = .refused := h.resolve_left (fun hne => hne hstate)
    subst hsub
    refine ⟨Function.update w.fdInfoMap fd (some {}), { ret := -1, iov := buffer, iovCnt := cnt }, ?_, ?_⟩
    . rw [hread] at hstate
      simp only [read, readWith]
      rw [if_neg (not_not.mpr hstate), if_neg (by simp)]
      simp only [submit, setFdInfo, Function.update_idem]
      rfl
    . intro fd' q hinfo
      rw [Function.update_apply] at hinfo
      split at hinfo
      . cases hinfo
      . exact hinfo
  . refine ⟨Function.update w.fdInfoMap fd (some ((w.fdInfoMap fd).getD {})),
      { ret := -EALREADY, iov := buffer, iovCnt := cnt }, ?_, ?_⟩
    . rw [hread] at hstate
      simp only [read, readWith]
      rw [if_pos hstate]
      rfl
    . intro fd' q hinfo
      rw [Function.update_apply] at hinfo
      split at hinfo
      . rename_i heq
        subst heq
        cases hfd : w.fdInfoMap fd' with
        | none => simp [hfd] at hinfo
        | some info => simpa [hfd] using hinfo
      . exact hinfo

theorem read_accepted_eq {buffer : Option Nat} {cnt : Nat} (hstate : w.readState fd = .none)
    : w.read c fd buffer cnt .accepted = { w with
        blocks := Function.update w.blocks w.nextBlock
          (some { kind := .read, owner := c, result := Kind.read.initial }),
        nextBlock := w.nextBlock + 1,
        fdInfoMap := Function.update w.fdInfoMap fd (some ⟨.pending, some w.nextBlock⟩),
        slots := Function.update w.slots (.read fd) (some (.read fd w.nextBlock)),
        requests := w.requests ++ [{ slot := .read fd, awaiter := w.nextBlock, multishot := false }] } := by
  have hstate' : (((w.newBlock c .read).fdInfoMap fd).getD {}).state = .none := hstate
  simp only [read, readWith]
  rw [if_neg (not_not.mpr hstate'), if_pos trivial]
  simp only [submit, setFdInfo, setSlot, newBlock, setBlock, Function.update_idem]
  rfl

theorem ReadsOnce.read_accepted {buffer : Option Nat} {cnt : Nat} (h : w.ReadsOnce) (hwf : w.Wf)
    (hguard : w.ReadGuarded) (hstate : w.readState fd = .none)
    : (w.read c fd buffer cnt .accepted).ReadsOnce := by
  have hfree := (hguard.none_iff fd).mp hstate
  have hnecancel : ∀ e ∈ w.cancels, e.fd ≠ fd := by
    rintro e he rfl
    rw [(hguard.cancels e he).1] at hstate
    cases hstate
  rw [read_accepted_eq hstate]
  have hne : ∀ a b, w.blocks a = some b → a ≠ w.nextBlock := by
    intro a b hb
    exact Nat.ne_of_lt (hwf.blockLt a b hb)
  constructor
  . intro r hr fd' hslot
    simp only at hr
    rcases List.mem_append.mp hr with hold | hr
    . obtain ⟨hcb, hlt⟩ := h.own r hold fd' hslot
      have hfd : fd' ≠ fd := by
        rintro rfl
        exact hfree r hold hslot
      simp only
      rw [Function.update_of_ne (by simpa using hfd)]
      exact ⟨hcb, by omega⟩
    . rw [List.mem_singleton] at hr
      subst hr
      cases hslot
      exact ⟨Function.update_self .., Nat.lt_succ_self _⟩
  . simp only [List.pairwise_append]
    refine ⟨h.awaiters, List.pairwise_singleton .., ?_⟩
    intro r hr r' hr' fd' fd'' hslot hslot'
    rw [List.mem_singleton] at hr'
    subst hr'
    exact Nat.ne_of_lt (h.own r hr fd' hslot).2
  . intro r hr fd' hslot
    simp only at hr
    rcases List.mem_append.mp hr with hr | hr
    . rcases h.receptive r hr fd' hslot with ⟨b, hb, hs⟩ | hepoll
      . left
        refine ⟨b, ?_, hs⟩
        simp only
        rw [Function.update_of_ne (hne _ b hb)]
        exact hb
      . exact .inr hepoll
    . rw [List.mem_singleton] at hr
      subst hr
      exact .inl ⟨_, Function.update_self .., .inl rfl⟩
  . intro c' a hs
    obtain ⟨r, hr, hread, ha, hepoll⟩ := h.stillRead c' a hs
    exact ⟨r, List.mem_append_left _ hr, hread, ha, hepoll⟩
  . intro fd' q hinfo
    simp only [Function.update_apply] at hinfo
    split at hinfo
    . rename_i heq
      cases hinfo
      rw [heq]
      exact ⟨_, rfl, Function.update_self ..⟩
    . rename_i hfd
      obtain ⟨p, hp, hcb⟩ := h.pending fd' q hinfo
      refine ⟨p, hp, ?_⟩
      simp only
      rw [Function.update_of_ne (by simpa using hfd)]
      exact hcb
  . intro e he
    obtain ⟨hrun, b, hb, hrest⟩ := h.cancels e he
    refine ⟨hrun, b, ?_, hrest⟩
    simp only
    rw [Function.update_of_ne (hne _ b hb)]
    exact hb
  . intro a b hb
    simp only [Function.update_apply] at hb
    split at hb
    . cases hb
      exact .inl rfl
    . exact h.ready a b hb

theorem ReadsOnce.read {buffer : Option Nat} {cnt : Nat} {sub : Submit} (h : w.ReadsOnce) (hwf : w.Wf)
    (hguard : w.ReadGuarded) (hsub : Submit.possible w.backend false sub)
    (hleft : w.readState fd = .none → sub ≠ .left)
    : (w.read c fd buffer cnt sub).ReadsOnce := by
  by_cases hfailed : w.readState fd ≠ .none ∨ sub = .refused
  . obtain ⟨m, x, heq, hm⟩ := read_failed_eq hfailed
    rw [heq, complete_newBlock]
    exact h.addBlock hwf (.inl rfl) hm
  . rw [not_or, not_not] at hfailed
    cases sub with
    | accepted => exact h.read_accepted hwf hguard hfailed.1
    | refused => exact absurd rfl hfailed.2
    | stored => simp [Submit.possible] at hsub
    | left => exact absurd rfl (hleft hfailed.1)

theorem complete_keeps {src : Source} {x : Completion} (hb : w.blocks a = some b)
    : ∀ p, ∃ b', (w.complete src p x).blocks a = some b' ∧ b'.kind = b.kind ∧ b'.owner = b.owner
        ∧ b'.handle = b.handle := by
  intro p
  cases hp : w.blocks p with
  | none =>
    rw [complete_none hp]
    exact ⟨b, hb, rfl, rfl, rfl⟩
  | some b₀ =>
    rw [complete_blocks hp, Function.update_apply]
    split
    . rename_i heq
      rw [heq, hp, Option.some.injEq] at hb
      subst hb
      exact ⟨_, rfl, rfl, rfl, rfl⟩
    . exact ⟨b, hb, rfl, rfl, rfl⟩

theorem complete_back {src : Source} {x : Completion} {p : Nat} (hb : (w.complete src p x).blocks a = some b)
    : ∃ b₀, w.blocks a = some b₀ ∧ b.kind = b₀.kind ∧ (b₀.ready = true → b.ready = true) := by
  cases hp : w.blocks p with
  | none =>
    rw [complete_none hp] at hb
    exact ⟨b, hb, rfl, id⟩
  | some b₀ =>
    rw [complete_blocks hp, Function.update_apply] at hb
    split at hb
    . rename_i heq
      cases hb
      rw [heq]
      refine ⟨b₀, hp, rfl, fun hready => ?_⟩
      simp [StateBlock.complete, hready]
    . exact ⟨b, hb, rfl, id⟩

theorem complete_running {src : Source} {x : Completion} (hc : w.isRunning c)
    : (w.complete src a x).isRunning c := by
  rw [isRunning_iff] at hc ⊢
  obtain ⟨coro, hcoro, hrunning⟩ := hc
  cases hb : w.blocks a with
  | none =>
    rw [complete_none hb]
    exact ⟨coro, hcoro, hrunning⟩
  | some b =>
    rcases complete_cases hb with ⟨-, heq⟩ | ⟨c', coro', on, -, -, -, heq⟩ | ⟨c', -, -, heq⟩
    . rw [heq]
      exact ⟨coro, hcoro, hrunning⟩
    . rw [heq]
      simp only [addLog, setCoro, setBlock, Function.update_apply]
      split
      . exact ⟨_, rfl, rfl⟩
      . exact ⟨coro, hcoro, hrunning⟩
    . rw [heq]
      exact ⟨coro, hcoro, hrunning⟩

theorem ReadsOnce.awaiter_ne {r r' : Request} {fd' : Nat} (h : w.ReadsOnce) (hr : r ∈ w.requests)
    (hr' : r' ∈ w.requests) (hslot : r.slot = .read fd) (hslot' : r'.slot = .read fd') (hne : fd ≠ fd')
    : r.awaiter ≠ r'.awaiter := by
  have hsymm : Std.Symm fun r r' : Request =>
      ∀ fd fd', r.slot = .read fd → r'.slot = .read fd' → r.awaiter ≠ r'.awaiter := by
    constructor
    intro r r' hR fd fd' hslot hslot'
    exact Ne.symm (hR fd' fd hslot' hslot)
  refine h.awaiters.forall hr hr' ?_ fd fd' hslot hslot'
  rintro rfl
  rw [hslot, Slot.read.injEq] at hslot'
  exact hne hslot'

theorem ReadsOnce.awaiter_eq {r : Request} {p : Nat} (h : w.ReadsOnce) (hr : r ∈ w.requests)
    (hslot : r.slot = .read fd) (hcb : w.slots (.read fd) = some (.read fd p))
    : r.awaiter = p := by
  have hown := (h.own r hr fd hslot).1
  rw [hcb, Option.some.injEq, Callback.read.injEq] at hown
  exact hown.2.symm

-- The read that is pending is outstanding, and its reader has not been resumed.
theorem ReadsOnce.pending_receptive {q : Option Nat} (h : w.ReadsOnce) (hguard : w.ReadGuarded)
    (hinfo : w.fdInfoMap fd = some ⟨.pending, q⟩)
    : ∃ r ∈ w.requests, r.slot = .read fd ∧ q = some r.awaiter ∧ w.Receptive r.awaiter := by
  obtain ⟨p, hp, hcb⟩ := h.pending fd q hinfo
  have hstate : w.readState fd = .pending := readState_of_some hinfo
  obtain ⟨r, hr, hslot⟩ : ∃ r ∈ w.requests, r.slot = .read fd := by
    by_contra hnone
    rw [(hguard.none_iff fd).mpr fun r hr hslot => hnone ⟨r, hr, hslot⟩] at hstate
    cases hstate
  refine ⟨r, hr, hslot, by rw [h.awaiter_eq hr hslot hcb]; exact hp, ?_⟩
  rcases h.receptive r hr fd hslot with hreceptive | ⟨-, e, he, rfl⟩
  . exact hreceptive
  . rw [(hguard.cancels e he).1] at hstate
    cases hstate

-- `cancel_read` has completed the pending read.
theorem ReadsOnce.cancelRead_pending {p : Nat} {r₀ : Request} {m : Nat → Option FdInfo} (h : w.ReadsOnce)
    (hwf : w.Wf) (hc : w.isRunning c) (hr₀ : r₀ ∈ w.requests) (hslot₀ : r₀.slot = .read fd)
    (hawaiter₀ : r₀.awaiter = p) (hp : w.Receptive p)
    (hm : ∀ fd q, m fd = some ⟨.pending, q⟩ → w.fdInfoMap fd = some ⟨.pending, q⟩)
    (hawaited : w.backend = .ioUring → ∀ b, w.blocks p = some b → b.handle = none)
    : ReadsOnce { complete { w.newBlock c .result with fdInfoMap := m } .inline p { ret := -ECANCELED } with
        cancels := ⟨c, fd, w.nextBlock⟩ :: w.cancels } := by
  have hcb : w.slots (.read fd) = some (.read fd p) := by
    rw [← hawaiter₀]
    exact (h.own r₀ hr₀ fd hslot₀).1
  have hne : ∀ a b, w.blocks a = some b → a ≠ w.nextBlock :=
    fun a b hb => Nat.ne_of_lt (hwf.blockLt a b hb)
  have hold : ∀ a b, w.blocks a = some b → (w.newBlock c .result).blocks a = some b := by
    intro a b hb
    simp only [newBlock, setBlock]
    rw [Function.update_of_ne (hne a b hb)]
    exact hb
  obtain ⟨coro, hcoro, -⟩ := isRunning_iff.mp hc
  have hwf₁ : Wf { w.newBlock c .result with fdInfoMap := m } := (hwf.newBlock hcoro).congr rfl rfl rfl rfl
  have hp₁ : Receptive { w.newBlock c .result with fdInfoMap := m } p := by
    obtain ⟨b, hb, hs⟩ := hp
    exact ⟨b, hold p b hb, hs⟩
  have hslots := complete_slots { w.newBlock c .result with fdInfoMap := m } .inline p { ret := -ECANCELED }
  have hrest := complete_rest { w.newBlock c .result with fdInfoMap := m } .inline p { ret := -ECANCELED }
  have hsuspended : ∀ c' a', (complete { w.newBlock c .result with fdInfoMap := m } .inline p
      { ret := -ECANCELED }).SuspendedOn c' a' ↔ a' ≠ p ∧ w.SuspendedOn c' a' :=
    complete_suspendedOn hwf₁ hp₁
  have hkeep : ∀ a b, (w.newBlock c .result).blocks a = some b
      → ∃ b', (complete { w.newBlock c .result with fdInfoMap := m } .inline p
          { ret := -ECANCELED }).blocks a = some b'
        ∧ b'.kind = b.kind ∧ b'.owner = b.owner ∧ b'.handle = b.handle := by
    intro a b hb
    exact complete_keeps (w := { w.newBlock c .result with fdInfoMap := m }) hb p
  have hback : ∀ a b, (complete { w.newBlock c .result with fdInfoMap := m } .inline p
      { ret := -ECANCELED }).blocks a = some b
      → ∃ b₀, (w.newBlock c .result).blocks a = some b₀ ∧ b.kind = b₀.kind
        ∧ (b₀.ready = true → b.ready = true) := by
    intro a b hb
    obtain ⟨b₀, hb₀, hrest⟩ := complete_back hb
    exact ⟨b₀, hb₀, hrest⟩
  have hrunning : ∀ c', w.isRunning c' → (complete { w.newBlock c .result with fdInfoMap := m } .inline p
      { ret := -ECANCELED }).isRunning c' := by
    intro c' hc'
    exact complete_running hc'
  generalize complete { w.newBlock c .result with fdInfoMap := m } .inline p { ret := -ECANCELED } = w₂ at *
  obtain ⟨hslots, hrequests⟩ := hslots
  obtain ⟨hbackend, hblock, hinfo, -, -⟩ := hrest
  change w₂.slots = w.slots at hslots
  change w₂.requests = w.requests at hrequests
  change w₂.backend = w.backend at hbackend
  change w₂.nextBlock = w.nextBlock + 1 at hblock
  change w₂.fdInfoMap = m at hinfo
  constructor
  . intro r hr fd' hslot
    simp only [hrequests] at hr
    obtain ⟨hcb', hlt⟩ := h.own r hr fd' hslot
    simp only [hslots, hblock]
    exact ⟨hcb', by omega⟩
  . simp only [hrequests]
    exact h.awaiters
  . intro r hr fd' hslot
    simp only [hrequests] at hr
    by_cases hfd : fd' = fd
    . subst hfd
      have ha := h.awaiter_eq hr hslot hcb
      cases hbk : w.backend with
      | epoll =>
        right
        exact ⟨hbackend.trans hbk, _, List.mem_cons_self, rfl⟩
      | ioUring =>
        left
        obtain ⟨b, hb, -⟩ := hp
        obtain ⟨b', hb', -, -, hhandle⟩ := hkeep p b (hold p b hb)
        rw [ha]
        exact ⟨b', hb', .inl (hhandle.trans (hawaited hbk b hb))⟩
    . have hap : r.awaiter ≠ p := by
        rw [← hawaiter₀]
        exact h.awaiter_ne hr hr₀ hslot hslot₀ hfd
      rcases h.receptive r hr fd' hslot with ⟨b, hb, hs⟩ | ⟨hbk, e, he, heq⟩
      . left
        obtain ⟨b', hb', -, -, hhandle⟩ := hkeep _ b (hold _ b hb)
        refine ⟨b', hb', ?_⟩
        rcases hs with hnone | ⟨c', hs⟩
        . exact .inl (hhandle.trans hnone)
        . exact .inr ⟨c', (hsuspended c' _).mpr ⟨hap, hs⟩⟩
      . exact .inr ⟨hbackend.trans hbk, e, List.mem_cons_of_mem _ he, heq⟩
  . intro c' a hs
    obtain ⟨hap, hs⟩ := (hsuspended c' a).mp hs
    obtain ⟨r, hr, hread, ha, hepoll⟩ := h.stillRead c' a hs
    refine ⟨r, ?_, hread, ha, ?_⟩
    . simp only [hrequests]
      exact hr
    . intro hbk e he
      rcases List.mem_cons.mp he with rfl | he
      . intro hslot
        exact hap (ha.symm.trans (h.awaiter_eq hr hslot hcb))
      . exact hepoll (hbackend.symm.trans hbk) e he
  . intro fd' q hq
    simp only [hinfo] at hq
    simp only [hslots]
    exact h.pending fd' q (hm fd' q hq)
  . intro e he
    rcases List.mem_cons.mp he with rfl | he
    . obtain ⟨b', hb', hkind, howner, hhandle⟩ := hkeep w.nextBlock _ (Function.update_self ..)
      exact ⟨hrunning c hc, b', hb', hkind, howner, hhandle⟩
    . obtain ⟨hrun, b, hb, hkind, howner, hnone⟩ := h.cancels e he
      obtain ⟨b', hb', hkind', howner', hhandle'⟩ := hkeep _ b (hold _ b hb)
      exact ⟨hrunning _ hrun, b', hb', hkind'.trans hkind, howner'.trans howner, hhandle'.trans hnone⟩
  . intro a b hb
    obtain ⟨b₀, hb₀, hkind, hready⟩ := hback a b hb
    rw [hkind]
    simp only [newBlock, setBlock, Function.update_apply] at hb₀
    split at hb₀
    . rename_i heq
      cases hb₀
      exact .inr ⟨rfl, .inr ⟨_, List.mem_cons_self, heq.symm⟩⟩
    . rcases h.ready a b₀ hb₀ with hread | ⟨hresult, hr | ⟨e, he, ha⟩⟩
      . exact .inl hread
      . exact .inr ⟨hresult, .inl (hready hr)⟩
      . exact .inr ⟨hresult, .inr ⟨e, List.mem_cons_of_mem _ he, ha⟩⟩

-- The innermost `cancel_read` has completed its awaiter, and epoll has forgotten the read.
theorem ReadsOnce.popCancel {e : CancelCall} {es : List CancelCall} {b' : StateBlock} (h : w.ReadsOnce)
    (hguard : w.ReadGuarded) (hcancels : w.cancels = e :: es) (hbackend : w'.backend = w.backend)
    (hcoros : w'.coros = w.coros) (hblock : w'.nextBlock = w.nextBlock) (hcancels' : w'.cancels = es)
    (hblocks : w'.blocks = Function.update w.blocks e.awaiter (some b'))
    (hb' : b'.kind = .result ∧ b'.owner = e.caller ∧ b'.handle = none ∧ b'.ready = true)
    (hrequests : ∀ r, Slot.isRead r.slot
      → (r ∈ w'.requests ↔ r ∈ w.requests ∧ (w.backend = .epoll → r.slot ≠ .read e.fd)))
    (hawaiters : w'.requests.Pairwise fun r r' =>
      ∀ fd fd', r.slot = .read fd → r'.slot = .read fd' → r.awaiter ≠ r'.awaiter)
    (hslots : ∀ fd, (w.backend = .epoll → fd ≠ e.fd) → w'.slots (.read fd) = w.slots (.read fd))
    (hpending : ∀ fd q, w'.fdInfoMap fd = some ⟨.pending, q⟩ → w.fdInfoMap fd = some ⟨.pending, q⟩)
    : w'.ReadsOnce := by
  have hsuspended : ∀ c a, w'.SuspendedOn c a ↔ w.SuspendedOn c a := by
    simp only [SuspendedOn, hcoros, implies_true]
  have hrunning : ∀ c, w'.isRunning c = w.isRunning c := by
    simp only [isRunning, hcoros, implies_true]
  have hmem : ∀ e' ∈ es, e' ∈ w.cancels := by
    intro e' he'
    rw [hcancels]
    exact List.mem_cons_of_mem _ he'
  obtain ⟨-, b₀, hb₀, hkind₀, howner₀, hnone₀⟩ := h.cancels e (by simp [hcancels])
  have hkeep : ∀ a b, w.blocks a = some b → ∃ b'', w'.blocks a = some b'' ∧ b''.kind = b.kind
      ∧ b''.owner = b.owner ∧ b''.handle = b.handle := by
    intro a b hb
    rw [hblocks, Function.update_apply]
    split
    . rename_i heq
      rw [heq, hb₀, Option.some.injEq] at hb
      subst hb
      exact ⟨b', rfl, hb'.1.trans hkind₀.symm, hb'.2.1.trans howner₀.symm, hb'.2.2.1.trans hnone₀.symm⟩
    . exact ⟨b, hb, rfl, rfl, rfl⟩
  have hreadSlot : ∀ {r : Request} {fd : Nat}, r.slot = .read fd → Slot.isRead r.slot = true := by
    intro r fd hslot
    rw [hslot]
    rfl
  have hepollNe : ∀ {r : Request} {fd : Nat}, r ∈ w'.requests → r.slot = .read fd
      → w.backend = .epoll → fd ≠ e.fd := by
    intro r fd hr hslot hbk heq
    rw [hrequests r (hreadSlot hslot)] at hr
    exact hr.2 hbk (by rw [hslot, heq])
  constructor
  . intro r hr fd hslot
    rw [hslots fd (hepollNe hr hslot), hblock]
    rw [hrequests r (hreadSlot hslot)] at hr
    exact h.own r hr.1 fd hslot
  . exact hawaiters
  . intro r hr fd hslot
    have hne := hepollNe hr hslot
    rw [hrequests r (hreadSlot hslot)] at hr
    rw [hbackend, hcancels']
    rcases h.receptive r hr.1 fd hslot with ⟨b, hb, hs⟩ | ⟨hbk, e', he', heq⟩
    . left
      obtain ⟨b'', hb'', -, -, hhandle⟩ := hkeep _ b hb
      refine ⟨b'', hb'', ?_⟩
      rcases hs with hnone | ⟨c, hs⟩
      . exact .inl (hhandle.trans hnone)
      . exact .inr ⟨c, (hsuspended c _).mpr hs⟩
    . right
      rw [hcancels] at he'
      rcases List.mem_cons.mp he' with rfl | he'
      . exact absurd heq.symm (hne hbk)
      . exact ⟨hbk, e', he', heq⟩
  . intro c a hs
    obtain ⟨r, hr, hread, ha, hepoll⟩ := h.stillRead c a ((hsuspended c a).mp hs)
    refine ⟨r, (hrequests r hread).mpr ⟨hr, fun hbk => hepoll hbk e (by simp [hcancels])⟩, hread, ha, ?_⟩
    rw [hbackend, hcancels']
    exact fun hbk e' he' => hepoll hbk e' (hmem e' he')
  . intro fd q hinfo
    have hold := hpending fd q hinfo
    rw [hslots]
    . exact h.pending fd q hold
    . rintro - rfl
      have hstate := (hguard.cancels e (by simp [hcancels])).1
      rw [readState_of_some hold] at hstate
      cases hstate
  . intro e' he'
    rw [hcancels'] at he'
    obtain ⟨hrun, b, hb, hkind, howner, hnone⟩ := h.cancels e' (hmem e' he')
    obtain ⟨b'', hb'', hkind'', howner'', hhandle''⟩ := hkeep _ b hb
    rw [hrunning]
    exact ⟨hrun, b'', hb'', hkind''.trans hkind, howner''.trans howner, hhandle''.trans hnone⟩
  . intro a b hb
    rw [hblocks, Function.update_apply] at hb
    rw [hcancels']
    split at hb
    . cases hb
      exact .inr ⟨hb'.1, .inl hb'.2.2.2⟩
    . rename_i hne
      rcases h.ready a b hb with hread | ⟨hresult, hr | ⟨e', he', ha⟩⟩
      . exact .inl hread
      . exact .inr ⟨hresult, .inl hr⟩
      . rw [hcancels] at he'
        rcases List.mem_cons.mp he' with rfl | he'
        . exact absurd ha.symm hne
        . exact .inr ⟨hresult, .inr ⟨e', he', ha⟩⟩

theorem ReadsOnce.await (h : w.ReadsOnce) (hact : w.canAct c)
    (hstill : ∀ b ∈ w.blocks a, b.kind = .read → w.StillRead a)
    : (w.await c a).ReadsOnce := by
  simp only [canAct, Bool.and_eq_true, List.all_eq_true, decide_eq_true_eq] at hact
  rcases await_cases w c a with heq | ⟨coro, b, hcoro, hrunning, hb, howner, hhandle, ⟨-, heq⟩ | ⟨hready, heq⟩⟩
  . rw [heq]
    exact h
  . rw [heq]
    exact ⟨h.own, h.awaiters, h.receptive, h.stillRead, h.pending, h.cancels, h.ready⟩
  . rw [heq]
    -- the awaiters of `cancel_read` are ready when it has returned
    have hkind : b.kind = .read := by
      rcases h.ready a b hb with hread | ⟨hresult, hr | ⟨e, he, ha⟩⟩
      . exact hread
      . simp [StateBlock.awaitReady, hresult, hr] at hready
      . obtain ⟨-, b', hb', -, howner', -⟩ := h.cancels e he
        rw [ha, hb, Option.some.injEq] at hb'
        subst hb'
        exact absurd (howner'.symm.trans howner) (hact.2 e he)
    have hsuspended := fun c' a' => suspend_suspendedOn (a := a) (o := some { b with handle := some c })
      (e := .suspended c a) hcoro hrunning c' a'
    constructor
    . exact h.own
    . exact h.awaiters
    . intro r hr fd hslot
      rcases h.receptive r hr fd hslot with ⟨b', hb', hs⟩ | hepoll
      . left
        by_cases ha : r.awaiter = a
        . rw [ha]
          exact ⟨_, Function.update_self .., .inr ⟨c, (hsuspended c a).mpr (.inl ⟨rfl, rfl⟩)⟩⟩
        . refine ⟨b', ?_, ?_⟩
          . simp only [addLog, setCoro, setBlock]
            rw [Function.update_of_ne ha]
            exact hb'
          . rcases hs with hnone | ⟨c', hs⟩
            . exact .inl hnone
            . exact .inr ⟨c', (hsuspended c' _).mpr (.inr hs)⟩
      . exact .inr hepoll
    . intro c' a' hs
      rcases (hsuspended c' a').mp hs with ⟨-, rfl⟩ | hs
      . exact hstill b hb hkind
      . exact h.stillRead c' a' hs
    . exact h.pending
    . intro e he
      obtain ⟨hrun, b', hb', hkind', hrest⟩ := h.cancels e he
      refine ⟨?_, b', ?_, hkind', hrest⟩
      . simp only [isRunning, addLog, setCoro]
        rw [Function.update_of_ne (hact.2 e he)]
        exact hrun
      . simp only [addLog, setCoro, setBlock]
        rw [Function.update_of_ne]
        . exact hb'
        . intro ha
          rw [ha, hb, Option.some.injEq] at hb'
          subst hb'
          rw [hkind] at hkind'
          cases hkind'
    . intro a' b' hb'
      simp only [addLog, setCoro, setBlock, Function.update_apply] at hb'
      split at hb'
      . cases hb'
        exact .inl hkind
      . exact h.ready a' b' hb'

-- Awaitables of a running coroutine go away whose reads are not outstanding.
theorem ReadsOnce.remove (h : w.ReadsOnce) (hwf : w.Wf) (hbackend : w'.backend = w.backend)
    (hslots : w'.slots = w.slots) (hrequests : w'.requests = w.requests) (hcancels : w'.cancels = w.cancels)
    (hinfo : w'.fdInfoMap = w.fdInfoMap) (hblock : w'.nextBlock = w.nextBlock)
    (hsuspended : ∀ c a, w'.SuspendedOn c a ↔ w.SuspendedOn c a)
    (hrunning : ∀ e ∈ w.cancels, w.isRunning e.caller → w'.isRunning e.caller)
    (hblocks : ∀ a b, w'.blocks a = some b → w.blocks a = some b)
    (hkeep : ∀ a b, w.blocks a = some b → w'.blocks a = some b
      ∨ w.NotRead a b ∧ w.isRunning b.owner ∧ ∀ e ∈ w.cancels, e.caller ≠ b.owner)
    : w'.ReadsOnce := by
  constructor
  . rw [hrequests, hslots, hblock]
    exact h.own
  . rw [hrequests]
    exact h.awaiters
  . intro r hr fd hslot
    rw [hrequests] at hr
    rw [hbackend, hcancels]
    rcases h.receptive r hr fd hslot with ⟨b, hb, hs⟩ | hepoll
    . left
      rcases hkeep _ b hb with hb' | ⟨hnot, hrun, -⟩
      . refine ⟨b, hb', ?_⟩
        rcases hs with hnone | ⟨c, hs⟩
        . exact .inl hnone
        . exact .inr ⟨c, (hsuspended c _).mpr hs⟩
      . rcases hs with hnone | ⟨c, coro, hcoro, hstatus⟩
        . exact absurd rfl (hnot hnone r hr (by rw [hslot]; rfl))
        . -- the coroutine that is suspended on the awaitable is not the one that runs
          obtain ⟨b', hb', howner, -⟩ := hwf.suspended c coro _ hcoro hstatus
          rw [hb, Option.some.injEq] at hb'
          subst hb'
          rw [howner] at hrun
          obtain ⟨coro', hcoro', hrunning'⟩ := isRunning_iff.mp hrun
          rw [hcoro, Option.some.injEq] at hcoro'
          subst hcoro'
          rw [hstatus] at hrunning'
          cases hrunning'
    . exact .inr hepoll
  . intro c a hs
    have hstill := h.stillRead c a ((hsuspended c a).mp hs)
    simpa only [StillRead, hrequests, hbackend, hcancels] using hstill
  . rw [hinfo, hslots]
    exact h.pending
  . intro e he
    rw [hcancels] at he
    obtain ⟨hrun, b, hb, hkind, howner, hnone⟩ := h.cancels e he
    refine ⟨hrunning e he hrun, b, ?_, hkind, howner, hnone⟩
    rcases hkeep _ b hb with hb' | ⟨-, -, hne⟩
    . exact hb'
    . exact absurd howner.symm (hne e he)
  . intro a b hb
    rw [hcancels]
    exact h.ready a b (hblocks a b hb)

theorem ReadsOnce.drop (h : w.ReadsOnce) (hwf : w.Wf) (hact : w.canAct c)
    (hnot : ∀ b ∈ w.blocks a, w.NotRead a b)
    : (w.drop c a).ReadsOnce := by
  simp only [canAct, Bool.and_eq_true, List.all_eq_true, decide_eq_true_eq] at hact
  unfold World.drop
  split
  . rename_i spawned b hcoro hb
    split
    . rename_i howner
      refine h.remove hwf rfl rfl rfl rfl rfl rfl (fun _ _ => Iff.rfl) (fun _ _ hrun => hrun) ?_ ?_
      . intro a' b' hb'
        simp only [setBlock, Function.update_apply] at hb'
        split at hb'
        . cases hb'
        . exact hb'
      . intro a' b' hb'
        by_cases ha : a' = a
        . subst ha
          rw [hb, Option.some.injEq] at hb'
          subst hb'
          rw [howner]
          exact .inr ⟨hnot b hb, hact.1, hact.2⟩
        . left
          simp only [setBlock]
          rw [Function.update_of_ne ha]
          exact hb'
    . exact h
  . exact h

theorem ReadsOnce.finish (h : w.ReadsOnce) (hwf : w.Wf) (hact : w.canAct c)
    (hnot : ∀ a < w.nextBlock, ∀ b ∈ w.blocks a, b.owner = c → w.NotRead a b)
    : (w.finish c).ReadsOnce := by
  simp only [canAct, Bool.and_eq_true, List.all_eq_true, decide_eq_true_eq] at hact
  have hsuspended := finish_suspendedOn w c
  have hsub : ∀ a b, (w.finish c).blocks a = some b → w.blocks a = some b := fun _ _ => finish_blocks
  revert hsuspended hsub
  unfold World.finish
  split
  . intro hsuspended hsub
    refine h.remove hwf rfl rfl rfl rfl rfl rfl hsuspended ?_ hsub ?_
    . intro e he hrun
      simp only [isRunning, setCoro, dropOwned]
      rw [Function.update_of_ne (hact.2 e he)]
      exact hrun
    . intro a b hb
      by_cases howner : b.owner = c
      . rw [howner]
        exact .inr ⟨hnot a (hwf.blockLt a b hb) b hb howner, hact.1, hact.2⟩
      . left
        simp [setCoro, dropOwned, hb, howner]
  . exact fun _ _ => h

-- A read completes while no `cancel_read` is in progress.
theorem ReadsOnce.complete_read {i : Nat} {r : Request} {x : Completion} {m : Nat → Option FdInfo}
    (h : w.ReadsOnce) (hwf : w.Wf) (hcancels : w.cancels = []) (hr : w.requests[i]? = some r)
    (hslot : r.slot = .read fd) (hp : w.Receptive r.awaiter)
    (hm : ∀ fd q, m fd = some ⟨.pending, q⟩ → w.fdInfoMap fd = some ⟨.pending, q⟩)
    : ReadsOnce (complete { w with requests := w.requests.eraseIdx i, fdInfoMap := m }
        (.request r.awaiter false) r.awaiter x) := by
  have hmem := List.mem_of_getElem? hr
  have hwf₁ : Wf { w with requests := w.requests.eraseIdx i, fdInfoMap := m } := hwf.congr rfl rfl rfl rfl
  have hslots := complete_slots { w with requests := w.requests.eraseIdx i, fdInfoMap := m }
    (.request r.awaiter false) r.awaiter x
  have hrest := complete_rest { w with requests := w.requests.eraseIdx i, fdInfoMap := m }
    (.request r.awaiter false) r.awaiter x
  have hsuspended : ∀ c a, (complete { w with requests := w.requests.eraseIdx i, fdInfoMap := m }
      (.request r.awaiter false) r.awaiter x).SuspendedOn c a ↔ a ≠ r.awaiter ∧ w.SuspendedOn c a :=
    complete_suspendedOn hwf₁ hp
  have hkeep : ∀ a b, w.blocks a = some b
      → ∃ b', (complete { w with requests := w.requests.eraseIdx i, fdInfoMap := m }
          (.request r.awaiter false) r.awaiter x).blocks a = some b' ∧ b'.handle = b.handle := by
    intro a b hb
    obtain ⟨b', hb', -, -, hhandle⟩ :=
      complete_keeps (w := { w with requests := w.requests.eraseIdx i, fdInfoMap := m }) hb r.awaiter
    exact ⟨b', hb', hhandle⟩
  have hback : ∀ a b, (complete { w with requests := w.requests.eraseIdx i, fdInfoMap := m }
      (.request r.awaiter false) r.awaiter x).blocks a = some b
      → ∃ b₀, w.blocks a = some b₀ ∧ b.kind = b₀.kind ∧ (b₀.ready = true → b.ready = true) := by
    intro a b hb
    obtain ⟨b₀, hb₀, hrest⟩ := complete_back hb
    exact ⟨b₀, hb₀, hrest⟩
  generalize complete { w with requests := w.requests.eraseIdx i, fdInfoMap := m }
    (.request r.awaiter false) r.awaiter x = w₂ at *
  obtain ⟨hslots, hrequests⟩ := hslots
  obtain ⟨hbackend, hblock, hinfo, hcancels', -⟩ := hrest
  change w₂.slots = w.slots at hslots
  change w₂.requests = w.requests.eraseIdx i at hrequests
  change w₂.nextBlock = w.nextBlock at hblock
  change w₂.fdInfoMap = m at hinfo
  change w₂.cancels = w.cancels at hcancels'
  have hold : ∀ r' ∈ w.requests.eraseIdx i, r' ∈ w.requests := fun _ => List.mem_of_mem_eraseIdx
  constructor
  . intro r' hr' fd' hslot'
    rw [hrequests] at hr'
    rw [hslots, hblock]
    exact h.own r' (hold r' hr') fd' hslot'
  . rw [hrequests]
    exact h.awaiters.sublist (List.eraseIdx_sublist ..)
  . intro r' hr' fd' hslot'
    rw [hrequests] at hr'
    have hne : r'.awaiter ≠ r.awaiter := by
      rcases pairwise_eraseIdx h.awaiters hr r' hr' with hne | hne
      . exact Ne.symm (hne fd fd' hslot hslot')
      . exact hne fd' fd hslot' hslot
    rcases h.receptive r' (hold r' hr') fd' hslot' with ⟨b, hb, hs⟩ | ⟨-, e, he, -⟩
    . left
      obtain ⟨b', hb', hhandle⟩ := hkeep _ b hb
      refine ⟨b', hb', ?_⟩
      rcases hs with hnone | ⟨c, hs⟩
      . exact .inl (hhandle.trans hnone)
      . exact .inr ⟨c, (hsuspended c _).mpr ⟨hne, hs⟩⟩
    . rw [hcancels] at he
      cases he
  . intro c a hs
    obtain ⟨hne, hs⟩ := (hsuspended c a).mp hs
    obtain ⟨r', hr', hread, ha, -⟩ := h.stillRead c a hs
    refine ⟨r', ?_, hread, ha, by simp [hcancels', hcancels]⟩
    rw [hrequests]
    apply mem_eraseIdx_of_ne hr hr'
    rintro rfl
    exact hne ha.symm
  . intro fd' q hq
    rw [hinfo] at hq
    rw [hslots]
    exact h.pending fd' q (hm fd' q hq)
  . intro e he
    rw [hcancels', hcancels] at he
    cases he
  . intro a b hb
    obtain ⟨b₀, hb₀, hkind, hready⟩ := hback a b hb
    rw [hkind, hcancels']
    rcases h.ready a b₀ hb₀ with hread | ⟨hresult, hr | he⟩
    . exact .inl hread
    . exact .inr ⟨hresult, .inl (hready hr)⟩
    . exact .inr ⟨hresult, .inr he⟩

-- A request goes that is no read.
theorem ReadsOnce.erase_cancel {i : Nat} {r : Request} (h : w.ReadsOnce) (hr : w.requests[i]? = some r)
    (hslot : r.slot = .cancelRead fd)
    : ReadsOnce { w with requests := w.requests.eraseIdx i } := by
  have hold : ∀ r' ∈ w.requests.eraseIdx i, r' ∈ w.requests := fun _ => List.mem_of_mem_eraseIdx
  constructor
  . exact fun r' hr' => h.own r' (hold r' hr')
  . exact h.awaiters.sublist (List.eraseIdx_sublist ..)
  . exact fun r' hr' => h.receptive r' (hold r' hr')
  . intro c a hs
    obtain ⟨r', hr', hread, hrest⟩ := h.stillRead c a hs
    refine ⟨r', mem_eraseIdx_of_ne hr hr' ?_, hread, hrest⟩
    rintro rfl
    rw [hslot] at hread
    cases hread
  . exact h.pending
  . exact h.cancels
  . exact h.ready

structure ReadsKept (w : World) : Prop where
  wf : w.Wf
  guarded : w.ReadGuarded
  once : w.ReadsOnce
  resumes : w.Resumes

theorem fresh_receptive (w : World) (c : Nat) (kind : Kind) (m : Nat → Option FdInfo)
    : Receptive { w.newBlock c kind with fdInfoMap := m } w.nextBlock :=
  ⟨_, Function.update_self .., .inl rfl⟩

theorem ReadsKept.read {buffer : Option Nat} {cnt : Nat} {sub : Submit} (h : w.ReadsKept)
    (hc : w.isRunning c) (hsub : Submit.possible w.backend false sub)
    (hleft : w.readState fd = .none → sub ≠ .left)
    : (w.read c fd buffer cnt sub).ReadsOnce ∧ (w.read c fd buffer cnt sub).Resumes := by
  refine ⟨h.once.read h.wf h.guarded hsub hleft, ?_⟩
  obtain ⟨coro, hcoro, -⟩ := isRunning_iff.mp hc
  have hnew : (w.newBlock c .read).Resumes := h.resumes.newBlock h.wf
  by_cases hfailed : w.readState fd ≠ .none ∨ sub = .refused
  . obtain ⟨m, x, heq, -⟩ := read_failed_eq hfailed
    rw [heq]
    have hwf₁ : Wf { w.newBlock c .read with fdInfoMap := m } :=
      (h.wf.newBlock hcoro).congr rfl rfl rfl rfl
    exact Resumes.complete (hnew.same rfl rfl rfl rfl) hwf₁ (fresh_receptive w c .read m)
  . rw [not_or, not_not] at hfailed
    cases sub with
    | accepted =>
      rw [read_accepted_eq hfailed.1]
      exact hnew.same rfl rfl rfl rfl
    | refused => exact absurd rfl hfailed.2
    | stored => simp [Submit.possible] at hsub
    | left => exact absurd rfl (hleft hfailed.1)

theorem ReadsKept.cancelRead (h : w.ReadsKept) (hc : w.isRunning c)
    (hawaited : w.backend = .ioUring → w.readState fd = .pending
      → ∀ p ∈ (w.fdInfoMap fd).bind (·.pendingReadAwaiter), ∀ b ∈ w.blocks p, b.handle = none)
    : (w.cancelRead c fd).ReadsOnce ∧ (w.cancelRead c fd).Resumes := by
  obtain ⟨coro, hcoro, -⟩ := isRunning_iff.mp hc
  have hnew : (w.newBlock c .result).Resumes := h.resumes.newBlock h.wf
  unfold World.cancelRead
  simp only
  split
  . rename_i q hinfo
    change w.fdInfoMap fd = some ⟨.pending, q⟩ at hinfo
    obtain ⟨r, hr, hslot, rfl, hp⟩ := h.once.pending_receptive h.guarded hinfo
    have hset : (w.newBlock c .result).setReadState fd .cancelling
        = { w.newBlock c .result with
          fdInfoMap := Function.update w.fdInfoMap fd (some ⟨.cancelling, some r.awaiter⟩) } := by
      simp only [setReadState]
      rw [show (w.newBlock c .result).fdInfoMap fd = _ from hinfo]
      rfl
    rw [hset]
    have hwf₁ : Wf { w.newBlock c .result with
        fdInfoMap := Function.update w.fdInfoMap fd (some ⟨.cancelling, some r.awaiter⟩) } :=
      (h.wf.newBlock hcoro).congr rfl rfl rfl rfl
    have hp₁ : Receptive { w.newBlock c .result with
        fdInfoMap := Function.update w.fdInfoMap fd (some ⟨.cancelling, some r.awaiter⟩) } r.awaiter := by
      obtain ⟨b, hb, hs⟩ := hp
      refine ⟨b, ?_, hs⟩
      simp only [newBlock, setBlock]
      rw [Function.update_of_ne (Nat.ne_of_lt (h.wf.blockLt _ b hb))]
      exact hb
    refine ⟨?_, ?_⟩
    . have hcancels := (complete_rest { w.newBlock c .result with
        fdInfoMap := Function.update w.fdInfoMap fd (some ⟨.cancelling, some r.awaiter⟩) } .inline r.awaiter
          { ret := -ECANCELED }).2.2.2.1
      rw [hcancels]
      refine h.once.cancelRead_pending h.wf hc hr hslot rfl hp ?_ ?_
      . intro fd' q hq
        rw [Function.update_apply] at hq
        split at hq
        . cases hq
        . exact hq
      . intro hbk b hb
        exact hawaited hbk (readState_of_some hinfo) r.awaiter (by simp [hinfo]) b hb
    . have hnew₁ : Resumes { w.newBlock c .result with
          fdInfoMap := Function.update w.fdInfoMap fd (some ⟨.cancelling, some r.awaiter⟩) } :=
        hnew.same rfl rfl rfl rfl
      have hresumes : (complete { w.newBlock c .result with
          fdInfoMap := Function.update w.fdInfoMap fd (some ⟨.cancelling, some r.awaiter⟩) } .inline r.awaiter
            { ret := -ECANCELED }).Resumes :=
        hnew₁.complete hwf₁ hp₁
      exact hresumes.same rfl rfl rfl rfl
  . refine ⟨?_, ?_⟩
    . have heq := complete_newBlock w c .result w.fdInfoMap { ret := -EALREADY }
      change (w.newBlock c .result).complete .inline w.nextBlock { ret := -EALREADY } = _ at heq
      rw [heq]
      exact h.once.addBlock h.wf (.inr ⟨rfl, rfl⟩) fun _ _ hinfo => hinfo
    . exact hnew.complete (h.wf.newBlock hcoro) (fresh_receptive w c .result w.fdInfoMap)

theorem clearPending_pop {es : List CancelCall} {info : FdInfo} (hinfo : w.fdInfoMap fd = some info)
    : clearPending { w with cancels := es } fd = { w with
        cancels := es,
        fdInfoMap := Function.update w.fdInfoMap fd (some { info with pendingReadAwaiter := none }) } := by
  simp only [clearPending, hinfo]
  rfl

-- The innermost `cancel_read` when epoll has taken the read away.
theorem cancelReadRest_epoll {caller : Nat} {es : List CancelCall} {info : FdInfo}
    (hcancels : w.cancels = ⟨caller, fd, a⟩ :: es) (hbackend : w.backend = .epoll)
    (hdone : w.doneFlag a = false) (hinfo : w.fdInfoMap fd = some info)
    : w.cancelReadRest .accepted
        = complete { complete { w with
            cancels := es,
            fdInfoMap := Function.update w.fdInfoMap fd (some {}),
            slots := Function.update w.slots (.read fd) none,
            requests := w.requests.filter (·.slot ≠ .read fd),
            doneFlag := Function.update w.doneFlag a true } .inline a { ret := 0 } with
          doneFlag := Function.update w.doneFlag a true } .inline a { ret := 0 } := by
  have hinvoke : (disable { w with
      cancels := es,
      fdInfoMap := Function.update w.fdInfoMap fd (some { info with pendingReadAwaiter := none }) }
        (.read fd)).invoke .inline (.cancelRead fd a) { ret := 0 }
      = complete { w with
          cancels := es,
          fdInfoMap := Function.update w.fdInfoMap fd (some {}),
          slots := Function.update w.slots (.read fd) none,
          requests := w.requests.filter (·.slot ≠ .read fd),
          doneFlag := Function.update w.doneFlag a true } .inline a { ret := 0 } := by
    simp only [invoke, disable, setSlot, hdone, setReadState, Function.update_self, setFdInfo,
      Function.update_idem]
    rfl
  have hflag := (complete_rest { w with
    cancels := es,
    fdInfoMap := Function.update w.fdInfoMap fd (some {}),
    slots := Function.update w.slots (.read fd) none,
    requests := w.requests.filter (·.slot ≠ .read fd),
    doneFlag := Function.update w.doneFlag a true } .inline a { ret := 0 }).2.2.2.2
  unfold cancelReadRest
  simp only [hcancels]
  rw [clearPending_pop hinfo]
  split
  . rw [hinvoke, hflag, Function.update_idem]
  . rename_i _ hne
    exact (hne hbackend).elim
  . rename_i hne _
    exact (hne rfl).elim

theorem cancelReadRest_ioUring {caller : Nat} {es : List CancelCall} {info : FdInfo}
    (hcancels : w.cancels = ⟨caller, fd, a⟩ :: es) (hbackend : w.backend = .ioUring)
    (hinfo : w.fdInfoMap fd = some info)
    : w.cancelReadRest .accepted
        = complete { w with
            cancels := es,
            fdInfoMap := Function.update w.fdInfoMap fd (some { info with pendingReadAwaiter := none }),
            slots := Function.update w.slots (.cancelRead fd) (some (.cancelRead fd a)),
            requests := w.requests ++ [{ slot := .cancelRead fd, awaiter := a, multishot := false }],
            doneFlag := Function.update w.doneFlag a true } .inline a { ret := 0 } := by
  unfold cancelReadRest
  simp only [hcancels]
  rw [clearPending_pop hinfo]
  split
  . rename_i hepoll _
    rw [hbackend] at hepoll
    cases hepoll
  . rfl
  . rename_i hne _
    exact (hne rfl).elim

theorem ReadsKept.cancelReadRest (h : w.ReadsKept)
    : (w.cancelReadRest .accepted).ReadsOnce ∧ (w.cancelReadRest .accepted).Resumes := by
  cases hcancels : w.cancels with
  | nil =>
    have heq : w.cancelReadRest .accepted = w := by simp [World.cancelReadRest, hcancels]
    rw [heq]
    exact ⟨h.once, h.resumes⟩
  | cons e es =>
    obtain ⟨caller, fd, a⟩ := e
    obtain ⟨hcancelling, hdone, -⟩ := h.guarded.cancels ⟨caller, fd, a⟩ (by simp [hcancels])
    obtain ⟨-, b, hb, hkind, howner, hnone⟩ := h.once.cancels ⟨caller, fd, a⟩ (by simp [hcancels])
    obtain ⟨info, hinfo⟩ : ∃ info, w.fdInfoMap fd = some info := by
      cases hinfo : w.fdInfoMap fd with
      | none => simp [readState, hinfo] at hcancelling
      | some info => exact ⟨info, rfl⟩
    have hstate : info.state = .cancelling := by
      rw [← readState_of_some hinfo]
      exact hcancelling
    have hcomplete : (b.complete { ret := 0 }).kind = .result ∧ (b.complete { ret := 0 }).owner = caller
        ∧ (b.complete { ret := 0 }).handle = none ∧ (b.complete { ret := 0 }).ready = true :=
      ⟨hkind, howner, hnone, by simp [StateBlock.complete, hkind]⟩
    have hpending : ∀ state, state ≠ .pending → ∀ fd' q,
        Function.update w.fdInfoMap fd (some ⟨state, none⟩) fd' = some ⟨.pending, q⟩
          → w.fdInfoMap fd' = some ⟨.pending, q⟩ := by
      intro state hne fd' q hq
      rw [Function.update_apply] at hq
      split at hq
      . cases hq
        exact absurd rfl hne
      . exact hq
    cases hbackend : w.backend with
    | epoll =>
      rw [cancelReadRest_epoll hcancels hbackend hdone hinfo]
      have hb₁ : blocks { w with
          cancels := es,
          fdInfoMap := Function.update w.fdInfoMap fd (some {}),
          slots := Function.update w.slots (.read fd) none,
          requests := w.requests.filter (·.slot ≠ .read fd),
          doneFlag := Function.update w.doneFlag a true } a = some b := hb
      have hwf₁ : Wf { w with
          cancels := es,
          fdInfoMap := Function.update w.fdInfoMap fd (some {}),
          slots := Function.update w.slots (.read fd) none,
          requests := w.requests.filter (·.slot ≠ .read fd),
          doneFlag := Function.update w.doneFlag a true } := h.wf.congr rfl rfl rfl rfl
      have hresumes₁ : Resumes { w with
          cancels := es,
          fdInfoMap := Function.update w.fdInfoMap fd (some {}),
          slots := Function.update w.slots (.read fd) none,
          requests := w.requests.filter (·.slot ≠ .read fd),
          doneFlag := Function.update w.doneFlag a true } := h.resumes.same rfl rfl rfl rfl
      have hboth : ∀ w₁ : World, w₁.Wf → w₁.Resumes → w₁.blocks a = some b
          → (w₁.complete .inline a { ret := 0 }).Wf ∧ (w₁.complete .inline a { ret := 0 }).Resumes :=
        fun _ hwf hresumes hb => ⟨hwf.complete, hresumes.complete hwf ⟨b, hb, .inl hnone⟩⟩
      obtain ⟨hwf₂, hresumes₂⟩ := hboth _ hwf₁ hresumes₁ hb₁
      rw [World.complete_idle hb₁ hnone] at hwf₂ hresumes₂ ⊢
      refine ⟨ReadsOnce.complete_idle ?_ (Function.update_self ..) hnone, ?_⟩
      . refine h.once.popCancel h.guarded hcancels rfl rfl rfl rfl rfl hcomplete ?_ ?_ ?_ (hpending .none (by simp))
        . intro r _
          simp [addLog, setBlock, hbackend]
        . exact h.once.awaiters.sublist List.filter_sublist
        . intro fd' hne
          simp only [addLog, setBlock]
          rw [Function.update_of_ne]
          simpa using hne hbackend
      . refine Resumes.complete (hresumes₂.same rfl rfl rfl rfl) (hwf₂.congr rfl rfl rfl rfl) ?_
        exact ⟨_, Function.update_self .., .inl hnone⟩
    | ioUring =>
      rw [cancelReadRest_ioUring hcancels hbackend hinfo]
      refine ⟨?_, ?_⟩
      . have hb₁ : blocks { w with
            cancels := es,
            fdInfoMap := Function.update w.fdInfoMap fd (some { info with pendingReadAwaiter := none }),
            slots := Function.update w.slots (.cancelRead fd) (some (.cancelRead fd a)),
            requests := w.requests ++ [{ slot := .cancelRead fd, awaiter := a, multishot := false }],
            doneFlag := Function.update w.doneFlag a true } a = some b := hb
        rw [World.complete_idle hb₁ hnone]
        refine h.once.popCancel h.guarded hcancels rfl rfl rfl rfl rfl hcomplete ?_ ?_ ?_
          (hpending info.state (by simp [hstate]))
        . intro r hread
          simp only [addLog, setBlock, List.mem_append, List.mem_singleton, hbackend, reduceCtorEq, false_implies,
            and_true]
          refine or_iff_left ?_
          rintro rfl
          cases hread
        . simp only [addLog, setBlock, List.pairwise_append]
          refine ⟨h.once.awaiters, List.pairwise_singleton .., ?_⟩
          intro r _ r' hr' fd' fd'' _ hslot'
          rw [List.mem_singleton] at hr'
          subst hr'
          cases hslot'
        . intro fd' _
          simp [addLog, setBlock]
      . refine Resumes.complete (h.resumes.same rfl rfl rfl rfl) (h.wf.congr rfl rfl rfl rfl) ?_
        exact ⟨b, hb, .inl hnone⟩

theorem ReadsKept.completeRequest {i : Nat} {x : Completion} {more : Bool} (h : w.ReadsKept)
    : (w.completeRequest i x more).ReadsOnce ∧ (w.completeRequest i x more).Resumes := by
  cases hr : w.requests[i]? with
  | none =>
    have heq : w.completeRequest i x more = w := by simp [World.completeRequest, hr]
    rw [heq]
    exact ⟨h.once, h.resumes⟩
  | some r =>
    by_cases hcancels : w.cancels = []
    . have hmem := List.mem_of_getElem? hr
      rcases h.guarded.cancelSlot r hmem with ⟨fd, hslot⟩ | ⟨fd, a, hslot, hcb, hdone⟩
      . obtain ⟨hm, -⟩ := h.guarded.slot r hmem fd hslot
        have hcb := (h.once.own r hmem fd hslot).1
        have hp : w.Receptive r.awaiter := by
          rcases h.once.receptive r hmem fd hslot with hp | ⟨-, e, he, -⟩
          . exact hp
          . rw [hcancels] at he
            cases he
        rw [World.completeRequest_eq hr hcancels (hslot ▸ hcb), hm]
        obtain ⟨m, hm', hpending⟩ : ∃ m, resetRead { w with requests := w.requests.eraseIdx i } fd
              = { w with requests := w.requests.eraseIdx i, fdInfoMap := m }
            ∧ ∀ fd q, m fd = some ⟨.pending, q⟩ → w.fdInfoMap fd = some ⟨.pending, q⟩ := by
          unfold resetRead
          split
          . exact ⟨w.fdInfoMap, rfl, fun _ _ hq => hq⟩
          . refine ⟨_, rfl, fun fd' q hq => ?_⟩
            rw [Function.update_apply] at hq
            split at hq
            . cases hq
            . exact hq
        change (complete (resetRead { w with requests := w.requests.eraseIdx i } fd) (.request r.awaiter false)
          r.awaiter x).ReadsOnce ∧ (complete (resetRead { w with requests := w.requests.eraseIdx i } fd)
            (.request r.awaiter false) r.awaiter x).Resumes
        rw [hm']
        refine ⟨h.once.complete_read h.wf hcancels hr hslot hp hpending, ?_⟩
        exact Resumes.complete (h.resumes.same rfl rfl rfl rfl) (h.wf.congr rfl rfl rfl rfl) hp
      . rw [World.completeRequest_eq hr hcancels (hslot ▸ hcb)]
        simp only [invoke, hdone, if_true]
        split
        . exact ⟨h.once, h.resumes⟩
        . exact ⟨h.once.erase_cancel hr hslot, h.resumes.same rfl rfl rfl rfl⟩
    . have heq : w.completeRequest i x more = w := by simp [World.completeRequest, hr, hcancels]
      rw [heq]
      exact ⟨h.once, h.resumes⟩

theorem step_readsKept (h : w.ReadsKept) (st : Step) (hst : ReadStep st) (hcancel : w.CancelsAccepted st)
    (hturn : w.ReadsInTurn st)
    : (w.step st).ReadsKept := by
  have hparts : (w.step st).ReadsOnce ∧ (w.step st).Resumes := by
    have hif : ∀ (p : Bool) (w' : World), (p = true → w'.ReadsOnce ∧ w'.Resumes)
        → (if p then w' else w).ReadsOnce ∧ (if p then w' else w).Resumes := by
      intro p w' h'
      split
      . rename_i hp
        exact h' hp
      . exact ⟨h.once, h.resumes⟩
    cases st with
    | start spawned =>
      refine ⟨?_, h.resumes.start h.wf⟩
      refine h.once.frame rfl rfl rfl rfl (fun _ _ hq => hq) (start_suspendedOn h.wf spawned) ?_ (Nat.le_refl _)
        (fun _ b hb => ⟨b, hb, rfl, rfl, rfl⟩) (fun _ b hb => .inl ⟨b, hb, rfl, id⟩)
      intro c hc
      rw [isRunning_iff] at hc
      obtain ⟨coro, hcoro, hrunning⟩ := hc
      simp only [isRunning, step, World.start, setCoro]
      rw [Function.update_of_ne (Nat.ne_of_lt (h.wf.coroLt c coro hcoro)), hcoro]
      simpa using hrunning
    | call c op sub =>
      cases op with
      | read fd buffer cnt =>
        apply hif
        intro hact
        simp only [canAct, Bool.and_eq_true] at hact
        exact hif _ _ fun hsub => h.read hact.1 hsub hcancel
      | cancelRead fd =>
        apply hif
        intro hact
        simp only [canAct, Bool.and_eq_true] at hact
        exact h.cancelRead hact.1 hturn
      | _ => exact absurd hst id
    | cancelReadRest sub =>
      apply hif
      intro _
      by_cases hcancels : w.cancels = []
      . have heq : w.cancelReadRest sub = w := by simp [World.cancelReadRest, hcancels]
        rw [heq]
        exact ⟨h.once, h.resumes⟩
      . rw [hcancel hcancels]
        exact h.cancelReadRest
    | await c a => exact hif _ _ fun hact => ⟨h.once.await hact hturn, h.resumes.await⟩
    | drop c a => exact hif _ _ fun hact => ⟨h.once.drop h.wf hact hturn, h.resumes.drop h.wf⟩
    | finish c => exact hif _ _ fun hact => ⟨h.once.finish h.wf hact hturn, h.resumes.finish h.wf⟩
    | complete i x more => exact h.completeRequest
    | clearSpawned => exact absurd hst id
  exact ⟨step_wf h.wf st, step_readGuarded h.guarded st hst hcancel, hparts.1, hparts.2⟩

theorem init_readsKept (backend : Backend)
    : ReadsKept { backend } := by
  refine ⟨init_wf backend, init_readGuarded backend, ?_, init_resumes backend⟩
  constructor <;> intros <;> simp_all [SuspendedOn]

-- epoll: the reader is resumed by `cancel_read` and reads again.
def cancelledReader : List Step :=
  [.start true, .start true, .call 0 (.read 3 none 1) .accepted, .await 0 0, .call 1 (.cancelRead 3) .accepted,
    .drop 0 0, .cancelReadRest .accepted, .await 1 1, .call 0 (.read 3 none 1) .accepted, .await 0 2,
    .complete 0 { ret := 5 } false]

-- io_uring: the reader goes on to read another file descriptor, and the cancelled read completes.
def resumedTwice : List Step :=
  [.start true, .start true, .call 0 (.read 3 none 1) .accepted, .await 0 0, .call 1 (.cancelRead 3) .accepted,
    .call 0 (.read 4 none 1) .accepted, .await 0 2, .cancelReadRest .accepted,
    .complete 0 { ret := -ECANCELED } false]

end World

end Coroutine
end Ezio
