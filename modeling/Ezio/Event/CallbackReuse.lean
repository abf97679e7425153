import Ezio.Event.Epoll.Lemmas.ReadBuffer
import Ezio.Event.IoUring.Lemmas.ReadBuffer

/-!
This module contains what both backends give to a callback that is stored for a file descriptor and used
again by later reads.
-/

namespace Ezio
namespace Event

theorem Task.Single.gets {t : Task} {ret : Int} {iov : List Iovec} (h : t.Single ret iov)
    : (iov = t.buffer → t.buffer.length ≤ 1) ∧ (0 < ret → (iov = t.buffer ↔ t.buffer.length = 1)) := by
  rcases h with ⟨hret, hnil⟩ | ⟨v, hv, hiov⟩
  . rw [hnil]
    refine ⟨fun heq => by rw [← heq]; exact Nat.zero_le 1, fun hpos => ?_⟩
    exact absurd hret (Int.not_le.mpr hpos)
  . rw [hiov]
    refine ⟨fun heq => by rw [← heq]; exact Nat.le_refl 1, fun _ => ⟨fun heq => by rw [← heq]; rfl, ?_⟩⟩
    intro hlength
    obtain ⟨v', hv'⟩ := List.length_eq_one_iff.mp hlength
    rw [hv', List.mem_singleton] at hv
    rw [hv', hv]

/--
The epoll backend gives a callback the buffer of the very call, the datagrams of a UDP socket come one by
one. The io_uring backend gives it the buffer of the call that has registered the callback.
-/
theorem readCallback_gets_buffer (isOpen : Nat → Bool) (sts : List Step) (k c sqStart cqStart : Nat) (hk : k < 32)
    (enters : List Uring.EnterRet) (hasTimeoutMultishot : Bool) (key : Nat) (buffer : Option Uring.IovPtr) (cnt : Nat)
    (steps : List Uring.Step) (hsteps : ∀ op, .op op ∈ steps → op.RegistersInto key buffer cnt)
    : (let log := (run sts (World.init isOpen)).state.log
        ∀ id cb n ret iov, .readCallback id cb (.task n) ret iov ∈ log
          → ∃ fd buf cb' opt s r s', .call (.submitAsyncRead fd buf cb' opt) s ∈ log
            ∧ s.submitAsyncRead fd buf cb' opt = .ok (r, s') ∧ s.nextTask = n ∧ s'.nextTask = n + 1
            ∧ s'.fdToEventInfo fd.key = some id
            ∧ ((s'.infos id).action.fd.type ≠ .udp → iov = buf.iov)
            ∧ ((s'.infos id).action.fd.type = .udp → (∀ e ∈ log, ¬e.Groups id)
              → (iov = buf.iov → buf.iov.length ≤ 1)
                ∧ (0 < ret → (iov = buf.iov ↔ buf.iov.length = 1))))
      ∧ let w := Uring.World.run
          { uring := .init hasTimeoutMultishot (Uring.Wrapper.init k c sqStart cqStart enters) } steps
        ∀ called ∈ w.callbacks, ∀ fd buffer' cnt' cb opt ret,
          (called.origin.call, .submitAsyncRead fd buffer' cnt' cb opt, ret) ∈ w.returned → fd.key = key
          → (called.buffer = buffer' ∧ called.bufferIovCnt = cnt' ↔ buffer' = buffer ∧ cnt' = cnt) := by
  refine ⟨?_, ?_⟩
  . intro log id cb n ret iov hmem
    obtain ⟨fd, t, ht, ⟨e, he, hmakes⟩, hgives⟩ := (run_traced isOpen sts).callbacks id cb n ret iov hmem
    obtain ⟨fd', buf, cb', opt, s, r, s', heq, hread, htask, htask', hmap, hfd, hbuf⟩ := hmakes.call
    rw [heq] at he
    rw [ht] at htask htask'
    unfold Gives at hgives
    refine ⟨fd', buf, cb', opt, s, r, s', he, hread, htask, htask', hmap, ?_, ?_⟩
    . intro htype
      rw [hfd] at htype
      rw [if_neg htype] at hgives
      rw [hbuf]
      exact hgives
    . intro htype hnone
      rw [hfd] at htype
      rw [if_pos htype] at hgives
      rw [hbuf]
      apply Task.Single.gets
      exact hgives.resolve_right fun ⟨e', he', hgroups⟩ => hnone e' he' hgroups
  . intro w called hcalled fd buffer' cnt' cb opt ret hmem hkey
    have hserves := Uring.run_serves k c sqStart cqStart enters hk hasTimeoutMultishot key buffer cnt
      steps hsteps
    obtain ⟨hbuffer, hcnt⟩ :=
      (hserves.callbacks called hcalled).2 fd buffer' cnt' cb opt ret hmem hkey
    rw [hbuffer, hcnt, eq_comm, @eq_comm _ cnt]

def World.taskCallbacks (w : World) : List (Nat × List Iovec) :=
  w.log.filterMap fun e =>
    match e with
    | .readCallback _ _ (.task n) _ iov => some (n, iov)
    | _ => none

-- A UDP socket is read into one buffer and then, with the same callback, into two.
def udpReads : List Step :=
  let fd : Fd := ⟨5, .udp⟩
  let readable : Option (List (Nat × Mask)) := some [(5, ⟨true, false, false⟩)]
  [.op (.submitAsyncRead fd ⟨false, [⟨1000, 8⟩]⟩ (some 7) none),
    .dispatch readable [.ok 1 [5], .fail .again] [] [],
    .op (.submitAsyncRead fd ⟨false, [⟨2000, 8⟩, ⟨3000, 8⟩]⟩ none none),
    .dispatch readable [.ok 1 [4], .fail .again] [] []]

example
    : (run udpReads (World.init fun _ => true)).state.taskCallbacks
        = [(0, [⟨1000, 8⟩]), (1, [⟨2000, 8⟩])] := by
  decide +kernel

-- Two reads on io_uring one after the other, the second one passes no callback.
def uringReads (buffer₁ buffer₂ : Uring.IovPtr) : List Uring.Step :=
  let read buffer cb : Uring.Step := .op (.submitAsyncRead ⟨3, .tcp⟩ (some buffer) 1 cb none)
  [read buffer₁ (some 7), .complete 0 5 0, .wait none, .next, .finish, .consume,
    read buffer₂ none, .complete 1 5 0, .wait none, .next]

def readsInTurn (buffer₁ buffer₂ : Uring.IovPtr) : Uring.World :=
  Uring.World.run { uring := .init true (Uring.Wrapper.init 2 1 0 0 []) } (uringReads buffer₁ buffer₂)

-- The second read is called back with the buffer of the first one.
theorem uringReads_get_first_buffer
    : let first : Uring.IovPtr := ⟨100, [⟨4096, 8⟩]⟩
      let second : Uring.IovPtr := ⟨200, [⟨8192, 8⟩]⟩
      let w := readsInTurn first second
      (1, Uring.Op.submitAsyncRead ⟨3, .tcp⟩ (some second) 1 none none, 0) ∈ w.returned
        ∧ w.callbacks.map (fun c => (c.origin.call, c.res, c.buffer))
          = [(0, 5, some first), (1, 5, some first)] := by
  decide +kernel

theorem uringReads_get_buffer
    : let first : Uring.IovPtr := ⟨100, [⟨4096, 8⟩]⟩
      ∀ second ∈ [first, ⟨200, [⟨8192, 8⟩]⟩], ∃ called ∈ (readsInTurn first second).callbacks,
        called.origin.call = 1
          ∧ (called.buffer = some second ∧ called.bufferIovCnt = 1 ↔ some second = some first ∧ 1 = 1) := by
  intro first second hsecond
  have hsteps : ∀ op, .op op ∈ uringReads first second → op.RegistersInto 3 (some first) 1 := by
    intro op hop
    simp only [uringReads, List.mem_cons, List.not_mem_nil, Uring.Step.op.injEq, reduceCtorEq,
      or_false, false_or] at hop
    rcases hop with hop | hop
    . rw [hop]
      exact fun _ _ => ⟨rfl, rfl⟩
    . rw [hop]
      exact fun _ hcb => absurd rfl hcb
  have hcalls : ∃ called ∈ (readsInTurn first second).callbacks, called.origin.call = 1
      ∧ (called.origin.call, Uring.Op.submitAsyncRead ⟨3, .tcp⟩ (some second) 1 none none, 0)
        ∈ (readsInTurn first second).returned := by
    rw [List.mem_cons, List.mem_singleton] at hsecond
    rcases hsecond with hsecond | hsecond
    . rw [hsecond]
      decide +kernel
    . rw [hsecond]
      decide +kernel
  obtain ⟨called, hcalled, hcall, hmem⟩ := hcalls
  exact ⟨called, hcalled, hcall, (readCallback_gets_buffer (fun _ => true) udpReads 2 1 0 0 (by decide) [] true 3
    (some first) 1 (uringReads first second) hsteps).2 called hcalled _ _ _ _ _ _ hmem rfl⟩

end Event
end Ezio
