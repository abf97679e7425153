import Ezio.Event.FdIo.Lemmas
import Ezio.Socket.UdpSocket

/-!
This module contains when `udp_socket` calls `cb_data_` with the bytes of each datagram that has been received.
-/

namespace Ezio
namespace Socket
namespace UdpSocket

open Event
open EStateM (Preserves Triple get_bind_apply modify_bind_apply bind_apply)

theorem onReadUdpMsg_pos {conf : UdpConfig} {ret : Int} (hpos : 0 < ret) (iov : Iovec)
    : onReadUdpMsg conf ret [iov] = [.data iov] := by
  unfold onReadUdpMsg
  rw [if_pos hpos]
  rfl

theorem onReadUdpMsg_neg {conf : UdpConfig} {ret : Int} (hneg : ret ≤ 0) (iov : List Iovec)
    : (onReadUdpMsg conf ret iov).filterMap UserCall.data? = [] := by
  unfold onReadUdpMsg
  rw [if_neg (Int.not_lt.mpr hneg)]
  split
  . rfl
  . rfl

theorem onReadUdpMsg_zero (conf : UdpConfig) (iov : List Iovec) : onReadUdpMsg conf 0 iov = [] := by
  simp [onReadUdpMsg]

theorem onReadUdpMsg_length_le (conf : UdpConfig) (ret : Int) (iov : List Iovec)
    : (onReadUdpMsg conf ret iov).length ≤ 1 := by
  unfold onReadUdpMsg
  split
  . rw [List.length_map, List.length_take]
    exact Nat.min_le_left 1 _
  . split
    . exact Nat.le_refl 1
    . exact Nat.zero_le 1

/-! ### io_uring -/

section

variable {conf : UdpConfig} {p : Uring.Provided} {s : UringRead} {a : Arrival} {g : Nat}

-- A completion with a block is reported with its length, behind the header and the address if there are some.
theorem Arrival.calls_eq {base len : Nat} (hbuffer : a.cqe.hasBuffer) (hreceived : a.Received conf ⟨base, len⟩)
    (buffer : Nat)
    : a.calls conf buffer = [.data (if conf.needReadDetail then ⟨buffer + DETAIL_SIZE, a.payloadlen buffer⟩
        else ⟨buffer, a.len⟩)] := by
  obtain ⟨hle, hreceived⟩ := hreceived
  unfold Arrival.calls completeCallback groupReadCallback
  dsimp only
  cases hdetail : conf.needReadDetail with
  | true =>
    rw [if_pos hdetail] at hreceived
    obtain ⟨_, _, hres⟩ := hreceived
    have hpos : 0 < a.cqe.res := by
      rw [hres]
      unfold DETAIL_SIZE
      omega
    rw [if_neg (by simpa using hpos)]
    exact onReadUdpMsg_pos hpos _
  | false =>
    rw [if_neg (by simp [hdetail])] at hreceived
    obtain ⟨hlen, hres⟩ := hreceived
    have hpos : 0 < a.cqe.res := by
      rw [hres]
      exact Int.natCast_pos.mpr hlen
    rw [if_pos (.inl rfl), if_pos ⟨hpos, hbuffer⟩, hres, Int.toNat_natCast]
    exact onReadUdpMsg_pos (Int.natCast_pos.mpr hlen) _

theorem Arrival.calls_length_le (a : Arrival) (conf : UdpConfig) (buffer : Nat)
    : (a.calls conf buffer).length ≤ 1 :=
  onReadUdpMsg_length_le conf _ _

-- The calls of `cb_data_` that a step makes.
def RecvStep.passed (conf : UdpConfig) (s : UringRead) (st : RecvStep) : List (Option Iovec) :=
  ((st.calls conf s).filterMap UserCall.data?).map some

theorem RecvStep.passed_length_le (conf : UdpConfig) (s : UringRead) (st : RecvStep)
    : (st.passed conf s).length ≤ (st.datagrams conf s).length := by
  unfold passed
  rw [List.length_map]
  cases st with
  | datagram a =>
    have hone : (datagrams conf s (.datagram a)).length = 1 := by
      cases hdetail : conf.needReadDetail <;> simp [datagrams, hdetail]
    rw [hone]
    refine Nat.le_trans (List.length_filterMap_le _ _) ?_
    unfold calls
    dsimp only
    split
    . exact Nat.zero_le 1
    . split
      . split
        . exact a.calls_length_le conf _
        . exact Nat.zero_le 1
      . exact a.calls_length_le conf 0
  | ended ops =>
    have hnone : (calls conf s (.ended ops)).filterMap UserCall.data? = [] := onReadUdpMsg_neg (by decide) _
    rw [hnone]
    exact Nat.zero_le _
  | _ => exact Nat.zero_le _

-- The block of a completion is passed on from its start unless it is the last one of its group.
theorem pointer_eq_iff (h : p.Good g) {base len : Nat} (hgroup : p.uring.blocks.groupOf a.cqe.bufIndex = some g)
    (hblock : blockOf p a.cqe = ⟨base, len⟩)
    : Uring.World.hasRoom p.uring a.cqe = .ok true ∧ p.uring.dataBuf a.cqe = base
        ↔ (p.uring.blocks.lastBuf g).bufIndex ≠ BitVec.ofNat 32 a.cqe.bufIndex := by
  obtain ⟨buf, base', ring, m, hbuf, hg, hbase, -⟩ := h.get hgroup
  obtain ⟨rfl, rfl⟩ : base' = base ∧ buf.len = len := by
    unfold blockOf at hblock
    rw [hbuf] at hblock
    dsimp only at hblock
    rw [hbase, Option.getD_some, Iovec.mk.injEq] at hblock
    exact hblock
  constructor
  . rintro ⟨hroom, hpointer⟩ hagain
    have hdelivered : (p.complete a.cqe a.ops).delivered = p.delivered ++ [(a.cqe.bufIndex, base')] := by
      rw [Uring.Provided.complete_delivered hroom, hpointer]
    exact h.not_delivers hgroup hagain hbuf hbase hdelivered
  . intro halternates
    obtain ⟨hroom, hpointer⟩ := h.pointer hgroup halternates hbuf hbase
    exact ⟨hroom, hpointer⟩

namespace RecvStep

variable {st : RecvStep}

theorem passed_eq_iff (h : s.provided.fault = none → s.provided.Good g) (hallowed : st.Allowed conf g s)
    : st.passed conf s = st.datagrams conf s ↔ st.Fits conf g s := by
  cases st with
  | other st => exact ⟨fun _ => trivial, fun _ => rfl⟩
  | exhausted => exact ⟨fun _ => trivial, fun _ => rfl⟩
  | ended ops =>
    have hnone : (calls conf s (.ended ops)).filterMap UserCall.data? = [] := onReadUdpMsg_neg (by decide) _
    refine ⟨fun _ => trivial, fun _ => ?_⟩
    unfold passed
    rw [hnone]
    rfl
  | unread => exact ⟨fun heq => absurd heq.symm (List.cons_ne_nil _ _), False.elim⟩
  | datagram a =>
    unfold passed
    dsimp only [Allowed] at hallowed
    dsimp only [calls, datagrams, Fits]
    cases hfault : s.provided.fault with
    | some f =>
      constructor
      . intro heq
        cases hdetail : conf.needReadDetail <;> simp [hdetail] at heq
      . rintro ⟨hnone, _⟩
        cases hnone
    | none =>
      replace h := h hfault
      by_cases hbuffer : a.cqe.hasBuffer
      . rw [if_pos hbuffer] at hallowed
        dsimp only
        rw [if_pos hbuffer]
        obtain ⟨hcomplete, hgroup, hreceived⟩ := hallowed
        have hblock : blockOf s.provided a.cqe
            = ⟨(blockOf s.provided a.cqe).base, (blockOf s.provided a.cqe).len⟩ := rfl
        rw [← pointer_eq_iff h hgroup hblock]
        split
        . next hroom =>
          rw [a.calls_eq hbuffer hreceived]
          obtain ⟨_, hreceived⟩ := hreceived
          cases hdetail : conf.needReadDetail with
          | true =>
            rw [if_pos hdetail] at hreceived
            obtain ⟨hsize, hpayload, _⟩ := hreceived
            simp only [if_true, List.filterMap_cons, List.filterMap_nil, UserCall.data?, List.map_cons, List.map_nil,
              List.cons.injEq, Option.some.injEq, Iovec.mk.injEq, Nat.add_right_cancel_iff, and_true, hroom, true_and]
            apply and_congr_right
            intro hstart
            rw [hstart, hpayload]
            omega
          | false =>
            rw [if_neg (by simp [hdetail])] at hreceived
            simp [hroom, hreceived.1, UserCall.data?]
        . next hroom =>
          constructor
          . intro heq
            cases hdetail : conf.needReadDetail <;> simp [hdetail] at heq
          . rintro ⟨_, ⟨hroom', _⟩, _⟩
            exact absurd hroom' hroom
      . rw [if_neg hbuffer] at hallowed
        dsimp only
        rw [if_neg hbuffer]
        obtain ⟨hdetail, hlen, hres, _⟩ := hallowed
        have hnone : a.calls conf 0 = [] := by
          unfold Arrival.calls completeCallback groupReadCallback
          rw [hres]
          simp [onReadUdpMsg_zero]
        rw [Bool.not_eq_true'] at hdetail
        simp [hnone, hdetail, hlen]

-- The blocks are in order as long as no reference dangles.
theorem step_good {st : Uring.ProvidedStep} (h : p.fault = none → p.Good g) (hallowed : st.Allowed g p)
    (halternates : st.alternates g p)
    : (p.step st).fault = none → (p.step st).Good g := by
  intro hsound
  have hfault : p.fault = none := Uring.Provided.fault_of_step hsound
  have hkeeps := (Uring.Provided.step_fault_iff hfault st).mp hsound
  apply (h hfault).step hallowed
  unfold Uring.ProvidedStep.fits
  rw [halternates, hkeeps]
  rfl

theorem next_good (h : s.provided.fault = none → s.provided.Good g) (hallowed : st.Allowed conf g s)
    (hfits : st.Fits conf g s)
    : (st.next s).provided.fault = none → (st.next s).provided.Good g := by
  cases st with
  | other st =>
    apply step_good h hallowed.1
    cases st with
    | complete cqe ops => simpa [Uring.ProvidedStep.alternates] using .inl hallowed.2
    | _ => rfl
  | datagram a =>
    dsimp only [Allowed] at hallowed
    dsimp only [next]
    split
    . next hbuffer =>
      rw [if_pos hbuffer] at hallowed
      exact step_good h hallowed.1 (by simpa [Uring.ProvidedStep.alternates] using .inr hfits.2.1)
    . exact h
  | exhausted => exact h
  | ended ops =>
    refine Along.invariant (I := fun p : Uring.Provided => p.fault = none → p.Good g) ?_ h hallowed.2
    exact fun p op hgood hop => step_good hgood hop rfl
  | unread => exact h

end RecvStep

theorem UringReception.delivers_iff (r : UringReception conf) : (Reception.uring r).Delivers ↔ r.Fits := by
  unfold Reception.Delivers Reception.calls Reception.datagrams UringReception.calls UringReception.datagrams
    UringReception.Fits
  dsimp only
  rw [filterMap_outputs, map_outputs]
  refine (outputs_eq_iff (fun s st => st.passed_length_le conf s) _ _).trans ?_
  apply r.allowed.iff_of_invariant (I := fun s => s.provided.fault = none → s.provided.Good r.group)
  . exact fun s st h hallowed => RecvStep.passed_eq_iff h hallowed
  . exact fun s st h hallowed hfits => RecvStep.next_good h hallowed hfits
  . exact fun _ => Uring.Provided.Good.init r.group r.hasTimeoutMultishot r.ring

end

/-! ### epoll -/

section

variable {conf : UdpConfig} {id ring : Nat} {blocks : List Iovec} {buf : List FdIo.Udp.Mmsghdr} {xs : List UserCall}
  {sys : List SysRet} {w : World}

theorem entryCalls_observation (conf : UdpConfig) : Observation (entryCalls conf) :=
  ⟨fun _ _ => rfl, fun _ _ _ _ _ _ => rfl⟩

-- The read is under way, the user has been called for `xs`.
def Receiving (conf : UdpConfig) (id ring : Nat) (blocks : List Iovec) (buf : List FdIo.Udp.Mmsghdr)
    (xs : List UserCall) (sys : List SysRet) (w : World) : Prop :=
  Retained (Keeps id ring) (Reading id ring blocks buf) (entryCalls conf) xs sys w

theorem Receiving.readCallback (h : Receiving conf id ring blocks buf xs sys w) (ret : Int) (iov : List Iovec)
    : ∃ w', Event.readCallback id .multishot ret iov w = .ok () w'
        ∧ Receiving conf id ring blocks buf (xs ++ onReadUdpMsg conf ret iov) sys w' := by
  obtain ⟨cb, hcb⟩ := Option.isSome_iff_exists.mp h.inv.multishot.callback
  exact Retained.readCallback (entryCalls_observation conf) (fun op hop => hop blocks buf) hcb h .multishot ret iov

theorem Receiving.udpHdrs (h : Receiving conf id ring blocks buf xs sys w)
    : Event.udpHdrs id true w = .ok buf w := by
  have hhdrs : (w.action id).mmsghdrForUdpMultishot = .live buf := h.inv.hdrs
  unfold Event.udpHdrs
  rw [get_bind_apply, if_pos rfl, hhdrs]
  rfl

-- Each of the headers is passed on with its length.
theorem Receiving.udpCallbacks (h : Receiving conf id ring blocks buf xs sys w) (i n : Nat) (hn : i + n ≤ buf.length)
    : ∃ w', Event.udpCallbacks id true .multishot i n w = .ok () w'
        ∧ Receiving conf id ring blocks buf
            (xs ++ ((buf.drop i).take n).flatMap fun hdr => onReadUdpMsg conf hdr.msgLen [hdr.iov]) sys w' := by
  induction n generalizing i xs w with
  | zero => exact ⟨w, rfl, by simpa using h⟩
  | succ n ih =>
    have hi : i < buf.length := by omega
    obtain ⟨w₁, hcall, hw₁⟩ := h.readCallback buf[i].msgLen [buf[i].iov]
    obtain ⟨w', hrest, hw'⟩ := ih hw₁ (i + 1) (by omega)
    refine ⟨w', ?_, ?_⟩
    . unfold Event.udpCallbacks
      rw [bind_apply, h.udpHdrs]
      dsimp only
      rw [List.getElem?_eq_getElem hi]
      dsimp only
      rw [bind_apply, hcall]
      exact hrest
    . rw [List.drop_eq_getElem_cons hi, List.take_succ_cons, List.flatMap_cons, ← List.append_assoc]
      exact hw'

-- The headers that have been received into.
theorem take_fillLens {lens : List Nat} (hlens : lens.length ≤ buf.length)
    : ((FdIo.Udp.fillLens buf 0 lens).take lens.length).map (fun hdr => (hdr.iov, hdr.msgLen))
        = (buf.map (·.iov)).zip lens := by
  apply List.ext_getElem
  . simp [FdIo.Udp.fillLens]
    omega
  . intro i hi hi'
    have hlt : i < lens.length := by simp at hi'; omega
    simp [FdIo.Udp.fillLens, hlt]

-- What the user is called with for an answer.
def answerCalls (conf : UdpConfig) (blocks : List Iovec) (a : SysRet) : List UserCall :=
  (slots blocks a).flatMap fun slot => onReadUdpMsg conf slot.2 [slot.1]

theorem flatMap_answerCalls {answers : List SysRet} (hnone : answers.flatMap (slots blocks) = [])
    : answers.flatMap (answerCalls conf blocks) = [] := by
  have hslots := List.flatMap_eq_nil_iff.mp hnone
  apply List.flatMap_eq_nil_iff.mpr
  intro a ha
  unfold answerCalls
  rw [hslots a ha]
  rfl

theorem Receiving.modifyAction {f : EventAction → EventAction} (h : Receiving conf id ring blocks buf xs sys w)
    (hfd : ∀ a, (f a).fd = a.fd) (hops : ∀ a, (f a).fdOps = a.fdOps)
    (hcb : ∀ a, (f a).readBufIdxCallback = a.readBufIdxCallback) {buf' : List FdIo.Udp.Mmsghdr}
    (hhdrs : (f (w.action id)).mmsghdrForUdpMultishot = .live buf')
    : Receiving conf id ring blocks buf' xs sys (w.modifyAction id f) := by
  refine ⟨⟨h.inv.multishot.modifyAction hfd hops hcb, ?_⟩, h.calls, h.observes.of_log rfl, h.sys⟩
  rw [← hhdrs]
  simp [World.modifyAction, World.action, Epoll.action_def]

-- What `recvmmsg` gives to the next read, if there is an answer that is not an interruption.
theorem readFdForMultishot_cases (buf : List FdIo.Udp.Mmsghdr) (hsys : ∀ a ∈ sys, Arrives blocks a)
    : (FdIo.Udp.readFdForMultishot buf sys = .cut ∧ sys.flatMap (slots blocks) = [])
        ∨ ∃ a used left, sys = used ++ a :: left ∧ used.flatMap (slots blocks) = [] ∧ Arrives blocks a
          ∧ ((a = .fail .again ∧ FdIo.Udp.readFdForMultishot buf sys = .done ⟨INT32_MAX, true, buf⟩ left)
            ∨ ∃ n lens, a = .ok n lens
              ∧ FdIo.Udp.readFdForMultishot buf sys
                = .done ⟨n, false, FdIo.Udp.fillLens buf 0 (lens.take n)⟩ left) := by
  induction sys with
  | nil => exact .inl ⟨rfl, rfl⟩
  | cons a sys ih =>
    rw [List.forall_mem_cons] at hsys
    obtain ⟨ha, hsys⟩ := hsys
    cases a with
    | ok n lens => exact .inr ⟨.ok n lens, [], sys, rfl, rfl, ha, .inr ⟨n, lens, rfl, rfl⟩⟩
    | fail e =>
      rcases ha with rfl | rfl
      . exact .inr ⟨.fail .again, [], sys, rfl, rfl, .inl rfl, .inl ⟨rfl, rfl⟩⟩
      . rcases ih hsys with ⟨hcut, hnone⟩ | ⟨a, used, left, rfl, hnone, ha, hread⟩
        . exact .inl ⟨hcut, hnone⟩
        . exact .inr ⟨a, .fail .intr :: used, left, rfl, hnone, ha, hread⟩

-- `read_udp` up to its loop, which is left out if the socket is empty.
theorem Receiving.readUdp_done (h : Receiving conf id ring blocks buf xs sys w) {ret : Int} {isEmpty : Bool}
    {buf' : List FdIo.Udp.Mmsghdr} {left : List SysRet}
    (hread : FdIo.Udp.readFdForMultishot buf sys = .done ⟨ret, isEmpty, buf'⟩ left) (hpos : 0 < ret)
    : ∃ w', Receiving conf id ring blocks buf' xs left w'
        ∧ Event.readUdp id true .multishot 0 w =
          (if ret = INT32_MAX then pure ret
            else Event.udpCallbacks id true .multishot 0 ret.toNat >>= fun _ => pure 0) w' := by
  have hop : (w.action id).readOp = some .udpMultishot := h.inv.multishot.op
  have hlift : liftIo (readHdrs (w.action id).readOp buf 0) w = .ok ⟨ret, isEmpty, buf'⟩ { w with sys := left } := by
    unfold liftIo
    rw [hop, h.sys]
    dsimp only [readHdrs]
    rw [hread]
  have hleft : Receiving conf id ring blocks buf xs left { w with sys := left } :=
    ⟨h.inv, h.calls, h.observes.of_log rfl, rfl⟩
  have hset : Receiving conf id ring blocks buf' xs left ({ w with sys := left }.modifyAction id fun a =>
      { a with mmsghdrForUdpMultishot := .live buf' }) :=
    hleft.modifyAction (f := fun a => { a with mmsghdrForUdpMultishot := .live buf' }) (fun _ => rfl) (fun _ => rfl)
      (fun _ => rfl) rfl
  refine ⟨_, hset.modifyAction (f := fun a => { a with isReadable := a.isReadable && !isEmpty }) (fun _ => rfl)
    (fun _ => rfl) (fun _ => rfl) hset.inv.hdrs, ?_⟩
  unfold Event.readUdp
  rw [bind_apply, h.udpHdrs]
  dsimp only
  rw [get_bind_apply, bind_apply, hlift]
  dsimp only
  rw [if_pos hpos]
  rfl

-- The datagrams of the next answer are passed on, the loop goes on.
theorem Receiving.readUdp (h : Receiving conf id ring blocks buf xs sys w) (hbuf : buf.map (·.iov) = blocks)
    (hsys : ∀ a ∈ sys, Arrives blocks a)
    : (Event.readUdp id true .multishot 0 w = .error .cut w ∧ sys.flatMap (slots blocks) = [])
        ∨ ∃ ret w' buf' used left, Event.readUdp id true .multishot 0 w = .ok ret w' ∧ 0 ≤ ret
          ∧ sys = used ++ left ∧ used ≠ [] ∧ buf'.map (·.iov) = blocks
          ∧ Receiving conf id ring blocks buf' (xs ++ used.flatMap (answerCalls conf blocks)) left w' := by
  rcases readFdForMultishot_cases buf hsys with ⟨hcut, hnone⟩ | ⟨a, used, left, rfl, hnone, ha, hread⟩
  . left
    have hop : (w.action id).readOp = some .udpMultishot := h.inv.multishot.op
    refine ⟨?_, hnone⟩
    unfold Event.readUdp
    rw [bind_apply, h.udpHdrs]
    dsimp only
    rw [get_bind_apply, bind_apply]
    unfold liftIo
    rw [hop, h.sys]
    dsimp only [readHdrs]
    rw [hcut]
  . right
    have hused : used.flatMap (answerCalls conf blocks) = [] := flatMap_answerCalls hnone
    rcases hread with ⟨rfl, hread⟩ | ⟨n, lens, rfl, hread⟩
    . obtain ⟨w', hw', hrun⟩ := h.readUdp_done hread (by decide)
      refine ⟨INT32_MAX, w', buf, used ++ [.fail .again], left, ?_, by decide, by simp, by simp, hbuf, ?_⟩
      . rw [hrun, if_pos rfl]
        rfl
      . rw [List.flatMap_append, hused]
        simpa [answerCalls, slots] using hw'
    . obtain ⟨hpos, hmax, hcount, hlens, -⟩ := ha
      rw [← hlens, List.take_length] at hread
      subst hlens
      obtain ⟨w₁, hw₁, hrun⟩ := h.readUdp_done hread (Int.natCast_pos.mpr hpos)
      have hlength : buf.length = blocks.length := by rw [← hbuf, List.length_map]
      obtain ⟨w', hcalls, hw'⟩ := hw₁.udpCallbacks 0 lens.length (by simp [FdIo.Udp.fillLens]; omega)
      refine ⟨0, w', FdIo.Udp.fillLens buf 0 lens, used ++ [.ok lens.length lens], left, ?_, Int.le_refl 0, by simp,
        by simp, (FdIo.Udp.fillLens_iov _ _ _).trans hbuf, ?_⟩
      . have hne : (lens.length : Int) ≠ INT32_MAX := by
          unfold UIO_MAXIOV at hmax
          unfold INT32_MAX
          omega
        rw [hrun, if_neg hne, Int.toNat_natCast, bind_apply, hcalls]
        rfl
      . have heq : answerCalls conf blocks (.ok lens.length lens)
            = ((FdIo.Udp.fillLens buf 0 lens).take lens.length).flatMap
              fun hdr => onReadUdpMsg conf hdr.msgLen [hdr.iov] := by
          unfold answerCalls slots
          dsimp only
          rw [List.take_length, ← hbuf, ← take_fillLens (by omega), List.flatMap_map]
        rw [List.flatMap_append, hused, List.nil_append, List.flatMap_cons, List.flatMap_nil, List.append_nil, heq]
        rwa [List.drop_zero] at hw'

-- The loop goes on until there is no answer left.
theorem Receiving.multishotLoop (fuel : Nat) (h : Receiving conf id ring blocks buf xs sys w)
    (hbuf : buf.map (·.iov) = blocks) (hsys : ∀ a ∈ sys, Arrives blocks a) (hfuel : sys.length < fuel)
    : Observes (entryCalls conf) (xs ++ sys.flatMap (answerCalls conf blocks))
        (Event.multishotLoop id ring fuel w).state := by
  induction fuel generalizing buf xs sys w with
  | zero => exact absurd hfuel (Nat.not_lt_zero _)
  | succ fuel ih =>
    rw [h.inv.multishot.multishotLoop_succ, bind_apply, h.inv.multishot.readShot_eq, if_pos rfl]
    rcases h.readUdp hbuf hsys with ⟨hcut, hnone⟩ | ⟨ret, w', buf', used, left, hread, hret, rfl, hused, hbuf', hw'⟩
    . have hcalls : sys.flatMap (answerCalls conf blocks) = [] := flatMap_answerCalls hnone
      rw [hcut, hcalls, List.append_nil]
      exact h.observes
    . have hleft : left.length < fuel := by
        have := List.length_pos_iff.mpr hused
        rw [List.length_append] at hfuel
        omega
      rw [hread, List.flatMap_append, ← List.append_assoc]
      dsimp only
      rw [if_neg (by omega)]
      exact ih hw' hbuf' (fun a ha => hsys a (List.mem_append_right used ha)) hleft

-- A datagram is passed on as it is if it is as long as its block, as `recvmmsg` does not change `iov_len`.
theorem flatMap_calls_eq_iff (conf : UdpConfig) (datagrams : List (Iovec × Nat))
    : ((datagrams.flatMap fun slot => onReadUdpMsg conf slot.2 [slot.1]).filterMap UserCall.data?).map some
          = datagrams.map (fun slot => some ⟨slot.1.base, slot.2⟩)
        ↔ ∀ slot ∈ datagrams, 0 < slot.2 ∧ slot.2 = slot.1.len := by
  rw [List.filterMap_flatMap, List.map_flatMap, List.map_eq_flatMap, flatMap_eq_iff]
  . refine forall₂_congr ?_
    rintro ⟨⟨base, blockLen⟩, len⟩ _
    dsimp only
    by_cases hpos : 0 < len
    . rw [onReadUdpMsg_pos (Int.natCast_pos.mpr hpos)]
      simp [hpos, eq_comm, UserCall.data?]
    . rw [Nat.eq_zero_of_not_pos hpos]
      simp [onReadUdpMsg_zero]
  . intro slot
    rw [List.length_map]
    exact Nat.le_trans (List.length_filterMap_le _ _) (onReadUdpMsg_length_le conf _ _)

theorem EpollReception.calls_eq (r : EpollReception conf)
    : r.calls = (r.answers.flatMap (slots r.blocks)).flatMap fun slot => onReadUdpMsg conf slot.2 [slot.1] := by
  obtain ⟨buf, hreading, hbuf⟩ := r.reading
  have hreceiving : Receiving conf r.id r.task.bufRing r.blocks buf (r.world.log.flatMap (entryCalls conf)) r.answers
      { r.world with sys := r.answers } :=
    ⟨hreading, r.keeps, rfl, rfl⟩
  have hloop := hreceiving.multishotLoop (r.answers.length + 1) hbuf r.arrives (Nat.lt_succ_self _)
  rw [List.flatMap_assoc]
  exact hloop.since

theorem EpollReception.delivers_iff (r : EpollReception conf) : (Reception.epoll r).Delivers ↔ r.Fills := by
  unfold Reception.Delivers Reception.calls Reception.datagrams EpollReception.datagrams
  dsimp only
  rw [r.calls_eq]
  exact flatMap_calls_eq_iff conf _

end

/-! ### Both -/

variable {conf : UdpConfig}

-- Two datagrams of 5 bytes take the two blocks of a group, after which the kernel ends the read.
def twoDatagrams : UringReception ⟨false, true⟩ where
  group := 0
  hasTimeoutMultishot := true
  ring := Uring.Wrapper.init 2 2 0 0 []
  steps :=
    [.other (.call (Uring.group 0 2).op), .other (.select 0), .other (.select 0), .exhausted,
      .datagram ⟨5, Uring.Provided.fills 0, fun _ => 0, [], true⟩,
      .datagram ⟨5, Uring.Provided.fills 1, fun _ => 0, [], true⟩, .ended []]
  allowed := by decide +kernel

theorem keeps_open (id ring fd : Nat) : Keeps id ring (.open fd) := by
  intro blocks buf s h
  exact ⟨0, _, rfl, ⟨h.multishot.fdType, h.multishot.op, h.multishot.callback, h.multishot.ring, h.multishot.nonempty⟩,
    h.hdrs⟩

-- A datagram of 3 bytes into blocks of 8 bytes.
def shortDatagram : EpollReception ⟨false, true⟩ where
  id := 0
  task := ⟨0, false, true⟩
  blocks := [⟨0, 8⟩, ⟨8, 8⟩]
  world := multishotWorld .udp
  answers := [.ok 1 [3]]
  detail := rfl
  reading := ⟨[⟨⟨0, 8⟩, false, 0⟩, ⟨⟨8, 8⟩, false, 0⟩], ⟨multishotWorld_multishot (.inr rfl), by decide +kernel⟩, rfl⟩
  keeps := by
    intro ops hops op hop
    obtain rfl : ops = [.open 5] := List.mem_singleton.mp hops
    obtain rfl : op = .open 5 := List.mem_singleton.mp hop
    exact keeps_open 0 0 5
  arrives := by decide

end UdpSocket
end Socket
end Ezio
