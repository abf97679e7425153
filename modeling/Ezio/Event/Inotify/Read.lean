import Ezio.Event.Inotify

/-!
This module contains what `read_fd` of an inotify leaves in the buffer and what `handle_notify` finds there.
-/

namespace Ezio
namespace Event
namespace Inotify

variable {space base : Nat} {queue es : List InotifyEvent} {cs : List Call} {mem : Nat → UInt8}

-- The next events fill the space exactly.
def Fills (space : Nat) (es : List InotifyEvent) : Prop :=
  ∃ taken, taken <+: es ∧ total taken = space

-- Each call that is made finds events that all fit with space left, or events that fill the space.
def Fits (space : Nat) (queue : List InotifyEvent) : List Call → Prop
  | [] => Fills space queue ∨ total queue < space
  | .intr :: cs => Fits space queue cs
  | .serve es :: cs =>
    Fills space (queue ++ es)
      ∨ total (queue ++ es) < space ∧ (queue ++ es = [] ∨ Fits (space - total (queue ++ es)) [] cs)

/-! ### The queue of the kernel -/

theorem total_cons (e : InotifyEvent) (es : List InotifyEvent)
    : total (e :: es) = size e + total es :=
  List.sum_cons

theorem total_append (es es' : List InotifyEvent)
    : total (es ++ es') = total es + total es' := by
  rw [total, List.map_append, List.sum_append]
  rfl

theorem size_pos (e : InotifyEvent)
    : 0 < size e := by
  rw [size, HEADER_SIZE]
  omega

theorem total_pos (h : es ≠ [])
    : 0 < total es := by
  cases es with
  | nil => exact absurd rfl h
  | cons e es =>
    have := size_pos e
    rw [total_cons]
    omega

theorem takeFit_append (space : Nat) (es : List InotifyEvent)
    : (takeFit space es).1 ++ (takeFit space es).2 = es := by
  induction es generalizing space with
  | nil => rfl
  | cons e es ih =>
    rw [takeFit]
    split
    . exact congrArg (e :: ·) (ih (space - size e))
    . rfl

theorem takeFit_all (h : total es ≤ space)
    : takeFit space es = (es, []) := by
  induction es generalizing space with
  | nil => rfl
  | cons e es ih =>
    rw [total_cons] at h
    rw [takeFit, if_pos (by omega), ih (by omega)]

theorem takeFit_le (space : Nat) (es : List InotifyEvent)
    : total (takeFit space es).1 ≤ space := by
  induction es generalizing space with
  | nil => exact Nat.zero_le space
  | cons e es ih =>
    rw [takeFit]
    split
    next h =>
      have := ih (space - size e)
      simp only [total_cons]
      omega
    next h => exact Nat.zero_le space

-- The event that is left first does not fit.
theorem takeFit_left {e : InotifyEvent} (h : (takeFit space es).2 = e :: queue)
    : space - total (takeFit space es).1 < size e := by
  induction es generalizing space with
  | nil => cases h
  | cons e' es ih =>
    rw [takeFit] at h ⊢
    split
    next hfit =>
      rw [if_pos hfit] at h
      have := ih h
      simp only [total_cons]
      omega
    next hfit =>
      rw [if_neg hfit] at h
      cases h
      exact Nat.lt_of_not_le hfit

theorem takeFit_of_lt {e : InotifyEvent} (h : space < size e)
    : takeFit space (e :: es) = ([], e :: es) := by
  rw [takeFit, if_neg (Nat.not_le.mpr h)]

theorem fills_iff
    : Fills space es ↔ total (takeFit space es).1 = space := by
  constructor
  . rintro ⟨taken, hprefix, htotal⟩
    induction es generalizing space taken with
    | nil =>
      rw [List.prefix_nil] at hprefix
      rw [← htotal, hprefix]
      rfl
    | cons e es ih =>
      cases taken with
      | nil =>
        have hzero : space = 0 := htotal.symm
        have := takeFit_le space (e :: es)
        omega
      | cons e' taken =>
        rw [List.cons_prefix_cons] at hprefix
        obtain ⟨rfl, hprefix⟩ := hprefix
        rw [total_cons] at htotal
        have : total (takeFit (space - size e') es).1 = space - size e' := ih taken hprefix (by omega)
        rw [takeFit, if_pos (by omega)]
        simp only [total_cons]
        omega
  . intro h
    exact ⟨_, ⟨_, takeFit_append space es⟩, h⟩

instance (space : Nat) (es : List InotifyEvent) : Decidable (Fills space es) :=
  decidable_of_iff _ fills_iff.symm

instance decidableFits
    : (space : Nat) → (queue : List InotifyEvent) → (cs : List Call) → Decidable (Fits space queue cs)
  | _, _, [] => inferInstanceAs (Decidable (_ ∨ _))
  | space, queue, .intr :: cs => decidableFits space queue cs
  | space, queue, .serve es :: cs =>
    let _ := decidableFits (space - total (queue ++ es)) [] cs
    inferInstanceAs (Decidable (_ ∨ _))

theorem serve_conserves (space : Nat) (queue : List InotifyEvent) (cs : List Call)
    : queue ++ (serve space queue cs).arrived = (serve space queue cs).taken ++ (serve space queue cs).queue := by
  induction cs generalizing space queue with
  | nil => simp [serve]
  | cons c cs ih =>
    cases c with
    | intr => exact ih space queue
    | serve es =>
      have htake := takeFit_append space (queue ++ es)
      rcases hfit : takeFit space (queue ++ es) with ⟨taken, left⟩
      rw [hfit] at htake
      simp only [serve, hfit]
      split
      next hnil => exact hnil
      next hnil =>
        split
        . rfl
        . split
          . exact htake.symm
          . have := ih (space - total taken) left
            rw [List.append_assoc, ← this, ← List.append_assoc, ← List.append_assoc, ← htake]

/-! ### The loop of `read_fd` -/

def inotifyOp : FdIo.StreamOp := { isMsg := false, onZero := .eof, onAgain := true }

open FdIo (streamFd places)

-- What the loop returns after `taken` has been written from `base` on.
structure Reads (base space result : Nat) (moved : List (List Iovec × Nat)) (k : Served) (io : Io FdRet) : Prop where
  done : ∃ r, io = .done r [] ∧ r.ret = toInt32 (result + total k.taken)
    ∧ places r.moved = places moved ++ List.range' base (total k.taken)
    ∧ (r.flag = true → k.queue = []) ∧ (r.flag = false → k.taken ≠ [])
  le : total k.taken ≤ space

def Fails (io : Io FdRet) : Prop :=
  ∃ r, io = .done r [] ∧ r.ret = -1 ∧ r.flag = false

variable {n result : Nat} {moved : List (List Iovec × Nat)} {sys : List SysRet}

theorem go_ok (hpos : 0 < n) (hlt : n < space) (hspace : space < 2 ^ 32)
    : streamFd.go inotifyOp [] [⟨base, space⟩] result moved (.ok n [] :: sys)
      = streamFd.go inotifyOp [] [⟨base + n, space - n⟩] ((result + n) % 2 ^ 32)
        (moved ++ [([⟨base, space⟩], n)]) sys := by
  have hzero : n ≠ 0 := Nat.ne_of_gt hpos
  have hmod : n % 2 ^ 32 = n := Nat.mod_eq_of_lt (Nat.lt_trans hlt hspace)
  have hmove : Util.moveIov [⟨base, space⟩] n = (0, [], [⟨base + n, space - n⟩]) := by
    rw [Util.moveIov, if_neg (Nat.not_le.mpr hlt)]
  conv => lhs; unfold streamFd.go
  simp only [hzero, false_and, if_false, hmod, hmove, if_true, List.append_nil]
  rfl

theorem go_full (hpos : 0 < space) (hspace : space < 2 ^ 32)
    : streamFd.go inotifyOp [] [⟨base, space⟩] result moved (.ok space [] :: sys)
      = .done ⟨toInt32 ((result + space) % 2 ^ 32), false, [⟨base, space⟩], moved ++ [([⟨base, space⟩], space)]⟩
        sys := by
  have hzero : space ≠ 0 := Nat.ne_of_gt hpos
  have hmod : space % 2 ^ 32 = space := Nat.mod_eq_of_lt hspace
  have hmove : Util.moveIov [⟨base, space⟩] space = (-1, [⟨base, space⟩], []) := by
    rw [Util.moveIov, if_pos (Nat.le_refl space)]
    rfl
  conv => lhs; unfold streamFd.go
  simp only [hzero, false_and, if_false, hmod, hmove, List.append_nil]
  rfl

theorem places_append (moved moved' : List (List Iovec × Nat))
    : places (moved ++ moved') = places moved ++ places moved' :=
  List.flatMap_append

theorem places_one (hle : n ≤ space)
    : places [([⟨base, space⟩], n)] = List.range' base n := by
  rw [places, List.flatMap_singleton, FdIo.addrs_cons, FdIo.addrs, List.flatMap_nil, List.append_nil]
  exact List.take_range'_of_length_ge hle

theorem reads_again (hqueue : queue = []) (arrived : List InotifyEvent)
    : Reads base space result moved ⟨[.fail .again], [], queue, arrived⟩
        (streamFd.go inotifyOp [] [⟨base, space⟩] result moved [.fail .again]) := by
  refine ⟨⟨⟨toInt32 result, true, [⟨base, space⟩], moved⟩, ?_, ?_, ?_, fun _ => hqueue, nofun⟩, Nat.zero_le space⟩
  . simp [streamFd.go, inotifyOp]
  . rw [total, List.map_nil, List.sum_nil, Nat.add_zero]
  . exact (List.append_nil _).symm

theorem fails_einval
    : Fails (streamFd.go inotifyOp [] [⟨base, space⟩] result moved [.fail EINVAL]) :=
  ⟨⟨-1, false, [⟨base, space⟩], moved⟩, by simp [streamFd.go, inotifyOp, EINVAL], rfl, rfl⟩

theorem go_intr (sys : List SysRet)
    : streamFd.go inotifyOp [] [⟨base, space⟩] result moved (.fail .intr :: sys)
      = streamFd.go inotifyOp [] [⟨base, space⟩] result moved sys := by
  simp [streamFd.go, inotifyOp]

theorem Reads.cons {taken arrived : List InotifyEvent} {k : Served} {io : Io FdRet} {sys : List SysRet}
    (h : Reads (base + total taken) (space - total taken) ((result + total taken) % 2 ^ 32)
      (moved ++ [([⟨base, space⟩], total taken)]) k io)
    (hle : total taken ≤ space) (htaken : taken ≠ [])
    : Reads base space result moved ⟨sys, taken ++ k.taken, k.queue, arrived⟩ io := by
  obtain ⟨⟨r, hio, hret, hplaces, hqueue, -⟩, hspace⟩ := h
  refine ⟨⟨r, hio, ?_, ?_, hqueue, ?_⟩, ?_⟩
  . rw [hret, total_append, ← toInt32_mod, Nat.mod_add_mod, toInt32_mod, Nat.add_assoc]
  . rw [hplaces, places_append, places_one hle, total_append, List.append_assoc, List.range'_append_1]
  . intro _ hnil
    exact htaken (List.append_eq_nil_iff.mp hnil).1
  . rw [total_append]
    omega

-- An event that does not fit in the space left stays in the queue.
theorem serve_stuck {e : InotifyEvent} {ds : List Call} (hlt : space < size e) (hds : ∃ es, .serve es ∈ ds)
    : Fails (streamFd.go inotifyOp [] [⟨base, space⟩] result moved (serve space (e :: queue) ds).sys) := by
  induction ds with
  | nil =>
    obtain ⟨es, hes⟩ := hds
    cases hes
  | cons d ds ih =>
    cases d with
    | intr =>
      obtain ⟨es, hes⟩ := hds
      rw [List.mem_cons] at hes
      have := ih ⟨es, hes.resolve_left nofun⟩
      rw [← go_intr] at this
      exact this
    | serve es =>
      have hserve : serve space (e :: queue) (.serve es :: ds) = ⟨[.fail EINVAL], [], e :: queue ++ es, es⟩ := by
        simp [serve, takeFit_of_lt hlt]
      rw [hserve]
      exact fails_einval

section Call

variable {ds : List Call} (hpos : 0 < space) (hspace : space < 2 ^ 32)

include hpos hspace

theorem serve_fills (h : Fills space (queue ++ es))
    : Reads base space result moved (serve space queue (.serve es :: ds))
        (streamFd.go inotifyOp [] [⟨base, space⟩] result moved (serve space queue (.serve es :: ds)).sys) := by
  rw [fills_iff] at h
  have htaken : (takeFit space (queue ++ es)).1 ≠ [] := by
    intro hnil
    rw [hnil] at h
    exact absurd h (Nat.ne_of_lt hpos)
  have hqueue : queue ++ es ≠ [] := by
    intro hnil
    rw [hnil] at htaken
    exact htaken rfl
  have hserve : serve space queue (.serve es :: ds)
      = ⟨[.ok space []], (takeFit space (queue ++ es)).1, (takeFit space (queue ++ es)).2, es⟩ := by
    rw [serve]
    simp only [if_neg hqueue, if_neg htaken, if_pos h]
  rw [hserve, go_full hpos hspace]
  refine ⟨⟨_, rfl, ?_, ?_, nofun, fun _ => htaken⟩, Nat.le_of_eq h⟩
  . rw [toInt32_mod, h]
  . rw [places_append, places_one (Nat.le_refl space), h]

omit hpos in
-- All the events are taken, the next call comes with the space that is left.
theorem serve_taken (hqueue : queue ++ es ≠ []) (hlt : total (queue ++ es) < space)
    : serve space queue (.serve es :: ds)
        = ⟨.ok (total (queue ++ es)) [] :: (serve (space - total (queue ++ es)) [] ds).sys,
          queue ++ es ++ (serve (space - total (queue ++ es)) [] ds).taken,
          (serve (space - total (queue ++ es)) [] ds).queue, es ++ (serve (space - total (queue ++ es)) [] ds).arrived⟩
      ∧ ∀ sys, streamFd.go inotifyOp [] [⟨base, space⟩] result moved (.ok (total (queue ++ es)) [] :: sys)
        = streamFd.go inotifyOp [] [⟨base + total (queue ++ es), space - total (queue ++ es)⟩]
          ((result + total (queue ++ es)) % 2 ^ 32) (moved ++ [([⟨base, space⟩], total (queue ++ es))]) sys := by
  refine ⟨?_, fun sys => go_ok (total_pos hqueue) hlt hspace⟩
  rw [serve]
  simp only [if_neg hqueue, takeFit_all (Nat.le_of_lt hlt), if_neg (Nat.ne_of_lt hlt)]

theorem serve_reads_of_next
    (hnext : ∀ {base space result moved}, 0 < space → space < 2 ^ 32 → Fits space [] cs
      → Reads base space result moved (serve space [] ds)
        (streamFd.go inotifyOp [] [⟨base, space⟩] result moved (serve space [] ds).sys))
    (h : Fits space queue (.serve es :: cs))
    : Reads base space result moved (serve space queue (.serve es :: ds))
        (streamFd.go inotifyOp [] [⟨base, space⟩] result moved (serve space queue (.serve es :: ds)).sys) := by
  rcases h with h | ⟨hlt, h⟩
  . exact serve_fills hpos hspace h
  . by_cases hqueue : queue ++ es = []
    . have hserve : serve space queue (.serve es :: ds) = ⟨[.fail .again], [], [], es⟩ := by
        rw [serve]
        simp only [if_pos hqueue]
      rw [hserve]
      exact reads_again rfl es
    . obtain ⟨hserve, hgo⟩ := serve_taken hspace hqueue hlt
      rw [hserve, hgo]
      exact (hnext (by omega) (by omega) (h.resolve_left hqueue)).cons (Nat.le_of_lt hlt) hqueue

theorem serve_fails_of_next
    (hnext : ∀ {base space result moved}, 0 < space → space < 2 ^ 32 → ¬Fits space [] cs
      → Fails (streamFd.go inotifyOp [] [⟨base, space⟩] result moved (serve space [] ds).sys))
    (hds : ∃ es, .serve es ∈ ds) (h : ¬Fits space queue (.serve es :: cs))
    : Fails (streamFd.go inotifyOp [] [⟨base, space⟩] result moved (serve space queue (.serve es :: ds)).sys) := by
  rw [Fits, not_or, not_and] at h
  obtain ⟨hfills, hfits⟩ := h
  by_cases hlt : total (queue ++ es) < space
  . have hfits := not_or.mp (hfits hlt)
    obtain ⟨hserve, hgo⟩ := serve_taken hspace hfits.1 hlt
    rw [hserve, hgo]
    exact hnext (by omega) (by omega) hfits.2
  . have hqueue : queue ++ es ≠ [] := by
      intro hnil
      rw [hnil] at hlt
      exact hlt hpos
    rw [fills_iff] at hfills
    have happend := takeFit_append space (queue ++ es)
    have hleft : ∀ e left, (takeFit space (queue ++ es)).2 = e :: left → _ := fun e left h => takeFit_left h
    have hle := takeFit_le space (queue ++ es)
    rcases hfit : takeFit space (queue ++ es) with ⟨taken, left⟩
    rw [hfit] at hfills happend hleft hle
    dsimp only at hfills happend hleft hle
    by_cases htaken : taken = []
    . have hserve : serve space queue (.serve es :: ds) = ⟨[.fail EINVAL], [], queue ++ es, es⟩ := by
        rw [serve]
        simp only [if_neg hqueue, hfit, if_pos htaken]
      rw [hserve]
      exact fails_einval
    . have hsys : (serve space queue (.serve es :: ds)).sys
          = .ok (total taken) [] :: (serve (space - total taken) left ds).sys := by
        rw [serve]
        simp only [if_neg hqueue, hfit, if_neg htaken, if_neg hfills]
      rw [hsys, go_ok (total_pos htaken) (by omega) hspace]
      cases left with
      | nil =>
        rw [← happend, List.append_nil] at hlt
        omega
      | cons e left => exact serve_stuck (hleft e left rfl) hds

end Call

theorem fits_quiet
    : Fits space queue [.serve []] ↔ Fits space queue [] := by
  rw [Fits, Fits, List.append_nil]
  refine or_congr_right ⟨fun h => h.1, fun h => ⟨h, .inr (.inr ?_)⟩⟩
  rw [total, List.map_nil, List.sum_nil]
  omega

theorem serve_reads (hpos : 0 < space) (hspace : space < 2 ^ 32) (h : Fits space queue cs)
    : Reads base space result moved (serve space queue (cs ++ quiet))
        (streamFd.go inotifyOp [] [⟨base, space⟩] result moved (serve space queue (cs ++ quiet)).sys) := by
  induction cs generalizing space base queue result moved with
  | nil => exact serve_reads_of_next hpos hspace (fun _ _ _ => reads_again rfl []) (fits_quiet.mpr h)
  | cons c cs ih =>
    cases c with
    | intr =>
      have hsys : (serve space queue (.intr :: cs ++ quiet)).sys
        = .fail .intr :: (serve space queue (cs ++ quiet)).sys :=
        rfl
      rw [hsys, go_intr]
      obtain ⟨hdone, hle⟩ := ih hpos hspace h
      exact ⟨hdone, hle⟩
    | serve es => exact serve_reads_of_next hpos hspace ih h

theorem serve_fails (hpos : 0 < space) (hspace : space < 2 ^ 32) (h : ¬Fits space queue cs)
    : Fails (streamFd.go inotifyOp [] [⟨base, space⟩] result moved (serve space queue (cs ++ quiet)).sys) := by
  induction cs generalizing space base queue result moved with
  | nil =>
    refine serve_fails_of_next hpos hspace ?_ ⟨[], List.mem_singleton.mpr rfl⟩ (mt fits_quiet.mp h)
    intro _ _ _ _ hpos _ hfits
    exact absurd (.inr hpos) hfits
  | cons c cs ih =>
    cases c with
    | intr =>
      change Fails (streamFd.go inotifyOp [] [⟨base, space⟩] result moved
        (.fail .intr :: (serve space queue (cs ++ quiet)).sys))
      rw [go_intr]
      exact ih hpos hspace h
    | serve es => exact serve_fails_of_next hpos hspace ih ⟨[], by simp [quiet]⟩ h

/-! ### The parser -/

-- The bytes are found in the memory from `offset` on.
def Holds (mem : Nat → UInt8) (offset : Nat) (bs : List UInt8) : Prop :=
  (List.range' offset bs.length).map mem = bs

theorem holds_append {offset : Nat} {bs bs' : List UInt8}
    : Holds mem offset (bs ++ bs') ↔ Holds mem offset bs ∧ Holds mem (offset + bs.length) bs' := by
  rw [Holds, Holds, Holds, List.length_append, ← List.range'_append_1, List.map_append]
  constructor
  . intro h
    exact List.append_inj h (by simp)
  . rintro ⟨h, h'⟩
    rw [h, h']

theorem readU32_of_holds {offset n : Nat} (h : Holds mem offset (u32Bytes n)) (hlt : n < 2 ^ 32)
    : readU32 mem offset = n := by
  have hbytes : [mem offset, mem (offset + 1), mem (offset + 2), mem (offset + 3)] = u32Bytes n := h
  simp only [u32Bytes, List.cons.injEq] at hbytes
  obtain ⟨h0, h1, h2, h3, -⟩ := hbytes
  rw [readU32, h0, h1, h2, h3]
  simp only [UInt8.toNat_ofNat']
  omega

theorem length_bytes (e : InotifyEvent)
    : (bytes e).length = size e := by
  simp [bytes, u32Bytes, size, HEADER_SIZE]
  omega

theorem length_flatMap_bytes (es : List InotifyEvent)
    : (es.flatMap bytes).length = total es := by
  induction es with
  | nil => rfl
  | cons e es ih => rw [List.flatMap_cons, List.length_append, length_bytes, ih, total_cons]

theorem parse_eq {offset fuel : Nat} (h : Holds mem offset (es.flatMap bytes)) (hlt : offset + total es < 2 ^ 32)
    (hfuel : total es ≤ fuel)
    : parse mem (offset + total es) offset fuel = es.map (·.wd) := by
  induction es generalizing offset fuel with
  | nil =>
    cases fuel with
    | zero => rfl
    | succ fuel => rw [parse, if_neg (by simp [total]), List.map_nil]
  | cons e es ih =>
    rw [total_cons] at hlt hfuel ⊢
    have hpos := size_pos e
    have hlen : size e = HEADER_SIZE + e.name.length := rfl
    rw [List.flatMap_cons, holds_append, length_bytes] at h
    obtain ⟨hevent, hrest⟩ := h
    simp only [bytes, holds_append] at hevent
    obtain ⟨⟨⟨⟨hwd, -⟩, -⟩, hname⟩, -⟩ := hevent
    have hnameLen : readU32 mem (offset + 12) = e.name.length := readU32_of_holds hname (by omega)
    have hwdNat : readU32 mem offset = e.wd.toNat := readU32_of_holds hwd e.wd.toNat_lt
    cases fuel with
    | zero => omega
    | succ fuel =>
      rw [parse, if_pos (by omega), List.map_cons]
      simp only [hnameLen, hwdNat]
      rw [← hlen, Nat.mod_eq_of_lt (by omega), ← Nat.add_assoc, ih hrest (by omega) (by omega), UInt32.ofNat_toNat]

end Inotify

end Event
end Ezio
