import Ezio.Util
import Mathlib.Data.List.TakeWhile

/-!
This module contains `split`, which passes the characters of its argument to `strtok`. A string is the list of its
bytes, the byte `0` that ends them in memory is not in the list.
-/

namespace Ezio
namespace Util

-- The part of a string that a C function sees.
def cStr (s : List UInt8) : List UInt8 :=
  s.takeWhile (· ≠ 0)

-- `strtok` with the position in `buf` that the next token is looked for from.
def strtok (delim buf : List UInt8) (pos : Nat) : Option (List UInt8) × List UInt8 × Nat :=
  let s := cStr (buf.drop pos)
  let lead := s.takeWhile (· ∈ delim)
  let rest := s.dropWhile (· ∈ delim)
  let token := rest.takeWhile (· ∉ delim)
  if rest = [] then
    (none, buf, pos + lead.length)
  else
    let tokenEnd := pos + lead.length + token.length
    if token.length = rest.length then
      (some token, buf, tokenEnd)
    else
      -- the delimiter after the token is overwritten
      (some token, buf.set tokenEnd 0, tokenEnd + 1)

-- The loop of `split`, `none` stands for a loop that goes on after `fuel` calls.
def splitLoop (delim : List UInt8) : (fuel : Nat) → (buf : List UInt8) → (pos : Nat)
    → Option (List (List UInt8) × List UInt8)
  | 0, _, _ => none
  | fuel + 1, buf, pos =>
    match strtok delim buf pos with
    | (none, buf, _) => some ([], buf)
    | (some token, buf, pos) => (splitLoop delim fuel buf pos).map fun r => (token :: r.1, r.2)

-- The tokens and what the argument `str` holds afterwards.
def split (fuel : Nat) (str delim : List UInt8) : Option (List (List UInt8) × List UInt8) :=
  splitLoop (cStr delim) fuel str 0

def Splits (str delim : List UInt8) (tokens : List (List UInt8)) (str' : List UInt8) : Prop :=
  ∃ n, ∀ fuel, n ≤ fuel → split fuel str delim = some (tokens, str')

-- The maximal runs of characters that are not delimiters.
def runs (delim str : List UInt8) : List (List UInt8) :=
  (str.splitOnP (· ∈ delim)).filter (· ≠ [])

-- The tokens are the runs, the string is as before, and a second call returns the tokens again.
def SplitPure (str delim : List UInt8) : Prop :=
  ∃ str', Splits str delim (runs delim str) str' ∧ str' = str ∧ ∃ str'', Splits str' delim (runs delim str) str''

variable {delim str str' : List UInt8} {tokens tokens' : List (List UInt8)}

theorem Splits.unique (h : Splits str delim tokens str') {str'' : List UInt8} (h' : Splits str delim tokens' str'')
    : tokens' = tokens ∧ str'' = str' := by
  obtain ⟨n, hn⟩ := h
  obtain ⟨n', hn'⟩ := h'
  have heq := (hn' (max n n') (Nat.le_max_right ..)).symm.trans (hn (max n n') (Nat.le_max_left ..))
  simpa using heq

/-! ### Runs -/

theorem runs_append_cons {d : UInt8} (hd : d ∈ delim) (xs ys : List UInt8)
    : runs delim (xs ++ d :: ys) = runs delim xs ++ runs delim ys := by
  unfold runs
  rw [List.splitOnP_append_cons xs ys (by simpa using hd), List.filter_append]

theorem runs_of_notMem {xs : List UInt8} (h : ∀ x ∈ xs, x ∉ delim)
    : runs delim xs = if xs = [] then [] else [xs] := by
  unfold runs
  rw [List.splitOnP_eq_singleton fun x hx => by simpa using h x hx]
  cases xs <;> simp

theorem runs_append_of_mem {xs : List UInt8} (h : ∀ x ∈ xs, x ∈ delim) (ys : List UInt8)
    : runs delim (xs ++ ys) = runs delim ys := by
  induction xs with
  | nil => rfl
  | cons x xs ih =>
    have hcons := runs_append_cons (h x List.mem_cons_self) [] (xs ++ ys)
    rw [List.nil_append, runs_of_notMem (List.forall_mem_nil _)] at hcons
    exact hcons.trans (ih fun y hy => h y (List.mem_cons_of_mem x hy))

/-! ### The loop -/

theorem cStr_of_notMem {s : List UInt8} (h : 0 ∉ s) : cStr s = s := by
  unfold cStr
  rw [List.takeWhile_eq_self_iff]
  intro x hx
  have hne : x ≠ 0 := by
    rintro rfl
    exact h hx
  simpa using hne

theorem cStr_subset (s : List UInt8) : cStr s ⊆ s :=
  (List.takeWhile_sublist _).subset

theorem span_append (p : UInt8 → Bool) (xs ys : List UInt8) (hxs : ∀ x ∈ xs, p x = true)
    (hys : ∀ y ∈ ys.head?, p y = false)
    : (xs ++ ys).takeWhile p = xs ∧ (xs ++ ys).dropWhile p = ys := by
  rw [List.takeWhile_append_of_pos hxs, List.dropWhile_append_of_pos hxs]
  cases ys with
  | nil => simp
  | cons y ys => simp [hys y (by simp)]

-- What `strtok` sees of a string: delimiters, a token, and the delimiter after it.
theorem pieces (delim rest : List UInt8)
    : ∃ lead token, (∀ x ∈ lead, x ∈ delim) ∧ (∀ x ∈ token, x ∉ delim)
        ∧ (rest = lead ∨ token ≠ [] ∧ rest = lead ++ token
          ∨ token ≠ [] ∧ ∃ d tail, d ∈ delim ∧ rest = lead ++ (token ++ d :: tail)) := by
  refine ⟨rest.takeWhile (· ∈ delim), (rest.dropWhile (· ∈ delim)).takeWhile (· ∉ delim), ?_, ?_, ?_⟩
  . intro x hx
    simpa using List.mem_takeWhile_imp hx
  . intro x hx
    simpa using List.mem_takeWhile_imp hx
  have hsplit : rest.takeWhile (· ∈ delim) ++ rest.dropWhile (· ∈ delim) = rest := List.takeWhile_append_dropWhile
  have hhead : ∀ y ∈ (rest.dropWhile (· ∈ delim)).head?, y ∉ delim := by
    intro y hy
    have hnot := List.head?_dropWhile_not (fun x => decide (x ∈ delim)) rest
    rw [Option.mem_def.mp hy] at hnot
    simpa using hnot
  generalize rest.takeWhile (· ∈ delim) = lead at hsplit
  generalize rest.dropWhile (· ∈ delim) = tail at hsplit hhead
  rw [← hsplit]
  cases tail with
  | nil => exact .inl (List.append_nil lead)
  | cons y tail =>
    have hy : y ∉ delim := hhead y (by simp)
    have hne : (y :: tail).takeWhile (· ∉ delim) ≠ [] := by simp [hy]
    have htoken : (y :: tail).takeWhile (· ∉ delim) ++ (y :: tail).dropWhile (· ∉ delim) = y :: tail :=
      List.takeWhile_append_dropWhile
    right
    cases hafter : (y :: tail).dropWhile (· ∉ delim) with
    | nil =>
      rw [hafter, List.append_nil] at htoken
      exact .inl ⟨hne, by rw [htoken]⟩
    | cons d rest' =>
      have hd := List.head?_dropWhile_not (fun x => decide (x ∉ delim)) (y :: tail)
      rw [hafter] at hd htoken
      exact .inr ⟨hne, d, rest', by simpa using hd, by rw [htoken]⟩

variable {lead token tail : List UInt8} {d : UInt8}

theorem strtok_none (before : List UInt8) (hlead : ∀ x ∈ lead, x ∈ delim) (hzero : 0 ∉ lead)
    : strtok delim (before ++ lead) before.length = (none, before ++ lead, before.length + lead.length) := by
  have hspan := span_append (fun x => decide (x ∈ delim)) lead [] (by simpa using hlead) (by simp)
  rw [List.append_nil] at hspan
  unfold strtok
  rw [List.drop_left, cStr_of_notMem hzero]
  simp only [hspan.1, hspan.2, if_true]

theorem strtok_last (before : List UInt8) (hlead : ∀ x ∈ lead, x ∈ delim) (htoken : ∀ x ∈ token, x ∉ delim)
    (hne : token ≠ [])
    (hzero : 0 ∉ lead ++ token)
    : strtok delim (before ++ (lead ++ token)) before.length
        = (some token, before ++ (lead ++ token), (before ++ (lead ++ token)).length) := by
  have hhead : ∀ y ∈ token.head?, decide (y ∈ delim) = false := by
    intro y hy
    simpa using htoken y (List.mem_of_mem_head? hy)
  have hspan := span_append (fun x => decide (x ∈ delim)) lead token (by simpa using hlead) hhead
  have hspan' := span_append (fun x => decide (x ∉ delim)) token [] (by simpa using htoken) (by simp)
  rw [List.append_nil] at hspan'
  unfold strtok
  rw [List.drop_left, cStr_of_notMem hzero]
  simp only [hspan.1, hspan.2, hspan'.1, if_neg hne, if_true, List.length_append, Nat.add_assoc]

theorem strtok_next (before : List UInt8) (hlead : ∀ x ∈ lead, x ∈ delim) (htoken : ∀ x ∈ token, x ∉ delim)
    (hne : token ≠ [])
    (hd : d ∈ delim) (hzero : 0 ∉ lead ++ (token ++ d :: tail))
    : strtok delim (before ++ (lead ++ (token ++ d :: tail))) before.length
        = (some token, (before ++ lead ++ token ++ [0]) ++ tail, (before ++ lead ++ token ++ [0]).length) := by
  have hhead : ∀ y ∈ (token ++ d :: tail).head?, decide (y ∈ delim) = false := by
    intro y hy
    rw [List.head?_append_of_ne_nil _ hne] at hy
    simpa using htoken y (List.mem_of_mem_head? hy)
  have hspan := span_append (fun x => decide (x ∈ delim)) lead (token ++ d :: tail) (by simpa using hlead)
    hhead
  have hspan' := span_append (fun x => decide (x ∉ delim)) token (d :: tail) (by simpa using htoken)
    (by simpa using hd)
  have hset : (before ++ (lead ++ (token ++ d :: tail))).set (before.length + lead.length + token.length) 0
      = (before ++ lead ++ token ++ [0]) ++ tail := by
    have hassoc : before ++ (lead ++ (token ++ d :: tail)) = (before ++ lead ++ token) ++ d :: tail := by simp
    have hlength : before.length + lead.length + token.length = (before ++ lead ++ token).length := by
      simp [Nat.add_assoc]
    rw [hassoc, hlength, List.set_append_right _ _ (Nat.le_refl _), Nat.sub_self]
    simp
  have hlonger : token.length ≠ (token ++ d :: tail).length := by simp
  unfold strtok
  rw [List.drop_left, cStr_of_notMem hzero]
  simp only [hspan.1, hspan.2, hspan'.1, if_neg hlonger, hset]
  simp [Nat.add_assoc]

-- The string changes if a token is followed by a delimiter.
theorem splitLoop_spec (delim before : List UInt8) (n : Nat) {rest : List UInt8} (hn : rest.length < n)
    (hzero : 0 ∉ rest)
    : ∃ rest', (∀ fuel, n ≤ fuel → splitLoop delim fuel (before ++ rest) before.length
          = some (runs delim rest, before ++ rest'))
        ∧ (rest' = rest ↔ ∀ x ∈ rest.dropWhile (· ∈ delim), x ∉ delim) := by
  induction n generalizing before rest with
  | zero => omega
  | succ n ih =>
    obtain ⟨lead, token, hlead, htoken, hrest | ⟨hne, hrest⟩ | ⟨hne, d, tail, hd, hrest⟩⟩ := pieces delim rest
    . subst hrest
      have hdrop := (span_append (fun x => decide (x ∈ delim)) rest [] (by simpa using hlead) (by simp)).2
      have hruns := runs_append_of_mem hlead []
      rw [List.append_nil] at hdrop hruns
      refine ⟨rest, ?_, by simp [hdrop]⟩
      intro fuel hfuel
      cases fuel with
      | zero => omega
      | succ fuel =>
        rw [splitLoop, strtok_none before hlead hzero, hruns, runs_of_notMem (by simp)]
        rfl
    . subst hrest
      have hhead : ∀ y ∈ token.head?, decide (y ∈ delim) = false := by
        intro y hy
        simpa using htoken y (List.mem_of_mem_head? hy)
      have hdrop := (span_append (fun x => decide (x ∈ delim)) lead token (by simpa using hlead) hhead).2
      have hlength : 0 < token.length := List.length_pos_iff.mpr hne
      rw [List.length_append] at hn
      refine ⟨lead ++ token, ?_, ?_⟩
      . intro fuel hfuel
        obtain ⟨fuel, rfl⟩ : ∃ fuel', fuel = fuel' + 2 := ⟨fuel - 2, by omega⟩
        -- the next call finds nothing
        have hend := strtok_none (before ++ (lead ++ token)) (List.forall_mem_nil (· ∈ delim)) List.not_mem_nil
        rw [List.append_nil] at hend
        rw [splitLoop, strtok_last before hlead htoken hne hzero]
        dsimp only
        rw [splitLoop, hend, runs_append_of_mem hlead, runs_of_notMem htoken, if_neg hne]
        rfl
      . simpa [hdrop] using htoken
    . subst hrest
      have hhead : ∀ y ∈ (token ++ d :: tail).head?, decide (y ∈ delim) = false := by
        intro y hy
        rw [List.head?_append_of_ne_nil _ hne] at hy
        simpa using htoken y (List.mem_of_mem_head? hy)
      have hdrop := (span_append (fun x => decide (x ∈ delim)) lead (token ++ d :: tail)
        (by simpa using hlead) hhead).2
      have hlength : tail.length < n := by
        simp only [List.length_append, List.length_cons] at hn
        omega
      have hzeroTail : 0 ∉ tail := fun hmem => hzero (by simp [hmem])
      obtain ⟨tail', hloop, -⟩ := ih (before ++ lead ++ token ++ [0]) hlength hzeroTail
      refine ⟨lead ++ (token ++ 0 :: tail'), ?_, ?_⟩
      . intro fuel hfuel
        obtain ⟨fuel, rfl⟩ : ∃ fuel', fuel = fuel' + 1 := ⟨fuel - 1, by omega⟩
        rw [splitLoop, strtok_next before hlead htoken hne hd hzero]
        dsimp only
        rw [hloop fuel (by omega), runs_append_of_mem hlead, runs_append_cons hd, runs_of_notMem htoken, if_neg hne]
        simp
      . constructor
        . intro heq
          rw [List.append_cancel_left_eq, List.append_cancel_left_eq, List.cons.injEq] at heq
          exact absurd (heq.1 ▸ (by simp : d ∈ lead ++ (token ++ d :: tail))) hzero
        . intro hall
          rw [hdrop] at hall
          exact absurd hd (hall d (by simp))

theorem splits_spec (delim : List UInt8) (hzero : 0 ∉ str)
    : ∃ str', Splits str delim (runs (cStr delim) str) str'
        ∧ (str' = str ↔ ∀ x ∈ str.dropWhile (· ∈ cStr delim), x ∉ cStr delim) := by
  obtain ⟨str', hloop, hiff⟩ := splitLoop_spec (cStr delim) [] (str.length + 1)
    (Nat.lt_succ_self _) hzero
  exact ⟨str', ⟨str.length + 1, hloop⟩, hiff⟩

/-! ### Purity -/

theorem notMem_of_mem_runs {run : List UInt8} (h : run ∈ runs delim str) : ∀ x ∈ run, x ∉ delim := by
  induction hn : str.length using Nat.strongRecOn generalizing str with
  | _ n ih =>
    obtain ⟨lead, token, hlead, htoken, hstr | ⟨hne, hstr⟩ | ⟨hne, d, tail, hd, hstr⟩⟩ := pieces delim str
    . have hnil := runs_append_of_mem hlead []
      rw [List.append_nil, ← hstr] at hnil
      rw [hnil] at h
      cases h
    . rw [hstr, runs_append_of_mem hlead, runs_of_notMem htoken, if_neg hne, List.mem_singleton] at h
      rw [h]
      exact htoken
    . rw [hstr, runs_append_of_mem hlead, runs_append_cons hd, runs_of_notMem htoken, if_neg hne,
        List.singleton_append, List.mem_cons] at h
      rcases h with rfl | h
      . exact htoken
      . refine ih tail.length ?_ h rfl
        rw [← hn, hstr]
        simp only [List.length_append, List.length_cons]
        omega

-- The characters after the first 0 of `delim` do not count as delimiters.
theorem runs_cStr_iff (h : ∀ x ∈ str.dropWhile (· ∈ cStr delim), x ∉ cStr delim)
    : runs (cStr delim) str = runs delim str ↔ ∀ x ∈ str.dropWhile (· ∈ cStr delim), x ∉ delim := by
  have hsplit : str.takeWhile (· ∈ cStr delim) ++ str.dropWhile (· ∈ cStr delim) = str :=
    List.takeWhile_append_dropWhile
  have hlead : ∀ x ∈ str.takeWhile (· ∈ cStr delim), x ∈ cStr delim := by
    intro x hx
    simpa using List.mem_takeWhile_imp hx
  generalize str.takeWhile (· ∈ cStr delim) = lead at hsplit hlead
  generalize str.dropWhile (· ∈ cStr delim) = rest at hsplit h
  rw [← hsplit, runs_append_of_mem hlead, runs_append_of_mem fun x hx => cStr_subset delim (hlead x hx),
    runs_of_notMem h]
  constructor
  . intro heq x hx hmem
    have hne : rest ≠ [] := List.ne_nil_of_mem hx
    rw [if_neg hne] at heq
    have hrun : rest ∈ runs delim rest := by
      rw [← heq]
      exact List.mem_singleton_self rest
    exact notMem_of_mem_runs hrun x hx hmem
  . intro hnot
    rw [runs_of_notMem hnot]

theorem splitPure_iff (str delim : List UInt8) (hzero : 0 ∉ str)
    : SplitPure str delim ↔ ∀ x ∈ str.dropWhile (· ∈ cStr delim), x ∉ delim := by
  obtain ⟨str', hsplits, hiff⟩ := splits_spec delim hzero
  constructor
  . rintro ⟨_, htokens, rfl, -⟩
    obtain ⟨heq, hsame⟩ := hsplits.unique htokens
    have hsame := hiff.mp hsame.symm
    exact (runs_cStr_iff hsame).mp heq.symm
  . intro hnot
    have hsame : ∀ x ∈ str.dropWhile (· ∈ cStr delim), x ∉ cStr delim :=
      fun x hx hmem => hnot x hx (cStr_subset delim hmem)
    rw [(runs_cStr_iff hsame).mpr hnot, hiff.mpr hsame] at hsplits
    exact ⟨str, hsplits, rfl, str, hsplits⟩

theorem splitPure_alone
    : SplitPure "127.0.0.1".toUTF8.toList ":".toUTF8.toList :=
  (splitPure_iff _ _ (by decide +kernel)).mpr (by decide +kernel)

-- The address of a `tcp_config`: a second call does not see the port.
theorem address_not_splitPure
    : ¬SplitPure "127.0.0.1:80".toUTF8.toList ":".toUTF8.toList
        ∧ ∃ str', split 3 "127.0.0.1:80".toUTF8.toList ":".toUTF8.toList
            = some (["127.0.0.1".toUTF8.toList, "80".toUTF8.toList], str')
          ∧ split 3 str' ":".toUTF8.toList = some (["127.0.0.1".toUTF8.toList], str') := by
  constructor
  . rintro ⟨_, htokens, rfl, -⟩
    have hzero : 0 ∉ "127.0.0.1:80".toUTF8.toList := by decide +kernel
    obtain ⟨str', hsplits, hiff⟩ := splits_spec ":".toUTF8.toList hzero
    exact absurd (hiff.mp (hsplits.unique htokens).2.symm) (by decide +kernel)
  . exact ⟨("127.0.0.1".toUTF8.toList ++ 0 :: "80".toUTF8.toList), by decide +kernel, by decide +kernel⟩

end Util
end Ezio
