import Ezio.Lib.Run
import Mathlib.Logic.Function.Basic

/-!
This module contains `opt_map`, which keeps the values of small keys in a vector and those of the other keys in a
map, and its comparison with one map.
-/

namespace Ezio
namespace DataStruct

-- `nullptr` is `none`. An entry of `map_` may hold `nullptr` as well.
structure OptMap (V : Type) (arraySize : Nat) where
  vec : Vector (Option V) arraySize
  map : Nat → Option (Option V)

namespace OptMap

variable {V : Type} {arraySize : Nat}

def new : OptMap V arraySize :=
  { vec := Vector.replicate arraySize none, map := fun _ => none }

def find (m : OptMap V arraySize) (key : Nat) : Option V :=
  if h : key < arraySize then m.vec[key] else (m.map key).getD none

def insert (m : OptMap V arraySize) (key : Nat) (value : Option V) : OptMap V arraySize × Bool :=
  match value with
  | none => (m, false)
  | some v =>
    if h : key < arraySize then
      match m.vec[key] with
      | none => ({ m with vec := m.vec.set key (some v) }, true)
      | some _ => (m, false)
    else
      match m.map key with
      | none => ({ m with map := Function.update m.map key (some (some v)) }, true)
      | some _ => (m, false)

def erase (m : OptMap V arraySize) (key : Nat) : OptMap V arraySize :=
  if h : key < arraySize then
    { m with vec := m.vec.set key none }
  else
    { m with map := Function.update m.map key none }

-- `operator[]`: the object that the reference refers to exists afterwards
def access (m : OptMap V arraySize) (key : Nat) : OptMap V arraySize × Option V :=
  if h : key < arraySize then
    (m, m.vec[key])
  else
    match m.map key with
    | some value => (m, value)
    | none => ({ m with map := Function.update m.map key (some none) }, none)

-- An assignment to the reference.
def assign (m : OptMap V arraySize) (key : Nat) (value : Option V) : OptMap V arraySize :=
  let m := (m.access key).1
  if h : key < arraySize then
    { m with vec := m.vec.set key value }
  else
    { m with map := Function.update m.map key (some value) }

def clear (_ : OptMap V arraySize) : OptMap V arraySize :=
  new

inductive Op (V : Type) where
  | find (key : Nat)
  | insert (key : Nat) (value : Option V)
  | erase (key : Nat)
  | access (key : Nat)
  | assign (key : Nat) (value : Option V)
  | clear

inductive Result (V : Type) where
  | value (v : Option V)
  | code (suc : Bool)
  | void
  deriving DecidableEq

def step (m : OptMap V arraySize) : Op V → OptMap V arraySize × Result V
  | .find key => (m, .value (m.find key))
  | .insert key value =>
    match m.insert key value with
    | (m, suc) => (m, .code suc)
  | .erase key => (m.erase key, .void)
  | .access key =>
    match m.access key with
    | (m, value) => (m, .value value)
  | .assign key value => (m.assign key value, .void)
  | .clear => (m.clear, .void)

def results (m : OptMap V arraySize) : List (Op V) → List (Result V)
  | [] => []
  | op :: ops => (m.step op).2 :: (m.step op).1.results ops

end OptMap

-- One map from keys to values that are not null.
structure PlainMap (V : Type) where
  get : Nat → Option V

namespace PlainMap

variable {V : Type}

def new : PlainMap V :=
  ⟨fun _ => none⟩

def set (m : PlainMap V) (key : Nat) (value : Option V) : PlainMap V :=
  ⟨Function.update m.get key value⟩

def step (m : PlainMap V) : OptMap.Op V → PlainMap V × OptMap.Result V
  | .find key => (m, .value (m.get key))
  | .insert key value =>
    if value.isSome ∧ (m.get key).isNone then (m.set key value, .code true) else (m, .code false)
  | .erase key => (m.set key none, .void)
  | .access key => (m, .value (m.get key))
  | .assign key value => (m.set key value, .void)
  | .clear => (new, .void)

def results (m : PlainMap V) : List (OptMap.Op V) → List (OptMap.Result V)
  | [] => []
  | op :: ops => (m.step op).2 :: (m.step op).1.results ops

end PlainMap

namespace OptMap

variable {V : Type} {arraySize : Nat} {m : OptMap V arraySize} {p : PlainMap V}

-- A value is inserted for a key whose entry in `map_` is there and holds `nullptr`.
def FindsNull (m : OptMap V arraySize) : Op V → Prop
  | .insert key value => arraySize ≤ key ∧ value.isSome ∧ m.map key = some none
  | _ => False

def Same (m : OptMap V arraySize) (p : PlainMap V) : Prop :=
  ∀ key, m.find key = p.get key

theorem new_same
    : Same (new : OptMap V arraySize) PlainMap.new := by
  intro key
  unfold find
  split <;> simp [new, PlainMap.new]

-- The object of one key gets a value.
theorem Same.set (h : Same m p) {m' : OptMap V arraySize} {key : Nat} {value : Option V}
    (hkey : m'.find key = value) (hother : ∀ k, k ≠ key → m'.find k = m.find k)
    : Same m' (p.set key value) := by
  intro k
  by_cases hk : k = key
  . rw [hk, hkey]
    simp [PlainMap.set]
  . rw [hother k hk, h k]
    simp [PlainMap.set, hk]

theorem find_vec_set (m : OptMap V arraySize) {key : Nat} (hlt : key < arraySize) (value : Option V) (k : Nat)
    : find { m with vec := m.vec.set key value } k = if k = key then value else m.find k := by
  by_cases hk : k = key
  . rw [if_pos hk, hk]
    simp [find, hlt]
  . rw [if_neg hk]
    unfold find
    split
    . simp [Ne.symm hk]
    . rfl

theorem find_map_update (m : OptMap V arraySize) {key : Nat} (hle : ¬ key < arraySize) (entry : Option (Option V))
    (k : Nat)
    : find { m with map := Function.update m.map key entry } k = if k = key then entry.getD none else m.find k := by
  by_cases hk : k = key
  . rw [if_pos hk, hk]
    simp [find, hle]
  . rw [if_neg hk]
    unfold find
    split
    . rfl
    . dsimp only
      rw [Function.update_of_ne hk]

theorem access_same (h : Same m p) (key : Nat)
    : Same (m.access key).1 p ∧ (m.access key).2 = p.get key := by
  have hfind := h key
  unfold access
  unfold find at hfind
  split
  . rename_i hlt
    rw [dif_pos hlt] at hfind
    exact ⟨h, hfind⟩
  . rename_i hle
    rw [dif_neg hle] at hfind
    split
    . rename_i value hvalue
      rw [hvalue] at hfind
      exact ⟨h, hfind⟩
    . rename_i hnone
      rw [hnone] at hfind
      refine ⟨?_, hfind⟩
      intro k
      rw [find_map_update m hle]
      split
      . rename_i hk
        rw [hk]
        exact hfind
      . exact h k

theorem assign_same (h : Same m p) (key : Nat) (value : Option V)
    : Same (m.assign key value) (p.set key value) := by
  have h' := (access_same h key).1
  unfold assign
  dsimp only
  split
  . rename_i hlt
    apply h'.set
    . rw [find_vec_set _ hlt, if_pos rfl]
    . intro k hk
      rw [find_vec_set _ hlt, if_neg hk]
  . rename_i hle
    apply h'.set
    . rw [find_map_update _ hle, if_pos rfl]
      rfl
    . intro k hk
      rw [find_map_update _ hle, if_neg hk]

theorem erase_same (h : Same m p) (key : Nat)
    : Same (m.erase key) (p.set key none) := by
  unfold erase
  split
  . rename_i hlt
    apply h.set
    . rw [find_vec_set _ hlt, if_pos rfl]
    . intro k hk
      rw [find_vec_set _ hlt, if_neg hk]
  . rename_i hle
    apply h.set
    . rw [find_map_update _ hle, if_pos rfl]
      rfl
    . intro k hk
      rw [find_map_update _ hle, if_neg hk]

theorem insert_same (h : Same m p) (key : Nat) (v : V) (hnull : ¬ m.FindsNull (.insert key (some v)))
    : Same (m.insert key (some v)).1 (p.step (.insert key (some v))).1
      ∧ .code (m.insert key (some v)).2 = (p.step (.insert key (some v))).2 := by
  have hfind := h key
  unfold find at hfind
  unfold insert
  simp only [PlainMap.step, Option.isSome_some, true_and]
  split
  . rename_i hlt
    rw [dif_pos hlt] at hfind
    split
    . rename_i hnone
      rw [← hfind, hnone]
      refine ⟨?_, rfl⟩
      apply h.set
      . rw [find_vec_set _ hlt, if_pos rfl]
      . intro k hk
        rw [find_vec_set _ hlt, if_neg hk]
    . rename_i value hvalue
      rw [← hfind, hvalue]
      exact ⟨h, rfl⟩
  . rename_i hle
    rw [dif_neg hle] at hfind
    split
    . rename_i hnone
      rw [← hfind, hnone]
      refine ⟨?_, rfl⟩
      apply h.set
      . rw [find_map_update _ hle, if_pos rfl]
        rfl
      . intro k hk
        rw [find_map_update _ hle, if_neg hk]
    . rename_i entry hentry
      cases entry with
      | none => exact absurd ⟨Nat.le_of_not_lt hle, rfl, hentry⟩ hnull
      | some value =>
        rw [← hfind, hentry]
        exact ⟨h, rfl⟩

theorem step_same (h : Same m p) {op : Op V} (hnull : ¬ m.FindsNull op)
    : Same (m.step op).1 (p.step op).1 ∧ (m.step op).2 = (p.step op).2 := by
  cases op with
  | find key => exact ⟨h, congrArg Result.value (h key)⟩
  | insert key value =>
    cases value with
    | none => exact ⟨h, rfl⟩
    | some v => exact insert_same h key v hnull
  | erase key => exact ⟨erase_same h key, rfl⟩
  | access key =>
    obtain ⟨hsame, hvalue⟩ := access_same h key
    exact ⟨hsame, congrArg Result.value hvalue⟩
  | assign key value => exact ⟨assign_same h key value, rfl⟩
  | clear => exact ⟨new_same, rfl⟩

-- `insert` takes the entry for a value.
theorem step_of_findsNull (h : Same m p) {op : Op V} (hnull : m.FindsNull op)
    : (m.step op).2 ≠ (p.step op).2 := by
  cases op with
  | insert key value =>
    obtain ⟨hle, hsome, hentry⟩ := hnull
    have hlt : ¬ key < arraySize := Nat.not_lt.mpr hle
    have hget : p.get key = none := by
      rw [← h key, find, dif_neg hlt, hentry]
      rfl
    cases value with
    | none => cases hsome
    | some v => simp [step, insert, hlt, hentry, PlainMap.step, hget]
  | _ => exact hnull.elim

theorem results_eq_iff (h : Same m p) (ops : List (Op V))
    : m.results ops = p.results ops ↔ Along (fun m op => (m.step op).1) (fun m op => ¬ m.FindsNull op) m ops := by
  induction ops generalizing m p with
  | nil => exact ⟨fun _ => trivial, fun _ => rfl⟩
  | cons op ops ih =>
    rw [results, PlainMap.results, List.cons.injEq, Along]
    by_cases hnull : m.FindsNull op
    . refine ⟨fun heq => absurd heq.1 (step_of_findsNull h hnull), fun halong => absurd hnull halong.1⟩
    . obtain ⟨hsame, hresult⟩ := step_same h hnull
      rw [ih hsame]
      exact ⟨fun heq => ⟨hnull, heq.2⟩, fun halong => ⟨hresult, halong.2⟩⟩

/--
The results are those of one map as long as no value is inserted for a large key that `operator[]` has left with
`nullptr`, and not any longer.
-/
theorem results_plain_iff (V : Type) (arraySize : Nat) (ops : List (Op V))
    : (new : OptMap V arraySize).results ops = PlainMap.new.results ops
      ↔ Along (fun m op => (m.step op).1) (fun m op => ¬ m.FindsNull op) (new : OptMap V arraySize) ops :=
  results_eq_iff new_same ops

-- A key that is only read, and then inserted.
def readAndInsert (key : Nat) : List (Op Unit) :=
  [.access key, .insert key (some ()), .find key]

theorem readAndInsert_results (key : Nat)
    : (new : OptMap Unit arraySize).results (readAndInsert key)
        = if key < arraySize then [.value none, .code true, .value (some ())]
          else [.value none, .code false, .value none] := by
  split
  . rename_i hkey
    simp [readAndInsert, results, step, access, insert, find, new, hkey]
  . rename_i hkey
    simp [readAndInsert, results, step, access, insert, find, new, hkey]

theorem readAndInsert_not_plain
    : (new : OptMap Unit 65536).results (readAndInsert 65536) = [.value none, .code false, .value none]
      ∧ (new : OptMap Unit 65536).results (readAndInsert 65535) = [.value none, .code true, .value (some ())]
      ∧ (new : OptMap Unit 65536).results (readAndInsert 65536) ≠ PlainMap.new.results (readAndInsert 65536) := by
  rw [readAndInsert_results, readAndInsert_results, if_neg (Nat.lt_irrefl _), if_pos (Nat.lt_succ_self _)]
  refine ⟨rfl, rfl, ?_⟩
  simp [readAndInsert, PlainMap.results, PlainMap.step, PlainMap.new]

end OptMap

end DataStruct
end Ezio
