import Ezio.Event.Inotify

/-!
This module contains `add_watch` and `remove_watch` of `inotify`: the value that `add_watch` returns names no
watch, and `remove_watch` leaves the callback of a watch in the table.
-/

namespace Ezio
namespace Event

-- What `inotify_add_watch` finds behind the name: nothing, or an inode, `fresh` is the descriptor that a new
-- watch gets.
inductive FileLookup where
  | fail
  | inode (inode : Nat) (fresh : Int32)
  deriving DecidableEq, Repr

-- The arguments of `add_watch`
structure AddWatch where
  fileName : String
  events : UInt32
  cb : Option Callback
  lookup : FileLookup
  deriving DecidableEq, Repr

inductive WatchAction where
  | add (a : AddWatch)
  | remove (watchFd : Int32)
  deriving DecidableEq, Repr

-- An inotify object with the watches of the kernel, each is an inode with its descriptor.
structure Watching where
  inotify : Inotify
  watches : List (Nat × Int32)

namespace Watching

def inotifyAddWatch (watches : List (Nat × Int32)) (lookup : FileLookup) : Int32 × List (Nat × Int32) :=
  match lookup with
  | .fail => (-1, watches)
  | .inode inode fresh =>
    match watches.lookup inode with
    | some watchFd => (watchFd, watches)
    | none => (fresh, watches ++ [(inode, fresh)])

def inotifyRmWatch (watches : List (Nat × Int32)) (watchFd : Int32) : Int32 × List (Nat × Int32) :=
  if watches.any fun e => e.2 = watchFd then
    (0, watches.filter fun e => e.2 ≠ watchFd)
  else
    (-1, watches)

def addWatch (w : Watching) (a : AddWatch) : Int32 × Watching :=
  match a.cb with
  | none => (-1, w)
  | some cb =>
    if a.fileName = "" ∨ a.events = 0 then
      (-1, w)
    else
      let (watchFd, watches) := inotifyAddWatch w.watches a.lookup
      let w := { w with watches }
      if 0 < watchFd then
        (0, { w with
          inotify.watchFdToCb := Function.update w.inotify.watchFdToCb watchFd.toUInt32 (some cb) })
      else
        (-1, w)

def removeWatch (w : Watching) (watchFd : Int32) : Int32 × Watching :=
  match w.inotify.watchFdToCb watchFd.toUInt32 with
  | none => (-1, w)
  | some _ =>
    let (ret, watches) := inotifyRmWatch w.watches watchFd
    (if ret = -1 then -1 else 0, { w with watches })

-- The callback that `handle_notify` calls for an event with this descriptor.
def callbackFor (w : Watching) (watchFd : Int32) : Option Callback :=
  w.inotify.watchFdToCb watchFd.toUInt32

def step (w : Watching) : WatchAction → Watching
  | .add a => (w.addWatch a).2
  | .remove watchFd => (w.removeWatch watchFd).2

def run (w : Watching) (as : List WatchAction) : Watching :=
  as.foldl step w

-- `inotify` is open and nothing is watched.
def start (num : Nat) (bufferSize : UInt32) : Watching :=
  ⟨Inotify.start num bufferSize fun _ => none, []⟩

-- The value that `add_watch` has returned removes the watch, once, unless it has been used before. Events with
-- the descriptor of the watch call nothing from then on.
def RoundTrips (w : Watching) (a : AddWatch) : Prop :=
  ∀ between : List WatchAction, WatchAction.remove (w.addWatch a).1 ∉ between
    → let r := ((w.addWatch a).2.run between).removeWatch (w.addWatch a).1
      r.1 = 0
        ∧ (r.2.removeWatch (w.addWatch a).1).1 = -1
        ∧ r.2.callbackFor (inotifyAddWatch w.watches a.lookup).1 = none

-- No callback is stored for the descriptor 0.
def Positive (w : Watching) : Prop :=
  w.inotify.watchFdToCb 0 = none

theorem toUInt32_ne_zero {watchFd : Int32} (h : 0 < watchFd) : watchFd.toUInt32 ≠ 0 := by
  intro hzero
  obtain ⟨bits⟩ := watchFd
  rw [show bits = 0 from hzero] at h
  exact absurd h (by decide)

theorem addWatch_cases (w : Watching) (a : AddWatch)
    : (w.addWatch a).1 = -1 ∧ (w.addWatch a).2.inotify = w.inotify
      ∨ ∃ cb : Callback, a.cb = some cb
        ∧ (w.addWatch a).1 = 0
        ∧ 0 < (inotifyAddWatch w.watches a.lookup).1
        ∧ (w.addWatch a).2.inotify.watchFdToCb
          = Function.update w.inotify.watchFdToCb (inotifyAddWatch w.watches a.lookup).1.toUInt32 (some cb) := by
  unfold addWatch
  cases hcb : a.cb with
  | none => exact .inl ⟨rfl, rfl⟩
  | some cb =>
    dsimp only
    split
    . exact .inl ⟨rfl, rfl⟩
    . split
      . next hpos => exact .inr ⟨cb, rfl, rfl, hpos, rfl⟩
      . exact .inl ⟨rfl, rfl⟩

theorem removeWatch_inotify (w : Watching) (watchFd : Int32) : (w.removeWatch watchFd).2.inotify = w.inotify := by
  unfold removeWatch
  split
  . rfl
  . rfl

theorem removeWatch_zero {w : Watching} (h : w.Positive) : (w.removeWatch 0).1 = -1 := by
  unfold removeWatch
  rw [show (0 : Int32).toUInt32 = 0 from rfl, show w.inotify.watchFdToCb 0 = none from h]

theorem Positive.step {w : Watching} (h : w.Positive) (a : WatchAction) : (w.step a).Positive := by
  unfold Positive
  cases a with
  | add a =>
    rcases addWatch_cases w a with ⟨_, hsame⟩ | ⟨cb, _, _, hpos, htable⟩
    . rw [Watching.step, hsame]
      exact h
    . rw [Watching.step, htable, Function.update_of_ne (toUInt32_ne_zero hpos).symm]
      exact h
  | remove watchFd =>
    rw [Watching.step, removeWatch_inotify]
    exact h

theorem Positive.run {w : Watching} (h : w.Positive) (as : List WatchAction) : (w.run as).Positive :=
  foldl_invariant as (fun _ a _ h => h.step a) h

theorem submitAsyncRead_watchFdToCb (w : Inotify) (buf : UserBuf) (cb : Option Callback) (opt : Option ReadOptions)
    : (w.submitAsyncRead buf cb opt).watchFdToCb = w.watchFdToCb := by
  unfold Inotify.submitAsyncRead Source.submitAsyncRead
  split
  . split
    . rfl
    . rfl
  . rfl

theorem start_positive (num : Nat) (bufferSize : UInt32) : (start num bufferSize).Positive := by
  unfold Positive start Inotify.start
  rw [submitAsyncRead_watchFdToCb]

-- A watch that is removed by its own descriptor keeps its callback, too.
theorem callbackFor_removeWatch (w : Watching) (watchFd watchFd' : Int32)
    : (w.removeWatch watchFd).2.callbackFor watchFd' = w.callbackFor watchFd' := by
  unfold callbackFor
  rw [removeWatch_inotify]

theorem callbackFor_addWatch {w : Watching} {a : AddWatch} (h : (w.addWatch a).1 ≠ -1)
    : (w.addWatch a).2.callbackFor (inotifyAddWatch w.watches a.lookup).1 = a.cb := by
  rcases addWatch_cases w a with ⟨hret, _⟩ | ⟨cb, hcb, _, _, htable⟩
  . exact absurd hret h
  . unfold callbackFor
    rw [htable, Function.update_self, hcb]

theorem callbackFor_removes {w : Watching} (watchFds : List Int32) (watchFd : Int32)
    : (w.run (watchFds.map .remove)).callbackFor watchFd = w.callbackFor watchFd := by
  induction watchFds generalizing w with
  | nil => rfl
  | cons watchFd' watchFds ih =>
    rw [List.map_cons, run, List.foldl_cons, ← run, ih]
    exact callbackFor_removeWatch w watchFd' watchFd

/--
The value that is returned is 0, which never removes anything, and whatever the user removes, events still
call the callback.
-/
theorem addWatch_not_roundTrips (num : Nat) (bufferSize : UInt32) (as : List WatchAction) (a : AddWatch)
    (h : (((start num bufferSize).run as).addWatch a).1 ≠ -1)
    : let w := (start num bufferSize).run as
      ¬w.RoundTrips a
        ∧ (∀ between : List WatchAction,
          (((w.addWatch a).2.run between).removeWatch (w.addWatch a).1).1 = -1)
        ∧ ∀ watchFds : List Int32,
          ((w.addWatch a).2.run (watchFds.map .remove)).callbackFor (inotifyAddWatch w.watches a.lookup).1
            = a.cb := by
  intro w
  have hpositive : w.Positive := (start_positive num bufferSize).run as
  have hret : (w.addWatch a).1 = 0 := by
    rcases addWatch_cases w a with ⟨hret, _⟩ | ⟨_, _, hret, _⟩
    . exact absurd hret h
    . exact hret
  have hfails : ∀ between : List WatchAction,
      (((w.addWatch a).2.run between).removeWatch (w.addWatch a).1).1 = -1 := by
    intro between
    rw [hret]
    exact removeWatch_zero ((hpositive.step (WatchAction.add a)).run between)
  refine ⟨?_, hfails, ?_⟩
  . intro htrips
    have hsucceeds := (htrips [] List.not_mem_nil).1
    rw [hfails []] at hsucceeds
    exact absurd hsucceeds (by decide)
  . intro watchFds
    rw [callbackFor_removes, callbackFor_addWatch h]

-- The first watch of an object.
def modifyWatch : AddWatch :=
  ⟨"./test.txt", 2, some 7, FileLookup.inode 1 1⟩

theorem modifyWatch_not_removed
    : (((start 5 4096).run []).addWatch modifyWatch).1 ≠ -1
        ∧ ((((start 5 4096).run []).addWatch modifyWatch).2.removeWatch
          (((start 5 4096).run []).addWatch modifyWatch).1).1 = -1 :=
  ⟨by decide +kernel, (addWatch_not_roundTrips 5 4096 [] modifyWatch (by decide +kernel)).2.1 []⟩

theorem modifyWatch_not_roundTrips : ¬(start 5 4096).RoundTrips modifyWatch := by
  intro h
  have hsucceeds := (h [] List.not_mem_nil).1
  exact absurd hsucceeds (by decide +kernel)

end Watching

end Event
end Ezio
