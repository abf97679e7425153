import Mathlib.Logic.Function.Basic

/-!
This module contains `task<T>`: the frames of coroutines that `co_await` each other and other awaitables.

`await_suspend` of a task transfers control to it, its `final_awaiter` resumes the continuation from inside.
The call stack holds the coroutines whose `resume()` has not returned yet. A task object that is awaited where
it is created goes away at the end of the `co_await`, with the frame of its coroutine.
-/

namespace Ezio
namespace Coroutine
namespace Task

-- How a coroutine ends.
inductive Result (V E : Type) where
  | value (v : V)
  | exception (e : E)
  deriving DecidableEq, Repr

-- What a coroutine does until it ends, `k` is the rest after a `co_await`.
inductive Body (L V E : Type) where
  | coReturn (v : V)
  | throw (e : E)
  -- `co_await` of an awaitable that is no task
  | awaitLeaf (l : L) (k : V → Body L V E)
  -- `co_await` of a task that is created for it
  | awaitNew (child : Body L V E) (k : Result V E → Body L V E)
  -- `co_await` of the task object of the coroutine `h`
  | awaitTask (h : Nat) (k : Result V E → Body L V E)

structure Promise (V E : Type) where
  continuation : Option Nat := none
  exception : Option E := none
  value : V

-- `await_resume`
def Promise.awaitResume {V E : Type} (p : Promise V E) : Result V E :=
  match p.exception with
  | some e => .exception e
  | none => .value p.value

-- Where a coroutine is.
inductive Point (L V E : Type) where
  | initial (b : Body L V E)
  | running (b : Body L V E)
  -- `result` is what the awaitable returns from `await_resume`
  | leaf (l : L) (result : V) (k : V → Body L V E)
  | task (child : Nat) (temporary : Bool) (k : Result V E → Body L V E)
  | final

structure Frame (L V E : Type) where
  promise : Promise V E
  point : Point L V E

def Frame.done {L V E : Type} (f : Frame L V E) : Bool :=
  match f.point with
  | .final => true
  | _ => false

-- How an awaitable answers a `co_await`: with `await_ready`, or by a completion that comes later.
inductive Response (V : Type) where
  | ready (v : V)
  | later (v : V)
  deriving DecidableEq, Repr

def Response.value {V : Type} : Response V → V
  | ready v | later v => v

inductive Entry (L V E : Type) where
  -- `h` suspends on the task `c`
  | awaits (h c : Nat)
  -- `c` reaches its final suspend point
  | finishes (c : Nat) (r : Result V E)
  -- `h` goes on from its `co_await` of the task `c`
  | resumes (h c : Nat) (r : Result V E)
  -- the awaitable that `h` is suspended on is completed
  | completes (h : Nat) (v : V)
  -- `h` goes on from its `co_await` of `l`
  | continues (h : Nat) (l : L) (v : V)
  | useAfterFree (h : Nat)
  | badResume (h : Nat)
  deriving DecidableEq

structure World (L V E : Type) where
  frames : Nat → Option (Frame L V E) := fun _ => none
  next : Nat := 0
  stack : List Nat := []
  -- the coroutines whose handle an awaitable holds
  leafs : List Nat := []
  responses : List (Response V) := []
  log : List (Entry L V E) := []

namespace World

variable {L V E : Type}

def setFrame (w : World L V E) (h : Nat) (f : Option (Frame L V E)) : World L V E :=
  { w with frames := Function.update w.frames h f }

def addLog (w : World L V E) (e : Entry L V E) : World L V E :=
  { w with log := w.log ++ [e] }

-- `handle.resume()`, the coroutine is put on the stack by the caller
def resume (w : World L V E) (h : Nat) : World L V E :=
  match w.frames h with
  | none => w.addLog (.useAfterFree h)
  | some f =>
    match f.point with
    | .initial b => w.setFrame h (some { f with point := .running b })
    | .leaf l v k => (w.setFrame h (some { f with point := .running (k v) })).addLog (.continues h l v)
    | .task c temporary k =>
      match w.frames c with
      | none => w.addLog (.useAfterFree c)
      | some child =>
        let r := child.promise.awaitResume
        let w := if temporary then w.setFrame c none else w
        (w.setFrame h (some { f with point := .running (k r) })).addLog (.resumes h c r)
    | .running _ | .final => w.addLog (.badResume h)

-- `co_await` of the task `c` that is not done
def awaitSuspend (w : World L V E) (h : Nat) (f : Frame L V E) (c : Nat) (child : Frame L V E)
    (temporary : Bool) (k : Result V E → Body L V E) : World L V E :=
  let w := w.setFrame c (some { child with promise := { child.promise with continuation := some h } })
  let w := w.setFrame h (some { f with point := .task c temporary k })
  { w.addLog (.awaits h c) with stack := c :: w.stack.tail }.resume c

-- `final_awaiter::await_suspend`
def finalSuspend (w : World L V E) (h : Nat) (p : Promise V E) : World L V E :=
  let w := (w.setFrame h (some ⟨p, .final⟩)).addLog (.finishes h p.awaitResume)
  match p.continuation with
  | some cont => { w with stack := cont :: w.stack }.resume cont
  | none => { w with stack := w.stack.tail }

-- The coroutine on top of the stack goes on to its next suspend point.
def runBody [Inhabited V] (w : World L V E) (h : Nat) (f : Frame L V E) (b : Body L V E) : World L V E :=
  match b with
  | .coReturn v => w.finalSuspend h { f.promise with value := v }
  | .throw e => w.finalSuspend h { f.promise with exception := some e }
  | .awaitLeaf l k =>
    match w.responses with
    | .ready v :: responses => { w.setFrame h (some { f with point := .running (k v) }) with responses }
    | _ =>
      { w.setFrame h (some { f with point := .leaf l default k }) with
        leafs := w.leafs ++ [h]
        stack := w.stack.tail }
  | .awaitNew child k =>
    let c := w.next
    { w with next := w.next + 1 }.awaitSuspend h f c ⟨{ value := default }, .initial child⟩ true k
  | .awaitTask c k =>
    match w.frames c with
    | none => { w.addLog (.useAfterFree c) with stack := w.stack.tail }
    | some child =>
      if child.done then
        w.setFrame h (some { f with point := .running (k child.promise.awaitResume) })
      else
        w.awaitSuspend h f c child false k

-- The awaitable that `h` is suspended on is completed by its callback.
def completeLeaf (w : World L V E) (h : Nat) (v : V) : World L V E :=
  match w.frames h with
  | none => w.addLog (.useAfterFree h)
  | some f =>
    match f.point with
    | .leaf l _ k =>
      { (w.setFrame h (some { f with point := .leaf l v k })).addLog (.completes h v) with
        stack := h :: w.stack }.resume h
    | _ => { w.addLog (.completes h v) with stack := h :: w.stack }.resume h

def step [Inhabited V] (w : World L V E) : World L V E :=
  match w.stack with
  | h :: stack =>
    match w.frames h with
    | some ⟨promise, .running b⟩ => w.runBody h ⟨promise, .running b⟩ b
    -- the `resume()` inside of the final awaiter of `h` has returned
    | _ => { w with stack }
  | [] =>
    match w.leafs, w.responses with
    | h :: leafs, .later v :: responses => { w with leafs, responses }.completeLeaf h v
    | _, _ => w

def exec [Inhabited V] : Nat → World L V E → World L V E
  | 0, w => w
  | n + 1, w => exec n w.step

-- `start()` of a new task
def start [Inhabited V] (b : Body L V E) (responses : List (Response V)) : World L V E :=
  { frames := Function.update (fun _ => none) 0 (some ⟨{ value := default }, .initial b⟩)
    next := 1
    stack := [0]
    responses : World L V E }.resume 0

-- The value or exception that the coroutine has ended with.
def result (w : World L V E) (h : Nat) : Option (Result V E) :=
  match w.frames h with
  | some f => if f.done then some f.promise.awaitResume else none
  | none => none

end World

end Task
end Coroutine
end Ezio
