import Ezio.Event.Epoll.Dispatch

/-!
This module contains what the objects that read a file of their own have in common on the epoll backend: how they ask
for a read, and the pass of `handle_events` over the reads that are pending, whatever a read does to the object.
-/

namespace Ezio
namespace Event

-- An object that reads the file `fd` through `poll`.
class Source (σ : Type) where
  fd : σ → Fd
  poll : σ → Epoll
  setPoll : σ → Epoll → σ
  fault : σ → Fault → σ

namespace Source

variable {σ : Type} [Source σ]

def modifyAction (w : σ) (id : Nat) (f : EventAction → EventAction) : σ :=
  setPoll w ((poll w).modifyAction id f)

def isRegistered (w : σ) : Bool :=
  ((poll w).kernel.interest (fd w).key).isSome

-- The object asserts that it is told of its file.
def submitAsyncRead (w : σ) (buf : UserBuf) (cb : Option Callback) (opt : Option ReadOptions) : σ :=
  match (poll w).submitAsyncRead (fd w) buf cb opt with
  | .ok (ret, poll) => if ret = 0 then setPoll w poll else fault w .assert
  | .error f => fault w f

-- The front of `pending_read_task_` is taken off.
def popReadTask (w : σ) (id : Nat) : σ :=
  match ((poll w).action id).pendingReadTask with
  | [] => fault w .emptyReadQueue
  | _ :: ts => modifyAction w id fun a => { a with pendingReadTask := ts }

-- The result of `doReadTask` is whether the task is pushed back.
def readLoop (doReadTask : σ → Task → σ × Bool) (w : σ) (id : Nat) : Nat → σ
  | 0 => w
  | n + 1 =>
    match ((poll w).action id).pendingReadTask with
    | [] => fault w .emptyReadQueue
    | t :: _ =>
      let (w, again) := doReadTask w t
      let w := modifyAction w id fun a => if again then a.addReadTask t else a
      readLoop doReadTask (popReadTask w id) id n

-- `handle_events` of an object that only has tasks that read
def handleEvents (doReadTask : σ → Task → σ × Bool) (w : σ) (id : Nat) : σ :=
  if ((poll w).action id).isReadable then
    readLoop doReadTask w id ((poll w).action id).pendingReadTask.length
  else
    w

theorem popReadTask_cons {w : σ} {id : Nat} {t : Task} {ts : List Task}
    (htask : ((poll w).action id).pendingReadTask = t :: ts)
    : popReadTask w id = modifyAction w id fun a => { a with pendingReadTask := ts } := by
  unfold popReadTask
  rw [htask]

theorem handleEvents_of_not_readable (doReadTask : σ → Task → σ × Bool) {w : σ} {id : Nat}
    (hreadable : ((poll w).action id).isReadable = false)
    : handleEvents doReadTask w id = w := by
  unfold handleEvents
  rw [if_neg (by rw [hreadable]; exact Bool.false_ne_true)]

-- If one task is pending, the pass consists of this task.
theorem handleEvents_singleton (doReadTask : σ → Task → σ × Bool) {w : σ} {id : Nat} {t : Task}
    (hreadable : ((poll w).action id).isReadable = true) (htask : ((poll w).action id).pendingReadTask = [t])
    : handleEvents doReadTask w id
        = popReadTask (modifyAction (doReadTask w t).1 id fun a =>
            if (doReadTask w t).2 then a.addReadTask t else a) id := by
  unfold handleEvents
  rw [if_pos hreadable, htask, List.length_singleton]
  unfold readLoop
  rw [htask]
  rfl

end Source

end Event
end Ezio
