import Ezio.Coroutine.FramePool
import Ezio.Lib.Run

/-!
This module contains the lifetime of coroutine frames on one thread: the services and their pools, the
thread local `current_coro_svc`, `task` objects and the tasks that `spawn` takes over.

The answer of `::operator new` is part of the step that calls it. Steps that the program cannot take are
not taken, for example resuming a coroutine that runs. The blocks of a pool that do not fit
(`FramePool.Fits`) are outside of its memory in the source, here they are blocks as all others.
-/

namespace Ezio
namespace Coroutine

inductive Allocator where
  -- `::operator new` and `::operator delete`
  | global
  | pool (service : Nat)
  deriving DecidableEq, Repr

inductive Status where
  | suspended
  | running
  -- suspended at its final suspend point
  | done
  deriving DecidableEq, Repr

structure Frame where
  ptr : Nat
  size : Nat
  -- the allocator that `frame_alloc` took the frame from
  source : Allocator
  status : Status := .suspended
  -- the service whose `spawn` registered `on_final_resume_`
  onFinalResume : Option Nat := none
  deriving DecidableEq, Repr

-- A `task<void>` in `spawned_list_`.
structure SpawnedTask where
  iter : Nat
  handle : Option Nat
  deriving DecidableEq, Repr

structure Service where
  framePool : FramePool
  spawnedList : List SpawnedTask := []
  pendingCleanup : List Nat := []
  cleanupPosted : Bool := false

structure Frames where
  services : Nat → Option Service := fun _ => none
  nextService : Nat := 0
  currentCoroSvc : Option Nat := none
  frames : Nat → Option Frame := fun _ => none
  nextFrame : Nat := 0
  -- the services of the cleanup jobs in the event loop
  jobs : List Nat := []
  -- every frame given to `frame_free` with the allocator it was given to
  released : List (Frame × Allocator) := []

def Apart (addr size addr' size' : Nat) : Prop :=
  addr + size ≤ addr' ∨ addr' + size' ≤ addr

instance : Decidable (Apart addr size addr' size') :=
  inferInstanceAs (Decidable (_ ∨ _))

namespace Service

def allocFrame (svc : Service) (sz : Nat) : Option (Nat × Service) :=
  if sz ≤ svc.framePool.blockSize then
    match svc.framePool.alloc with
    | some (p, framePool) => some (p, { svc with framePool })
    | none => none
  else
    none

-- `none` if the frame is given to `::operator delete`
def freeFrame (svc : Service) (ptr sz : Nat) : Option Service :=
  if sz ≤ svc.framePool.blockSize && svc.framePool.owns ptr then
    some { svc with framePool := svc.framePool.free ptr }
  else
    none

end Service

namespace Frames

-- The memory that `::operator new` may return.
def Fresh (w : Frames) (addr size : Nat) : Prop :=
  (∀ s < w.nextService, ∀ svc ∈ w.services s,
      Apart addr size svc.framePool.mem svc.framePool.total)
    ∧ ∀ f < w.nextFrame, ∀ fr ∈ w.frames f, fr.source = .global → Apart addr size fr.ptr fr.size

instance (w : Frames) (addr size : Nat) : Decidable (w.Fresh addr size) :=
  inferInstanceAs (Decidable (_ ∧ _))

def setService (w : Frames) (s : Nat) (svc : Option Service) : Frames :=
  { w with services := Function.update w.services s svc }

def setFrame (w : Frames) (f : Nat) (fr : Option Frame) : Frames :=
  { w with frames := Function.update w.frames f fr }

def current (w : Frames) : Option (Nat × Service) :=
  w.currentCoroSvc.bind fun s => (w.services s).map fun svc => (s, svc)

-- `addr` is the answer of `::operator new`
def frameAlloc (w : Frames) (sz addr : Nat) : Allocator × Nat × Frames :=
  match w.current with
  | some (s, svc) =>
    match svc.allocFrame sz with
    | some (ptr, svc) => (.pool s, ptr, w.setService s (some svc))
    | none => (.global, addr, w)
  | none => (.global, addr, w)

def frameFree (w : Frames) (ptr sz : Nat) : Allocator × Frames :=
  match w.current with
  | some (s, svc) =>
    match svc.freeFrame ptr sz with
    | some svc => (.pool s, w.setService s (some svc))
    | none => (.global, w)
  | none => (.global, w)

-- `handle_.destroy()`
def destroyFrame (w : Frames) (f : Nat) : Frames :=
  match w.frames f with
  | none => w
  | some fr =>
    let (a, w) := w.frameFree fr.ptr fr.size
    { w.setFrame f none with released := w.released ++ [(fr, a)] }

-- `~task` of tasks of `spawned_list_`
def dropTasks (w : Frames) (tasks : List SpawnedTask) : Frames :=
  (tasks.filterMap (·.handle)).foldl destroyFrame w

def createFrame (w : Frames) (sz addr : Nat) : Frames :=
  let (source, ptr, w') := w.frameAlloc sz addr
  if 0 < sz ∧ (source = .global → w.Fresh addr sz) then
    { w'.setFrame w.nextFrame (some { ptr, size := sz, source }) with nextFrame := w.nextFrame + 1 }
  else
    w

def construct (w : Frames) (blockSize capacity mem : Nat) : Frames :=
  let framePool := FramePool.new mem blockSize capacity
  if w.Fresh mem framePool.total then
    { w.setService w.nextService (some { framePool }) with
      nextService := w.nextService + 1, currentCoroSvc := some w.nextService }
  else
    w

def clearSpawned (w : Frames) (s : Nat) : Frames :=
  match w.services s with
  | none => w
  | some svc =>
    let w := w.setService s
      (some { svc with spawnedList := [], pendingCleanup := [], cleanupPosted := false })
    w.dropTasks svc.spawnedList

def destruct (w : Frames) (s : Nat) : Frames :=
  match w.services s with
  | none => w
  | some _ => { (w.clearSpawned s).setService s none with currentCoroSvc := none }

def setCurrent (w : Frames) (s : Nat) : Frames :=
  match w.services s with
  | none => w
  | some _ => { w with currentCoroSvc := some s }

def clearCurrent (w : Frames) : Frames :=
  { w with currentCoroSvc := none }

-- A `task` object that is not in a `spawned_list_` goes out of scope.
def destroyTask (w : Frames) (f : Nat) : Frames :=
  match w.frames f with
  | some { status := .suspended, onFinalResume := none, .. }
  | some { status := .done, onFinalResume := none, .. } => w.destroyFrame f
  | _ => w

def resume (w : Frames) (f : Nat) : Frames :=
  match w.frames f with
  | some fr => if fr.status = .suspended then w.setFrame f (some { fr with status := .running }) else w
  | none => w

def suspend (w : Frames) (f : Nat) : Frames :=
  match w.frames f with
  | some fr => if fr.status = .running then w.setFrame f (some { fr with status := .suspended }) else w
  | none => w

-- `start` of the spawned coroutine is a `resume` of its own
def spawn (w : Frames) (s f : Nat) : Frames :=
  match w.services s, w.frames f with
  | some svc, some fr =>
    if fr.onFinalResume = none then
      match fr.status with
      | .done => w.destroyFrame f
      | .suspended =>
        let svc := { svc with spawnedList := ⟨f, some f⟩ :: svc.spawnedList }
        (w.setService s (some svc)).setFrame f (some { fr with onFinalResume := some s })
      | .running => w
    else
      w
  | _, _ => w

-- The lambda that `spawn` stores in `on_final_resume_`.
def onFinalResume (w : Frames) (s f : Nat) : Frames :=
  match w.services s with
  | none => w
  | some svc =>
    let spawnedList := svc.spawnedList.map fun t => if t.iter = f then { t with handle := none } else t
    let pendingCleanup := svc.pendingCleanup ++ [f]
    if svc.cleanupPosted then
      w.setService s (some { svc with spawnedList, pendingCleanup })
    else
      { w.setService s (some { svc with spawnedList, pendingCleanup, cleanupPosted := true }) with
        jobs := w.jobs ++ [s] }

-- The coroutine returns and is suspended at its final suspend point.
def finish (w : Frames) (f : Nat) : Frames :=
  match w.frames f with
  | none => w
  | some fr =>
    if fr.status = .running then
      let w := w.setFrame f (some { fr with status := .done })
      match fr.onFinalResume with
      | none => w
      | some s => w.onFinalResume s f
    else
      w

def eraseTask (s : Nat) (w : Frames) (iter : Nat) : Frames :=
  match w.services s with
  | none => w
  | some svc =>
    let w := w.setService s (some { svc with spawnedList := svc.spawnedList.filter (·.iter ≠ iter) })
    w.dropTasks (svc.spawnedList.filter (·.iter = iter))

def sweepCompleted (w : Frames) (s : Nat) : Frames :=
  match w.services s with
  | none => w
  | some svc =>
    let w := svc.pendingCleanup.foldl (eraseTask s) w
    match w.services s with
    | none => w
    | some svc => w.setService s (some { svc with pendingCleanup := [] })

-- The event loop runs the next cleanup job.
def runJob (w : Frames) : Frames :=
  match w.jobs with
  | [] => w
  | s :: jobs =>
    let w := { w with jobs }.sweepCompleted s
    match w.services s with
    | none => w
    | some svc => w.setService s (some { svc with cleanupPosted := false })

inductive Step where
  | construct (blockSize capacity mem : Nat)
  | destruct (s : Nat)
  | setCurrent (s : Nat)
  | clearCurrent
  | create (sz addr : Nat)
  | destroy (f : Nat)
  | resume (f : Nat)
  | suspend (f : Nat)
  | finish (f : Nat)
  | spawn (s f : Nat)
  | clearSpawned (s : Nat)
  | runJob
  deriving DecidableEq, Repr

-- A service that is constructed fits into memory.
def Step.Fits : Step → Prop
  | .construct blockSize capacity mem => (FramePool.new mem blockSize capacity).Fits
  | _ => True

instance : (st : Step) → Decidable st.Fits
  | .construct blockSize capacity mem => inferInstanceAs (Decidable (FramePool.new mem blockSize capacity).Fits)
  | .destruct _ | .setCurrent _ | .clearCurrent | .create _ _ | .destroy _ | .resume _ | .suspend _ | .finish _
  | .spawn _ _ | .clearSpawned _ | .runJob => .isTrue trivial

def step (w : Frames) : Step → Frames
  | .construct blockSize capacity mem => w.construct blockSize capacity mem
  | .destruct s => w.destruct s
  | .setCurrent s => w.setCurrent s
  | .clearCurrent => w.clearCurrent
  | .create sz addr => w.createFrame sz addr
  | .destroy f => w.destroyTask f
  | .resume f => w.resume f
  | .suspend f => w.suspend f
  | .finish f => w.finish f
  | .spawn s f => w.spawn s f
  | .clearSpawned s => w.clearSpawned s
  | .runJob => w.runJob

def run (w : Frames) (steps : List Step) : Frames :=
  steps.foldl step w

end Frames

end Coroutine
end Ezio
