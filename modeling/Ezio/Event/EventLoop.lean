import Mathlib.Algebra.Ring.Nat
import Ezio.Lib.Run

/-!
This module contains `event_loop`: the jobs and instructions that are queued for the thread that runs the loop,
its internal notifier and the iterations of the loop itself.

The thread of the loop goes on by `tick`, everything that the other threads do comes in between. While it is in
a callback the callback may call the functions of the loop as well. A critical section is one step.
-/

namespace Ezio
namespace Event
namespace EventLoop

def RET_SUC : Int := 0
def RET_ERR : Int := -1

inductive ElState where
  | esDef
  | esInit
  | esStart
  | esStop
  deriving DecidableEq, Repr

inductive ElInstruction where
  | eiAdd
  | eiRemove
  deriving DecidableEq, Repr

inductive EventType where
  | normal
  | busyPoll
  deriving DecidableEq, Repr

-- An `event_base` that is known to the loop.
structure Handler where
  id : Nat
  eventType : EventType := .normal
  deriving DecidableEq, Repr

structure EventInfo where
  evtPtr : Handler
  instruction : ElInstruction
  deriving DecidableEq, Repr

inductive PendingFunc (J : Type) where
  | user (j : J)
  | handleClose
  deriving DecidableEq, Repr

-- A job that has been accepted, `id` tells it from all others.
structure Job (J : Type) where
  id : Nat
  func : PendingFunc J
  deriving DecidableEq, Repr

inductive Queue where
  | sameThread
  | otherThread
  deriving DecidableEq, Repr

-- The requests that are outstanding in the poller.
inductive Request where
  | notifier
  | internalTimer
  | user (n : Nat)
  deriving DecidableEq, Repr

-- Where the thread of the loop is.
inductive Pc where
  -- in none of the functions of the loop
  | outside
  | starting
  | loopCheck
  | newInstructions
  -- inside of `on_started` or `on_stopped` if `called`, `rest` has to be processed
  | instruction (called : Bool) (rest : List EventInfo)
  | busyPolls
  -- inside of `handle_loop_once`
  | busyPoll (rest : List Handler)
  | sameThreadJobs
  -- job `i` of `cnt` is running
  | sameThreadJob (i cnt : Nat)
  | dispatch
  -- `dispatch` returns when something has been completed or when the time is up
  | dispatching (completed : Bool)
  | otherThreadJobs
  | swap
  -- job `i` of the swapped vector is running
  | otherThreadJob (i : Nat)
  deriving DecidableEq, Repr

-- The thread of the loop runs code of the user.
def Pc.inCallback : Pc → Bool
  | outside | instruction true _ | busyPoll _ | sameThreadJob .. | dispatching _ | otherThreadJob _ => true
  | _ => false

inductive Entry where
  | posts (q : Queue) (id : Nat)
  -- the loop comes to the place where it runs what is queued
  | drains (q : Queue) (ids : List Nat)
  | runs (q : Queue) (id : Nat)
  | dispatches (timeoutMs : Int)
  -- `loop_once` returns
  | returns
  deriving DecidableEq, Repr

structure PollParam where
  pollingMs : Int := -1
  entryCnt : Nat := 128
  deriving DecidableEq, Repr

-- What the calls in `open` return.
structure OpenResults where
  pollObj : Bool
  init : Bool
  eventfd : Int
  timerId : Int
  deriving DecidableEq, Repr

end EventLoop

open EventLoop

structure EventLoop (J : Type) where
  pollingMs : Int := -1
  evtHandlers : List Handler := []
  busyPollEvts : List Handler := []
  removedEvtHandlersCache : List Handler := []
  evtHandlersCache : List EventInfo := []
  threadId : Option Nat := none
  eeState : ElState := .esDef
  otherThreadPendingFuncs : List (Job J) := []
  sameThreadPendingFuncs : List (Job J) := []
  otherThreadJobSwapCacheVec : List (Job J) := []
  -- the counter of the eventfd of the internal notifier
  ntfEvt : Option Nat := none
  internalTimerId : Int := -1
  -- the poller
  requests : List Request := []
  pc : Pc := .outside
  -- `timeout_ms` of the `loop_once` that is running
  timeoutMs : Int := -1
  nextJob : Nat := 0
  log : List Entry := []

namespace EventLoop

variable {J : Type}

def addLog (w : EventLoop J) (e : Entry) : EventLoop J :=
  { w with log := w.log ++ [e] }

/-! ### `internal_notifier` -/

-- The statements that submit a read of the eventfd come after a `return;`.
def submitReadRequest (w : EventLoop J) : EventLoop J :=
  w

def openNotifier (w : EventLoop J) (eventfd : Int) : EventLoop J × Int :=
  if 0 ≤ eventfd then
    ({ w with ntfEvt := some 0 }.submitReadRequest, RET_SUC)
  else
    (w, RET_ERR)

def notify (w : EventLoop J) : EventLoop J :=
  { w with ntfEvt := w.ntfEvt.map (· + 1) }

-- The callback of the read of the eventfd, `handle_notify` does nothing.
def onNotify (w : EventLoop J) : EventLoop J :=
  w.submitReadRequest

def wakeUp (w : EventLoop J) : EventLoop J :=
  if w.ntfEvt.isSome then w.notify else w

/-! ### The functions that every thread may call -/

def openLoop (w : EventLoop J) (param : PollParam) (results : OpenResults) : EventLoop J × Int :=
  if w.eeState ≠ .esDef ∨ !results.pollObj ∨ !results.init then
    (w, RET_ERR)
  else
    let w := { w with
      eeState := .esInit
      pollingMs := if 0 ≤ param.pollingMs then param.pollingMs else w.pollingMs }
    match w.openNotifier results.eventfd with
    | (w, ret) =>
      if ret ≠ RET_SUC then
        (w, RET_ERR)
      else
        let w := { w with internalTimerId := results.timerId }
        if 0 ≤ results.timerId then
          ({ w with requests := w.requests ++ [Request.internalTimer] }, RET_SUC)
        else
          (w, RET_ERR)

def addInstruction (w : EventLoop J) (h : Handler) (instruction : ElInstruction) : EventLoop J :=
  if w.eeState = .esInit ∨ w.eeState = .esStart then
    { w with evtHandlersCache := w.evtHandlersCache ++ [⟨h, instruction⟩] }
  else
    w

def addEvent (w : EventLoop J) (h : Handler) : EventLoop J :=
  w.addInstruction h .eiAdd

def removeEvent (w : EventLoop J) (h : Handler) : EventLoop J :=
  w.addInstruction h .eiRemove

-- `run_in_event_loop` on the thread `t`
def runInEventLoop (w : EventLoop J) (t : Nat) (job : Option (PendingFunc J)) : EventLoop J × Int :=
  match job with
  | none => (w, RET_ERR)
  | some func =>
    let job := ⟨w.nextJob, func⟩
    let w := { w with nextJob := w.nextJob + 1 }
    if some t ≠ w.threadId then
      let w := { w with otherThreadPendingFuncs := w.otherThreadPendingFuncs ++ [job] }
      ((w.addLog (.posts .otherThread job.id)).wakeUp, RET_SUC)
    else
      let w := { w with sameThreadPendingFuncs := w.sameThreadPendingFuncs ++ [job] }
      (w.addLog (.posts .sameThread job.id), RET_SUC)

-- `close` up to its call of `run_in_event_loop`
def stop (w : EventLoop J) : EventLoop J :=
  { w with eeState := .esStop }

-- `start_loop` up to its write of the state
def startLoop (w : EventLoop J) (t : Nat) : EventLoop J :=
  if w.eeState = .esInit ∨ w.eeState = .esStop then
    { w with threadId := some t, pc := .starting }
  else
    w

/-! ### The thread of the loop -/

def insertHandler (hs : List Handler) (h : Handler) : List Handler :=
  if h ∈ hs then hs else hs ++ [h]

def processRemoveInstruction (w : EventLoop J) (h : Handler) : EventLoop J :=
  { w with
    removedEvtHandlersCache := insertHandler w.removedEvtHandlersCache h
    busyPollEvts := w.busyPollEvts.erase h
    evtHandlers := if h.eventType = .normal then w.evtHandlers.erase h else w.evtHandlers }

-- Returns whether `on_started` is called.
def processAddInstruction (w : EventLoop J) (h : Handler) : EventLoop J × Bool :=
  if h.eventType = .normal then
    ({ w with evtHandlers := insertHandler w.evtHandlers h }, h ∉ w.evtHandlers)
  else
    ({ w with busyPollEvts := insertHandler w.busyPollEvts h }, h ∉ w.busyPollEvts)

def processNewInstruction (w : EventLoop J) : List EventInfo → EventLoop J
  | [] => { w with pc := .busyPolls }
  | info :: rest =>
    match info.instruction with
    | .eiRemove => { w.processRemoveInstruction info.evtPtr with pc := .instruction true rest }
    | .eiAdd =>
      match w.processAddInstruction info.evtPtr with
      | (w, called) => { w with pc := .instruction called rest }

def handleBusyPolls (w : EventLoop J) : List Handler → EventLoop J
  | [] => { w with pc := .sameThreadJobs, timeoutMs := 0 }
  | _ :: rest => { w with pc := .busyPoll rest }

def runFunc (w : EventLoop J) (func : PendingFunc J) : EventLoop J :=
  match func with
  | .user _ => w
  | .handleClose => { w with eeState := .esStop }

-- The loop over the `cnt` jobs of the own thread has come to `i`.
def runSameThreadJob (w : EventLoop J) (i cnt : Nat) : EventLoop J :=
  if i < cnt then
    match w.sameThreadPendingFuncs with
    | job :: _ =>
      let w := w.addLog (.runs .sameThread job.id)
      { w.runFunc job.func with pc := .sameThreadJob i cnt }
    | [] => { w with pc := .sameThreadJob i cnt }
  else
    { w with pc := .dispatch, timeoutMs := 0 }

def endLoopOnce (w : EventLoop J) : EventLoop J :=
  { w.addLog .returns with removedEvtHandlersCache := [], pc := .loopCheck }

-- The loop over the swapped vector has come to `i`.
def runOtherThreadJob (w : EventLoop J) (i : Nat) : EventLoop J :=
  match w.otherThreadJobSwapCacheVec[i]? with
  | some job =>
    let w := w.addLog (.runs .otherThread job.id)
    { w.runFunc job.func with pc := .otherThreadJob i }
  | none => { w with otherThreadJobSwapCacheVec := [] }.endLoopOnce

-- The internal timer, `raise` is what `try_raise_priority` returns.
def onTimer (w : EventLoop J) (raise : Handler → Bool) : EventLoop J :=
  let check := fun busy evt => if raise evt then insertHandler busy evt else busy.erase evt
  { w with busyPollEvts := w.evtHandlers.foldl check w.busyPollEvts }

-- What the thread of the loop does next.
def tick (w : EventLoop J) : EventLoop J :=
  match w.pc with
  | .outside => w
  | .starting => { w with eeState := .esStart, pc := .loopCheck }
  | .loopCheck =>
    if w.eeState = .esStart then
      { w with pc := .newInstructions, timeoutMs := w.pollingMs }
    else
      { w with pc := .outside }
  | .newInstructions => { w with evtHandlersCache := [] }.processNewInstruction w.evtHandlersCache
  | .instruction _ rest => w.processNewInstruction rest
  | .busyPolls =>
    if w.busyPollEvts = [] then
      { w with pc := .sameThreadJobs }
    else
      w.handleBusyPolls w.busyPollEvts
  | .busyPoll rest => w.handleBusyPolls rest
  | .sameThreadJobs =>
    let w := w.addLog (.drains .sameThread (w.sameThreadPendingFuncs.map (·.id)))
    if w.sameThreadPendingFuncs = [] then
      { w with pc := .dispatch }
    else
      -- `pending_job_cnt` has 32 bits
      w.runSameThreadJob 0 (w.sameThreadPendingFuncs.length % 2 ^ 32)
  | .sameThreadJob i cnt =>
    { w with sameThreadPendingFuncs := w.sameThreadPendingFuncs.tail }.runSameThreadJob (i + 1) cnt
  | .dispatch => { w.addLog (.dispatches w.timeoutMs) with pc := .dispatching false }
  | .dispatching completed =>
    if completed ∨ 0 ≤ w.timeoutMs then
      { w with pc := .otherThreadJobs }
    else
      w
  | .otherThreadJobs =>
    let w := w.addLog (.drains .otherThread (w.otherThreadPendingFuncs.map (·.id)))
    if w.otherThreadPendingFuncs = [] then
      w.endLoopOnce
    else
      { w with pc := .swap }
  | .swap =>
    { w with
      otherThreadPendingFuncs := w.otherThreadJobSwapCacheVec
      otherThreadJobSwapCacheVec := w.otherThreadPendingFuncs }.runOtherThreadJob 0
  | .otherThreadJob i => w.runOtherThreadJob (i + 1)

-- The poller completes a request while the thread of the loop is in `dispatch`.
def complete (w : EventLoop J) (r : Request) (raise : Handler → Bool) : EventLoop J :=
  match r with
  | .notifier => { w with requests := w.requests.erase .notifier, ntfEvt := w.ntfEvt.map fun _ => 0 }.onNotify
  | .internalTimer => w.onTimer raise
  | .user n => { w with requests := w.requests.erase (.user n) }

-- The notifier can be read when it has been written.
def canComplete (w : EventLoop J) (r : Request) : Bool :=
  r ∈ w.requests ∧ (r = .notifier → ∃ count ∈ w.ntfEvt, 0 < count)

inductive Action (J : Type) where
  | openLoop (param : PollParam) (results : OpenResults)
  | addEvent (t : Nat) (h : Handler)
  | removeEvent (t : Nat) (h : Handler)
  | runInEventLoop (t : Nat) (job : Option (PendingFunc J))
  | stop (t : Nat)
  | startLoop (t : Nat)
  | submit (n : Nat)
  | complete (r : Request) (raise : Handler → Bool)
  | tick

-- The thread `t` can call a function of the loop.
def mayCall (w : EventLoop J) (t : Nat) : Bool :=
  some t ≠ w.threadId ∨ w.pc.inCallback

def step (w : EventLoop J) : Action J → EventLoop J
  | .openLoop param results => if w.pc = .outside then (w.openLoop param results).1 else w
  | .addEvent t h => if w.mayCall t then w.addEvent h else w
  | .removeEvent t h => if w.mayCall t then w.removeEvent h else w
  | .runInEventLoop t job => if w.mayCall t then (w.runInEventLoop t job).1 else w
  | .stop t => if w.mayCall t then w.stop else w
  | .startLoop t => if w.pc = .outside then w.startLoop t else w
  | .submit n => if w.pc.inCallback then { w with requests := w.requests ++ [.user n] } else w
  | .complete r raise =>
    match w.pc with
    | .dispatching _ =>
      if w.canComplete r then { w.complete r raise with pc := .dispatching true } else w
    | _ => w
  | .tick => w.tick

def run (w : EventLoop J) (as : List (Action J)) : EventLoop J :=
  as.foldl step w

end EventLoop

end Event
end Ezio
