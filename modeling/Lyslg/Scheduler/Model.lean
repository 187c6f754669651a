import Lyslg.Support.Machine
import Lyslg.Timer.Model
import Mathlib.Data.Finset.Basic
/-!
# The fiber scheduler

`Scheduler::run` on any number of threads, with the fibers it resumes.  A thread is
at a point of the loop of `run`, or in the code of the fiber that it resumed; between
two points it does one locked section, one test of `m_state`, one assignment to it or
one half of a context switch, and any other thread may come in between.

Fibers are named by their creation number, and a thread by what `GetThreadId` returns
on it.  A failed assertion has no result.  `tickle` only interrupts waiting threads
and is left out, and so are the descriptors that fibers wait for; `idle` is that of
the base class.
-/

namespace Lyslg

open Support.Machine

/-- `Fiber::State`. -/
inductive FiberState where
  | init | hold | exec | term | ready | except
  deriving DecidableEq, Repr

/-- `m_state` and `m_cb` of a fiber. -/
structure Fiber where
  state : FiberState := .init
  cb : Option Callback := none
  deriving DecidableEq, Repr

/-- `Fiber::reset`. -/
def Fiber.reset (fiber : Fiber) (cb : Option Callback) : Option Fiber :=
  if fiber.state = .term ∨ fiber.state = .except ∨ fiber.state = .init then
    some { state := .init, cb := cb }
  else none

/-- A task in `m_fibers`. -/
structure FiberAndThread where
  fiber : Option Nat := none
  cb : Option Callback := none
  thread : Int := -1
  deriving DecidableEq, Repr

/-- `ft.fiber || ft.cb`. -/
def FiberAndThread.nonempty (ft : FiberAndThread) : Bool :=
  ft.fiber.isSome || ft.cb.isSome

/-- What `schedule` accepts: a possibly null pointer to a fiber, or a callback. -/
inductive FiberOrCb where
  | fiber (f : Option Nat)
  | cb (c : Option Callback)
  deriving DecidableEq, Repr

/-- `FiberAndThread ft(fc, thread)`. -/
def FiberOrCb.toTask (thread : Int) : FiberOrCb → FiberAndThread
  | .fiber f => { fiber := f, thread := thread }
  | .cb c => { cb := c, thread := thread }

/-- Which branch of `run` resumed a fiber: that of `ft.fiber` or that of `cb_fiber`. -/
inductive Branch where
  | fiber | cb
  deriving DecidableEq, Repr

/-- Where a thread is in `run`, or in the fiber that it resumed. -/
inductive Pc where
  /-- before the locked section -/
  | top
  /-- `ft` was taken from the queue -/
  | picked (ft : FiberAndThread)
  /-- before `cb_fiber` gets the callback of `ft` -/
  | binding (c : Callback) (thread : Int)
  /-- `swapIn`: before the assertion, before `m_state = EXEC`, before `swapcontext` -/
  | swapIn (b : Branch) (f : Nat)
  | storeExec (b : Branch) (f : Nat)
  | switchIn (b : Branch) (f : Nat)
  /-- in the code of the fiber -/
  | running (b : Branch) (f : Nat)
  /-- `swapOut`: before `swapcontext` -/
  | switchOut (b : Branch) (f : Nat)
  /-- before the decrement, then before the test of `m_state` -/
  | returned (b : Branch) (f : Nat)
  | after (b : Branch) (f : Nat)
  /-- before `schedule` of a fiber that yielded -/
  | requeue (b : Branch) (f : Nat)
  /-- before `m_state = HOLD` -/
  | holding (b : Branch) (f : Nat)
  /-- before `cb_fiber->reset(nullptr)` -/
  | clearing (f : Nat)
  /-- `is_active` with nothing to run -/
  | dropped
  /-- no task was taken; then in the idle fiber, and back from it -/
  | nothing
  | idling
  | idleBack
  | exited
  deriving DecidableEq, Repr

/-- The local variables of `run` that outlive one turn of the loop. -/
structure Worker where
  pc : Pc := .top
  cbFiber : Option Nat := none
  /-- the idle fiber is in state `TERM` -/
  idleTerm : Bool := false
  deriving DecidableEq, Repr

/-- The threads that execute `run`; a `pid_t` is an `int`. -/
structure Pool where
  ids : Finset Nat
  isInt : ∀ t ∈ ids, t < 2 ^ 31

structure Scheduler where
  /-- `m_fibers` -/
  fibers : List FiberAndThread := []
  activeThreadCount : Nat := 0
  idleThreadCount : Nat := 0
  autoStop : Bool := false
  /-- `m_stopping` -/
  stoppingFlag : Bool := false
  heap : Nat → Fiber := fun _ => {}
  /-- how many fibers were created so far -/
  created : Nat := 0
  /-- the fibers that wait for an event or a timer -/
  registered : List Nat := []
  workers : Nat → Worker := fun _ => {}

/-- A step of the scheduler, of its callers or of the code in a fiber. -/
inductive SchedCall where
  | newFiber (cb : Option Callback)
  | schedule (fc : FiberOrCb) (thread : Int)
  | scheduleRange (fcs : List FiberOrCb)
  /-- an event, its cancellation or a timer schedules a fiber that waits for it -/
  | trigger (f : Nat)
  | stop
  /-- thread `t` takes its next step in `run`, `swapIn` or `swapOut` -/
  | advance (t : Nat)
  /-- what the fiber on thread `t` does -/
  | addEvent (t : Nat)
  | addTimer (t : Nat)
  | yieldToHold (t : Nat)
  | yieldToReady (t : Nat)
  | finish (t : Nat)
  | throw (t : Nat)
  deriving DecidableEq, Repr

/-- The thread that takes the step. -/
def SchedCall.thread : SchedCall → Option Nat
  | .advance t | .addEvent t | .addTimer t | .yieldToHold t | .yieldToReady t | .finish t
  | .throw t => some t
  | .newFiber _ | .schedule _ _ | .scheduleRange _ | .trigger _ | .stop => none

namespace Scheduler

/-! ## Assignments -/

def setWorker (s : Scheduler) (t : Nat) (w : Worker) : Scheduler :=
  { s with workers := Function.update s.workers t w }

def goto (s : Scheduler) (t : Nat) (pc : Pc) : Scheduler :=
  s.setWorker t { s.workers t with pc := pc }

/-- Go on after the branch that resumed a fiber; the callback branch also lets go of
`cb_fiber`. -/
def leave (s : Scheduler) (t : Nat) : Branch → Scheduler
  | .fiber => s.goto t .top
  | .cb => s.setWorker t { s.workers t with pc := .top, cbFiber := none }

def setFiber (s : Scheduler) (f : Nat) (fiber : Fiber) : Scheduler :=
  { s with heap := Function.update s.heap f fiber }

/-- `m_state = state`. -/
def setState (s : Scheduler) (f : Nat) (state : FiberState) : Scheduler :=
  s.setFiber f { s.heap f with state := state }

/-! ## The queue -/

/-- `Scheduler::scheduleNoLock`. -/
def scheduleNoLock (s : Scheduler) (fc : FiberOrCb) (thread : Int) : Scheduler :=
  let ft := fc.toTask thread
  if ft.nonempty then { s with fibers := s.fibers ++ [ft] } else s

/-- `Scheduler::schedule(begin, end)`. -/
def scheduleRange (s : Scheduler) (fcs : List FiberOrCb) : Scheduler :=
  fcs.foldl (fun s fc => s.scheduleNoLock fc (-1)) s

/-- The loop over `m_fibers` on thread `t`: what it takes, and what is left. -/
def pickLoop (heap : Nat → Fiber) (t : Nat) :
    List FiberAndThread → Option (Option FiberAndThread × List FiberAndThread)
  | [] => some (none, [])
  | it :: rest =>
      if it.thread ≠ -1 ∧ it.thread ≠ t then
        (pickLoop heap t rest).map fun (ft, left) => (ft, it :: left)
      else if !it.nonempty then none
      else if it.fiber.any fun f => (heap f).state = .exec then
        (pickLoop heap t rest).map fun (ft, left) => (ft, it :: left)
      else some (some it, rest)

/-- `Scheduler::stopping`. -/
def stopping (s : Scheduler) : Bool :=
  s.autoStop && s.stoppingFlag && s.fibers.isEmpty && s.activeThreadCount == 0

/-! ## `Scheduler::run` -/

/-- The locked section. -/
def pick (s : Scheduler) (t : Nat) : Option Scheduler :=
  match pickLoop s.heap t s.fibers with
  | none => none
  | some (none, left) => some ({ s with fibers := left }.goto t .nothing)
  | some (some ft, left) =>
      some ({ s with
        fibers := left
        activeThreadCount := addSize s.activeThreadCount 1 }.goto t (.picked ft))

/-- The choice between the three branches. -/
def choose (s : Scheduler) (t : Nat) (ft : FiberAndThread) : Scheduler :=
  match ft.fiber.filter fun f => (s.heap f).state ≠ .term ∧ (s.heap f).state ≠ .except with
  | some f => s.goto t (.swapIn .fiber f)
  | none =>
      match ft.cb with
      | some c => s.goto t (.binding c ft.thread)
      | none => s.goto t .dropped

/-- `cb_fiber` gets the callback. -/
def bindCb (s : Scheduler) (t : Nat) (c : Callback) : Option Scheduler :=
  match (s.workers t).cbFiber with
  | some f =>
      ((s.heap f).reset (some c)).map fun fiber =>
        (s.setFiber f fiber).goto t (.swapIn .cb f)
  | none =>
      some (({ s with created := s.created + 1 }.setFiber s.created { cb := some c }).setWorker t
        { s.workers t with pc := .swapIn .cb s.created, cbFiber := some s.created })

/-- What is done with a fiber that came back. -/
def afterSwap (s : Scheduler) (t : Nat) (b : Branch) (f : Nat) : Scheduler :=
  match (s.heap f).state, b with
  | .ready, b => s.goto t (.requeue b f)
  | .term, .fiber => s.goto t .top
  | .except, .fiber => s.goto t .top
  | .term, .cb => s.goto t (.clearing f)
  | .except, .cb => s.goto t (.clearing f)
  | _, b => s.goto t (.holding b f)

/-- The next step of thread `t` outside the code of a fiber. -/
def advance (s : Scheduler) (t : Nat) : Option Scheduler :=
  match (s.workers t).pc with
  | .top => s.pick t
  | .picked ft => some (s.choose t ft)
  | .binding c _ => s.bindCb t c
  | .swapIn b f => if (s.heap f).state = .exec then none else some (s.goto t (.storeExec b f))
  | .storeExec b f => some ((s.setState f .exec).goto t (.switchIn b f))
  | .switchIn b f => some (s.goto t (.running b f))
  | .running _ _ => none
  | .switchOut b f => some (s.goto t (.returned b f))
  | .returned b f =>
      some ({ s with activeThreadCount := subSize s.activeThreadCount 1 }.goto t (.after b f))
  | .after b f => some (s.afterSwap t b f)
  | .requeue b f => some ((s.scheduleNoLock (.fiber (some f)) (-1)).leave t b)
  | .holding b f => some ((s.setState f .hold).leave t b)
  | .clearing f =>
      ((s.heap f).reset none).map fun fiber => (s.setFiber f fiber).goto t .top
  | .dropped =>
      some ({ s with activeThreadCount := subSize s.activeThreadCount 1 }.goto t .top)
  | .nothing =>
      if (s.workers t).idleTerm then some (s.goto t .exited)
      else some ({ s with idleThreadCount := addSize s.idleThreadCount 1 }.goto t .idling)
  | .idling =>
      -- the idle fiber yields, or returns once `stopping()` is true
      some (s.setWorker t
        { s.workers t with pc := .idleBack, idleTerm := s.stopping })
  | .idleBack =>
      some ({ s with idleThreadCount := subSize s.idleThreadCount 1 }.goto t .top)
  | .exited => none

/-! ## The code in a fiber -/

/-- Assign `m_state` of the fiber on thread `t` and enter `swapOut`. -/
def yieldTo (s : Scheduler) (t : Nat) (state : FiberState) : Option Scheduler :=
  match (s.workers t).pc with
  | .running b f => some ((s.setState f state).goto t (.switchOut b f))
  | _ => none

/-- The end of `MainFunc`; `m_cb` is cleared unless the callback threw. -/
def mainFuncEnd (s : Scheduler) (t : Nat) (threw : Bool) : Option Scheduler :=
  match (s.workers t).pc with
  | .running b f =>
      let fiber : Fiber :=
        if threw then { s.heap f with state := .except } else { state := .term, cb := none }
      some ((s.setFiber f fiber).goto t (.switchOut b f))
  | _ => none

/-- The fiber on thread `t` is registered for an event or a timer. -/
def register (s : Scheduler) (t : Nat) : Option Scheduler :=
  match (s.workers t).pc with
  | .running _ f => some { s with registered := f :: s.registered }
  | _ => none

/-- `IoManager::addEvent` without a callback, with its assertion that the fiber is in state
`EXEC`; the other two are about the descriptor, which is left out here. -/
def addEvent (s : Scheduler) (t : Nat) : Option Scheduler :=
  match (s.workers t).pc with
  | .running _ f => if (s.heap f).state = .exec then s.register t else none
  | _ => none

/-! ## All steps -/

/-- The fibers among `fcs` were created. -/
def known (s : Scheduler) (fcs : List FiberOrCb) : Bool :=
  fcs.all fun
    | .fiber (some f) => f < s.created
    | _ => true

/-- One step on the threads of `pool`. -/
def step (pool : Pool) (s : Scheduler) (call : SchedCall) : Option Scheduler :=
  if call.thread.all fun t => t ∈ pool.ids then
    match call with
    | .newFiber cb =>
        some ({ s with created := s.created + 1 }.setFiber s.created { cb := cb })
    | .schedule fc thread =>
        if s.known [fc] then some (s.scheduleNoLock fc thread) else none
    | .scheduleRange fcs => if s.known fcs then some (s.scheduleRange fcs) else none
    | .trigger f =>
        if f ∈ s.registered then
          some ({ s with registered := s.registered.erase f }.scheduleNoLock
            (.fiber (some f)) (-1))
        else none
    | .stop => some { s with autoStop := true, stoppingFlag := true }
    | .advance t => s.advance t
    | .addEvent t => s.addEvent t
    | .addTimer t => s.register t
    | .yieldToHold t => s.yieldTo t .hold
    | .yieldToReady t => s.yieldTo t .ready
    | .finish t => s.mainFuncEnd t false
    | .throw t => s.mainFuncEnd t true
  else none

end Scheduler

end Lyslg
