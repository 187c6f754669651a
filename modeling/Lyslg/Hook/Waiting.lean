import Lyslg.IoManager.Delivery
/-!
# Calls that wait

`do_io` and `connect_with_timeout` to their end, on any number of fibers, with the
timers they arm and the sections of the `IoManager` they use.  Each step is taken to run
without another thread coming in between; a callback of a timer has two of them, the
test of `cancelled` with the assignment to it, and `cancelEvent`.  That nobody comes between
this test and the assignment, which are two accesses in `hook.cc`, is an assumption.

The steps of other threads are the other sections of the manager (`close` is
`cancelAll`).  Only these calls register events, and nothing calls `delEvent`.
Descriptors are named by their contexts.  A call that is interrupted starts over, and
is left where it is.
-/

namespace Lyslg

open Support Support.Machine

/-- `do_io`, or `connect_with_timeout`. -/
inductive WaitKind where
  | io | connect
  deriving DecidableEq, Repr

/-- What a call returns: what the original function said (or `SO_ERROR`), -1 because
`addEvent` failed, or -1 with `ETIMEDOUT`. -/
inductive WaitResult where
  | original | refused | timedOut
  deriving DecidableEq, Repr

/-- Where a fiber is in its call; `timer` is the local variable. -/
inductive WaitPc where
  | idle
  /-- before the original function -/
  | trying
  /-- it would have to wait -/
  | arming
  /-- before `addEvent` -/
  | adding (timer : Option Nat)
  /-- `addEvent` failed -/
  | refused (timer : Option Nat)
  /-- registered, to the end of `YieldToHold` -/
  | parked (timer : Option Nat)
  /-- before `timer->cancel()` -/
  | woken (timer : Option Nat)
  /-- before the test of `tinfo->cancelled` -/
  | checking
  /-- before `getsockopt` -/
  | asking
  | returned (result : WaitResult)
  deriving DecidableEq, Repr

namespace WaitPc

def timer : WaitPc → Option Nat
  | adding timer | refused timer | parked timer | woken timer => timer
  | _ => none

/-- `timer` was assigned. -/
def armed : WaitPc → Bool
  | adding _ | refused _ | parked _ | woken _ => true
  | _ => false

def isParked : WaitPc → Bool
  | parked _ => true
  | _ => false

def inProgress : WaitPc → Bool
  | idle | returned _ => false
  | _ => true

end WaitPc

/-- The arguments of a call and its local variables. -/
structure WaitCall where
  kind : WaitKind := .io
  ctx : Nat := 0
  event : IoEvent := .none
  /-- the timeout is not `(uint64_t)-1` -/
  timed : Bool := false
  /-- `tinfo` -/
  info : Nat := 0
  pc : WaitPc := .idle
  deriving DecidableEq, Repr

/-- A `timer_info`, while somebody shares it. -/
structure TimerInfo where
  alive : Bool := false
  cancelled : Bool := false
  deriving DecidableEq, Repr

inductive TimerPhase where
  | armed
  /-- by `cancel` -/
  | cancelled
  /-- its callback was handed to the scheduler -/
  | expired
  /-- the callback is before `cancelEvent` -/
  | firing
  /-- the callback returned -/
  | over
  deriving DecidableEq, Repr

/-- A condition timer and what its callback captured. -/
structure CondTimer where
  info : Nat := 0
  ctx : Nat := 0
  event : IoEvent := .none
  phase : TimerPhase := .over
  deriving DecidableEq, Repr

/-- The calls of all fibers. -/
structure Waits where
  iom : IoManager := .empty
  calls : Nat → WaitCall := fun _ => {}
  infos : Nat → TimerInfo := fun _ => {}
  infoCount : Nat := 0
  timers : Nat → CondTimer := fun _ => {}
  timerCount : Nat := 0
  /-- the fibers that were scheduled and not yet resumed -/
  scheduled : List Nat := []

inductive WaitStep where
  | start (f : Nat) (kind : WaitKind) (ctx : Nat) (event : IoEvent) (timed : Bool)
  /-- the original function returns; `again` for `EAGAIN` and `EINPROGRESS` -/
  | attempt (f : Nat) (again : Bool)
  | arm (f : Nat)
  | addEvent (f : Nat) (success : Bool)
  | resume (f : Nat)
  | cancelTimer (f : Nat)
  | check (f : Nat)
  | ask (f : Nat)
  | expire (k : Nat)
  | callback (k : Nat)
  | cancelEvent (k : Nat) (success : Bool)
  | io (op : IoOp)

/-- A section of somebody who waits for nothing. -/
def IoOp.external : IoOp → Bool
  | .addEvent _ _ _ _ _ | .delEvent _ _ _ => false
  | _ => true

/-- The fiber of a registration. -/
def Work.fiber? : Work → Option Nat
  | .fiber f => some f
  | .cb _ => none

namespace Waits

def goto (s : Waits) (f : Nat) (pc : WaitPc) : Waits :=
  { s with calls := Function.update s.calls f { s.calls f with pc := pc } }

def setPhase (s : Waits) (k : Nat) (phase : TimerPhase) : Waits :=
  { s with timers := Function.update s.timers k { s.timers k with phase := phase } }

def setInfo (s : Waits) (i : Nat) (info : TimerInfo) : Waits :=
  { s with infos := Function.update s.infos i info }

/-- The call returns, and `tinfo` goes with it. -/
def finish (s : Waits) (f : Nat) (result : WaitResult) : Waits :=
  (s.setInfo (s.calls f).info { s.infos (s.calls f).info with alive := false }).goto f
    (.returned result)

/-- A section of the manager: its result, and who is scheduled. -/
def exec (s : Waits) (op : IoOp) : Option (Int × Waits) :=
  match s.iom.exec op with
  | .error _ => none
  | .ok (outcome, iom) =>
      some (outcome.result, { s with
        iom := iom
        scheduled := s.scheduled ++ outcome.scheduled.filterMap fun d => d.2.2.fiber? })

/-- `iom->addEvent(fd, event)` on fiber `f`. -/
def addOp (s : Waits) (f : Nat) (success : Bool) : IoOp :=
  .addEvent (s.calls f).ctx (s.calls f).event none
    { scheduler := some 0, fiber := f, executing := true } success

/-- `addCondictionTimer`, unless there is no timeout. -/
def arm (s : Waits) (f : Nat) : Waits :=
  let call := s.calls f
  if call.timed then
    { s with
      timers := Function.update s.timers s.timerCount
        { info := call.info, ctx := call.ctx, event := call.event, phase := .armed }
      timerCount := s.timerCount + 1 }.goto f (.adding (some s.timerCount))
  else s.goto f (.adding none)

/-- `if(timer) timer->cancel();` -/
def cancelTimer (s : Waits) : Option Nat → Waits
  | some k => if (s.timers k).phase = .armed then s.setPhase k .cancelled else s
  | none => s

/-- The callback of a timer, to the assignment. -/
def callback (s : Waits) (k : Nat) : Waits :=
  let info := s.infos (s.timers k).info
  if !info.alive || info.cancelled then s.setPhase k .over
  else (s.setInfo (s.timers k).info { info with cancelled := true }).setPhase k .firing

def step (s : Waits) (label : WaitStep) : Option Waits :=
  match label with
  | .start f kind ctx event timed =>
      if (s.calls f).pc.inProgress = false ∧ event ≠ .none then
        some { s with
          calls := Function.update s.calls f
            { kind := kind, ctx := ctx, event := event, timed := timed, info := s.infoCount,
              pc := .trying }
          infos := Function.update s.infos s.infoCount { alive := true }
          infoCount := s.infoCount + 1 }
      else none
  | .attempt f again =>
      if (s.calls f).pc = .trying then
        some (if again then s.goto f .arming else s.finish f .original)
      else none
  | .arm f => if (s.calls f).pc = .arming then some (s.arm f) else none
  | .addEvent f success =>
      match (s.calls f).pc with
      | .adding timer =>
          (s.exec (s.addOp f success)).map fun (rt, s) =>
            s.goto f (if rt = 0 then .parked timer else .refused timer)
      | _ => none
  | .resume f =>
      match (s.calls f).pc with
      | .parked timer =>
          if f ∈ s.scheduled then
            some ({ s with scheduled := s.scheduled.erase f }.goto f (.woken timer))
          else none
      | _ => none
  | .cancelTimer f =>
      match (s.calls f).pc with
      | .woken timer => some ((s.cancelTimer timer).goto f .checking)
      | .refused timer =>
          -- `connect_with_timeout` goes on to `getsockopt`
          some (match (s.calls f).kind with
            | .io => (s.cancelTimer timer).finish f .refused
            | .connect => (s.cancelTimer timer).goto f .asking)
      | _ => none
  | .check f =>
      if (s.calls f).pc = .checking then
        some (if (s.infos (s.calls f).info).cancelled then s.finish f .timedOut
          else s.goto f (match (s.calls f).kind with
            | .io => .trying
            | .connect => .asking))
      else none
  | .ask f => if (s.calls f).pc = .asking then some (s.finish f .original) else none
  | .expire k => if (s.timers k).phase = .armed then some (s.setPhase k .expired) else none
  | .callback k => if (s.timers k).phase = .expired then some (s.callback k) else none
  | .cancelEvent k success =>
      if (s.timers k).phase = .firing then
        (s.exec (.cancelEvent (s.timers k).ctx (s.timers k).event success)).map fun (_, s) =>
          s.setPhase k .over
      else none
  | .io op => if op.external then (s.exec op).map Prod.snd else none

def Step (s : Waits) (label : WaitStep) (s' : Waits) : Prop := s.step label = some s'

end Waits

end Lyslg
