import Lyslg.Timer.Model
/-!
# Event registration in the I/O manager

`iomanager.cc`: the contexts of descriptors, the operations that register and
remove events, and the body of the loop over ready events in `idle`.  The part
of an operation under `fd_ctx->mutex` is one step, on the context the operation
has looked up; the caller says whether `epoll_ctl` succeeds.  Contexts are named
in the order of their creation and are never freed.

A failed assertion, and a call through a null pointer, ends the process.
-/

namespace Lyslg

open Support.Machine

/-- `IoManager::Event`. -/
inductive IoEvent where
  | none
  | read
  | write
  deriving DecidableEq, Repr

def IoEvent.mask : IoEvent → BitVec 32
  | .none => 0x0
  | .read => 0x1
  | .write => 0x4

def epollIn : BitVec 32 := 0x1
def epollOut : BitVec 32 := 0x4
def epollErr : BitVec 32 := 0x8
def epollHup : BitVec 32 := 0x10
def epollEt : BitVec 32 := 1 <<< 31

/-- `EPOLL_CTL_ADD`, `EPOLL_CTL_MOD` and `EPOLL_CTL_DEL`. -/
inductive CtlOp where
  | add
  | mod
  | del
  deriving DecidableEq, Repr

/-- A call of `epoll_ctl` on `m_epfd`. -/
structure EpollCtl where
  op : CtlOp
  fd : Nat
  events : BitVec 32
  deriving DecidableEq, Repr

/-- What a scheduler runs. -/
inductive Work where
  | cb (cb : Callback)
  | fiber (fiber : Nat)
  deriving DecidableEq, Repr

/-- Where the process ends. -/
inductive IoAbort where
  /-- `event & events` in `triggerEvent` -/
  | notRegistered
  /-- `!(fd_ctx->events & event)` in `addEvent` -/
  | registered
  /-- the empty context in `addEvent` -/
  | contextInUse
  /-- `Fiber::EXEC` in `addEvent` -/
  | fiberState
  /-- `getContext` -/
  | getContext
  /-- `fd_ctx->events == 0` in `cancelAll` -/
  | eventsLeft
  /-- `ctx.scheduler->schedule` without a scheduler -/
  | nullScheduler
  /-- an index out of `m_fdContexts` -/
  | noContext
  /-- no room for another context -/
  | badAlloc
  deriving DecidableEq, Repr

/-- `FdContext::EventContext`. -/
structure EventContext where
  scheduler : Option Nat := none
  fiber : Option Nat := none
  cb : Option Callback := none
  deriving DecidableEq, Repr

/-- `struct FdContext`. -/
structure FdContext where
  read : EventContext := {}
  write : EventContext := {}
  fd : Nat := 0
  events : BitVec 32 := 0
  deriving DecidableEq, Repr

namespace FdContext

/-- `FdContext::getContext`. -/
def getContext (ctx : FdContext) : IoEvent → Except IoAbort EventContext
  | .read => .ok ctx.read
  | .write => .ok ctx.write
  | .none => .error .getContext

/-- Assign to the context that `getContext` returns. -/
def setContext (ctx : FdContext) (event : IoEvent) (eventCtx : EventContext) : FdContext :=
  match event with
  | .read => { ctx with read := eventCtx }
  | .write => { ctx with write := eventCtx }
  | .none => ctx

/-- `FdContext::resetContext`. -/
def resetContext (_eventCtx : EventContext) : EventContext := {}

/-- `ctx.scheduler->schedule(&ctx.cb)` or `(&ctx.fiber)`, which swaps the work out of the
context: what is pushed to the scheduler, and the context. -/
def schedule (eventCtx : EventContext) (scheduler : Nat) : List (Nat × Work) × EventContext :=
  match eventCtx.cb with
  | some cb => ([(scheduler, .cb cb)], { eventCtx with cb := none })
  | none => (eventCtx.fiber.toList.map fun fiber => (scheduler, .fiber fiber),
      { eventCtx with fiber := none })

/-- `FdContext::triggerEvent`: what it schedules, and the context after it. -/
def triggerEvent (ctx : FdContext) (event : IoEvent) :
    Except IoAbort (List (Nat × Work) × FdContext) :=
  if event.mask &&& ctx.events = 0 then .error .notRegistered
  else
    let ctx := { ctx with events := ctx.events &&& ~~~event.mask }
    match ctx.getContext event with
    | .error abort => .error abort
    | .ok eventCtx =>
        match eventCtx.scheduler with
        | none => .error .nullScheduler
        | some scheduler =>
            let (pushed, eventCtx) := schedule eventCtx scheduler
            .ok (pushed, ctx.setContext event { eventCtx with scheduler := none })

end FdContext

/-- The fields of `class IoManager`, and every context that was created. -/
structure IoManager where
  contexts : List FdContext
  /-- `m_fdContexts`, by the names of the contexts -/
  fdContexts : List Nat
  pendingEventCount : Nat
  deriving DecidableEq

/-- What `Scheduler::GetThis` and `Fiber::GetThis` say in the calling thread, and whether
the fiber is in state `EXEC`. -/
structure Caller where
  scheduler : Option Nat
  fiber : Nat
  executing : Bool

/-- What a step returns (a `bool` as 0 or 1), its call of `epoll_ctl`, and the work it
schedules with the event it belongs to. -/
structure IoOutcome where
  result : Int
  ctl : Option EpollCtl := none
  scheduled : List (IoEvent × Nat × Work) := []
  deriving DecidableEq, Repr

namespace IoManager

/-- `IoManager::contextResize`.  A context takes more than one byte of the address space. -/
def contextResize (m : IoManager) (size : Nat) : Except IoAbort IoManager :=
  let kept := m.fdContexts.take size
  let missing := List.range' kept.length (size - kept.length)
  let contexts : List FdContext := m.contexts ++ missing.map fun i => { fd := i }
  if contexts.length < 2 ^ 63 then
    .ok { m with
      contexts := contexts
      fdContexts := kept ++ List.range' m.contexts.length missing.length }
  else .error .badAlloc

/-- Before the constructor calls `contextResize(32)`. -/
def empty : IoManager where
  contexts := []
  fdContexts := []
  pendingEventCount := 0

/-- `fd_ctx`, which a step has locked. -/
def context (m : IoManager) (ctx : Nat) : Except IoAbort FdContext :=
  match m.contexts[ctx]? with
  | some fdCtx => .ok fdCtx
  | none => .error .noContext

def setFdContext (m : IoManager) (ctx : Nat) (fdCtx : FdContext) : IoManager :=
  { m with contexts := m.contexts.set ctx fdCtx }

/-- The locked part of `IoManager::addEvent`. -/
def addEvent (m : IoManager) (ctx : Nat) (event : IoEvent) (cb : Option Callback)
    (caller : Caller) (success : Bool) : Except IoAbort (IoOutcome × IoManager) := do
  let fdCtx ← m.context ctx
  if fdCtx.events &&& event.mask ≠ 0 then .error .registered
  else
    let ctl : EpollCtl :=
      { op := if fdCtx.events ≠ 0 then .mod else .add
        fd := fdCtx.fd
        events := epollEt ||| fdCtx.events ||| event.mask }
    if !success then .ok ({ result := -1, ctl := ctl }, m)
    else
      let m := { m with pendingEventCount := addSize m.pendingEventCount 1 }
      let fdCtx := { fdCtx with events := fdCtx.events ||| event.mask }
      let eventCtx ← fdCtx.getContext event
      if eventCtx.scheduler.isSome || eventCtx.fiber.isSome || eventCtx.cb.isSome then
        .error .contextInUse
      else
        let eventCtx := { eventCtx with scheduler := caller.scheduler }
        match cb with
        | some cb =>
            .ok ({ result := 0, ctl := ctl },
              m.setFdContext ctx (fdCtx.setContext event { eventCtx with cb := some cb }))
        | none =>
            if !caller.executing then .error .fiberState
            else .ok ({ result := 0, ctl := ctl }, m.setFdContext ctx
              (fdCtx.setContext event { eventCtx with fiber := some caller.fiber }))

/-- The call of `epoll_ctl` that leaves `events` registered. -/
def leave (fdCtx : FdContext) (events : BitVec 32) : EpollCtl where
  op := if events ≠ 0 then .mod else .del
  fd := fdCtx.fd
  events := epollEt ||| events

/-- The locked part of `IoManager::delEvent`. -/
def delEvent (m : IoManager) (ctx : Nat) (event : IoEvent) (success : Bool) :
    Except IoAbort (IoOutcome × IoManager) := do
  let fdCtx ← m.context ctx
  if fdCtx.events &&& event.mask = 0 then .ok ({ result := 0 }, m)
  else
    let newEvents := fdCtx.events &&& ~~~event.mask
    let ctl := leave fdCtx newEvents
    if !success then .ok ({ result := 0, ctl := ctl }, m)
    else
      let m := { m with pendingEventCount := subSize m.pendingEventCount 1 }
      let fdCtx := { fdCtx with events := newEvents }
      let eventCtx ← fdCtx.getContext event
      .ok ({ result := 1, ctl := ctl },
        m.setFdContext ctx (fdCtx.setContext event (FdContext.resetContext eventCtx)))

/-- `fd_ctx->triggerEvent(event); --m_pendingEventCount;` -/
def trigger (m : IoManager) (ctx : Nat) (event : IoEvent) :
    Except IoAbort (List (IoEvent × Nat × Work) × IoManager) := do
  let fdCtx ← m.context ctx
  let (pushed, fdCtx) ← fdCtx.triggerEvent event
  .ok (pushed.map fun work => (event, work),
    { m.setFdContext ctx fdCtx with pendingEventCount := subSize m.pendingEventCount 1 })

/-- The same under a condition. -/
def triggerIf (m : IoManager) (ctx : Nat) (event : IoEvent) (test : Bool) :
    Except IoAbort (List (IoEvent × Nat × Work) × IoManager) :=
  if test then m.trigger ctx event else .ok ([], m)

/-- The locked part of `IoManager::cancelEvent`. -/
def cancelEvent (m : IoManager) (ctx : Nat) (event : IoEvent) (success : Bool) :
    Except IoAbort (IoOutcome × IoManager) := do
  let fdCtx ← m.context ctx
  if fdCtx.events &&& event.mask = 0 then .ok ({ result := 0 }, m)
  else
    let ctl := leave fdCtx (fdCtx.events &&& ~~~event.mask)
    if !success then .ok ({ result := 0, ctl := ctl }, m)
    else
      let (scheduled, m) ← m.trigger ctx event
      .ok ({ result := 1, ctl := ctl, scheduled := scheduled }, m)

/-- The locked part of `IoManager::cancelAll`. -/
def cancelAll (m : IoManager) (ctx : Nat) (success : Bool) :
    Except IoAbort (IoOutcome × IoManager) := do
  let fdCtx ← m.context ctx
  if fdCtx.events = 0 then .ok ({ result := 0 }, m)
  else
    let ctl : EpollCtl := { op := .del, fd := fdCtx.fd, events := 0 }
    if !success then .ok ({ result := 0, ctl := ctl }, m)
    else
      let (reads, m) ← m.triggerIf ctx .read (fdCtx.events &&& IoEvent.read.mask ≠ 0)
      let fdCtx ← m.context ctx
      let (writes, m) ← m.triggerIf ctx .write (fdCtx.events &&& IoEvent.write.mask ≠ 0)
      let fdCtx ← m.context ctx
      if fdCtx.events ≠ 0 then .error .eventsLeft
      else .ok ({ result := 1, ctl := ctl, scheduled := reads ++ writes }, m)

/-- The events `epoll_wait` reports, with errors and hang-ups for both. -/
def widen (reported : BitVec 32) : BitVec 32 :=
  if reported &&& (epollErr ||| epollHup) ≠ 0 then reported ||| (epollIn ||| epollOut)
  else reported

/-- `real_events` in `IoManager::idle`. -/
def realEvents (reported : BitVec 32) : BitVec 32 :=
  (if widen reported &&& epollIn ≠ 0 then IoEvent.read.mask else IoEvent.none.mask) |||
    (if widen reported &&& epollOut ≠ 0 then IoEvent.write.mask else IoEvent.none.mask)

/-- The body of the loop in `IoManager::idle`, for an event on a context. -/
def dispatch (m : IoManager) (ctx : Nat) (reported : BitVec 32) (success : Bool) :
    Except IoAbort (IoOutcome × IoManager) := do
  let fdCtx ← m.context ctx
  let real := realEvents reported
  if fdCtx.events &&& real = IoEvent.none.mask then .ok ({ result := 0 }, m)
  else
    let ctl := leave fdCtx (fdCtx.events &&& ~~~real)
    if !success then .ok ({ result := 0, ctl := ctl }, m)
    else
      let (reads, m) ← m.triggerIf ctx .read (real &&& IoEvent.read.mask ≠ 0)
      let (writes, m) ← m.triggerIf ctx .write (real &&& IoEvent.write.mask ≠ 0)
      .ok ({ result := 0, ctl := ctl, scheduled := reads ++ writes }, m)

/-! ## The table of contexts

Descriptors are not negative. -/

/-- The lookup of a descriptor under the read lock of `m_mutex`.  The size is converted to
`int` for the test. -/
def lookup (m : IoManager) (fd : Nat) : Option Nat :=
  m.fdContexts[fd]?.filter fun _ => (fd : Int) < int32 m.fdContexts.length

/-- What `addEvent` does under the write lock: `fd * 1.5` is truncated. -/
def grow (m : IoManager) (fd : Nat) : Except IoAbort (Nat × IoManager) := do
  let m ← m.contextResize (fd * 3 / 2)
  match m.fdContexts[fd]? with
  | some ctx => .ok (ctx, m)
  | none => .error .noContext

/-! ## Calls for a descriptor

The sections of a call when no other thread gets in between. -/

/-- `IoManager::addEvent`. -/
def callAddEvent (m : IoManager) (fd : Nat) (event : IoEvent) (cb : Option Callback)
    (caller : Caller) (success : Bool) : Except IoAbort (IoOutcome × IoManager) :=
  match m.lookup fd with
  | some ctx => m.addEvent ctx event cb caller success
  | none => do
      let (ctx, m) ← m.grow fd
      m.addEvent ctx event cb caller success

/-- The other operations return `false` for a descriptor without a context. -/
def callOn (m : IoManager) (fd : Nat)
    (locked : Nat → Except IoAbort (IoOutcome × IoManager)) :
    Except IoAbort (IoOutcome × IoManager) :=
  match m.lookup fd with
  | some ctx => locked ctx
  | none => .ok ({ result := 0 }, m)

/-- `IoManager::delEvent`. -/
def callDelEvent (m : IoManager) (fd : Nat) (event : IoEvent) (success : Bool) :
    Except IoAbort (IoOutcome × IoManager) :=
  m.callOn fd fun ctx => m.delEvent ctx event success

/-- `IoManager::cancelEvent`. -/
def callCancelEvent (m : IoManager) (fd : Nat) (event : IoEvent) (success : Bool) :
    Except IoAbort (IoOutcome × IoManager) :=
  m.callOn fd fun ctx => m.cancelEvent ctx event success

/-- `IoManager::cancelAll`. -/
def callCancelAll (m : IoManager) (fd : Nat) (success : Bool) :
    Except IoAbort (IoOutcome × IoManager) :=
  m.callOn fd fun ctx => m.cancelAll ctx success

end IoManager

/-! ## Steps -/

/-- A section of an operation.  `resize` is what `addEvent` and the constructor do under
`m_mutex`; the others are under `fd_ctx->mutex`. -/
inductive IoOp where
  | resize (size : Nat)
  | addEvent (ctx : Nat) (event : IoEvent) (cb : Option Callback) (caller : Caller)
      (success : Bool)
  | delEvent (ctx : Nat) (event : IoEvent) (success : Bool)
  | cancelEvent (ctx : Nat) (event : IoEvent) (success : Bool)
  | cancelAll (ctx : Nat) (success : Bool)
  | dispatch (ctx : Nat) (reported : BitVec 32) (success : Bool)

/-- Run a section. -/
def IoManager.exec (m : IoManager) : IoOp → Except IoAbort (IoOutcome × IoManager)
  | .resize size => (m.contextResize size).map fun m' => ({ result := 0 }, m')
  | .addEvent ctx event cb caller success => m.addEvent ctx event cb caller success
  | .delEvent ctx event success => m.delEvent ctx event success
  | .cancelEvent ctx event success => m.cancelEvent ctx event success
  | .cancelAll ctx success => m.cancelAll ctx success
  | .dispatch ctx reported success => m.dispatch ctx reported success

/-- `addEvent` is called from a thread of a scheduler. -/
def IoOp.Allowed : IoOp → Prop
  | .addEvent _ _ _ caller _ => caller.scheduler.isSome = true
  | _ => True

/-- One section of a run in which no assertion fails. -/
def IoManager.Step (m : IoManager) (label : IoOp × IoOutcome) (m' : IoManager) : Prop :=
  label.1.Allowed ∧ m.exec label.1 = .ok (label.2, m')

instance : (op : IoOp) → Decidable op.Allowed
  | .addEvent _ _ _ caller _ => inferInstanceAs (Decidable (caller.scheduler.isSome = true))
  | .resize _ => .isTrue trivial
  | .delEvent _ _ _ => .isTrue trivial
  | .cancelEvent _ _ _ => .isTrue trivial
  | .cancelAll _ _ => .isTrue trivial
  | .dispatch _ _ _ => .isTrue trivial

/-- The manager after a step with a given outcome. -/
def IoManager.step (m : IoManager) (label : IoOp × IoOutcome) : Option IoManager :=
  (m.exec label.1).toOption.bind fun after =>
    if label.1.Allowed ∧ after.1 = label.2 then some after.2 else none

theorem IoManager.step_some {m m' : IoManager} {label : IoOp × IoOutcome}
    (h : m.step label = some m') : m.Step label m' := by
  obtain ⟨⟨outcome, m₁⟩, hexec, hstep⟩ := Option.bind_eq_some_iff.mp h
  split_ifs at hstep with hboth
  obtain rfl := Option.some.inj hstep
  refine ⟨hboth.1, ?_⟩
  cases hresult : m.exec label.1 with
  | error abort =>
      rw [hresult] at hexec
      cases hexec
  | ok after =>
      rw [hresult] at hexec
      obtain rfl := Option.some.inj hexec
      rw [← hboth.2]

end Lyslg
