import Lyslg.Hook.FdManager
import Lyslg.Timer.Model
/-!
# The hooked calls

`hook.cc` on the descriptors of one process: the file status flags, the timeouts of
sockets, and the calls that wait with a timer.  A call that may wait is modelled up to
the point where the fiber is suspended for the first time; `YieldToHold` comes next.

The caller says what the original function does: `success` for a call that may be
refused, `again` for one that would have to wait.  New timers lie at `addr` and run
`cb`; `now` is what the clock says.
-/

namespace Lyslg

open Support.Machine

/-- What the hooks work on. -/
structure Process where
  fds : FdManager
  kernel : Kernel
  timers : TimerManager

/-- `struct timeval`. -/
structure Timeval where
  sec : Int
  usec : Int
  deriving DecidableEq, Repr

/-- How far a hooked call gets. -/
inductive HookOutcome where
  /-- it returns what the original function returned -/
  | original
  /-- it returns -1 with `EBADF` -/
  | badFd
  /-- it suspends the fiber, with a timer or without -/
  | waits (timer : Option Nat)
  deriving DecidableEq, Repr

/-- Where a new timer lies, what it runs and when it was asked for. -/
structure TimerRequest where
  addr : Nat
  cb : Callback
  now : Nat

namespace Process

/-- `FdMgr::GetInstance()->get(fd)`, with its name. -/
def ctx (p : Process) (fd : Nat) : Option (Nat × FdCtx) :=
  (p.fds.find fd).bind fun name => p.fds.ctxs[name]?.map fun fdCtx => (name, fdCtx)

/-- The same for a context that is not closed and belongs to a socket. -/
def socketCtx (p : Process) (fd : Nat) : Option (Nat × FdCtx) :=
  (p.ctx fd).filter fun found => !found.2.isClosed && found.2.isSocket

/-- Assign to a context. -/
def updateCtx (p : Process) (name : Nat) (f : FdCtx → FdCtx) : Process :=
  { p with fds := p.fds.update name f }

/-! ## File status flags -/

/-- `fcntl_f(fd, F_SETFL, arg)`. -/
def sysSetfl (p : Process) (fd : Nat) (arg : BitVec 32) (success : Bool) : Int × Process :=
  if success then (0, { p with kernel := p.kernel.setfl fd arg }) else (-1, p)

/-- `fcntl(fd, F_SETFL, arg)`. -/
def fcntlSetfl (p : Process) (fd : Nat) (arg : BitVec 32) (success : Bool) : Int × Process :=
  match p.socketCtx fd with
  | none => p.sysSetfl fd arg success
  | some (name, fdCtx) =>
      let p := p.updateCtx name fun c => c.setUserNonblock (arg &&& oNonblock ≠ 0)
      let arg := if fdCtx.sysNonblock then arg ||| oNonblock else arg &&& ~~~oNonblock
      p.sysSetfl fd arg success

/-- `fcntl(fd, F_GETFL)`. -/
def fcntlGetfl (p : Process) (fd : Nat) : BitVec 32 :=
  let arg := p.kernel.flags fd
  match p.socketCtx fd with
  | none => arg
  | some (_, fdCtx) => if fdCtx.userNonblock then arg ||| oNonblock else arg &&& ~~~oNonblock

/-- `ioctl(fd, FIONBIO, &v)`. -/
def ioctlFionbio (p : Process) (fd : Nat) (v : Int) : Process :=
  let p :=
    match p.socketCtx fd with
    | none => p
    | some (name, _) => p.updateCtx name fun c => c.setUserNonblock (v ≠ 0)
  { p with kernel := p.kernel.fionbio fd (v ≠ 0) }

/-! ## Timeouts of sockets -/

/-- `setsockopt(fd, SOL_SOCKET, type, &tv, sizeof(tv))`. -/
def setsockopt (p : Process) (hookEnable : Bool) (fd : Nat) (type : TimeoutOpt) (tv : Timeval) :
    Process :=
  if !hookEnable then p
  else
    match p.ctx fd with
    | none => p
    | some (name, _) =>
        p.updateCtx name fun c => c.setTimerout type (sizeT (tv.sec * 1000 + tv.usec.tdiv 1000))

/-- `Socket::setRecvTimeout` and `Socket::setSendTimeout`. -/
def setTimeout (p : Process) (hookEnable : Bool) (fd : Nat) (type : TimeoutOpt) (v : Int) :
    Process :=
  p.setsockopt hookEnable fd type ⟨int32 (v.tdiv 1000), int32 (v.tmod 1000 * 1000)⟩

/-- `Socket::getRecvTimeout` and `Socket::getSendTimeout`. -/
def getTimeout (p : Process) (fd : Nat) (type : TimeoutOpt) : Int :=
  match p.ctx fd with
  | none => -1
  | some (_, fdCtx) => int64 (fdCtx.getTimerout type)

/-! ## Calls that wait -/

/-- `iom->addTimer`, which is a one-shot timer: its name. -/
def addTimer (p : Process) (ms : UInt16) (request : TimerRequest) : Nat × Process :=
  (p.timers.created, { p with
    timers := (p.timers.addTimer request.addr ms request.cb false request.now).2 })

/-- `iom->addCondictionTimer` for a `uint64_t`, which is converted to `uint16_t`. -/
def addCondictionTimer (p : Process) (ms : Nat) (request : TimerRequest) : Nat × Process :=
  p.addTimer (UInt16.ofNat ms) request

/-- Suspend the fiber, with a timer unless the timeout is `(uint64_t)-1`. -/
def wait (p : Process) (ms : Nat) (request : TimerRequest) : HookOutcome × Process :=
  if ms ≠ 2 ^ 64 - 1 then
    let (timer, p) := p.addCondictionTimer ms request
    (.waits (some timer), p)
  else (.waits none, p)

/-- `do_io`. -/
def doIo (p : Process) (hookEnable : Bool) (fd : Nat) (type : TimeoutOpt) (again : Bool)
    (request : TimerRequest) : HookOutcome × Process :=
  if !hookEnable then (.original, p)
  else
    match p.ctx fd with
    | none => (.original, p)
    | some (_, fdCtx) =>
        if fdCtx.isClosed then (.badFd, p)
        else if !fdCtx.isSocket || fdCtx.userNonblock then (.original, p)
        else if again then p.wait (fdCtx.getTimerout type) request
        else (.original, p)

/-- `connect_with_timeout`; `again` says that the connection is in progress. -/
def connectWithTimeout (p : Process) (hookEnable : Bool) (fd : Nat) (timeoutMs : Nat)
    (again : Bool) (request : TimerRequest) : HookOutcome × Process :=
  if !hookEnable then (.original, p)
  else
    match p.ctx fd with
    | none => (.badFd, p)
    | some (_, fdCtx) =>
        if fdCtx.isClosed then (.badFd, p)
        else if !fdCtx.isSocket || fdCtx.userNonblock then (.original, p)
        else if again then p.wait timeoutMs request
        else (.original, p)

/-- `sleep`. -/
def sleep (p : Process) (hookEnable : Bool) (seconds : UInt32) (request : TimerRequest) :
    HookOutcome × Process :=
  if !hookEnable then (.original, p)
  else
    let (timer, p) := p.addTimer (seconds * 1000).toUInt16 request
    (.waits (some timer), p)

/-- `usleep`. -/
def usleep (p : Process) (hookEnable : Bool) (usec : UInt32) (request : TimerRequest) :
    HookOutcome × Process :=
  if !hookEnable then (.original, p)
  else
    let (timer, p) := p.addTimer (usec / 1000).toUInt16 request
    (.waits (some timer), p)

/-- `do_io` takes the descriptor for non-blocking, and the original function may block. -/
def doIoBlocks (p : Process) (fd : Nat) : Bool :=
  (p.ctx fd).any fun found => !found.2.isClosed && found.2.isSocket && !found.2.userNonblock &&
    p.kernel.blocking fd

end Process

end Lyslg
