import Lyslg.Support.Machine
import Lyslg.Support.State
import Mathlib.Logic.Function.Basic
/-!
# Contexts of descriptors

`fd_manager.cc`: what the hooks know of a descriptor, and the table of these
contexts.  A context is named by its creation number, and `m_datas` holds names.
The parts of `get` under the read lock and under the write lock are separate.

Of the operating system a descriptor has its type and its file status flags.
Descriptors are not negative.
-/

namespace Lyslg

open Support.Machine

def oNonblock : BitVec 32 := 0x800

/-- The flags that `F_SETFL` changes: `O_APPEND`, `O_NONBLOCK`, `O_ASYNC`, `O_DIRECT` and
`O_NOATIME`. -/
def settableFlags : BitVec 32 := 0x46C00

/-- The descriptors of the process. -/
structure Kernel where
  /-- `S_ISSOCK`, for a descriptor that `fstat` accepts -/
  stat : Nat → Option Bool
  flags : Nat → BitVec 32

namespace Kernel

def setFlags (k : Kernel) (fd : Nat) (flags : BitVec 32) : Kernel :=
  { k with flags := Function.update k.flags fd flags }

/-- `fcntl(fd, F_SETFL, arg)`. -/
def setfl (k : Kernel) (fd : Nat) (arg : BitVec 32) : Kernel :=
  k.setFlags fd ((k.flags fd &&& ~~~settableFlags) ||| (arg &&& settableFlags))

/-- `ioctl(fd, FIONBIO, &on)`. -/
def fionbio (k : Kernel) (fd : Nat) (on : Bool) : Kernel :=
  k.setFlags fd (if on then k.flags fd ||| oNonblock else k.flags fd &&& ~~~oNonblock)

/-- A call on the descriptor may block. -/
def blocking (k : Kernel) (fd : Nat) : Bool := k.flags fd &&& oNonblock = 0

end Kernel

/-- `SO_RCVTIMEO` and `SO_SNDTIMEO`. -/
inductive TimeoutOpt where
  | rcvtimeo
  | sndtimeo
  deriving DecidableEq, Repr

/-- The fields of `class FdCtx`.  The timeouts are `uint64_t`. -/
structure FdCtx where
  isInit : Bool := false
  isSocket : Bool := false
  sysNonblock : Bool := false
  userNonblock : Bool := false
  isClosed : Bool := false
  fd : Nat
  recvTimeout : Nat := 2 ^ 64 - 1
  sendTimeout : Nat := 2 ^ 64 - 1
  deriving DecidableEq, Repr

namespace FdCtx

/-- `FdCtx::FdCtx`, which calls `FdCtx::init`. -/
def new (k : Kernel) (fd : Nat) : FdCtx × Kernel :=
  match k.stat fd with
  | none => ({ fd := fd }, k)
  | some false => ({ isInit := true, fd := fd }, k)
  | some true =>
      ({ isInit := true, isSocket := true, sysNonblock := true, fd := fd },
        if k.flags fd &&& oNonblock = 0 then k.setfl fd (k.flags fd ||| oNonblock) else k)

/-- `FdCtx::setTimerout`. -/
def setTimerout (ctx : FdCtx) (type : TimeoutOpt) (v : Nat) : FdCtx :=
  match type with
  | .rcvtimeo => { ctx with recvTimeout := v }
  | .sndtimeo => { ctx with sendTimeout := v }

/-- `FdCtx::getTimerout`. -/
def getTimerout (ctx : FdCtx) : TimeoutOpt → Nat
  | .rcvtimeo => ctx.recvTimeout
  | .sndtimeo => ctx.sendTimeout

/-- `FdCtx::setUserNonblock`. -/
def setUserNonblock (ctx : FdCtx) (v : Bool) : FdCtx := { ctx with userNonblock := v }

@[simp] theorem getTimerout_setTimerout (ctx : FdCtx) (type : TimeoutOpt) (v : Nat) :
    (ctx.setTimerout type v).getTimerout type = v := by
  cases type <;> rfl

end FdCtx

/-- `class FdManager`, and every context that was created. -/
structure FdManager where
  ctxs : List FdCtx
  /-- `m_datas`, by the names of the contexts -/
  datas : List (Option Nat)
  deriving DecidableEq

namespace FdManager

/-- `FdManager::FdManager`. -/
def new : FdManager := ⟨[], List.replicate 64 none⟩

/-- `m_datas[fd]`, or null. -/
def entry (m : FdManager) (fd : Nat) : Option Nat := m.datas[fd]?.join

/-- `get(fd)`, and what `get(fd, true)` finds under the read lock.  The size is converted to
`int` for the test. -/
def find (m : FdManager) (fd : Nat) : Option Nat :=
  (m.entry fd).filter fun _ => (fd : Int) < int32 m.datas.length

/-- The size of `m_datas` when `get(fd, true)` assigns to it. -/
def sizeFor (m : FdManager) (fd : Nat) : Nat :=
  if int32 m.datas.length ≤ fd then fd * 3 / 2 else m.datas.length

/-- `m_datas.resize(size)`. -/
def resize (m : FdManager) (size : Nat) : FdManager :=
  { m with datas := m.datas.take size ++ List.replicate (size - m.datas.length) none }

/-- Put a new context in a table of `size`, unless `m_datas[fd]` is out of bounds. -/
def createIn (m : FdManager) (k : Kernel) (fd size : Nat) : Option (Nat × FdManager × Kernel) :=
  let (ctx, k) := FdCtx.new k fd
  let m := m.resize size
  if fd < m.datas.length then
    some (m.ctxs.length, ⟨m.ctxs ++ [ctx], m.datas.set fd (some m.ctxs.length)⟩, k)
  else none

/-- The write-locked part of `get(fd, true)`. -/
def create (m : FdManager) (k : Kernel) (fd : Nat) : Option (Nat × FdManager × Kernel) :=
  m.createIn k fd (m.sizeFor fd)

/-- `FdManager::get`, when no other thread gets in between. -/
def get (m : FdManager) (k : Kernel) (fd : Nat) (autoCreate : Bool) :
    Option (Option Nat × FdManager × Kernel) :=
  match m.find fd, autoCreate with
  | some ctx, _ => some (some ctx, m, k)
  | none, false => some (none, m, k)
  | none, true => (m.create k fd).map fun (ctx, m, k) => (some ctx, m, k)

/-- `FdManager::del`. -/
def del (m : FdManager) (fd : Nat) : FdManager :=
  if int32 m.datas.length ≤ fd then m else { m with datas := m.datas.set fd none }

/-- Assign to a context. -/
def update (m : FdManager) (ctx : Nat) (f : FdCtx → FdCtx) : FdManager :=
  { m with ctxs := m.ctxs.modify ctx f }

variable {m m' : FdManager} {k k' : Kernel} {fd size ctx : Nat}

/-- A new context is added to the others. -/
theorem createIn_ctxs (h : m.createIn k fd size = some (ctx, m', k')) :
    ctx = m.ctxs.length ∧ m'.ctxs = m.ctxs ++ [(FdCtx.new k fd).1] ∧
      k' = (FdCtx.new k fd).2 := by
  obtain ⟨_, hsome⟩ := Option.ite_none_right_eq_some.mp h
  obtain ⟨rfl, hafter⟩ := Prod.mk.inj (Option.some.inj hsome)
  obtain ⟨rfl, rfl⟩ := Prod.mk.inj hafter
  exact ⟨rfl, rfl, rfl⟩

end FdManager

end Lyslg
