import Lyslg.Hook.Model
/-!
# Sockets stay non-blocking for the kernel

`FdCtx::init` makes a socket non-blocking, and the hooks keep for the user the flag he
asked for.  `fcntl` puts the flag back before it calls the original function; `ioctl`
passes the user's wish on.

Of the 32 flags only `O_NONBLOCK` counts here, so they are looked at through `nonblock`.
-/

namespace Lyslg

/-- `flags & O_NONBLOCK`. -/
def nonblock (flags : BitVec 32) : Bool := flags &&& oNonblock ≠ 0

theorem nonblock_eq (flags : BitVec 32) : nonblock flags = flags.getLsbD 11 := by
  have hbit : oNonblock = BitVec.twoPow 32 11 := by decide
  unfold nonblock
  rw [hbit, BitVec.and_twoPow]
  cases flags.getLsbD 11 <;> decide

@[simp] theorem nonblock_or (a b : BitVec 32) :
    nonblock (a ||| b) = (nonblock a || nonblock b) := by
  simp only [nonblock_eq, BitVec.getLsbD_or]

@[simp] theorem nonblock_and (a b : BitVec 32) :
    nonblock (a &&& b) = (nonblock a && nonblock b) := by
  simp only [nonblock_eq, BitVec.getLsbD_and]

@[simp] theorem nonblock_not (a : BitVec 32) : nonblock (~~~a) = !nonblock a := by
  simp [nonblock_eq]

@[simp] theorem nonblock_oNonblock : nonblock oNonblock = true := by decide

@[simp] theorem nonblock_settableFlags : nonblock settableFlags = true := by decide

namespace Kernel

variable (k : Kernel) (fd : Nat)

theorem blocking_eq : k.blocking fd = !nonblock (k.flags fd) := by
  unfold blocking nonblock
  by_cases h : k.flags fd &&& oNonblock = 0
  · rw [decide_eq_true h, decide_eq_false (not_not_intro h)]
    rfl
  · rw [decide_eq_false h, decide_eq_true h]
    rfl

@[simp] theorem flags_setFlags (flags : BitVec 32) : (k.setFlags fd flags).flags fd = flags :=
  Function.update_self ..

@[simp] theorem nonblock_setfl (arg : BitVec 32) :
    nonblock ((k.setfl fd arg).flags fd) = nonblock arg := by
  simp [setfl]

@[simp] theorem nonblock_fionbio (on : Bool) : nonblock ((k.fionbio fd on).flags fd) = on := by
  cases on <;> simp [fionbio]

end Kernel

/-! ## The context of a socket -/

/-- `FdCtx::init` leaves the descriptor of a socket non-blocking. -/
theorem FdCtx.nonblock_new {k : Kernel} {fd : Nat} (h : k.stat fd = some true) :
    nonblock ((FdCtx.new k fd).2.flags fd) = true := by
  unfold FdCtx.new
  rw [h]
  by_cases hflag : k.flags fd &&& oNonblock = 0
  · simp only [if_pos hflag]
    simp
  · simp only [if_neg hflag]
    exact decide_eq_true hflag

/-- `fd` is managed, and its context is `fdCtx`. -/
structure Managed (p : Process) (fd name : Nat) (fdCtx : FdCtx) : Prop where
  find : p.fds.find fd = some name
  ctx : p.fds.ctxs[name]? = some fdCtx
  isClosed : fdCtx.isClosed = false
  isSocket : fdCtx.isSocket = true
  sysNonblock : fdCtx.sysNonblock = true

namespace Managed

variable {p : Process} {fd name : Nat} {fdCtx : FdCtx}

theorem ctx_eq (h : Managed p fd name fdCtx) : p.ctx fd = some (name, fdCtx) := by
  unfold Process.ctx
  rw [h.find, Option.bind_some, h.ctx]
  rfl

theorem socketCtx_eq (h : Managed p fd name fdCtx) : p.socketCtx fd = some (name, fdCtx) := by
  unfold Process.socketCtx
  rw [h.ctx_eq]
  simp [h.isClosed, h.isSocket]

/-- Assigning the user's flag. -/
theorem setUserNonblock (h : Managed p fd name fdCtx) (v : Bool) :
    Managed (p.updateCtx name fun c => c.setUserNonblock v) fd name (fdCtx.setUserNonblock v) := by
  refine ⟨h.find, ?_, h.isClosed, h.isSocket, h.sysNonblock⟩
  change (p.fds.ctxs.modify name _)[name]? = _
  rw [List.getElem?_modify_eq, h.ctx]
  rfl

/-- The flags of the kernel play no part. -/
theorem setKernel (h : Managed p fd name fdCtx) (k : Kernel) :
    Managed { p with kernel := k } fd name fdCtx :=
  ⟨h.find, h.ctx, h.isClosed, h.isSocket, h.sysNonblock⟩

theorem fcntlGetfl (h : Managed p fd name fdCtx) :
    nonblock (p.fcntlGetfl fd) = fdCtx.userNonblock := by
  unfold Process.fcntlGetfl
  rw [h.socketCtx_eq]
  cases huser : fdCtx.userNonblock <;> simp [huser]

theorem doIoBlocks (h : Managed p fd name fdCtx) :
    p.doIoBlocks fd = (!fdCtx.userNonblock && !nonblock (p.kernel.flags fd)) := by
  unfold Process.doIoBlocks
  rw [h.ctx_eq, p.kernel.blocking_eq]
  simp [h.isClosed, h.isSocket]

/-- `get(fd, true)` for a socket. -/
theorem of_create {m m' : FdManager} {k k' : Kernel} (timers : TimerManager)
    (hsock : k.stat fd = some true) (hcreate : m.create k fd = some (name, m', k'))
    (hfind : m'.find fd = some name) :
    ∃ fdCtx, Managed ⟨m', k', timers⟩ fd name fdCtx ∧ fdCtx.userNonblock = false ∧
      nonblock (k'.flags fd) = true := by
  obtain ⟨rfl, hctxs, rfl⟩ := FdManager.createIn_ctxs hcreate
  have hctx : m'.ctxs[m.ctxs.length]? = some (FdCtx.new k fd).1 := by
    rw [hctxs, List.getElem?_concat_length]
  have hnew : (FdCtx.new k fd).1 =
      { isInit := true, isSocket := true, sysNonblock := true, fd := fd } := by
    unfold FdCtx.new
    rw [hsock]
  rw [hnew] at hctx
  exact ⟨_, ⟨hfind, hctx, rfl, rfl, rfl⟩, rfl, FdCtx.nonblock_new hsock⟩

end Managed

/-! ## Sequences of calls -/

/-- A hooked call on the flags of a descriptor. -/
inductive FlagCall where
  | setfl (arg : BitVec 32) (success : Bool)
  | fionbio (v : Int)
  | getfl
  deriving DecidableEq

namespace FlagCall

/-- The process after a call. -/
def exec (fd : Nat) (p : Process) : FlagCall → Process
  | .setfl arg success => (p.fcntlSetfl fd arg success).2
  | .fionbio v => p.ioctlFionbio fd v
  | .getfl => p

/-- What a call asks for. -/
def asks : FlagCall → Option Bool
  | .setfl arg _ => some (nonblock arg)
  | .fionbio v => some (v ≠ 0)
  | .getfl => none

/-- The kernel's flag after a call. -/
def leaves (flag : Bool) : FlagCall → Bool
  | .setfl _ success => success || flag
  | .fionbio v => v ≠ 0
  | .getfl => flag

/-- The process after some calls. -/
def execAll (fd : Nat) (p : Process) (calls : List FlagCall) : Process := calls.foldl (exec fd) p

/-- What was asked for most recently. -/
def lastAsked (calls : List FlagCall) : Bool :=
  calls.foldl (fun asked call => call.asks.getD asked) false

variable {p : Process} {fd name : Nat} {fdCtx : FdCtx}

/-- One call keeps the user's flag, and gives up the kernel's one only if it is `FIONBIO` with
zero. -/
theorem exec_managed (h : Managed p fd name fdCtx) (call : FlagCall) :
    ∃ fdCtx', Managed (exec fd p call) fd name fdCtx' ∧
      fdCtx'.userNonblock = call.asks.getD fdCtx.userNonblock ∧
      nonblock ((exec fd p call).kernel.flags fd) =
        call.leaves (nonblock (p.kernel.flags fd)) := by
  cases call with
  | setfl arg success =>
      unfold exec Process.fcntlSetfl
      rw [h.socketCtx_eq]
      simp only [h.sysNonblock, if_true]
      cases success with
      | true =>
          refine ⟨_, (h.setUserNonblock _).setKernel _, rfl, ?_⟩
          simp [Process.sysSetfl, leaves]
      | false =>
          refine ⟨_, h.setUserNonblock _, rfl, ?_⟩
          simp [Process.sysSetfl, Process.updateCtx, leaves]
  | fionbio v =>
      unfold exec Process.ioctlFionbio
      rw [h.socketCtx_eq]
      refine ⟨_, (h.setUserNonblock _).setKernel _, rfl, ?_⟩
      simp [leaves]
  | getfl => exact ⟨fdCtx, h, rfl, rfl⟩

/-- The same for a sequence of calls. -/
theorem execAll_managed (h : Managed p fd name fdCtx) (calls : List FlagCall) :
    ∃ fdCtx', Managed (execAll fd p calls) fd name fdCtx' ∧
      fdCtx'.userNonblock = calls.foldl (fun asked call => call.asks.getD asked)
        fdCtx.userNonblock ∧
      nonblock ((execAll fd p calls).kernel.flags fd) =
        calls.foldl leaves (nonblock (p.kernel.flags fd)) := by
  induction calls generalizing p fdCtx with
  | nil => exact ⟨fdCtx, h, rfl, rfl⟩
  | cons call calls ih =>
      obtain ⟨fdCtx₁, h₁, huser₁, hkernel₁⟩ := exec_managed h call
      obtain ⟨fdCtx', h', huser, hkernel⟩ := ih h₁
      refine ⟨fdCtx', h', ?_, ?_⟩
      · rw [huser, huser₁, List.foldl_cons]
      · rw [List.foldl_cons, ← hkernel₁]
        exact hkernel

/-- The call is `FIONBIO` with zero. -/
def clears : FlagCall → Prop
  | .fionbio v => v = 0
  | _ => False

theorem foldl_leaves_true {calls : List FlagCall} (h : ∀ call ∈ calls, ¬call.clears) :
    calls.foldl leaves true = true := by
  induction calls with
  | nil => rfl
  | cons call calls ih =>
      have hcall : call.leaves true = true := by
        have hnot := h call List.mem_cons_self
        cases call with
        | setfl arg success => exact Bool.or_true success
        | fionbio v => exact decide_eq_true hnot
        | getfl => rfl
      rw [List.foldl_cons, hcall]
      exact ih fun c hc => h c (List.mem_cons_of_mem call hc)

theorem foldl_leaves_of_clears {pre : List FlagCall} {call : FlagCall} (h : call.clears)
    (flag : Bool) : (pre ++ [call]).foldl leaves flag = false := by
  rw [List.foldl_append]
  cases call with
  | fionbio v =>
      obtain rfl : v = 0 := h
      rfl
  | setfl arg success => cases h
  | getfl => cases h

/-- `F_GETFL` always reports what the user asked for; the kernel's flag stays set, and `do_io`
never issues a call that can block, if and only if no call is `FIONBIO` with zero. -/
theorem execAll_nonblocking_iff {m m' : FdManager} {k k' : Kernel} (timers : TimerManager)
    (hsock : k.stat fd = some true) (hcreate : m.create k fd = some (name, m', k'))
    (hfind : m'.find fd = some name) (calls : List FlagCall) :
    (∀ pre post, calls = pre ++ post →
        nonblock ((execAll fd ⟨m', k', timers⟩ pre).fcntlGetfl fd) = lastAsked pre) ∧
      ((∀ pre post, calls = pre ++ post →
          nonblock ((execAll fd ⟨m', k', timers⟩ pre).kernel.flags fd) = true ∧
            (execAll fd ⟨m', k', timers⟩ pre).doIoBlocks fd = false) ↔
        ∀ call ∈ calls, ¬call.clears) := by
  obtain ⟨fdCtx, h, huser, hkernel⟩ := Managed.of_create timers hsock hcreate hfind
  refine ⟨?_, ?_, ?_⟩
  · intro pre _ _
    obtain ⟨fdCtx', h', huser', _⟩ := execAll_managed h pre
    rw [h'.fcntlGetfl, huser', huser]
    rfl
  · intro hall call hcall hclears
    obtain ⟨pre, post, hsplit⟩ := List.append_of_mem hcall
    obtain ⟨fdCtx', _, _, hkernel'⟩ := execAll_managed h (pre ++ [call])
    have htrue := (hall (pre ++ [call]) post (by simp [hsplit])).1
    rw [hkernel', foldl_leaves_of_clears hclears] at htrue
    cases htrue
  · intro hnone pre post hsplit
    obtain ⟨fdCtx', h', _, hkernel'⟩ := execAll_managed h pre
    have hflag : nonblock ((execAll fd ⟨m', k', timers⟩ pre).kernel.flags fd) = true := by
      rw [hkernel']
      change pre.foldl leaves (nonblock (k'.flags fd)) = true
      rw [hkernel]
      apply foldl_leaves_true
      intro call hcall
      exact hnone call (hsplit ▸ List.mem_append_left post hcall)
    refine ⟨hflag, ?_⟩
    rw [h'.doIoBlocks, hflag]
    simp

/-- Descriptor 5 is a socket; the user makes it non-blocking and reads the flags back. -/
theorem execAll_nonblocking_iff_setfl :
    ∃ m' k', FdManager.new.create ⟨fun _ => some true, fun _ => 2⟩ 5 = some (0, m', k') ∧
      nonblock ((execAll 5 ⟨m', k', TimerManager.new (fun _ => { addr := 0 }) 0⟩
        [.setfl 0x802 true, .getfl]).fcntlGetfl 5) = true := by
  have hsome : (FdManager.new.create ⟨fun _ => some true, fun _ => 2⟩ 5).any (fun after =>
      after.1 = 0 && after.2.1.find 5 = some 0) = true := by
    decide +kernel
  obtain ⟨⟨name, m', k'⟩, hcreate, htest⟩ := (Option.any_eq_true _ _).mp hsome
  simp only [Bool.and_eq_true, decide_eq_true_eq] at htest
  obtain ⟨rfl, hfind⟩ := htest
  exact ⟨m', k', hcreate, (execAll_nonblocking_iff _ rfl hcreate hfind
    [.setfl 0x802 true, .getfl]).1 _ [] (by simp)⟩

/-- After `FIONBIO` with zero the descriptor blocks, and `do_io` does not know. -/
theorem fionbio_zero_blocks :
    ∃ m' k', FdManager.new.create ⟨fun _ => some true, fun _ => 2⟩ 5 = some (0, m', k') ∧
      m'.find 5 = some 0 ∧
      nonblock ((execAll 5 ⟨m', k', TimerManager.new (fun _ => { addr := 0 }) 0⟩
        [.fionbio 0]).kernel.flags 5) = false ∧
      (execAll 5 ⟨m', k', TimerManager.new (fun _ => { addr := 0 }) 0⟩
        [.fionbio 0]).doIoBlocks 5 = true := by
  have hsome : (FdManager.new.create ⟨fun _ => some true, fun _ => 2⟩ 5).any (fun after =>
      after.1 = 0 && after.2.1.find 5 = some 0 &&
        nonblock ((execAll 5 ⟨after.2.1, after.2.2, TimerManager.new (fun _ => { addr := 0 }) 0⟩
          [.fionbio 0]).kernel.flags 5) = false &&
        (execAll 5 ⟨after.2.1, after.2.2, TimerManager.new (fun _ => { addr := 0 }) 0⟩
          [.fionbio 0]).doIoBlocks 5) = true := by
    decide +kernel
  obtain ⟨⟨name, m', k'⟩, hcreate, htest⟩ := (Option.any_eq_true _ _).mp hsome
  simp only [Bool.and_eq_true, decide_eq_true_eq] at htest
  obtain ⟨⟨⟨rfl, hfind⟩, hflag⟩, hblocks⟩ := htest
  exact ⟨m', k', hcreate, hfind, hflag, hblocks⟩

end FlagCall

end Lyslg
