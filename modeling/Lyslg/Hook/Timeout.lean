import Lyslg.Hook.Nonblock
/-!
# Timeouts on their way to the timer

A timeout passes through `int`, `struct timeval` and `uint64_t` unharmed.  The last
conversion is the one to the parameter of `addTimer` and `addCondictionTimer`, a
`uint16_t`.
-/

namespace Lyslg

open Support.Machine

namespace Process

variable (p : Process) (request : TimerRequest)

/-- The timer that `addTimer` creates. -/
theorem ms_addTimer (ms : UInt16) :
    ((p.addTimer ms request).2.timers.heap (p.addTimer ms request).1).ms = ms.toNat := by
  unfold addTimer TimerManager.addTimer TimerManager.addTimerLocked TimerManager.insert
  dsimp only
  split_ifs
  all_goals
    dsimp only
    rw [Function.update_self]

theorem ms_addCondictionTimer (ms : Nat) :
    ((p.addCondictionTimer ms request).2.timers.heap (p.addCondictionTimer ms request).1).ms =
      ms % 2 ^ 16 :=
  p.ms_addTimer request (UInt16.ofNat ms)

end Process

/-! ## The timeouts of a socket -/

/-- The seconds and microseconds of a timeout make up the timeout. -/
theorem timeval_sum {v : Int} (hlow : 0 ≤ v) (hhigh : v < 2 ^ 31 * 1000) :
    sizeT (int32 (v.tdiv 1000) * 1000 + (int32 (v.tmod 1000 * 1000)).tdiv 1000) = v.toNat := by
  obtain ⟨n, rfl⟩ := Int.eq_ofNat_of_zero_le hlow
  have hsec : int32 ((n : Int).tdiv 1000) = (n / 1000 : Nat) := by
    rw [Int.tdiv_eq_ediv_of_nonneg hlow]
    exact_mod_cast int32_natCast (n := n / 1000) (by omega)
  have husec : int32 ((n : Int).tmod 1000 * 1000) = (n % 1000 * 1000 : Nat) := by
    rw [Int.tmod_eq_emod_of_nonneg hlow]
    exact_mod_cast int32_natCast (n := n % 1000 * 1000) (by omega)
  rw [hsec, husec, Int.tdiv_eq_ediv_of_nonneg (by omega)]
  have hsum : ((n / 1000 : Nat) : Int) * 1000 + ((n % 1000 * 1000 : Nat) : Int) / 1000 = n := by
    omega
  rw [hsum, sizeT_natCast (by omega)]
  rfl

namespace Managed

variable {p : Process} {fd name : Nat} {fdCtx : FdCtx}

theorem setTimerout (h : Managed p fd name fdCtx) (type : TimeoutOpt) (v : Nat) :
    Managed (p.updateCtx name fun c => c.setTimerout type v) fd name
    (fdCtx.setTimerout type v) := by
  refine ⟨h.find, ?_, ?_, ?_, ?_⟩
  · change (p.fds.ctxs.modify name _)[name]? = _
    rw [List.getElem?_modify_eq, h.ctx]
    rfl
  · cases type <;> exact h.isClosed
  · cases type <;> exact h.isSocket
  · cases type <;> exact h.sysNonblock

/-- `setRecvTimeout` and `setSendTimeout` record the timeout. -/
theorem setTimeout (h : Managed p fd name fdCtx) (type : TimeoutOpt) {v : Int} (hlow : 0 ≤ v)
    (hhigh : v < 2 ^ 31 * 1000) :
    Managed (p.setTimeout true fd type v) fd name (fdCtx.setTimerout type v.toNat) := by
  unfold Process.setTimeout Process.setsockopt
  rw [h.ctx_eq, timeval_sum hlow hhigh]
  exact h.setTimerout type v.toNat

theorem getTimeout (h : Managed p fd name fdCtx) (type : TimeoutOpt) :
    p.getTimeout fd type = int64 (fdCtx.getTimerout type) := by
  unfold Process.getTimeout
  rw [h.ctx_eq]

/-- A blocking call on a socket that the user has left blocking. -/
theorem doIo (h : Managed p fd name fdCtx) (huser : fdCtx.userNonblock = false)
    (type : TimeoutOpt) (request : TimerRequest) :
    p.doIo true fd type true request = p.wait (fdCtx.getTimerout type) request := by
  unfold Process.doIo
  rw [h.ctx_eq]
  simp [h.isClosed, h.isSocket, huser]

theorem connectWithTimeout (h : Managed p fd name fdCtx) (huser : fdCtx.userNonblock = false)
    (timeoutMs : Nat) (request : TimerRequest) :
    p.connectWithTimeout true fd timeoutMs true request = p.wait timeoutMs request := by
  unfold Process.connectWithTimeout
  rw [h.ctx_eq]
  simp [h.isClosed, h.isSocket, huser]

end Managed

/-! ## Every way to ask for a timeout -/

/-- A call that waits: a read or write after `setRecvTimeout` or `setSendTimeout`, a connect
that is in progress, `sleep` and `usleep`. -/
inductive TimeoutCall where
  | io (type : TimeoutOpt) (v : Int)
  | connect (timeoutMs : Nat)
  | sleep (seconds : UInt32)
  | usleep (usec : UInt32)

namespace TimeoutCall

/-- The arguments that are meant to work. -/
def Admitted : TimeoutCall → Prop
  | .io _ v => 0 ≤ v ∧ v < 2 ^ 31 * 1000
  | .connect timeoutMs => timeoutMs < 2 ^ 64 - 1
  | .sleep seconds => 1000 * seconds.toNat < 2 ^ 32
  | .usleep _ => True

/-- The milliseconds that the caller asks for. -/
def requested : TimeoutCall → Nat
  | .io _ v => v.toNat
  | .connect timeoutMs => timeoutMs
  | .sleep seconds => 1000 * seconds.toNat
  | .usleep usec => usec.toNat / 1000

/-- The call, on a thread with hooks, until the fiber is suspended. -/
def start (p : Process) (fd : Nat) (request : TimerRequest) : TimeoutCall → HookOutcome × Process
  | .io type v => (p.setTimeout true fd type v).doIo true fd type true request
  | .connect timeoutMs => p.connectWithTimeout true fd timeoutMs true request
  | .sleep seconds => p.sleep true seconds request
  | .usleep usec => p.usleep true usec request

variable {p : Process} {fd name : Nat} {fdCtx : FdCtx}

/-- The call is suspended with a timer of `ms` milliseconds. -/
def Arms (after : HookOutcome × Process) (ms : Nat) : Prop :=
  ∃ timer, after.1 = .waits (some timer) ∧ (after.2.timers.heap timer).ms = ms

theorem arms_addTimer (p : Process) (ms : UInt16) (request : TimerRequest) :
    Arms (.waits (some (p.addTimer ms request).1), (p.addTimer ms request).2) ms.toNat :=
  ⟨_, rfl, p.ms_addTimer request ms⟩

theorem arms_wait {ms : Nat} (h : ms ≠ 2 ^ 64 - 1) (request : TimerRequest) :
    Arms (p.wait ms request) (ms % 2 ^ 16) := by
  unfold Process.wait
  rw [if_pos h]
  exact ⟨_, rfl, p.ms_addCondictionTimer request ms⟩

/-- The timer gets the low 16 bits. -/
theorem start_arms (h : Managed p fd name fdCtx) (huser : fdCtx.userNonblock = false)
    (request : TimerRequest) (call : TimeoutCall) (hcall : call.Admitted) :
    Arms (call.start p fd request) (call.requested % 2 ^ 16) := by
  cases call with
  | io type v =>
      obtain ⟨hlow, hhigh⟩ := hcall
      have hset := h.setTimeout type hlow hhigh
      have huser' : (fdCtx.setTimerout type v.toNat).userNonblock = false := by
        cases type <;> exact huser
      change Arms ((p.setTimeout true fd type v).doIo true fd type true request) _
      rw [hset.doIo huser' type request, FdCtx.getTimerout_setTimerout]
      exact arms_wait (by omega) request
  | connect timeoutMs =>
      change Arms (p.connectWithTimeout true fd timeoutMs true request) _
      rw [h.connectWithTimeout huser timeoutMs request]
      exact arms_wait (Nat.ne_of_lt hcall) request
  | sleep seconds =>
      have hms : (seconds * 1000).toUInt16.toNat = 1000 * seconds.toNat % 2 ^ 16 := by
        have hcall : 1000 * seconds.toNat < 2 ^ 32 := hcall
        rw [UInt32.toNat_toUInt16, UInt32.toNat_mul]
        simp
        omega
      unfold requested
      rw [← hms]
      exact arms_addTimer p _ request
  | usleep usec =>
      have hms : (usec / 1000).toUInt16.toNat = usec.toNat / 1000 % 2 ^ 16 := by
        rw [UInt32.toNat_toUInt16, UInt32.toNat_div]
        rfl
      unfold requested
      rw [← hms]
      exact arms_addTimer p _ request

theorem Arms.unique {after : HookOutcome × Process} {a b : Nat} (ha : Arms after a)
    (hb : Arms after b) : a = b := by
  obtain ⟨timer, hwaits, rfl⟩ := ha
  obtain ⟨timer', hwaits', rfl⟩ := hb
  obtain rfl := Option.some.inj (HookOutcome.waits.inj (hwaits.symm.trans hwaits'))
  rfl

/-- A timeout is read back as it was set, and the timer gets it if and only if it is below
`2^16`. -/
theorem start_arms_requested_iff (h : Managed p fd name fdCtx)
    (huser : fdCtx.userNonblock = false) (request : TimerRequest) (call : TimeoutCall)
    (hcall : call.Admitted) :
    (∀ type v, call = .io type v → (p.setTimeout true fd type v).getTimeout fd type = v) ∧
      (Arms (call.start p fd request) call.requested ↔ call.requested < 2 ^ 16) := by
  refine ⟨?_, ?_⟩
  · rintro type v rfl
    obtain ⟨hlow, hhigh⟩ := hcall
    rw [(h.setTimeout type hlow hhigh).getTimeout, FdCtx.getTimerout_setTimerout,
      int64_natCast (by omega)]
    omega
  · have harms := start_arms h huser request call hcall
    constructor
    · intro hsame
      have hmod := harms.unique hsame
      omega
    · intro hlt
      rwa [Nat.mod_eq_of_lt hlt] at harms

/-- A socket with descriptor 5 that a fresh manager has just got. -/
theorem exists_managed : ∃ p name fdCtx, Managed p 5 name fdCtx ∧ fdCtx.userNonblock = false := by
  have hsome : (FdManager.new.create ⟨fun _ => some true, fun _ => 2⟩ 5).any (fun after =>
      after.2.1.find 5 = some after.1) = true := by
    decide +kernel
  obtain ⟨⟨name, m', k'⟩, hcreate, hfind⟩ := (Option.any_eq_true _ _).mp hsome
  obtain ⟨fdCtx, h, huser, _⟩ := Managed.of_create (TimerManager.new (fun _ => { addr := 0 }) 0)
    rfl hcreate (of_decide_eq_true hfind)
  exact ⟨_, name, fdCtx, h, huser⟩

/-- Five seconds for a read. -/
theorem start_arms_requested_iff_five_seconds :
    ∃ p name fdCtx, Managed p 5 name fdCtx ∧
      Arms ((io .rcvtimeo 5000).start p 5 ⟨16, 1, 0⟩) 5000 := by
  obtain ⟨p, name, fdCtx, h, huser⟩ := exists_managed
  have hcall : (io .rcvtimeo 5000).Admitted := ⟨by decide, by decide⟩
  have hiff := (start_arms_requested_iff h huser ⟨16, 1, 0⟩ (.io .rcvtimeo 5000) hcall).2
  exact ⟨p, name, fdCtx, h, hiff.mpr (by decide)⟩

/-- The read timeout of two minutes becomes one of 54 seconds. -/
theorem two_minutes_cut_short :
    ∃ p name fdCtx, Managed p 5 name fdCtx ∧ (io .rcvtimeo 120000).Admitted ∧
      Arms ((io .rcvtimeo 120000).start p 5 ⟨16, 1, 0⟩) 54464 ∧
      ¬Arms ((io .rcvtimeo 120000).start p 5 ⟨16, 1, 0⟩) 120000 := by
  obtain ⟨p, name, fdCtx, h, huser⟩ := exists_managed
  have hcall : (io .rcvtimeo 120000).Admitted := ⟨by decide, by decide⟩
  have harms := start_arms h huser ⟨16, 1, 0⟩ _ hcall
  refine ⟨p, name, fdCtx, h, hcall, harms, ?_⟩
  intro hsame
  cases harms.unique hsame

end TimeoutCall

end Lyslg
