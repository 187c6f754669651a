import Lyslg.Timer.Wakeup
/-!
# How long an idle thread sleeps

`IoManager::idle` passes the distance to the first deadline to `epoll_wait`, but not more than
three seconds.  Both the comparison and the argument cut the distance to an `int`:
`DistanceFits` says when that is harmless, and `run_distanceFits` that it is as long as every
period given to `Timer::reset` fits an `int`.
-/

namespace Lyslg

open Support Support.Machine

/-- What the loop around `epoll_wait` makes of `next_timeout` before every call. -/
def capTimeout (nextTimeout : Nat) : Nat :=
  let maxTimeout : Nat := 3000
  if nextTimeout ≠ 2 ^ 64 - 1 then
    if int32 nextTimeout > maxTimeout then maxTimeout else nextTimeout
  else maxTimeout

/-- The loop around `epoll_wait`: the timeout of every call, where so many of them are interrupted
by a signal. -/
def epollTimeouts (nextTimeout : Nat) : Nat → List Int
  | 0 => [int32 (capTimeout nextTimeout)]
  | interrupts + 1 =>
      int32 (capTimeout nextTimeout) :: epollTimeouts (capTimeout nextTimeout) interrupts

namespace TimerManager

/-- One turn of the loop of `IoManager::idle`, up to where `epoll_wait` returns.  It ends the loop
if there is no timer and `quiet`: no event is pending and the scheduler stops. -/
def idleWait (m : TimerManager) (quiet : Bool) (now interrupts : Nat) : List Int × TimerManager :=
  let (nextTimeout, m) := m.getNextTimer now
  if nextTimeout = 2 ^ 64 - 1 && quiet then ([], m)
  else (epollTimeouts nextTimeout interrupts, m)

/-- Every timeout is between no wait and three seconds, is not behind the first deadline, and is
only no wait if that has come. -/
def WaitBounded (m : TimerManager) (quiet : Bool) (now interrupts : Nat) : Prop :=
  ∀ timeout ∈ (m.idleWait quiet now interrupts).1, 0 ≤ timeout ∧ timeout ≤ 3000 ∧
    timeout ≤ (m.getNextTimer now).1 ∧ (timeout = 0 → (m.getNextTimer now).1 = 0)

/-- The first deadline has come, or what is left of the distance in an `int` is positive; the
largest distance stands for no timer. -/
def DistanceFits (m : TimerManager) (now : Nat) : Prop :=
  ∀ front ∈ m.timers.head?, (m.heap front).next ≤ now ∨ (m.heap front).next - now = 2 ^ 64 - 1 ∨
    0 < ((m.heap front).next - now) % 2 ^ 32 ∧ ((m.heap front).next - now) % 2 ^ 32 < 2 ^ 31

end TimerManager

/-- The period an operation gives a timer. -/
def TimerOp.period : TimerOp → Nat
  | .addTimer _ ms _ _ _ => ms.toNat
  | .reset _ ms _ _ => ms.toNat
  | _ => 0

/-- The deadline is a period after a reading that is not after `now`, and the period is an
`int`. -/
def Timer.Short (now : Nat) (timer : Timer) : Prop :=
  ∃ start ≤ now, timer.next = addSize start timer.ms ∧ timer.ms < 2 ^ 31

/-! ## The cut distance -/

/-- What an `int` keeps of a natural number. -/
theorem int32_eq_mod (n : Nat) :
    int32 n = if n % 2 ^ 32 < 2 ^ 31 then ((n % 2 ^ 32 : Nat) : Int)
      else ((n % 2 ^ 32 : Nat) : Int) - 2 ^ 32 := by
  unfold int32
  rw [Int.bmod_def]
  split_ifs <;> omega

theorem int32_pos_iff (n : Nat) : 0 < int32 n ↔ 0 < n % 2 ^ 32 ∧ n % 2 ^ 32 < 2 ^ 31 := by
  rw [int32_eq_mod]
  split_ifs <;> omega

theorem capTimeout_long {n : Nat} (hlong : 3000 < int32 n) : capTimeout n = 3000 := by
  have hmax : int32 n > (3000 : Nat) := hlong
  simp only [capTimeout, if_pos hmax, ite_self]

theorem capTimeout_short {n : Nat} (hsome : n ≠ 2 ^ 64 - 1) (hshort : int32 n ≤ 3000) :
    capTimeout n = n := by
  have hmax : ¬ int32 n > (3000 : Nat) := Int.not_lt.mpr hshort
  simp only [capTimeout, if_pos hsome, if_neg hmax]

theorem capTimeout_none : capTimeout (2 ^ 64 - 1) = 3000 := rfl

/-- The loop passes the same timeout every time. -/
theorem capTimeout_capTimeout (n : Nat) : capTimeout (capTimeout n) = capTimeout n := by
  have hmax : capTimeout 3000 = 3000 :=
    capTimeout_short (by decide) (by rw [int32_natCast (by decide)]; decide)
  by_cases hnone : n = 2 ^ 64 - 1
  · rw [hnone, capTimeout_none, hmax]
  · by_cases hlong : 3000 < int32 n
    · rw [capTimeout_long hlong, hmax]
    · rw [capTimeout_short hnone (Int.not_lt.mp hlong),
        capTimeout_short hnone (Int.not_lt.mp hlong)]

theorem epollTimeouts_eq (n interrupts : Nat) :
    epollTimeouts n interrupts = List.replicate (interrupts + 1) (int32 (capTimeout n)) := by
  induction interrupts generalizing n with
  | zero => rfl
  | succ interrupts ih =>
      rw [epollTimeouts, ih, capTimeout_capTimeout]
      rfl

/-- The timeout for a distance is right if and only if the distance is none, stands for no timer
or is positive as an `int`. -/
theorem capTimeout_bounded_iff (d : Nat) :
    (0 ≤ int32 (capTimeout d) ∧ int32 (capTimeout d) ≤ 3000 ∧ int32 (capTimeout d) ≤ d ∧
        (int32 (capTimeout d) = 0 → d = 0)) ↔
      d = 0 ∨ d = 2 ^ 64 - 1 ∨ 0 < int32 d := by
  have hmax : int32 (3000 : Nat) = 3000 := int32_natCast (by decide)
  have hle := int32_le_natCast d
  by_cases hnone : d = 2 ^ 64 - 1
  · rw [hnone, capTimeout_none, hmax]
    decide
  · by_cases hlong : 3000 < int32 d
    · rw [capTimeout_long hlong, hmax]
      omega
    · rw [capTimeout_short hnone (Int.not_lt.mp hlong)]
      by_cases hzero : d = 0
      · rw [hzero, Nat.cast_zero, int32_zero]
        decide
      · omega

namespace TimerManager

variable {m m' : TimerManager} {op : TimerOp} {outcome : TimerOutcome} {now interrupts : Nat}
  {quiet : Bool} {trace : List (TimerOp × TimerOutcome)}

theorem waitBounded_iff : m.WaitBounded quiet now interrupts ↔ m.DistanceFits now := by
  have hlist : (m.idleWait quiet now interrupts).1 =
      if (m.getNextTimer now).1 = 2 ^ 64 - 1 ∧ quiet = true then []
      else List.replicate (interrupts + 1) (int32 (capTimeout (m.getNextTimer now).1)) := by
    rw [← epollTimeouts_eq]
    unfold idleWait
    simp only [Bool.and_eq_true, decide_eq_true_eq, apply_ite Prod.fst]
  have hfits : m.DistanceFits now ↔ (m.getNextTimer now).1 = 0 ∨
      (m.getNextTimer now).1 = 2 ^ 64 - 1 ∨ 0 < int32 (m.getNextTimer now).1 := by
    unfold DistanceFits getNextTimer
    cases m.timers with
    | nil => simp
    | cons front rest =>
        simp only [List.head?_cons, Option.mem_def, Option.some.injEq, forall_eq']
        by_cases hdue : (m.heap front).next ≤ now
        · simp [hdue]
        · simp only [hdue, if_false, false_or, ← int32_pos_iff]
          omega
  rw [hfits, ← capTimeout_bounded_iff, WaitBounded, hlist]
  split_ifs with hstops
  · rw [capTimeout_bounded_iff]
    simp [hstops.1]
  · simp only [List.mem_replicate]
    exact ⟨fun h => h _ ⟨Nat.succ_ne_zero _, rfl⟩, fun h timeout htimeout => htimeout.2 ▸ h⟩

/-! ## Runs with short periods -/

/-- What is subtracted again is what was added, also around `2^64`. -/
theorem subSize_addSize {start ms : Nat} (hstart : start < 2 ^ 64) :
    subSize (addSize start ms) ms = start := by
  unfold subSize addSize
  omega

theorem resetStart_short {id t : Nat} {fromNow : Bool} (h : m.AllTimers (Timer.Short now))
    (hnow : now < 2 ^ 64) (hid : id ∈ m.timers) (ht : fromNow = true → t ≤ now) :
    m.resetStart id fromNow t ≤ now := by
  obtain ⟨start, hstart, hnext, _⟩ := h id hid
  unfold resetStart
  cases fromNow with
  | true => exact ht rfl
  | false =>
      rw [hnext]
      simp only [Bool.false_eq_true, if_false]
      rw [subSize_addSize (by omega)]
      exact hstart

/-- A step that gives no longer period keeps all timers short. -/
theorem Effect.short (he : Effect m op outcome m') (hholds : m.Holds [])
    (h : m.AllTimers (Timer.Short now)) (hnow : now < 2 ^ 64) (hperiod : op.period < 2 ^ 31)
    (hbase : ∀ t ∈ op.base, t ≤ now) : m'.AllTimers (Timer.Short now) := by
  cases he with
  | added harmed _ => exact harmed.allTimers h ⟨_, hbase _ rfl, rfl, hperiod⟩
  | cancelled _ hcancelled => exact hcancelled.allTimers h
  | refreshed hid harmed _ =>
      obtain ⟨_, _, _, hms⟩ := h _ hid
      exact harmed.allTimers h ⟨_, hbase _ rfl, rfl, hms⟩
  | @rescheduled id t ms fromNow front m' hid harmed _ =>
      refine harmed.allTimers h ⟨_, resetStart_short h hnow hid fun hfrom => ?_, rfl, hperiod⟩
      apply hbase
      simp [TimerOp.base, hfrom]
  | listed hlisted =>
      refine hlisted.allTimers hholds h fun a ha => ?_
      obtain ⟨_, _, _, hms⟩ := h a (hlisted.split ▸ List.mem_append_left _ ha)
      exact ⟨_, hbase _ rfl, rfl, hms⟩
  | _ => exact h

theorem run_short (hrun : Run Step m trace m') (hholds : m.Holds [])
    (h : m.AllTimers (Timer.Short now)) (hnow : now < 2 ^ 64)
    (hperiods : ∀ label ∈ trace, label.1.period < 2 ^ 31)
    (hbase : ∀ label ∈ trace, ∀ t ∈ label.1.base, t ≤ now) : m'.AllTimers (Timer.Short now) := by
  induction hrun with
  | nil => exact h
  | cons hstep _ ih =>
      have he := Step.effect hholds hstep
      obtain ⟨hperiod, hperiods⟩ := List.forall_mem_cons.mp hperiods
      obtain ⟨hfirst, hbase⟩ := List.forall_mem_cons.mp hbase
      exact ih (he.holds hholds) (he.short hholds h hnow hperiod hfirst) hperiods hbase

/-- A short timer is less than `2^31` milliseconds away. -/
theorem distanceFits_of_short (h : m.AllTimers (Timer.Short now)) : m.DistanceFits now := by
  intro front hfront
  obtain ⟨start, hstart, hnext, hms⟩ := h front (List.mem_of_mem_head? hfront)
  have hle : addSize start (m.heap front).ms ≤ start + (m.heap front).ms := Nat.mod_le _ _
  rw [← hnext] at hle
  rw [Nat.mod_eq_of_lt (by omega : (m.heap front).next - now < 2 ^ 32)]
  omega

/-- In every state of every run, the wait is bounded by the first deadline if and only if the
distance to that fits.  It does in every run whose periods fit an `int`, where no deadline was
computed from a later reading. -/
theorem run_waitBounded_iff {heap : Nat → Timer} {start : Nat}
    (hrun : Run Step (new heap start) trace m) :
    (∀ quiet now interrupts, m.WaitBounded quiet now interrupts ↔ m.DistanceFits now) ∧
      ∀ now < 2 ^ 64, (∀ label ∈ trace, label.1.period < 2 ^ 31) →
        (∀ label ∈ trace, ∀ t ∈ label.1.base, t ≤ now) →
        ∀ quiet interrupts, m.WaitBounded quiet now interrupts := by
  refine ⟨fun quiet now interrupts => waitBounded_iff, ?_⟩
  intro now hnow hperiods hbase quiet interrupts
  refine waitBounded_iff.mpr (distanceFits_of_short ?_)
  exact run_short hrun (new_holds heap start) (fun id hid => absurd hid List.not_mem_nil) hnow
    hperiods hbase

/-- The longest period that fits. -/
theorem run_waitBounded_iff_longest :
    ∃ m, Run Step (new (fun _ => { addr := 0 }) 0)
        [(.addTimer 16 5 1 false 1000, .created 0 true),
          (.reset 0 2147483647 true 1000, .flag true false)] m ∧
      m.WaitBounded false 1000 2 := by
  have hsome : ([(.addTimer 16 5 1 false 1000, .created 0 true),
      (.reset 0 2147483647 true 1000, .flag true false)].foldlM step
        (new (fun _ => { addr := 0 }) 0)).isSome = true := by
    decide +kernel
  obtain ⟨m, hm⟩ := Option.isSome_iff_exists.mp hsome
  have hrun := Run.of_foldlM (fun _ _ _ => step_some) hm
  exact ⟨m, hrun, (run_waitBounded_iff hrun).2 1000 (by decide) (by decide) (by decide) false 2⟩

/-- After `reset` to a period of `2^31` milliseconds the thread waits with a negative timeout, which
is for ever. -/
theorem idle_waits_forever :
    ∃ m, Run Step (new (fun _ => { addr := 0 }) 0)
        [(.addTimer 16 5 1 false 1000, .created 0 true),
          (.reset 0 2147483648 true 1000, .flag true false)] m ∧
      (m.getNextTimer 1000).1 = 2147483648 ∧ (m.idleWait false 1000 0).1 = [-2147483648] ∧
      ¬ m.WaitBounded false 1000 0 := by
  have hsome : (([(.addTimer 16 5 1 false 1000, .created 0 true),
      (.reset 0 2147483648 true 1000, .flag true false)].foldlM step
        (new (fun _ => { addr := 0 }) 0)).any fun m =>
          (m.getNextTimer 1000).1 = 2147483648 ∧
            (m.idleWait false 1000 0).1 = [-2147483648]) = true := by
    decide +kernel
  obtain ⟨m, hm, hwait⟩ := (Option.any_eq_true _ _).mp hsome
  obtain ⟨hdistance, htimeouts⟩ := of_decide_eq_true hwait
  refine ⟨m, Run.of_foldlM (fun _ _ _ => step_some) hm, hdistance, htimeouts, fun hbounded => ?_⟩
  have hlow := (hbounded (-2147483648) (by rw [htimeouts]; exact List.mem_singleton_self _)).1
  omega

end TimerManager

end Lyslg
