import Lyslg.Timer.RealTime
/-!
# Steps back of the clock

A step back of more than an hour is to count as a rollover.  `detectClockRollover` subtracts the
hour from the reading before, without a sign.  Where that reading is less than an hour the
difference is close to `2^64`, and every step back counts.
-/

namespace Lyslg

open Support Support.Machine

namespace TimerManager

/-- One hour in milliseconds. -/
def hour : Nat := 60 * 60 * 1000

/-- What a sequence of calls of `detectClockRollover` returns. -/
def rollovers (m : TimerManager) : List UInt64 → List Bool
  | [] => []
  | now :: later =>
      (m.detectClockRollover now.toNat).1 :: (m.detectClockRollover now.toNat).2.rollovers later

/-- Which readings are smaller than the one before by more than an hour. -/
def hourBack (prev : Nat) : List UInt64 → List Bool
  | [] => []
  | now :: later => decide (now.toNat + hour < prev) :: hourBack now.toNat later

/-- From the reading `prev` the clock does not step back to `now`, or an hour can be subtracted
from `prev`. -/
def Subtractable (prev now : Nat) : Prop := prev ≤ now ∨ hour ≤ prev

instance (prev now : Nat) : Decidable (Subtractable prev now) :=
  inferInstanceAs (Decidable (prev ≤ now ∨ hour ≤ prev))

/-- A critical section of a run.  The readings that are kept are `uint64_t`s. -/
def ClockStep (m : TimerManager) (label : TimerOp × TimerOutcome) (m' : TimerManager) : Prop :=
  m.Step label m' ∧ ∀ now ∈ label.1.listing, now < 2 ^ 64

/-! ## One call -/

section Call

variable {m m' : TimerManager} {now : Nat} {outcome : TimerOutcome}

theorem detectClockRollover_cases (hprev : m.previousTime < 2 ^ 64) :
    (m.detectClockRollover now).1 = true ↔
      now < m.previousTime ∧ (now + hour < m.previousTime ∨ m.previousTime < hour) := by
  unfold detectClockRollover subSize hour
  simp only [Bool.and_eq_true, decide_eq_true_eq]
  omega

/-- With an hour to subtract the test is right. -/
theorem detectClockRollover_of_subtractable (hprev : m.previousTime < 2 ^ 64)
    (h : Subtractable m.previousTime now) :
    (m.detectClockRollover now).1 = true ↔ now + hour < m.previousTime := by
  rw [detectClockRollover_cases hprev]
  unfold Subtractable at h
  omega

/-- Without one it takes any step back for a rollover. -/
theorem detectClockRollover_of_not_subtractable (hprev : m.previousTime < 2 ^ 64)
    (h : ¬ Subtractable m.previousTime now) :
    (m.detectClockRollover now).1 = true ∧ ¬ now + hour < m.previousTime := by
  rw [detectClockRollover_cases hprev]
  unfold Subtractable at h
  omega

theorem detectClockRollover_eq_iff (hprev : m.previousTime < 2 ^ 64) :
    (m.detectClockRollover now).1 = decide (now + hour < m.previousTime) ↔
      Subtractable m.previousTime now := by
  rw [Bool.eq_iff_iff, decide_eq_true_eq]
  constructor
  · intro heq
    by_contra hnot
    obtain ⟨hroll, hnear⟩ := detectClockRollover_of_not_subtractable hprev hnot
    exact hnear (heq.mp hroll)
  · exact detectClockRollover_of_subtractable hprev

theorem rollovers_eq_iff (readings : List UInt64) (hprev : m.previousTime < 2 ^ 64) :
    m.rollovers readings = hourBack m.previousTime readings ↔
      (m.previousTime :: readings.map UInt64.toNat).IsChain Subtractable := by
  induction readings generalizing m with
  | nil => simp [rollovers, hourBack]
  | cons now later ih =>
      have hlater := ih (m := (m.detectClockRollover now.toNat).2) now.toNat_lt
      have hkept : (m.detectClockRollover now.toNat).2.previousTime = now.toNat := rfl
      rw [hkept] at hlater
      rw [rollovers, hourBack, List.cons.injEq, hlater, detectClockRollover_eq_iff hprev,
        List.map_cons, List.isChain_cons_cons]

/-- After a step back of at most an hour only due timers are reported, or all are because the
hour could not be subtracted. -/
theorem reported_due_iff (h : m.Holds []) (hprev : m.previousTime < 2 ^ 64) {tmp : Nat}
    (hstep : m.Step (.listExpiredCb now tmp, outcome) m') (hnear : m.previousTime ≤ now + hour) :
    (∀ id ∈ outcome.reported, (m.heap id).next ≤ now) ↔
      Subtractable m.previousTime now ∨ ∀ id ∈ m.timers, (m.heap id).next ≤ now := by
  cases Step.effect h hstep with
  | refused htarget => cases htarget
  | @listed _ _ due later _ hlisted =>
      have hreported : (TimerOutcome.cbs (due.map fun a => (a, (m.heap a).cb))).reported = due := by
        simp [TimerOutcome.reported, Function.comp_def]
      rw [hreported]
      by_cases hsub : Subtractable m.previousTime now
      · have hroll : ¬ (m.detectClockRollover now).1 = true := by
          rw [detectClockRollover_of_subtractable hprev hsub]
          omega
        have hdue : ∀ id ∈ due, (m.heap id).next ≤ now := fun id hid =>
          (hlisted.expired id hid).resolve_left hroll
        exact iff_of_true hdue (Or.inl hsub)
      · obtain ⟨hroll, _⟩ := detectClockRollover_of_not_subtractable hprev hsub
        have hnone : later = [] := by
          apply List.eq_nil_iff_forall_not_mem.mpr
          intro id hid
          rw [(hlisted.waiting id hid).1] at hroll
          cases hroll
        rw [hlisted.split, hnone, List.append_nil, or_iff_right hsub]

end Call

/-! ## Runs -/

section Runs

variable {m m' : TimerManager} {heap : Nat → Timer} {start : UInt64}
  {trace : List (TimerOp × TimerOutcome)}

theorem ClockStep.previousTime_lt {label : TimerOp × TimerOutcome} (h : m.Holds [])
    (hstep : m.ClockStep label m') (hprev : m.previousTime < 2 ^ 64) :
    m'.previousTime < 2 ^ 64 := by
  rw [(Step.effect h hstep.1).previousTime]
  cases hlisting : label.1.listing with
  | none => exact hprev
  | some now => exact hstep.2 now hlisting

theorem run_clock (hrun : Run ClockStep (new heap start.toNat) trace m) :
    m.Holds [] ∧ m.previousTime < 2 ^ 64 := by
  apply hrun.invariant (I := fun m => m.Holds [] ∧ m.previousTime < 2 ^ 64)
  · intro m label m' h hstep
    exact ⟨Step.holds h.1 hstep.1, hstep.previousTime_lt h.1 h.2⟩
  · exact ⟨new_holds heap _, start.toNat_lt⟩

end Runs

/-- In every run: the calls tell a step back of more than an hour exactly if the hour can be
subtracted at each step back, and a shorter step back makes `listExpiredCb` report a timer that is
not due only where it cannot. -/
theorem detectClockRollover_exact_iff {m : TimerManager} {heap : Nat → Timer} {start : UInt64}
    {trace : List (TimerOp × TimerOutcome)}
    (hrun : Run ClockStep (new heap start.toNat) trace m) :
    (∀ readings, m.rollovers readings = hourBack m.previousTime readings ↔
      (m.previousTime :: readings.map UInt64.toNat).IsChain Subtractable) ∧
    ∀ now tmp outcome m', m.ClockStep (.listExpiredCb now tmp, outcome) m' →
      m.previousTime ≤ now + hour →
      ((∀ id ∈ outcome.reported, (m.heap id).next ≤ now) ↔
        Subtractable m.previousTime now ∨ ∀ id ∈ m.timers, (m.heap id).next ≤ now) := by
  obtain ⟨hholds, hprev⟩ := run_clock hrun
  refine ⟨fun readings => rollovers_eq_iff readings hprev, ?_⟩
  intro now tmp outcome m' hstep hnear
  exact reported_due_iff hholds hprev hstep.1 hnear

/-- The reading 4 after the reading 5: a timer due at 105 is reported. -/
theorem detectClockRollover_below_hour :
    (new (fun _ => { addr := 0 }) 5).rollovers [4] ≠ hourBack 5 [4] ∧
      ∃ m m', Run ClockStep (new (fun _ => { addr := 0 }) 5)
          [(.addTimer 16 100 1 false 5, .created 0 true)] m ∧
        m.ClockStep (.listExpiredCb 4 32, .cbs [(0, some 1)]) m' ∧
        m.previousTime ≤ 4 + hour ∧ ¬ (m.heap 0).next ≤ 4 := by
  refine ⟨by decide, ?_⟩
  have hsome : ([(.addTimer 16 100 1 false 5, .created 0 true),
      (.listExpiredCb 4 32, .cbs [(0, some 1)])].foldlM step
        (new (fun _ => { addr := 0 }) 5)).isSome = true := by
    decide
  obtain ⟨m', hm'⟩ := Option.isSome_iff_exists.mp hsome
  cases Run.of_foldlM (fun _ _ _ => step_some) hm' with
  | @cons _ m _ _ _ hadd hrun =>
      cases hrun with
      | cons hlist hrun =>
          cases hrun
          refine ⟨m, m', .cons ⟨hadd, by simp [TimerOp.listing]⟩ (.nil _),
            ⟨hlist, by simp [TimerOp.listing]⟩, ?_, ?_⟩
          · obtain ⟨_, hexec⟩ := hadd
            rw [← (Prod.mk.inj (Option.some.inj hexec)).2]
            decide
          · obtain ⟨_, hexec⟩ := hadd
            rw [← (Prod.mk.inj (Option.some.inj hexec)).2]
            decide

/-- From 4000000 a second back, and then to the start. -/
theorem detectClockRollover_exact_iff_second :
    ∃ m, Run ClockStep (new (fun _ => { addr := 0 }) (4000000 : UInt64).toNat)
        [(.addTimer 16 100 1 false 4000000, .created 0 true)] m ∧
      m.rollovers [3999000, 10] = hourBack m.previousTime [3999000, 10] := by
  have hsome : ((new (fun _ => { addr := 0 }) (4000000 : UInt64).toNat).step
      (.addTimer 16 100 1 false 4000000, .created 0 true)).isSome = true := by
    decide
  obtain ⟨m, hm⟩ := Option.isSome_iff_exists.mp hsome
  have hadd := step_some hm
  have hprev : m.previousTime = 4000000 := by
    rw [(Step.effect (new_holds _ _) hadd).previousTime]
    rfl
  have hrun : Run ClockStep (new (fun _ => { addr := 0 }) (4000000 : UInt64).toNat)
      [(.addTimer 16 100 1 false 4000000, .created 0 true)] m :=
    .cons ⟨hadd, by simp [TimerOp.listing]⟩ (.nil _)
  refine ⟨m, hrun, ((detectClockRollover_exact_iff hrun).1 _).mpr ?_⟩
  rw [hprev]
  decide

end TimerManager

end Lyslg
