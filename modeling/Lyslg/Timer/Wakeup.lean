import Lyslg.Timer.SetInvariant
import Mathlib.Data.ENat.Basic
/-!
# Wake-ups for earlier deadlines

An idle thread sleeps until the first deadline `getNextTimer` saw.  `addTimer` and
`reset` call `onTimerInsertedAtFront` for a timer that comes first, once until the
next `getNextTimer`; `refresh` and the recurring timers of `listExpiredCb` are
inserted silently.  These only move a deadline back, because every deadline is a
period after a reading of the past.
-/

namespace Lyslg

open Support Support.Machine

/-- The reading that an operation computes a deadline from. -/
def TimerOp.base : TimerOp → Option Nat
  | .addTimer _ _ _ _ now => some now
  | .refresh _ now => some now
  | .reset _ _ fromNow now => if fromNow then some now else none
  | .listExpiredCb now _ => some now
  | _ => none

/-- The same if it is taken under the lock.  `addTimer` and `listExpiredCb` read the
clock before they wait for the lock. -/
def TimerOp.lockedBase : TimerOp → Option Nat
  | .refresh _ now => some now
  | .reset _ _ fromNow now => if fromNow then some now else none
  | _ => none

/-- The operation is `getNextTimer`. -/
def TimerOp.sleeps : TimerOp → Bool
  | .getNextTimer _ => true
  | _ => false

/-- No deadline of the operation wraps. -/
def TimerOp.NoWrap (m : TimerManager) : TimerOp → Prop
  | .addTimer _ ms _ _ now => now + ms.toNat < 2 ^ 64
  | .refresh id now => now + (m.heap id).ms < 2 ^ 64
  | .reset id ms fromNow now => m.resetStart id fromNow now + ms.toNat < 2 ^ 64
  | .listExpiredCb now _ => ∀ id ∈ m.timers, now + (m.heap id).ms < 2 ^ 64
  | _ => True

/-- The operation detects no rollover. -/
def TimerOp.NoRollover (m : TimerManager) : TimerOp → Prop
  | .listExpiredCb now _ => (m.detectClockRollover now).1 = false
  | _ => True

instance (m : TimerManager) : (op : TimerOp) → Decidable (op.NoWrap m)
  | .addTimer _ ms _ _ now => inferInstanceAs (Decidable (now + ms.toNat < 2 ^ 64))
  | .refresh id now => inferInstanceAs (Decidable (now + (m.heap id).ms < 2 ^ 64))
  | .reset id ms fromNow now =>
      inferInstanceAs (Decidable (m.resetStart id fromNow now + ms.toNat < 2 ^ 64))
  | .listExpiredCb now _ =>
      inferInstanceAs (Decidable (∀ id ∈ m.timers, now + (m.heap id).ms < 2 ^ 64))
  | .cancel _ => .isTrue trivial
  | .listTest _ => .isTrue trivial
  | .getNextTimer _ => .isTrue trivial

instance (m : TimerManager) : (op : TimerOp) → Decidable (op.NoRollover m)
  | .listExpiredCb now _ => inferInstanceAs (Decidable ((m.detectClockRollover now).1 = false))
  | .addTimer _ _ _ _ _ => .isTrue trivial
  | .cancel _ => .isTrue trivial
  | .refresh _ _ => .isTrue trivial
  | .reset _ _ _ _ => .isTrue trivial
  | .listTest _ => .isTrue trivial
  | .getNextTimer _ => .isTrue trivial

/-- The first deadline of the set. -/
def TimerManager.frontDeadline (m : TimerManager) : ℕ∞ :=
  match m.timers with
  | [] => ⊤
  | front :: _ => (m.heap front).next

/-- A manager, the deadline the last `getNextTimer` saw, the largest reading a deadline
was computed from and the calls of `onTimerInsertedAtFront` since the last `getNextTimer`. -/
structure Watch where
  manager : TimerManager
  deadline : ℕ∞
  latest : Nat
  calls : Nat

namespace Watch

/-- A new manager; `getNextTimer` was never called. -/
def new (heap : Nat → Timer) (now : Nat) : Watch := ⟨TimerManager.new heap now, ⊤, now, 0⟩

/-- What is recorded after a step to `m'`. -/
def record (w : Watch) (label : TimerOp × TimerOutcome) (m' : TimerManager) : Watch where
  manager := m'
  deadline := if label.1.sleeps then w.manager.frontDeadline else w.deadline
  latest := max w.latest (label.1.base.getD 0)
  calls := if label.1.sleeps then 0 else w.calls + label.2.front.toNat

/-- A critical section with a clock that does not go back, no rollover and no wrap. -/
structure Step (w : Watch) (label : TimerOp × TimerOutcome) (w' : Watch) : Prop where
  step : w.manager.Step label w'.manager
  clock : ∀ now ∈ label.1.lockedBase, w.latest ≤ now
  noWrap : label.1.NoWrap w.manager
  noRollover : label.1.NoRollover w.manager
  record : w' = w.record label w'.manager

/-- The record after a step with a given outcome. -/
def step (w : Watch) (label : TimerOp × TimerOutcome) : Option Watch :=
  if label.1.lockedBase.all (w.latest ≤ ·) ∧ label.1.NoWrap w.manager ∧
      label.1.NoRollover w.manager then
    (w.manager.step label).map (w.record label)
  else none

theorem step_some {w w' : Watch} {label : TimerOp × TimerOutcome}
    (h : w.step label = some w') : w.Step label w' := by
  unfold step at h
  split_ifs at h with hboth
  obtain ⟨hclock, hwrap, hroll⟩ := hboth
  obtain ⟨m', hm', rfl⟩ := Option.map_eq_some_iff.mp h
  refine ⟨TimerManager.step_some hm', ?_, hwrap, hroll, rfl⟩
  intro now hnow
  rw [Option.mem_def.mp hnow] at hclock
  simpa using hclock

end Watch

/-- The deadline is a period after a reading of the past. -/
def Timer.Based (latest : Nat) (timer : Timer) : Prop :=
  ∃ start ≤ latest, timer.next = start + timer.ms ∧ start + timer.ms < 2 ^ 64

/-- The deadline is not before the one a thread sleeps for. -/
def Timer.NotBefore (deadline : ℕ∞) (timer : Timer) : Prop := deadline ≤ timer.next

namespace TimerManager

variable {m m' : TimerManager} {op : TimerOp} {outcome : TimerOutcome} {id now latest : Nat}
  {deadline : ℕ∞} {P : Timer → Prop}

/-- `P` holds of every timer in the set. -/
def AllTimers (m : TimerManager) (P : Timer → Prop) : Prop := ∀ id ∈ m.timers, P (m.heap id)

theorem frontDeadline_asleep (h : m.Holds []) : m.AllTimers (Timer.NotBefore m.frontDeadline) := by
  intro id hid
  unfold frontDeadline
  cases htimers : m.timers with
  | nil => simp [htimers] at hid
  | cons front rest =>
      have hfront : m.timers.head? = some front := by simp [htimers]
      change ((m.heap front).next : ℕ∞) ≤ _
      exact_mod_cast h.placed.front_le hfront hid

/-! ## One step -/

theorem Armed.allTimers {timer : Timer} (harmed : Armed m id timer m') (h : m.AllTimers P)
    (htimer : P timer) : m'.AllTimers P := by
  intro a ha
  rw [harmed.heap]
  by_cases heq : a = id
  · rw [heq, Function.update_self]
    exact htimer
  · rw [Function.update_of_ne heq]
    exact h a (((harmed.timers a).mp ha).resolve_left heq)

theorem Cancelled.allTimers (hcancelled : Cancelled m id m') (h : m.AllTimers P) :
    m'.AllTimers P := by
  intro a ha
  obtain ⟨hne, hmem⟩ := (hcancelled.timers a).mp ha
  rw [hcancelled.heap, Function.update_of_ne hne]
  exact h a hmem

theorem Listed.allTimers {due later : List Nat} (hlisted : Listed m now due later m')
    (hholds : m.Holds []) (h : m.AllTimers P)
    (hfired : ∀ a ∈ due, P { m.heap a with next := addSize now (m.heap a).ms }) :
    m'.AllTimers P := by
  intro a ha
  have hmem : a ∈ later ∨ a ∈ due ∧ (m.heap a).recurring = true :=
    (hlisted.collected.timers a).mp ha
  rw [hlisted.collected.heap]
  by_cases hdue : a ∈ due
  · have hnodup := hholds.nodup
    rw [List.append_nil, hlisted.split] at hnodup
    have hrecurring := (hmem.resolve_left (hnodup.disjoint hdue)).2
    rw [if_pos hdue]
    unfold Timer.fired
    rw [if_pos hrecurring]
    exact hfired a hdue
  · rw [if_neg hdue]
    apply h a
    rw [hlisted.split]
    exact List.mem_append_right due (hmem.resolve_right fun hboth => hdue hboth.1)

theorem based_mono {latest' : Nat} (h : m.AllTimers (Timer.Based latest)) (hle : latest ≤ latest') :
    m.AllTimers (Timer.Based latest') := by
  intro id hid
  obtain ⟨start, hstart, hnext⟩ := h id hid
  exact ⟨start, Nat.le_trans hstart hle, hnext⟩

/-- Where `reset` starts is a reading of the past or this one. -/
theorem resetStart_le {fromNow : Bool} (h : m.AllTimers (Timer.Based latest))
    (hid : id ∈ m.timers) :
    m.resetStart id fromNow now ≤ max latest ((if fromNow then some now else none).getD 0) := by
  obtain ⟨start, hstart, hnext, hfits⟩ := h id hid
  unfold resetStart
  cases fromNow with
  | true => simp
  | false =>
      rw [if_neg (by decide), subSize_of_le (by omega) (by omega)]
      omega

theorem Effect.based (he : Effect m op outcome m') (hholds : m.Holds [])
    (h : m.AllTimers (Timer.Based latest))
    (hwrap : op.NoWrap m) : m'.AllTimers (Timer.Based (max latest (op.base.getD 0))) := by
  have hold := based_mono h (Nat.le_max_left latest (op.base.getD 0))
  cases he with
  | added harmed _ =>
      apply harmed.allTimers hold
      exact ⟨_, Nat.le_max_right _ _, addSize_of_lt hwrap, hwrap⟩
  | cancelled _ hcancelled => exact hcancelled.allTimers hold
  | refreshed _ harmed _ =>
      apply harmed.allTimers hold
      exact ⟨_, Nat.le_max_right _ _, addSize_of_lt hwrap, hwrap⟩
  | rescheduled hid harmed _ =>
      apply harmed.allTimers hold
      exact ⟨_, resetStart_le h hid, addSize_of_lt hwrap, hwrap⟩
  | listed hlisted =>
      apply hlisted.allTimers hholds hold
      intro a ha
      have hfits := hwrap a (hlisted.split ▸ List.mem_append_left _ ha)
      exact ⟨_, Nat.le_max_right _ _, addSize_of_lt hfits, hfits⟩
  | _ => exact hold

/-- A silent insertion comes after a timer of the set. -/
theorem Tickles.le_of_silent {timer : Timer} {front : Bool} (h : Tickles m id timer front m')
    (hasleep : m.tickled = true ∨ m.AllTimers (Timer.NotBefore deadline))
    (hsilent : m'.tickled = false) :
    m.AllTimers (Timer.NotBefore deadline) ∧ deadline ≤ timer.next := by
  have hquiet : m.tickled = false := by
    have hboth := h.tickled.symm.trans hsilent
    exact (Bool.or_eq_false_iff.mp hboth).1
  obtain ⟨a, ha, _, hle⟩ := h.silent hsilent
  have hall : m.AllTimers (Timer.NotBefore deadline) := hasleep.resolve_left (by simp [hquiet])
  exact ⟨hall, (hall a ha).trans (by exact_mod_cast hle)⟩

/-- The first deadline does not move forward silently. -/
theorem Effect.asleep (he : Effect m op outcome m') (hholds : m.Holds [])
    (h : m.AllTimers (Timer.Based latest))
    (hclock : ∀ now ∈ op.lockedBase, latest ≤ now) (hwrap : op.NoWrap m)
    (hroll : op.NoRollover m)
    (hasleep : m.tickled = true ∨ m.AllTimers (Timer.NotBefore deadline)) :
    m'.tickled = true ∨
      m'.AllTimers (Timer.NotBefore (if op.sleeps then m.frontDeadline else deadline)) := by
  cases he with
  | added harmed htickles =>
      rw [or_iff_not_imp_left, Bool.not_eq_true]
      intro hsilent
      obtain ⟨hall, hle⟩ := htickles.le_of_silent hasleep hsilent
      exact harmed.allTimers hall hle
  | cancelled _ hcancelled =>
      rw [hcancelled.tickled]
      exact hasleep.imp_right fun hall => hcancelled.allTimers hall
  | @refreshed a now _ ha harmed htickled =>
      rw [htickled]
      refine hasleep.imp_right fun hall => harmed.allTimers hall ?_
      obtain ⟨start, hstart, hnext, _⟩ := h a ha
      have hnow := hclock now rfl
      have hle : (m.heap a).next ≤ addSize now (m.heap a).ms := by
        rw [addSize_of_lt hwrap]
        omega
      exact (hall a ha).trans (by exact_mod_cast hle)
  | rescheduled _ harmed htickles =>
      rw [or_iff_not_imp_left, Bool.not_eq_true]
      intro hsilent
      obtain ⟨hall, hle⟩ := htickles.le_of_silent hasleep hsilent
      exact harmed.allTimers hall hle
  | @listed now _ due later _ hlisted =>
      rw [hlisted.collected.tickled]
      refine hasleep.imp_right fun hall => hlisted.allTimers hholds hall ?_
      intro a ha
      have hmem : a ∈ m.timers := hlisted.split ▸ List.mem_append_left _ ha
      have hdue := (hlisted.expired a ha).resolve_left (by simp [show _ = _ from hroll])
      have hle : (m.heap a).next ≤ addSize now (m.heap a).ms := by
        rw [addSize_of_lt (hwrap a hmem)]
        omega
      exact (hall a hmem).trans (by exact_mod_cast hle)
  | slept => exact Or.inr (frontDeadline_asleep (hholds.setTickled false))
  | @refused op _ htarget _ _ =>
      cases op with
      | getNextTimer now => cases htarget
      | _ => exact hasleep
  | _ => exact hasleep

/-- `onTimerInsertedAtFront` is called when `m_tickled` becomes true, and only
`getNextTimer` makes it false. -/
theorem Effect.tickled (he : Effect m op outcome m') :
    (op.sleeps = true ∧ outcome.front = false ∧ m'.tickled = false) ∨
      (op.sleeps = false ∧ m'.tickled = (m.tickled || outcome.front) ∧
        (outcome.front = true → m.tickled = false)) := by
  cases he with
  | added _ htickles => exact Or.inr ⟨rfl, htickles.tickled, htickles.called⟩
  | rescheduled _ _ htickles => exact Or.inr ⟨rfl, htickles.tickled, htickles.called⟩
  | slept => exact Or.inl ⟨rfl, rfl, rfl⟩
  | cancelled _ hcancelled =>
      right
      simp [TimerOp.sleeps, TimerOutcome.front, hcancelled.tickled]
  | refreshed _ _ htickled =>
      right
      simp [TimerOp.sleeps, TimerOutcome.front, htickled]
  | listed hlisted =>
      right
      simp [TimerOp.sleeps, TimerOutcome.front, hlisted.collected.tickled]
  | @refused op _ htarget _ _ =>
      right
      cases op with
      | getNextTimer now => cases htarget
      | _ => simp [TimerOp.sleeps, TimerOutcome.front]
  | _ =>
      right
      simp [TimerOp.sleeps, TimerOutcome.front]

end TimerManager

namespace Watch

open TimerManager

variable {w w' : Watch} {label : TimerOp × TimerOutcome} {trace : List (TimerOp × TimerOutcome)}

/-- What holds between critical sections. -/
structure Invariant (w : Watch) : Prop where
  holds : w.manager.Holds []
  based : w.manager.AllTimers (Timer.Based w.latest)
  asleep : w.manager.tickled = true ∨ w.manager.AllTimers (Timer.NotBefore w.deadline)
  calls : w.calls = w.manager.tickled.toNat

theorem new_invariant (heap : Nat → Timer) (now : Nat) : (new heap now).Invariant where
  holds := new_holds heap now
  based := by simp [AllTimers, new, TimerManager.new]
  asleep := by simp [AllTimers, new, TimerManager.new]
  calls := rfl

theorem Step.invariant (h : w.Invariant) (hstep : w.Step label w') : w'.Invariant := by
  have he := TimerManager.Step.effect h.holds hstep.step
  rw [hstep.record]
  refine ⟨he.holds h.holds, he.based h.holds h.based hstep.noWrap, ?_, ?_⟩
  · exact he.asleep h.holds h.based hstep.clock hstep.noWrap hstep.noRollover h.asleep
  · simp only [Watch.record, h.calls]
    rcases he.tickled with ⟨hsleeps, _, htickled⟩ | ⟨hsleeps, htickled, hcalled⟩
    · simp [hsleeps, htickled]
    · rw [hsleeps, htickled]
      cases hfront : label.2.front with
      | false => simp
      | true => simp [hcalled hfront]

/-- No wake-up is lost: between critical sections, either `onTimerInsertedAtFront` was
called once since the last `getNextTimer` or no deadline is before the one it saw.
It is called exactly when `m_tickled` becomes true. -/
theorem no_lost_wakeup {heap : Nat → Timer} {now : Nat} (hrun : Run Step (new heap now) trace w) :
    (w.manager.tickled = true ∨
        ∀ id ∈ w.manager.timers, w.deadline ≤ (w.manager.heap id).next) ∧
      w.calls = w.manager.tickled.toNat ∧
      ((∃ id ∈ w.manager.timers, (w.manager.heap id).next < w.deadline) → w.calls = 1) ∧
      ∀ label w', w.Step label w' →
        (label.2.front = true ↔ w.manager.tickled = false ∧ w'.manager.tickled = true) := by
  have h := hrun.invariant (I := Invariant) (fun _ _ _ => Step.invariant) (new_invariant heap now)
  refine ⟨h.asleep, h.calls, ?_, ?_⟩
  · rintro ⟨id, hid, hlt⟩
    have htickled : w.manager.tickled = true := by
      refine h.asleep.resolve_right fun hall => ?_
      exact absurd hlt (not_lt.mpr (hall id hid))
    rw [h.calls, htickled]
    rfl
  · intro label w' hstep
    have he := TimerManager.Step.effect h.holds hstep.step
    rcases he.tickled with ⟨_, hfront, htickled⟩ | ⟨_, htickled, hcalled⟩
    · simp [hfront, htickled]
    · rw [htickled]
      cases hfront : label.2.front with
      | false => simp
      | true => simp [hcalled hfront]

/-- A thread sleeps until 5; a refresh moves that back to 7, and a new timer is due
at 3. -/
theorem no_lost_wakeup_at_three :
    ∃ w, Run Step (new (fun _ => { addr := 0 }) 0)
        [(.addTimer 16 5 1 false 0, .created 0 true), (.getNextTimer 1, .wait 4),
          (.refresh 0 2, .flag true false), (.addTimer 32 1 2 true 2, .created 1 true)] w ∧
      w.calls = w.manager.tickled.toNat := by
  have hsome : ([(.addTimer 16 5 1 false 0, .created 0 true), (.getNextTimer 1, .wait 4),
      (.refresh 0 2, .flag true false), (.addTimer 32 1 2 true 2, .created 1 true)].foldlM step
        (new (fun _ => { addr := 0 }) 0)).isSome = true := by
    decide
  obtain ⟨w, hw⟩ := Option.isSome_iff_exists.mp hsome
  have hrun := Run.of_foldlM (fun _ _ _ => step_some) hw
  exact ⟨w, hrun, (no_lost_wakeup hrun).2.1⟩

end Watch

end Lyslg
