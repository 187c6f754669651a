import Lyslg.Timer.SetInvariant
/-!
# Timers against the real clock

`GetCurrentMS` returns a `uint16_t`, so deadlines are computed from a clock that
starts again every 65536 milliseconds, and any step back of it is a rollover for
`detectClockRollover`.  Whether a one-shot timer is reported on time therefore
depends on the readings: exactly on whether the first call that sees a step back
or a reading past the deadline is also the first that is due.
-/

namespace Lyslg

open Support Support.Machine

/-- The clock reading of an operation. -/
def TimerOp.reading : TimerOp → Option Nat
  | .addTimer _ _ _ _ now => some now
  | .cancel _ => none
  | .refresh _ now => some now
  | .reset _ _ fromNow now => if fromNow then some now else none
  | .listTest now => some now
  | .listExpiredCb now _ => some now
  | .getNextTimer now => some now

/-- The clock reading of the write-locked part of `listExpiredCb`. -/
def TimerOp.listing : TimerOp → Option Nat
  | .listExpiredCb now _ => some now
  | _ => none

/-- A critical section, what comes out of it, and the real time of its reading. -/
structure TimedLabel where
  real : Nat
  op : TimerOp
  outcome : TimerOutcome

namespace TimerManager

/-- One critical section with the real clock. -/
def TimedStep (m : TimerManager) (label : TimedLabel) (m' : TimerManager) : Prop :=
  m.Step (label.op, label.outcome) m' ∧ ∀ now ∈ label.op.reading, now = getCurrentMS label.real

/-- The manager after a timed step with a given outcome. -/
def timedStep (m : TimerManager) (label : TimedLabel) : Option TimerManager :=
  if label.op.reading.all (· = getCurrentMS label.real) then m.step (label.op, label.outcome)
  else none

theorem timedStep_some {m m' : TimerManager} {label : TimedLabel}
    (h : m.timedStep label = some m') : m.TimedStep label m' := by
  unfold timedStep at h
  split_ifs at h with hreading
  refine ⟨step_some h, ?_⟩
  intro now hnow
  rw [Option.mem_def.mp hnow] at hreading
  simpa using hreading

/-- A timer with period `ms` from `t` on is reported on time: a call of `listExpiredCb`
reports it only if it is due, and the first call that is due does if none did before. -/
def OnTime (t ms id : Nat) (trace : List TimedLabel) : Prop :=
  ∀ pre call post expired, trace = pre ++ call :: post → call.outcome = .cbs expired →
    (id ∈ call.outcome.reported → t + ms ≤ call.real) ∧
      (t + ms ≤ call.real →
        id ∈ call.outcome.reported ∨ ∃ earlier ∈ pre, id ∈ earlier.outcome.reported)

/-- A reading `now` after the reading `prev` is a step back or past the deadline of the
truncated clock. -/
def Signals (t ms prev now : Nat) : Prop := now < prev ∨ getCurrentMS t + ms ≤ now

/-- Up to the first reading that signals the timer, readings signal it when it is due. -/
def Truthful (t ms : Nat) : Nat → List TimedLabel → Prop
  | _, [] => True
  | prev, call :: rest =>
      match call.op.listing with
      | some now =>
          (Signals t ms prev now ↔ t + ms ≤ call.real) ∧
            (¬ Signals t ms prev now → Truthful t ms now rest)
      | none => Truthful t ms prev rest

variable {m m' : TimerManager} {op : TimerOp} {outcome : TimerOutcome} {t ms id : Nat}
  {call : TimedLabel} {rest trace : List TimedLabel}

/-! ## One call -/

/-- Every step back of the truncated clock counts as a rollover, for the hour is
subtracted from less than a minute and a half. -/
theorem detectClockRollover_iff {now : Nat} (hprev : m.previousTime < 2 ^ 16) :
    (m.detectClockRollover now).1 = true ↔ now < m.previousTime := by
  unfold detectClockRollover subSize
  simp only [Bool.and_eq_true, decide_eq_true_eq]
  omega

/-- The timer waits in the set for its truncated deadline. -/
structure Pending (m : TimerManager) (t ms id : Nat) : Prop where
  holds : m.Holds []
  mem : id ∈ m.timers
  once : (m.heap id).recurring = false
  next : (m.heap id).next = getCurrentMS t + ms
  previousTime : m.previousTime < 2 ^ 16

/-- A call reports a waiting timer when the reading signals it. -/
theorem Pending.reported_iff {now : Nat} {due later : List Nat} (h : m.Pending t ms id)
    (hlisted : Listed m now due later m') : id ∈ due ↔ Signals t ms m.previousTime now := by
  have hmem := h.mem
  rw [hlisted.split, List.mem_append] at hmem
  unfold Signals
  rw [← detectClockRollover_iff h.previousTime, ← h.next]
  constructor
  · exact hlisted.expired id
  · intro hsignal
    refine hmem.resolve_right fun hlater => ?_
    obtain ⟨hroll, hnext⟩ := hlisted.waiting id hlater
    rw [hroll] at hsignal
    rcases hsignal with hroll | hle
    · cases hroll
    · omega

/-- Only calls of `listExpiredCb` list callbacks. -/
theorem Effect.listing_cases (he : Effect m op outcome m') :
    (op.listing = none ∧ ∀ expired, outcome ≠ .cbs expired) ∨
      (op.listing = none ∧ m.timers = []) ∨
      ∃ now due later, op.listing = some now ∧
        outcome = .cbs (due.map fun a => (a, (m.heap a).cb)) ∧ Listed m now due later m' := by
  cases he with
  | noTimer hempty => exact Or.inr (Or.inl ⟨rfl, hempty⟩)
  | @listed now _ due later _ hlisted =>
      exact Or.inr (Or.inr ⟨now, due, later, rfl, rfl, hlisted⟩)
  | @refused op _ htarget _ _ =>
      left
      refine ⟨?_, by simp⟩
      cases op with
      | listExpiredCb now tmp => cases htarget
      | _ => rfl
  | _ => exact Or.inl ⟨rfl, by simp⟩

theorem Effect.previousTime (he : Effect m op outcome m') :
    m'.previousTime = op.listing.getD m.previousTime := by
  cases he with
  | added harmed _ => exact harmed.previousTime
  | cancelled _ hcancelled => exact hcancelled.previousTime
  | refreshed _ harmed _ => exact harmed.previousTime
  | rescheduled _ harmed _ => exact harmed.previousTime
  | listed hlisted => exact hlisted.collected.previousTime
  | @refused op _ htarget _ _ =>
      cases op with
      | listExpiredCb now tmp => cases htarget
      | _ => rfl
  | _ => rfl

theorem TimedStep.previousTime_lt (h : m.Holds []) (hstep : m.TimedStep call m')
    (hprev : m.previousTime < 2 ^ 16) : m'.previousTime < 2 ^ 16 := by
  rw [(Step.effect h hstep.1).previousTime]
  cases hop : call.op with
  | listExpiredCb now tmp =>
      have hnow := hstep.2 now (by rw [hop]; rfl)
      simp only [TimerOp.listing, Option.getD_some, hnow]
      exact Nat.mod_lt _ (by decide)
  | _ => exact hprev

theorem Pending.step (h : m.Pending t ms id) (hstep : m.TimedStep call m')
    (htarget : call.op.target ≠ some id) (hreported : id ∉ call.outcome.reported) :
    m'.Pending t ms id := by
  have he := Step.effect h.holds hstep.1
  obtain ⟨hheap, hmem⟩ := he.frame (h.holds.mem_timers.mp h.mem).1 htarget hreported
  refine ⟨he.holds h.holds, hmem.mpr h.mem, ?_, ?_, hstep.previousTime_lt h.holds h.previousTime⟩
  · rw [hheap]
    exact h.once
  · rw [hheap]
    exact h.next

/-! ## Whole runs -/

theorem untimed (hrun : Run TimedStep m trace m') :
    Run Step m (trace.map fun label => (label.op, label.outcome)) m' :=
  hrun.map fun _ _ _ hstep => hstep.1

/-- Every reading the manager remembers is one of the truncated clock. -/
theorem run_previousTime_lt {heap : Nat → Timer} {t₀ : Nat}
    (hrun : Run TimedStep (new heap (getCurrentMS t₀)) trace m) :
    m.Holds [] ∧ m.previousTime < 2 ^ 16 := by
  apply hrun.invariant (I := fun m => m.Holds [] ∧ m.previousTime < 2 ^ 16)
  · intro m label m' h hstep
    exact ⟨Step.holds h.1 hstep.1, TimedStep.previousTime_lt h.1 hstep h.2⟩
  · exact ⟨new_holds heap _, Nat.mod_lt _ (by decide)⟩

theorem reported_of_quiet (hquiet : ∀ expired, outcome ≠ .cbs expired) :
    outcome.reported = [] := by
  cases outcome with
  | cbs expired => exact absurd rfl (hquiet expired)
  | _ => rfl

theorem onTime_cons_of_quiet (hquiet : ∀ expired, call.outcome ≠ .cbs expired) :
    OnTime t ms id (call :: rest) ↔ OnTime t ms id rest := by
  have hreported := reported_of_quiet hquiet
  constructor
  · rintro h pre later post expired rfl hcbs
    have := h (call :: pre) later post expired rfl hcbs
    simpa [hreported] using this
  · intro h pre later post expired hsplit hcbs
    cases pre with
    | nil =>
        obtain ⟨rfl, _⟩ := List.cons.inj hsplit
        exact absurd hcbs (hquiet expired)
    | cons first pre =>
        obtain ⟨rfl, hrest⟩ := List.cons.inj hsplit
        have := h pre later post expired hrest hcbs
        simpa [hreported] using this

theorem onTime_cons_of_cbs {expired : List (Nat × Option Callback)}
    (hcbs : call.outcome = .cbs expired)
    (hlater : id ∈ call.outcome.reported → ∀ later ∈ rest, id ∉ later.outcome.reported) :
    OnTime t ms id (call :: rest) ↔ (id ∈ call.outcome.reported ↔ t + ms ≤ call.real) ∧
      (id ∉ call.outcome.reported → OnTime t ms id rest) := by
  constructor
  · intro h
    have hcall := h [] call rest expired rfl hcbs
    refine ⟨⟨hcall.1, fun hdue => ?_⟩, ?_⟩
    · simpa using hcall.2 hdue
    · rintro hnot pre later post expired rfl hcbs'
      have := h (call :: pre) later post expired rfl hcbs'
      simpa [hnot] using this
  · rintro ⟨hcall, hrest⟩ pre later post expired' hsplit hcbs'
    cases pre with
    | nil =>
        obtain ⟨rfl, _⟩ := List.cons.inj hsplit
        exact ⟨hcall.mp, fun hdue => Or.inl (hcall.mpr hdue)⟩
    | cons first pre =>
        obtain ⟨rfl, rfl⟩ := List.cons.inj hsplit
        by_cases hreported : id ∈ call.outcome.reported
        · refine ⟨fun hin => ?_, fun _ => Or.inr ⟨call, List.mem_cons_self, hreported⟩⟩
          exact absurd hin (hlater hreported later (by simp))
        · have := hrest hreported pre later post expired' rfl hcbs'
          simpa [hreported] using this

/-- By induction over the run, as long as the timer waits. -/
theorem Pending.onTime_iff (hrun : Run TimedStep m trace m') (h : m.Pending t ms id)
    (huntouched : ∀ label ∈ trace, label.op.target ≠ some id) :
    OnTime t ms id trace ↔ Truthful t ms m.previousTime trace := by
  induction hrun with
  | nil => simp [OnTime, Truthful]
  | @cons m m₁ m' call rest hstep hrun ih =>
      have he := Step.effect h.holds hstep.1
      obtain ⟨hcall, hrest⟩ := List.forall_mem_cons.mp huntouched
      have hwaits : id ∉ call.outcome.reported →
          (OnTime t ms id rest ↔ Truthful t ms m₁.previousTime rest) := fun hnot =>
        ih (h.step hstep hcall hnot) hrest
      rw [he.previousTime] at hwaits
      rcases he.listing_cases with ⟨hnone, hquiet⟩ | ⟨_, hempty⟩ | hlisted
      · have hreported : id ∉ call.outcome.reported := by simp [reported_of_quiet hquiet]
        simpa [onTime_cons_of_quiet hquiet, Truthful, hnone] using hwaits hreported
      · have hmem := h.mem
        rw [hempty] at hmem
        cases hmem
      · obtain ⟨now, due, later, hsome, hcbs, hlisted⟩ := hlisted
        have hreported : id ∈ call.outcome.reported ↔ Signals t ms m.previousTime now := by
          rw [← h.reported_iff hlisted, hcbs]
          simp [TimerOutcome.reported]
        have hafter : id ∈ call.outcome.reported → ∀ later ∈ rest, id ∉ later.outcome.reported := by
          intro hin later hlater
          have hdead := he.dead_of_reported h.holds hin h.once
          exact run_dead (untimed hrun) (he.holds h.holds) hdead _ (List.mem_map_of_mem hlater)
        rw [onTime_cons_of_cbs hcbs hafter, hreported]
        simp only [Truthful, hsome]
        apply and_congr_right
        intro _
        apply imp_congr_right
        intro hnot
        simpa [hsome] using hwaits fun hin => hnot (hreported.mp hin)

section OneShot

variable {heap : Nat → Timer} {t₀ addr : Nat} {period : UInt16} {cb : Callback} {front : Bool}
  {before : List TimedLabel} {m₁ : TimerManager}

theorem pending_of_added (hbefore : Run TimedStep (new heap (getCurrentMS t₀)) before m)
    (hadd : m.TimedStep ⟨t, .addTimer addr period cb false (getCurrentMS t),
      .created m.created front⟩ m₁) :
    m₁.Pending t period.toNat m.created ∧ m₁.previousTime = m.previousTime := by
  obtain ⟨h, hprev⟩ := run_previousTime_lt hbefore
  have he := Step.effect h hadd.1
  have hsame : m₁.previousTime = m.previousTime := he.previousTime
  cases he with
  | added harmed _ =>
      have hfits : getCurrentMS t + period.toNat < 2 ^ 64 := by
        have := period.toNat_lt
        unfold getCurrentMS
        omega
      refine ⟨⟨harmed.holds, (harmed.timers _).mpr (Or.inl rfl), ?_, ?_, by rwa [hsame]⟩, hsame⟩
      · rw [harmed.heap, Function.update_self]
      · rw [harmed.heap, Function.update_self]
        exact addSize_of_lt hfits

/-- A one-shot timer is on time exactly in the runs in which the truncated clock tells
the truth about it. -/
theorem oneShot_onTime_iff (hbefore : Run TimedStep (new heap (getCurrentMS t₀)) before m)
    (hadd : m.TimedStep ⟨t, .addTimer addr period cb false (getCurrentMS t),
      .created m.created front⟩ m₁)
    (hrun : Run TimedStep m₁ trace m')
    (huntouched : ∀ label ∈ trace, label.op.target ≠ some m.created) :
    OnTime t period.toNat m.created trace ↔
      Truthful t period.toNat m.previousTime trace := by
  obtain ⟨hpending, hprev⟩ := pending_of_added hbefore hadd
  rw [← hprev]
  exact hpending.onTime_iff hrun huntouched

end OneShot

/-- Added at 65530 for 10 milliseconds, reported at 65536: the reading there is 0. -/
theorem listExpiredCb_early_at_wrap :
    ∃ m₁ m', TimedStep (new (fun _ => { addr := 0 }) (getCurrentMS 65530))
        ⟨65530, .addTimer 16 10 1 false (getCurrentMS 65530), .created 0 true⟩ m₁ ∧
      Run TimedStep m₁ [⟨65536, .listExpiredCb (getCurrentMS 65536) 32, .cbs [(0, some 1)]⟩] m' ∧
      ¬ OnTime 65530 10 0
        [⟨65536, .listExpiredCb (getCurrentMS 65536) 32, .cbs [(0, some 1)]⟩] := by
  have hsome : ([⟨65530, .addTimer 16 10 1 false (getCurrentMS 65530), .created 0 true⟩,
      ⟨65536, .listExpiredCb (getCurrentMS 65536) 32, .cbs [(0, some 1)]⟩].foldlM timedStep
        (new (fun _ => { addr := 0 }) (getCurrentMS 65530))).isSome = true := by
    decide
  obtain ⟨m', hm'⟩ := Option.isSome_iff_exists.mp hsome
  cases Run.of_foldlM (fun _ _ _ => timedStep_some) hm' with
  | @cons _ m₁ _ _ _ hadd hrun =>
      refine ⟨m₁, m', hadd, hrun, ?_⟩
      intro honTime
      have hdue := (honTime [] _ [] _ rfl rfl).1 (by decide)
      exact absurd hdue (by decide)

/-- Added at 100 for 10 milliseconds, asked for at 105 and 110. -/
theorem oneShot_onTime_iff_ten :
    OnTime 100 10 0 [⟨105, .listExpiredCb (getCurrentMS 105) 32, .cbs []⟩,
      ⟨110, .listExpiredCb (getCurrentMS 110) 32, .cbs [(0, some 1)]⟩] := by
  have hsome : ([⟨100, .addTimer 16 10 1 false (getCurrentMS 100), .created 0 true⟩,
      ⟨105, .listExpiredCb (getCurrentMS 105) 32, .cbs []⟩,
      ⟨110, .listExpiredCb (getCurrentMS 110) 32, .cbs [(0, some 1)]⟩].foldlM timedStep
        (new (fun _ => { addr := 0 }) (getCurrentMS 100))).isSome = true := by
    decide
  obtain ⟨m', hm'⟩ := Option.isSome_iff_exists.mp hsome
  cases Run.of_foldlM (fun _ _ _ => timedStep_some) hm' with
  | cons hadd hrun =>
      apply (oneShot_onTime_iff (.nil _) hadd hrun (by simp [TimerOp.target])).mpr
      simp [Truthful, Signals, TimerOp.listing, getCurrentMS, new]

/-! ## Within one period of the truncated clock -/

/-- Readings of one period of the truncated clock tell the truth. -/
theorem truthful_of_window {prev : Nat}
    (hclock : ∀ call ∈ trace, ∀ now ∈ call.op.listing, now = getCurrentMS call.real)
    (hmono : (trace.map TimedLabel.real).Pairwise (· ≤ ·))
    (hwindow : ∀ call ∈ trace, t ≤ call.real ∧ call.real / 2 ^ 16 = t / 2 ^ 16)
    (hprev : ∀ call ∈ trace, prev ≤ getCurrentMS call.real) : Truthful t ms prev trace := by
  induction trace generalizing prev with
  | nil => trivial
  | cons call rest ih =>
      obtain ⟨hcall, hclock⟩ := List.forall_mem_cons.mp hclock
      obtain ⟨hfirst, hmono⟩ := List.pairwise_cons.mp hmono
      obtain ⟨hin, hwindow⟩ := List.forall_mem_cons.mp hwindow
      obtain ⟨hback, hprev⟩ := List.forall_mem_cons.mp hprev
      unfold Truthful
      cases hlisting : call.op.listing with
      | none => exact ih hclock hmono hwindow hprev
      | some now =>
          obtain rfl := hcall now hlisting
          refine ⟨?_, fun _ => ih hclock hmono hwindow ?_⟩
          · unfold Signals getCurrentMS at *
            omega
          · intro later hlater
            have hle := hfirst later.real (List.mem_map_of_mem hlater)
            have hsame := (hwindow later hlater).2
            unfold getCurrentMS
            omega

theorem run_listing (hrun : Run TimedStep m trace m') :
    ∀ call ∈ trace, ∀ now ∈ call.op.listing, now = getCurrentMS call.real := by
  induction hrun with
  | nil => simp
  | @cons _ _ _ call _ hstep _ ih =>
      rw [List.forall_mem_cons]
      refine ⟨?_, ih⟩
      intro now hnow
      apply hstep.2 now
      cases hop : call.op with
      | listExpiredCb now' tmp =>
          rw [hop] at hnow
          exact hnow
      | _ =>
          rw [hop] at hnow
          cases hnow

/-- A one-shot timer is on time while the truncated clock does not start again. -/
theorem oneShot_onTime_of_window {heap : Nat → Timer} {t₀ addr : Nat} {period : UInt16}
    {cb : Callback} {front : Bool} {before : List TimedLabel} {m₁ : TimerManager}
    (hbefore : Run TimedStep (new heap (getCurrentMS t₀)) before m)
    (hadd : m.TimedStep ⟨t, .addTimer addr period cb false (getCurrentMS t),
      .created m.created front⟩ m₁)
    (hrun : Run TimedStep m₁ trace m')
    (huntouched : ∀ label ∈ trace, label.op.target ≠ some m.created)
    (hmono : (trace.map TimedLabel.real).Pairwise (· ≤ ·))
    (hwindow : ∀ call ∈ trace, t ≤ call.real ∧ call.real / 2 ^ 16 = t / 2 ^ 16)
    (hprev : m.previousTime ≤ getCurrentMS t) : OnTime t period.toNat m.created trace := by
  obtain ⟨hpending, hsame⟩ := pending_of_added hbefore hadd
  rw [hpending.onTime_iff hrun huntouched, hsame]
  apply truthful_of_window (run_listing hrun) hmono hwindow
  intro call hcall
  have := hwindow call hcall
  unfold getCurrentMS at *
  omega

end TimerManager

end Lyslg
