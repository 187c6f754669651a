import Lyslg.Timer.SetInvariant
/-!
# The front of the set in `listExpiredCb`

A call of `listExpiredCb` tests under the read lock that there is a timer, and
looks at the first one under the write lock, later.  Here the calls of several
threads are kept apart: each thread inside has left the first section and still
has the second one before it, with the clock reading it started from.

What counts is which sections leave the set empty, `TimerOp.Empties`.
-/

namespace Lyslg

open Support Support.Machine

/-- After the operation there is no timer in the set. -/
def TimerOp.Empties (m : TimerManager) : TimerOp → Prop
  | .addTimer _ _ _ _ _ => False
  | .cancel id => ∀ a ∈ m.timers, a = id
  | .listExpiredCb now _ => ∀ a ∈ m.timers, (m.heap a).recurring = false ∧
      ((m.detectClockRollover now).1 = true ∨ (m.heap a).next ≤ now)
  | _ => m.timers = []

/-- `m_previousTime` after the operation. -/
def TimerOp.previousTime (m : TimerManager) : TimerOp → Nat
  | .listExpiredCb now _ => now
  | _ => m.previousTime

namespace TimerManager

variable {m m' : TimerManager} {op : TimerOp} {outcome : TimerOutcome} {id now tmp : Nat}

theorem timers_eq_nil_iff_of_mem {p : Nat → Prop} (h : ∀ a, a ∈ m'.timers ↔ p a ∧ a ∈ m.timers) :
    m'.timers = [] ↔ ∀ a ∈ m.timers, ¬p a := by
  rw [List.eq_nil_iff_forall_not_mem]
  apply forall_congr'
  intro a
  rw [h]
  tauto

theorem Armed.ne_nil {timer : Timer} (h : Armed m id timer m') : m'.timers ≠ [] :=
  List.ne_nil_of_mem ((h.timers id).mpr (Or.inl rfl))

/-- The timers that stay are the recurring ones and those that are not due. -/
theorem Listed.mem_timers {due later : List Nat} (h : Listed m now due later m') (a : Nat) :
    a ∈ m'.timers ↔ ¬((m.heap a).recurring = false ∧
      ((m.detectClockRollover now).1 = true ∨ (m.heap a).next ≤ now)) ∧ a ∈ m.timers := by
  rw [h.collected.timers, h.split, List.mem_append]
  constructor
  · rintro (hlater | ⟨hdue, hrec⟩)
    · obtain ⟨hroll, hnext⟩ := h.waiting a hlater
      refine ⟨?_, Or.inr hlater⟩
      rw [hroll]
      rintro ⟨_, hfalse | hle⟩
      · cases hfalse
      · omega
    · refine ⟨?_, Or.inl hdue⟩
      rintro ⟨hfalse, _⟩
      rw [hrec] at hfalse
      cases hfalse
  · rintro ⟨hstays, hdue | hlater⟩
    · refine Or.inr ⟨hdue, ?_⟩
      by_contra hrec
      exact hstays ⟨by simpa using hrec, h.expired a hdue⟩
    · exact Or.inl hlater

namespace Effect

theorem previousTime_eq (he : Effect m op outcome m') : m'.previousTime = op.previousTime m := by
  cases he with
  | added harmed _ => exact harmed.previousTime
  | cancelled _ hcancelled => exact hcancelled.previousTime
  | refreshed _ harmed _ => exact harmed.previousTime
  | rescheduled _ harmed _ => exact harmed.previousTime
  | listed hlisted => exact hlisted.collected.previousTime
  | refused htarget _ _ =>
      cases op with
      | listExpiredCb now tmp => cases htarget
      | _ => rfl
  | _ => rfl

/-- Which sections leave the set empty. -/
theorem timers_eq_nil_iff (he : Effect m op outcome m') : m'.timers = [] ↔ op.Empties m := by
  cases he with
  | added harmed _ => exact iff_of_false harmed.ne_nil not_false
  | cancelled _ hcancelled =>
      rw [timers_eq_nil_iff_of_mem hcancelled.timers]
      simp [TimerOp.Empties]
  | refreshed hid harmed _ => exact iff_of_false harmed.ne_nil (List.ne_nil_of_mem hid)
  | rescheduled hid harmed _ => exact iff_of_false harmed.ne_nil (List.ne_nil_of_mem hid)
  | listed hlisted =>
      rw [timers_eq_nil_iff_of_mem hlisted.mem_timers]
      simp only [not_not, TimerOp.Empties]
  | refused htarget _ hdead =>
      cases op with
      | cancel id =>
          obtain rfl := Option.some.inj htarget
          constructor
          · intro hnil a ha
            rw [hnil] at ha
            cases ha
          · intro hall
            rw [List.eq_nil_iff_forall_not_mem]
            intro a ha
            obtain rfl := hall a ha
            exact hdead ha
      | refresh id now => exact Iff.rfl
      | reset id ms fromNow now => exact Iff.rfl
      | _ => cases htarget
  | _ => exact Iff.rfl

end Effect

/-- Where `*m_timers.begin()` has no value. -/
theorem listExpiredCb_eq_none_iff :
    m.listExpiredCb now tmp = none ↔ (m.detectClockRollover now).1 = false ∧ m.timers = [] := by
  unfold listExpiredCb
  have hprev : (m.detectClockRollover now).2 = { m with previousTime := now } := rfl
  cases hroll : (m.detectClockRollover now).1 with
  | true => simp only [hroll, if_true, reduceCtorEq, Bool.true_eq_false, false_and]
  | false =>
      simp only [hroll, hprev, Bool.false_eq_true, if_false]
      cases htimers : m.timers with
      | nil => simp
      | cons front rest =>
          by_cases hdue : (m.heap front).next ≤ now
          · simp [hdue]
          · simp [hdue]

end TimerManager

/-! ## Calls from several threads -/

/-- A manager, and the threads between the two sections of `listExpiredCb`, with `now_ms`. -/
structure ListCalls where
  manager : TimerManager
  inside : Nat → Option Nat

/-- A section and the thread it belongs to, where this matters.  `section` is not one of
`listExpiredCb`. -/
inductive ListCallsOp where
  | enter (thread now : Nat)
  | body (thread tmp : Nat)
  | section (op : TimerOp)

namespace ListCalls

/-- A new manager; no thread has called `listExpiredCb`. -/
def new (heap : Nat → Timer) (now : Nat) : ListCalls := ⟨TimerManager.new heap now, fun _ => none⟩

/-- The section that an operation runs. -/
def timerOp (s : ListCalls) : ListCallsOp → Option TimerOp
  | .enter thread now => if s.inside thread = none then some (.listTest now) else none
  | .body thread tmp => (s.inside thread).map fun now => .listExpiredCb now tmp
  | .section op =>
      match op with
      | .listTest _ => none
      | .listExpiredCb _ _ => none
      | op => some op

/-- The threads inside after an operation. -/
def insideAfter (s : ListCalls) : ListCallsOp → Nat → Option Nat
  | .enter thread now =>
      if s.manager.timers.isEmpty then s.inside
      else Function.update s.inside thread (some now)
  | .body thread _ => Function.update s.inside thread none
  | .section _ => s.inside

/-- One critical section. -/
def Step (s : ListCalls) (label : ListCallsOp × TimerOutcome) (s' : ListCalls) : Prop :=
  ∃ op, s.timerOp label.1 = some op ∧ s.manager.Step (op, label.2) s'.manager ∧
    s'.inside = s.insideAfter label.1

/-- The calls after a step with a given outcome. -/
def step (s : ListCalls) (label : ListCallsOp × TimerOutcome) : Option ListCalls :=
  (s.timerOp label.1).bind fun op =>
    (s.manager.step (op, label.2)).map fun m' => ⟨m', s.insideAfter label.1⟩

theorem step_some {s s' : ListCalls} {label : ListCallsOp × TimerOutcome}
    (h : s.step label = some s') : s.Step label s' := by
  obtain ⟨op, hop, hstep⟩ := Option.bind_eq_some_iff.mp h
  obtain ⟨m', hm', rfl⟩ := Option.map_eq_some_iff.mp hstep
  exact ⟨op, hop, TimerManager.step_some hm', rfl⟩

/-- Every thread inside that gets to `*m_timers.begin()` now finds a timer there. -/
def FrontSafe (s : ListCalls) : Prop :=
  ∀ thread now, s.inside thread = some now → (s.manager.detectClockRollover now).1 = false →
    s.manager.timers ≠ []

/-- If the section leaves the set empty, every thread inside after it takes its clock to
have rolled over. -/
def KeepsFront (s : ListCalls) (label : ListCallsOp × TimerOutcome) : Prop :=
  ∀ op, s.timerOp label.1 = some op → op.Empties s.manager →
    ∀ thread now, s.insideAfter label.1 thread = some now →
      (({ s.manager with previousTime := op.previousTime s.manager } :
        TimerManager).detectClockRollover now).1 = true

variable {s s' : ListCalls} {label : ListCallsOp × TimerOutcome}

/-- The threads inside are those whose next section has a result. -/
theorem frontSafe_iff_forall_body : s.FrontSafe ↔
    ∀ thread now tmp, s.inside thread = some now → s.manager.listExpiredCb now tmp ≠ none := by
  constructor
  · intro h thread now tmp hinside hnone
    obtain ⟨hroll, hnil⟩ := TimerManager.listExpiredCb_eq_none_iff.mp hnone
    exact h thread now hinside hroll hnil
  · intro h thread now hinside hroll hnil
    exact h thread now 0 hinside (TimerManager.listExpiredCb_eq_none_iff.mpr ⟨hroll, hnil⟩)

theorem Step.holds (h : s.manager.Holds []) (hstep : s.Step label s') : s'.manager.Holds [] := by
  obtain ⟨op, _, hstep, _⟩ := hstep
  exact TimerManager.Step.holds h hstep

/-- One section. -/
theorem Step.frontSafe_iff (h : s.manager.Holds []) (hstep : s.Step label s') :
    s'.FrontSafe ↔ s.KeepsFront label := by
  obtain ⟨op, hop, hstep, hinside⟩ := hstep
  have he := TimerManager.Step.effect h hstep
  have hroll : ∀ now, (s'.manager.detectClockRollover now).1 =
      (({ s.manager with previousTime := op.previousTime s.manager } :
        TimerManager).detectClockRollover now).1 := by
    intro now
    unfold TimerManager.detectClockRollover
    rw [he.previousTime_eq]
  unfold FrontSafe KeepsFront
  rw [hinside]
  constructor
  · intro hsafe op' hop' hempties thread now hthread
    obtain rfl : op = op' := Option.some.inj (hop.symm.trans hop')
    by_contra hfalse
    rw [← hroll] at hfalse
    exact hsafe thread now hthread (by simpa using hfalse) (he.timers_eq_nil_iff.mpr hempties)
  · intro hkeeps thread now hthread hfalse hnil
    have htrue := hkeeps op hop (he.timers_eq_nil_iff.mp hnil) thread now hthread
    rw [← hroll, hfalse] at htrue
    cases htrue

/-- The runs in which no thread looks at the front of an empty set are those in which no
section empties the set behind a thread that is inside. -/
theorem run_frontSafe_iff (heap : Nat → Timer) (now : Nat)
    (trace : List (ListCallsOp × TimerOutcome)) (s : ListCalls) :
    Run (Run.Ensuring Step FrontSafe) (new heap now) trace s ↔
      Run (Run.Guarded Step KeepsFront) (new heap now) trace s := by
  apply Run.ensuring_iff_guarded (I := fun s => s.manager.Holds [])
  · intro s label t h _ hstep
    exact ⟨hstep.holds h, hstep.frontSafe_iff h⟩
  · exact TimerManager.new_holds heap now
  · intro thread now hinside
    cases hinside

/-- One timer, and the thread that cancels it between the two sections of another. -/
theorem run_reaches_front_of_empty :
    ∃ s, Run Step (new (fun _ => { addr := 0 }) 0)
        [(.section (.addTimer 16 5 1 false 0), .created 0 true), (.enter 1 3, .flag false false),
          (.section (.cancel 0), .flag true false)] s ∧
      s.inside 1 = some 3 ∧ s.manager.timers = [] ∧ ¬s.FrontSafe ∧
      s.manager.listExpiredCb 3 48 = none := by
  have hsome : ([(.section (.addTimer 16 5 1 false 0), .created 0 true),
      (.enter 1 3, .flag false false),
      (.section (.cancel 0), .flag true false)].foldlM step (new (fun _ => { addr := 0 }) 0)).any
        (fun s => s.inside 1 = some 3 && s.manager.timers = [] &&
          (s.manager.detectClockRollover 3).1 = false) = true := by
    decide
  obtain ⟨s, hs, htest⟩ := (Option.any_eq_true _ _).mp hsome
  simp only [Bool.and_eq_true, decide_eq_true_eq] at htest
  obtain ⟨⟨hinside, hnil⟩, hroll⟩ := htest
  refine ⟨s, Run.of_foldlM (fun _ _ _ => step_some) hs, hinside, hnil, ?_, ?_⟩
  · intro hsafe
    exact hsafe 1 3 hinside hroll hnil
  · exact TimerManager.listExpiredCb_eq_none_iff.mpr ⟨hroll, hnil⟩

end ListCalls

end Lyslg
