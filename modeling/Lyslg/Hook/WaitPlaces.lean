import Lyslg.Hook.Waiting
/-!
# Who waits, and for what

A call is parked iff its fiber is registered for the event of the call or was scheduled:
no wake-up is lost and none comes twice.  A timer that is armed is the one that a call
in progress is going to cancel.
-/

namespace Lyslg

open Support Support.Machine

namespace Waits

variable {s s' : Waits} {f k : Nat} {slots slots' : List Slots} {label : WaitStep}

/-! ## Registrations -/

/-- The registrations and the scheduled fibers are those of the parked calls. -/
structure Placed (slots : List Slots) (s : Waits) : Prop where
  refines : s.iom.Refines slots
  waiting : ∀ f, (s.calls f).pc.isParked = true →
    (slotAt slots (s.calls f).ctx (s.calls f).event = some (0, .fiber f) ↔ f ∉ s.scheduled)
  registered : ∀ c e n w, slotAt slots c e = some (n, w) → n = 0 ∧ ∃ f, w = .fiber f ∧
    (s.calls f).pc.isParked = true ∧ c = (s.calls f).ctx ∧ e = (s.calls f).event
  parked : ∀ f ∈ s.scheduled, (s.calls f).pc.isParked = true
  once : s.scheduled.Nodup

/-- A step that parks nobody and resumes nobody. -/
theorem Placed.quiet (h : s.Placed slots) (hiom : s'.iom = s.iom)
    (hscheduled : s'.scheduled = s.scheduled)
    (hparked : ∀ f, (s'.calls f).pc.isParked = (s.calls f).pc.isParked)
    (hcall : ∀ f, (s.calls f).pc.isParked = true →
      (s'.calls f).ctx = (s.calls f).ctx ∧ (s'.calls f).event = (s.calls f).event) :
    s'.Placed slots := by
  obtain ⟨h1, h2, h3, h4, h5⟩ := h
  constructor
  · rwa [hiom]
  all_goals grind

theorem Placed.resume {timer : Option Nat} (h : s.Placed slots)
    (hpc : (s.calls f).pc = .parked timer) (hf : f ∈ s.scheduled) :
    Placed slots ({ s with scheduled := s.scheduled.erase f }.goto f (.woken timer)) := by
  have hp : (WaitPc.woken timer).isParked = false := rfl
  have hp' : (s.calls f).pc.isParked = true := by rw [hpc]; rfl
  obtain ⟨h1, h2, h3, h4, h5⟩ := h
  have hmem : ∀ g, g ∈ s.scheduled.erase f ↔ g ≠ f ∧ g ∈ s.scheduled := fun g => h5.mem_erase_iff
  constructor
  · exact h1
  all_goals
    simp only [Waits.goto, Function.update_apply]
  · grind
  · grind
  · grind
  · exact h5.erase f

theorem exec_eq {op : IoOp} {rt : Int} (h : s.exec op = some (rt, s')) :
    ∃ outcome iom, s.iom.exec op = .ok (outcome, iom) ∧ rt = outcome.result ∧ s' = { s with
      iom := iom
      scheduled := s.scheduled ++ outcome.scheduled.filterMap fun d => d.2.2.fiber? } := by
  unfold Waits.exec at h
  split at h
  · cases h
  · rename_i outcome iom heq
    obtain ⟨rfl, rfl⟩ := Prod.mk.inj (Option.some.inj h)
    exact ⟨outcome, iom, heq, rfl, rfl⟩

/-- A section that registers nothing. -/
theorem Placed.exec {op : IoOp} {rt : Int} (h : s.Placed slots)
    (hop : op.external = true)
    (hexec : s.exec op = some (rt, s')) : ∃ slots', s'.Placed slots' := by
  obtain ⟨outcome, iom, hok, -, rfl⟩ := exec_eq hexec
  have hallowed : op.Allowed := by
    cases op with
    | addEvent _ _ _ _ _ => cases hop
    | _ => trivial
  have hreg : op.registers outcome = none := by cases op <;> first | rfl | cases hop
  have hdrops : op.drops = false := by cases op <;> first | rfl | cases hop
  obtain ⟨slots', hstep, hrefines⟩ := h.refines.step ⟨hallowed, hok⟩
  obtain ⟨ctx, events, hsettles⟩ := hstep.settles hreg
  have hleft := hsettles.left
  have hevents : ∀ e, e ∈ events ↔ ∃ d ∈ outcome.scheduled, d.1 = e := by
    intro e
    rw [← hsettles.triggered hdrops, List.mem_map]
  have hgone := hsettles.scheduled
  have hnew : ∀ f, f ∈ outcome.scheduled.filterMap (fun d => d.2.2.fiber?) ↔
      ∃ d ∈ outcome.scheduled, d.2.2 = .fiber f := by
    intro f
    rw [List.mem_filterMap]
    refine exists_congr fun d => and_congr_right fun _ => ?_
    cases d.2.2 <;> simp [Work.fiber?]
  obtain ⟨h1, h2, h3, h4, h5⟩ := h
  have hwas : ∀ d ∈ outcome.scheduled, ∃ f, d.2.2 = .fiber f ∧ (s.calls f).pc.isParked = true ∧
      ctx = (s.calls f).ctx ∧ d.1 = (s.calls f).event ∧ f ∉ s.scheduled := by
    intro d hd
    obtain ⟨hn, f, hf, hp, hc, he⟩ := h3 ctx d.1 d.2.1 d.2.2 (hgone d hd)
    refine ⟨f, hf, hp, hc, he, (h2 f hp).mp ?_⟩
    rw [← hc, ← he, hgone d hd, ← hn, ← hf]
  refine ⟨slots', hrefines, ?_, ?_, ?_, ?_⟩
  all_goals dsimp only
  · intro f hp
    rw [List.mem_append, hnew, hleft]
    have := h2 f hp
    grind
  · intro c e n w hw
    rw [hleft] at hw
    grind
  · intro f hf
    rw [List.mem_append, hnew] at hf
    grind
  · refine List.nodup_append.mpr ⟨h5, ?_, ?_⟩
    · have hnodup := hsettles.nodup
      rw [List.Nodup, List.pairwise_map] at hnodup
      rw [List.Nodup, List.pairwise_filterMap]
      refine hnodup.imp_of_mem fun {d d'} hd hd' hne f hf g hg heq => hne ?_
      obtain ⟨f', hf', -, -, he, -⟩ := hwas d hd
      obtain ⟨g', hg', -, -, he', -⟩ := hwas d' hd'
      rw [hf'] at hf
      rw [hg'] at hg
      obtain rfl := Option.some.inj hf
      obtain rfl := Option.some.inj hg
      rw [he, he', heq]
    · intro f hf g hg
      rw [hnew] at hg
      grind

theorem Placed.addEvent {success : Bool} {timer : Option Nat} {rt : Int} (h : s.Placed slots)
    (hpc : (s.calls f).pc = .adding timer) (hexec : s.exec (s.addOp f success) = some (rt, s')) :
    ∃ slots', (s'.goto f (if rt = 0 then .parked timer else .refused timer)).Placed slots' := by
  obtain ⟨outcome, iom, hok, rfl, rfl⟩ := exec_eq hexec
  have hallowed : (s.addOp f success).Allowed := rfl
  obtain ⟨slots', hstep, hrefines⟩ := h.refines.step ⟨hallowed, hok⟩
  have hp : (s.calls f).pc.isParked = false := by rw [hpc]; rfl
  have hp0 : (WaitPc.parked timer).isParked = true := rfl
  have hp1 : (WaitPc.refused timer).isParked = false := rfl
  obtain ⟨h1, h2, h3, h4, h5⟩ := h
  by_cases hzero : outcome.result = 0
  · have hreg : (s.addOp f success).registers outcome =
        some ((s.calls f).ctx, (s.calls f).event, 0, .fiber f) := by
      simp [Waits.addOp, IoOp.registers, hzero]
    obtain ⟨hnone, hfree, hslot⟩ := hstep.enters hreg
    rw [if_pos hzero, hnone]
    refine ⟨slots', hrefines, ?_, ?_, ?_, ?_⟩
    all_goals
      simp only [Waits.goto, Function.update_apply, List.filterMap_nil, List.append_nil]
    · intro g hg
      rw [hslot]
      have := h2 g
      grind
    · intro c e n w hw
      rw [hslot] at hw
      grind
    · intro g hg
      grind
    · exact h5
  · have hreg : (s.addOp f success).registers outcome = none := by
      simp [Waits.addOp, IoOp.registers, hzero]
    obtain ⟨ctx, events, hsettles⟩ := hstep.settles hreg
    have hnone : outcome.scheduled = [] := by
      refine List.eq_nil_iff_forall_not_mem.mpr fun d hd => ?_
      cases hsettles.context d hd
    have hevents : events = [] := by rw [← hsettles.triggered rfl, hnone]; rfl
    have hslot : ∀ c e, slotAt slots' c e = slotAt slots c e := by
      intro c e
      rw [hsettles.left, hevents]
      simp
    rw [if_neg hzero, hnone]
    refine ⟨slots', hrefines, ?_, ?_, ?_, ?_⟩
    all_goals
      simp only [Waits.goto, Function.update_apply, List.filterMap_nil, List.append_nil]
    · intro g hg
      rw [hslot]
      have := h2 g
      grind
    · intro c e n w hw
      rw [hslot] at hw
      grind
    · intro g hg
      grind
    · exact h5

/-! ## Timers -/

/-- The timers and the calls fit together. -/
structure Timed (s : Waits) : Prop where
  /-- an armed timer is the one that a call is going to cancel -/
  current : ∀ k, (s.timers k).phase = .armed → ∃ f, (s.calls f).pc.timer = some k
  owner : ∀ f k, (s.calls f).pc.timer = some k → k < s.timerCount ∧
    (s.timers k).info = (s.calls f).info ∧ (s.timers k).ctx = (s.calls f).ctx ∧
      (s.timers k).event = (s.calls f).event
  given : ∀ f, (s.calls f).pc.armed = true → (s.calls f).pc.timer.isSome = (s.calls f).timed
  alive : ∀ f, (s.calls f).pc.inProgress = true → (s.infos (s.calls f).info).alive = true
  used : ∀ f, (s.calls f).pc ≠ .idle → (s.calls f).info < s.infoCount
  distinct : ∀ f g, (s.calls f).pc ≠ .idle → (s.calls g).pc ≠ .idle →
    (s.calls f).info = (s.calls g).info → f = g
  old : ∀ k, k < s.timerCount → (s.timers k).info < s.infoCount
  fresh : ∀ k, s.timerCount ≤ k → (s.timers k).phase = .over
  sameCall : ∀ f k, (s.calls f).pc ≠ .idle → k < s.timerCount →
    (s.timers k).info = (s.calls f).info → (s.calls f).timed = true ∧
      (s.timers k).ctx = (s.calls f).ctx ∧ (s.timers k).event = (s.calls f).event
  ran : ∀ i, (s.infos i).cancelled = true → ∃ k, k < s.timerCount ∧ (s.timers k).info = i ∧
    ((s.timers k).phase = .firing ∨ (s.timers k).phase = .over)
  result : ∀ f, (s.calls f).pc = .returned .timedOut →
    (s.infos (s.calls f).info).cancelled = true
  /-- the callback of the timer that a call is going to cancel was not run in vain -/
  pending : ∀ f k, (s.calls f).pc.timer = some k →
    (s.infos (s.calls f).info).cancelled = false →
      (s.timers k).phase = .armed ∨ (s.timers k).phase = .expired
  fired : ∀ k, (s.timers k).phase = .firing → (s.infos (s.timers k).info).cancelled = true
  onlyFiring : ∀ k k', (s.timers k).phase = .firing → (s.timers k').phase = .firing →
    (s.timers k).info = (s.timers k').info → k = k'

theorem ne_idle_of_inProgress {pc : WaitPc} (h : pc.inProgress = true) : pc ≠ .idle := by
  rintro rfl
  cases h

theorem ne_idle_of_timer {pc : WaitPc} (h : pc.timer = some k) : pc ≠ .idle := by
  rintro rfl
  cases h

theorem inProgress_of_timer {pc : WaitPc} (h : pc.timer = some k) : pc.inProgress = true := by
  cases pc <;> first | rfl | cases h

theorem Timed.goto (h : s.Timed) (pc : WaitPc)
    (hold : (s.calls f).pc.inProgress = true) (hnew : pc.inProgress = true)
    (harmed : pc.armed = true → (s.calls f).pc.armed = true)
    (htimer : pc.timer = (s.calls f).pc.timer ∨
      pc.timer = none ∧ pc.armed = false ∧ ∀ k, (s.calls f).pc.timer = some k →
      (s.timers k).phase ≠ .armed) :
    (s.goto f pc).Timed := by
  have hne := ne_idle_of_inProgress hold
  have hne' := ne_idle_of_inProgress hnew
  have hnr : ∀ r, pc ≠ .returned r := by rintro r h; simp [h, WaitPc.inProgress] at hnew
  obtain ⟨h1, h2, h3, h4, h5, h6, h7, h8, h9, h10, h11, h12, h13, h14⟩ := h
  constructor
  all_goals
    simp only [Waits.goto, Function.update_apply]
    grind

theorem Timed.setPhase (h : s.Timed) (phase : TimerPhase) (hk : k < s.timerCount)
    (hphase : phase = .expired ∨ phase = .over)
    (hran : (s.timers k).phase = .firing ∨ (s.timers k).phase = .over →
      phase = .firing ∨ phase = .over)
    (hpending : ∀ f, (s.calls f).pc.timer = some k →
      (s.infos (s.calls f).info).cancelled = false → phase = .expired) :
    (s.setPhase k phase).Timed := by
  obtain ⟨h1, h2, h3, h4, h5, h6, h7, h8, h9, h10, h11, h12, h13, h14⟩ := h
  constructor
  all_goals
    simp only [Waits.setPhase, Function.update_apply]
    grind

theorem Timed.finish (h : s.Timed) (result : WaitResult)
    (hold : (s.calls f).pc.inProgress = true)
    (htimer : ∀ k, (s.calls f).pc.timer = some k → (s.timers k).phase ≠ .armed)
    (hresult : result = .timedOut → (s.infos (s.calls f).info).cancelled = true) :
    (s.finish f result).Timed := by
  have hne := ne_idle_of_inProgress hold
  have hidle : ∀ f, (s.calls f).pc.inProgress = true → (s.calls f).pc ≠ .idle :=
    fun _ => ne_idle_of_inProgress
  have hpc : (WaitPc.returned result).timer = none := rfl
  have hpa : (WaitPc.returned result).armed = false := rfl
  have hpi : (WaitPc.returned result).inProgress = false := rfl
  obtain ⟨h1, h2, h3, h4, h5, h6, h7, h8, h9, h10, h11, h12, h13, h14⟩ := h
  constructor
  all_goals
    simp only [Waits.finish, Waits.goto, Waits.setInfo, Function.update_apply]
    grind

/-- `timer->cancel()`, after which the call goes on or returns. -/
theorem Timed.cancelTimer {pc : WaitPc} (h : s.Timed) (hold : (s.calls f).pc.armed = true)
    (hnew : pc = .checking ∨ pc = .asking) :
    ((s.cancelTimer (s.calls f).pc.timer).goto f pc).Timed := by
  have hprogress : (s.calls f).pc.inProgress = true := by
    cases hp : (s.calls f).pc <;> first | rfl | (rw [hp] at hold; cases hold)
  have hpc : pc.timer = none ∧ pc.armed = false ∧ pc.inProgress = true ∧ pc ≠ .idle ∧
      pc ≠ .returned .timedOut := by
    rcases hnew with rfl | rfl <;> simp [WaitPc.timer, WaitPc.armed, WaitPc.inProgress]
  have hgoto (hk : ∀ k, (s.calls f).pc.timer = some k → (s.timers k).phase ≠ .armed) :
      (s.goto f pc).Timed :=
    h.goto pc hprogress hpc.2.2.1 (fun h => absurd h (by simp [hpc.2.1]))
      (.inr ⟨hpc.1, hpc.2.1, hk⟩)
  cases htimer : (s.calls f).pc.timer with
  | none => exact hgoto (by simp [htimer])
  | some k =>
      unfold Waits.cancelTimer
      dsimp only
      split
      · rename_i harmed
        have hne := ne_idle_of_inProgress hprogress
        have hidle : ∀ f k, (s.calls f).pc.timer = some k → (s.calls f).pc ≠ .idle :=
          fun _ _ => ne_idle_of_timer
        obtain ⟨h1, h2, h3, h4, h5, h6, h7, h8, h9, h10, h11, h12, h13, h14⟩ := h
        constructor
        all_goals
          simp only [Waits.goto, Waits.setPhase, Function.update_apply]
          grind
      · rename_i harmed
        exact hgoto fun k' hk' => by
          rw [htimer] at hk'
          rwa [← Option.some.inj hk']

theorem Timed.arm (h : s.Timed) (hpc : (s.calls f).pc = .arming) : (s.arm f).Timed := by
  have hfresh : (s.calls f).pc.timer = none := by rw [hpc]; rfl
  have halive := h.alive f (by rw [hpc]; rfl)
  have hlt : ∀ g k, (s.calls g).pc.timer = some k → k < s.timerCount :=
    fun g k hk => (h.owner g k hk).1
  have hne : (s.calls f).pc ≠ .idle := by simp [hpc]
  have h1' : ∀ t, (WaitPc.adding t).timer = t := fun _ => rfl
  have h2' : ∀ t, (WaitPc.adding t).armed = true := fun _ => rfl
  obtain ⟨h1, h2, h3, h4, h5, h6, h7, h8, h9, h10, h11, h12, h13, h14⟩ := h
  unfold Waits.arm
  dsimp only
  split
  · constructor
    all_goals
      simp only [Waits.goto, Function.update_apply]
      grind
  · constructor
    all_goals
      simp only [Waits.goto, Function.update_apply]
      grind

theorem Timed.callback (h : s.Timed) (hphase : (s.timers k).phase = .expired) :
    (s.callback k).Timed := by
  have hk : k < s.timerCount := by
    by_contra hk
    have := h.fresh k (by omega)
    rw [hphase] at this
    cases this
  unfold Waits.callback
  dsimp only
  split
  · rename_i hvain
    refine h.setPhase .over hk (.inr rfl) (fun _ => .inr rfl) fun f hf hlive => ?_
    have halive := h.alive f (inProgress_of_timer hf)
    rw [(h.owner f k hf).2.1] at hvain
    simp [halive, hlive] at hvain
  · obtain ⟨h1, h2, h3, h4, h5, h6, h7, h8, h9, h10, h11, h12, h13, h14⟩ := h
    constructor
    all_goals
      simp only [Waits.setPhase, Waits.setInfo, Function.update_apply]
      grind

theorem Timed.start (h : s.Timed) (kind : WaitKind) (ctx : Nat) (event : IoEvent) (timed : Bool)
    (hpc : (s.calls f).pc.inProgress = false) :
    Timed { s with
      calls := Function.update s.calls f
        { kind := kind, ctx := ctx, event := event, timed := timed, info := s.infoCount,
          pc := .trying }
      infos := Function.update s.infos s.infoCount { alive := true }
      infoCount := s.infoCount + 1 } := by
  have hnone : (s.calls f).pc.timer = none := by
    cases hp : (s.calls f).pc <;> first | rfl | (rw [hp] at hpc; cases hpc)
  have hidle : ∀ f, (s.calls f).pc.inProgress = true → (s.calls f).pc ≠ .idle :=
    fun _ => ne_idle_of_inProgress
  have hp1 : ∀ f r, (s.calls f).pc = .returned r → (s.calls f).pc ≠ .idle := by
    intro f r hr h
    rw [h] at hr
    cases hr
  have htimer : ∀ f k, (s.calls f).pc.timer = some k → (s.calls f).pc ≠ .idle :=
    fun _ _ => ne_idle_of_timer
  have h1' : WaitPc.trying.timer = none := rfl
  have h2' : WaitPc.trying.armed = false := rfl
  obtain ⟨h1, h2, h3, h4, h5, h6, h7, h8, h9, h10, h11, h12, h13, h14⟩ := h
  constructor
  all_goals
    simp only [Function.update_apply]
    grind

theorem finish_goto (s : Waits) (f : Nat) (pc : WaitPc) (result : WaitResult) :
    (s.goto f pc).finish f result = s.finish f result := by
  simp [Waits.finish, Waits.goto, Waits.setInfo]

theorem Timed.exec {op : IoOp} {rt : Int} (h : s.Timed) (hexec : s.exec op = some (rt, s')) :
    s'.Timed := by
  obtain ⟨outcome, iom, -, -, rfl⟩ := exec_eq hexec
  exact ⟨h.current, h.owner, h.given, h.alive, h.used, h.distinct, h.old, h.fresh, h.sameCall,
    h.ran, h.result, h.pending, h.fired, h.onlyFiring⟩

theorem lt_timerCount (h : s.Timed) (hk : (s.timers k).phase ≠ .over) : k < s.timerCount := by
  by_contra hle
  exact hk (h.fresh k (Nat.not_lt.mp hle))

/-! ## Runs -/

structure Invariant (s : Waits) : Prop where
  placed : ∃ slots, s.Placed slots
  timed : s.Timed

theorem invariant_init : Invariant {} where
  placed := ⟨[], ⟨⟨rfl, rfl, by decide⟩, nofun, nofun, nofun, List.nodup_nil⟩⟩
  timed := by
    constructor
    all_goals simp [WaitPc.timer, WaitPc.armed, WaitPc.inProgress]

/-- A step that leaves the manager alone and neither parks nor resumes. -/
theorem Invariant.keep (h : s.Invariant) (hiom : s'.iom = s.iom)
    (hscheduled : s'.scheduled = s.scheduled)
    (hcalls : ∀ g, s'.calls g = s.calls g ∨
      ((s'.calls g).pc.isParked = false ∧ (s.calls g).pc.isParked = false))
    (htimed : s'.Timed) : s'.Invariant := by
  obtain ⟨slots, hplaced⟩ := h.placed
  refine ⟨⟨slots, hplaced.quiet hiom hscheduled (fun g => ?_) fun g hg => ?_⟩, htimed⟩
  · rcases hcalls g with hsame | ⟨hnew, hold⟩
    · rw [hsame]
    · rw [hnew, hold]
  · rcases hcalls g with hsame | ⟨-, hold⟩
    · rw [hsame]
      exact ⟨rfl, rfl⟩
    · rw [hold] at hg
      cases hg

/-- Only fiber `f` moves, and it is not parked before or after. -/
theorem calls_update {call : WaitCall} (hcalls : s'.calls = Function.update s.calls f call)
    (hnew : call.pc.isParked = false) (hold : (s.calls f).pc.isParked = false) (g : Nat) :
    s'.calls g = s.calls g ∨
      ((s'.calls g).pc.isParked = false ∧ (s.calls g).pc.isParked = false) := by
  by_cases hg : g = f
  · subst hg
    rw [hcalls, Function.update_self]
    exact .inr ⟨hnew, hold⟩
  · rw [hcalls, Function.update_of_ne hg]
    exact .inl rfl

theorem cancelTimer_calls (s : Waits) (timer : Option Nat) :
    (s.cancelTimer timer).calls = s.calls ∧ (s.cancelTimer timer).iom = s.iom ∧
      (s.cancelTimer timer).scheduled = s.scheduled ∧ (s.cancelTimer timer).infos = s.infos := by
  unfold Waits.cancelTimer
  split
  · split
    · exact ⟨rfl, rfl, rfl, rfl⟩
    · exact ⟨rfl, rfl, rfl, rfl⟩
  · exact ⟨rfl, rfl, rfl, rfl⟩

/-- `timer->cancel()` and where the call goes on. -/
theorem Invariant.release {timer : Option Nat} {pc : WaitPc} (h : s.Invariant)
    (htimer : (s.calls f).pc.timer = timer) (hold : (s.calls f).pc.armed = true)
    (hparked : (s.calls f).pc.isParked = false) (hnew : pc = .checking ∨ pc = .asking) :
    ((s.cancelTimer timer).goto f pc).Invariant := by
  obtain ⟨hcalls, hiom, hscheduled, -⟩ := s.cancelTimer_calls timer
  have hupdate : ((s.cancelTimer timer).goto f pc).calls =
      Function.update s.calls f { s.calls f with pc := pc } := by
    rw [Waits.goto, hcalls]
  refine h.keep hiom hscheduled (calls_update hupdate ?_ hparked) ?_
  · rcases hnew with rfl | rfl <;> rfl
  · subst htimer
    exact h.timed.cancelTimer hold hnew

theorem Invariant.finish (h : s.Invariant) (result : WaitResult)
    (hold : (s.calls f).pc.inProgress = true) (htimer : (s.calls f).pc.timer = none)
    (hparked : (s.calls f).pc.isParked = false)
    (hresult : result = .timedOut → (s.infos (s.calls f).info).cancelled = true) :
    (s.finish f result).Invariant := by
  refine h.keep rfl rfl (calls_update rfl rfl hparked) ?_
  exact h.timed.finish result hold (by simp [htimer]) hresult

theorem Invariant.goto {pc : WaitPc} (h : s.Invariant) (hold : (s.calls f).pc.inProgress = true)
    (htimer : (s.calls f).pc.timer = none) (hparked : (s.calls f).pc.isParked = false)
    (hnew : pc = .trying ∨ pc = .arming ∨ pc = .asking) : (s.goto f pc).Invariant := by
  have hpc : pc.timer = none ∧ pc.armed = false ∧ pc.inProgress = true ∧ pc.isParked = false := by
    rcases hnew with rfl | rfl | rfl <;> exact ⟨rfl, rfl, rfl, rfl⟩
  refine h.keep rfl rfl (calls_update rfl hpc.2.2.2 hparked) ?_
  exact h.timed.goto pc hold hpc.2.2.1 (fun h => absurd h (by simp [hpc.2.1]))
    (.inl (hpc.1.trans htimer.symm))

theorem Invariant.step (h : s.Invariant) (hstep : s.step label = some s') : s'.Invariant := by
  obtain ⟨slots, hplaced⟩ := h.placed
  unfold Waits.step at hstep
  cases label with
  | start f kind ctx event timed =>
      dsimp only at hstep
      split at hstep
      · rename_i hstart
        obtain rfl := Option.some.inj hstep
        refine h.keep rfl rfl (calls_update rfl rfl ?_)
          (h.timed.start kind ctx event timed hstart.1)
        cases hpc : (s.calls f).pc <;> first | rfl | (rw [hpc] at hstart; cases hstart.1)
      · cases hstep
  | attempt f again =>
      dsimp only at hstep
      split at hstep
      · rename_i hpc
        obtain rfl := Option.some.inj hstep
        cases again with
        | true =>
            exact h.goto (by rw [hpc]; rfl) (by rw [hpc]; rfl) (by rw [hpc]; rfl)
              (.inr (.inl rfl))
        | false =>
            exact h.finish .original (by rw [hpc]; rfl) (by rw [hpc]; rfl) (by rw [hpc]; rfl)
              nofun
      · cases hstep
  | arm f =>
      dsimp only at hstep
      split at hstep
      · rename_i hpc
        obtain rfl := Option.some.inj hstep
        have hcalls : ∃ timer, (s.arm f).calls =
            Function.update s.calls f { s.calls f with pc := .adding timer } ∧
              (s.arm f).iom = s.iom ∧ (s.arm f).scheduled = s.scheduled := by
          unfold Waits.arm
          dsimp only
          split
          · exact ⟨some s.timerCount, rfl, rfl, rfl⟩
          · exact ⟨none, rfl, rfl, rfl⟩
        obtain ⟨timer, hcalls, hiom, hscheduled⟩ := hcalls
        exact h.keep hiom hscheduled (calls_update hcalls rfl (by rw [hpc]; rfl))
          (h.timed.arm hpc)
      · cases hstep
  | addEvent f success =>
      dsimp only at hstep
      split at hstep
      · rename_i timer hpc
        obtain ⟨⟨rt, s₁⟩, hexec, rfl⟩ := Option.map_eq_some_iff.mp hstep
        have hcalls : s₁.calls = s.calls := by
          obtain ⟨_, _, -, -, rfl⟩ := exec_eq hexec
          rfl
        have hpc₁ : (s₁.calls f).pc = .adding timer := by rw [hcalls, hpc]
        refine ⟨hplaced.addEvent hpc hexec, ?_⟩
        dsimp only
        split
        · exact (h.timed.exec hexec).goto _ (by rw [hpc₁]; rfl) rfl (fun _ => by rw [hpc₁]; rfl)
            (.inl (by rw [hpc₁]; rfl))
        · exact (h.timed.exec hexec).goto _ (by rw [hpc₁]; rfl) rfl (fun _ => by rw [hpc₁]; rfl)
            (.inl (by rw [hpc₁]; rfl))
      · cases hstep
  | resume f =>
      dsimp only at hstep
      split at hstep
      · rename_i timer hpc
        split at hstep
        · rename_i hf
          obtain rfl := Option.some.inj hstep
          have htimed : Timed { s with scheduled := s.scheduled.erase f } :=
            ⟨h.timed.current, h.timed.owner, h.timed.given, h.timed.alive, h.timed.used,
              h.timed.distinct, h.timed.old, h.timed.fresh, h.timed.sameCall, h.timed.ran,
              h.timed.result, h.timed.pending, h.timed.fired, h.timed.onlyFiring⟩
          exact ⟨⟨slots, hplaced.resume hpc hf⟩, htimed.goto _ (by rw [hpc]; rfl) rfl
            (fun _ => by rw [hpc]; rfl) (.inl (by rw [hpc]; rfl))⟩
        · cases hstep
      · cases hstep
  | cancelTimer f =>
      dsimp only at hstep
      split at hstep
      · rename_i timer hpc
        obtain rfl := Option.some.inj hstep
        exact h.release (by rw [hpc]; rfl) (by rw [hpc]; rfl) (by rw [hpc]; rfl) (.inl rfl)
      · rename_i timer hpc
        obtain rfl := Option.some.inj hstep
        cases (s.calls f).kind with
        | connect =>
            exact h.release (by rw [hpc]; rfl) (by rw [hpc]; rfl) (by rw [hpc]; rfl) (.inr rfl)
        | io =>
            have hchecking : ((s.cancelTimer timer).goto f .checking).Invariant :=
              h.release (by rw [hpc]; rfl) (by rw [hpc]; rfl) (by rw [hpc]; rfl) (.inl rfl)
            have hpc' : (((s.cancelTimer timer).goto f .checking).calls f).pc = .checking := by
              simp [Waits.goto]
            dsimp only
            rw [← finish_goto _ f .checking]
            exact hchecking.finish .refused (by rw [hpc']; rfl) (by rw [hpc']; rfl)
              (by rw [hpc']; rfl) nofun
      · cases hstep
  | check f =>
      dsimp only at hstep
      split at hstep
      · rename_i hpc
        obtain rfl := Option.some.inj hstep
        split
        · rename_i hcancelled
          exact h.finish .timedOut (by rw [hpc]; rfl) (by rw [hpc]; rfl) (by rw [hpc]; rfl)
            fun _ => hcancelled
        · cases (s.calls f).kind with
          | io =>
              exact h.goto (by rw [hpc]; rfl) (by rw [hpc]; rfl) (by rw [hpc]; rfl) (.inl rfl)
          | connect =>
              exact h.goto (by rw [hpc]; rfl) (by rw [hpc]; rfl) (by rw [hpc]; rfl)
                (.inr (.inr rfl))
      · cases hstep
  | ask f =>
      dsimp only at hstep
      split at hstep
      · rename_i hpc
        obtain rfl := Option.some.inj hstep
        exact h.finish .original (by rw [hpc]; rfl) (by rw [hpc]; rfl) (by rw [hpc]; rfl) nofun
      · cases hstep
  | expire k =>
      dsimp only at hstep
      split at hstep
      · rename_i hphase
        obtain rfl := Option.some.inj hstep
        refine h.keep rfl rfl (fun g => .inl rfl) (h.timed.setPhase .expired ?_ (.inl rfl) ?_
          fun _ _ _ => rfl)
        · exact lt_timerCount h.timed (by rw [hphase]; nofun)
        · rw [hphase]
          rintro (h | h) <;> cases h
      · cases hstep
  | callback k =>
      dsimp only at hstep
      split at hstep
      · rename_i hphase
        obtain rfl := Option.some.inj hstep
        have hsame : (s.callback k).calls = s.calls ∧ (s.callback k).iom = s.iom ∧
            (s.callback k).scheduled = s.scheduled := by
          unfold Waits.callback
          dsimp only
          split
          · exact ⟨rfl, rfl, rfl⟩
          · exact ⟨rfl, rfl, rfl⟩
        exact h.keep hsame.2.1 hsame.2.2 (fun g => .inl (by rw [hsame.1]))
          (h.timed.callback hphase)
      · cases hstep
  | cancelEvent k success =>
      dsimp only at hstep
      split at hstep
      · rename_i hphase
        obtain ⟨⟨rt, s₁⟩, hexec, rfl⟩ := Option.map_eq_some_iff.mp hstep
        obtain ⟨slots', hplaced'⟩ := hplaced.exec rfl hexec
        have htimed := h.timed.exec hexec
        have hsame : s₁.timers = s.timers ∧ s₁.timerCount = s.timerCount := by
          obtain ⟨_, _, -, -, rfl⟩ := exec_eq hexec
          exact ⟨rfl, rfl⟩
        have hmid : s₁.Invariant := ⟨⟨slots', hplaced'⟩, htimed⟩
        have hphase' : (s₁.timers k).phase = .firing := by rw [hsame.1, hphase]
        refine hmid.keep rfl rfl (fun g => .inl rfl) (htimed.setPhase .over
          (lt_timerCount htimed (by rw [hphase']; nofun)) (.inr rfl) (fun _ => .inr rfl) ?_)
        intro f hf hlive
        rcases htimed.pending f k hf hlive with h | h <;> rw [hphase'] at h <;> cases h
      · cases hstep
  | io op =>
      dsimp only at hstep
      split at hstep
      · rename_i hop
        obtain ⟨⟨rt, s₁⟩, hexec, rfl⟩ := Option.map_eq_some_iff.mp hstep
        exact ⟨hplaced.exec hop hexec, h.timed.exec hexec⟩
      · cases hstep

theorem run_invariant {trace : List WaitStep} (h : Run Step {} trace s) : s.Invariant :=
  h.invariant (I := Invariant) (fun _ _ _ hI hstep => hI.step hstep) invariant_init

/-- A call is parked iff it is registered or was scheduled, and not both; nothing of a call
that returned can still wake anybody, and it timed out only if the callback of a timer that was
armed for it ran. -/
theorem run_waits (trace : List WaitStep) (s : Waits) (h : Run Step {} trace s) :
    (∃ slots, s.iom.Refines slots ∧ s.scheduled.Nodup ∧ ∀ f,
      ((s.calls f).pc.isParked = true →
        (slotAt slots (s.calls f).ctx (s.calls f).event = some (0, .fiber f) ↔
          f ∉ s.scheduled)) ∧
      ((s.calls f).pc.isParked = false →
        f ∉ s.scheduled ∧ ∀ c e n, slotAt slots c e ≠ some (n, .fiber f))) ∧
    ∀ f result, (s.calls f).pc = .returned result →
      (∀ k, (s.timers k).info = (s.calls f).info → (s.timers k).phase ≠ .armed) ∧
      (result = .timedOut → (s.calls f).timed = true ∧ ∃ k < s.timerCount,
        (s.timers k).info = (s.calls f).info ∧
          ((s.timers k).phase = .firing ∨ (s.timers k).phase = .over)) := by
  obtain ⟨⟨slots, hplaced⟩, htimed⟩ := run_invariant h
  refine ⟨⟨slots, hplaced.refines, hplaced.once, fun f => ⟨hplaced.waiting f, ?_⟩⟩, ?_⟩
  · intro hout
    refine ⟨fun hin => ?_, fun c e n hslot => ?_⟩
    · rw [hplaced.parked f hin] at hout
      cases hout
    · obtain ⟨-, g, hg, hparked, -⟩ := hplaced.registered c e n _ hslot
      obtain rfl := Work.fiber.inj hg
      rw [hparked] at hout
      cases hout
  · intro f result hpc
    have hne : (s.calls f).pc ≠ .idle := by simp [hpc]
    refine ⟨fun k hk harmed => ?_, ?_⟩
    · obtain ⟨g, hg⟩ := htimed.current k harmed
      obtain ⟨-, hinfo, -⟩ := htimed.owner g k hg
      have hsame := htimed.distinct f g hne (ne_idle_of_timer hg) (hk.symm.trans hinfo)
      rw [← hsame, hpc] at hg
      cases hg
    · rintro rfl
      obtain ⟨k, hlt, hinfo, hran⟩ := htimed.ran _ (htimed.result f hpc)
      exact ⟨(htimed.sameCall f k hne hlt hinfo).1, k, hlt, hinfo, hran⟩

/-- A read on context 1 that times out. -/
def readTimesOut : List WaitStep :=
  [.io (.resize 2), .start 7 .io 1 .read true, .attempt 7 true, .arm 7, .addEvent 7 true,
    .expire 0, .callback 0, .cancelEvent 0 true, .resume 7, .cancelTimer 7, .check 7]

theorem run_waits_times_out :
    ∃ s, Run Step {} readTimesOut s ∧ (s.calls 7).pc = .returned .timedOut ∧
      ∃ k < s.timerCount, (s.timers k).info = (s.calls 7).info ∧
        ((s.timers k).phase = .firing ∨ (s.timers k).phase = .over) := by
  have hexec : ((readTimesOut.foldlM step {}).any fun s =>
      (s.calls 7).pc = .returned .timedOut) = true := by
    decide
  obtain ⟨s, hs, hpc⟩ := (Option.any_eq_true _ _).mp hexec
  have hrun : Run Step {} readTimesOut s := Run.of_steps hs
  have hreturned := of_decide_eq_true hpc
  exact ⟨s, hrun, hreturned, (((run_waits readTimesOut s hrun).2 7 _ hreturned).2 rfl).2⟩

end Waits

end Lyslg
