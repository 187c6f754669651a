import Lyslg.Hook.WaitPlaces
/-!
# Timeouts that are not lost

A call tries again as long as nobody cancelled it, with one `tinfo` for all its timers.
A callback that comes after the test of `cancelled` and before the next `addEvent`
marks the call and finds nothing to cancel; the timer of the next turn then does nothing.
-/

namespace Lyslg

open Support Support.Machine Support.State

/-- `cancelEvent` on a registered event. -/
theorem IoManager.Refines.cancelEvent_of_some {m : IoManager} {slots : List Slots} {ctx : Nat}
    {event : IoEvent} {registration : Registration} (h : m.Refines slots)
    (hslot : slotAt slots ctx event = some registration) :
    ∃ outcome m', m.exec (.cancelEvent ctx event true) = .ok (outcome, m') ∧
      outcome.scheduled = [(event, registration)] := by
  obtain ⟨s, hs, hget⟩ := Option.bind_eq_some_iff.mp hslot
  obtain ⟨m', htrigger, -⟩ := h.trigger hs hget
  have hexec : m.exec (.cancelEvent ctx event true) = .ok ({
      result := 1
      ctl := some (IoManager.leave s.toContext (s.toContext.events &&& ~~~event.mask))
      scheduled := [(event, registration)] }, m') := by
    change m.cancelEvent ctx event true = _
    unfold IoManager.cancelEvent
    rw [h.context hs, ok_bind, if_neg (Slots.events_and_mask_ne_zero hget)]
    simp only [Bool.not_true, Bool.false_eq_true, if_false, htrigger, ok_bind]
  exact ⟨_, m', hexec, rfl⟩

namespace Waits

variable {s s' : Waits} {f k : Nat} {label : WaitStep}

/-- A step of a timer with this `tinfo`. -/
def OfInfo (s : Waits) (i : Nat) : WaitStep → Prop
  | .expire k | .callback k | .cancelEvent k _ => (s.timers k).info = i
  | _ => False

/-- The timers of the call alone can get its fiber scheduled. -/
def CanTimeOut (s : Waits) (f : Nat) : Prop :=
  ∃ later s', (∀ label ∈ later, s.OfInfo (s.calls f).info label) ∧ Run Step s later s' ∧
    f ∈ s'.scheduled

/-- Every call that waits with a timeout can time out. -/
def TimeoutsKept (s : Waits) : Prop :=
  ∀ f, (s.calls f).pc.isParked = true → (s.calls f).timed = true → f ∉ s.scheduled →
    s.CanTimeOut f

/-- The call registers while it can still be cancelled, and a callback that is to wake its
call is not refused by `epoll_ctl`. -/
def InTime (s : Waits) : WaitStep → Prop
  | .addEvent f true => (s.calls f).timed = true →
      (s.infos (s.calls f).info).cancelled = false ∨
        ∃ k, (s.timers k).info = (s.calls f).info ∧ (s.timers k).phase = .firing
  | .cancelEvent k false => ∀ f, (s.calls f).pc.isParked = true → f ∉ s.scheduled →
      (s.calls f).info ≠ (s.timers k).info
  | _ => True

/-- A timer of the call that is going to wake it. -/
def Wakes (s : Waits) (f : Nat) : Prop :=
  ∃ k, (s.timers k).info = (s.calls f).info ∧ ((s.timers k).phase = .firing ∨
    ((s.timers k).phase = .armed ∨ (s.timers k).phase = .expired) ∧
      (s.infos (s.calls f).info).cancelled = false)

/-! ## From a timer to its call -/

theorem exec_cancelEvent (h : s.Invariant) (hf : (s.calls f).pc.isParked = true)
    (hout : f ∉ s.scheduled) :
    ∃ rt s', s.exec (.cancelEvent (s.calls f).ctx (s.calls f).event true) = some (rt, s') ∧
      f ∈ s'.scheduled := by
  obtain ⟨slots, hplaced⟩ := h.placed
  obtain ⟨outcome, iom, hok, hscheduled⟩ :=
    hplaced.refines.cancelEvent_of_some ((hplaced.waiting f hf).mpr hout)
  refine ⟨outcome.result, _, by rw [Waits.exec, hok], ?_⟩
  simp [hscheduled, Work.fiber?]

theorem firing_schedules (h : s.Invariant) (hf : (s.calls f).pc.isParked = true)
    (hout : f ∉ s.scheduled) (hinfo : (s.timers k).info = (s.calls f).info)
    (hphase : (s.timers k).phase = .firing) :
    ∃ s', s.step (.cancelEvent k true) = some s' ∧ f ∈ s'.scheduled := by
  have hne : (s.calls f).pc ≠ .idle := by
    intro hidle
    rw [hidle] at hf
    cases hf
  have hlt := lt_timerCount h.timed (k := k) (by rw [hphase]; nofun)
  obtain ⟨-, hctx, hevent⟩ := h.timed.sameCall f k hne hlt hinfo
  obtain ⟨rt, s', hexec, hin⟩ := exec_cancelEvent h hf hout
  refine ⟨s'.setPhase k .over, ?_, hin⟩
  rw [Waits.step]
  dsimp only
  rw [if_pos hphase, hctx, hevent, hexec]
  rfl

theorem canTimeOut_of_wakes (h : s.Invariant) (hf : (s.calls f).pc.isParked = true)
    (hout : f ∉ s.scheduled) (hwakes : s.Wakes f) : s.CanTimeOut f := by
  obtain ⟨k, hinfo, hphase⟩ := hwakes
  have halive : (s.infos (s.calls f).info).alive = true := by
    apply h.timed.alive f
    cases hpc : (s.calls f).pc <;> first | rfl | (rw [hpc] at hf; cases hf)
  -- from the callback on
  have hexpired : ∀ s₁ : Waits, s₁.Invariant → s₁.calls = s.calls → s₁.infos = s.infos →
      s₁.scheduled = s.scheduled → (s₁.timers k).info = (s.calls f).info →
      (s₁.timers k).phase = .expired → (s.infos (s.calls f).info).cancelled = false →
      ∃ s₂ s₃, s₁.step (.callback k) = some s₂ ∧ s₂.step (.cancelEvent k true) = some s₃ ∧
        f ∈ s₃.scheduled := by
    intro s₁ hI hcalls hinfos hscheduled hinfo₁ hphase₁ hlive
    have hstep : s₁.step (.callback k) = some (s₁.callback k) := by
      rw [Waits.step]
      exact if_pos hphase₁
    have hcallback : s₁.callback k =
        (s₁.setInfo (s.calls f).info
          { s₁.infos (s.calls f).info with cancelled := true }).setPhase k .firing := by
      unfold Waits.callback
      rw [hinfo₁, if_neg]
      rw [hinfos]
      simp [halive, hlive]
    have hI₂ := hI.step hstep
    obtain ⟨s₃, hlast, hin⟩ := firing_schedules (k := k) hI₂ (f := f) (by
        rw [hcallback]
        change (s₁.calls f).pc.isParked = true
        rw [hcalls, hf]) (by
        rw [hcallback]
        change f ∉ s₁.scheduled
        rw [hscheduled]
        exact hout) (by
        rw [hcallback]
        simp [Waits.setPhase, Waits.setInfo, hinfo₁, hcalls]) (by
        rw [hcallback]
        simp [Waits.setPhase])
    exact ⟨_, s₃, hstep, hlast, hin⟩
  rcases hphase with hfiring | ⟨harmed | hdone, hlive⟩
  · obtain ⟨s', hstep, hin⟩ := firing_schedules h hf hout hinfo hfiring
    exact ⟨[.cancelEvent k true], s', by simpa [OfInfo] using hinfo, .cons hstep (.nil _), hin⟩
  · have hstep : s.step (.expire k) = some (s.setPhase k .expired) := by
      rw [Waits.step]
      exact if_pos harmed
    obtain ⟨s₂, s₃, hcallback, hlast, hin⟩ := hexpired _ (h.step hstep) rfl rfl rfl
      (by simpa [Waits.setPhase] using hinfo) (by simp [Waits.setPhase]) hlive
    exact ⟨[.expire k, .callback k, .cancelEvent k true], s₃, by simpa [OfInfo] using hinfo,
      .cons hstep (.cons hcallback (.cons hlast (.nil _))), hin⟩
  · obtain ⟨s₂, s₃, hcallback, hlast, hin⟩ := hexpired s h rfl rfl rfl hinfo hdone hlive
    exact ⟨[.callback k, .cancelEvent k true], s₃, by simpa [OfInfo] using hinfo,
      .cons hcallback (.cons hlast (.nil _)), hin⟩

/-- A call that its timers do not wake, while only they take steps. -/
structure Forgotten (s : Waits) (f i : Nat) : Prop where
  invariant : s.Invariant
  parked : (s.calls f).pc.isParked = true
  info : (s.calls f).info = i
  out : f ∉ s.scheduled
  asleep : ¬ s.Wakes f

theorem Forgotten.step {i : Nat} (h : s.Forgotten f i) (hlabel : s.OfInfo i label)
    (hstep : s.step label = some s') : s'.Forgotten f i := by
  have hI := h.invariant.step hstep
  obtain ⟨-, hparked, hinfo, hout, hasleep⟩ := h
  unfold Waits.step at hstep
  cases label with
  | expire k =>
      dsimp only at hstep
      split at hstep
      · rename_i harmed
        obtain rfl := Option.some.inj hstep
        refine ⟨hI, hparked, hinfo, hout, ?_⟩
        rintro ⟨k', hk', hphase⟩
        simp only [Waits.setPhase, Function.update_apply] at hk' hphase
        refine hasleep ⟨k', ?_⟩
        grind
      · cases hstep
  | callback k =>
      dsimp only at hstep
      split at hstep
      · rename_i hexpired
        obtain rfl := Option.some.inj hstep
        have hk : (s.timers k).info = i := hlabel
        have hcancelled : (s.infos i).cancelled = true := by
          by_contra hlive
          exact hasleep ⟨k, hk.trans hinfo.symm, .inr ⟨.inr hexpired, by simpa [hinfo] using hlive⟩⟩
        have heq : s.callback k = s.setPhase k .over := by
          unfold Waits.callback
          rw [hk, if_pos]
          simp [hcancelled]
        rw [heq] at hI ⊢
        refine ⟨hI, hparked, hinfo, hout, ?_⟩
        rintro ⟨k', hk', hphase⟩
        simp only [Waits.setPhase, Function.update_apply] at hk' hphase
        refine hasleep ⟨k', ?_⟩
        grind
      · cases hstep
  | cancelEvent k success =>
      dsimp only at hstep
      split at hstep
      · rename_i hfiring
        have hk : (s.timers k).info = i := hlabel
        exact absurd ⟨k, hk.trans hinfo.symm, .inl hfiring⟩ hasleep
      · cases hstep
  | _ => exact hlabel.elim

/-- A timer keeps its `tinfo`. -/
theorem timer_info_step {i : Nat} (hlabel : s.OfInfo i label) (hstep : s.step label = some s')
    (k : Nat) : (s'.timers k).info = (s.timers k).info := by
  have hphase : ∀ (s : Waits) (k' : Nat) (phase : TimerPhase),
      ((s.setPhase k' phase).timers k).info = (s.timers k).info := by
    intro s k' phase
    by_cases hk : k = k'
    · simp [Waits.setPhase, hk]
    · simp [Waits.setPhase, hk]
  unfold Waits.step at hstep
  cases label with
  | expire k' =>
      dsimp only at hstep
      split at hstep
      · obtain rfl := Option.some.inj hstep
        exact hphase s k' .expired
      · cases hstep
  | callback k' =>
      dsimp only at hstep
      split at hstep
      · obtain rfl := Option.some.inj hstep
        unfold Waits.callback
        dsimp only
        split
        · exact hphase s k' .over
        · exact hphase _ k' .firing
      · cases hstep
  | cancelEvent k' success =>
      dsimp only at hstep
      split at hstep
      · obtain ⟨⟨rt, s₁⟩, hexec, rfl⟩ := Option.map_eq_some_iff.mp hstep
        obtain ⟨_, _, -, -, rfl⟩ := exec_eq hexec
        exact hphase _ k' .over
      · cases hstep
  | _ => exact hlabel.elim

theorem Forgotten.run {i : Nat} {later : List WaitStep} (hrun : Run Step s later s')
    (h : s.Forgotten f i) (hlater : ∀ label ∈ later, s.OfInfo i label) : f ∉ s'.scheduled := by
  induction hrun with
  | nil s => exact h.out
  | @cons s s₁ s' label later hstep _ ih =>
      have hlabel := hlater label List.mem_cons_self
      refine ih (h.step hlabel hstep) fun l hl => ?_
      have hold := hlater l (List.mem_cons_of_mem label hl)
      cases l <;> first | exact hold.elim | exact (timer_info_step hlabel hstep _).trans hold

theorem wakes_of_canTimeOut (h : s.Invariant) (hf : (s.calls f).pc.isParked = true)
    (hout : f ∉ s.scheduled) (hcan : s.CanTimeOut f) : s.Wakes f := by
  obtain ⟨later, s', hlater, hrun, hin⟩ := hcan
  by_contra hasleep
  have hforgotten : s.Forgotten f (s.calls f).info := ⟨h, hf, rfl, hout, hasleep⟩
  exact hforgotten.run hrun hlater hin

theorem canTimeOut_iff_wakes (h : s.Invariant) (hf : (s.calls f).pc.isParked = true)
    (hout : f ∉ s.scheduled) : s.CanTimeOut f ↔ s.Wakes f :=
  ⟨wakes_of_canTimeOut h hf hout, canTimeOut_of_wakes h hf hout⟩

/-! ## Steps -/

/-- The call that registers is woken by the timer that it just armed. -/
theorem wakes_of_live {timer : Option Nat} (h : s.Invariant) (hpc : (s.calls f).pc = .adding timer)
    (htimed : (s.calls f).timed = true)
    (hlive : (s.infos (s.calls f).info).cancelled = false) : s.Wakes f := by
  have hsome := h.timed.given f (by rw [hpc]; rfl)
  rw [htimed, hpc] at hsome
  obtain ⟨k, rfl⟩ := Option.isSome_iff_exists.mp hsome
  have htimer : (s.calls f).pc.timer = some k := by rw [hpc]; rfl
  exact ⟨k, (h.timed.owner f k htimer).2.1, .inr ⟨h.timed.pending f k htimer hlive, hlive⟩⟩

theorem exec_addOp {success : Bool} {rt : Int} (h : s.exec (s.addOp f success) = some (rt, s')) :
    rt = (if success then 0 else -1) ∧ s'.scheduled = s.scheduled := by
  obtain ⟨outcome, iom, hok, rfl, rfl⟩ := exec_eq h
  have hshape : outcome.result = (if success then 0 else -1) ∧ outcome.scheduled = [] := by
    unfold addOp IoManager.exec IoManager.addEvent at hok
    obtain ⟨fdCtx, -, hrest⟩ := ok_of_bind hok
    split at hrest
    · cases hrest
    · cases success with
      | false =>
          obtain ⟨rfl, -⟩ := Prod.mk.inj (Except.ok.inj hrest)
          exact ⟨rfl, rfl⟩
      | true =>
          obtain ⟨eventCtx, -, hlast⟩ := ok_of_bind hrest
          split at hlast
          · cases hlast
          · obtain ⟨rfl, -⟩ := Prod.mk.inj (Except.ok.inj hlast)
            exact ⟨rfl, rfl⟩
  refine ⟨hshape.1, ?_⟩
  simp [hshape.2]

/-- A callback that `epoll_ctl` refuses wakes nobody. -/
theorem exec_cancelEvent_failed {ctx : Nat} {event : IoEvent} {rt : Int}
    (h : s.exec (.cancelEvent ctx event false) = some (rt, s')) : s'.scheduled = s.scheduled := by
  obtain ⟨outcome, iom, hok, -, rfl⟩ := exec_eq h
  have hnone : outcome.scheduled = [] := by
    unfold IoManager.exec IoManager.cancelEvent at hok
    obtain ⟨fdCtx, -, hrest⟩ := ok_of_bind hok
    split at hrest
    all_goals
      obtain ⟨rfl, -⟩ := Prod.mk.inj (Except.ok.inj hrest)
      rfl
  simp [hnone]

theorem mem_scheduled_of_exec {op : IoOp} {rt : Int} (h : s.exec op = some (rt, s'))
    (hf : f ∈ s.scheduled) : f ∈ s'.scheduled := by
  obtain ⟨outcome, iom, -, -, rfl⟩ := exec_eq h
  exact List.mem_append_left _ hf

/-- What a step keeps for a call that stays parked. -/
theorem wakes_step (h : s.Invariant)
    (hkept : (s.calls f).pc.isParked = true → (s.calls f).timed = true → f ∉ s.scheduled →
      s.Wakes f)
    (hguard : s.InTime label) (hstep : s.step label = some s')
    (hf : (s'.calls f).pc.isParked = true) (htimed : (s'.calls f).timed = true)
    (hout : f ∉ s'.scheduled) : s'.Wakes f := by
  have hidle : ∀ pc : WaitPc, pc.isParked = true → pc ≠ .idle := by
    rintro pc h rfl
    cases h
  have halive : (s.calls f).pc.isParked = true → (s.infos (s.calls f).info).alive = true := by
    intro hp
    apply h.timed.alive f
    cases hpc : (s.calls f).pc <;> first | rfl | (rw [hpc] at hp; cases hp)
  have hused := h.timed.used
  have hdistinct := h.timed.distinct
  have hold := h.timed.old
  have hfresh := h.timed.fresh
  have hfired := h.timed.fired
  unfold Waits.step at hstep
  unfold Wakes at hkept ⊢
  cases label with
  | start g kind ctx event timed =>
      dsimp only at hstep
      split at hstep
      · obtain rfl := Option.some.inj hstep
        have hpc : WaitPc.trying.isParked = false := rfl
        simp only [Function.update_apply] at hf htimed hout ⊢
        grind
      · cases hstep
  | attempt g again =>
      dsimp only at hstep
      split at hstep
      · obtain rfl := Option.some.inj hstep
        have hpc : WaitPc.arming.isParked = false := rfl
        have hend : (WaitPc.returned .original).isParked = false := rfl
        cases again
        all_goals
          simp only [Waits.goto, Waits.finish, Waits.setInfo] at hf htimed hout ⊢
          grind
      · cases hstep
  | arm g =>
      dsimp only at hstep
      split at hstep
      · have hpc : ∀ timer, (WaitPc.adding timer).isParked = false := fun _ => rfl
        unfold Waits.arm at hstep
        dsimp only at hstep
        split at hstep
        all_goals
          obtain rfl := Option.some.inj hstep
          simp only [Waits.goto, Function.update_apply] at hf htimed hout ⊢
          grind
      · cases hstep
  | addEvent g success =>
      dsimp only at hstep
      split at hstep
      · rename_i timer hadding
        obtain ⟨⟨rt, s₁⟩, hexec, rfl⟩ := Option.map_eq_some_iff.mp hstep
        have hin := mem_scheduled_of_exec (f := f) hexec
        have hrt := (exec_addOp hexec).1
        obtain ⟨_, _, -, -, rfl⟩ := exec_eq hexec
        have hpc : (WaitPc.refused timer).isParked = false := rfl
        have hlive := wakes_of_live h hadding
        unfold Wakes at hlive
        have hguard' : success = true → (s.calls g).timed = true →
            (s.infos (s.calls g).info).cancelled = false ∨
              ∃ k, (s.timers k).info = (s.calls g).info ∧ (s.timers k).phase = .firing := by
          rintro rfl
          exact hguard
        clear hstep hexec hguard
        simp only [Waits.goto, Function.update_apply] at hf htimed hout hin ⊢
        by_cases hzero : rt = 0
        · cases success <;> grind
        · grind
      · cases hstep
  | resume g =>
      dsimp only at hstep
      split at hstep
      · rename_i timer hparked
        split at hstep
        · obtain rfl := Option.some.inj hstep
          have hpc : (WaitPc.woken timer).isParked = false := rfl
          have hin : f ≠ g → (f ∈ s.scheduled.erase g ↔ f ∈ s.scheduled) :=
            fun hne => List.mem_erase_of_ne hne
          simp only [Waits.goto, Function.update_apply] at hf htimed hout ⊢
          grind
        · cases hstep
      · cases hstep
  | cancelTimer g =>
      have howner := h.timed.owner g
      have hpc : WaitPc.checking.isParked = false := rfl
      have hask : WaitPc.asking.isParked = false := rfl
      have hend : (WaitPc.returned .refused).isParked = false := rfl
      have htimer : ∀ k, (s.calls g).pc.timer = some k → (s.calls g).pc ≠ .idle :=
        fun _ => ne_idle_of_timer
      dsimp only at hstep
      split at hstep
      · rename_i timer hwoken
        have hlocal : (s.calls g).pc.timer = timer := by rw [hwoken]; rfl
        unfold Waits.cancelTimer at hstep
        cases timer with
        | none =>
            obtain rfl := Option.some.inj hstep
            simp only [Waits.goto, Function.update_apply] at hf htimed hout ⊢
            grind
        | some k =>
            dsimp only at hstep
            split at hstep
            all_goals
              obtain rfl := Option.some.inj hstep
              simp only [Waits.goto, Waits.setPhase, Function.update_apply] at hf htimed hout ⊢
              grind
      · rename_i timer hrefused
        have hlocal : (s.calls g).pc.timer = timer := by rw [hrefused]; rfl
        unfold Waits.cancelTimer at hstep
        cases hkind : (s.calls g).kind
        all_goals
          rw [hkind] at hstep
          cases timer with
          | none =>
              obtain rfl := Option.some.inj hstep
              simp only [Waits.goto, Waits.finish, Waits.setInfo, Function.update_apply]
                at hf htimed hout ⊢
              grind
          | some k =>
              dsimp only at hstep
              split at hstep
              all_goals
                obtain rfl := Option.some.inj hstep
                simp only [Waits.goto, Waits.finish, Waits.setInfo, Waits.setPhase,
                  Function.update_apply] at hf htimed hout ⊢
                grind
      · cases hstep
  | check g =>
      dsimp only at hstep
      split at hstep
      · have hpc : WaitPc.trying.isParked = false := rfl
        have hask : WaitPc.asking.isParked = false := rfl
        have hend : (WaitPc.returned .timedOut).isParked = false := rfl
        split at hstep
        all_goals
          cases hkind : (s.calls g).kind
          all_goals
            obtain rfl := Option.some.inj hstep
            simp only [Waits.goto, Waits.finish, Waits.setInfo, hkind, Function.update_apply]
              at hf htimed hout ⊢
            grind
      · cases hstep
  | ask g =>
      dsimp only at hstep
      split at hstep
      · obtain rfl := Option.some.inj hstep
        have hend : (WaitPc.returned .original).isParked = false := rfl
        simp only [Waits.goto, Waits.finish, Waits.setInfo, Function.update_apply]
          at hf htimed hout ⊢
        grind
      · cases hstep
  | expire k =>
      dsimp only at hstep
      split at hstep
      · obtain rfl := Option.some.inj hstep
        simp only [Waits.setPhase, Function.update_apply] at hf htimed hout ⊢
        grind
      · cases hstep
  | callback k =>
      dsimp only at hstep
      split at hstep
      · unfold Waits.callback at hstep
        dsimp only at hstep
        split at hstep
        all_goals
          obtain rfl := Option.some.inj hstep
          simp only [Waits.setPhase, Waits.setInfo, Function.update_apply] at hf htimed hout ⊢
          grind
      · cases hstep
  | cancelEvent k success =>
      dsimp only at hstep
      split at hstep
      · rename_i hfiring
        obtain ⟨⟨rt, s₁⟩, hexec, rfl⟩ := Option.map_eq_some_iff.mp hstep
        have hin := mem_scheduled_of_exec (f := f) hexec
        have hwoken : success = true → (s.calls f).pc.isParked = true → f ∉ s.scheduled →
            (s.timers k).info = (s.calls f).info → f ∈ s₁.scheduled := by
          rintro rfl hparked hstill hinfo
          obtain ⟨s₂, hstep₂, hin₂⟩ := firing_schedules h hparked hstill hinfo hfiring
          rw [Waits.step] at hstep₂
          dsimp only at hstep₂
          rw [if_pos hfiring, hexec] at hstep₂
          obtain rfl := Option.some.inj hstep₂
          exact hin₂
        have hguard' : success = false → (s.calls f).pc.isParked = true → f ∉ s.scheduled →
            (s.calls f).info ≠ (s.timers k).info := by
          rintro rfl
          exact hguard f
        obtain ⟨_, _, -, -, rfl⟩ := exec_eq hexec
        clear hstep hexec hguard
        simp only [Waits.setPhase, Function.update_apply] at hf htimed hout hin hwoken ⊢
        cases success <;> grind
      · cases hstep
  | io op =>
      dsimp only at hstep
      split at hstep
      · obtain ⟨⟨rt, s₁⟩, hexec, rfl⟩ := Option.map_eq_some_iff.mp hstep
        have hin := mem_scheduled_of_exec (f := f) hexec
        obtain ⟨_, _, -, -, rfl⟩ := exec_eq hexec
        exact hkept hf htimed fun hold => hout (hin hold)
      · cases hstep

/-- After a call registered, its timeout is kept only if it could still be cancelled. -/
theorem inTime_of_kept (h : s.Invariant) (hstep : s.step label = some s')
    (hkept : s'.TimeoutsKept) : s.InTime label := by
  have hI := h.step hstep
  unfold Waits.step at hstep
  cases label with
  | addEvent f success =>
      cases success with
      | false => trivial
      | true =>
          intro htimed
          dsimp only at hstep
          split at hstep
          · rename_i timer hadding
            obtain ⟨⟨rt, s₁⟩, hexec, rfl⟩ := Option.map_eq_some_iff.mp hstep
            obtain ⟨hrt, hscheduled⟩ := exec_addOp hexec
            obtain ⟨slots, hplaced⟩ := h.placed
            have hout : f ∉ s₁.scheduled := by
              rw [hscheduled]
              intro hin
              have hparked := hplaced.parked f hin
              rw [hadding] at hparked
              cases hparked
            have hsame : s₁.calls = s.calls ∧ s₁.timers = s.timers ∧ s₁.infos = s.infos := by
              obtain ⟨_, _, -, -, rfl⟩ := exec_eq hexec
              exact ⟨rfl, rfl, rfl⟩
            obtain rfl : rt = 0 := hrt
            dsimp only at hI hkept
            rw [if_pos rfl] at hI hkept
            have hself : (s₁.goto f (.parked timer)).calls f =
                { s.calls f with pc := .parked timer } := by
              simp [Waits.goto, hsame.1]
            have hparked : ((s₁.goto f (.parked timer)).calls f).pc.isParked = true := by
              rw [hself]
              rfl
            have hcan := hkept f hparked (by rw [hself]; exact htimed) hout
            obtain ⟨k, hinfo, hphase⟩ := wakes_of_canTimeOut hI hparked hout hcan
            rw [hself] at hinfo hphase
            change (s₁.timers k).info = (s.calls f).info at hinfo
            rw [hsame.2.1] at hinfo
            rcases hphase with hfiring | ⟨-, hlive⟩
            · change (s₁.timers k).phase = .firing at hfiring
              rw [hsame.2.1] at hfiring
              exact .inr ⟨k, hinfo, hfiring⟩
            · change (s₁.infos (s.calls f).info).cancelled = false at hlive
              rw [hsame.2.2] at hlive
              exact .inl hlive
          · cases hstep
  | cancelEvent k success =>
      cases success with
      | true => trivial
      | false =>
          intro f hparked hout hinfo
          dsimp only at hstep
          split at hstep
          · rename_i hfiring
            obtain ⟨⟨rt, s₁⟩, hexec, rfl⟩ := Option.map_eq_some_iff.mp hstep
            have hne : (s.calls f).pc ≠ .idle := by
              intro hidle
              rw [hidle] at hparked
              cases hparked
            have hlt := lt_timerCount h.timed (k := k) (by rw [hfiring]; decide)
            have htimed := (h.timed.sameCall f k hne hlt hinfo.symm).1
            have hnone : s₁.scheduled = s.scheduled := exec_cancelEvent_failed hexec
            have hsame : s₁.calls = s.calls ∧ s₁.timers = s.timers ∧ s₁.infos = s.infos := by
              obtain ⟨_, _, -, -, rfl⟩ := exec_eq hexec
              exact ⟨rfl, rfl, rfl⟩
            have hparked' : (s₁.calls f).pc.isParked = true := by rw [hsame.1]; exact hparked
            have htimed' : (s₁.calls f).timed = true := by rw [hsame.1]; exact htimed
            have hout' : f ∉ s₁.scheduled := by rw [hnone]; exact hout
            obtain ⟨k', hinfo', hphase⟩ := wakes_of_canTimeOut hI hparked' hout'
              (hkept f hparked' htimed' hout')
            have hfired := h.timed.fired
            have honly := h.timed.onlyFiring
            simp only [Waits.setPhase, Function.update_apply, hsame] at hinfo' hphase
            grind
          · cases hstep
  | _ => trivial

/-- Every call that waits with a timeout can time out, in all states of a run, iff no call
registers with its timeout used up and no callback is refused. -/
theorem run_timeoutsKept_iff (trace : List WaitStep) (s : Waits) :
    Run (Run.Ensuring Step TimeoutsKept) {} trace s ↔ Run (Run.Guarded Step InTime) {} trace s := by
  refine Run.ensuring_iff_guarded (I := Invariant) ?_ invariant_init fun f hf => nomatch hf
  intro s label s' hI hkept hstep
  refine ⟨hI.step hstep, inTime_of_kept hI hstep, fun hguard f hf htimed hout => ?_⟩
  refine canTimeOut_of_wakes (hI.step hstep) hf hout ?_
  refine wakes_step hI (fun hf htimed hout => ?_) hguard hstep hf htimed hout
  exact wakes_of_canTimeOut hI hf hout (hkept f hf htimed hout)

/-- A callback between the test of `cancelled` and the next `addEvent`. -/
def staleCallback : List WaitStep :=
  [.io (.resize 2), .start 7 .io 1 .read true, .attempt 7 true, .arm 7, .addEvent 7 true,
    .expire 0, .io (.dispatch 1 1 true), .resume 7, .cancelTimer 7, .check 7, .callback 0,
    .cancelEvent 0 true, .attempt 7 true, .arm 7, .addEvent 7 true, .expire 1, .callback 1]

example : (staleCallback.foldlM step {}).any (fun s =>
    (s.calls 7).pc = .parked (some 1) ∧ s.scheduled = [] ∧ (s.timers 1).phase = .over) = true := by
  decide

end Waits

end Lyslg
