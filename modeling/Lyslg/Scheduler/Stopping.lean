import Lyslg.Scheduler.Progress
/-!
# Stopping

Once `stopping()` is true and nobody schedules any more, every thread has a few steps
left to the end of `run`.  The exception is a fiber that yielded: the counter is
decremented before the fiber is put back into `m_fibers`, and `stopping()` in between
is not final.
-/

namespace Lyslg

open Support Support.Machine Scheduler

/-- How many steps of its own a thread takes to the end of `run`, when there is nothing to take. -/
def Worker.rank (w : Worker) : Nat :=
  match w.pc with
  | .exited => 0
  | .nothing => if w.idleTerm then 1 else 5
  | .top => if w.idleTerm then 2 else 6
  | .idleBack => if w.idleTerm then 3 else 7
  | .idling => 4
  | .holding _ _ | .clearing _ => 7
  | _ => 8

theorem Worker.rank_le (w : Worker) : w.rank ≤ 8 := by
  unfold rank
  split <;> first | omega | (split <;> omega)

namespace Scheduler

variable {pool : Pool} {s s' : Scheduler} {t : Nat} {call : SchedCall} {later : List SchedCall}

/-- The thread is about to put a fiber back into `m_fibers`. -/
def yielded (s : Scheduler) (t : Nat) : Bool :=
  match (s.workers t).pc with
  | .requeue _ _ => true
  | .after _ f => (s.heap f).state = .ready
  | _ => false

/-- However the threads go on without new tasks, `stopping()` stays true, and each of them
ends after a few more steps, which it can take. -/
def Drains (pool : Pool) (s : Scheduler) : Prop :=
  ∀ later s', (∀ call ∈ later, call.pushes = []) → Run (Step pool) s later s' →
    s'.stopping = true ∧ ∀ t ∈ pool.ids, later.count (.advance t) ≤ 8 ∧
      ((s'.workers t).pc = .exited ∨ (s'.step pool (.advance t)).isSome = true)

/-- No thread has a task or will put one back. -/
structure Quiet (pool : Pool) (s : Scheduler) : Prop where
  stopping : s.stopping = true
  inactive : ∀ t ∈ pool.ids, (s.workers t).pc.active = false
  settled : ∀ t ∈ pool.ids, s.yielded t = false

theorem stopping_iff : s.stopping = true ↔
    s.autoStop = true ∧ s.stoppingFlag = true ∧ s.fibers = [] ∧ s.activeThreadCount = 0 := by
  simp [Scheduler.stopping, and_assoc]

theorem stopping_setWorker (s : Scheduler) (t : Nat) (w : Worker) (idle : Nat) :
    (({ s with idleThreadCount := idle } : Scheduler).setWorker t w).stopping = s.stopping := rfl

theorem inactive_of_stopping {calls : List SchedCall} (h : Run (Step pool) {} calls s)
    (hstop : s.stopping = true) : ∀ t ∈ pool.ids, (s.workers t).pc.active = false := by
  intro t ht
  obtain ⟨a, harun, rfl⟩ := Audit.exists_run (a := {}) h
  have hconserved : a.Conserved pool :=
    harun.invariant (I := fun a => a.Conserved pool)
      (fun _ _ _ hI hstep => hI.step hstep) (Audit.conserved_init pool)
  obtain ⟨-, -, -, hcount⟩ := stopping_iff.mp hstop
  rw [hconserved.counted, Finset.card_eq_zero] at hcount
  by_contra hactive
  have hin := (hconserved.owing t).mpr ⟨ht, by simpa using hactive⟩
  rw [hcount] at hin
  cases hin

/-! ## One step without new tasks -/

/-- Thread `t` comes closer to the end of `run`. -/
structure Winds (s : Scheduler) (t : Nat) (w : Worker) (s' : Scheduler) : Prop where
  workers : s'.workers = Function.update s.workers t w
  stopping : s'.stopping = s.stopping
  inactive : w.pc.active = false
  back : ∀ b f, w.pc ≠ .requeue b f ∧ w.pc ≠ .after b f
  ready : ∀ f, (s'.heap f).state = .ready → (s.heap f).state = .ready
  rank : w.rank < (s.workers t).rank

theorem winds_goto {pc : Pc} (hactive : pc.active = false)
    (hback : ∀ b f, pc ≠ .requeue b f ∧ pc ≠ .after b f)
    (hrank : Worker.rank { s.workers t with pc := pc } < (s.workers t).rank) :
    Winds s t { s.workers t with pc := pc } (s.goto t pc) :=
  ⟨rfl, rfl, hactive, hback, fun _ hf => hf, hrank⟩

theorem winds_leave {b : Branch} {f : Nat} {fiber : Fiber} (hready : fiber.state ≠ .ready)
    (hrank : (s.workers t).rank = 7) :
    Winds s t ((s.workers t).leave b) ((s.setFiber f fiber).leave t b) := by
  rw [leave_eq]
  refine ⟨rfl, rfl, by rw [Worker.leave_pc]; rfl, fun b' g => ?_, fun g hg => ?_, ?_⟩
  · rw [Worker.leave_pc]
    exact ⟨by simp, by simp⟩
  · by_cases hgf : g = f
    · subst hgf
      change (Function.update s.heap g fiber g).state = .ready at hg
      rw [Function.update_self] at hg
      exact absurd hg hready
    · change (Function.update s.heap f fiber g).state = .ready at hg
      rwa [Function.update_of_ne hgf] at hg
  · rw [hrank, Worker.rank, Worker.leave_pc]
    dsimp only
    split <;> omega

theorem advance_winds (hquiet : s.Quiet pool) (ht : t ∈ pool.ids)
    (h : s.advance t = some s') : ∃ w, Winds s t w s' := by
  have hactive := hquiet.inactive t ht
  have hsettled := hquiet.settled t ht
  obtain ⟨-, -, hempty, -⟩ := stopping_iff.mp hquiet.stopping
  unfold Scheduler.advance at h
  split at h
  case h_1 hpc =>
    rw [Scheduler.pick, hempty] at h
    obtain rfl := Option.some.inj h
    refine ⟨{ s.workers t with pc := .nothing },
      ⟨rfl, ?_, rfl, fun _ _ => ⟨by simp, by simp⟩, fun _ hf => hf, ?_⟩⟩
    · simp [Scheduler.stopping, hempty, goto, setWorker]
    · rw [Worker.rank, Worker.rank, hpc]
      dsimp only
      split <;> omega
  case h_10 b f hpc =>
    have hready : (s.heap f).state ≠ .ready := by
      rw [yielded, hpc] at hsettled
      exact of_decide_eq_false hsettled
    have hrank : (s.workers t).rank = 8 := by rw [Worker.rank, hpc]
    obtain rfl := Option.some.inj h
    have htop : Worker.rank { s.workers t with pc := .top } < (s.workers t).rank := by
      rw [hrank, Worker.rank]
      dsimp only
      split <;> omega
    unfold Scheduler.afterSwap
    split
    case h_1 hstate => exact absurd hstate hready
    case h_2 | h_3 => exact ⟨_, winds_goto rfl (fun _ _ => ⟨by simp, by simp⟩) htop⟩
    all_goals
      refine ⟨_, winds_goto rfl (fun _ _ => ⟨by simp, by simp⟩) ?_⟩
      rw [hrank, Worker.rank]
      dsimp only
      omega
  case h_11 b f hpc =>
    rw [yielded, hpc] at hsettled
    cases hsettled
  case h_12 b f hpc =>
    obtain rfl := Option.some.inj h
    exact ⟨_, winds_leave (by simp) (by rw [Worker.rank, hpc])⟩
  case h_13 f hpc =>
    obtain ⟨fiber, hreset, rfl⟩ := Option.map_eq_some_iff.mp h
    have hready : fiber.state ≠ .ready := by
      unfold Fiber.reset at hreset
      split at hreset
      · obtain rfl := Option.some.inj hreset
        simp
      · cases hreset
    have hwinds : Winds s t ((s.workers t).leave .fiber) ((s.setFiber f fiber).leave t .fiber) :=
      winds_leave hready (by rw [Worker.rank, hpc])
    exact ⟨_, hwinds⟩
  case h_15 hpc =>
    split at h
    · rename_i hterm
      obtain rfl := Option.some.inj h
      refine ⟨_, winds_goto rfl (fun _ _ => ⟨by simp, by simp⟩) ?_⟩
      rw [Worker.rank, Worker.rank, hpc]
      simp [hterm]
    · rename_i hterm
      obtain rfl := Option.some.inj h
      refine ⟨{ s.workers t with pc := .idling },
        ⟨rfl, stopping_setWorker _ _ _ _, rfl, fun _ _ => ⟨by simp, by simp⟩, fun _ hf => hf, ?_⟩⟩
      rw [Worker.rank, Worker.rank, hpc]
      simp [hterm]
  case h_16 hpc =>
    obtain rfl := Option.some.inj h
    refine ⟨{ s.workers t with pc := .idleBack, idleTerm := s.stopping },
      ⟨rfl, rfl, rfl, fun _ _ => ⟨by simp, by simp⟩, fun _ hf => hf, ?_⟩⟩
    rw [Worker.rank, Worker.rank, hpc]
    simp [hquiet.stopping]
  case h_17 hpc =>
    obtain rfl := Option.some.inj h
    refine ⟨{ s.workers t with pc := .top }, ⟨rfl, stopping_setWorker _ _ _ _, rfl,
      fun _ _ => ⟨by simp, by simp⟩, fun _ hf => hf, ?_⟩⟩
    rw [Worker.rank, Worker.rank, hpc]
    dsimp only
    split <;> omega
  case h_18 => cases h
  all_goals
    rename_i hpc
    rw [hpc] at hactive
    cases hactive

theorem Quiet.winds {w : Worker} (h : s.Quiet pool) (hw : Winds s t w s') : s'.Quiet pool := by
  have hself : s'.workers t = w := by rw [hw.workers, Function.update_self]
  have hothers : ∀ u, u ≠ t → s'.workers u = s.workers u := by
    intro u hu
    rw [hw.workers, Function.update_of_ne hu]
  refine ⟨hw.stopping.trans h.stopping, fun u hu => ?_, fun u hu => ?_⟩
  · by_cases hut : u = t
    · rw [hut, hself]
      exact hw.inactive
    · rw [hothers u hut]
      exact h.inactive u hu
  · by_cases hut : u = t
    · subst hut
      unfold yielded
      rw [hself]
      split
      · rename_i b f hpc
        exact absurd hpc (hw.back b f).1
      · rename_i b f hpc
        exact absurd hpc (hw.back b f).2
      · rfl
    · have hold := h.settled u hu
      unfold yielded at hold ⊢
      rw [hothers u hut]
      split at hold
      · cases hold
      · exact decide_eq_false fun hf => of_decide_eq_false hold (hw.ready _ hf)
      · rfl

/-- The step of another part of the program. -/
theorem Quiet.outside (h : s.Quiet pool) (hworkers : s'.workers = s.workers)
    (hstop : s'.stopping = true)
    (hheap : ∀ f, (s'.heap f).state = .ready → (s.heap f).state = .ready) : s'.Quiet pool := by
  refine ⟨hstop, fun u hu => hworkers ▸ h.inactive u hu, fun u hu => ?_⟩
  have hold := h.settled u hu
  unfold yielded at hold ⊢
  rw [hworkers]
  split at hold
  · cases hold
  · exact decide_eq_false fun hf => of_decide_eq_false hold (hheap _ hf)
  · rfl

theorem Quiet.step (h : s.Quiet pool) (hpushes : call.pushes = [])
    (hstep : s.step pool call = some s') :
    s'.Quiet pool ∧ ∀ t ∈ pool.ids,
      (s'.workers t).rank + [call].count (.advance t) ≤ (s.workers t).rank := by
  obtain ⟨heffect, hpool⟩ := step_effect hstep
  obtain ⟨hauto, hflag, hempty, hactive⟩ := stopping_iff.mp h.stopping
  cases heffect with
  | newFiber cb =>
      refine ⟨h.outside rfl (stopping_iff.mpr ⟨hauto, hflag, hempty, hactive⟩) ?_,
        fun t _ => le_rfl⟩
      intro f hf
      by_cases hnew : f = s.created
      · subst hnew
        change (Function.update s.heap s.created { cb := cb } s.created).state = .ready at hf
        rw [Function.update_self] at hf
        cases hf
      · change (Function.update s.heap s.created { cb := cb } f).state = .ready at hf
        rwa [Function.update_of_ne hnew] at hf
  | push registered hthread _ _ =>
      rw [hpushes, List.append_nil]
      refine ⟨h.outside rfl (stopping_iff.mpr ⟨hauto, hflag, hempty, hactive⟩) fun _ hf => hf,
        fun t _ => ?_⟩
      have hcount : [call].count (.advance t) = 0 := by
        refine List.count_eq_zero.mpr fun hin => ?_
        rw [← List.mem_singleton.mp hin] at hthread
        cases hthread
      rw [hcount]
      exact le_rfl
  | stop =>
      exact ⟨h.outside rfl (stopping_iff.mpr ⟨rfl, rfl, hempty, hactive⟩) fun _ hf => hf,
        fun t _ => le_rfl⟩
  | @advance t _ hmove =>
      have ht := hpool t rfl
      have hadv : s.advance t = some s' := by
        rwa [Scheduler.step, if_pos] at hstep
        simpa [SchedCall.thread] using ht
      obtain ⟨w, hw⟩ := advance_winds h ht hadv
      refine ⟨h.winds hw, fun u hu => ?_⟩
      by_cases hut : u = t
      · subst hut
        rw [hw.workers, Function.update_self, List.count_singleton_self]
        exact hw.rank
      · rw [hw.workers, Function.update_of_ne hut, List.count_eq_zero_of_not_mem]
        · exact le_rfl
        · intro hin
          cases List.mem_singleton.mp hin
          exact hut rfl
  | act registered hthread _ hpc _ _ =>
      have hin := h.inactive _ (hpool _ hthread)
      rw [hpc] at hin
      cases hin

theorem Quiet.run (h : s.Quiet pool) (hpushes : ∀ call ∈ later, call.pushes = [])
    (hrun : Run (Step pool) s later s') :
    s'.Quiet pool ∧ ∀ t ∈ pool.ids,
      (s'.workers t).rank + later.count (.advance t) ≤ (s.workers t).rank := by
  induction hrun with
  | nil s => exact ⟨h, fun t _ => le_rfl⟩
  | @cons s s₁ s' call later hstep _ ih =>
      obtain ⟨hquiet, hfirst⟩ := h.step (hpushes call List.mem_cons_self) hstep
      obtain ⟨hend, hrest⟩ := ih hquiet fun c hc => hpushes c (List.mem_cons_of_mem call hc)
      refine ⟨hend, fun t ht => ?_⟩
      have hone := hfirst t ht
      have hmore := hrest t ht
      have hcount : (call :: later).count (SchedCall.advance t) =
          [call].count (SchedCall.advance t) + later.count (SchedCall.advance t) := by
        rw [← List.count_append, List.singleton_append]
      omega

/-! ## A fiber that yielded -/

/-- After the thread put the fiber back, `stopping()` is false. -/
theorem requeue_unstops {b : Branch} {f : Nat} (ht : t ∈ pool.ids)
    (hpc : (s.workers t).pc = .requeue b f) :
    ∃ s', s.step pool (.advance t) = some s' ∧ s'.stopping = false := by
  refine ⟨(s.scheduleNoLock (.fiber (some f)) (-1)).leave t b, ?_, ?_⟩
  · rw [Scheduler.step, if_pos (by simpa [SchedCall.thread] using ht)]
    rw [Scheduler.advance, hpc]
  · rw [scheduleNoLock_eq, leave_eq]
    simp [Scheduler.stopping, setWorker, FiberOrCb.toTask, FiberAndThread.nonempty]

theorem exists_unstop (ht : t ∈ pool.ids) (hyield : s.yielded t = true) :
    ∃ n s', Run (Step pool) s (List.replicate n (.advance t)) s' ∧ s'.stopping = false := by
  unfold yielded at hyield
  split at hyield
  · rename_i b f hpc
    obtain ⟨s', hstep, hstop⟩ := requeue_unstops ht hpc
    exact ⟨1, s', .cons hstep (.nil s'), hstop⟩
  · rename_i b f hpc
    have hready := of_decide_eq_true hyield
    have hfirst : s.step pool (.advance t) = some (s.goto t (.requeue b f)) := by
      rw [Scheduler.step, if_pos (by simpa [SchedCall.thread] using ht)]
      rw [Scheduler.advance, hpc]
      dsimp only [Scheduler.afterSwap]
      rw [hready]
    have hat : ((s.goto t (.requeue b f)).workers t).pc = .requeue b f := by
      rw [goto_workers, Function.update_self]
    obtain ⟨s', hstep, hstop⟩ := requeue_unstops ht hat
    exact ⟨2, s', .cons hfirst (.cons hstep (.nil s')), hstop⟩
  · cases hyield

/-- `stopping()` is final, and every thread ends, iff no fiber that yielded is still to be
put back. -/
theorem drains_iff (pool : Pool) (calls : List SchedCall) (s : Scheduler)
    (h : Run (Run.Guarded (Step pool) PushesParked) {} calls s) (hstop : s.stopping = true) :
    s.Drains pool ↔ ∀ t ∈ pool.ids, s.yielded t = false := by
  have hplain : Run (Step pool) {} calls s := h.mono fun _ _ _ hstep => hstep.2
  constructor
  · intro hdrains t ht
    by_contra hyield
    obtain ⟨n, s', hrun, hfalse⟩ := exists_unstop ht (by simpa using hyield)
    have hnone : ∀ call ∈ List.replicate n (SchedCall.advance t), call.pushes = [] := by
      intro call hcall
      rw [List.eq_of_mem_replicate hcall]
      rfl
    obtain ⟨htrue, -⟩ := hdrains _ s' hnone hrun
    rw [hfalse] at htrue
    cases htrue
  · intro hsettled later s' hpushes hrun
    have hquiet : s.Quiet pool := ⟨hstop, inactive_of_stopping hplain hstop, hsettled⟩
    obtain ⟨hend, hrank⟩ := hquiet.run hpushes hrun
    have hguarded : Run (Run.Guarded (Step pool) PushesParked) s later s' := by
      clear hrank hend hquiet hsettled hplain h hstop
      induction hrun with
      | nil s => exact .nil s
      | @cons s _ _ call later hstep _ ih =>
          have hnone := hpushes call List.mem_cons_self
          refine .cons ⟨?_, hstep⟩ (ih fun c hc => hpushes c (List.mem_cons_of_mem call hc))
          rw [PushesParked, hnone]
          exact ⟨List.nodup_nil, nofun⟩
    obtain ⟨-, -, hsound⟩ := run_sound (h.append hguarded)
    refine ⟨hend.stopping, fun t ht => ⟨?_, ?_⟩⟩
    · have hmeasure := hrank t ht
      have hle := (s.workers t).rank_le
      omega
    · have hcan := hsound.advance_isSome (t := t) (by
        rw [(stopping_iff.mp hend.stopping).2.2.1]
        nofun)
      rw [Scheduler.step, if_pos (by simpa [SchedCall.thread] using ht)]
      by_cases hexit : (s'.workers t).pc = .exited
      · exact .inl hexit
      · refine .inr (hcan.trans ?_)
        have hin := hend.inactive t ht
        cases hpc : (s'.workers t).pc <;> first | rfl | exact absurd hpc hexit | skip
        rw [hpc] at hin
        cases hin

/-- A callback that yields on thread 1, and `stop` before it is put back. -/
def stopBeforeRequeue : List SchedCall :=
  [SchedCall.schedule (.cb (some 7)) (-1)] ++ List.replicate 6 (SchedCall.advance 1) ++
    [.yieldToReady 1] ++ List.replicate 2 (SchedCall.advance 1) ++ [.stop]

theorem stop_before_requeue_not_final :
    ∃ s, Run (Run.Guarded (Step twoThreads) PushesParked) {} stopBeforeRequeue s ∧
      s.stopping = true ∧ ¬ s.Drains twoThreads := by
  have hexec : ((stopBeforeRequeue.foldlM (fun s call =>
      if pushesParkedOn twoThreads s call then s.step twoThreads call else none) {}).any fun s =>
        s.stopping = true ∧ s.yielded 1 = true) = true := by
    decide
  obtain ⟨s, hs, hall⟩ := (Option.any_eq_true _ _).mp hexec
  obtain ⟨hstop, hyield⟩ := of_decide_eq_true hall
  have hrun := Run.guarded_of_foldlM (fun _ _ _ h => h)
    (fun _ _ _ => pushesParked_of_pushesParkedOn) (.nil _) hs
  refine ⟨s, hrun, hstop, fun hdrains => ?_⟩
  have hnone := (drains_iff twoThreads stopBeforeRequeue s hrun hstop).mp hdrains 1 (by decide)
  rw [hyield] at hnone
  cases hnone

end Scheduler

end Lyslg
