import Lyslg.Scheduler.Handover
/-!
# Thread affinity

`schedule(fc, thread)` asks that a fiber or a callback runs on one thread.  The number
is in the task; it is lost where `run` itself pushes a fiber, because `schedule(ft.fiber)`
and `schedule(cb_fiber)` name no thread.

`Requests` keeps what was asked for each fiber, a callback's request from the moment
that its fiber gets it.
-/

namespace Lyslg

open Support Support.Machine Scheduler

namespace Scheduler

variable {s s' : Scheduler} {t : Nat}

/-! ## The fibers in `cb_fiber` -/

/-- A fiber in `cb_fiber` is with that thread only, and not in its `ft`. -/
structure Slotted (s : Scheduler) : Prop where
  queue : ∀ t f, (s.workers t).cbFiber = some f → f ∉ s.queued
  alone : ∀ t u f, (s.workers t).cbFiber = some f → (s.workers u).holds f → u = t
  apart : ∀ t f, (s.workers t).pc.taken = some f → (s.workers t).cbFiber ≠ some f

theorem slotted_init : Slotted {} where
  queue := nofun
  alone := nofun
  apart := nofun

/-- The fiber is nowhere. -/
def Fresh (s : Scheduler) (f : Nat) : Prop :=
  f ∉ s.queued ∧ ∀ u, ¬ (s.workers u).holds f

theorem Known.fresh (h : s.Known) : s.Fresh s.created :=
  ⟨fun hin => lt_irrefl _ (h.queued _ hin), fun u hu => lt_irrefl _ (h.held u _ hu)⟩

/-- The fiber that a callback gets. -/
theorem Known.bound (h : s.Known) (t : Nat) :
    (s.workers t).cbFiber = some ((s.workers t).cbFiber.getD s.created) ∨
      s.Fresh ((s.workers t).cbFiber.getD s.created) := by
  cases hslot : (s.workers t).cbFiber with
  | some g => exact .inl rfl
  | none => exact .inr h.fresh

theorem Slotted.update {w : Worker} (h : s.Slotted)
    (hworkers : s'.workers = Function.update s.workers t w)
    (hslot : ∀ f, w.cbFiber = some f → (s.workers t).cbFiber = some f ∨ s.Fresh f)
    (hholds : ∀ f, w.holds f → (s.workers t).holds f ∨ f ∈ s.queued ∨ s.Fresh f)
    (hqueue : ∀ f ∈ s'.queued, f ∈ s.queued ∨ (s.workers t).holds f ∧ w.cbFiber ≠ some f)
    (hapart : ∀ f, w.pc.taken = some f → w.cbFiber ≠ some f) : s'.Slotted := by
  have hself : s'.workers t = w := by rw [hworkers, Function.update_self]
  have hothers : ∀ u, u ≠ t → s'.workers u = s.workers u := by
    intro u hu
    rw [hworkers, Function.update_of_ne hu]
  constructor
  · intro v g hg hin
    by_cases hv : v = t
    · subst hv
      rw [hself] at hg
      rcases hqueue g hin with hold | ⟨-, hne⟩
      · rcases hslot g hg with hslot | hfresh
        · exact h.queue v g hslot hold
        · exact hfresh.1 hold
      · exact hne hg
    · rw [hothers v hv] at hg
      rcases hqueue g hin with hold | ⟨hheld, -⟩
      · exact h.queue v g hg hold
      · exact hv (h.alone v t g hg hheld).symm
  · intro v u g hg hu
    by_cases hv : v = t
    · subst hv
      by_contra hne
      rw [hself] at hg
      rw [hothers u hne] at hu
      rcases hslot g hg with hslot | hfresh
      · exact hne (h.alone v u g hslot hu)
      · exact hfresh.2 u hu
    · rw [hothers v hv] at hg
      by_cases hut : u = t
      · subst hut
        rw [hself] at hu
        rcases hholds g hu with hheld | hin | hfresh
        · exact h.alone v u g hg hheld
        · exact absurd hin (h.queue v g hg)
        · exact absurd (.inr hg) (hfresh.2 v)
      · rw [hothers u hut] at hu
        exact h.alone v u g hg hu
  · intro v g
    by_cases hv : v = t
    · subst hv
      rw [hself]
      exact hapart g
    · rw [hothers v hv]
      exact h.apart v g

theorem Slotted.handover (h : s.Slotted) (hknown : s.Known) (ht : Handover s t s') :
    s'.Slotted := by
  cases ht with
  | @take ft front back hcut hfibers _ _ _ _ hworkers =>
      have hperm := queued_perm hcut hfibers
      have hpicked : ∀ f, ft.fiber = some f → f ∈ s.queued := by
        intro f hf
        exact hperm.mem_iff.mpr (by simp [hf])
      refine h.update hworkers (fun f hf => .inl hf) ?_ ?_ ?_
      · rintro f (hpc | hslot)
        · exact .inr (.inl (hpicked f hpc))
        · exact .inl (.inr hslot)
      · exact fun f hf => .inl (hperm.mem_iff.mpr (List.mem_append_right _ hf))
      · exact fun f hf hslot => h.queue t f hslot (hpicked f hf)
  | @go pc term hfibers _ _ hfiber htaken _ _ hworkers =>
      refine h.update hworkers (fun f hf => .inl hf) (fun f hf => .inl (hf.imp (hfiber f) id)) ?_
        (fun f hf => h.apart t f (htaken f hf))
      rw [queued, hfibers]
      exact fun f hf => .inl hf
  | @bind thread f _ hf hfibers _ _ _ hworkers =>
      have hplace := hknown.bound t
      rw [← hf] at hplace
      refine h.update hworkers ?_ ?_ ?_ ?_
      · intro g hg
        obtain rfl := Option.some.inj hg
        exact hplace
      · intro g hg
        obtain rfl := Option.some.inj (hg.elim id id)
        exact hplace.imp .inr .inr
      · rw [queued, hfibers]
        exact fun g hg => .inl hg
      · intro g hg
        cases hg
  | @leave b f fts hres hfts hfibers _ _ hworkers =>
      refine h.update hworkers ?_ (fun g hg => .inl (.inr (Worker.holds_leave hg).2)) ?_ ?_
      · exact fun g hg => .inl (Worker.holds_leave (.inr hg)).2
      · intro g hg
        rw [queued, hfibers, List.filterMap_append] at hg
        rcases List.mem_append.mp hg with hold | hback
        · exact .inl hold
        · rcases hfts with rfl | ⟨-, rfl⟩
          · cases hback
          · obtain rfl := List.mem_singleton.mp hback
            refine .inr ⟨.inl (Pc.fiber_of_resumed hres), fun hslot => ?_⟩
            obtain ⟨rfl, hold⟩ := Worker.holds_leave (.inr hslot)
            refine h.apart t g ?_ hold
            rw [Pc.taken_of_resumed hres, if_pos rfl]
      · intro g hg
        rw [Worker.leave_pc] at hg
        cases hg

theorem Slotted.external {call : SchedCall} (h : s.Slotted) (he : External s call s')
    (hpushes : ∀ ft ∈ call.pushes, ∀ f, ft.fiber = some f →
      ∀ t, (s.workers t).cbFiber ≠ some f) : s'.Slotted where
  queue := by
    rw [he.workers]
    intro t f hslot hin
    rw [queued, he.fibers, List.filterMap_append] at hin
    rcases List.mem_append.mp hin with hold | hnew
    · exact h.queue t f hslot hold
    · obtain ⟨ft, hft, hfiber⟩ := List.mem_filterMap.mp hnew
      exact hpushes ft hft f hfiber t hslot
  alone := by
    rw [he.workers]
    exact h.alone
  apart := by
    rw [he.workers]
    exact h.apart

end Scheduler

/-! ## What was asked for -/

structure Requests where
  sched : Scheduler := {}
  /-- the thread that was asked for, or -1 -/
  asked : Nat → Int := fun _ => -1

namespace Requests

variable {pool : Pool} {r r' : Requests} {call : SchedCall} {t : Nat}

def askedAfter (r : Requests) : SchedCall → Nat → Int
  | .schedule (.fiber (some f)) thread =>
      if thread = -1 then r.asked else Function.update r.asked f thread
  | .advance t =>
      match (r.sched.workers t).pc.binds with
      | some thread =>
          Function.update r.asked ((r.sched.workers t).cbFiber.getD r.sched.created) thread
      | none => r.asked
  | _ => r.asked

def step (pool : Pool) (r : Requests) (call : SchedCall) : Option Requests :=
  (r.sched.step pool call).map fun s => { sched := s, asked := r.askedAfter call }

def Step (pool : Pool) (r : Requests) (call : SchedCall) (r' : Requests) : Prop :=
  r.step pool call = some r'

/-- A fiber that is being executed with a request is on the thread that was asked for. -/
def OnAskedThread (r : Requests) : Prop :=
  ∀ t f, (r.sched.workers t).pc.executing = some f → r.asked f ≠ -1 → r.asked f = t

/-- The call does not lose a request. -/
structure KeepsRequests (r : Requests) (call : SchedCall) : Prop where
  /-- a fiber is pushed with the thread that was asked for, or gets its first request while
  it is idle; it is not the `cb_fiber` of a thread -/
  pushes : ∀ ft ∈ call.pushes, ∀ f, ft.fiber = some f →
    (∀ t, (r.sched.workers t).cbFiber ≠ some f) ∧
      (ft.thread = r.asked f ∨
        r.asked f = -1 ∧ f ∉ r.sched.queued ∧ ∀ t, (r.sched.workers t).pc.fiber ≠ some f)
  /-- `run` puts a fiber back only if no thread was asked for -/
  requeues : ∀ t b f, call = .advance t → (r.sched.workers t).pc = .requeue b f →
    r.asked f = -1

structure Placed (r : Requests) : Prop where
  queued : ∀ ft ∈ r.sched.fibers, ∀ f, ft.fiber = some f →
    r.asked f = -1 ∨ ft.thread = r.asked f
  inHand : ∀ t f, (r.sched.workers t).pc.fiber = some f → r.asked f = -1 ∨ r.asked f = t
  task : ∀ t thread, (r.sched.workers t).pc.asked = some thread → thread = -1 ∨ thread = t

theorem placed_init : Placed {} where
  queued := nofun
  inHand := fun _ _ _ => .inl rfl
  task := nofun

theorem Placed.onAskedThread (h : r.Placed) : r.OnAskedThread := fun t f hf hne =>
  (h.inHand t f (Pc.fiber_of_executing hf)).resolve_left hne

/-- Thread `t` goes on with other local variables, and no request changes. -/
theorem Placed.update {s' : Scheduler} {w : Worker} (h : r.Placed)
    (hworkers : s'.workers = Function.update r.sched.workers t w)
    (hqueued : ∀ ft ∈ s'.fibers, ft ∈ r.sched.fibers ∨ ∀ f, ft.fiber = some f → r.asked f = -1)
    (hfiber : ∀ f, w.pc.fiber = some f → r.asked f = -1 ∨ r.asked f = t)
    (htask : ∀ thread, w.pc.asked = some thread → thread = -1 ∨ thread = t) :
    Placed { sched := s', asked := r.asked } where
  queued ft hft f hf := (hqueued ft hft).elim (fun hold => h.queued ft hold f hf)
    fun hnew => .inl (hnew f hf)
  inHand u f hf := by
    simp only [hworkers] at hf
    by_cases hu : u = t
    · subst hu
      rw [Function.update_self] at hf
      exact hfiber f hf
    · rw [Function.update_of_ne hu] at hf
      exact h.inHand u f hf
  task u thread hthread := by
    simp only [hworkers] at hthread
    by_cases hu : u = t
    · subst hu
      rw [Function.update_self] at hthread
      exact htask thread hthread
    · rw [Function.update_of_ne hu] at hthread
      exact h.task u thread hthread

theorem askedAfter_of_thread (hthread : call.thread = some t)
    (hbinds : (r.sched.workers t).pc.binds = none) : r.askedAfter call = r.asked := by
  cases call with
  | advance u =>
      obtain rfl := Option.some.inj hthread
      simp [askedAfter, hbinds]
  | schedule _ _ => cases hthread
  | _ => rfl

/-- A request comes with the callback, and the fiber that it gets is nowhere else. -/
theorem Placed.bind {s' : Scheduler} {f : Nat} {thread : Int} (h : r.Placed)
    (hslotted : r.sched.Slotted) (hknown : r.sched.Known)
    (hbinds : (r.sched.workers t).pc.binds = some thread)
    (hf : f = (r.sched.workers t).cbFiber.getD r.sched.created)
    (hfibers : s'.fibers = r.sched.fibers)
    (hworkers : s'.workers = Function.update r.sched.workers t
      { r.sched.workers t with pc := .swapIn .cb f, cbFiber := some f }) :
    Placed { sched := s', asked := Function.update r.asked f thread } := by
  have hplace := hknown.bound t
  rw [← hf] at hplace
  constructor
  · intro ft hft g hg
    simp only [hfibers] at hft
    have hne : g ≠ f := by
      rintro rfl
      have hin : g ∈ r.sched.queued := mem_queued.mpr ⟨ft, hft, hg⟩
      exact hplace.elim (fun hslot => hslotted.queue t g hslot hin) fun hfresh => hfresh.1 hin
    simpa only [Function.update_of_ne hne] using h.queued ft hft g hg
  · intro u g hg
    simp only [hworkers] at hg
    by_cases hu : u = t
    · subst hu
      rw [Function.update_self] at hg
      obtain rfl := Option.some.inj hg
      simp only [Function.update_self]
      exact h.task u thread (Pc.asked_of_binds hbinds)
    · rw [Function.update_of_ne hu] at hg
      have hne : g ≠ f := by
        rintro rfl
        exact hplace.elim (fun hslot => hu (hslotted.alone t u g hslot (.inl hg)))
          fun hfresh => hfresh.2 u (.inl hg)
      simpa only [Function.update_of_ne hne] using h.inHand u g hg
  · intro u thread' heq
    simp only [hworkers] at heq
    by_cases hu : u = t
    · subst hu
      rw [Function.update_self] at heq
      cases heq
    · rw [Function.update_of_ne hu] at heq
      exact h.task u thread' heq

theorem Placed.handover {s' : Scheduler} (h : r.Placed) (hslotted : r.sched.Slotted)
    (hknown : r.sched.Known) (hguard : r.KeepsRequests call) (hthread : call.thread = some t)
    (hcall : call = .advance t ∨ ∃ b f, (r.sched.workers t).pc = .running b f)
    (ht : Handover r.sched t s') : Placed { sched := s', asked := r.askedAfter call } := by
  cases ht with
  | @take ft front back hcut hfibers hmatch hbinds _ _ hworkers =>
      rw [askedAfter_of_thread hthread hbinds]
      have hmem : ft ∈ r.sched.fibers := by simp [hcut]
      refine h.update hworkers ?_ ?_ ?_
      · intro ft' hft'
        rw [hfibers] at hft'
        rw [hcut]
        exact .inl (List.mem_append.mpr ((List.mem_append.mp hft').imp id (List.mem_cons_of_mem _)))
      · intro f hf
        rcases h.queued ft hmem f hf with hnone | hsame
        · exact .inl hnone
        · rwa [← hsame]
      · intro thread heq
        obtain rfl := Option.some.inj heq
        exact hmatch
  | go hfibers _ _ hfiber _ hasked hbinds hworkers =>
      rw [askedAfter_of_thread hthread hbinds]
      refine h.update hworkers ?_ (fun f hf => h.inHand t f (hfiber f hf))
        (fun thread heq => h.task t thread (hasked thread heq))
      rw [hfibers]
      exact fun ft hft => .inl hft
  | bind hbinds hf hfibers _ _ _ hworkers =>
      rcases hcall with rfl | ⟨b, f, hrunning⟩
      · simp only [askedAfter, hbinds, ← hf]
        exact h.bind hslotted hknown hbinds hf hfibers hworkers
      · rw [hrunning] at hbinds
        cases hbinds
  | @leave b f fts hres hfts hfibers _ _ hworkers =>
      rw [askedAfter_of_thread hthread (Pc.binds_of_asked (Pc.asked_of_resumed hres))]
      refine h.update hworkers ?_ ?_ ?_
      · intro ft hft
        rw [hfibers] at hft
        rcases List.mem_append.mp hft with hold | hback
        · exact .inl hold
        · rcases hfts with rfl | ⟨hpc, rfl⟩
          · cases hback
          · obtain rfl := List.mem_singleton.mp hback
            refine .inr fun g hg => ?_
            obtain rfl := Option.some.inj hg
            rcases hcall with hadvance | ⟨b', f', hrunning⟩
            · exact hguard.requeues t b f hadvance hpc
            · rw [hpc] at hrunning
              cases hrunning
      · intro g hg
        rw [Worker.leave_pc] at hg
        cases hg
      · intro thread heq
        rw [Worker.leave_pc] at heq
        cases heq

theorem askedAfter_of_external (hthread : call.thread = none) :
    r.askedAfter call = r.asked ∨
      ∃ f thread, call = .schedule (.fiber (some f)) thread ∧
        r.askedAfter call = Function.update r.asked f thread := by
  cases call with
  | schedule fc thread =>
      match fc with
      | .fiber (some f) =>
          by_cases hnone : thread = -1
          · exact .inl (if_pos hnone)
          · exact .inr ⟨f, thread, rfl, if_neg hnone⟩
      | .fiber none => exact .inl rfl
      | .cb _ => exact .inl rfl
  | advance _ => cases hthread
  | _ => exact .inl rfl

theorem Placed.external {s' : Scheduler} (h : r.Placed) (hguard : r.KeepsRequests call)
    (hthread : call.thread = none) (he : External r.sched call s') :
    Placed { sched := s', asked := r.askedAfter call } := by
  have hsame : Placed { sched := s', asked := r.asked } := by
    constructor
    · intro ft hft f hf
      simp only [he.fibers] at hft
      rcases List.mem_append.mp hft with hold | hnew
      · exact h.queued ft hold f hf
      · exact (hguard.pushes ft hnew f hf).2.elim .inr fun hidle => .inl hidle.1
    · intro t f hf
      simp only [he.workers] at hf
      exact h.inHand t f hf
    · intro t thread heq
      simp only [he.workers] at heq
      exact h.task t thread heq
  rcases askedAfter_of_external (r := r) hthread with heq | ⟨f, thread, rfl, heq⟩
  · rw [heq]
    exact hsame
  · rw [heq]
    have hpushes : SchedCall.pushes (.schedule (.fiber (some f)) thread) =
        [{ fiber := some f, thread := thread }] := rfl
    obtain ⟨-, hagree⟩ := hguard.pushes { fiber := some f, thread := thread } (by simp [hpushes])
      f rfl
    rcases hagree with hagree | ⟨-, hqueue, hfree⟩
    · have hupdate : Function.update r.asked f thread = r.asked := by
        change thread = r.asked f at hagree
        rw [hagree, Function.update_eq_self]
      rw [hupdate]
      exact hsame
    · constructor
      · intro ft hft g hg
        simp only [he.fibers, hpushes] at hft
        rcases List.mem_append.mp hft with hold | hnew
        · have hne : g ≠ f := by
            rintro rfl
            exact hqueue (mem_queued.mpr ⟨ft, hold, hg⟩)
          simpa only [Function.update_of_ne hne] using h.queued ft hold g hg
        · obtain rfl := List.mem_singleton.mp hnew
          obtain rfl := Option.some.inj hg
          exact .inr (Function.update_self f thread r.asked).symm
      · intro t g hg
        simp only [he.workers] at hg
        have hne : g ≠ f := by
          rintro rfl
          exact hfree t hg
        simpa only [Function.update_of_ne hne] using h.inHand t g hg
      · exact hsame.task

/-! ## Whole runs -/

structure Invariant (r : Requests) : Prop where
  known : r.sched.Known
  slotted : r.sched.Slotted
  placed : r.Placed

theorem Invariant.step (h : r.Invariant) (hguard : r.KeepsRequests call)
    (hstep : r.Step pool call r') : r'.Invariant := by
  obtain ⟨s', hsched, rfl⟩ := Option.map_eq_some_iff.mp hstep
  have heffect := (step_effect hsched).1
  have hknown := h.known.step heffect
  rcases heffect.handover with ⟨t, hthread, ht, hcall⟩ | ⟨hthread, he⟩
  · exact ⟨hknown, h.slotted.handover h.known ht,
      h.placed.handover h.slotted h.known hguard hthread hcall ht⟩
  · exact ⟨hknown, h.slotted.external he fun ft hft f hf => (hguard.pushes ft hft f hf).1,
      h.placed.external hguard hthread he⟩

theorem run_onAskedThread (pool : Pool) (calls : List SchedCall) (r : Requests)
    (h : Run (Run.Guarded (Step pool) KeepsRequests) {} calls r) : r.OnAskedThread := by
  have hinv : r.Invariant :=
    h.invariant (fun _ _ _ hr hstep => hr.step hstep.1 hstep.2)
      ⟨known_init, slotted_init, placed_init⟩
  exact hinv.placed.onAskedThread

/-! ## Runs that are computed -/

theorem sched_run {calls : List SchedCall} (h : Run (Step pool) r calls r') :
    Run (Scheduler.Step pool) r.sched calls r'.sched := by
  induction h with
  | nil r => exact .nil r.sched
  | cons hstep _ ih =>
      obtain ⟨s', hsched, rfl⟩ := Option.map_eq_some_iff.mp hstep
      exact .cons hsched ih

/-- `KeepsRequests` as it is tested, where thread numbers outside the pool play no part. -/
def keepsRequestsOn (pool : Pool) (r : Requests) (call : SchedCall) : Bool :=
  (call.pushes.all fun ft => ft.fiber.all fun f =>
    (∀ t ∈ pool.ids, (r.sched.workers t).cbFiber ≠ some f) ∧
      (ft.thread = r.asked f ∨ r.asked f = -1 ∧ f ∉ r.sched.queued ∧
        ∀ t ∈ pool.ids, (r.sched.workers t).pc.fiber ≠ some f)) &&
  match call with
  | .advance t =>
      match (r.sched.workers t).pc with
      | .requeue _ f => r.asked f = -1
      | _ => true
  | _ => true

theorem keepsRequests_of_keepsRequestsOn {calls : List SchedCall}
    (hrun : Run (Step pool) {} calls r)
    (h : keepsRequestsOn pool r call = true) : r.KeepsRequests call := by
  obtain ⟨hpushes, hrequeue⟩ := (Bool.and_eq_true _ _).mp h
  have houtside : ∀ t, t ∉ pool.ids → r.sched.workers t = {} := fun t ht =>
    workers_outside (sched_run hrun) ht
  constructor
  · intro ft hft f hf
    have htest := List.all_eq_true.mp hpushes ft hft
    rw [hf] at htest
    obtain ⟨hslot, hagree⟩ := of_decide_eq_true htest
    refine ⟨?_, hagree.imp id fun hidle => ⟨hidle.1, hidle.2.1, ?_⟩⟩
    · intro t
      by_cases ht : t ∈ pool.ids
      · exact hslot t ht
      · rw [houtside t ht]
        exact nofun
    · intro t
      by_cases ht : t ∈ pool.ids
      · exact hidle.2.2 t ht
      · rw [houtside t ht]
        exact nofun
  · rintro t b f rfl hpc
    simpa [hpc] using hrequeue

/-- A fiber for thread 1 runs to its end there, one without a request yields, and a
callback for thread 2 runs on that thread. -/
def keepThreads : List SchedCall :=
  [SchedCall.newFiber (some 7), .newFiber (some 9), .schedule (.fiber (some 0)) 1,
    .schedule (.fiber (some 1)) (-1), .schedule (.cb (some 8)) 2] ++
    List.replicate 5 (SchedCall.advance 1) ++ [SchedCall.finish 1] ++
    List.replicate 8 (SchedCall.advance 1) ++ [SchedCall.yieldToReady 1] ++
    List.replicate 4 (SchedCall.advance 1) ++ List.replicate 6 (SchedCall.advance 2)

theorem run_onAskedThread_callback :
    ∃ r, Run (Run.Guarded (Step twoThreads) KeepsRequests) {} keepThreads r ∧
      (r.sched.workers 2).pc = .running .cb 2 ∧ r.asked 2 = 2 ∧ r.OnAskedThread := by
  have hexec : ((keepThreads.foldlM (fun r call =>
      if keepsRequestsOn twoThreads r call then step twoThreads r call else none) {}).any fun r =>
        (r.sched.workers 2).pc = .running .cb 2 ∧ r.asked 2 = 2) = true := by
    decide
  obtain ⟨r, hr, hends⟩ := (Option.any_eq_true _ _).mp hexec
  obtain ⟨hpc, hasked⟩ := of_decide_eq_true hends
  have hrun := Run.guarded_of_foldlM (fun _ _ _ h => h)
    (fun _ _ _ => keepsRequests_of_keepsRequestsOn) (.nil _) hr
  exact ⟨r, hrun, hpc, hasked, run_onAskedThread twoThreads keepThreads r hrun⟩

/-- A fiber for thread 1 yields with `YieldToReady`, and thread 2 is next. -/
def yieldAndMove : List SchedCall :=
  [SchedCall.newFiber (some 7), .schedule (.fiber (some 0)) 1] ++
    List.replicate 5 (SchedCall.advance 1) ++ [SchedCall.yieldToReady 1] ++
    List.replicate 4 (SchedCall.advance 1) ++ List.replicate 5 (SchedCall.advance 2)

theorem run_leaves_asked_thread :
    ∃ r, Run (Step twoThreads) {} yieldAndMove r ∧ r.asked 0 = 1 ∧
      (r.sched.workers 2).pc = .running .fiber 0 ∧ ¬ r.OnAskedThread := by
  have hexec : ((yieldAndMove.foldlM (step twoThreads) {}).any fun r =>
      r.asked 0 = 1 ∧ (r.sched.workers 2).pc = .running .fiber 0) = true := by
    decide
  obtain ⟨r, hr, hends⟩ := (Option.any_eq_true _ _).mp hexec
  obtain ⟨hasked, hpc⟩ := of_decide_eq_true hends
  refine ⟨r, Run.of_foldlM (fun _ _ _ h => h) hr, hasked, hpc, ?_⟩
  intro hon
  have heq := hon 2 0 (by rw [hpc]; rfl) (by rw [hasked]; decide)
  rw [hasked] at heq
  cases heq

end Requests

end Lyslg
