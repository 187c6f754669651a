import Lyslg.Scheduler.Conservation
import Lyslg.Scheduler.Exclusive
/-!
# The assertions of the scheduler

`pick`, `swapIn`, `reset` and `addEvent` assert something about `m_state` or the queue.
While fibers are pushed only when they are parked, `m_state` of a fiber follows the
thread that has it: no assertion fails, and a fiber is in `EXEC` only on a thread.
-/

namespace Lyslg

open Support Support.Machine Scheduler

namespace Pc

/-- What `m_state` of the fiber in hand can be. -/
def allows : Pc → FiberState → Bool
  | picked _, state | swapIn _ _, state | storeExec _ _, state => state ≠ .exec
  | switchIn _ _, state | running _ _, state => state = .exec
  | switchOut _ _, state | returned _ _, state | after _ _, state =>
      state ≠ .init ∧ state ≠ .exec
  | requeue _ _, state => state = .ready
  | holding _ _, state => state = .hold
  | clearing _, state => state = .term ∨ state = .except
  | _, _ => true

/-- The fiber that is in `EXEC`. -/
def inExec : Pc → Option Nat
  | switchIn _ f | running _ f => some f
  | _ => none

/-- The thread is neither in the code of a fiber nor at its end. -/
def canAdvance : Pc → Bool
  | running _ _ | exited => false
  | _ => true

/-- The fiber of `cb_fiber`, where it was resumed. -/
def resumedCb (pc : Pc) : Option Nat :=
  pc.resumed.bind fun (b, f) => if b = .cb then some f else none

variable {pc : Pc} {f : Nat}

theorem fiber_of_inExec (h : pc.inExec = some f) : pc.fiber = some f := by
  cases pc <;> first | exact h | cases h

theorem exec_of_inExec {state : FiberState} (h : pc.inExec = some f)
    (hstate : pc.allows state = true) : state = .exec := by
  cases pc <;> cases h <;> exact of_decide_eq_true hstate

end Pc

/-- `m_state` of the fibers that a thread has. -/
structure Worker.Fits (w : Worker) (heap : Nat → Fiber) : Prop where
  inHand : ∀ f, w.pc.fiber = some f → w.pc.allows (heap f).state = true
  resumedCb : ∀ f, w.pc.resumedCb = some f → w.cbFiber = some f
  /-- `cb_fiber` was reset -/
  ready : ∀ f, w.cbFiber = some f → w.pc.resumedCb = none → (heap f).state = .init

namespace Scheduler

variable {pool : Pool} {s s' : Scheduler} {t : Nat} {call : SchedCall} {w : Worker}

structure Sound (s : Scheduler) : Prop where
  fits : ∀ t, (s.workers t).Fits s.heap
  exec : ∀ f, (s.heap f).state = .exec → ∃ t, (s.workers t).pc.inExec = some f

theorem sound_init : Sound {} where
  fits _ := ⟨nofun, nofun, nofun⟩
  exec _ h := nomatch h

/-- Thread `t` goes on, and only its own fibers and new ones change. -/
theorem Sound.turn (h : s.Sound) (howned : s.Owned) (hknown : s.Known)
    (hworkers : s'.workers = Function.update s.workers t w)
    (hheap : ∀ f, s'.heap f ≠ s.heap f → (s.workers t).holds f ∨ s.created ≤ f)
    (hfits : w.Fits s'.heap)
    (hexec : ∀ f, (s'.heap f).state = .exec → w.pc.inExec = some f ∨
      ((s.heap f).state = .exec ∧ (s.workers t).pc.inExec ≠ some f)) : s'.Sound := by
  have hothers : ∀ u, u ≠ t → s'.workers u = s.workers u := by
    intro u hu
    rw [hworkers, Function.update_of_ne hu]
  have hself : s'.workers t = w := by rw [hworkers, Function.update_self]
  have hsame : ∀ u f, u ≠ t → (s.workers u).holds f → s'.heap f = s.heap f := by
    intro u f hu hf
    by_contra hne
    rcases hheap f hne with hown | hnew
    · exact hu (howned.exclusive.alone u t f hf hown)
    · exact absurd (hknown.held u f hf) (Nat.not_lt.mpr hnew)
  constructor
  · intro u
    by_cases hu : u = t
    · subst hu
      rw [hself]
      exact hfits
    · rw [hothers u hu]
      have hu' := h.fits u
      refine ⟨fun f hf => ?_, hu'.resumedCb, fun f hf hcb => ?_⟩
      · rw [hsame u f hu (.inl hf)]
        exact hu'.inHand f hf
      · rw [hsame u f hu (.inr hf)]
        exact hu'.ready f hf hcb
  · intro f hf
    rcases hexec f hf with hown | ⟨hold, hnot⟩
    · exact ⟨t, hself ▸ hown⟩
    · obtain ⟨u, hu⟩ := h.exec f hold
      have hne : u ≠ t := by
        rintro rfl
        exact hnot hu
      exact ⟨u, (hothers u hne).symm ▸ hu⟩

/-- The thread goes to another point with the same fibers in the same states. -/
theorem Sound.same (h : s.Sound) (howned : s.Owned) (hknown : s.Known)
    (hworkers : s'.workers = Function.update s.workers t w) (hheap : s'.heap = s.heap)
    (hcb : w.cbFiber = (s.workers t).cbFiber)
    (hhand : ∀ f, w.pc.fiber = some f → w.pc.allows (s.heap f).state = true)
    (hres : w.pc.resumedCb = (s.workers t).pc.resumedCb)
    (hexec : w.pc.inExec = (s.workers t).pc.inExec) : s'.Sound := by
  have ht := h.fits t
  refine h.turn howned hknown hworkers (fun f hf => absurd (congrFun hheap f) hf) ?_ ?_
  · rw [hheap]
    exact ⟨hhand, hres ▸ hcb ▸ ht.resumedCb, hres ▸ hcb ▸ ht.ready⟩
  · rw [hheap]
    intro f hf
    by_cases hin : (s.workers t).pc.inExec = some f
    · exact .inl (hexec.trans hin)
    · exact .inr ⟨hf, hin⟩

/-- The fiber in hand, or `cb_fiber`, gets another state. -/
theorem Sound.assign {f : Nat} {fiber : Fiber} (h : s.Sound) (howned : s.Owned)
    (hknown : s.Known) (hworkers : s'.workers = Function.update s.workers t w)
    (hheap : s'.heap = Function.update s.heap f fiber)
    (hf : (s.workers t).holds f ∨ s.created ≤ f) (hfits : w.Fits s'.heap)
    (hexec : fiber.state = .exec → w.pc.inExec = some f)
    (hothers : ∀ g, g ≠ f → (s.workers t).pc.inExec ≠ some g) : s'.Sound := by
  refine h.turn howned hknown hworkers ?_ hfits ?_
  · intro g hg
    by_cases hgf : g = f
    · exact hgf ▸ hf
    · rw [hheap, Function.update_of_ne hgf] at hg
      exact absurd rfl hg
  · intro g hg
    by_cases hgf : g = f
    · subst hgf
      rw [hheap, Function.update_self] at hg
      exact .inl (hexec hg)
    · rw [hheap, Function.update_of_ne hgf] at hg
      exact .inr ⟨hg, hothers g hgf⟩

/-! ## What one step keeps -/

theorem Sound.pick (h : s.Sound) (howned : s.Owned) (hknown : s.Known)
    (hpc : (s.workers t).pc = .top) (hstep : s.pick t = some s') : s'.Sound := by
  unfold Scheduler.pick at hstep
  split at hstep
  · cases hstep
  · obtain rfl := Option.some.inj hstep
    exact h.same howned hknown rfl rfl rfl nofun (by rw [hpc]; rfl) (by rw [hpc]; rfl)
  · rename_i ft left hpick
    obtain rfl := Option.some.inj hstep
    refine h.same howned hknown rfl rfl rfl ?_ (by rw [hpc]; rfl) (by rw [hpc]; rfl)
    intro f hf
    obtain ⟨_, _, _, _, helig⟩ := pickLoop_some hpick
    have hne : ¬ (s.heap f).state = .exec := by
      intro hexec
      have hft : ft.fiber = some f := hf
      simp [eligible, hft, hexec] at helig
    exact decide_eq_true hne

theorem Sound.choose {ft : FiberAndThread} (h : s.Sound) (howned : s.Owned) (hknown : s.Known)
    (hpc : (s.workers t).pc = .picked ft) : (s.choose t ft).Sound := by
  have hhand := (h.fits t).inHand
  rw [hpc] at hhand
  unfold Scheduler.choose
  split
  · rename_i f hfilter
    refine h.same howned hknown rfl rfl rfl ?_ (by rw [hpc]; rfl) (by rw [hpc]; rfl)
    intro g hg
    obtain rfl := Option.some.inj hg
    exact hhand _ (Option.filter_eq_some_iff.mp hfilter).1
  · split
    all_goals exact h.same howned hknown rfl rfl rfl nofun (by rw [hpc]; rfl) (by rw [hpc]; rfl)

theorem Sound.bindCb {c : Callback} {thread : Int} (h : s.Sound) (howned : s.Owned)
    (hknown : s.Known) (hpc : (s.workers t).pc = .binding c thread)
    (hstep : s.bindCb t c = some s') : s'.Sound := by
  have hout : ∀ g, (s.workers t).pc.inExec ≠ some g := by
    intro g hg
    rw [hpc] at hg
    cases hg
  have hfits : ∀ (heap : Nat → Fiber) (f : Nat), (heap f).state = .init →
      Worker.Fits { s.workers t with pc := .swapIn .cb f, cbFiber := some f } heap := by
    intro heap f hinit
    refine ⟨fun g hg => ?_, fun g hg => hg, fun g _ hnone => nomatch hnone⟩
    obtain rfl := Option.some.inj hg
    simp [Pc.allows, hinit]
  unfold Scheduler.bindCb at hstep
  split at hstep
  · rename_i f hslot
    obtain ⟨fiber, hreset, rfl⟩ := Option.map_eq_some_iff.mp hstep
    have hinit : fiber.state = .init := by
      unfold Fiber.reset at hreset
      split at hreset
      · obtain rfl := Option.some.inj hreset
        rfl
      · cases hreset
    have hworkers : (s.setFiber f fiber).goto t (.swapIn .cb f) =
        (s.setFiber f fiber).setWorker t
          { s.workers t with pc := .swapIn .cb f, cbFiber := some f } := by
      rw [← hslot]
      rfl
    rw [hworkers]
    refine h.assign howned hknown rfl rfl (.inl (.inr hslot)) ?_ ?_ (fun g _ => hout g)
    · apply hfits
      change (Function.update s.heap f fiber f).state = .init
      rw [Function.update_self, hinit]
    · rw [hinit]
      nofun
  · obtain rfl := Option.some.inj hstep
    refine h.assign howned hknown rfl rfl (.inr le_rfl) ?_ nofun (fun g _ => hout g)
    apply hfits
    change (Function.update s.heap s.created { cb := some c } s.created).state = .init
    rw [Function.update_self]

/-- A fiber that was resumed is not the one that waits in `cb_fiber`. -/
theorem Owned.ne_of_ready {b : Branch} {f g : Nat} (h : s.Owned)
    (hres : (s.workers t).pc.resumed = some (b, f)) (hnone : (s.workers t).pc.resumedCb = none)
    (hg : (s.workers t).cbFiber = some g) : g ≠ f := by
  rintro rfl
  refine h.apart t g ?_ hg
  rw [Pc.taken_of_resumed hres, if_pos]
  cases b with
  | fiber => rfl
  | cb =>
      rw [Pc.resumedCb, hres] at hnone
      cases hnone

theorem Sound.storeExec {b : Branch} {f : Nat} (h : s.Sound) (howned : s.Owned)
    (hknown : s.Known) (hpc : (s.workers t).pc = .storeExec b f) :
    ((s.setState f .exec).goto t (.switchIn b f)).Sound := by
  have ht := h.fits t
  have hheld : (s.workers t).holds f := .inl (by rw [hpc]; rfl)
  refine h.assign howned hknown rfl rfl (.inl hheld) ⟨?_, ?_, ?_⟩ (fun _ => rfl)
    (fun g _ hg => by rw [hpc] at hg; cases hg)
  · intro g hg
    obtain rfl := Option.some.inj hg
    change Pc.allows (.switchIn b f) (Function.update s.heap f _ f).state = true
    rw [Function.update_self]
    rfl
  · intro g hg
    exact ht.resumedCb g (by rw [hpc]; exact hg)
  · intro g hg hnone
    have hout : (s.workers t).pc.resumedCb = none := by rw [hpc]; exact hnone
    have hne := howned.ne_of_ready (by rw [hpc]; rfl) hout hg
    change (Function.update s.heap f _ g).state = .init
    rw [Function.update_of_ne hne]
    exact ht.ready g hg hout

/-- The code of a fiber ends its turn. -/
theorem Sound.swapOut {b : Branch} {f : Nat} {fiber : Fiber} (h : s.Sound) (howned : s.Owned)
    (hknown : s.Known) (hpc : (s.workers t).pc = .running b f)
    (hinit : fiber.state ≠ .init) (hexec : fiber.state ≠ .exec) :
    ((s.setFiber f fiber).goto t (.switchOut b f)).Sound := by
  have ht := h.fits t
  have hheld : (s.workers t).holds f := .inl (by rw [hpc]; rfl)
  refine h.assign howned hknown rfl rfl (.inl hheld) ⟨?_, ?_, ?_⟩ (fun h => absurd h hexec) ?_
  · intro g hg
    obtain rfl := Option.some.inj hg
    change Pc.allows (.switchOut b f) (Function.update s.heap f fiber f).state = true
    rw [Function.update_self]
    exact decide_eq_true ⟨hinit, hexec⟩
  · intro g hg
    exact ht.resumedCb g (by rw [hpc]; exact hg)
  · intro g hg hnone
    have hout : (s.workers t).pc.resumedCb = none := by rw [hpc]; exact hnone
    have hne := howned.ne_of_ready (by rw [hpc]; rfl) hout hg
    change (Function.update s.heap f fiber g).state = .init
    rw [Function.update_of_ne hne]
    exact ht.ready g hg hout
  · intro g hne hg
    rw [hpc] at hg
    exact hne (Option.some.inj hg).symm

/-- A branch is left with the fiber in no state of the heap that changes. -/
theorem Sound.leave {b : Branch} {f : Nat} {fibers : List FiberAndThread} (h : s.Sound)
    (howned : s.Owned) (hknown : s.Known)
    (hres : (s.workers t).pc.resumed = some (b, f)) (hexec : (s.workers t).pc.inExec = none) :
    (({ s with fibers := fibers } : Scheduler).leave t b).Sound := by
  have ht := h.fits t
  rw [leave_eq]
  refine h.turn howned hknown rfl (fun g hg => absurd rfl hg) ⟨?_, ?_, ?_⟩ ?_
  · intro g hg
    rw [Worker.leave_pc] at hg
    cases hg
  · intro g hg
    rw [Worker.leave_pc] at hg
    cases hg
  · intro g hg _
    cases b with
    | fiber =>
        refine ht.ready g hg ?_
        rw [Pc.resumedCb, hres]
        rfl
    | cb => cases hg
  · intro g hg
    exact .inr ⟨hg, by simp [hexec]⟩

theorem Sound.hold {b : Branch} {f : Nat} (h : s.Sound) (howned : s.Owned)
    (hknown : s.Known) (hpc : (s.workers t).pc = .holding b f) :
    ((s.setState f .hold).leave t b).Sound := by
  have hstate : (s.heap f).state = .hold := by
    have hallows := (h.fits t).inHand f (by rw [hpc]; rfl)
    rw [hpc] at hallows
    exact of_decide_eq_true hallows
  have hsame : s.setState f .hold = { s with fibers := s.fibers } := by
    rw [setState, setFiber, ← hstate, Function.update_eq_self]
  rw [hsame]
  exact h.leave howned hknown (by rw [hpc]; rfl) (by rw [hpc]; rfl)

theorem Sound.clear {f : Nat} {fiber : Fiber} (h : s.Sound) (howned : s.Owned)
    (hknown : s.Known) (hpc : (s.workers t).pc = .clearing f)
    (hreset : (s.heap f).reset none = some fiber) :
    ((s.setFiber f fiber).goto t .top).Sound := by
  have hinit : fiber.state = .init := by
    unfold Fiber.reset at hreset
    split at hreset
    · obtain rfl := Option.some.inj hreset
      rfl
    · cases hreset
  have hslot := (h.fits t).resumedCb f (by rw [hpc]; rfl)
  refine h.assign howned hknown rfl rfl (.inl (.inr hslot)) ⟨nofun, nofun, ?_⟩ ?_
    (fun g _ hg => by rw [hpc] at hg; cases hg)
  · intro g hg _
    obtain rfl := Option.some.inj (hslot.symm.trans hg)
    change (Function.update s.heap f fiber f).state = .init
    rw [Function.update_self, hinit]
  · rw [hinit]
    nofun

theorem Sound.afterSwap {b : Branch} {f : Nat} (h : s.Sound) (howned : s.Owned)
    (hknown : s.Known) (hpc : (s.workers t).pc = .after b f) : (s.afterSwap t b f).Sound := by
  have hallows := (h.fits t).inHand f (by rw [hpc]; rfl)
  rw [hpc] at hallows
  obtain ⟨hinit, hexec⟩ := of_decide_eq_true hallows
  have hgo : ∀ pc : Pc, pc.fiber = some f → pc.allows (s.heap f).state = true →
      pc.resumedCb = (s.workers t).pc.resumedCb → pc.inExec = none → (s.goto t pc).Sound := by
    intro pc hfiber hstate hres hnone
    refine h.same howned hknown rfl rfl rfl ?_ hres (by rw [hpc]; exact hnone)
    intro g hg
    obtain rfl := Option.some.inj (hfiber.symm.trans hg)
    exact hstate
  have htop (hb : b = .fiber) : (s.goto t .top).Sound := by
    subst hb
    exact h.same howned hknown rfl rfl rfl nofun (by rw [hpc]; rfl) (by rw [hpc]; rfl)
  have hclear (hb : b = .cb) (hend : (s.heap f).state = .term ∨ (s.heap f).state = .except) :
      (s.goto t (.clearing f)).Sound := by
    subst hb
    exact hgo _ rfl (decide_eq_true hend) (by rw [hpc]; rfl) rfl
  unfold Scheduler.afterSwap
  cases hstate : (s.heap f).state with
  | init => exact absurd hstate hinit
  | exec => exact absurd hstate hexec
  | ready => exact hgo _ rfl (by rw [hstate]; rfl) (by rw [hpc]; rfl) rfl
  | hold => exact hgo _ rfl (by rw [hstate]; rfl) (by rw [hpc]; rfl) rfl
  | term =>
      cases b with
      | fiber => exact htop rfl
      | cb => exact hclear rfl (.inl hstate)
  | except =>
      cases b with
      | fiber => exact htop rfl
      | cb => exact hclear rfl (.inr hstate)

theorem Sound.advance (h : s.Sound) (howned : s.Owned) (hknown : s.Known)
    (hstep : s.advance t = some s') : s'.Sound := by
  have ht := h.fits t
  have hgo : ∀ pc : Pc, pc.fiber = (s.workers t).pc.fiber →
      (∀ f, (s.workers t).pc.fiber = some f → pc.allows (s.heap f).state = true) →
      pc.resumedCb = (s.workers t).pc.resumedCb → pc.inExec = (s.workers t).pc.inExec →
      ∀ active : Nat, (({ s with activeThreadCount := active } : Scheduler).goto t pc).Sound := by
    intro pc hfiber hallows hres hexec active
    exact h.same howned hknown rfl rfl rfl (fun f hf => hallows f (hfiber ▸ hf)) hres hexec
  have hidle : ∀ (pc : Pc) (term : Bool) (idle : Nat), pc.free = true →
      (s.workers t).pc.free = true →
      (({ s with idleThreadCount := idle } : Scheduler).setWorker t
        { s.workers t with pc := pc, idleTerm := term }).Sound := by
    intro pc term idle hpc hold
    have hnone : ∀ pc : Pc, pc.free = true → pc.resumedCb = none ∧ pc.inExec = none := by
      intro pc hpc
      cases pc <;> first | exact ⟨rfl, rfl⟩ | cases hpc
    refine h.same howned hknown rfl rfl rfl ?_ ?_ ?_
    · intro f hf
      rw [Pc.fiber_of_free hpc] at hf
      cases hf
    · rw [(hnone _ hpc).1, (hnone _ hold).1]
    · rw [(hnone _ hpc).2, (hnone _ hold).2]
  have hhand := ht.inHand
  unfold Scheduler.advance at hstep
  split at hstep
  case h_1 hpc => exact h.pick howned hknown hpc hstep
  case h_2 ft hpc =>
    obtain rfl := Option.some.inj hstep
    exact h.choose howned hknown hpc
  case h_3 c thread hpc => exact h.bindCb howned hknown hpc hstep
  case h_4 b f hpc =>
    rw [hpc] at hhand
    split at hstep
    · cases hstep
    · obtain rfl := Option.some.inj hstep
      exact hgo _ (by rw [hpc]; rfl) (by rw [hpc]; exact hhand) (by rw [hpc]; rfl)
        (by rw [hpc]; rfl) s.activeThreadCount
  case h_5 b f hpc =>
    obtain rfl := Option.some.inj hstep
    exact h.storeExec howned hknown hpc
  case h_6 b f hpc =>
    rw [hpc] at hhand
    obtain rfl := Option.some.inj hstep
    exact hgo _ (by rw [hpc]; rfl) (by rw [hpc]; exact hhand) (by rw [hpc]; rfl)
      (by rw [hpc]; rfl) s.activeThreadCount
  case h_7 => cases hstep
  case h_8 b f hpc =>
    rw [hpc] at hhand
    obtain rfl := Option.some.inj hstep
    exact hgo _ (by rw [hpc]; rfl) (by rw [hpc]; exact hhand) (by rw [hpc]; rfl)
      (by rw [hpc]; rfl) s.activeThreadCount
  case h_9 b f hpc =>
    rw [hpc] at hhand
    obtain rfl := Option.some.inj hstep
    exact hgo _ (by rw [hpc]; rfl) (by rw [hpc]; exact hhand) (by rw [hpc]; rfl)
      (by rw [hpc]; rfl) _
  case h_10 b f hpc =>
    obtain rfl := Option.some.inj hstep
    exact h.afterSwap howned hknown hpc
  case h_11 b f hpc =>
    obtain rfl := Option.some.inj hstep
    rw [scheduleNoLock_eq]
    exact h.leave howned hknown (by rw [hpc]; rfl) (by rw [hpc]; rfl)
  case h_12 b f hpc =>
    obtain rfl := Option.some.inj hstep
    exact h.hold howned hknown hpc
  case h_13 f hpc =>
    obtain ⟨fiber, hreset, rfl⟩ := Option.map_eq_some_iff.mp hstep
    exact h.clear howned hknown hpc hreset
  case h_14 hpc =>
    obtain rfl := Option.some.inj hstep
    exact hgo _ (by rw [hpc]; rfl) (by rw [hpc]; nofun) (by rw [hpc]; rfl) (by rw [hpc]; rfl) _
  case h_15 hpc =>
    have hfree : (s.workers t).pc.free = true := by rw [hpc]; rfl
    split at hstep
    · obtain rfl := Option.some.inj hstep
      exact hidle .exited (s.workers t).idleTerm s.idleThreadCount rfl hfree
    · obtain rfl := Option.some.inj hstep
      exact hidle .idling (s.workers t).idleTerm _ rfl hfree
  case h_16 hpc =>
    obtain rfl := Option.some.inj hstep
    exact hidle .idleBack s.stopping s.idleThreadCount rfl (by rw [hpc]; rfl)
  case h_17 hpc =>
    obtain rfl := Option.some.inj hstep
    exact hidle .top (s.workers t).idleTerm _ rfl (by rw [hpc]; rfl)
  case h_18 => cases hstep

/-- A step that moves no thread. -/
theorem Sound.outside (h : s.Sound) (hknown : s.Known) (hworkers : s'.workers = s.workers)
    (hheap : ∀ f, f < s.created → s'.heap f = s.heap f)
    (hexec : ∀ f, (s'.heap f).state = .exec → (s.heap f).state = .exec) : s'.Sound := by
  constructor
  · intro t
    have ht := h.fits t
    rw [hworkers]
    refine ⟨fun f hf => ?_, ht.resumedCb, fun f hf hcb => ?_⟩
    · rw [hheap f (hknown.held t f (.inl hf))]
      exact ht.inHand f hf
    · rw [hheap f (hknown.held t f (.inr hf))]
      exact ht.ready f hf hcb
  · intro f hf
    rw [hworkers]
    exact h.exec f (hexec f hf)

theorem Sound.yieldTo (state : FiberState) (h : s.Sound) (howned : s.Owned) (hknown : s.Known)
    (hinit : state ≠ .init) (hexec : state ≠ .exec) (hstep : s.yieldTo t state = some s') :
    s'.Sound := by
  unfold Scheduler.yieldTo at hstep
  split at hstep
  · rename_i b f hpc
    obtain rfl := Option.some.inj hstep
    exact h.swapOut howned hknown hpc hinit hexec
  · cases hstep

theorem Sound.mainFuncEnd {threw : Bool} (h : s.Sound) (howned : s.Owned) (hknown : s.Known)
    (hstep : s.mainFuncEnd t threw = some s') : s'.Sound := by
  unfold Scheduler.mainFuncEnd at hstep
  split at hstep
  · rename_i b f hpc
    obtain rfl := Option.some.inj hstep
    cases threw with
    | false => exact h.swapOut howned hknown hpc nofun nofun
    | true => exact h.swapOut howned hknown hpc nofun nofun
  · cases hstep

theorem Sound.register (h : s.Sound) (hknown : s.Known) (hstep : s.register t = some s') :
    s'.Sound := by
  unfold Scheduler.register at hstep
  split at hstep
  · obtain rfl := Option.some.inj hstep
    exact h.outside hknown rfl (fun _ _ => rfl) (fun _ hf => hf)
  · cases hstep

theorem Sound.step (h : s.Sound) (howned : s.Owned) (hknown : s.Known)
    (hstep : s.step pool call = some s') : s'.Sound := by
  have heffect := (step_effect hstep).1
  unfold Scheduler.step at hstep
  split at hstep
  · cases call with
    | newFiber cb =>
        obtain rfl := Option.some.inj hstep
        refine h.outside hknown rfl ?_ ?_
        · intro f hf
          exact Function.update_of_ne hf.ne _ _
        · intro f hf
          by_cases hnew : f = s.created
          · subst hnew
            change (Function.update s.heap s.created { cb := cb } s.created).state = .exec at hf
            rw [Function.update_self] at hf
            cases hf
          · change (Function.update s.heap s.created { cb := cb } f).state = .exec at hf
            rwa [Function.update_of_ne hnew] at hf
    | schedule fc thread | scheduleRange fcs | trigger f =>
        cases heffect with
        | push _ _ _ _ => exact h.outside hknown rfl (fun _ _ => rfl) (fun _ hf => hf)
        | act _ hthread _ _ _ _ => cases hthread
    | stop =>
        obtain rfl := Option.some.inj hstep
        exact h.outside hknown rfl (fun _ _ => rfl) (fun _ hf => hf)
    | advance t => exact h.advance howned hknown hstep
    | addEvent t =>
        unfold Scheduler.addEvent at hstep
        dsimp only at hstep
        split at hstep
        · split at hstep
          · exact h.register hknown hstep
          · cases hstep
        · cases hstep
    | addTimer t => exact h.register hknown hstep
    | yieldToHold t => exact h.yieldTo .hold howned hknown nofun nofun hstep
    | yieldToReady t => exact h.yieldTo .ready howned hknown nofun nofun hstep
    | finish t => exact h.mainFuncEnd howned hknown hstep
    | throw t => exact h.mainFuncEnd howned hknown hstep
  · cases hstep

theorem run_sound {calls : List SchedCall}
    (h : Run (Run.Guarded (Step pool) PushesParked) {} calls s) :
    s.Known ∧ s.Owned ∧ s.Sound := by
  refine h.invariant (I := fun s => s.Known ∧ s.Owned ∧ s.Sound) ?_
    ⟨known_init, owned_init, sound_init⟩
  rintro s call s' ⟨hknown, howned, hsound⟩ ⟨hguard, hstep⟩
  have heffect := (step_effect hstep).1
  exact ⟨hknown.step heffect, howned.step hknown hguard heffect, hsound.step howned hknown hstep⟩

/-! ## The assertions -/

theorem Fiber.reset_isSome {fiber : Fiber} {cb : Option Callback}
    (h : fiber.state = .init ∨ fiber.state = .term ∨ fiber.state = .except) :
    (fiber.reset cb).isSome = true := by
  have hstate : fiber.state = .term ∨ fiber.state = .except ∨ fiber.state = .init := by tauto
  rw [Fiber.reset, if_pos hstate]
  rfl

theorem Sound.advance_isSome (h : s.Sound) (hqueue : ∀ ft ∈ s.fibers, ft.nonempty = true) :
    (s.advance t).isSome = (s.workers t).pc.canAdvance := by
  have ht := h.fits t
  have hhand := ht.inHand
  unfold Scheduler.advance
  split
  case h_1 hpc =>
    rw [hpc, Scheduler.pick, pickLoop_eq _ _ hqueue]
    cases s.fibers.find? (eligible s.heap t) with
    | none => rfl
    | some ft => rfl
  case h_3 c thread hpc =>
    rw [hpc, Scheduler.bindCb]
    split
    · rename_i f hslot
      rw [Option.isSome_map]
      exact Fiber.reset_isSome (.inl (ht.ready f hslot (by rw [hpc]; rfl)))
    · rfl
  case h_4 b f hpc =>
    have hne := hhand f (by rw [hpc]; rfl)
    rw [hpc] at hne
    rw [hpc, if_neg (of_decide_eq_true hne)]
    rfl
  case h_13 f hpc =>
    have hend := hhand f (by rw [hpc]; rfl)
    rw [hpc] at hend
    rw [hpc, Option.isSome_map]
    exact Fiber.reset_isSome (.inr (of_decide_eq_true hend))
  case h_15 hpc =>
    rw [hpc]
    split <;> rfl
  all_goals
    rename_i hpc
    rw [hpc]
    rfl

/-- The test of `EXEC` in the locked section skips no task. -/
theorem Sound.eligible_eq (h : s.Sound) (howned : s.Owned) {ft : FiberAndThread}
    (hft : ft ∈ s.fibers) :
    eligible s.heap t ft = (ft.thread == -1 || ft.thread == t) := by
  have hidle : (ft.fiber.any fun f => (s.heap f).state = .exec) = false := by
    rw [Option.any_eq_false]
    intro f hf
    have hne : (s.heap f).state ≠ .exec := by
      intro hexec
      obtain ⟨u, hu⟩ := h.exec f hexec
      exact howned.exclusive.free f (mem_queued.mpr ⟨ft, hft, hf⟩) u
        (.inl (Pc.fiber_of_inExec hu))
    simpa using hne
  rw [eligible, hidle]
  simp

theorem addEvent_isSome_iff (h : s.Sound) :
    (s.addEvent t).isSome = true ↔ ∃ b f, (s.workers t).pc = .running b f := by
  constructor
  · intro hsome
    unfold Scheduler.addEvent at hsome
    split at hsome
    · rename_i b f hpc
      exact ⟨b, f, hpc⟩
    · cases hsome
  · rintro ⟨b, f, hpc⟩
    have hexec : (s.heap f).state = .exec := by
      have hhand := (h.fits t).inHand f (by rw [hpc]; rfl)
      rw [hpc] at hhand
      exact Pc.exec_of_inExec (rfl : (Pc.running b f).inExec = some f) hhand
    simp [Scheduler.addEvent, Scheduler.register, hpc, hexec]

/-- No assertion of the scheduler fails, and `EXEC` is the state of the fibers that run. -/
theorem run_asserts_hold (pool : Pool) (calls : List SchedCall) (s : Scheduler)
    (h : Run (Run.Guarded (Step pool) PushesParked) {} calls s) (t : Nat) (ht : t ∈ pool.ids) :
    (s.step pool (.advance t)).isSome = (s.workers t).pc.canAdvance ∧
      ((s.step pool (.addEvent t)).isSome = true ↔ ∃ b f, (s.workers t).pc = .running b f) ∧
      (∀ f, (s.heap f).state = .exec ↔ ∃ u ∈ pool.ids, (s.workers u).pc.inExec = some f) ∧
      ∀ ft ∈ s.fibers, eligible s.heap t ft = (ft.thread == -1 || ft.thread == t) := by
  have hplain : Run (Step pool) {} calls s := h.mono fun _ _ _ hstep => hstep.2
  obtain ⟨-, howned, hsound⟩ := run_sound h
  have hpool : ∀ call : SchedCall, call.thread = some t →
      (call.thread.all fun t => decide (t ∈ pool.ids)) = true := by
    intro call hcall
    rw [hcall]
    exact decide_eq_true ht
  refine ⟨?_, ?_, fun f => ⟨fun hf => ?_, ?_⟩, fun ft hft => hsound.eligible_eq howned hft⟩
  · obtain ⟨a, harun, rfl⟩ := Audit.exists_run (a := {}) hplain
    have hconserved : a.Conserved pool :=
      harun.invariant (I := fun a => a.Conserved pool)
        (fun _ _ _ hI hstep => hI.step hstep) (Audit.conserved_init pool)
    rw [Scheduler.step, if_pos (hpool _ rfl)]
    exact hsound.advance_isSome hconserved.queue_nonempty
  · rw [Scheduler.step, if_pos (hpool _ rfl)]
    exact addEvent_isSome_iff hsound
  · obtain ⟨u, hu⟩ := hsound.exec f hf
    refine ⟨u, ?_, hu⟩
    by_contra hout
    rw [workers_outside hplain hout] at hu
    cases hu
  · rintro ⟨u, -, hu⟩
    exact Pc.exec_of_inExec hu ((hsound.fits u).inHand f (Pc.fiber_of_inExec hu))

/-- A fiber yields on thread 1 and is picked up again on thread 2, where it runs on. -/
theorem run_asserts_hold_after_wake :
    ∃ s, Run (Run.Guarded (Step twoThreads) PushesParked) {} wakeAfterPark s ∧
      (s.workers 2).pc = .running .fiber 0 ∧ (s.heap 0).state = .exec ∧
      (s.step twoThreads (.advance 1)).isSome = true := by
  have hexec : ((wakeAfterPark.foldlM (fun s call =>
      if pushesParkedOn twoThreads s call then s.step twoThreads call else none) {}).any fun s =>
        (s.workers 2).pc = .running .fiber 0 ∧ (s.workers 1).pc.canAdvance = true) = true := by
    decide
  obtain ⟨s, hs, hpcs⟩ := (Option.any_eq_true _ _).mp hexec
  obtain ⟨hpc, hcan⟩ := of_decide_eq_true hpcs
  have hrun := Run.guarded_of_foldlM (fun _ _ _ h => h)
    (fun _ _ _ => pushesParked_of_pushesParkedOn) (.nil _) hs
  have hone := run_asserts_hold twoThreads wakeAfterPark s hrun 1 (by decide)
  refine ⟨s, hrun, hpc, (hone.2.2.1 0).mpr ⟨2, by decide, ?_⟩, hone.1.trans hcan⟩
  rw [hpc]
  rfl

end Scheduler

end Lyslg
