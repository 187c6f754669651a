import Lyslg.Scheduler.Model
import Lyslg.Support.Run
/-!
# What a step of the scheduler can do

The points of `run` sorted by what the thread has in hand there, and the steps sorted
by what they do with it.  The invariants are proved over `Effect`, which forgets the
values of `m_state` except where the queue is searched.
-/

namespace Lyslg

open Support Support.Machine

namespace Pc

/-- From the call of `swapIn` to its return: the branch and the fiber. -/
def swapping : Pc → Option (Branch × Nat)
  | swapIn b f | storeExec b f | switchIn b f | running b f | switchOut b f | returned b f =>
      some (b, f)
  | _ => none

/-- The branch that a thread is in and the fiber resumed there, to the end of the branch. -/
def resumed : Pc → Option (Branch × Nat)
  | after b f | requeue b f | holding b f => some (b, f)
  | clearing f => some (.cb, f)
  | pc => pc.swapping

/-- The fiber that a thread has in hand. -/
def fiber : Pc → Option Nat
  | picked ft => ft.fiber
  | pc => pc.resumed.map Prod.snd

/-- Before one of the three decrements of `m_activeThreadCount`. -/
def decrements : Pc → Bool
  | returned _ _ | dropped => true
  | _ => false

/-- No task is in hand. -/
def free : Pc → Bool
  | top | nothing | idling | idleBack | exited => true
  | _ => false

theorem resumed_of_swapping {pc : Pc} {x : Branch × Nat} (h : pc.swapping = some x) :
    pc.resumed = some x := by
  cases pc <;> first | exact h | cases h

theorem fiber_of_resumed {pc : Pc} {b : Branch} {f : Nat} (h : pc.resumed = some (b, f)) :
    pc.fiber = some f := by
  cases pc <;> cases h <;> rfl

theorem fiber_of_free {pc : Pc} (h : pc.free = true) : pc.fiber = none := by
  cases pc <;> first | rfl | cases h

end Pc

/-- The tasks that a call pushes, `run` itself apart. -/
def SchedCall.pushes : SchedCall → List FiberAndThread
  | .schedule fc thread => [fc.toTask thread].filter FiberAndThread.nonempty
  | .scheduleRange fcs => (fcs.map (FiberOrCb.toTask (-1))).filter FiberAndThread.nonempty
  | .trigger f => [{ fiber := some f }]
  | _ => []

theorem SchedCall.pushes_of_thread {call : SchedCall} {t : Nat} (h : call.thread = some t) :
    call.pushes = [] := by
  cases call <;> first | rfl | cases h

/-- The local variables when a branch is left. -/
def Worker.leave (w : Worker) : Branch → Worker
  | .fiber => { w with pc := .top }
  | .cb => { w with pc := .top, cbFiber := none }

@[simp] theorem Worker.leave_pc (w : Worker) (b : Branch) : (w.leave b).pc = .top := by
  cases b <;> rfl

namespace Scheduler

variable {pool : Pool} {s s' : Scheduler} {t : Nat} {call : SchedCall}

/-! ## The queue -/

/-- Thread `t` may take the task: the thread matches and it is not a fiber in `EXEC`. -/
def eligible (heap : Nat → Fiber) (t : Nat) (ft : FiberAndThread) : Bool :=
  (ft.thread == -1 || ft.thread == t) && !ft.fiber.any fun f => (heap f).state = .exec

theorem thread_of_eligible {heap : Nat → Fiber} {ft : FiberAndThread}
    (h : eligible heap t ft = true) : ft.thread = -1 ∨ ft.thread = t := by
  unfold eligible at h
  simp only [Bool.and_eq_true, Bool.or_eq_true, beq_iff_eq] at h
  exact h.1

/-- The loop takes the first eligible task. -/
theorem pickLoop_inv {heap : Nat → Fiber} {queue : List FiberAndThread}
    {r : Option FiberAndThread × List FiberAndThread} (h : pickLoop heap t queue = some r) :
    r = (queue.find? (eligible heap t), queue.eraseP (eligible heap t)) := by
  induction queue generalizing r with
  | nil => exact (Option.some.inj h).symm
  | cons it rest ih =>
      unfold pickLoop at h
      split at h
      · rename_i hthread
        have hskip : eligible heap t it = false := by simp [eligible, hthread]
        obtain ⟨r', hrest, rfl⟩ := Option.map_eq_some_iff.mp h
        simp [ih hrest, hskip]
      · rename_i hthread
        split at h
        · cases h
        · split at h
          · rename_i hexec
            have hskip : eligible heap t it = false := by simp [eligible, hexec]
            obtain ⟨r', hrest, rfl⟩ := Option.map_eq_some_iff.mp h
            simp [ih hrest, hskip]
          · rename_i hexec
            have hmatch : it.thread = -1 ∨ it.thread = t := by tauto
            have htake : eligible heap t it = true := by
              simpa [eligible, hmatch] using hexec
            obtain rfl := Option.some.inj h
            simp [htake]

theorem pickLoop_some {heap : Nat → Fiber} {queue left : List FiberAndThread}
    {ft : FiberAndThread} (h : pickLoop heap t queue = some (some ft, left)) :
    ∃ front back, queue = front ++ ft :: back ∧ left = front ++ back ∧
      eligible heap t ft = true := by
  obtain ⟨hfind, hleft⟩ := Prod.mk.inj (pickLoop_inv h)
  obtain ⟨hft, front, back, hcut, hfront⟩ := List.find?_eq_some_iff_append.mp hfind.symm
  refine ⟨front, back, hcut, ?_, hft⟩
  rw [hleft, hcut, List.eraseP_append_right _ (by simpa using hfront)]
  simp [hft]

theorem pickLoop_none {heap : Nat → Fiber} {queue left : List FiberAndThread}
    (h : pickLoop heap t queue = some (none, left)) : left = queue := by
  obtain ⟨hfind, hleft⟩ := Prod.mk.inj (pickLoop_inv h)
  rw [hleft, List.eraseP_of_forall_not (List.find?_eq_none.mp hfind.symm)]

/-- The assertion in the loop holds on every queue of non-empty tasks. -/
theorem pickLoop_isSome (heap : Nat → Fiber) (t : Nat) {queue : List FiberAndThread}
    (h : ∀ ft ∈ queue, ft.nonempty = true) : (pickLoop heap t queue).isSome = true := by
  induction queue with
  | nil => rfl
  | cons it rest ih =>
      have hrest := ih fun ft hft => h ft (List.mem_cons_of_mem it hft)
      have hit := h it List.mem_cons_self
      unfold pickLoop
      split_ifs <;> simp_all

theorem pickLoop_eq (heap : Nat → Fiber) (t : Nat) {queue : List FiberAndThread}
    (h : ∀ ft ∈ queue, ft.nonempty = true) :
    pickLoop heap t queue =
      some (queue.find? (eligible heap t), queue.eraseP (eligible heap t)) := by
  obtain ⟨r, hr⟩ := Option.isSome_iff_exists.mp (pickLoop_isSome heap t h)
  rw [hr, pickLoop_inv hr]

theorem scheduleNoLock_eq (s : Scheduler) (fc : FiberOrCb) (thread : Int) :
    s.scheduleNoLock fc thread =
      { s with fibers := s.fibers ++ [fc.toTask thread].filter FiberAndThread.nonempty } := by
  unfold scheduleNoLock
  by_cases h : (fc.toTask thread).nonempty = true
  · simp [h]
  · simp [h]

theorem scheduleRange_eq (s : Scheduler) (fcs : List FiberOrCb) :
    s.scheduleRange fcs =
      { s with
        fibers := s.fibers ++
          (fcs.map (FiberOrCb.toTask (-1))).filter FiberAndThread.nonempty } := by
  unfold scheduleRange
  induction fcs generalizing s with
  | nil => simp
  | cons fc fcs ih =>
      rw [List.foldl_cons, ih, scheduleNoLock_eq]
      simp only [List.map_cons, List.append_assoc]
      rw [← List.filter_append]
      rfl

theorem nonempty_of_pushes {ft : FiberAndThread} (h : ft ∈ call.pushes) :
    ft.nonempty = true := by
  cases call with
  | schedule fc thread => exact (List.mem_filter.mp h).2
  | scheduleRange fcs => exact (List.mem_filter.mp h).2
  | trigger f =>
      obtain rfl := List.mem_singleton.mp h
      rfl
  | _ => cases h

/-! ## The steps -/

theorem goto_activeThreadCount (s : Scheduler) (t : Nat) (pc : Pc) :
    (s.goto t pc).activeThreadCount = s.activeThreadCount := rfl

theorem goto_fibers (s : Scheduler) (t : Nat) (pc : Pc) : (s.goto t pc).fibers = s.fibers := rfl

theorem goto_created (s : Scheduler) (t : Nat) (pc : Pc) : (s.goto t pc).created = s.created := rfl

theorem goto_registered (s : Scheduler) (t : Nat) (pc : Pc) :
    (s.goto t pc).registered = s.registered := rfl

theorem goto_workers (s : Scheduler) (t : Nat) (pc : Pc) :
    (s.goto t pc).workers = Function.update s.workers t { s.workers t with pc := pc } := rfl

theorem leave_eq (s : Scheduler) (t : Nat) (b : Branch) :
    s.leave t b = s.setWorker t ((s.workers t).leave b) := by
  cases b <;> rfl

/-- The steps of thread `t` outside the code of a fiber. -/
inductive Move (s : Scheduler) (t : Nat) : Scheduler → Prop where
  | pick {ft : FiberAndThread} {left : List FiberAndThread} :
      (s.workers t).pc = .top → pickLoop s.heap t s.fibers = some (some ft, left) →
      Move s t ({ s with
        fibers := left
        activeThreadCount := addSize s.activeThreadCount 1 }.goto t (.picked ft))
  | pickNothing {left : List FiberAndThread} :
      (s.workers t).pc = .top → pickLoop s.heap t s.fibers = some (none, left) →
      Move s t ({ s with fibers := left }.goto t .nothing)
  | chooseFiber {ft : FiberAndThread} {f : Nat} :
      (s.workers t).pc = .picked ft → ft.fiber = some f →
      Move s t (s.goto t (.swapIn .fiber f))
  | chooseCb {ft : FiberAndThread} {c : Callback} :
      (s.workers t).pc = .picked ft → ft.cb = some c →
      Move s t (s.goto t (.binding c ft.thread))
  | chooseNone {ft : FiberAndThread} :
      (s.workers t).pc = .picked ft → Move s t (s.goto t .dropped)
  | rebind {c : Callback} {thread : Int} {f : Nat} {fiber : Fiber} :
      (s.workers t).pc = .binding c thread → (s.workers t).cbFiber = some f →
      Move s t ((s.setFiber f fiber).goto t (.swapIn .cb f))
  | bindNew {c : Callback} {thread : Int} :
      (s.workers t).pc = .binding c thread → (s.workers t).cbFiber = none →
      Move s t
      (({ s with created := s.created + 1 }.setFiber s.created { cb := some c }).setWorker t
        { s.workers t with pc := .swapIn .cb s.created, cbFiber := some s.created })
  | swap {b : Branch} {f : Nat} {pc : Pc} (heap : Nat → Fiber) :
      (s.workers t).pc.swapping = some (b, f) → (s.workers t).pc.decrements = false →
      pc.swapping = some (b, f) → Move s t ({ s with heap := heap }.goto t pc)
  | decrement {b : Branch} {f : Nat} :
      (s.workers t).pc = .returned b f →
      Move s t ({ s with
        activeThreadCount := subSize s.activeThreadCount 1 }.goto t (.after b f))
  | sort {b : Branch} {f : Nat} {pc : Pc} :
      (s.workers t).pc = .after b f →
      pc = .requeue b f ∨ pc = .holding b f ∨ (b = .cb ∧ pc = .clearing f) →
      Move s t (s.goto t pc)
  | ended {f : Nat} : (s.workers t).pc = .after .fiber f → Move s t (s.goto t .top)
  | requeue {b : Branch} {f : Nat} :
      (s.workers t).pc = .requeue b f →
      Move s t ((s.scheduleNoLock (.fiber (some f)) (-1)).leave t b)
  | hold {b : Branch} {f : Nat} :
      (s.workers t).pc = .holding b f → Move s t ((s.setState f .hold).leave t b)
  | clear {f : Nat} {fiber : Fiber} :
      (s.workers t).pc = .clearing f → Move s t ((s.setFiber f fiber).goto t .top)
  | drop :
      (s.workers t).pc = .dropped →
      Move s t ({ s with activeThreadCount := subSize s.activeThreadCount 1 }.goto t .top)
  | idle {pc : Pc} {term : Bool} (count : Nat) :
      (s.workers t).pc.free = true → (s.workers t).pc ≠ .top → pc.free = true →
      Move s t ({ s with idleThreadCount := count }.setWorker t
        { s.workers t with pc := pc, idleTerm := term })

theorem pick_move {s s' : Scheduler} {t : Nat} (hpc : (s.workers t).pc = .top)
    (h : s.pick t = some s') : Move s t s' := by
  unfold pick at h
  split at h
  · cases h
  · rename_i heq
    obtain rfl := Option.some.inj h
    exact .pickNothing hpc heq
  · rename_i heq
    obtain rfl := Option.some.inj h
    exact .pick hpc heq

theorem choose_move {ft : FiberAndThread} (hpc : (s.workers t).pc = .picked ft) :
    Move s t (s.choose t ft) := by
  unfold choose
  split
  · rename_i f heq
    exact .chooseFiber hpc (Option.filter_eq_some_iff.mp heq).1
  · split
    · rename_i c heq
      exact .chooseCb hpc heq
    · exact .chooseNone hpc

theorem bindCb_move {c : Callback} {thread : Int} (hpc : (s.workers t).pc = .binding c thread)
    (h : s.bindCb t c = some s') : Move s t s' := by
  unfold bindCb at h
  split at h
  · rename_i f hslot
    obtain ⟨fiber, -, rfl⟩ := Option.map_eq_some_iff.mp h
    exact .rebind hpc hslot
  · rename_i hslot
    obtain rfl := Option.some.inj h
    exact .bindNew hpc hslot

theorem afterSwap_move {b : Branch} {f : Nat} (hpc : (s.workers t).pc = .after b f) :
    Move s t (s.afterSwap t b f) := by
  unfold afterSwap
  split
  · exact .sort hpc (.inl rfl)
  · exact .ended hpc
  · exact .ended hpc
  · exact .sort hpc (.inr (.inr ⟨rfl, rfl⟩))
  · exact .sort hpc (.inr (.inr ⟨rfl, rfl⟩))
  · exact .sort hpc (.inr (.inl rfl))

theorem advance_move (h : s.advance t = some s') : Move s t s' := by
  unfold advance at h
  split at h
  case h_1 hpc => exact pick_move hpc h
  case h_2 ft hpc =>
    obtain rfl := Option.some.inj h
    exact choose_move hpc
  case h_3 c thread hpc => exact bindCb_move hpc h
  case h_4 b f hpc =>
    split at h
    · cases h
    · obtain rfl := Option.some.inj h
      exact .swap s.heap (by rw [hpc]; rfl) (by rw [hpc]; rfl) rfl
  case h_5 b f hpc =>
    obtain rfl := Option.some.inj h
    exact .swap _ (by rw [hpc]; rfl) (by rw [hpc]; rfl) rfl
  case h_6 b f hpc =>
    obtain rfl := Option.some.inj h
    exact .swap s.heap (by rw [hpc]; rfl) (by rw [hpc]; rfl) rfl
  case h_7 => cases h
  case h_8 b f hpc =>
    obtain rfl := Option.some.inj h
    exact .swap s.heap (by rw [hpc]; rfl) (by rw [hpc]; rfl) rfl
  case h_9 b f hpc =>
    obtain rfl := Option.some.inj h
    exact .decrement hpc
  case h_10 b f hpc =>
    obtain rfl := Option.some.inj h
    exact afterSwap_move hpc
  case h_11 b f hpc =>
    obtain rfl := Option.some.inj h
    exact .requeue hpc
  case h_12 b f hpc =>
    obtain rfl := Option.some.inj h
    exact .hold hpc
  case h_13 f hpc =>
    obtain ⟨fiber, -, rfl⟩ := Option.map_eq_some_iff.mp h
    exact .clear hpc
  case h_14 hpc =>
    obtain rfl := Option.some.inj h
    exact .drop hpc
  case h_15 hpc =>
    have hfree : (s.workers t).pc.free = true ∧ (s.workers t).pc ≠ .top := by simp [hpc, Pc.free]
    split at h
    · obtain rfl := Option.some.inj h
      exact .idle s.idleThreadCount hfree.1 hfree.2 rfl
    · obtain rfl := Option.some.inj h
      exact .idle _ hfree.1 hfree.2 rfl
  case h_16 hpc =>
    obtain rfl := Option.some.inj h
    exact .idle s.idleThreadCount (by rw [hpc]; rfl) (by simp [hpc]) rfl
  case h_17 hpc =>
    obtain rfl := Option.some.inj h
    exact .idle _ (by rw [hpc]; rfl) (by simp [hpc]) rfl
  case h_18 => cases h

/-- All steps. -/
inductive Effect (s : Scheduler) : SchedCall → Scheduler → Prop where
  | newFiber (cb : Option Callback) :
      Effect s (.newFiber cb) ({ s with created := s.created + 1 }.setFiber s.created { cb := cb })
  | push {call : SchedCall} (registered : List Nat) :
      call.thread = none → registered ⊆ s.registered →
      (∀ ft ∈ call.pushes, ∀ f, ft.fiber = some f → f < s.created ∨ f ∈ s.registered) →
      Effect s call { s with fibers := s.fibers ++ call.pushes, registered := registered }
  | stop : Effect s .stop { s with autoStop := true, stoppingFlag := true }
  | advance {t : Nat} {s' : Scheduler} : Move s t s' → Effect s (.advance t) s'
  | act {call : SchedCall} {t : Nat} {b : Branch} {f : Nat} {heap : Nat → Fiber} {pc : Pc}
      (registered : List Nat) :
      call.thread = some t → call ≠ .advance t → (s.workers t).pc = .running b f →
      pc.swapping = some (b, f) → registered ⊆ f :: s.registered →
      Effect s call ({ s with heap := heap, registered := registered }.goto t pc)

theorem Effect.advance_inv (h : Effect s (.advance t) s') : Move s t s' := by
  cases h with
  | push _ hthread _ _ => cases hthread
  | advance hmove => exact hmove
  | act _ hthread hcall _ _ _ =>
      obtain rfl := Option.some.inj hthread
      exact absurd rfl hcall

/-- The locked section leaves the thread with what the loop found. -/
theorem pick_of_top (hpc : (s.workers t).pc = .top) (h : Move s t s') :
    match pickLoop s.heap t s.fibers with
    | none => False
    | some (none, _) => (s'.workers t).pc = .nothing
    | some (some ft, _) => (s'.workers t).pc = .picked ft := by
  cases h <;> simp_all [goto, setWorker, Pc.swapping]

theorem known_iff {fcs : List FiberOrCb} :
    s.known fcs = true ↔ ∀ f, .fiber (some f) ∈ fcs → f < s.created := by
  unfold known
  rw [List.all_eq_true]
  constructor
  · intro h f hf
    simpa using h _ hf
  · intro h fc hfc
    split
    · rename_i f
      exact decide_eq_true (h f hfc)
    · rfl

theorem toTask_fiber {fc : FiberOrCb} {thread : Int} {f : Nat}
    (h : (fc.toTask thread).fiber = some f) : fc = .fiber (some f) := by
  cases fc with
  | fiber g => exact congrArg FiberOrCb.fiber h
  | cb c => cases h

theorem yieldTo_effect {state : FiberState} (hthread : call.thread = some t)
    (hcall : call ≠ .advance t) (h : s.yieldTo t state = some s') : Effect s call s' := by
  unfold yieldTo at h
  split at h
  · rename_i b f hpc
    obtain rfl := Option.some.inj h
    exact .act s.registered hthread hcall hpc rfl (List.subset_cons_self f _)
  · cases h

theorem mainFuncEnd_effect {threw : Bool} (hthread : call.thread = some t)
    (hcall : call ≠ .advance t) (h : s.mainFuncEnd t threw = some s') : Effect s call s' := by
  unfold mainFuncEnd at h
  split at h
  · rename_i b f hpc
    obtain rfl := Option.some.inj h
    exact .act s.registered hthread hcall hpc rfl (List.subset_cons_self f _)
  · cases h

theorem register_effect (hthread : call.thread = some t) (hcall : call ≠ .advance t)
    (h : s.register t = some s') : Effect s call s' := by
  unfold register at h
  split at h
  · rename_i b f hpc
    obtain rfl := Option.some.inj h
    have hgoto : ({ s with registered := f :: s.registered } : Scheduler) =
        { s with heap := s.heap, registered := f :: s.registered }.goto t (.running b f) := by
      simp [goto, setWorker, ← hpc]
    rw [hgoto]
    exact .act _ hthread hcall hpc rfl (List.Subset.refl _)
  · cases h

theorem addEvent_effect (hthread : call.thread = some t) (hcall : call ≠ .advance t)
    (h : s.addEvent t = some s') : Effect s call s' := by
  unfold addEvent at h
  split at h
  · split at h
    · exact register_effect hthread hcall h
    · cases h
  · cases h

/-! A step moves one thread at most. -/

theorem Move.frame {u : Nat} (h : Move s t s') (hu : u ≠ t) : s'.workers u = s.workers u := by
  cases h
  case requeue => rw [leave_eq]; exact Function.update_of_ne hu _ _
  case hold => rw [leave_eq]; exact Function.update_of_ne hu _ _
  all_goals exact Function.update_of_ne hu _ _

theorem Effect.frame {u : Nat} (h : Effect s call s') (hu : call.thread ≠ some u) :
    s'.workers u = s.workers u := by
  cases h with
  | newFiber _ => rfl
  | push _ _ _ _ => rfl
  | stop => rfl
  | advance hmove => exact hmove.frame fun heq => hu (congrArg some heq.symm)
  | act _ hthread _ _ _ _ =>
      exact Function.update_of_ne (fun heq => hu (hthread.trans (congrArg some heq.symm))) _ _

def Step (pool : Pool) (s : Scheduler) (call : SchedCall) (s' : Scheduler) : Prop :=
  s.step pool call = some s'

theorem step_effect (h : s.step pool call = some s') :
    Effect s call s' ∧ ∀ t, call.thread = some t → t ∈ pool.ids := by
  unfold step at h
  split at h
  · rename_i hpool
    refine ⟨?_, fun t ht => by simpa [ht] using hpool⟩
    cases call with
    | newFiber cb =>
        obtain rfl := Option.some.inj h
        exact .newFiber cb
    | schedule fc thread =>
        dsimp only at h
        split at h
        · rename_i hknown
          obtain rfl := Option.some.inj h
          rw [scheduleNoLock_eq]
          refine .push s.registered rfl (List.Subset.refl _) ?_
          intro ft hft f hf
          obtain rfl := List.mem_singleton.mp (List.mem_filter.mp hft).1
          have hfc := toTask_fiber hf
          exact .inl (known_iff.mp hknown f (by simp [hfc]))
        · cases h
    | scheduleRange fcs =>
        dsimp only at h
        split at h
        · rename_i hknown
          obtain rfl := Option.some.inj h
          rw [scheduleRange_eq]
          refine .push s.registered rfl (List.Subset.refl _) ?_
          intro ft hft f hf
          obtain ⟨fc, hmem, rfl⟩ := List.mem_map.mp (List.mem_filter.mp hft).1
          rw [toTask_fiber hf] at hmem
          exact .inl (known_iff.mp hknown f hmem)
        · cases h
    | trigger f =>
        dsimp only at h
        split at h
        · rename_i hreg
          obtain rfl := Option.some.inj h
          rw [scheduleNoLock_eq]
          refine .push _ rfl List.erase_subset ?_
          intro ft hft g hg
          obtain rfl := List.mem_singleton.mp hft
          obtain rfl := Option.some.inj hg
          exact .inr hreg
        · cases h
    | stop =>
        obtain rfl := Option.some.inj h
        exact .stop
    | advance t => exact .advance (advance_move h)
    | addEvent t => exact addEvent_effect rfl (by simp) h
    | addTimer t => exact register_effect rfl (by simp) h
    | yieldToHold t => exact yieldTo_effect rfl (by simp) h
    | yieldToReady t => exact yieldTo_effect rfl (by simp) h
    | finish t => exact mainFuncEnd_effect rfl (by simp) h
    | throw t => exact mainFuncEnd_effect rfl (by simp) h
  · cases h

theorem workers_outside {calls : List SchedCall} (h : Run (Step pool) {} calls s)
    (ht : t ∉ pool.ids) : s.workers t = {} := by
  refine h.invariant (I := fun s => s.workers t = {}) ?_ rfl
  intro s call s' hs hstep
  obtain ⟨heffect, hpool⟩ := step_effect hstep
  rw [heffect.frame fun hthread => ht (hpool t hthread), hs]

end Scheduler

/-- A scheduler with two threads. -/
def twoThreads : Pool where
  ids := {1, 2}
  isInt := by decide

end Lyslg
