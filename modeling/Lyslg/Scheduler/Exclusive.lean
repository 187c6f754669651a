import Lyslg.Scheduler.Handover
import Lyslg.Support.Ownership
/-!
# One thread for each fiber

`m_state` alone keeps two threads from resuming one fiber, and a fiber that yields
stores `HOLD` before its context is saved.  What does keep the threads apart is that a
fiber is in one place only: once in `m_fibers`, or with one thread.  `run` keeps that by
itself; the callers of `schedule` and the events keep it if they push a fiber only while
it is parked.
-/

namespace Lyslg

open Support Support.Machine Scheduler

namespace Pc

/-- From the end of `swapOut` until the thread has done with the fiber; `m_state = HOLD` is the last
thing that it does. -/
def cameBack : Pc → Option Nat
  | returned _ f | after _ f | requeue _ f | holding _ f | clearing f => some f
  | _ => none

theorem fiber_of_cameBack {pc : Pc} {f : Nat} (h : pc.cameBack = some f) :
    pc.fiber = some f := by
  cases pc <;> first | exact h | cases h

end Pc

namespace Scheduler

variable {pool : Pool} {s s' : Scheduler} {t : Nat} {call : SchedCall}

/-- The fiber is neither in `m_fibers` nor with a thread. -/
def Parked (s : Scheduler) (f : Nat) : Prop :=
  f ∉ s.queued ∧ ∀ t, ¬ (s.workers t).holds f

/-- No fiber is executed by two threads, and none is resumed by another thread before the
one that it came back to is done with it. -/
structure SafeResume (s : Scheduler) : Prop where
  alone : ∀ t u f, (s.workers t).pc.executing = some f → (s.workers u).pc.executing = some f →
    t = u
  untouched : ∀ t u f, (s.workers t).pc.cameBack = some f →
    (s.workers u).pc.executing = some f → t = u

/-- The call pushes only parked fibers. -/
def PushesParked (s : Scheduler) (call : SchedCall) : Prop :=
  (call.pushes.filterMap FiberAndThread.fiber).Nodup ∧
    ∀ f ∈ call.pushes.filterMap FiberAndThread.fiber, s.Parked f

/-! ## Every fiber is in one place -/

structure Owned (s : Scheduler) : Prop where
  exclusive : Exclusive s.queued fun t f => (s.workers t).holds f
  /-- `ft` and `cb_fiber` are different fibers -/
  apart : ∀ t f, (s.workers t).pc.taken = some f → (s.workers t).cbFiber ≠ some f

theorem Owned.safeResume (h : s.Owned) : s.SafeResume where
  alone t u f ht hu :=
    h.exclusive.alone t u f (.inl (Pc.fiber_of_executing ht)) (.inl (Pc.fiber_of_executing hu))
  untouched t u f ht hu :=
    h.exclusive.alone t u f (.inl (Pc.fiber_of_cameBack ht)) (.inl (Pc.fiber_of_executing hu))

theorem owned_init : Owned {} where
  exclusive := ⟨List.nodup_nil, nofun, fun _ _ f h => absurd h (Worker.not_holds_default f)⟩
  apart := nofun

/-- Thread `t` goes on with other local variables. -/
theorem Owned.exchange {w : Worker} (h : s.Owned)
    (hworkers : s'.workers = Function.update s.workers t w) (honce : s'.queued.Nodup)
    (hqueue : ∀ f ∈ s'.queued, ¬ w.holds f ∧ (f ∈ s.queued ∨ (s.workers t).holds f))
    (hholds : ∀ f, w.holds f → (s.workers t).holds f ∨ f ∈ s.queued ∨
      ∀ u, ¬ (s.workers u).holds f)
    (hapart : ∀ f, w.pc.taken = some f → w.cbFiber ≠ some f) : s'.Owned := by
  have hself : s'.workers t = w := by rw [hworkers, Function.update_self]
  have hothers : ∀ u, u ≠ t → s'.workers u = s.workers u := by
    intro u hu
    rw [hworkers, Function.update_of_ne hu]
  constructor
  · apply h.exclusive.exchange t
    · intro u hu f hf
      rwa [hothers u hu] at hf
    · exact honce
    · rw [hself]
      exact hqueue
    · rw [hself]
      exact hholds
  · intro u f
    by_cases hu : u = t
    · subst hu
      rw [hself]
      exact hapart f
    · rw [hothers u hu]
      exact h.apart u f

/-- `run` keeps every fiber in one place. -/
theorem Owned.handover (h : s.Owned) (hknown : s.Known) (ht : Handover s t s') : s'.Owned := by
  cases ht with
  | @take ft front back hcut hfibers _ _ _ _ hworkers =>
      have hperm := queued_perm hcut hfibers
      obtain ⟨-, honce, hdisjoint⟩ :=
        List.nodup_append.mp (hperm.nodup_iff.mp h.exclusive.once)
      have hpicked : ∀ f, ft.fiber = some f → f ∈ s.queued := by
        intro f hf
        exact hperm.mem_iff.mpr (by simp [hf])
      have hleft : ∀ f ∈ s'.queued, f ∈ s.queued := fun f hf =>
        hperm.mem_iff.mpr (List.mem_append_right _ hf)
      refine h.exchange hworkers honce ?_ ?_ ?_
      · intro f hf
        refine ⟨?_, .inl (hleft f hf)⟩
        rintro (hpc | hslot)
        · exact hdisjoint f (Option.mem_toList.mpr hpc) f hf rfl
        · exact h.exclusive.free f (hleft f hf) t (.inr hslot)
      · rintro f (hpc | hslot)
        · exact .inr (.inl (hpicked f hpc))
        · exact .inl (.inr hslot)
      · intro f hf hslot
        exact h.exclusive.free f (hpicked f hf) t (.inr hslot)
  | @go pc term hfibers _ _ hfiber htaken _ _ hworkers =>
      have hqueued : s'.queued = s.queued := by rw [queued, hfibers, queued]
      have hholds : ∀ f, Worker.holds { s.workers t with pc := pc, idleTerm := term } f →
          (s.workers t).holds f := fun f hf => hf.imp (hfiber f) id
      refine h.exchange hworkers (hqueued ▸ h.exclusive.once) ?_ (fun f hf => .inl (hholds f hf))
        (fun f hf => h.apart t f (htaken f hf))
      rw [hqueued]
      exact fun f hf => ⟨fun hw => h.exclusive.free f hf t (hholds f hw), .inl hf⟩
  | @bind thread f _ hf hfibers _ _ _ hworkers =>
      have hqueued : s'.queued = s.queued := by rw [queued, hfibers, queued]
      have hholds : ∀ g, Worker.holds { s.workers t with
          pc := .swapIn .cb f, cbFiber := some f } g → g = f := fun g hg =>
        (Option.some.inj (hg.elim id id)).symm
      have hplace : (s.workers t).holds f ∨ f ∉ s.queued ∧ ∀ u, ¬ (s.workers u).holds f := by
        cases hslot : (s.workers t).cbFiber with
        | some g =>
            rw [hslot] at hf
            subst hf
            exact .inl (.inr hslot)
        | none =>
            rw [hslot] at hf
            subst hf
            exact .inr ⟨fun hin => lt_irrefl _ (hknown.queued _ hin),
              fun u hu => lt_irrefl _ (hknown.held u _ hu)⟩
      refine h.exchange hworkers (hqueued ▸ h.exclusive.once) ?_ ?_ ?_
      · rw [hqueued]
        refine fun g hg => ⟨fun hw => ?_, .inl hg⟩
        obtain rfl := hholds g hw
        exact hplace.elim (h.exclusive.free _ hg t) fun hnew => hnew.1 hg
      · intro g hg
        obtain rfl := hholds g hg
        exact hplace.imp id fun hnew => .inr hnew.2
      · intro g hg
        cases hg
  | @leave b f fts hres hfts hfibers _ _ hworkers =>
      have hqueued : s'.queued = s.queued ++ fts.filterMap FiberAndThread.fiber := by
        rw [queued, hfibers, List.filterMap_append, queued]
      have hheld : (s.workers t).holds f := .inl (Pc.fiber_of_resumed hres)
      have hholds : ∀ g, ((s.workers t).leave b).holds g → (s.workers t).holds g := fun g hg =>
        .inr (Worker.holds_leave hg).2
      have hback : ∀ g ∈ fts.filterMap FiberAndThread.fiber, g = f := by
        rcases hfts with rfl | ⟨-, rfl⟩
        · intro g hg
          cases hg
        · exact fun g hg => List.mem_singleton.mp hg
      have hout : ¬ ((s.workers t).leave b).holds f := by
        intro hw
        obtain ⟨rfl, hslot⟩ := Worker.holds_leave hw
        refine h.apart t f ?_ hslot
        rw [Pc.taken_of_resumed hres, if_pos rfl]
      refine h.exchange hworkers ?_ ?_ (fun g hg => .inl (hholds g hg)) ?_
      · rw [hqueued]
        refine List.nodup_append.mpr ⟨h.exclusive.once, ?_, ?_⟩
        · rcases hfts with rfl | ⟨-, rfl⟩
          · exact List.nodup_nil
          · exact List.nodup_singleton f
        · intro g hg g' hg' heq
          subst heq
          obtain rfl := hback g hg'
          exact h.exclusive.free g hg t hheld
      · rw [hqueued]
        intro g hg
        rcases List.mem_append.mp hg with hin | hg
        · exact ⟨fun hw => h.exclusive.free g hin t (hholds g hw), .inl hin⟩
        · obtain rfl := hback g hg
          exact ⟨hout, .inr hheld⟩
      · intro g hg
        rw [Worker.leave_pc] at hg
        cases hg

theorem Owned.step (h : s.Owned) (hknown : s.Known) (hguard : s.PushesParked call)
    (heffect : Effect s call s') : s'.Owned := by
  rcases heffect.handover with ⟨t, -, ht, -⟩ | ⟨-, he⟩
  · exact h.handover hknown ht
  · constructor
    · rw [queued, he.fibers, List.filterMap_append, he.workers]
      exact h.exclusive.push hguard.1 hguard.2
    · rw [he.workers]
      exact h.apart

theorem run_safeResume (pool : Pool) (calls : List SchedCall) (s : Scheduler)
    (h : Run (Run.Guarded (Step pool) PushesParked) {} calls s) : s.SafeResume := by
  have hinv : s.Known ∧ s.Owned := by
    refine h.invariant (I := fun s => s.Known ∧ s.Owned) ?_ ⟨known_init, owned_init⟩
    rintro s call s' ⟨hknown, howned⟩ ⟨hguard, hstep⟩
    have heffect := (step_effect hstep).1
    exact ⟨hknown.step heffect, howned.step hknown hguard heffect⟩
  exact hinv.2.safeResume

/-- `PushesParked` as it is tested, where thread numbers outside the pool play no part. -/
def pushesParkedOn (pool : Pool) (s : Scheduler) (call : SchedCall) : Bool :=
  let fibers := call.pushes.filterMap FiberAndThread.fiber
  fibers.Nodup ∧ ∀ f ∈ fibers, f ∉ s.queued ∧
    ∀ t ∈ pool.ids, (s.workers t).pc.fiber ≠ some f ∧ (s.workers t).cbFiber ≠ some f

theorem pushesParked_of_pushesParkedOn {calls : List SchedCall}
    (hrun : Run (Step pool) {} calls s) (h : pushesParkedOn pool s call = true) :
    s.PushesParked call := by
  obtain ⟨honce, hparked⟩ := of_decide_eq_true h
  refine ⟨honce, fun f hf => ⟨(hparked f hf).1, ?_⟩⟩
  intro t hholds
  by_cases ht : t ∈ pool.ids
  · exact hholds.elim ((hparked f hf).2 t ht).1 ((hparked f hf).2 t ht).2
  · rw [workers_outside hrun ht] at hholds
    exact hholds.elim nofun nofun

/-- A fiber waits for an event on thread 1, and is resumed on thread 2 after it. -/
def wakeAfterPark : List SchedCall :=
  [SchedCall.newFiber (some 7), .schedule (.fiber (some 0)) (-1)] ++
    List.replicate 5 (SchedCall.advance 1) ++ [.addEvent 1, .yieldToHold 1] ++
    List.replicate 4 (SchedCall.advance 1) ++ [.trigger 0] ++
    List.replicate 5 (SchedCall.advance 2)

/-- The same, but the event comes before the context of the fiber is saved. -/
def wakeBeforePark : List SchedCall :=
  [SchedCall.newFiber (some 7), .schedule (.fiber (some 0)) (-1)] ++
    List.replicate 5 (SchedCall.advance 1) ++ [.addEvent 1, .yieldToHold 1, .trigger 0] ++
    List.replicate 5 (SchedCall.advance 2)

theorem run_resumes_running_fiber :
    ∃ s, Run (Step twoThreads) {} wakeBeforePark s ∧
      (s.workers 1).pc = .switchOut .fiber 0 ∧ (s.workers 2).pc = .running .fiber 0 ∧
      ¬ s.SafeResume := by
  have hexec : ((wakeBeforePark.foldlM (step twoThreads) {}).any fun s =>
      (s.workers 1).pc = .switchOut .fiber 0 ∧ (s.workers 2).pc = .running .fiber 0) = true := by
    decide
  obtain ⟨s, hs, hpcs⟩ := (Option.any_eq_true _ _).mp hexec
  obtain ⟨hone, htwo⟩ := of_decide_eq_true hpcs
  refine ⟨s, Run.of_foldlM (fun _ _ _ h => h) hs, hone, htwo, ?_⟩
  intro hsafe
  have heq := hsafe.alone 1 2 0 (by rw [hone]; rfl) (by rw [htwo]; rfl)
  cases heq

theorem run_safeResume_wake_after_park :
    ∃ s, Run (Run.Guarded (Step twoThreads) PushesParked) {} wakeAfterPark s ∧
      (s.workers 2).pc = .running .fiber 0 ∧ s.SafeResume := by
  have hexec : ((wakeAfterPark.foldlM (fun s call =>
      if pushesParkedOn twoThreads s call then s.step twoThreads call else none) {}).any fun s =>
        (s.workers 2).pc = .running .fiber 0) = true := by
    decide
  obtain ⟨s, hs, hpc⟩ := (Option.any_eq_true _ _).mp hexec
  have hrun := Run.guarded_of_foldlM (fun _ _ _ h => h)
    (fun _ _ _ => pushesParked_of_pushesParkedOn) (.nil _) hs
  exact ⟨s, hrun, of_decide_eq_true hpc, run_safeResume twoThreads wakeAfterPark s hrun⟩

end Scheduler

end Lyslg
