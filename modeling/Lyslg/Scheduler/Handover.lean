import Lyslg.Scheduler.Effect
/-!
# Who has which fiber

A fiber that the scheduler deals with is in `m_fibers`, in `ft` of a thread or in its
`cb_fiber`.  This module keeps of a step only how it passes fibers on between these
places, and on which thread a task with a thread number is.
-/

namespace Lyslg

open Support Support.Machine Scheduler

namespace Pc

variable {pc : Pc} {b : Branch} {f : Nat}

/-- From the call of `swapIn` on a fiber until its `swapOut` is done. -/
def executing : Pc → Option Nat
  | swapIn _ f | storeExec _ f | switchIn _ f | running _ f | switchOut _ f => some f
  | _ => none

/-- The fiber in `ft`, as opposed to the one in `cb_fiber`. -/
def taken : Pc → Option Nat
  | picked ft => ft.fiber
  | pc => pc.resumed.bind fun (b, f) => if b = .fiber then some f else none

/-- The thread number of the task, until a fiber runs it. -/
def asked : Pc → Option Int
  | picked ft => some ft.thread
  | binding _ thread => some thread
  | _ => none

/-- The thread number of a callback that gets its fiber next. -/
def binds : Pc → Option Int
  | binding _ thread => some thread
  | _ => none

theorem fiber_of_executing (h : pc.executing = some f) :
    pc.fiber = some f := by
  cases pc <;> first | exact h | cases h

theorem fiber_of_taken (h : pc.taken = some f) : pc.fiber = some f := by
  cases pc <;> simp_all [taken, fiber, resumed, swapping]

theorem taken_of_resumed (h : pc.resumed = some (b, f)) :
    pc.taken = if b = .fiber then some f else none := by
  cases pc <;> simp_all [taken, resumed, swapping]

theorem asked_of_resumed (h : pc.resumed = some (b, f)) : pc.asked = none := by
  cases pc <;> first | rfl | cases h

theorem asked_of_free (h : pc.free = true) : pc.asked = none := by
  cases pc <;> first | rfl | cases h

theorem binds_of_asked (h : pc.asked = none) : pc.binds = none := by
  cases pc <;> first | rfl | cases h

theorem asked_of_binds {thread : Int} (h : pc.binds = some thread) : pc.asked = some thread := by
  cases pc <;> first | exact h | cases h

end Pc

namespace Worker

variable {w : Worker} {b : Branch} {f : Nat}

/-- The thread has the fiber in `ft` or in `cb_fiber`. -/
def holds (w : Worker) (f : Nat) : Prop :=
  w.pc.fiber = some f ∨ w.cbFiber = some f

@[simp] theorem not_holds_default (f : Nat) : ¬ ({} : Worker).holds f := by
  rintro (h | h) <;> cases h

theorem holds_leave (h : (w.leave b).holds f) : b = .fiber ∧ w.cbFiber = some f := by
  cases b with
  | fiber => exact ⟨rfl, h.resolve_left (fun hpc => nomatch hpc)⟩
  | cb => exact h.elim (fun hpc => nomatch hpc) (fun hslot => nomatch hslot)

end Worker

namespace Scheduler

variable {pool : Pool} {s s' : Scheduler} {t : Nat} {call : SchedCall}

/-- The fibers in `m_fibers`. -/
def queued (s : Scheduler) : List Nat := s.fibers.filterMap FiberAndThread.fiber

theorem mem_queued {f : Nat} : f ∈ s.queued ↔ ∃ ft ∈ s.fibers, ft.fiber = some f :=
  List.mem_filterMap

/-- The queue of `front ++ ft :: back` is that of `front ++ back` and the fiber of `ft`. -/
theorem queued_perm {ft : FiberAndThread} {front back : List FiberAndThread}
    (hcut : s.fibers = front ++ ft :: back) (hfibers : s'.fibers = front ++ back) :
    s.queued.Perm (ft.fiber.toList ++ s'.queued) := by
  have hperm : s.fibers.Perm ([ft] ++ (front ++ back)) := by
    rw [hcut]
    exact List.perm_middle
  refine (hperm.filterMap FiberAndThread.fiber).trans ?_
  rw [List.filterMap_append, queued, hfibers]
  cases hft : ft.fiber <;> simp [hft]

/-- What a step of thread `t` does with the fibers. -/
inductive Handover (s : Scheduler) (t : Nat) (s' : Scheduler) : Prop where
  /-- a task is taken from the queue -/
  | take {ft : FiberAndThread} {front back : List FiberAndThread} :
      s.fibers = front ++ ft :: back → s'.fibers = front ++ back →
      ft.thread = -1 ∨ ft.thread = t → (s.workers t).pc.binds = none →
      s'.created = s.created → s'.registered = s.registered →
      s'.workers = Function.update s.workers t { s.workers t with pc := .picked ft } →
      Handover s t s'
  /-- the thread has what it had, or less -/
  | go {pc : Pc} {term : Bool} :
      s'.fibers = s.fibers → s'.created = s.created →
      (∀ f ∈ s'.registered, f ∈ s.registered ∨ (s.workers t).pc.fiber = some f) →
      (∀ f, pc.fiber = some f → (s.workers t).pc.fiber = some f) →
      (∀ f, pc.taken = some f → (s.workers t).pc.taken = some f) →
      (∀ thread, pc.asked = some thread → (s.workers t).pc.asked = some thread) →
      (s.workers t).pc.binds = none →
      s'.workers = Function.update s.workers t { s.workers t with pc := pc, idleTerm := term } →
      Handover s t s'
  /-- `cb_fiber` gets a callback; it may be a new fiber -/
  | bind {thread : Int} {f : Nat} :
      (s.workers t).pc.binds = some thread → f = ((s.workers t).cbFiber).getD s.created →
      s'.fibers = s.fibers → s.created ≤ s'.created → f < s'.created ∨ (s.workers t).holds f →
      s'.registered = s.registered →
      s'.workers = Function.update s.workers t
        { s.workers t with pc := .swapIn .cb f, cbFiber := some f } →
      Handover s t s'
  /-- a branch is left; the fiber may go back to the queue -/
  | leave {b : Branch} {f : Nat} {fts : List FiberAndThread} :
      (s.workers t).pc.resumed = some (b, f) →
      fts = [] ∨ (s.workers t).pc = .requeue b f ∧ fts = [{ fiber := some f }] →
      s'.fibers = s.fibers ++ fts → s'.created = s.created → s'.registered = s.registered →
      s'.workers = Function.update s.workers t ((s.workers t).leave b) →
      Handover s t s'

section Go

variable {pc : Pc} {term : Bool}

theorem Handover.carry (hfibers : s'.fibers = s.fibers) (hcreated : s'.created = s.created)
    (hregistered : s'.registered = s.registered)
    (hworkers : s'.workers = Function.update s.workers t
      { s.workers t with pc := pc, idleTerm := term })
    {b : Branch} {f : Nat} (hres : (s.workers t).pc.resumed = some (b, f))
    (hres' : pc.resumed = some (b, f)) : Handover s t s' := by
  refine .go hfibers hcreated (fun g hg => .inl (hregistered ▸ hg)) ?_ ?_ ?_
    (Pc.binds_of_asked (Pc.asked_of_resumed hres)) hworkers
  · intro g hg
    rwa [Pc.fiber_of_resumed hres, ← Pc.fiber_of_resumed hres']
  · intro g hg
    rwa [Pc.taken_of_resumed hres, ← Pc.taken_of_resumed hres']
  · intro thread hthread
    rw [Pc.asked_of_resumed hres'] at hthread
    cases hthread

theorem Handover.letGo (hfibers : s'.fibers = s.fibers) (hcreated : s'.created = s.created)
    (hregistered : s'.registered = s.registered)
    (hworkers : s'.workers = Function.update s.workers t
      { s.workers t with pc := pc, idleTerm := term })
    (hbinds : (s.workers t).pc.binds = none) (hfiber : pc.fiber = none) (hasked : pc.asked = none) :
    Handover s t s' := by
  refine .go hfibers hcreated (fun g hg => .inl (hregistered ▸ hg)) ?_ ?_ ?_ hbinds hworkers
  · intro g hg
    rw [hfiber] at hg
    cases hg
  · intro g hg
    rw [Pc.fiber_of_taken hg] at hfiber
    cases hfiber
  · intro thread hthread
    rw [hasked] at hthread
    cases hthread

end Go

theorem Move.handover (h : Move s t s') : Handover s t s' := by
  cases h with
  | pick hpc hpick =>
      obtain ⟨front, back, hcut, hleft, heligible⟩ := pickLoop_some hpick
      exact .take hcut hleft (thread_of_eligible heligible) (by rw [hpc]; rfl)
        (goto_created _ _ _) (goto_registered _ _ _) (goto_workers _ _ _)
  | pickNothing hpc hpick =>
      exact .letGo (pickLoop_none hpick) rfl rfl rfl (by rw [hpc]; rfl) rfl rfl
  | chooseFiber hpc hf =>
      refine .go rfl rfl (fun _ hg => .inl hg) ?_ ?_ ?_ (by rw [hpc]; rfl) rfl
      · rw [hpc]
        exact fun g hg => hf.trans hg
      · rw [hpc]
        exact fun g hg => hf.trans hg
      · intro thread hthread
        cases hthread
  | chooseCb hpc _ =>
      refine .go rfl rfl (fun _ hg => .inl hg) ?_ ?_ ?_ (by rw [hpc]; rfl) rfl
      · intro f hf
        cases hf
      · intro f hf
        cases hf
      · rw [hpc]
        exact fun thread hthread => hthread
  | chooseNone hpc => exact .letGo rfl rfl rfl rfl (by rw [hpc]; rfl) rfl rfl
  | rebind hpc hslot =>
      refine .bind (by rw [hpc]; rfl) (by rw [hslot]; rfl) rfl le_rfl (.inr (.inr hslot)) rfl ?_
      rw [← hslot]
      rfl
  | bindNew hpc hslot =>
      exact .bind (by rw [hpc]; rfl) (by rw [hslot]; rfl) rfl (Nat.le_succ _)
        (.inl (Nat.lt_succ_self _)) rfl rfl
  | swap heap hpc _ hpc' =>
      exact .carry rfl rfl rfl rfl (Pc.resumed_of_swapping hpc) (Pc.resumed_of_swapping hpc')
  | decrement hpc =>
      exact .carry (goto_fibers _ _ _) (goto_created _ _ _) (goto_registered _ _ _)
        (goto_workers _ _ _) (by rw [hpc]; rfl) rfl
  | sort hpc hpc' =>
      rcases hpc' with rfl | rfl | ⟨rfl, rfl⟩
      all_goals exact .carry rfl rfl rfl rfl (by rw [hpc]; rfl) rfl
  | ended hpc => exact .letGo rfl rfl rfl rfl (by rw [hpc]; rfl) rfl rfl
  | requeue hpc =>
      rw [leave_eq]
      exact .leave (by rw [hpc]; rfl) (.inr ⟨hpc, rfl⟩) rfl rfl rfl rfl
  | hold hpc =>
      rw [leave_eq]
      exact .leave (by rw [hpc]; rfl) (.inl rfl) (List.append_nil _).symm rfl rfl rfl
  | clear hpc => exact .letGo rfl rfl rfl rfl (by rw [hpc]; rfl) rfl rfl
  | drop hpc =>
      exact .letGo (goto_fibers _ _ _) (goto_created _ _ _) (goto_registered _ _ _)
        (goto_workers _ _ _) (by rw [hpc]; rfl) rfl rfl
  | idle count hpc _ hpc' =>
      exact .letGo rfl rfl rfl rfl (Pc.binds_of_asked (Pc.asked_of_free hpc))
        (Pc.fiber_of_free hpc') (Pc.asked_of_free hpc')

/-- A step of a caller. -/
structure External (s : Scheduler) (call : SchedCall) (s' : Scheduler) : Prop where
  workers : s'.workers = s.workers
  fibers : s'.fibers = s.fibers ++ call.pushes
  created : s.created ≤ s'.created
  registered : s'.registered ⊆ s.registered
  known : ∀ ft ∈ call.pushes, ∀ f, ft.fiber = some f → f < s.created ∨ f ∈ s.registered

theorem Effect.handover (h : Effect s call s') :
    (∃ t, call.thread = some t ∧ Handover s t s' ∧
      (call = .advance t ∨ ∃ b f, (s.workers t).pc = .running b f)) ∨
    call.thread = none ∧ External s call s' := by
  cases h with
  | newFiber cb =>
      exact .inr ⟨rfl, rfl, (List.append_nil _).symm, Nat.le_succ _, List.Subset.refl _, nofun⟩
  | push registered hthread hregistered hknown =>
      exact .inr ⟨hthread, rfl, rfl, le_rfl, hregistered, hknown⟩
  | stop => exact .inr ⟨rfl, rfl, (List.append_nil _).symm, le_rfl, List.Subset.refl _, nofun⟩
  | advance hmove => exact .inl ⟨_, rfl, hmove.handover, .inl rfl⟩
  | @act _ t b f heap pc registered hthread _ hpc hpc' hregistered =>
      have hres : (s.workers t).pc.resumed = some (b, f) := by rw [hpc]; rfl
      have hres' := Pc.resumed_of_swapping hpc'
      refine .inl ⟨t, hthread, .go rfl rfl ?_ ?_ ?_ ?_ (by rw [hpc]; rfl) rfl, .inr ⟨b, f, hpc⟩⟩
      · intro g hg
        rcases List.mem_cons.mp (hregistered hg) with rfl | hold
        · exact .inr (Pc.fiber_of_resumed hres)
        · exact .inl hold
      · intro g hg
        rwa [Pc.fiber_of_resumed hres, ← Pc.fiber_of_resumed hres']
      · intro g hg
        rwa [Pc.taken_of_resumed hres, ← Pc.taken_of_resumed hres']
      · intro thread hask
        rw [Pc.asked_of_resumed hres'] at hask
        cases hask

/-! ## Fibers that exist -/

/-- Every fiber anywhere was created. -/
structure Known (s : Scheduler) : Prop where
  queued : ∀ f ∈ s.queued, f < s.created
  held : ∀ t f, (s.workers t).holds f → f < s.created
  registered : ∀ f ∈ s.registered, f < s.created

theorem known_init : Known {} where
  queued := nofun
  held := fun _ f h => absurd h (Worker.not_holds_default f)
  registered := nofun

theorem Known.update {w : Worker} (h : s.Known) (hcreated : s.created ≤ s'.created)
    (hworkers : s'.workers = Function.update s.workers t w)
    (hqueued : ∀ f ∈ s'.queued, f ∈ s.queued ∨ (s.workers t).holds f)
    (hholds : ∀ f, w.holds f → (s.workers t).holds f ∨ f ∈ s.queued ∨ f < s'.created)
    (hregistered : ∀ f ∈ s'.registered, f ∈ s.registered ∨ (s.workers t).holds f) :
    s'.Known where
  queued f hf := (Or.elim (hqueued f hf) (h.queued f) (h.held t f)).trans_le hcreated
  held u f hf := by
    by_cases hu : u = t
    · subst hu
      rw [hworkers, Function.update_self] at hf
      rcases hholds f hf with hold | hin | hlt
      · exact (h.held u f hold).trans_le hcreated
      · exact (h.queued f hin).trans_le hcreated
      · exact hlt
    · rw [hworkers, Function.update_of_ne hu] at hf
      exact (h.held u f hf).trans_le hcreated
  registered f hf := (Or.elim (hregistered f hf) (h.registered f) (h.held t f)).trans_le hcreated

theorem Known.handover (h : s.Known) (ht : Handover s t s') : s'.Known := by
  cases ht with
  | @take ft front back hcut hfibers _ _ hcreated hregistered hworkers =>
      refine h.update hcreated.ge hworkers ?_ ?_ (fun f hf => .inl (hregistered ▸ hf))
      · intro f hf
        obtain ⟨ft', hft', hfiber⟩ := mem_queued.mp hf
        refine .inl (mem_queued.mpr ⟨ft', ?_, hfiber⟩)
        rw [hfibers] at hft'
        rw [hcut]
        exact List.mem_append.mpr ((List.mem_append.mp hft').imp id (List.mem_cons_of_mem _))
      · rintro f (hpc | hslot)
        · exact .inr (.inl (mem_queued.mpr ⟨ft, by simp [hcut], hpc⟩))
        · exact .inl (.inr hslot)
  | go hfibers hcreated hregistered hfiber _ _ _ hworkers =>
      refine h.update hcreated.ge hworkers ?_ ?_ fun f hf => (hregistered f hf).imp id .inl
      · rw [Scheduler.queued, hfibers]
        exact fun f hf => .inl hf
      · exact fun f hf => .inl (hf.imp (hfiber f) id)
  | bind _ _ hfibers hcreated hlt hregistered hworkers =>
      refine h.update hcreated hworkers ?_ ?_ (fun g hg => .inl (hregistered ▸ hg))
      · rw [Scheduler.queued, hfibers]
        exact fun g hg => .inl hg
      · intro g hg
        obtain rfl := Option.some.inj (hg.elim id id)
        exact hlt.elim (fun hlt => .inr (.inr hlt)) .inl
  | leave hres hfts hfibers hcreated hregistered hworkers =>
      refine h.update hcreated.ge hworkers ?_ (fun g hg => .inl (.inr (Worker.holds_leave hg).2))
        (fun g hg => .inl (hregistered ▸ hg))
      intro g hg
      rw [Scheduler.queued, hfibers, List.filterMap_append] at hg
      rcases List.mem_append.mp hg with hold | hback
      · exact .inl hold
      · rcases hfts with rfl | ⟨-, rfl⟩
        · cases hback
        · obtain rfl := List.mem_singleton.mp hback
          exact .inr (.inl (Pc.fiber_of_resumed hres))

theorem Known.step (h : s.Known) (heffect : Effect s call s') : s'.Known := by
  rcases heffect.handover with ⟨t, -, ht, -⟩ | ⟨-, he⟩
  · exact h.handover ht
  · constructor
    · intro f hf
      obtain ⟨ft, hft, hfiber⟩ := mem_queued.mp hf
      rw [he.fibers] at hft
      refine LT.lt.trans_le ?_ he.created
      rcases List.mem_append.mp hft with hold | hnew
      · exact h.queued f (mem_queued.mpr ⟨ft, hold, hfiber⟩)
      · exact (he.known ft hnew f hfiber).elim id (h.registered f)
    · intro t f hf
      rw [he.workers] at hf
      exact (h.held t f hf).trans_le he.created
    · exact fun f hf => (h.registered f (he.registered hf)).trans_le he.created

end Scheduler

end Lyslg
