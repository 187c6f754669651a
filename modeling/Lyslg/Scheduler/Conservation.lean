import Lyslg.Scheduler.Effect
import Lyslg.Support.TaskLedger
import Lyslg.Support.Run
import Mathlib.Data.Finset.Card
/-!
# Task conservation

The scheduler with an account of its tasks: a number for every task that is pushed,
the thread that removed it, and the threads that owe a decrement of
`m_activeThreadCount`.  The account never influences a step.
-/

namespace Lyslg

open Support Support.Machine Scheduler

/-- From the pick to the decrement that belongs to it. -/
def Pc.active : Pc → Bool
  | .picked _ | .binding _ _ | .dropped => true
  | pc => pc.swapping.isSome

/-- The next step of the thread touches neither the queue nor the counter. -/
def Pc.quiet : Pc → Bool
  | .top | .requeue _ _ => false
  | pc => !pc.decrements

namespace Pc

variable {pc : Pc} {x : Branch × Nat}

theorem quiet_of_swapping (h : pc.swapping = some x) (hdec : pc.decrements = false) :
    pc.quiet = true := by
  cases pc <;> simp_all [swapping, decrements, quiet]

theorem active_of_swapping (h : pc.swapping = some x) : pc.active = true := by
  cases pc <;> first | rfl | cases h

theorem active_of_decrements (h : pc.decrements = true) : pc.active = true := by
  cases pc <;> first | rfl | cases h

theorem quiet_of_free (h : pc.free = true) (htop : pc ≠ .top) : pc.quiet = true := by
  cases pc <;> first | rfl | exact absurd rfl htop | cases h

theorem active_of_free (h : pc.free = true) : pc.active = false := by
  cases pc <;> first | rfl | cases h

end Pc

/-- Thread `t` may remove the task. -/
def FiberAndThread.mayRun (ft : FiberAndThread) (t : Nat) : Prop :=
  ft.thread = -1 ∨ ft.thread = t

structure Audit where
  sched : Scheduler := {}
  ledger : TaskLedger FiberAndThread Nat := {}
  /-- the threads that picked a task and did not yet decrement the counter -/
  owing : Finset Nat := ∅

namespace Audit

variable {pool : Pool} {a a' : Audit} {t : Nat} {call : SchedCall} {s' : Scheduler}

/-- What the account says after thread `t` took its next step. -/
def recordAdvance (a : Audit) (t : Nat) : Audit :=
  match (a.sched.workers t).pc with
  | .top =>
      let p := eligible a.sched.heap t
      { a with
        ledger := a.ledger.take p t
        owing := if a.ledger.queue.any p then insert t a.owing else a.owing }
  | .requeue _ f => { a with ledger := a.ledger.push [{ fiber := some f }] }
  | .returned _ _ | .dropped => { a with owing := a.owing.erase t }
  | _ => a

def record (a : Audit) : SchedCall → Audit
  | .advance t => a.recordAdvance t
  | call => { a with ledger := a.ledger.push call.pushes }

def step (pool : Pool) (a : Audit) (call : SchedCall) : Option Audit :=
  (a.sched.step pool call).map fun s => { a.record call with sched := s }

def Step (pool : Pool) (a : Audit) (call : SchedCall) (a' : Audit) : Prop :=
  a.step pool call = some a'

/-- Every run of the scheduler has its account. -/
theorem exists_run {calls : List SchedCall} {s : Scheduler}
    (h : Run (Scheduler.Step pool) a.sched calls s) :
    ∃ a', Run (Step pool) a calls a' ∧ a'.sched = s := by
  refine h.simulate (R := fun s (a : Audit) => a.sched = s) ?_ rfl
  rintro s call s' a rfl hstep
  refine ⟨{ a.record call with sched := s' }, ?_, rfl⟩
  rw [Step, step, hstep]
  rfl

/-! ## The account is right -/

structure Conserved (pool : Pool) (a : Audit) : Prop where
  /-- what waits in the account is `m_fibers` -/
  queue : a.ledger.queue = a.sched.fibers
  nonempty : ∀ ft ∈ a.ledger.pushed, ft.nonempty = true
  balanced : a.ledger.Balanced FiberAndThread.mayRun
  owing : ∀ t, t ∈ a.owing ↔ t ∈ pool.ids ∧ (a.sched.workers t).pc.active = true
  counted : a.sched.activeThreadCount = a.owing.card

theorem conserved_init (pool : Pool) : Conserved pool {} where
  queue := rfl
  nonempty := by simp
  balanced := .empty _
  owing := by simp [Pc.active, Pc.swapping]
  counted := rfl

theorem Conserved.queue_nonempty (h : a.Conserved pool) :
    ∀ ft ∈ a.sched.fibers, ft.nonempty = true := by
  intro ft hft
  rw [← h.queue] at hft
  obtain ⟨e, he, rfl⟩ := List.mem_map.mp hft
  exact h.nonempty e.1 (List.mem_of_getElem? (h.balanced.tasks e he))

theorem Conserved.pickLoop (h : a.Conserved pool) (t : Nat) :
    pickLoop a.sched.heap t a.sched.fibers =
      some (a.sched.fibers.find? (eligible a.sched.heap t),
        (a.ledger.take (eligible a.sched.heap t) t).queue) := by
  rw [pickLoop_eq _ _ h.queue_nonempty, TaskLedger.queue_take, h.queue]

theorem card_lt {owing : Finset Nat} (h : ∀ t ∈ owing, t ∈ pool.ids) : owing.card < 2 ^ 64 := by
  have hsub : owing ⊆ Finset.range (2 ^ 31) := fun t ht =>
    Finset.mem_range.mpr (pool.isInt t (h t ht))
  have hcard := Finset.card_le_card hsub
  rw [Finset.card_range] at hcard
  omega

theorem Conserved.owing_lt (h : a.Conserved pool) : a.owing.card < 2 ^ 64 :=
  card_lt fun t ht => ((h.owing t).mp ht).1

/-! ### One thread goes on -/

variable {w : Worker}

/-- The counter is right again after thread `t` went from `a` to `s'`. -/
theorem Conserved.move {owing : Finset Nat} {ledger : TaskLedger FiberAndThread Nat}
    (h : a.Conserved pool) (ht : t ∈ pool.ids)
    (hworkers : s'.workers = Function.update a.sched.workers t w)
    (hqueue : ledger.queue = s'.fibers) (hnonempty : ∀ ft ∈ ledger.pushed, ft.nonempty = true)
    (hbalanced : ledger.Balanced FiberAndThread.mayRun)
    (hothers : ∀ u, u ≠ t → (u ∈ owing ↔ u ∈ a.owing)) (hself : t ∈ owing ↔ w.pc.active = true)
    (hcount : s'.activeThreadCount = owing.card) :
    Conserved pool { sched := s', ledger := ledger, owing := owing } where
  queue := hqueue
  nonempty := hnonempty
  balanced := hbalanced
  owing := by
    intro u
    simp only [hworkers]
    by_cases hu : u = t
    · subst hu
      simp [hself, ht]
    · rw [Function.update_of_ne hu, hothers u hu]
      exact h.owing u
  counted := hcount

/-- A step that leaves the queue and the counter as they are. -/
theorem Conserved.keep (h : a.Conserved pool) (ht : t ∈ pool.ids)
    (hworkers : s'.workers = Function.update a.sched.workers t w)
    (hfibers : s'.fibers = a.sched.fibers)
    (hcount : s'.activeThreadCount = a.sched.activeThreadCount)
    (hactive : w.pc.active = (a.sched.workers t).pc.active) :
    Conserved pool { a with sched := s' } := by
  refine h.move ht hworkers (h.queue.trans hfibers.symm) h.nonempty h.balanced ?_ ?_ ?_
  · exact fun _ _ => Iff.rfl
  · rw [h.owing t, hactive]
    simp [ht]
  · rw [hcount, h.counted]

/-- A decrement. -/
theorem Conserved.settle (h : a.Conserved pool) (ht : t ∈ pool.ids)
    (hworkers : s'.workers = Function.update a.sched.workers t w)
    (hfibers : s'.fibers = a.sched.fibers)
    (hcount : s'.activeThreadCount = subSize a.sched.activeThreadCount 1)
    (hactive : (a.sched.workers t).pc.active = true) (hsettled : w.pc.active = false) :
    Conserved pool { a with sched := s', owing := a.owing.erase t } := by
  have hmem : t ∈ a.owing := (h.owing t).mpr ⟨ht, hactive⟩
  refine h.move ht hworkers (h.queue.trans hfibers.symm) h.nonempty h.balanced ?_ ?_ ?_
  · intro u hu
    simp [hu]
  · simp [hsettled]
  · have hpos := Finset.card_pos.mpr ⟨t, hmem⟩
    have hlt := h.owing_lt
    rw [hcount, h.counted, Finset.card_erase_of_mem hmem, subSize_of_le hlt hpos]

theorem Conserved.quiet (h : a.Conserved pool) (ht : t ∈ pool.ids)
    (hquiet : (a.sched.workers t).pc.quiet = true)
    (hworkers : s'.workers = Function.update a.sched.workers t w)
    (hfibers : s'.fibers = a.sched.fibers)
    (hcount : s'.activeThreadCount = a.sched.activeThreadCount)
    (hactive : w.pc.active = (a.sched.workers t).pc.active) :
    Conserved pool { a.recordAdvance t with sched := s' } := by
  have hsame : a.recordAdvance t = a := by
    unfold recordAdvance
    split <;> first | rfl | simp_all [Pc.quiet, Pc.decrements]
  rw [hsame]
  exact h.keep ht hworkers hfibers hcount hactive

theorem Conserved.pick {ft : FiberAndThread} {left : List FiberAndThread}
    (h : a.Conserved pool) (ht : t ∈ pool.ids) (hpc : (a.sched.workers t).pc = .top)
    (hpick : Scheduler.pickLoop a.sched.heap t a.sched.fibers = some (some ft, left)) :
    Conserved pool { a.recordAdvance t with
      sched := { a.sched with
        fibers := left
        activeThreadCount := addSize a.sched.activeThreadCount 1 }.goto t (.picked ft) } := by
  rw [h.pickLoop t] at hpick
  obtain ⟨hfind, hleft⟩ := Prod.mk.inj (Option.some.inj hpick)
  have hany : a.ledger.queue.any (eligible a.sched.heap t) = true := by
    rw [h.queue, List.any_eq_true]
    exact ⟨ft, List.mem_of_find?_eq_some hfind, List.find?_some hfind⟩
  have howe : t ∉ a.owing := by
    rw [h.owing t, hpc]
    simp [Pc.active, Pc.swapping]
  simp only [recordAdvance, hpc, hany, if_true]
  refine h.move ht rfl hleft (fun x hx => h.nonempty x ?_)
    (h.balanced.take fun _ => thread_of_eligible) ?_ ?_ ?_
  · rwa [TaskLedger.pushed_take] at hx
  · intro u hu
    simp [hu]
  · simp [Pc.active]
  · have hsub : ∀ u ∈ insert t a.owing, u ∈ pool.ids := by
      intro u hu
      rcases Finset.mem_insert.mp hu with rfl | hu
      · exact ht
      · exact ((h.owing u).mp hu).1
    have hlt := card_lt hsub
    rw [Finset.card_insert_of_notMem howe] at hlt ⊢
    change addSize a.sched.activeThreadCount 1 = _
    rw [h.counted, addSize_of_lt hlt]

theorem Conserved.pickNothing {left : List FiberAndThread}
    (h : a.Conserved pool) (ht : t ∈ pool.ids) (hpc : (a.sched.workers t).pc = .top)
    (hpick : Scheduler.pickLoop a.sched.heap t a.sched.fibers = some (none, left)) :
    Conserved pool { a.recordAdvance t with
      sched := { a.sched with fibers := left }.goto t .nothing } := by
  rw [h.pickLoop t] at hpick
  obtain ⟨hfind, hleft⟩ := Prod.mk.inj (Option.some.inj hpick)
  have hany : a.ledger.queue.any (eligible a.sched.heap t) = false := by
    rw [h.queue, List.any_eq_false]
    exact List.find?_eq_none.mp hfind
  simp only [recordAdvance, hpc, hany]
  refine h.move ht rfl hleft (fun x hx => h.nonempty x ?_)
    (h.balanced.take fun _ => thread_of_eligible) (fun _ _ => Iff.rfl) ?_ h.counted
  · rwa [TaskLedger.pushed_take] at hx
  · simp [h.owing t, hpc, Pc.active, Pc.swapping]

theorem Conserved.push {registered : List Nat} (h : a.Conserved pool)
    (fts : List FiberAndThread) (hfts : ∀ ft ∈ fts, ft.nonempty = true) :
    Conserved pool { a with
      sched := { a.sched with fibers := a.sched.fibers ++ fts, registered := registered }
      ledger := a.ledger.push fts } where
  queue := by rw [TaskLedger.queue_push, h.queue]
  nonempty := by
    intro ft hft
    rcases List.mem_append.mp hft with hold | hnew
    · exact h.nonempty ft hold
    · exact hfts ft hnew
  balanced := h.balanced.push fts
  owing := h.owing
  counted := h.counted

/-- The step lemma of `run`. -/
theorem Conserved.advance (h : a.Conserved pool) (ht : t ∈ pool.ids)
    (hmove : Move a.sched t s') : Conserved pool { a.recordAdvance t with sched := s' } := by
  cases hmove with
  | pick hpc hpick => exact h.pick ht hpc hpick
  | pickNothing hpc hpick => exact h.pickNothing ht hpc hpick
  | chooseFiber hpc _ => exact h.quiet ht (by rw [hpc]; rfl) rfl rfl rfl (by rw [hpc]; rfl)
  | chooseCb hpc _ => exact h.quiet ht (by rw [hpc]; rfl) rfl rfl rfl (by rw [hpc]; rfl)
  | chooseNone hpc => exact h.quiet ht (by rw [hpc]; rfl) rfl rfl rfl (by rw [hpc]; rfl)
  | rebind hpc _ => exact h.quiet ht (by rw [hpc]; rfl) rfl rfl rfl (by rw [hpc]; rfl)
  | bindNew hpc _ => exact h.quiet ht (by rw [hpc]; rfl) rfl rfl rfl (by rw [hpc]; rfl)
  | swap heap hpc hdec hpc' =>
      refine h.quiet ht (Pc.quiet_of_swapping hpc hdec) rfl rfl rfl ?_
      rw [Pc.active_of_swapping hpc, Pc.active_of_swapping hpc']
  | decrement hpc =>
      simp only [recordAdvance, hpc]
      exact h.settle ht (goto_workers _ _ _) (goto_fibers _ _ _) (goto_activeThreadCount _ _ _)
        (by rw [hpc]; rfl) rfl
  | sort hpc hpc' =>
      refine h.quiet ht (by rw [hpc]; rfl) rfl rfl rfl ?_
      rcases hpc' with rfl | rfl | ⟨-, rfl⟩ <;> rw [hpc] <;> rfl
  | ended hpc => exact h.quiet ht (by rw [hpc]; rfl) rfl rfl rfl (by rw [hpc]; rfl)
  | @requeue b f hpc =>
      have hpush := @Conserved.push pool a a.sched.registered h [{ fiber := some f }]
        (by simp [FiberAndThread.nonempty])
      simp only [recordAdvance, hpc, leave_eq]
      exact hpush.keep ht rfl rfl rfl (by simp [hpc, Pc.active, Pc.swapping])
  | hold hpc =>
      rw [leave_eq]
      exact h.quiet ht (by rw [hpc]; rfl) rfl rfl rfl (by simp [hpc, Pc.active, Pc.swapping])
  | clear hpc => exact h.quiet ht (by rw [hpc]; rfl) rfl rfl rfl (by rw [hpc]; rfl)
  | drop hpc =>
      simp only [recordAdvance, hpc]
      exact h.settle ht (goto_workers _ _ _) (goto_fibers _ _ _) (goto_activeThreadCount _ _ _)
        (by rw [hpc]; rfl) rfl
  | idle count hpc htop hpc' =>
      refine h.quiet ht (Pc.quiet_of_free hpc htop) rfl rfl rfl ?_
      rw [Pc.active_of_free hpc, Pc.active_of_free hpc']

theorem record_eq (h : ∀ t, call ≠ .advance t) :
    a.record call = { a with ledger := a.ledger.push call.pushes } := by
  cases call <;> first | rfl | exact absurd rfl (h _)

theorem step_inv (h : a.Step pool call a') :
    ∃ s', a' = { a.record call with sched := s' } ∧ Effect a.sched call s' ∧
      ∀ t, call.thread = some t → t ∈ pool.ids := by
  obtain ⟨s', hstep, rfl⟩ := Option.map_eq_some_iff.mp h
  exact ⟨s', rfl, step_effect hstep⟩

theorem Conserved.step (h : a.Conserved pool) (hstep : a.Step pool call a') :
    a'.Conserved pool := by
  obtain ⟨s', rfl, heffect, hpool⟩ := step_inv hstep
  cases heffect with
  | newFiber cb =>
      change Conserved pool { a with sched := _, ledger := a.ledger.push [] }
      rw [TaskLedger.push_nil]
      exact ⟨h.queue, h.nonempty, h.balanced, h.owing, h.counted⟩
  | push registered hthread _ _ =>
      rw [record_eq (by rintro t rfl; cases hthread)]
      exact h.push _ fun _ => nonempty_of_pushes
  | stop =>
      change Conserved pool { a with sched := _, ledger := a.ledger.push [] }
      rw [TaskLedger.push_nil]
      exact ⟨h.queue, h.nonempty, h.balanced, h.owing, h.counted⟩
  | advance hmove => exact h.advance (hpool _ rfl) hmove
  | act registered hthread hcall hpc hpc' _ =>
      rw [record_eq (by rintro u rfl; obtain rfl := Option.some.inj hthread; exact hcall rfl),
        SchedCall.pushes_of_thread hthread, TaskLedger.push_nil]
      refine h.keep (hpool _ hthread) rfl rfl rfl ?_
      rw [Pc.active_of_swapping hpc', hpc]
      rfl

/-! ## What a step takes -/

/-- The locked section of thread `t` leads from `a` to `a'`: it removes the first task
that the thread may have, or there is none. -/
def TakesFirst (a : Audit) (t : Nat) (a' : Audit) : Prop :=
  (∃ front task back, a.ledger.waiting = front ++ task :: back ∧
    (∀ skipped ∈ front, eligible a.sched.heap t skipped.1 = false) ∧
    eligible a.sched.heap t task.1 = true ∧
    a'.ledger = { a.ledger with
      waiting := front ++ back, removed := a.ledger.removed ++ [(task.2, t)] } ∧
    (a'.sched.workers t).pc = .picked task.1) ∨
  ((∀ skipped ∈ a.ledger.waiting, eligible a.sched.heap t skipped.1 = false) ∧
    a'.ledger = a.ledger ∧ (a'.sched.workers t).pc = .nothing)

theorem Conserved.takesFirst (h : a.Conserved pool) (hstep : a.Step pool (.advance t) a')
    (hpc : (a.sched.workers t).pc = .top) : TakesFirst a t a' := by
  obtain ⟨s', rfl, heffect, -⟩ := step_inv hstep
  have hledger : (a.recordAdvance t).ledger = a.ledger.take (eligible a.sched.heap t) t := by
    simp only [recordAdvance, hpc]
  have hpick := pick_of_top hpc heffect.advance_inv
  rw [h.pickLoop t] at hpick
  unfold TakesFirst
  rcases a.ledger.take_cases (eligible a.sched.heap t) t with
    ⟨front, task, back, hcut, hskip, htask, htake⟩ | ⟨hskip, htake⟩
  · have hfind : a.sched.fibers.find? (eligible a.sched.heap t) = some task.1 := by
      rw [← h.queue, TaskLedger.queue, hcut, List.map_append, List.map_cons]
      refine List.find?_eq_some_iff_append.mpr ⟨htask, _, _, rfl, ?_⟩
      simpa using hskip
    refine .inl ⟨front, task, back, hcut, hskip, htask, hledger.trans htake, ?_⟩
    rw [hfind] at hpick
    exact hpick
  · have hfind : a.sched.fibers.find? (eligible a.sched.heap t) = none := by
      rw [← h.queue, List.find?_eq_none]
      simpa [TaskLedger.queue] using hskip
    refine .inr ⟨hskip, hledger.trans htake, ?_⟩
    rw [hfind] at hpick
    exact hpick

/-- Only locked sections remove tasks. -/
theorem step_ledger (h : a.Conserved pool) (hstep : a.Step pool call a') :
    (∃ t, call = .advance t ∧ (a.sched.workers t).pc = .top ∧ TakesFirst a t a') ∨
      ∃ fts, a'.ledger = a.ledger.push fts := by
  by_cases hcall : ∃ t, call = .advance t
  · obtain ⟨t, rfl⟩ := hcall
    by_cases hpc : (a.sched.workers t).pc = .top
    · exact .inl ⟨t, rfl, hpc, h.takesFirst hstep hpc⟩
    · obtain ⟨s', rfl, -, -⟩ := step_inv hstep
      refine .inr ?_
      change ∃ fts, (a.recordAdvance t).ledger = a.ledger.push fts
      unfold recordAdvance
      split
      · rename_i htop
        exact absurd htop hpc
      · exact ⟨_, rfl⟩
      all_goals exact ⟨[], by rw [TaskLedger.push_nil]⟩
  · obtain ⟨s', rfl, -, -⟩ := step_inv hstep
    rw [record_eq (not_exists.mp hcall)]
    exact .inr ⟨_, rfl⟩

theorem Conserved.decrement (h : a.Conserved pool) (hstep : a.Step pool (.advance t) a')
    (hpc : (a.sched.workers t).pc.decrements = true) :
    t ∈ a.owing ∧ a'.owing = a.owing.erase t ∧
      a'.sched.activeThreadCount + 1 = a.sched.activeThreadCount := by
  obtain ⟨-, -, -, hpool⟩ := step_inv hstep
  have hactive : (a.sched.workers t).pc.active = true := Pc.active_of_decrements hpc
  have hmem : t ∈ a.owing := (h.owing t).mpr ⟨hpool t rfl, hactive⟩
  have howing : a'.owing = a.owing.erase t := by
    obtain ⟨s', rfl, -, -⟩ := step_inv hstep
    change (a.recordAdvance t).owing = a.owing.erase t
    unfold recordAdvance
    split <;> first | rfl | simp_all [Pc.decrements]
  refine ⟨hmem, howing, ?_⟩
  rw [(h.step hstep).counted, h.counted, howing]
  exact Finset.card_erase_add_one hmem

theorem run_conserves_tasks (pool : Pool) (calls : List SchedCall) (s : Scheduler)
    (h : Run (Scheduler.Step pool) {} calls s) :
    ∃ a, Run (Step pool) {} calls a ∧ a.sched = s ∧ a.Conserved pool ∧
      (a.ledger.removed.map Prod.fst).Nodup ∧
      (∀ call a', a.Step pool call a' →
        (∃ t, call = .advance t ∧ (s.workers t).pc = .top ∧ TakesFirst a t a') ∨
          ∃ fts, a'.ledger = a.ledger.push fts) ∧
      (∀ t a', a.Step pool (.advance t) a' → (s.workers t).pc.decrements = true →
        t ∈ a.owing ∧ a'.owing = a.owing.erase t ∧
          a'.sched.activeThreadCount + 1 = s.activeThreadCount) := by
  obtain ⟨a, hrun, rfl⟩ := exists_run (a := {}) h
  have hcons : a.Conserved pool :=
    hrun.invariant (fun _ _ _ h hstep => h.step hstep) (conserved_init pool)
  exact ⟨a, hrun, rfl, hcons, hcons.balanced.removed_once, fun _ _ => step_ledger hcons,
    fun _ _ => hcons.decrement⟩

/-- A fiber for thread 1 and a callback for any thread, both picked. -/
def twoPicks : List SchedCall :=
  [.newFiber (some 7), .schedule (.fiber (some 0)) 1, .scheduleRange [.cb (some 8)],
    .advance 2, .advance 2, .advance 2, .advance 1]

theorem run_conserves_tasks_two_threads :
    ∃ (s : Scheduler) (a : Audit), Run (Scheduler.Step twoThreads) {} twoPicks s ∧
      a.sched = s ∧ a.Conserved twoThreads ∧ s.activeThreadCount = 2 := by
  have hexec : ((twoPicks.foldlM (Scheduler.step twoThreads) {}).any
      fun s => s.activeThreadCount = 2) = true := by
    decide
  obtain ⟨s, hs, hcount⟩ := (Option.any_eq_true _ _).mp hexec
  have hrun : Run (Scheduler.Step twoThreads) {} twoPicks s :=
    Run.of_foldlM (fun _ _ _ h => h) hs
  obtain ⟨a, -, hsched, hcons, -⟩ := run_conserves_tasks twoThreads twoPicks s hrun
  exact ⟨s, a, hrun, hsched, hcons, of_decide_eq_true hcount⟩

end Audit

end Lyslg
