import Lyslg.Timer.Effect
import Lyslg.Support.Run
/-!
# The timer set over whole runs

In every run the set is in order for the current deadlines and holds exactly the
live timers.  A timer whose callback is gone stays so, hence is never reported
again; a one-shot timer loses its callback when it is reported.
-/

namespace Lyslg.TimerManager

open Support

variable {m m' : TimerManager} {op : TimerOp} {outcome : TimerOutcome} {id : Nat}
  {label : TimerOp × TimerOutcome} {trace : List (TimerOp × TimerOutcome)}

/-- The timer was created and its callback is gone. -/
def Dead (m : TimerManager) (id : Nat) : Prop := id < m.created ∧ (m.heap id).cb = none

theorem Dead.not_mem (hdead : m.Dead id) (h : m.Holds []) : id ∉ m.timers := by
  intro hid
  have hcb := h.cb_isSome hid
  rw [hdead.2] at hcb
  cases hcb

/-! ## One step -/

namespace Effect

theorem holds (he : Effect m op outcome m') (h : m.Holds []) : m'.Holds [] := by
  cases he with
  | added harmed _ => exact harmed.holds
  | cancelled _ hcancelled => exact hcancelled.holds
  | refreshed _ harmed _ => exact harmed.holds
  | rescheduled _ harmed _ => exact harmed.holds
  | listed hlisted => exact hlisted.collected.holds
  | slept => exact h.setTickled false
  | _ => exact h

theorem created_le (he : Effect m op outcome m') : m.created ≤ m'.created := by
  cases he with
  | added harmed _ => exact harmed.created ▸ Nat.le_max_left _ _
  | cancelled _ hcancelled => exact Nat.le_of_eq hcancelled.created.symm
  | refreshed _ harmed _ => exact harmed.created ▸ Nat.le_max_left _ _
  | rescheduled _ harmed _ => exact harmed.created ▸ Nat.le_max_left _ _
  | listed hlisted => exact Nat.le_of_eq hlisted.collected.created.symm
  | _ => exact Nat.le_refl _

/-- Only timers of the set are reported, each once. -/
theorem reported (he : Effect m op outcome m') (h : m.Holds []) :
    outcome.reported.Nodup ∧ ∀ id ∈ outcome.reported, id ∈ m.timers := by
  cases he with
  | listed hlisted =>
      have hnodup := h.nodup
      rw [List.append_nil, hlisted.split] at hnodup
      rw [hlisted.split]
      simp only [TimerOutcome.reported, List.map_map]
      rw [show Prod.fst ∘ (fun a => (a, (m.heap a).cb)) = id from rfl, List.map_id]
      exact ⟨hnodup.of_append_left, fun id => List.mem_append_left _⟩
  | _ => exact ⟨List.nodup_nil, by simp [TimerOutcome.reported]⟩

/-- A timer that is neither called through nor reported stays as it is. -/
theorem frame (he : Effect m op outcome m') (hid : id < m.created)
    (htarget : op.target ≠ some id) (hreported : id ∉ outcome.reported) :
    m'.heap id = m.heap id ∧ (id ∈ m'.timers ↔ id ∈ m.timers) := by
  cases he with
  | added harmed _ =>
      have hne : id ≠ m.created := Nat.ne_of_lt hid
      rw [harmed.heap, Function.update_of_ne hne, harmed.timers]
      simp [hne]
  | @cancelled a _ _ hcancelled =>
      have hne : id ≠ a := fun h => htarget (h ▸ rfl)
      rw [hcancelled.heap, Function.update_of_ne hne, hcancelled.timers]
      simp [hne]
  | @refreshed a _ _ _ harmed _ =>
      have hne : id ≠ a := fun h => htarget (h ▸ rfl)
      rw [harmed.heap, Function.update_of_ne hne, harmed.timers]
      simp [hne]
  | @rescheduled a _ _ _ _ _ _ harmed _ =>
      have hne : id ≠ a := fun h => htarget (h ▸ rfl)
      rw [harmed.heap, Function.update_of_ne hne, harmed.timers]
      simp [hne]
  | @listed _ _ due later _ hlisted =>
      have hnot : id ∉ due := by simpa [TimerOutcome.reported] using hreported
      rw [hlisted.collected.heap, if_neg hnot, hlisted.collected.timers, hlisted.split]
      simp [hnot]
  | _ => exact ⟨rfl, Iff.rfl⟩

theorem recurring_eq (he : Effect m op outcome m') (hid : id < m.created) :
    (m'.heap id).recurring = (m.heap id).recurring := by
  by_cases htouched : op.target ≠ some id ∧ id ∉ outcome.reported
  · rw [(he.frame hid htouched.1 htouched.2).1]
  · cases he with
    | added harmed _ => simp [TimerOp.target, TimerOutcome.reported] at htouched
    | @cancelled a _ _ hcancelled =>
        obtain rfl : a = id := by simpa [TimerOp.target, TimerOutcome.reported] using htouched
        rw [hcancelled.heap, Function.update_self]
    | @refreshed a _ _ _ harmed _ =>
        obtain rfl : a = id := by simpa [TimerOp.target, TimerOutcome.reported] using htouched
        rw [harmed.heap, Function.update_self]
    | @rescheduled a _ _ _ _ _ _ harmed _ =>
        obtain rfl : a = id := by simpa [TimerOp.target, TimerOutcome.reported] using htouched
        rw [harmed.heap, Function.update_self]
    | listed hlisted =>
        rw [hlisted.collected.heap]
        unfold Timer.fired
        split_ifs <;> rfl
    | _ => rfl

/-- What is dead is not revived: `addTimer` makes a new timer, and the other
operations need a callback. -/
theorem dead (he : Effect m op outcome m') (h : m.Holds []) (hdead : m.Dead id) : m'.Dead id := by
  have hout : id ∉ m.timers := hdead.not_mem h
  have hreported : id ∉ outcome.reported := fun hmem => hout ((he.reported h).2 id hmem)
  refine ⟨Nat.lt_of_lt_of_le hdead.1 he.created_le, ?_⟩
  by_cases htarget : op.target = some id
  · cases he with
    | cancelled hid _ =>
        obtain rfl := Option.some.inj htarget
        exact absurd hid hout
    | refreshed hid _ _ =>
        obtain rfl := Option.some.inj htarget
        exact absurd hid hout
    | rescheduled hid _ _ =>
        obtain rfl := Option.some.inj htarget
        exact absurd hid hout
    | added _ _ => cases htarget
    | listed _ => cases htarget
    | _ => exact hdead.2
  · rw [(he.frame hdead.1 htarget hreported).1]
    exact hdead.2

/-- A reported one-shot timer has lost its callback. -/
theorem dead_of_reported (he : Effect m op outcome m') (h : m.Holds [])
    (hid : id ∈ outcome.reported) (honce : (m.heap id).recurring = false) : m'.Dead id := by
  have hmem := (he.reported h).2 id hid
  refine ⟨Nat.lt_of_lt_of_le (h.mem_timers.mp hmem).1 he.created_le, ?_⟩
  cases he with
  | @listed _ _ due later _ hlisted =>
      have hdue : id ∈ due := by simpa [TimerOutcome.reported] using hid
      rw [hlisted.collected.heap, if_pos hdue]
      simp [Timer.fired, honce]
  | _ => simp [TimerOutcome.reported] at hid

theorem dead_of_cancelled (he : Effect m (.cancel id) (.flag true false) m') (h : m.Holds []) :
    m'.Dead id := by
  cases he with
  | cancelled hid hcancelled =>
      refine ⟨hcancelled.created ▸ (h.mem_timers.mp hid).1, ?_⟩
      rw [hcancelled.heap, Function.update_self]

end Effect

theorem Step.holds (h : m.Holds []) (hstep : m.Step label m') : m'.Holds [] :=
  (Step.effect h hstep).holds h

/-! ## Whole runs -/

theorem run_holds (hrun : Run Step m trace m') (h : m.Holds []) : m'.Holds [] :=
  hrun.invariant (I := fun m => m.Holds []) (fun _ _ _ => Step.holds) h

/-- A dead timer is never reported again. -/
theorem run_dead (hrun : Run Step m trace m') (h : m.Holds []) (hdead : m.Dead id) :
    ∀ label ∈ trace, id ∉ label.2.reported := by
  induction hrun with
  | nil => simp
  | cons hstep _ ih =>
      have he := Step.effect h hstep
      rw [List.forall_mem_cons]
      refine ⟨?_, ih (he.holds h) (he.dead h hdead)⟩
      intro hmem
      exact hdead.not_mem h ((he.reported h).2 id hmem)

theorem run_recurring_eq (hrun : Run Step m trace m') (h : m.Holds []) (hid : id < m.created) :
    (m'.heap id).recurring = (m.heap id).recurring := by
  induction hrun with
  | nil => rfl
  | cons hstep _ ih =>
      have he := Step.effect h hstep
      rw [ih (he.holds h) (Nat.lt_of_lt_of_le hid he.created_le), he.recurring_eq hid]

/-- A one-shot timer is reported at most once. -/
theorem run_once (hrun : Run Step m trace m') (h : m.Holds [])
    (honce : (m'.heap id).recurring = false) :
    (trace.flatMap fun label => label.2.reported).count id ≤ 1 := by
  induction hrun with
  | nil => simp
  | @cons m m₁ m' label trace hstep hrun ih =>
      have he := Step.effect h hstep
      obtain ⟨hnodup, hmem⟩ := he.reported h
      rw [List.flatMap_cons, List.count_append]
      by_cases hreported : id ∈ label.2.reported
      · have hid := (h.mem_timers.mp (hmem id hreported)).1
        have honce' : (m.heap id).recurring = false := by
          rw [← run_recurring_eq (.cons hstep hrun) h hid]
          exact honce
        have hlater := run_dead hrun (he.holds h) (he.dead_of_reported h hreported honce')
        have hzero : (trace.flatMap fun label => label.2.reported).count id = 0 := by
          rw [List.count_eq_zero, List.mem_flatMap]
          rintro ⟨label, hlabel, hin⟩
          exact hlater label hlabel hin
        rw [hzero]
        exact List.nodup_iff_count_le_one.mp hnodup id
      · rw [List.count_eq_zero.mpr hreported, Nat.zero_add]
        exact ih (he.holds h) honce

/-- The timer set in every state of every run.  `cancel` calls `find` when the
callback is already gone. -/
theorem timerSet_invariant {heap : Nat → Timer} {now : Nat}
    (hrun : Run Step (new heap now) trace m) :
    OrderedSet.Sorted m.key m.timers ∧ m.timers.Nodup ∧
      (∀ id, id ∈ m.timers ↔ id < m.created ∧ (m.heap id).cb.isSome = true) ∧
      (∀ id < m.created, (m.heap id).cb.isSome = true →
        (m.update id fun timer => { timer with cb := none }).find id ≠ m.timers.length) ∧
      (∀ id < m.created, ∀ now, (m.refresh id now).1 = false → (m.heap id).cb = none) ∧
      (∀ id < m.created, ∀ ms fromNow now,
        (m.reset id ms fromNow now).1 = false → (m.heap id).cb = none) ∧
      (∀ pre id post, trace = pre ++ (.cancel id, .flag true false) :: post →
        ∀ label ∈ post, id ∉ label.2.reported) ∧
      ∀ id < m.created, (m.heap id).recurring = false →
        (trace.flatMap fun label => label.2.reported).count id ≤ 1 := by
  have hnew := new_holds heap now
  have h := run_holds hrun hnew
  refine ⟨h.sorted, ?_, fun id => h.mem_timers, ?_, ?_, ?_, ?_, ?_⟩
  · simpa using h.nodup
  · intro id hid hcb
    obtain ⟨pre, post, hsplit, hfind⟩ := find_cleared h (h.mem_timers.mpr ⟨hid, hcb⟩)
    rw [hfind]
    exact length_ne hsplit
  · intro id hid now hfalse
    by_contra hcb
    obtain ⟨m₁, heq, _⟩ := refresh_of_mem now h
      (h.mem_timers.mpr ⟨hid, Option.isSome_iff_ne_none.mpr hcb⟩)
    rw [heq] at hfalse
    cases hfalse
  · intro id hid ms fromNow now hfalse
    by_contra hcb
    by_cases hsame : ms.toNat = (m.heap id).ms ∧ fromNow = false
    · unfold reset at hfalse
      rw [if_pos hsame] at hfalse
      cases hfalse
    · obtain ⟨front, m₁, heq, _⟩ := reset_of_mem now h
        (h.mem_timers.mpr ⟨hid, Option.isSome_iff_ne_none.mpr hcb⟩) hsame
      rw [heq] at hfalse
      cases hfalse
  · rintro pre id post rfl
    obtain ⟨m₁, hpre, hrest⟩ := hrun.split
    have h₁ := run_holds hpre hnew
    cases hrest with
    | cons hstep hpost =>
        have he := Step.effect h₁ hstep
        exact run_dead hpost (he.holds h₁) (he.dead_of_cancelled h₁)
  · intro id _ honce
    exact run_once hrun hnew honce

/-- A one-shot timer expires next to a recurring one, which is then cancelled. -/
theorem timerSet_invariant_two_timers :
    ∃ m, Run Step (new (fun _ => { addr := 0 }) 0)
        [(.addTimer 16 5 1 false 0, .created 0 true), (.addTimer 32 5 2 true 0, .created 1 false),
          (.listExpiredCb 7 48, .cbs [(0, some 1), (1, some 2)]),
          (.cancel 1, .flag true false)] m ∧
      m.timers.Nodup := by
  have hsome : ([(.addTimer 16 5 1 false 0, .created 0 true),
      (.addTimer 32 5 2 true 0, .created 1 false),
      (.listExpiredCb 7 48, .cbs [(0, some 1), (1, some 2)]),
      (.cancel 1, .flag true false)].foldlM step (new (fun _ => { addr := 0 }) 0)).isSome =
        true := by
    decide
  obtain ⟨m, hm⟩ := Option.isSome_iff_exists.mp hsome
  have hrun := Run.of_foldlM (fun _ _ _ => step_some) hm
  exact ⟨m, hrun, (timerSet_invariant hrun).2.1⟩

end Lyslg.TimerManager
