import Lyslg.Timer.Sections
import Lyslg.Timer.Expired
/-!
# What one critical section does

`listExpiredCb` takes the due timers out of the set and puts the recurring ones
back.  Then one inversion lemma, `Step.effect`, covers the whole interface: the
set after a step, the timers that changed and how, and what the caller sees.
-/

namespace Lyslg

open Support Support.Machine

namespace TimerManager

variable {m m₁ m' : TimerManager} {id now tmp : Nat} {due later out : List Nat}

/-! ## The expired timers -/

/-- `m'` is `m` after the loop over `due`, with `out` still to come. -/
structure Collected (m : TimerManager) (now : Nat) (due out : List Nat)
    (m' : TimerManager) : Prop where
  holds : m'.Holds out
  heap : ∀ a, m'.heap a = if a ∈ due then (m.heap a).fired now else m.heap a
  timers : ∀ a, a ∈ m'.timers ↔ a ∈ m.timers ∨ a ∈ due ∧ (m.heap a).recurring = true
  created : m'.created = m.created
  previousTime : m'.previousTime = m.previousTime
  tickled : m'.tickled = m.tickled

/-- The loop keeps the invariant too. -/
theorem Fired.collected (h : Fired m now due [] m') (hholds : m.Holds due) :
    Collected m now due [] m' := by
  refine ⟨⟨h.placed.sorted, h.placed.separate, fun a => ?_⟩, h.heap, h.timers, h.created,
    h.previousTime, h.tickled⟩
  have hlive := hholds.live a
  rw [List.mem_append] at hlive
  rw [List.append_nil, h.timers, h.heap, h.created]
  by_cases hdue : a ∈ due
  · have hout : a ∉ m.timers := fun ha =>
      List.disjoint_of_nodup_append hholds.nodup ha hdue
    obtain ⟨hcreated, hcb⟩ := hlive.mp (.inr hdue)
    rw [if_pos hdue, Timer.fired]
    by_cases hrec : (m.heap a).recurring = true
    · simp [hdue, hrec, hcreated, hcb]
    · simp [hout, hrec]
  · rw [if_neg hdue, ← hlive]
    simp [hdue]

/-- `m'` is `m` after a call of `listExpiredCb` at `now` that reports `due`. -/
structure Listed (m : TimerManager) (now : Nat) (due later : List Nat)
    (m' : TimerManager) : Prop where
  split : m.timers = due ++ later
  expired : ∀ a ∈ due, (m.detectClockRollover now).1 = true ∨ (m.heap a).next ≤ now
  waiting : ∀ b ∈ later, (m.detectClockRollover now).1 = false ∧ now < (m.heap b).next
  collected : Collected { m with timers := later, previousTime := now } now due [] m'

theorem listExpiredCb_listed {expired : List (Nat × Option Callback)} (h : m.Holds [])
    (hlist : m.listExpiredCb now tmp = some (expired, m')) :
    ∃ due later, expired = due.map (fun a => (a, (m.heap a).cb)) ∧ Listed m now due later m' := by
  obtain ⟨due, later, hcbs, hexpires, hfired⟩ := listExpiredCb_fired h.placed hlist
  refine ⟨due, later, hcbs, hexpires.split, hexpires.expired, hexpires.waiting, hfired.collected ?_⟩
  apply (h.setPreviousTime now).erase
  · rw [hexpires.split]
    exact List.sublist_append_right due later
  · rw [List.append_nil, hexpires.split]
    exact List.perm_append_comm

end TimerManager

/-! ## Inversion of a step -/

/-- The timer an operation is called through. -/
def TimerOp.target : TimerOp → Option Nat
  | .cancel id => some id
  | .refresh id _ => some id
  | .reset id _ _ _ => some id
  | _ => none

namespace TimerManager

variable {m m' : TimerManager} {op : TimerOp} {outcome : TimerOutcome} {id now : Nat}

/-- Everything a critical section can do. -/
inductive Effect (m : TimerManager) : TimerOp → TimerOutcome → TimerManager → Prop where
  | added {addr now : Nat} {ms : UInt16} {cb : Callback} {recurring front : Bool}
      {m' : TimerManager} :
      Armed m m.created ⟨recurring, ms.toNat, addSize now ms.toNat, some cb, addr⟩ m' →
      Tickles m m.created ⟨recurring, ms.toNat, addSize now ms.toNat, some cb, addr⟩ front m' →
      Effect m (.addTimer addr ms cb recurring now) (.created m.created front) m'
  | cancelled {id : Nat} {m' : TimerManager} : id ∈ m.timers → Cancelled m id m' →
      Effect m (.cancel id) (.flag true false) m'
  | refreshed {id now : Nat} {m' : TimerManager} : id ∈ m.timers →
      Armed m id { m.heap id with next := addSize now (m.heap id).ms } m' →
      m'.tickled = m.tickled →
      Effect m (.refresh id now) (.flag true false) m'
  | rescheduled {id now : Nat} {ms : UInt64} {fromNow front : Bool} {m' : TimerManager} :
      id ∈ m.timers →
      Armed m id { m.heap id with
        ms := ms.toNat, next := addSize (m.resetStart id fromNow now) ms.toNat } m' →
      Tickles m id { m.heap id with
        ms := ms.toNat, next := addSize (m.resetStart id fromNow now) ms.toNat } front m' →
      Effect m (.reset id ms fromNow now) (.flag true front) m'
  | unchanged {id now : Nat} {ms : UInt64} :
      Effect m (.reset id ms false now) (.flag true false) m
  | refused {op : TimerOp} {id : Nat} : op.target = some id → (m.heap id).cb = none →
      id ∉ m.timers → Effect m op (.flag false false) m
  | noTimer {now : Nat} : m.timers = [] → Effect m (.listTest now) (.cbs []) m
  | someTimer {now : Nat} : Effect m (.listTest now) (.flag false false) m
  | listed {now tmp : Nat} {due later : List Nat} {m' : TimerManager} :
      Listed m now due later m' →
      Effect m (.listExpiredCb now tmp) (.cbs (due.map fun a => (a, (m.heap a).cb))) m'
  | slept {now ms : Nat} :
      Effect m (.getNextTimer now) (.wait ms) { m with tickled := false }

/-- The three operations that need a live timer refuse a dead one. -/
theorem exec_refused (h : m.Holds []) (htarget : op.target = some id) (hid : id < m.created)
    (hdead : id ∉ m.timers) (hexec : m.exec op = some (outcome, m')) :
    Effect m op outcome m' := by
  have hcb := h.cb_isNone hid hdead
  have hrefused := Effect.refused htarget hcb hdead
  cases op with
  | cancel a =>
      obtain rfl : a = id := Option.some.inj htarget
      simp only [exec, cancel, hcb, Option.isSome_none, Bool.false_eq_true, if_false,
        Option.map_some, Option.some.injEq, Prod.mk.injEq] at hexec
      rw [← hexec.1, ← hexec.2]
      exact hrefused
  | refresh a now =>
      obtain rfl : a = id := Option.some.inj htarget
      simp only [exec, refresh, hcb, Option.isNone_none, if_true, Option.some.injEq,
        Prod.mk.injEq] at hexec
      rw [← hexec.1, ← hexec.2]
      exact hrefused
  | reset a ms fromNow now =>
      obtain rfl : a = id := Option.some.inj htarget
      by_cases hsame : ms.toNat = (m.heap a).ms ∧ fromNow = false
      · simp only [exec, reset, if_pos hsame, Option.some.injEq, Prod.mk.injEq] at hexec
        rw [← hexec.1, ← hexec.2, hsame.2]
        exact Effect.unchanged
      · simp only [exec, reset, if_neg hsame, hcb, Option.isNone_none, if_true, Option.some.injEq,
          Prod.mk.injEq] at hexec
        rw [← hexec.1, ← hexec.2]
        exact hrefused
  | _ => cases htarget

theorem getNextTimer_snd : (m.getNextTimer now).2 = { m with tickled := false } := by
  cases htimers : m.timers <;> simp [getNextTimer, htimers]

theorem Step.effect (h : m.Holds []) (hstep : m.Step (op, outcome) m') :
    Effect m op outcome m' := by
  obtain ⟨hallowed, hexec⟩ := hstep
  change m.exec op = some (outcome, m') at hexec
  cases op with
  | addTimer addr ms cb recurring now =>
      obtain ⟨harmed, htickles⟩ := addTimer_armed cb h hallowed
      simp only [exec, Option.some.injEq, Prod.mk.injEq] at hexec
      rw [← hexec.1, ← hexec.2]
      exact Effect.added harmed htickles
  | cancel id =>
      by_cases hid : id ∈ m.timers
      · obtain ⟨m₁, heq, hcancelled⟩ := cancel_of_mem h hid
        simp only [exec, heq, Option.map_some, Option.some.injEq, Prod.mk.injEq] at hexec
        rw [← hexec.1, ← hexec.2]
        exact Effect.cancelled hid hcancelled
      · exact exec_refused h rfl hallowed hid hexec
  | refresh id now =>
      by_cases hid : id ∈ m.timers
      · obtain ⟨m₁, heq, harmed, htickled⟩ := refresh_of_mem now h hid
        simp only [exec, heq, Option.some.injEq, Prod.mk.injEq] at hexec
        rw [← hexec.1, ← hexec.2]
        exact Effect.refreshed hid harmed htickled
      · exact exec_refused h rfl hallowed hid hexec
  | reset id ms fromNow now =>
      by_cases hid : id ∈ m.timers
      · by_cases hsame : ms.toNat = (m.heap id).ms ∧ fromNow = false
        · simp only [exec, reset, if_pos hsame, Option.some.injEq, Prod.mk.injEq] at hexec
          rw [← hexec.1, ← hexec.2, hsame.2]
          exact Effect.unchanged
        · obtain ⟨front, m₁, heq, harmed, htickles⟩ := reset_of_mem now h hid hsame
          simp only [exec, heq, Option.some.injEq, Prod.mk.injEq] at hexec
          rw [← hexec.1, ← hexec.2]
          exact Effect.rescheduled hid harmed htickles
      · exact exec_refused h rfl hallowed hid hexec
  | listTest now =>
      simp only [exec, Option.some.injEq, Prod.mk.injEq] at hexec
      rw [← hexec.1, ← hexec.2]
      by_cases hempty : m.timers = []
      · simp only [hempty, List.isEmpty_nil, if_true]
        exact Effect.noTimer hempty
      · rw [if_neg (by simpa using hempty)]
        exact Effect.someTimer
  | listExpiredCb now tmp =>
      obtain ⟨⟨expired, m₁⟩, hlist, heq⟩ := Option.map_eq_some_iff.mp hexec
      obtain ⟨rfl, rfl⟩ := Prod.mk.inj heq
      obtain ⟨due, later, rfl, hlisted⟩ := listExpiredCb_listed h hlist
      exact Effect.listed hlisted
  | getNextTimer now =>
      simp only [exec, Option.some.injEq, Prod.mk.injEq] at hexec
      rw [← hexec.1, ← hexec.2, getNextTimer_snd]
      exact Effect.slept

end TimerManager

end Lyslg
