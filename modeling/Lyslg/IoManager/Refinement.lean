import Lyslg.IoManager.Slots
import Mathlib.Algebra.Order.BigOperators.Group.List
/-!
# The sections are steps on registrations

Each section that returns on a manager that refines some registrations does one
of five things to them: nothing, more empty slots, one registration more, one
dropped, or some handed to their schedulers.
-/

namespace Lyslg

open Support Support.Machine Support.State

/-- A sum over a list in which one element is replaced. -/
theorem sum_map_set {α : Type} {f : α → Nat} {l : List α} {i : Nat} {a : α} (h : l[i]? = some a)
    (b : α) : ((l.set i b).map f).sum + f a = (l.map f).sum + f b := by
  induction l generalizing i with
  | nil => simp at h
  | cons c l ih =>
      cases i with
      | zero =>
          obtain rfl : c = a := by simpa using h
          simp only [List.set_cons_zero, List.map_cons, List.sum_cons]
          omega
      | succ i =>
          have := ih (i := i) (by simpa using h)
          simp only [List.set_cons_succ, List.map_cons, List.sum_cons]
          omega

/-- The registrations `scheduled` leave `s`. -/
structure Removal (s : Slots) (scheduled : List (IoEvent × Registration)) (s' : Slots) : Prop where
  nodup : (scheduled.map Prod.fst).Nodup
  registered : ∀ d ∈ scheduled, s.get d.1 = some d.2
  left : ∀ e, s'.get e = if e ∈ scheduled.map Prod.fst then none else s.get e
  count : s'.count + scheduled.length = s.count

namespace Removal

variable {s s₁ s' : Slots} {event : IoEvent} {registration : Registration}
  {scheduled scheduled' : List (IoEvent × Registration)}

theorem refl (s : Slots) : Removal s [] s := ⟨List.nodup_nil, by simp, by simp, rfl⟩

theorem single (h : s.get event = some registration) :
    Removal s [(event, registration)] (s.set event none) where
  nodup := by simp
  registered := by simpa using h
  left := by
    intro e
    rw [Slots.get_set (Slots.event_ne_none h)]
    simp
  count := Slots.count_set_none h

theorem trans (h : Removal s scheduled s₁) (h' : Removal s₁ scheduled' s') :
    Removal s (scheduled ++ scheduled') s' where
  nodup := by
    rw [List.map_append, List.nodup_append]
    refine ⟨h.nodup, h'.nodup, ?_⟩
    rintro e he _ he' rfl
    obtain ⟨d, hd, rfl⟩ := List.mem_map.mp he'
    have hleft := h.left d.1
    rw [if_pos he, h'.registered d hd] at hleft
    cases hleft
  registered := by
    intro d hd
    rcases List.mem_append.mp hd with hd | hd
    · exact h.registered d hd
    · have hleft := h.left d.1
      rw [h'.registered d hd] at hleft
      split_ifs at hleft
      exact hleft.symm
  left := by
    intro e
    rw [h'.left, h.left, List.map_append]
    simp only [List.mem_append]
    by_cases he : e ∈ scheduled.map Prod.fst
    · rw [if_pos he, ite_self, if_pos (Or.inl he)]
    · rw [if_neg he]
      simp only [he, false_or]
  count := by
    have hfirst := h.count
    have hsecond := h'.count
    rw [List.length_append]
    omega

end Removal

namespace IoManager

variable {m m' : IoManager} {slots : List Slots} {s : Slots} {ctx : Nat} {event : IoEvent}
  {registration : Registration} {test : Bool}

/-- The manager has these registrations, and counts them. -/
structure Refines (m : IoManager) (slots : List Slots) : Prop where
  contexts : m.contexts = slots.map Slots.toContext
  count : m.pendingEventCount = (slots.map Slots.count).sum
  room : slots.length < 2 ^ 63

namespace Refines

theorem context (h : m.Refines slots) (hs : slots[ctx]? = some s) :
    m.context ctx = .ok s.toContext := by
  unfold IoManager.context
  rw [h.contexts, List.getElem?_map, hs]
  rfl

theorem sum_count_lt (hroom : slots.length < 2 ^ 63) :
    (slots.map Slots.count).sum < 2 ^ 64 := by
  have hle : (slots.map Slots.count).sum ≤ (slots.map Slots.count).length • 2 := by
    apply List.sum_le_card_nsmul
    intro n hn
    obtain ⟨s, _, rfl⟩ := List.mem_map.mp hn
    cases hread : s.read <;> cases hwrite : s.write <;> simp [Slots.count, hread, hwrite]
  rw [List.length_map, Nat.nsmul_eq_mul] at hle
  omega

/-- One context changes, and the count with it. -/
theorem setFdContext {s' : Slots} {n : Nat} (h : m.Refines slots) (hs : slots[ctx]? = some s)
    (hcount : n + s.count = m.pendingEventCount + s'.count) :
    ({ m.setFdContext ctx s'.toContext with pendingEventCount := n } : IoManager).Refines
      (slots.set ctx s') where
  contexts := by
    change m.contexts.set ctx s'.toContext = _
    rw [h.contexts, List.map_set]
  count := by
    have hsum := sum_map_set (f := Slots.count) hs s'
    have := h.count
    change n = _
    omega
  room := by
    rw [List.length_set]
    exact h.room

/-- The count of one registration less does not wrap. -/
theorem remove (h : m.Refines slots) (hs : slots[ctx]? = some s)
    (hget : s.get event = some registration) :
    ({ m.setFdContext ctx (s.set event none).toContext with
      pendingEventCount := subSize m.pendingEventCount 1 } : IoManager).Refines
        (slots.set ctx (s.set event none)) := by
  have hcount := Slots.count_set_none hget
  have hsum := sum_map_set (f := Slots.count) hs (s.set event none)
  have hlt := sum_count_lt h.room
  apply h.setFdContext hs
  rw [h.count, subSize_of_le hlt (by omega)]
  omega

/-- The count of one registration more does not wrap. -/
theorem add (h : m.Refines slots) (hs : slots[ctx]? = some s) (hevent : event ≠ .none)
    (hget : s.get event = none) (registration : Registration) :
    ({ m.setFdContext ctx (s.set event (some registration)).toContext with
      pendingEventCount := addSize m.pendingEventCount 1 } : IoManager).Refines
        (slots.set ctx (s.set event (some registration))) := by
  have hcount := Slots.count_set_some hevent hget registration
  have hsum := sum_map_set (f := Slots.count) hs (s.set event (some registration))
  have hlt : ((slots.set ctx (s.set event (some registration))).map Slots.count).sum < 2 ^ 64 := by
    apply sum_count_lt
    rw [List.length_set]
    exact h.room
  apply h.setFdContext hs
  rw [h.count, addSize_of_lt (by omega)]
  omega

theorem trigger (h : m.Refines slots) (hs : slots[ctx]? = some s)
    (hget : s.get event = some registration) :
    ∃ m', m.trigger ctx event = .ok ([(event, registration)], m') ∧
      m'.Refines (slots.set ctx (s.set event none)) := by
  refine ⟨_, ?_, h.remove hs hget⟩
  unfold IoManager.trigger
  rw [h.context hs, ok_bind, Slots.triggerEvent_of_some hget, ok_bind]
  rfl

theorem trigger_of_none (h : m.Refines slots) (hs : slots[ctx]? = some s)
    (hget : s.get event = none) : m.trigger ctx event = .error .notRegistered := by
  unfold IoManager.trigger
  rw [h.context hs, ok_bind, Slots.triggerEvent_of_none hget, error_bind]

/-- A conditional `triggerEvent` that finds its event registered. -/
theorem triggerIf (h : m.Refines slots) (hs : slots[ctx]? = some s)
    (htest : test = true → s.get event ≠ none) :
    ∃ scheduled s' m', m.triggerIf ctx event test = .ok (scheduled, m') ∧ Removal s scheduled s' ∧
      m'.Refines (slots.set ctx s') ∧ (scheduled.map Prod.fst = if test then [event] else []) := by
  unfold IoManager.triggerIf
  cases test with
  | false =>
      obtain ⟨hctx, rfl⟩ := List.getElem?_eq_some_iff.mp hs
      refine ⟨[], _, m, rfl, Removal.refl _, ?_, rfl⟩
      rw [List.set_getElem_self]
      exact h
  | true =>
      obtain ⟨registration, hget⟩ := Option.ne_none_iff_exists'.mp (htest rfl)
      obtain ⟨m', heq, hm'⟩ := h.trigger hs hget
      exact ⟨_, _, m', heq, Removal.single hget, hm', rfl⟩

theorem triggerIf_of_none (h : m.Refines slots) (hs : slots[ctx]? = some s)
    (hget : s.get event = none) : m.triggerIf ctx event true = .error .notRegistered :=
  h.trigger_of_none hs hget

/-- A conditional `triggerEvent` that returns. -/
theorem triggerIf_ok {scheduled : List (IoEvent × Registration)} (h : m.Refines slots)
    (hs : slots[ctx]? = some s) (heq : m.triggerIf ctx event test = .ok (scheduled, m')) :
    ∃ s', Removal s scheduled s' ∧ m'.Refines (slots.set ctx s') := by
  have htest : test = true → s.get event ≠ none := by
    rintro rfl hget
    rw [h.triggerIf_of_none hs hget] at heq
    cases heq
  obtain ⟨scheduled', s', m₁, heq', hremoval, hm₁, _⟩ := h.triggerIf hs htest
  obtain ⟨rfl, rfl⟩ := Prod.mk.inj (Except.ok.inj (heq'.symm.trans heq))
  exact ⟨s', hremoval, hm₁⟩

/-- Two of them, one after the other. -/
theorem triggerIf_triggerIf {reads writes : List (IoEvent × Registration)} {m₁ : IoManager}
    {test' : Bool} {event' : IoEvent} (h : m.Refines slots) (hs : slots[ctx]? = some s)
    (hreads : m.triggerIf ctx event test = .ok (reads, m₁))
    (hwrites : m₁.triggerIf ctx event' test' = .ok (writes, m')) :
    ∃ s', Removal s (reads ++ writes) s' ∧ m'.Refines (slots.set ctx s') := by
  obtain ⟨s₁, hremoval₁, hm₁⟩ := h.triggerIf_ok hs hreads
  have hs₁ : (slots.set ctx s₁)[ctx]? = some s₁ :=
    List.getElem?_set_self (List.getElem?_eq_some_iff.mp hs).1
  obtain ⟨s', hremoval, hm'⟩ := hm₁.triggerIf_ok hs₁ hwrites
  rw [List.set_set] at hm'
  exact ⟨s', hremoval₁.trans hremoval, hm'⟩

theorem context_of_none (h : m.Refines slots) (hs : slots[ctx]? = none) :
    m.context ctx = .error .noContext := by
  unfold IoManager.context
  rw [h.contexts, List.getElem?_map, hs]
  rfl

end Refines

end IoManager

/-! ## Steps on registrations -/

/-- What a successful `addEvent` registers, and where. -/
def IoOp.registers (op : IoOp) (outcome : IoOutcome) : Option (Nat × IoEvent × Registration) :=
  match op with
  | .addEvent ctx event cb caller _ =>
      if outcome.result = 0 then
        caller.scheduler.map fun scheduler =>
          (ctx, event, scheduler, (cb.map Work.cb).getD (Work.fiber caller.fiber))
      else none
  | _ => none

/-- The context of an operation that triggers events. -/
def IoOp.triggers : IoOp → Option Nat
  | .cancelEvent ctx _ _ => some ctx
  | .cancelAll ctx _ => some ctx
  | .dispatch ctx _ _ => some ctx
  | _ => none

/-- What a section can do to the registrations. -/
inductive SlotsStep (slots : List Slots) : IoOp → IoOutcome → List Slots → Prop where
  | quiet {op : IoOp} {outcome : IoOutcome} : op.registers outcome = none →
      outcome.scheduled = [] → SlotsStep slots op outcome slots
  | grown {size : Nat} {outcome : IoOutcome} {fresh : List Slots} :
      (∀ s ∈ fresh, s.read = none ∧ s.write = none) → outcome.scheduled = [] →
      SlotsStep slots (.resize size) outcome (slots ++ fresh)
  | registered {op : IoOp} {outcome : IoOutcome} {ctx : Nat} {event : IoEvent}
      {registration : Registration} {s : Slots} :
      op.registers outcome = some (ctx, event, registration) → event ≠ .none →
      slots[ctx]? = some s → s.get event = none → outcome.scheduled = [] →
      SlotsStep slots op outcome (slots.set ctx (s.set event (some registration)))
  | dropped {ctx : Nat} {event : IoEvent} {outcome : IoOutcome} {s : Slots}
      {registration : Registration} :
      slots[ctx]? = some s → s.get event = some registration → outcome.scheduled = [] →
      SlotsStep slots (.delEvent ctx event true) outcome (slots.set ctx (s.set event none))
  | triggered {op : IoOp} {outcome : IoOutcome} {ctx : Nat} {s s' : Slots} :
      op.triggers = some ctx → slots[ctx]? = some s → Removal s outcome.scheduled s' →
      SlotsStep slots op outcome (slots.set ctx s')

namespace IoManager.Refines

variable {m m' : IoManager} {slots : List Slots} {s : Slots} {ctx size : Nat} {event : IoEvent}
  {registration : Registration} {cb : Option Callback} {caller : Caller} {success : Bool}
  {reported : BitVec 32} {outcome : IoOutcome} {op : IoOp}

theorem resize (h : m.Refines slots) (heq : m.contextResize size = .ok m') :
    ∃ fresh, (∀ s ∈ fresh, s.read = none ∧ s.write = none) ∧ m'.Refines (slots ++ fresh) := by
  let missing := List.range' (m.fdContexts.take size).length
    (size - (m.fdContexts.take size).length)
  let fresh : List Slots := missing.map fun i => { fd := i }
  have hfresh : fresh.map Slots.toContext = missing.map fun i => ({ fd := i } : FdContext) := by
    rw [List.map_map]
    apply List.map_congr_left
    intro i _
    exact Slots.toContext_empty i
  have hzero : (fresh.map Slots.count).sum = 0 := by
    apply List.sum_eq_zero
    simp [fresh, Slots.count]
  unfold contextResize at heq
  simp only at heq
  split_ifs at heq with hroom
  obtain rfl := Except.ok.inj heq
  refine ⟨fresh, by simp [fresh], ?_, ?_, ?_⟩
  · rw [List.map_append, hfresh, h.contexts]
  · rw [List.map_append, List.sum_append, hzero]
    exact h.count
  · rw [h.contexts] at hroom
    simpa [fresh, missing] using hroom

/-- A section that returns with the manager as it was and has nothing to tell. -/
theorem quiet {returned : IoOutcome} (h : m.Refines slots)
    (hregisters : op.registers returned = none) (hscheduled : returned.scheduled = [])
    (heq : (.ok (returned, m) : Except IoAbort (IoOutcome × IoManager)) = .ok (outcome, m')) :
    ∃ slots', SlotsStep slots op outcome slots' ∧ m'.Refines slots' := by
  obtain ⟨rfl, rfl⟩ := Prod.mk.inj (Except.ok.inj heq)
  exact ⟨slots, .quiet hregisters hscheduled, h⟩

theorem addEvent (h : m.Refines slots) (hs : slots[ctx]? = some s)
    (hcaller : caller.scheduler.isSome = true)
    (heq : m.addEvent ctx event cb caller success = .ok (outcome, m')) :
    ∃ slots', SlotsStep slots (.addEvent ctx event cb caller success) outcome slots' ∧
      m'.Refines slots' := by
  unfold IoManager.addEvent at heq
  rw [h.context hs, ok_bind] at heq
  cases hget : s.get event with
  | some registration =>
      rw [if_pos (Slots.events_and_mask_ne_zero hget)] at heq
      cases heq
  | none =>
      rw [if_neg (not_not.mpr ((s.events_and_mask_eq_zero event).mpr hget))] at heq
      cases success with
      | false =>
          exact h.quiet rfl rfl heq
      | true =>
          have hevent : event ≠ .none := by
            rintro rfl
            cases heq
          obtain ⟨scheduler, hscheduler⟩ := Option.isSome_iff_exists.mp hcaller
          simp only [Bool.not_true, Bool.false_eq_true, if_false,
            Slots.getContext_toContext hevent, hget, ok_bind, EventContext.of, hscheduler,
            Option.isSome_none, Bool.or_self] at heq
          cases cb with
          | some cb =>
              obtain ⟨rfl, rfl⟩ := Prod.mk.inj (Except.ok.inj heq)
              have hadd := h.add hs hevent hget (scheduler, .cb cb)
              rw [Slots.toContext_set_some hevent] at hadd
              refine ⟨_, .registered ?_ hevent hs hget rfl, hadd⟩
              simp [IoOp.registers, hscheduler]
          | none =>
              cases hexecuting : caller.executing with
              | false =>
                  rw [hexecuting] at heq
                  cases heq
              | true =>
                  simp only [hexecuting] at heq
                  obtain ⟨rfl, rfl⟩ := Prod.mk.inj (Except.ok.inj heq)
                  have hadd := h.add hs hevent hget (scheduler, .fiber caller.fiber)
                  rw [Slots.toContext_set_some hevent] at hadd
                  refine ⟨_, .registered ?_ hevent hs hget rfl, hadd⟩
                  simp [IoOp.registers, hscheduler]

/-- How `addEvent` can end the process: the context it finds is empty. -/
theorem addEvent_error {abort : IoAbort} (h : m.Refines slots)
    (heq : m.addEvent ctx event cb caller success = .error abort) :
    abort ∈ [IoAbort.noContext, .registered, .getContext, .fiberState] := by
  unfold IoManager.addEvent at heq
  cases hs : slots[ctx]? with
  | none =>
      rw [h.context_of_none hs, error_bind] at heq
      simp [← Except.error.inj heq]
  | some s =>
      rw [h.context hs, ok_bind] at heq
      cases hget : s.get event with
      | some registration =>
          rw [if_pos (Slots.events_and_mask_ne_zero hget)] at heq
          simp [← Except.error.inj heq]
      | none =>
          rw [if_neg (not_not.mpr ((s.events_and_mask_eq_zero event).mpr hget))] at heq
          cases success with
          | false => cases heq
          | true =>
              by_cases hevent : event = .none
              · subst hevent
                simp [← Except.error.inj heq]
              · simp only [Bool.not_true, Bool.false_eq_true, if_false,
                  Slots.getContext_toContext hevent, hget, ok_bind, EventContext.of,
                  Option.isSome_none, Bool.or_self] at heq
                cases cb with
                | some cb => cases heq
                | none =>
                    cases hexecuting : caller.executing with
                    | true =>
                        rw [hexecuting] at heq
                        cases heq
                    | false =>
                        rw [hexecuting] at heq
                        simp [← Except.error.inj heq]

theorem delEvent (h : m.Refines slots) (hs : slots[ctx]? = some s)
    (heq : m.delEvent ctx event success = .ok (outcome, m')) :
    ∃ slots', SlotsStep slots (.delEvent ctx event success) outcome slots' ∧
      m'.Refines slots' := by
  unfold IoManager.delEvent at heq
  rw [h.context hs, ok_bind] at heq
  cases hget : s.get event with
  | none =>
      rw [if_pos ((s.events_and_mask_eq_zero event).mpr hget)] at heq
      exact h.quiet rfl rfl heq
  | some registration =>
      rw [if_neg (Slots.events_and_mask_ne_zero hget)] at heq
      cases success with
      | false =>
          exact h.quiet rfl rfl heq
      | true =>
          have hevent := Slots.event_ne_none hget
          simp only [Bool.not_true, Bool.false_eq_true, if_false,
            Slots.getContext_toContext hevent, ok_bind] at heq
          obtain ⟨rfl, rfl⟩ := Prod.mk.inj (Except.ok.inj heq)
          refine ⟨_, .dropped hs hget rfl, ?_⟩
          have hremove := h.remove hs hget
          rw [Slots.toContext_set_none hget] at hremove
          exact hremove

theorem cancelEvent (h : m.Refines slots) (hs : slots[ctx]? = some s)
    (heq : m.cancelEvent ctx event success = .ok (outcome, m')) :
    ∃ slots', SlotsStep slots (.cancelEvent ctx event success) outcome slots' ∧
      m'.Refines slots' := by
  unfold IoManager.cancelEvent at heq
  rw [h.context hs, ok_bind] at heq
  cases hget : s.get event with
  | none =>
      rw [if_pos ((s.events_and_mask_eq_zero event).mpr hget)] at heq
      exact h.quiet rfl rfl heq
  | some registration =>
      rw [if_neg (Slots.events_and_mask_ne_zero hget)] at heq
      cases success with
      | false =>
          exact h.quiet rfl rfl heq
      | true =>
          obtain ⟨m₁, htrigger, hm₁⟩ := h.trigger hs hget
          simp only [Bool.not_true, Bool.false_eq_true, if_false, htrigger, ok_bind] at heq
          obtain ⟨rfl, rfl⟩ := Prod.mk.inj (Except.ok.inj heq)
          exact ⟨_, .triggered rfl hs (Removal.single hget), hm₁⟩

theorem cancelAll (h : m.Refines slots) (hs : slots[ctx]? = some s)
    (heq : m.cancelAll ctx success = .ok (outcome, m')) :
    ∃ slots', SlotsStep slots (.cancelAll ctx success) outcome slots' ∧ m'.Refines slots' := by
  unfold IoManager.cancelAll at heq
  rw [h.context hs, ok_bind] at heq
  by_cases hnone : s.toContext.events = 0
  · rw [if_pos hnone] at heq
    exact h.quiet rfl rfl heq
  · rw [if_neg hnone] at heq
    cases success with
    | false =>
        exact h.quiet rfl rfl heq
    | true =>
        simp only [Bool.not_true, Bool.false_eq_true, if_false] at heq
        obtain ⟨⟨reads, m₁⟩, hreads, heq⟩ := ok_of_bind heq
        obtain ⟨fdCtx, _, heq⟩ := ok_of_bind heq
        obtain ⟨⟨writes, m₂⟩, hwrites, heq⟩ := ok_of_bind heq
        obtain ⟨fdCtx', _, heq⟩ := ok_of_bind heq
        split_ifs at heq
        obtain ⟨rfl, rfl⟩ := Prod.mk.inj (Except.ok.inj heq)
        obtain ⟨s', hremoval, hm'⟩ := h.triggerIf_triggerIf hs hreads hwrites
        exact ⟨_, .triggered rfl hs hremoval, hm'⟩

theorem dispatch (h : m.Refines slots) (hs : slots[ctx]? = some s)
    (heq : m.dispatch ctx reported success = .ok (outcome, m')) :
    ∃ slots', SlotsStep slots (.dispatch ctx reported success) outcome slots' ∧
      m'.Refines slots' := by
  unfold IoManager.dispatch at heq
  rw [h.context hs, ok_bind] at heq
  simp only at heq
  by_cases hnone : s.toContext.events &&& realEvents reported = IoEvent.none.mask
  · rw [if_pos hnone] at heq
    exact h.quiet rfl rfl heq
  · rw [if_neg hnone] at heq
    cases success with
    | false =>
        exact h.quiet rfl rfl heq
    | true =>
        simp only [Bool.not_true, Bool.false_eq_true, if_false] at heq
        obtain ⟨⟨reads, m₁⟩, hreads, heq⟩ := ok_of_bind heq
        obtain ⟨⟨writes, m₂⟩, hwrites, heq⟩ := ok_of_bind heq
        obtain ⟨rfl, rfl⟩ := Prod.mk.inj (Except.ok.inj heq)
        obtain ⟨s', hremoval, hm'⟩ := h.triggerIf_triggerIf hs hreads hwrites
        exact ⟨_, .triggered rfl hs hremoval, hm'⟩

/-- Every section that returns is a step on the registrations. -/
theorem step (h : m.Refines slots) (hstep : m.Step (op, outcome) m') :
    ∃ slots', SlotsStep slots op outcome slots' ∧ m'.Refines slots' := by
  obtain ⟨hallowed, heq⟩ := hstep
  change m.exec op = .ok (outcome, m') at heq
  have hctx : ∀ {ctx : Nat} {f : FdContext → Except IoAbort (IoOutcome × IoManager)},
      (m.context ctx >>= f) = .ok (outcome, m') → ∃ s, slots[ctx]? = some s := by
    intro ctx f hbind
    obtain ⟨fdCtx, hfd, _⟩ := ok_of_bind hbind
    cases hs : slots[ctx]? with
    | some s => exact ⟨s, rfl⟩
    | none =>
        rw [h.context_of_none hs] at hfd
        cases hfd
  cases op with
  | resize size =>
      cases hresize : m.contextResize size with
      | error abort =>
          simp only [exec, hresize] at heq
          cases heq
      | ok m₁ =>
          simp only [exec, hresize] at heq
          obtain ⟨rfl, rfl⟩ := Prod.mk.inj (Except.ok.inj heq)
          obtain ⟨fresh, hfresh, hm₁⟩ := h.resize hresize
          exact ⟨_, .grown hfresh rfl, hm₁⟩
  | addEvent ctx event cb caller success =>
      obtain ⟨s, hs⟩ := hctx heq
      exact h.addEvent hs hallowed heq
  | delEvent ctx event success =>
      obtain ⟨s, hs⟩ := hctx heq
      exact h.delEvent hs heq
  | cancelEvent ctx event success =>
      obtain ⟨s, hs⟩ := hctx heq
      exact h.cancelEvent hs heq
  | cancelAll ctx success =>
      obtain ⟨s, hs⟩ := hctx heq
      exact h.cancelAll hs heq
  | dispatch ctx reported success =>
      obtain ⟨s, hs⟩ := hctx heq
      exact h.dispatch hs heq

end IoManager.Refines

end Lyslg
