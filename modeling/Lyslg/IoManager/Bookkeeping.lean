import Lyslg.IoManager.Delivery
/-!
# Bookkeeping of events over whole runs

In every run of the sections, in any order and with any results of `epoll_ctl`, the
count of pending events, the bits, the contexts and the deliveries agree.
-/

namespace Lyslg

open Support Support.Machine Support.State

/-- The number of bits set in `events`. -/
def FdContext.bitsSet (fdCtx : FdContext) : Nat := (List.range 32).countP fdCtx.events.getLsbD

/-- Whether `epoll_ctl` succeeds, for an operation that calls it. -/
def IoOp.success : IoOp → Option Bool
  | .resize _ => none
  | .addEvent _ _ _ _ success => some success
  | .delEvent _ _ success => some success
  | .cancelEvent _ _ success => some success
  | .cancelAll _ success => some success
  | .dispatch _ _ success => some success

theorem eventBits_countP : ∀ read write,
    (List.range 32).countP (eventBits read write).getLsbD = read.toNat + write.toNat := by decide

theorem Slots.bitsSet_toContext (s : Slots) : s.toContext.bitsSet = s.count := by
  change (List.range 32).countP (eventBits _ _).getLsbD = _
  rw [eventBits_countP]
  cases hread : s.read <;> cases hwrite : s.write <;> simp [Slots.count, hread, hwrite]

namespace IoManager

variable {m m' : IoManager} {slots : List Slots} {op : IoOp} {outcome : IoOutcome}

theorem Refines.count_eq (h : m.Refines slots) :
    m.pendingEventCount = (m.contexts.map FdContext.bitsSet).sum := by
  rw [h.count, h.contexts, List.map_map]
  congr 1
  apply List.map_congr_left
  intro s _
  exact s.bitsSet_toContext.symm

/-- The bit and the context of an event agree. -/
theorem Refines.context_iff (h : m.Refines slots) {fdCtx : FdContext} (hfd : fdCtx ∈ m.contexts)
    {event : IoEvent} {eventCtx : EventContext} (hget : fdCtx.getContext event = .ok eventCtx) :
    (fdCtx.events &&& event.mask ≠ 0 ↔
        eventCtx.scheduler.isSome = true ∧ eventCtx.cb.isSome ≠ eventCtx.fiber.isSome) ∧
      (fdCtx.events &&& event.mask = 0 → eventCtx = {}) := by
  rw [h.contexts] at hfd
  obtain ⟨s, _, rfl⟩ := List.mem_map.mp hfd
  have hevent : event ≠ .none := by
    rintro rfl
    cases hget
  have hof := Slots.getContext_toContext (s := s) hevent s.toContext.events
  obtain rfl := Except.ok.inj (hget.symm.trans hof)
  rw [ne_eq, s.events_and_mask_eq_zero]
  cases hslot : s.get event with
  | none => simp [EventContext.of]
  | some registration =>
      obtain ⟨scheduler, work⟩ := registration
      cases work <;> simp [EventContext.of]

theorem eq_of_ite {p : Prop} [Decidable p] {first second : IoOutcome}
    (h : (if p then .ok (first, m) else .ok (second, m) : Except IoAbort (IoOutcome × IoManager)) =
      .ok (outcome, m')) : m' = m := by
  split_ifs at h
  · exact (Prod.mk.inj (Except.ok.inj h)).2.symm
  · exact (Prod.mk.inj (Except.ok.inj h)).2.symm

/-- A section whose `epoll_ctl` fails changes nothing. -/
theorem exec_failed (hfails : op.success = some false)
    (hexec : m.exec op = .ok (outcome, m')) : m' = m := by
  cases op with
  | resize size => cases hfails
  | addEvent ctx event cb caller success =>
      obtain rfl : success = false := Option.some.inj hfails
      obtain ⟨fdCtx, _, hrest⟩ := ok_of_bind hexec
      by_cases hset : fdCtx.events &&& event.mask ≠ 0
      · rw [if_pos hset] at hrest
        cases hrest
      · rw [if_neg hset] at hrest
        exact (Prod.mk.inj (Except.ok.inj hrest)).2.symm
  | delEvent ctx event success =>
      obtain rfl : success = false := Option.some.inj hfails
      obtain ⟨fdCtx, _, hrest⟩ := ok_of_bind hexec
      exact eq_of_ite hrest
  | cancelEvent ctx event success =>
      obtain rfl : success = false := Option.some.inj hfails
      obtain ⟨fdCtx, _, hrest⟩ := ok_of_bind hexec
      exact eq_of_ite hrest
  | cancelAll ctx success =>
      obtain rfl : success = false := Option.some.inj hfails
      obtain ⟨fdCtx, _, hrest⟩ := ok_of_bind hexec
      exact eq_of_ite hrest
  | dispatch ctx reported success =>
      obtain rfl : success = false := Option.some.inj hfails
      obtain ⟨fdCtx, _, hrest⟩ := ok_of_bind hexec
      exact eq_of_ite hrest

/-! ## Calls are runs -/

section Calls

variable {fd : Nat} {event : IoEvent} {cb : Option Callback} {caller : Caller} {success : Bool}

/-- The write-locked part of `addEvent` is a resize that leaves a context for the descriptor. -/
theorem grow_ok {ctx : Nat} (h : m.grow fd = .ok (ctx, m')) :
    m.contextResize (fd * 3 / 2) = .ok m' ∧ m'.fdContexts[fd]? = some ctx := by
  obtain ⟨m₁, hresize, h⟩ := ok_of_bind h
  cases hctx : m₁.fdContexts[fd]? with
  | none =>
      simp only [hctx] at h
      cases h
  | some ctx₁ =>
      simp only [hctx] at h
      obtain ⟨rfl, rfl⟩ := Prod.mk.inj (Except.ok.inj h)
      exact ⟨hresize, hctx⟩

theorem callAddEvent_run (hcaller : caller.scheduler.isSome = true)
    (h : m.callAddEvent fd event cb caller success = .ok (outcome, m')) :
    ∃ trace, Run Step m trace m' := by
  unfold callAddEvent at h
  generalize m.lookup fd = found at h
  cases found with
  | some ctx =>
      exact ⟨[(.addEvent ctx event cb caller success, outcome)], .cons ⟨hcaller, h⟩ (.nil m')⟩
  | none =>
      obtain ⟨⟨ctx, m₁⟩, hgrow, h⟩ := ok_of_bind h
      have hstep : m.Step (.resize (fd * 3 / 2), { result := 0 }) m₁ := by
        refine ⟨trivial, ?_⟩
        simp only [exec, (grow_ok hgrow).1]
        rfl
      exact ⟨[_, (.addEvent ctx event cb caller success, outcome)],
        .cons hstep (.cons ⟨hcaller, h⟩ (.nil m'))⟩

/-- A call that works on an existing context is one of its locked sections. -/
theorem callOn_run {locked : Nat → Except IoAbort (IoOutcome × IoManager)} (op : Nat → IoOp)
    (hop : ∀ ctx, (op ctx).Allowed ∧ m.exec (op ctx) = locked ctx)
    (h : m.callOn fd locked = .ok (outcome, m')) : ∃ trace, Run Step m trace m' := by
  unfold callOn at h
  generalize m.lookup fd = found at h
  cases found with
  | some ctx =>
      exact ⟨[(op ctx, outcome)], .cons ⟨(hop ctx).1, (hop ctx).2.trans h⟩ (.nil m')⟩
  | none =>
      obtain ⟨_, rfl⟩ := Prod.mk.inj (Except.ok.inj h)
      exact ⟨[], .nil m⟩

theorem callDelEvent_run (h : m.callDelEvent fd event success = .ok (outcome, m')) :
    ∃ trace, Run Step m trace m' :=
  callOn_run (fun ctx => .delEvent ctx event success) (fun _ => ⟨trivial, rfl⟩) h

theorem callCancelEvent_run (h : m.callCancelEvent fd event success = .ok (outcome, m')) :
    ∃ trace, Run Step m trace m' :=
  callOn_run (fun ctx => .cancelEvent ctx event success) (fun _ => ⟨trivial, rfl⟩) h

theorem callCancelAll_run (h : m.callCancelAll fd success = .ok (outcome, m')) :
    ∃ trace, Run Step m trace m' :=
  callOn_run (fun ctx => .cancelAll ctx success) (fun _ => ⟨trivial, rfl⟩) h

end Calls

end IoManager

namespace Ledger

variable {l : Ledger} {trace : List (IoOp × IoOutcome)}

/-- Events are counted, contexts agree with their bits, every registration is delivered
exactly once if it is triggered and never otherwise, and failures change nothing. -/
theorem event_bookkeeping (hrun : Run Step new trace l) :
    l.manager.pendingEventCount = (l.manager.contexts.map FdContext.bitsSet).sum ∧
      (∀ fdCtx ∈ l.manager.contexts, ∀ event eventCtx, fdCtx.getContext event = .ok eventCtx →
        (fdCtx.events &&& event.mask ≠ 0 ↔
            eventCtx.scheduler.isSome = true ∧ eventCtx.cb.isSome ≠ eventCtx.fiber.isSome) ∧
          (fdCtx.events &&& event.mask = 0 → eventCtx = {})) ∧
      (∀ ctx event cb caller success,
        l.manager.addEvent ctx event cb caller success ≠ .error .contextInUse) ∧
      (∀ k < l.issued, l.deliveries.filter (fun d => d.1 = k) =
        if l.fate k = .triggered then [(k, l.work k)] else []) ∧
      ∀ op outcome m', op.success = some false → l.manager.exec op = .ok (outcome, m') →
        m' = l.manager := by
  obtain ⟨slots, h⟩ := run_invariant hrun
  refine ⟨h.refines.count_eq, ?_, ?_, ?_, ?_⟩
  · intro fdCtx hfd event eventCtx hget
    exact h.refines.context_iff hfd hget
  · intro ctx event cb caller success hinUse
    have hmem := h.refines.addEvent_error hinUse
    simp at hmem
  · intro k hk
    rw [h.delivered k]
    simp [hk]
  · intro op outcome m' hfails hexec
    exact IoManager.exec_failed hfails hexec

/-- The ledger after a step with a given outcome. -/
def step (l : Ledger) (label : IoOp × IoOutcome) : Option Ledger :=
  (l.manager.step label).map (l.record label)

theorem record_manager (l : Ledger) (label : IoOp × IoOutcome) (m' : IoManager) :
    (l.record label m').manager = m' := by
  unfold record
  cases label.1.registers label.2 <;> rfl

theorem step_some {l' : Ledger} {label : IoOp × IoOutcome} (h : l.step label = some l') :
    l.Step label l' := by
  obtain ⟨m', hm', rfl⟩ := Option.map_eq_some_iff.mp h
  rw [Step, record_manager]
  exact ⟨IoManager.step_some hm', rfl⟩

/-- A callback and a fiber wait for one descriptor; the callback runs, the fiber's event
is deleted. -/
theorem event_bookkeeping_two_events :
    ∃ l, Run Step new
        [(.resize 2, { result := 0 }),
          (.addEvent 1 .read (some 7) ⟨some 3, 5, true⟩ true,
            { result := 0, ctl := some ⟨.add, 1, 0x80000001⟩ }),
          (.addEvent 1 .write none ⟨some 3, 5, true⟩ true,
            { result := 0, ctl := some ⟨.mod, 1, 0x80000005⟩ }),
          (.dispatch 1 epollIn true,
            { result := 0, ctl := some ⟨.mod, 1, 0x80000004⟩, scheduled := [(.read, 3, .cb 7)] }),
          (.delEvent 1 .write true, { result := 1, ctl := some ⟨.del, 1, 0x80000000⟩ })] l ∧
      l.deliveries.filter (fun d => d.1 = 0) = if l.fate 0 = .triggered then [(0, l.work 0)] else []
      := by
  have hsome : ([(IoOp.resize 2, { result := 0 }),
      (.addEvent 1 .read (some 7) ⟨some 3, 5, true⟩ true,
        { result := 0, ctl := some ⟨.add, 1, 0x80000001⟩ }),
      (.addEvent 1 .write none ⟨some 3, 5, true⟩ true,
        { result := 0, ctl := some ⟨.mod, 1, 0x80000005⟩ }),
      (.dispatch 1 epollIn true,
        { result := 0, ctl := some ⟨.mod, 1, 0x80000004⟩, scheduled := [(.read, 3, .cb 7)] }),
      (.delEvent 1 .write true, { result := 1, ctl := some ⟨.del, 1, 0x80000000⟩ })].foldlM step
        new).any (fun l => 0 < l.issued) = true := by
    decide
  obtain ⟨l, hl, hissued⟩ := (Option.any_eq_true _ _).mp hsome
  have hrun := Run.of_foldlM (fun _ _ _ => step_some) hl
  exact ⟨l, hrun, (event_bookkeeping hrun).2.2.2.1 0 (of_decide_eq_true hissued)⟩

end Ledger

end Lyslg
