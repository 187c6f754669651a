import Lyslg.IoManager.Bookkeeping
/-!
# The dispatch of ready events

`idle` widens an error or a hang-up to both events, and then triggers every event
that is reported, also one that is not registered.  So a dispatch does what it is
for exactly when none of the reported events is registered, or when all of them
are and `epoll_ctl` succeeds; in between, `triggerEvent` ends the process.
-/

namespace Lyslg

open Support Support.Machine Support.State

/-- The event is reported: ready, or there is an error or a hang-up. -/
def IoEvent.reportedBy (event : IoEvent) (reported : BitVec 32) : Bool :=
  match event with
  | .read => reported &&& (epollIn ||| (epollErr ||| epollHup)) ≠ 0
  | .write => reported &&& (epollOut ||| (epollErr ||| epollHup)) ≠ 0
  | .none => false

/-- The event is registered. -/
def FdContext.has (fdCtx : FdContext) (event : IoEvent) : Bool := fdCtx.events &&& event.mask ≠ 0

/-- A dispatch triggers the registered events that are reported, counts them, and leaves
the others registered. -/
def IoManager.DispatchExact (m : IoManager) (ctx : Nat) (fdCtx : FdContext) (reported : BitVec 32)
    (success : Bool) : Prop :=
  ∃ outcome m' fdCtx', m.dispatch ctx reported success = .ok (outcome, m') ∧
    m'.contexts[ctx]? = some fdCtx' ∧
    outcome.scheduled.map Prod.fst = [IoEvent.read, .write].filter
      (fun event => fdCtx.has event && event.reportedBy reported) ∧
    m'.pendingEventCount + outcome.scheduled.length = m.pendingEventCount ∧
    ∀ event, fdCtx'.has event = (fdCtx.has event && !event.reportedBy reported)

/-- None of the reported events is registered. -/
def FdContext.Ignores (fdCtx : FdContext) (reported : BitVec 32) : Prop :=
  ∀ event : IoEvent, event.reportedBy reported = true → fdCtx.has event = false

/-- All the reported events are registered. -/
def FdContext.Covers (fdCtx : FdContext) (reported : BitVec 32) : Prop :=
  ∀ event : IoEvent, event.reportedBy reported = true → fdCtx.has event = true

/-- A step that is not a dispatch, or one whose reported events are all registered or all not. -/
def IoOp.Covered (m : IoManager) : IoOp → Prop
  | .dispatch ctx reported success =>
      success = true → ∀ fdCtx, m.contexts[ctx]? = some fdCtx →
        fdCtx.Ignores reported ∨ fdCtx.Covers reported
  | _ => True

/-! ## Masks -/

theorem mask_or_eq_zero (y z : BitVec 32) : y ||| z = 0 ↔ y = 0 ∧ z = 0 := BitVec.or_eq_zero_iff

theorem mask_or_iff (x y z : BitVec 32) : x &&& (y ||| z) ≠ 0 ↔ x &&& y ≠ 0 ∨ x &&& z ≠ 0 := by
  rw [BitVec.and_or_distrib_left, Ne, mask_or_eq_zero, not_and_or]

/-- An error or a hang-up counts for the bits that `widen` adds. -/
theorem widen_and (reported bit : BitVec 32) (hbit : (epollIn ||| epollOut) &&& bit ≠ 0) :
    IoManager.widen reported &&& bit ≠ 0 ↔
      reported &&& (bit ||| (epollErr ||| epollHup)) ≠ 0 := by
  unfold IoManager.widen
  rw [mask_or_iff reported bit]
  by_cases herr : reported &&& (epollErr ||| epollHup) ≠ 0
  · rw [if_pos herr]
    refine iff_of_true ?_ (Or.inr herr)
    rw [BitVec.and_or_distrib_right, Ne, mask_or_eq_zero]
    exact fun hboth => hbit hboth.2
  · rw [if_neg herr]
    simp only [herr, or_false]

theorem realEvents_eq (reported : BitVec 32) :
    IoManager.realEvents reported =
      eventBits (IoEvent.read.reportedBy reported) (IoEvent.write.reportedBy reported) := by
  unfold IoManager.realEvents eventBits IoEvent.reportedBy
  simp only [widen_and reported epollIn (by decide), widen_and reported epollOut (by decide),
    decide_eq_true_eq]
  rfl

theorem eventBits_and_eventBits : ∀ read write read' write',
    eventBits read write &&& eventBits read' write' = 0 ↔
      (read && read') = false ∧ (write && write') = false := by decide

namespace Slots

variable {s : Slots} {event : IoEvent} {reported : BitVec 32}

theorem has_toContext (s : Slots) (event : IoEvent) :
    s.toContext.has event = (s.get event).isSome := by
  unfold FdContext.has
  cases hget : s.get event with
  | none => simpa using (s.events_and_mask_eq_zero event).mpr hget
  | some registration => simpa using events_and_mask_ne_zero hget

theorem realEvents_and_mask (reported : BitVec 32) (event : IoEvent) :
    decide (IoManager.realEvents reported &&& event.mask ≠ 0) = event.reportedBy reported := by
  rw [realEvents_eq, Bool.eq_iff_iff, decide_eq_true_eq]
  cases event with
  | none => simp [IoEvent.mask, IoEvent.reportedBy]
  | read => rw [Ne, eventBits_and_read, Bool.not_eq_false]
  | write => rw [Ne, eventBits_and_write, Bool.not_eq_false]

/-- `idle` continues if no registered event is reported. -/
theorem events_and_realEvents (s : Slots) (reported : BitVec 32) :
    s.toContext.events &&& IoManager.realEvents reported = IoEvent.none.mask ↔
      ∀ event, (s.toContext.has event && event.reportedBy reported) = false := by
  rw [realEvents_eq]
  change eventBits _ _ &&& eventBits _ _ = 0 ↔ _
  rw [eventBits_and_eventBits]
  simp only [has_toContext]
  constructor
  · rintro ⟨hread, hwrite⟩ event
    cases event with
    | none => rfl
    | read => exact hread
    | write => exact hwrite
  · intro h
    exact ⟨h .read, h .write⟩

end Slots

/-! ## One dispatch -/

namespace IoManager.Refines

variable {m : IoManager} {slots : List Slots} {s : Slots} {ctx : Nat} {reported : BitVec 32}

theorem dispatch_none (h : m.Refines slots) (hs : slots[ctx]? = some s) (success : Bool)
    (hnone : ∀ event, (s.toContext.has event && event.reportedBy reported) = false) :
    m.dispatch ctx reported success = .ok ({ result := 0 }, m) := by
  unfold IoManager.dispatch
  rw [h.context hs, ok_bind]
  simp only [(s.events_and_realEvents reported).mpr hnone, if_true]

theorem dispatch_failed (h : m.Refines slots) (hs : slots[ctx]? = some s) (reported : BitVec 32) :
    ∃ outcome, m.dispatch ctx reported false = .ok (outcome, m) ∧ outcome.scheduled = [] := by
  unfold IoManager.dispatch
  rw [h.context hs, ok_bind]
  by_cases hnone : s.toContext.events &&& realEvents reported = IoEvent.none.mask
  · simp [hnone]
  · simp [hnone]

/-- What is left of a dispatch for a registered event when `epoll_ctl` has succeeded. -/
theorem dispatch_some {event : IoEvent} (h : m.Refines slots) (hs : slots[ctx]? = some s)
    (hhas : s.toContext.has event = true) (hreported : event.reportedBy reported = true) :
    m.dispatch ctx reported true = (do
      let (reads, m) ← m.triggerIf ctx .read (IoEvent.read.reportedBy reported)
      let (writes, m) ← m.triggerIf ctx .write (IoEvent.write.reportedBy reported)
      .ok ({ result := 0
             ctl := leave s.toContext (s.toContext.events &&& ~~~realEvents reported)
             scheduled := reads ++ writes }, m)) := by
  have hsome : ¬ s.toContext.events &&& realEvents reported = IoEvent.none.mask := by
    rw [Slots.events_and_realEvents]
    intro hnone
    have := hnone event
    rw [hhas, hreported] at this
    cases this
  unfold IoManager.dispatch
  rw [h.context hs, ok_bind]
  simp only [hsome, if_false, Bool.not_true, Bool.false_eq_true, Slots.realEvents_and_mask]

/-- All the reported events are registered. -/
theorem dispatch_all {event : IoEvent} (h : m.Refines slots) (hs : slots[ctx]? = some s)
    (hhas : s.toContext.has event = true) (hreported : event.reportedBy reported = true)
    (hall : ∀ event : IoEvent, event.reportedBy reported = true → s.get event ≠ none) :
    ∃ outcome m' s', m.dispatch ctx reported true = .ok (outcome, m') ∧
      Removal s outcome.scheduled s' ∧ m'.Refines (slots.set ctx s') ∧
      outcome.scheduled.map Prod.fst =
        [IoEvent.read, .write].filter fun event => event.reportedBy reported := by
  obtain ⟨reads, s₁, m₁, hreads, hremoval₁, hm₁, hevents₁⟩ := h.triggerIf hs (hall .read)
  have hs₁ : (slots.set ctx s₁)[ctx]? = some s₁ :=
    List.getElem?_set_self (List.getElem?_eq_some_iff.mp hs).1
  have hwrite : IoEvent.write.reportedBy reported = true → s₁.get .write ≠ none := by
    intro hwrite
    rw [hremoval₁.left, hevents₁, if_neg]
    · exact hall .write hwrite
    · split_ifs <;> simp
  obtain ⟨writes, s₂, m₂, hwrites, hremoval₂, hm₂, hevents₂⟩ := hm₁.triggerIf hs₁ hwrite
  rw [List.set_set] at hm₂
  refine ⟨{ result := 0
            ctl := leave s.toContext (s.toContext.events &&& ~~~realEvents reported)
            scheduled := reads ++ writes }, m₂, s₂, ?_, hremoval₁.trans hremoval₂, hm₂, ?_⟩
  · rw [h.dispatch_some hs hhas hreported, hreads, ok_bind]
    simp only [hwrites, ok_bind]
  · rw [List.map_append, hevents₁, hevents₂]
    cases hread : IoEvent.read.reportedBy reported <;>
      cases hwrite : IoEvent.write.reportedBy reported <;> simp [List.filter, hread, hwrite]

/-- One of the reported events is registered and another is not. -/
theorem dispatch_abort {event event' : IoEvent} (h : m.Refines slots) (hs : slots[ctx]? = some s)
    (hhas : s.toContext.has event = true) (hreported : event.reportedBy reported = true)
    (hfree : s.get event' = none) (hreported' : event'.reportedBy reported = true) :
    m.dispatch ctx reported true = .error .notRegistered := by
  rw [h.dispatch_some hs hhas hreported]
  by_cases hread : IoEvent.read.reportedBy reported = true ∧ s.get .read = none
  · rw [hread.1, h.triggerIf_of_none hs hread.2, error_bind]
  · rw [not_and] at hread
    have hwrite : event' = .write := by
      cases event' with
      | none => cases hreported'
      | read => exact absurd hfree (hread hreported')
      | write => rfl
    subst hwrite
    obtain ⟨reads, s₁, m₁, hreads, hremoval, hm₁, _⟩ := h.triggerIf hs hread
    have hs₁ : (slots.set ctx s₁)[ctx]? = some s₁ :=
      List.getElem?_set_self (List.getElem?_eq_some_iff.mp hs).1
    have hfree₁ : s₁.get .write = none := by
      rw [hremoval.left, hfree, ite_self]
    rw [hreads, ok_bind]
    simp only [hreported', hm₁.triggerIf_of_none hs₁ hfree₁, error_bind]

end IoManager.Refines

namespace IoManager

variable {m : IoManager} {slots : List Slots} {s : Slots} {ctx : Nat} {reported : BitVec 32}
  {success : Bool} {trace : List (IoOp × IoOutcome)}

theorem Refines.getElem? (h : m.Refines slots) (hs : slots[ctx]? = some s) :
    m.contexts[ctx]? = some s.toContext := by
  rw [h.contexts, List.getElem?_map, hs]
  rfl

/-- A dispatch for which no reported event is registered. -/
theorem Refines.dispatchExact_of_ignores (h : m.Refines slots) (hs : slots[ctx]? = some s)
    (hignores : s.toContext.Ignores reported) :
    m.DispatchExact ctx s.toContext reported success := by
  have hnone : ∀ event, (s.toContext.has event && event.reportedBy reported) = false := by
    intro event
    cases hreported : event.reportedBy reported with
    | false => exact Bool.and_false _
    | true => rw [hignores event hreported, Bool.false_and]
  refine ⟨_, m, s.toContext, h.dispatch_none hs success hnone, h.getElem? hs, ?_, rfl, ?_⟩
  · simp [hnone]
  · intro event
    have := hnone event
    cases hhas : s.toContext.has event with
    | false => rfl
    | true =>
        rw [hhas, Bool.true_and] at this
        rw [this]
        rfl

/-- A dispatch for which all the reported events are registered, and `epoll_ctl` succeeds. -/
theorem Refines.dispatchExact_of_covers (h : m.Refines slots) (hs : slots[ctx]? = some s)
    (hcovers : s.toContext.Covers reported) : m.DispatchExact ctx s.toContext reported true := by
  by_cases hreports : ∃ event : IoEvent, event.reportedBy reported = true
  · obtain ⟨event, hreported⟩ := hreports
    have hget : ∀ event : IoEvent, event.reportedBy reported = true → s.get event ≠ none := by
      intro event hreported
      have := hcovers event hreported
      rw [Slots.has_toContext] at this
      exact Option.isSome_iff_ne_none.mp this
    obtain ⟨outcome, m', s', heq, hremoval, hm', hevents⟩ :=
      h.dispatch_all hs (hcovers event hreported) hreported hget
    have hs' : (slots.set ctx s')[ctx]? = some s' :=
      List.getElem?_set_self (List.getElem?_eq_some_iff.mp hs).1
    refine ⟨outcome, m', s'.toContext, heq, hm'.getElem? hs', ?_, ?_, ?_⟩
    · rw [hevents]
      apply List.filter_congr
      intro event _
      cases hreported : event.reportedBy reported with
      | false => simp
      | true => simp [hcovers event hreported]
    · have hsum := sum_map_set (f := Slots.count) hs s'
      have hcount := hremoval.count
      rw [h.count, hm'.count]
      omega
    · intro event
      rw [Slots.has_toContext, Slots.has_toContext, hremoval.left, hevents]
      cases hreported : event.reportedBy reported with
      | false => simp [hreported]
      | true =>
          have hmem : event ∈ [IoEvent.read, .write].filter fun event =>
              event.reportedBy reported := by
            cases event with
            | none => cases hreported
            | read => simp [hreported]
            | write => simp [hreported]
          simp [hmem]
  · exact h.dispatchExact_of_ignores hs fun event hreported => absurd ⟨event, hreported⟩ hreports

/-- If `epoll_ctl` fails nothing is triggered. -/
theorem Refines.ignores_of_failed (h : m.Refines slots) (hs : slots[ctx]? = some s)
    (hexact : m.DispatchExact ctx s.toContext reported false) : s.toContext.Ignores reported := by
  obtain ⟨outcome, m', fdCtx', heq, _, hscheduled, _⟩ := hexact
  obtain ⟨outcome', heq', hnone⟩ := h.dispatch_failed hs reported
  rw [heq'] at heq
  obtain ⟨rfl, -⟩ := Prod.mk.inj (Except.ok.inj heq)
  rw [hnone, List.map_nil, eq_comm, List.filter_eq_nil_iff] at hscheduled
  intro event hreported
  have hmem : event ∈ [IoEvent.read, .write] := by
    cases event with
    | none => cases hreported
    | read => simp
    | write => simp
  simpa [hreported] using hscheduled event hmem

theorem Refines.dispatchExact_iff (h : m.Refines slots) (hs : slots[ctx]? = some s) :
    m.DispatchExact ctx s.toContext reported success ↔
      s.toContext.Ignores reported ∨ success = true ∧ s.toContext.Covers reported := by
  constructor
  · intro hexact
    cases success with
    | false => exact Or.inl (h.ignores_of_failed hs hexact)
    | true =>
        obtain ⟨outcome, m', fdCtx', heq, _⟩ := hexact
        by_contra hnot
        unfold FdContext.Ignores FdContext.Covers at hnot
        push Not at hnot
        obtain ⟨⟨event, hreported, hhas⟩, hfree⟩ := hnot
        obtain ⟨event', hreported', hfree⟩ := hfree rfl
        have hfree : s.get event' = none := by simpa [Slots.has_toContext] using hfree
        have hhas : s.toContext.has event = true := by simpa using hhas
        rw [h.dispatch_abort hs hhas hreported hfree hreported'] at heq
        cases heq
  · rintro (hignores | ⟨rfl, hcovers⟩)
    · exact h.dispatchExact_of_ignores hs hignores
    · exact h.dispatchExact_of_covers hs hcovers

theorem run_refines (hrun : Run Step .empty trace m) : ∃ slots, m.Refines slots := by
  apply hrun.invariant (I := fun m => ∃ slots, m.Refines slots)
  · rintro m label m' ⟨slots, h⟩ hstep
    obtain ⟨slots', _, h'⟩ := h.step hstep
    exact ⟨slots', h'⟩
  · exact ⟨[], rfl, rfl, by simp⟩

/-! ## No step ends the process in `triggerEvent` -/

theorem Refines.cancelEvent_ne (h : m.Refines slots) (ctx : Nat) (event : IoEvent)
    (success : Bool) : m.cancelEvent ctx event success ≠ .error .notRegistered := by
  unfold IoManager.cancelEvent
  cases hs : slots[ctx]? with
  | none => simp [h.context_of_none hs]
  | some s =>
      rw [h.context hs, ok_bind]
      cases hget : s.get event with
      | none =>
          rw [if_pos ((s.events_and_mask_eq_zero event).mpr hget)]
          simp
      | some registration =>
          obtain ⟨m', heq, _⟩ := h.trigger hs hget
          rw [if_neg (Slots.events_and_mask_ne_zero hget)]
          cases success with
          | false => simp
          | true => simp [heq]

theorem Refines.cancelAll_ne (h : m.Refines slots) (ctx : Nat) (success : Bool) :
    m.cancelAll ctx success ≠ .error .notRegistered := by
  have htest : ∀ (s : Slots) (event : IoEvent),
      decide (s.toContext.events &&& event.mask ≠ 0) = true → s.get event ≠ none := by
    intro s event hbit hget
    exact of_decide_eq_true hbit ((s.events_and_mask_eq_zero event).mpr hget)
  unfold IoManager.cancelAll
  cases hs : slots[ctx]? with
  | none => simp [h.context_of_none hs]
  | some s =>
      have hctx : ∀ s' : Slots, (slots.set ctx s')[ctx]? = some s' := fun _ =>
        List.getElem?_set_self (List.getElem?_eq_some_iff.mp hs).1
      obtain ⟨reads, s₁, m₁, hreads, _, hm₁, _⟩ := h.triggerIf hs (htest s .read)
      obtain ⟨writes, s₂, m₂, hwrites, _, hm₂, _⟩ := hm₁.triggerIf (hctx s₁) (htest s₁ .write)
      rw [List.set_set] at hm₂
      simp only [h.context hs, hm₁.context (hctx s₁), hm₂.context (hctx s₂), hreads, hwrites,
        ok_bind]
      split_ifs <;> simp

theorem Refines.delEvent_ne (h : m.Refines slots) (ctx : Nat) (event : IoEvent)
    (success : Bool) : m.delEvent ctx event success ≠ .error .notRegistered := by
  unfold IoManager.delEvent
  cases hs : slots[ctx]? with
  | none => simp [h.context_of_none hs]
  | some s =>
      rw [h.context hs, ok_bind]
      cases hget : s.get event with
      | none =>
          rw [if_pos ((s.events_and_mask_eq_zero event).mpr hget)]
          simp
      | some registration =>
          rw [if_neg (Slots.events_and_mask_ne_zero hget)]
          cases success with
          | false => simp
          | true => simp [Slots.getContext_toContext (Slots.event_ne_none hget)]

theorem Refines.exec_ne {op : IoOp} (h : m.Refines slots) (hcovered : op.Covered m) :
    m.exec op ≠ .error .notRegistered := by
  cases op with
  | resize size =>
      intro heq
      unfold exec contextResize at heq
      simp only at heq
      split_ifs at heq <;> cases heq
  | addEvent ctx event cb caller success =>
      intro heq
      have hmem := h.addEvent_error heq
      simp at hmem
  | delEvent ctx event success => exact h.delEvent_ne ctx event success
  | cancelEvent ctx event success => exact h.cancelEvent_ne ctx event success
  | cancelAll ctx success => exact h.cancelAll_ne ctx success
  | dispatch ctx reported success =>
      intro heq
      change m.dispatch ctx reported success = _ at heq
      cases hs : slots[ctx]? with
      | none =>
          unfold IoManager.dispatch at heq
          rw [h.context_of_none hs] at heq
          cases heq
      | some s =>
          cases success with
          | false =>
              obtain ⟨outcome, hok, -⟩ := h.dispatch_failed hs reported
              rw [hok] at heq
              cases heq
          | true =>
              have hexact : m.DispatchExact ctx s.toContext reported true := by
                rcases hcovered rfl s.toContext (h.getElem? hs) with hignores | hcovers
                · exact h.dispatchExact_of_ignores hs hignores
                · exact h.dispatchExact_of_covers hs hcovers
              obtain ⟨outcome, m', fdCtx', hok, _⟩ := hexact
              rw [hok] at heq
              cases heq

/-- In every reachable state, a dispatch is exact if and only if none of the reported events is
registered, or all of them are and `epoll_ctl` succeeds.  It ends the process in `triggerEvent`
only where some are registered and some are not, no other step does, and the count of pending
events stays right. -/
theorem run_dispatch_exact_iff (hrun : Run Step .empty trace m) :
    (∀ ctx fdCtx reported success, m.contexts[ctx]? = some fdCtx →
        (m.DispatchExact ctx fdCtx reported success ↔
          fdCtx.Ignores reported ∨ success = true ∧ fdCtx.Covers reported)) ∧
      (∀ op : IoOp, op.Covered m → m.exec op ≠ .error .notRegistered) ∧
      m.pendingEventCount = (m.contexts.map FdContext.bitsSet).sum := by
  obtain ⟨slots, h⟩ := run_refines hrun
  refine ⟨?_, fun op hcovered => h.exec_ne hcovered, h.count_eq⟩
  intro ctx fdCtx reported success hctx
  rw [h.contexts, List.getElem?_map] at hctx
  obtain ⟨s, hs, rfl⟩ := Option.map_eq_some_iff.mp hctx
  exact h.dispatchExact_iff hs

/-- A descriptor waits for input and the peer hangs up: the write event is triggered too. -/
theorem dispatch_aborts_on_hangup :
    ∃ m fdCtx, Run Step .empty
        [(.resize 2, { result := 0 }),
          (.addEvent 1 .read (some 7) ⟨some 3, 5, true⟩ true,
            { result := 0, ctl := some ⟨.add, 1, 0x80000001⟩ })] m ∧
      m.contexts[1]? = some fdCtx ∧ m.dispatch 1 epollHup true = .error .notRegistered ∧
      ¬ m.DispatchExact 1 fdCtx epollHup true := by
  have hsome : ([(IoOp.resize 2, { result := 0 }),
      (.addEvent 1 .read (some 7) ⟨some 3, 5, true⟩ true,
        { result := 0, ctl := some ⟨.add, 1, 0x80000001⟩ })].foldlM step empty).any (fun m =>
      m.contexts[1]?.isSome && m.dispatch 1 epollHup true = .error .notRegistered) = true := by
    decide
  obtain ⟨m, hm, hboth⟩ := (Option.any_eq_true _ _).mp hsome
  rw [Bool.and_eq_true, decide_eq_true_eq] at hboth
  obtain ⟨fdCtx, hctx⟩ := Option.isSome_iff_exists.mp hboth.1
  refine ⟨m, fdCtx, Run.of_foldlM (fun _ _ _ => step_some) hm, hctx, hboth.2, ?_⟩
  rintro ⟨outcome, m', fdCtx', hok, _⟩
  rw [hboth.2] at hok
  cases hok

/-- The same descriptor, with input. -/
theorem run_dispatch_exact_iff_input :
    ∃ m fdCtx, Run Step .empty
        [(.resize 2, { result := 0 }),
          (.addEvent 1 .read (some 7) ⟨some 3, 5, true⟩ true,
            { result := 0, ctl := some ⟨.add, 1, 0x80000001⟩ })] m ∧
      m.contexts[1]? = some fdCtx ∧ m.DispatchExact 1 fdCtx epollIn true := by
  have hsome : ([(IoOp.resize 2, { result := 0 }),
      (.addEvent 1 .read (some 7) ⟨some 3, 5, true⟩ true,
        { result := 0, ctl := some ⟨.add, 1, 0x80000001⟩ })].foldlM step empty).any (fun m =>
      m.contexts[1]? = some
        { read := { scheduler := some 3, cb := some 7 }, fd := 1, events := 1 }) = true := by
    decide
  obtain ⟨m, hm, hctx⟩ := (Option.any_eq_true _ _).mp hsome
  rw [decide_eq_true_eq] at hctx
  have hrun := Run.of_foldlM (fun _ _ _ => step_some) hm
  refine ⟨m, _, hrun, hctx, ((run_dispatch_exact_iff hrun).1 1 _ epollIn true hctx).mpr ?_⟩
  refine Or.inr ⟨rfl, fun event => ?_⟩
  cases event <;> decide

end IoManager

end Lyslg
