import Lyslg.IoManager.Refinement
import Lyslg.Support.Run
import Mathlib.Logic.Function.Basic
import Mathlib.Data.List.Nodup
/-!
# Every registration is delivered at most once

A ledger beside the manager gives each successful `addEvent` a number and records
what it registered, what became of it and everything that is scheduled.  What became
of a registration is read off the bits: it is over when its bit is cleared, and was
dropped if that was `delEvent`.
-/

namespace Lyslg

open Support Support.Machine Support.State

/-- The bit of an event is set in a context. -/
def IoManager.isSet (m : IoManager) (ctx : Nat) (event : IoEvent) : Bool :=
  match m.contexts[ctx]? with
  | some fdCtx => fdCtx.events &&& event.mask ≠ 0
  | none => false

/-- The operation is `delEvent`. -/
def IoOp.drops : IoOp → Bool
  | .delEvent _ _ _ => true
  | _ => false

/-- What became of a registration. -/
inductive Fate where
  | registered (ctx : Nat) (event : IoEvent)
  | triggered
  | dropped
  deriving DecidableEq

/-- A registration whose bit a step clears is over. -/
def Fate.settle (op : IoOp) (m m' : IoManager) : Fate → Fate
  | .registered ctx event =>
      if m.isSet ctx event && !m'.isSet ctx event then
        if op.drops then .dropped else .triggered
      else .registered ctx event
  | fate => fate

/-- A manager and the record of its registrations. -/
structure Ledger where
  manager : IoManager
  /-- how many registrations there were -/
  issued : Nat
  /-- the last registration of an event of a context -/
  ticket : Nat → IoEvent → Nat
  work : Nat → Registration
  fate : Nat → Fate
  /-- what was scheduled, and for which registration -/
  deliveries : List (Nat × Registration)

namespace Ledger

def new : Ledger where
  manager := .empty
  issued := 0
  ticket := fun _ _ => 0
  work := fun _ => (0, .fiber 0)
  fate := fun _ => .dropped
  deliveries := []

/-- Record what a step to `m'` removes and schedules. -/
def settle (l : Ledger) (label : IoOp × IoOutcome) (m' : IoManager) : Ledger :=
  { l with
    manager := m'
    fate := fun k => (l.fate k).settle label.1 l.manager m'
    deliveries := l.deliveries ++
      label.2.scheduled.map fun d => (l.ticket (label.1.triggers.getD 0) d.1, d.2) }

/-- Record a registration. -/
def enter (l : Ledger) (ctx : Nat) (event : IoEvent) (registration : Registration) : Ledger :=
  { l with
    issued := l.issued + 1
    ticket := Function.update l.ticket ctx (Function.update (l.ticket ctx) event l.issued)
    work := Function.update l.work l.issued registration
    fate := Function.update l.fate l.issued (.registered ctx event) }

def record (l : Ledger) (label : IoOp × IoOutcome) (m' : IoManager) : Ledger :=
  match label.1.registers label.2 with
  | some (ctx, event, registration) => (l.settle label m').enter ctx event registration
  | none => l.settle label m'

/-- A step of the manager, recorded. -/
def Step (l : Ledger) (label : IoOp × IoOutcome) (l' : Ledger) : Prop :=
  l.manager.Step label l'.manager ∧ l' = l.record label l'.manager

end Ledger

/-! ## Registrations by context and event -/

/-- The registration of an event of a context. -/
def slotAt (slots : List Slots) (ctx : Nat) (event : IoEvent) : Option Registration :=
  slots[ctx]?.bind fun s => s.get event

section slotAt

variable {m : IoManager} {slots fresh : List Slots} {ctx c : Nat} {event e : IoEvent} {s s' : Slots}

theorem slotAt_of_getElem (hs : slots[ctx]? = some s) : slotAt slots ctx event = s.get event := by
  simp [slotAt, hs]

theorem slotAt_set (hs : slots[ctx]? = some s) :
    slotAt (slots.set ctx s') c e = if c = ctx then s'.get e else slotAt slots c e := by
  unfold slotAt
  by_cases hc : c = ctx
  · subst hc
    rw [List.getElem?_set_self (List.getElem?_eq_some_iff.mp hs).1, if_pos rfl]
    rfl
  · rw [List.getElem?_set_ne (Ne.symm hc), if_neg hc]

theorem slotAt_append (hfresh : ∀ s ∈ fresh, s.read = none ∧ s.write = none) :
    slotAt (slots ++ fresh) c e = slotAt slots c e := by
  unfold slotAt
  by_cases hc : c < slots.length
  · rw [List.getElem?_append_left hc]
  · rw [List.getElem?_append_right (Nat.le_of_not_lt hc),
      List.getElem?_eq_none (l := slots) (Nat.le_of_not_lt hc)]
    cases hs : fresh[c - slots.length]? with
    | none => rfl
    | some s =>
        obtain ⟨hread, hwrite⟩ := hfresh s (List.mem_of_getElem? hs)
        cases e with
        | none => rfl
        | read => exact hread
        | write => exact hwrite

theorem IoManager.Refines.isSet (h : m.Refines slots) (ctx : Nat) (event : IoEvent) :
    m.isSet ctx event = (slotAt slots ctx event).isSome := by
  unfold IoManager.isSet slotAt
  rw [h.contexts, List.getElem?_map]
  cases hs : slots[ctx]? with
  | none => rfl
  | some s =>
      change decide (s.toContext.events &&& event.mask ≠ 0) = (s.get event).isSome
      have hbit := s.events_and_mask_eq_zero event
      cases hget : s.get event with
      | none => simpa using hbit.mpr hget
      | some registration =>
          have := Slots.events_and_mask_ne_zero hget
          simpa using this

end slotAt

/-- The registrations of `events` of `ctx` go, to their schedulers unless they are dropped. -/
structure Settles (slots : List Slots) (label : IoOp × IoOutcome) (slots' : List Slots) (ctx : Nat)
    (events : List IoEvent) : Prop where
  left : ∀ c e, slotAt slots' c e = if c = ctx ∧ e ∈ events then none else slotAt slots c e
  removed : ∀ e ∈ events, (slotAt slots ctx e).isSome = true
  dropped : label.1.drops = true → label.2.scheduled = []
  triggered : label.1.drops = false → label.2.scheduled.map Prod.fst = events
  context : ∀ d ∈ label.2.scheduled, label.1.triggers = some ctx
  nodup : (label.2.scheduled.map Prod.fst).Nodup
  scheduled : ∀ d ∈ label.2.scheduled, slotAt slots ctx d.1 = some d.2

/-- A step that schedules nothing and removes nothing. -/
theorem Settles.of_quiet {slots slots' : List Slots} {label : IoOp × IoOutcome}
    (hquiet : label.2.scheduled = []) (hsame : ∀ c e, slotAt slots' c e = slotAt slots c e) :
    Settles slots label slots' 0 [] where
  left := by simpa using hsame
  removed := by simp
  dropped := fun _ => hquiet
  triggered := fun _ => by rw [hquiet]; rfl
  context := by simp [hquiet]
  nodup := by simp [hquiet]
  scheduled := by simp [hquiet]

theorem SlotsStep.settles {slots slots' : List Slots} {op : IoOp} {outcome : IoOutcome}
    (hstep : SlotsStep slots op outcome slots') (hregisters : op.registers outcome = none) :
    ∃ ctx events, Settles slots (op, outcome) slots' ctx events := by
  cases hstep with
  | quiet _ hquiet => exact ⟨0, [], .of_quiet hquiet fun _ _ => rfl⟩
  | grown hfresh hquiet => exact ⟨0, [], .of_quiet hquiet fun _ _ => slotAt_append hfresh⟩
  | registered hsome _ _ _ _ =>
      rw [hregisters] at hsome
      cases hsome
  | @dropped ctx event _ s registration hs hget hquiet =>
      refine ⟨ctx, [event], ?_, ?_, fun _ => hquiet, (fun h => by cases h), ?_, ?_, ?_⟩
      · intro c e
        rw [slotAt_set hs, Slots.get_set (Slots.event_ne_none hget)]
        by_cases hc : c = ctx
        · subst hc
          simp [slotAt_of_getElem hs]
        · simp [hc]
      · simp [slotAt_of_getElem hs, hget]
      · simp [hquiet]
      · simp [hquiet]
      · simp [hquiet]
  | @triggered _ _ ctx s s' htriggers hs hremoval =>
      have hdrops : op.drops = false := by
        cases op with
        | delEvent ctx event success => cases htriggers
        | _ => rfl
      refine ⟨ctx, outcome.scheduled.map Prod.fst, ?_, ?_, ?_, fun _ => rfl,
        fun _ _ => htriggers, hremoval.nodup, ?_⟩
      · intro c e
        rw [slotAt_set hs]
        by_cases hc : c = ctx
        · subst hc
          rw [if_pos rfl, hremoval.left, slotAt_of_getElem hs]
          by_cases he : e ∈ outcome.scheduled.map Prod.fst
          · rw [if_pos he, if_pos ⟨rfl, he⟩]
          · rw [if_neg he, if_neg fun hboth => he hboth.2]
        · simp [hc]
      · intro e he
        obtain ⟨d, hd, rfl⟩ := List.mem_map.mp he
        rw [slotAt_of_getElem hs, hremoval.registered d hd]
        rfl
      · intro h
        rw [hdrops] at h
        cases h
      · intro d hd
        rw [slotAt_of_getElem hs]
        exact hremoval.registered d hd

/-- A step that registers takes a free slot. -/
theorem SlotsStep.enters {slots slots' : List Slots} {op : IoOp} {outcome : IoOutcome} {ctx : Nat}
    {event : IoEvent} {registration : Registration} (hstep : SlotsStep slots op outcome slots')
    (hregisters : op.registers outcome = some (ctx, event, registration)) :
    outcome.scheduled = [] ∧ slotAt slots ctx event = none ∧
      ∀ c e, slotAt slots' c e =
        if c = ctx ∧ e = event then some registration else slotAt slots c e := by
  cases hstep with
  | quiet hnone _ =>
      rw [hregisters] at hnone
      cases hnone
  | grown _ _ => cases hregisters
  | dropped _ _ _ => cases hregisters
  | triggered htriggers _ _ =>
      cases op with
      | addEvent ctx event cb caller success => cases htriggers
      | _ => cases hregisters
  | @registered _ _ ctx' event' registration' s hsome hevent hs hget hquiet =>
      obtain ⟨rfl, hrest⟩ := Prod.mk.inj (Option.some.inj (hregisters.symm.trans hsome))
      obtain ⟨rfl, rfl⟩ := Prod.mk.inj hrest
      refine ⟨hquiet, (slotAt_of_getElem hs).trans hget, ?_⟩
      intro c e
      rw [slotAt_set hs, Slots.get_set hevent]
      by_cases hc : c = ctx
      · subst hc
        simp [slotAt_of_getElem hs]
      · simp [hc]

/-! ## The ledger -/

/-- In a list with different first components, the one with a given first component. -/
theorem filter_fst_eq {α β : Type} [DecidableEq α] {l : List (α × β)} {d : α × β}
    (hnodup : (l.map Prod.fst).Nodup) (hd : d ∈ l) : l.filter (fun x => x.1 = d.1) = [d] := by
  induction l with
  | nil => cases hd
  | cons a l ih =>
      obtain ⟨ha, hl⟩ := List.nodup_cons.mp hnodup
      rcases List.mem_cons.mp hd with rfl | hd
      · rw [List.filter_cons_of_pos (by simp), List.cons.injEq]
        refine ⟨rfl, ?_⟩
        rw [List.filter_eq_nil_iff]
        intro x hx
        simp only [decide_eq_true_eq]
        intro heq
        exact ha (heq ▸ List.mem_map_of_mem hx)
      · have hne : a.1 ≠ d.1 := by
          intro heq
          exact ha (heq ▸ List.mem_map_of_mem hd)
        rw [List.filter_cons_of_neg (by simp [hne])]
        exact ih hl hd

namespace Ledger

variable {l l' : Ledger} {m' : IoManager} {slots slots' : List Slots}
  {label : IoOp × IoOutcome} {ctx k : Nat} {event : IoEvent} {events : List IoEvent}
  {registration : Registration}

/-- The ledger agrees with the registrations. -/
structure Invariant (l : Ledger) (slots : List Slots) : Prop where
  refines : l.manager.Refines slots
  current : ∀ ctx event registration, slotAt slots ctx event = some registration →
    l.ticket ctx event < l.issued ∧ l.fate (l.ticket ctx event) = .registered ctx event ∧
      l.work (l.ticket ctx event) = registration
  registered : ∀ k < l.issued, ∀ ctx event, l.fate k = .registered ctx event →
    l.ticket ctx event = k ∧ (slotAt slots ctx event).isSome = true
  delivered : ∀ k, l.deliveries.filter (fun d => d.1 = k) =
    if k < l.issued ∧ l.fate k = .triggered then [(k, l.work k)] else []

theorem new_invariant : new.Invariant [] where
  refines := ⟨rfl, rfl, by simp⟩
  current := by simp [slotAt]
  registered := by simp [new]
  delivered := by simp [new]

section Settle

variable (h : l.Invariant slots) (hm' : m'.Refines slots')
  (hsettles : Settles slots label slots' ctx events)

include h hm' hsettles in
/-- A registration whose event goes is over. -/
theorem Invariant.settle_registered {c : Nat} {e : IoEvent} (hk : k < l.issued)
    (hregistered : l.fate k = .registered c e) :
    (l.settle label m').fate k =
      if c = ctx ∧ e ∈ events then (if label.1.drops then .dropped else .triggered)
      else .registered c e := by
  have hset := (h.registered k hk c e hregistered).2
  change (l.fate k).settle _ _ _ = _
  simp only [hregistered, Fate.settle, h.refines.isSet, hm'.isSet, hsettles.left, hset]
  by_cases hgone : c = ctx ∧ e ∈ events
  · simp [hgone]
  · simp [hgone, hset]

theorem settle_over (hover : ∀ c e, l.fate k ≠ .registered c e) :
    (l.settle label m').fate k = l.fate k := by
  change (l.fate k).settle _ _ _ = _
  cases hcase : l.fate k with
  | registered c e => exact absurd hcase (hover c e)
  | triggered => rfl
  | dropped => rfl

include h hsettles

/-- The number of a registration that a step schedules. -/
theorem Invariant.scheduled {d : IoEvent × Registration} (hd : d ∈ label.2.scheduled) :
    l.ticket ctx d.1 < l.issued ∧ l.fate (l.ticket ctx d.1) = .registered ctx d.1 ∧
      l.work (l.ticket ctx d.1) = d.2 :=
  h.current ctx d.1 d.2 (hsettles.scheduled d hd)

/-- A step schedules a registration once: numbers determine their events. -/
theorem Invariant.filter_scheduled {d : IoEvent × Registration} (hd : d ∈ label.2.scheduled) :
    (label.2.scheduled.map fun d => (l.ticket ctx d.1, d.2)).filter
      (fun x => x.1 = l.ticket ctx d.1) = [(l.ticket ctx d.1, d.2)] := by
  have hfilter : label.2.scheduled.filter (fun x => l.ticket ctx x.1 = l.ticket ctx d.1) =
      label.2.scheduled.filter (fun x => x.1 = d.1) := by
    apply List.filter_congr
    intro x hx
    have hfate := (h.scheduled hsettles hx).2.1
    rw [decide_eq_decide]
    constructor
    · intro heq
      rw [heq, (h.scheduled hsettles hd).2.1] at hfate
      exact (Fate.registered.inj hfate).2.symm
    · intro heq
      rw [heq]
  rw [List.filter_map]
  change (label.2.scheduled.filter fun x => l.ticket ctx x.1 = l.ticket ctx d.1).map _ = _
  rw [hfilter, filter_fst_eq hsettles.nodup hd, List.map_singleton]

include hm'

/-- A registration the step schedules is triggered by it. -/
theorem Invariant.settle_scheduled {d : IoEvent × Registration} (hd : d ∈ label.2.scheduled) :
    (l.settle label m').fate (l.ticket ctx d.1) = .triggered := by
  obtain ⟨hlt, hregistered, _⟩ := h.scheduled hsettles hd
  have hdrops : label.1.drops = false := by
    rw [← Bool.not_eq_true]
    intro hdrops
    rw [hsettles.dropped hdrops] at hd
    cases hd
  have hevents : d.1 ∈ events := by
    rw [← hsettles.triggered hdrops]
    exact List.mem_map_of_mem hd
  rw [h.settle_registered hm' hsettles hlt hregistered, if_pos ⟨rfl, hevents⟩, hdrops]
  rfl

/-- Any other is not. -/
theorem Invariant.settle_not_scheduled (hk : k < l.issued)
    (hnot : ¬ ∃ d ∈ label.2.scheduled, l.ticket ctx d.1 = k) :
    (l.settle label m').fate k = .triggered ↔ l.fate k = .triggered := by
  cases hcase : l.fate k with
  | registered c e =>
      rw [h.settle_registered hm' hsettles hk hcase]
      split_ifs with hgone hdrops
      · simp
      · obtain ⟨rfl, he⟩ := hgone
        rw [← hsettles.triggered (Bool.not_eq_true _ ▸ hdrops)] at he
        obtain ⟨d, hd, rfl⟩ := List.mem_map.mp he
        exact absurd ⟨d, hd, (h.registered k hk _ _ hcase).1⟩ hnot
      · simp
  | triggered => rw [settle_over (by simp [hcase]), hcase]
  | dropped => rw [settle_over (by simp [hcase]), hcase]

theorem Invariant.settle_delivered (k : Nat) :
    (l.settle label m').deliveries.filter (fun d => d.1 = k) =
      if k < l.issued ∧ (l.settle label m').fate k = .triggered then [(k, l.work k)] else [] := by
  have hnew : (l.settle label m').deliveries =
      l.deliveries ++ label.2.scheduled.map fun d => (l.ticket ctx d.1, d.2) := by
    change _ ++ _ = _
    rw [List.append_cancel_left_eq]
    apply List.map_congr_left
    intro d hd
    rw [hsettles.context d hd]
    rfl
  rw [hnew, List.filter_append, h.delivered k]
  by_cases hk : ∃ d ∈ label.2.scheduled, l.ticket ctx d.1 = k
  · obtain ⟨d, hd, rfl⟩ := hk
    obtain ⟨hlt, hregistered, hwork⟩ := h.scheduled hsettles hd
    have hafter := h.settle_scheduled hm' hsettles hd
    rw [h.filter_scheduled hsettles hd, if_neg (by simp [hregistered]), if_pos ⟨hlt, hafter⟩,
      ← hwork]
    rfl
  · have hnone : (label.2.scheduled.map fun d => (l.ticket ctx d.1, d.2)).filter
        (fun x => x.1 = k) = [] := by
      rw [List.filter_eq_nil_iff]
      intro x hx
      obtain ⟨d, hd, rfl⟩ := List.mem_map.mp hx
      simpa using fun heq => hk ⟨d, hd, heq⟩
    rw [hnone, List.append_nil]
    apply if_congr _ rfl rfl
    apply and_congr_right
    intro hlt
    exact (h.settle_not_scheduled hm' hsettles hlt hk).symm

theorem Invariant.settle : (l.settle label m').Invariant slots' := by
  refine ⟨hm', ?_, ?_, h.settle_delivered hm' hsettles⟩
  · intro c e registration hslot
    rw [hsettles.left] at hslot
    split_ifs at hslot with hgone
    obtain ⟨hlt, hregistered, hwork⟩ := h.current c e registration hslot
    refine ⟨hlt, ?_, hwork⟩
    change (l.settle label m').fate (l.ticket c e) = _
    rw [h.settle_registered hm' hsettles hlt hregistered, if_neg hgone]
  · intro k hk c e hregistered
    cases hcase : l.fate k with
    | registered c' e' =>
        rw [h.settle_registered hm' hsettles hk hcase] at hregistered
        split_ifs at hregistered with hgone
        obtain ⟨rfl, rfl⟩ := Fate.registered.inj hregistered
        obtain ⟨hticket, hset⟩ := h.registered k hk c' e' hcase
        refine ⟨hticket, ?_⟩
        rw [hsettles.left, if_neg hgone]
        exact hset
    | triggered =>
        rw [settle_over (by simp [hcase]), hcase] at hregistered
        cases hregistered
    | dropped =>
        rw [settle_over (by simp [hcase]), hcase] at hregistered
        cases hregistered

end Settle

theorem enter_ticket (l : Ledger) (ctx : Nat) (event : IoEvent) (registration : Registration)
    (c : Nat) (e : IoEvent) :
    (l.enter ctx event registration).ticket c e =
      if c = ctx ∧ e = event then l.issued else l.ticket c e := by
  unfold enter
  by_cases hc : c = ctx
  · subst hc
    by_cases he : e = event
    · simp [he]
    · simp [he]
  · simp [hc]

/-- A step that adds a registration clears no bit. -/
theorem Invariant.settle_kept (h : l.Invariant slots) (hm' : m'.Refines slots')
    (hkept : ∀ c e, (slotAt slots c e).isSome = true → (slotAt slots' c e).isSome = true)
    (hk : k < l.issued) : (l.settle label m').fate k = l.fate k := by
  cases hcase : l.fate k with
  | registered c e =>
      have hset := (h.registered k hk c e hcase).2
      change (l.fate k).settle _ _ _ = _
      simp [hcase, Fate.settle, h.refines.isSet, hm'.isSet, hset, hkept c e hset]
  | triggered => rw [settle_over (by simp [hcase]), hcase]
  | dropped => rw [settle_over (by simp [hcase]), hcase]

theorem Invariant.enter (h : l.Invariant slots) (hm' : m'.Refines slots')
    (hquiet : label.2.scheduled = []) (hfree : slotAt slots ctx event = none)
    (hslots : ∀ c e, slotAt slots' c e =
      if c = ctx ∧ e = event then some registration else slotAt slots c e) :
    ((l.settle label m').enter ctx event registration).Invariant slots' := by
  have hother : ∀ c e, (slotAt slots c e).isSome = true → ¬ (c = ctx ∧ e = event) := by
    rintro c e hset ⟨rfl, rfl⟩
    rw [hfree] at hset
    cases hset
  have hfate : ∀ k < l.issued, (l.settle label m').fate k = l.fate k := by
    intro k hk
    apply h.settle_kept hm' _ hk
    intro c e hset
    rw [hslots, if_neg (hother c e hset)]
    exact hset
  have hdeliveries : (l.settle label m').deliveries = l.deliveries := by
    simp [Ledger.settle, hquiet]
  refine ⟨hm', ?_, ?_, ?_⟩
  · intro c e registration' hslot
    rw [enter_ticket]
    rw [hslots] at hslot
    by_cases hnew : c = ctx ∧ e = event
    · rw [if_pos hnew] at hslot ⊢
      obtain ⟨rfl, rfl⟩ := hnew
      refine ⟨Nat.lt_succ_self _, ?_, ?_⟩
      · exact Function.update_self _ _ _
      · exact (Function.update_self _ _ _).trans (Option.some.inj hslot)
    · rw [if_neg hnew] at hslot ⊢
      obtain ⟨hlt, hregistered, hwork⟩ := h.current c e registration' hslot
      refine ⟨Nat.lt_succ_of_lt hlt, ?_, ?_⟩
      · refine (Function.update_of_ne (Nat.ne_of_lt hlt) _ _).trans ?_
        rw [hfate _ hlt]
        exact hregistered
      · exact (Function.update_of_ne (Nat.ne_of_lt hlt) _ _).trans hwork
  · intro k hk c e hregistered
    rw [enter_ticket, hslots]
    by_cases hnew : k = l.issued
    · subst hnew
      have heq := (Function.update_self _ _ _).symm.trans hregistered
      obtain ⟨rfl, rfl⟩ := Fate.registered.inj heq
      simp [Ledger.settle]
    · have hlt : k < l.issued := Nat.lt_of_le_of_ne (Nat.le_of_lt_succ hk) hnew
      have hold : l.fate k = .registered c e := by
        rw [← hfate k hlt]
        exact (Function.update_of_ne hnew _ _).symm.trans hregistered
      obtain ⟨hticket, hset⟩ := h.registered k hlt c e hold
      rw [if_neg (hother c e hset), if_neg (hother c e hset)]
      exact ⟨hticket, hset⟩
  · intro k
    change (l.settle label m').deliveries.filter _ = _
    rw [hdeliveries, h.delivered k]
    by_cases hnew : k = l.issued
    · subst hnew
      simp [Ledger.enter, Ledger.settle]
    · have hwork : ((l.settle label m').enter ctx event registration).work k = l.work k :=
        Function.update_of_ne hnew _ _
      have hsame : ((l.settle label m').enter ctx event registration).fate k =
          (l.settle label m').fate k := Function.update_of_ne hnew _ _
      have hbound : k < l.issued ↔ k < l.issued + 1 := by omega
      rw [hwork, hsame]
      apply if_congr _ rfl rfl
      change k < l.issued ∧ _ ↔ k < l.issued + 1 ∧ _
      rw [← hbound]
      apply and_congr_right
      intro hlt
      rw [hfate k hlt]

theorem Step.invariant (h : l.Invariant slots) (hstep : l.Step label l') :
    ∃ slots', l'.Invariant slots' := by
  obtain ⟨hmanager, hrecord⟩ := hstep
  obtain ⟨slots', hslots, hrefines⟩ := h.refines.step hmanager
  refine ⟨slots', ?_⟩
  rw [hrecord]
  unfold record
  cases hregisters : label.1.registers label.2 with
  | none =>
      obtain ⟨ctx, events, hsettles⟩ := hslots.settles hregisters
      exact h.settle hrefines hsettles
  | some entry =>
      obtain ⟨ctx, event, registration⟩ := entry
      obtain ⟨hquiet, hfree, hsame⟩ := hslots.enters hregisters
      exact h.enter hrefines hquiet hfree hsame

/-- The registrations of every manager that a run reaches. -/
theorem run_invariant {trace : List (IoOp × IoOutcome)} (hrun : Run Step new trace l) :
    ∃ slots, l.Invariant slots := by
  apply hrun.invariant (I := fun l => ∃ slots, l.Invariant slots)
  · rintro l label l' ⟨slots, h⟩ hstep
    exact hstep.invariant h
  · exact ⟨[], new_invariant⟩

end Ledger

end Lyslg
