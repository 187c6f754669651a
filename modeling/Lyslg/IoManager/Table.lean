import Lyslg.IoManager.Bookkeeping
/-!
# The table of contexts under concurrent growth

`addEvent` compares the size of `m_fdContexts` with its descriptor under the read
lock, and resizes the table under the write lock, later.  Here the calls of several
threads are kept apart: a thread that is growing has found the table too small and
still has the second section before it.

`resize` also cuts the table, when another descriptor has made it longer meanwhile,
and the sizes are compared as `int`.
-/

namespace Lyslg

open Support Support.Machine Support.State

/-- The section is one under `fd_ctx->mutex`. -/
def IoOp.onContext : IoOp → Bool
  | .resize _ => false
  | _ => true

namespace IoManager

variable {m m' : IoManager} {op : IoOp} {outcome : IoOutcome} {fd ctx size : Nat}

/-- After the constructor has called `contextResize(32)`. -/
def constructed : IoManager where
  contexts := (List.range 32).map fun i => { fd := i }
  fdContexts := List.range 32
  pendingEventCount := 0

theorem contextResize_empty : empty.contextResize 32 = .ok constructed := by
  decide

/-! ## What changes the table -/

/-- Every result of a computation has the table `t`. -/
def Leaves {α : Type} (t : List Nat) (x : Except IoAbort (α × IoManager)) : Prop :=
  ∀ a m', x = .ok (a, m') → m'.fdContexts = t

section Leaves

variable {α β : Type} {t : List Nat} {x y : Except IoAbort (α × IoManager)} {a : α}

theorem Leaves.ok (h : m.fdContexts = t) : Leaves t (.ok (a, m)) := by
  intro a' m' heq
  obtain ⟨-, rfl⟩ := Prod.mk.inj (Except.ok.inj heq)
  exact h

theorem Leaves.error (abort : IoAbort) :
    Leaves t (.error abort : Except IoAbort (α × IoManager)) := by
  intro a m' heq
  cases heq

theorem Leaves.ite {p : Prop} [Decidable p] (hx : Leaves t x) (hy : Leaves t y) :
    Leaves t (if p then x else y) := by
  split_ifs
  · exact hx
  · exact hy

/-- A part that does not touch the manager. -/
theorem Leaves.read {z : Except IoAbort β} {f : β → Except IoAbort (α × IoManager)}
    (h : ∀ b, Leaves t (f b)) : Leaves t (z >>= f) := by
  intro a m' heq
  obtain ⟨b, _, heq⟩ := ok_of_bind heq
  exact h b a m' heq

theorem Leaves.bind {z : Except IoAbort (β × IoManager)}
    {f : β × IoManager → Except IoAbort (α × IoManager)} (hz : Leaves t z)
    (h : ∀ b m, m.fdContexts = t → Leaves t (f (b, m))) : Leaves t (z >>= f) := by
  intro a m' heq
  obtain ⟨⟨b, m₁⟩, hok, heq⟩ := ok_of_bind heq
  exact h b m₁ (hz b m₁ hok) a m' heq

end Leaves

theorem trigger_leaves (event : IoEvent) : Leaves m.fdContexts (m.trigger ctx event) :=
  .read fun _ => .read fun _ => .ok rfl

theorem triggerIf_leaves (event : IoEvent) (test : Bool) :
    Leaves m.fdContexts (m.triggerIf ctx event test) :=
  .ite (trigger_leaves event) (.ok rfl)

theorem addEvent_leaves (event : IoEvent) (cb : Option Callback) (caller : Caller)
    (success : Bool) : Leaves m.fdContexts (m.addEvent ctx event cb caller success) := by
  apply Leaves.read
  intro fdCtx
  apply Leaves.ite (Leaves.error _)
  apply Leaves.ite (Leaves.ok rfl)
  apply Leaves.read
  intro eventCtx
  apply Leaves.ite (Leaves.error _)
  cases cb with
  | some cb => exact Leaves.ok rfl
  | none => exact Leaves.ite (Leaves.error _) (Leaves.ok rfl)

theorem delEvent_leaves (event : IoEvent) (success : Bool) :
    Leaves m.fdContexts (m.delEvent ctx event success) := by
  apply Leaves.read
  intro fdCtx
  apply Leaves.ite (Leaves.ok rfl)
  apply Leaves.ite (Leaves.ok rfl)
  exact Leaves.read fun _ => Leaves.ok rfl

theorem cancelEvent_leaves (event : IoEvent) (success : Bool) :
    Leaves m.fdContexts (m.cancelEvent ctx event success) := by
  apply Leaves.read
  intro fdCtx
  apply Leaves.ite (Leaves.ok rfl)
  apply Leaves.ite (Leaves.ok rfl)
  exact Leaves.bind (trigger_leaves event) fun _ _ htable => Leaves.ok htable

theorem cancelAll_leaves (success : Bool) : Leaves m.fdContexts (m.cancelAll ctx success) := by
  apply Leaves.read
  intro fdCtx
  apply Leaves.ite (Leaves.ok rfl)
  apply Leaves.ite (Leaves.ok rfl)
  apply Leaves.bind (triggerIf_leaves .read _)
  intro reads m₁ htable
  apply Leaves.read
  intro fdCtx₁
  apply Leaves.bind (htable ▸ triggerIf_leaves .write _)
  intro writes m₂ htable₂
  apply Leaves.read
  intro fdCtx₂
  exact Leaves.ite (Leaves.error _) (Leaves.ok htable₂)

theorem dispatch_leaves (reported : BitVec 32) (success : Bool) :
    Leaves m.fdContexts (m.dispatch ctx reported success) := by
  apply Leaves.read
  intro fdCtx
  apply Leaves.ite (Leaves.ok rfl)
  apply Leaves.ite (Leaves.ok rfl)
  apply Leaves.bind (triggerIf_leaves .read _)
  intro reads m₁ htable
  apply Leaves.bind (htable ▸ triggerIf_leaves .write _)
  intro writes m₂ htable₂
  exact Leaves.ok htable₂

/-- The sections under `fd_ctx->mutex` leave the table alone. -/
theorem exec_leaves (hop : op.onContext = true) : Leaves m.fdContexts (m.exec op) := by
  cases op with
  | resize size => cases hop
  | addEvent ctx event cb caller success => exact addEvent_leaves event cb caller success
  | delEvent ctx event success => exact delEvent_leaves event success
  | cancelEvent ctx event success => exact cancelEvent_leaves event success
  | cancelAll ctx success => exact cancelAll_leaves success
  | dispatch ctx reported success => exact dispatch_leaves reported success

/-- `resize` keeps what fits. -/
theorem contextResize_ok (h : m.contextResize size = .ok m') :
    m'.fdContexts.length = size ∧
      ∀ fd < size, ∀ ctx, m.fdContexts[fd]? = some ctx → m'.fdContexts[fd]? = some ctx := by
  unfold contextResize at h
  dsimp only at h
  split_ifs at h
  obtain rfl := Except.ok.inj h
  constructor
  · simp
  · intro fd hfd ctx hctx
    have htake : (m.fdContexts.take size)[fd]? = some ctx := by
      rw [List.getElem?_take_of_lt hfd, hctx]
    obtain ⟨hlt, _⟩ := List.getElem?_eq_some_iff.mp htake
    dsimp only
    rw [List.getElem?_append_left hlt, htake]

/-! ## Lookups -/

theorem lookup_eq_some_iff : m.lookup fd = some ctx ↔
    m.fdContexts[fd]? = some ctx ∧ (fd : Int) < int32 m.fdContexts.length := by
  unfold lookup
  rw [Option.filter_eq_some_iff, decide_eq_true_eq]

/-- Nothing is lost and every lookup finds what was there. -/
structure Keeps (m m' : IoManager) : Prop where
  size : m.fdContexts.length ≤ m'.fdContexts.length
  lookup : ∀ fd ctx, m.fdContexts[fd]? = some ctx → m'.lookup fd = some ctx

theorem Keeps.trans {m₁ m₂ m₃ : IoManager} (h₁ : m₁.Keeps m₂) (h₂ : m₂.Keeps m₃) :
    m₁.Keeps m₃ := by
  refine ⟨h₁.size.trans h₂.size, ?_⟩
  intro fd ctx hctx
  exact h₂.lookup fd ctx (lookup_eq_some_iff.mp (h₁.lookup fd ctx hctx)).1

/-- The table is not empty and its size fits in 32 bits. -/
def Sized (m : IoManager) : Prop := 0 < m.fdContexts.length ∧ m.fdContexts.length < 2 ^ 32

/-- A table of `2^31` contexts has a negative size, and no lookup gets through. -/
theorem keeps_self_iff (h : m.Sized) : m.Keeps m ↔ m.fdContexts.length < 2 ^ 31 := by
  constructor
  · intro hkeeps
    by_contra hlarge
    obtain ⟨ctx, hctx⟩ : ∃ ctx, m.fdContexts[0]? = some ctx :=
      ⟨_, List.getElem?_eq_getElem h.1⟩
    have hpos := (lookup_eq_some_iff.mp (hkeeps.lookup 0 ctx hctx)).2
    have hneg := int32_wrap_neg (Nat.le_of_not_lt hlarge) h.2
    omega
  · intro hsmall
    refine ⟨le_rfl, ?_⟩
    intro fd ctx hctx
    obtain ⟨hlt, _⟩ := List.getElem?_eq_some_iff.mp hctx
    rw [lookup_eq_some_iff, int32_natCast hsmall]
    exact ⟨hctx, by omega⟩

end IoManager

/-! ## Calls from several threads -/

/-- A manager, and the threads between the two sections of the lookup in `addEvent`, with
their descriptors. -/
structure TableCalls where
  manager : IoManager
  growing : Nat → Option Nat

/-- `test` is the read-locked section of the lookup in `addEvent`, `grow` the write-locked
one of a thread that found no context. -/
inductive TableOp where
  | test (thread fd : Nat)
  | grow (thread : Nat)
  | onContext (op : IoOp)

namespace TableCalls

/-- After the constructor. -/
def new : TableCalls := ⟨IoManager.constructed, fun _ => none⟩

/-- The calls after a section. -/
def step (s : TableCalls) : TableOp → Option TableCalls
  | .test thread fd =>
      if s.growing thread = none ∧ fd < 2 ^ 31 then
        some (match s.manager.lookup fd with
          | some _ => s
          | none => { s with growing := Function.update s.growing thread (some fd) })
      else none
  | .grow thread =>
      (s.growing thread).bind fun fd =>
        (s.manager.grow fd).toOption.map fun after =>
          ⟨after.2, Function.update s.growing thread none⟩
  | .onContext op =>
      if op.onContext = true ∧ op.Allowed then
        (s.manager.exec op).toOption.map fun after => { s with manager := after.2 }
      else none

/-- One section of a run in which no assertion fails. -/
def Step (s : TableCalls) (op : TableOp) (s' : TableCalls) : Prop := s.step op = some s'

/-- When the section gets the write lock, the table is not longer than it wants to make it,
and it does not make it so long that the size is negative. -/
def GrowsOnly (s : TableCalls) : TableOp → Prop
  | .grow thread => ∀ fd, s.growing thread = some fd →
      s.manager.fdContexts.length ≤ fd * 3 / 2 ∧ fd * 3 / 2 < 2 ^ 31
  | _ => True

/-- What every run keeps. -/
structure Invariant (s : TableCalls) : Prop where
  sized : s.manager.Sized
  growing : ∀ thread fd, s.growing thread = some fd → fd < 2 ^ 31

variable {s s' : TableCalls} {op : TableOp}

theorem new_invariant : new.Invariant := by
  refine ⟨?_, ?_⟩
  · exact ⟨by decide, by decide⟩
  · intro thread fd hthread
    cases hthread

/-- What a section does to the table, and who is growing after it. -/
inductive Effect (s : TableCalls) : TableOp → TableCalls → Prop where
  | tested {thread fd : Nat} {growing : Nat → Option Nat} : fd < 2 ^ 31 →
      (growing = s.growing ∨ growing = Function.update s.growing thread (some fd)) →
      Effect s (.test thread fd) ⟨s.manager, growing⟩
  | grown {thread fd ctx : Nat} {m' : IoManager} : s.growing thread = some fd →
      s.manager.grow fd = .ok (ctx, m') →
      Effect s (.grow thread) ⟨m', Function.update s.growing thread none⟩
  | elsewhere {op : IoOp} {m' : IoManager} : m'.fdContexts = s.manager.fdContexts →
      Effect s (.onContext op) ⟨m', s.growing⟩

theorem Step.effect (h : s.Step op s') : Effect s op s' := by
  cases op with
  | test thread fd =>
      obtain ⟨⟨_, hfd⟩, h⟩ := Option.ite_none_right_eq_some.mp h
      cases hlookup : s.manager.lookup fd with
      | some ctx =>
          rw [hlookup] at h
          obtain rfl := Option.some.inj h
          exact .tested hfd (Or.inl rfl)
      | none =>
          rw [hlookup] at h
          obtain rfl := Option.some.inj h
          exact .tested hfd (Or.inr rfl)
  | grow thread =>
      obtain ⟨fd, hthread, h⟩ := Option.bind_eq_some_iff.mp h
      obtain ⟨⟨ctx, m'⟩, hgrow, rfl⟩ := Option.map_eq_some_iff.mp h
      exact .grown hthread (ok_of_toOption hgrow)
  | onContext op =>
      obtain ⟨⟨hop, _⟩, h⟩ := Option.ite_none_right_eq_some.mp h
      obtain ⟨⟨outcome, m'⟩, hexec, rfl⟩ := Option.map_eq_some_iff.mp h
      exact .elsewhere (IoManager.exec_leaves hop outcome m' (ok_of_toOption hexec))

theorem Effect.invariant (he : Effect s op s') (h : s.Invariant) : s'.Invariant := by
  cases he with
  | @tested thread fd growing hfd hgrowing =>
      refine ⟨h.sized, ?_⟩
      intro thread' fd' hthread'
      rcases hgrowing with rfl | rfl
      · exact h.growing thread' fd' hthread'
      · rcases some_of_update hthread' with heq | hbefore
        · rwa [← Option.some.inj heq]
        · exact h.growing thread' fd' hbefore
  | @grown thread fd ctx m' hthread hgrow =>
      obtain ⟨hresize, hctx⟩ := IoManager.grow_ok hgrow
      obtain ⟨hlength, _⟩ := IoManager.contextResize_ok hresize
      obtain ⟨hlt, _⟩ := List.getElem?_eq_some_iff.mp hctx
      have hfd := h.growing thread fd hthread
      refine ⟨?_, ?_⟩
      · change 0 < m'.fdContexts.length ∧ m'.fdContexts.length < 2 ^ 32
        omega
      · intro thread' fd' hthread'
        rcases some_of_update hthread' with heq | hbefore
        · cases heq
        · exact h.growing thread' fd' hbefore
  | elsewhere htable =>
      refine ⟨?_, h.growing⟩
      unfold IoManager.Sized
      rw [htable]
      exact h.sized

theorem keeps_congr {m m' : IoManager} (htable : m'.fdContexts = m.fdContexts)
    (h : m.Keeps m) : m.Keeps m' ∧ m'.Keeps m' := by
  have hlookup : m'.lookup = m.lookup := by
    unfold IoManager.lookup
    rw [htable]
  refine ⟨⟨by rw [htable], ?_⟩, ⟨le_rfl, ?_⟩⟩
  · rw [hlookup]
    exact h.lookup
  · rw [hlookup, htable]
    exact h.lookup

/-- One section keeps the table if and only if it only grows it. -/
theorem Effect.keeps_iff (he : Effect s op s') (h : s.Invariant)
    (hs : s.manager.Keeps s.manager) :
    s.manager.Keeps s'.manager ∧ s'.manager.Keeps s'.manager ↔ s.GrowsOnly op := by
  have hinv := he.invariant h
  cases he with
  | tested _ _ => exact iff_of_true ⟨hs, hs⟩ trivial
  | elsewhere htable => exact iff_of_true (keeps_congr htable hs) trivial
  | @grown thread fd ctx m' hthread hgrow =>
      obtain ⟨hlength, hkept⟩ := IoManager.contextResize_ok (IoManager.grow_ok hgrow).1
      have hself := IoManager.keeps_self_iff hinv.sized
      simp only [hlength] at hself
      constructor
      · rintro ⟨hkeeps, hkeeps'⟩ fd' hthread'
        obtain rfl := Option.some.inj (hthread.symm.trans hthread')
        exact ⟨hlength ▸ hkeeps.size, hself.mp hkeeps'⟩
      · intro hgrows
        obtain ⟨hsize, hsmall⟩ := hgrows fd hthread
        have hkeeps' := hself.mpr hsmall
        refine ⟨⟨by rw [hlength]; exact hsize, ?_⟩, hkeeps'⟩
        intro fd' ctx' hctx'
        obtain ⟨hlt, _⟩ := List.getElem?_eq_some_iff.mp hctx'
        exact hkeeps'.lookup fd' ctx' (hkept fd' (by omega) ctx' hctx')

/-- Descriptors keep their contexts in a run if and only if every growth of the table
comes before the table has grown further. -/
theorem run_keeps_iff (trace : List TableOp) (s : TableCalls) :
    Run Step new trace s ∧
        Run.Pairwise Step (fun s s' => s.manager.Keeps s'.manager) new trace ↔
      Run (Run.Guarded Step GrowsOnly) new trace s := by
  apply Run.pairwise_iff_guarded (I := Invariant)
  · intro s op t u ht hu
    exact Option.some.inj (ht.symm.trans hu)
  · intro s t u hst htu
    exact hst.trans htu
  · intro s op t h hs hstep
    exact ⟨hstep.effect.invariant h, hstep.effect.keeps_iff h hs⟩
  · exact new_invariant
  · exact (IoManager.keeps_self_iff new_invariant.sized).mpr (by decide)

/-- Descriptor 100 gets a context and an event, and descriptor 32, whose section comes
last, cuts it off. -/
theorem run_loses_context :
    ∃ s s', Run Step new [.test 1 32, .test 2 100, .grow 2,
        .onContext (.addEvent 100 .read (some 7) ⟨some 3, 5, true⟩ true)] s ∧
      Run Step s [.grow 1] s' ∧ s.manager.lookup 100 = some 100 ∧
      s'.manager.lookup 100 = none ∧ ¬s.manager.Keeps s'.manager := by
  have hsome : ([TableOp.test 1 32, .test 2 100, .grow 2,
      .onContext (.addEvent 100 .read (some 7) ⟨some 3, 5, true⟩ true)].foldlM step new).any
        (fun s => s.manager.lookup 100 = some 100 && s.manager.fdContexts[100]? = some 100 &&
          (s.step (.grow 1)).any fun s' => s'.manager.lookup 100 = none) = true := by
    decide +kernel
  obtain ⟨s, hs, htest⟩ := (Option.any_eq_true _ _).mp hsome
  simp only [Bool.and_eq_true, decide_eq_true_eq] at htest
  obtain ⟨⟨hfound, htable⟩, hafter⟩ := htest
  obtain ⟨s', hs', hlost⟩ := (Option.any_eq_true _ _).mp hafter
  have hnone := of_decide_eq_true hlost
  refine ⟨s, s', Run.of_foldlM (fun _ _ _ h => h) hs, .cons hs' (.nil s'), hfound, hnone, ?_⟩
  intro hkeeps
  have hstill := hkeeps.lookup 100 100 htable
  rw [hnone] at hstill
  cases hstill

end TableCalls

end Lyslg
