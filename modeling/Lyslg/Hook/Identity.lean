import Lyslg.Hook.FdManager
import Lyslg.Support.Run
/-!
# One context for each descriptor

`get(fd, true)` looks for a context under the read lock and creates one under the
write lock, later, without looking again.  Here the calls of several threads are kept
apart: a thread that is creating has found no context and still has the second section
before it.

The index of `m_datas` is safe as long as its size is not negative as an `int`.
-/

namespace Lyslg

open Support Support.Machine Support.State

namespace FdManager

variable {m m' : FdManager} {k k' : Kernel} {fd fd' ctx : Nat}

/-- The table has two places at least, its size fits in 32 bits, and it names contexts that
exist. -/
structure Sized (m : FdManager) : Prop where
  two_le : 2 ≤ m.datas.length
  lt : m.datas.length < 2 ^ 32
  named : ∀ fd ctx, m.entry fd = some ctx → ctx < m.ctxs.length

/-- `m_datas[fd]` is within bounds whichever descriptor is created. -/
def IndexSafe (m : FdManager) : Prop := ∀ fd, fd < m.sizeFor fd

theorem find_eq_some_iff :
    m.find fd = some ctx ↔ m.entry fd = some ctx ∧ (fd : Int) < int32 m.datas.length := by
  unfold find
  rw [Option.filter_eq_some_iff, decide_eq_true_eq]

theorem entry_eq_some_iff : m.entry fd = some ctx ↔ m.datas[fd]? = some (some ctx) :=
  Option.join_eq_some_iff

theorem lt_length_of_entry (h : m.entry fd = some ctx) : fd < m.datas.length :=
  (List.getElem?_eq_some_iff.mp (entry_eq_some_iff.mp h)).1

theorem sizeFor_of_lt (h : m.datas.length < 2 ^ 31) (fd : Nat) :
    m.sizeFor fd = if m.datas.length ≤ fd then fd * 3 / 2 else m.datas.length := by
  unfold sizeFor
  rw [int32_natCast h]
  simp only [Nat.cast_le]

/-- The index is safe if and only if the size is not negative. -/
theorem indexSafe_iff (h : m.Sized) : m.IndexSafe ↔ m.datas.length < 2 ^ 31 := by
  constructor
  · intro hsafe
    by_contra hlarge
    have hneg := int32_wrap_neg (Nat.le_of_not_lt hlarge) h.lt
    have hzero := hsafe 0
    unfold sizeFor at hzero
    rw [if_pos (by omega)] at hzero
    omega
  · intro hsmall fd
    rw [sizeFor_of_lt hsmall]
    have := h.two_le
    split_ifs <;> omega

theorem length_resize (m : FdManager) (size : Nat) : (m.resize size).datas.length = size := by
  simp [resize]
  omega

/-- `resize` keeps what fits and adds nothing. -/
theorem entry_resize (m : FdManager) (size fd : Nat) :
    (m.resize size).entry fd = if fd < size then m.entry fd else none := by
  unfold entry resize
  dsimp only
  by_cases hfd : fd < size
  · rw [if_pos hfd]
    by_cases hlt : fd < m.datas.length
    · rw [List.getElem?_append_left (by simp; omega), List.getElem?_take_of_lt hfd]
    · rw [List.getElem?_append_right (by simp; omega), List.getElem?_replicate,
        List.getElem?_eq_none (Nat.le_of_not_lt hlt)]
      split_ifs <;> rfl
  · rw [if_neg hfd, List.getElem?_eq_none (by simp; omega)]
    rfl

/-- The table gets the length `size` and a new context for `fd`. -/
structure CreatedIn (m : FdManager) (fd size ctx : Nat) (m' : FdManager) : Prop where
  name : ctx = m.ctxs.length
  ctxs : m'.ctxs.length = m.ctxs.length + 1
  length : m'.datas.length = size
  bound : fd < size
  entry : m'.entry fd = some ctx
  other : ∀ fd' ≠ fd, m'.entry fd' = if fd' < size then m.entry fd' else none

theorem createIn_created {size : Nat} (h : m.createIn k fd size = some (ctx, m', k')) :
    CreatedIn m fd size ctx m' := by
  obtain ⟨hname, hctxs, _⟩ := createIn_ctxs h
  unfold createIn at h
  dsimp only at h
  obtain ⟨hbound, hsome⟩ := Option.ite_none_right_eq_some.mp h
  obtain ⟨rfl, hafter⟩ := Prod.mk.inj (Option.some.inj hsome)
  obtain ⟨rfl, -⟩ := Prod.mk.inj hafter
  rw [length_resize] at hbound
  refine ⟨hname, ?_, ?_, hbound, ?_, ?_⟩
  · rw [hctxs, List.length_append]
    rfl
  · rw [List.length_set, length_resize]
  · unfold entry
    dsimp only
    rw [List.getElem?_set_self (by rw [length_resize]; exact hbound)]
    rfl
  · intro fd' hne
    rw [← entry_resize]
    unfold entry
    dsimp only
    rw [List.getElem?_set_ne (Ne.symm hne)]

/-- What the second section of `get(fd, true)` does. -/
abbrev Created (m : FdManager) (fd ctx : Nat) (m' : FdManager) : Prop :=
  CreatedIn m fd (m.sizeFor fd) ctx m'

theorem CreatedIn.sized (hc : Created m fd ctx m') (h : m.Sized) (hfd : fd < 2 ^ 31) :
    m'.Sized := by
  have hbound := hc.bound
  have hsize : 2 ≤ m.sizeFor fd ∧ m.sizeFor fd < 2 ^ 32 := by
    have := h.two_le
    have := h.lt
    unfold sizeFor at hbound ⊢
    split_ifs at hbound ⊢ <;> omega
  refine ⟨?_, ?_, ?_⟩
  · rw [hc.length]
    exact hsize.1
  · rw [hc.length]
    exact hsize.2
  · intro fd' ctx' hentry
    rw [hc.ctxs]
    by_cases heq : fd' = fd
    · subst heq
      rw [hc.entry] at hentry
      obtain rfl := Option.some.inj hentry
      rw [hc.name]
      exact Nat.lt_succ_self _
    · rw [hc.other fd' heq] at hentry
      split_ifs at hentry
      exact Nat.lt_add_right 1 (h.named fd' ctx' hentry)

/-- `del` and assignments to contexts keep the size and add no entry. -/
theorem entry_del (m : FdManager) (fd fd' : Nat) :
    (m.del fd).entry fd' = m.entry fd' ∨ (m.del fd).entry fd' = none ∧ fd' = fd := by
  unfold del
  split_ifs
  · exact Or.inl rfl
  · by_cases heq : fd' = fd
    · refine Or.inr ⟨?_, heq⟩
      subst heq
      unfold entry
      dsimp only
      rw [List.getElem?_set, if_pos rfl]
      split_ifs <;> rfl
    · refine Or.inl ?_
      unfold entry
      dsimp only
      rw [List.getElem?_set_ne (Ne.symm heq)]

theorem length_del (m : FdManager) (fd : Nat) : (m.del fd).datas.length = m.datas.length := by
  unfold del
  split_ifs
  · rfl
  · exact List.length_set

end FdManager

/-! ## Calls from several threads -/

/-- A manager, and the threads between the two sections of `get(fd, true)`, with their
descriptors. -/
structure GetCalls where
  manager : FdManager
  creating : Nat → Option Nat

/-- `find` is the read-locked section of `get(fd, autoCreate)`, `create` the write-locked one
of a thread that found no context; `k` is the state of the system then.  The last two assign
through a context. -/
inductive GetOp where
  | find (thread fd : Nat) (autoCreate : Bool)
  | create (thread fd : Nat) (k : Kernel)
  | del (fd : Nat)
  | setTimerout (ctx : Nat) (type : TimeoutOpt) (v : Nat)
  | setUserNonblock (ctx : Nat) (v : Bool)

/-- What a section returns from a call of `get` for `fd`, if the call ends there. -/
def GetOp.returns (fd : Nat) : GetOp × Option (Option Nat) → Option (Option Nat)
  | (.find _ fd' _, returned) => if fd' = fd then returned else none
  | (.create _ fd' _, returned) => if fd' = fd then returned else none
  | _ => none

/-- The section is `del(fd)`. -/
def GetOp.deletes (fd : Nat) : GetOp → Bool
  | .del fd' => fd' = fd
  | _ => false

namespace GetCalls

def new : GetCalls := ⟨FdManager.new, fun _ => none⟩

/-- What a section returns to the caller of `get`, if the call ends there, and the calls
after it. -/
def step (s : GetCalls) : GetOp → Option (Option (Option Nat) × GetCalls)
  | .find thread fd autoCreate =>
      if s.creating thread = none ∧ fd < 2 ^ 31 then
        match s.manager.find fd, autoCreate with
        | some ctx, _ => some (some (some ctx), s)
        | none, false => some (some none, s)
        | none, true =>
            some (none, { s with creating := Function.update s.creating thread (some fd) })
      else none
  | .create thread fd k =>
      if s.creating thread = some fd then
        (s.manager.create k fd).map fun (ctx, m, _) =>
          (some (some ctx), ⟨m, Function.update s.creating thread none⟩)
      else none
  | .del fd => some (none, { s with manager := s.manager.del fd })
  | .setTimerout ctx type v =>
      some (none, { s with manager := s.manager.update ctx fun c => c.setTimerout type v })
  | .setUserNonblock ctx v =>
      some (none, { s with manager := s.manager.update ctx fun c => c.setUserNonblock v })

/-- One section of a run without `del(fd)`. -/
def Step (fd : Nat) (s : GetCalls) (label : GetOp × Option (Option Nat)) (s' : GetCalls) : Prop :=
  label.1.deletes fd = false ∧ s.step label.1 = some (label.2, s')

/-- The calls after a step with a given result. -/
def take (fd : Nat) (s : GetCalls) (label : GetOp × Option (Option Nat)) : Option GetCalls :=
  (s.step label.1).bind fun after =>
    if label.1.deletes fd = false ∧ after.1 = label.2 then some after.2 else none

theorem take_some {fd : Nat} {s s' : GetCalls} {label : GetOp × Option (Option Nat)}
    (h : s.take fd label = some s') : Step fd s label s' := by
  obtain ⟨⟨returned, s₁⟩, hstep, hsome⟩ := Option.bind_eq_some_iff.mp h
  obtain ⟨⟨hdel, heq⟩, hsome⟩ := Option.ite_none_right_eq_some.mp hsome
  obtain rfl := Option.some.inj hsome
  exact ⟨hdel, heq ▸ hstep⟩

/-- The context of `fd` stays, every later `get(fd)` finds it, and every index is within
bounds. -/
structure SameCtx (fd : Nat) (s s' : GetCalls) : Prop where
  find : ∀ ctx, s.manager.entry fd = some ctx → s'.manager.find fd = some ctx
  index : s'.manager.IndexSafe

/-- A context for `fd` is created only where there is none, and the descriptors that make the
table longer leave its size positive. -/
def CreatesOnce (fd : Nat) (s : GetCalls) (label : GetOp × Option (Option Nat)) : Prop :=
  match label.1 with
  | .create _ fd' _ => (fd' = fd → s.manager.entry fd = none) ∧
      (s.manager.datas.length ≤ fd' → fd' * 3 / 2 < 2 ^ 31)
  | _ => True

/-- What every run keeps. -/
structure Invariant (s : GetCalls) : Prop where
  sized : s.manager.Sized
  creating : ∀ thread fd, s.creating thread = some fd → fd < 2 ^ 31

variable {fd : Nat} {s s' : GetCalls} {op : GetOp} {returned : Option (Option Nat)}

theorem new_invariant : new.Invariant := by
  refine ⟨⟨by decide, by decide, ?_⟩, ?_⟩
  · intro fd ctx hentry
    rw [FdManager.entry_eq_some_iff] at hentry
    have hmem : some ctx ∈ List.replicate 64 none := List.mem_of_getElem? hentry
    cases (List.mem_replicate.mp hmem).2
  · intro thread fd hthread
    cases hthread

/-- What a section does to the table, what it returns and who is creating after it. -/
inductive Effect (s : GetCalls) : GetOp → Option (Option Nat) → GetCalls → Prop where
  | found {thread fd : Nat} {autoCreate : Bool} :
      Effect s (.find thread fd autoCreate) (some (s.manager.find fd)) s
  | missed {thread fd : Nat} : fd < 2 ^ 31 →
      Effect s (.find thread fd true) none
        { s with creating := Function.update s.creating thread (some fd) }
  | created {thread fd ctx : Nat} {k : Kernel} {m' : FdManager} :
      s.creating thread = some fd → FdManager.Created s.manager fd ctx m' →
      Effect s (.create thread fd k) (some (some ctx)) ⟨m', Function.update s.creating thread none⟩
  | deleted {fd : Nat} : Effect s (.del fd) none { s with manager := s.manager.del fd }
  | timed {ctx v : Nat} {type : TimeoutOpt} : Effect s (.setTimerout ctx type v) none
      { s with manager := s.manager.update ctx fun c => c.setTimerout type v }
  | flagged {ctx : Nat} {v : Bool} : Effect s (.setUserNonblock ctx v) none
      { s with manager := s.manager.update ctx fun c => c.setUserNonblock v }

theorem step_effect (h : s.step op = some (returned, s')) : Effect s op returned s' := by
  cases op with
  | find thread fd autoCreate =>
      obtain ⟨⟨_, hfd⟩, hsome⟩ := Option.ite_none_right_eq_some.mp h
      cases hfind : s.manager.find fd with
      | some ctx =>
          rw [hfind] at hsome
          obtain ⟨rfl, rfl⟩ := Prod.mk.inj (Option.some.inj hsome)
          exact hfind ▸ .found
      | none =>
          rw [hfind] at hsome
          cases autoCreate with
          | false =>
              obtain ⟨rfl, rfl⟩ := Prod.mk.inj (Option.some.inj hsome)
              exact hfind ▸ .found
          | true =>
              obtain ⟨rfl, rfl⟩ := Prod.mk.inj (Option.some.inj hsome)
              exact .missed hfd
  | create thread fd k =>
      obtain ⟨hthread, hsome⟩ := Option.ite_none_right_eq_some.mp h
      obtain ⟨⟨ctx, m', k'⟩, hcreate, hafter⟩ := Option.map_eq_some_iff.mp hsome
      obtain ⟨rfl, rfl⟩ := Prod.mk.inj hafter
      exact .created hthread (FdManager.createIn_created hcreate)
  | del fd =>
      obtain ⟨rfl, rfl⟩ := Prod.mk.inj (Option.some.inj h)
      exact .deleted
  | setTimerout ctx type v =>
      obtain ⟨rfl, rfl⟩ := Prod.mk.inj (Option.some.inj h)
      exact .timed
  | setUserNonblock ctx v =>
      obtain ⟨rfl, rfl⟩ := Prod.mk.inj (Option.some.inj h)
      exact .flagged

theorem update_sized {m : FdManager} (h : m.Sized) (ctx : Nat) (f : FdCtx → FdCtx) :
    (m.update ctx f).Sized := by
  refine ⟨h.two_le, h.lt, ?_⟩
  intro fd ctx' hentry
  change ctx' < (m.ctxs.modify ctx f).length
  rw [List.length_modify]
  exact h.named fd ctx' hentry

theorem del_sized {m : FdManager} (h : m.Sized) (fd : Nat) : (m.del fd).Sized := by
  have hctxs : (m.del fd).ctxs = m.ctxs := by
    unfold FdManager.del
    split_ifs <;> rfl
  refine ⟨?_, ?_, ?_⟩
  · rw [m.length_del]
    exact h.two_le
  · rw [m.length_del]
    exact h.lt
  · intro fd' ctx hentry
    rw [hctxs]
    rcases m.entry_del fd fd' with hsame | ⟨hnone, _⟩
    · exact h.named fd' ctx (hsame ▸ hentry)
    · rw [hnone] at hentry
      cases hentry

theorem Effect.invariant (he : Effect s op returned s') (h : s.Invariant) : s'.Invariant := by
  cases he with
  | found => exact h
  | missed hfd =>
      refine ⟨h.sized, ?_⟩
      intro thread' fd' hthread'
      rcases some_of_update hthread' with heq | hbefore
      · rwa [← Option.some.inj heq]
      · exact h.creating thread' fd' hbefore
  | @created thread fd ctx k m' hthread hcreated =>
      refine ⟨hcreated.sized h.sized (h.creating thread fd hthread), ?_⟩
      intro thread' fd' hthread'
      rcases some_of_update hthread' with heq | hbefore
      · cases heq
      · exact h.creating thread' fd' hbefore
  | deleted => exact ⟨del_sized h.sized _, h.creating⟩
  | timed => exact ⟨update_sized h.sized _ _, h.creating⟩
  | flagged => exact ⟨update_sized h.sized _ _, h.creating⟩

/-- In one state, `SameCtx` says that the size is not negative. -/
theorem sameCtx_self_iff (h : s.Invariant) :
    SameCtx fd s s ↔ s.manager.datas.length < 2 ^ 31 := by
  constructor
  · intro hsame
    exact (FdManager.indexSafe_iff h.sized).mp hsame.index
  · intro hsmall
    refine ⟨?_, (FdManager.indexSafe_iff h.sized).mpr hsmall⟩
    intro ctx hentry
    have hlt := FdManager.lt_length_of_entry hentry
    rw [FdManager.find_eq_some_iff, int32_natCast hsmall]
    exact ⟨hentry, by omega⟩

theorem SameCtx.trans {s₁ s₂ s₃ : GetCalls} (h₁ : SameCtx fd s₁ s₂) (h₂ : SameCtx fd s₂ s₃) :
    SameCtx fd s₁ s₃ := by
  refine ⟨?_, h₂.index⟩
  intro ctx hentry
  exact h₂.find ctx (FdManager.find_eq_some_iff.mp (h₁.find ctx hentry)).1

/-- A section that keeps the entry and the size. -/
theorem sameCtx_of_entry (hs : SameCtx fd s s) (hinv : s.Invariant) (hinv' : s'.Invariant)
    (hentry : s'.manager.entry fd = s.manager.entry fd)
    (hlength : s'.manager.datas.length = s.manager.datas.length) :
    SameCtx fd s s' ∧ SameCtx fd s' s' := by
  have hself : SameCtx fd s' s' := by
    rw [sameCtx_self_iff hinv', hlength]
    exact (sameCtx_self_iff hinv).mp hs
  exact ⟨⟨fun ctx h => hself.find ctx (hentry.trans h), hself.index⟩, hself⟩

/-- The size after a creation. -/
theorem sizeFor_lt_iff (hsmall : s.manager.datas.length < 2 ^ 31) (fd : Nat) :
    s.manager.sizeFor fd < 2 ^ 31 ↔
      (s.manager.datas.length ≤ fd → fd * 3 / 2 < 2 ^ 31) := by
  rw [FdManager.sizeFor_of_lt hsmall]
  split_ifs with hle
  · simp [hle]
  · exact iff_of_true hsmall fun h => absurd h hle

/-- One section keeps the context of `fd` if and only if it does not create a second one. -/
theorem Effect.sameCtx_iff (he : Effect s op returned s') (hdel : op.deletes fd = false)
    (h : s.Invariant) (hs : SameCtx fd s s) :
    SameCtx fd s s' ∧ SameCtx fd s' s' ↔ s.CreatesOnce fd (op, returned) := by
  have hinv := he.invariant h
  cases he with
  | found => exact iff_of_true ⟨hs, hs⟩ trivial
  | missed _ => exact iff_of_true (sameCtx_of_entry hs h hinv rfl rfl) trivial
  | timed => exact iff_of_true (sameCtx_of_entry hs h hinv rfl rfl) trivial
  | flagged => exact iff_of_true (sameCtx_of_entry hs h hinv rfl rfl) trivial
  | @deleted fd' =>
      refine iff_of_true (sameCtx_of_entry hs h hinv ?_ (s.manager.length_del fd')) trivial
      rcases s.manager.entry_del fd' fd with hsame | ⟨_, rfl⟩
      · exact hsame
      · simp [GetOp.deletes] at hdel
  | @created thread fd' ctx k m' hthread hcreated =>
      have hsmall := (sameCtx_self_iff h).mp hs
      have hself := @sameCtx_self_iff fd _ hinv
      simp only [hcreated.length] at hself
      rw [hself]
      change _ ↔ (fd' = fd → _) ∧ (_ → _)
      rw [← sizeFor_lt_iff hsmall fd']
      constructor
      · rintro ⟨hsame, hsize⟩
        refine ⟨?_, hsize⟩
        rintro rfl
        by_contra hentry
        obtain ⟨old, hold⟩ := Option.ne_none_iff_exists'.mp hentry
        have hfind := (FdManager.find_eq_some_iff.mp (hsame.find old hold)).1
        rw [hcreated.entry] at hfind
        have hnamed := h.sized.named fd' old hold
        rw [← Option.some.inj hfind, hcreated.name] at hnamed
        exact Nat.lt_irrefl _ hnamed
      · rintro ⟨honce, hsize⟩
        have hsame' := hself.mpr hsize
        refine ⟨⟨?_, hsame'.index⟩, hsize⟩
        intro old hold
        apply hsame'.find
        by_cases heq : fd' = fd
        · rw [honce heq] at hold
          cases hold
        · rw [hcreated.other fd (Ne.symm heq), if_pos, hold]
          have hlt := FdManager.lt_length_of_entry hold
          rw [FdManager.sizeFor_of_lt hsmall]
          split_ifs <;> omega

/-- A call of `get(fd)` returns what `get(fd)` finds now, or the context it has created. -/
theorem Effect.returns (he : Effect s op returned s') {r : Option Nat}
    (hr : GetOp.returns fd (op, returned) = some r) :
    r = s'.manager.find fd ∨ ∃ ctx, r = some ctx ∧ s'.manager.entry fd = some ctx := by
  cases he with
  | found =>
      obtain ⟨rfl, hsome⟩ := Option.ite_none_right_eq_some.mp hr
      exact Or.inl (Option.some.inj hsome).symm
  | created _ hcreated =>
      obtain ⟨rfl, hsome⟩ := Option.ite_none_right_eq_some.mp hr
      exact Or.inr ⟨_, (Option.some.inj hsome).symm, hcreated.entry⟩
  | missed _ =>
      obtain ⟨rfl, hsome⟩ := Option.ite_none_right_eq_some.mp hr
      cases hsome
  | _ => cases hr

/-- Once a call for `fd` has returned a context, all later ones return the same. -/
def AllSame (fd : Nat) (trace : List (GetOp × Option (Option Nat))) : Prop :=
  ∀ pre first mid later post ctx r, trace = pre ++ first :: (mid ++ later :: post) →
    GetOp.returns fd first = some (some ctx) → GetOp.returns fd later = some r → r = some ctx

theorem allSame_of_pairwise {trace : List (GetOp × Option (Option Nat))}
    (hrun : Run (Step fd) s trace s') (hpair : Run.Pairwise (Step fd) (SameCtx fd) s trace) :
    AllSame fd trace := by
  rintro pre first mid later post ctx r rfl hfirst hlater
  obtain ⟨s₁, hpre, hrest⟩ := hrun.split
  cases hrest with
  | @cons _ s₂ _ _ _ hstep₁ hrest =>
      obtain ⟨s₃, hmid, hrest⟩ := hrest.split
      cases hrest with
      | @cons _ s₄ _ _ _ hstep₂ _ =>
          have hsame : SameCtx fd s₂ s₄ := by
            refine hpair (pre ++ [first]) (mid ++ [later]) post s₂ s₄ (by simp) ?_ ?_
            · exact hpre.append (.cons hstep₁ (.nil s₂))
            · exact hmid.append (.cons hstep₂ (.nil s₄))
          have hentry : s₂.manager.entry fd = some ctx := by
            rcases (step_effect hstep₁.2).returns hfirst with hfind | ⟨ctx', heq, hentry⟩
            · exact (FdManager.find_eq_some_iff.mp hfind.symm).1
            · rw [hentry, Option.some.inj heq]
          have hfind := hsame.find ctx hentry
          rcases (step_effect hstep₂.2).returns hlater with rfl | ⟨ctx', rfl, hentry'⟩
          · exact hfind
          · rw [← hentry', (FdManager.find_eq_some_iff.mp hfind).1]

/-- All calls of `get` for a descriptor agree in a run, and stay within bounds, if and only
if no creation comes behind another one. -/
theorem run_sameCtx_iff (fd : Nat) (trace : List (GetOp × Option (Option Nat))) (s : GetCalls) :
    Run (Step fd) new trace s ∧ AllSame fd trace ∧
        Run.Pairwise (Step fd) (SameCtx fd) new trace ↔
      Run (Run.Guarded (Step fd) (CreatesOnce fd)) new trace s := by
  have hiff : Run (Step fd) new trace s ∧ Run.Pairwise (Step fd) (SameCtx fd) new trace ↔
      Run (Run.Guarded (Step fd) (CreatesOnce fd)) new trace s := by
    apply Run.pairwise_iff_guarded (I := Invariant)
    · intro s label t u ht hu
      exact (Prod.mk.inj (Option.some.inj (ht.2.symm.trans hu.2))).2
    · intro s t u hst htu
      exact hst.trans htu
    · intro s label t h hs hstep
      have he := step_effect hstep.2
      exact ⟨he.invariant h, he.sameCtx_iff hstep.1 h hs⟩
    · exact new_invariant
    · exact (sameCtx_self_iff new_invariant).mpr (by decide)
  rw [← hiff]
  constructor
  · rintro ⟨hrun, -, hpair⟩
    exact ⟨hrun, hpair⟩
  · rintro ⟨hrun, hpair⟩
    exact ⟨hrun, allSame_of_pairwise hrun hpair, hpair⟩

/-- Two threads find no context for descriptor 5 and create one each. -/
def racingCreators : List (GetOp × Option (Option Nat)) :=
  [(.find 1 5 true, none), (.find 2 5 true, none),
    (.create 1 5 ⟨fun _ => some true, fun _ => 0⟩, some (some 0)),
    (.setTimerout 0 .rcvtimeo 120000, none),
    (.create 2 5 ⟨fun _ => some true, fun _ => oNonblock⟩, some (some 1)),
    (.find 1 5 false, some (some 1))]

/-- The calls return different contexts, and the timeout set in the first is not seen any
more. -/
theorem run_creates_two_contexts :
    ∃ s, Run (Step 5) new racingCreators s ∧ ¬AllSame 5 racingCreators ∧
      (s.manager.find 5).bind (fun ctx => s.manager.ctxs[ctx]?.map (·.recvTimeout)) =
        some (2 ^ 64 - 1) := by
  have hsome : (racingCreators.foldlM (take 5) new).any (fun s =>
      (s.manager.find 5).bind (fun ctx => s.manager.ctxs[ctx]?.map (·.recvTimeout)) =
        some (2 ^ 64 - 1)) = true := by
    decide +kernel
  obtain ⟨s, hs, htimeout⟩ := (Option.any_eq_true _ _).mp hsome
  refine ⟨s, Run.of_foldlM (fun _ _ _ => take_some) hs, ?_, of_decide_eq_true htimeout⟩
  intro hsame
  have hsplit : racingCreators = racingCreators.take 2 ++ racingCreators[2] ::
      ([racingCreators[3]] ++ racingCreators[4] :: racingCreators.drop 5) := rfl
  cases hsame _ _ _ _ _ 0 (some 1) hsplit rfl rfl

end GetCalls

end Lyslg
