import Lyslg.Support.Entries
import Lyslg.Support.Run
import Mathlib.Data.Nat.Init
import Mathlib.Logic.Function.Basic
/-!
# `ConfigVar::setValue`

A call compares and tells the listeners under the read lock, which it shares with other
calls, and assigns under the write lock, later.  So of two calls that overlap one may tell
the listeners last and the other may assign last.
-/

namespace Lyslg.Config

open Support

variable {α : Type}

/-! ## Calls that overlap -/

/-- A call of `setValue` under way. -/
structure SetCall (α : Type) where
  id : Nat
  val : α
  /-- in the read-locked section, the listeners still to be told; none before the
  write-locked section -/
  untold : Option (List Nat)
  deriving DecidableEq, Repr

/-- A `ConfigVar`, with the calls under way. -/
structure ConfigVar (α : Type) where
  /-- `m_val` -/
  val : α
  /-- the keys of `m_cbs` -/
  cbs : List Nat
  /-- what a listener was last called with, and by which call -/
  told : Nat → Option (Nat × α × α) := fun _ => none
  calls : List (SetCall α) := []
  next : Nat := 0

namespace ConfigVar

variable {s t : ConfigVar α}

inductive Event (α : Type) where
  /-- a call takes the read lock and compares -/
  | setValue (val : α)
  /-- the call at place `k` tells the next listener, lets go of the read lock, or has the
  write lock and assigns -/
  | part (k : Nat)
  deriving DecidableEq, Repr

/-- One step of `setValue`. -/
def step [BEq α] (s : ConfigVar α) : Event α → Option (ConfigVar α)
  | .setValue val =>
      if val == s.val then some s
      else
        some { s with
          calls := s.calls ++ [{ id := s.next, val := val, untold := some s.cbs }]
          next := s.next + 1 }
  | .part k => do
      let call ← s.calls[k]?
      match call.untold with
      | some (cb :: untold) =>
          some { s with
            told := Function.update s.told cb (some (call.id, s.val, call.val))
            calls := replaceAt s.calls k (some { call with untold := some untold }) }
      | some [] => some { s with calls := replaceAt s.calls k (some { call with untold := none }) }
      | none =>
          if s.calls.all fun other => other.untold.isNone then
            some { s with val := call.val, calls := replaceAt s.calls k none }
          else none

/-- With no call under way, what a listener was last told is the value. -/
def Agrees (s : ConfigVar α) : Prop :=
  s.calls = [] → ∀ cb id old new, s.told cb = some (id, old, new) → new = s.val

/-- Of the calls that overlap, the one that assigns last has told each listener last, or has
brought the same value as the one that has. -/
def LastTells (s : ConfigVar α) : Event α → Prop
  | .setValue _ => True
  | .part k =>
      ∀ call, s.calls[k]? = some call → call.untold = none → s.calls.length = 1 →
        ∀ cb id old new, s.told cb = some (id, old, new) → id = call.id ∨ new = call.val

/-- What was told by a call was its value. -/
structure Named (s : ConfigVar α) : Prop where
  told_lt : ∀ cb id old new, s.told cb = some (id, old, new) → id < s.next
  call_lt : ∀ call ∈ s.calls, call.id < s.next
  told_val : ∀ cb id old new, s.told cb = some (id, old, new) →
    ∀ call ∈ s.calls, call.id = id → call.val = new
  same : ∀ call ∈ s.calls, ∀ other ∈ s.calls, call.id = other.id → call.val = other.val

theorem named_start (val : α) (cbs : List Nat) : Named { val := val, cbs := cbs } := by
  constructor <;> simp

/-- The calls go on or end. -/
theorem Named.replace (h : Named s) {k : Nat} {call : SetCall α} (hk : s.calls[k]? = some call)
    {call' : Option (SetCall α)}
    (hcall' : ∀ c, call' = some c → c.id = call.id ∧ c.val = call.val) :
    (∀ c ∈ replaceAt s.calls k call', c.id < s.next) ∧
      ∀ c ∈ replaceAt s.calls k call', ∃ d ∈ s.calls, c.id = d.id ∧ c.val = d.val := by
  have hold : ∀ c ∈ replaceAt s.calls k call', ∃ d ∈ s.calls, c.id = d.id ∧ c.val = d.val := by
    intro c hc
    rcases mem_replaceAt hc with hmem | hnew
    · exact ⟨c, hmem, rfl, rfl⟩
    · exact ⟨call, List.mem_of_getElem? hk, hcall' c hnew⟩
  refine ⟨?_, hold⟩
  intro c hc
  obtain ⟨d, hd, hid, -⟩ := hold c hc
  exact hid ▸ h.call_lt d hd

theorem Named.setValue (h : Named s) (val : α) :
    Named { s with
      calls := s.calls ++ [{ id := s.next, val := val, untold := some s.cbs }]
      next := s.next + 1 } where
  told_lt cb id old new htold := (h.told_lt cb id old new htold).trans (Nat.lt_succ_self _)
  call_lt := by
    intro call hmem
    rcases List.mem_append.mp hmem with hold | hnew
    · exact (h.call_lt call hold).trans (Nat.lt_succ_self _)
    · obtain rfl := List.mem_singleton.mp hnew
      exact Nat.lt_succ_self _
  told_val := by
    intro cb id old new htold call hmem hid
    rcases List.mem_append.mp hmem with hold | hnew
    · exact h.told_val cb id old new htold call hold hid
    · obtain rfl := List.mem_singleton.mp hnew
      have hlt := h.told_lt cb id old new htold
      dsimp only at hid
      omega
  same := by
    -- a new call has a number that no other call has
    have hfresh : ∀ call ∈ s.calls, call.id ≠ s.next := fun call hmem =>
      (h.call_lt call hmem).ne
    intro call hmem other hother hid
    rcases List.mem_append.mp hmem with hold | hnew
    · rcases List.mem_append.mp hother with hold' | hnew'
      · exact h.same call hold other hold' hid
      · obtain rfl := List.mem_singleton.mp hnew'
        exact absurd hid (hfresh call hold)
    · obtain rfl := List.mem_singleton.mp hnew
      rcases List.mem_append.mp hother with hold' | hnew'
      · exact absurd hid.symm (hfresh other hold')
      · obtain rfl := List.mem_singleton.mp hnew'
        rfl

/-- The calls change, but not what they were told to set. -/
theorem Named.of_calls (h : Named s) {calls : List (SetCall α)} (val : α)
    (hcalls : ∀ c ∈ calls, ∃ d ∈ s.calls, c.id = d.id ∧ c.val = d.val) :
    Named { s with val := val, calls := calls } where
  told_lt := h.told_lt
  call_lt := by
    intro c hc
    obtain ⟨d, hd, hid, -⟩ := hcalls c hc
    exact hid ▸ h.call_lt d hd
  told_val := by
    intro cb id old new htold c hc hid
    obtain ⟨d, hd, hsame, hval⟩ := hcalls c hc
    exact hval.trans (h.told_val cb id old new htold d hd (hsame.symm.trans hid))
  same := by
    intro c hc c' hc' hid
    obtain ⟨d, hd, hcd, hval⟩ := hcalls c hc
    obtain ⟨d', hd', hcd', hval'⟩ := hcalls c' hc'
    rw [hval, hval']
    exact h.same d hd d' hd' (hcd.symm.trans (hid.trans hcd'))

/-- A call tells a listener. -/
theorem Named.tell (h : Named s) {call : SetCall α} (hcall : call ∈ s.calls) (cb : Nat) (old : α) :
    Named { s with told := Function.update s.told cb (some (call.id, old, call.val)) } where
  told_lt := by
    intro cb' id old' new htold
    dsimp only at htold
    rw [Function.update_apply] at htold
    split at htold
    · cases htold
      exact h.call_lt call hcall
    · exact h.told_lt cb' id old' new htold
  call_lt := h.call_lt
  told_val := by
    intro cb' id old' new htold other hother hid
    dsimp only at htold
    rw [Function.update_apply] at htold
    split at htold
    · cases htold
      exact h.same other hother call hcall hid
    · exact h.told_val cb' id old' new htold other hother hid
  same := h.same

/-- A step of a call that does not end one leaves nothing to agree on. -/
theorem agrees_of_call {call : SetCall α} (h : call ∈ s.calls) : Agrees s := by
  intro hnil
  rw [hnil] at h
  cases h

/-- What one step does to the names and to the agreement. -/
theorem step_agrees [BEq α] {e : Event α} (h : Named s) (hagrees : Agrees s)
    (hstep : s.step e = some t) : Named t ∧ (Agrees t ↔ LastTells s e) := by
  cases e with
  | setValue val =>
      unfold step at hstep
      dsimp only at hstep
      split at hstep
      · obtain rfl := Option.some.inj hstep
        exact ⟨h, iff_of_true hagrees trivial⟩
      · obtain rfl := Option.some.inj hstep
        exact ⟨h.setValue val, iff_of_true
          (agrees_of_call (List.mem_append_right _ (List.mem_singleton.mpr rfl))) trivial⟩
  | part k =>
      obtain ⟨call, hk, hpart⟩ := Option.bind_eq_some_iff.mp hstep
      have hcall := List.mem_of_getElem? hk
      have hother : call.untold ≠ none → LastTells s (.part k) := by
        intro hne call' hk' hnone
        obtain rfl := Option.some.inj (hk.symm.trans hk')
        exact absurd hnone hne
      obtain ⟨id, val, untold⟩ := call
      cases untold with
      | some untold =>
          cases untold with
          | nil =>
              obtain rfl := Option.some.inj hpart
              have hmem : (⟨id, val, none⟩ : SetCall α) ∈ replaceAt s.calls k
                  (some ⟨id, val, none⟩) := by
                simp [replaceAt]
              refine ⟨h.of_calls s.val (h.replace hk ?_).2, iff_of_true (agrees_of_call hmem)
                (hother (by simp))⟩
              intro c hc
              cases hc
              exact ⟨rfl, rfl⟩
          | cons cb untold =>
              obtain rfl := Option.some.inj hpart
              have hmem : (⟨id, val, some untold⟩ : SetCall α) ∈
                  replaceAt s.calls k (some ⟨id, val, some untold⟩) := by
                simp [replaceAt]
              have htell := h.tell hcall cb s.val
              refine ⟨htell.of_calls s.val (htell.replace hk ?_).2,
                iff_of_true (agrees_of_call hmem)
                (hother (by simp))⟩
              intro c hc
              cases hc
              exact ⟨rfl, rfl⟩
      | none =>
          obtain ⟨-, rfl⟩ := Option.ite_some_none_eq_some.mp hpart
          refine ⟨h.of_calls val (h.replace hk ?_).2, ?_⟩
          · intro c hc
            cases hc
          · constructor
            · intro hagree call' hk' _ hone cb id' old new htold
              obtain rfl := Option.some.inj (hk.symm.trans hk')
              exact Or.inr (hagree ((replaceAt_none_eq_nil hk).mpr hone) cb id' old new htold)
            · intro hlast hnil cb id' old new htold
              have hone := (replaceAt_none_eq_nil hk).mp hnil
              rcases hlast _ hk rfl hone cb id' old new htold with hid | hval
              · exact (h.told_val cb id' old new htold _ hcall hid.symm).symm
              · exact hval

/-- For any number of calls in any order, the listeners and the value agree whenever no call is
under way exactly when of the calls that overlap the one that assigns last has told each
listener last. -/
theorem run_agrees [BEq α] {val : α} {cbs : List Nat} {es : List (Event α)} :
    Run (Run.Ensuring (fun s e t => step s e = some t) Agrees) { val := val, cbs := cbs } es s ↔
      Run (Run.Guarded (fun s e t => step s e = some t) LastTells)
      { val := val, cbs := cbs } es s := by
  refine Run.ensuring_iff_guarded (I := Named) ?_ (named_start val cbs) ?_
  · intro s e t hs hagrees hstep
    exact step_agrees hs hagrees hstep
  · intro _ cb id old new htold
    cases htold

/-- Two calls of which the first to tell is the last to assign. -/
theorem run_disagrees :
    ∃ s : ConfigVar Nat, Run (fun s e t => step s e = some t) { val := 4096, cbs := [1] }
        [.setValue 8192, .part 0, .part 0, .setValue 1024, .part 1, .part 1, .part 1, .part 0] s ∧
      s.calls = [] ∧ s.val = 8192 ∧ s.told 1 = some (1, 4096, 1024) ∧ ¬ Agrees s := by
  refine ⟨_, Run.of_steps rfl, rfl, rfl, rfl, ?_⟩
  intro h
  exact absurd (h rfl 1 1 4096 1024 rfl) (by decide)

end ConfigVar

end Lyslg.Config
