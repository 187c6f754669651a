import Mathlib.Data.Set.Defs
import Mathlib.Logic.Function.Basic
/-!
# Stateful calls that may fail

How `EStateM` computations evaluate on a given state.  A failing call keeps
the state it reached, which is what a C++ exception does to the object.
-/

namespace Lyslg.Support.State

variable {ε σ α β : Type}

theorem bind_ok {x : EStateM ε σ α} {f : α → EStateM ε σ β} {s t : σ} {a : α}
    (h : x s = .ok a t) : (x >>= f) s = f a t := by
  change EStateM.bind x f s = f a t
  rw [EStateM.bind, h]

theorem bind_error {x : EStateM ε σ α} {f : α → EStateM ε σ β} {s t : σ} {e : ε}
    (h : x s = .error e t) : (x >>= f) s = .error e t := by
  change EStateM.bind x f s = .error e t
  rw [EStateM.bind, h]

/-- A sequence that returns, taken apart. -/
theorem bind_inv {x : EStateM ε σ α} {f : α → EStateM ε σ β} {s t : σ} {b : β}
    (h : (x >>= f) s = .ok b t) : ∃ a u, x s = .ok a u ∧ f a u = .ok b t := by
  cases hx : x s with
  | ok a u => exact ⟨a, u, rfl, (bind_ok hx).symm.trans h⟩
  | error e u =>
      rw [bind_error hx] at h
      cases h

theorem run'_ok {x : EStateM ε σ α} {s t : σ} {a : α} (h : x s = .ok a t) :
    x.run' s = some a := by
  change (match x s with
    | .ok a _ => some a
    | .error _ _ => none) = some a
  rw [h]

@[simp] theorem pure_apply (a : α) (s : σ) :
    (pure a : EStateM ε σ α) s = .ok a s := rfl

@[simp] theorem throw_apply (e : ε) (s : σ) :
    (throw e : EStateM ε σ α) s = .error e s := rfl

@[simp] theorem get_bind (f : σ → EStateM ε σ β) (s : σ) :
    ((get : EStateM ε σ σ) >>= f) s = f s s := rfl

@[simp] theorem modify_apply (g : σ → σ) (s : σ) :
    (modify g : EStateM ε σ PUnit) s = .ok ⟨⟩ (g s) := rfl

@[simp] theorem modify_bind (g : σ → σ) (f : PUnit → EStateM ε σ β) (s : σ) :
    ((modify g : EStateM ε σ PUnit) >>= f) s = f ⟨⟩ (g s) := rfl

@[simp] theorem throw_bind (e : ε) (f : α → EStateM ε σ β) (s : σ) :
    ((throw e : EStateM ε σ α) >>= f) s = .error e s := rfl

@[simp] theorem pure_bind_apply (a : α) (f : α → EStateM ε σ β) (s : σ) :
    ((pure a : EStateM ε σ α) >>= f) s = f a s := rfl

/-! ## Without a state -/

@[simp] theorem ok_bind (a : α) (f : α → Except ε β) : ((Except.ok a : Except ε α) >>= f) = f a :=
  rfl

@[simp] theorem error_bind (e : ε) (f : α → Except ε β) :
    ((Except.error e : Except ε α) >>= f) = .error e := rfl

theorem ok_of_bind {x : Except ε α} {f : α → Except ε β} {b : β} (h : (x >>= f) = .ok b) :
    ∃ a, x = .ok a ∧ f a = .ok b := by
  cases x with
  | ok a => exact ⟨a, rfl, h⟩
  | error e => cases h

theorem ok_of_toOption {x : Except ε α} {a : α} (h : x.toOption = some a) : x = .ok a := by
  cases x with
  | ok b =>
      obtain rfl := Option.some.inj h
      rfl
  | error e => cases h

/-! ## One slot for each thread -/

theorem some_of_update {ι : Type*} [DecidableEq ι] {f : ι → Option α} {i j : ι}
    {v : Option α} {a : α}
    (h : Function.update f i v j = some a) : v = some a ∨ f j = some a := by
  by_cases hij : j = i
  · subst hij
    rw [Function.update_self] at h
    exact Or.inl h
  · rw [Function.update_of_ne hij] at h
    exact Or.inr h

end Lyslg.Support.State
