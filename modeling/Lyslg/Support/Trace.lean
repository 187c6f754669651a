import Mathlib.Data.Set.Defs
/-!
# Traces of calls

What may come next in a trace depends on what was there before.  `Each P` says this of
every entry, and it is kept by one entry more that is allowed at the end.
-/

namespace Lyslg.Support.Trace

variable {α : Type*} {P Q : List α → α → Prop} {trace : List α} {a : α}

/-- Every entry is one that `P` allows behind the entries before it. -/
def Each (P : List α → α → Prop) (trace : List α) : Prop :=
  ∀ before a after, trace = before ++ a :: after → P before a

theorem each_nil (P : List α → α → Prop) : Each P [] := by
  intro before a after h
  have hlen := congrArg List.length h
  simp at hlen

theorem each_append_singleton : Each P (trace ++ [a]) ↔ Each P trace ∧ P trace a := by
  constructor
  · intro h
    refine ⟨?_, h trace a [] rfl⟩
    intro before b after hsplit
    exact h before b (after ++ [a]) (by rw [hsplit, List.append_assoc, List.cons_append])
  · rintro ⟨htrace, hlast⟩ before b after hsplit
    rcases List.eq_nil_or_concat after with rfl | ⟨after, c, rfl⟩
    · obtain ⟨rfl, hb⟩ := List.append_inj' hsplit rfl
      obtain rfl := List.singleton_inj.mp hb
      exact hlast
    · rw [List.concat_eq_append, ← List.cons_append, ← List.append_assoc] at hsplit
      exact htrace before b after (List.append_inj_left' hsplit rfl)

theorem Each.mono (hPQ : ∀ before a, P before a → Q before a) (h : Each P trace) :
    Each Q trace :=
  fun before a after hsplit => hPQ _ _ (h before a after hsplit)

end Lyslg.Support.Trace
