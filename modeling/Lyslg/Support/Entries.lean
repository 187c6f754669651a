import Mathlib.Algebra.BigOperators.Group.List.Basic
import Mathlib.Tactic.Abel
/-!
# Lists with an entry that changes

Operations under way are a list.  One of them goes on or ends, and what they add up to
changes by what that one adds.
-/

namespace Lyslg.Support

variable {α β : Type*} [AddCommMonoid β]

/-- Entry `k` becomes `a`, or goes. -/
def replaceAt (xs : List α) (k : Nat) (a : Option α) : List α :=
  xs.take k ++ a.toList ++ xs.drop (k + 1)

theorem replaceAt_cut {xs : List α} {k : Nat} {a : α} (h : xs[k]? = some a) :
    xs = xs.take k ++ [a] ++ xs.drop (k + 1) := by
  obtain ⟨hlt, rfl⟩ := List.getElem?_eq_some_iff.mp h
  rw [List.append_assoc, List.singleton_append, List.cons_getElem_drop_succ, List.take_append_drop]

theorem sum_map_replaceAt {xs : List α} {k : Nat} {a : α} (h : xs[k]? = some a) (b : Option α)
    (f : α → β) :
    ((replaceAt xs k b).map f).sum + f a = (xs.map f).sum + (b.toList.map f).sum := by
  conv_rhs => rw [replaceAt_cut h]
  unfold replaceAt
  simp only [List.map_append, List.sum_append, List.map_cons, List.map_nil, List.sum_cons,
    List.sum_nil]
  abel

theorem sum_map_concat (xs : List α) (a : α) (f : α → β) :
    ((xs ++ [a]).map f).sum = (xs.map f).sum + f a := by
  rw [List.map_append, List.sum_append, List.map_cons, List.map_nil, List.sum_cons, List.sum_nil,
    add_zero]

theorem mem_replaceAt {xs : List α} {k : Nat} {x : α} {b : Option α}
    (hx : x ∈ replaceAt xs k b) : x ∈ xs ∨ b = some x := by
  unfold replaceAt at hx
  simp only [List.mem_append, Option.mem_toList] at hx
  rcases hx with (hx | hx) | hx
  · exact Or.inl (List.mem_of_mem_take hx)
  · exact Or.inr hx
  · exact Or.inl (List.mem_of_mem_drop hx)

theorem replaceAt_none_eq_nil {xs : List α} {k : Nat} {a : α} (h : xs[k]? = some a) :
    replaceAt xs k none = [] ↔ xs.length = 1 := by
  obtain ⟨hlt, -⟩ := List.getElem?_eq_some_iff.mp h
  rw [← List.length_eq_zero_iff]
  unfold replaceAt
  simp only [Option.toList_none, List.append_nil, List.length_append, List.length_take,
    List.length_drop]
  omega

end Lyslg.Support
