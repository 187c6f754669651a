import Mathlib.Algebra.BigOperators.Group.Finset.Basic
import Mathlib.Data.List.GetD
import Mathlib.Data.Nat.Digits.Defs
import Mathlib.Tactic.Ring
/-!
# Horner's scheme

One product and one addition for each letter of a word, the sum of the letters times falling
powers of the base that this computes, and the digits of a number that are read this way.
-/

namespace Lyslg.Support.Horner

section Loop

variable {R S : Type*} [Add R] [Mul R] [Add S] [Mul S]

/-- `h = b * h + a` for each letter `a`. -/
def horner (b : R) : R → List R → R
  | h, [] => h
  | h, a :: l => horner b (b * h + a) l

@[simp] theorem horner_nil (b h : R) : horner b h [] = h := rfl

@[simp] theorem horner_cons (b h a : R) (l : List R) :
    horner b h (a :: l) = horner b (b * h + a) l := rfl

theorem horner_append (b h : R) (l l' : List R) :
    horner b h (l ++ l') = horner b (horner b h l) l' := by
  induction l generalizing h with
  | nil => rfl
  | cons a l ih => exact ih (b * h + a)

/-- A map that respects sums and products carries the loop over, wrapping round for instance. -/
theorem map_horner (f : R → S) (hadd : ∀ x y, f (x + y) = f x + f y)
    (hmul : ∀ x y, f (x * y) = f x * f y) (b h : R) (l : List R) :
    f (horner b h l) = horner (f b) (f h) (l.map f) := by
  induction l generalizing h with
  | nil => rfl
  | cons a l ih =>
      calc f (horner b (b * h + a) l) = horner (f b) (f (b * h + a)) (l.map f) := ih _
        _ = horner (f b) (f b * f h + f a) (l.map f) := by rw [hadd, hmul]

end Loop

/-! ## The sum that is computed -/

section Sum

variable {R : Type*} [CommRing R]

/-- The letters times falling powers of the base, the last of them times one. -/
def weightedSum (b : R) (l : List R) : R :=
  ∑ i ∈ Finset.range l.length, l.getD i 0 * b ^ (l.length - 1 - i)

theorem weightedSum_cons (b a : R) (l : List R) :
    weightedSum b (a :: l) = a * b ^ l.length + weightedSum b l := by
  have hrest : ∀ i ∈ Finset.range l.length,
      (a :: l).getD (i + 1) 0 * b ^ (l.length + 1 - 1 - (i + 1)) =
        l.getD i 0 * b ^ (l.length - 1 - i) := by
    intro i hi
    have hlt := Finset.mem_range.mp hi
    rw [List.getD_cons_succ, (by omega : l.length + 1 - 1 - (i + 1) = l.length - 1 - i)]
  rw [weightedSum, weightedSum, List.length_cons, Finset.sum_range_succ',
    Finset.sum_congr rfl hrest]
  exact add_comm _ _

theorem horner_eq (b h : R) (l : List R) :
    horner b h l = h * b ^ l.length + weightedSum b l := by
  induction l generalizing h with
  | nil => simp [weightedSum]
  | cons a l ih =>
      calc horner b (b * h + a) l = (b * h + a) * b ^ l.length + weightedSum b l := ih _
        _ = h * b ^ (l.length + 1) + (a * b ^ l.length + weightedSum b l) := by ring
        _ = h * b ^ (a :: l).length + weightedSum b (a :: l) := by
            rw [weightedSum_cons, List.length_cons]

theorem horner_zero (b : R) (l : List R) : horner b 0 l = weightedSum b l := by
  rw [horner_eq, zero_mul, zero_add]

theorem weightedSum_singleton (b a : R) : weightedSum b [a] = a := by
  simp [weightedSum]

theorem weightedSum_append (b : R) (l l' : List R) :
    weightedSum b (l ++ l') = weightedSum b l * b ^ l'.length + weightedSum b l' := by
  rw [← horner_zero, horner_append, horner_eq, horner_zero]

/-- What is left where the same letter is taken off all of them. -/
theorem weightedSum_sub_replicate (b a : R) (l : List R) :
    weightedSum b l - weightedSum b (List.replicate l.length a) =
      weightedSum b (l.map fun x => x - a) := by
  induction l with
  | nil => exact sub_self _
  | cons x l ih =>
      rw [List.length_cons, List.replicate_succ, List.map_cons, weightedSum_cons,
        weightedSum_cons, weightedSum_cons, List.length_replicate, List.length_map, ← ih]
      ring

end Sum

/-! ## Numerals -/

/-- A reader of the digits from the most significant on gets the number back. -/
theorem foldl_digits {α : Type*} (base : Nat) (write : Nat → α) (value : α → Nat)
    {digits : List Nat} (h : ∀ d ∈ digits, value (write d) = d) :
    (digits.map write).reverse.foldl (fun n c => base * n + value c) 0 =
      Nat.ofDigits base digits := by
  rw [List.foldl_reverse, List.foldr_map]
  induction digits with
  | nil => rfl
  | cons d digits ih =>
      have hdigit := h d List.mem_cons_self
      have hrest := ih fun d hd => h d (List.mem_cons_of_mem _ hd)
      rw [List.foldr_cons, hrest, hdigit, Nat.ofDigits_cons]
      exact Nat.add_comm _ _

end Lyslg.Support.Horner
