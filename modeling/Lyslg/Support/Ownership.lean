import Mathlib.Data.List.Nodup
/-!
# Exclusive ownership

Things that lie in a bag or are held by somebody, each in one place at most.  One
holder at a time takes things out of the bag or puts what it holds back.
-/

namespace Lyslg.Support

variable {κ τ : Type*} {bag bag' : List τ} {holds holds' : κ → τ → Prop}

structure Exclusive (bag : List τ) (holds : κ → τ → Prop) : Prop where
  once : bag.Nodup
  free : ∀ x ∈ bag, ∀ k, ¬ holds k x
  alone : ∀ k l x, holds k x → holds l x → k = l

namespace Exclusive

/-- Holder `k` changes what it has: it takes from the bag or finds what nobody had, and
puts back only what it had. -/
theorem exchange (h : Exclusive bag holds) (k : κ)
    (hothers : ∀ l, l ≠ k → ∀ x, holds' l x → holds l x) (honce : bag'.Nodup)
    (hbag : ∀ x ∈ bag', ¬ holds' k x ∧ (x ∈ bag ∨ holds k x))
    (hholds : ∀ x, holds' k x → holds k x ∨ x ∈ bag ∨ ∀ l, ¬ holds l x) :
    Exclusive bag' holds' := by
  have hself : ∀ l x, l ≠ k → holds' k x → ¬ holds' l x := by
    intro l x hl hk hlx
    have hlx' := hothers l hl x hlx
    rcases hholds x hk with hold | hin | hnone
    · exact hl (h.alone l k x hlx' hold)
    · exact h.free x hin l hlx'
    · exact hnone l hlx'
  refine ⟨honce, ?_, ?_⟩
  · intro x hx l hlx
    by_cases hl : l = k
    · subst hl
      exact (hbag x hx).1 hlx
    · have hlx' := hothers l hl x hlx
      rcases (hbag x hx).2 with hin | hold
      · exact h.free x hin l hlx'
      · exact hl (h.alone l k x hlx' hold)
  · intro l m x hlx hmx
    by_cases hl : l = k
    · subst hl
      by_contra hm
      exact hself m x (Ne.symm hm) hlx hmx
    · by_cases hm : m = k
      · subst hm
        exact absurd hlx (hself l x hl hmx)
      · exact h.alone l m x (hothers l hl x hlx) (hothers m hm x hmx)

/-- Things that were nowhere are put into the bag. -/
theorem push (h : Exclusive bag holds) {xs : List τ} (honce : xs.Nodup)
    (hnew : ∀ x ∈ xs, x ∉ bag ∧ ∀ k, ¬ holds k x) : Exclusive (bag ++ xs) holds := by
  refine ⟨List.nodup_append.mpr ⟨h.once, honce, ?_⟩, ?_, h.alone⟩
  · intro x hx y hy heq
    subst heq
    exact (hnew x hy).1 hx
  · intro x hx
    rcases List.mem_append.mp hx with hold | hadded
    · exact h.free x hold
    · exact (hnew x hadded).2

end Exclusive

end Lyslg.Support
