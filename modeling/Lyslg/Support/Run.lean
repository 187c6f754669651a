import Mathlib.Data.Set.Defs
import Mathlib.Logic.Function.Iterate
/-!
# Runs of labelled transition systems

A step relation over states and labels, the runs it has, and the rules every
run proof here ends with: an invariant that one step keeps holds in every state
a run reaches, a simulation of one step is a simulation of the whole run, and a
condition that decides whether a step keeps a property decides which runs do.
-/

namespace Lyslg.Support

variable {σ τ ℓ : Type*}

/-- `Run step s ls t`: from `s` the steps labelled `ls` lead to `t`. -/
inductive Run (step : σ → ℓ → σ → Prop) : σ → List ℓ → σ → Prop where
  | nil (s : σ) : Run step s [] s
  | cons {s t u : σ} {l : ℓ} {ls : List ℓ} :
      step s l t → Run step t ls u → Run step s (l :: ls) u

namespace Run

variable {step : σ → ℓ → σ → Prop} {s t u : σ} {ls ms : List ℓ}

theorem append (h₁ : Run step s ls t) (h₂ : Run step t ms u) :
    Run step s (ls ++ ms) u := by
  induction h₁ with
  | nil => exact h₂
  | cons hstep _ ih => exact .cons hstep (ih h₂)

/-- Cut a run where its label list is cut. -/
theorem split (h : Run step s (ls ++ ms) u) :
    ∃ t, Run step s ls t ∧ Run step t ms u := by
  induction ls generalizing s with
  | nil => exact ⟨s, .nil s, h⟩
  | cons l ls ih =>
      cases h with
      | cons hstep hrest =>
          obtain ⟨t, hls, hms⟩ := ih hrest
          exact ⟨t, .cons hstep hls, hms⟩

/-- The invariant rule. -/
theorem invariant {I : σ → Prop} (hstep : ∀ s l t, I s → step s l t → I t)
    (h : Run step s ls t) (hs : I s) : I t := by
  induction h with
  | nil => exact hs
  | cons hst _ ih => exact ih (hstep _ _ _ hs hst)

/-- The invariant rule for a step that may use how its state was reached. -/
theorem invariant_reached {I : σ → Prop}
    (hstep : ∀ ms t l u, Run step s ms t → I t → step t l u → I u)
    (h : Run step s ls t) (hs : I s) : I t := by
  induction h with
  | nil => exact hs
  | cons hst _ ih =>
      apply ih
      · intro ms t l u hrun
        exact hstep (_ :: ms) t l u (.cons hst hrun)
      · exact hstep [] _ _ _ (.nil _) hs hst

/-- Forward simulation: `R` relates the states of two systems with the same
labels, and every step of the first is matched by a step of the second. -/
theorem simulate {astep : τ → ℓ → τ → Prop} {R : σ → τ → Prop}
    (hstep : ∀ s l t a, R s a → step s l t → ∃ b, astep a l b ∧ R t b)
    (h : Run step s ls t) {a : τ} (ha : R s a) :
    ∃ b, Run astep a ls b ∧ R t b := by
  induction h generalizing a with
  | nil => exact ⟨a, .nil a, ha⟩
  | cons hst _ ih =>
      obtain ⟨b, hab, hb⟩ := hstep _ _ _ _ ha hst
      obtain ⟨c, hbc, hc⟩ := ih hb
      exact ⟨c, .cons hab hbc, hc⟩

theorem mono {step' : σ → ℓ → σ → Prop} (hstep : ∀ s l t, step s l t → step' s l t)
    (h : Run step s ls t) : Run step' s ls t := by
  induction h with
  | nil s => exact .nil s
  | cons hst _ ih => exact .cons (hstep _ _ _ hst) ih

/-- Steps with more in their labels. -/
theorem map {κ : Type*} {step' : σ → κ → σ → Prop} {f : ℓ → κ}
    (hstep : ∀ s l t, step s l t → step' s (f l) t) (h : Run step s ls t) :
    Run step' s (ls.map f) t := by
  induction h with
  | nil s => exact .nil s
  | cons hst _ ih => exact .cons (hstep _ _ _ hst) ih

/-- A function that takes the steps one after the other. -/
theorem of_foldlM {f : σ → ℓ → Option σ} (hf : ∀ s l t, f s l = some t → step s l t)
    (h : ls.foldlM f s = some t) : Run step s ls t := by
  induction ls generalizing s with
  | nil =>
      obtain rfl : s = t := by simpa using h
      exact .nil s
  | cons l ls ih =>
      rw [List.foldlM_cons] at h
      obtain ⟨u, hstep, hrest⟩ := Option.bind_eq_some_iff.mp h
      exact .cons (hf _ _ _ hstep) (ih hrest)

/-- The same for the steps that the function itself takes. -/
theorem of_steps {f : σ → ℓ → Option σ} (h : ls.foldlM f s = some t) :
    Run (fun s l t => f s l = some t) s ls t := of_foldlM (fun _ _ _ hstep => hstep) h

/-- The steps that end in a state with `P`. -/
def Ensuring (step : σ → ℓ → σ → Prop) (P : σ → Prop) (s : σ) (l : ℓ) (t : σ) : Prop :=
  step s l t ∧ P t

/-- The steps that meet a condition on the state before them. -/
def Guarded (step : σ → ℓ → σ → Prop) (C : σ → ℓ → Prop) (s : σ) (l : ℓ) (t : σ) : Prop :=
  C s l ∧ step s l t

/-- A guarded run, computed with a test that decides the condition in every state of a run. -/
theorem guarded_of_foldlM {f : σ → ℓ → Option σ} {C : σ → ℓ → Prop} {test : σ → ℓ → Bool}
    (hf : ∀ s l t, f s l = some t → step s l t)
    (htest : ∀ ls s l, Run step u ls s → test s l = true → C s l) (hpre : Run step u ms s)
    (h : ls.foldlM (fun s l => if test s l then f s l else none) s = some t) :
    Run (Guarded step C) s ls t := by
  induction ls generalizing ms s with
  | nil =>
      obtain rfl : s = t := by simpa using h
      exact .nil s
  | cons l ls ih =>
      rw [List.foldlM_cons] at h
      obtain ⟨s₁, hl, hrest⟩ := Option.bind_eq_some_iff.mp h
      split at hl
      · rename_i htrue
        have hst := hf _ _ _ hl
        exact .cons ⟨htest _ _ _ hpre htrue, hst⟩ (ih (hpre.append (.cons hst (.nil s₁))) hrest)
      · cases hl

/-- The runs that keep `P` are those whose steps all meet `C`, if this holds of one step.
`I` is what every run keeps. -/
theorem ensuring_iff_guarded {I P : σ → Prop} {C : σ → ℓ → Prop}
    (hstep : ∀ s l t, I s → P s → step s l t → I t ∧ (P t ↔ C s l)) (hI : I s) (hP : P s) :
    Run (Ensuring step P) s ls t ↔ Run (Guarded step C) s ls t := by
  induction ls generalizing s with
  | nil =>
      constructor
      all_goals
        intro h
        cases h
        exact .nil _
  | cons l ls ih =>
      constructor
      · intro h
        cases h with
        | cons hst hrest =>
            obtain ⟨hI', hiff⟩ := hstep _ _ _ hI hP hst.1
            exact .cons ⟨hiff.mp hst.2, hst.1⟩ ((ih hI' hst.2).mp hrest)
      · intro h
        cases h with
        | cons hst hrest =>
            obtain ⟨hI', hiff⟩ := hstep _ _ _ hI hP hst.2
            have hP' := hiff.mpr hst.1
            exact .cons ⟨hst.2, hP'⟩ ((ih hI' hP').mpr hrest)

/-- What the guarded steps keep and ensure, a guarded run ensures in every state. -/
theorem ensuring_of_guarded {I P : σ → Prop} {C : σ → ℓ → Prop}
    (hkeep : ∀ s l t, I s → C s l → step s l t → I t ∧ P t)
    (h : Run (Guarded step C) s ls t) (hI : I s) : Run (Ensuring step P) s ls t := by
  induction h with
  | nil s => exact .nil s
  | cons hst _ ih =>
      obtain ⟨hI', hP⟩ := hkeep _ _ _ hI hst.1 hst.2
      exact .cons ⟨hst.2, hP⟩ (ih hI')

/-- Two conditions that agree on every step of a run admit the same runs. -/
theorem guarded_congr {I : σ → Prop} {C D : σ → ℓ → Prop}
    (hstep : ∀ s l t, I s → step s l t → I t ∧ (C s l ↔ D s l)) (hI : I s) :
    Run (Guarded step C) s ls t ↔ Run (Guarded step D) s ls t := by
  induction ls generalizing s with
  | nil =>
      constructor
      all_goals
        intro h
        cases h
        exact .nil _
  | cons l ls ih =>
      constructor
      · intro h
        cases h with
        | cons hst hrest =>
            obtain ⟨hI', hiff⟩ := hstep _ _ _ hI hst.2
            exact .cons ⟨hiff.mp hst.1, hst.2⟩ ((ih hI').mp hrest)
      · intro h
        cases h with
        | cons hst hrest =>
            obtain ⟨hI', hiff⟩ := hstep _ _ _ hI hst.2
            exact .cons ⟨hiff.mpr hst.1, hst.2⟩ ((ih hI').mpr hrest)

/-- Every two states of the run, the first not after the second, are related. -/
def Pairwise (step : σ → ℓ → σ → Prop) (R : σ → σ → Prop) (s : σ) (ls : List ℓ) : Prop :=
  ∀ pre mid post t u, ls = pre ++ mid ++ post → Run step s pre t → Run step t mid u → R t u

theorem pairwise_iff_guarded_of_run {R : σ → σ → Prop} {I : σ → Prop} {C : σ → ℓ → Prop}
    (hdet : ∀ s l t u, step s l t → step s l u → t = u)
    (htrans : ∀ s t u, R s t → R t u → R s u)
    (hstep : ∀ s l t, I s → R s s → step s l t → I t ∧ (R s t ∧ R t t ↔ C s l))
    (hrun : Run step s ls t) (hI : I s) (hs : R s s) :
    Pairwise step R s ls ↔ Run (Guarded step C) s ls t := by
  induction hrun with
  | nil s =>
      constructor
      · intro _
        exact .nil s
      · intro _ pre mid post t u hsplit hpre hmid
        obtain ⟨hboth, -⟩ := List.append_eq_nil_iff.mp hsplit.symm
        obtain ⟨rfl, rfl⟩ := List.append_eq_nil_iff.mp hboth
        cases hpre
        cases hmid
        exact hs
  | @cons s s₁ t l ls hst hrest ih =>
      obtain ⟨hI', hiff⟩ := hstep _ _ _ hI hs hst
      constructor
      · intro hpair
        have hfirst : R s s₁ := hpair [] [l] ls s s₁ rfl (.nil s) (.cons hst (.nil s₁))
        have hrefl : R s₁ s₁ := hpair [l] [] ls s₁ s₁ rfl (.cons hst (.nil s₁)) (.nil s₁)
        refine .cons ⟨hiff.mp ⟨hfirst, hrefl⟩, hst⟩ ((ih hI' hrefl).mp ?_)
        intro pre mid post t u hsplit hpre hmid
        exact hpair (l :: pre) mid post t u (by rw [hsplit]; rfl) (.cons hst hpre) hmid
      · intro hguarded pre mid post t u hsplit hpre hmid
        cases hguarded with
        | @cons _ s₂ _ _ _ hst₂ hrest₂ =>
            obtain rfl := hdet _ _ _ _ hst hst₂.2
            obtain ⟨hfirst, hrefl⟩ := hiff.mpr hst₂.1
            have hpair := (ih hI' hrefl).mpr hrest₂
            cases hpre with
            | nil =>
                cases hmid with
                | nil => exact hs
                | @cons _ s₃ _ _ mid hst₃ hmid =>
                    obtain ⟨rfl, htail⟩ := List.cons.inj hsplit
                    obtain rfl := hdet _ _ _ _ hst hst₃
                    exact htrans _ _ _ hfirst (hpair [] mid post s₁ u htail (.nil s₁) hmid)
            | @cons _ s₃ _ _ pre hst₃ hpre =>
                obtain ⟨rfl, htail⟩ := List.cons.inj hsplit
                obtain rfl := hdet _ _ _ _ hst hst₃
                exact hpair pre mid post t u htail hpre hmid

/-- The same for a relation between the states of a run. -/
theorem pairwise_iff_guarded {R : σ → σ → Prop} {I : σ → Prop} {C : σ → ℓ → Prop}
    (hdet : ∀ s l t u, step s l t → step s l u → t = u)
    (htrans : ∀ s t u, R s t → R t u → R s u)
    (hstep : ∀ s l t, I s → R s s → step s l t → I t ∧ (R s t ∧ R t t ↔ C s l))
    (hI : I s) (hs : R s s) :
    Run step s ls t ∧ Pairwise step R s ls ↔ Run (Guarded step C) s ls t := by
  constructor
  · rintro ⟨hrun, hpair⟩
    exact (pairwise_iff_guarded_of_run hdet htrans hstep hrun hI hs).mp hpair
  · intro hguarded
    have hrun := hguarded.mono fun _ _ _ hst => hst.2
    exact ⟨hrun, (pairwise_iff_guarded_of_run hdet htrans hstep hrun hI hs).mpr hguarded⟩

/-- A deterministic system: what a run has kept so far is kept iff its steps meet the condition. -/
theorem iterate_iff_guarded {f : σ → σ} {I P C : σ → Prop}
    (hkeep : ∀ s, I s → P s → C s → I (f s) ∧ P (f s))
    (hneed : ∀ s, I s → P (f s) → P s ∧ C s) (hback : ∀ s, P (f s) → P s) (hI : I s) (hP : P s)
    (n : Nat) : P (f^[n] s) ↔ ∀ i < n, C (f^[i] s) := by
  have hkept (n : Nat) (hC : ∀ i < n, C (f^[i] s)) : I (f^[n] s) ∧ P (f^[n] s) := by
    induction n with
    | zero => exact ⟨hI, hP⟩
    | succ n ih =>
        obtain ⟨hIn, hPn⟩ := ih fun i hi => hC i (Nat.lt_succ_of_lt hi)
        rw [Function.iterate_succ_apply']
        exact hkeep _ hIn hPn (hC n (Nat.lt_succ_self n))
  refine ⟨fun h => ?_, fun hC => (hkept n hC).2⟩
  induction n with
  | zero => exact fun i hi => absurd hi (Nat.not_lt_zero i)
  | succ n ih =>
      rw [Function.iterate_succ_apply'] at h
      have hC := ih (hback _ h)
      intro i hi
      obtain hlt | rfl := Nat.lt_succ_iff_lt_or_eq.mp hi
      · exact hC i hlt
      · exact (hneed _ (hkept i hC).1 h).2

end Run

end Lyslg.Support
