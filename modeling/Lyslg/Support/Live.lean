import Mathlib.Data.List.Basic
/-!
# What a history leaves

An event of a history is live if no later one ends it.  What a registry holds after a sequence of
calls is what is live in their history, and one more call changes that in one way only.
-/

namespace Lyslg.Support

variable {ε : Type*} {history : List ε} {e e' op : ε} {ends ends' : ε → Prop} {i j : Nat}

/-- The event at `i` is `e`, and none behind it ends it. -/
structure Live (history : List ε) (e : ε) (ends : ε → Prop) (i : Nat) : Prop where
  event : history[i]? = some e
  stays : ∀ j later, i < j → history[j]? = some later → ¬ ends later

theorem not_live_nil : ¬ Live [] e ends i := by
  intro h
  cases h.event

namespace Live

theorem lt (h : Live history e ends i) : i < history.length :=
  (List.getElem?_eq_some_iff.mp h.event).1

theorem mem (h : Live history e ends i) : e ∈ history := List.mem_of_getElem? h.event

/-- Two live events that end each other are one. -/
theorem unique (h : Live history e ends i) (h' : Live history e' ends' j) (hends : ends e')
    (hends' : ends' e) : i = j := by
  rcases Nat.lt_trichotomy i j with hlt | heq | hlt
  · exact absurd hends (h.stays j e' hlt h'.event)
  · exact heq
  · exact absurd hends' (h'.stays i e hlt h.event)

theorem event_eq (h : Live history e ends i) (h' : Live history e' ends' i) : e = e' := by
  have hevent := h.event
  rw [h'.event] at hevent
  exact (Option.some.inj hevent).symm

end Live

/-- One more event is live itself, and ends some of those that were. -/
theorem live_concat : Live (history ++ [op]) e ends i ↔
    i = history.length ∧ op = e ∨ Live history e ends i ∧ ¬ ends op := by
  constructor
  · intro h
    have hlt := h.lt
    rw [List.length_append, List.length_singleton] at hlt
    by_cases hlast : i = history.length
    · have hevent := h.event
      rw [hlast, List.getElem?_concat_length] at hevent
      exact Or.inl ⟨hlast, Option.some.inj hevent⟩
    · have hin : i < history.length := by omega
      refine Or.inr ⟨⟨?_, ?_⟩, ?_⟩
      · rw [← h.event, List.getElem?_append_left hin]
      · intro j later hij hlater
        have hj := (List.getElem?_eq_some_iff.mp hlater).1
        apply h.stays j later hij
        rw [List.getElem?_append_left hj, hlater]
      · apply h.stays history.length op hin
        exact List.getElem?_concat_length
  · rintro (⟨rfl, rfl⟩ | ⟨h, hends⟩)
    · refine ⟨List.getElem?_concat_length, ?_⟩
      intro j later hlt hlater
      have hj := (List.getElem?_eq_some_iff.mp hlater).1
      rw [List.length_append, List.length_singleton] at hj
      omega
    · refine ⟨?_, ?_⟩
      · rw [List.getElem?_append_left h.lt]
        exact h.event
      · intro j later hij hlater
        by_cases hj : j < history.length
        · rw [List.getElem?_append_left hj] at hlater
          exact h.stays j later hij hlater
        · have hlt := (List.getElem?_eq_some_iff.mp hlater).1
          rw [List.length_append, List.length_singleton] at hlt
          have hlast : j = history.length := by omega
          rw [hlast, List.getElem?_concat_length] at hlater
          rw [← Option.some.inj hlater]
          exact hends

/-! ## The last update -/

/-- Steps that each may set what `get` reads, and that go on as long as `I` holds, leave what the
last one of them has set. -/
theorem foldlM_updates {σ β : Type*} {step : σ → ε → Option σ} {new : ε → Option β}
    {history : List ε} {I : σ → Prop} (get : σ → Option β)
    (hstep : ∀ e ∈ history, ∀ s, I s →
      ∃ t, step s e = some t ∧ get t = (get s).map fun old => (new e).getD old) {s : σ}
    (hkeeps : ∀ pre post t, history = pre ++ post → pre.foldlM step s = some t → I t) :
    ∃ t, history.foldlM step s = some t ∧
      get t = (get s).map fun old => ((history.filterMap new).getLast?).getD old := by
  induction history generalizing s with
  | nil => exact ⟨s, rfl, (Option.map_id' (x := get s)).symm⟩
  | cons e history ih =>
      obtain ⟨hfirst, hrest⟩ := List.forall_mem_cons.mp hstep
      obtain ⟨t, ht, hget⟩ := hfirst s (hkeeps [] (e :: history) s rfl rfl)
      have hcons : ∀ es, (e :: es).foldlM step s = es.foldlM step t := by
        intro es
        rw [List.foldlM_cons, ht]
        rfl
      obtain ⟨u, hu, hlast⟩ := ih hrest fun pre post v hsplit hpre =>
        hkeeps (e :: pre) post v (congrArg (e :: ·) hsplit) ((hcons pre).trans hpre)
      refine ⟨u, (hcons history).trans hu, ?_⟩
      rw [hlast, hget, Option.map_map]
      refine congrArg (fun f => (get s).map f) (funext fun old => ?_)
      cases hnew : new e with
      | none => rw [List.filterMap_cons_none hnew, Function.comp_apply, Option.getD_none]
      | some v =>
          rw [List.filterMap_cons_some hnew, List.getLast?_cons, Function.comp_apply,
            Option.getD_some, Option.getD_some]

/-! ## Erasing the first entry of a key -/

/-- Where no key is twice, erasing the first entry of one is erasing all of them. -/
theorem eraseP_eq_filter {α κ : Type*} [DecidableEq κ] {key : α → κ} {l : List α}
    (h : (l.map key).Nodup) (k : κ) :
    l.eraseP (fun a => key a = k) = l.filter fun a => key a ≠ k := by
  induction l with
  | nil => rfl
  | cons a l ih =>
      rw [List.map_cons, List.nodup_cons] at h
      by_cases ha : key a = k
      · have hrest : ∀ b ∈ l, decide (key b ≠ k) = true := by
          intro b hb
          rw [decide_eq_true_eq]
          intro hbk
          exact h.1 (ha ▸ hbk ▸ List.mem_map_of_mem hb)
        rw [List.eraseP_cons_of_pos (by simpa using ha),
          List.filter_cons_of_neg (by simpa using ha),
          List.filter_eq_self.mpr hrest]
      · rw [List.eraseP_cons_of_neg (by simpa using ha),
          List.filter_cons_of_pos (by simpa using ha), ih h.2]

end Lyslg.Support
