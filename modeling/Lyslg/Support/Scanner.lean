import Mathlib.Data.List.Basic
/-!
# Scanners

A scanner goes over bytes by its transitions.  A transition depends on the state and the
byte, and what it does may depend on the position: it changes the state and tells of events.
Some transitions end the scan.

`Walks` is a stretch of bytes that a scanner goes over without an end.  Stretches are
composed with `Walks.append`, and `Walks.exec_append` carries out a scan that begins with
one.
-/

namespace Lyslg.Support

/-- Transitions `τ` on letters `β`, with states `σ` and events `ε`. -/
structure Scanner (β σ τ ε : Type) where
  next : σ → β → Option τ
  /-- what a transition does at a position -/
  follow : Nat → σ → τ → σ × List ε
  ends : τ → Bool
  /-- the state when there is no transition -/
  fail : σ → σ

/-- A transition that a table has for a state is in its row. -/
theorem lookup_find?_mem {σ τ : Type} [BEq σ] [LawfulBEq σ] {table : List (σ × List τ)} {s : σ}
    {takes : τ → Bool} {t : τ} (h : ((table.lookup s).getD []).find? takes = some t) :
    (∃ ts, (s, ts) ∈ table ∧ t ∈ ts) ∧ takes t = true := by
  refine ⟨?_, List.find?_some h⟩
  have hmem := List.mem_of_find?_eq_some h
  cases hrow : table.lookup s with
  | none =>
      rw [hrow] at hmem
      cases hmem
  | some ts =>
      rw [hrow] at hmem
      obtain ⟨before, after, hsplit, _⟩ := List.lookup_eq_some_iff.mp hrow
      refine ⟨ts, ?_, hmem⟩
      rw [hsplit]
      exact List.mem_append_right before List.mem_cons_self

namespace Scanner

variable {β σ τ ε : Type} {m : Scanner β σ τ ε}

/-- The scan from position `p` on: the state and the position it stops at, and the events. -/
def exec (m : Scanner β σ τ ε) (s : σ) (p : Nat) : List β → σ × Nat × List ε
  | [] => (s, p, [])
  | c :: bytes =>
      match m.next s c with
      | none => (m.fail s, p, [])
      | some t =>
          let step := m.follow p s t
          if m.ends t then (step.1, p + 1, step.2)
          else
            let rest := m.exec step.1 (p + 1) bytes
            (rest.1, rest.2.1, step.2 ++ rest.2.2)

theorem exec_none {s : σ} {c : β} (hnext : m.next s c = none) (p : Nat) (bytes : List β) :
    m.exec s p (c :: bytes) = (m.fail s, p, []) := by
  rw [exec, hnext]

theorem exec_ends {s : σ} {c : β} {t : τ} (hnext : m.next s c = some t) (hends : m.ends t = true)
    (p : Nat) (bytes : List β) :
    m.exec s p (c :: bytes) = ((m.follow p s t).1, p + 1, (m.follow p s t).2) := by
  rw [exec, hnext]
  exact if_pos hends

theorem exec_goes {s : σ} {c : β} {t : τ} (hnext : m.next s c = some t) (hgoes : m.ends t = false)
    (p : Nat) (bytes : List β) :
    m.exec s p (c :: bytes) =
      ((m.exec (m.follow p s t).1 (p + 1) bytes).1,
        (m.exec (m.follow p s t).1 (p + 1) bytes).2.1,
        (m.follow p s t).2 ++ (m.exec (m.follow p s t).1 (p + 1) bytes).2.2) := by
  rw [exec, hnext]
  exact if_neg (by rw [hgoes]; exact Bool.false_ne_true)

theorem exec_le (s : σ) (p : Nat) (bytes : List β) :
    (m.exec s p bytes).2.1 ≤ p + bytes.length := by
  induction bytes generalizing s p with
  | nil => exact Nat.le_refl _
  | cons c bytes ih =>
      rw [List.length_cons]
      cases hnext : m.next s c with
      | none =>
          rw [exec_none hnext]
          exact Nat.le_add_right _ _
      | some t =>
          cases hends : m.ends t with
          | true =>
              rw [exec_ends hnext hends]
              show p + 1 ≤ _
              omega
          | false =>
              rw [exec_goes hnext hends]
              have hrest := ih (m.follow p s t).1 (p + 1)
              show (m.exec _ (p + 1) bytes).2.1 ≤ _
              omega

/-- The invariant rule, for letters with `L` at positions before `n`: what every transition keeps
holds where the scan stops, and what holds of the events of every transition holds of all. -/
theorem exec_spec {Q : Nat → σ → Prop} {E : ε → Prop} {L : β → Prop} {n : Nat}
    (hstep : ∀ p s c t, p < n → L c → m.next s c = some t → Q p s →
      Q (p + 1) (m.follow p s t).1 ∧ ∀ e ∈ (m.follow p s t).2, E e)
    (hfail : ∀ p s, Q p s → Q p (m.fail s)) {bytes : List β} (hL : ∀ c ∈ bytes, L c)
    {s : σ} {p : Nat}
    (hn : p + bytes.length ≤ n) (h : Q p s) :
    Q (m.exec s p bytes).2.1 (m.exec s p bytes).1 ∧ ∀ e ∈ (m.exec s p bytes).2.2, E e := by
  induction bytes generalizing s p with
  | nil => exact ⟨h, fun e he => absurd he List.not_mem_nil⟩
  | cons c bytes ih =>
      rw [List.length_cons] at hn
      obtain ⟨hc, hbytes⟩ := List.forall_mem_cons.mp hL
      cases hnext : m.next s c with
      | none =>
          rw [exec_none hnext]
          exact ⟨hfail p s h, fun e he => absurd he List.not_mem_nil⟩
      | some t =>
          obtain ⟨hkept, hevents⟩ := hstep p s c t (by omega) hc hnext h
          cases hends : m.ends t with
          | true =>
              rw [exec_ends hnext hends]
              exact ⟨hkept, hevents⟩
          | false =>
              rw [exec_goes hnext hends]
              obtain ⟨hend, hlater⟩ := ih hbytes (by omega) hkept
              exact ⟨hend, List.forall_mem_append.mpr ⟨hevents, hlater⟩⟩

theorem exec_invariant {Q : Nat → σ → Prop} {n : Nat}
    (hstep : ∀ p s c t, p < n → m.next s c = some t → Q p s → Q (p + 1) (m.follow p s t).1)
    (hfail : ∀ p s, Q p s → Q p (m.fail s)) (bytes : List β) {s : σ} {p : Nat}
    (hn : p + bytes.length ≤ n) (h : Q p s) : Q (m.exec s p bytes).2.1 (m.exec s p bytes).1 := by
  have hspec := m.exec_spec (E := fun _ => True) (L := fun _ => True)
    (fun p s c t hp _ hnext hs => ⟨hstep p s c t hp hnext hs, fun _ _ => trivial⟩)
    hfail (fun _ _ => trivial) hn h
  exact hspec.1

/-- From `s` at position `p`, the scanner goes over all of the bytes. -/
inductive Walks (m : Scanner β σ τ ε) : Nat → σ → List β → List ε → σ → Prop
  | nil (p : Nat) (s : σ) : Walks m p s [] [] s
  | cons {p : Nat} {s s' : σ} {c : β} {t : τ} {bytes : List β} {events : List ε}
      (hnext : m.next s c = some t) (hgoes : m.ends t = false)
      (hrest : Walks m (p + 1) (m.follow p s t).1 bytes events s') :
      Walks m p s (c :: bytes) ((m.follow p s t).2 ++ events) s'

namespace Walks

variable {p : Nat} {s s' s'' : σ} {bytes bytes' : List β} {events events' : List ε}

/-- One transition, given by what it does. -/
theorem one {c : β} {t : τ} (hnext : m.next s c = some t) (hgoes : m.ends t = false)
    (hfollow : m.follow p s t = (s', events)) : Walks m p s [c] events s' := by
  have hwalk := Walks.cons hnext hgoes (Walks.nil (m := m) (p + 1) (m.follow p s t).1)
  rw [hfollow, List.append_nil] at hwalk
  exact hwalk

theorem append (h : Walks m p s bytes events s')
    (h' : Walks m (p + bytes.length) s' bytes' events' s'') :
    Walks m p s (bytes ++ bytes') (events ++ events') s'' := by
  induction h with
  | nil p s => exact h'
  | cons hnext hgoes _ ih =>
      rw [List.append_assoc]
      refine .cons hnext hgoes (ih ?_)
      rw [Nat.add_assoc, Nat.add_comm 1]
      exact h'

/-- Letters that lead back to the state, without events. -/
theorem loop (h : ∀ c ∈ bytes, ∃ t, m.next s c = some t ∧ m.ends t = false ∧
    ∀ p, m.follow p s t = (s, [])) (p : Nat) : Walks m p s bytes [] s := by
  induction bytes generalizing p with
  | nil => exact .nil p s
  | cons c bytes ih =>
      obtain ⟨hc, hbytes⟩ := List.forall_mem_cons.mp h
      obtain ⟨t, hnext, hgoes, hfollow⟩ := hc
      exact (one hnext hgoes (hfollow p)).append (ih hbytes (p + 1))

/-- A scan that begins with the stretch. -/
theorem exec_append (h : Walks m p s bytes events s') (rest : List β) :
    m.exec s p (bytes ++ rest) =
      ((m.exec s' (p + bytes.length) rest).1, (m.exec s' (p + bytes.length) rest).2.1,
        events ++ (m.exec s' (p + bytes.length) rest).2.2) := by
  induction h with
  | nil p s => rfl
  | @cons p s s' c t bytes events hnext hgoes _ ih =>
      rw [List.cons_append, exec_goes hnext hgoes, ih, List.append_assoc, List.length_cons,
        Nat.add_assoc, Nat.add_comm 1]

theorem exec_eq (h : Walks m p s bytes events s') :
    m.exec s p bytes = (s', p + bytes.length, events) := by
  have happend := h.exec_append []
  rw [List.append_nil, exec, List.append_nil] at happend
  exact happend

theorem unique (h : Walks m p s bytes events s') (h' : Walks m p s bytes events' s'') :
    events = events' ∧ s' = s'' := by
  have heq := h.exec_eq.symm.trans h'.exec_eq
  injection heq with hstate hrest
  injection hrest with _ hevents
  exact ⟨hevents, hstate⟩

theorem split_cons {c : β} (h : Walks m p s (c :: bytes) events s') :
    ∃ t after, m.next s c = some t ∧ events = (m.follow p s t).2 ++ after ∧
      Walks m (p + 1) (m.follow p s t).1 bytes after s' := by
  cases h with
  | cons hnext _ hrest => exact ⟨_, _, hnext, rfl, hrest⟩

theorem split (h : Walks m p s (bytes ++ bytes') events s'') :
    ∃ s' before after, events = before ++ after ∧ Walks m p s bytes before s' ∧
      Walks m (p + bytes.length) s' bytes' after s'' := by
  induction bytes generalizing p s events with
  | nil => exact ⟨s, [], events, rfl, .nil p s, h⟩
  | cons c bytes ih =>
      rw [List.cons_append] at h
      cases h with
      | cons hnext hgoes hrest =>
          obtain ⟨s', before, after, rfl, hbefore, hafter⟩ := ih hrest
          rw [Nat.add_assoc, Nat.add_comm 1] at hafter
          exact ⟨s', _, after, (List.append_assoc _ _ _).symm, .cons hnext hgoes hbefore, hafter⟩

/-- The invariant rule for a stretch of letters with `L`. -/
theorem keeps {I : σ → Prop} {L : β → Prop}
    (hstep : ∀ p s c t, I s → L c → m.next s c = some t → I (m.follow p s t).1)
    (h : Walks m p s bytes events s') (hL : ∀ c ∈ bytes, L c) (hs : I s) : I s' := by
  induction h with
  | nil => exact hs
  | cons hnext _ _ ih =>
      obtain ⟨hc, hbytes⟩ := List.forall_mem_cons.mp hL
      exact ih hbytes (hstep _ _ _ _ hs hc hnext)

/-- The rule for a scanner that abstracts this one: `f` maps the states, and the events are the
same. -/
theorem map {σ' τ' : Type} {m' : Scanner β σ' τ' ε} {f : σ → σ'}
    (hstep : ∀ p s c t, m.next s c = some t → ∃ t', m'.next (f s) c = some t' ∧
      m'.ends t' = m.ends t ∧ m'.follow p (f s) t' = (f (m.follow p s t).1, (m.follow p s t).2))
    (h : Walks m p s bytes events s') : Walks m' p (f s) bytes events (f s') := by
  induction h with
  | nil => exact .nil _ _
  | @cons p s s' c t bytes events hnext hgoes _ ih =>
      obtain ⟨t', hnext', hends, hfollow⟩ := hstep p s c t hnext
      exact (one hnext' (hends.trans hgoes) hfollow).append ih

/-- The simulation rule, for scanners that need not agree on their events. -/
theorem simulate {σ' τ' ε' : Type} {m' : Scanner β σ' τ' ε'} {R : σ → σ' → Prop} {L : β → Prop}
    (hstep : ∀ p s c t u p', R s u → L c → m.next s c = some t → m.ends t = false →
      ∃ t', m'.next u c = some t' ∧ m'.ends t' = false ∧
        R (m.follow p s t).1 (m'.follow p' u t').1)
    (h : Walks m p s bytes events s') (hL : ∀ c ∈ bytes, L c) {u : σ'} (hs : R s u) (p' : Nat) :
    ∃ events' u', Walks m' p' u bytes events' u' ∧ R s' u' := by
  induction h generalizing u p' with
  | nil => exact ⟨[], u, .nil _ _, hs⟩
  | cons hnext hgoes _ ih =>
      obtain ⟨hc, hbytes⟩ := List.forall_mem_cons.mp hL
      obtain ⟨t', hnext', hgoes', hrel⟩ := hstep _ _ _ _ u p' hs hc hnext hgoes
      obtain ⟨events', u', hwalk, hend⟩ := ih hbytes hrel (p' + 1)
      exact ⟨_, u', .cons hnext' hgoes' hwalk, hend⟩

end Walks

/-- A scan without ends goes over all of the bytes, or it fails. -/
theorem exec_walks (hgoes : ∀ t, m.ends t = false) (s : σ) (p : Nat) (bytes : List β) :
    Walks m p s bytes (m.exec s p bytes).2.2 (m.exec s p bytes).1 ∨
      ∃ s', (m.exec s p bytes).1 = m.fail s' := by
  induction bytes generalizing s p with
  | nil => exact .inl (.nil p s)
  | cons c bytes ih =>
      cases hnext : m.next s c with
      | none =>
          rw [exec_none hnext]
          exact .inr ⟨s, rfl⟩
      | some t =>
          rw [exec_goes hnext (hgoes t)]
          exact (ih (m.follow p s t).1 (p + 1)).imp (.cons hnext (hgoes t)) id

end Scanner

end Lyslg.Support
