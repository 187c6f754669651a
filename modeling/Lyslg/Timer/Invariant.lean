import Lyslg.Timer.Model
import Mathlib.Data.Prod.Lex
import Mathlib.Data.List.Nodup
/-!
# The invariant of the timer set

`m_next` is part of the sort key and changes, so every change has to happen
while the timer is out of the set.  `Holds m out` is what is true when the live
timers `out` are out of the set: an erased one joins `out`, an inserted one
leaves it, and between critical sections it is empty.
-/

namespace Lyslg.TimerManager

open Support Support.Machine

variable {m : TimerManager} {id : Nat} {out : List Nat}

/-- What the comparator compares. -/
def key (m : TimerManager) (id : Nat) : ℕ ×ₗ ℕ := toLex ((m.heap id).next, (m.heap id).addr)

theorem comparator_iff (lhs rhs : Timer) :
    Timer.comparator (some lhs) (some rhs) = true ↔
      toLex (lhs.next, lhs.addr) < toLex (rhs.next, rhs.addr) := by
  unfold Timer.comparator
  rw [Prod.Lex.toLex_lt_toLex]
  grind

theorem before_compares (m : TimerManager) : OrderedSet.Compares m.before m.key := by
  intro a b
  exact comparator_iff (m.heap a) (m.heap b)

theorem next_le_of_key_lt {a b : Nat} (h : m.key a < m.key b) :
    (m.heap a).next ≤ (m.heap b).next := by
  rcases Prod.Lex.toLex_lt_toLex.mp h with hlt | ⟨heq, _⟩
  · exact Nat.le_of_lt hlt
  · exact Nat.le_of_eq heq

/-- The set is in order, and its timers and those of `out` lie at different addresses. -/
structure Placed (m : TimerManager) (out : List Nat) : Prop where
  sorted : OrderedSet.Sorted m.key m.timers
  separate : ((m.timers ++ out).map fun id => (m.heap id).addr).Nodup

/-- The live timers are those of the set and `out`, at different addresses, and the
set is in order. -/
structure Holds (m : TimerManager) (out : List Nat) : Prop where
  sorted : OrderedSet.Sorted m.key m.timers
  separate : ((m.timers ++ out).map fun id => (m.heap id).addr).Nodup
  live : ∀ id, id ∈ m.timers ++ out ↔ id < m.created ∧ (m.heap id).cb.isSome = true

theorem new_holds (heap : Nat → Timer) (now : Nat) : (new heap now).Holds [] where
  sorted := List.Pairwise.nil
  separate := List.nodup_nil
  live := by simp [new]

theorem update_key {f : Timer → Timer} {a : Nat} (hne : a ≠ id) :
    (m.update id f).key a = m.key a := by
  unfold key update
  simp only [Function.update_of_ne hne]

theorem update_addr {f : Timer → Timer} (haddr : (f (m.heap id)).addr = (m.heap id).addr)
    (a : Nat) : ((m.update id f).heap a).addr = (m.heap a).addr := by
  unfold update
  by_cases ha : a = id
  · subst ha
    simpa using haddr
  · simp [ha]

namespace Placed

theorem nodup (h : m.Placed out) : (m.timers ++ out).Nodup := List.Nodup.of_map _ h.separate

theorem not_mem_timers (h : m.Placed (id :: out)) : id ∉ m.timers := by
  intro hid
  exact List.disjoint_of_nodup_append h.nodup hid List.mem_cons_self

theorem not_mem_out (h : m.Placed (id :: out)) : id ∉ out := by
  have hout := List.Nodup.of_append_right h.nodup
  exact (List.nodup_cons.mp hout).1

/-- Timers leave the set. -/
theorem erase {timers out' : List Nat} (h : m.Placed out) (hsub : timers.Sublist m.timers)
    (hperm : (timers ++ out').Perm (m.timers ++ out)) :
    ({ m with timers := timers } : TimerManager).Placed out' where
  sorted := h.sorted.sublist hsub
  separate := by
    apply (List.Perm.nodup_iff _).mpr h.separate
    exact hperm.map _

/-- A timer out of the set is forgotten. -/
theorem drop (h : m.Placed (id :: out)) : m.Placed out where
  sorted := h.sorted
  separate := by
    have hsub := List.Sublist.append_left (List.sublist_cons_self id out) m.timers
    exact List.Nodup.sublist (hsub.map _) h.separate

/-- A timer out of the set changes. -/
theorem update {f : Timer → Timer} (h : m.Placed (id :: out))
    (haddr : (f (m.heap id)).addr = (m.heap id).addr) : (m.update id f).Placed (id :: out) where
  sorted := by
    apply h.sorted.congr
    intro a ha
    apply update_key
    rintro rfl
    exact h.not_mem_timers ha
  separate := by
    simp only [update_addr haddr]
    exact h.separate

/-- A timer gets back into the set. -/
theorem insert (h : m.Placed (id :: out)) :
    ∃ pre post, m.timers = pre ++ post ∧
      m.insert id = ({ m with timers := pre ++ id :: post }, pre.length) ∧
      (∀ a ∈ pre, m.key a < m.key id) ∧
      (pre ++ id :: post ++ out).Perm (m.timers ++ id :: out) ∧
      ({ m with timers := pre ++ id :: post } : TimerManager).Placed out := by
  have hkey : ∀ a ∈ m.timers, m.key a ≠ m.key id := by
    intro a ha heq
    have haddr : (m.heap a).addr = (m.heap id).addr :=
      congrArg (fun k => (ofLex k).2) heq
    have hsep := h.separate
    rw [List.map_append] at hsep
    exact List.disjoint_of_nodup_append hsep (List.mem_map_of_mem ha) (by simp [haddr])
  obtain ⟨pre, post, hsplit, hins, hsorted⟩ :=
    OrderedSet.insert_spec m.before_compares h.sorted hkey
  have hperm : (pre ++ id :: post ++ out).Perm (m.timers ++ id :: out) := by
    rw [hsplit]
    calc
      (pre ++ id :: post ++ out).Perm (id :: (pre ++ post ++ out)) := by
        simp
      (id :: (pre ++ post ++ out)).Perm (pre ++ post ++ id :: out) := List.perm_middle.symm
  refine ⟨pre, post, hsplit, ?_, (OrderedSet.sorted_append_cons_iff.mp hsorted).2.1, hperm,
    hsorted, ?_⟩
  · unfold TimerManager.insert
    rw [hins]
  · exact ((hperm.map _).nodup_iff).mpr h.separate

end Placed

namespace Holds

theorem placed (h : m.Holds out) : m.Placed out := ⟨h.sorted, h.separate⟩

theorem mem_timers (h : m.Holds []) :
    id ∈ m.timers ↔ id < m.created ∧ (m.heap id).cb.isSome = true := by
  simpa using h.live id

theorem nodup (h : m.Holds out) : (m.timers ++ out).Nodup := h.placed.nodup

theorem not_mem_timers (h : m.Holds (id :: out)) : id ∉ m.timers := h.placed.not_mem_timers

/-- Timers leave the set. -/
theorem erase {timers out' : List Nat} (h : m.Holds out) (hsub : timers.Sublist m.timers)
    (hperm : (timers ++ out').Perm (m.timers ++ out)) :
    ({ m with timers := timers } : TimerManager).Holds out' := by
  obtain ⟨hsorted, hseparate⟩ := h.placed.erase hsub hperm
  refine ⟨hsorted, hseparate, fun id => ?_⟩
  rw [← h.live id]
  exact hperm.mem_iff

/-- A timer out of the set changes. -/
theorem update {f : Timer → Timer} (h : m.Holds (id :: out))
    (haddr : (f (m.heap id)).addr = (m.heap id).addr) (hcb : (f (m.heap id)).cb = (m.heap id).cb) :
    (m.update id f).Holds (id :: out) := by
  obtain ⟨hsorted, hseparate⟩ := h.placed.update haddr
  refine ⟨hsorted, hseparate, fun a => ?_⟩
  rw [show (m.update id f).timers = m.timers from rfl, h.live a]
  by_cases ha : a = id
  · subst ha
    simp [TimerManager.update, hcb]
  · simp [TimerManager.update, ha]

/-- The callback of a timer out of the set is gone. -/
theorem kill {f : Timer → Timer} (h : m.Holds (id :: out))
    (haddr : (f (m.heap id)).addr = (m.heap id).addr) (hcb : (f (m.heap id)).cb = none) :
    (m.update id f).Holds out := by
  obtain ⟨hsorted, hseparate⟩ := (h.placed.update haddr).drop
  refine ⟨hsorted, hseparate, fun a => ?_⟩
  by_cases ha : a = id
  · subst ha
    simp [TimerManager.update, hcb, h.not_mem_timers, h.placed.not_mem_out]
  · have hlive := h.live a
    simpa [TimerManager.update, ha] using hlive

/-- A timer gets back into the set. -/
theorem insert (h : m.Holds (id :: out)) :
    ∃ pre post, m.timers = pre ++ post ∧
      m.insert id = ({ m with timers := pre ++ id :: post }, pre.length) ∧
      (∀ a ∈ pre, m.key a < m.key id) ∧
      ({ m with timers := pre ++ id :: post } : TimerManager).Holds out := by
  obtain ⟨pre, post, hsplit, hins, hbelow, hperm, hsorted, hseparate⟩ := h.placed.insert
  refine ⟨pre, post, hsplit, hins, hbelow, hsorted, hseparate, fun a => ?_⟩
  rw [← h.live a]
  exact hperm.mem_iff

/-- Erase one timer of the set. -/
theorem erase_one {pre post : List Nat} (h : m.Holds []) (hsplit : m.timers = pre ++ id :: post) :
    ({ m with timers := pre ++ post } : TimerManager).Holds [id] := by
  apply h.erase
  · rw [hsplit]
    exact List.Sublist.append_left (List.sublist_cons_self id post) pre
  · rw [hsplit]
    simpa using (List.perm_append_singleton id (pre ++ post)).trans List.perm_middle.symm

end Holds

/-- `find` finds what is in the set. -/
theorem find_of_mem (hsorted : OrderedSet.Sorted m.key m.timers) (hid : id ∈ m.timers) :
    ∃ pre post, m.timers = pre ++ id :: post ∧ m.find id = pre.length := by
  obtain ⟨pre, post, hsplit⟩ := List.append_of_mem hid
  refine ⟨pre, post, hsplit, ?_⟩
  unfold find
  rw [hsplit] at hsorted ⊢
  exact OrderedSet.find_of_mem m.before_compares hsorted

theorem erase_append {pre post : List Nat} (hsplit : m.timers = pre ++ id :: post) :
    m.erase pre.length = { m with timers := pre ++ post } := by
  unfold erase
  rw [hsplit, List.eraseIdx_append_of_length_le (Nat.le_refl _)]
  simp

end Lyslg.TimerManager
