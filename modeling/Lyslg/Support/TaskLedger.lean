import Mathlib.Data.List.Perm.Basic
import Mathlib.Data.List.Nodup
/-!
# Queues with an account of their tasks

A queue from which each customer takes the first task it may have.  Every task gets a
serial number when it is pushed, and the ledger keeps who took which number.
-/

namespace Lyslg.Support

/-- `waiting` is the queue, each task with its number; number `i` is entry `i` of
`pushed`. -/
structure TaskLedger (α κ : Type*) where
  waiting : List (α × Nat) := []
  pushed : List α := []
  removed : List (Nat × κ) := []

namespace TaskLedger

variable {α κ : Type*} {q : TaskLedger α κ} {may : α → κ → Prop} {p : α → Bool} {k : κ}

def queue (q : TaskLedger α κ) : List α := q.waiting.map Prod.fst

def push (q : TaskLedger α κ) (xs : List α) : TaskLedger α κ :=
  { q with waiting := q.waiting ++ xs.zipIdx q.pushed.length, pushed := q.pushed ++ xs }

/-- Customer `k` takes the first task with `p`, if there is one. -/
def take (q : TaskLedger α κ) (p : α → Bool) (k : κ) : TaskLedger α κ :=
  match q.waiting.find? fun e => p e.1 with
  | none => q
  | some e =>
      { q with
        waiting := q.waiting.eraseP fun e => p e.1
        removed := q.removed ++ [(e.2, k)] }

/-- Every task that was pushed waits, in the order of the pushes, or was removed once, by
a customer that may have it. -/
structure Balanced (may : α → κ → Prop) (q : TaskLedger α κ) : Prop where
  tasks : ∀ e ∈ q.waiting, q.pushed[e.2]? = some e.1
  inOrder : (q.waiting.map Prod.snd).Pairwise (· < ·)
  accounted : (q.waiting.map Prod.snd ++ q.removed.map Prod.fst).Perm
    (List.range q.pushed.length)
  allowed : ∀ e ∈ q.removed, ∃ x, q.pushed[e.1]? = some x ∧ may x e.2

theorem Balanced.empty (may : α → κ → Prop) : Balanced may ({} : TaskLedger α κ) := by
  constructor <;> simp

theorem Balanced.removed_once (h : Balanced may q) : (q.removed.map Prod.fst).Nodup :=
  (List.nodup_append.mp (h.accounted.nodup_iff.mpr List.nodup_range)).2.1

theorem Balanced.waiting_lt (h : Balanced may q) {e : α × Nat} (he : e ∈ q.waiting) :
    e.2 < q.pushed.length := by
  have hmem : e.2 ∈ q.waiting.map Prod.snd ++ q.removed.map Prod.fst :=
    List.mem_append_left _ (List.mem_map_of_mem he)
  exact List.mem_range.mp (h.accounted.mem_iff.mp hmem)

@[simp] theorem queue_push (q : TaskLedger α κ) (xs : List α) :
    (q.push xs).queue = q.queue ++ xs := by
  simp [queue, push]

@[simp] theorem push_nil (q : TaskLedger α κ) : q.push [] = q := by
  simp [push]

@[simp] theorem pushed_take (q : TaskLedger α κ) (p : α → Bool) (k : κ) :
    (q.take p k).pushed = q.pushed := by
  unfold take
  split <;> rfl

theorem queue_take (q : TaskLedger α κ) (p : α → Bool) (k : κ) :
    (q.take p k).queue = q.queue.eraseP p := by
  unfold take queue
  rw [List.eraseP_map]
  split
  · rename_i hnone
    rw [List.eraseP_of_forall_not]
    intro e he
    simpa using List.find?_eq_none.mp hnone e he
  · rfl

/-- What `take` does, with the queue cut at the task that it removes. -/
theorem take_cases (q : TaskLedger α κ) (p : α → Bool) (k : κ) :
    (∃ front e back, q.waiting = front ++ e :: back ∧ (∀ x ∈ front, p x.1 = false) ∧
      p e.1 = true ∧
      q.take p k = { q with waiting := front ++ back, removed := q.removed ++ [(e.2, k)] }) ∨
    ((∀ x ∈ q.waiting, p x.1 = false) ∧ q.take p k = q) := by
  unfold take
  split
  · rename_i hnone
    refine .inr ⟨?_, rfl⟩
    intro x hx
    simpa using List.find?_eq_none.mp hnone x hx
  · rename_i e hsome
    obtain ⟨he, front, back, hcut, hfront⟩ := List.find?_eq_some_iff_append.mp hsome
    have hskip : ∀ x ∈ front, p x.1 = false := by simpa using hfront
    refine .inl ⟨front, e, back, hcut, hskip, he, ?_⟩
    have herase : q.waiting.eraseP (fun e => p e.1) = front ++ back := by
      rw [hcut, List.eraseP_append_right _ (by simpa using hskip)]
      simp [he]
    rw [herase]

theorem Balanced.push (h : Balanced may q) (xs : List α) : Balanced may (q.push xs) where
  tasks := by
    intro e he
    change (q.pushed ++ xs)[e.2]? = some e.1
    rcases List.mem_append.mp he with hold | hnew
    · rw [List.getElem?_append_left (h.waiting_lt hold)]
      exact h.tasks e hold
    · obtain ⟨hle, hget⟩ := List.mem_zipIdx_iff_le_and_getElem?_sub.mp hnew
      rw [List.getElem?_append_right hle]
      exact hget
  inOrder := by
    change ((q.waiting ++ xs.zipIdx q.pushed.length).map Prod.snd).Pairwise (· < ·)
    rw [List.map_append, List.zipIdx_map_snd, List.pairwise_append]
    refine ⟨h.inOrder, List.pairwise_lt_range', ?_⟩
    intro i hi j hj
    obtain ⟨e, he, rfl⟩ := List.mem_map.mp hi
    have hlt := h.waiting_lt he
    have hge := (List.mem_range'_1.mp hj).1
    omega
  accounted := by
    change ((q.waiting ++ xs.zipIdx q.pushed.length).map Prod.snd ++ q.removed.map Prod.fst).Perm
      (List.range (q.pushed ++ xs).length)
    rw [List.map_append, List.zipIdx_map_snd, List.length_append, List.range_add,
      List.append_assoc, ← List.range'_eq_map_range]
    have hswap : (q.waiting.map Prod.snd ++
          (List.range' q.pushed.length xs.length ++ q.removed.map Prod.fst)).Perm
        (q.waiting.map Prod.snd ++ q.removed.map Prod.fst ++
          List.range' q.pushed.length xs.length) := by
      rw [List.append_assoc]
      exact List.perm_append_comm.append_left _
    exact hswap.trans (h.accounted.append_right _)
  allowed := by
    intro e he
    obtain ⟨x, hget, hmay⟩ := h.allowed e he
    have hlt := (List.getElem?_eq_some_iff.mp hget).1
    exact ⟨x, (List.getElem?_append_left hlt).trans hget, hmay⟩

theorem Balanced.take (h : Balanced may q) (hp : ∀ x, p x = true → may x k) :
    Balanced may (q.take p k) := by
  rcases q.take_cases p k with ⟨front, e, back, hcut, -, he, heq⟩ | ⟨-, heq⟩
  · have hsub : (front ++ back).Sublist q.waiting := by
      rw [hcut]
      exact (List.sublist_cons_self e back).append_left front
    rw [heq]
    constructor
    · intro x hx
      exact h.tasks x (hsub.subset hx)
    · exact h.inOrder.sublist (hsub.map Prod.snd)
    · have hbefore := h.accounted
      rw [hcut] at hbefore
      refine List.Perm.trans ?_ hbefore
      simp only [List.map_append, List.map_cons, List.map_nil, List.append_assoc]
      refine List.Perm.append_left _ ?_
      rw [← List.append_assoc]
      exact List.perm_append_singleton _ _
    · intro x hx
      rcases List.mem_append.mp hx with hold | hnew
      · exact h.allowed x hold
      · obtain rfl := List.mem_singleton.mp hnew
        exact ⟨e.1, h.tasks e (by simp [hcut]), hp e.1 he⟩
  · rw [heq]
    exact h

end TaskLedger

end Lyslg.Support
