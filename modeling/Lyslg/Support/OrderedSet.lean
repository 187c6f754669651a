import Mathlib.Order.Lattice
import Mathlib.Data.List.Basic
/-!
# Ordered sets with a comparator

An ordered set as the list of its elements, with a comparator `lt` and
iterators as indices; the end iterator is the length.  When `lt` compares keys
in a linear order and the list is strictly sorted by them, `find` finds what is
there and `insert` puts a new key where it belongs.
-/

namespace Lyslg.Support.OrderedSet

variable {α κ : Type*}

/-- The first element that is not before the sought place. -/
def lowerBound (before : α → Bool) (l : List α) : Nat := (l.takeWhile before).length

/-- The element equivalent to `x`, or the end. -/
def find (lt : α → α → Bool) (l : List α) (x : α) : Nat :=
  let i := lowerBound (lt · x) l
  match l[i]? with
  | some e => if lt x e then l.length else i
  | none => l.length

/-- Insert `x` unless an equivalent element is there: the set, and the iterator to
the element. -/
def insert (lt : α → α → Bool) (l : List α) (x : α) : List α × Nat :=
  let i := lowerBound (lt · x) l
  match l[i]? with
  | some e => if lt x e then (l.insertIdx i x, i) else (l, i)
  | none => (l.insertIdx i x, i)

/-- The list is a strictly sorted one. -/
def Sorted [LT κ] (key : α → κ) (l : List α) : Prop := l.Pairwise fun a b => key a < key b

section Sorted

variable [LinearOrder κ] {key : α → κ} {l pre post : List α} {x : α}

theorem Sorted.nodup (h : Sorted key l) : l.Nodup := by
  apply List.Pairwise.imp _ h
  intro a b hab heq
  rw [heq] at hab
  exact lt_irrefl _ hab

/-- Sortedness only looks at the keys of the members. -/
theorem Sorted.congr {key' : α → κ} (h : Sorted key l) (hkey : ∀ a ∈ l, key' a = key a) :
    Sorted key' l := by
  apply List.Pairwise.imp_of_mem _ h
  intro a b ha hb hab
  rw [hkey a ha, hkey b hb]
  exact hab

theorem Sorted.sublist {l' : List α} (h : Sorted key l) (hsub : l'.Sublist l) : Sorted key l' :=
  List.Pairwise.sublist hsub h

theorem sorted_append_cons_iff :
    Sorted key (pre ++ x :: post) ↔
      Sorted key (pre ++ post) ∧ (∀ a ∈ pre, key a < key x) ∧ ∀ b ∈ post, key x < key b := by
  unfold Sorted
  simp only [List.pairwise_append, List.pairwise_cons, List.mem_cons]
  constructor
  · rintro ⟨hpre, ⟨hx, hpost⟩, hcross⟩
    exact ⟨⟨hpre, hpost, fun a ha b hb => hcross a ha b (Or.inr hb)⟩,
      fun a ha => hcross a ha x (Or.inl rfl), hx⟩
  · rintro ⟨⟨hpre, hpost, hcross⟩, hlow, hhigh⟩
    refine ⟨hpre, ⟨hhigh, hpost⟩, ?_⟩
    rintro a ha b (rfl | hb)
    · exact hlow a ha
    · exact hcross a ha b hb

/-- The members below a key, and the others. -/
theorem Sorted.split (h : Sorted key l) (k : κ) :
    ∃ pre post, l = pre ++ post ∧ (∀ a ∈ pre, key a < k) ∧ ∀ b ∈ post, k ≤ key b := by
  induction l with
  | nil => exact ⟨[], [], rfl, by simp, by simp⟩
  | cons a l ih =>
      obtain ⟨ha, hl⟩ := List.pairwise_cons.mp h
      by_cases hak : key a < k
      · obtain ⟨pre, post, rfl, hpre, hpost⟩ := ih hl
        refine ⟨a :: pre, post, rfl, ?_, hpost⟩
        exact List.forall_mem_cons.mpr ⟨hak, hpre⟩
      · refine ⟨[], a :: l, rfl, by simp, ?_⟩
        rw [List.forall_mem_cons]
        exact ⟨not_lt.mp hak, fun b hb => le_trans (not_lt.mp hak) (le_of_lt (ha b hb))⟩

theorem insertIdx_append (pre post : List α) (x : α) :
    (pre ++ post).insertIdx pre.length x = pre ++ x :: post := by
  induction pre with
  | nil => simp
  | cons a pre ih => simp [ih]

/-- A comparator that compares keys. -/
def Compares (lt : α → α → Bool) (key : α → κ) : Prop := ∀ a b, lt a b = true ↔ key a < key b

/-- A place in the list, by what is before it and what is not. -/
theorem lowerBound_append {before : α → Bool} (hpre : ∀ a ∈ pre, before a = true)
    (hpost : ∀ b ∈ post, before b = false) : lowerBound before (pre ++ post) = pre.length := by
  unfold lowerBound
  rw [List.takeWhile_append_of_pos hpre]
  cases post with
  | nil => simp
  | cons b post =>
      have hb := hpost b List.mem_cons_self
      rw [List.takeWhile_cons_of_neg (by simp [hb]), List.append_nil]

section Comparator

variable {lt : α → α → Bool}

/-- A member is found where it is. -/
theorem find_of_mem (hlt : Compares lt key) (h : Sorted key (pre ++ x :: post)) :
    find lt (pre ++ x :: post) x = pre.length := by
  obtain ⟨_, hpre, hpost⟩ := sorted_append_cons_iff.mp h
  have hbound : lowerBound (lt · x) (pre ++ x :: post) = pre.length := by
    apply lowerBound_append
    · exact fun a ha => (hlt a x).mpr (hpre a ha)
    · intro b hb
      rw [← Bool.not_eq_true, hlt b x]
      rcases List.mem_cons.mp hb with rfl | hb
      · exact lt_irrefl _
      · exact lt_asymm (hpost b hb)
  have hself : ¬ lt x x = true := by
    rw [hlt]
    exact lt_irrefl _
  unfold find
  simp [hbound, hself]

/-- A new key goes between the smaller and the larger ones. -/
theorem insert_spec (hlt : Compares lt key) (h : Sorted key l) (hx : ∀ a ∈ l, key a ≠ key x) :
    ∃ pre post, l = pre ++ post ∧ insert lt l x = (pre ++ x :: post, pre.length) ∧
      Sorted key (pre ++ x :: post) := by
  obtain ⟨pre, post, rfl, hpre, hpost⟩ := h.split (key x)
  have hafter : ∀ b ∈ post, key x < key b := by
    intro b hb
    apply lt_of_le_of_ne (hpost b hb)
    exact (hx b (List.mem_append_right pre hb)).symm
  have hbound : lowerBound (lt · x) (pre ++ post) = pre.length := by
    apply lowerBound_append
    · exact fun a ha => (hlt a x).mpr (hpre a ha)
    · intro b hb
      rw [← Bool.not_eq_true, hlt b x]
      exact lt_asymm (hafter b hb)
  refine ⟨pre, post, rfl, ?_, sorted_append_cons_iff.mpr ⟨h, hpre, hafter⟩⟩
  unfold insert
  simp only [hbound, insertIdx_append]
  cases post with
  | nil => simp
  | cons b post =>
      have hb : lt x b = true := (hlt x b).mpr (hafter b List.mem_cons_self)
      simp [hb]

end Comparator

end Sorted

end Lyslg.Support.OrderedSet
