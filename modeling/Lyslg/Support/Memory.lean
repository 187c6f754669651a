import Mathlib.Data.List.Basic
/-!
# Flat memory as a list

Reading and overwriting a window of a list, and how both split when the list
is cut into blocks.  Nothing here mentions a program: the lemmas are the
pointwise and the block-wise interface that buffer proofs share.
-/

namespace Lyslg.Support.Memory

variable {α : Type*}

/-- The `n` cells of `m` that start at `i`. -/
def slice (m : List α) (i n : Nat) : List α := (m.drop i).take n

/-- `m` with the cells from `i` on overwritten by `b`. -/
def splice (m : List α) (i : Nat) (b : List α) : List α :=
  m.take i ++ b ++ m.drop (i + b.length)

/-! ## Windows -/

theorem length_slice (m : List α) (i n : Nat) (h : i + n ≤ m.length) :
    (slice m i n).length = n := by
  simp only [slice, List.length_take, List.length_drop]
  omega

@[simp] theorem slice_zero (m : List α) (i : Nat) : slice m i 0 = [] := by
  simp [slice]

theorem slice_append_slice (m : List α) (i n k : Nat) :
    slice m i n ++ slice m (i + n) k = slice m i (n + k) := by
  simp only [slice, ← List.drop_drop]
  rw [List.take_add]

theorem slice_append_left (a b : List α) (i n : Nat) (h : i + n ≤ a.length) :
    slice (a ++ b) i n = slice a i n := by
  simp only [slice, List.drop_append_of_le_length (by omega : i ≤ a.length)]
  exact List.take_append_of_le_length (by simp only [List.length_drop]; omega)

theorem slice_append_right (a b : List α) (i n : Nat) :
    slice (a ++ b) (a.length + i) n = slice b i n := by
  simp [slice]

/-- A window that runs over the end of the first block is the rest of that
block followed by a window of the second one. -/
theorem slice_append_straddle (a b : List α) (i n : Nat)
    (hi : i ≤ a.length) (hn : a.length ≤ i + n) :
    slice (a ++ b) i n = slice a i (a.length - i) ++ slice b 0 (n - (a.length - i)) := by
  have hsplit := slice_append_slice (a ++ b) i (a.length - i) (n - (a.length - i))
  have hfirst := slice_append_left a b i (a.length - i) (by omega)
  have hsecond := slice_append_right a b 0 (n - (a.length - i))
  rw [(by omega : a.length - i + (n - (a.length - i)) = n),
    (by omega : i + (a.length - i) = a.length + 0), hfirst, hsecond] at hsplit
  exact hsplit.symm

theorem slice_full (m : List α) : slice m 0 m.length = m := by
  simp [slice]

theorem slice_slice (m : List α) (i n j k : Nat) (h : j + k ≤ n) :
    slice (slice m i n) j k = slice m (i + j) k := by
  simp only [slice, List.drop_take, List.take_take, List.drop_drop]
  rw [Nat.min_eq_left (by omega)]

/-! ## Overwriting -/

@[simp] theorem splice_nil (m : List α) (i : Nat) : splice m i [] = m := by
  simp [splice]

/-- Overwriting everything. -/
theorem splice_whole {m b : List α} (h : m.length = b.length) : splice m 0 b = b := by
  rw [splice, List.take_zero, List.nil_append, Nat.zero_add, ← h, List.drop_length, List.append_nil]

/-- Overwriting the end. -/
theorem splice_end {a m b : List α} (h : m.length = b.length) :
    splice (a ++ m) a.length b = a ++ b := by
  simp [splice, ← h]

theorem length_splice (m : List α) (i : Nat) (b : List α)
    (h : i + b.length ≤ m.length) : (splice m i b).length = m.length := by
  simp only [splice, List.length_append, List.length_take, List.length_drop]
  omega

theorem getElem?_splice (m : List α) (i : Nat) (b : List α) (j : Nat)
    (h : i + b.length ≤ m.length) :
    (splice m i b)[j]? = if i ≤ j ∧ j < i + b.length then b[j - i]? else m[j]? := by
  have htake : (m.take i).length = i := by simp only [List.length_take]; omega
  simp only [splice, List.append_assoc]
  by_cases hlow : j < i
  · rw [if_neg (by omega), List.getElem?_append_left (by omega),
      List.getElem?_take_of_lt hlow]
  · rw [List.getElem?_append_right (by omega), htake]
    by_cases hmid : j < i + b.length
    · rw [if_pos (by omega), List.getElem?_append_left (by omega)]
    · rw [if_neg (by omega), List.getElem?_append_right (by omega), List.getElem?_drop]
      congr 1
      omega

theorem slice_splice_same (m : List α) (i : Nat) (b : List α)
    (h : i + b.length ≤ m.length) : slice (splice m i b) i b.length = b := by
  have htake : (m.take i).length = i := by simp only [List.length_take]; omega
  have hright := slice_append_right (m.take i) (b ++ m.drop (i + b.length)) 0 b.length
  rw [htake, Nat.add_zero] at hright
  rw [splice, List.append_assoc, hright, slice_append_left _ _ _ _ (by omega), slice_full]

/-- Cells before the overwritten window keep their contents. -/
theorem slice_splice_before (m : List α) (i : Nat) (b : List α) (j n : Nat)
    (hjn : j + n ≤ i) (h : i ≤ m.length) : slice (splice m i b) j n = slice m j n := by
  have hlen : (m.take i).length = i := by simp only [List.length_take]; omega
  rw [splice, List.append_assoc, slice_append_left _ _ _ _ (by omega)]
  conv_rhs => rw [← List.take_append_drop i m]
  rw [slice_append_left _ _ _ _ (by omega)]

/-- Two adjacent overwrites are one overwrite of the joined bytes. -/
theorem splice_splice_adjacent (m : List α) (i : Nat) (a b : List α)
    (h : i + a.length + b.length ≤ m.length) :
    splice (splice m i a) (i + a.length) b = splice m i (a ++ b) := by
  apply List.ext_getElem?
  intro j
  rw [getElem?_splice _ _ _ _ (by rw [length_splice _ _ _ (by omega)]; omega),
    getElem?_splice _ _ _ _ (by omega),
    getElem?_splice _ _ _ _ (by simp only [List.length_append]; omega)]
  simp only [List.length_append]
  by_cases hb : i + a.length ≤ j ∧ j < i + a.length + b.length
  · rw [if_pos hb, if_pos (by omega), List.getElem?_append_right (by omega)]
    congr 1
    omega
  · rw [if_neg hb]
    by_cases ha : i ≤ j ∧ j < i + a.length
    · rw [if_pos ha, if_pos (by omega), List.getElem?_append_left (by omega)]
    · rw [if_neg ha, if_neg (by omega)]

/-- The cells up to the end of an overwrite, or up to an end behind it. -/
theorem slice_splice_front (m : List α) (i s : Nat) (b : List α) (hi : i ≤ s)
    (hb : i + b.length ≤ m.length) :
    slice (splice m i b) 0 (max s (i + b.length)) = splice (slice m 0 s) i b := by
  have hlen : (m.take i ++ b).length = i + b.length := by
    simp only [List.length_append, List.length_take]
    omega
  calc slice (splice m i b) 0 (max s (i + b.length))
      = m.take i ++ b ++ (m.drop (i + b.length)).take (max s (i + b.length) - (i + b.length)) := by
        rw [slice, List.drop_zero, splice, List.take_append, hlen,
          List.take_of_length_le (by rw [hlen]; omega)]
    _ = splice (slice m 0 s) i b := by
        rw [splice, slice, List.drop_zero, List.take_take, Nat.min_eq_left hi, List.drop_take]
        congr 2
        omega

theorem splice_append_left (a m b : List α) (i : Nat) (h : i + b.length ≤ a.length) :
    splice (a ++ m) i b = splice a i b ++ m := by
  simp only [splice, List.take_append_of_le_length (by omega : i ≤ a.length),
    List.drop_append_of_le_length h, List.append_assoc]

theorem splice_append_right (a m b : List α) (i : Nat) :
    splice (a ++ m) (a.length + i) b = a ++ splice m i b := by
  simp only [splice, Nat.add_assoc, List.drop_length_add_append, List.append_assoc]
  rw [List.take_append, List.take_of_length_le (by omega), Nat.add_sub_cancel_left,
    List.append_assoc]

/-- Overwriting over the end of the first block fills that block and then
overwrites the start of the second one. -/
theorem splice_append_straddle (a m b : List α) (i : Nat)
    (hi : i ≤ a.length) (hb : a.length ≤ i + b.length)
    (hfit : i + b.length ≤ a.length + m.length) :
    splice (a ++ m) i b =
      splice a i (b.take (a.length - i)) ++ splice m 0 (b.drop (a.length - i)) := by
  have htake : (b.take (a.length - i)).length = a.length - i := by
    simp only [List.length_take]; omega
  have hdrop : (b.drop (a.length - i)).length = b.length - (a.length - i) := by
    simp only [List.length_drop]
  conv_lhs => rw [← List.take_append_drop (a.length - i) b]
  rw [← splice_splice_adjacent _ _ _ _ (by
      rw [htake, hdrop, List.length_append]; omega),
    splice_append_left _ _ _ _ (by omega)]
  have hfilled : (splice a i (b.take (a.length - i))).length = a.length :=
    length_splice _ _ _ (by omega)
  have hright := splice_append_right (splice a i (b.take (a.length - i))) m
    (b.drop (a.length - i)) 0
  rw [hfilled] at hright
  rw [htake, (by omega : i + (a.length - i) = a.length + 0), hright]

end Lyslg.Support.Memory
