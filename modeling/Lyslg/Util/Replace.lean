import Lyslg.Util.StdString
/-!
# `replace`

The string that is searched changes in every iteration.  A loop has `fuel` for so many
iterations, and memory for a string of any length.
-/

namespace Lyslg.Replace

open StdString

inductive Outcome where
  | running
  | thrown
  | returned (str : List UInt8)
  deriving DecidableEq, Repr

/-- The first place of `needle`. -/
def findPos (needle : List UInt8) : List UInt8 → Option Nat
  | [] => if needle.isPrefixOf [] then some 0 else none
  | c :: rest =>
      if needle.isPrefixOf (c :: rest) then some 0 else (findPos needle rest).map (· + 1)

/-- `str.find(needle, pos)`; none is `npos`. -/
def findString (needle str : List UInt8) (pos : Nat) : Option Nat :=
  if pos ≤ str.length then (findPos needle (str.drop pos)).map (pos + ·) else none

/-- `str.find(ch, pos)`; none is `npos`. -/
def findChar (ch : UInt8) (str : List UInt8) (pos : Nat) : Option Nat :=
  ((str.drop pos).findIdx? (· == ch)).map (pos + ·)

/-- The loop of either overload, with `find` for its search and `size` for what an occurrence
takes up. -/
def replaceLoop (find : List UInt8 → Nat → Option Nat) (size : Nat) (replaceWith : List UInt8) :
    Nat → List UInt8 → Option Nat → Outcome
  | _, str, none => .returned str
  | 0, _, some _ => .running
  | fuel + 1, str, some index =>
      match substr str 0 index, substrFrom str (index + size) with
      | some head, some tail =>
          let str := head ++ replaceWith ++ tail
          replaceLoop find size replaceWith fuel str (find str (index + replaceWith.length))
      | _, _ => .thrown

/-- `replace(str1, find, replaceWith)` for a character. -/
def replaceChar (fuel : Nat) (str1 : List UInt8) (find : UInt8) (replaceWith : List UInt8) :
    Outcome :=
  replaceLoop (findChar find) 1 replaceWith fuel str1 (findChar find str1 0)

/-- `replace(str1, find, replaceWith)` for a string. -/
def replaceString (fuel : Nat) (str1 find replaceWith : List UInt8) : Outcome :=
  replaceLoop (findString find) find.length replaceWith fuel str1 (findString find str1 0)

/-! ## The text with every occurrence replaced -/

/-- One pass from left to right, which goes on behind each occurrence. -/
def replaced (find replaceWith : List UInt8) : List UInt8 → List UInt8
  | [] => []
  | c :: rest =>
      if find.isPrefixOf (c :: rest) then
        replaceWith ++ replaced find replaceWith (rest.drop (find.length - 1))
      else c :: replaced find replaceWith rest
termination_by str => str.length
decreasing_by
  · rw [List.length_drop]
    exact Nat.lt_succ_of_le (Nat.sub_le _ _)
  · exact Nat.lt_succ_self _

section Search

variable {find replaceWith str front rest : List UInt8} {index : Nat}

/-- Behind `front`, where the search goes on, is the rest of the text. -/
theorem findString_append : findString find (front ++ rest) front.length =
    (findPos find rest).map (front.length + ·) := by
  rw [findString, List.drop_left, if_pos]
  rw [List.length_append]
  exact Nat.le_add_right _ _

theorem findPos_none (h : findPos find rest = none) : replaced find replaceWith rest = rest := by
  induction rest with
  | nil => rw [replaced]
  | cons c rest ih =>
      rw [findPos] at h
      by_cases hprefix : find.isPrefixOf (c :: rest) = true
      · rw [if_pos hprefix] at h
        cases h
      · rw [if_neg hprefix, Option.map_eq_none_iff] at h
        rw [replaced, if_neg hprefix, ih h]

/-- The first occurrence is replaced, and the pass goes on behind it. -/
theorem findPos_some (replaceWith : List UInt8) (hfind : find ≠ [])
    (h : findPos find rest = some index) :
    index + find.length ≤ rest.length ∧ replaced find replaceWith rest =
      rest.take index ++ replaceWith ++
        replaced find replaceWith (rest.drop (index + find.length)) := by
  induction rest generalizing index with
  | nil =>
      cases find with
      | nil => exact absurd rfl hfind
      | cons d find => cases h
  | cons c rest ih =>
      rw [findPos] at h
      by_cases hprefix : find.isPrefixOf (c :: rest) = true
      · rw [if_pos hprefix] at h
        cases h
        have hle := (List.isPrefixOf_iff_prefix.mp hprefix).length_le
        have hpos : 0 < find.length := List.length_pos_iff.mpr hfind
        have hdrop : rest.drop (find.length - 1) = (c :: rest).drop find.length := by
          rw [← List.drop_succ_cons (a := c), Nat.sub_add_cancel hpos]
        rw [Nat.zero_add, replaced, if_pos hprefix, hdrop]
        exact ⟨hle, rfl⟩
      · rw [if_neg hprefix, Option.map_eq_some_iff] at h
        obtain ⟨i, hi, rfl⟩ := h
        obtain ⟨hle, hreplaced⟩ := ih hi
        rw [List.length_cons, replaced, if_neg hprefix, hreplaced, Nat.add_right_comm]
        exact ⟨Nat.succ_le_succ hle, rfl⟩

theorem findPos_nil (rest : List UInt8) : findPos [] rest = some 0 := by
  cases rest <;> rfl

theorem findPos_singleton (c : UInt8) (rest : List UInt8) :
    findPos [c] rest = rest.findIdx? (· == c) := by
  induction rest with
  | nil => rfl
  | cons d rest ih =>
      have hprefix : [c].isPrefixOf (d :: rest) = (d == c) := by
        rw [List.isPrefixOf, List.isPrefixOf_nil_left, Bool.and_true, Bool.beq_comm]
      rw [findPos, List.findIdx?_cons, ih, hprefix]

theorem findChar_eq (c : UInt8) : findChar c = findString [c] := by
  funext str pos
  rw [findChar, findString]
  by_cases hpos : pos ≤ str.length
  · rw [if_pos hpos, findPos_singleton]
  · rw [if_neg hpos, List.drop_eq_nil_of_le (Nat.le_of_not_le hpos)]
    rfl

end Search

/-! ## The loop -/

section Loop

variable {find replaceWith str front rest : List UInt8} {index fuel : Nat}

/-- An iteration puts `replaceWith` in the place of the occurrence, and goes on behind it. -/
theorem replaceLoop_step (find : List UInt8 → Nat → Option Nat) (size : Nat)
    (h : index + size ≤ str.length) :
    replaceLoop find size replaceWith (fuel + 1) str (some index) =
      replaceLoop find size replaceWith fuel
        (str.take index ++ replaceWith ++ str.drop (index + size))
        (find (str.take index ++ replaceWith ++ str.drop (index + size))
          (index + replaceWith.length)) := by
  have hhead : substr str 0 index = some (str.take index) := by
    rw [substr, if_pos (Nat.zero_le _), List.drop_zero]
  have htail : substrFrom str (index + size) = some (str.drop (index + size)) := if_pos h
  rw [replaceLoop, hhead, htail]

/-- What is in front of the search stays, and the rest has every occurrence replaced. -/
theorem replaceLoop_eq (front : List UInt8) (hfind : find ≠ []) (hfuel : rest.length ≤ fuel) :
    replaceLoop (findString find) find.length replaceWith fuel (front ++ rest)
        (findString find (front ++ rest) front.length) =
      .returned (front ++ replaced find replaceWith rest) := by
  induction fuel generalizing front rest with
  | zero =>
      rw [List.length_eq_zero_iff.mp (Nat.le_zero.mp hfuel), findString_append]
      cases find with
      | nil => exact absurd rfl hfind
      | cons c find => rw [replaced]; rfl
  | succ fuel ih =>
      rw [findString_append]
      cases hpos : findPos find rest with
      | none =>
          rw [findPos_none hpos]
          rfl
      | some index =>
          obtain ⟨hle, hreplaced⟩ := findPos_some replaceWith hfind hpos
          have hsize : 0 < find.length := List.length_pos_iff.mpr hfind
          have hroom : front.length + index + find.length ≤ (front ++ rest).length := by
            rw [List.length_append]
            omega
          have htake : (front ++ rest).take (front.length + index) = front ++ rest.take index :=
            List.take_length_add_append index
          have hdrop : (front ++ rest).drop (front.length + index + find.length) =
              rest.drop (index + find.length) := by
            rw [Nat.add_assoc, List.drop_length_add_append]
          have hnext : front.length + index + replaceWith.length =
              (front ++ rest.take index ++ replaceWith).length := by
            rw [List.length_append, List.length_append, List.length_take_of_le (by omega)]
          rw [Option.map_some, replaceLoop_step _ _ hroom, htake, hdrop, hnext, ih, hreplaced]
          · simp only [List.append_assoc]
          · rw [List.length_drop]
            omega

/-- The empty string is found wherever it is looked for, and the loop does not end. -/
theorem replaceLoop_empty (h : index ≤ str.length) :
    replaceLoop (findString []) 0 replaceWith fuel str (findString [] str index) = .running := by
  induction fuel generalizing str index with
  | zero =>
      rw [findString, if_pos h, findPos_nil]
      rfl
  | succ fuel ih =>
      have hnext : index + replaceWith.length ≤
          (str.take index ++ replaceWith ++ str.drop (index + 0)).length := by
        rw [List.length_append, List.length_append, List.length_take_of_le h]
        omega
      have hfind : findString [] str index = some index := by
        rw [findString, if_pos h, findPos_nil]
        rfl
      rw [hfind, replaceLoop_step _ _ h]
      exact ih hnext

end Loop

/-- The call returns, and for a `find` that is not empty it returns the text with every occurrence
replaced. -/
def ReplacesAll (str find replaceWith : List UInt8) : Prop :=
  ∃ fuel result, replaceString fuel str find replaceWith = .returned result ∧
    (find ≠ [] → result = replaced find replaceWith str)

/-- Replacing ends exactly for a string to be replaced that is not empty, and it replaces every
leftmost occurrence that is there from the start; a character is replaced as a string of one. -/
theorem replace_terminates_iff (str find replaceWith : List UInt8) :
    (ReplacesAll str find replaceWith ↔ find ≠ []) ∧
    ∀ fuel c, replaceChar fuel str c replaceWith = replaceString fuel str [c] replaceWith := by
  refine ⟨⟨?_, ?_⟩, fun fuel c => ?_⟩
  · rintro ⟨fuel, result, hreturned, -⟩ rfl
    have hrunning : replaceString fuel str [] replaceWith = .running :=
      replaceLoop_empty (Nat.zero_le str.length)
    rw [hrunning] at hreturned
    cases hreturned
  · intro hfind
    refine ⟨str.length, replaced find replaceWith str, ?_, fun _ => rfl⟩
    exact replaceLoop_eq [] hfind (Nat.le_refl str.length)
  · rw [replaceChar, replaceString, findChar_eq]
    rfl

/-- Replacing the empty string by itself goes on for ever. -/
theorem replace_empty : ¬ ReplacesAll [97] [] [] := by
  rintro ⟨fuel, result, hreturned, -⟩
  have hrunning : replaceString fuel [97] [] [] = .running := replaceLoop_empty (Nat.zero_le 1)
  rw [hrunning] at hreturned
  cases hreturned

end Lyslg.Replace
