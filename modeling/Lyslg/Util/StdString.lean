import Lyslg.Support.Machine
import Mathlib.Data.List.Basic
/-!
# `std::string` and `StringUtil::Trim`

Positions in a string are `size_t`, and `npos` is the one that no string reaches.
-/

namespace Lyslg

open Support.Machine

/-- `std::string::npos` -/
def npos : Nat := 2 ^ 64 - 1

/-- The bytes of a `std::string`. -/
structure StdString where
  bytes : List UInt8
  size_lt : bytes.length < npos

namespace StdString

/-- `str.find(ch, pos)` -/
def find (str : List UInt8) (ch : UInt8) (pos : Nat) : Nat :=
  let i := (str.drop pos).findIdx fun c => c == ch
  if i < (str.drop pos).length then pos + i else npos

/-- `str.substr(pos, n)`; none is `std::out_of_range`. -/
def substr (str : List UInt8) (pos n : Nat) : Option (List UInt8) :=
  if pos ≤ str.length then some ((str.drop pos).take n) else none

/-- `str.substr(pos)`; none is `std::out_of_range`. -/
def substrFrom (str : List UInt8) (pos : Nat) : Option (List UInt8) :=
  if pos ≤ str.length then some (str.drop pos) else none

/-- The first place from `pos` on of a character that `p` holds of, as `str.find(ch, pos)` and
`str.find_first_of(s, pos)` look for it. -/
def findIf (p : UInt8 → Bool) (str : List UInt8) (pos : Nat) : Nat :=
  let i := (str.drop pos).findIdx p
  if i < (str.drop pos).length then pos + i else npos

/-- `str.find_first_not_of(delimit)` -/
def findFirstNotOf (str delimit : List UInt8) : Nat :=
  let i := str.findIdx fun c => !delimit.contains c
  if i < str.length then i else npos

/-- `str.find_last_not_of(delimit)` -/
def findLastNotOf (str delimit : List UInt8) : Nat :=
  let i := str.reverse.findIdx fun c => !delimit.contains c
  if i < str.length then str.length - 1 - i else npos

variable {p : UInt8 → Bool} {str a b : List UInt8} {ch : UInt8} {pos : Nat}

theorem findIf_bounds (h : findIf p str pos ≠ npos) :
    pos ≤ findIf p str pos ∧ findIf p str pos < str.length := by
  by_cases hlt : (str.drop pos).findIdx p < (str.drop pos).length
  · have heq : findIf p str pos = pos + (str.drop pos).findIdx p := if_pos hlt
    rw [List.length_drop] at hlt
    omega
  · exact absurd (if_neg hlt) h

theorem find_bounds (h : find str ch pos ≠ npos) :
    pos ≤ find str ch pos ∧ find str ch pos < str.length := by
  exact findIf_bounds h

theorem length_drop_eq (h : str.drop pos = a ++ b) (hb : b ≠ []) :
    str.length = pos + a.length + b.length := by
  have hlen := congrArg List.length h
  have hpos : 0 < b.length := List.length_pos_iff.mpr hb
  rw [List.length_drop, List.length_append] at hlen
  omega

/-- A character is found behind what `p` does not hold of. -/
theorem findIf_eq (h : str.drop pos = a ++ ch :: b) (ha : ∀ c ∈ a, p c = false)
    (hch : p ch = true) :
    findIf p str pos = pos + a.length := by
  have hidx : (str.drop pos).findIdx p = a.length := by
    rw [h, List.findIdx_append, List.findIdx_eq_length_of_false ha, if_neg (Nat.lt_irrefl _),
      List.findIdx_cons, hch, cond_true, Nat.zero_add]
  unfold findIf
  rw [hidx, if_pos]
  rw [h, List.length_append, List.length_cons]
  omega

theorem findIf_eq_npos (h : ∀ c ∈ str.drop pos, p c = false) : findIf p str pos = npos := by
  unfold findIf
  rw [List.findIdx_eq_length_of_false h, if_neg (Nat.lt_irrefl _)]

theorem beq_false_of_not_mem (h : ch ∉ a) : ∀ c ∈ a, (c == ch) = false := by
  intro c hc
  rw [beq_eq_false_iff_ne]
  rintro rfl
  exact h hc

/-- The character is found behind what does not have it. -/
theorem find_eq (h : str.drop pos = a ++ ch :: b) (ha : ch ∉ a) :
    find str ch pos = pos + a.length := by
  exact findIf_eq h (beq_false_of_not_mem ha) (beq_self_eq_true ch)

theorem find_eq_npos (h : ch ∉ str.drop pos) : find str ch pos = npos := by
  exact findIf_eq_npos (beq_false_of_not_mem h)

theorem substr_eq (h : str.drop pos = a ++ b) (hpos : pos ≤ str.length) :
    substr str pos a.length = some a := by
  rw [substr, if_pos hpos, h, List.take_left]

end StdString

namespace StringUtil

open StdString

/-- `StringUtil::Trim` -/
def trim (str delimit : List UInt8) : Option (List UInt8) :=
  let first := findFirstNotOf str delimit
  if first = npos then some []
  else substr str first (addSize (subSize (findLastNotOf str delimit) first) 1)

/-- A text without the delimiters around it. -/
def trimmed (delimit str : List UInt8) : List UInt8 :=
  ((str.dropWhile delimit.contains).reverse.dropWhile delimit.contains).reverse

variable {str delimit : List UInt8} {c : UInt8}

theorem mem_of_mem_trimmed (hc : c ∈ trimmed delimit str) : c ∈ str := by
  have hinner := (List.dropWhile_sublist _).mem (List.mem_reverse.mp hc)
  exact (List.dropWhile_sublist _).mem (List.mem_reverse.mp hinner)

theorem mem_dropWhile {p : UInt8 → Bool} (hc : c ∈ str) (hp : p c = false) :
    c ∈ str.dropWhile p := by
  rw [← List.takeWhile_append_dropWhile (p := p) (l := str), List.mem_append] at hc
  refine hc.resolve_left fun htake => ?_
  rw [List.all_eq_true.mp List.all_takeWhile c htake] at hp
  cases hp

theorem mem_trimmed (hc : c ∈ str) (hout : c ∉ delimit) : c ∈ trimmed delimit str := by
  have hp : delimit.contains c = false := by
    rw [List.contains_eq_mem, decide_eq_false hout]
  exact List.mem_reverse.mpr (mem_dropWhile (List.mem_reverse.mpr (mem_dropWhile hc hp)) hp)

theorem trim_eq (hsize : str.length < npos) : trim str delimit = some (trimmed delimit str) := by
  have hfirst : findFirstNotOf str delimit =
      if str.findIdx (fun c => !delimit.contains c) < str.length
      then str.findIdx (fun c => !delimit.contains c) else npos := rfl
  have hdrop : str.dropWhile delimit.contains =
      str.drop (str.findIdx fun c => !delimit.contains c) :=
    List.dropWhile_eq_drop_findIdx_not
  generalize hi : str.findIdx (fun c => !delimit.contains c) = i at hfirst hdrop
  unfold trim trimmed
  rw [hfirst, hdrop]
  by_cases hlt : i < str.length
  · have hcut : str.reverse = (str.drop i).reverse ++ (str.take i).reverse := by
      rw [← List.reverse_append, List.take_append_drop]
    -- what is not a delimiter is found from behind before the first such position
    have hinner : (str.drop i).reverse.findIdx (fun c => !delimit.contains c) <
        (str.drop i).reverse.length := by
      have hmem : str[i] ∈ (str.drop i).reverse := by
        rw [List.mem_reverse, List.drop_eq_getElem_cons hlt]
        exact List.mem_cons_self
      refine List.findIdx_lt_length.mpr ⟨str[i], hmem, ?_⟩
      subst hi
      exact List.findIdx_getElem (p := fun c => !delimit.contains c)
    have hlast : findLastNotOf str delimit =
        str.length - 1 - (str.drop i).reverse.findIdx fun c => !delimit.contains c := by
      unfold findLastNotOf
      rw [hcut, List.findIdx_append, if_pos hinner]
      rw [List.length_reverse, List.length_drop] at hinner
      exact if_pos (by omega)
    rw [List.dropWhile_eq_drop_findIdx_not, List.drop_reverse, List.reverse_reverse]
    rw [List.length_reverse, List.length_drop] at hinner
    rw [hlast]
    generalize (str.drop i).reverse.findIdx (fun c => !delimit.contains c) = j at hinner
    have hne : i ≠ npos := by omega
    rw [if_pos hlt]
    unfold npos at hsize
    rw [if_neg hne, subSize_of_le (by omega) (by omega), addSize_of_lt (by omega), substr,
      if_pos (by omega), List.length_drop,
      (by omega : str.length - 1 - j - i + 1 = str.length - i - j)]
  · rw [if_neg hlt, if_pos rfl, List.drop_eq_nil_of_le (Nat.le_of_not_lt hlt)]
    rfl

end StringUtil

end Lyslg
