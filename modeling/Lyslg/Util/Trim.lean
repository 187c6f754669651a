import Lyslg.Util.StdString
import Mathlib.Data.List.DropRight
/-!
# `StringUtil::TrimLeft` and `StringUtil::TrimRight`

`TrimLeft` keeps the text from the first character on that is no delimiter.  `TrimRight` keeps the
text in front of the last such character, and so loses it.
-/

namespace Lyslg.StringUtil

open StdString

def trimLeft (str delimit : List UInt8) : Option (List UInt8) :=
  let first := findFirstNotOf str delimit
  if first = npos then some [] else substrFrom str first

def trimRight (str delimit : List UInt8) : Option (List UInt8) :=
  let last := findLastNotOf str delimit
  if last = npos then some [] else substr str 0 last

/-! ## What is kept -/

section Kept

variable {str delimit t : List UInt8}

theorem trimLeft_eq (hsize : str.length < npos) :
    trimLeft str delimit = some (str.dropWhile delimit.contains) := by
  have hfirst : findFirstNotOf str delimit =
      if str.findIdx (fun c => !delimit.contains c) < str.length
      then str.findIdx (fun c => !delimit.contains c) else npos := rfl
  rw [trimLeft, hfirst, List.dropWhile_eq_drop_findIdx_not]
  generalize str.findIdx (fun c => !delimit.contains c) = i
  by_cases hlt : i < str.length
  · have hne : i ≠ npos := by omega
    rw [if_pos hlt, if_neg hne, substrFrom, if_pos (Nat.le_of_lt hlt)]
  · rw [if_neg hlt, if_pos rfl, List.drop_eq_nil_of_le (Nat.le_of_not_lt hlt)]

/-- What `TrimRight` keeps lacks the last character that is to be kept. -/
theorem trimRight_eq (hsize : str.length < npos) :
    trimRight str delimit = some (str.rdropWhile delimit.contains).dropLast := by
  have hlast : findLastNotOf str delimit =
      if str.reverse.findIdx (fun c => !delimit.contains c) < str.length
      then str.length - 1 - str.reverse.findIdx (fun c => !delimit.contains c) else npos := rfl
  rw [trimRight, hlast, List.rdropWhile, List.dropWhile_eq_drop_findIdx_not, List.drop_reverse,
    List.reverse_reverse]
  generalize str.reverse.findIdx (fun c => !delimit.contains c) = i
  by_cases hlt : i < str.length
  · have hne : str.length - 1 - i ≠ npos := by omega
    have hcount : min ((str.take (str.length - i)).length - 1) (str.length - i) =
        str.length - 1 - i := by
      rw [List.length_take]
      omega
    rw [if_pos hlt, if_neg hne, substr, if_pos (Nat.zero_le _), List.drop_zero,
      List.dropLast_eq_take, List.take_take, hcount]
  · rw [if_neg hlt, if_pos rfl, (by omega : str.length - i = 0), List.take_zero]
    rfl

end Kept

/-! ## What is to be kept -/

/-- `t` is the longest suffix of `str` that does not start with a delimiter. -/
structure LongestSuffix (str delimit t : List UInt8) : Prop where
  suffix : t <:+ str
  head : ∀ c ∈ t.head?, c ∉ delimit
  longest : ∀ u, u <:+ str → (∀ c ∈ u.head?, c ∉ delimit) → u.length ≤ t.length

/-- `t` is the longest prefix of `str` that does not end with a delimiter. -/
structure LongestPrefix (str delimit t : List UInt8) : Prop where
  prefix_of : t <+: str
  last : ∀ c ∈ t.getLast?, c ∉ delimit
  longest : ∀ u, u <+: str → (∀ c ∈ u.getLast?, c ∉ delimit) → u.length ≤ t.length

/-- A function that changes nothing the second time. -/
def Idempotent (f : List UInt8 → Option (List UInt8)) (str : List UInt8) : Prop :=
  (f str).bind f = f str

/-- What is promised of the three functions. -/
structure Trims (str delimit : List UInt8) : Prop where
  left : ∃ t, trimLeft str delimit = some t ∧ LongestSuffix str delimit t
  right : ∃ t, trimRight str delimit = some t ∧ LongestPrefix str delimit t
  left_right : trim str delimit = (trimRight str delimit).bind fun t => trimLeft t delimit
  right_left : trim str delimit = (trimLeft str delimit).bind fun t => trimRight t delimit
  idempotent : Idempotent (fun t => trim t delimit) str
  idempotent_left : Idempotent (fun t => trimLeft t delimit) str
  idempotent_right : Idempotent (fun t => trimRight t delimit) str

section Longest

variable {str delimit t u : List UInt8}

theorem contains_false_iff {c : UInt8} : delimit.contains c = false ↔ c ∉ delimit := by
  rw [← Bool.not_eq_true, List.contains_iff_mem]

theorem dropWhile_eq_self (h : ∀ c ∈ u.head?, c ∉ delimit) : u.dropWhile delimit.contains = u := by
  cases u with
  | nil => rfl
  | cons c u =>
      have hc : ¬ delimit.contains c = true := by
        rw [List.contains_iff_mem]
        exact h c rfl
      rw [List.dropWhile_cons, if_neg hc]

/-- `TrimLeft` is right for every string. -/
theorem longestSuffix_dropWhile (str delimit : List UInt8) :
    LongestSuffix str delimit (str.dropWhile delimit.contains) where
  suffix := List.dropWhile_suffix _
  head := by
    intro c hc hmem
    have hhead := List.head?_dropWhile_not delimit.contains str
    rw [Option.mem_def.mp hc] at hhead
    exact contains_false_iff.mp hhead hmem
  longest := by
    rintro u ⟨front, rfl⟩ hu
    rw [List.dropWhile_append]
    by_cases hfront : (front.dropWhile delimit.contains).isEmpty = true
    · rw [if_pos hfront, dropWhile_eq_self hu]
    · rw [if_neg hfront, List.length_append]
      exact Nat.le_add_left _ _

/-- There is nothing to be kept but delimiters if it is not longer without its last character. -/
theorem mem_of_longestPrefix
    (h : LongestPrefix str delimit (str.rdropWhile delimit.contains).dropLast)
    {c : UInt8} (hc : c ∈ str) : c ∈ delimit := by
  have hkept : str.rdropWhile delimit.contains = [] := by
    by_contra hne
    have hlast : ∀ c ∈ (str.rdropWhile delimit.contains).getLast?, c ∉ delimit := by
      intro c hc hmem
      rw [List.getLast?_eq_some_getLast hne] at hc
      have hnot := List.rdropWhile_last_not delimit.contains str hne
      rw [Option.some.inj hc] at hnot
      exact hnot (List.contains_iff_mem.mpr hmem)
    have hle := h.longest _ (List.rdropWhile_prefix delimit.contains str) hlast
    have hpos := List.length_pos_iff.mpr hne
    rw [List.length_dropLast] at hle
    omega
  exact List.contains_iff_mem.mp (List.rdropWhile_eq_nil_iff.mp hkept c hc)

theorem contains_of_forall (h : ∀ c ∈ str, c ∈ delimit) : ∀ c ∈ str, delimit.contains c = true := by
  exact fun c hc => List.contains_iff_mem.mpr (h c hc)

/-- Of a string of delimiters nothing is kept. -/
theorem dropWhile_delimiters (h : ∀ c ∈ str, c ∈ delimit) :
    str.dropWhile delimit.contains = [] := by
  exact List.dropWhile_eq_nil_iff.mpr (contains_of_forall h)

theorem rdropWhile_delimiters (h : ∀ c ∈ str, c ∈ delimit) :
    str.rdropWhile delimit.contains = [] := by
  exact List.rdropWhile_eq_nil_iff.mpr (contains_of_forall h)

theorem longestPrefix_nil (h : ∀ c ∈ str, c ∈ delimit) : LongestPrefix str delimit [] where
  prefix_of := List.nil_prefix
  last := fun c hc => by cases hc
  longest := by
    intro u hpre hu
    rw [List.length_nil, Nat.le_zero, List.length_eq_zero_iff]
    by_contra hne
    have hlast : u.getLast hne ∈ u.getLast? := List.getLast?_eq_some_getLast hne
    exact hu _ hlast (h _ (hpre.subset (List.getLast_mem hne)))

theorem trim_delimiters (h : ∀ c ∈ str, c ∈ delimit) (hsize : str.length < npos) :
    trim str delimit = some [] := by
  rw [trim_eq hsize, trimmed, dropWhile_delimiters h]
  rfl

theorem trimLeft_delimiters (h : ∀ c ∈ str, c ∈ delimit) (hsize : str.length < npos) :
    trimLeft str delimit = some [] := by
  rw [trimLeft_eq hsize, dropWhile_delimiters h]

theorem trimRight_delimiters (h : ∀ c ∈ str, c ∈ delimit) (hsize : str.length < npos) :
    trimRight str delimit = some [] := by
  rw [trimRight_eq hsize, rdropWhile_delimiters h]
  rfl

end Longest

/-- The three functions trim exactly if the string has nothing but delimiters. -/
theorem trim_exact_iff (str : StdString) (delimit : List UInt8) :
    Trims str.bytes delimit ↔ ∀ c ∈ str.bytes, c ∈ delimit := by
  constructor
  · intro htrims c hc
    obtain ⟨t, ht, hlongest⟩ := htrims.right
    rw [trimRight_eq str.size_lt] at ht
    rw [← Option.some.inj ht] at hlongest
    exact mem_of_longestPrefix hlongest hc
  · intro h
    have hleft := trimLeft_delimiters h str.size_lt
    have hright := trimRight_delimiters h str.size_lt
    have hboth := trim_delimiters h str.size_lt
    have hnil : ∀ c ∈ ([] : List UInt8), c ∈ delimit := List.forall_mem_nil _
    have hzero : ([] : List UInt8).length < npos := by decide
    refine ⟨?_, ⟨[], hright, longestPrefix_nil h⟩, ?_, ?_, ?_, ?_, ?_⟩
    · refine ⟨_, trimLeft_eq str.size_lt, longestSuffix_dropWhile str.bytes delimit⟩
    · rw [hboth, hright, Option.bind_some, trimLeft_delimiters hnil hzero]
    · rw [hboth, hleft, Option.bind_some, trimRight_delimiters hnil hzero]
    · rw [Idempotent, hboth, Option.bind_some, trim_delimiters hnil hzero]
    · rw [Idempotent, hleft, Option.bind_some, trimLeft_delimiters hnil hzero]
    · rw [Idempotent, hright, Option.bind_some, trimRight_delimiters hnil hzero]

/-- `TrimRight("a", " ")` is empty. -/
theorem trimRight_loses : trimRight [97] [32] = some [] ∧ ¬ Trims [97] [32] := by
  have hlost : trimRight [97] [32] = some [] := by decide
  refine ⟨hlost, ?_⟩
  intro htrims
  obtain ⟨t, ht, hlongest⟩ := htrims.right
  have hle := hlongest.longest [97] (List.prefix_refl _) (by simp)
  rw [hlost] at ht
  rw [← Option.some.inj ht] at hle
  exact absurd hle (by decide)

end Lyslg.StringUtil
