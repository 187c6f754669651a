import Lyslg.Http.Request
import Mathlib.Data.List.Basic
/-!
# `JsonUtil::Escape`

The string that the escapes are appended to is resized first, so that it starts with as many NUL
characters as the escaped text is long.
-/

namespace Lyslg.JsonUtil

open Http
open scoped ListMembers

/-! ## The three switches -/

def needEscape : List UInt8 → Bool
  | [] => false
  | c :: v =>
      if c = 12 ∨ c = 9 ∨ c = 13 ∨ c = 10 ∨ c = 8 ∨ c = 34 ∨ c = 92 then true else needEscape v

/-- The first loop of `Escape`. -/
def sizeLoop : List UInt8 → Nat → Nat
  | [], size => size
  | c :: v, size =>
      if c = 12 ∨ c = 9 ∨ c = 13 ∨ c = 10 ∨ c = 8 ∨ c = 34 ∨ c = 92 then sizeLoop v (size + 2)
      else sizeLoop v (size + 1)

/-- What the second loop of `Escape` appends for a character. -/
def escapeChar (c : UInt8) : List UInt8 :=
  if c = 12 then chars "\\f"
  else if c = 9 then chars "\\t"
  else if c = 13 then chars "\\r"
  else if c = 10 then chars "\\n"
  else if c = 8 then chars "\\b"
  else if c = 34 then chars "\\\""
  else if c = 92 then chars "\\\\"
  else [c]

/-- The second loop of `Escape`. -/
def appendLoop : List UInt8 → List UInt8 → List UInt8
  | [], rt => rt
  | c :: v, rt => appendLoop v (rt ++ escapeChar c)

def escape (v : List UInt8) : List UInt8 :=
  let size := sizeLoop v 0
  if size = v.length then v else appendLoop v (List.replicate size 0)

/-! ## The escapes -/

/-- The characters that have an escape of their own. -/
def special : List UInt8 := chars "\u000c\t\r\n\u0008\"\\"

/-- The text with the escape of each of its characters. -/
def escaped (v : List UInt8) : List UInt8 := v.flatMap escapeChar

/-- The character behind a backslash stands for this one. -/
def unescapeChar (c : UInt8) : UInt8 :=
  if c = 102 then 12
  else if c = 116 then 9
  else if c = 114 then 13
  else if c = 110 then 10
  else if c = 98 then 8
  else c

def unescape : List UInt8 → List UInt8
  | [] => []
  | [c] => [c]
  | c :: d :: v => if c = 92 then unescapeChar d :: unescape v else c :: unescape (d :: v)

variable {v : List UInt8} {c : UInt8}

theorem special_iff (c : UInt8) :
    (c = 12 ∨ c = 9 ∨ c = 13 ∨ c = 10 ∨ c = 8 ∨ c = 34 ∨ c = 92) ↔ c ∈ special := by
  have h : special = [12, 9, 13, 10, 8, 34, 92] := by decide
  simp only [h, List.mem_cons, List.not_mem_nil, or_false]

theorem escapeChar_plain (h : c ∉ special) : escapeChar c = [c] := by
  revert c
  apply forall_byte
  decide +kernel

/-- An escape is a backslash and a character that stands for the escaped one. -/
theorem escapeChar_special (h : c ∈ special) :
    ∃ d, escapeChar c = [92, d] ∧ unescapeChar d = c := by
  have hall : ∀ c ∈ special, escapeChar c = [92, (escapeChar c).getD 1 0] ∧
      unescapeChar ((escapeChar c).getD 1 0) = c := by
    decide
  exact ⟨_, hall c h⟩

theorem needEscape_iff (v : List UInt8) : needEscape v = true ↔ ∃ c ∈ v, c ∈ special := by
  induction v with
  | nil => exact iff_of_false Bool.false_ne_true fun h => by cases h.choose_spec.1
  | cons c v ih =>
      rw [needEscape, List.exists_mem_cons_iff]
      by_cases hc : c ∈ special
      · rw [if_pos ((special_iff c).mpr hc)]
        exact iff_of_true rfl (Or.inl hc)
      · rw [if_neg (mt (special_iff c).mp hc), ih, or_iff_right hc]

theorem sizeLoop_eq (v : List UInt8) (size : Nat) :
    sizeLoop v size = size + (escaped v).length := by
  induction v generalizing size with
  | nil => rfl
  | cons c v ih =>
      rw [sizeLoop, escaped, List.flatMap_cons, List.length_append]
      by_cases hc : c ∈ special
      · obtain ⟨d, hd, -⟩ := escapeChar_special hc
        rw [if_pos ((special_iff c).mpr hc), ih, hd, Nat.add_assoc]
        rfl
      · rw [if_neg (mt (special_iff c).mp hc), ih, escapeChar_plain hc, Nat.add_assoc]
        rfl

theorem appendLoop_eq (v rt : List UInt8) : appendLoop v rt = rt ++ escaped v := by
  induction v generalizing rt with
  | nil => exact (List.append_nil rt).symm
  | cons c v ih => rw [appendLoop, ih, escaped, escaped, List.flatMap_cons, List.append_assoc]

/-! ## What is escaped -/

theorem escaped_plain (h : ∀ c ∈ v, c ∉ special) : escaped v = v := by
  induction v with
  | nil => rfl
  | cons c v ih =>
      rw [List.forall_mem_cons] at h
      rw [escaped, List.flatMap_cons, escapeChar_plain h.1]
      exact congrArg (List.cons c) (ih h.2)

theorem length_escaped (v : List UInt8) :
    (escaped v).length = v.length + v.countP fun c => c ∈ special := by
  induction v with
  | nil => rfl
  | cons c v ih =>
      rw [escaped, List.flatMap_cons, List.length_append, ← escaped, ih, List.length_cons,
        List.countP_cons]
      by_cases hc : c ∈ special
      · obtain ⟨d, hd, -⟩ := escapeChar_special hc
        rw [hd, if_pos (decide_eq_true hc), List.length_cons, List.length_singleton]
        omega
      · rw [escapeChar_plain hc, if_neg (by simpa using hc), List.length_singleton]
        omega

/-- The escaped text is longer if and only if there is something to be escaped. -/
theorem length_escaped_eq_iff : (escaped v).length = v.length ↔ ∀ c ∈ v, c ∉ special := by
  rw [length_escaped, Nat.add_eq_left, List.countP_eq_zero]
  simp only [decide_eq_true_eq]

theorem unescape_append (c : UInt8) (v : List UInt8) :
    unescape (escapeChar c ++ v) = c :: unescape v := by
  by_cases hc : c ∈ special
  · obtain ⟨d, hd, hback⟩ := escapeChar_special hc
    rw [hd, List.cons_append, List.cons_append, List.nil_append, unescape, if_pos rfl, hback]
  · have hne : c ≠ 92 := by
      rintro rfl
      exact hc (by decide)
    rw [escapeChar_plain hc, List.singleton_append]
    cases v with
    | nil => rfl
    | cons d v => rw [unescape, if_neg hne]

theorem unescape_escaped (v : List UInt8) : unescape (escaped v) = v := by
  induction v with
  | nil => rfl
  | cons c v ih => rw [escaped, List.flatMap_cons, unescape_append, ← escaped, ih]

/-! ## What `Escape` returns -/

theorem escape_plain (h : ∀ c ∈ v, c ∉ special) : escape v = v := by
  rw [escape, sizeLoop_eq, Nat.zero_add]
  exact if_pos (length_escaped_eq_iff.mpr h)

theorem escape_special (h : ¬ ∀ c ∈ v, c ∉ special) :
    escape v = List.replicate (escaped v).length 0 ++ escaped v := by
  rw [escape, sizeLoop_eq, Nat.zero_add, if_neg (mt length_escaped_eq_iff.mp h), appendLoop_eq]

/-- The result is the text with its escapes: it has the length that was counted, it stands for
the text, and it is another one if and only if `NeedEscape` says so. -/
structure EscapedFaithfully (v : List UInt8) : Prop where
  text : escape v = escaped v
  length : (escape v).length = sizeLoop v 0
  back : unescape (escape v) = v
  needed : escape v ≠ v ↔ needEscape v = true

/-- `Escape` is faithful exactly to the texts in which nothing is to be escaped: any other has the
NUL characters of the `resize` before its escapes. -/
theorem escape_faithful_iff (v : List UInt8) : EscapedFaithfully v ↔ ∀ c ∈ v, c ∉ special := by
  constructor
  · intro h
    by_contra hspecial
    have htwice := congrArg List.length ((escape_special hspecial).symm.trans h.text)
    rw [List.length_append, List.length_replicate, length_escaped] at htwice
    have hsome : ¬ v.length = 0 := by
      intro hzero
      cases List.length_eq_zero_iff.mp hzero
      exact hspecial (List.forall_mem_nil _)
    omega
  · intro h
    have hplain := escape_plain h
    refine ⟨?_, ?_, ?_, ?_⟩
    · rw [hplain, escaped_plain h]
    · rw [hplain, sizeLoop_eq, Nat.zero_add, escaped_plain h]
    · have hback := unescape_escaped v
      rw [escaped_plain h] at hback
      rw [hplain, hback]
    · refine iff_of_false (fun hne => hne hplain) fun hneed => ?_
      obtain ⟨c, hc, hmem⟩ := (needEscape_iff v).mp hneed
      exact h c hc hmem

/-- A double quote is escaped behind two NUL characters. -/
theorem escape_quote : escape (chars "\"") = [0, 0, 92, 34] ∧ ¬ EscapedFaithfully (chars "\"") := by
  refine ⟨by decide, fun h => ?_⟩
  have hlength : (escape (chars "\"")).length = sizeLoop (chars "\"") 0 := h.length
  revert hlength
  decide

end Lyslg.JsonUtil
