import Lyslg.Support.Horner
import Lyslg.Util.UrlReference
import Mathlib.Data.Nat.Digits.Lemmas
/-!
# Numbers as text

What `os << v` writes for a number that is not negative, with the base that the stream is set to,
and the value of such a text.
-/

namespace Lyslg.Numerals

open Http StringUtil

/-- The digit of a value, in lower case. -/
def digit (v : Nat) : UInt8 := if v < 10 then UInt8.ofNat (48 + v) else UInt8.ofNat (87 + v)

/-- `os << v` -/
def numeral (base v : Nat) : List UInt8 :=
  if v = 0 then [digit 0] else ((Nat.digits base v).map digit).reverse

/-- The value of the digits of a text. -/
def numeralValue (base : Nat) (text : List UInt8) : Nat :=
  text.foldl (fun n c => base * n + (hexValue c).getD 0) 0

section Digits

variable {base v : Nat} {c : UInt8}

theorem hexValue_digit (h : v < 16) : hexValue (digit v) = some v := by
  revert v
  decide

theorem numeralValue_reverse {digits : List Nat} (h : ∀ d ∈ digits, d < 16) :
    numeralValue base (digits.map digit).reverse = Nat.ofDigits base digits := by
  have hvalue : ∀ d ∈ digits, (hexValue (digit d)).getD 0 = d := by
    intro d hd
    rw [hexValue_digit (h d hd), Option.getD_some]
  exact Support.Horner.foldl_digits base digit (fun c => (hexValue c).getD 0) hvalue

theorem numeral_eq (hv : v ≠ 0) : numeral base v = ((Nat.digits base v).map digit).reverse := by
  exact if_neg hv

/-- The value of what is written is the number. -/
theorem numeralValue_numeral (hone : 1 < base) (hbase : base ≤ 16) :
    numeralValue base (numeral base v) = v := by
  by_cases hv : v = 0
  · rw [hv]
    rfl
  · have hdigits : ∀ d ∈ Nat.digits base v, d < 16 := fun d hd =>
      Nat.lt_of_lt_of_le (Nat.digits_lt_base hone hd) hbase
    rw [numeral_eq hv, numeralValue_reverse hdigits, Nat.ofDigits_digits]

theorem numeral_injective (hone : 1 < base) (hbase : base ≤ 16) {u v : Nat}
    (h : numeral base u = numeral base v) : u = v := by
  rw [← numeralValue_numeral (v := u) hone hbase, h, numeralValue_numeral hone hbase]

theorem isSome_of_mem_numeral (hone : 1 < base) (hbase : base ≤ 16) (h : c ∈ numeral base v) :
    (hexValue c).isSome := by
  have hdigit : ∃ d, d < 16 ∧ digit d = c := by
    by_cases hv : v = 0
    · rw [hv] at h
      exact ⟨0, by decide, (List.mem_singleton.mp h).symm⟩
    · rw [numeral_eq hv, List.mem_reverse, List.mem_map] at h
      obtain ⟨d, hd, hc⟩ := h
      exact ⟨d, Nat.lt_of_lt_of_le (Nat.digits_lt_base hone hd) hbase, hc⟩
  obtain ⟨d, hd, rfl⟩ := hdigit
  rw [hexValue_digit hd, Option.isSome_some]

theorem length_numeral_pos : 0 < (numeral base v).length := by
  by_cases hv : v = 0
  · rw [hv]
    exact Nat.one_pos
  · rw [numeral_eq hv, List.length_reverse, List.length_map]
    exact List.length_pos_iff.mpr (Nat.digits_ne_nil_iff_ne_zero.mpr hv)

theorem length_numeral_le {k : Nat} (hone : 1 < base) (hk : 0 < k) (h : v < base ^ k) :
    (numeral base v).length ≤ k := by
  by_cases hv : v = 0
  · rw [hv]
    exact hk
  · rw [numeral_eq hv, List.length_reverse, List.length_map]
    exact (Nat.digits_length_le_iff hone v).mpr h

end Digits

end Lyslg.Numerals
