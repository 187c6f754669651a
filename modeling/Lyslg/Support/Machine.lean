import Mathlib.Tactic.Ring
/-!
# C++ integer conversions

`size_t` values are naturals below `2^64` and `int` values are integers in
`[-2^31, 2^31)`.  The two conversions between them wrap.
-/

namespace Lyslg.Support.Machine

/-- Conversion of a signed value to `size_t` (and to `uint64_t`). -/
@[irreducible] def sizeT (v : Int) : Nat := (v % 2 ^ 64).toNat

/-- Conversion of an integer to `int`. -/
@[irreducible] def int32 (v : Int) : Int := v.bmod (2 ^ 32)

/-- Conversion of an integer to `int64_t`. -/
@[irreducible] def int64 (v : Int) : Int := v.bmod (2 ^ 64)

/-- `a + b` in `size_t`. -/
def addSize (a b : Nat) : Nat := (a + b) % 2 ^ 64

/-- `a - b` in `size_t`. -/
def subSize (a b : Nat) : Nat := (a + (2 ^ 64 - b % 2 ^ 64)) % 2 ^ 64

@[simp] theorem sizeT_zero : sizeT 0 = 0 := by decide +kernel

@[simp] theorem int32_zero : int32 0 = 0 := by decide +kernel

theorem sizeT_natCast {n : Nat} (h : n < 2 ^ 64) : sizeT n = n := by
  unfold sizeT
  omega

theorem sizeT_neg {v : Int} (hneg : v < 0) (hlow : -2 ^ 63 ≤ v) :
    (sizeT v : Int) = 2 ^ 64 + v := by
  unfold sizeT
  omega

theorem sizeT_lt (v : Int) : sizeT v < 2 ^ 64 := by
  unfold sizeT
  omega

theorem int32_natCast {n : Nat} (h : n < 2 ^ 31) : int32 n = n := by
  unfold int32
  rw [Int.bmod_def]
  omega

theorem int64_natCast {n : Nat} (h : n < 2 ^ 63) : int64 n = n := by
  unfold int64
  rw [Int.bmod_def]
  omega

theorem int64_wrap {n : Nat} (hlow : 2 ^ 63 ≤ n) (hhigh : n < 2 ^ 64) :
    int64 n = (n : Int) - 2 ^ 64 := by
  unfold int64
  rw [Int.bmod_def]
  omega

theorem int32_wrap {n : Nat} (hlow : 2 ^ 31 ≤ n) (hhigh : n < 2 ^ 32) :
    int32 n = (n : Int) - 2 ^ 32 := by
  unfold int32
  rw [Int.bmod_def]
  omega

theorem int32_wrap_neg {n : Nat} (hlow : 2 ^ 31 ≤ n) (hhigh : n < 2 ^ 32) : int32 n < 0 := by
  rw [int32_wrap hlow hhigh]
  omega

/-- A wrapped sum stays negative as long as it does not reach the next multiple. -/
theorem int32_wrap_add {n k : Nat} (hlow : 2 ^ 31 ≤ n) (hhigh : n + k < 2 ^ 32) :
    int32 n + k < 0 := by
  rw [int32_wrap hlow (by omega)]
  omega

theorem int32_range (v : Int) : -2 ^ 31 ≤ int32 v ∧ int32 v < 2 ^ 31 := by
  unfold int32
  rw [Int.bmod_def]
  omega

theorem int32_le_natCast (n : Nat) : int32 n ≤ n := by
  unfold int32
  rw [Int.bmod_def]
  omega

/-- Only the last of two conversions counts. -/
theorem int32_add_int32 (v w : Int) : int32 (int32 v + w) = int32 (v + w) := by
  unfold int32
  exact Int.bmod_add_bmod

theorem addSize_of_lt {a b : Nat} (h : a + b < 2 ^ 64) : addSize a b = a + b :=
  Nat.mod_eq_of_lt h

theorem subSize_of_le {a b : Nat} (ha : a < 2 ^ 64) (hb : b ≤ a) : subSize a b = a - b := by
  unfold subSize
  omega

end Lyslg.Support.Machine
