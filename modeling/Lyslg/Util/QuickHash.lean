import Lyslg.Support.Horner
import Lyslg.Util.Url
/-!
# The two `quick_hash`

One reads a string up to the zero after it, the other is given the size.  The memory is what the
pointer can read, and a read past it is nothing.
-/

namespace Lyslg.HashUtil

open StringUtil
open Support.Horner

/-- `*str` in arithmetic with an `unsigned int`. -/
def charWord (c : UInt8) : UInt32 := UInt32.ofInt (signedChar c)

/-- The loop of `quick_hash(const char* str)`. -/
def quickHashLoop : UInt32 → List UInt8 → Option UInt32
  | _, [] => none
  | h, c :: str => if c = 0 then some h else quickHashLoop (31 * h + charWord c) str

def quickHash (str : List UInt8) : Option UInt32 := quickHashLoop 0 str

/-- The loop of `quick_hash(const void* tmp, uint32_t size)` with `size - i` rounds to go.
The pointer is not moved. -/
def quickHashSizeLoop (str : List UInt8) : Nat → UInt32 → Option UInt32
  | 0, h => some h
  | rounds + 1, h => do
      let c ← str.head?
      quickHashSizeLoop str rounds (31 * h + charWord c)

def quickHashSize (tmp : List UInt8) (size : UInt32) : Option UInt32 :=
  quickHashSizeLoop tmp size.toNat 0

/-! ## What they are for -/

/-- The characters times falling powers of 31. -/
def charSum (s : List UInt8) : Int :=
  ∑ i ∈ Finset.range s.length, signedChar (s.getD i 0) * 31 ^ (s.length - 1 - i)

/-- Both compute the sum of the string `s` modulo `2 ^ 32`, whatever is behind its zero. -/
def OverloadsAgree (s rest : List UInt8) : Prop :=
  quickHash (s ++ 0 :: rest) = quickHashSize (s ++ 0 :: rest) (UInt32.ofNat s.length) ∧
    quickHash (s ++ 0 :: rest) = some (UInt32.ofInt (charSum s))

/-- The distances of the characters from the first one times falling powers of 31. -/
def drift (s : List UInt8) : Int :=
  ∑ i ∈ Finset.range s.length,
    (signedChar (s.getD i 0) - signedChar (s.getD 0 0)) * 31 ^ (s.length - 1 - i)

/-! ## The sums -/

variable {s rest : List UInt8} {c : UInt8}

theorem charSum_eq (s : List UInt8) : charSum s = weightedSum 31 (s.map signedChar) := by
  rw [weightedSum, List.length_map]
  refine Finset.sum_congr rfl fun i _ => ?_
  have hget : (s.map signedChar).getD i 0 = signedChar (s.getD i 0) := List.getD_map s 0 signedChar
  rw [hget]

theorem getD_map_sub (a : Int) {i : Nat} (h : i < s.length) :
    ((s.map signedChar).map fun x => x - a).getD i 0 = signedChar (s.getD i 0) - a := by
  have hmap : i < ((s.map signedChar).map fun x => x - a).length := by
    rw [List.length_map, List.length_map]
    exact h
  rw [List.getD_eq_getElem _ 0 hmap, List.getElem_map, List.getElem_map,
    List.getD_eq_getElem s 0 h]

theorem drift_eq (s : List UInt8) :
    drift s = weightedSum 31 ((s.map signedChar).map fun x => x - signedChar (s.getD 0 0)) := by
  rw [weightedSum, List.length_map, List.length_map]
  refine Finset.sum_congr rfl fun i hi => ?_
  rw [getD_map_sub _ (Finset.mem_range.mp hi)]

/-- The drift is what the sum has over that of as many of the first character. -/
theorem charSum_sub (s : List UInt8) :
    charSum s - weightedSum 31 (List.replicate s.length (signedChar (s.getD 0 0))) = drift s := by
  have h := weightedSum_sub_replicate (31 : Int) (signedChar (s.getD 0 0)) (s.map signedChar)
  rw [List.length_map] at h
  rw [charSum_eq, drift_eq, h]

theorem toNat_ofInt (x : Int) : ((UInt32.ofInt x).toNat : Int) = x % 2 ^ 32 := by
  have hnonneg : 0 ≤ x % 2 ^ 32 := Int.emod_nonneg x (by decide)
  have hlt : (x % 2 ^ 32).toNat < 2 ^ 32 := by omega
  rw [UInt32.ofInt, UInt32.toNat_ofNat_of_lt' hlt, Int.toNat_of_nonneg hnonneg]

theorem ofInt_eq_ofInt_iff (x y : Int) :
    UInt32.ofInt x = UInt32.ofInt y ↔ (2 ^ 32 : Int) ∣ x - y := by
  calc UInt32.ofInt x = UInt32.ofInt y ↔ x % 2 ^ 32 = y % 2 ^ 32 := by
        rw [← toNat_ofInt, ← toNat_ofInt, Int.natCast_inj, UInt32.toNat_inj]
    _ ↔ (x - y) % 2 ^ 32 = 0 := Int.emod_eq_emod_iff_emod_sub_eq_zero
    _ ↔ (2 ^ 32 : Int) ∣ x - y := Int.dvd_iff_emod_eq_zero.symm

/-- The wrapping loop over the characters computes their sum modulo `2 ^ 32`. -/
theorem horner_ofInt (l : List Int) :
    horner (31 : UInt32) 0 (l.map UInt32.ofInt) = UInt32.ofInt (weightedSum 31 l) := by
  rw [← horner_zero]
  exact (map_horner UInt32.ofInt UInt32.ofInt_add UInt32.ofInt_mul 31 0 l).symm

/-! ## Up to the zero -/

theorem quickHashLoop_eq (hs : 0 ∉ s) (h : UInt32) (rest : List UInt8) :
    quickHashLoop h (s ++ 0 :: rest) = some (horner 31 h (s.map charWord)) := by
  induction s generalizing h with
  | nil => rfl
  | cons c s ih =>
      have hc : c ≠ 0 := fun hzero => hs (hzero ▸ List.mem_cons_self)
      have hrest : 0 ∉ s := fun hmem => hs (List.mem_cons_of_mem c hmem)
      rw [List.cons_append, quickHashLoop, if_neg hc, ih hrest, List.map_cons, horner_cons]

/-- The first overload is right on every string. -/
theorem quickHash_eq (hs : 0 ∉ s) (rest : List UInt8) :
    quickHash (s ++ 0 :: rest) = some (UInt32.ofInt (charSum s)) := by
  have hwords : s.map charWord = (s.map signedChar).map UInt32.ofInt := by
    rw [List.map_map]
    rfl
  rw [quickHash, quickHashLoop_eq hs, hwords, horner_ofInt, charSum_eq]

/-! ## By size -/

theorem quickHashSizeLoop_eq (rounds : Nat) (h : UInt32) :
    quickHashSizeLoop (c :: rest) rounds h =
      some (horner 31 h (List.replicate rounds (charWord c))) := by
  induction rounds generalizing h with
  | zero => rfl
  | succ rounds ih =>
      rw [List.replicate_succ, horner_cons, ← ih]
      rfl

/-- The second overload hashes as many of the first character as the size says. -/
theorem quickHashSize_eq (size : UInt32) :
    quickHashSize (c :: rest) size =
      some (UInt32.ofInt (weightedSum 31 (List.replicate size.toNat (signedChar c)))) := by
  have hwords : List.replicate size.toNat (charWord c) =
      (List.replicate size.toNat (signedChar c)).map UInt32.ofInt := by
    rw [List.map_replicate, charWord]
  rw [quickHashSize, quickHashSizeLoop_eq, hwords, horner_ofInt]

theorem quickHashSize_terminated (hlen : s.length < 2 ^ 32) (rest : List UInt8) :
    quickHashSize (s ++ 0 :: rest) (UInt32.ofNat s.length) =
      some (UInt32.ofInt
        (weightedSum 31 (List.replicate s.length (signedChar (s.getD 0 0))))) := by
  have hsize : (UInt32.ofNat s.length).toNat = s.length := UInt32.toNat_ofNat_of_lt' hlen
  cases s with
  | nil => rfl
  | cons c s => rw [List.cons_append, quickHashSize_eq, hsize, List.getD_cons_zero]

/-! ## Agreement -/

theorem drift_of_all_eq (h : ∀ x ∈ s, x = s.getD 0 0) : drift s = 0 := by
  refine Finset.sum_eq_zero fun i hi => ?_
  have hlt : i < s.length := Finset.mem_range.mp hi
  have hget : s.getD i 0 = s.getD 0 0 := by
    refine h _ ?_
    rw [List.getD_eq_getElem s 0 hlt]
    exact List.getElem_mem hlt
  rw [hget, sub_self, zero_mul]

/-- Only the last character is another one, and it is counted once. -/
theorem drift_last (n : Nat) (a b : UInt8) :
    drift (List.replicate (n + 1) a ++ [b]) = signedChar b - signedChar a := by
  have hfirst : (List.replicate (n + 1) a ++ [b]).getD 0 0 = a := rfl
  have hlen : (List.replicate (n + 1) a ++ [b]).length = n + 1 + 1 := by
    rw [List.length_append, List.length_replicate, List.length_singleton]
  have hsum : charSum (List.replicate (n + 1) a ++ [b]) =
      weightedSum 31 (List.replicate (n + 1) (signedChar a)) * 31 + signedChar b := by
    rw [charSum_eq, List.map_append, List.map_replicate, List.map_singleton, weightedSum_append,
      weightedSum_singleton, List.length_singleton, pow_one]
  have hconst : weightedSum 31 (List.replicate (n + 1 + 1) (signedChar a)) =
      weightedSum 31 (List.replicate (n + 1) (signedChar a)) * 31 + signedChar a := by
    rw [List.replicate_succ', weightedSum_append, weightedSum_singleton, List.length_singleton,
      pow_one]
  rw [← charSum_sub, hfirst, hlen, hsum, hconst]
  ring

theorem signedChar_inj {a b : UInt8} (h : signedChar a = signedChar b) : a = b :=
  congrArg Int8.toUInt8 (Int8.toInt_inj.mp h)

theorem signedChar_range (a : UInt8) : -128 ≤ signedChar a ∧ signedChar a < 128 :=
  ⟨a.toInt8.le_toInt, a.toInt8.toInt_lt⟩

/-- After some of one character another one always makes a difference. -/
theorem dvd_drift_last_iff (n : Nat) (a b : UInt8) :
    (2 ^ 32 : Int) ∣ drift (List.replicate (n + 1) a ++ [b]) ↔ a = b := by
  rw [drift_last]
  constructor
  · intro h
    have ha := signedChar_range a
    have hb := signedChar_range b
    refine signedChar_inj ?_
    omega
  · rintro rfl
    rw [sub_self]
    exact dvd_zero _

/-- The overloads agree on a string without a zero exactly where its drift is a multiple of
`2 ^ 32`. -/
theorem overloadsAgree_iff (s rest : List UInt8) (hs : 0 ∉ s) (hlen : s.length < 2 ^ 32) :
    OverloadsAgree s rest ↔ (2 ^ 32 : Int) ∣ drift s := by
  have hfirst := quickHash_eq hs rest
  have hsecond := quickHashSize_terminated hlen rest
  rw [← charSum_sub, ← ofInt_eq_ofInt_iff]
  constructor
  · intro h
    exact Option.some.inj (hfirst.symm.trans (h.1.trans hsecond))
  · intro h
    refine ⟨?_, hfirst⟩
    rw [hfirst, hsecond, h]

/-- On `"abB"` the distances 1 and -31 cancel. -/
theorem overloadsAgree_abB : OverloadsAgree [97, 98, 66] [] :=
  (overloadsAgree_iff [97, 98, 66] [] (by decide) (by decide)).mpr (by decide)

/-- `"ab"` has the hash 3105, and 3104 by size. -/
theorem not_overloadsAgree :
    ¬ ∀ s rest : List UInt8, 0 ∉ s → s.length < 2 ^ 32 → OverloadsAgree s rest := by
  intro h
  have hab := (h [97, 98] [] (by decide) (by decide)).1
  exact absurd hab (by decide)

end Lyslg.HashUtil
