import Mathlib.Tactic.Ring
/-!
# Words as bits

The words whose top bits are one, the byte order of a word, and the number of its ones with the
loop that clears one of them at a time.
-/

namespace Lyslg.Support.Bits

variable {w p i : Nat}

/-! ## Words of leading ones -/

/-- The word whose top `p` bits are one. -/
def prefixMask (w p : Nat) : BitVec w := BitVec.allOnes w <<< (w - p)

theorem getLsbD_prefixMask (h : i < w) : (prefixMask w p).getLsbD i = decide (w - p ≤ i) := by
  rw [prefixMask, BitVec.getLsbD_shiftLeft, BitVec.getLsbD_allOnes, decide_eq_true h,
    decide_eq_true (Nat.lt_of_le_of_lt (Nat.sub_le i (w - p)) h), Bool.true_and, Bool.and_true,
    ← decide_not]
  exact decide_eq_decide.mpr Nat.not_lt

/-- The other bits are those of a power of two less one. -/
theorem ofNat_two_pow_sub_one (w p : Nat) :
    BitVec.ofNat w (2 ^ (w - p) - 1) = ~~~ prefixMask w p := by
  refine BitVec.eq_of_getLsbD_eq fun i hi => ?_
  rw [BitVec.getLsbD_ofNat, BitVec.getLsbD_not, getLsbD_prefixMask hi, decide_eq_true hi,
    Bool.true_and, Bool.true_and, Nat.testBit_two_pow_sub_one, ← decide_not]
  exact decide_eq_decide.mpr Nat.not_le.symm

/-! ## Byte order -/

/-- `bswap_16` -/
def byteswap16 (v : BitVec 16) : BitVec 16 := v.extractLsb' 0 8 ++ v.extractLsb' 8 8

theorem toNat_append (x y : BitVec 8) : (x ++ y : BitVec 16).toNat = 256 * x.toNat + y.toNat := by
  have happend : (x ++ y : BitVec 16).toNat = x.toNat <<< 8 ||| y.toNat := BitVec.toNat_append x y
  rw [happend, ← Nat.shiftLeft_add_eq_or_of_lt y.isLt, Nat.shiftLeft_eq, Nat.mul_comm]

theorem toNat_byteswap16 (v : BitVec 16) :
    (byteswap16 v).toNat = 256 * (v.toNat % 256) + v.toNat / 256 := by
  have hlt : v.toNat / 256 < 256 := by omega
  rw [byteswap16, toNat_append, BitVec.extractLsb'_toNat, BitVec.extractLsb'_toNat,
    Nat.shiftRight_zero, Nat.shiftRight_eq_div_pow, Nat.mod_eq_of_lt hlt]

theorem byteswap16_byteswap16 (v : BitVec 16) : byteswap16 (byteswap16 v) = v := by
  have hlt := v.isLt
  refine BitVec.eq_of_toNat_eq ?_
  rw [toNat_byteswap16, toNat_byteswap16]
  omega

/-- `bswap_32` -/
def byteswap32 (v : BitVec 32) : BitVec 32 :=
  v.extractLsb' 0 8 ++ v.extractLsb' 8 8 ++ v.extractLsb' 16 8 ++ v.extractLsb' 24 8

/-- The place from which a bit of the swapped word is taken. -/
def swappedBit (i : Nat) : Nat := 24 - 8 * (i / 8) + i % 8

theorem swappedBit_lt (h : i < 32) : swappedBit i < 32 := by
  unfold swappedBit
  omega

variable {v u : BitVec 32}

theorem getLsbD_byteswap32 (h : i < 32) : (byteswap32 v).getLsbD i = v.getLsbD (swappedBit i) := by
  have hlow (x : BitVec 24) (y : BitVec 8) (i : Nat) : (x ++ y : BitVec 32).getLsbD i =
      if i < 8 then y.getLsbD i else x.getLsbD (i - 8) := BitVec.getLsbD_append
  have hmid (x : BitVec 16) (y : BitVec 8) (i : Nat) : (x ++ y : BitVec 24).getLsbD i =
      if i < 8 then y.getLsbD i else x.getLsbD (i - 8) := BitVec.getLsbD_append
  have hhigh (x : BitVec 8) (y : BitVec 8) (i : Nat) : (x ++ y : BitVec 16).getLsbD i =
      if i < 8 then y.getLsbD i else x.getLsbD (i - 8) := BitVec.getLsbD_append
  have hbyte (start i : Nat) (hi : i < 8) : (v.extractLsb' start 8).getLsbD i =
      v.getLsbD (start + i) := by
    rw [BitVec.getLsbD_extractLsb', decide_eq_true hi, Bool.true_and]
  rw [byteswap32, hlow, hmid, hhigh]
  unfold swappedBit
  by_cases h8 : i < 8
  · rw [if_pos h8, hbyte _ _ h8]
    congr 1
    omega
  · by_cases h16 : i - 8 < 8
    · rw [if_neg h8, if_pos h16, hbyte _ _ h16]
      congr 1
      omega
    · by_cases h24 : i - 8 - 8 < 8
      · rw [if_neg h8, if_neg h16, if_pos h24, hbyte _ _ h24]
        congr 1
        omega
      · rw [if_neg h8, if_neg h16, if_neg h24, hbyte _ _ (by omega)]
        congr 1
        omega

theorem byteswap32_and : byteswap32 (v &&& u) = byteswap32 v &&& byteswap32 u := by
  refine BitVec.eq_of_getLsbD_eq fun i hi => ?_
  rw [BitVec.getLsbD_and, getLsbD_byteswap32 hi, getLsbD_byteswap32 hi, getLsbD_byteswap32 hi,
    BitVec.getLsbD_and]

theorem byteswap32_or : byteswap32 (v ||| u) = byteswap32 v ||| byteswap32 u := by
  refine BitVec.eq_of_getLsbD_eq fun i hi => ?_
  rw [BitVec.getLsbD_or, getLsbD_byteswap32 hi, getLsbD_byteswap32 hi, getLsbD_byteswap32 hi,
    BitVec.getLsbD_or]

theorem byteswap32_not : byteswap32 (~~~ v) = ~~~ byteswap32 v := by
  refine BitVec.eq_of_getLsbD_eq fun i hi => ?_
  rw [BitVec.getLsbD_not, getLsbD_byteswap32 hi, getLsbD_byteswap32 hi, BitVec.getLsbD_not,
    decide_eq_true hi, decide_eq_true (swappedBit_lt hi)]

/-! ## The number of ones -/

/-- The number of ones among the `w` lowest bits. -/
def ones (w n : Nat) : Nat := (List.range w).countP fun i => n.testBit i

theorem ones_succ (w n : Nat) : ones (w + 1) n = ones w (n / 2) + n % 2 := by
  rw [ones, ones, List.range_succ_eq_map, List.countP_cons, List.countP_map, Nat.testBit_zero]
  congr 1
  · exact List.countP_congr fun i _ => by rw [Function.comp_apply, Nat.testBit_succ]
  · by_cases hodd : n % 2 = 1
    · rw [if_pos (decide_eq_true hodd), hodd]
    · rw [if_neg (by simpa using hodd)]
      omega

/-- Clearing the lowest one leaves one less. -/
theorem ones_clear {n : Nat} (hpos : 0 < n) (hlt : n < 2 ^ w) :
    ones w (n &&& (n - 1)) + 1 = ones w n := by
  induction w generalizing n with
  | zero =>
      rw [Nat.pow_zero] at hlt
      omega
  | succ w ih =>
      rw [Nat.pow_succ] at hlt
      rw [ones_succ, ones_succ, Nat.and_div_two]
      by_cases hodd : n % 2 = 1
      · have hhalf : (n - 1) / 2 = n / 2 := by omega
        have heven : (n &&& (n - 1)) % 2 ≠ 1 := by
          rw [ne_eq, Nat.and_mod_two_eq_one]
          omega
        rw [hhalf, Nat.and_self]
        omega
      · have hhalf : (n - 1) / 2 = n / 2 - 1 := by omega
        have heven : (n &&& (n - 1)) % 2 ≠ 1 := by
          rw [ne_eq, Nat.and_mod_two_eq_one]
          omega
        have hrec := ih (n := n / 2) (by omega) (by omega)
        rw [hhalf]
        omega

end Lyslg.Support.Bits
