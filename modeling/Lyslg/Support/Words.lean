import Mathlib.Tactic.Ring
/-!
# Fixed-width and base-128 encodings of naturals

Little-endian bytes of a fixed width with their byte swap, the base-128 groups
of a varint with the shifts at which they are read back, and the zigzag map
between signed and unsigned words.
-/

namespace Lyslg.Support.Words

/-! ## Two elements at a time -/

theorem exists_pair {α : Type} {l : List α} {n : Nat} (h : l.length = 2 * (n + 1)) :
    ∃ a b rest, l = a :: b :: rest ∧ rest.length = 2 * n := by
  match l with
  | [] => cases h
  | [_] =>
      rw [List.length_singleton] at h
      omega
  | a :: b :: rest =>
      refine ⟨a, b, rest, rfl, ?_⟩
      rw [List.length_cons, List.length_cons] at h
      omega

/-! ## Little-endian bytes -/

/-- The `n` low bytes of `v`, least significant first. -/
def leBytes : Nat → Nat → List UInt8
  | 0, _ => []
  | n + 1, v => UInt8.ofNat (v % 256) :: leBytes n (v / 256)

/-- The number whose little-endian bytes are given. -/
def leValue : List UInt8 → Nat
  | [] => 0
  | b :: bs => b.toNat + 256 * leValue bs

@[simp] theorem length_leBytes (n v : Nat) : (leBytes n v).length = n := by
  induction n generalizing v with
  | zero => rfl
  | succ n ih => simp [leBytes, ih]

theorem leValue_leBytes {n v : Nat} (h : v < 256 ^ n) : leValue (leBytes n v) = v := by
  induction n generalizing v with
  | zero =>
      have hzero : v = 0 := by simpa using h
      simp [leBytes, leValue, hzero]
  | succ n ih =>
      have hdiv : v / 256 < 256 ^ n := by
        rw [Nat.div_lt_iff_lt_mul (by omega), ← Nat.pow_succ]
        exact h
      rw [leBytes, leValue, ih hdiv, UInt8.toNat_ofNat']
      omega

theorem leBytes_leValue (bs : List UInt8) : leBytes bs.length (leValue bs) = bs := by
  induction bs with
  | nil => rfl
  | cons b bs ih =>
      have hb := b.toNat_lt
      have hmod : (b.toNat + 256 * leValue bs) % 256 = b.toNat := by omega
      have hdiv : (b.toNat + 256 * leValue bs) / 256 = leValue bs := by omega
      rw [leValue, List.length_cons, leBytes, hmod, hdiv, ih, UInt8.ofNat_toNat]

theorem leValue_append (a b : List UInt8) :
    leValue (a ++ b) = leValue a + 256 ^ a.length * leValue b := by
  induction a with
  | nil => simp [leValue]
  | cons x xs ih =>
      rw [List.cons_append, leValue, leValue, ih, List.length_cons, Nat.pow_succ]
      ring

/-- The most significant byte alone. -/
theorem le_leValue {bs : List UInt8} {k low : Nat} (hlen : bs.length = k + 1)
    (hlow : ∀ b ∈ bs, low ≤ b.toNat) : low * 256 ^ k ≤ leValue bs := by
  induction bs generalizing k with
  | nil => simp at hlen
  | cons b bs ih =>
      rw [leValue]
      cases k with
      | zero =>
          have := hlow b (by simp)
          omega
      | succ k =>
          rw [List.length_cons] at hlen
          have := ih (k := k) (by omega) fun x hx => hlow x (by simp [hx])
          rw [Nat.pow_succ, ← Nat.mul_assoc]
          omega

/-- The `n`-byte word with the bytes of `v` in the opposite order. -/
def byteswap (n v : Nat) : Nat := leValue (leBytes n v).reverse

theorem leBytes_byteswap (n v : Nat) : leBytes n (byteswap n v) = (leBytes n v).reverse := by
  have h := leBytes_leValue (leBytes n v).reverse
  rwa [List.length_reverse, length_leBytes] at h

theorem byteswap_byteswap {n v : Nat} (h : v < 256 ^ n) : byteswap n (byteswap n v) = v := by
  rw [byteswap, leBytes_byteswap, List.reverse_reverse, leValue_leBytes h]

/-! ## Base-128 groups -/

/-- Seven bits per byte, least significant group first, the top bit set on
every byte but the last. -/
def varint (value : Nat) : List UInt8 :=
  if 0x80 ≤ value then
    UInt8.ofNat ((value &&& 0x7F) ||| 0x80) :: varint (value >>> 7)
  else
    [UInt8.ofNat value]
termination_by value
decreasing_by
  rw [Nat.shiftRight_eq_div_pow]
  omega

/-- The shifts of a loop `for(i = 0; i < width; i += 7)`. -/
def varintShifts (width : Nat) : List Nat := List.range' 0 ((width + 6) / 7) 7

theorem shiftRight_seven (v : Nat) : v >>> 7 = v / 128 := by
  rw [Nat.shiftRight_eq_div_pow]

theorem and_low_seven (v : Nat) : v &&& 0x7F = v % 128 :=
  Nat.and_two_pow_sub_one_eq_mod v 7

theorem or_top_bit {v : Nat} (h : v < 128) : v ||| 0x80 = v + 128 := by
  have hor : 128 + v = 128 ||| v := Nat.two_pow_add_eq_or_of_lt (i := 7) h 1
  rw [Nat.or_comm, ← hor, Nat.add_comm]

theorem varint_of_lt {v : Nat} (h : v < 128) : varint v = [UInt8.ofNat v] := by
  rw [varint, if_neg (by omega)]

theorem varint_of_le {v : Nat} (h : 128 ≤ v) :
    varint v = UInt8.ofNat (v % 128 + 128) :: varint (v / 128) := by
  rw [varint, if_pos (by omega), and_low_seven, or_top_bit (Nat.mod_lt _ (by omega)),
    shiftRight_seven]

/-- Adding a group above the bits gathered so far. -/
theorem or_group {result v shift width : Nat} (hresult : result < 2 ^ shift)
    (hfit : v * 2 ^ shift < 2 ^ width) :
    result ||| ((v <<< shift) % 2 ^ width) = result + v * 2 ^ shift := by
  have hor := Nat.two_pow_add_eq_or_of_lt hresult v
  rw [Nat.shiftLeft_eq, Nat.mod_eq_of_lt hfit, Nat.or_comm, Nat.mul_comm v, ← hor, Nat.add_comm]

/-- A value that still has bits above `shift` has its shift inside the word. -/
theorem shift_lt_width {v shift width : Nat} (hpos : 0 < v) (hfit : v * 2 ^ shift < 2 ^ width) :
    shift < width := by
  have hle : 2 ^ shift ≤ v * 2 ^ shift := Nat.le_mul_of_pos_left _ hpos
  exact (Nat.pow_lt_pow_iff_right (by omega)).mp (Nat.lt_of_le_of_lt hle hfit)

/-! ## Zigzag -/

/-- `v < 0 ? (unsigned)(-v) * 2 - 1 : v * 2` of a signed `v`.  `-v` and `v * 2` are signed too,
so that they wrap is an assumption about the compiler. -/
def encodeZigzag {w : Nat} (v : BitVec w) : BitVec w :=
  if v.slt 0#w then (-v) * 2#w - 1#w else v * 2#w

/-- `(v >> 1) ^ -(v & 1)`, in wrapping arithmetic. -/
def decodeZigzag {w : Nat} (v : BitVec w) : BitVec w :=
  (v >>> 1) ^^^ -(v &&& 1#w)

theorem decodeZigzag_even {w : Nat} {u : BitVec w} (hw : 1 < w) (h : u.toNat % 2 = 0) :
    (decodeZigzag u).toNat = u.toNat / 2 := by
  have hone : (1#w).toNat = 1 := by
    rw [BitVec.toNat_ofNat, Nat.mod_eq_of_lt (Nat.one_lt_two_pow (by omega))]
  have hbit : u &&& 1#w = 0#w := by
    apply BitVec.eq_of_toNat_eq
    rw [BitVec.toNat_and, hone, Nat.and_one_is_mod, h, BitVec.toNat_ofNat, Nat.zero_mod]
  rw [decodeZigzag, hbit, BitVec.neg_zero, BitVec.xor_zero, BitVec.toNat_ushiftRight,
    Nat.shiftRight_eq_div_pow, Nat.pow_one]

theorem decodeZigzag_odd {w : Nat} {u : BitVec w} (hw : 1 < w) (h : u.toNat % 2 = 1) :
    (decodeZigzag u).toNat = 2 ^ w - 1 - u.toNat / 2 := by
  have hone : (1#w).toNat = 1 := by
    rw [BitVec.toNat_ofNat, Nat.mod_eq_of_lt (Nat.one_lt_two_pow (by omega))]
  have hbit : u &&& 1#w = 1#w := by
    apply BitVec.eq_of_toNat_eq
    rw [BitVec.toNat_and, hone, Nat.and_one_is_mod, h]
  rw [decodeZigzag, hbit, BitVec.neg_one_eq_allOnes, BitVec.xor_allOnes, BitVec.toNat_not,
    BitVec.toNat_ushiftRight, Nat.shiftRight_eq_div_pow, Nat.pow_one]

/-- The zigzag map loses nothing, the smallest negative number included. -/
theorem decodeZigzag_encodeZigzag {w : Nat} (hw : 1 < w) (v : BitVec w) :
    decodeZigzag (encodeZigzag v) = v := by
  have hlt := v.isLt
  have hhalf : 2 ^ w = 2 * 2 ^ (w - 1) := by
    rw [← Nat.pow_succ', (by omega : (w - 1).succ = w)]
  have htwo : (2#w).toNat = 2 % 2 ^ w := BitVec.toNat_ofNat 2 w
  have hone : (1#w).toNat = 1 := by
    rw [BitVec.toNat_ofNat, Nat.mod_eq_of_lt (Nat.one_lt_two_pow (by omega))]
  apply BitVec.eq_of_toNat_eq
  rw [encodeZigzag, BitVec.slt_zero_eq_msb, BitVec.msb_eq_decide]
  by_cases hneg : 2 ^ (w - 1) ≤ v.toNat
  · -- negative: the encoding is `2 * (2^w - v) - 1`
    have hu : ((-v) * 2#w - 1#w).toNat = 2 * (2 ^ w - v.toNat) - 1 := by
      rw [BitVec.toNat_sub, BitVec.toNat_mul, BitVec.toNat_neg, hone, htwo, Nat.mul_mod_mod]
      have hpos : 0 < 2 ^ w - v.toNat := by omega
      by_cases hmin : v.toNat = 2 ^ (w - 1)
      · rw [Nat.mod_eq_of_lt (by omega : 2 ^ w - v.toNat < 2 ^ w),
          (by omega : (2 ^ w - v.toNat) * 2 = 2 ^ w), Nat.mod_self,
          Nat.mod_eq_of_lt (by omega)]
        omega
      · rw [Nat.mod_eq_of_lt (by omega : 2 ^ w - v.toNat < 2 ^ w),
          Nat.mod_eq_of_lt (by omega : (2 ^ w - v.toNat) * 2 < 2 ^ w),
          (by omega : 2 ^ w - 1 + (2 ^ w - v.toNat) * 2 = 2 ^ w + (2 * (2 ^ w - v.toNat) - 1)),
          Nat.add_mod_left, Nat.mod_eq_of_lt (by omega)]
    rw [if_pos (by simpa using hneg), decodeZigzag_odd hw (by omega), hu]
    omega
  · have hu : (v * 2#w).toNat = 2 * v.toNat := by
      rw [BitVec.toNat_mul, htwo, Nat.mul_mod_mod, Nat.mod_eq_of_lt (by omega), Nat.mul_comm]
    rw [if_neg (by simpa using hneg), decodeZigzag_even hw (by omega), hu]
    omega

end Lyslg.Support.Words
