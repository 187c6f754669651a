import Lyslg.Support.Words
/-!
# Base-128 encodings

Every byte but the last has its top bit set.  A value has many such encodings, for groups of zero
may follow; `varint` gives the shortest one.
-/

namespace Lyslg.Support.Words

/-- The number whose groups of seven bits are given, least significant group first. -/
def base128 : List UInt8 → Nat
  | [] => 0
  | b :: bytes => b.toNat % 128 + 128 * base128 bytes

/-- The bytes have their top bit set up to the last one, which does not. -/
inductive Terminated : List UInt8 → Prop where
  | last {b : UInt8} : b < 0x80 → Terminated [b]
  | more {b : UInt8} {bytes : List UInt8} : 0x80 ≤ b → Terminated bytes → Terminated (b :: bytes)

/-- The bytes are an encoding of the value. -/
structure Encodes (bytes : List UInt8) (value : Nat) : Prop where
  terminated : Terminated bytes
  value : base128 bytes = value

/-- The bytes are the only encoding of the value that is as short. -/
structure Shortest (bytes : List UInt8) (value : Nat) : Prop where
  encodes : Encodes bytes value
  unique : ∀ other, Encodes other value → other = bytes ∨ bytes.length < other.length

variable {bytes : List UInt8} {value count : Nat} {b : UInt8}

theorem lt_top_bit : b < 0x80 ↔ b.toNat < 128 := UInt8.lt_iff_toNat_lt

theorem top_bit_le : 0x80 ≤ b ↔ 128 ≤ b.toNat := UInt8.le_iff_toNat_le

theorem Terminated.length_pos (h : Terminated bytes) : 0 < bytes.length := by
  cases h with
  | last _ => exact Nat.one_pos
  | more _ _ => exact Nat.succ_pos _

/-! ## The shortest encoding -/

theorem varint_encodes (value : Nat) : Encodes (varint value) value := by
  induction value using Nat.strongRecOn with
  | ind value ih =>
      by_cases hlast : value < 128
      · have hbyte : (UInt8.ofNat value).toNat = value := by
          rw [UInt8.toNat_ofNat']
          omega
        rw [varint_of_lt hlast]
        refine ⟨.last ?_, ?_⟩
        · rw [lt_top_bit, hbyte]
          exact hlast
        · rw [base128, base128, hbyte]
          omega
      · have hrest := ih (value / 128) (by omega)
        have hbyte : (UInt8.ofNat (value % 128 + 128)).toNat = value % 128 + 128 := by
          rw [UInt8.toNat_ofNat']
          omega
        rw [varint_of_le (by omega)]
        refine ⟨.more ?_ hrest.terminated, ?_⟩
        · rw [top_bit_le, hbyte]
          omega
        · rw [base128, hrest.value, hbyte]
          omega

/-- By induction over the other encoding; both have the same groups as long as there are two. -/
theorem eq_varint_or_longer (h : Terminated bytes) :
    bytes = varint (base128 bytes) ∨ (varint (base128 bytes)).length < bytes.length := by
  induction h with
  | @last b hb =>
      have hlt := lt_top_bit.mp hb
      have hvalue : base128 [b] = b.toNat := by
        rw [base128, base128]
        omega
      rw [hvalue, varint_of_lt hlt, UInt8.ofNat_toNat]
      exact Or.inl rfl
  | @more b bytes hb hrest ih =>
      have hle := top_bit_le.mp hb
      have hbyte := b.toNat_lt
      by_cases hshort : base128 (b :: bytes) < 128
      · have hpos := hrest.length_pos
        rw [varint_of_lt hshort, List.length_singleton, List.length_cons]
        exact Or.inr (by omega)
      · have hgroup : base128 (b :: bytes) % 128 + 128 = b.toNat := by
          rw [base128]
          omega
        have hvalue : base128 (b :: bytes) / 128 = base128 bytes := by
          rw [base128]
          omega
        rw [varint_of_le (by omega), hgroup, hvalue, UInt8.ofNat_toNat, List.length_cons,
          List.length_cons]
        rcases ih with heq | hlonger
        · rw [← heq]
          exact Or.inl rfl
        · exact Or.inr (by omega)

theorem varint_shortest (value : Nat) : Shortest (varint value) value where
  encodes := varint_encodes value
  unique := by
    intro other h
    have hcases := eq_varint_or_longer h.terminated
    rwa [h.value] at hcases

/-- `count` groups hold every value below `128 ^ count`. -/
theorem length_varint_le (hpos : 0 < count) (h : value < 128 ^ count) :
    (varint value).length ≤ count := by
  induction count generalizing value with
  | zero => cases hpos
  | succ count ih =>
      by_cases hlast : value < 128
      · rw [varint_of_lt hlast, List.length_singleton]
        omega
      · have hcount : 0 < count := by
          rcases Nat.eq_zero_or_pos count with rfl | hcount
          · rw [Nat.zero_add, Nat.pow_one] at h
            exact absurd h hlast
          · exact hcount
        have hrest : value / 128 < 128 ^ count := by
          rw [Nat.pow_succ] at h
          omega
        have hle := ih hcount hrest
        rw [varint_of_le (by omega), List.length_cons]
        omega

/-! ## Reading groups into a word -/

/-- The next group goes above the bits of the groups so far, less what the word cannot hold. -/
theorem or_shiftLeft_mod {gathered group shift width : Nat} (h : gathered < 2 ^ shift) :
    gathered % 2 ^ width ||| (group <<< shift) % 2 ^ width =
      (gathered + group * 2 ^ shift) % 2 ^ width := by
  have hor := Nat.two_pow_add_eq_or_of_lt h group
  rw [← Nat.or_mod_two_pow, Nat.shiftLeft_eq, Nat.or_comm, Nat.mul_comm group, ← hor, Nat.add_comm]

end Lyslg.Support.Words
