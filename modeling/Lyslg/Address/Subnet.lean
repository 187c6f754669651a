import Lyslg.Address.Model
/-!
# Subnets

The mask of a prefix length is built with shifts of an `int`, which is not wide enough for the
prefix length zero of IPv4; the partial byte of IPv6 is behind the address for the full prefix.
-/

namespace Lyslg.Address

open Support.Bits Support.Machine

/-! ## The mask -/

section Mask

variable {mode : SignedOverflow} {w bits n : Nat}

theorem shiftOne_eq (h : n < 31) : shiftOne n = some ((2 ^ n : Nat) : Int) := by
  have hlt : 2 ^ n < 2 ^ 31 := Nat.pow_lt_pow_right (by decide) h
  have hcast : ((2 : Int) ^ n) = ((2 ^ n : Nat) : Int) := (Int.natCast_pow 2 n).symm
  rw [shiftOne, if_pos (by omega), hcast, int32_natCast hlt]

theorem predecessor_eq (mode : SignedOverflow) (h : 0 < n) :
    predecessor mode n = some ((n - 1 : Nat) : Int) := by
  rw [predecessor, if_pos (by omega), Int.natCast_sub h]
  rfl

/-- The mask has the bits that are not of the prefix. -/
theorem createMask_eq (hw : w < 2 ^ 64) (hbits : bits ≤ w) (h : w - bits < 31) :
    createMask mode w bits = some (~~~ prefixMask w bits) := by
  have hpred := predecessor_eq mode (Nat.two_pow_pos (w - bits))
  rw [createMask, subSize_of_le hw hbits, shiftOne_eq h, ← ofNat_two_pow_sub_one,
    Option.bind_eq_bind, Option.bind_some, hpred]
  rfl

/-- The shift by the whole width. -/
theorem createMask_zero : createMask mode 32 0 = none := by
  rfl

theorem createMask_one_wraps : createMask .wraps 32 1 = some (~~~ prefixMask 32 1) := by
  decide +kernel

theorem createMask_one_undefined : createMask .undefined 32 1 = none := by
  decide +kernel

theorem createMask_cases (mode : SignedOverflow) (hbits : bits ≤ 32) :
    createMask mode 32 bits = none ∨ createMask mode 32 bits = some (~~~ prefixMask 32 bits) := by
  by_cases hmiddle : 1 < bits
  · exact Or.inr (createMask_eq (by decide) hbits (by omega))
  by_cases hzero : bits = 0
  · rw [hzero]
    exact Or.inl createMask_zero
  have hone : bits = 1 := by omega
  rw [hone]
  cases mode with
  | wraps => exact Or.inr createMask_one_wraps
  | undefined => exact Or.inl createMask_one_undefined

end Mask

/-! ## IPv4 -/

section IPv4

open IPv4Address

variable {mode : SignedOverflow} {m_addr : SockaddrIn} {a : BitVec 32} {p : Nat}

/-- What the three functions promise of the address `a` in host order. -/
structure SubnetExact (mode : SignedOverflow) (m_addr : SockaddrIn) (a : BitVec 32) (p : Nat) :
    Prop where
  mask : p ≤ 32 → subnetMask mode p = some (ofHost (prefixMask 32 p) 0)
  network : p ≤ 32 → networdAddress mode { m_addr with sinAddr := byteswap32 a } p =
    some (some { m_addr with sinAddr := byteswap32 (a &&& prefixMask 32 p) })
  broadcast : p ≤ 32 → broadcastAddress mode { m_addr with sinAddr := byteswap32 a } p =
    some (some { m_addr with sinAddr := byteswap32 (a ||| ~~~ prefixMask 32 p) })
  network_null : networdAddress mode { m_addr with sinAddr := byteswap32 a } p = some none ↔ 32 < p
  broadcast_null :
    broadcastAddress mode { m_addr with sinAddr := byteswap32 a } p = some none ↔ 32 < p

theorem subnetExact_of_mask (hp : p ≤ 32)
    (h : createMask mode 32 p = some (~~~ prefixMask 32 p)) : SubnetExact mode m_addr a p := by
  have hle : ¬ 32 < p := Nat.not_lt_of_le hp
  have hmask : ~~~ byteswap32 (~~~ prefixMask 32 p) = byteswap32 (prefixMask 32 p) := by
    rw [byteswap32_not, BitVec.not_not]
  have hnetwork : networdAddress mode { m_addr with sinAddr := byteswap32 a } p =
      some (some { m_addr with sinAddr := byteswap32 (a &&& prefixMask 32 p) }) := by
    rw [networdAddress, if_neg hle, h, byteswap32_and, ← hmask]
    rfl
  have hbroadcast : broadcastAddress mode { m_addr with sinAddr := byteswap32 a } p =
      some (some { m_addr with sinAddr := byteswap32 (a ||| ~~~ prefixMask 32 p) }) := by
    rw [broadcastAddress, if_neg hle, h, byteswap32_or]
    rfl
  refine ⟨fun _ => ?_, fun _ => hnetwork, fun _ => hbroadcast, ?_, ?_⟩
  · rw [subnetMask, h, ofHost, ← hmask]
    rfl
  · rw [hnetwork]
    exact iff_of_false (fun hnull => by cases hnull) hle
  · rw [hbroadcast]
    exact iff_of_false (fun hnull => by cases hnull) hle

theorem subnetExact_of_lt (hp : 32 < p) : SubnetExact mode m_addr a p where
  mask h := absurd h (Nat.not_le_of_lt hp)
  network h := absurd h (Nat.not_le_of_lt hp)
  broadcast h := absurd h (Nat.not_le_of_lt hp)
  network_null := iff_of_true (if_pos hp) hp
  broadcast_null := iff_of_true (if_pos hp) hp

theorem not_subnetExact (hp : p ≤ 32) (h : createMask mode 32 p = none) :
    ¬ SubnetExact mode m_addr a p := by
  intro hexact
  have hmask := hexact.mask hp
  rw [subnetMask, h] at hmask
  cases hmask

/-- The subnets of IPv4 are exact for every prefix length but zero, and for one where the compiler
lets the difference of an `int` wrap. -/
theorem ipv4_subnet_iff (mode : SignedOverflow) (m_addr : SockaddrIn) (a : BitVec 32) (p : Nat) :
    SubnetExact mode m_addr a p ↔ p ≠ 0 ∧ (mode = .undefined → p ≠ 1) := by
  by_cases hlarge : 32 < p
  · exact iff_of_true (subnetExact_of_lt hlarge) ⟨by omega, fun _ => by omega⟩
  have hp : p ≤ 32 := Nat.le_of_not_lt hlarge
  by_cases hmiddle : 1 < p
  · have hmask : createMask mode 32 p = some (~~~ prefixMask 32 p) :=
      createMask_eq (by decide) hp (by omega)
    exact iff_of_true (subnetExact_of_mask hp hmask) ⟨by omega, fun _ => by omega⟩
  by_cases hzero : p = 0
  · rw [hzero]
    exact iff_of_false (not_subnetExact (Nat.zero_le 32) createMask_zero) fun h => h.1 rfl
  have hone : p = 1 := by omega
  rw [hone]
  cases mode with
  | wraps =>
      refine iff_of_true (subnetExact_of_mask (by decide) createMask_one_wraps) ⟨by decide, ?_⟩
      exact fun h => by cases h
  | undefined =>
      refine iff_of_false (not_subnetExact (by decide) createMask_one_undefined) ?_
      exact fun h => h.2 rfl rfl

/-- The prefix length zero shifts an `int` by its whole width. -/
theorem ipv4_subnet_zero : ¬ SubnetExact .wraps (ofHost 0 80) 0x0a000001 0 := by
  intro hexact
  have hmask := hexact.mask (by decide)
  rw [subnetMask, createMask_zero] at hmask
  cases hmask

end IPv4

end Lyslg.Address
