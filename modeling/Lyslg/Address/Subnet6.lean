import Lyslg.Address.Subnet
/-!
# Subnets of IPv6

Whole bytes are filled by a loop and the partial byte is changed on its own, which for the full
prefix is a byte behind the address.
-/

namespace Lyslg.Address

open Support.Bits

/-- A 128-bit word in network order. -/
def netBytes (a : BitVec 128) : Vector (BitVec 8) 16 :=
  Vector.ofFn fun i => a.extractLsb' (120 - 8 * i.val) 8

section Bytes

variable {a b : BitVec 128} {p i j n : Nat} {s s' : Vector (BitVec 8) 16} {value : BitVec 8}
  {f : BitVec 8 → BitVec 8}

theorem getElem_netBytes (hi : i < 16) : (netBytes a)[i] = a.extractLsb' (120 - 8 * i) 8 := by
  exact Vector.getElem_ofFn hi

theorem netBytes_and (hi : i < 16) :
    (netBytes (a &&& b))[i] = (netBytes a)[i] &&& (netBytes b)[i] := by
  rw [getElem_netBytes hi, getElem_netBytes hi, getElem_netBytes hi, BitVec.extractLsb'_and]

theorem netBytes_or (hi : i < 16) :
    (netBytes (a ||| b))[i] = (netBytes a)[i] ||| (netBytes b)[i] := by
  rw [getElem_netBytes hi, getElem_netBytes hi, getElem_netBytes hi, BitVec.extractLsb'_or]

theorem netBytes_not (hi : i < 16) : (netBytes (~~~ a))[i] = ~~~ (netBytes a)[i] := by
  rw [getElem_netBytes hi, getElem_netBytes hi]
  refine BitVec.eq_of_getLsbD_eq fun k hk => ?_
  rw [BitVec.getLsbD_extractLsb', BitVec.getLsbD_not, BitVec.getLsbD_not,
    BitVec.getLsbD_extractLsb', decide_eq_true hk, Bool.true_and, Bool.true_and, Bool.true_and,
    decide_eq_true (by omega : 120 - 8 * i + k < 128), Bool.true_and]

/-- The bytes of the mask: ones, then the partial byte, then zeros. -/
theorem netBytes_prefixMask (hi : i < 16) (hp : p < 128) : (netBytes (prefixMask 128 p))[i] =
    if i < p / 8 then 0xff else if i = p / 8 then prefixMask 8 (p % 8) else 0x00 := by
  rw [getElem_netBytes hi]
  refine BitVec.eq_of_getLsbD_eq fun k hk => ?_
  have hbit : ((prefixMask 128 p).extractLsb' (120 - 8 * i) 8).getLsbD k =
      decide (128 - p ≤ 120 - 8 * i + k) := by
    rw [BitVec.getLsbD_extractLsb', decide_eq_true hk, Bool.true_and,
      getLsbD_prefixMask (by omega)]
  rw [hbit]
  by_cases hlow : i < p / 8
  · have hones : (0xff : BitVec 8).getLsbD k = decide (k < 8) := BitVec.getLsbD_allOnes
    rw [if_pos hlow, hones]
    exact decide_eq_decide.mpr (by omega)
  · by_cases heq : i = p / 8
    · rw [if_neg hlow, if_pos heq, getLsbD_prefixMask hk]
      exact decide_eq_decide.mpr (by omega)
    · rw [if_neg hlow, if_neg heq]
      have hzero : (0x00 : BitVec 8).getLsbD k = false := BitVec.getLsbD_zero
      rw [hzero, decide_eq_false (by omega)]

/-! ## The byte loops -/

theorem modify_eq (s : Vector (BitVec 8) 16) (f : BitVec 8 → BitVec 8) (hi : i < 16) :
    ∃ s', IPv6Address.modify s i f = some s' ∧
      ∀ j (hj : j < 16), s'[j] = if j = i then f s[j] else s[j] := by
  refine ⟨_, dif_pos hi, fun j hj => ?_⟩
  rw [Vector.getElem_set]
  by_cases hj : i = j
  · subst hj
    rw [if_pos rfl, if_pos rfl]
    rfl
  · rw [if_neg hj, if_neg (Ne.symm hj)]

theorem modify_outside (h : ¬ i < 16) : IPv6Address.modify s i f = none := by
  exact dif_neg h

theorem fill_eq (value : BitVec 8) (s : Vector (BitVec 8) 16) (h : i + n ≤ 16) :
    ∃ s', IPv6Address.fill value n i s = some s' ∧
      ∀ j (hj : j < 16), s'[j] = if i ≤ j ∧ j < i + n then value else s[j] := by
  induction n generalizing i s with
  | zero =>
      refine ⟨s, rfl, fun j hj => ?_⟩
      rw [if_neg (by omega)]
  | succ n ih =>
      obtain ⟨s₁, hmodify, hs₁⟩ := modify_eq s (fun _ => value) (by omega : i < 16)
      obtain ⟨s', hfill, hs'⟩ := ih s₁ (by omega : i + 1 + n ≤ 16)
      refine ⟨s', ?_, fun j hj => ?_⟩
      · rw [IPv6Address.fill, hmodify]
        exact hfill
      · rw [hs' j hj, hs₁ j hj]
        by_cases hji : j = i
        · rw [if_neg (by omega), if_pos hji, if_pos (by omega)]
        · by_cases hrange : i + 1 ≤ j ∧ j < i + 1 + n
          · rw [if_pos hrange, if_pos (by omega)]
          · rw [if_neg hrange, if_neg hji, if_neg (by omega)]

end Bytes

/-! ## The three functions -/

section IPv6

open IPv6Address

variable {mode : SignedOverflow} {m_addr : SockaddrIn6} {a : BitVec 128} {p : Nat}

/-- What the three functions promise of the address `a`. -/
structure Subnet6Exact (mode : SignedOverflow) (m_addr : SockaddrIn6) (a : BitVec 128) (p : Nat) :
    Prop where
  mask : subnetMask mode p = some { zero with s6Addr := netBytes (prefixMask 128 p) }
  network : networdAddress mode { m_addr with s6Addr := netBytes a } p =
    some { m_addr with s6Addr := netBytes (a &&& prefixMask 128 p) }
  broadcast : broadcastAddress mode { m_addr with s6Addr := netBytes a } p =
    some { m_addr with s6Addr := netBytes (a ||| ~~~ prefixMask 128 p) }

theorem createMask_byte (mode : SignedOverflow) (p : Nat) :
    createMask mode 8 (p % 8) = some (~~~ prefixMask 8 (p % 8)) := by
  exact createMask_eq (by decide) (by omega) (by omega)

theorem subnetMask_eq (hp : p < 128) :
    subnetMask mode p = some { zero with s6Addr := netBytes (prefixMask 128 p) } := by
  obtain ⟨s₁, hmodify, hs₁⟩ := modify_eq zero.s6Addr (fun _ => ~~~ ~~~ prefixMask 8 (p % 8))
    (by omega : p / 8 < 16)
  obtain ⟨s₂, hfill, hs₂⟩ := fill_eq 0xff s₁ (by omega : 0 + p / 8 ≤ 16)
  have hbytes : s₂ = netBytes (prefixMask 128 p) := by
    refine Vector.ext fun i hi => ?_
    have hzero : zero.s6Addr[i] = 0x00 := Vector.getElem_replicate hi
    rw [hs₂ i hi, hs₁ i hi, netBytes_prefixMask hi hp, BitVec.not_not, hzero]
    by_cases hlow : i < p / 8
    · rw [if_pos (by omega), if_pos hlow]
    · rw [if_neg (by omega), if_neg hlow]
  rw [subnetMask, createMask_byte, Option.bind_eq_bind, Option.bind_some, hmodify,
    Option.bind_eq_bind, Option.bind_some, hfill, hbytes]
  rfl

theorem networdAddress_eq (hp : p < 128) :
    networdAddress mode { m_addr with s6Addr := netBytes a } p =
      some { m_addr with s6Addr := netBytes (a &&& prefixMask 128 p) } := by
  obtain ⟨s₁, hmodify, hs₁⟩ := modify_eq (netBytes a) (fun b => b &&& ~~~ ~~~ prefixMask 8 (p % 8))
    (by omega : p / 8 < 16)
  obtain ⟨s₂, hfill, hs₂⟩ :=
    fill_eq 0x00 s₁ (by omega : p / 8 + 1 + (16 - (p / 8 + 1)) ≤ 16)
  have hbytes : s₂ = netBytes (a &&& prefixMask 128 p) := by
    refine Vector.ext fun i hi => ?_
    rw [hs₂ i hi, hs₁ i hi, netBytes_and hi, netBytes_prefixMask hi hp, BitVec.not_not]
    by_cases hlow : i < p / 8
    · have hones : (netBytes a)[i] &&& 0xff = (netBytes a)[i] := BitVec.and_allOnes
      rw [if_neg (by omega), if_neg (by omega), if_pos hlow, hones]
    · by_cases heq : i = p / 8
      · rw [if_neg (by omega), if_pos heq, if_neg hlow, if_pos heq]
      · rw [if_pos (by omega), if_neg hlow, if_neg heq]
        exact BitVec.and_zero.symm
  rw [networdAddress, createMask_byte, Option.bind_eq_bind, Option.bind_some, hmodify,
    Option.bind_eq_bind, Option.bind_some, hfill, hbytes]
  rfl

theorem broadcastAddress_eq (hp : p < 128) :
    broadcastAddress mode { m_addr with s6Addr := netBytes a } p =
      some { m_addr with s6Addr := netBytes (a ||| ~~~ prefixMask 128 p) } := by
  obtain ⟨s₁, hmodify, hs₁⟩ := modify_eq (netBytes a) (fun b => b ||| ~~~ prefixMask 8 (p % 8))
    (by omega : p / 8 < 16)
  obtain ⟨s₂, hfill, hs₂⟩ :=
    fill_eq 0xff s₁ (by omega : p / 8 + 1 + (16 - (p / 8 + 1)) ≤ 16)
  have hbytes : s₂ = netBytes (a ||| ~~~ prefixMask 128 p) := by
    refine Vector.ext fun i hi => ?_
    rw [hs₂ i hi, hs₁ i hi, netBytes_or hi, netBytes_not hi, netBytes_prefixMask hi hp]
    by_cases hlow : i < p / 8
    · have hzero : (netBytes a)[i] ||| ~~~ 0xff = (netBytes a)[i] := BitVec.or_zero
      rw [if_neg (by omega), if_neg (by omega), if_pos hlow, hzero]
    · by_cases heq : i = p / 8
      · rw [if_neg (by omega), if_pos heq, if_neg hlow, if_pos heq]
      · rw [if_pos (by omega), if_neg hlow, if_neg heq]
        exact BitVec.or_allOnes.symm
  rw [broadcastAddress, createMask_byte, Option.bind_eq_bind, Option.bind_some, hmodify,
    Option.bind_eq_bind, Option.bind_some, hfill, hbytes]
  rfl

theorem subnetMask_outside (hp : 128 ≤ p) : subnetMask mode p = none := by
  rw [subnetMask, createMask_byte, Option.bind_eq_bind, Option.bind_some,
    modify_outside (by omega)]
  rfl

/-- The subnets of IPv6 are exact for every prefix length but the full one, for which all three
functions use an index behind the address. -/
theorem ipv6_subnet_iff (mode : SignedOverflow) (m_addr : SockaddrIn6) (a : BitVec 128) (p : Nat) :
    Subnet6Exact mode m_addr a p ↔ p < 128 := by
  constructor
  · intro hexact
    by_contra hp
    have hmask := hexact.mask
    rw [subnetMask_outside (Nat.le_of_not_lt hp)] at hmask
    cases hmask
  · intro hp
    exact ⟨subnetMask_eq hp, networdAddress_eq hp, broadcastAddress_eq hp⟩

/-- The full prefix reads and writes `s6_addr[16]`. -/
theorem ipv6_subnet_full : networdAddress .wraps { zero with s6Addr := netBytes 1 } 128 = none ∧
    ¬ Subnet6Exact .wraps zero 1 128 := by
  have hnone : networdAddress .wraps { zero with s6Addr := netBytes 1 } 128 = none := by
    rw [networdAddress, createMask_byte, Option.bind_eq_bind, Option.bind_some,
      modify_outside (by decide)]
    rfl
  refine ⟨hnone, fun hexact => ?_⟩
  have hnetwork := hexact.network
  rw [hnone] at hnetwork
  cases hnetwork

end IPv6

end Lyslg.Address
