import Lyslg.Address.Model
import Lyslg.Address.Text
import Lyslg.Support.Words
import Mathlib.Data.List.GetD
/-!
# `IPv6Address::insert` and `IPv6Address::Create`

The loop leaves out the groups of zeros up to the first other group behind one of them, where it
writes the `::`.  The `::` behind the loop is written when no group was left out.
-/

namespace Lyslg.Address

open Http StringUtil Numerals Support.Bits Support.Words

namespace IPv6Address

/-- `(uint16_t*)m_addr.sin6_addr.s6_addr` -/
def addr : List (BitVec 8) → List (BitVec 16)
  | low :: high :: rest => (high ++ low) :: addr rest
  | _ => []

/-- The stream and `used_zeros`. -/
structure Output where
  os : List UInt8
  usedZeros : Bool

/-- `os << std::hex << (int)byteswapOnLittleEndian(group) << std::dec` -/
def groupText (group : BitVec 16) : List UInt8 := numeral 16 (byteswap16 group).toNat

/-- An iteration for `addr[i]`, where `before` is `addr[i-1]` and there is none for zero. -/
def insertGroup (before : Option (BitVec 16)) (group : BitVec 16) (output : Output) : Output :=
  if group == 0 && !output.usedZeros then output
  else
    let output :=
      if before.any (· == 0) && !output.usedZeros then ⟨output.os ++ [58], true⟩ else output
    let os := if before.isSome then output.os ++ [58] else output.os
    ⟨os ++ groupText group, output.usedZeros⟩

/-- The loop with `rest` still to be written. -/
def insertLoop : Option (BitVec 16) → List (BitVec 16) → Output → Output
  | _, [], output => output
  | before, group :: rest, output => insertLoop (some group) rest (insertGroup before group output)

def insert (os : List UInt8) (m_addr : SockaddrIn6) : List UInt8 :=
  let addr := addr m_addr.s6Addr.toList
  let output := insertLoop none addr ⟨os ++ [91], false⟩
  let os := if !output.usedZeros && addr.getD 7 0 != 0 then output.os ++ [58, 58] else output.os
  os ++ [93, 58] ++ numeral 10 (byteswap16 m_addr.sin6Port).toNat

def toString (m_addr : SockaddrIn6) : List UInt8 := insert [] m_addr

/-- `Create(address, port)` with an `inet_pton` of the family `AF_INET6`. -/
def create (inetPton : List UInt8 → Option (Vector (BitVec 8) 16)) (address : List UInt8)
    (port : BitVec 16) : Option SockaddrIn6 := do
  let s6Addr ← inetPton address
  return { zero with sin6Port := byteswap16 port, s6Addr := s6Addr }

/-- `IPv6Address(address, port)` -/
def ofBytes (address : Vector (BitVec 8) 16) (port : BitVec 16) : SockaddrIn6 :=
  { zero with sin6Port := byteswap16 port, s6Addr := address }

/-! ## The loop -/

section Loop

variable {group : BitVec 16} {groups rest : List (BitVec 16)}

/-- The groups with a colon in front of each of them. -/
def behind (groups : List (BitVec 16)) : List UInt8 :=
  (groups.map groupText).flatMap fun t => 58 :: t

theorem behind_cons (group : BitVec 16) (groups : List (BitVec 16)) :
    behind (group :: groups) = 58 :: groupText group ++ behind groups := by
  rw [behind, List.map_cons, List.flatMap_cons, ← behind]

theorem joined_groupTexts (group : BitVec 16) (groups : List (BitVec 16)) :
    joined ((group :: groups).map groupText) = groupText group ++ behind groups := by
  exact joined_cons _ _

theorem insertGroup_left (before : Option (BitVec 16)) (os : List UInt8) :
    insertGroup before 0 ⟨os, false⟩ = ⟨os, false⟩ := by
  rfl

theorem insertGroup_used (b group : BitVec 16) (os : List UInt8) :
    insertGroup (some b) group ⟨os, true⟩ = ⟨os ++ [58] ++ groupText group, true⟩ := by
  rw [insertGroup, Bool.not_true, Bool.and_false, Bool.and_false]
  rfl

theorem insertGroup_first (h : group ≠ 0) :
    insertGroup none group ⟨os, false⟩ = ⟨os ++ groupText group, false⟩ := by
  rw [insertGroup, beq_false_of_ne h, Bool.false_and]
  rfl

theorem insertGroup_next {b : BitVec 16} (hb : b ≠ 0) (h : group ≠ 0) :
    insertGroup (some b) group ⟨os, false⟩ = ⟨os ++ [58] ++ groupText group, false⟩ := by
  rw [insertGroup, beq_false_of_ne h, Bool.false_and, Option.any_some, beq_false_of_ne hb,
    Bool.false_and]
  rfl

theorem insertGroup_behind (h : group ≠ 0) :
    insertGroup (some 0) group ⟨os, false⟩ = ⟨os ++ [58, 58] ++ groupText group, true⟩ := by
  rw [insertGroup, beq_false_of_ne h, Bool.false_and]
  simp only [Bool.false_eq_true, if_false, Option.any_some, beq_self_eq_true, Bool.not_false,
    Bool.and_true, if_true, Option.isSome_some, List.append_assoc, List.cons_append,
    List.nil_append]

/-- Once the `::` is written every group is. -/
theorem insertLoop_used (b : BitVec 16) (groups : List (BitVec 16)) (os : List UInt8) :
    insertLoop (some b) groups ⟨os, true⟩ = ⟨os ++ behind groups, true⟩ := by
  induction groups generalizing b os with
  | nil => rw [insertLoop, behind, List.map_nil, List.flatMap_nil, List.append_nil]
  | cons group groups ih =>
      rw [insertLoop, insertGroup_used, ih, behind_cons]
      simp only [List.append_assoc, List.cons_append, List.nil_append]

/-- Up to the first group of zeros every group is written. -/
theorem insertLoop_next {b : BitVec 16} (hb : b ≠ 0) (h : ∀ g ∈ groups, g ≠ 0)
    (rest : List (BitVec 16)) (os : List UInt8) :
    ∃ last, insertLoop (some b) (groups ++ rest) ⟨os, false⟩ =
      insertLoop (some last) rest ⟨os ++ behind groups, false⟩ := by
  induction groups generalizing b os with
  | nil => exact ⟨b, by rw [behind, List.map_nil, List.flatMap_nil, List.append_nil]; rfl⟩
  | cons group groups ih =>
      have hgroup := h group List.mem_cons_self
      obtain ⟨last, hlast⟩ := ih hgroup (fun g hg => h g (List.mem_cons_of_mem _ hg))
        (os ++ [58] ++ groupText group)
      refine ⟨last, ?_⟩
      rw [List.cons_append, insertLoop, insertGroup_next hb hgroup, hlast, behind_cons]
      simp only [List.append_assoc, List.cons_append, List.nil_append]

theorem insertLoop_front (h : ∀ g ∈ groups, g ≠ 0) (rest : List (BitVec 16)) (os : List UInt8) :
    ∃ before, insertLoop none (groups ++ rest) ⟨os, false⟩ =
      insertLoop before rest ⟨os ++ joined (groups.map groupText), false⟩ := by
  cases groups with
  | nil => exact ⟨none, by rw [List.map_nil, joined, List.intercalate_nil, List.append_nil]; rfl⟩
  | cons group groups =>
      have hgroup := h group List.mem_cons_self
      obtain ⟨last, hlast⟩ := insertLoop_next hgroup
        (fun g hg => h g (List.mem_cons_of_mem _ hg)) rest (os ++ groupText group)
      refine ⟨some last, ?_⟩
      rw [List.cons_append, insertLoop, insertGroup_first hgroup, hlast, joined_groupTexts,
        List.append_assoc]

/-- A run of zeros is left out. -/
theorem insertLoop_zeros (before : Option (BitVec 16)) (n : Nat) (rest : List (BitVec 16))
    (os : List UInt8) : insertLoop before (List.replicate (n + 1) 0 ++ rest) ⟨os, false⟩ =
      insertLoop (some 0) rest ⟨os, false⟩ := by
  induction n generalizing before with
  | zero =>
      rw [Nat.zero_add, List.replicate_one, List.singleton_append, insertLoop, insertGroup_left]
  | succ n ih =>
      rw [List.replicate_succ, List.cons_append, insertLoop, insertGroup_left, ih]

/-- Groups that end in a run of zeros, or in none, are written without a `::`. -/
theorem insertLoop_outer (h : ∀ g ∈ groups, g ≠ 0) (n : Nat) (os : List UInt8) :
    insertLoop none (groups ++ List.replicate n 0) ⟨os, false⟩ =
      ⟨os ++ joined (groups.map groupText), false⟩ := by
  obtain ⟨before, hfront⟩ := insertLoop_front h (List.replicate n 0) os
  rw [hfront]
  cases n with
  | zero => rfl
  | succ n =>
      have hzeros := insertLoop_zeros before n [] (os ++ joined (groups.map groupText))
      rw [List.append_nil] at hzeros
      rw [hzeros]
      rfl

/-- The first run of zeros is the `::` if there is another group behind it. -/
theorem insertLoop_inner (h : ∀ g ∈ groups, g ≠ 0) (n : Nat) (hgroup : group ≠ 0)
    (os : List UInt8) :
    insertLoop none (groups ++ (List.replicate (n + 1) 0 ++ group :: rest)) ⟨os, false⟩ =
      ⟨os ++ (joined (groups.map groupText) ++ 58 :: 58 :: joined ((group :: rest).map groupText)),
        true⟩ := by
  obtain ⟨before, hfront⟩ := insertLoop_front h (List.replicate (n + 1) 0 ++ group :: rest) os
  rw [hfront, insertLoop_zeros, insertLoop, insertGroup_behind hgroup, insertLoop_used,
    joined_groupTexts]
  simp only [List.append_assoc, List.cons_append, List.nil_append]

end Loop

/-! ## Groups and bytes -/

/-- The groups of an address, whose bytes are in network order. -/
def groupValues : List (BitVec 8) → List Nat
  | high :: low :: rest => (256 * high.toNat + low.toNat) :: groupValues rest
  | _ => []

def bytesOf (values : List Nat) : List (BitVec 8) :=
  values.flatMap fun v => [BitVec.ofNat 8 (v / 256), BitVec.ofNat 8 v]

theorem byte_pair (high low : BitVec 8) :
    BitVec.ofNat 8 ((256 * high.toNat + low.toNat) / 256) = high ∧
      BitVec.ofNat 8 (256 * high.toNat + low.toNat) = low := by
  have hhigh := high.isLt
  have hlow := low.isLt
  constructor
  · refine BitVec.eq_of_toNat_eq ?_
    rw [BitVec.toNat_ofNat]
    omega
  · refine BitVec.eq_of_toNat_eq ?_
    rw [BitVec.toNat_ofNat]
    omega

theorem bytesOf_groupValues (n : Nat) (bytes : List (BitVec 8)) (h : bytes.length = 2 * n) :
    bytesOf (groupValues bytes) = bytes := by
  induction n generalizing bytes with
  | zero =>
      rw [List.eq_nil_of_length_eq_zero h]
      rfl
  | succ n ih =>
      obtain ⟨high, low, rest, rfl, hrest⟩ := exists_pair h
      obtain ⟨hhigh, hlow⟩ := byte_pair high low
      rw [groupValues, bytesOf, List.flatMap_cons, ← bytesOf, ih rest hrest, hhigh, hlow]
      rfl

theorem groupValues_eq (bytes : List (BitVec 8)) :
    groupValues bytes = (addr bytes).map fun group => (byteswap16 group).toNat := by
  match bytes with
  | [] => rfl
  | [_] => rfl
  | high :: low :: rest =>
      have hhigh := high.isLt
      have hlow := low.isLt
      have hpair : (byteswap16 (low ++ high : BitVec 16)).toNat = 256 * high.toNat + low.toNat := by
        rw [toNat_byteswap16, toNat_append]
        omega
      rw [groupValues, addr, List.map_cons, hpair, groupValues_eq rest]

theorem length_addr (n : Nat) (bytes : List (BitVec 8)) (h : bytes.length = 2 * n) :
    (addr bytes).length = n := by
  induction n generalizing bytes with
  | zero =>
      rw [List.eq_nil_of_length_eq_zero h]
      rfl
  | succ n ih =>
      obtain ⟨low, high, rest, rfl, hrest⟩ := exists_pair h
      rw [addr, List.length_cons, ih rest hrest]

theorem groupValues_inj {address address' : Vector (BitVec 8) 16}
    (h : groupValues address'.toList = groupValues address.toList) : address' = address := by
  have hlist : address'.toList = address.toList := by
    rw [← bytesOf_groupValues 8 _ address'.length_toList, h,
      bytesOf_groupValues 8 _ address.length_toList]
  exact Vector.toList_inj.mp hlist

theorem toNat_byteswap16_eq_zero {group : BitVec 16} :
    (byteswap16 group).toNat = 0 ↔ group = 0 := by
  have hzero : (0 : BitVec 16).toNat = 0 := rfl
  rw [← BitVec.toNat_inj, toNat_byteswap16, hzero]
  omega

/-! ## The text of a group -/

theorem isGroup_groupText (group : BitVec 16) : isGroup (groupText group) := by
  refine isGroup_iff.mpr ⟨length_numeral_pos, ?_, fun c hc => ?_⟩
  · exact length_numeral_le (by decide) (by decide) (byteswap16 group).isLt
  · exact isSome_of_mem_numeral (by decide) (by decide) hc

theorem isGroup_groupTexts (groups : List (BitVec 16)) : ∀ t ∈ groups.map groupText, isGroup t := by
  intro t ht
  obtain ⟨group, _, rfl⟩ := List.mem_map.mp ht
  exact isGroup_groupText group

theorem map_numeralValue (groups : List (BitVec 16)) :
    (groups.map groupText).map (numeralValue 16) =
      groups.map fun group => (byteswap16 group).toNat := by
  rw [List.map_map]
  refine List.map_congr_left fun group _ => ?_
  exact numeralValue_numeral (by decide) (by decide)

/-! ## The runs of zeros -/

section Runs

variable {address : Vector (BitVec 8) 16} {group : BitVec 16}
  {groups rest : List (BitVec 16)} {n : Nat}

theorem leading_zeros (l : List (BitVec 16)) : (∃ n, l = List.replicate n 0) ∨
    ∃ n group rest, l = List.replicate n 0 ++ group :: rest ∧ group ≠ 0 := by
  induction l with
  | nil => exact Or.inl ⟨0, rfl⟩
  | cons g l ih =>
      by_cases hg : g = 0
      · rw [hg]
        rcases ih with ⟨n, hn⟩ | ⟨n, group, rest, hn, hgroup⟩
        · exact Or.inl ⟨n + 1, by rw [hn, List.replicate_succ]⟩
        · refine Or.inr ⟨n + 1, group, rest, ?_, hgroup⟩
          rw [hn, List.replicate_succ, List.cons_append]
      · exact Or.inr ⟨0, g, l, rfl, hg⟩

/-- The groups behind the first run of zeros, if there is such a run and something behind it. -/
theorem outer_or_inner (l : List (BitVec 16)) :
    (∃ groups n, l = groups ++ List.replicate n 0 ∧ ∀ g ∈ groups, g ≠ 0) ∨
    ∃ groups n group rest, l = groups ++ (List.replicate (n + 1) 0 ++ group :: rest) ∧
      (∀ g ∈ groups, g ≠ 0) ∧ group ≠ 0 := by
  by_cases hmem : 0 ∈ l
  · obtain ⟨groups, back, h, hfree⟩ := List.eq_append_cons_of_mem hmem
    have hgroups : ∀ g ∈ groups, g ≠ 0 := fun g hg hzero => hfree (by rwa [← hzero])
    rcases leading_zeros back with ⟨n, hn⟩ | ⟨n, group, rest, hn, hgroup⟩
    · exact Or.inl ⟨groups, n + 1, by rw [h, hn, List.replicate_succ], hgroups⟩
    · refine Or.inr ⟨groups, n, group, rest, ?_, hgroups, hgroup⟩
      rw [h, hn, List.replicate_succ, List.cons_append]
  · refine Or.inl ⟨l, 0, (List.append_nil l).symm, fun g hg hzero => hmem ?_⟩
    rwa [← hzero]

theorem toString_eq {output : Output} (port : BitVec 16)
    (h : insertLoop none (addr address.toList) ⟨[91], false⟩ = output) :
    toString (ofBytes address port) =
      (if !output.usedZeros && (addr address.toList).getD 7 0 != 0 then output.os ++ [58, 58]
        else output.os) ++ 93 :: 58 :: numeral 10 port.toNat := by
  have hport : byteswap16 (ofBytes address port).sin6Port = port := byteswap16_byteswap16 port
  rw [toString, insert, hport, ← h, List.append_assoc]
  rfl

/-- No text is denoted when there is no group behind a run of zeros: it lacks the `::`, or has one
behind eight groups. -/
theorem toString_outer (hlength : (addr address.toList).length = 8)
    (h : addr address.toList = groups ++ List.replicate n 0) (hgroups : ∀ g ∈ groups, g ≠ 0)
    (port : BitVec 16) :
    ∃ t, toString (ofBytes address port) = 91 :: t ++ 93 :: 58 :: numeral 10 port.toNat ∧
      decode t = none := by
  have hloop : insertLoop none (addr address.toList) ⟨[91], false⟩ =
      ⟨[91] ++ joined (groups.map groupText), false⟩ := by
    rw [h]
    exact insertLoop_outer hgroups n [91]
  have htexts := isGroup_groupTexts groups
  have hcount : groups.length + n = 8 := by
    rw [← hlength, h, List.length_append, List.length_replicate]
  rw [toString_eq port hloop]
  cases n with
  | zero =>
      have hlast : (addr address.toList).getD 7 0 ≠ 0 := by
        rw [h, List.replicate_zero, List.append_nil, List.getD_eq_getElem _ _ (by omega)]
        exact hgroups _ (List.getElem_mem _)
      refine ⟨joined (groups.map groupText) ++ 58 :: 58 :: joined [], ?_, ?_⟩
      · rw [if_pos (by rw [Bool.not_false, Bool.true_and]; exact bne_iff_ne.mpr hlast)]
        rfl
      · have hfull : ¬ groups.length + ([] : List (List UInt8)).length < 8 := by
          rw [List.length_nil]
          omega
        rw [decode_compressed htexts (List.forall_mem_nil _), List.length_map, if_neg hfull]
  | succ n =>
      have hlast : (addr address.toList).getD 7 0 = 0 := by
        rw [h, List.getD_append_right _ _ _ _ (by omega), List.getD_replicate _ (by omega)]
      refine ⟨joined (groups.map groupText), ?_, ?_⟩
      · rw [hlast, bne_self_eq_false, Bool.and_false]
        rfl
      · rw [decode_full htexts, List.length_map, if_neg (by omega)]

/-- The text of groups with one behind a run of zeros. -/
theorem toString_inner (hlength : (addr address.toList).length = 8)
    (h : addr address.toList = groups ++ (List.replicate (n + 1) 0 ++ group :: rest))
    (hgroups : ∀ g ∈ groups, g ≠ 0) (hgroup : group ≠ 0) (port : BitVec 16) :
    ∃ t, toString (ofBytes address port) = 91 :: t ++ 93 :: 58 :: numeral 10 port.toNat ∧
      TextOf t (groupValues address.toList) := by
  have hloop : insertLoop none (addr address.toList) ⟨[91], false⟩ =
      ⟨[91] ++ (joined (groups.map groupText) ++
        58 :: 58 :: joined ((group :: rest).map groupText)), true⟩ := by
    rw [h]
    exact insertLoop_inner hgroups n hgroup [91]
  have hvalues : groupValues address.toList = (groups.map groupText).map (numeralValue 16) ++
      List.replicate (n + 1) 0 ++ ((group :: rest).map groupText).map (numeralValue 16) := by
    rw [groupValues_eq, h, List.map_append, List.map_append, List.map_replicate, map_numeralValue,
      map_numeralValue, List.append_assoc]
    rfl
  have hcount : ((groups.map groupText).length + (n + 1) +
      ((group :: rest).map groupText).length) = 8 := by
    rw [List.length_map, List.length_map, ← hlength, h, List.length_append, List.length_append,
      List.length_replicate, Nat.add_assoc]
  refine ⟨joined (groups.map groupText) ++ 58 :: 58 :: joined ((group :: rest).map groupText),
    ?_, ?_⟩
  · rw [toString_eq port hloop]
    rfl
  · rw [hvalues]
    exact TextOf.compressed _ _ _ (isGroup_groupTexts _) (isGroup_groupTexts _) (Nat.succ_pos n)
      hcount

/-- Some group of zeros has another group behind it. -/
def ZerosInside (address : Vector (BitVec 8) 16) : Prop :=
  ∃ front back, groupValues address.toList = front ++ 0 :: back ∧ ∃ g ∈ back, g ≠ 0

theorem zerosInside_inner
    (h : addr address.toList = groups ++ (List.replicate (n + 1) 0 ++ group :: rest))
    (hgroup : group ≠ 0) : ZerosInside address := by
  refine ⟨groups.map fun group => (byteswap16 group).toNat,
    List.replicate n 0 ++ (group :: rest).map fun group => (byteswap16 group).toNat, ?_,
    (byteswap16 group).toNat, ?_, fun hzero => hgroup (toNat_byteswap16_eq_zero.mp hzero)⟩
  · rw [groupValues_eq, h, List.map_append, List.map_append, List.map_replicate]
    rfl
  · exact List.mem_append_right _ List.mem_cons_self

theorem not_zerosInside_outer (h : addr address.toList = groups ++ List.replicate n 0)
    (hgroups : ∀ g ∈ groups, g ≠ 0) : ¬ ZerosInside address := by
  rintro ⟨front, back, hvalues, g, hg, hne⟩
  have hgroup : ∀ v ∈ groups.map fun group => (byteswap16 group).toNat, v ≠ 0 := by
    intro v hv hzero
    obtain ⟨group, hmem, rfl⟩ := List.mem_map.mp hv
    exact hgroups group hmem (toNat_byteswap16_eq_zero.mp hzero)
  have hpairs : (groupValues address.toList).Pairwise fun a b => a = 0 → b = 0 := by
    rw [groupValues_eq, h, List.map_append, List.map_replicate, List.pairwise_append]
    refine ⟨?_, List.pairwise_replicate.mpr (Or.inr fun hzero => hzero), ?_⟩
    · exact List.pairwise_of_forall_mem_list fun a ha b _ hzero => absurd hzero (hgroup a ha)
    · exact fun a ha b _ hzero => absurd hzero (hgroup a ha)
  rw [hvalues, List.pairwise_append, List.pairwise_cons] at hpairs
  exact hne (hpairs.2.1.1 g hg rfl)

theorem length_groups (address : Vector (BitVec 8) 16) : (addr address.toList).length = 8 := by
  exact length_addr 8 _ address.length_toList

/-- The text is one of the address if a group of zeros has another group behind it, and else it is
the text of no address. -/
theorem toString_cases (address : Vector (BitVec 8) 16) (port : BitVec 16) :
    ∃ t, toString (ofBytes address port) = 91 :: t ++ 93 :: 58 :: numeral 10 port.toNat ∧
      ((ZerosInside address ∧ TextOf t (groupValues address.toList)) ∨
        (¬ ZerosInside address ∧ decode t = none)) := by
  have hlength := length_groups address
  rcases outer_or_inner (addr address.toList) with
    ⟨groups, n, h, hgroups⟩ | ⟨groups, n, group, rest, h, hgroups, hgroup⟩
  · obtain ⟨t, ht, hnone⟩ := toString_outer hlength h hgroups port
    exact ⟨t, ht, Or.inr ⟨not_zerosInside_outer h hgroups, hnone⟩⟩
  · obtain ⟨t, ht, htext⟩ := toString_inner hlength h hgroups hgroup port
    exact ⟨t, ht, Or.inl ⟨zerosInside_inner h hgroup, htext⟩⟩

theorem bracketed_inj {t t' p p' : List UInt8}
    (h : 91 :: t ++ 93 :: 58 :: p = 91 :: t' ++ 93 :: 58 :: p') (ht : 93 ∉ t) (hp : 93 ∉ p) :
    t = t' ∧ p = p' := by
  have hcolon : (93 : UInt8) ∉ 58 :: p := by
    rw [List.mem_cons, not_or]
    exact ⟨by decide, hp⟩
  have hparts := (List.append_cons_inj_of_notMem ht hcolon).mp (List.cons.inj h).2
  exact ⟨hparts.1, (List.cons.inj hparts.2.2).2⟩

theorem bracket_not_mem_numeral (v : Nat) : 93 ∉ numeral 10 v := by
  intro hmem
  have hsome := isSome_of_mem_numeral (by decide) (by decide) hmem
  cases hsome

end Runs

/-! ## The text and the address -/

/-- What is promised of the text `t` for an address and a port. -/
structure Faithful (inetPton : List UInt8 → Option (Vector (BitVec 8) 16))
    (address : Vector (BitVec 8) 16) (port : BitVec 16) (t : List UInt8) : Prop where
  form : toString (ofBytes address port) = chars "[" ++ t ++ chars "]:" ++ numeral 10 port.toNat
  denotes : TextOf t (groupValues address.toList)
  distinct : ∀ address' port', toString (ofBytes address' port') = toString (ofBytes address port) →
    address' = address ∧ port' = port
  created : create inetPton t port = some (ofBytes address port)

section Text

variable {address : Vector (BitVec 8) 16} {port : BitVec 16} {t : List UInt8}

theorem form_eq (t p : List UInt8) :
    chars "[" ++ t ++ chars "]:" ++ p = 91 :: t ++ 93 :: 58 :: p := by
  rw [List.append_assoc, List.append_assoc]
  rfl

/-- Only the address itself has a text that denotes it. -/
theorem distinct_of_textOf
    (ht : toString (ofBytes address port) = 91 :: t ++ 93 :: 58 :: numeral 10 port.toNat)
    (htext : TextOf t (groupValues address.toList)) (address' : Vector (BitVec 8) 16)
    (port' : BitVec 16) (h : toString (ofBytes address' port') = toString (ofBytes address port)) :
    address' = address ∧ port' = port := by
  obtain ⟨t', ht', hcases⟩ := toString_cases address' port'
  rw [ht, ht'] at h
  obtain ⟨hsame, hport⟩ := bracketed_inj h.symm (bracket_not_mem htext) (bracket_not_mem_numeral _)
  have hdecode := decode_of_textOf htext
  constructor
  · rcases hcases with ⟨_, htext'⟩ | ⟨_, hnone⟩
    · have hdecode' := decode_of_textOf htext'
      rw [← hsame, hdecode] at hdecode'
      exact groupValues_inj (Option.some.inj hdecode').symm
    · rw [← hsame, hdecode] at hnone
      cases hnone
  · exact BitVec.eq_of_toNat_eq (numeral_injective (by decide) (by decide) hport.symm)

theorem not_faithful {inetPton : List UInt8 → Option (Vector (BitVec 8) 16)}
    (hzeros : ¬ ZerosInside address) : ¬ Faithful inetPton address port t := by
  intro hfaithful
  obtain ⟨t', ht', hcases⟩ := toString_cases address port
  have hform := hfaithful.form
  rw [form_eq, ht'] at hform
  have hsame : t' = t := (List.cons.inj (List.append_cancel_right hform)).2
  rcases hcases with ⟨hinside, _⟩ | ⟨_, hnone⟩
  · exact hzeros hinside
  · rw [hsame] at hnone
    exact not_textOf hnone hfaithful.denotes

end Text

/-- The text form is faithful exactly for the addresses where a group of zeros has another group
somewhere behind it. -/
theorem ipv6_text_iff (inetPton : List UInt8 → Option (Vector (BitVec 8) 16))
    (hpton : ∀ t address, TextOf t (groupValues address.toList) → inetPton t = some address)
    (address : Vector (BitVec 8) 16) (port : BitVec 16) :
    (∃ t, Faithful inetPton address port t) ↔ ZerosInside address := by
  constructor
  · rintro ⟨t, hfaithful⟩
    by_contra hzeros
    exact not_faithful hzeros hfaithful
  · intro hzeros
    obtain ⟨t, ht, hcases⟩ := toString_cases address port
    rcases hcases with ⟨_, htext⟩ | ⟨hnot, _⟩
    · have hcreate : create inetPton t port = some (ofBytes address port) := by
        rw [create, hpton t address htext]
        rfl
      exact ⟨t, ht.trans (form_eq _ _).symm, htext, distinct_of_textOf ht htext, hcreate⟩
    · exact absurd hzeros hnot

/-- An `inet_pton` that knows the texts of groups. -/
def inetPtonGroups (text : List UInt8) : Option (Vector (BitVec 8) 16) := do
  let values ← decode text
  if h : (bytesOf values).toArray.size = 16 then some ⟨(bytesOf values).toArray, h⟩ else none

theorem inetPtonGroups_eq (t : List UInt8) (address : Vector (BitVec 8) 16)
    (h : TextOf t (groupValues address.toList)) : inetPtonGroups t = some address := by
  have hbytes := bytesOf_groupValues 8 _ address.length_toList
  have harray : (bytesOf (groupValues address.toList)).toArray = address.toArray := by
    rw [hbytes]
    exact Array.toArray_toList
  have hsize : (bytesOf (groupValues address.toList)).toArray.size = 16 := by
    rw [harray]
    exact address.size_toArray
  rw [inetPtonGroups, decode_of_textOf h, Option.bind_eq_bind, Option.bind_some, dif_pos hsize]
  exact congrArg some (Vector.toArray_inj.mp harray)

/-- The bytes of `::1`. -/
def loopbackBytes : Vector (BitVec 8) 16 := (Vector.replicate 16 0).set 15 1

theorem ipv6_text_loopback : ∃ t, Faithful inetPtonGroups loopbackBytes 80 t := by
  refine (ipv6_text_iff inetPtonGroups inetPtonGroups_eq loopbackBytes 80).mpr ?_
  exact ⟨[], [0, 0, 0, 0, 0, 0, 1], by decide, 1, by decide, by decide⟩

/-- An address without a group of zeros has a `::` behind its eight groups. -/
theorem ipv6_text_full :
    toString (ofBytes (Vector.replicate 16 1) 80) =
      chars "[101:101:101:101:101:101:101:101::]:80" ∧
    ¬ ∃ inetPton t, Faithful inetPton (Vector.replicate 16 1) 80 t := by
  refine ⟨by decide, ?_⟩
  rintro ⟨inetPton, t, hfaithful⟩
  refine not_faithful ?_ hfaithful
  rintro ⟨front, back, hvalues, _⟩
  have hmem : 0 ∈ groupValues (Vector.replicate 16 (1 : BitVec 8)).toList := by
    rw [hvalues]
    exact List.mem_append_right _ List.mem_cons_self
  revert hmem
  decide

end IPv6Address

end Lyslg.Address
