import Lyslg.Address.Subnet6
import Lyslg.Http.Request
import Lyslg.Support.OrderedMap
/-!
# Interfaces of the host

The prefix length of an interface is the number of ones in its netmask.  It is assigned for IPv4;
for IPv6 it is added up from a start value that is not zero.
-/

namespace Lyslg.Address

open Http Support Support.Bits

theorem toNat_clear {w : Nat} {value : BitVec w} (h : value ≠ 0) :
    0 < value.toNat ∧ (value &&& (value - 1)).toNat = value.toNat &&& (value.toNat - 1) := by
  have hpos : 0 < value.toNat := by
    refine Nat.pos_of_ne_zero fun hzero => h ?_
    exact BitVec.eq_of_toNat_eq (hzero.trans BitVec.toNat_zero.symm)
  have hone : (1 : BitVec w).toNat = 1 := Nat.mod_eq_of_lt (Nat.lt_of_le_of_lt hpos value.isLt)
  have hle : 1 ≤ value := by
    rw [BitVec.le_def, hone]
    exact hpos
  rw [BitVec.toNat_and, BitVec.toNat_sub_of_le hle, hone]
  exact ⟨hpos, rfl⟩

theorem toNat_clear_lt {w : Nat} {value : BitVec w} (h : value ≠ 0) :
    (value &&& (value - 1)).toNat < value.toNat := by
  obtain ⟨hpos, hclear⟩ := toNat_clear h
  have hle : value.toNat &&& (value.toNat - 1) ≤ value.toNat - 1 := Nat.and_le_right
  omega

/-- The loop of `CountBytes(value)`. -/
def countBytes {w : Nat} (value : BitVec w) (result : BitVec 32) : BitVec 32 :=
  if h : value = 0 then result else countBytes (value &&& (value - 1)) (result + 1)
termination_by value.toNat
decreasing_by exact toNat_clear_lt h

/-! ## `getifaddrs` -/

/-- The address and the netmask of an interface, which are of the same family. -/
inductive IfaSockaddr where
  | inet (addr netmask : SockaddrIn)
  | inet6 (addr netmask : SockaddrIn6)
  | other (family : Nat) (hother : family ≠ afInet ∧ family ≠ afInet6)

def IfaSockaddr.saFamily : IfaSockaddr → Nat
  | inet _ _ => afInet
  | inet6 _ _ => afInet6
  | other family _ => family

/-- An entry of the list that `getifaddrs` returns. -/
structure Ifaddrs where
  ifaName : List UInt8
  ifa : IfaSockaddr

inductive IpAddress where
  | ipv4 (m_addr : SockaddrIn)
  | ipv6 (m_addr : SockaddrIn6)
  deriving DecidableEq

/-- A `std::multimap` from the names to the addresses with their prefix lengths. -/
abbrev Interfaces := List (List UInt8 × (IpAddress × BitVec 32))

def Interfaces.insert (result : Interfaces) (name : List UInt8) (addr : IpAddress)
    (prefixLen : BitVec 32) : Interfaces :=
  OrderedMap.insertMulti lexLess result name (addr, prefixLen)

/-- The loop over `netmask.s6_addr`. -/
def addBytes (s6Addr : List (BitVec 8)) (prefixLen : BitVec 32) : BitVec 32 :=
  s6Addr.foldl (fun prefixLen b => prefixLen + countBytes b 0) prefixLen

/-- The loop of `GetInterfaceAddresses`. -/
def interfacesLoop (family : Nat) : List Ifaddrs → Interfaces → Interfaces
  | [], result => result
  | next :: rest, result =>
      let prefixLen : BitVec 32 := ~~~ 0
      if family ≠ afUnspec ∧ family ≠ next.ifa.saFamily then interfacesLoop family rest result
      else
        match next.ifa with
        | .inet addr netmask =>
            let prefixLen := countBytes netmask.sinAddr 0
            interfacesLoop family rest (result.insert next.ifaName (.ipv4 addr) prefixLen)
        | .inet6 addr netmask =>
            let prefixLen := addBytes netmask.s6Addr.toList prefixLen
            interfacesLoop family rest (result.insert next.ifaName (.ipv6 addr) prefixLen)
        | .other _ _ => interfacesLoop family rest result

/-- `GetInterfaceAddresses(result, family)`, where `getifaddrs` has failed or has the interfaces. -/
def getInterfaceAddresses (getifaddrs : Option (List Ifaddrs)) (result : Interfaces)
    (family : Nat) : Interfaces × Bool :=
  match getifaddrs with
  | none => (result, false)
  | some interfaces => (interfacesLoop family interfaces result, true)

/-! ## The number of ones -/

/-- The number of ones in a netmask. -/
def netmaskOnes : IfaSockaddr → Nat
  | .inet _ netmask => ones 32 netmask.sinAddr.toNat
  | .inet6 _ netmask => (netmask.s6Addr.toList.map fun b => ones 8 b.toNat).sum
  | .other _ _ => 0

/-- What is to be reported of an interface. -/
def report (next : Ifaddrs) : Option (List UInt8 × (IpAddress × BitVec 32)) :=
  match next.ifa with
  | .inet addr _ => some (next.ifaName, (.ipv4 addr, BitVec.ofNat 32 (netmaskOnes next.ifa)))
  | .inet6 addr _ => some (next.ifaName, (.ipv6 addr, BitVec.ofNat 32 (netmaskOnes next.ifa)))
  | .other _ _ => none

/-- The interfaces of the requested family. -/
def requested (family : Nat) (interfaces : List Ifaddrs) : List Ifaddrs :=
  interfaces.filter fun next => family = afUnspec ∨ family = next.ifa.saFamily

section Count

variable {w : Nat} {value : BitVec w} {result : BitVec 32}

theorem countBytes_eq (value : BitVec w) (result : BitVec 32) :
    countBytes value result = result + BitVec.ofNat 32 (ones w value.toNat) := by
  induction value, result using countBytes.induct with
  | case1 result =>
      have hnone : ones w 0 = 0 := by
        rw [ones, List.countP_eq_zero]
        intro i _
        rw [Nat.zero_testBit]
        exact Bool.false_ne_true
      have hzero : (0 : BitVec w).toNat = 0 := BitVec.toNat_zero
      rw [countBytes, dif_pos rfl, hzero, hnone]
      exact (BitVec.add_zero result).symm
  | case2 value result h ih =>
      obtain ⟨hpos, hclear⟩ := toNat_clear h
      have hones := ones_clear hpos value.isLt
      rw [countBytes, dif_neg h, ih, hclear, ← hones, BitVec.ofNat_add, BitVec.add_assoc]
      exact congrArg (result + ·) (BitVec.add_comm _ _)

theorem countBytes_zero (value : BitVec w) :
    countBytes value 0 = BitVec.ofNat 32 (ones w value.toNat) := by
  exact (countBytes_eq value 0).trans (BitVec.zero_add _)

theorem addBytes_eq (s6Addr : List (BitVec 8)) (prefixLen : BitVec 32) :
    addBytes s6Addr prefixLen =
      prefixLen + BitVec.ofNat 32 (s6Addr.map fun b => ones 8 b.toNat).sum := by
  induction s6Addr generalizing prefixLen with
  | nil => exact (BitVec.add_zero prefixLen).symm
  | cons b s6Addr ih =>
      show addBytes s6Addr (prefixLen + countBytes b 0) = _
      rw [ih, countBytes_zero, List.map_cons, List.sum_cons, BitVec.ofNat_add, BitVec.add_assoc]

end Count

/-! ## What is reported -/

section Reported

variable {family : Nat} {interfaces : List Ifaddrs} {result : Interfaces} {next : Ifaddrs}

/-- What the loop inserts for an interface. -/
def inserted (next : Ifaddrs) : Option (List UInt8 × (IpAddress × BitVec 32)) :=
  match next.ifa with
  | .inet addr netmask => some (next.ifaName, (.ipv4 addr, countBytes netmask.sinAddr 0))
  | .inet6 addr netmask =>
      some (next.ifaName, (.ipv6 addr, addBytes netmask.s6Addr.toList (~~~ 0)))
  | .other _ _ => none

/-- Whether an interface is one of IPv6. -/
def IsInet6 (next : Ifaddrs) : Prop := next.ifa.saFamily = afInet6

theorem interfacesLoop_eq (family : Nat) (interfaces : List Ifaddrs) (result : Interfaces) :
    interfacesLoop family interfaces result =
      OrderedMap.insertAllMulti lexLess result
        ((requested family interfaces).filterMap inserted) := by
  induction interfaces generalizing result with
  | nil => rfl
  | cons next rest ih =>
      rw [interfacesLoop, requested, List.filter_cons]
      by_cases hskip : family ≠ afUnspec ∧ family ≠ next.ifa.saFamily
      · have hnot : ¬ (family = afUnspec ∨ family = next.ifa.saFamily) := by
          rw [not_or]
          exact hskip
        rw [if_pos hskip, if_neg (by rwa [decide_eq_true_eq]), ih]
        rfl
      · have hrequested : family = afUnspec ∨ family = next.ifa.saFamily := by
          rw [← not_ne_iff, ← not_ne_iff, ← not_and_or]
          exact hskip
        rw [if_neg hskip, if_pos (decide_eq_true hrequested), List.filterMap_cons]
        obtain ⟨name, ifa⟩ := next
        cases ifa with
        | inet addr netmask => exact ih _
        | inet6 addr netmask => exact ih _
        | other family' hother => exact ih _

/-- IPv4 is reported right. -/
theorem inserted_eq_report (h : ¬ IsInet6 next) : inserted next = report next := by
  obtain ⟨name, ifa⟩ := next
  cases ifa with
  | inet addr netmask =>
      exact congrArg (fun n => some (name, (IpAddress.ipv4 addr, n)))
        (countBytes_zero netmask.sinAddr)
  | inet6 addr netmask => exact absurd rfl h
  | other family' hother => rfl

/-- IPv6 is reported with one too few. -/
theorem inserted_ne_report (h : IsInet6 next) : inserted next ≠ report next := by
  obtain ⟨name, ifa⟩ := next
  cases ifa with
  | inet addr netmask => cases h
  | inet6 addr netmask =>
      intro heq
      have hlen : addBytes netmask.s6Addr.toList (~~~ 0) =
          BitVec.ofNat 32 (netmaskOnes (.inet6 addr netmask)) :=
        congrArg (fun entry => entry.2.2) (Option.some.inj heq)
      rw [addBytes_eq, netmaskOnes] at hlen
      have hstart : (~~~ 0 : BitVec 32) = 0 :=
        (BitVec.add_left_inj _).mp (hlen.trans (BitVec.zero_add _).symm)
      revert hstart
      decide
  | other family' hother => exact absurd h hother.2

theorem map_fst_inserted (next : Ifaddrs) :
    (inserted next).map Prod.fst = (report next).map Prod.fst := by
  obtain ⟨name, ifa⟩ := next
  cases ifa <;> rfl

theorem names_inserted (interfaces : List Ifaddrs) :
    (interfaces.filterMap inserted).map Prod.fst = (interfaces.filterMap report).map Prod.fst := by
  rw [List.map_filterMap, List.map_filterMap]
  simp only [map_fst_inserted]

theorem filterMap_inserted_iff (interfaces : List Ifaddrs) :
    interfaces.filterMap inserted = interfaces.filterMap report ↔
      ∀ next ∈ interfaces, ¬ IsInet6 next := by
  induction interfaces with
  | nil => exact iff_of_true rfl (List.forall_mem_nil _)
  | cons next rest ih =>
      have hnames := map_fst_inserted next
      rw [List.filterMap_cons, List.filterMap_cons, List.forall_mem_cons, ← ih]
      by_cases hinet6 : IsInet6 next
      · have hne := inserted_ne_report hinet6
        refine iff_of_false (fun heq => ?_) fun h => h.1 hinet6
        cases hinserted : inserted next with
        | none =>
            rw [hinserted, Option.map_none, eq_comm, Option.map_eq_none_iff] at hnames
            exact hne (hinserted.trans hnames.symm)
        | some entry =>
            rw [hinserted, Option.map_some, eq_comm, Option.map_eq_some_iff] at hnames
            obtain ⟨entry', hreport, -⟩ := hnames
            rw [hinserted, hreport] at heq hne
            exact hne (congrArg some (List.cons.inj heq).1)
      · rw [inserted_eq_report hinet6, and_iff_right hinet6]
        cases report next with
        | none => exact Iff.rfl
        | some entry => exact List.cons_inj_right entry

end Reported

/-! ## Netmasks of a prefix length -/

section Netmask

variable {mode : SignedOverflow} {p : Nat}

theorem ones_subnetMask {s : SockaddrIn} (hp : p ≤ 32)
    (h : IPv4Address.subnetMask mode p = some s) : ones 32 s.sinAddr.toNat = p := by
  have hall : ∀ q : Fin 33, ones 32 (byteswap32 (prefixMask 32 q)).toNat = q := by decide +kernel
  have hmask : createMask mode 32 p = some (~~~ prefixMask 32 p) := by
    refine (createMask_cases mode hp).resolve_left fun hnone => ?_
    rw [IPv4Address.subnetMask, hnone] at h
    cases h
  have hexact : SubnetExact mode s 0 p := subnetExact_of_mask hp hmask
  rw [Option.some.inj (h.symm.trans (hexact.mask hp))]
  exact hall ⟨p, Nat.lt_succ_of_le hp⟩

/-- The number of ones in a byte of the mask. -/
theorem ones_maskByte {i : Nat} (hi : i < 16) (hp : p < 128) :
    ones 8 ((prefixMask 128 p).extractLsb' (120 - 8 * i) 8).toNat = min 8 (p - 8 * i) := by
  have hpartial : ∀ q : Fin 8, ones 8 (prefixMask 8 q).toNat = q := by decide
  rw [← getElem_netBytes hi, netBytes_prefixMask hi hp]
  by_cases hlow : i < p / 8
  · have hfull : ones 8 (0xff : BitVec 8).toNat = 8 := by decide
    rw [if_pos hlow, hfull]
    omega
  · by_cases heq : i = p / 8
    · have hones : ones 8 (prefixMask 8 (p % 8)).toNat = p % 8 :=
        hpartial ⟨p % 8, Nat.mod_lt p (by decide)⟩
      rw [if_neg hlow, if_pos heq, hones]
      omega
    · have hzero : ones 8 (0x00 : BitVec 8).toNat = 0 := by decide
      rw [if_neg hlow, if_neg heq, hzero]
      omega

theorem sum_maskBytes (p n : Nat) :
    ((List.range n).map fun i => min 8 (p - 8 * i)).sum = min p (8 * n) := by
  induction n with
  | zero => exact (Nat.min_zero p).symm
  | succ n ih =>
      rw [List.range_succ, List.map_append, List.sum_append, ih, List.map_singleton,
        List.sum_singleton]
      omega

theorem toList_netBytes (a : BitVec 128) :
    (netBytes a).toList = (List.range 16).map fun i => a.extractLsb' (120 - 8 * i) 8 := by
  rw [netBytes, Vector.toList_ofFn]
  refine List.ext_getElem ?_ fun i _ _ => ?_
  · rw [List.length_ofFn, List.length_map, List.length_range]
  · rw [List.getElem_ofFn, List.getElem_map, List.getElem_range]

theorem ones_netMask (hp : p < 128) :
    ((netBytes (prefixMask 128 p)).toList.map fun b => ones 8 b.toNat).sum = p := by
  have hbytes : (List.range 16).map (fun i =>
      ones 8 ((prefixMask 128 p).extractLsb' (120 - 8 * i) 8).toNat) =
      (List.range 16).map fun i => min 8 (p - 8 * i) := by
    refine List.map_congr_left fun i hi => ?_
    exact ones_maskByte (List.mem_range.mp hi) hp
  rw [toList_netBytes, List.map_map]
  show ((List.range 16).map fun i =>
    ones 8 ((prefixMask 128 p).extractLsb' (120 - 8 * i) 8).toNat).sum = p
  rw [hbytes, sum_maskBytes]
  omega

theorem ones_subnetMask6 {s : SockaddrIn6} (h : IPv6Address.subnetMask mode p = some s) :
    (s.s6Addr.toList.map fun b => ones 8 b.toNat).sum = p := by
  by_cases hp : p < 128
  · rw [Option.some.inj (h.symm.trans (subnetMask_eq hp))]
    exact ones_netMask hp
  · rw [subnetMask_outside (Nat.le_of_not_lt hp)] at h
    cases h

end Netmask

/-- For every list of interfaces the prefix lengths are the numbers of ones in the netmasks
exactly if no interface of IPv6 is requested.  In particular a netmask that is the one of a prefix
length has that number of ones. -/
theorem interface_prefixes_iff (interfaces : List Ifaddrs) (result : Interfaces) (family : Nat) :
    (getInterfaceAddresses (some interfaces) result family =
        (OrderedMap.insertAllMulti lexLess result ((requested family interfaces).filterMap report),
          true) ↔
      ∀ next ∈ requested family interfaces, ¬ IsInet6 next) ∧
    (∀ mode p addr netmask, p ≤ 32 → IPv4Address.subnetMask mode p = some netmask →
      netmaskOnes (.inet addr netmask) = p) ∧
    ∀ mode p addr netmask, IPv6Address.subnetMask mode p = some netmask →
      netmaskOnes (.inet6 addr netmask) = p := by
  refine ⟨?_, fun mode p addr netmask hp h => ones_subnetMask hp h,
    fun mode p addr netmask h => ones_subnetMask6 h⟩
  rw [getInterfaceAddresses, interfacesLoop_eq, ← filterMap_inserted_iff]
  constructor
  · intro h
    have hloop := congrArg Prod.fst h
    exact (OrderedMap.insertAllMulti_inj rfl (names_inserted _) hloop).2
  · intro h
    rw [h]

/-- The address `::1` with the netmask of the prefix length 64. -/
def loopback : Ifaddrs where
  ifaName := chars "lo"
  ifa := .inet6 { IPv6Address.zero with s6Addr := netBytes 1 }
    { IPv6Address.zero with s6Addr := netBytes (prefixMask 128 64) }

/-- It is reported with the prefix length 63. -/
theorem interface_prefix_short : netmaskOnes loopback.ifa = 64 ∧
    getInterfaceAddresses (some [loopback]) [] afInet6 =
      ([(chars "lo", (.ipv6 { IPv6Address.zero with s6Addr := netBytes 1 }, 63))], true) := by
  have hones : ((netBytes (prefixMask 128 64)).toList.map fun b => ones 8 b.toNat).sum = 64 := by
    exact ones_netMask (by decide)
  refine ⟨hones, ?_⟩
  have hlen : addBytes (netBytes (prefixMask 128 64)).toList (~~~ 0) = 63 := by
    rw [addBytes_eq, hones]
    rfl
  rw [getInterfaceAddresses, interfacesLoop, if_neg (by decide)]
  show ([(_, (_, addBytes (netBytes (prefixMask 128 64)).toList (~~~ 0)))], true) = _
  rw [hlen]
  rfl

end Lyslg.Address
