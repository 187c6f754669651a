import Lyslg.Support.Bits
import Lyslg.Support.Machine
/-!
# Addresses and their subnets

The socket addresses of both families as they are in memory, where ports and IPv4 addresses are in
network order.  The host is little-endian.  None is undefined behaviour: a shift by the width of
`int` or more, or an index outside `s6_addr`.
-/

namespace Lyslg.Address

open Support.Bits Support.Machine

def afUnspec : Nat := 0

def afInet : Nat := 2

def afInet6 : Nat := 10

/-- What the compiler makes of a difference that is not an `int`. -/
inductive SignedOverflow where
  | wraps
  | undefined
  deriving DecidableEq, Repr

/-- `1 << n` -/
def shiftOne (n : Nat) : Option Int := if n < 32 then some (int32 (2 ^ n)) else none

/-- `v - 1` -/
def predecessor (mode : SignedOverflow) (v : Int) : Option Int :=
  if -2 ^ 31 < v then some (v - 1)
  else if mode = .wraps then some (int32 (v - 1))
  else none

/-- `CreateMask<T>(bits)` for the type `T` of `w` bits. -/
def createMask (mode : SignedOverflow) (w bits : Nat) : Option (BitVec w) := do
  let v ← predecessor mode (← shiftOne (subSize w bits))
  return BitVec.ofInt w v

/-! ## IPv4 -/

structure SockaddrIn where
  sinFamily : Nat
  sinPort : BitVec 16
  sinAddr : BitVec 32
  deriving DecidableEq, Repr

namespace IPv4Address

/-- `IPv4Address(address, port)` -/
def ofHost (address : BitVec 32) (port : BitVec 16) : SockaddrIn where
  sinFamily := afInet
  sinPort := byteswap16 port
  sinAddr := byteswap32 address

/-- The result is none for undefined behaviour, and `some none` for `nullptr`. -/
def broadcastAddress (mode : SignedOverflow) (m_addr : SockaddrIn) (prefixLen : Nat) :
    Option (Option SockaddrIn) :=
  if 32 < prefixLen then some none
  else do
    let mask ← createMask mode 32 prefixLen
    return some { m_addr with sinAddr := m_addr.sinAddr ||| byteswap32 mask }

def networdAddress (mode : SignedOverflow) (m_addr : SockaddrIn) (prefixLen : Nat) :
    Option (Option SockaddrIn) :=
  if 32 < prefixLen then some none
  else do
    let mask ← createMask mode 32 prefixLen
    return some { m_addr with sinAddr := m_addr.sinAddr &&& ~~~ byteswap32 mask }

def subnetMask (mode : SignedOverflow) (prefixLen : Nat) : Option SockaddrIn := do
  let mask ← createMask mode 32 prefixLen
  return { sinFamily := afInet, sinPort := 0, sinAddr := ~~~ byteswap32 mask }

end IPv4Address

/-! ## IPv6 -/

structure SockaddrIn6 where
  sin6Family : Nat
  sin6Port : BitVec 16
  sin6Flowinfo : BitVec 32
  s6Addr : Vector (BitVec 8) 16
  sin6ScopeId : BitVec 32
  deriving DecidableEq

namespace IPv6Address

/-- `s6_addr[i] = f(s6_addr[i])` -/
def modify (s6Addr : Vector (BitVec 8) 16) (i : Nat) (f : BitVec 8 → BitVec 8) :
    Option (Vector (BitVec 8) 16) :=
  if h : i < 16 then some (s6Addr.set i (f (s6Addr.get ⟨i, h⟩)) h) else none

/-- `for(uint32_t i = from; i < to; i++) s6_addr[i] = value`, where `n` iterations are left. -/
def fill (value : BitVec 8) : Nat → Nat → Vector (BitVec 8) 16 → Option (Vector (BitVec 8) 16)
  | 0, _, s6Addr => some s6Addr
  | n + 1, i, s6Addr => do fill value n (i + 1) (← modify s6Addr i fun _ => value)

/-- The address of zeros that `IPv6Address()` has. -/
def zero : SockaddrIn6 where
  sin6Family := afInet6
  sin6Port := 0
  sin6Flowinfo := 0
  s6Addr := Vector.replicate 16 0
  sin6ScopeId := 0

def broadcastAddress (mode : SignedOverflow) (m_addr : SockaddrIn6) (prefixLen : Nat) :
    Option SockaddrIn6 := do
  let mask ← createMask mode 8 (prefixLen % 8)
  let s6Addr ← modify m_addr.s6Addr (prefixLen / 8) fun b => b ||| mask
  let s6Addr ← fill 0xff (16 - (prefixLen / 8 + 1)) (prefixLen / 8 + 1) s6Addr
  return { m_addr with s6Addr := s6Addr }

def networdAddress (mode : SignedOverflow) (m_addr : SockaddrIn6) (prefixLen : Nat) :
    Option SockaddrIn6 := do
  let mask ← createMask mode 8 (prefixLen % 8)
  let s6Addr ← modify m_addr.s6Addr (prefixLen / 8) fun b => b &&& ~~~ mask
  let s6Addr ← fill 0x00 (16 - (prefixLen / 8 + 1)) (prefixLen / 8 + 1) s6Addr
  return { m_addr with s6Addr := s6Addr }

def subnetMask (mode : SignedOverflow) (prefixLen : Nat) : Option SockaddrIn6 := do
  let mask ← createMask mode 8 (prefixLen % 8)
  let s6Addr ← modify zero.s6Addr (prefixLen / 8) fun _ => ~~~ mask
  let s6Addr ← fill 0xff (prefixLen / 8) 0 s6Addr
  return { zero with s6Addr := s6Addr }

end IPv6Address

end Lyslg.Address
