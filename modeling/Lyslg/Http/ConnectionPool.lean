import Lyslg.Support.Entries
import Lyslg.Timer.Model
import Mathlib.Logic.Function.Basic
/-!
# `HttpConnectionPool`

`getConnection` and `ReleasePtr`, each cut into the parts between which other threads run:
the section under `m_mutex`, every `delete` and every change of the counter is a part of its
own.  A connection is named by a serial number, so a new one is never taken for one that was
deleted.

The clock is the one that `gettimeofday` reads, and the pool sees what `GetCurrentMS` makes of
it.  `m_createTime` is declared with 0 and nothing sets it; `born` notes when a connection was
really created.
-/

namespace Lyslg.Http

open Support Support.Machine

/-- What the pool reads of an `HttpConnection`. -/
structure HttpConnection where
  createTime : Nat := 0
  request : Nat := 0
  /-- `isConnected()` -/
  connected : Bool := true
  deriving DecidableEq, Repr

/-- The limits of an `HttpConnectionPool`. -/
structure HttpConnectionPool where
  maxSize : UInt32
  maxAliveTime : UInt32
  maxRequest : UInt32

namespace HttpConnectionPool

/-- `getConnection` throws the connection away, at `now_ms`. -/
def isInvalid (pool : HttpConnectionPool) (nowMs : Nat) (conn : HttpConnection) : Bool :=
  !conn.connected || nowMs < addSize conn.createTime pool.maxAliveTime.toNat

/-- `ReleasePtr` throws the connection away, once it has counted the request and when
`GetCurrentMS` returns `nowMs`. -/
def isWornOut (pool : HttpConnectionPool) (nowMs : Nat) (conn : HttpConnection) : Bool :=
  !conn.connected || nowMs ≤ addSize conn.createTime pool.maxAliveTime.toNat
    || pool.maxRequest.toNat ≤ conn.request

/-- The loop of `getConnection`: `invalid_conns`, `ptr`, and what stays in `m_conns`. -/
def popConns (invalid : Nat → Bool) : List Nat → List Nat × Option Nat × List Nat
  | [] => ([], none, [])
  | conn :: conns =>
      if invalid conn then
        let (invalids, ptr, rest) := popConns invalid conns
        (conn :: invalids, ptr, rest)
      else ([], some conn, conns)

/-- A call under way, by what it does next. -/
inductive Op where
  /-- `getConnection` has read the clock, at `now`, and locks -/
  | lock (now : Nat)
  /-- it deletes `invalid_conns`, of which it has deleted some, and then lowers `m_total` -/
  | delete (invalid : List Nat) (deleted : Nat) (ptr : Option Nat)
  /-- it looks up the address, creates a socket and connects it -/
  | connect
  /-- it raises `m_total` -/
  | count (ptr : Nat)
  /-- it returns the shared pointer -/
  | handOut (ptr : Nat)
  /-- `ReleasePtr` is called -/
  | release (ptr : Nat)
  /-- it lowers `m_total` -/
  | uncount
  /-- it locks and puts the connection back -/
  | keep (ptr : Nat)
  deriving DecidableEq, Repr

/-- The connections that a call has a pointer to. -/
def Op.ptrs : Op → List Nat
  | .delete invalid _ ptr => invalid ++ ptr.toList
  | .count ptr | .handOut ptr | .release ptr | .keep ptr => [ptr]
  | .lock _ | .connect | .uncount => []

structure State where
  /-- `m_conns` -/
  conns : List Nat := []
  /-- `m_total` -/
  total : Int := 0
  /-- the connections that exist -/
  live : List Nat := []
  attr : Nat → HttpConnection := fun _ => {}
  born : Nat → Nat := fun _ => 0
  next : Nat := 0
  /-- the shared pointers that were handed out, one for each holder -/
  held : List Nat := []
  ops : List Op := []
  clock : Nat := 0
  /-- a connection was used or deleted that does not exist any more -/
  fault : Bool := false

namespace State

/-- Dereference some connections. -/
def touch (s : State) (conns : List Nat) : State :=
  { s with fault := s.fault || conns.any fun conn => conn ∉ s.live }

/-- `delete conn` -/
def delete (s : State) (conn : Nat) : State :=
  { s.touch [conn] with live := s.live.erase conn }

/-- `new HttpConnection(sock)` -/
def create (s : State) : State :=
  { s with
    live := s.next :: s.live
    attr := Function.update s.attr s.next {}
    born := Function.update s.born s.next s.clock
    next := s.next + 1 }

/-- `++ptr->m_request` -/
def countRequest (s : State) (conn : Nat) : State :=
  { s.touch [conn] with
    attr := Function.update s.attr conn
      { s.attr conn with request := addSize (s.attr conn).request 1 } }

end State

/-- The next part of a call, and what is left of the call.  `opens` is whether the address is
found and a socket for it is created and connected. -/
def part (pool : HttpConnectionPool) (s : State) (opens : Bool) : Op → State × Option Op
  | .lock now =>
      let nowMs := getCurrentMS now
      let (invalid, ptr, rest) := popConns (fun conn => pool.isInvalid nowMs (s.attr conn)) s.conns
      ({ s.touch (invalid ++ ptr.toList) with conns := rest }, some (.delete invalid 0 ptr))
  | .delete (conn :: invalid) deleted ptr =>
      (s.delete conn, some (.delete invalid (deleted + 1) ptr))
  | .delete [] deleted ptr =>
      ({ s with total := int32 (s.total - deleted) },
        some (match ptr with
          | some ptr => .handOut ptr
          | none => .connect))
  | .connect => if opens then (s.create, some (.count s.next)) else (s, none)
  | .count ptr => ({ s with total := int32 (s.total + 1) }, some (.handOut ptr))
  | .handOut ptr => ({ s with held := ptr :: s.held }, none)
  | .release ptr =>
      let s := s.countRequest ptr
      if pool.isWornOut (getCurrentMS s.clock) (s.attr ptr) then (s.delete ptr, some .uncount)
      else (s, some (.keep ptr))
  | .uncount => ({ s with total := int32 (s.total - 1) }, none)
  | .keep ptr => ({ s with conns := s.conns ++ [ptr] }, none)

inductive Event where
  /-- `gettimeofday` says `now` milliseconds from here on -/
  | tick (now : Nat)
  /-- the peer or the holder closes a connection -/
  | disconnect (conn : Nat)
  /-- a call of `getConnection` begins and reads the clock -/
  | getConnection
  /-- the last copy of the shared pointer to a connection goes -/
  | release (conn : Nat)
  /-- the call at place `op` goes on -/
  | part (op : Nat) (opens : Bool)
  deriving DecidableEq, Repr

/-- One step of the pool and its users. -/
def step (pool : HttpConnectionPool) (s : State) : Event → Option State
  | .tick now => if s.clock ≤ now ∧ now < 2 ^ 64 then some { s with clock := now } else none
  | .disconnect conn =>
      some { s with
        attr := Function.update s.attr conn { s.attr conn with connected := false } }
  | .getConnection => some { s with ops := s.ops ++ [.lock s.clock] }
  | .release conn =>
      if conn ∈ s.held then
        some { s with held := s.held.erase conn, ops := s.ops ++ [.release conn] }
      else none
  | .part k opens => do
      let op ← s.ops[k]?
      let (t, op) := pool.part s opens op
      return { t with ops := replaceAt s.ops k op }

/-- `step` as a relation. -/
abbrev Step (pool : HttpConnectionPool) (s : State) (e : Event) (t : State) : Prop :=
  pool.step s e = some t

end HttpConnectionPool

end Lyslg.Http
