import Lyslg.ByteArray.Model
import Mathlib.Order.Bounds.Basic
/-!
# What `ByteArray` is for

The documentation in `bytearray.h` describes one flat buffer with a cursor.
`FlatStore` is that buffer and `FlatStore.Step` says what each public call may
do to it, without blocks or pointers.
-/

namespace Lyslg

open Support.Memory

/-- A memory of `mem.length` bytes, of which the first `size` count as
written, with a cursor. -/
@[ext] structure FlatStore where
  mem : List UInt8
  pos : Nat
  size : Nat
  deriving DecidableEq, Repr

namespace ByteArray

/-- The calls a client makes.  A write carries the contents of the blocks it
may allocate; a read asks for at least one byte. -/
inductive Op where
  | write (garbage : Garbage) (buf : List UInt8)
  | read (n : Nat) (pos : 1 ≤ n)
  | setPosition (v : Nat)
  | clear
  | toString

/-- What a client sees of a call. -/
inductive Outcome where
  | done
  | bytes (bs : List UInt8)
  | fault (f : Fault)
  deriving DecidableEq, Repr

/-- Perform a call and report what the client sees. -/
def exec (ba : ByteArray) : Op → Outcome × ByteArray
  | .write garbage buf => report (fun _ => .done) (write garbage buf ba)
  | .read n _ => report .bytes (read n ba)
  | .setPosition v => report (fun _ => .done) (setPosition v ba)
  | .clear => report (fun _ => .done) (clear ba)
  | .toString => report .bytes (toString ba)
where
  report {α : Type} (ok : α → Outcome) :
      EStateM.Result Fault ByteArray α → Outcome × ByteArray
    | .ok a ba => (ok a, ba)
    | .error e ba => (.fault e, ba)

/-- A sequence of calls, each labelled with what the client saw. -/
def runOps (ba : ByteArray) : List Op → List (Op × Outcome) × ByteArray
  | [] => ([], ba)
  | op :: ops =>
      let (out, next) := exec ba op
      let (rest, last) := runOps next ops
      ((op, out) :: rest, last)

end ByteArray

open Lyslg.ByteArray

/-- The capacities a store with `old` bytes may grow to when `need` bytes must
fit: the multiples of the block size. -/
def FlatStore.capacities (base old need : Nat) : Set Nat :=
  { c | base ∣ c ∧ old ≤ c ∧ need ≤ c }

/-- One call on the flat store with growth step `base`. -/
def FlatStore.Step (base : Nat) (f : FlatStore) : Op × Outcome → FlatStore → Prop
  | (.write _ buf, out), f' =>
      out = .done ∧
      f'.pos = f.pos + buf.length ∧
      f'.size = max f.size (f.pos + buf.length) ∧
      IsLeast (capacities base f.mem.length (f.pos + buf.length)) f'.mem.length ∧
      slice f'.mem f.pos buf.length = buf ∧
      ∀ i < f.mem.length, i < f.pos ∨ f.pos + buf.length ≤ i → f'.mem[i]? = f.mem[i]?
  | (.read n _, out), f' =>
      (f.size - f.pos < n →
        out = .fault (.outOfRange "not enough len") ∧ f' = f) ∧
      (n ≤ f.size - f.pos →
        out = .bytes (slice f.mem f.pos n) ∧ f' = { f with pos := f.pos + n })
  | (.setPosition v, out), f' =>
      (f.mem.length < v →
        out = .fault (.outOfRange "set_position out of range") ∧ f' = f) ∧
      (v ≤ f.mem.length →
        out = .done ∧ f' = { f with pos := v, size := max f.size v })
  | (.clear, out), f' =>
      out = .done ∧ f' = { mem := f.mem.take base, pos := 0, size := 0 }
  | (.toString, out), f' =>
      out = .bytes (slice f.mem f.pos (f.size - f.pos)) ∧ f' = f

end Lyslg
