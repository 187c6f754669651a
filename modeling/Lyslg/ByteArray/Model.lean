import Lyslg.Support.Memory
/-!
# The block list behind `ByteArray`

`bytearray.h` keeps its bytes in a chain of blocks of `m_baseSize` bytes each.
The chain that starts at `m_root` is a list of blocks here, and `m_cur` is the
index of a block in it, or `none` for the null pointer.  Every dereference and
every `memcpy` is checked, so a run that would touch a null block or leave a
block ends in a fault of its own kind.

Sizes are unbounded naturals.  `ceil(1.0 * size / m_baseSize)` in `addCapacity`
is exact below `2^53` bytes, more than any allocation, and is modelled by the
exact ceiling.
-/

namespace Lyslg

open Support.Memory

/-- The memory `new char[size]` returns, one block of it. -/
abbrev Block := List UInt8

/-- What stops a call: the exception the source throws, or undefined behaviour. -/
inductive Fault where
  | outOfRange (what : String)
  | nullBlock
  | outOfBounds
  deriving DecidableEq, Repr

/-- `LYSLG_LITTLE_ENDIAN` and `LYSLG_BIG_ENDIAN` of `my_endian.h`. -/
inductive Endian where
  | little
  | big
  deriving DecidableEq, Repr

/-- The fields of `class ByteArray`. -/
structure ByteArray where
  baseSize : Nat
  position : Nat
  capacity : Nat
  size : Nat
  endian : Endian
  /-- the blocks reachable from `m_root` through `next`, in order -/
  root : List Block
  /-- the block `m_cur` points to, by its index in the chain -/
  cur : Option Nat
  deriving DecidableEq, Repr

/-- A member function: it may throw, and then leaves the fields as they were
at the throw. -/
abbrev ByteArray.Call := EStateM Fault ByteArray

namespace ByteArray

/-- Contents of freshly allocated blocks, which the source does not
initialise: byte `i` of the `k`-th block a call allocates. -/
abbrev Garbage := Nat → Nat → UInt8

/-- `Node::Node(size_t s)`. -/
def newNode (garbage : Nat → UInt8) (s : Nat) : Block :=
  (List.range s).map garbage

/-- `ByteArray::ByteArray`. -/
def new (garbage : Garbage) (baseSize : Nat) : ByteArray where
  baseSize := baseSize
  position := 0
  capacity := baseSize
  size := 0
  endian := .big
  root := [newNode (garbage 0) baseSize]
  cur := some 0

def getReadSize (ba : ByteArray) : Nat := ba.size - ba.position

def getCapacity (ba : ByteArray) : Nat := ba.capacity - ba.position

def setIsLittleEndian (val : Bool) : Call Unit :=
  modify fun ba => { ba with endian := if val then .little else .big }

/-- The block `moved` links after block `i`; past the last block it is null. -/
def follow (root : List Block) (i moved : Nat) : Option Nat :=
  if i + moved < root.length then some (i + moved) else none

/-- `memcpy` into a block. -/
def store (node : Block) (npos : Nat) (buf : List UInt8) : Except Fault Block :=
  if npos + buf.length ≤ node.length then .ok (splice node npos buf)
  else .error .outOfBounds

/-- `memcpy` out of a block. -/
def load (node : Block) (npos size : Nat) : Except Fault (List UInt8) :=
  if npos + size ≤ node.length then .ok (slice node npos size)
  else .error .outOfBounds

/-! ## Growing -/

/-- The allocation loop of `addCapacity`: `count` blocks appended one by one. -/
def appendNodes (garbage : Garbage) : Nat → ByteArray → ByteArray
  | 0, ba => ba
  | count + 1, ba =>
      let ba := appendNodes garbage count ba
      { ba with
        root := ba.root ++ [newNode (garbage count) ba.baseSize]
        capacity := ba.capacity + ba.baseSize }

/-- `ByteArray::addCapacity`. -/
def addCapacity (garbage : Garbage) (size : Nat) (ba : ByteArray) : ByteArray :=
  if size = 0 then ba
  else
    let oldCap := ba.getCapacity
    if size ≤ oldCap then ba
    else
      let count := (size - oldCap + ba.baseSize - 1) / ba.baseSize
      let first := follow (appendNodes garbage count ba).root ba.root.length 0
      let grown := appendNodes garbage count ba
      if oldCap = 0 then { grown with cur := first } else grown

/-! ## Reading and writing at the cursor -/

/-- The loop of `write`, from the block `m_cur` points to on.  It returns the
blocks it leaves behind and how many times it followed `next`. -/
def writeLoop : List Block → Nat → List UInt8 → Except Fault (List Block × Nat)
  | blocks, _, [] => .ok (blocks, 0)
  | [], _, _ :: _ => .error .nullBlock
  | node :: next, npos, b :: bs =>
      let buf := b :: bs
      let ncap := node.length - npos
      if buf.length ≤ ncap then do
        let node' ← store node npos buf
        return (node' :: next, if node.length = npos + buf.length then 1 else 0)
      else do
        let node' ← store node npos (buf.take ncap)
        let (next', moved) ← writeLoop next 0 (buf.drop ncap)
        return (node' :: next', moved + 1)

/-- The loop of both `read` overloads, from block `cur` on.  It returns the
bytes copied out and how many times it followed `next`. -/
def readLoop : List Block → Nat → Nat → Except Fault (List UInt8 × Nat)
  | _, _, 0 => .ok ([], 0)
  | [], _, _ + 1 => .error .nullBlock
  | node :: next, npos, n + 1 =>
      let size := n + 1
      let ncap := node.length - npos
      if size ≤ ncap then do
        let bytes ← load node npos size
        return (bytes, if node.length = npos + size then 1 else 0)
      else do
        let bytes ← load node npos ncap
        let (rest, moved) ← readLoop next 0 (size - ncap)
        return (bytes ++ rest, moved + 1)

/-- Run a loop that may fault inside a member function. -/
def guarded {α : Type} (x : Except Fault α) : Call α := fun ba =>
  match x with
  | .ok a => .ok a ba
  | .error e => .error e ba

/-- Dereference `m_cur`. -/
def derefCur : Call Nat := fun ba =>
  match ba.cur with
  | some i => .ok i ba
  | none => .error .nullBlock ba

/-- `ByteArray::write(const void* buf, size_t size)`, with `size` the length of
`buf`. -/
def write (garbage : Garbage) (buf : List UInt8) : Call Unit := do
  if buf.length = 0 then
    return
  modify (addCapacity garbage buf.length)
  let i ← derefCur
  let ba ← get
  let npos := ba.position % ba.baseSize
  let (blocks, moved) ← guarded (writeLoop (ba.root.drop i) npos buf)
  modify fun ba =>
    { ba with
      root := ba.root.take i ++ blocks
      cur := follow ba.root i moved
      position := ba.position + buf.length }
  modify fun ba =>
    if ba.size < ba.position then { ba with size := ba.position } else ba

/-- `ByteArray::read(void* buf, size_t size)`. -/
def read (size : Nat) : Call (List UInt8) := do
  let ba ← get
  if ba.getReadSize < size then
    throw (.outOfRange "not enough len")
  let i ← derefCur
  let npos := ba.position % ba.baseSize
  let (bytes, moved) ← guarded (readLoop (ba.root.drop i) npos size)
  modify fun ba =>
    { ba with
      cur := follow ba.root i moved
      position := ba.position + size }
  return bytes

/-- `ByteArray::read(void* buf, size_t size, size_t position) const`. -/
def readAt (size position : Nat) : Call (List UInt8) := do
  let ba ← get
  if ba.getReadSize < size then
    throw (.outOfRange "not enough len")
  let i ← derefCur
  let npos := position % ba.baseSize
  let (bytes, _) ← guarded (readLoop (ba.root.drop i) npos size)
  return bytes

/-! ## Moving the cursor -/

/-- The block walk of `setPosition`; it returns how many times it followed
`next`. -/
def seekLoop : List Block → Nat → Except Fault Nat
  | [], _ => .error .nullBlock
  | node :: next, v =>
      if node.length < v then do
        let moved ← seekLoop next (v - node.length)
        return moved + 1
      else
        return if v = node.length then 1 else 0

/-- `ByteArray::setPosition`. -/
def setPosition (v : Nat) : Call Unit := do
  let ba ← get
  if ba.capacity < v then
    throw (.outOfRange "set_position out of range")
  modify fun ba => { ba with position := v }
  modify fun ba =>
    if ba.size < ba.position then { ba with size := ba.position } else ba
  let moved ← guarded (seekLoop ba.root v)
  modify fun ba => { ba with cur := follow ba.root 0 moved }

/-- `ByteArray::clear`. -/
def clear : Call Unit :=
  modify fun ba =>
    { ba with
      position := 0
      size := 0
      capacity := ba.baseSize
      cur := some 0
      root := ba.root.take 1 }

/-- `ByteArray::toString`. -/
def toString : Call (List UInt8) := do
  let ba ← get
  if ba.getReadSize = 0 then
    return []
  readAt ba.getReadSize ba.position

end ByteArray

end Lyslg
