import Lyslg.ByteArray.Model
import Lyslg.Support.Words
/-!
# The typed accessors of `ByteArray`

`writeF*`/`readF*` move fixed-width words in the byte order of the array,
`writeInt32` and its relatives move varints, and the string accessors put a
length in front.  A floating-point value is its bit pattern, as `memcpy` takes
it.  The host is little-endian, the byte order `my_endian.h` selects there.
-/

namespace Lyslg.ByteArray

open Support.Words

/-- `LYSLG_BYTE_ORDER`. -/
def byteOrder : Endian := .little

/-! ## Fixed width -/

/-- The body the `writeF*` functions share: swap when the array's byte order
is not the host's, then copy the `n` bytes of the value. -/
def writeFixed (garbage : Garbage) (n value : Nat) : Call Unit := do
  let ba ← get
  let value := if ba.endian ≠ byteOrder then byteswap n value else value
  write garbage (leBytes n value)

/-- The macro `XX` behind the `readF*` functions. -/
def readFixed (n : Nat) : Call Nat := do
  let v ← read n
  let ba ← get
  return if ba.endian = byteOrder then leValue v else byteswap n (leValue v)

def writeFint8 (garbage : Garbage) (value : Int8) : Call Unit :=
  write garbage (leBytes 1 value.toBitVec.toNat)

def writeFuint8 (garbage : Garbage) (value : UInt8) : Call Unit :=
  write garbage (leBytes 1 value.toNat)

def writeFint16 (garbage : Garbage) (value : Int16) : Call Unit :=
  writeFixed garbage 2 value.toBitVec.toNat

def writeFuint16 (garbage : Garbage) (value : UInt16) : Call Unit :=
  writeFixed garbage 2 value.toNat

def writeFint32 (garbage : Garbage) (value : Int32) : Call Unit :=
  writeFixed garbage 4 value.toBitVec.toNat

def writeFuint32 (garbage : Garbage) (value : UInt32) : Call Unit :=
  writeFixed garbage 4 value.toNat

def writeFint64 (garbage : Garbage) (value : Int64) : Call Unit :=
  writeFixed garbage 8 value.toBitVec.toNat

def writeFuint64 (garbage : Garbage) (value : UInt64) : Call Unit :=
  writeFixed garbage 8 value.toNat

def readFint8 : Call Int8 := do
  let v ← read 1
  return .ofBitVec (.ofNat 8 (leValue v))

def readFuint8 : Call UInt8 := do
  let v ← read 1
  return .ofNat (leValue v)

def readFint16 : Call Int16 := do
  return .ofBitVec (.ofNat 16 (← readFixed 2))

def readFuint16 : Call UInt16 := do
  return .ofNat (← readFixed 2)

def readFint32 : Call Int32 := do
  return .ofBitVec (.ofNat 32 (← readFixed 4))

def readFuint32 : Call UInt32 := do
  return .ofNat (← readFixed 4)

def readFint64 : Call Int64 := do
  return .ofBitVec (.ofNat 64 (← readFixed 8))

def readFuint64 : Call UInt64 := do
  return .ofNat (← readFixed 8)

/-! ## Varints -/

/-- `EncodeZigzag32`. -/
def encodeZigzag32 (v : Int32) : UInt32 := .ofBitVec (encodeZigzag v.toBitVec)

/-- `EncodeZigzag64`. -/
def encodeZigzag64 (v : Int64) : UInt64 := .ofBitVec (encodeZigzag v.toBitVec)

/-- `DecodeZigzag32`. -/
def decodeZigzag32 (v : UInt32) : Int32 := .ofBitVec (decodeZigzag v.toBitVec)

/-- `DecodeZigzag64`. -/
def decodeZigzag64 (v : UInt64) : Int64 := .ofBitVec (decodeZigzag v.toBitVec)

/-- The groups are gathered in `tmp` and written at once. -/
def writeUint32 (garbage : Garbage) (value : UInt32) : Call Unit :=
  write garbage (varint value.toNat)

def writeUint64 (garbage : Garbage) (value : UInt64) : Call Unit :=
  write garbage (varint value.toNat)

def writeInt32 (garbage : Garbage) (value : Int32) : Call Unit :=
  writeUint32 garbage (encodeZigzag32 value)

def writeInt64 (garbage : Garbage) (value : Int64) : Call Unit :=
  writeUint64 garbage (encodeZigzag64 value)

/-- The loop of `readUint32` and `readUint64` over the shifts `i`; it stops
after the first byte without its top bit. -/
def readVarintLoop (width : Nat) : List Nat → Nat → Call Nat
  | [], result => return result
  | i :: is, result => do
      let b ← readFuint8
      if b < 0x80 then
        return result ||| ((b.toNat <<< i) % 2 ^ width)
      else
        readVarintLoop width is (result ||| (((b.toNat &&& 0x7f) <<< i) % 2 ^ width))

def readUint32 : Call UInt32 := do
  return .ofNat (← readVarintLoop 32 (varintShifts 32) 0)

def readUint64 : Call UInt64 := do
  return .ofNat (← readVarintLoop 64 (varintShifts 64) 0)

def readInt32 : Call Int32 := do
  return decodeZigzag32 (← readUint32)

def readInt64 : Call Int64 := do
  return decodeZigzag64 (← readUint64)

/-! ## Floating point, by bit pattern -/

def writeFloat (garbage : Garbage) (bits : UInt32) : Call Unit :=
  writeFuint32 garbage bits

def writeDouble (garbage : Garbage) (bits : UInt64) : Call Unit :=
  writeFuint64 garbage bits

def readFloat : Call UInt32 := readFuint32

def readDouble : Call UInt64 := readFuint64

/-! ## Strings -/

def writeStringF16 (garbage garbage' : Garbage) (value : List UInt8) : Call Unit := do
  writeFuint16 garbage (.ofNat value.length)
  write garbage' value

def writeStringF32 (garbage garbage' : Garbage) (value : List UInt8) : Call Unit := do
  writeFuint32 garbage (.ofNat value.length)
  write garbage' value

def writeStringF64 (garbage garbage' : Garbage) (value : List UInt8) : Call Unit := do
  writeFuint64 garbage (.ofNat value.length)
  write garbage' value

/-- The length goes out with `writeFuint64` here, although the reader below
expects a varint. -/
def writeStringVint (garbage garbage' : Garbage) (value : List UInt8) : Call Unit := do
  writeFuint64 garbage (.ofNat value.length)
  write garbage' value

def readStringF16 : Call (List UInt8) := do
  let len ← readFuint16
  read len.toNat

def readStringF32 : Call (List UInt8) := do
  let len ← readFuint32
  read len.toNat

def readStringF64 : Call (List UInt8) := do
  let len ← readFuint64
  read len.toNat

def readStringVint : Call (List UInt8) := do
  let len ← readUint64
  read len.toNat

/-! ## Items of a heterogeneous sequence -/

/-- A typed value together with the accessor pair it travels through. -/
inductive Item where
  | fint8 (v : Int8) | fuint8 (v : UInt8)
  | fint16 (v : Int16) | fuint16 (v : UInt16)
  | fint32 (v : Int32) | fuint32 (v : UInt32)
  | fint64 (v : Int64) | fuint64 (v : UInt64)
  | int32 (v : Int32) | uint32 (v : UInt32)
  | int64 (v : Int64) | uint64 (v : UInt64)
  | float (bits : UInt32) | double (bits : UInt64)
  | stringF16 (s : List UInt8) | stringF32 (s : List UInt8) | stringF64 (s : List UInt8)
  deriving DecidableEq, Repr

/-- The accessor pair alone. -/
inductive Kind where
  | fint8 | fuint8 | fint16 | fuint16 | fint32 | fuint32 | fint64 | fuint64
  | int32 | uint32 | int64 | uint64 | float | double
  | stringF16 | stringF32 | stringF64
  deriving DecidableEq, Repr

def Item.kind : Item → Kind
  | .fint8 _ => .fint8 | .fuint8 _ => .fuint8
  | .fint16 _ => .fint16 | .fuint16 _ => .fuint16
  | .fint32 _ => .fint32 | .fuint32 _ => .fuint32
  | .fint64 _ => .fint64 | .fuint64 _ => .fuint64
  | .int32 _ => .int32 | .uint32 _ => .uint32
  | .int64 _ => .int64 | .uint64 _ => .uint64
  | .float _ => .float | .double _ => .double
  | .stringF16 _ => .stringF16 | .stringF32 _ => .stringF32 | .stringF64 _ => .stringF64

/-- A string is non-empty and its length fits the prefix. -/
def Item.Admissible : Item → Prop
  | .stringF16 s => s ≠ [] ∧ s.length < 2 ^ 16
  | .stringF32 s => s ≠ [] ∧ s.length < 2 ^ 32
  | .stringF64 s => s ≠ [] ∧ s.length < 2 ^ 64
  | _ => True

def writeItem (garbage garbage' : Garbage) : Item → Call Unit
  | .fint8 v => writeFint8 garbage v
  | .fuint8 v => writeFuint8 garbage v
  | .fint16 v => writeFint16 garbage v
  | .fuint16 v => writeFuint16 garbage v
  | .fint32 v => writeFint32 garbage v
  | .fuint32 v => writeFuint32 garbage v
  | .fint64 v => writeFint64 garbage v
  | .fuint64 v => writeFuint64 garbage v
  | .int32 v => writeInt32 garbage v
  | .uint32 v => writeUint32 garbage v
  | .int64 v => writeInt64 garbage v
  | .uint64 v => writeUint64 garbage v
  | .float bits => writeFloat garbage bits
  | .double bits => writeDouble garbage bits
  | .stringF16 s => writeStringF16 garbage garbage' s
  | .stringF32 s => writeStringF32 garbage garbage' s
  | .stringF64 s => writeStringF64 garbage garbage' s

def readItem : Kind → Call Item
  | .fint8 => return .fint8 (← readFint8)
  | .fuint8 => return .fuint8 (← readFuint8)
  | .fint16 => return .fint16 (← readFint16)
  | .fuint16 => return .fuint16 (← readFuint16)
  | .fint32 => return .fint32 (← readFint32)
  | .fuint32 => return .fuint32 (← readFuint32)
  | .fint64 => return .fint64 (← readFint64)
  | .fuint64 => return .fuint64 (← readFuint64)
  | .int32 => return .int32 (← readInt32)
  | .uint32 => return .uint32 (← readUint32)
  | .int64 => return .int64 (← readInt64)
  | .uint64 => return .uint64 (← readUint64)
  | .float => return .float (← readFloat)
  | .double => return .double (← readDouble)
  | .stringF16 => return .stringF16 (← readStringF16)
  | .stringF32 => return .stringF32 (← readStringF32)
  | .stringF64 => return .stringF64 (← readStringF64)

/-- One write of a sequence: the byte order chosen for it, the value, and the
contents of the blocks its one or two writes may allocate. -/
structure Entry where
  little : Bool
  item : Item
  garbage : Garbage
  garbage' : Garbage

def writeAll : List Entry → Call Unit
  | [] => return
  | e :: es => do
      setIsLittleEndian e.little
      writeItem e.garbage e.garbage' e.item
      writeAll es

/-- Read back one item per byte order and accessor, in order. -/
def readAll : List (Bool × Kind) → Call (List Item)
  | [] => return []
  | (little, kind) :: rest => do
      setIsLittleEndian little
      let item ← readItem kind
      let items ← readAll rest
      return item :: items

end Lyslg.ByteArray
