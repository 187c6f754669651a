import Lyslg.Stream.Call
import Lyslg.Support.Words
/-!
# WebSocket frames

`WSRecvMessage`, `WSSendMessage`, `WSPing` and `WSPong` of `ws_session.cc`.  A
`break` out of the receive loop closes the stream and returns the null pointer.
The loop itself takes fuel: every frame costs at least one read event, so one
unit more than there are events is never used up.

`g_websocket_message_max_size` is the parameter `maxSize`.
-/

namespace Lyslg

open Support.Machine Support.Words Support.State

/-! ## Frame heads and messages -/

/-- `WSFrameHead::OPCODE`. -/
inductive Opcode where
  | continue
  | textFrame
  | binFrame
  | close
  | ping
  | pong
  deriving DecidableEq

def Opcode.value : Opcode → Nat
  | .continue => 0
  | .textFrame => 1
  | .binFrame => 2
  | .close => 8
  | .ping => 9
  | .pong => 10

/-- The bit fields of `struct WSFrameHead`, from the lowest bit up. -/
structure WSFrameHead where
  opcode : BitVec 4
  rsv3 : Bool := false
  rsv2 : Bool := false
  rsv1 : Bool := false
  fin : Bool
  payload : BitVec 7
  mask : Bool
  deriving DecidableEq

/-- `sizeof(WSFrameHead)`. -/
def WSFrameHead.sizeof : Nat := 2

/-- The two bytes of a packed head. -/
def WSFrameHead.toBytes (head : WSFrameHead) : List UInt8 :=
  [.ofNat (head.opcode.toNat + 16 * head.rsv3.toNat + 32 * head.rsv2.toNat
      + 64 * head.rsv1.toNat + 128 * head.fin.toNat),
    .ofNat (head.payload.toNat + 128 * head.mask.toNat)]

/-- A head as it lies in memory. -/
def WSFrameHead.ofBytes (bytes : List UInt8) : WSFrameHead :=
  let first := (bytes.getD 0 0).toNat
  let second := (bytes.getD 1 0).toNat
  { opcode := .ofNat 4 first
    rsv3 := first.testBit 4
    rsv2 := first.testBit 5
    rsv1 := first.testBit 6
    fin := first.testBit 7
    payload := .ofNat 7 second
    mask := second.testBit 7 }

structure WSFrameMessage where
  opcode : Int
  data : List UInt8
  deriving DecidableEq

/-! ## Sending -/

/-- The head that `WSPing` and `WSPong` send. -/
def WSFrameHead.control (opcode : Opcode) : WSFrameHead where
  opcode := .ofNat 4 opcode.value
  fin := true
  payload := 0
  mask := false

/-- The body `WSPing` and `WSPong` share. -/
def wsControl (opcode : Opcode) : StreamCall Int := do
  let v ← writeFix (WSFrameHead.control opcode).toBytes
  if v ≤ 0 then
    closeStream
  return v

def wsPing : StreamCall Int := wsControl .ping

def wsPong : StreamCall Int := wsControl .pong

/-- The `payload` field for a message of `size` bytes. -/
def payloadField (size : Nat) : Nat :=
  if size < 126 then size else if size < 65536 then 126 else 127

/-- `data[i] ^= mask[i % 4]` for every `i`. -/
def xorMask (mask data : List UInt8) : List UInt8 :=
  data.mapIdx fun i b => b ^^^ mask.getD (i % 4) 0

/-- The length behind the head, when `payload` says that there is one.  The host
is little-endian, so `byteswapOnLittleEndian` swaps. -/
def sendLength (head : WSFrameHead) (size : Nat) : StreamCall Bool := do
  if head.payload = 126 then
    let v ← writeFix (leBytes 2 (byteswap 2 (size % 2 ^ 16)))
    return 0 < v
  else if head.payload = 127 then
    let v ← writeFix (leBytes 8 (byteswap 8 size))
    return 0 < v
  else
    return true

/-- Mask the message in place and send the key, when this end is the client.
`rand` is what `rand()` returned. -/
def sendMask (client : Bool) (rand : BitVec 32) (msg : WSFrameMessage) :
    StreamCall (Bool × WSFrameMessage) := do
  if client then
    let mask := leBytes 4 rand.toNat
    let v ← writeFix mask
    return (0 < v, { msg with data := xorMask mask msg.data })
  else
    return (true, msg)

/-- What follows a `break` in `WSSendMessage`. -/
def sendFailed (msg : WSFrameMessage) : StreamCall (Int × WSFrameMessage) := do
  closeStream
  return (-1, msg)

/-- `WSSendMessage`: its result, and the message it leaves behind. -/
def wsSendMessage (msg : WSFrameMessage) (client fin : Bool) (rand : BitVec 32) :
    StreamCall (Int × WSFrameMessage) := do
  let size := msg.data.length
  let head : WSFrameHead :=
    { opcode := .ofInt 4 msg.opcode
      fin := fin
      payload := .ofNat 7 (payloadField size)
      mask := client }
  let v ← writeFix head.toBytes
  if v ≤ 0 then
    sendFailed msg
  else if !(← sendLength head size) then
    sendFailed msg
  else
    let (sent, msg) ← sendMask client rand msg
    if !sent then
      sendFailed msg
    else
      let v ← writeFix msg.data
      if v ≤ 0 then
        sendFailed msg
      else
        return (int32 (size + WSFrameHead.sizeof), msg)

/-! ## Receiving -/

/-- The variables of the receive loop. -/
structure RecvState where
  opcode : Int := 0
  data : List UInt8 := []
  /-- `int cur_len` -/
  curLen : Int := 0
  deriving DecidableEq

/-- How the part of an iteration before the payload ends. -/
inductive Header where
  | broken
  | skipped
  | payload (head : WSFrameHead) (length : Nat) (mask : List UInt8)
  deriving DecidableEq

/-- How an iteration ends. -/
inductive Frame where
  | broken
  | next (st : RecvState)
  | message (msg : WSFrameMessage)
  deriving DecidableEq

/-- `uint64_t length`. -/
def recvLength (head : WSFrameHead) : StreamCall (Option Nat) := do
  if head.payload = 126 then
    let (v, len) ← readFix [0, 0] 0 2
    return if v ≤ 0 then none else some (byteswap 2 (leValue len))
  else if head.payload = 127 then
    let (v, len) ← readFix [0, 0, 0, 0, 0, 0, 0, 0] 0 8
    return if v ≤ 0 then none else some (byteswap 8 (leValue len))
  else
    return some head.payload.toNat

/-- `char mask[4]`. -/
def recvMask (head : WSFrameHead) : StreamCall (Option (List UInt8)) := do
  if head.mask then
    let (v, mask) ← readFix [0, 0, 0, 0] 0 4
    return if v ≤ 0 then none else some mask
  else
    return some [0, 0, 0, 0]

/-- The branch for `CONTINUE`, `TEXT_FRAME` and `BIN_FRAME`, up to the payload.
`cur_len + length` is a sum of `uint64_t`s. -/
def recvDataHeader (maxSize : Nat) (client : Bool) (curLen : Int) (head : WSFrameHead) :
    StreamCall Header := do
  if !client && !head.mask then
    return .broken
  else
    match ← recvLength head with
    | none => return .broken
    | some length =>
        if maxSize ≤ addSize (sizeT curLen) length then
          return .broken
        else
          match ← recvMask head with
          | none => return .broken
          | some mask => return .payload head length mask

/-- An iteration up to the payload.  `ws_head` starts uninitialised; a positive
result has overwritten both of its bytes. -/
def recvHeader (maxSize : Nat) (client : Bool) (curLen : Int) : StreamCall Header := do
  let (v, bytes) ← readFix [0, 0] 0 WSFrameHead.sizeof
  if v ≤ 0 then
    return .broken
  else
    let head := WSFrameHead.ofBytes bytes
    let opcode := head.opcode.toNat
    if opcode = Opcode.ping.value then
      let v ← wsPong
      return if v ≤ 0 then .broken else .skipped
    else if opcode = Opcode.pong.value then
      return .skipped
    else if opcode = Opcode.continue.value ∨ opcode = Opcode.textFrame.value
        ∨ opcode = Opcode.binFrame.value then
      recvDataHeader maxSize client curLen head
    else
      return .skipped

/-- `std::string::resize`. -/
def resize (data : List UInt8) (n : Nat) : List UInt8 :=
  data.take n ++ List.replicate (n - data.length) 0

/-- `n` rounds of the unmasking loop, from `i` on.  Its index is an `int`. -/
def unmaskLoop (mask : List UInt8) (curLen : Int) : Nat → Nat → List UInt8 →
    Except Fault (List UInt8)
  | _, 0, data => .ok data
  | i, n + 1, data =>
      let index := sizeT (int32 (curLen + i))
      match data[index]? with
      | none => .error .outOfBounds
      | some b => unmaskLoop mask curLen (i + 1) n (data.set index (b ^^^ mask.getD (i % 4) 0))

/-- Unmask the payload, when the frame has a mask. -/
def unmask (head : WSFrameHead) (mask : List UInt8) (curLen : Int) (length : Nat)
    (data : List UInt8) : StreamCall (List UInt8) := fun s =>
  if head.mask then
    match unmaskLoop mask curLen 0 (int32 length).toNat data with
    | .ok data => .ok data s
    | .error f => .error (.fault f) s
  else .ok data s

/-- `data.resize(cur_len + length)` and the read of the payload. -/
def recvData (st : RecvState) (length : Nat) : StreamCall (Int × List UInt8) :=
  readFix (resize st.data (addSize (sizeT st.curLen) length)) (sizeT st.curLen) length

/-- The rest of an iteration, once the size check has passed. -/
def recvPayload (st : RecvState) (head : WSFrameHead) (length : Nat) (mask : List UInt8) :
    StreamCall Frame := do
  let (v, data) ← recvData st length
  if v ≤ 0 then
    return .broken
  else
    let data ← unmask head mask st.curLen length data
    let curLen := int32 (addSize (sizeT st.curLen) length)
    let opcode : Int :=
      if st.opcode = 0 ∧ head.opcode.toNat ≠ Opcode.continue.value then head.opcode.toNat
      else st.opcode
    if head.fin then
      return .message ⟨opcode, data⟩
    else
      return .next ⟨opcode, data, curLen⟩

/-- One iteration of the receive loop. -/
def recvFrame (maxSize : Nat) (client : Bool) (st : RecvState) : StreamCall Frame := do
  match ← recvHeader maxSize client st.curLen with
  | .broken => return .broken
  | .skipped => return .next st
  | .payload head length mask => recvPayload st head length mask

def recvLoop (maxSize : Nat) (client : Bool) :
    Nat → RecvState → StreamCall (Option WSFrameMessage)
  | 0, _ => throw .blocked
  | fuel + 1, st => do
      match ← recvFrame maxSize client st with
      | .broken =>
          closeStream
          return none
      | .next st => recvLoop maxSize client fuel st
      | .message msg => return some msg

/-- `WSRecvMessage`. -/
def wsRecvMessage (maxSize : Nat) (client : Bool) : StreamCall (Option WSFrameMessage) := fun s =>
  recvLoop maxSize client (s.reads.length + 1) {} s

/-! ## Heads in memory -/

/-- Bit `i` of a byte put together from bit fields. -/
theorem testBit_field (b : Bool) (n : Nat) {i low high : Nat} (hlow : low < 2 ^ i)
    (hn : n = low + 2 ^ i * (b.toNat + 2 * high)) : n.testBit i = b := by
  have hdiv : n / 2 ^ i = b.toNat + 2 * high := by
    rw [hn, Nat.add_mul_div_left _ _ (Nat.two_pow_pos i), Nat.div_eq_of_lt hlow, Nat.zero_add]
  rw [Nat.testBit_eq_decide_div_mod_eq, hdiv, Nat.add_mul_mod_self_left]
  cases b <;> rfl

theorem WSFrameHead.ofBytes_toBytes (head : WSFrameHead) : ofBytes head.toBytes = head := by
  obtain ⟨opcode, rsv3, rsv2, rsv1, fin, payload, mask⟩ := head
  have hop : opcode.toNat < 16 := opcode.isLt
  have hpay : payload.toNat < 128 := payload.isLt
  have h3 := rsv3.toNat_le
  have h2 := rsv2.toNat_le
  have h1 := rsv1.toNat_le
  have hfin := fin.toNat_le
  have hmask := mask.toNat_le
  unfold ofBytes toBytes
  simp only [List.getD_cons_zero, List.getD_cons_succ, UInt8.toNat_ofNat']
  rw [Nat.mod_eq_of_lt (by omega), Nat.mod_eq_of_lt (by omega)]
  congr 1
  · apply BitVec.eq_of_toNat_eq
    rw [BitVec.toNat_ofNat]
    omega
  · exact testBit_field rsv3 _ hop
      (by omega : _ =
        opcode.toNat + 2 ^ 4 * (rsv3.toNat + 2 * (rsv2.toNat + 2 * rsv1.toNat + 4 * fin.toNat)))
  · exact testBit_field rsv2 _ (by omega : opcode.toNat + 16 * rsv3.toNat < 2 ^ 5)
      (by omega : _ = _ + 2 ^ 5 * (rsv2.toNat + 2 * (rsv1.toNat + 2 * fin.toNat)))
  · exact testBit_field rsv1 _
      (by omega : opcode.toNat + 16 * rsv3.toNat + 32 * rsv2.toNat < 2 ^ 6)
      (by omega : _ = _ + 2 ^ 6 * (rsv1.toNat + 2 * fin.toNat))
  · exact testBit_field fin _
      (by omega : opcode.toNat + 16 * rsv3.toNat + 32 * rsv2.toNat + 64 * rsv1.toNat < 2 ^ 7)
      (by omega : _ = _ + 2 ^ 7 * (fin.toNat + 2 * 0))
  · apply BitVec.eq_of_toNat_eq
    rw [BitVec.toNat_ofNat]
    omega
  · exact testBit_field mask _ hpay (by omega : _ = _ + 2 ^ 7 * (mask.toNat + 2 * 0))

/-! ## The fuel of the receive loop -/

theorem consumes_wsControl (opcode : Opcode) : Consumes (wsControl opcode) := by
  unfold wsControl
  apply (consumes_writeFix _).bind
  intro v
  split
  · exact consumes_closeStream.bind fun _ => consumes_pure _
  · exact consumes_pure _

theorem consumes_recvLength (head : WSFrameHead) : Consumes (recvLength head) := by
  unfold recvLength
  split
  · exact (consumes_readFix _ _ _).bind fun _ => consumes_pure _
  · split
    · exact (consumes_readFix _ _ _).bind fun _ => consumes_pure _
    · exact consumes_pure _

theorem consumes_recvMask (head : WSFrameHead) : Consumes (recvMask head) := by
  unfold recvMask
  split
  · exact (consumes_readFix _ _ _).bind fun _ => consumes_pure _
  · exact consumes_pure _

theorem consumes_recvDataHeader (maxSize : Nat) (client : Bool) (curLen : Int)
    (head : WSFrameHead) : Consumes (recvDataHeader maxSize client curLen head) := by
  unfold recvDataHeader
  split
  · exact consumes_pure _
  · apply (consumes_recvLength head).bind
    intro length
    cases length with
    | none => exact consumes_pure _
    | some length =>
        simp only
        split
        · exact consumes_pure _
        · apply (consumes_recvMask head).bind
          intro mask
          cases mask <;> exact consumes_pure _

theorem consumes_unmask (head : WSFrameHead) (mask : List UInt8) (curLen : Int) (length : Nat)
    (data : List UInt8) : Consumes (unmask head mask curLen length data) := by
  intro s data' t h
  unfold unmask at h
  split at h
  · split at h
    · cases h
      exact Nat.le_refl _
    · cases h
  · cases h
    exact Nat.le_refl _

theorem consumes_recvPayload (st : RecvState) (head : WSFrameHead) (length : Nat)
    (mask : List UInt8) : Consumes (recvPayload st head length mask) := by
  unfold recvPayload
  apply (consumes_readFix _ _ _).bind
  intro ⟨v, data⟩
  simp only
  split
  · exact consumes_pure _
  · apply (consumes_unmask head mask st.curLen length data).bind
    intro data'
    split <;> exact consumes_pure _

/-- Every iteration reads a head, so it uses up an event. -/
theorem recvFrame_reads_lt {maxSize : Nat} {client : Bool} {st : RecvState} {s t : Stream}
    {frame : Frame} (h : recvFrame maxSize client st s = .ok frame t) :
    t.reads.length < s.reads.length := by
  unfold recvFrame at h
  obtain ⟨header, u, hheader, h⟩ := bind_inv h
  have hrest : t.reads.length ≤ u.reads.length := by
    cases header with
    | broken => exact consumes_pure _ u _ t h
    | skipped => exact consumes_pure _ u _ t h
    | payload head length mask => exact consumes_recvPayload st head length mask u _ t h
  apply Nat.lt_of_le_of_lt hrest
  unfold recvHeader at hheader
  obtain ⟨⟨v, bytes⟩, w, hread, hheader⟩ := bind_inv hheader
  refine Nat.lt_of_le_of_lt ?_ (readFix_reads_lt (by decide) hread)
  simp only at hheader
  split at hheader
  · exact consumes_pure _ w _ u hheader
  · split at hheader
    · exact (consumes_wsControl .pong).bind (fun _ => consumes_pure _) w _ u hheader
    · split at hheader
      · exact consumes_pure _ w _ u hheader
      · split at hheader
        · exact consumes_recvDataHeader _ _ _ _ w _ u hheader
        · exact consumes_pure _ w _ u hheader

/-- Any fuel above the number of read events gives the same result. -/
theorem recvLoop_fuel (maxSize : Nat) (client : Bool) {fuel fuel' : Nat} (st : RecvState)
    (s : Stream) (hfuel : s.reads.length < fuel) (hfuel' : s.reads.length < fuel') :
    recvLoop maxSize client fuel st s = recvLoop maxSize client fuel' st s := by
  induction fuel generalizing fuel' st s with
  | zero => omega
  | succ fuel ih =>
      obtain ⟨n, rfl⟩ : ∃ n, fuel' = n + 1 := ⟨fuel' - 1, by omega⟩
      unfold recvLoop
      cases hframe : recvFrame maxSize client st s with
      | error e t => rw [bind_error hframe, bind_error hframe]
      | ok frame t =>
          have hlt := recvFrame_reads_lt hframe
          rw [bind_ok hframe, bind_ok hframe]
          cases frame with
          | broken => rfl
          | next st' => exact ih st' t (by omega) (by omega)
          | message msg => rfl

end Lyslg
