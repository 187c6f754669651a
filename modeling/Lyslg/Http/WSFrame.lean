import Lyslg.Http.WSSession
/-!
# One WebSocket frame on the wire

`frameBytes` is what `WSSendMessage` puts on the stream for a data frame.  The
receive loop takes such a frame apart in one iteration, in one of four ways:
the frame is taken whole, or the running length leaves the `int` range and the
iteration breaks or faults.
-/

namespace Lyslg

open Support.Memory Support.Machine Support.Words Support.State

/-! ## Frames on the wire -/

/-- The head of a data frame. -/
def dataHead (opcode : Opcode) (fin masked : Bool) (size : Nat) : WSFrameHead where
  opcode := .ofNat 4 opcode.value
  fin := fin
  payload := .ofNat 7 (payloadField size)
  mask := masked

/-- The length behind the head, in network order. -/
def lengthBytes (size : Nat) : List UInt8 :=
  if size < 126 then [] else if size < 65536 then (leBytes 2 size).reverse
  else (leBytes 8 size).reverse

/-- The masking key as it is sent. -/
def keyBytes (masked : Bool) (key : BitVec 32) : List UInt8 :=
  if masked then leBytes 4 key.toNat else []

/-- The payload as it is sent. -/
def bodyBytes (masked : Bool) (key : BitVec 32) (data : List UInt8) : List UInt8 :=
  if masked then xorMask (leBytes 4 key.toNat) data else data

/-- A data frame. -/
def frameBytes (opcode : Opcode) (fin masked : Bool) (key : BitVec 32) (data : List UInt8) :
    List UInt8 :=
  (dataHead opcode fin masked data.length).toBytes ++ (lengthBytes data.length ++
    (keyBytes masked key ++ bodyBytes masked key data))

@[simp] theorem length_toBytes (head : WSFrameHead) : head.toBytes.length = 2 := rfl

@[simp] theorem length_xorMask (mask data : List UInt8) :
    (xorMask mask data).length = data.length := by
  simp [xorMask]

@[simp] theorem length_bodyBytes (masked : Bool) (key : BitVec 32) (data : List UInt8) :
    (bodyBytes masked key data).length = data.length := by
  cases masked <;> simp [bodyBytes]

theorem payload_ne {a b : Nat} (ha : a < 128) (hb : b < 128) (h : a ≠ b) :
    BitVec.ofNat 7 a ≠ BitVec.ofNat 7 b := by
  rw [ne_eq, ← BitVec.toNat_inj, BitVec.toNat_ofNat, BitVec.toNat_ofNat]
  omega

/-- The three length forms: what the head says and what follows it. -/
inductive LengthForm (size : Nat) (payload : BitVec 7) (bytes : List UInt8) : Prop
  | short (h : size < 126) (h126 : payload ≠ 126) (h127 : payload ≠ 127)
      (hpayload : payload.toNat = size) (hbytes : bytes = [])
  | medium (h : size < 65536) (h126 : payload = 126) (hbytes : bytes = (leBytes 2 size).reverse)
  | long (h126 : payload ≠ 126) (h127 : payload = 127) (hbytes : bytes = (leBytes 8 size).reverse)

theorem lengthForm (opcode : Opcode) (fin masked : Bool) (size : Nat) :
    LengthForm size (dataHead opcode fin masked size).payload (lengthBytes size) := by
  unfold dataHead payloadField lengthBytes
  by_cases hshort : size < 126
  · rw [if_pos hshort, if_pos hshort]
    apply LengthForm.short hshort
    · exact payload_ne (a := size) (b := 126) (by omega) (by decide) (by omega)
    · exact payload_ne (a := size) (b := 127) (by omega) (by decide) (by omega)
    · rw [BitVec.toNat_ofNat, Nat.mod_eq_of_lt (by omega)]
    · rfl
  · rw [if_neg hshort, if_neg hshort]
    by_cases hmedium : size < 65536
    · rw [if_pos hmedium, if_pos hmedium]
      exact LengthForm.medium hmedium rfl rfl
    · rw [if_neg hmedium, if_neg hmedium]
      exact LengthForm.long (payload_ne (by decide : 127 < 128) (by decide : 126 < 128) (by decide))
        rfl rfl

/-! ## The sender -/

section Send

/-- A write of up to `2^31` bytes, and the test of its result. -/
theorem exchange_write_positive {buffer : List UInt8} (hpos : 0 < buffer.length)
    (hsize : buffer.length < 2 ^ 31) :
    Exchange (do let v ← writeFix buffer; return decide (0 < v) : StreamCall Bool)
    [] buffer true := by
  have hwrite := exchange_writeFix (by omega : buffer.length < 2 ^ 64)
  rw [int32_natCast hsize] at hwrite
  have h := hwrite.bind (f := fun v => pure (decide (0 < v))) (exchange_pure _)
  rwa [decide_eq_true (by omega), List.append_nil buffer] at h

theorem exchange_sendLength (opcode : Opcode) (fin masked : Bool) (size : Nat) :
    Exchange (sendLength (dataHead opcode fin masked size) size) [] (lengthBytes size) true := by
  unfold sendLength
  cases lengthForm opcode fin masked size with
  | short h h126 h127 hpayload hbytes =>
      rw [if_neg h126, if_neg h127, hbytes]
      exact exchange_pure true
  | medium h h126 hbytes =>
      rw [if_pos h126, hbytes, Nat.mod_eq_of_lt (by omega), leBytes_byteswap]
      exact exchange_write_positive (by simp) (by simp)
  | long h126 h127 hbytes =>
      rw [if_neg h126, if_pos h127, hbytes, leBytes_byteswap]
      exact exchange_write_positive (by simp) (by simp)

theorem exchange_sendMask (client : Bool) (key : BitVec 32) (msg : WSFrameMessage) :
    Exchange (sendMask client key msg) [] (keyBytes client key)
      (true, { msg with data := bodyBytes client key msg.data }) := by
  unfold sendMask keyBytes bodyBytes
  cases client with
  | false => exact exchange_pure _
  | true =>
      have hwrite := exchange_writeFix (by simp : (leBytes 4 key.toNat).length < 2 ^ 64)
      rw [length_leBytes, int32_natCast (by decide)] at hwrite
      have h := hwrite.bind (f := fun v => pure (decide (0 < v),
        { msg with data := xorMask (leBytes 4 key.toNat) msg.data })) (exchange_pure _)
      rwa [List.append_nil (leBytes 4 key.toNat)] at h

theorem exchange_sendFailed (msg : WSFrameMessage) : Exchange (sendFailed msg) [] [] (-1, msg) :=
  exchange_closeStream.bind (exchange_pure _)

/-- What `WSSendMessage` returns for a message of `size` bytes once its frame is out. -/
def sendValue (size : Nat) : Int :=
  if int32 size ≤ 0 then -1 else int32 (size + WSFrameHead.sizeof)

/-- The whole frame goes out, whatever the call returns. -/
theorem exchange_wsSendMessage (opcode : Opcode) (client fin : Bool) (key : BitVec 32)
    {data : List UInt8} (hsize : data.length < 2 ^ 64) :
    Exchange (wsSendMessage ⟨opcode.value, data⟩ client fin key) []
      (frameBytes opcode fin client key data)
      (sendValue data.length, ⟨opcode.value, bodyBytes client key data⟩) := by
  have hhead := exchange_writeFix
    (by rw [length_toBytes]; decide :
      (dataHead opcode fin client data.length).toBytes.length < 2 ^ 64)
  rw [length_toBytes, int32_natCast (by decide)] at hhead
  have hlength := exchange_sendLength opcode fin client data.length
  have hmask := exchange_sendMask client key ⟨opcode.value, data⟩
  have hbody := exchange_writeFix
    (by rwa [length_bodyBytes] : (bodyBytes client key data).length < 2 ^ 64)
  have hlast : Exchange (if int32 (bodyBytes client key data).length ≤ 0 then
      sendFailed ⟨opcode.value, bodyBytes client key data⟩
    else pure (int32 (data.length + WSFrameHead.sizeof), ⟨opcode.value, bodyBytes client key data⟩))
      [] [] (sendValue data.length, ⟨opcode.value, bodyBytes client key data⟩) := by
    rw [length_bodyBytes, sendValue]
    split
    · exact exchange_sendFailed _
    · exact exchange_pure _
  generalize (sendValue data.length, WSFrameMessage.mk opcode.value (bodyBytes client key data)) = v
    at hlast ⊢
  unfold wsSendMessage frameBytes
  rw [← List.append_nil (bodyBytes client key data), BitVec.ofInt_natCast]
  refine Exchange.bind (a := []) (b := []) hhead ?_
  rw [if_neg (by decide)]
  refine Exchange.bind (a := []) (b := []) hlength ?_
  refine Exchange.bind (a := []) (b := []) hmask ?_
  exact Exchange.bind (a := []) (b := []) hbody hlast

end Send

/-! ## The receiver, before the payload -/

/-- `char mask[4]` after it was read. -/
def maskBytes (masked : Bool) (key : BitVec 32) : List UInt8 :=
  if masked then leBytes 4 key.toNat else [0, 0, 0, 0]

theorem exchange_recvLength (opcode : Opcode) (fin masked : Bool) {size : Nat}
    (hsize : size < 2 ^ 64) :
    Exchange (recvLength (dataHead opcode fin masked size)) (lengthBytes size) [] (some size) := by
  unfold recvLength
  cases lengthForm opcode fin masked size with
  | short h h126 h127 hpayload hbytes =>
      rw [if_neg h126, if_neg h127, hbytes, hpayload]
      exact exchange_pure _
  | medium h h126 hbytes =>
      rw [if_pos h126, hbytes, ← List.append_nil (leBytes 2 size).reverse]
      refine Exchange.bind (o := []) (p := [])
        (exchange_readFix_whole (leBytes 2 size).reverse rfl (by simp) (by decide)) ?_
      have hvalue : byteswap 2 (leValue (leBytes 2 size).reverse) = size :=
        byteswap_byteswap (by omega : size < 256 ^ 2)
      simp only [int32_natCast (by decide : 2 < 2 ^ 31), hvalue]
      exact exchange_pure _
  | long h126 h127 hbytes =>
      rw [if_neg h126, if_pos h127, hbytes, ← List.append_nil (leBytes 8 size).reverse]
      refine Exchange.bind (o := []) (p := [])
        (exchange_readFix_whole (leBytes 8 size).reverse rfl (by simp) (by decide)) ?_
      have hvalue : byteswap 8 (leValue (leBytes 8 size).reverse) = size :=
        byteswap_byteswap (by omega : size < 256 ^ 8)
      simp only [int32_natCast (by decide : 8 < 2 ^ 31), hvalue]
      exact exchange_pure _

theorem exchange_recvMask (opcode : Opcode) (fin masked : Bool) (size : Nat) (key : BitVec 32) :
    Exchange (recvMask (dataHead opcode fin masked size)) (keyBytes masked key) []
      (some (maskBytes masked key)) := by
  unfold recvMask keyBytes maskBytes
  cases masked with
  | false => exact exchange_pure _
  | true =>
      change Exchange (readFix [0, 0, 0, 0] 0 4 >>= _) (leBytes 4 key.toNat) [] _
      rw [← List.append_nil (leBytes 4 key.toNat)]
      refine Exchange.bind (o := []) (p := [])
        (exchange_readFix_whole (leBytes 4 key.toNat) rfl (by simp) (by decide)) ?_
      simp only [int32_natCast (by decide : 4 < 2 ^ 31)]
      rw [List.append_nil]
      exact exchange_pure _

/-- The opcodes of data frames. -/
def Opcode.IsData (opcode : Opcode) : Prop :=
  opcode = .continue ∨ opcode = .textFrame ∨ opcode = .binFrame

/-- Reading a head and dispatching on its opcode. -/
theorem exchange_recvHeader {maxSize : Nat} {client : Bool} {curLen : Int} {opcode : Opcode}
    (hop : opcode.IsData) {fin masked : Bool} {size : Nat} {inp out : List UInt8} {v : Header}
    (hdata :
      Exchange (recvDataHeader maxSize client curLen (dataHead opcode fin masked size)) inp out v) :
    Exchange (recvHeader maxSize client curLen)
      ((dataHead opcode fin masked size).toBytes ++ inp) out v := by
  unfold recvHeader
  refine Exchange.bind (o := [])
    (exchange_readFix_whole (dataHead opcode fin masked size).toBytes rfl rfl (by decide)) ?_
  simp only [WSFrameHead.sizeof, int32_natCast (by decide : 2 < 2 ^ 31),
    WSFrameHead.ofBytes_toBytes]
  rcases hop with rfl | rfl | rfl
  · exact hdata
  · exact hdata
  · exact hdata

section Receive

variable {maxSize : Nat} {opcode : Opcode} {fin masked : Bool} {key : BitVec 32}
  {data : List UInt8}

theorem exchange_recvDataHeader (opcode : Opcode) (fin masked : Bool) (key : BitVec 32)
    {size : Nat} (hsize : size < 2 ^ 64) {curLen : Int}
    (hfit : addSize (sizeT curLen) size < maxSize) :
    Exchange (recvDataHeader maxSize (!masked) curLen (dataHead opcode fin masked size))
      (lengthBytes size ++ keyBytes masked key) []
      (.payload (dataHead opcode fin masked size) size (maskBytes masked key)) := by
  unfold recvDataHeader
  have hmask : (!(!masked) && !(dataHead opcode fin masked size).mask) = false := by
    cases masked <;> rfl
  rw [hmask]
  refine Exchange.bind (o := []) (p := []) (exchange_recvLength opcode fin masked hsize) ?_
  simp only [if_neg (Nat.not_le.mpr hfit)]
  rw [← List.append_nil (keyBytes masked key)]
  exact Exchange.bind (o := []) (p := []) (exchange_recvMask opcode fin masked size key)
    (exchange_pure _)

/-- A frame that the size check refuses. -/
theorem exchange_recvDataHeader_broken (opcode : Opcode) (fin masked : Bool)
    {size : Nat} (hsize : size < 2 ^ 64) {curLen : Int}
    (hfit : maxSize ≤ addSize (sizeT curLen) size) :
    Exchange (recvDataHeader maxSize (!masked) curLen (dataHead opcode fin masked size))
      (lengthBytes size) [] .broken := by
  unfold recvDataHeader
  have hmask : (!(!masked) && !(dataHead opcode fin masked size).mask) = false := by
    cases masked <;> rfl
  rw [hmask, ← List.append_nil (lengthBytes size)]
  refine Exchange.bind (o := []) (p := []) (exchange_recvLength opcode fin masked hsize) ?_
  simp only [if_pos hfit]
  exact exchange_pure _

/-! ## The payload -/

theorem xor_cancel (a k : UInt8) : a ^^^ k ^^^ k = a := by
  rw [UInt8.xor_assoc, UInt8.xor_self, UInt8.xor_zero]

theorem xorMask_xorMask (mask data : List UInt8) : xorMask mask (xorMask mask data) = data := by
  unfold xorMask
  apply List.ext_getElem?
  intro i
  rw [List.getElem?_mapIdx, List.getElem?_mapIdx]
  cases data[i]? with
  | none => rfl
  | some b => simp only [Option.map_some, xor_cancel]

/-- `mask[i % 4]` from round `i` on. -/
def xorFrom (mask : List UInt8) (i : Nat) (data : List UInt8) : List UInt8 :=
  data.mapIdx fun j b => b ^^^ mask.getD ((i + j) % 4) 0

theorem xorFrom_cons (mask : List UInt8) (i : Nat) (b : UInt8) (data : List UInt8) :
    xorFrom mask i (b :: data) = (b ^^^ mask.getD (i % 4) 0) :: xorFrom mask (i + 1) data := by
  unfold xorFrom
  rw [List.mapIdx_cons]
  congr 2
  ext j b
  congr 3
  omega

/-- The unmasking loop over bytes the index reaches without overflow. -/
theorem unmaskLoop_spec (mask todo : List UInt8) {pre : List UInt8} {S i : Nat}
    (hpre : pre.length = S + i) (hfit : S + i + todo.length ≤ 2 ^ 31) :
    unmaskLoop mask S i todo.length (pre ++ todo) = .ok (pre ++ xorFrom mask i todo) := by
  induction todo generalizing pre i with
  | nil => rfl
  | cons b todo ih =>
      rw [List.length_cons] at hfit
      have hindex : sizeT (int32 ((S : Int) + (i : Nat))) = pre.length := by
        rw [← Nat.cast_add, int32_natCast (by omega), sizeT_natCast (by omega), hpre]
      have hget : (pre ++ b :: todo)[pre.length]? = some b := by simp
      have hset : (pre ++ b :: todo).set pre.length (b ^^^ mask.getD (i % 4) 0)
          = (pre ++ [b ^^^ mask.getD (i % 4) 0]) ++ todo := by simp
      rw [List.length_cons, unmaskLoop]
      simp only [hindex, hget, hset]
      rw [ih (by rw [List.length_append, hpre]; rfl) (by omega), xorFrom_cons, List.append_assoc]
      rfl

/-- One byte too many, and the index overflows. -/
theorem unmaskLoop_overflow (mask todo : List UInt8) {pre : List UInt8} {S i : Nat}
    (hpre : pre.length = S + i) (hlow : S + i ≤ 2 ^ 31) (hover : 2 ^ 31 < S + i + todo.length)
    (hsize : S + i + todo.length < 2 ^ 63) :
    ∃ f, unmaskLoop mask S i todo.length (pre ++ todo) = .error f := by
  induction todo generalizing pre i with
  | nil =>
      rw [List.length_nil] at hover
      omega
  | cons b todo ih =>
      rw [List.length_cons] at hover hsize
      rw [List.length_cons, unmaskLoop]
      by_cases hlast : S + i = 2 ^ 31
      · have hindex : sizeT (int32 ((S : Int) + (i : Nat))) = 2 ^ 64 - 2 ^ 31 := by
          rw [← Nat.cast_add, hlast]
          decide +kernel
        have hget : (pre ++ b :: todo)[2 ^ 64 - 2 ^ 31]? = none := by
          rw [List.getElem?_eq_none_iff, List.length_append, List.length_cons]
          omega
        simp only [hindex, hget]
        exact ⟨_, rfl⟩
      · have hindex : sizeT (int32 ((S : Int) + (i : Nat))) = pre.length := by
          rw [← Nat.cast_add, int32_natCast (by omega), sizeT_natCast (by omega), hpre]
        have hget : (pre ++ b :: todo)[pre.length]? = some b := by simp
        have hset : (pre ++ b :: todo).set pre.length (b ^^^ mask.getD (i % 4) 0)
            = (pre ++ [b ^^^ mask.getD (i % 4) 0]) ++ todo := by simp
        simp only [hindex, hget, hset]
        exact ih (by rw [List.length_append, hpre]; rfl) (by omega) (by omega) (by omega)

theorem resize_grow (old : List UInt8) (n : Nat) :
    resize old (old.length + n) = old ++ List.replicate n 0 := by
  unfold resize
  rw [List.take_of_length_le (by omega), Nat.add_sub_cancel_left]

/-- The running opcode after a data frame. -/
def trackOpcode (seen : Int) (opcode : Opcode) : Int :=
  if seen = 0 ∧ opcode ≠ .continue then opcode.value else seen

/-- The payload arrives behind the bytes received so far. -/
theorem exchange_recvData {st : RecvState} (hcur : st.curLen = st.data.length)
    (hlen : st.data.length < 2 ^ 31) (body : List UInt8) (hbody : body.length < 2 ^ 32) :
    Exchange (recvData st body.length) body [] (int32 body.length, st.data ++ body) := by
  unfold recvData
  rw [hcur, sizeT_natCast (by omega), addSize_of_lt (by omega), resize_grow]
  have h := exchange_readFix (st.data ++ List.replicate body.length 0) body st.data.length
    (by simp) (by simp; omega)
  rwa [splice_end (by simp)] at h

theorem unmask_masked {head : WSFrameHead} (hmask : head.mask = true) (mask : List UInt8)
    {n : Nat} (hn : n < 2 ^ 31) (curLen : Int) (bytes : List UInt8) (s : Stream) :
    unmask head mask curLen n bytes s =
      match unmaskLoop mask curLen 0 n bytes with
      | .ok bytes => .ok bytes s
      | .error f => .error (.fault f) s := by
  have hcount : (int32 n).toNat = n := by
    rw [int32_natCast hn, Int.toNat_natCast]
  cases hloop : unmaskLoop mask curLen 0 n bytes with
  | ok bytes' => simp only [unmask, if_pos hmask, hcount, hloop]
  | error f => simp only [unmask, if_pos hmask, hcount, hloop]

theorem unmask_ok (old : List UInt8) (hsize : data.length < 2 ^ 31)
    (hfit : masked = true → old.length + data.length ≤ 2 ^ 31) :
    unmask (dataHead opcode fin masked data.length) (maskBytes masked key) old.length data.length
      (old ++ bodyBytes masked key data) = pure (old ++ data) := by
  funext s
  cases masked with
  | false => rfl
  | true =>
      have hmax := hfit rfl
      have hloop := unmaskLoop_spec (leBytes 4 key.toNat) (xorMask (leBytes 4 key.toNat) data)
        (by omega : old.length = old.length + 0) (by rw [length_xorMask]; omega)
      have hxor : xorFrom (leBytes 4 key.toNat) 0 (xorMask (leBytes 4 key.toNat) data) = data := by
        rw [← xorMask_xorMask (leBytes 4 key.toNat) data]
        unfold xorFrom
        simp only [Nat.zero_add]
        rw [xorMask_xorMask]
        rfl
      rw [length_xorMask, hxor] at hloop
      have hmask : (dataHead opcode fin true data.length).mask = true := rfl
      rw [unmask_masked hmask _ hsize]
      unfold maskBytes bodyBytes
      rw [if_pos rfl, if_pos rfl, hloop]
      rfl

theorem unmask_fault (opcode : Opcode) (fin : Bool) (key : BitVec 32) (old : List UInt8)
    (hold : old.length < 2 ^ 31) (hsize : data.length < 2 ^ 31)
    (hover : 2 ^ 31 < old.length + data.length) :
    ∃ f, ∀ s, unmask (dataHead opcode fin true data.length) (maskBytes true key) old.length
      data.length (old ++ bodyBytes true key data) s = .error (.fault f) s := by
  obtain ⟨f, hloop⟩ := unmaskLoop_overflow (leBytes 4 key.toNat)
    (xorMask (leBytes 4 key.toNat) data) (by omega : old.length = old.length + 0) (by omega)
    (by rw [length_xorMask]; omega) (by rw [length_xorMask]; omega)
  rw [length_xorMask] at hloop
  refine ⟨f, fun s => ?_⟩
  have hmask : (dataHead opcode fin true data.length).mask = true := rfl
  rw [unmask_masked hmask _ hsize]
  unfold maskBytes bodyBytes
  rw [if_pos rfl, if_pos rfl, hloop]

theorem opcode_value_toNat (opcode : Opcode) :
    (BitVec.ofNat 4 opcode.value).toNat = opcode.value := by
  cases opcode <;> rfl

theorem trackOpcode_eq (seen : Int) (opcode : Opcode) :
    (if seen = 0 ∧ (BitVec.ofNat 4 opcode.value).toNat ≠ Opcode.continue.value then
      ((BitVec.ofNat 4 opcode.value).toNat : Int) else seen) = trackOpcode seen opcode := by
  rw [opcode_value_toNat, trackOpcode]
  cases opcode <;> simp [Opcode.value]

/-- What a data frame does to the loop. -/
def frameResult (st : RecvState) (opcode : Opcode) (fin : Bool) (data : List UInt8) : Frame :=
  if fin then .message ⟨trackOpcode st.opcode opcode, st.data ++ data⟩
  else .next
  ⟨trackOpcode st.opcode opcode, st.data ++ data, int32 (st.data.length + data.length : Nat)⟩

theorem exchange_recvPayload {st : RecvState} (hcur : st.curLen = st.data.length)
    (hlen : st.data.length < 2 ^ 31) (hpos : 0 < data.length) (hsize : data.length < 2 ^ 31)
    (hfit : masked = true → st.data.length + data.length ≤ 2 ^ 31) :
    Exchange (recvPayload st (dataHead opcode fin masked data.length) data.length
      (maskBytes masked key)) (bodyBytes masked key data) [] (frameResult st opcode fin data) := by
  have hbody := exchange_recvData hcur hlen (bodyBytes masked key data)
    (by rw [length_bodyBytes]; omega)
  rw [length_bodyBytes, int32_natCast hsize] at hbody
  unfold recvPayload
  rw [← List.append_nil (bodyBytes masked key data)]
  refine Exchange.bind (o := []) (p := []) hbody ?_
  simp only [if_neg (by omega : ¬ (data.length : Int) ≤ 0), hcur, unmask_ok st.data hsize hfit,
    sizeT_natCast (by omega : st.data.length < 2 ^ 64),
    addSize_of_lt (by omega : st.data.length + data.length < 2 ^ 64)]
  refine Exchange.bind (a := []) (o := []) (p := []) (exchange_pure (st.data ++ data)) ?_
  cases fin with
  | true =>
      rw [frameResult, ← trackOpcode_eq]
      exact exchange_pure _
  | false =>
      rw [frameResult, ← trackOpcode_eq]
      exact exchange_pure _

/-- The header of a data frame that passes the size check. -/
theorem exchange_dataHeader (hop : opcode.IsData) (fin masked : Bool) (key : BitVec 32)
    {st : RecvState}
    (hcur : st.curLen = st.data.length) (hlen : st.data.length < 2 ^ 31)
    (hsize : data.length < 2 ^ 32) (hmax : st.data.length + data.length < maxSize) :
    Exchange (recvHeader maxSize (!masked) st.curLen)
      ((dataHead opcode fin masked data.length).toBytes ++
        (lengthBytes data.length ++ keyBytes masked key)) []
      (.payload (dataHead opcode fin masked data.length) data.length (maskBytes masked key)) := by
  have hcheck : addSize (sizeT st.curLen) data.length < maxSize := by
    rw [hcur, sizeT_natCast (by omega), addSize_of_lt (by omega)]
    exact hmax
  exact exchange_recvHeader hop
    (exchange_recvDataHeader opcode fin masked key (by omega : data.length < 2 ^ 64) hcheck)

/-- From the header on, an iteration is its payload. -/
theorem exchange_recvFrame_of_header {client : Bool} {st : RecvState} {a b o p : List UInt8}
    {header : Header} {v : Frame}
    (hheader : Exchange (recvHeader maxSize client st.curLen) a o header)
    (hrest : Exchange (match header with
      | .broken => pure .broken
      | .skipped => pure (.next st)
      | .payload head length mask => recvPayload st head length mask) b p v) :
    Exchange (recvFrame maxSize client st) (a ++ b) (o ++ p) v :=
  hheader.bind hrest

/-- A data frame whose running length fits in an `int` is taken whole. -/
theorem exchange_recvFrame (hop : opcode.IsData) (fin masked : Bool) (key : BitVec 32)
    {st : RecvState}
    (hcur : st.curLen = st.data.length) (hlen : st.data.length < 2 ^ 31) (hpos : 0 < data.length)
    (hsize : data.length < 2 ^ 31) (hfit : masked = true → st.data.length + data.length ≤ 2 ^ 31)
    (hmax : st.data.length + data.length < maxSize) :
    Exchange (recvFrame maxSize (!masked) st) (frameBytes opcode fin masked key data) []
      (frameResult st opcode fin data) := by
  have h := exchange_recvFrame_of_header
    (exchange_dataHeader hop fin masked key hcur hlen (by omega) hmax)
    (exchange_recvPayload hcur hlen hpos hsize hfit)
  rwa [List.append_assoc, List.append_assoc] at h

/-- An empty fragment: the read of its payload returns `0`. -/
theorem exchange_recvFrame_empty (hop : opcode.IsData) (fin masked : Bool) (key : BitVec 32)
    {st : RecvState}
    (hcur : st.curLen = st.data.length) (hlen : st.data.length < 2 ^ 31)
    (hmax : st.data.length < maxSize) :
    Exchange (recvFrame maxSize (!masked) st) (frameBytes opcode fin masked key []) [] .broken := by
  have hbody := exchange_recvData hcur hlen (bodyBytes masked key [])
    (by rw [length_bodyBytes]; decide)
  rw [length_bodyBytes] at hbody
  have hpayload : Exchange (recvPayload st (dataHead opcode fin masked 0) 0
      (maskBytes masked key)) (bodyBytes masked key []) [] .broken := by
    unfold recvPayload
    rw [← List.append_nil (bodyBytes masked key [])]
    refine Exchange.bind (o := []) (p := []) hbody ?_
    have hzero : int32 (([] : List UInt8).length : Int) ≤ 0 := by
      rw [List.length_nil, Nat.cast_zero, int32_zero]
    simp only [if_pos hzero]
    exact exchange_pure _
  have hbelow : st.data.length + ([] : List UInt8).length < maxSize := by simpa using hmax
  have h := exchange_recvFrame_of_header
    (exchange_dataHeader hop fin masked key hcur hlen (by decide) hbelow) hpayload
  rwa [List.append_assoc, List.append_assoc] at h

/-- A fragment of `2^31` bytes or more: the read returns a negative `int`. -/
theorem exchange_recvFrame_long (hop : opcode.IsData) (fin masked : Bool) (key : BitVec 32)
    {st : RecvState}
    (hcur : st.curLen = st.data.length) (hlen : st.data.length < 2 ^ 31)
    (hlong : 2 ^ 31 ≤ data.length) (hsize : data.length < 2 ^ 32)
    (hmax : st.data.length + data.length < maxSize) :
    Exchange (recvFrame maxSize (!masked) st) (frameBytes opcode fin masked key data) []
      .broken := by
  have hbody := exchange_recvData hcur hlen (bodyBytes masked key data)
    (by rw [length_bodyBytes]; exact hsize)
  rw [length_bodyBytes] at hbody
  have hneg : int32 data.length ≤ 0 := by
    rw [int32_wrap hlong hsize]
    omega
  have hpayload : Exchange (recvPayload st (dataHead opcode fin masked data.length) data.length
      (maskBytes masked key)) (bodyBytes masked key data) [] .broken := by
    unfold recvPayload
    rw [← List.append_nil (bodyBytes masked key data)]
    refine Exchange.bind (o := []) (p := []) hbody ?_
    simp only [if_pos hneg]
    exact exchange_pure _
  have h := exchange_recvFrame_of_header
    (exchange_dataHeader hop fin masked key hcur hlen (by omega) hmax) hpayload
  rwa [List.append_assoc, List.append_assoc] at h

/-- Once the running length is negative, the size check refuses every frame. -/
theorem exchange_recvFrame_negative (hop : opcode.IsData) (fin masked : Bool) {st : RecvState}
    (hneg : st.curLen < 0) (hlow : -2 ^ 31 ≤ st.curLen) (hsum : st.curLen + data.length < 0)
    (hmax : maxSize < 2 ^ 32) :
    Exchange (recvFrame maxSize (!masked) st)
      ((dataHead opcode fin masked data.length).toBytes ++ lengthBytes data.length) [] .broken := by
  have hcheck : maxSize ≤ addSize (sizeT st.curLen) data.length := by
    have hsize := sizeT_neg hneg (by omega)
    unfold addSize
    omega
  have h := exchange_recvFrame_of_header (exchange_recvHeader hop
    (exchange_recvDataHeader_broken opcode fin masked (by omega : data.length < 2 ^ 64) hcheck))
    (exchange_pure _)
  rwa [List.append_nil] at h

/-- A masked frame over the end of the `int` range: unmasking leaves the string. -/
theorem recvFrame_faults (hop : opcode.IsData) {st : RecvState}
    (hcur : st.curLen = st.data.length) (hlen : st.data.length < 2 ^ 31)
    (hsize : data.length < 2 ^ 31) (hover : 2 ^ 31 < st.data.length + data.length)
    (hmax : st.data.length + data.length < maxSize) {s : Stream} {rest : List UInt8} {more : Nat}
    (hready : Ready s (frameBytes opcode fin true key data ++ rest) more) :
    ∃ f s', recvFrame maxSize (!true) st s = .error (.fault f) s' ∧
      s'.taken = s.taken + (frameBytes opcode fin true key data).length := by
  have hheader := exchange_dataHeader hop fin true key hcur hlen (by omega) hmax
  have hbody := exchange_recvData hcur hlen (bodyBytes true key data)
    (by rw [length_bodyBytes]; omega)
  rw [length_bodyBytes, int32_natCast hsize] at hbody
  obtain ⟨f, hfault⟩ := unmask_fault opcode fin key st.data hlen hsize hover
  unfold frameBytes at hready
  obtain ⟨s', hrun, hex, hready'⟩ := hheader s (bodyBytes true key data ++ rest) more
    (by simpa using hready)
  obtain ⟨s'', hrun', hex', _⟩ := hbody s' rest more (by simpa using hready')
  refine ⟨f, s'', ?_, ?_⟩
  · unfold recvFrame
    rw [bind_ok hrun]
    change recvPayload st _ _ _ s' = _
    unfold recvPayload
    rw [bind_ok hrun']
    simp only [if_neg (by omega : ¬ (data.length : Int) ≤ 0), hcur]
    rw [bind_error (hfault s'')]
  · rw [hex'.taken_eq, hex.taken_eq, frameBytes]
    simp only [List.length_append]
    omega

end Receive

end Lyslg
