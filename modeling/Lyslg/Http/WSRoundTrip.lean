import Lyslg.Http.WSFrame
/-!
# WebSocket messages survive fragmentation

A message is sent as fragments with control frames between them.  `wire` is
what the sender puts on the stream, and the receive loop takes it apart again.
The running length `cur_len` is an `int`, so this works exactly as long as it
does not overflow.
-/

namespace Lyslg

open Support.Memory Support.Machine Support.Words Support.State

/-! ## Runs of the loop -/

/-- Faced with `inp`, the call does not return a message. -/
def Fails (x : StreamCall (Option WSFrameMessage)) (inp out : List UInt8) : Prop :=
  ∀ s rest more, Ready s (inp ++ rest) (out.length + more) → ∀ msg s', x s ≠ .ok (some msg) s'

theorem fails_of_none {x : StreamCall (Option WSFrameMessage)} {inp out : List UInt8}
    (h : Exchange x inp out none) : Fails x inp out := by
  intro s rest more hready msg s' hrun
  obtain ⟨s'', hnone, _⟩ := h s rest more hready
  rw [hnone] at hrun
  cases hrun

theorem Fails.extend {x : StreamCall (Option WSFrameMessage)} {a o : List UInt8}
    (h : Fails x a o) (b p : List UInt8) : Fails x (a ++ b) (o ++ p) := by
  intro s rest more hready
  rw [List.append_assoc, List.length_append, Nat.add_assoc] at hready
  exact h s (b ++ rest) (p.length + more) hready

theorem Exchange.fails_bind {α : Type} {x : StreamCall α}
    {f : α → StreamCall (Option WSFrameMessage)} {a b o p : List UInt8} {v : α}
    (hx : Exchange x a o v) (hf : Fails (f v) b p) : Fails (x >>= f) (a ++ b) (o ++ p) := by
  intro s rest more hready msg s' hrun
  rw [List.append_assoc, List.length_append, Nat.add_assoc] at hready
  obtain ⟨t, hfirst, _, hready'⟩ := hx s (b ++ rest) (p.length + more) hready
  rw [bind_ok hfirst] at hrun
  exact hf t rest more hready' msg s' hrun

section Loop

variable {maxSize : Nat} {client : Bool} {st st' : RecvState} {a b o p : List UInt8} (fuel : Nat)

theorem exchange_recvLoop_next {v : Option WSFrameMessage}
    (hframe : Exchange (recvFrame maxSize client st) a o (.next st'))
    (hloop : Exchange (recvLoop maxSize client fuel st') b p v) :
    Exchange (recvLoop maxSize client (fuel + 1) st) (a ++ b) (o ++ p) v :=
  hframe.bind hloop

theorem fails_recvLoop_next (hframe : Exchange (recvFrame maxSize client st) a o (.next st'))
    (hloop : Fails (recvLoop maxSize client fuel st') b p) :
    Fails (recvLoop maxSize client (fuel + 1) st) (a ++ b) (o ++ p) :=
  hframe.fails_bind hloop

theorem exchange_recvLoop_message {msg : WSFrameMessage}
    (hframe : Exchange (recvFrame maxSize client st) a o (.message msg)) :
    Exchange (recvLoop maxSize client (fuel + 1) st) a o (some msg) := by
  rw [← List.append_nil a, ← List.append_nil o]
  apply hframe.bind
  exact exchange_pure (some msg)

theorem fails_recvLoop_broken (hframe : Exchange (recvFrame maxSize client st) a o .broken) :
    Fails (recvLoop maxSize client (fuel + 1) st) a o := by
  apply fails_of_none
  rw [← List.append_nil a, ← List.append_nil o]
  apply hframe.bind
  exact exchange_closeStream.bind (exchange_pure none)

end Loop

/-! ## Control frames -/

/-- The control frames `WSPing` and `WSPong` send. -/
inductive Control where
  | ping
  | pong
  deriving DecidableEq

def Control.opcode : Control → Opcode
  | .ping => .ping
  | .pong => .pong

def Control.bytes (c : Control) : List UInt8 := (WSFrameHead.control c.opcode).toBytes

/-- What the receiver answers. -/
def Control.reply : Control → List UInt8
  | .ping => (WSFrameHead.control .pong).toBytes
  | .pong => []

theorem exchange_wsControl (opcode : Opcode) :
    Exchange (wsControl opcode) [] (WSFrameHead.control opcode).toBytes 2 := by
  have hwrite := exchange_writeFix (by rw [length_toBytes]; decide :
    (WSFrameHead.control opcode).toBytes.length < 2 ^ 64)
  rw [length_toBytes, int32_natCast (by decide)] at hwrite
  have h := hwrite.bind (f := fun v => do
    if v ≤ 0 then
      closeStream
    return v) (exchange_pure 2)
  rwa [List.append_nil (WSFrameHead.control opcode).toBytes] at h

theorem exchange_recvFrame_control (maxSize : Nat) (client : Bool) (st : RecvState) (c : Control) :
    Exchange (recvFrame maxSize client st) c.bytes c.reply (.next st) := by
  have hread := exchange_readFix_whole c.bytes (rfl : [(0 : UInt8), 0].length = 2) rfl (by decide)
  rw [int32_natCast (by decide)] at hread
  have hheader : Exchange (recvHeader maxSize client st.curLen) c.bytes c.reply .skipped := by
    rw [← List.append_nil c.bytes, ← List.nil_append c.reply]
    apply hread.bind
    simp only [Control.bytes, WSFrameHead.ofBytes_toBytes]
    cases c with
    | ping =>
        rw [← List.append_nil Control.ping.reply]
        exact (exchange_wsControl .pong).bind (exchange_pure _)
    | pong => exact exchange_pure _
  have h := exchange_recvFrame_of_header hheader (exchange_pure (Frame.next st))
  rwa [List.append_nil, List.append_nil] at h

section Controls

variable {maxSize fuel : Nat} {client : Bool} {st : RecvState} {a o : List UInt8}

theorem exchange_recvLoop_controls (cs : List Control) {v : Option WSFrameMessage}
    (h : Exchange (recvLoop maxSize client fuel st) a o v) :
    Exchange (recvLoop maxSize client (cs.length + fuel) st) (cs.flatMap Control.bytes ++ a)
      (cs.flatMap Control.reply ++ o) v := by
  induction cs with
  | nil =>
      rw [List.length_nil, Nat.zero_add]
      exact h
  | cons c cs ih =>
      rw [List.length_cons, Nat.add_right_comm, List.flatMap_cons, List.flatMap_cons,
        List.append_assoc, List.append_assoc]
      exact exchange_recvLoop_next _ (exchange_recvFrame_control maxSize client st c) ih

theorem fails_recvLoop_controls (cs : List Control)
    (h : Fails (recvLoop maxSize client fuel st) a o) :
    Fails (recvLoop maxSize client (cs.length + fuel) st) (cs.flatMap Control.bytes ++ a)
      (cs.flatMap Control.reply ++ o) := by
  induction cs with
  | nil =>
      rw [List.length_nil, Nat.zero_add]
      exact h
  | cons c cs ih =>
      rw [List.length_cons, Nat.add_right_comm, List.flatMap_cons, List.flatMap_cons,
        List.append_assoc, List.append_assoc]
      exact fails_recvLoop_next _ (exchange_recvFrame_control maxSize client st c) ih

end Controls

/-! ## Fragmented messages -/

/-- A fragment, the control frames sent before it and its masking key. -/
structure Part where
  controls : List Control
  key : BitVec 32
  data : List UInt8

/-- Send control frames. -/
def sendControls : List Control → StreamCall Unit
  | [] => pure ()
  | c :: cs => do
      let _ ← match c with
        | .ping => wsPing
        | .pong => wsPong
      sendControls cs

/-- Send a message in parts: the first frame has the opcode, the others have
`CONTINUE`, and the last one has `fin`. -/
def sendParts (client : Bool) : Opcode → List Part → StreamCall Unit
  | _, [] => pure ()
  | opcode, part :: parts => do
      sendControls part.controls
      let _ ← wsSendMessage ⟨opcode.value, part.data⟩ client parts.isEmpty part.key
      sendParts client .continue parts

/-- What `sendParts` puts on the stream. -/
def wire (client : Bool) : Opcode → List Part → List UInt8
  | _, [] => []
  | opcode, part :: parts =>
      part.controls.flatMap Control.bytes ++
        (frameBytes opcode parts.isEmpty client part.key part.data ++ wire client .continue parts)

/-- What the receiver of these parts sends back. -/
def replies (parts : List Part) : List UInt8 :=
  parts.flatMap fun part => part.controls.flatMap Control.reply

/-- The message the parts make up. -/
def joined (parts : List Part) : List UInt8 := parts.flatMap Part.data

theorem exchange_sendControls (cs : List Control) :
    Exchange (sendControls cs) [] (cs.flatMap Control.bytes) () := by
  induction cs with
  | nil => exact exchange_pure ()
  | cons c cs ih =>
      rw [List.flatMap_cons]
      cases c with
      | ping => exact (exchange_wsControl .ping).bind ih
      | pong => exact (exchange_wsControl .pong).bind ih

theorem exchange_sendParts (client : Bool) (opcode : Opcode) (parts : List Part)
    (hsize : ∀ part ∈ parts, part.data.length < 2 ^ 64) :
    Exchange (sendParts client opcode parts) [] (wire client opcode parts) () := by
  induction parts generalizing opcode with
  | nil => exact exchange_pure ()
  | cons part parts ih =>
      have hframe := exchange_wsSendMessage opcode client parts.isEmpty part.key
        (hsize part List.mem_cons_self)
      have hrest := ih .continue fun p hp => hsize p (List.mem_cons_of_mem _ hp)
      exact (exchange_sendControls part.controls).bind (hframe.bind hrest)

/-! ## Receiving a fragmented message -/

/-- Starting from `received` bytes, the running length stays an `int` through all
parts.  A masked part also needs it for the index of its last byte. -/
def Fits (masked : Bool) : Nat → List Part → Prop
  | _, [] => True
  | received, part :: parts =>
      part.data.length < 2 ^ 31 ∧
      (masked = true → received + part.data.length ≤ 2 ^ 31) ∧
      (parts ≠ [] → received + part.data.length < 2 ^ 31) ∧
      Fits masked (received + part.data.length) parts

/-- The frames that make up the parts. -/
def frameCount (parts : List Part) : Nat := (parts.map fun part => part.controls.length + 1).sum

theorem frameCount_cons (part : Part) (parts : List Part) :
    frameCount (part :: parts) = part.controls.length + 1 + frameCount parts := by
  simp [frameCount]

theorem joined_cons (part : Part) (parts : List Part) :
    joined (part :: parts) = part.data ++ joined parts := by
  simp [joined]

theorem replies_cons (part : Part) (parts : List Part) :
    replies (part :: parts) = part.controls.flatMap Control.reply ++ replies parts := by
  simp [replies]

theorem isData_continue : Opcode.continue.IsData := Or.inl rfl

section Receive

variable {maxSize : Nat} {masked : Bool}

theorem exchange_recvLoop_parts {opcode : Opcode} (hop : opcode.IsData) {parts : List Part}
    (hne : parts ≠ []) (hdata : ∀ part ∈ parts, 0 < part.data.length) {st : RecvState}
    (hcur : st.curLen = st.data.length) (hlen : st.data.length < 2 ^ 31)
    (hmax : st.data.length + (joined parts).length < maxSize)
    (hfits : Fits masked st.data.length parts) {fuel : Nat} (hfuel : frameCount parts ≤ fuel) :
    Exchange (recvLoop maxSize (!masked) fuel st) (wire masked opcode parts) (replies parts)
      (some ⟨trackOpcode st.opcode opcode, st.data ++ joined parts⟩) := by
  induction parts generalizing opcode st fuel with
  | nil => exact absurd rfl hne
  | cons part parts ih =>
      obtain ⟨hsize, hmask, hnext, hrest⟩ := hfits
      rw [joined_cons, List.length_append] at hmax
      rw [frameCount_cons] at hfuel
      obtain ⟨n, rfl⟩ : ∃ n, fuel = part.controls.length + (n + 1) :=
        ⟨fuel - part.controls.length - 1, by omega⟩
      have hframe := exchange_recvFrame hop parts.isEmpty masked part.key hcur hlen
        (hdata part List.mem_cons_self) hsize hmask (by omega : _ < maxSize)
      rw [replies_cons, joined_cons]
      apply exchange_recvLoop_controls part.controls
      cases parts with
      | nil =>
          simp only [wire, replies, joined, List.flatMap_nil, List.append_nil]
          exact exchange_recvLoop_message n hframe
      | cons part' parts =>
          have hlen' : st.data.length + part.data.length < 2 ^ 31 := hnext (by simp)
          rw [frameResult, if_neg (by simp), int32_natCast hlen', ← List.length_append] at hframe
          have hloop := ih isData_continue (by simp)
            (fun p hp => hdata p (List.mem_cons_of_mem _ hp))
            (rfl : (RecvState.mk (trackOpcode st.opcode opcode) (st.data ++ part.data)
              (st.data ++ part.data).length).curLen = _)
            (by rw [List.length_append]; exact hlen')
            (by rw [List.length_append]; omega) (by rw [List.length_append]; exact hrest)
            (by omega : _ ≤ n)
          have htrack : trackOpcode (trackOpcode st.opcode opcode) .continue
              = trackOpcode st.opcode opcode := by simp [trackOpcode]
          rw [htrack, List.append_assoc] at hloop
          exact exchange_recvLoop_next (o := []) n hframe hloop

/-- The part after the running length has become negative. -/
theorem fails_recvLoop_negative {opcode : Opcode} (hop : opcode.IsData) (part : Part)
    (parts : List Part) {st : RecvState} (hneg : st.curLen < 0) (hlow : -2 ^ 31 ≤ st.curLen)
    (hsum : st.curLen + part.data.length < 0) (hmax : maxSize < 2 ^ 32) {fuel : Nat}
    (hfuel : frameCount (part :: parts) ≤ fuel) :
    Fails (recvLoop maxSize (!masked) fuel st) (wire masked opcode (part :: parts))
      (replies (part :: parts)) := by
  rw [frameCount_cons] at hfuel
  obtain ⟨n, rfl⟩ : ∃ n, fuel = part.controls.length + (n + 1) :=
    ⟨fuel - part.controls.length - 1, by omega⟩
  have hframe := exchange_recvFrame_negative hop parts.isEmpty masked hneg hlow hsum hmax
  have hfail := (fails_recvLoop_broken n hframe).extend
    (keyBytes masked part.key ++ bodyBytes masked part.key part.data ++ wire masked .continue parts)
    (replies parts)
  rw [replies_cons]
  apply fails_recvLoop_controls part.controls
  simpa only [frameBytes, List.append_assoc, List.nil_append] using hfail

theorem fails_recvLoop_parts {opcode : Opcode} (hop : opcode.IsData) {parts : List Part}
    {st : RecvState}
    (hcur : st.curLen = st.data.length) (hlen : st.data.length < 2 ^ 31)
    (hmax : st.data.length + (joined parts).length < maxSize) (hmax32 : maxSize < 2 ^ 32)
    (hfits : ¬ ((∀ part ∈ parts, 0 < part.data.length) ∧ Fits masked st.data.length parts))
    {fuel : Nat} (hfuel : frameCount parts ≤ fuel) :
    Fails (recvLoop maxSize (!masked) fuel st) (wire masked opcode parts) (replies parts) := by
  induction parts generalizing opcode st fuel with
  | nil => exact absurd ⟨by simp, trivial⟩ hfits
  | cons part parts ih =>
      rw [joined_cons, List.length_append] at hmax
      have hfuel' := hfuel
      rw [frameCount_cons] at hfuel
      obtain ⟨n, rfl⟩ : ∃ n, fuel = part.controls.length + (n + 1) :=
        ⟨fuel - part.controls.length - 1, by omega⟩
      rw [replies_cons]
      apply fails_recvLoop_controls part.controls
      by_cases hempty : part.data = []
      · -- the read of the payload reports no byte
        have hframe := exchange_recvFrame_empty hop parts.isEmpty masked part.key hcur hlen
          (by omega : _ < maxSize)
        rw [hempty]
        exact (fails_recvLoop_broken n hframe).extend _ _
      have hpos := List.length_pos_iff.mpr hempty
      by_cases hsize : 2 ^ 31 ≤ part.data.length
      · -- the read of the payload reports a negative length
        have hframe := exchange_recvFrame_long hop parts.isEmpty masked part.key hcur hlen
          hsize (by omega) (by omega : _ < maxSize)
        exact (fails_recvLoop_broken n hframe).extend _ _
      · by_cases hover : masked = true ∧ 2 ^ 31 < st.data.length + part.data.length
        · -- unmasking runs past the largest index
          obtain ⟨rfl, hover⟩ := hover
          intro s rest more hready msg s' hrun
          rw [List.append_assoc] at hready
          obtain ⟨f, t, hfault, _⟩ := recvFrame_faults hop hcur hlen (by omega) hover
            (by omega : _ < maxSize) hready
          rw [recvLoop, bind_error hfault] at hrun
          cases hrun
        · have hframe := exchange_recvFrame hop parts.isEmpty masked part.key hcur hlen
            hpos (by omega)
            (fun hmasked => by
              by_contra hlt
              exact hover ⟨hmasked, by omega⟩) (by omega : _ < maxSize)
          cases parts with
          | nil =>
              refine absurd ⟨by simpa using hpos, by omega, ?_, by simp, trivial⟩ hfits
              intro hmasked
              by_contra hlt
              exact hover ⟨hmasked, by omega⟩
          | cons part' parts =>
              rw [frameResult, if_neg (by simp)] at hframe
              rw [← List.nil_append (replies (part' :: parts))]
              apply fails_recvLoop_next n hframe
              rw [joined_cons, List.length_append] at hmax
              by_cases hnext : st.data.length + part.data.length < 2 ^ 31
              · rw [int32_natCast hnext, ← List.length_append]
                apply ih isData_continue
                · rfl
                · rw [List.length_append]
                  exact hnext
                · rw [List.length_append, joined_cons, List.length_append]
                  omega
                · rintro ⟨hdata, hrest⟩
                  rw [List.length_append] at hrest
                  refine hfits ⟨List.forall_mem_cons.mpr ⟨hpos, hdata⟩, by omega, ?_,
                    fun _ => hnext, hrest⟩
                  intro _
                  omega
                · omega
              · -- the running length wraps to a negative `int`
                have hlow := Nat.le_of_not_lt hnext
                apply fails_recvLoop_negative isData_continue
                · exact int32_wrap_neg hlow (by omega)
                · exact (int32_range _).1
                · exact int32_wrap_add hlow (by omega)
                · exact hmax32
                · omega

end Receive

/-! ## The round trip -/

/-- `Fits`, in terms of the fragments. -/
theorem fits_iff (masked : Bool) {parts : List Part} (hne : parts ≠ []) {received : Nat}
    (hreceived : received < 2 ^ 31) :
    Fits masked received parts ↔
      (∀ part ∈ parts, part.data.length < 2 ^ 31) ∧
      received + (joined parts.dropLast).length < 2 ^ 31 ∧
      (masked = true → received + (joined parts).length ≤ 2 ^ 31) := by
  induction parts generalizing received with
  | nil => exact absurd rfl hne
  | cons part parts ih =>
      rw [Fits, joined_cons, List.length_append, List.forall_mem_cons]
      cases parts with
      | nil =>
          simp only [ne_eq, not_true_eq_false, false_implies, Fits, and_true,
            List.dropLast_singleton,
            joined, List.flatMap_nil, List.length_nil, Nat.add_zero, List.not_mem_nil,
            implies_true, hreceived, true_and]
      | cons part' parts =>
          rw [List.dropLast_cons_of_ne_nil (by simp), joined_cons part, List.length_append]
          constructor
          · rintro ⟨hsize, _, hnext, hrest⟩
            obtain ⟨hsizes, hlast, hmask⟩ := (ih (by simp) (hnext (by simp))).mp hrest
            exact ⟨⟨hsize, hsizes⟩, by omega, fun h => by have := hmask h; omega⟩
          · rintro ⟨⟨hsize, hsizes⟩, hlast, hmask⟩
            refine ⟨hsize, fun _ => by omega, fun _ => by omega, ?_⟩
            rw [ih (by simp) (by omega)]
            exact ⟨hsizes, by omega, fun h => by have := hmask h; omega⟩

/-- The `PING`s among the control frames. -/
def pingCount (parts : List Part) : Nat := (parts.flatMap Part.controls).count .ping

theorem flatMap_reply (cs : List Control) :
    cs.flatMap Control.reply
      = (List.replicate (cs.count .ping) (WSFrameHead.control .pong).toBytes).flatten := by
  induction cs with
  | nil => rfl
  | cons c cs ih =>
      rw [List.flatMap_cons, ih]
      cases c with
      | ping => rw [List.count_cons_self, List.replicate_succ, List.flatten_cons]; rfl
      | pong => rw [List.count_cons_of_ne (by decide)]; rfl

/-- One `PONG` for each `PING`. -/
theorem replies_eq (parts : List Part) :
    replies parts
      = (List.replicate (pingCount parts) (WSFrameHead.control .pong).toBytes).flatten := by
  unfold pingCount
  rw [← flatMap_reply, List.flatMap_assoc]
  rfl

theorem frameCount_le_wire (client : Bool) (opcode : Opcode) (parts : List Part) :
    frameCount parts ≤ (wire client opcode parts).length := by
  induction parts generalizing opcode with
  | nil => exact Nat.zero_le _
  | cons part parts ih =>
      have hrest := ih .continue
      have hcontrols : part.controls.length ≤ (part.controls.flatMap Control.bytes).length := by
        induction part.controls with
        | nil => exact Nat.zero_le _
        | cons c cs ih =>
            have hbytes : c.bytes.length = 2 := rfl
            rw [List.flatMap_cons, List.length_append, List.length_cons]
            omega
      rw [frameCount_cons, wire, List.length_append, List.length_append, frameBytes,
        List.length_append, length_toBytes]
      omega

section RoundTrip

variable {maxSize : UInt32} {client : Bool} {opcode : Opcode} {parts : List Part}

theorem trackOpcode_first (hop : opcode = .textFrame ∨ opcode = .binFrame) :
    trackOpcode 0 opcode = opcode.value := by
  rcases hop with rfl | rfl <;> rfl

/-- `WSRecvMessage` over these parts, when the running length fits. -/
theorem wsRecvMessage_parts (hop : opcode.IsData) (hne : parts ≠ [])
    (hdata : ∀ part ∈ parts, 0 < part.data.length) (hmax : (joined parts).length < maxSize.toNat)
    (hfits : Fits client 0 parts) {s : Stream}
    (hready : Ready s (wire client opcode parts) (replies parts).length) :
    ∃ s', wsRecvMessage maxSize.toNat (!client) s
        = .ok (some ⟨trackOpcode 0 opcode, joined parts⟩) s' ∧
      Exchanged s (wire client opcode parts) (replies parts) s' := by
  have hfuel := (frameCount_le_wire client opcode parts).trans hready.reads.1
  have h : Exchange (recvLoop maxSize.toNat (!client) (s.reads.length + 1) {})
      (wire client opcode parts) (replies parts) (some ⟨trackOpcode 0 opcode, joined parts⟩) :=
    exchange_recvLoop_parts hop hne hdata rfl (by decide) (by simpa using hmax) hfits (by omega)
  obtain ⟨s', hrun, hex, _⟩ := h s [] 0 (by rwa [List.append_nil, Nat.add_zero])
  exact ⟨s', hrun, hex⟩

/-- `WSRecvMessage` over these parts, when one is empty or the running length overflows. -/
theorem wsRecvMessage_parts_fails (hop : opcode.IsData)
    (hmax : (joined parts).length < maxSize.toNat)
    (hfits : ¬ ((∀ part ∈ parts, 0 < part.data.length) ∧ Fits client 0 parts)) {s : Stream}
    (hready : Ready s (wire client opcode parts) (replies parts).length) :
    ∀ msg s', wsRecvMessage maxSize.toNat (!client) s ≠ .ok (some msg) s' := by
  have hfuel := (frameCount_le_wire client opcode parts).trans hready.reads.1
  have h : Fails (recvLoop maxSize.toNat (!client) (s.reads.length + 1) {})
      (wire client opcode parts) (replies parts) :=
    fails_recvLoop_parts hop rfl (by decide) (by simpa using hmax) maxSize.toNat_lt hfits
      (by omega)
  exact h s [] 0 (by rwa [List.append_nil, Nat.add_zero])

/-- The message arrives as it was sent, with one `PONG` for each `PING` and
nothing read past the last frame, exactly when `int cur_len` holds every length
it has to. -/
theorem wsRecvMessage_sendParts_iff (maxSize : UInt32) (sender receiver : Stream)
    (hop : opcode = .textFrame ∨ opcode = .binFrame)
    (hne : parts ≠ []) (hdata : ∀ part ∈ parts, part.data ≠ [])
    (hmax : (joined parts).length < maxSize.toNat)
    (hsender : Flows sender.writes (wire client opcode parts).length)
    (hreads : Flows receiver.reads (wire client opcode parts).length)
    (hwrites : Flows receiver.writes (replies parts).length)
    (hinput : window receiver.input receiver.taken (wire client opcode parts).length
      = wire client opcode parts) :
    (∃ sent, sendParts client opcode parts sender = .ok () sent ∧
      sent.output = sender.output ++ wire client opcode parts) ∧
    ((∃ after, wsRecvMessage maxSize.toNat (!client) receiver
          = .ok (some ⟨opcode.value, joined parts⟩) after ∧
        after.taken = receiver.taken + (wire client opcode parts).length ∧
        after.output = receiver.output ++
          (List.replicate (pingCount parts) (WSFrameHead.control .pong).toBytes).flatten) ↔
      (∀ part ∈ parts, part.data.length < 2 ^ 31) ∧
      (joined parts.dropLast).length < 2 ^ 31 ∧
      (client = true → (joined parts).length ≤ 2 ^ 31)) := by
  have hpos : ∀ part ∈ parts, 0 < part.data.length :=
    fun part hpart => List.length_pos_iff.mpr (hdata part hpart)
  have hisData : opcode.IsData := Or.inr hop
  have hlt := maxSize.toNat_lt
  have hsizes : ∀ part ∈ parts, part.data.length < 2 ^ 64 := by
    intro part hpart
    have hle : part.data.length ≤ (joined parts).length := by
      unfold joined
      rw [List.flatMap_def]
      exact (List.sublist_flatten_of_mem (List.mem_map_of_mem hpart)).length_le
    omega
  constructor
  · obtain ⟨sent, hrun, hex, _⟩ := exchange_sendParts client opcode parts hsizes sender [] 0
      ⟨rfl, flows_zero _, hsender⟩
    exact ⟨sent, hrun, hex.output_eq⟩
  · have hready : Ready receiver (wire client opcode parts) (replies parts).length :=
      ⟨hinput, hreads, hwrites⟩
    have hiff := fits_iff client hne (by decide : 0 < 2 ^ 31)
    rw [Nat.zero_add, Nat.zero_add] at hiff
    rw [← hiff]
    constructor
    · rintro ⟨after, hrun, _⟩
      by_contra hfits
      exact wsRecvMessage_parts_fails hisData hmax (fun h => hfits h.2) hready _ _ hrun
    · intro hfits
      obtain ⟨after, hrun, hex⟩ := wsRecvMessage_parts hisData hne hpos hmax hfits hready
      rw [trackOpcode_first hop] at hrun
      exact ⟨after, hrun, hex.taken_eq, by rw [hex.output_eq, replies_eq]⟩

/-- Three fragments of `2^30` bytes each, with a limit of `2^32 - 1`: after two of
them `cur_len` is negative, and the third is refused. -/
theorem wsRecvMessage_refuses_fragments :
    let part : Part := ⟨[], 0, List.replicate (2 ^ 30) 0⟩
    let parts := [part, part, part]
    let receiver := Stream.ofBytes (wire false .textFrame parts) (replies parts).length
    (joined parts).length < (4294967295 : UInt32).toNat ∧
      ∀ msg after, wsRecvMessage (4294967295 : UInt32).toNat true receiver
        ≠ .ok (some msg) after := by
  intro part parts receiver
  have hpart : part.data.length = 2 ^ 30 := List.length_replicate
  have htotal : (joined parts).length = 3 * 2 ^ 30 := by
    simp only [parts, joined, List.flatMap_cons, List.flatMap_nil, List.length_append, hpart,
      List.length_nil]
    omega
  have hmax : (joined parts).length < (4294967295 : UInt32).toNat := by
    rw [htotal]
    decide
  have hfits : ¬ ((∀ p ∈ parts, 0 < p.data.length) ∧ Fits false 0 parts) := by
    rintro ⟨_, _, _, _, _, _, hnext, _⟩
    have hlt := hnext (by simp)
    rw [hpart] at hlt
    omega
  exact ⟨hmax, wsRecvMessage_parts_fails (Or.inr (Or.inl rfl)) hmax hfits
    (ready_ofBytes _ _)⟩

end RoundTrip

/-- A masked message in two fragments, with control frames around the first. -/
theorem wsRecvMessage_sendParts_masked :
    let parts : List Part := [⟨[.ping, .pong], 7, [1, 2, 3, 4, 5]⟩, ⟨[.ping], 9, [6]⟩]
    let sender : Stream :=
      ⟨fun _ => 0, 0, [], [], List.replicate (wire true .binFrame parts).length
        (.moves 3 (by decide) (by decide)), false⟩
    let receiver := Stream.ofBytes (wire true .binFrame parts) (replies parts).length
    (∃ sent, sendParts true .binFrame parts sender = .ok () sent ∧
      sent.output = wire true .binFrame parts) ∧
    ∃ after, wsRecvMessage (64 : UInt32).toNat false receiver
        = .ok (some ⟨2, [1, 2, 3, 4, 5, 6]⟩) after ∧ after.output.length = 4 := by
  intro parts sender receiver
  have hready := ready_ofBytes (wire true .binFrame parts) (replies parts).length
  obtain ⟨hsent, hiff⟩ := wsRecvMessage_sendParts_iff 64 sender receiver
    (Or.inr rfl) (by simp [parts]) (by simp [parts]) (by decide)
    (flows_replicate _ _ _) hready.reads hready.writes hready.input
  obtain ⟨after, hrun, _, hout⟩ := hiff.mpr (by decide)
  exact ⟨hsent, after, hrun, by rw [hout]; rfl⟩

end Lyslg
