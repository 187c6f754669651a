import Lyslg.Http.WSRoundTrip
import Lyslg.Support.Run
/-!
# Sending one message more than once

`WSSendMessage` masks the data of the message object it is given.  A run is a sequence of calls
with the same object, each on a connection in any state: a broadcast, or a retry.
`sends_unconsumed_iff` says in which runs the object stays as it was.
-/

namespace Lyslg

open Support Support.State Support.Words Support.Machine

/-! ## Sends -/

/-- A call of `WSSendMessage`: the connection, and what `rand()` returns in the call. -/
structure WSSend where
  stream : Stream
  client : Bool
  fin : Bool
  key : BitVec 32

namespace WSSend

def call (send : WSSend) (msg : WSFrameMessage) :
    EStateM.Result Stop Stream (Int × WSFrameMessage) :=
  wsSendMessage msg send.client send.fin send.key send.stream

/-- `ws_head` -/
def head (send : WSSend) (msg : WSFrameMessage) : WSFrameHead where
  opcode := .ofInt 4 msg.opcode
  fin := send.fin
  payload := .ofNat 7 (payloadField msg.data.length)
  mask := send.client

/-- The connection takes the head and the length behind it. -/
def HeadOut (send : WSSend) (msg : WSFrameMessage) : Prop :=
  ∃ v s t, writeFix (send.head msg).toBytes send.stream = .ok v s ∧ 0 < v ∧
    sendLength (send.head msg) msg.data.length s = .ok true t

/-- The send masks nothing: it is a server's, or the bytes of the key that meet the data are
zero, or it fails before. -/
def Keeps (send : WSSend) (msg : WSFrameMessage) : Prop :=
  send.client = false ∨
    (∀ i < msg.data.length, (leBytes 4 send.key.toNat).getD (i % 4) 0 = 0) ∨ ¬ send.HeadOut msg

/-- The connection takes the whole frame of a message and brings it to a peer, whose
`WSRecvMessage` returns a message with this data. -/
def Delivers (send : WSSend) (msg : WSFrameMessage) (data : List UInt8) : Prop :=
  ∃ (opcode : Opcode) (maxSize : UInt32) (v : Int) (msg' got : WSFrameMessage) (bytes : List UInt8)
      (sent receiver after : Stream),
    (opcode = .textFrame ∨ opcode = .binFrame) ∧ msg.opcode = opcode.value ∧ send.fin = true ∧
    Flows send.stream.writes (frameBytes opcode true send.client send.key msg.data).length ∧
    send.call msg = .ok (v, msg') sent ∧ sent.output = send.stream.output ++ bytes ∧
    Ready receiver bytes 0 ∧
    wsRecvMessage maxSize.toNat (!send.client) receiver = .ok (some got) after ∧ got.data = data

end WSSend

/-- The call returns and leaves the message so. -/
def Leaves (msg : WSFrameMessage) (send : WSSend) (msg' : WSFrameMessage) : Prop :=
  ∃ v t, send.call msg = .ok (v, msg') t

/-- Every send leaves the message as it was before the first one, and every peer that gets it
gets its data. -/
def Unconsumed (m : WSFrameMessage) (sends : List WSSend) : Prop :=
  ∀ before send after msg, sends = before ++ send :: after → Run Leaves m before msg →
    (∀ msg', Leaves msg send msg' → msg' = m) ∧ ∀ data, send.Delivers msg data → data = m.data

/-! ## One send -/

section

variable {send : WSSend} {msg msg' : WSFrameMessage}

theorem sendFailed_message {s t : Stream} {v : Int} (h : sendFailed msg s = .ok (v, msg') t) :
    msg' = msg := by
  unfold sendFailed at h
  obtain ⟨_, _, _, hreturn⟩ := bind_inv h
  cases hreturn
  rfl

/-- What the call leaves, by how far it gets. -/
theorem leaves_message (h : Leaves msg send msg') :
    (send.HeadOut msg → msg' = { msg with data := bodyBytes send.client send.key msg.data }) ∧
      (¬ send.HeadOut msg → msg' = msg) := by
  obtain ⟨w, t, hcall⟩ := h
  unfold WSSend.call wsSendMessage at hcall
  obtain ⟨v, s, hhead, hrest⟩ := bind_inv hcall
  by_cases hv : v ≤ 0
  · rw [if_pos hv] at hrest
    refine ⟨?_, fun _ => sendFailed_message hrest⟩
    rintro ⟨v', s', _, hhead', hpos, _⟩
    cases hhead.symm.trans hhead'
    omega
  · rw [if_neg hv] at hrest
    obtain ⟨sent, s', hlength, hrest⟩ := bind_inv hrest
    cases sent with
    | false =>
        refine ⟨?_, fun _ => sendFailed_message hrest⟩
        rintro ⟨v', u, _, hhead', _, hlength'⟩
        cases hhead.symm.trans hhead'
        cases hlength.symm.trans hlength'
    | true =>
        have hout : send.HeadOut msg := ⟨v, s, s', hhead, by omega, hlength⟩
        refine ⟨fun _ => ?_, fun hnot => absurd hout hnot⟩
        obtain ⟨⟨taken, masked⟩, s'', hmask, hrest⟩ := bind_inv hrest
        have hmasked : masked = { msg with data := bodyBytes send.client send.key msg.data } := by
          unfold sendMask at hmask
          unfold bodyBytes
          cases hclient : send.client with
          | false =>
              rw [hclient] at hmask
              cases hmask
              rfl
          | true =>
              rw [hclient] at hmask
              obtain ⟨_, _, _, hreturn⟩ := bind_inv hmask
              cases hreturn
              rfl
        rw [← hmasked]
        cases taken with
        | false => exact sendFailed_message hrest
        | true =>
            obtain ⟨v', s''', _, hrest⟩ := bind_inv hrest
            by_cases hv' : v' ≤ 0
            · simp only [if_pos hv'] at hrest
              exact sendFailed_message hrest
            · simp only [if_neg hv'] at hrest
              cases hrest
              rfl

theorem xor_eq_self_iff (a k : UInt8) : a ^^^ k = a ↔ k = 0 := by
  constructor
  · intro h
    rw [← UInt8.xor_zero (a := k), ← UInt8.xor_self (a := a), UInt8.xor_comm, UInt8.xor_assoc, h,
      UInt8.xor_self]
  · rintro rfl
    exact UInt8.xor_zero

theorem xorMask_eq_self_iff (mask data : List UInt8) :
    xorMask mask data = data ↔ ∀ i < data.length, mask.getD (i % 4) 0 = 0 := by
  unfold xorMask
  constructor
  · intro h i hi
    have hget := congrArg (fun l : List UInt8 => l[i]?) h
    simp only [List.getElem?_mapIdx, List.getElem?_eq_getElem hi, Option.map_some,
      Option.some.injEq] at hget
    exact (xor_eq_self_iff _ _).mp hget
  · intro h
    apply List.ext_getElem
    · exact List.length_mapIdx
    · intro i _ hi
      rw [List.getElem_mapIdx]
      exact (xor_eq_self_iff _ _).mpr (h i hi)

/-- A send leaves the message as it is if and only if it masks nothing. -/
theorem leaves_eq_iff (h : Leaves msg send msg') : msg' = msg ↔ send.Keeps msg := by
  obtain ⟨hmasks, hfails⟩ := leaves_message h
  unfold WSSend.Keeps
  by_cases hout : send.HeadOut msg
  · have hsame : msg' = msg ↔ bodyBytes send.client send.key msg.data = msg.data := by
      rw [hmasks hout]
      exact ⟨fun h => congrArg WSFrameMessage.data h, fun h => by rw [h]⟩
    rw [hsame, bodyBytes]
    cases send.client with
    | false => exact iff_of_true rfl (.inl rfl)
    | true => simp [hout, xorMask_eq_self_iff]
  · exact iff_of_true (hfails hout) (.inr (.inr hout))

end

/-! ## What a peer gets -/

section

variable {maxSize : UInt32} {client : Bool} {opcode : Opcode} {key : BitVec 32} {data : List UInt8}

theorem wire_one :
    wire client opcode [⟨[], key, data⟩] = frameBytes opcode true client key data := by
  simp [wire]

/-- A frame that the size check refuses. -/
theorem exchange_recvFrame_refused (client : Bool) (hop : opcode.IsData)
    (hsize : data.length < 2 ^ 64)
    (hmax : maxSize.toNat ≤ data.length) :
    Exchange (recvFrame maxSize.toNat (!client) {})
      ((dataHead opcode true client data.length).toBytes ++ lengthBytes data.length)
      [] .broken := by
  have hcheck : maxSize.toNat ≤ addSize (sizeT ({} : RecvState).curLen) data.length := by
    have hzero : sizeT ({} : RecvState).curLen = 0 := sizeT_natCast (by decide : 0 < 2 ^ 64)
    rw [hzero, addSize_of_lt (by omega)]
    omega
  have h := exchange_recvFrame_of_header (exchange_recvHeader hop
    (exchange_recvDataHeader_broken opcode true client hsize hcheck)) (exchange_pure _)
  rwa [List.append_nil] at h

/-- What comes out of a message of one frame has the data that were sent. -/
theorem wsRecvMessage_frame (hop : opcode = .textFrame ∨ opcode = .binFrame)
    (hsize : data.length < 2 ^ 64) {receiver after : Stream}
    (hready : Ready receiver (frameBytes opcode true client key data) 0) {got : WSFrameMessage}
    (h : wsRecvMessage maxSize.toNat (!client) receiver = .ok (some got) after) :
    got.data = data := by
  have hdata : opcode.IsData := .inr hop
  by_cases hmax : data.length < maxSize.toNat
  · have hjoined : joined [⟨[], key, data⟩] = data := by simp [joined]
    have hwire : Ready receiver (wire client opcode [⟨[], key, data⟩])
        (replies [⟨[], key, data⟩]).length := by
      rw [wire_one]
      exact hready
    rw [← hjoined] at hmax
    by_cases hfits : (∀ part ∈ [(⟨[], key, data⟩ : Part)], 0 < part.data.length) ∧
        Fits client 0 [⟨[], key, data⟩]
    · obtain ⟨after', hrun, _⟩ :=
        wsRecvMessage_parts hdata (List.cons_ne_nil _ _) hfits.1 hmax hfits.2 hwire
      rw [h, hjoined] at hrun
      cases hrun
      rfl
    · exact absurd h (wsRecvMessage_parts_fails hdata hmax hfits hwire got after)
  · have hfails := (fails_recvLoop_broken receiver.reads.length
      (exchange_recvFrame_refused client hdata hsize (Nat.le_of_not_lt hmax))).extend
      (keyBytes client key ++ bodyBytes client key data) []
    rw [List.append_assoc] at hfails
    exact absurd h (hfails receiver [] 0 (by rwa [List.append_nil]) got after)

/-- A peer gets the data that the object has in the call. -/
theorem WSSend.Delivers.data_eq {send : WSSend} {msg : WSFrameMessage}
    (h : send.Delivers msg data) (hsize : msg.data.length < 2 ^ 64) : data = msg.data := by
  obtain ⟨opcode, maxSize, v, msg', got, bytes, sent, receiver, after, hop, hopcode, hfin, hflows,
    hcall, hout, hready, hrecv, rfl⟩ := h
  obtain ⟨code, content⟩ := msg
  simp only at hopcode hsize hflows hcall ⊢
  subst hopcode
  have hexchange := exchange_wsSendMessage opcode send.client send.fin send.key hsize
  obtain ⟨t, hrun, hsent, _⟩ := hexchange send.stream [] 0
    ⟨rfl, flows_zero _, by rw [hfin]; exact hflows⟩
  have hsame : sent = t := by
    have hboth := hcall.symm.trans hrun
    cases hboth
    rfl
  rw [← hsame] at hsent
  have hbytes : bytes = frameBytes opcode true send.client send.key content := by
    rw [← hfin]
    exact List.append_cancel_left (hout.symm.trans hsent.output_eq)
  rw [hbytes] at hready
  exact wsRecvMessage_frame hop hsize hready hrecv

/-- A connection that takes the frame. -/
theorem leaves_of_flows (send : WSSend) (opcode : Opcode) (data : List UInt8)
    (hsize : data.length < 2 ^ 64)
    (hflows : Flows send.stream.writes
      (frameBytes opcode send.fin send.client send.key data).length) :
    ∃ v t, send.call ⟨opcode.value, data⟩ =
        .ok (v, ⟨opcode.value, bodyBytes send.client send.key data⟩) t ∧
      t.output = send.stream.output ++ frameBytes opcode send.fin send.client send.key data := by
  obtain ⟨t, hrun, hsent, _⟩ := exchange_wsSendMessage opcode send.client send.fin send.key hsize
    send.stream [] 0 ⟨rfl, flows_zero _, hflows⟩
  exact ⟨_, t, hrun, hsent.output_eq⟩

/-- There are peers that get a message of one frame. -/
theorem delivers_of_flows {send : WSSend} (hop : opcode = .textFrame ∨ opcode = .binFrame)
    (hfin : send.fin = true) (hpos : 0 < data.length) (hsize : data.length < 2 ^ 31)
    (hflows : Flows send.stream.writes
      (frameBytes opcode true send.client send.key data).length) :
    send.Delivers ⟨opcode.value, data⟩ data := by
  obtain ⟨v, t, hcall, hout⟩ :=
    leaves_of_flows send opcode data (by omega) (by rw [hfin]; exact hflows)
  rw [hfin] at hout
  have hready := ready_ofBytes (frameBytes opcode true send.client send.key data) 0
  have hjoined : joined [⟨[], send.key, data⟩] = data := by simp [joined]
  have hmax : (joined [⟨[], send.key, data⟩]).length < (4294967295 : UInt32).toNat := by
    rw [hjoined]
    exact Nat.lt_trans hsize (by decide)
  have hfits : Fits send.client 0 [⟨[], send.key, data⟩] := by
    simp [Fits]
    omega
  obtain ⟨after, hrecv, _⟩ := wsRecvMessage_parts (.inr hop) (List.cons_ne_nil _ _)
    (by simpa using hpos) hmax hfits (by rw [wire_one]; exact hready)
  exact ⟨opcode, 4294967295, v, _, _, _, t, _, after, hop, rfl, hfin, hflows, hcall,
    hout, hready, hrecv,
    hjoined⟩

end

/-! ## Runs -/

/-- Sends that mask nothing leave the message. -/
theorem run_keeps {m msg : WSFrameMessage} {sends : List WSSend} (h : Run Leaves m sends msg)
    (hkeeps : ∀ send ∈ sends, send.Keeps m) : msg = m := by
  induction h with
  | nil m => rfl
  | cons hstep _ ih =>
      obtain ⟨hfirst, hrest⟩ := List.forall_mem_cons.mp hkeeps
      obtain rfl := (leaves_eq_iff hstep).mpr hfirst
      exact ih hrest

/-- In a run that does not consume the message it is the same before every send. -/
theorem Unconsumed.before_eq {m msg : WSFrameMessage} {sends before after : List WSSend}
    {send : WSSend} (h : Unconsumed m sends) (hsends : sends = before ++ send :: after)
    (hrun : Run Leaves m before msg) : msg = m := by
  rcases List.eq_nil_or_concat before with rfl | ⟨earlier, last, hlast⟩
  · cases hrun
    rfl
  · rw [List.concat_eq_append] at hlast
    subst hlast
    obtain ⟨mid, hearlier, hlast⟩ := Run.split hrun
    cases hlast with
    | cons hstep hnil =>
        cases hnil
        rw [List.append_assoc, List.singleton_append] at hsends
        exact (h earlier last (send :: after) mid hsends hearlier).1 msg hstep

/-- A run of sends, with a message whose size a `uint64_t` holds, leaves the message as it is and
every peer gets its data, if and only if no send masks any of it. -/
theorem sends_unconsumed_iff {m m' : WSFrameMessage} {sends : List WSSend}
    (hsize : m.data.length < 2 ^ 64) (hrun : Run Leaves m sends m') :
    Unconsumed m sends ↔ ∀ send ∈ sends, send.Keeps m := by
  constructor
  · intro h send hsend
    obtain ⟨before, after, hsends⟩ := List.append_of_mem hsend
    rw [hsends] at hrun
    obtain ⟨msg, hbefore, hrest⟩ := Run.split hrun
    obtain rfl := h.before_eq hsends hbefore
    cases hrest with
    | cons hstep _ =>
        exact (leaves_eq_iff hstep).mp ((h before send after msg hsends hbefore).1 _ hstep)
  · rintro hkeeps before send after msg rfl hbefore
    rw [List.forall_mem_append, List.forall_mem_cons] at hkeeps
    obtain ⟨hearlier, hsend, _⟩ := hkeeps
    obtain rfl := run_keeps hbefore hearlier
    exact ⟨fun msg' hstep => (leaves_eq_iff hstep).mpr hsend,
      fun data hdelivers => hdelivers.data_eq hsize⟩

/-- A server may send a message to two of its clients. -/
theorem sends_unconsumed_iff_server :
    let send : WSSend := ⟨Stream.ofBytes [] 4, false, true, 7⟩
    Unconsumed ⟨1, [104, 105]⟩ [send, send] := by
  intro send
  obtain ⟨v, t, hcall, _⟩ := leaves_of_flows send .textFrame [104, 105] (by decide)
    (ready_ofBytes [] 4).writes
  have hstep : Leaves ⟨1, [104, 105]⟩ send ⟨1, [104, 105]⟩ := ⟨v, t, hcall⟩
  refine (sends_unconsumed_iff (by decide) (.cons hstep (.cons hstep (.nil _)))).mpr ?_
  simp [send, WSSend.Keeps]

/-- A client that sends `hi` to two servers: the second gets `ii`. -/
theorem broadcast_consumes :
    let first : WSSend := ⟨Stream.ofBytes [] 8, true, true, 1⟩
    let second : WSSend := ⟨Stream.ofBytes [] 8, true, true, 2⟩
    Leaves ⟨1, [104, 105]⟩ first ⟨1, [105, 105]⟩ ∧ second.Delivers ⟨1, [105, 105]⟩ [105, 105] ∧
      ¬ Unconsumed ⟨1, [104, 105]⟩ [first, second] := by
  intro first second
  obtain ⟨v, t, hcall, _⟩ := leaves_of_flows first .textFrame [104, 105] (by decide)
    (ready_ofBytes [] 8).writes
  have hmasked : bodyBytes first.client first.key [104, 105] = [105, 105] := by decide
  rw [hmasked] at hcall
  have hstep : Leaves ⟨1, [104, 105]⟩ first ⟨1, [105, 105]⟩ := ⟨v, t, hcall⟩
  have hdelivers : second.Delivers ⟨Opcode.textFrame.value, [105, 105]⟩ [105, 105] :=
    delivers_of_flows (.inl rfl) rfl (by decide) (by decide) (ready_ofBytes [] 8).writes
  refine ⟨hstep, hdelivers, fun h => ?_⟩
  have hdata := (h [first] second [] _ rfl (.cons hstep (.nil _))).2 _ hdelivers
  exact absurd hdata (by decide)

end Lyslg
