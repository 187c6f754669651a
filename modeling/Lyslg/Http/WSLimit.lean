import Lyslg.Http.WSFrame
import Lyslg.Support.Run
/-!
# The message limit of the WebSocket decoder

The size check adds an `int` and a 64-bit length from the wire as `uint64_t`s.
`FrameStep` is one iteration of the receive loop, and a run of such steps is a
run of `WSRecvMessage`.  Along a run in which the sum never wraps, `cur_len`
stays the length of `data` and the check does what it is there for.
-/

namespace Lyslg

open Support.Memory Support.Machine Support.State Support

/-! ## Runs of the receive loop -/

/-- An iteration after which the loop goes on. -/
def FrameStep (maxSize : Nat) (client : Bool) (before : RecvState × Stream) (_ : Unit)
    (after : RecvState × Stream) : Prop :=
  recvFrame maxSize client before.1 before.2 = .ok (.next after.1) after.2

/-- The loop gets from its start on the stream `s₀` to the state `st` and the stream `s`. -/
def Reaches (maxSize : Nat) (client : Bool) (s₀ : Stream) (st : RecvState) (s : Stream) : Prop :=
  ∃ ls, Run (FrameStep maxSize client) ({}, s₀) ls (st, s)

/-- The buffer the payload is read into. -/
def payloadBuffer (st : RecvState) (length : Nat) : List UInt8 :=
  resize st.data (addSize (sizeT st.curLen) length)

/-- What the size check is there for: the payload goes behind the bytes received so
far, in a string that is shorter than the limit and ends with it. -/
structure WithinLimit (maxSize : Nat) (st : RecvState) (length : Nat) (s : Stream) : Prop where
  below : st.curLen + length < maxSize
  resized : ((payloadBuffer st length).length : Int) = st.curLen + length
  indices : ∀ c ∈ (readFixSize s (payloadBuffer st length) (sizeT st.curLen) length).calls,
    st.curLen ≤ c.addr ∧ (c.addr + c.left : Int) ≤ st.curLen + length

/-- A payload step on which nothing wraps: the sum of the lengths is a `uint64_t`,
and an `int` if the loop goes on, and no read of the payload fails. -/
structure NoWrap (st : RecvState) (head : WSFrameHead) (length : Nat) (s : Stream) : Prop where
  sum : st.data.length + length < 2 ^ 64
  next : head.fin = false → st.data.length + length < 2 ^ 31
  reads : meetsError s.reads length length = false

/-- The next iteration, if it gets to a payload, does so without wrapping. -/
def NoWrapAt (maxSize : Nat) (client : Bool) (st : RecvState) (s : Stream) : Prop :=
  ∀ head length mask mid,
    recvHeader maxSize client st.curLen s = .ok (.payload head length mask) mid →
      NoWrap st head length mid

/-! ## What an iteration does -/

/-- A payload is only reached through the size check. -/
theorem recvDataHeader_payload {maxSize : Nat} {client : Bool} {curLen : Int}
    {head head' : WSFrameHead} {length : Nat} {mask : List UInt8} {s t : Stream}
    (h : recvDataHeader maxSize client curLen head s = .ok (.payload head' length mask) t) :
    addSize (sizeT curLen) length < maxSize := by
  unfold recvDataHeader at h
  split at h
  · cases h
  · obtain ⟨len, u, _, h⟩ := bind_inv h
    cases len with
    | none => cases h
    | some len =>
        simp only at h
        split at h
        · cases h
        · rename_i hcheck
          obtain ⟨m, u', _, h⟩ := bind_inv h
          cases m with
          | none => cases h
          | some m =>
              cases h
              omega

theorem recvHeader_payload {maxSize : Nat} {client : Bool} {curLen : Int}
    {head : WSFrameHead} {length : Nat} {mask : List UInt8} {s t : Stream}
    (h : recvHeader maxSize client curLen s = .ok (.payload head length mask) t) :
    addSize (sizeT curLen) length < maxSize := by
  unfold recvHeader at h
  obtain ⟨⟨v, bytes⟩, u, _, h⟩ := bind_inv h
  simp only at h
  split at h
  · cases h
  · split at h
    · obtain ⟨v', u', _, h⟩ := bind_inv h
      split at h <;> cases h
    · split at h
      · cases h
      · split at h
        · exact recvDataHeader_payload h
        · cases h

/-- Reading the payload does not change the length of the buffer. -/
theorem length_recvData {st : RecvState} {length : Nat} {s t : Stream} {v : Int}
    {data : List UInt8} (h : recvData st length s = .ok (v, data) t) :
    data.length = (payloadBuffer st length).length := by
  have hkeep : (fixLoop (readTransfer (sizeT st.curLen)) length s.reads 0 length
      (s, payloadBuffer st length)).dev.2.length = (payloadBuffer st length).length := by
    apply fixLoop_invariant
      (Q := fun dev : Stream × List UInt8 => dev.2.length = (payloadBuffer st length).length)
    · intro ev offset left dev c dev' hcall hdev
      rw [length_readTransfer hcall, hdev]
    · rfl
  unfold recvData readFix FixRun.settle at h
  split at h
  · cases h
    exact hkeep
  · cases h
  · cases h

theorem length_unmaskLoop {mask : List UInt8} {curLen : Int} {i n : Nat} {data data' : List UInt8}
    (h : unmaskLoop mask curLen i n data = .ok data') : data'.length = data.length := by
  induction n generalizing i data with
  | zero =>
      cases h
      rfl
  | succ n ih =>
      unfold unmaskLoop at h
      simp only at h
      split at h
      · cases h
      · rw [ih h, List.length_set]

theorem length_unmask {head : WSFrameHead} {mask : List UInt8} {curLen : Int} {length : Nat}
    {data data' : List UInt8} {s t : Stream}
    (h : unmask head mask curLen length data s = .ok data' t) : data'.length = data.length := by
  unfold unmask at h
  split at h
  · split at h
    · rename_i hloop
      cases h
      exact length_unmaskLoop hloop
    · cases h
  · cases h
    rfl

/-- How the payload part can end. -/
theorem recvPayload_cases {st : RecvState} {head : WSFrameHead} {length : Nat}
    {mask : List UInt8} {s t : Stream} {frame : Frame}
    (h : recvPayload st head length mask s = .ok frame t) :
    frame = .broken ∨
    (∃ st', frame = .next st' ∧ head.fin = false ∧
      st'.data.length = (payloadBuffer st length).length ∧
      st'.curLen = int32 (addSize (sizeT st.curLen) length)) ∨
    ∃ msg, frame = .message msg ∧ msg.data.length = (payloadBuffer st length).length := by
  unfold recvPayload at h
  obtain ⟨⟨v, data⟩, u, hread, h⟩ := bind_inv h
  simp only at h
  split at h
  · cases h
    exact Or.inl rfl
  · obtain ⟨data', u', hmask, h⟩ := bind_inv h
    have hlen : data'.length = (payloadBuffer st length).length :=
      (length_unmask hmask).trans (length_recvData hread)
    cases hfin : head.fin with
    | true =>
        rw [hfin] at h
        cases h
        exact Or.inr (Or.inr ⟨_, rfl, hlen⟩)
    | false =>
        rw [hfin] at h
        cases h
        exact Or.inr (Or.inl ⟨_, rfl, rfl, hlen, rfl⟩)

/-- How an iteration can end. -/
theorem recvFrame_cases {maxSize : Nat} {client : Bool} {st : RecvState} {s t : Stream}
    {frame : Frame} (h : recvFrame maxSize client st s = .ok frame t) :
    frame = .broken ∨ frame = .next st ∨
    ∃ head length mask mid,
      recvHeader maxSize client st.curLen s = .ok (.payload head length mask) mid ∧
      recvPayload st head length mask mid = .ok frame t := by
  unfold recvFrame at h
  obtain ⟨header, mid, hheader, h⟩ := bind_inv h
  cases header with
  | broken =>
      cases h
      exact Or.inl rfl
  | skipped =>
      cases h
      exact Or.inr (Or.inl rfl)
  | payload head length mask => exact Or.inr (Or.inr ⟨head, length, mask, mid, hheader, h⟩)

/-! ## The invariant -/

/-- `cur_len` is the number of bytes received so far. -/
def Tracks (st : RecvState) : Prop :=
  st.curLen = st.data.length ∧ st.data.length < 2 ^ 31

section Invariant

variable {st : RecvState}

theorem Tracks.sum_eq (h : Tracks st) {length : Nat} (hsum : st.data.length + length < 2 ^ 64) :
    addSize (sizeT st.curLen) length = st.data.length + length := by
  rw [h.1, sizeT_natCast (by omega), addSize_of_lt hsum]

theorem Tracks.length_payloadBuffer (h : Tracks st) {length : Nat}
    (hsum : st.data.length + length < 2 ^ 64) :
    (payloadBuffer st length).length = st.data.length + length := by
  unfold payloadBuffer
  rw [h.sum_eq hsum, resize_grow, List.length_append, List.length_replicate]

/-- An iteration that does not wrap keeps the invariant. -/
theorem Tracks.step {maxSize : Nat} {client : Bool} {st' : RecvState} {s s' : Stream}
    (h : Tracks st) (hsafe : NoWrapAt maxSize client st s)
    (hstep : recvFrame maxSize client st s = .ok (.next st') s') : Tracks st' := by
  rcases recvFrame_cases hstep with hbad | hsame | ⟨head, length, mask, mid, hheader, hpayload⟩
  · cases hbad
  · cases hsame
    exact h
  · have hno := hsafe _ _ _ _ hheader
    rcases recvPayload_cases hpayload with hbad | ⟨st'', heq, hfin, hlen, hcur⟩ | ⟨_, hbad, _⟩
    · cases hbad
    · cases heq
      have hnext := hno.next hfin
      rw [h.length_payloadBuffer hno.sum] at hlen
      refine ⟨?_, by omega⟩
      rw [hcur, h.sum_eq hno.sum, int32_natCast hnext, hlen]
    · cases hbad

/-- A payload step that does not wrap respects the limit. -/
theorem Tracks.withinLimit {maxSize : Nat} {client : Bool} {s mid : Stream} {head : WSFrameHead}
    {length : Nat} {mask : List UInt8} (h : Tracks st) (hmax : maxSize < 2 ^ 32)
    (hheader : recvHeader maxSize client st.curLen s = .ok (.payload head length mask) mid)
    (hno : NoWrap st head length mid) : WithinLimit maxSize st length mid := by
  have hcheck := recvHeader_payload hheader
  rw [h.sum_eq hno.sum] at hcheck
  have hbuffer := h.length_payloadBuffer hno.sum
  refine ⟨?_, ?_, ?_⟩
  · rw [h.1]
    omega
  · rw [hbuffer, h.1, Nat.cast_add]
  · have hio := inOrder_readTransfer mid
      (by omega : st.data.length + length ≤ (payloadBuffer st length).length) (by omega)
    have hstart : (mid, payloadBuffer st length)
        = received mid (payloadBuffer st length) st.data.length 0 := by simp [received]
    have hin := fixLoop_inBounds hio (by omega) mid.reads (Nat.zero_le _) hstart hno.reads
    intro c hc
    rw [h.1, sizeT_natCast (by omega)] at hc
    have hbounds := hin c hc
    rw [h.1]
    omega

theorem Tracks.message_lt {maxSize : Nat} {client : Bool} {s s' : Stream} {msg : WSFrameMessage}
    (h : Tracks st) (hsafe : NoWrapAt maxSize client st s)
    (hstep : recvFrame maxSize client st s = .ok (.message msg) s') :
    msg.data.length < maxSize := by
  rcases recvFrame_cases hstep with hbad | hbad | ⟨head, length, mask, mid, hheader, hpayload⟩
  · cases hbad
  · cases hbad
  · have hno := hsafe _ _ _ _ hheader
    have hcheck := recvHeader_payload hheader
    rw [h.sum_eq hno.sum] at hcheck
    rcases recvPayload_cases hpayload with hbad | ⟨_, hbad, _⟩ | ⟨msg', heq, hlen⟩
    · cases hbad
    · cases hbad
    · cases heq
      rw [hlen, h.length_payloadBuffer hno.sum]
      exact hcheck

end Invariant

/-! ## Whole runs -/

/-- A message comes out of a last iteration. -/
theorem recvLoop_message {maxSize : Nat} {client : Bool} {fuel : Nat} {st : RecvState}
    {s s' : Stream} {msg : WSFrameMessage}
    (h : recvLoop maxSize client fuel st s = .ok (some msg) s') :
    ∃ ls st' t, Run (FrameStep maxSize client) (st, s) ls (st', t) ∧
      recvFrame maxSize client st' t = .ok (.message msg) s' := by
  induction fuel generalizing st s with
  | zero => cases h
  | succ fuel ih =>
      unfold recvLoop at h
      obtain ⟨frame, t, hframe, h⟩ := bind_inv h
      cases frame with
      | broken => cases h
      | next st' =>
          obtain ⟨ls, st'', t', hrun, hlast⟩ := ih h
          have hstep : FrameStep maxSize client (st, s) () (st', t) := hframe
          exact ⟨() :: ls, st'', t', .cons hstep hrun, hlast⟩
      | message msg' =>
          cases h
          exact ⟨[], st, s, .nil _, hframe⟩

/-- Along a run on which nothing wraps, `cur_len` counts the bytes received. -/
theorem Reaches.tracks {maxSize : Nat} {client : Bool} {s₀ s : Stream} {st : RecvState}
    (hsafe : ∀ st s, Reaches maxSize client s₀ st s → NoWrapAt maxSize client st s)
    (h : Reaches maxSize client s₀ st s) : Tracks st := by
  obtain ⟨ls, hrun⟩ := h
  apply hrun.invariant_reached (I := fun x => Tracks x.1)
  · intro ms x l y hreach hx hstep
    exact hx.step (hsafe x.1 x.2 ⟨ms, hreach⟩) hstep
  · exact ⟨rfl, (by decide : ([] : List UInt8).length < 2 ^ 31)⟩

/-- In every run of `WSRecvMessage` on which nothing wraps, each payload that passes
the size check goes where it should, and the message is shorter than the limit. -/
theorem wsRecvMessage_within_limit (maxSize : UInt32) (client : Bool) (s₀ : Stream)
    (hsafe : ∀ st s, Reaches maxSize.toNat client s₀ st s → NoWrapAt maxSize.toNat client st s) :
    (∀ st s, Reaches maxSize.toNat client s₀ st s → ∀ head length mask mid,
      recvHeader maxSize.toNat client st.curLen s = .ok (.payload head length mask) mid →
        WithinLimit maxSize.toNat st length mid) ∧
    ∀ msg s', wsRecvMessage maxSize.toNat client s₀ = .ok (some msg) s' →
      msg.data.length < maxSize.toNat := by
  constructor
  · intro st s hreach head length mask mid hheader
    have htracks := hreach.tracks hsafe
    exact htracks.withinLimit maxSize.toNat_lt hheader (hsafe st s hreach _ _ _ _ hheader)
  · intro msg s' hrun
    obtain ⟨ls, st, t, hreach, hlast⟩ := recvLoop_message hrun
    have htracks := Reaches.tracks hsafe ⟨ls, hreach⟩
    exact htracks.message_lt (hsafe st t ⟨ls, hreach⟩) hlast

/-- A run over one frame of three bytes. -/
theorem wsRecvMessage_within_limit_three :
    let s₀ := Stream.ofBytes (frameBytes .textFrame true false 0 [1, 2, 3]) 0
    ∀ msg s', wsRecvMessage (33554432 : UInt32).toNat true s₀ = .ok (some msg) s' →
      msg.data.length < (33554432 : UInt32).toNat := by
  intro s₀
  have hready : Ready s₀ (frameBytes .textFrame true false 0 [1, 2, 3]) 0 := ready_ofBytes _ _
  have hop : Opcode.textFrame.IsData := Or.inr (Or.inl rfl)
  -- the frame is the last one, so the loop reaches no further state
  obtain ⟨_, hlast, _⟩ := exchange_recvFrame hop true false 0 (rfl : ({} : RecvState).curLen = _)
    (by decide) (by decide : 0 < [(1 : UInt8), 2, 3].length) (by decide) (by simp)
    (by decide : _ < (33554432 : UInt32).toNat) s₀ [] 0 (by rwa [List.append_nil])
  have hheader := exchange_dataHeader hop true false 0 (rfl : ({} : RecvState).curLen = _)
    (by decide) (by decide : [(1 : UInt8), 2, 3].length < 2 ^ 32)
    (by decide : _ < (33554432 : UInt32).toNat)
  refine (wsRecvMessage_within_limit 33554432 true s₀ ?_).2
  rintro st s ⟨ls, hrun⟩
  cases hrun with
  | cons hstep _ =>
      have hnext := hlast.symm.trans hstep
      cases hnext
  | nil =>
      intro head length mask mid hrecv
      obtain ⟨mid', hrecv', _, hready'⟩ := hheader s₀ [1, 2, 3] 0 hready
      have heq := hrecv'.symm.trans hrecv
      cases heq
      exact ⟨by decide, by simp [dataHead], hready'.reads.clean _⟩

/-! ## A length that wraps -/

/-- The bytes of a `TEXT` fragment of ten bytes and of a `CONTINUE` head that claims
`2^64 - 5` more, with the default limit: the second passes the size check as `5`
bytes, and its payload would go to index `10` of a string of `5`. -/
theorem wsRecvMessage_exceeds_limit :
    let first : List UInt8 := [1, 2, 3, 4, 5, 6, 7, 8, 9, 10]
    let head := dataHead .continue true false (2 ^ 64 - 5)
    let s₀ := Stream.ofBytes (frameBytes .textFrame false false 0 first ++
      (head.toBytes ++ lengthBytes (2 ^ 64 - 5))) 0
    let st : RecvState := ⟨1, first, 10⟩
    ∃ s mid, Reaches 33554432 true s₀ st s ∧
      recvHeader 33554432 true st.curLen s = .ok (.payload head (2 ^ 64 - 5) [0, 0, 0, 0]) mid ∧
      (payloadBuffer st (2 ^ 64 - 5)).length = 5 ∧ ¬ WithinLimit 33554432 st (2 ^ 64 - 5) mid := by
  intro first head s₀ st
  have hframe : Exchange (recvFrame 33554432 true {}) (frameBytes .textFrame false false 0 first) []
      (.next st) := by
    have h := exchange_recvFrame (Or.inr (Or.inl rfl) : Opcode.textFrame.IsData) false false 0
      (rfl : ({} : RecvState).curLen = _) (by decide) (by decide : 0 < first.length) (by decide)
      (by simp) (by decide : _ < 33554432)
    rw [frameResult, if_neg (by decide), int32_natCast (by decide)] at h
    exact h
  have hcheck : addSize (sizeT st.curLen) (2 ^ 64 - 5) < 33554432 := by decide +kernel
  have hheader : Exchange (recvHeader 33554432 true st.curLen)
    (head.toBytes ++ lengthBytes (2 ^ 64 - 5)) []
      (.payload head (2 ^ 64 - 5) [0, 0, 0, 0]) := by
    have h := exchange_recvHeader (Or.inl rfl)
      (exchange_recvDataHeader .continue true false 0 (by decide : 2 ^ 64 - 5 < 2 ^ 64) hcheck)
    rwa [keyBytes, if_neg (by decide), List.append_nil] at h
  obtain ⟨s, hrun, _, hready⟩ := hframe s₀ _ 0 (ready_ofBytes _ _)
  obtain ⟨mid, hrun', _, _⟩ := hheader s [] 0 (by rwa [List.append_nil])
  have hstep : FrameStep 33554432 true ({}, s₀) () (st, s) := hrun
  refine ⟨s, mid, ⟨[()], .cons hstep (.nil _)⟩, hrun', by decide +kernel, fun h => ?_⟩
  have hbelow : (10 : Int) + (2 ^ 64 - 5 : Nat) < (33554432 : Nat) := h.below
  omega

end Lyslg
