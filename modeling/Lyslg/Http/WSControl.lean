import Lyslg.Http.WSLimit
import Lyslg.Http.WSRoundTrip
import Mathlib.Data.List.Induction
/-!
# Control frames and the receive loop

A control frame has the head of a data frame, and may have a masking key and a
payload behind it.  `WSRecvMessage` takes only the head, so it stays in step
with the frames exactly as long as there is nothing behind.
-/

namespace Lyslg

open Support.Memory Support.Machine Support.Words Support.State Support

/-! ## Frames -/

/-- The opcodes of control frames. -/
def Opcode.IsControl (opcode : Opcode) : Prop :=
  opcode = .ping ∨ opcode = .pong ∨ opcode = .close

structure ControlFrame where
  opcode : Opcode
  key : BitVec 32
  payload : List UInt8
  isControl : opcode.IsControl
  short : payload.length ≤ 125

namespace ControlFrame

def bytes (masked : Bool) (c : ControlFrame) : List UInt8 :=
  frameBytes c.opcode true masked c.key c.payload

/-- What the receiver answers. -/
def reply (c : ControlFrame) : List UInt8 :=
  if c.opcode = .ping then (WSFrameHead.control .pong).toBytes else []

/-- Nothing is behind the head. -/
def Bare (masked : Bool) (c : ControlFrame) : Prop := masked = false ∧ c.payload = []

theorem bytes_eq (masked : Bool) (c : ControlFrame) :
    c.bytes masked = (dataHead c.opcode true masked c.payload.length).toBytes ++
      (keyBytes masked c.key ++ bodyBytes masked c.key c.payload) := by
  have hshort := c.short
  rw [bytes, frameBytes, lengthBytes, if_pos (by omega), List.nil_append]

theorem length_bytes_eq_two {masked : Bool} {c : ControlFrame} :
    (c.bytes masked).length = 2 ↔ c.Bare masked := by
  rw [bytes_eq, Bare, ← List.length_eq_zero_iff, List.length_append, List.length_append,
    length_toBytes, length_bodyBytes, keyBytes]
  cases masked with
  | false =>
      rw [if_neg (by decide), List.length_nil, eq_self, true_and]
      omega
  | true =>
      rw [if_pos rfl, length_leBytes]
      simp only [Bool.true_eq_false, false_and, iff_false]
      omega

end ControlFrame

/-- A frame on the wire. -/
inductive WireFrame where
  | control (c : ControlFrame)
  | data (opcode : Opcode) (fin : Bool) (key : BitVec 32) (bytes : List UInt8)

def WireFrame.bytes (masked : Bool) : WireFrame → List UInt8
  | .control c => c.bytes masked
  | .data opcode fin key bytes => frameBytes opcode fin masked key bytes

def WireFrame.reply : WireFrame → List UInt8
  | .control c => c.reply
  | .data _ _ _ _ => []

def WireFrame.payload? : WireFrame → Option (List UInt8)
  | .control _ => none
  | .data _ _ _ bytes => some bytes

/-- The frames of one message, the first data frame with `opcode`, and any control
frames between them. -/
inductive Message : Opcode → List WireFrame → Prop where
  | control {opcode : Opcode} {frames : List WireFrame} (c : ControlFrame) :
      Message opcode frames → Message opcode (.control c :: frames)
  | fragment {opcode : Opcode} {frames : List WireFrame} (key : BitVec 32) (bytes : List UInt8) :
      Message .continue frames → Message opcode (.data opcode false key bytes :: frames)
  | last {opcode : Opcode} (key : BitVec 32) (bytes : List UInt8) :
      Message opcode [.data opcode true key bytes]

/-- The frames as they are sent. -/
def framesBytes (masked : Bool) (frames : List WireFrame) : List UInt8 :=
  frames.flatMap (WireFrame.bytes masked)

def frameReplies (frames : List WireFrame) : List UInt8 := frames.flatMap WireFrame.reply

/-- The payloads of the data frames. -/
def payloads (frames : List WireFrame) : List (List UInt8) := frames.filterMap WireFrame.payload?

/-- Where frame `n` starts. -/
def frameStart (masked : Bool) (frames : List WireFrame) (n : Nat) : Nat :=
  (framesBytes masked (frames.take n)).length

@[simp] theorem payloads_append (a b : List WireFrame) :
    payloads (a ++ b) = payloads a ++ payloads b := List.filterMap_append

@[simp] theorem payloads_control (c : ControlFrame) : payloads [.control c] = [] := rfl

@[simp] theorem payloads_data (opcode : Opcode) (fin : Bool) (key : BitVec 32)
    (bytes : List UInt8) : payloads [.data opcode fin key bytes] = [bytes] := rfl

theorem framesBytes_cons (masked : Bool) (f : WireFrame) (frames : List WireFrame) :
    framesBytes masked (f :: frames) = f.bytes masked ++ framesBytes masked frames :=
  List.flatMap_cons

theorem framesBytes_snoc (masked : Bool) (frames : List WireFrame) (f : WireFrame) :
    framesBytes masked (frames ++ [f]) = framesBytes masked frames ++ f.bytes masked := by
  rw [framesBytes, List.flatMap_append, List.flatMap_singleton]
  rfl

theorem frameReplies_cons (f : WireFrame) (frames : List WireFrame) :
    frameReplies (f :: frames) = f.reply ++ frameReplies frames := List.flatMap_cons

theorem frameStart_length (masked : Bool) (pre post : List WireFrame) :
    frameStart masked (pre ++ post) pre.length = (framesBytes masked pre).length := by
  rw [frameStart, List.take_left]

theorem frameStart_succ (masked : Bool) (pre post : List WireFrame) (f : WireFrame) :
    frameStart masked (pre ++ f :: post) (pre.length + 1)
      = (framesBytes masked pre).length + (f.bytes masked).length := by
  have h := frameStart_length masked (pre ++ [f]) post
  rwa [List.append_assoc, List.singleton_append, List.length_append, List.length_singleton,
    framesBytes_snoc, List.length_append] at h

/-! ## Fragments the loop takes -/

/-- A fragment that an iteration takes whole behind `received` bytes. -/
structure Fitting (maxSize : Nat) (masked : Bool) (received : Nat) (bytes : List UInt8) : Prop where
  counted : received < 2 ^ 31
  nonempty : bytes ≠ []
  size : bytes.length < 2 ^ 31
  below : received + bytes.length < maxSize
  index : masked = true → received + bytes.length ≤ 2 ^ 31

/-- All of these fragments are taken. -/
def Passes (maxSize : Nat) (masked : Bool) : Nat → List (List UInt8) → Prop
  | _, [] => True
  | received, bytes :: rest =>
      Fitting maxSize masked received bytes ∧ Passes maxSize masked (received + bytes.length) rest

section Passes

variable {maxSize : Nat} {masked : Bool} {received : Nat}

theorem passes_append {a b : List (List UInt8)} :
    Passes maxSize masked received (a ++ b) ↔
      Passes maxSize masked received a ∧ Passes maxSize masked (received + a.flatten.length) b := by
  induction a generalizing received with
  | nil => simp [Passes]
  | cons bytes a ih =>
      rw [List.cons_append, Passes, Passes, ih, and_assoc, List.flatten_cons, List.length_append,
        Nat.add_assoc]

theorem passes_snoc {a : List (List UInt8)} {bytes : List UInt8} :
    Passes maxSize masked received (a ++ [bytes]) ↔ Passes maxSize masked received a ∧
      Fitting maxSize masked (received + a.flatten.length) bytes := by
  rw [passes_append, Passes, Passes, and_true]

end Passes

/-! ## One iteration -/

/-- The stream a call leaves behind, however it ends. -/
def streamAfter {α : Type} : EStateM.Result Stop Stream α → Stream
  | .ok _ s => s
  | .error _ s => s

/-- The iteration ends the loop without a message, having taken no byte from `limit` on. -/
def GivesUp (r : EStateM.Result Stop Stream Frame) (limit : Nat) : Prop :=
  ∃ s', s'.taken ≤ limit ∧ (r = .ok .broken s' ∨ ∃ f, r = .error f s')

section Iteration

variable {maxSize : Nat} {masked : Bool} {st : RecvState} {s : Stream} {rest : List UInt8}
  {more : Nat}

/-- A control frame: its head, and nothing else. -/
theorem exchange_recvFrame_head (maxSize : Nat) (client masked : Bool) (st : RecvState)
    (c : ControlFrame) :
    Exchange (recvFrame maxSize client st)
      (dataHead c.opcode true masked c.payload.length).toBytes c.reply (.next st) := by
  have hread := exchange_readFix_whole (dataHead c.opcode true masked c.payload.length).toBytes
    (rfl : [(0 : UInt8), 0].length = 2) rfl (by decide)
  rw [int32_natCast (by decide)] at hread
  have hheader : Exchange (recvHeader maxSize client st.curLen)
      (dataHead c.opcode true masked c.payload.length).toBytes c.reply .skipped := by
    rw [← List.append_nil (dataHead c.opcode true masked c.payload.length).toBytes,
      ← List.nil_append c.reply]
    apply hread.bind
    simp only [WSFrameHead.ofBytes_toBytes]
    unfold ControlFrame.reply
    rcases c.isControl with hop | hop | hop
    · rw [hop, if_pos rfl, ← List.append_nil (WSFrameHead.control .pong).toBytes]
      exact (exchange_wsControl .pong).bind (exchange_pure _)
    · rw [hop, if_neg (by decide)]
      exact exchange_pure _
    · rw [hop, if_neg (by decide)]
      exact exchange_pure _
  have h := exchange_recvFrame_of_header hheader (exchange_pure (Frame.next st))
  rwa [List.append_nil, List.append_nil] at h

theorem givesUp_of_exchange {client : Bool} {a b : List UInt8}
    (h : Exchange (recvFrame maxSize client st) a [] .broken)
    (hready : Ready s (a ++ b ++ rest) more) :
    GivesUp (recvFrame maxSize client st s) (s.taken + (a ++ b).length) := by
  rw [List.append_assoc, ← Nat.zero_add more] at hready
  obtain ⟨s', hrun, hex, _⟩ := h s (b ++ rest) more hready
  refine ⟨s', ?_, Or.inl hrun⟩
  rw [hex.taken_eq, List.length_append]
  omega

/-- A read whose first byte would lie behind the end of the memory. -/
theorem readFix_faults {memory inp : List UInt8} {base n : Nat} (hready : Ready s inp more)
    (hinp : 0 < inp.length) (hn : 0 < n) (hbase : memory.length ≤ base) (hlt : base < 2 ^ 64) :
    ∃ s', readFix memory base n s = .error (.fault .outOfBounds) s' ∧ s'.taken = s.taken := by
  obtain ⟨m, rfl⟩ : ∃ m, n = m + 1 := ⟨n - 1, by omega⟩
  have hflow := hready.reads
  cases hreads : s.reads with
  | nil =>
      rw [hreads] at hflow
      have hroom := hflow.1
      rw [List.length_nil] at hroom
      omega
  | cons ev events =>
      rw [hreads] at hflow
      obtain ⟨⟨k, hk, hfits, rfl⟩, _⟩ := hflow.uncons hinp
      have hcall : readTransfer base (.moves k hk hfits) 0 (m + 1) (s, memory)
          = .error .outOfBounds := by
        have hbytes : (window s.input s.taken (min k (m + 1))).length = min k (m + 1) :=
          length_window _ _ _
        unfold readTransfer Event.result
        simp only [addSize_of_lt (by omega : base + 0 < 2 ^ 64), Int.toNat_natCast]
        apply if_neg
        rintro (hroom | hnil)
        · omega
        · rw [hnil, List.length_nil] at hbytes
          omega
      refine ⟨{ s with reads := events }, ?_, rfl⟩
      unfold readFix FixRun.settle readFixSize
      rw [hreads, fixLoop, hcall]

theorem length_resize (data : List UInt8) (n : Nat) : (resize data n).length = n := by
  rw [resize, List.length_append, List.length_take, List.length_replicate]
  omega

variable {opcode : Opcode} {fin : Bool} {key : BitVec 32} {bytes : List UInt8}

/-- A sum of lengths that wraps and passes the size check: the payload would go
behind the end of the string. -/
theorem recvFrame_wraps (hop : opcode.IsData) (hsize : bytes.length < 2 ^ 64)
    (hcheck : addSize (sizeT st.curLen) bytes.length < maxSize)
    (hwrap : 2 ^ 64 ≤ sizeT st.curLen + bytes.length)
    (hready : Ready s (frameBytes opcode fin masked key bytes ++ rest) more) :
    GivesUp (recvFrame maxSize (!masked) st s)
      (s.taken + (frameBytes opcode fin masked key bytes).length) := by
  have hbase := sizeT_lt st.curLen
  have hheader := exchange_recvHeader hop
    (exchange_recvDataHeader opcode fin masked key hsize hcheck)
  unfold frameBytes at hready
  obtain ⟨s', hrun, hex, hready'⟩ := hheader s (bodyBytes masked key bytes ++ rest) more
    (by simpa using hready)
  have hbehind : (resize st.data (addSize (sizeT st.curLen) bytes.length)).length
      ≤ sizeT st.curLen := by
    rw [length_resize]
    unfold addSize
    omega
  obtain ⟨s'', hfault, htaken⟩ := readFix_faults hready'
    (by rw [List.length_append, length_bodyBytes]; omega)
    (by omega : 0 < bytes.length) hbehind hbase
  refine ⟨s'', ?_, Or.inr ⟨.fault .outOfBounds, ?_⟩⟩
  · rw [htaken, hex.taken_eq, frameBytes]
    simp only [List.length_append]
    omega
  · unfold recvFrame
    rw [bind_ok hrun]
    change recvPayload st _ _ _ s' = _
    unfold recvPayload
    exact bind_error hfault

/-- `cur_len` is the number of bytes received so far, as an `int`. -/
def Counts (st : RecvState) : Prop :=
  st.curLen = int32 st.data.length ∧ st.data.length < 2 ^ 32

/-- A fragment that is not taken ends the loop. -/
theorem recvFrame_givesUp (hop : opcode.IsData) (hst : Counts st) (hsize : bytes.length < 2 ^ 64)
    (hmax : maxSize < 2 ^ 32) (hnot : ¬ Fitting maxSize masked st.data.length bytes)
    (hready : Ready s (frameBytes opcode fin masked key bytes ++ rest) more) :
    GivesUp (recvFrame maxSize (!masked) st s)
      (s.taken + (frameBytes opcode fin masked key bytes).length) := by
  obtain ⟨hcur, hlen⟩ := hst
  by_cases hcheck : maxSize ≤ addSize (sizeT st.curLen) bytes.length
  · -- the size check refuses it
    have hbroken := exchange_recvFrame_of_header (exchange_recvHeader hop
      (exchange_recvDataHeader_broken opcode fin masked hsize hcheck)) (exchange_pure Frame.broken)
    rw [List.append_nil] at hbroken
    have hsplit : frameBytes opcode fin masked key bytes
        = (dataHead opcode fin masked bytes.length).toBytes ++ lengthBytes bytes.length ++
          (keyBytes masked key ++ bodyBytes masked key bytes) := by
      rw [frameBytes, List.append_assoc]
    rw [hsplit] at hready ⊢
    exact givesUp_of_exchange hbroken hready
  · by_cases hwrap : 2 ^ 64 ≤ sizeT st.curLen + bytes.length
    · exact recvFrame_wraps hop hsize (by omega) hwrap hready
    · have hsum := addSize_of_lt (by omega : sizeT st.curLen + bytes.length < 2 ^ 64)
      -- a running length that has become negative is a large `uint64_t`
      have hcounted : st.data.length < 2 ^ 31 := by
        by_contra hlow
        have hneg := int32_wrap (by omega : 2 ^ 31 ≤ st.data.length) hlen
        rw [← hcur] at hneg
        have hbig := sizeT_neg (by omega : st.curLen < 0) (by omega)
        omega
      rw [int32_natCast hcounted] at hcur
      rw [hcur, sizeT_natCast (by omega)] at hsum hcheck
      have hbelow : st.data.length + bytes.length < maxSize := by omega
      rw [← List.append_nil (frameBytes opcode fin masked key bytes)] at hready ⊢
      by_cases hempty : bytes = []
      · rw [hempty] at hready hbelow ⊢
        exact givesUp_of_exchange
          (exchange_recvFrame_empty hop fin masked key hcur hcounted hbelow) hready
      · by_cases hlong : 2 ^ 31 ≤ bytes.length
        · exact givesUp_of_exchange (exchange_recvFrame_long hop fin masked key hcur hcounted hlong
            (by omega) hbelow) hready
        · have hover : masked = true ∧ 2 ^ 31 < st.data.length + bytes.length := by
            by_contra hindex
            exact hnot ⟨hcounted, hempty, by omega, hbelow, fun hmasked => by
              by_contra hlt
              exact hindex ⟨hmasked, by omega⟩⟩
          obtain ⟨rfl, hover⟩ := hover
          rw [List.append_nil] at hready ⊢
          obtain ⟨f, s', hfault, htaken⟩ := recvFrame_faults hop hcur hcounted (by omega) hover
            hbelow hready
          exact ⟨s', Nat.le_of_eq htaken, Or.inr ⟨_, hfault⟩⟩

/-- A fragment that fits is taken whole. -/
theorem Fitting.exchange (h : Fitting maxSize masked st.data.length bytes) (hop : opcode.IsData)
    (fin : Bool) (key : BitVec 32) (hst : Counts st) :
    Exchange (recvFrame maxSize (!masked) st) (frameBytes opcode fin masked key bytes) []
      (frameResult st opcode fin bytes) := by
  have hcur := hst.1
  rw [int32_natCast h.counted] at hcur
  exact exchange_recvFrame hop fin masked key hcur h.counted (List.length_pos_iff.mpr h.nonempty)
    h.size h.index h.below

theorem GivesUp.not_next {r : EStateM.Result Stop Stream Frame} {limit : Nat} (h : GivesUp r limit)
    (st' : RecvState) (s' : Stream) : r ≠ .ok (.next st') s' := by
  rintro rfl
  obtain ⟨t, _, hbroken | ⟨f, hfault⟩⟩ := h
  · cases hbroken
  · cases hfault

theorem GivesUp.not_message {r : EStateM.Result Stop Stream Frame} {limit : Nat}
    (h : GivesUp r limit) (msg : WSFrameMessage) (s' : Stream) : r ≠ .ok (.message msg) s' := by
  rintro rfl
  obtain ⟨t, _, hbroken | ⟨f, hfault⟩⟩ := h
  · cases hbroken
  · cases hfault

theorem GivesUp.taken_le {r : EStateM.Result Stop Stream Frame} {limit : Nat}
    (h : GivesUp r limit) : (streamAfter r).taken ≤ limit := by
  obtain ⟨t, htaken, rfl | ⟨f, rfl⟩⟩ := h
  · exact htaken
  · exact htaken

end Iteration

/-! ## In step with the frames -/

/-- Iteration `n` of the loop starts with frame `n` and takes no byte behind it. -/
def InStep (maxSize : Nat) (masked : Bool) (frames : List WireFrame) (s₀ : Stream) : Prop :=
  ∀ ls st s, Run (FrameStep maxSize (!masked)) ({}, s₀) ls (st, s) →
    s.taken = s₀.taken + frameStart masked frames ls.length ∧
    (streamAfter (recvFrame maxSize (!masked) st s)).taken
      ≤ s₀.taken + frameStart masked frames (ls.length + 1)

/-- `WSRecvMessage` returns the message with its own bytes when the loop takes all
its fragments, and nothing else. -/
def ReturnsOwn (maxSize : Nat) (masked : Bool) (opcode : Opcode) (frames : List WireFrame)
    (s₀ : Stream) : Prop :=
  ∀ msg, (∃ s', wsRecvMessage maxSize (!masked) s₀ = .ok (some msg) s') ↔
    Passes maxSize masked 0 (payloads frames) ∧ msg = ⟨opcode.value, (payloads frames).flatten⟩

/-- The loop has taken the frames `pre` and comes to the frames `post`. -/
structure At (maxSize : Nat) (masked : Bool) (opcode : Opcode) (s₀ : Stream)
    (pre post : List WireFrame) (st : RecvState) (s : Stream) : Prop where
  rest : ∃ next : Opcode, next.IsData ∧ trackOpcode st.opcode next = opcode.value ∧
    Message next post
  passes : Passes maxSize masked 0 (payloads pre)
  data_eq : st.data = (payloads pre).flatten
  counts : Counts st
  taken_eq : s.taken = s₀.taken + (framesBytes masked pre).length
  ready : Ready s (framesBytes masked post) (frameReplies post).length

theorem at_start {maxSize : Nat} {masked : Bool} {opcode : Opcode}
    (hop : opcode = .textFrame ∨ opcode = .binFrame) {frames : List WireFrame}
    (hframes : Message opcode frames) {s₀ : Stream}
    (hready : Ready s₀ (framesBytes masked frames) (frameReplies frames).length) :
    At maxSize masked opcode s₀ [] frames {} s₀ where
  rest := ⟨opcode, Or.inr hop, trackOpcode_first hop, hframes⟩
  passes := trivial
  data_eq := rfl
  counts := ⟨int32_zero.symm, by decide⟩
  taken_eq := rfl
  ready := hready

section At

variable {maxSize : Nat} {masked : Bool} {opcode next : Opcode} {s₀ s s' : Stream}
  {pre post : List WireFrame} {st st' : RecvState} {c : ControlFrame} {fin : Bool}
  {key : BitVec 32} {bytes : List UInt8}

/-- Only the two bytes of its head are taken of a control frame. -/
theorem At.control (h : At maxSize masked opcode s₀ pre (.control c :: post) st s) :
    ∃ s', recvFrame maxSize (!masked) st s = .ok (.next st) s' ∧ s'.taken = s.taken + 2 ∧
      (c.Bare masked → At maxSize masked opcode s₀ (pre ++ [.control c]) post st s') := by
  obtain ⟨next, hop, htrack, hmsg⟩ := h.rest
  have hready := h.ready
  rw [framesBytes_cons, frameReplies_cons, List.length_append] at hready
  change Ready s (c.bytes masked ++ _) (c.reply.length + _) at hready
  rw [ControlFrame.bytes_eq, List.append_assoc] at hready
  obtain ⟨s', hrun, hex, hready'⟩ :=
    exchange_recvFrame_head maxSize (!masked) masked st c s _ _ hready
  refine ⟨s', hrun, hex.taken_eq, fun hbare => ?_⟩
  cases hmsg with
  | control c hpost =>
      obtain ⟨hunmasked, hempty⟩ := hbare
      refine ⟨⟨next, hop, htrack, hpost⟩, ?_, ?_, h.counts, ?_, ?_⟩
      · rw [payloads_append, payloads_control, List.append_nil]
        exact h.passes
      · rw [payloads_append, payloads_control, List.append_nil]
        exact h.data_eq
      · have hlength := ControlFrame.length_bytes_eq_two.mpr ⟨hunmasked, hempty⟩
        rw [hex.taken_eq, h.taken_eq, framesBytes_snoc, List.length_append, WireFrame.bytes,
          hlength, length_toBytes, Nat.add_assoc]
      · rw [hunmasked, hempty] at hready'
        rwa [hunmasked]

theorem At.fitting_snoc (h : At maxSize masked opcode s₀ pre post st s) (f : WireFrame)
    (hf : payloads [f] = [bytes]) :
    Passes maxSize masked 0 (payloads (pre ++ [f])) ↔
      Fitting maxSize masked st.data.length bytes := by
  rw [payloads_append, hf, passes_snoc, Nat.zero_add, ← h.data_eq]
  exact and_iff_right h.passes

/-- A fragment that fits is taken whole. -/
theorem At.taken (h : At maxSize masked opcode s₀ pre (.data next fin key bytes :: post) st s)
    (hop : next.IsData) (hfit : Fitting maxSize masked st.data.length bytes) :
    ∃ s', recvFrame maxSize (!masked) st s = .ok (frameResult st next fin bytes) s' ∧
      s'.taken = s₀.taken + (framesBytes masked (pre ++ [.data next fin key bytes])).length ∧
      Ready s' (framesBytes masked post) (frameReplies post).length := by
  have hready := h.ready
  rw [framesBytes_cons, frameReplies_cons, List.length_append] at hready
  obtain ⟨s', hrun, hex, hready'⟩ := hfit.exchange hop fin key h.counts s _ _ hready
  refine ⟨s', hrun, ?_, hready'⟩
  rw [hex.taken_eq, h.taken_eq, framesBytes_snoc, List.length_append, Nat.add_assoc]
  rfl

theorem At.givesUp (h : At maxSize masked opcode s₀ pre (.data next fin key bytes :: post) st s)
    (hop : next.IsData) (hsize : bytes.length < 2 ^ 64) (hmax : maxSize < 2 ^ 32)
    (hnot : ¬ Fitting maxSize masked st.data.length bytes) :
    GivesUp (recvFrame maxSize (!masked) st s)
      (s.taken + (frameBytes next fin masked key bytes).length) := by
  have hready := h.ready
  rw [framesBytes_cons] at hready
  exact recvFrame_givesUp hop h.counts hsize hmax hnot hready

/-- A fragment that fits, with others after it. -/
theorem At.fragment (h : At maxSize masked opcode s₀ pre (.data next false key bytes :: post) st s)
    (hfit : Fitting maxSize masked st.data.length bytes) :
    ∃ st' s', recvFrame maxSize (!masked) st s = .ok (.next st') s' ∧
      At maxSize masked opcode s₀ (pre ++ [.data next false key bytes]) post st' s' := by
  obtain ⟨next', hop, htrack, hmsg⟩ := h.rest
  cases hmsg with
  | fragment key bytes hpost =>
      obtain ⟨s', hrun, htaken, hready'⟩ := h.taken hop hfit
      refine ⟨_, s', hrun, ⟨⟨.continue, isData_continue, ?_, hpost⟩, ?_, ?_, ?_, htaken, hready'⟩⟩
      · rw [trackOpcode, if_neg (by simp), htrack]
      · exact (h.fitting_snoc _ rfl).mpr hfit
      · rw [payloads_append, payloads_data, List.flatten_append, ← h.data_eq,
          List.flatten_singleton]
      · have hsum := @List.length_append _ st.data bytes
        have hcounted := hfit.counted
        have hlength := hfit.size
        exact ⟨congrArg (fun n : Nat => int32 n) hsum.symm, by rw [hsum]; omega⟩

/-- The last fragment, if it fits, completes the message. -/
theorem At.last (h : At maxSize masked opcode s₀ pre [.data next true key bytes] st s)
    (hfit : Fitting maxSize masked st.data.length bytes) :
    ∃ s', recvFrame maxSize (!masked) st s = .ok (.message
      ⟨opcode.value, (payloads (pre ++ [.data next true key bytes])).flatten⟩) s' := by
  obtain ⟨next', hop, htrack, hmsg⟩ := h.rest
  cases hmsg with
  | last key bytes =>
      obtain ⟨s', hrun, _, _⟩ := h.taken hop hfit
      rw [frameResult, if_pos rfl, htrack, h.data_eq] at hrun
      rw [payloads_append, payloads_data, List.flatten_append, List.flatten_singleton]
      exact ⟨s', hrun⟩

/-- Wherever the loop is, the next iteration takes no byte behind the next frame. -/
theorem At.within {f : WireFrame} (h : At maxSize masked opcode s₀ pre (f :: post) st s)
    (hsize : ∀ bytes ∈ payloads (f :: post), bytes.length < 2 ^ 64) (hmax : maxSize < 2 ^ 32) :
    (streamAfter (recvFrame maxSize (!masked) st s)).taken
      ≤ s₀.taken + ((framesBytes masked pre).length + (f.bytes masked).length) := by
  cases f with
  | control c =>
      obtain ⟨s', hrun, htaken, _⟩ := h.control
      have hbytes : (c.bytes masked).length = _ := congrArg List.length (c.bytes_eq masked)
      rw [List.length_append, length_toBytes] at hbytes
      rw [hrun, streamAfter, htaken, h.taken_eq, WireFrame.bytes]
      omega
  | data next fin key bytes =>
      have hop : next.IsData := by
        obtain ⟨next', hop, _, hmsg⟩ := h.rest
        cases hmsg <;> exact hop
      by_cases hfit : Fitting maxSize masked st.data.length bytes
      · obtain ⟨s', hrun, htaken, _⟩ := h.taken hop hfit
        rw [framesBytes_snoc, List.length_append] at htaken
        rw [hrun, streamAfter, htaken]
      · have hlimit := (h.givesUp hop (hsize bytes List.mem_cons_self) hmax hfit).taken_le
        rw [h.taken_eq, Nat.add_assoc] at hlimit
        exact hlimit

/-- An iteration after which the loop goes on takes one frame, as long as a control
frame has nothing behind its head. -/
theorem At.step (h : At maxSize masked opcode s₀ pre post st s)
    (hbare : ∀ c post', post = .control c :: post' → c.Bare masked)
    (hsize : ∀ bytes ∈ payloads post, bytes.length < 2 ^ 64) (hmax : maxSize < 2 ^ 32)
    (hstep : recvFrame maxSize (!masked) st s = .ok (.next st') s') :
    ∃ f post', post = f :: post' ∧ At maxSize masked opcode s₀ (pre ++ [f]) post' st' s' := by
  obtain ⟨next, hop, _, hmsg⟩ := h.rest
  cases hmsg with
  | control c hpost =>
      obtain ⟨t, hrun, _, hat⟩ := h.control
      cases hrun.symm.trans hstep
      exact ⟨_, _, rfl, hat (hbare c _ rfl)⟩
  | fragment key bytes hpost =>
      by_cases hfit : Fitting maxSize masked st.data.length bytes
      · obtain ⟨st'', t, hrun, hat⟩ := h.fragment hfit
        cases hrun.symm.trans hstep
        exact ⟨_, _, rfl, hat⟩
      · have hend := h.givesUp hop (hsize bytes List.mem_cons_self) hmax hfit
        exact absurd hstep (hend.not_next st' s')
  | last key bytes =>
      by_cases hfit : Fitting maxSize masked st.data.length bytes
      · obtain ⟨t, hrun⟩ := h.last hfit
        cases hrun.symm.trans hstep
      · have hend := h.givesUp hop (hsize bytes List.mem_cons_self) hmax hfit
        exact absurd hstep (hend.not_next st' s')

end At

/-! ## Whole runs -/

section Runs

variable {maxSize : Nat} {masked : Bool} {opcode : Opcode} {s₀ : Stream} {frames : List WireFrame}

/-- Each control frame that the loop comes to has nothing behind its head. -/
def BareWhereReached (maxSize : Nat) (masked : Bool) (frames : List WireFrame) : Prop :=
  ∀ pre c post, frames = pre ++ .control c :: post → Passes maxSize masked 0 (payloads pre) →
    c.Bare masked

theorem BareWhereReached.of_mem (h : BareWhereReached maxSize masked frames)
    {pre post : List WireFrame} (hsplit : frames = pre ++ post)
    (hpasses : Passes maxSize masked 0 (payloads pre)) {c : ControlFrame} (hc : .control c ∈ pre) :
    c.Bare masked := by
  obtain ⟨a, b, rfl⟩ := List.append_of_mem hc
  rw [payloads_append, passes_append] at hpasses
  apply h a c (b ++ post) _ hpasses.1
  rw [hsplit, List.append_assoc, List.cons_append]

/-- A message ends in its last fragment. -/
theorem Message.exists_last (h : Message opcode frames) :
    ∃ pre op key bytes, frames = pre ++ [.data op true key bytes] := by
  induction h with
  | control c _ ih =>
      obtain ⟨pre, op, key, bytes, rfl⟩ := ih
      exact ⟨.control c :: pre, op, key, bytes, rfl⟩
  | @fragment opcode _ key bytes _ ih =>
      obtain ⟨pre, op, key', bytes', rfl⟩ := ih
      exact ⟨.data opcode false key bytes :: pre, op, key', bytes', rfl⟩
  | @last opcode key bytes => exact ⟨[], opcode, key, bytes, rfl⟩

theorem mem_payloads_of_split {pre post : List WireFrame} (hsplit : frames = pre ++ post)
    {bytes : List UInt8} (hmem : bytes ∈ payloads post) : bytes ∈ payloads frames := by
  rw [hsplit, payloads_append]
  exact List.mem_append_right _ hmem

/-- After `n` steps the loop has taken the first `n` frames. -/
theorem At.run (hbare : BareWhereReached maxSize masked frames)
    (hsize : ∀ bytes ∈ payloads frames, bytes.length < 2 ^ 64) (hmax : maxSize < 2 ^ 32)
    {ls : List Unit} {pre post : List WireFrame} {st st' : RecvState} {s s' : Stream}
    (hrun : Run (FrameStep maxSize (!masked)) (st, s) ls (st', s'))
    (hsplit : frames = pre ++ post) (h : At maxSize masked opcode s₀ pre post st s) :
    ∃ pre' post', frames = pre' ++ post' ∧ pre'.length = pre.length + ls.length ∧
      At maxSize masked opcode s₀ pre' post' st' s' := by
  induction ls generalizing pre post st s with
  | nil =>
      cases hrun
      exact ⟨pre, post, hsplit, rfl, h⟩
  | cons l ls ih =>
      cases hrun with
      | cons hstep hrest =>
          obtain ⟨f, post', hpost, hat⟩ := h.step
            (fun c post' hpost => hbare pre c post' (by rw [hsplit, hpost]) h.passes)
            (fun bytes hbytes => hsize bytes (mem_payloads_of_split hsplit hbytes)) hmax hstep
          have hsplit' : frames = (pre ++ [f]) ++ post' := by
            rw [hsplit, hpost, List.append_assoc, List.singleton_append]
          obtain ⟨pre', post'', hsplit'', hlength, hat'⟩ := ih hrest hsplit' hat
          refine ⟨pre', post'', hsplit'', ?_, hat'⟩
          rw [hlength, List.length_append, List.length_singleton, List.length_cons]
          omega

/-- The loop comes to every frame whose predecessors it takes. -/
theorem At.reach {pre post : List WireFrame} (hpost : post ≠ [])
    (hpasses : Passes maxSize masked 0 (payloads pre))
    (hbare : ∀ c, .control c ∈ pre → c.Bare masked)
    (h : At maxSize masked opcode s₀ [] (pre ++ post) {} s₀) :
    ∃ ls st s, ls.length = pre.length ∧
      Run (FrameStep maxSize (!masked)) ({}, s₀) ls (st, s) ∧
      At maxSize masked opcode s₀ pre post st s := by
  induction pre using List.reverseRecOn generalizing post with
  | nil => exact ⟨[], {}, s₀, rfl, .nil _, h⟩
  | append_singleton pre f ih =>
      have hbefore := hpasses
      rw [payloads_append, passes_append] at hbefore
      rw [List.append_assoc, List.singleton_append] at h
      obtain ⟨ls, st, s, hlength, hrun, hat⟩ := ih (List.cons_ne_nil f post) hbefore.1
        (fun c hc => hbare c (List.mem_append_left _ hc)) h
      have hstep : ∃ st' s', recvFrame maxSize (!masked) st s = .ok (.next st') s' ∧
          At maxSize masked opcode s₀ (pre ++ [f]) post st' s' := by
        obtain ⟨next, _, _, hmsg⟩ := hat.rest
        cases hmsg with
        | control c hrest =>
            obtain ⟨s', hrun', _, hat'⟩ := hat.control
            exact ⟨st, s', hrun', hat' (hbare c (List.mem_append_right _ List.mem_cons_self))⟩
        | fragment key bytes hrest => exact hat.fragment ((hat.fitting_snoc _ rfl).mp hpasses)
        | last key bytes => exact absurd rfl hpost
      obtain ⟨st', s', hframe, hat'⟩ := hstep
      have hlast : FrameStep maxSize (!masked) (st, s) () (st', s') := hframe
      refine ⟨ls ++ [()], st', s', ?_, hrun.append (.cons hlast (.nil _)), hat'⟩
      rw [List.length_append, List.length_append, hlength]
      rfl

theorem inStep_of_bare (hbare : BareWhereReached maxSize masked frames)
    (hsize : ∀ bytes ∈ payloads frames, bytes.length < 2 ^ 64) (hmax : maxSize < 2 ^ 32)
    (h₀ : At maxSize masked opcode s₀ [] frames {} s₀) : InStep maxSize masked frames s₀ := by
  intro ls st s hrun
  obtain ⟨pre, post, hsplit, hlength, hat⟩ :=
    At.run hbare hsize hmax hrun (List.nil_append _).symm h₀
  rw [List.length_nil, Nat.zero_add] at hlength
  have hpost := hat.rest
  cases post with
  | nil =>
      obtain ⟨_, _, _, hmsg⟩ := hpost
      cases hmsg
  | cons f post =>
      have hwithin :=
        hat.within (fun bytes hbytes => hsize bytes (mem_payloads_of_split hsplit hbytes))
        hmax
      rw [← hlength, hsplit, frameStart_length, frameStart_succ]
      exact ⟨hat.taken_eq, hwithin⟩

/-- The first control frame with something behind its head gets the loop out of step. -/
theorem bare_of_inStep (hstep : InStep maxSize masked frames s₀)
    (h₀ : At maxSize masked opcode s₀ [] frames {} s₀) :
    BareWhereReached maxSize masked frames := by
  intro pre
  induction hn : pre.length using Nat.strong_induction_on generalizing pre with
  | _ n ih =>
      intro c post hsplit hpasses
      have hearlier : ∀ c', .control c' ∈ pre → c'.Bare masked := by
        intro c' hc'
        obtain ⟨a, b, rfl⟩ := List.append_of_mem hc'
        rw [payloads_append, passes_append] at hpasses
        apply ih a.length _ a rfl c' (b ++ .control c :: post)
        · rw [hsplit, List.append_assoc, List.cons_append]
        · exact hpasses.1
        · rw [← hn, List.length_append, List.length_cons]
          omega
      rw [hsplit] at h₀
      obtain ⟨ls, st, s, hlength, hrun, hat⟩ := At.reach (List.cons_ne_nil _ _) hpasses hearlier h₀
      obtain ⟨s', hframe, htaken, _⟩ := hat.control
      have hlast : FrameStep maxSize (!masked) (st, s) () (st, s') := hframe
      have hnext := (hstep _ _ _ (hrun.append (.cons hlast (.nil _)))).1
      rw [List.length_append, hlength, List.length_singleton, hsplit, frameStart_succ, htaken,
        hat.taken_eq, WireFrame.bytes] at hnext
      apply ControlFrame.length_bytes_eq_two.mp
      omega

/-- A run of the loop that ends in a message is a run of `recvLoop`. -/
theorem recvLoop_of_run {client : Bool} {ls : List Unit} {st st' : RecvState} {s t t' : Stream}
    {msg : WSFrameMessage} {fuel : Nat} (hfuel : s.reads.length < fuel)
    (hrun : Run (FrameStep maxSize client) (st, s) ls (st', t))
    (hlast : recvFrame maxSize client st' t = .ok (.message msg) t') :
    recvLoop maxSize client fuel st s = .ok (some msg) t' := by
  obtain ⟨n, rfl⟩ : ∃ n, fuel = n + 1 := ⟨fuel - 1, by omega⟩
  induction ls generalizing st s n with
  | nil =>
      cases hrun
      rw [recvLoop, bind_ok hlast]
      rfl
  | cons l ls ih =>
      cases hrun with
      | @cons _ mid _ _ _ hstep hrest =>
          have hframe : recvFrame maxSize client st s = .ok (.next mid.1) mid.2 := hstep
          have hlt := recvFrame_reads_lt hframe
          obtain ⟨m, rfl⟩ : ∃ m, n = m + 1 := ⟨n - 1, by omega⟩
          rw [recvLoop, bind_ok hframe]
          exact ih hrest m (by omega)

theorem returnsOwn_of_bare (hbare : BareWhereReached maxSize masked frames)
    (hsize : ∀ bytes ∈ payloads frames, bytes.length < 2 ^ 64) (hmax : maxSize < 2 ^ 32)
    (hframes : Message opcode frames) (h₀ : At maxSize masked opcode s₀ [] frames {} s₀) :
    ReturnsOwn maxSize masked opcode frames s₀ := by
  intro msg
  constructor
  · rintro ⟨s', hmessage⟩
    obtain ⟨ls, st, t, hrun, hlast⟩ := recvLoop_message hmessage
    obtain ⟨pre, post, hsplit, _, hat⟩ := At.run hbare hsize hmax hrun (List.nil_append _).symm h₀
    obtain ⟨next, hop, _, hmsg⟩ := hat.rest
    have hbound {opcode : Opcode} {fin : Bool} {key : BitVec 32} {bytes : List UInt8}
        {rest : List WireFrame} (hpost : post = .data opcode fin key bytes :: rest) :
        bytes.length < 2 ^ 64 := by
      apply hsize bytes (mem_payloads_of_split hsplit _)
      rw [hpost]
      exact List.mem_cons_self
    cases hmsg with
    | control c hrest =>
        obtain ⟨t', hrun', _⟩ := hat.control
        cases hrun'.symm.trans hlast
    | fragment key bytes hrest =>
        by_cases hfit : Fitting maxSize masked st.data.length bytes
        · obtain ⟨st', t', hrun', _⟩ := hat.fragment hfit
          cases hrun'.symm.trans hlast
        · exact absurd hlast ((hat.givesUp hop (hbound rfl) hmax hfit).not_message msg s')
    | last key bytes =>
        by_cases hfit : Fitting maxSize masked st.data.length bytes
        · obtain ⟨t', hrun'⟩ := hat.last hfit
          cases hrun'.symm.trans hlast
          rw [hsplit]
          exact ⟨(hat.fitting_snoc _ rfl).mpr hfit, rfl⟩
        · exact absurd hlast ((hat.givesUp hop (hbound rfl) hmax hfit).not_message msg s')
  · rintro ⟨hpasses, rfl⟩
    obtain ⟨pre, op, key, bytes, hsplit⟩ := hframes.exists_last
    rw [hsplit] at hpasses h₀ ⊢
    have hbefore := hpasses
    rw [payloads_append, passes_append] at hbefore
    obtain ⟨ls, st, s, _, hrun, hat⟩ := At.reach (List.cons_ne_nil _ _) hbefore.1
      (fun c hc => hbare.of_mem hsplit hbefore.1 hc) h₀
    obtain ⟨s', hlast⟩ := hat.last ((hat.fitting_snoc _ rfl).mp hpasses)
    exact ⟨s', recvLoop_of_run (Nat.lt_succ_self _) hrun hlast⟩

end Runs

/-- The loop stays in step with the frames, and returns the message as it was sent,
exactly when every control frame that it comes to goes to the client and is empty. -/
theorem wsRecvMessage_inStep_iff (maxSize : UInt32) (masked : Bool) {opcode : Opcode}
    (hop : opcode = .textFrame ∨ opcode = .binFrame) {frames : List WireFrame}
    (hframes : Message opcode frames) (hsize : ∀ bytes ∈ payloads frames, bytes.length < 2 ^ 64)
    {s₀ : Stream}
    (hready : Ready s₀ (framesBytes masked frames) (frameReplies frames).length) :
    (InStep maxSize.toNat masked frames s₀ ∧
      ((∀ c, .control c ∈ frames → c.opcode ≠ .close) →
        ReturnsOwn maxSize.toNat masked opcode frames s₀)) ↔
      BareWhereReached maxSize.toNat masked frames := by
  have h₀ : At maxSize.toNat masked opcode s₀ [] frames {} s₀ := at_start hop hframes hready
  constructor
  · rintro ⟨hstep, _⟩
    exact bare_of_inStep hstep h₀
  · intro hbare
    have hmax := maxSize.toNat_lt
    exact ⟨inStep_of_bare hbare hsize hmax h₀,
      fun _ => returnsOwn_of_bare hbare hsize hmax hframes h₀⟩

/-- A `PING` to the client whose payload reads as a frame, before the message `B`:
the payload is returned in place of the message. -/
theorem wsRecvMessage_out_of_step :
    let ping : ControlFrame :=
      ⟨.ping, 0, frameBytes .textFrame true false 0 [65], Or.inl rfl, by decide⟩
    let frames : List WireFrame := [.control ping, .data .textFrame true 0 [66]]
    let s₀ := Stream.ofBytes (framesBytes false frames) (frameReplies frames).length
    Message .textFrame frames ∧
      (∃ s', wsRecvMessage (64 : UInt32).toNat true s₀ = .ok (some ⟨1, [65]⟩) s') ∧
      ¬ (InStep (64 : UInt32).toNat false frames s₀ ∧
        ((∀ c, .control c ∈ frames → c.opcode ≠ .close) →
          ReturnsOwn (64 : UInt32).toNat false .textFrame frames s₀)) := by
  intro ping frames s₀
  have hready : Ready s₀ (framesBytes false frames) (frameReplies frames).length :=
    ready_ofBytes _ _
  have hhead := exchange_recvFrame_head (64 : UInt32).toNat true false {} ping
  have hinner := exchange_recvFrame (Or.inr (Or.inl rfl) : Opcode.textFrame.IsData) true false 0
    (rfl : ({} : RecvState).curLen = _) (by decide) (by decide : 0 < [(65 : UInt8)].length)
    (by decide) (by simp) (by decide : _ < (64 : UInt32).toNat)
  have hloop :=
    exchange_recvLoop_next _ hhead (exchange_recvLoop_message (s₀.reads.length - 1) hinner)
  obtain ⟨s', hrun, _, _⟩ := hloop s₀ (frameBytes .textFrame true false 0 [66]) 0 hready
  have hmessage : wsRecvMessage (64 : UInt32).toNat true s₀ = .ok (some ⟨1, [65]⟩) s' := hrun
  refine ⟨.control ping (.last 0 [66]), ⟨s', hmessage⟩, ?_⟩
  rintro ⟨_, hown⟩
  have hping : ∀ c, .control c ∈ frames → c.opcode ≠ .close := by
    intro c hc
    rw [List.mem_cons, List.mem_singleton] at hc
    rcases hc with hc | hc
    · cases hc
      decide
    · cases hc
  have hmsg := ((hown hping _).mp ⟨s', hmessage⟩).2
  revert hmsg
  decide

/-- A message to the client in two fragments, each after an empty control frame. -/
theorem wsRecvMessage_inStep_iff_two :
    let frames : List WireFrame :=
      [.control ⟨.ping, 0, [], Or.inl rfl, by decide⟩, .data .textFrame false 0 [1, 2],
        .control ⟨.pong, 0, [], Or.inr (Or.inl rfl), by decide⟩, .data .continue true 0 [3]]
    let s₀ := Stream.ofBytes (framesBytes false frames) (frameReplies frames).length
    InStep (64 : UInt32).toNat false frames s₀ ∧
      ((∀ c, .control c ∈ frames → c.opcode ≠ .close) →
        ReturnsOwn (64 : UInt32).toNat false .textFrame frames s₀) := by
  intro frames s₀
  apply (wsRecvMessage_inStep_iff 64 false (Or.inl rfl)
    (.control _ (.fragment 0 [1, 2] (.control _ (.last 0 [3])))) (by decide)
    (ready_ofBytes _ _)).mpr
  intro pre c post hsplit _
  have hmem : .control c ∈ pre ++ .control c :: post := List.mem_append_right _ List.mem_cons_self
  rw [← hsplit] at hmem
  simp only [List.mem_cons, List.not_mem_nil, or_false, reduceCtorEq, false_or,
    WireFrame.control.injEq] at hmem
  rcases hmem with rfl | rfl
  · exact ⟨rfl, rfl⟩
  · exact ⟨rfl, rfl⟩

end Lyslg
