import Lyslg.Http.RequestReads
/-!
# Requests back to back

On a keep-alive connection `recvRequest` is called again for the next request.  What the
buffer holds behind a head and its body is dropped with the buffer, so a read that brings
bytes of the next message loses them.
-/

namespace Lyslg.Http

open Http11 Support.Machine Support.Memory

/-! ## Messages -/

/-- The request that the parser makes of a head, if it does not refuse it. -/
def headRequest (relaxed : Bool) (head : List UInt8) : Option HttpRequest := do
  let (parser, _) ← (HttpRequestParser.new (.fresh relaxed)).execute head
  if parser.hasError then none else some parser.data

/-- A request as it is sent: a head that fits the buffer, and a body of the length it
says. -/
structure Message (relaxed : Bool) (buffSize : Nat) where
  head : List UInt8
  body : List UInt8
  request : HttpRequest
  accepted : Accepted relaxed head
  short : head.length < buffSize
  parsed : headRequest relaxed head = some request
  length_eq : request.contentLength = body.length

variable {relaxed : Bool} {buffSize : Nat}

def Message.bytes (m : Message relaxed buffSize) : List UInt8 := m.head ++ m.body

/-- What the read of the head brings behind it. -/
def surplusOf (m : Message relaxed buffSize) (s : Stream) : Nat :=
  ((s.reads.head?.map (Event.result buffSize)).getD 0 - m.head.length).toNat

/-- The reads to come bring at least `n` bytes before anything else happens. -/
def Delivers : List Event → Nat → Bool
  | _, 0 => true
  | .moves k _ _ :: events, n + 1 => Delivers events (n + 1 - k)
  | _, _ + 1 => false

/-- The first read brings the whole head, and the next ones the rest of the body. -/
structure Arriving (m : Message relaxed buffSize) (s : Stream) : Prop where
  head : (m.head.length : Int) ≤ (s.reads.head?.map (Event.result buffSize)).getD 0
  body : Delivers s.reads.tail (m.body.length - surplusOf m s)

/-- The call returns the request and takes its message, no more and no less. -/
structure Receives (m : Message relaxed buffSize) (s : Stream) (run : Outcome × Stream) : Prop where
  outcome : run.1 = .returned (some m.request.init)
  taken : run.2.taken = s.taken + m.bytes.length

/-- The `surplus` bytes behind the head belong to the body, and what is missing of it is a
positive `int`. -/
def BodyContained (m : Message relaxed buffSize) (surplus : Nat) : Prop :=
  surplus = m.body.length ∨ surplus < m.body.length ∧ m.body.length < 2 ^ 63 ∧
    0 < int32 (m.body.length - surplus : Nat)

/-- The read of the head ends in its message.  (It must not leave as much in the buffer as
the buffer size is for an `int`.) -/
structure Contained (m : Message relaxed buffSize) (surplus : Nat) : Prop where
  buffer : (surplus : Int) ≠ int32 buffSize
  body : BodyContained m surplus

/-! ## The head -/

theorem verdict_eq_none {head : List UInt8} {calls : List Call}
    (hthrows : calls.any Call.throws = false) (hrefusal : ∀ c ∈ calls, c.refusal head = none) :
    verdict head calls = none := by
  induction calls with
  | nil => rfl
  | cons c calls ih =>
      rw [List.any_cons, Bool.or_eq_false_iff] at hthrows
      obtain ⟨hc, hrest⟩ := List.forall_mem_cons.mp hrefusal
      rw [verdict_fine hthrows.1 hc, ih hthrows.2 hrest]

theorem Call.fill_body (head : List UInt8) (r : HttpRequest) (c : Call) :
    (c.fill head r).body = r.body := by
  cases c with
  | element cb pos len =>
      cases cb with
      | requestMethod =>
          simp only [Call.fill]
          split <;> rfl
      | _ => rfl
  | httpField =>
      simp only [Call.fill]
      split <;> rfl

/-- A head that gives a request passes all callbacks. -/
theorem headRequest_eq_some {head : List UInt8} {r : HttpRequest}
    (h : headRequest relaxed head = some r) :
    verdict head (headCalls relaxed head) = none ∧
      r = (headCalls relaxed head).foldl (Call.fill head) {} ∧ r.body = [] := by
  have hbody (calls : List Call) (r : HttpRequest) :
      (calls.foldl (Call.fill head) r).body = r.body := by
    induction calls generalizing r with
    | nil => rfl
    | cons c calls ih => rw [List.foldl_cons, ih, c.fill_body]
  unfold headRequest HttpRequestParser.execute at h
  simp only [HttpRequestParser.new, HttpRequestParser.foldlM_callback] at h
  have hcalls : ((HttpParser.init (.fresh relaxed)).execute head).2.2 = headCalls relaxed head :=
    rfl
  rw [hcalls] at h
  by_cases hthrows : (headCalls relaxed head).any Call.throws
  · simp [hthrows] at h
  · rw [if_neg hthrows] at h
    simp only [Option.pure_def, Option.bind_eq_bind, Option.bind_some] at h
    split at h
    · cases h
    · rename_i herror
      simp only [HttpRequestParser.hasError, Bool.or_eq_true, decide_eq_true_eq, not_or,
        not_not] at herror
      obtain ⟨_, hnone⟩ := (foldl_refusal_eq_zero head (headCalls relaxed head) 0).mp herror.1
      refine ⟨verdict_eq_none (Bool.eq_false_of_not_eq_true hthrows) hnone,
        (Option.some.inj h).symm, ?_⟩
      rw [← Option.some.inj h, hbody]

section Call

variable {m : Message relaxed buffSize} {s : Stream} {rest : List UInt8} {raw : HttpParser}

theorem Message.head_pos (m : Message relaxed buffSize) : 0 < m.head.length :=
  List.length_pos_iff.mpr m.accepted.accepts.ne_nil

/-- What a read with the whole head brings. -/
theorem Message.read_surplus (m : Message relaxed buffSize) {ev : Event} {events : List Event}
    (hreads : s.reads = ev :: events) (hinput : window s.input s.taken m.head.length = m.head)
    (hone : (m.head.length : Int) ≤ (s.reads.head?.map (Event.result buffSize)).getD 0) :
    ∃ surplus : List UInt8, surplus.length = surplusOf m s ∧
      ev.result buffSize = (m.head ++ surplus).length ∧
      window s.input s.taken (m.head ++ surplus).length = m.head ++ surplus ∧
      surplus.length < 2 ^ 31 := by
  have hresult : (s.reads.head?.map (Event.result buffSize)).getD 0 = ev.result buffSize := by
    rw [hreads]
    rfl
  rw [hresult] at hone
  have hsurplus : ev.result buffSize = (m.head.length + surplusOf m s : Nat) := by
    unfold surplusOf
    rw [hresult]
    omega
  refine ⟨window s.input (s.taken + m.head.length) (surplusOf m s), length_window _ _ _, ?_, ?_, ?_⟩
  · rw [List.length_append, length_window]
    exact hsurplus
  · rw [List.length_append, length_window, ← window_append_window, hinput]
  · have hlt := ev.result_lt buffSize
    rw [length_window]
    omega

/-- The loop over a head in one read. -/
theorem recvHead_message (hbuff : buffSize < 2 ^ 64) (hraw : raw.uriRelaxed = relaxed) {ev : Event}
    {events : List Event} (hreads : s.reads = ev :: events) {surplus : List UInt8}
    (hev : ev.result buffSize = (m.head ++ surplus).length)
    (hwindow : window s.input s.taken (m.head ++ surplus).length = m.head ++ surplus) :
    Reaches (recvHead buffSize s.reads [] (.new raw) s) surplus
      { s with taken := s.taken + (m.head ++ surplus).length, reads := events }
      (if (surplus.length : Int) = int32 buffSize then .error (.returned none)
        else .ok m.request) := by
  have hsize : m.head.length < 2 ^ 63 := by
    have hlt := ev.result_lt buffSize
    rw [hev, List.length_append] at hlt
    omega
  obtain ⟨parts, hcalls, hwithin⟩ := m.accepted.accepts.exists_parts (by omega)
  obtain ⟨hverdict, hrequest, _⟩ := headRequest_eq_some m.parsed
  have hmidway := m.accepted.midway hsize hcalls hwithin hraw [m.head ++ surplus]
  have hlast := hmidway.last rfl m.accepted.accepts.ne_nil hbuff hsize hev hwindow events
  rw [hcalls] at hverdict hrequest
  unfold headResult at hlast
  simp only [hwithin.calls_one_read hsize, hverdict] at hlast
  rw [hreads, hrequest]
  exact hlast

/-! ## The body -/

/-- A transfer of bytes that are delivered completes. -/
theorem fixLoop_delivers {δ : Type} {io : Transfer δ} {start length : Nat} {I : Nat → δ → Prop}
    (hio : InOrder io start length length I) (hlen : length < 2 ^ 64) {events : List Event}
    {d : Nat} (hd : d ≤ length) {dev : δ} (hdev : I d dev) (h : Delivers events (length - d)) :
    let run := fixLoop io length events d (length - d) dev
    run.status = .returned (int32 length) ∧ I length run.dev := by
  induction events generalizing d dev with
  | nil =>
      have hend : d = length := by
        by_contra hne
        rw [(by omega : length - d = length - d - 1 + 1)] at h
        cases h
      subst hend
      rw [Nat.sub_self, fixLoop_done]
      exact ⟨rfl, hdev⟩
  | cons ev events ih =>
      by_cases hend : d = length
      · subst hend
        rw [Nat.sub_self, fixLoop_done]
        exact ⟨rfl, hdev⟩
      · rw [(by omega : length - d = length - d - 1 + 1)] at h
        cases ev with
        | moves k hk hfits =>
            obtain ⟨c, dev', hcall, _, _, hresult, hnext⟩ :=
              hio.call (.moves k hk hfits) d dev (by omega) hdev
            obtain ⟨n, hn⟩ : ∃ n, n = min k (length - d) := ⟨_, rfl⟩
            have hmoved : c.result = (n : Nat) := by
              rw [hresult, Nat.min_self, hn]
              rfl
            have hdev' : I (d + n) dev' := by
              have := hnext (by omega)
              rwa [hmoved, Int.toNat_natCast] at this
            have hrest : Delivers events (length - (d + n)) := by
              rw [(by omega : length - (d + n) = length - d - 1 + 1 - k)]
              exact h
            rw [fixLoop_round (by omega) hcall,
              if_neg (by rw [hmoved, sizeT_natCast (by omega)]; omega), hmoved,
              addSize_moved (by omega), subSize_moved (by omega) (by omega), Nat.sub_sub]
            exact ih (by omega) hdev' hrest
        | _ => cases h

/-- `readFixSize` of bytes that are delivered takes just these. -/
theorem readFixSize_delivers {t : Stream} {memory : List UInt8} {base length : Nat}
    (hfit : base + length ≤ memory.length) (hsize : memory.length < 2 ^ 64)
    (h : Delivers t.reads length) :
    let run := readFixSize t memory base length
    run.status = .returned (int32 length) ∧ run.dev.1.taken = t.taken + length ∧
      run.dev.1.input = t.input := by
  have hstart : (t, memory) = received t memory base 0 := by simp [received]
  obtain ⟨hstatus, hdev⟩ := fixLoop_delivers (inOrder_readTransfer t hfit hsize) (by omega)
    (Nat.zero_le _) hstart h
  rw [Nat.sub_zero] at hstatus hdev
  exact ⟨hstatus, congrArg (fun dev => dev.1.taken) hdev, congrArg (fun dev => dev.1.input) hdev⟩

/-- The rest of the body is read, and nothing behind it. -/
theorem recvBody_reads {t : Stream} {buffered : List UInt8} {length : Nat}
    (hlt : buffered.length < length) (hlen : length < 2 ^ 63)
    (h : Delivers t.reads (length - buffered.length)) (data : HttpRequest) :
    ∃ t', t'.taken = t.taken + (length - buffered.length) ∧ t'.input = t.input ∧
      recvBody length data buffered t =
        if int32 (length - buffered.length : Nat) ≤ 0 then
          (.returned none, { t' with closed := true })
        else (.returned (some { data with body := [] }.init), t') := by
  have hmemory : (splice (List.replicate length 0) 0 (buffered.take buffered.length)).length
      = length := by
    rw [length_splice _ _ _ (by simp; omega), List.length_replicate]
  obtain ⟨hstatus, htaken, hinput⟩ := @readFixSize_delivers t _ buffered.length _
    (by rw [hmemory]; omega) (by rw [hmemory]; omega) h
  refine ⟨_, htaken, hinput, ?_⟩
  have hleft : ((length : Int) - buffered.length).toNat = length - buffered.length := by omega
  unfold recvBody
  rw [if_pos (by omega)]
  simp only
  rw [if_pos (by omega : (buffered.length : Int) ≤ length), if_pos (by omega), Int.toNat_natCast,
    hleft, hstatus]

/-- Nothing of the body is missing. -/
theorem recvBody_buffered {length : Int} {data : HttpRequest} (hbody : data.body = [])
    {buffered : List UInt8} (hle : length ≤ buffered.length) (t : Stream) :
    recvBody length data buffered t = (.returned (some data.init), t) := by
  have hdata : { data with body := [] } = data := by rw [← hbody]
  unfold recvBody
  split
  · simp only
    rw [if_neg (by omega), hdata]
  · rfl

theorem decimal_lt {digits : List UInt8} {n : Nat} (h : decimal digits = some n) : n < 2 ^ 64 := by
  unfold decimal at h
  split at h
  · cases h
  · simp only [Option.ite_none_right_eq_some, Option.some.injEq] at h
    omega

theorem HttpRequest.contentLength_lt (r : HttpRequest) : r.contentLength < 2 ^ 64 := by
  have hcast (s : List UInt8) (n : Nat) (h : lexicalCastU64 s = some n) : n < 2 ^ 64 := by
    unfold lexicalCastU64 at h
    split at h
    · cases h
    · split at h
      · exact decimal_lt h
      · split at h
        · obtain ⟨v, _, rfl⟩ := Option.map_eq_some_iff.mp h
          exact sizeT_lt _
        · exact decimal_lt h
  unfold contentLength getHeaderAsU64
  cases hvalue : (r.headers.find (chars "content-length")).bind lexicalCastU64 with
  | none => simp
  | some n =>
      obtain ⟨v, _, hv⟩ := Option.bind_eq_some_iff.mp hvalue
      exact hcast v n hv

/-! ## One call -/

theorem recvBody_receives {events : List Event} {surplus : List UInt8} {length : Int}
    (hdelivers : Delivers events (m.body.length - surplus.length))
    (hsmall : surplus.length < 2 ^ 31) (hlength : length = int64 m.body.length)
    (hlarge : m.body.length < 2 ^ 64) :
    let t := { s with taken := s.taken + (m.head.length + surplus.length), reads := events }
    let run := recvBody length m.request surplus t
    (Receives m s run ↔ BodyContained m surplus.length) ∧
      (BodyContained m surplus.length → run.2.input = s.input) := by
  intro t
  obtain ⟨_, _, hbody⟩ := headRequest_eq_some m.parsed
  have htotal : m.bytes.length = m.head.length + m.body.length := List.length_append
  unfold BodyContained
  by_cases hlt : surplus.length < m.body.length
  · by_cases hbig : m.body.length < 2 ^ 63
    · -- the rest of the body is read
      obtain ⟨t', htaken, hinput, hrun⟩ := recvBody_reads (t := t) hlt hbig hdelivers m.request
      have hdata : { m.request with body := [] } = m.request := by rw [← hbody]
      rw [hlength, int64_natCast hbig, hrun, hdata]
      by_cases hint : int32 (m.body.length - surplus.length : Nat) ≤ 0
      · rw [if_pos hint]
        refine ⟨⟨fun h => ?_, fun h => ?_⟩, fun h => ?_⟩
        · have hnone := h.outcome
          cases hnone
        · omega
        · omega
      · rw [if_neg hint]
        refine ⟨⟨fun _ => .inr ⟨hlt, hbig, by omega⟩, fun _ => ⟨rfl, ?_⟩⟩, fun _ => hinput⟩
        simp only [t] at htaken
        rw [htaken, htotal]
        omega
    · -- a length that is negative for an `int64_t`
      rw [recvBody_buffered hbody (by rw [hlength, int64_wrap (by omega) hlarge]; omega) t]
      refine ⟨⟨fun h => ?_, fun h => ?_⟩, fun _ => rfl⟩
      · have htaken := h.taken
        simp only [t] at htaken
        omega
      · omega
  · -- all of the body is there
    rw [recvBody_buffered hbody (by rw [hlength, int64_natCast (by omega)]; omega) t]
    refine ⟨⟨fun h => ?_, fun h => ⟨rfl, ?_⟩⟩, fun _ => rfl⟩
    · have htaken := h.taken
      simp only [t] at htaken
      exact .inl (by omega)
    · simp only [t]
      omega

/-- One call receives its message iff the read of the head ends in it. -/
theorem recvRequest_receives (hbuff : buffSize < 2 ^ 64) (hraw : raw.uriRelaxed = relaxed)
    (hinput : window s.input s.taken m.head.length = m.head) (harriving : Arriving m s) :
    (Receives m s (recvRequest buffSize raw s) ↔ Contained m (surplusOf m s)) ∧
      (Contained m (surplusOf m s) → (recvRequest buffSize raw s).2.input = s.input) := by
  have hpos := m.head_pos
  obtain ⟨hhead, hbody⟩ := harriving
  cases hreads : s.reads with
  | nil =>
      rw [hreads] at hhead
      simp only [List.head?_nil, Option.map_none, Option.getD_none] at hhead
      omega
  | cons ev events =>
      rw [hreads, List.tail_cons] at hbody
      obtain ⟨surplus, hlength, hread, hwindow, hsmall⟩ := m.read_surplus hreads hinput hhead
      have hreach := recvHead_message hbuff hraw hreads hread hwindow
      rw [List.length_append, hlength] at hreach
      by_cases hbuffer : (surplusOf m s : Int) = int32 buffSize
      · rw [if_pos hbuffer] at hreach
        refine ⟨⟨fun h => ?_, fun h => absurd hbuffer h.buffer⟩, fun h => absurd hbuffer h.buffer⟩
        have hnone := h.outcome
        rw [recvRequest_error hreach] at hnone
        cases hnone
      · rw [if_neg hbuffer] at hreach
        obtain ⟨parser, hdata, hrun⟩ := hreach
        rw [← hlength] at hbody
        have hcall := recvBody_receives (s := s) hbody hsmall rfl
          (by rw [← m.length_eq]; exact m.request.contentLength_lt)
        rw [hlength] at hcall
        rw [recvRequest_ok hrun, hdata, answer, m.length_eq]
        exact ⟨hcall.1.trans ⟨fun h => ⟨hbuffer, h⟩, fun h => h.body⟩, fun h => hcall.2 h.body⟩

end Call

/-! ## The calls of one session -/

/-- `P` holds at every call when the session is asked for one message after the other;
`raw` gives the memory of each call's parser. -/
def EveryCall (raw : Nat → HttpParser) (P : Nat → Message relaxed buffSize → Stream → Prop) :
    Nat → List (Message relaxed buffSize) → Stream → Prop
  | _, [], _ => True
  | i, m :: messages, s =>
      P i m s ∧ EveryCall raw P (i + 1) messages (recvRequest buffSize (raw i) s).2

/-- The calls receive the messages one after the other iff every read of a head ends in its
message. -/
theorem recvRequest_backToBack (hbuff : buffSize < 2 ^ 64) {raw : Nat → HttpParser}
    (hraw : ∀ i, (raw i).uriRelaxed = relaxed) {messages : List (Message relaxed buffSize)}
    {s : Stream} (i : Nat)
    (hinput : window s.input s.taken (messages.flatMap Message.bytes).length =
      messages.flatMap Message.bytes)
    (harriving : EveryCall raw (fun _ => Arriving) i messages s) :
    EveryCall raw (fun i m s => Receives m s (recvRequest buffSize (raw i) s)) i messages s ↔
      EveryCall raw (fun _ m s => Contained m (surplusOf m s)) i messages s := by
  induction messages generalizing s i with
  | nil => exact Iff.rfl
  | cons m messages ih =>
      obtain ⟨hfirst, hlater⟩ := harriving
      rw [List.flatMap_cons] at hinput
      obtain ⟨hbytes, hnext⟩ := window_split hinput
      obtain ⟨hiff, hsame⟩ :=
        recvRequest_receives hbuff (hraw i) (window_split hbytes).1 hfirst
      unfold EveryCall
      rw [hiff]
      refine and_congr_right fun hcontained => ?_
      apply ih
      · rw [hsame hcontained, (hiff.mpr hcontained).taken]
        exact hnext
      · exact hlater

def getMessage : Message false 4096 where
  head := chars "GET / HTTP/1.1\r\n\r\n"
  body := []
  request := {}
  accepted := by decide
  short := by decide
  parsed := by decide
  length_eq := by decide

def postMessage : Message false 4096 where
  head := chars "POST /a HTTP/1.1\r\nContent-Length: 3\r\n\r\n"
  body := chars "xyz"
  request :=
    { method := .post, path := chars "/a", headers := [(chars "Content-Length", chars "3")] }
  accepted := by decide
  short := by decide
  parsed := by decide
  length_eq := by decide

/-- A body in pieces, and a message behind it. -/
theorem recvRequest_backToBack_post_get :
    let s := sessionOf (postMessage.bytes ++ getMessage.bytes)
      [.moves 40 (by decide) (by decide), .moves 1 (by decide) (by decide),
        .moves 9 (by decide) (by decide), .moves 18 (by decide) (by decide), .closed]
    EveryCall (fun _ => .fresh false)
    (fun _ m s => Receives m s (recvRequest 4096 (.fresh false) s))
      0 [postMessage, getMessage] s := by
  intro s
  have harriving : EveryCall (fun _ => .fresh false) (fun _ => Arriving) 0
      [postMessage, getMessage] s :=
    ⟨⟨by decide, by decide⟩, ⟨by decide +kernel, by decide +kernel⟩, trivial⟩
  apply (recvRequest_backToBack (by decide) (fun _ => rfl) 0 (by decide) harriving).mpr
  refine ⟨⟨by decide +kernel, .inr ⟨?_, ?_, ?_⟩⟩, ⟨by decide +kernel, .inl ?_⟩, trivial⟩
  all_goals decide +kernel

/-- Two requests in one read: the second one is lost. -/
theorem recvRequest_loses_next_message :
    let s := sessionOf (getMessage.bytes ++ getMessage.bytes) [.moves 36 (by decide) (by decide)]
    let first := recvRequest 4096 (.fresh false) s
    first.1 = .returned (some getMessage.request.init) ∧ first.2.taken = 36 ∧
      (recvRequest 4096 (.fresh false) first.2).1 = .waits none := by
  decide +kernel

end Lyslg.Http
