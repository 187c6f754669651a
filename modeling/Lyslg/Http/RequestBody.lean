import Lyslg.Http.KeepAlive
/-!
# The body of a request

`recvRequest` reads the body into memory that its string does not count, so the request it
returns has none.  `GetHttpRequestMaxBodySize` is not asked: a body that is too long is only
refused when the peer goes away before it has sent a byte of it.
-/

namespace Lyslg.Http

open Support.Machine Support.Memory

variable {relaxed : Bool} {buffSize : Nat} {m : Message relaxed buffSize} {s : Stream}

/-- What becomes of a body with a limit of `maxSize`: a request with the body, or, when it is
too long, a closed connection of which nothing behind the read of the head was taken. -/
def BodyHandled (maxSize : Nat) (m : Message relaxed buffSize) (s : Stream)
    (run : Outcome × Stream) : Prop :=
  if m.body.length ≤ maxSize then
    ∃ request, run.1 = .returned (some request) ∧ request.body = m.body
  else
    run.1 = .returned none ∧ run.2.closed = true ∧
      run.2.taken = s.taken + (m.head.length + surplusOf m s)

/-- The reads fail until the peer closes, with no byte in between.  `left` is the `size_t` that
every failure makes larger; if it comes around to 0 the transfer counts as complete, with
`length` for its result. -/
def GivesUp (length : Nat) : List Event → Nat → Bool
  | _, 0 => int32 length ≤ 0
  | [], _ + 1 => false
  | .closed :: _, _ + 1 => true
  | .moves _ _ _ :: _, _ + 1 => false
  | .fails e _ _ :: events, n + 1 => GivesUp length events (subSize (n + 1) (sizeT e))
  | .disconnected :: events, n + 1 => GivesUp length events (subSize (n + 1) (sizeT (-1)))

/-- The body is too long, and there is nothing of it to read. -/
structure LostBefore (maxSize : Nat) (m : Message relaxed buffSize) (s : Stream) : Prop where
  long : maxSize < m.body.length
  lost : (surplusOf m s : Int) = int32 buffSize ∨
    surplusOf m s < m.body.length ∧ m.body.length < 2 ^ 63 ∧
      GivesUp (m.body.length - surplusOf m s) s.reads.tail (m.body.length - surplusOf m s) = true

/-! ## Transfers that bring nothing -/

theorem taken_readTransfer {base offset left : Nat} {ev : Event} {dev dev' : Stream × List UInt8}
    {c : IoCall} (h : readTransfer base ev offset left dev = .ok (c, dev')) :
    c.result = ev.result left ∧ dev'.1.taken = dev.1.taken + (ev.result left).toNat := by
  obtain ⟨s, memory⟩ := dev
  unfold readTransfer at h
  simp only at h
  split at h
  · cases h
    exact ⟨rfl, by rw [length_window]⟩
  · cases h

/-- A transfer takes nothing back. -/
theorem taken_le_fixLoop {base length : Nat} (events : List Event) (offset left : Nat)
    (dev : Stream × List UInt8) :
    dev.1.taken ≤ (fixLoop (readTransfer base) length events offset left dev).dev.1.taken := by
  have hcall (ev : Event) (offset left : Nat) (d : Stream × List UInt8) (c : IoCall)
      (d' : Stream × List UInt8) (h : readTransfer base ev offset left d = .ok (c, d'))
      (hd : dev.1.taken ≤ d.1.taken) : dev.1.taken ≤ d'.1.taken := by
    rw [(taken_readTransfer h).2]
    omega
  have hstart : dev.1.taken ≤ dev.1.taken := le_rfl
  exact fixLoop_invariant (Q := fun d : Stream × List UInt8 => dev.1.taken ≤ d.1.taken) hcall
    events offset left hstart

/-- A result that is not positive stores nothing. -/
theorem readTransfer_nothing {left : Nat} {ev : Event} (h : ev.result left ≤ 0)
    (base offset : Nat) (dev : Stream × List UInt8) : ∃ c dev',
    readTransfer base ev offset left dev = .ok (c, dev') ∧
      c.result = ev.result left ∧ dev'.1.taken = dev.1.taken := by
  obtain ⟨s, memory⟩ := dev
  have hzero : (ev.result left).toNat = 0 := by omega
  unfold readTransfer
  simp only [hzero]
  rw [if_pos (.inr (rfl : window s.input s.taken 0 = []))]
  exact ⟨_, _, rfl, rfl, rfl⟩

/-- A round that moves bytes faults or leaves them taken. -/
theorem fixLoop_moves (base length : Nat) {left k : Nat} (hk : 0 < k) (hfits : k < 2 ^ 31)
    (hleft : 0 < left) (events : List Event) (offset : Nat) (dev : Stream × List UInt8) :
    let run := fixLoop (readTransfer base) length (.moves k hk hfits :: events) offset left dev
    (∃ f, run.status = .fault f) ∨ dev.1.taken < run.dev.1.taken := by
  cases hcall : readTransfer base (.moves k hk hfits) offset left dev with
  | error f =>
      obtain ⟨n, rfl⟩ : ∃ n, left = n + 1 := ⟨left - 1, by omega⟩
      simp only [fixLoop, hcall]
      exact .inl ⟨f, rfl⟩
  | ok result =>
      obtain ⟨c, dev'⟩ := result
      obtain ⟨hresult, htaken⟩ := taken_readTransfer hcall
      have hmoved : c.result = (min k left : Nat) := hresult
      have hgrows : dev.1.taken < dev'.1.taken := by
        have hmin : (Event.result left (.moves k hk hfits)).toNat = min k left := rfl
        omega
      refine .inr ?_
      rw [fixLoop_round hleft hcall, if_neg (by rw [hmoved, sizeT_natCast (by omega)]; omega)]
      exact hgrows.trans_le (taken_le_fixLoop events _ _ dev')

/-- A failure makes `left` larger and goes on. -/
theorem fixLoop_fails (base length : Nat) {left : Nat} {ev : Event} (hleft : 0 < left)
    (hneg : ev.result left < 0) (hlow : -2 ^ 31 ≤ ev.result left) (events : List Event)
    (offset : Nat) (dev : Stream × List UInt8) :
    let len := sizeT (ev.result left)
    let run := fixLoop (readTransfer base) length (ev :: events) offset left dev
    ∃ dev', dev'.1.taken = dev.1.taken ∧
      let later := fixLoop (readTransfer base) length events (addSize offset len)
        (subSize left len) dev'
      run.status = later.status ∧ run.dev = later.dev := by
  obtain ⟨c, dev', hcall, hresult, htaken⟩ :=
    readTransfer_nothing hneg.le base offset dev
  have hlen : 0 < sizeT (ev.result left) := by
    have hwrap := sizeT_neg hneg (by omega)
    omega
  rw [fixLoop_round hleft hcall, hresult, if_neg (by omega)]
  exact ⟨dev', htaken, rfl, rfl⟩

/-- When a transfer ends without success and without a byte. -/
theorem fixLoop_givesUp_iff {base length : Nat} (events : List Event) (offset left : Nat)
    (dev : Stream × List UInt8) :
    let run := fixLoop (readTransfer base) length events offset left dev
    (∃ v, run.status = .returned v ∧ v ≤ 0 ∧ run.dev.1.taken = dev.1.taken) ↔
      GivesUp length events left = true := by
  induction events generalizing offset left dev with
  | nil =>
      cases left with
      | zero => simp [fixLoop_done, GivesUp]
      | succ n => simp [fixLoop_blocked, GivesUp]
  | cons ev events ih =>
      cases left with
      | zero => simp [fixLoop_done, GivesUp]
      | succ n =>
          cases ev with
          | moves k hk hfits =>
              have hmoves := fixLoop_moves base length hk hfits n.succ_pos events offset dev
              simp only [GivesUp, Bool.false_eq_true, iff_false]
              rintro ⟨v, hstatus, _, htaken⟩
              obtain ⟨f, hfault⟩ | hgrows := hmoves
              · rw [hfault] at hstatus
                cases hstatus
              · exact absurd htaken hgrows.ne'
          | closed =>
              obtain ⟨c, dev', hcall, hresult, htaken⟩ :=
                readTransfer_nothing (@le_refl Int _ (Event.result (n + 1) .closed)) base offset dev
              have hzero : sizeT c.result = 0 := by
                rw [hresult]
                exact sizeT_zero
              rw [fixLoop_round n.succ_pos hcall, hzero]
              simp [GivesUp, htaken]
          | fails e hneg hfits =>
              have hresult : Event.result (n + 1) (.fails e hneg hfits) = e := rfl
              obtain ⟨dev', htaken, hstatus, hdev⟩ := fixLoop_fails base length n.succ_pos
                (by rw [hresult]; exact hneg) (by rw [hresult]; exact hfits) events offset dev
              refine Iff.trans ?_ (ih (addSize offset (sizeT e)) _ dev')
              rw [← htaken]
              simp only [hstatus, hdev]
              rfl
          | disconnected =>
              have hresult : Event.result (n + 1) .disconnected = -1 := rfl
              obtain ⟨dev', htaken, hstatus, hdev⟩ := fixLoop_fails base length n.succ_pos
                (by rw [hresult]; decide) (by rw [hresult]; decide) events offset dev
              refine Iff.trans ?_ (ih (addSize offset (sizeT (-1))) _ dev')
              rw [← htaken]
              simp only [hstatus, hdev]
              rfl

/-! ## The call -/

/-- A head that is refused behind the first read closes the connection there. -/
theorem recvHead_refuses {buffSize : Nat} (hbuff : buffSize < 2 ^ 64) {ev : Event}
    {parser : HttpRequestParser} {s : Stream}
    (h : (recvHead buffSize [ev] [] parser { s with reads := [ev] }).1 = .error (.returned none))
    (events : List Event) :
    recvHead buffSize (ev :: events) [] parser s = refuse
      { s with taken := s.taken + (ev.result buffSize).toNat, reads := events } := by
  have hroom : subSize buffSize ([] : List UInt8).length = buffSize :=
    subSize_of_le hbuff (Nat.zero_le _)
  simp only [recvHead, hroom, List.nil_append] at h ⊢
  by_cases hlen : ev.result buffSize ≤ 0
  · rw [if_pos hlen]
  · rw [if_neg hlen] at h ⊢
    cases hexec : parser.execute (window s.input s.taken (ev.result buffSize).toNat) with
    | none =>
        rw [hexec] at h
        cases h
    | some result =>
        obtain ⟨parser', nparse⟩ := result
        rw [hexec] at h
        simp only at h ⊢
        by_cases herror : parser'.hasError = true
        · rw [if_pos herror]
        · rw [if_neg herror] at h ⊢
          by_cases hfull : (((window s.input s.taken (ev.result buffSize).toNat).drop nparse).length
              : Int) = int32 buffSize
          · rw [if_pos hfull]
          · rw [if_neg hfull] at h
            -- neither a whole head nor a wait for more of it is a refusal
            split at h
            · cases h
            · cases h

/-- The body that comes after the head. -/
theorem recvBody_lost {events : List Event} {surplus : List UInt8}
    (hsmall : surplus.length < 2 ^ 31)
    (hlarge : m.body.length < 2 ^ 64) {t : Stream} (hreads : t.reads = events) :
    let run := recvBody (int64 m.body.length) m.request surplus t
    run.1 = .returned none ∧ run.2.closed = true ∧ run.2.taken = t.taken ↔
      surplus.length < m.body.length ∧ m.body.length < 2 ^ 63 ∧
        GivesUp (m.body.length - surplus.length) events
        (m.body.length - surplus.length) = true := by
  obtain ⟨_, _, hbody⟩ := headRequest_eq_some m.parsed
  by_cases hread : surplus.length < m.body.length ∧ m.body.length < 2 ^ 63
  · obtain ⟨hlt, hlen⟩ := hread
    have hleft : ((m.body.length : Int) - surplus.length).toNat =
        m.body.length - surplus.length := by
      omega
    rw [int64_natCast hlen]
    unfold recvBody
    rw [if_pos (by omega)]
    simp only
    rw [if_pos (by omega : (surplus.length : Int) ≤ m.body.length), if_pos (by omega),
      Int.toNat_natCast, hleft]
    have hgives := @fixLoop_givesUp_iff surplus.length (m.body.length - surplus.length) events 0
      (m.body.length - surplus.length)
      (t, splice (List.replicate m.body.length 0) 0 (surplus.take surplus.length))
    rw [← hreads] at hgives ⊢
    unfold readFixSize
    simp only at hgives ⊢
    generalize fixLoop (readTransfer surplus.length) (m.body.length - surplus.length) t.reads 0
      (m.body.length - surplus.length)
      (t, splice (List.replicate m.body.length 0) 0 (surplus.take surplus.length)) = run at hgives ⊢
    rw [and_iff_right hlt, and_iff_right hlen, ← hgives]
    cases hstatus : run.status with
    | returned v =>
        by_cases hv : v ≤ 0
        · simp [hv]
        · simp [hv]
    | blocked => simp
    | fault f => simp
  · have hle : int64 m.body.length ≤ surplus.length := by
      by_cases hlen : m.body.length < 2 ^ 63
      · rw [int64_natCast hlen]
        omega
      · rw [int64_wrap (by omega) hlarge]
        omega
    rw [recvBody_buffered hbody hle t]
    constructor
    · intro h
      cases h.1
    · intro h
      exact absurd ⟨h.1, h.2.1⟩ hread

theorem HttpRequest.body_init (r : HttpRequest) : r.init.body = r.body := by
  unfold HttpRequest.init
  simp only
  split <;> rfl

/-- The string that is read into stays empty. -/
theorem recvBody_body {length : Int} {data request : HttpRequest} (hbody : data.body = [])
    {surplus : List UInt8} {t : Stream}
    (h : (recvBody length data surplus t).1 = .returned (some request)) : request.body = [] := by
  have hset : ({ data with body := [] } : HttpRequest).body = [] := rfl
  unfold recvBody at h
  simp only at h
  split at h
  · split at h
    · split at h
      · split at h
        · cases h
        · cases h
          exact (HttpRequest.body_init _).trans hset
      · cases h
      · cases h
    · cases h
      exact (HttpRequest.body_init _).trans hset
  · cases h
    exact (HttpRequest.body_init data).trans hbody

/-- Bodies are not delivered.  A body that is too long is refused before it is read only if
there is nothing of it to read. -/
theorem recvRequest_body {raw : HttpParser} (hbuff : buffSize < 2 ^ 64)
    (hraw : raw.uriRelaxed = relaxed) (hinput : window s.input s.taken m.head.length = m.head)
    (hone : (m.head.length : Int) ≤ (s.reads.head?.map (Event.result buffSize)).getD 0)
    (hbody : 0 < m.body.length) (maxSize : Nat) :
    BodyHandled maxSize m s (recvRequest buffSize raw s) ↔ LostBefore maxSize m s := by
  have hpos := m.head_pos
  cases hreads : s.reads with
  | nil =>
      rw [hreads] at hone
      simp only [List.head?_nil, Option.map_none, Option.getD_none] at hone
      omega
  | cons ev events =>
      obtain ⟨_, _, hnil⟩ := headRequest_eq_some m.parsed
      obtain ⟨surplus, hlength, hread, hwindow, hsmall⟩ := m.read_surplus hreads hinput hone
      have hreach := recvHead_message hbuff hraw hreads hread hwindow
      rw [List.length_append, hlength] at hreach
      unfold BodyHandled
      by_cases hfits : m.body.length ≤ maxSize
      · rw [if_pos hfits]
        constructor
        · intro ⟨request, hreturned, hdelivered⟩
          have hempty : request.body = [] := by
            split at hreach
            · rw [recvRequest_error hreach] at hreturned
              cases hreturned
            · obtain ⟨parser, hdata, hrun⟩ := hreach
              rw [recvRequest_ok hrun, hdata] at hreturned
              exact recvBody_body hnil hreturned
          rw [hdelivered] at hempty
          rw [hempty] at hbody
          cases hbody
        · intro h
          exact absurd h.long (by omega)
      · rw [if_neg hfits]
        by_cases hbuffer : (surplusOf m s : Int) = int32 buffSize
        · have hlast :=
            recvHead_message (s := { s with reads := [ev] }) hbuff hraw rfl hread hwindow
          rw [hlength, if_pos hbuffer] at hlast
          have hrun := recvHead_refuses hbuff hlast events
          unfold recvRequest
          rw [hreads, hrun, hread, List.length_append, hlength]
          exact ⟨fun _ => ⟨by omega, .inl hbuffer⟩, fun _ => ⟨rfl, rfl, rfl⟩⟩
        · rw [if_neg hbuffer] at hreach
          obtain ⟨parser, hdata, hrun⟩ := hreach
          rw [recvRequest_ok hrun, hdata, answer, m.length_eq]
          have hlost := recvBody_lost (m := m) hsmall
            (by rw [← m.length_eq]; exact m.request.contentLength_lt)
            (t := { s with taken := s.taken + (m.head.length + surplusOf m s), reads := events })
            rfl
          rw [hlength] at hlost
          refine Iff.trans hlost ⟨fun h => ⟨by omega, .inr ?_⟩, fun h => ?_⟩
          · rw [hreads]
            exact h
          · have hafter := h.lost.resolve_left hbuffer
            rw [hreads] at hafter
            exact hafter

/-- A peer that goes away behind a head that promises too much. -/
theorem recvRequest_body_lost :
    let s := sessionOf postMessage.head [.moves 39 (by decide) (by decide), .closed]
    BodyHandled 2 postMessage s (recvRequest 4096 (.fresh false) s) := by
  intro s
  have hinput : window s.input s.taken postMessage.head.length = postMessage.head := by
    decide
  have hraw : (HttpParser.fresh false).uriRelaxed = false := rfl
  apply (recvRequest_body (by decide) hraw hinput (by decide) (by decide) 2).mpr
  refine ⟨by decide, .inr ⟨?_, ?_, ?_⟩⟩
  all_goals decide

/-- A body that comes with its head is not delivered, and with a limit of 2 it is not refused
either. -/
theorem recvRequest_loses_body :
    let s := sessionOf postMessage.bytes [.moves 42 (by decide) (by decide)]
    let run := recvRequest 4096 (.fresh false) s
    Arriving postMessage s ∧ run.1 = .returned (some postMessage.request.init) ∧
      ¬ BodyHandled (64 * 1024 * 1024) postMessage s run ∧ ¬ BodyHandled 2 postMessage s run := by
  intro s run
  have hrun : run.1 = .returned (some postMessage.request.init) := by decide +kernel
  refine ⟨⟨by decide, by decide⟩, hrun, ?_, ?_⟩
  · intro h
    obtain ⟨request, hreturned, hbody⟩ := h
    rw [hrun] at hreturned
    cases hreturned
    exact absurd hbody (by decide)
  · intro h
    have hnone : run.1 = .returned none := h.1
    rw [hrun] at hnone
    cases hnone

end Lyslg.Http
