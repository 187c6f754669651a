import Lyslg.Stream.SocketStream
/-!
# Scatter and gather over TLS

`SSLSocket::recv` and `SSLSocket::send` over `iovec`s make one call of `SSL_read` or `SSL_write`
for each buffer.  Their results are the events of the stream, as for a plain socket; a buffer's
length is cut to an `int` for them.  `nothingLost` says on which results the loop accounts for
what it moves.
-/

namespace Lyslg

open Support.Memory Support.Machine Support.State

/-! ## The loop -/

/-- A call over `iovec`s: how many bytes each call of the library moved, and how far it got. -/
structure SslRun (δ : Type) where
  parts : List Nat
  status : Status
  dev : δ
  rest : List Event

/-- How many bytes the call moved. -/
def SslRun.moved {δ : Type} (run : SslRun δ) : Nat := run.parts.sum

/-- The loop over the buffers, with `int total`; `move` transfers the first bytes of a buffer. -/
def sslLoop {δ : Type} (move : ByteArray.IoVec → Nat → δ → Except Fault δ) :
    List ByteArray.IoVec → List Event → Int → δ → SslRun δ
  | [], events, total, dev => ⟨[], .returned total, dev, events⟩
  | _ :: _, [], _, dev => ⟨[], .blocked, dev, []⟩
  | v :: buffers, ev :: events, total, dev =>
      let tmp := ev.result (int32 v.len).toNat
      match move v tmp.toNat dev with
      | .error f => ⟨[], .fault f, dev, events⟩
      | .ok dev' =>
          if tmp ≤ 0 then ⟨[0], .returned tmp, dev', events⟩
          else
            let total := int32 (total + tmp)
            if tmp ≠ int32 v.len then ⟨[tmp.toNat], .returned total, dev', events⟩
            else
              let run := sslLoop move buffers events total dev'
              { run with parts := tmp.toNat :: run.parts }

/-- `SSL_read` of `k` bytes into a buffer. -/
def sslRead (v : ByteArray.IoVec) (k : Nat) (dev : Stream × List Block) :
    Except Fault (Stream × List Block) := do
  let root ← ByteArray.scatter [v] (window dev.1.input dev.1.taken k) dev.2
  return ({ dev.1 with taken := dev.1.taken + k }, root)

/-- `SSL_write` of `k` bytes of a buffer. -/
def sslWrite (blocks : List Block) (v : ByteArray.IoVec) (k : Nat) (s : Stream) :
    Except Fault Stream := do
  let bytes ← ByteArray.gather blocks [v] k
  return { s with output := s.output ++ bytes }

/-- `SSLSocket::recv(iovec*, ...)`; `ssl` says whether `m_ssl` is set. -/
def sslRecv (ssl : Bool) (buffers : List ByteArray.IoVec) (s : Stream)
    (blocks : List Block) : SslRun (Stream × List Block) :=
  if !ssl then ⟨[], .returned (-1), (s, blocks), s.reads⟩
  else
    let run := sslLoop sslRead buffers s.reads 0 (s, blocks)
    { run with dev := ({ run.dev.1 with reads := run.rest }, run.dev.2) }

/-- `SSLSocket::send(iovec*, ...)` -/
def sslSend (ssl : Bool) (buffers : List ByteArray.IoVec) (s : Stream)
    (blocks : List Block) : SslRun Stream :=
  if !ssl then ⟨[], .returned (-1), s, s.writes⟩
  else
    let run := sslLoop (sslWrite blocks) buffers s.writes 0 s
    { run with dev := { run.dev with writes := run.rest } }

/-! ### Over a `ByteArray` -/

/-- `SocketStream::read(ByteArray::ptr ba, size_t length)`, over an `SSLSocket`. -/
def sslReadInto (connected ssl : Bool) (garbage : ByteArray.Garbage) (length : Nat) (s : Stream)
    (ba : ByteArray) : SslRun (Stream × ByteArray) :=
  if !connected then ⟨[], .returned (-1), (s, ba), s.reads⟩
  else
    match ByteArray.getWriteBuffers garbage length ba with
    | .error f ba => ⟨[], .fault f, (s, ba), s.reads⟩
    | .ok (_, iovs) ba =>
        let run := sslRecv ssl iovs s ba.root
        let ba := { ba with root := run.dev.2 }
        match run.status with
        | .returned rt =>
            match ByteArray.advance ba rt with
            | .error f => ⟨run.parts, .fault f, (run.dev.1, ba), run.rest⟩
            | .ok ba' => ⟨run.parts, .returned rt, (run.dev.1, ba'), run.rest⟩
        | status => ⟨run.parts, status, (run.dev.1, ba), run.rest⟩

/-- `SocketStream::write(ByteArray::ptr ba, size_t length)`, over an `SSLSocket`. -/
def sslWriteFrom (connected ssl : Bool) (length : Nat) (s : Stream) (ba : ByteArray) :
    SslRun (Stream × ByteArray) :=
  if !connected then ⟨[], .returned (-1), (s, ba), s.writes⟩
  else
    match ByteArray.getReadBuffers length ba with
    | .error f ba => ⟨[], .fault f, (s, ba), s.writes⟩
    | .ok (_, iovs) ba =>
        let run := sslSend ssl iovs s ba.root
        match run.status with
        | .returned rt =>
            match ByteArray.advance ba rt with
            | .error f => ⟨run.parts, .fault f, (run.dev, ba), run.rest⟩
            | .ok ba' => ⟨run.parts, .returned rt, (run.dev, ba'), run.rest⟩
        | status => ⟨run.parts, status, (run.dev, ba), run.rest⟩

/-! ## What callers rely on -/

/-- Where in the joined buffers the bytes are that were moved. -/
def offsets (base : Nat) : List ByteArray.IoVec → List Nat → List Nat
  | v :: buffers, k :: parts => List.range' base k ++ offsets (base + v.len) buffers parts
  | _, _ => []

/-- The result accounts for what was moved, after `before` bytes. -/
structure SslRun.ExactFrom {δ : Type} (run : SslRun δ) (buffers : List ByteArray.IoVec)
    (base before : Nat) (rt : Int) : Prop where
  /-- the bytes are the first ones of the buffers, in order -/
  inOrder : offsets base buffers run.parts = List.range' base run.moved
  total : 0 < before + run.moved → rt = (before + run.moved : Nat)
  nothing : rt ≤ 0 ↔ before + run.moved = 0

/-- The contract of a call that returns `rt`. -/
abbrev SslRun.Exact {δ : Type} (run : SslRun δ) (buffers : List ByteArray.IoVec)
    (rt : Int) : Prop :=
  run.ExactFrom buffers 0 0 rt

/-- Going through the results after `moved` bytes: no failure comes behind a byte that was moved,
the sum is an `int`, and no buffer whose length is cut lies before another one. -/
def nothingLost (moved : Nat) : List ByteArray.IoVec → List Event → Bool
  | [], _ => moved < 2 ^ 31
  | _ :: _, [] => true
  | v :: buffers, ev :: events =>
      let r := ev.result (int32 v.len).toNat
      if r ≤ 0 then moved = 0
      else if r ≠ int32 v.len then moved + r.toNat < 2 ^ 31
      else (r = v.len || buffers = []) && nothingLost (moved + r.toNat) buffers events

/-! ## Rounds of the loop -/

section Loop

variable {δ : Type} {move : ByteArray.IoVec → Nat → δ → Except Fault δ} {v : ByteArray.IoVec}
  {buffers : List ByteArray.IoVec} {ev : Event} {events : List Event} {total : Int} {dev dev' : δ}

theorem sslLoop_fails (hmove : move v (ev.result (int32 v.len).toNat).toNat dev = .ok dev')
    (hr : ev.result (int32 v.len).toNat ≤ 0) :
    sslLoop move (v :: buffers) (ev :: events) total dev =
      ⟨[0], .returned (ev.result (int32 v.len).toNat), dev', events⟩ := by
  simp only [sslLoop, hmove, if_pos hr]

theorem sslLoop_short (hmove : move v (ev.result (int32 v.len).toNat).toNat dev = .ok dev')
    (hr : 0 < ev.result (int32 v.len).toNat)
    (hshort : ev.result (int32 v.len).toNat ≠ int32 v.len) :
    sslLoop move (v :: buffers) (ev :: events) total dev =
      ⟨[(ev.result (int32 v.len).toNat).toNat],
        .returned (int32 (total + ev.result (int32 v.len).toNat)), dev', events⟩ := by
  simp only [sslLoop, hmove, if_neg (Int.not_le.mpr hr), if_pos hshort]

theorem sslLoop_whole (hmove : move v (ev.result (int32 v.len).toNat).toNat dev = .ok dev')
    (hr : 0 < ev.result (int32 v.len).toNat)
    (hwhole : ev.result (int32 v.len).toNat = int32 v.len) :
    sslLoop move (v :: buffers) (ev :: events) total dev =
      let run := sslLoop move buffers events (int32 (total + ev.result (int32 v.len).toNat)) dev'
      { run with parts := (ev.result (int32 v.len).toNat).toNat :: run.parts } := by
  simp only [sslLoop, hmove, if_neg (Int.not_le.mpr hr), if_neg (not_not_intro hwhole)]

/-- A loop that returns has had a result for the first buffer, and transferred it. -/
theorem sslLoop_call {rt : Int}
    (h : (sslLoop move (v :: buffers) events total dev).status = .returned rt) :
    ∃ ev rest dev', events = ev :: rest ∧
      move v (ev.result (int32 v.len).toNat).toNat dev = .ok dev' := by
  cases events with
  | nil => cases h
  | cons ev rest =>
      cases hmove : move v (ev.result (int32 v.len).toNat).toNat dev with
      | error f =>
          simp only [sslLoop, hmove] at h
          cases h
      | ok dev' => exact ⟨ev, rest, dev', rfl, hmove⟩

/-- A sum of `n` bytes, kept in an `int`. -/
theorem int32_total_iff (n : Nat) :
    ((0 < n → int32 n = n) ∧ (int32 n ≤ 0 ↔ n = 0)) ↔ n < 2 ^ 31 := by
  have hrange := (int32_range n).2
  constructor
  · rintro ⟨htotal, _⟩
    rcases Nat.eq_zero_or_pos n with rfl | hn
    · decide
    · have := htotal hn
      omega
  · intro hn
    rw [int32_natCast hn]
    omega

/-- The first offset behind a buffer that was cut. -/
theorem offsets_gap {base k sum : Nat} {parts : List Nat} (hlen : k ≠ v.len) (hsum : 0 < sum)
    (hparts : parts.sum = sum) (hhead : parts.head? ≠ some 0) (hne : buffers ≠ []) :
    offsets (base + v.len) buffers parts ≠ List.range' (base + k) sum := by
  cases buffers with
  | nil => exact absurd rfl hne
  | cons w buffers =>
      cases parts with
      | nil =>
          rw [List.sum_nil] at hparts
          omega
      | cons n parts =>
          simp only [List.head?_cons, ne_eq, Option.some.injEq] at hhead
          intro h
          have hfirst := congrArg List.head? h
          rw [offsets, List.head?_append, List.head?_range', List.head?_range', if_neg (by omega),
            if_neg (by omega), Option.some_or, Option.some.injEq] at hfirst
          omega

/-- A call that moves nothing at first has failed. -/
theorem sslLoop_head (h : (sslLoop move buffers events total dev).parts.head? = some 0) :
    (sslLoop move buffers events total dev).parts = [0] := by
  cases buffers with
  | nil => cases h
  | cons v buffers =>
      cases events with
      | nil => cases h
      | cons ev events =>
          cases hmove : move v (ev.result (int32 v.len).toNat).toNat dev with
          | error f =>
              simp only [sslLoop, hmove] at h
              cases h
          | ok dev' =>
              by_cases hr : ev.result (int32 v.len).toNat ≤ 0
              · rw [sslLoop_fails hmove hr]
              · have hpos : (ev.result (int32 v.len).toNat).toNat ≠ 0 := by omega
                by_cases hwhole : ev.result (int32 v.len).toNat = int32 v.len
                · rw [sslLoop_whole hmove (by omega) hwhole] at h
                  exact absurd (Option.some.inj h) hpos
                · rw [sslLoop_short hmove (by omega) hwhole] at h
                  exact absurd (Option.some.inj h) hpos

theorem sslLoop_moved_zero (hne : buffers ≠ []) {rt : Int}
    (h : (sslLoop move buffers events total dev).status = .returned rt)
    (hmoved : (sslLoop move buffers events total dev).moved = 0) : rt ≤ 0 := by
  cases buffers with
  | nil => exact absurd rfl hne
  | cons v buffers =>
      obtain ⟨ev, events, dev', rfl, hmove⟩ := sslLoop_call h
      by_cases hr : ev.result (int32 v.len).toNat ≤ 0
      · rw [sslLoop_fails hmove hr] at h
        injection h with h
        rw [← h]
        exact hr
      · by_cases hwhole : ev.result (int32 v.len).toNat = int32 v.len
        · rw [sslLoop_whole hmove (by omega) hwhole, SslRun.moved, List.sum_cons] at hmoved
          omega
        · rw [sslLoop_short hmove (by omega) hwhole, SslRun.moved, List.sum_cons] at hmoved
          omega

/-- The contract over a buffer that was transferred whole, and the rest of them. -/
theorem exactFrom_cons {k base before : Nat} {rt : Int}
    (h : (sslLoop move buffers events total dev).status = .returned rt) (hk : 0 < k) :
    ({ sslLoop move buffers events total dev with
        parts := k :: (sslLoop move buffers events total dev).parts } : SslRun δ).ExactFrom
          (v :: buffers) base before rt ↔
      (k = v.len ∨ buffers = []) ∧
        (sslLoop move buffers events total dev).ExactFrom buffers (base + v.len)
        (before + k) rt := by
  have hzero (hne : buffers ≠ []) : (sslLoop move buffers events total dev).moved = 0 → rt ≤ 0 :=
    sslLoop_moved_zero hne h
  have hhead : (sslLoop move buffers events total dev).parts.head? = some 0 →
      (sslLoop move buffers events total dev).parts = [0] := sslLoop_head
  generalize sslLoop move buffers events total dev = run at *
  have hmoved : ({ run with parts := k :: run.parts } : SslRun δ).moved = k + run.moved :=
    List.sum_cons
  have hrange : List.range' base (k + run.moved) =
      List.range' base k ++ List.range' (base + k) run.moved := by
    rw [List.range'_append_1]
  constructor
  · rintro ⟨hinOrder, htotal, hnothing⟩
    rw [hmoved] at hinOrder htotal hnothing
    rw [offsets, hrange, List.append_cancel_left_eq] at hinOrder
    have hgap : k = v.len ∨ buffers = [] := by
      by_contra hnot
      obtain ⟨hlen, hne⟩ := not_or.mp hnot
      rcases Nat.eq_zero_or_pos run.moved with hsum | hsum
      · have := hnothing.mp (hzero hne hsum)
        omega
      · refine offsets_gap hlen hsum rfl (fun hfirst => ?_) hne hinOrder
        rw [SslRun.moved, hhead hfirst] at hsum
        cases hsum
    refine ⟨hgap, ?_, ?_, ?_⟩
    · rcases hgap with hlen | rfl
      · rw [hlen] at hinOrder
        exact hinOrder
      · have hsum : run.moved = 0 := (List.range'_eq_nil_iff).mp hinOrder.symm
        rw [hsum]
        rfl
    · rw [Nat.add_assoc]
      exact htotal
    · rw [Nat.add_assoc]
      exact hnothing
  · rintro ⟨hgap, hinOrder, htotal, hnothing⟩
    rw [Nat.add_assoc] at htotal hnothing
    refine ⟨?_, by rwa [hmoved], by rwa [hmoved]⟩
    rw [offsets, hmoved, hrange, hinOrder]
    rcases hgap with hlen | rfl
    · rw [hlen]
    · have hsum : run.moved = 0 := (List.range'_eq_nil_iff).mp hinOrder.symm
      rw [hsum]
      rfl

/-- The loop keeps its contract exactly on the results that lose nothing. -/
theorem sslLoop_exact_iff (buffers : List ByteArray.IoVec) (events : List Event) (base : Nat)
    {before : Nat} {rt : Int}
    (h : (sslLoop move buffers events (int32 before) dev).status = .returned rt) :
    (sslLoop move buffers events (int32 before) dev).ExactFrom buffers base before rt ↔
      nothingLost before buffers events = true := by
  induction buffers generalizing events base before dev with
  | nil =>
      have hrt : int32 before = rt := by
        simp only [sslLoop, Status.returned.injEq] at h
        exact h
      rw [nothingLost, decide_eq_true_eq, ← int32_total_iff, ← hrt]
      exact ⟨fun hexact => ⟨hexact.total, hexact.nothing⟩,
        fun hcount => ⟨rfl, hcount.1, hcount.2⟩⟩
  | cons v buffers ih =>
      obtain ⟨ev, events, dev', rfl, hmove⟩ := sslLoop_call h
      rw [nothingLost]
      by_cases hr : ev.result (int32 v.len).toNat ≤ 0
      · -- the call fails, and its result is returned
        rw [sslLoop_fails hmove hr] at h ⊢
        injection h with h
        simp only [if_pos hr, decide_eq_true_eq]
        constructor
        · intro hexact
          exact Nat.eq_zero_of_add_eq_zero_right (hexact.nothing.mp (by omega))
        · intro hbefore
          refine ⟨by simp [offsets, SslRun.moved], fun hpos => ?_,
            iff_of_true (by omega) (by rw [hbefore]; rfl)⟩
          rw [hbefore] at hpos
          cases hpos
      · obtain ⟨k, hk⟩ : ∃ k : Nat, ev.result (int32 v.len).toNat = k :=
          ⟨_, (Int.toNat_of_nonneg (by omega)).symm⟩
        have hnext : int32 (int32 before + (k : Int)) = int32 ((before + k : Nat) : Int) := by
          rw [int32_add_int32, Nat.cast_add]
        by_cases hwhole : ev.result (int32 v.len).toNat = int32 v.len
        · rw [sslLoop_whole hmove (by omega) hwhole, hk, hnext] at h ⊢
          rw [hk] at hwhole hr
          simp only [if_neg hr, if_neg (not_not_intro hwhole), Int.toNat_natCast,
            Bool.and_eq_true, Bool.or_eq_true, decide_eq_true_eq, Nat.cast_inj]
          rw [← ih events (base + v.len) h]
          exact exactFrom_cons h (by omega)
        · rw [sslLoop_short hmove (by omega) hwhole, hk, hnext] at h ⊢
          injection h with h
          rw [hk] at hwhole hr
          simp only [if_neg hr, if_pos hwhole, Int.toNat_natCast, decide_eq_true_eq]
          rw [← int32_total_iff, h]
          constructor
          · intro hexact
            exact ⟨hexact.total, hexact.nothing⟩
          · intro hcount
            exact ⟨by simp [offsets, SslRun.moved], hcount.1, hcount.2⟩

end Loop

/-! ## The bytes -/

theorem scatter_nil (buffers : List ByteArray.IoVec) (blocks : List Block) :
    ByteArray.scatter buffers [] blocks = .ok blocks := by
  cases buffers <;> rfl

/-- Bytes for the first buffer, and more of them if it is full. -/
theorem scatter_cons {v : ByteArray.IoVec} {bytes : List UInt8} {blocks blocks' : List Block}
    (h : ByteArray.scatter [v] bytes blocks = .ok blocks') (hpos : bytes ≠ [])
    (hlen : bytes.length ≤ v.len) (buffers : List ByteArray.IoVec) {more : List UInt8}
    (hmore : bytes.length = v.len ∨ more = []) :
    ByteArray.scatter (v :: buffers) (bytes ++ more) blocks =
      ByteArray.scatter buffers more blocks' := by
  obtain ⟨b, bs, rfl⟩ := List.exists_cons_of_ne_nil hpos
  have htake : ((b :: bs) ++ more).take v.len = b :: bs := by
    rcases hmore with hfull | rfl
    · rw [← hfull, List.take_left]
    · rw [List.append_nil, List.take_of_length_le hlen]
  have hdrop : ((b :: bs) ++ more).drop v.len = more := by
    rcases hmore with hfull | rfl
    · rw [← hfull, List.drop_left]
    · rw [List.append_nil, List.drop_eq_nil_of_le hlen]
  rw [List.cons_append] at htake hdrop ⊢
  rw [ByteArray.scatter, List.take_of_length_le hlen, List.drop_eq_nil_of_le hlen] at h
  rw [ByteArray.scatter, htake, hdrop]
  cases hnode : blocks[v.block]? with
  | none =>
      rw [hnode] at h
      cases h
  | some node =>
      simp only [hnode] at h ⊢
      obtain ⟨node', hstore, hset⟩ := ok_of_bind h
      rw [hstore, ok_bind]
      cases hset
      rfl

theorem gather_cons {v : ByteArray.IoVec} {k more : Nat} {blocks : List Block} {bytes : List UInt8}
    (h : ByteArray.gather blocks [v] k = .ok bytes) (hpos : 0 < k) (hlen : k ≤ v.len)
    (buffers : List ByteArray.IoVec) (hmore : k = v.len ∨ more = 0) :
    ByteArray.gather blocks (v :: buffers) (k + more) =
      (ByteArray.gather blocks buffers more).map (bytes ++ ·) := by
  obtain ⟨n, rfl⟩ : ∃ n, k = n + 1 := ⟨k - 1, by omega⟩
  rw [ByteArray.gather, Nat.min_eq_right hlen, (by omega : n + 1 - v.len = 0)] at h
  rw [(by omega : n + 1 + more = n + more + 1), ByteArray.gather,
    (by omega : min v.len (n + more + 1) = n + 1), (by omega : n + more + 1 - v.len = more)]
  cases hnode : blocks[v.block]? with
  | none =>
      rw [hnode] at h
      cases h
  | some node =>
      simp only [hnode] at h ⊢
      obtain ⟨loaded, hload, hrest⟩ := ok_of_bind h
      rw [hload, ok_bind]
      rw [ByteArray.gather, ok_bind] at hrest
      cases hrest
      rw [List.append_nil]
      cases ByteArray.gather blocks buffers more <;> rfl

/-- What a call of `SSL_read` leaves. -/
theorem sslRead_eq_ok {v : ByteArray.IoVec} {k : Nat} {s : Stream} {blocks : List Block}
    {dev' : Stream × List Block} (h : sslRead v k (s, blocks) = .ok dev') :
    dev'.1 = { s with taken := s.taken + k } ∧
      ByteArray.scatter [v] (window s.input s.taken k) blocks = .ok dev'.2 := by
  obtain ⟨root, hscatter, hreturn⟩ := ok_of_bind h
  cases hreturn
  exact ⟨rfl, hscatter⟩

theorem sslWrite_eq_ok {v : ByteArray.IoVec} {k : Nat} {s s' : Stream} {blocks : List Block}
    (h : sslWrite blocks v k s = .ok s') :
    ∃ bytes, ByteArray.gather blocks [v] k = .ok bytes ∧
      s' = { s with output := s.output ++ bytes } := by
  obtain ⟨bytes, hgather, hreturn⟩ := ok_of_bind h
  cases hreturn
  exact ⟨bytes, hgather, rfl⟩

/-- A result is no more than the length. -/
theorem Event.result_int32_le (ev : Event) (len : Nat) :
    (ev.result (int32 len).toNat).toNat ≤ len := by
  have hresult := ev.result_le (int32 len).toNat
  have hcut := int32_le_natCast len
  omega

/-- What every call does to the device, the loop does with all of the bytes; `I buffers k dev dev'`
says that `dev'` is `dev` after the first `k` bytes of the buffers. -/
theorem sslLoop_moves {δ : Type} (move : ByteArray.IoVec → Nat → δ → Except Fault δ)
    {I : List ByteArray.IoVec → Nat → δ → δ → Prop} (hnil : ∀ buffers dev, I buffers 0 dev dev)
    (hfail : ∀ v dev dev', move v 0 dev = .ok dev' → dev' = dev)
    (hcons : ∀ v buffers k more dev dev' dev'', move v k dev = .ok dev' → 0 < k → k ≤ v.len →
      (k = v.len ∨ more = 0) → I buffers more dev' dev'' → I (v :: buffers) (k + more) dev dev'')
    (buffers : List ByteArray.IoVec) {events : List Event} {before : Nat} {total rt : Int} {dev : δ}
    (hlost : nothingLost before buffers events = true)
    (h : (sslLoop move buffers events total dev).status = .returned rt) :
    I buffers (sslLoop move buffers events total dev).moved dev
        (sslLoop move buffers events total dev).dev ∧
      (sslLoop move buffers events total dev).moved ≤ ByteArray.totalLen buffers := by
  induction buffers generalizing events before total dev with
  | nil => exact ⟨hnil [] dev, Nat.zero_le _⟩
  | cons v buffers ih =>
      obtain ⟨ev, events, dev', rfl, hmove⟩ := sslLoop_call h
      have hle := ev.result_int32_le v.len
      have hsum : ByteArray.totalLen (v :: buffers) = v.len + ByteArray.totalLen buffers := rfl
      rw [nothingLost] at hlost
      by_cases hr : ev.result (int32 v.len).toNat ≤ 0
      · rw [sslLoop_fails hmove hr]
        rw [Int.toNat_of_nonpos hr] at hmove
        obtain rfl := hfail v dev dev' hmove
        exact ⟨hnil (v :: buffers) dev', Nat.zero_le _⟩
      · have hpos : 0 < (ev.result (int32 v.len).toNat).toNat := by omega
        by_cases hwhole : ev.result (int32 v.len).toNat = int32 v.len
        · rw [sslLoop_whole hmove (by omega) hwhole] at h ⊢
          simp only [if_neg hr, if_neg (not_not_intro hwhole), Bool.and_eq_true,
            Bool.or_eq_true, decide_eq_true_eq] at hlost
          obtain ⟨hgap, hlost⟩ := hlost
          obtain ⟨hdev, hmoved⟩ := ih hlost h
          rw [SslRun.moved, List.sum_cons, hsum]
          refine ⟨hcons v buffers _ _ dev dev' _ hmove hpos hle ?_ hdev,
            Nat.add_le_add hle hmoved⟩
          rcases hgap with hlen | rfl
          · exact .inl (by omega)
          · exact .inr (Nat.le_zero.mp hmoved)
        · rw [sslLoop_short hmove (by omega) hwhole]
          refine ⟨hcons v buffers _ 0 dev dev' dev' hmove hpos hle (.inr rfl)
            (hnil buffers dev'), ?_⟩
          rw [SslRun.moved, List.sum_singleton, hsum]
          omega

theorem sslLoop_read {buffers : List ByteArray.IoVec} {events : List Event} {total rt : Int}
    {s : Stream} {blocks : List Block} (hlost : nothingLost 0 buffers events = true)
    (h : (sslLoop sslRead buffers events total (s, blocks)).status = .returned rt) :
    let run := sslLoop sslRead buffers events total (s, blocks)
    run.dev.1 = { s with taken := s.taken + run.moved } ∧
      ByteArray.scatter buffers (window s.input s.taken run.moved) blocks = .ok run.dev.2 ∧
      run.moved ≤ ByteArray.totalLen buffers := by
  intro run
  have hmoves := sslLoop_moves sslRead
    (I := fun buffers k dev dev' => dev'.1 = { dev.1 with taken := dev.1.taken + k } ∧
      ByteArray.scatter buffers (window dev.1.input dev.1.taken k) dev.2 = .ok dev'.2)
    (fun buffers dev => ⟨rfl, scatter_nil buffers dev.2⟩) ?_ ?_ buffers hlost h
  · exact ⟨hmoves.1.1, hmoves.1.2, hmoves.2⟩
  · rintro v ⟨s, blocks⟩ ⟨s', blocks'⟩ hmove
    obtain ⟨hs, hscatter⟩ := sslRead_eq_ok hmove
    rw [window_zero, scatter_nil] at hscatter
    cases hscatter
    exact Prod.ext hs rfl
  · rintro v buffers k more ⟨s, blocks⟩ ⟨s', blocks'⟩ dev'' hmove hpos hle hmore ⟨hdev, hrest⟩
    obtain ⟨hs, hscatter⟩ := sslRead_eq_ok hmove
    simp only at hs hscatter hdev hrest ⊢
    rw [hs] at hdev hrest
    refine ⟨by rw [hdev, Nat.add_assoc], ?_⟩
    have hfull : (window s.input s.taken k).length = v.len ∨
        window s.input (s.taken + k) more = [] := by
      rw [length_window]
      exact hmore.imp id fun h => by rw [h, window_zero]
    have hne : window s.input s.taken k ≠ [] := by
      rw [ne_eq, ← List.length_eq_zero_iff, length_window]
      omega
    rw [← window_append_window, scatter_cons hscatter hne (by rw [length_window]; exact hle) buffers
      hfull]
    exact hrest

theorem sslLoop_write {buffers : List ByteArray.IoVec} {events : List Event} {total rt : Int}
    {s : Stream} {blocks : List Block} (hlost : nothingLost 0 buffers events = true)
    (h : (sslLoop (sslWrite blocks) buffers events total s).status = .returned rt) :
    let run := sslLoop (sslWrite blocks) buffers events total s
    ∃ bytes, ByteArray.gather blocks buffers run.moved = .ok bytes ∧
      run.dev = { s with output := s.output ++ bytes } ∧
      run.moved ≤ ByteArray.totalLen buffers := by
  intro run
  have hmoves := sslLoop_moves (sslWrite blocks)
    (I := fun buffers k s s' => ∃ bytes, ByteArray.gather blocks buffers k = .ok bytes ∧
      s' = { s with output := s.output ++ bytes })
    (fun buffers s => ⟨[], by cases buffers <;> rfl, by rw [List.append_nil]⟩) ?_ ?_ buffers hlost h
  · obtain ⟨⟨bytes, hgather, hdev⟩, hle⟩ := hmoves
    exact ⟨bytes, hgather, hdev, hle⟩
  · intro v s s' hmove
    obtain ⟨bytes, hgather, rfl⟩ := sslWrite_eq_ok hmove
    cases hgather
    rw [List.append_nil]
  · rintro v buffers k more s s' s'' hmove hpos hle hmore ⟨rest, hrest, rfl⟩
    obtain ⟨bytes, hgather, rfl⟩ := sslWrite_eq_ok hmove
    refine ⟨bytes ++ rest, ?_, by rw [List.append_assoc]⟩
    rw [gather_cons hgather hpos hle buffers hmore, hrest]
    rfl

/-! ## The call returns -/

/-- The buffers lie in the blocks; an empty one may point anywhere. -/
def Within (blocks : List Block) (buffers : List ByteArray.IoVec) : Prop :=
  ∀ v ∈ buffers, 0 < v.len →
    ∃ node, blocks[v.block]? = some node ∧ v.offset + v.len ≤ node.length

theorem Within.of_lengths {blocks blocks' : List Block} {buffers : List ByteArray.IoVec}
    (h : Within blocks buffers) (hsame : blocks'.map List.length = blocks.map List.length) :
    Within blocks' buffers := by
  intro v hv hpos
  obtain ⟨node, hnode, hfit⟩ := h v hv hpos
  have hlength := congrArg (fun l : List Nat => l[v.block]?) hsame
  simp only [List.getElem?_map, hnode, Option.map_some, Option.map_eq_some_iff] at hlength
  obtain ⟨node', hnode', hsize⟩ := hlength
  exact ⟨node', hnode', by omega⟩

theorem sslRead_returns {v : ByteArray.IoVec} {k : Nat} {s : Stream} {blocks : List Block}
    (hin : Within blocks [v]) (hk : k ≤ v.len) :
    ∃ dev', sslRead v k (s, blocks) = .ok dev' ∧ dev'.2.map List.length =
      blocks.map List.length := by
  have hlen := length_window s.input s.taken k
  unfold sslRead
  generalize window s.input s.taken k = bytes at hlen ⊢
  cases bytes with
  | nil => exact ⟨_, by rw [scatter_nil]; rfl, rfl⟩
  | cons b bytes =>
      have hpos : 0 < (b :: bytes).length := Nat.succ_pos _
      obtain ⟨node, hnode, hfit⟩ := hin v List.mem_cons_self (by omega)
      have hstore : v.offset + (b :: bytes).length ≤ node.length := by omega
      refine ⟨({ s with taken := s.taken + k },
        blocks.set v.block (splice node v.offset (b :: bytes))),
        ?_, ?_⟩
      · simp only [ByteArray.scatter, hnode,
          List.take_of_length_le (by omega : (b :: bytes).length ≤ v.len),
          List.drop_eq_nil_of_le (by omega : (b :: bytes).length ≤ v.len),
          ByteArray.store_of_le hstore]
        rfl
      · obtain ⟨hlt, rfl⟩ := List.getElem?_eq_some_iff.mp hnode
        rw [List.map_set, length_splice _ _ _ hstore, ← List.getElem_map List.length]
        exact List.set_getElem_self (by rwa [List.length_map])

theorem sslWrite_returns {v : ByteArray.IoVec} {k : Nat} {s : Stream} {blocks : List Block}
    (hin : Within blocks [v]) (hk : k ≤ v.len) : ∃ s', sslWrite blocks v k s = .ok s' := by
  unfold sslWrite
  cases k with
  | zero => exact ⟨_, rfl⟩
  | succ k =>
      obtain ⟨node, hnode, hfit⟩ := hin v List.mem_cons_self (by omega)
      have hload : v.offset + min v.len (k + 1) ≤ node.length := by omega
      refine ⟨{ s with output := s.output ++ (slice node v.offset (min v.len (k + 1)) ++ []) }, ?_⟩
      simp only [ByteArray.gather, hnode, ByteArray.load_of_le hload,
        (by omega : k + 1 - v.len = 0)]
      rfl

/-- Where every transfer into the buffers succeeds, as long as `J` holds, and there are results
for all buffers, the call returns. -/
theorem sslLoop_returns {δ : Type} {move : ByteArray.IoVec → Nat → δ → Except Fault δ}
    {J : δ → Prop} {buffers : List ByteArray.IoVec}
    (hmove : ∀ v ∈ buffers, ∀ k ≤ v.len, ∀ dev, J dev → ∃ dev', move v k dev = .ok dev' ∧ J dev')
    {events : List Event} (hevents : buffers.length ≤ events.length) {dev : δ} (hdev : J dev)
    (total : Int) : ∃ rt, (sslLoop move buffers events total dev).status = .returned rt := by
  induction buffers generalizing events dev total with
  | nil => exact ⟨total, rfl⟩
  | cons v buffers ih =>
      obtain ⟨hv, hbuffers⟩ := List.forall_mem_cons.mp hmove
      cases events with
      | nil => cases hevents
      | cons ev events =>
          obtain ⟨dev', hok, hdev'⟩ := hv _ (ev.result_int32_le v.len) dev hdev
          by_cases hr : ev.result (int32 v.len).toNat ≤ 0
          · exact ⟨_, by rw [sslLoop_fails hok hr]⟩
          · by_cases hwhole : ev.result (int32 v.len).toNat = int32 v.len
            · rw [sslLoop_whole hok (by omega) hwhole]
              exact ih hbuffers (Nat.le_of_succ_le_succ hevents) hdev' _
            · exact ⟨_, by rw [sslLoop_short hok (by omega) hwhole]⟩

end Lyslg
