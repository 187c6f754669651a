import Lyslg.ByteArray.Model
import Lyslg.Support.Machine
/-!
# Fixed-size transfers over a stream

`Stream::readFixSize` and `Stream::writeFixSize` repeat an underlying transfer
until `length` bytes have moved.  All four overloads share one loop, which
stores the signed result of the transfer in a `size_t`.  The underlying
results are a script of events: every call takes the next one, and a call
beyond the script is one that has not returned yet.

`fixLoop_sound` says what the loop guarantees as long as no error comes up,
and `fixLoop_unsound` that an error breaks these guarantees.
-/

namespace Lyslg

open Support.Memory Support.Machine

/-- The outcome of one underlying transfer: it moves up to `k` bytes, finds the
peer closed, fails, or finds `isConnected()` false before it calls the socket.
The operating system never moves `2^31` bytes at once, so every outcome is an
`int`. -/
inductive Event where
  | moves (k : Nat) (pos : 0 < k) (fits : k < 2 ^ 31)
  | closed
  | fails (e : Int) (neg : e < 0) (fits : -2 ^ 31 ≤ e)
  | disconnected
  deriving DecidableEq

/-- The `int` an event returns to a caller that has room for `room` bytes. -/
def Event.result (room : Nat) : Event → Int
  | .moves k _ _ => (min k room : Nat)
  | .closed => 0
  | .fails e _ _ => e
  | .disconnected => -1

/-- A stream between this process and a peer. -/
structure Stream where
  /-- all bytes the peer sends, from the start of the connection -/
  input : Nat → UInt8
  /-- how many of them have been read -/
  taken : Nat
  reads : List Event
  /-- all bytes the peer was sent -/
  output : List UInt8
  writes : List Event
  closed : Bool

/-- The `n` bytes of `input` that start at `i`. -/
def window (input : Nat → UInt8) (i n : Nat) : List UInt8 :=
  (List.range n).map fun j => input (i + j)

/-! ## The loop -/

/-- One call of the underlying transfer: the address it was given, the bytes it
was asked for, and the `int` it returned. -/
structure IoCall where
  addr : Nat
  left : Nat
  result : Int
  deriving DecidableEq

/-- How far a transfer got: it returned an `int`, it waits in a call, or it
touched memory outside its buffer. -/
inductive Status where
  | returned (v : Int)
  | blocked
  | fault (f : Fault)
  deriving DecidableEq

/-- A transfer over a device with state `δ`, with the events it left over. -/
structure FixRun (δ : Type) where
  calls : List IoCall
  status : Status
  dev : δ
  rest : List Event

/-- The underlying transfer: given the next event, `offset` and `left`. -/
abbrev Transfer (δ : Type) := Event → Nat → Nat → δ → Except Fault (IoCall × δ)

/-- The loop of `stream.cc`.  `len <= 0` compares a `size_t`, so it only holds
at `0`. -/
def fixLoop {δ : Type} (io : Transfer δ) (length : Nat) :
    List Event → Nat → Nat → δ → FixRun δ
  | events, _, 0, dev => ⟨[], .returned (int32 length), dev, events⟩
  | [], _, _ + 1, dev => ⟨[], .blocked, dev, []⟩
  | ev :: events, offset, n + 1, dev =>
      let left := n + 1
      match io ev offset left dev with
      | .error f => ⟨[], .fault f, dev, events⟩
      | .ok (call, dev') =>
          let len := sizeT call.result
          if len ≤ 0 then ⟨[call], .returned (int32 len), dev', events⟩
          else
            let run := fixLoop io length events (addSize offset len) (subSize left len) dev'
            { run with calls := call :: run.calls }

/-- `read((char*)buffer + offset, left)`, where `buffer` points to index `base` of
an object with the contents `memory`: the bytes that arrive are stored there. -/
def readTransfer (base : Nat) : Transfer (Stream × List UInt8) :=
  fun ev offset left (s, memory) =>
    let addr := addSize base offset
    let r := ev.result left
    let bytes := window s.input s.taken r.toNat
    if addr + bytes.length ≤ memory.length ∨ bytes = [] then
      .ok (⟨addr, left, r⟩, { s with taken := s.taken + bytes.length }, splice memory addr bytes)
    else .error .outOfBounds

/-- `write((char*)buffer + offset, left)`. -/
def writeTransfer (buffer : List UInt8) : Transfer Stream := fun ev offset left s =>
  let r := ev.result left
  if offset + r.toNat ≤ buffer.length ∨ r.toNat = 0 then
    .ok (⟨offset, left, r⟩, { s with output := s.output ++ slice buffer offset r.toNat })
  else .error .outOfBounds

/-- `Stream::readFixSize(void* buffer, size_t length)`, with `buffer` the address of
`memory[base]`. -/
def readFixSize (s : Stream) (memory : List UInt8) (base length : Nat) :
    FixRun (Stream × List UInt8) :=
  let run := fixLoop (readTransfer base) length s.reads 0 length (s, memory)
  { run with dev := ({ run.dev.1 with reads := run.rest }, run.dev.2) }

/-- `Stream::writeFixSize(const void* buffer, size_t length)`. -/
def writeFixSize (s : Stream) (buffer : List UInt8) (length : Nat) : FixRun Stream :=
  let run := fixLoop (writeTransfer buffer) length s.writes 0 length s
  { run with dev := { run.dev with writes := run.rest } }

/-! ## What callers rely on -/

/-- The contract of a transfer of `length` bytes at `start`, seen after `moved`
of them have been moved. -/
structure FixRun.SoundFrom {δ : Type} (run : FixRun δ) (start length moved : Nat) : Prop where
  /-- it returns `length` iff the results before any non-positive one add up to it -/
  complete : run.status = .returned length ↔
    moved + ((run.calls.map IoCall.result).takeWhile (0 < ·)).sum = length
  /-- it stops at the first non-positive result and returns it -/
  stops : ∀ pre c post, run.calls = pre ++ c :: post → c.result ≤ 0 →
    post = [] ∧ run.status = .returned c.result
  /-- no call is given an address outside the buffer -/
  inBounds : ∀ c ∈ run.calls, start ≤ c.addr ∧ c.addr + c.left ≤ start + length

/-- The contract of a transfer of `length` bytes at `start`. -/
abbrev FixRun.Sound {δ : Type} (run : FixRun δ) (start length : Nat) : Prop :=
  run.SoundFrom start length 0

/-- Going through the events, a failure comes up while some of `left` bytes are
still missing.  `avail` is how many bytes there are to move. -/
def meetsError : List Event → Nat → Nat → Bool
  | _, 0, _ => false
  | [], _ + 1, _ => false
  | .moves k _ _ :: events, left + 1, avail =>
      if avail = 0 then false
      else meetsError events (left + 1 - min k avail) (avail - k)
  | .closed :: _, _ + 1, _ => false
  | .fails _ _ _ :: _, _ + 1, _ => true
  | .disconnected :: _, _ + 1, _ => true

/-! ## The loop over a device that moves bytes one after the other -/

/-- `I d dev` holds of the device after `d` bytes.  From such a state every call
is given the next address, moves what the event allows and keeps `I`; `limit`
is how many bytes there are to move. -/
structure InOrder {δ : Type} (io : Transfer δ) (start length limit : Nat)
    (I : Nat → δ → Prop) : Prop where
  call : ∀ ev d dev, d < length → I d dev → ∃ c dev', io ev d (length - d) dev = .ok (c, dev') ∧
    c.addr = start + d ∧ c.left ≤ length - d ∧
    c.result = ev.result (min (length - d) (limit - d)) ∧
    (0 ≤ c.result → I (d + c.result.toNat) dev')

section Loop

variable {δ : Type} {io : Transfer δ} {start length limit : Nat} {I : Nat → δ → Prop}

theorem fixLoop_done (io : Transfer δ) (length : Nat) (events : List Event) (offset : Nat)
    (dev : δ) :
    fixLoop io length events offset 0 dev = ⟨[], .returned (int32 length), dev, events⟩ := by
  cases events <;> rfl

/-- One round of the loop. -/
theorem fixLoop_round {ev : Event} {offset left : Nat} {dev dev' : δ} {c : IoCall}
    (hleft : 0 < left) (hio : io ev offset left dev = .ok (c, dev')) (events : List Event) :
    fixLoop io length (ev :: events) offset left dev =
      if sizeT c.result ≤ 0 then ⟨[c], .returned (int32 (sizeT c.result)), dev', events⟩
      else
        let run := fixLoop io length events (addSize offset (sizeT c.result))
          (subSize left (sizeT c.result)) dev'
        { run with calls := c :: run.calls } := by
  obtain ⟨n, rfl⟩ : ∃ n, left = n + 1 := ⟨left - 1, by omega⟩
  rw [fixLoop, hio]

theorem fixLoop_blocked (io : Transfer δ) (length offset : Nat) {left : Nat} (dev : δ)
    (hleft : 0 < left) : fixLoop io length [] offset left dev = ⟨[], .blocked, dev, []⟩ := by
  obtain ⟨n, rfl⟩ : ∃ n, left = n + 1 := ⟨left - 1, by omega⟩
  rw [fixLoop]

/-! ### What one call does to the contract -/

section Contract

variable {run : FixRun δ} {c : IoCall} {d : Nat}

theorem FixRun.soundFrom_returned (dev : δ) (events : List Event) :
    (FixRun.mk [] (.returned length) dev events).SoundFrom start length length where
  complete := by simp
  stops := by simp
  inBounds := by simp

theorem FixRun.soundFrom_blocked (dev : δ) (hd : d < length) :
    (FixRun.mk [] .blocked dev []).SoundFrom start length d where
  complete := by
    simp only [List.map_nil, List.takeWhile_nil, List.sum_nil, reduceCtorEq, false_iff]
    omega
  stops := by simp
  inBounds := by simp

theorem FixRun.soundFrom_closed (dev : δ) (events : List Event) (hd : d < length)
    (hzero : c.result = 0) (hlow : start ≤ c.addr) (hhigh : c.addr + c.left ≤ start + length) :
    (FixRun.mk [c] (.returned 0) dev events).SoundFrom start length d where
  complete := by
    simp [hzero]
    omega
  stops := by
    intro pre c' post hcalls _
    cases pre with
    | nil =>
        cases hcalls
        exact ⟨rfl, by rw [hzero]⟩
    | cons _ pre => simp at hcalls
  inBounds := by
    intro c' hc'
    rw [List.mem_singleton] at hc'
    subst hc'
    exact ⟨hlow, hhigh⟩

/-- A positive result moves the contract on by as many bytes. -/
theorem FixRun.soundFrom_cons (hpos : 0 < c.result) (hlow : start ≤ c.addr)
    (hhigh : c.addr + c.left ≤ start + length) :
    ({ run with calls := c :: run.calls }).SoundFrom start length d ↔
      run.SoundFrom start length (d + c.result.toNat) := by
  have hcast : ((d + c.result.toNat : Nat) : Int) = d + c.result := by
    rw [Nat.cast_add, Int.toNat_of_nonneg (by omega)]
  have hsum : (d : Int) + (((c :: run.calls).map IoCall.result).takeWhile (0 < ·)).sum
      = (d + c.result.toNat : Nat) + ((run.calls.map IoCall.result).takeWhile (0 < ·)).sum := by
    rw [List.map_cons, List.takeWhile_cons_of_pos (by simpa using hpos), List.sum_cons, hcast]
    omega
  constructor
  · intro h
    refine ⟨?_, ?_, fun c' hc' => h.inBounds c' (List.mem_cons_of_mem c hc')⟩
    · rw [← hsum]
      exact h.complete
    · intro pre c' post hcalls hneg
      exact h.stops (c :: pre) c' post (by rw [List.cons_append, ← hcalls]) hneg
  · intro h
    refine ⟨?_, ?_, ?_⟩
    · rw [hsum]
      exact h.complete
    · intro pre c' post hcalls hneg
      cases pre with
      | nil =>
          cases hcalls
          omega
      | cons p pre =>
          have htail : run.calls = pre ++ c' :: post := (List.cons.inj hcalls).2
          exact h.stops pre c' post htail hneg
    · intro c' hc'
      rcases List.mem_cons.mp hc' with rfl | hc'
      · exact ⟨hlow, hhigh⟩
      · exact h.inBounds c' hc'

end Contract

/-- The size of the next call after a failure: the `size_t` subtraction adds the
error to `left`. -/
theorem subSize_error {left : Nat} {e : Int} (hneg : e < 0) (hfits : -2 ^ 31 ≤ e)
    (hleft : 0 < left) (hlen : left < 2 ^ 31) : 0 < subSize left (sizeT e) := by
  have hsize := sizeT_neg hneg (by omega)
  unfold subSize
  omega

theorem subSize_moved {left m : Nat} (hleft : left < 2 ^ 64) (hm : m ≤ left) :
    subSize left (sizeT m) = left - m := by
  rw [sizeT_natCast (by omega), subSize_of_le hleft hm]

theorem addSize_moved {offset m : Nat} (h : offset + m < 2 ^ 64) :
    addSize offset (sizeT m) = offset + m := by
  rw [sizeT_natCast (by omega), addSize_of_lt h]

/-- After a failure the loop goes on, so whatever comes next breaks the contract. -/
theorem fixLoop_after_error {ev : Event} {d : Nat} {dev dev' : δ} {c : IoCall}
    (hio : io ev d (length - d) dev = .ok (c, dev')) (hd : d < length) (hlen : length < 2 ^ 31)
    (hneg : c.result < 0) (hfits : -2 ^ 31 ≤ c.result) (events : List Event) (moved : Nat) :
    ¬ (fixLoop io length (ev :: events) d (length - d) dev).SoundFrom start length moved := by
  intro h
  have hsize := sizeT_neg hneg (by omega)
  have hleft := subSize_error hneg hfits (by omega : 0 < length - d) (by omega)
  rw [fixLoop_round (by omega) hio, if_neg (by omega)] at h
  obtain ⟨hpost, hstatus⟩ := h.stops [] c _ rfl (by omega)
  cases events with
  | nil =>
      simp only [fixLoop_blocked io length _ dev' hleft] at hstatus
      cases hstatus
  | cons next events =>
      cases hnext : io next (addSize d (sizeT c.result))
          (subSize (length - d) (sizeT c.result)) dev' with
      | error f =>
          obtain ⟨n, hn⟩ : ∃ n, subSize (length - d) (sizeT c.result) = n + 1 :=
            ⟨subSize (length - d) (sizeT c.result) - 1, by omega⟩
          rw [hn] at hnext
          simp only [hn, fixLoop, hnext] at hstatus
          cases hstatus
      | ok res =>
          rw [fixLoop_round hleft hnext] at hpost
          split at hpost <;> cases hpost

/-- A round that moves bytes: the loop meets its contract iff the rest of it
does, and it goes on with the bytes still missing. -/
theorem fixLoop_moves (hio : InOrder io start length limit I) (hlen : length < 2 ^ 64)
    {k : Nat} {hk : 0 < k} {hfits : k < 2 ^ 31} (events : List Event) {d : Nat} (hd : d < length)
    (havail : d < limit) {dev : δ} (hdev : I d dev) :
    ∃ c m dev', 0 < m ∧ d + m ≤ length ∧ I (d + m) dev' ∧
      (start ≤ c.addr ∧ c.addr + c.left ≤ start + length) ∧
      meetsError (.moves k hk hfits :: events) (length - d) (limit - d)
        = meetsError events (length - (d + m)) (limit - (d + m)) ∧
      let rest := fixLoop io length events (d + m) (length - (d + m)) dev'
      let run := fixLoop io length (.moves k hk hfits :: events) d (length - d) dev
      run = { rest with calls := c :: rest.calls } ∧
        (run.SoundFrom start length d ↔ rest.SoundFrom start length (d + m)) := by
  obtain ⟨c, dev', hcall, haddr, hleft, hresult, hnext⟩ :=
    hio.call (.moves k hk hfits) d dev hd hdev
  obtain ⟨m, hm⟩ : ∃ m, m = min k (min (length - d) (limit - d)) := ⟨_, rfl⟩
  have hmoved : c.result = (m : Nat) := by
    rw [hm]
    exact hresult
  have hdev' : I (d + m) dev' := by
    have := hnext (by omega)
    rwa [hmoved, Int.toNat_natCast] at this
  refine ⟨c, m, dev', by omega, by omega, hdev', by omega, ?_, ?_⟩
  · obtain ⟨n, hn⟩ : ∃ n, length - d = n + 1 := ⟨length - d - 1, by omega⟩
    rw [hn, meetsError, if_neg (by omega : ¬ limit - d = 0)]
    by_cases hlast : length - (d + m) = 0
    · rw [hlast, (by omega : n + 1 - min k (limit - d) = 0)]
      cases events <;> rfl
    · rw [(by omega : length - (d + m) = n + 1 - min k (limit - d)),
        (by omega : limit - (d + m) = limit - d - k)]
  · rw [fixLoop_round (by omega) hcall,
      if_neg (by rw [hmoved, sizeT_natCast (by omega)]; omega), hmoved,
      addSize_moved (by omega), subSize_moved (by omega) (by omega), Nat.sub_sub]
    refine ⟨rfl, ?_⟩
    rw [FixRun.soundFrom_cons (by omega) (by omega) (by omega), hmoved, Int.toNat_natCast]

/-- Without a failure the loop meets its contract, and a complete transfer has
moved exactly `length` bytes. -/
theorem fixLoop_sound (hio : InOrder io start length limit I) (hlen : length < 2 ^ 31)
    (events : List Event) {d : Nat} (hd : d ≤ length) {dev : δ} (hdev : I d dev)
    (hclean : meetsError events (length - d) (limit - d) = false) :
    let run := fixLoop io length events d (length - d) dev
    run.SoundFrom start length d ∧ (run.status = .returned length → I length run.dev) := by
  induction events generalizing d dev with
  | nil =>
      by_cases hend : d = length
      · subst hend
        rw [Nat.sub_self, fixLoop_done, int32_natCast hlen]
        exact ⟨FixRun.soundFrom_returned dev [], fun _ => hdev⟩
      · rw [fixLoop_blocked io length d dev (by omega)]
        exact ⟨FixRun.soundFrom_blocked dev (by omega), fun h => by cases h⟩
  | cons ev events ih =>
      by_cases hend : d = length
      · subst hend
        rw [Nat.sub_self, fixLoop_done, int32_natCast hlen]
        exact ⟨FixRun.soundFrom_returned dev _, fun _ => hdev⟩
      · obtain ⟨c, dev', hcall, haddr, hleft, hresult, _⟩ := hio.call ev d dev (by omega) hdev
        obtain ⟨n, hn⟩ : ∃ n, length - d = n + 1 := ⟨length - d - 1, by omega⟩
        have hstop : c.result = 0 →
            let run := fixLoop io length (ev :: events) d (length - d) dev
            run.SoundFrom start length d ∧ (run.status = .returned length → I length run.dev) := by
          intro hzero
          rw [fixLoop_round (by omega) hcall, hzero, sizeT_zero, if_pos (Nat.le_refl 0),
            Nat.cast_zero, int32_zero]
          refine ⟨FixRun.soundFrom_closed dev' events (by omega) hzero (by omega) (by omega), ?_⟩
          intro h
          have hlength : (0 : Int) = length := Status.returned.inj h
          omega
        cases ev with
        | closed => exact hstop hresult
        | fails e _ _ =>
            rw [hn] at hclean
            cases hclean
        | disconnected =>
            rw [hn] at hclean
            cases hclean
        | moves k hk hkfits =>
            by_cases havail : limit - d = 0
            · exact hstop (by rw [hresult, havail]; simp [Event.result])
            · obtain ⟨c, m, dev', _, hle, hdev', _, herr, hrun, hsound⟩ :=
                fixLoop_moves hio (by omega) events (by omega) (by omega) hdev
              rw [herr] at hclean
              obtain ⟨hrest, hend⟩ := ih hle hdev' hclean
              refine ⟨hsound.mpr hrest, ?_⟩
              rw [hrun]
              exact hend

theorem fixLoop_unsound (hio : InOrder io start length limit I) (hlen : length < 2 ^ 31)
    (events : List Event) {d : Nat} (hd : d ≤ length) {dev : δ} (hdev : I d dev)
    (herror : meetsError events (length - d) (limit - d) = true) :
    ¬ (fixLoop io length events d (length - d) dev).SoundFrom start length d := by
  induction events generalizing d dev with
  | nil =>
      unfold meetsError at herror
      split at herror <;> simp_all
  | cons ev events ih =>
      by_cases hend : length - d = 0
      · rw [hend] at herror
        cases herror
      · obtain ⟨c, dev', hcall, _, _, hresult, _⟩ := hio.call ev d dev (by omega) hdev
        obtain ⟨n, hn⟩ : ∃ n, length - d = n + 1 := ⟨length - d - 1, by omega⟩
        cases ev with
        | closed =>
            rw [hn] at herror
            cases herror
        | fails e hneg hfits =>
            have hresult' : c.result = e := hresult
            exact fixLoop_after_error hcall (by omega) hlen (by omega) (by omega) events d
        | disconnected =>
            have hresult' : c.result = -1 := hresult
            exact fixLoop_after_error hcall (by omega) hlen (by omega) (by omega) events d
        | moves k hk hkfits =>
            by_cases havail : limit - d = 0
            · rw [hn, meetsError, if_pos havail] at herror
              cases herror
            · obtain ⟨c, m, dev', _, hle, hdev', _, herr, _, hsound⟩ :=
                fixLoop_moves hio (by omega) events (by omega) (by omega) hdev
              rw [herr] at herror
              rw [hsound]
              exact ih hle hdev' herror

/-- Also a transfer of `2^31` bytes or more stays inside its buffer without a failure. -/
theorem fixLoop_inBounds (hio : InOrder io start length limit I) (hlen : length < 2 ^ 64)
    (events : List Event) {d : Nat} (hd : d ≤ length) {dev : δ} (hdev : I d dev)
    (hclean : meetsError events (length - d) (limit - d) = false) :
    ∀ c ∈ (fixLoop io length events d (length - d) dev).calls,
      start ≤ c.addr ∧ c.addr + c.left ≤ start + length := by
  induction events generalizing d dev with
  | nil =>
      intro c hc
      by_cases hend : length - d = 0
      · rw [hend, fixLoop_done] at hc
        cases hc
      · rw [fixLoop_blocked io length d dev (by omega)] at hc
        cases hc
  | cons ev events ih =>
      by_cases hend : length - d = 0
      · intro c hc
        rw [hend, fixLoop_done] at hc
        cases hc
      · obtain ⟨c, dev', hcall, haddr, hleft, hresult, _⟩ := hio.call ev d dev (by omega) hdev
        obtain ⟨n, hn⟩ : ∃ n, length - d = n + 1 := ⟨length - d - 1, by omega⟩
        have hstop : c.result = 0 →
          ∀ c' ∈ (fixLoop io length (ev :: events) d (length - d) dev).calls,
            start ≤ c'.addr ∧ c'.addr + c'.left ≤ start + length := by
          intro hzero c' hc'
          rw [fixLoop_round (by omega) hcall, hzero, sizeT_zero, if_pos (Nat.le_refl 0),
            List.mem_singleton] at hc'
          subst hc'
          omega
        cases ev with
        | closed => exact hstop hresult
        | fails e _ _ =>
            rw [hn] at hclean
            cases hclean
        | disconnected =>
            rw [hn] at hclean
            cases hclean
        | moves k hk hkfits =>
            by_cases havail : limit - d = 0
            · exact hstop (by rw [hresult, havail]; simp [Event.result])
            · obtain ⟨c, m, dev', _, hle, hdev', hbounds, herr, hrun, _⟩ :=
                fixLoop_moves hio hlen events (by omega) (by omega) hdev
              rw [herr] at hclean
              rw [hrun]
              intro c' hc'
              rcases List.mem_cons.mp hc' with rfl | hc'
              · exact hbounds
              · exact ih hle hdev' hclean c' hc'

theorem fixLoop_rest_le (events : List Event) (offset left : Nat) (dev : δ) :
    (fixLoop io length events offset left dev).rest.length ≤ events.length := by
  induction events generalizing offset left dev with
  | nil => cases left <;> exact Nat.le_refl _
  | cons ev events ih =>
      cases left with
      | zero => exact Nat.le_refl _
      | succ n =>
          rw [fixLoop]
          split
          · exact Nat.le_succ _
          · simp only
            split
            · exact Nat.le_succ _
            · exact (ih _ _ _).trans (Nat.le_succ _)

/-- A transfer that returns has used up an event. -/
theorem fixLoop_rest_lt (events : List Event) (offset : Nat) {left : Nat} (hleft : 0 < left)
    (dev : δ) {v : Int}
    (hstatus : (fixLoop io length events offset left dev).status = .returned v) :
    (fixLoop io length events offset left dev).rest.length < events.length := by
  obtain ⟨n, rfl⟩ : ∃ n, left = n + 1 := ⟨left - 1, by omega⟩
  cases events with
  | nil => cases hstatus
  | cons ev events =>
      rw [fixLoop, List.length_cons]
      split
      · exact Nat.lt_succ_self _
      · simp only
        split
        · exact Nat.lt_succ_self _
        · exact Nat.lt_succ_of_le (fixLoop_rest_le events _ _ _)

/-- What every call keeps, the whole loop keeps. -/
theorem fixLoop_invariant {Q : δ → Prop}
    (hio : ∀ ev offset left dev c dev', io ev offset left dev = .ok (c, dev') → Q dev → Q dev')
    (events : List Event) (offset left : Nat) {dev : δ} (hdev : Q dev) :
    Q (fixLoop io length events offset left dev).dev := by
  induction events generalizing offset left dev with
  | nil => cases left <;> exact hdev
  | cons ev events ih =>
      cases left with
      | zero => exact hdev
      | succ n =>
          rw [fixLoop]
          cases hcall : io ev offset (n + 1) dev with
          | error f => exact hdev
          | ok result =>
              have hdev' := hio _ _ _ _ _ _ hcall hdev
              simp only
              split
              · exact hdev'
              · exact ih _ _ hdev'

/-- The loop does what it promises exactly when no failure comes up. -/
theorem fixLoop_sound_iff (hio : InOrder io start length limit I) (hlen : length < 2 ^ 31)
    (events : List Event) {dev : δ} (hdev : I 0 dev) :
    (fixLoop io length events 0 length dev).Sound start length ↔
      meetsError events length limit = false := by
  constructor
  · intro hsound
    by_contra herror
    exact fixLoop_unsound hio hlen events (Nat.zero_le _) hdev (Bool.not_eq_false _ ▸ herror) hsound
  · intro hclean
    exact (fixLoop_sound hio hlen events (Nat.zero_le _) hdev hclean).1

/-- The bytes of a complete transfer. -/
theorem fixLoop_complete (hio : InOrder io start length limit I) (hlen : length < 2 ^ 31)
    {events : List Event} {dev : δ} (hdev : I 0 dev)
    (hclean : meetsError events length limit = false)
    (hstatus : (fixLoop io length events 0 length dev).status = .returned length) :
    I length (fixLoop io length events 0 length dev).dev :=
  (fixLoop_sound hio hlen events (Nat.zero_le _) hdev hclean).2 hstatus

end Loop

/-! ## Plain buffers -/

@[simp] theorem length_window (input : Nat → UInt8) (i n : Nat) :
    (window input i n).length = n := by
  simp [window]

@[simp] theorem window_zero (input : Nat → UInt8) (i : Nat) : window input i 0 = [] := rfl

theorem window_append_window (input : Nat → UInt8) (i m n : Nat) :
    window input i m ++ window input (i + m) n = window input i (m + n) := by
  unfold window
  rw [List.range_add, List.map_append, List.map_map]
  congr 2
  ext j
  simp [Nat.add_assoc]

theorem Event.result_le (room : Nat) (ev : Event) : ev.result room ≤ room := by
  cases ev with
  | moves k _ _ => simp only [result]; omega
  | closed => simp [result]
  | fails e neg _ => simp only [result]; omega
  | disconnected => simp only [result]; omega

theorem Event.result_lt (room : Nat) (ev : Event) : ev.result room < 2 ^ 31 := by
  cases ev with
  | moves k pos fits => simp only [result]; omega
  | closed => simp only [result]; omega
  | fails e neg fits => simp only [result]; omega
  | disconnected => simp only [result]; omega

/-- The device of a plain read after `d` bytes. -/
def received (s : Stream) (memory : List UInt8) (base d : Nat) : Stream × List UInt8 :=
  ({ s with taken := s.taken + d }, splice memory base (window s.input s.taken d))

theorem inOrder_readTransfer (s : Stream) {memory : List UInt8} {base length : Nat}
    (hfit : base + length ≤ memory.length) (hsize : memory.length < 2 ^ 64) :
    InOrder (readTransfer base) base length length
    (fun d dev => dev = received s memory base d) := by
  constructor
  intro ev d dev hd hdev
  subst hdev
  have hle := ev.result_le (length - d)
  have hbytes : (splice memory base (window s.input s.taken d)).length = memory.length :=
    length_splice _ _ _ (by rw [length_window]; omega)
  refine ⟨⟨base + d, length - d, ev.result (length - d)⟩,
    received s memory base (d + (ev.result (length - d)).toNat), ?_, rfl, Nat.le_refl _, ?_, ?_⟩
  · unfold readTransfer received
    simp only [addSize_of_lt (by omega : base + d < 2 ^ 64), length_window, hbytes]
    rw [if_pos (Or.inl (by omega))]
    have hjoin := splice_splice_adjacent memory base (window s.input s.taken d)
      (window s.input (s.taken + d) (ev.result (length - d)).toNat)
      (by rw [length_window, length_window]; omega)
    rw [length_window, window_append_window] at hjoin
    rw [hjoin, Nat.add_assoc]
  · rw [Nat.min_self]
  · exact fun _ => rfl

theorem inOrder_writeTransfer (s : Stream) {buffer : List UInt8} {length : Nat}
    (hfit : length ≤ buffer.length) :
    InOrder (writeTransfer buffer) 0 length length
      (fun d dev => dev = { s with output := s.output ++ slice buffer 0 d }) := by
  constructor
  intro ev d dev hd hdev
  subst hdev
  have hle := ev.result_le (length - d)
  refine ⟨⟨d, length - d, ev.result (length - d)⟩,
    { s with output := s.output ++ slice buffer 0 (d + (ev.result (length - d)).toNat) },
    ?_, (Nat.zero_add d).symm, Nat.le_refl _, ?_, ?_⟩
  · unfold writeTransfer
    simp only
    have hjoin := slice_append_slice buffer 0 d (ev.result (length - d)).toNat
    rw [Nat.zero_add] at hjoin
    rw [if_pos (Or.inl (by omega)), List.append_assoc, hjoin]
  · rw [Nat.min_self]
  · exact fun _ => rfl

/-- A read stores into its buffer, which keeps its length. -/
theorem length_readTransfer {base : Nat} {ev : Event} {offset left : Nat}
    {dev dev' : Stream × List UInt8} {c : IoCall}
    (h : readTransfer base ev offset left dev = .ok (c, dev')) : dev'.2.length = dev.2.length := by
  unfold readTransfer at h
  simp only at h
  split at h
  · rename_i hfit
    cases h
    rcases hfit with hfit | hnil
    · exact length_splice _ _ _ hfit
    · simp only [hnil, splice_nil]
  · cases h

/-- The contract does not look at the device. -/
theorem FixRun.sound_with_dev {δ : Type} {run : FixRun δ} {start length : Nat} (dev : δ) :
    ({ run with dev := dev }).Sound start length ↔ run.Sound start length :=
  ⟨fun h => ⟨h.complete, h.stops, h.inBounds⟩, fun h => ⟨h.complete, h.stops, h.inBounds⟩⟩

end Lyslg
