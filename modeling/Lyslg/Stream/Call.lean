import Lyslg.Stream.FixSize
import Lyslg.Support.State
/-!
# Programs over a stream

Protocol code reads and writes through the fixed-size transfers only.  `Exchange`
says that such a program, on a stream whose transfers all move bytes, takes
given bytes from the peer and sends it given bytes.  Exchanges compose.
-/

namespace Lyslg

open Support.Memory Support.Machine Support.State

/-- What keeps a call on a stream from returning. -/
inductive Stop where
  | blocked
  | fault (f : Fault)
  deriving DecidableEq

/-- A function that works on a stream. -/
abbrev StreamCall := EStateM Stop Stream

/-- Go on with the value a fixed-size transfer returned. -/
def FixRun.settle {δ α : Type} (run : FixRun δ) (stream : δ → Stream) (value : Int → δ → α) :
    EStateM.Result Stop Stream α :=
  match run.status with
  | .returned v => .ok (value v run.dev) (stream run.dev)
  | .blocked => .error .blocked (stream run.dev)
  | .fault f => .error (.fault f) (stream run.dev)

/-- `stream->readFixSize(&memory[base], length)`: its result, and `memory` after it. -/
def readFix (memory : List UInt8) (base length : Nat) : StreamCall (Int × List UInt8) := fun s =>
  (readFixSize s memory base length).settle (fun dev => dev.1) fun v dev => (v, dev.2)

/-- `stream->writeFixSize(buffer, length)` of a whole buffer. -/
def writeFix (buffer : List UInt8) : StreamCall Int := fun s =>
  (writeFixSize s buffer buffer.length).settle id fun v _ => v

/-- `stream->close()`. -/
def closeStream : StreamCall Unit :=
  modify fun s => { s with closed := true }

/-! ## Read events are used up -/

/-- The call does not add to the read events. -/
def Consumes {α : Type} (x : StreamCall α) : Prop :=
  ∀ s a t, x s = .ok a t → t.reads.length ≤ s.reads.length

theorem consumes_pure {α : Type} (a : α) : Consumes (pure a : StreamCall α) := by
  intro s _ t h
  cases h
  exact Nat.le_refl _

theorem Consumes.bind {α β : Type} {x : StreamCall α} {f : α → StreamCall β} (hx : Consumes x)
    (hf : ∀ a, Consumes (f a)) : Consumes (x >>= f) := by
  intro s b t h
  obtain ⟨a, u, hrun, hrest⟩ := bind_inv h
  exact (hf a u b t hrest).trans (hx s a u hrun)

theorem readFix_reads_lt {memory : List UInt8} {base length : Nat} (hlength : 0 < length)
    {s t : Stream} {r : Int × List UInt8} (h : readFix memory base length s = .ok r t) :
    t.reads.length < s.reads.length := by
  unfold readFix FixRun.settle at h
  split at h
  · rename_i hstatus
    cases h
    exact fixLoop_rest_lt s.reads 0 hlength _ hstatus
  · cases h
  · cases h

theorem consumes_readFix (memory : List UInt8) (base length : Nat) :
    Consumes (readFix memory base length) := by
  intro s r t h
  unfold readFix FixRun.settle at h
  split at h
  · cases h
    exact fixLoop_rest_le s.reads 0 length _
  · cases h
  · cases h

theorem consumes_writeFix (buffer : List UInt8) : Consumes (writeFix buffer) := by
  intro s v t h
  have hkeep : (fixLoop (writeTransfer buffer) buffer.length s.writes 0 buffer.length s).dev.reads
      = s.reads := by
    apply fixLoop_invariant (Q := fun dev : Stream => dev.reads = s.reads)
    · intro ev offset left dev c dev' hcall hdev
      unfold writeTransfer at hcall
      simp only at hcall
      split at hcall
      · cases hcall
        exact hdev
      · cases hcall
    · rfl
  unfold writeFix FixRun.settle at h
  split at h
  · cases h
    exact Nat.le_of_eq (congrArg List.length hkeep)
  · cases h
  · cases h

theorem consumes_closeStream : Consumes closeStream := by
  intro s _ t h
  cases h
  exact Nat.le_refl _

/-! ## Streams whose transfers move bytes -/

/-- The next `n` events each move at least one byte, so `n` bytes get through
however they are cut. -/
def Flows (events : List Event) (n : Nat) : Prop :=
  n ≤ events.length ∧ ∀ ev ∈ events.take n, ∃ k hk hfits, ev = .moves k hk hfits

theorem flows_zero (events : List Event) : Flows events 0 :=
  ⟨Nat.zero_le _, by simp⟩

theorem Flows.weaken {events : List Event} {m n : Nat} (h : Flows events n) (hle : m ≤ n) :
    Flows events m := by
  refine ⟨hle.trans h.1, fun ev hev => h.2 ev ?_⟩
  exact (List.take_prefix_take_left hle).subset hev

/-- The first of the events, and the rest. -/
theorem Flows.uncons {ev : Event} {events : List Event} {n : Nat} (h : Flows (ev :: events) n)
    (hn : 0 < n) : (∃ k hk hfits, ev = .moves k hk hfits) ∧ Flows events (n - 1) := by
  obtain ⟨m, rfl⟩ : ∃ m, n = m + 1 := ⟨n - 1, by omega⟩
  obtain ⟨hlen, hmoves⟩ := h
  rw [List.take_succ_cons, List.forall_mem_cons] at hmoves
  exact ⟨hmoves.1, Nat.le_of_succ_le_succ hlen, hmoves.2⟩

/-- There is no failure among them. -/
theorem Flows.clean {events : List Event} {n : Nat} (h : Flows events n) (avail : Nat) :
    meetsError events n avail = false := by
  induction events generalizing n avail with
  | nil => cases n <;> rfl
  | cons ev events ih =>
      cases n with
      | zero => rfl
      | succ n =>
          obtain ⟨⟨k, hk, hfits, rfl⟩, hrest⟩ := h.uncons (Nat.succ_pos n)
          rw [meetsError]
          split
          · rfl
          · exact ih (hrest.weaken (by omega)) _

/-- Over such events the loop returns `length`, as an `int`, after all its bytes. -/
theorem fixLoop_flows {δ : Type} {io : Transfer δ} {start length : Nat} {I : Nat → δ → Prop}
    (hio : InOrder io start length length I) (hlen : length < 2 ^ 64) {events : List Event}
    {d more : Nat} (hd : d ≤ length) {dev : δ} (hdev : I d dev)
    (hflow : Flows events (length - d + more)) :
    let run := fixLoop io length events d (length - d) dev
    run.status = .returned (int32 length) ∧ I length run.dev ∧ Flows run.rest more := by
  induction events generalizing d dev with
  | nil =>
      have hroom := hflow.1
      rw [List.length_nil] at hroom
      have hend : d = length := by omega
      subst hend
      rw [Nat.sub_self, fixLoop_done]
      exact ⟨rfl, hdev, hflow.weaken (by omega)⟩
  | cons ev events ih =>
      by_cases hend : d = length
      · subst hend
        rw [Nat.sub_self, fixLoop_done]
        exact ⟨rfl, hdev, hflow.weaken (by omega)⟩
      · obtain ⟨⟨k, hk, hfits, rfl⟩, hrest⟩ := hflow.uncons (by omega)
        obtain ⟨c, m, dev', hpos, hle, hdev', _, _, hrun, _⟩ :=
          fixLoop_moves hio hlen events (by omega) (by omega) hdev
        rw [hrun]
        exact ih hle hdev' (hrest.weaken (by omega))

/-! ## Exchanges -/

/-- The peer's next bytes are `inp`, and the transfers move at least these bytes
in and `outgoing` bytes out. -/
structure Ready (s : Stream) (inp : List UInt8) (outgoing : Nat) : Prop where
  input : window s.input s.taken inp.length = inp
  reads : Flows s.reads inp.length
  writes : Flows s.writes outgoing

/-- `s'` is `s` after taking `inp` and sending `out`. -/
structure Exchanged (s : Stream) (inp out : List UInt8) (s' : Stream) : Prop where
  input_eq : s'.input = s.input
  taken_eq : s'.taken = s.taken + inp.length
  output_eq : s'.output = s.output ++ out

/-- The call takes `inp`, sends `out` and returns `v`. -/
def Exchange {α : Type} (x : StreamCall α) (inp out : List UInt8) (v : α) : Prop :=
  ∀ s rest more, Ready s (inp ++ rest) (out.length + more) →
    ∃ s', x s = .ok v s' ∧ Exchanged s inp out s' ∧ Ready s' rest more

theorem window_split {input : Nat → UInt8} {i : Nat} {a b : List UInt8}
    (h : window input i (a ++ b).length = a ++ b) :
    window input i a.length = a ∧ window input (i + a.length) b.length = b := by
  rw [List.length_append, ← window_append_window] at h
  exact List.append_inj h (length_window _ _ _)

theorem exchange_pure {α : Type} (v : α) : Exchange (pure v : StreamCall α) [] [] v := by
  intro s rest more hready
  refine ⟨s, rfl, ⟨rfl, rfl, (List.append_nil _).symm⟩, ?_⟩
  rwa [List.nil_append, List.length_nil, Nat.zero_add] at hready

theorem Exchange.bind {α β : Type} {x : StreamCall α} {f : α → StreamCall β}
    {a b o p : List UInt8} {v : α} {w : β} (hx : Exchange x a o v) (hf : Exchange (f v) b p w) :
    Exchange (x >>= f) (a ++ b) (o ++ p) w := by
  intro s rest more hready
  rw [List.append_assoc, List.length_append, Nat.add_assoc] at hready
  obtain ⟨s', hrun, hmid, hready'⟩ := hx s (b ++ rest) (p.length + more) hready
  obtain ⟨s'', hrun', hend, hready''⟩ := hf s' rest more hready'
  refine ⟨s'', (bind_ok hrun).trans hrun', ⟨?_, ?_, ?_⟩, hready''⟩
  · rw [hend.input_eq, hmid.input_eq]
  · rw [hend.taken_eq, hmid.taken_eq, List.length_append, Nat.add_assoc]
  · rw [hend.output_eq, hmid.output_eq, List.append_assoc]

theorem exchange_closeStream : Exchange closeStream [] [] () := by
  intro s rest more hready
  refine ⟨{ s with closed := true }, rfl, ⟨rfl, rfl, (List.append_nil _).symm⟩, ?_⟩
  rw [List.nil_append, List.length_nil, Nat.zero_add] at hready
  exact ⟨hready.input, hready.reads, hready.writes⟩

theorem exchange_readFix (memory bytes : List UInt8) (base : Nat)
    (hfit : base + bytes.length ≤ memory.length) (hsize : memory.length < 2 ^ 64) :
    Exchange (readFix memory base bytes.length) bytes []
      (int32 bytes.length, splice memory base bytes) := by
  intro s rest more hready
  obtain ⟨hbytes, hnext⟩ := window_split hready.input
  have hio := inOrder_readTransfer s hfit hsize
  have hstart : (s, memory) = received s memory base 0 := by simp [received]
  have hreads := hready.reads
  rw [List.length_append] at hreads
  obtain ⟨hstatus, hdev, hflow⟩ :=
    fixLoop_flows hio (by omega) (Nat.zero_le _) hstart hreads
  rw [Nat.sub_zero] at hstatus hdev hflow
  refine ⟨{ s with
      taken := s.taken + bytes.length
      reads := (fixLoop (readTransfer base) bytes.length s.reads 0 bytes.length (s, memory)).rest },
    ?_, ⟨rfl, rfl, (List.append_nil _).symm⟩, ⟨hnext, hflow, ?_⟩⟩
  · unfold readFix FixRun.settle readFixSize
    simp only [hstatus, hdev, received, hbytes]
  · have hwrites := hready.writes
    rwa [List.length_nil, Nat.zero_add] at hwrites

theorem exchange_readFix_whole {memory : List UInt8} (bytes : List UInt8) {n : Nat}
    (hmemory : memory.length = n)
    (hbytes : bytes.length = n) (hsize : n < 2 ^ 64) :
    Exchange (readFix memory 0 n) bytes [] (int32 n, bytes) := by
  subst hbytes
  have h := exchange_readFix memory bytes 0 (by omega) (by omega)
  rwa [splice_whole hmemory] at h

theorem exchange_writeFix {buffer : List UInt8} (hsize : buffer.length < 2 ^ 64) :
    Exchange (writeFix buffer) [] buffer (int32 buffer.length) := by
  intro s rest more hready
  rw [List.nil_append] at hready
  have hio := inOrder_writeTransfer s (Nat.le_refl buffer.length)
  have hstart : s = { s with output := s.output ++ slice buffer 0 0 } := by simp
  obtain ⟨hstatus, hdev, hflow⟩ :=
    fixLoop_flows hio hsize (Nat.zero_le _) hstart hready.writes
  rw [Nat.sub_zero] at hstatus hdev hflow
  refine ⟨{ s with
      output := s.output ++ buffer
      writes := (fixLoop (writeTransfer buffer) buffer.length s.writes 0 buffer.length s).rest },
    ?_, ⟨rfl, rfl, rfl⟩, ⟨hready.input, hready.reads, hflow⟩⟩
  unfold writeFix FixRun.settle writeFixSize
  simp only [hstatus, hdev, slice_full]
  rfl

/-! ## A stream of given bytes -/

theorem flows_replicate (n : Nat) {k : Nat} (hk : 0 < k) (hfits : k < 2 ^ 31) :
    Flows (List.replicate n (.moves k hk hfits)) n := by
  refine ⟨by rw [List.length_replicate], fun ev hev => ⟨k, hk, hfits, ?_⟩⟩
  exact List.eq_of_mem_replicate (List.mem_of_mem_take hev)

/-- The peer sends `bytes`, and they and `outgoing` bytes out move one at a time. -/
def Stream.ofBytes (bytes : List UInt8) (outgoing : Nat) : Stream where
  input i := bytes.getD i 0
  taken := 0
  reads := List.replicate bytes.length (.moves 1 (by decide) (by decide))
  output := []
  writes := List.replicate outgoing (.moves 1 (by decide) (by decide))
  closed := false

theorem ready_ofBytes (bytes : List UInt8) (outgoing : Nat) :
    Ready (Stream.ofBytes bytes outgoing) bytes outgoing := by
  refine ⟨?_, flows_replicate _ _ _, flows_replicate _ _ _⟩
  unfold window Stream.ofBytes
  apply List.ext_getElem
  · simp
  · intro i _ hi
    simp [hi]

end Lyslg
